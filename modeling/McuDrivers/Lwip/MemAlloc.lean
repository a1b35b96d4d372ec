import McuDrivers.Lwip.MemOps

set_option autoImplicit false

/-! # lwIP heap: `mem_malloc`

The search begins at `lfree`, before which nothing is free, and takes the first block with enough room.
What is too much becomes a block of its own if it can be one. -/

namespace Lwip

open Tiling

variable {h : Heap} {ram : Ram} {bs xs ys : List Block} {n m size p a : Nat}

theorem len_le_total {b : Block} (hb : b ∈ bs) : b.len ≤ total bs := by
  induction bs with
  | nil => exact absurd hb (by simp)
  | cons c bs ih =>
      rw [total_cons]
      rcases List.mem_cons.mp hb with rfl | hb
      · exact Nat.le_add_right _ _
      · exact Nat.le_trans (ih hb) (Nat.le_add_left _ _)

/-- The room of a block: what its header leaves. -/
theorem userSize_of_next (hnext : memNext ram a = a + n) (hn : 8 ≤ n) (ha : a + n ≤ 20480) :
    userSize ram a = n - 8 := by
  rw [userSize, hnext, sizeofStructMem_eq]
  simp only [sub32]
  omega

/-! ## The search -/

/-- The search ends at the first free block with enough room, or finds that there is none. -/
theorem findFree_spec {fuel : Nat} (hl : Linked ram p a ys) (hsize : Sized ys)
    (htotal : a + total ys = 20480) (hfuel : ys.length < fuel) (hle : size ≤ 20480) :
    (findFree ram size fuel a = .ok none ∧ ∀ b ∈ ys, b.used = false → b.len < size + 8) ∨
      ∃ xs m zs, ys = xs ++ ⟨m, false⟩ :: zs ∧ size + 8 ≤ m ∧
        (∀ b ∈ xs, b.used = false → b.len < size + 8) ∧
        findFree ram size fuel a = .ok (some (a + total xs)) := by
  obtain ⟨fuel, rfl⟩ : ∃ f, fuel = f + 1 := ⟨fuel - 1, by omega⟩
  induction ys generalizing p a fuel with
  | nil =>
      rw [total_nil] at htotal
      refine .inl ⟨?_, by simp⟩
      rw [findFree, if_neg (by rw [memSizeAligned_eq]; omega)]
  | cons b ys ih =>
      obtain ⟨hnext, -, hused, hrest⟩ := hl
      obtain ⟨hb, hsize⟩ := Sized.cons.mp hsize
      rw [total_cons] at htotal
      rw [findFree, memSizeAligned_eq]
      by_cases hnear : a < 20480 - size
      · rw [if_pos hnear, userSize_of_next hnext (by omega) (by omega), hused, hnext]
        by_cases hfits : b.used.toNat = 0 ∧ size ≤ b.len - 8
        · rw [if_pos hfits]
          have hfree : b.used = false := by simpa using hfits.1
          exact .inr ⟨[], b.len, ys, by rw [← hfree]; rfl, by omega, by simp, rfl⟩
        · rw [if_neg hfits]
          have hsmall : b.used = false → b.len < size + 8 := by
            intro hfree
            rw [hfree, Bool.toNat_false, eq_self_iff_true, true_and] at hfits
            omega
          rw [List.length_cons] at hfuel
          obtain ⟨fuel, rfl⟩ : ∃ f, fuel = f + 1 := ⟨fuel - 1, by omega⟩
          rcases ih hrest hsize (by omega) fuel (by omega) with
            ⟨hnone, hall⟩ | ⟨xs, m, zs, rfl, hm, hall, hsome⟩
          · exact .inl ⟨hnone, List.forall_mem_cons.mpr ⟨hsmall, hall⟩⟩
          · refine .inr ⟨b :: xs, m, zs, rfl, hm, List.forall_mem_cons.mpr ⟨hsmall, hall⟩, ?_⟩
            rw [hsome, total_cons, Nat.add_assoc]
      · -- what is left is too short for a header and that many bytes
        rw [if_neg hnear]
        refine .inl ⟨rfl, fun c hc _ => ?_⟩
        have := len_le_total hc
        rw [total_cons] at this
        omega

theorem nextFree_spec {fuel : Nat} (hl : Linked ram p a ys)
    (htotal : a + total ys = 20480) (hsize : Sized ys) (hfuel : ys.length < fuel) :
    nextFree ram fuel a = .ok (firstFree a ys) := by
  obtain ⟨fuel, rfl⟩ : ∃ f, fuel = f + 1 := ⟨fuel - 1, by omega⟩
  induction ys generalizing p a fuel with
  | nil =>
      rw [total_nil, Nat.add_zero] at htotal
      rw [nextFree, htotal, if_neg (by simp)]
      rfl
  | cons b ys ih =>
      obtain ⟨hnext, -, hused, hrest⟩ := hl
      obtain ⟨hb, hsize⟩ := Sized.cons.mp hsize
      rw [total_cons] at htotal
      rw [nextFree, hused, hnext, firstFree, memSizeAligned_eq]
      cases hbused : b.used with
      | false => simp
      | true =>
          rw [List.length_cons] at hfuel
          obtain ⟨fuel, rfl⟩ : ∃ f, fuel = f + 1 := ⟨fuel - 1, by omega⟩
          rw [if_pos ⟨by decide, by omega⟩, if_pos rfl]
          exact ih hrest (by omega) hsize fuel (by omega)

/-! ## Taking the block -/

/-- The block is used, with enough room and not much more; `lfree` has not been looked at. -/
theorem Tiled.takeBlock (ht : Tiled h (xs ++ ⟨m, false⟩ :: ys)) (hmin : 12 ≤ size)
    (hdvd : size % 4 = 0) (hm : size + 8 ≤ m) :
    ∃ h' k zs, Lwip.takeBlock h (total xs) size = .ok h' ∧ h'.lfree = h.lfree ∧
      Chained h'.ram (xs ++ ⟨k, true⟩ :: zs) ∧ Coalesced (xs ++ ⟨k, true⟩ :: zs) ∧
      h'.stats.used = usedLen (xs ++ ⟨k, true⟩ :: zs) ∧ size + 8 ≤ k ∧ k < size + 28 ∧
      usedFrom (total xs + k) zs = usedFrom (total xs + m) ys ∧
      Kept h.ram h'.ram (xs ++ ⟨k, true⟩ :: zs) := by
  obtain ⟨hnext, -, hused⟩ := ht.linked.block
  obtain ⟨-, -, -, -, hys⟩ := linked_append.mp ht.linked
  have htotal := ht.total
  have husedLen := ht.used
  obtain ⟨hsx, hsy⟩ := Sized.append.mp ht.sized
  obtain ⟨hm', hsy⟩ := Sized.cons.mp hsy
  obtain ⟨hcx, hcy, -, hhead⟩ := (coalesced_free m).mp ht.coalesced
  have hle : usedLen ys ≤ total ys := usedLen_le_total
  have hle' : usedLen xs ≤ total xs := usedLen_le_total
  simp only [total_append, total_cons, usedLen_append, usedLen, Bool.false_eq_true, if_false,
    Nat.zero_add] at htotal husedLen hm' hys
  have huser : userSize h.ram (total xs) = m - 8 := userSize_of_next hnext (by omega) (by omega)
  rw [Lwip.takeBlock, huser]
  by_cases hsplit : size + sizeofStructMem + minSizeAligned ≤ m - 8
  · rw [if_pos hsplit]
    simp only [sizeofStructMem_eq, minSizeAligned_eq] at hsplit
    have hptr2 : memSizeT (total xs + sizeofStructMem + size) = total xs + (size + 8) := by
      rw [sizeofStructMem_eq, memSizeT_of_lt (by omega)]
      omega
    have hsize : Sized (xs ++ ⟨size + 8, true⟩ :: ⟨m - (size + 8), false⟩ :: ys) :=
      Sized.append.mpr ⟨hsx, Sized.cons.mpr ⟨⟨by dsimp only; omega, by dsimp only; omega⟩,
        Sized.cons.mpr ⟨⟨by dsimp only; omega, by dsimp only; omega⟩, hsy⟩⟩⟩
    have hnext' : memNext h.ram (total xs) = total xs + (size + 8) + (m - (size + 8)) := by
      rw [hnext]
      omega
    have hmark : ∀ (r : Ram) (x : Nat), x ≠ total xs + 4 → setUsed r (total xs) 1 x = r x :=
      fun _ _ hx => update_other hx
    have hchain := ht.toChained.insertBlock (v := true) hsize (by omega)
      (show Linked h.ram _ (total xs + (size + 8) + (m - (size + 8))) ys by
        convert hys using 1
        omega) hmark fun r _ => memUsed_setUsed (by decide)
    have hkept := @kept_insertBlock h.ram _ _ _ _ _ _ hmark hsize (by omega)
    simp only [hptr2, hnext', lwipAssert_pos (show total xs + (size + 8) ≠ memSizeAligned by
      rw [memSizeAligned_eq]; omega), bind, Except.bind, pure, Except.pure]
    refine ⟨_, size + 8, _, rfl, rfl, hchain, ?_, ?_, Nat.le_refl _, by omega, ?_, hkept⟩
    · exact (coalesced_used _).mpr ⟨hcx, (@coalesced_free [] _ _).mpr ⟨.nil, hcy, by simp, hhead⟩⟩
    · rw [sizeofStructMem_eq, incUsed_used (by simp only [husedLen]; omega)]
      simp only [husedLen, usedLen_append, usedLen, if_true, Bool.false_eq_true, if_false]
      omega
    · rw [usedFrom_free rfl]
      dsimp only
      rw [show total xs + (size + 8) + (m - (size + 8)) = total xs + m by omega]
  · rw [if_neg hsplit]
    simp only [sizeofStructMem_eq, minSizeAligned_eq] at hsplit
    have hlen : memNext h.ram (total xs) - total xs = m := by
      rw [hnext]
      omega
    refine ⟨_, m, ys, rfl, rfl, ?_, (coalesced_used _).mpr ⟨hcx, hcy⟩, ?_, hm, by omega, rfl, ?_⟩
    · refine ⟨linked_setUsed (v := true) ht.linked ht.sized, by simpa using ht.total, ?_,
        ht.endHeader.congr fun x hx => update_other (by omega)⟩
      exact Sized.append.mpr ⟨hsx, Sized.cons.mpr ⟨hm', hsy⟩⟩
    · rw [hlen, incUsed_used (by simp only [husedLen]; omega)]
      simp only [husedLen, usedLen_append, usedLen, if_true]
      omega
    · exact kept_setUsed (v := true)

/-- `lfree` is moved on if the block that was taken was the first free one. -/
theorem Tiled.adjustLfree {h' : Heap} {k : Nat} {zs : List Block}
    (ht : Tiled h (xs ++ ⟨m, false⟩ :: ys)) (hlfree : h'.lfree = h.lfree)
    (hc : Chained h'.ram (xs ++ ⟨k, true⟩ :: zs)) :
    Lwip.adjustLfree h' (total xs) = .ok { h' with lfree := firstFree 0 (xs ++ ⟨k, true⟩ :: zs) } := by
  have hold := ht.lfree
  rw [firstFree_append_cons_free] at hold
  have hsx := (Sized.append.mp ht.sized).1
  rw [Lwip.adjustLfree, hlfree]
  rcases all_used_or_exists_free xs with hall | hfree
  · rw [firstFree_of_used hall, Nat.zero_add] at hold
    obtain ⟨-, hlinked⟩ := linked_append.mp hc.linked
    obtain ⟨-, hsy⟩ := Sized.append.mp hc.sized
    have htotal := hc.total
    rw [total_append] at htotal
    rw [Nat.zero_add] at hlinked
    have hnext := @nextFree_spec _ _ _ _ (memSizeAligned + 1) hlinked htotal hsy (by
      have := hsy.length_le
      rw [memSizeAligned_eq]
      omega)
    rw [if_pos hold.symm, hold, hnext, firstFree_append_used hall, Nat.zero_add]
    have hassert : firstFree (total xs) (⟨k, true⟩ :: zs) = memSizeAligned ∨
        memUsed h'.ram (firstFree (total xs) (⟨k, true⟩ :: zs)) = 0 := by
      rcases exists_of_firstFree (⟨k, true⟩ :: zs) (total xs) with ⟨heq, -⟩ | ⟨us, l, vs, heq, -, hfirst⟩
      · exact .inl (by rw [heq, htotal]; rfl)
      · have hlinked' := hc.linked
        rw [heq, ← List.append_assoc] at hlinked'
        obtain ⟨-, -, hused⟩ := hlinked'.block
        refine .inr ?_
        rw [hfirst, ← total_append, hused]
        rfl
    simp only [bind, Except.bind, lwipAssert_pos hassert, pure, Except.pure]
  · have hbefore := firstFree_lt (a := 0) hsx.pos hfree
    rw [if_neg (by omega), firstFree_append_free hfree, ← hold, ← hlfree]

/-! ## Sizes -/

theorem lwipMemAlignSize_spec (size : Nat) :
    lwipMemAlignSize size % 4 = 0 ∧ size ≤ lwipMemAlignSize size ∧ lwipMemAlignSize size < size + 4 := by
  simp only [lwipMemAlignSize, memAlignment_eq]
  omega

theorem adjustedSize_eq (sizeIn : Nat) :
    adjustedSize sizeIn = max 12 (memSizeT (lwipMemAlignSize sizeIn)) := by
  show (if memSizeT (lwipMemAlignSize sizeIn) < 12 then 12 else memSizeT (lwipMemAlignSize sizeIn)) = _
  split <;> omega

/-- A size that is not too large is rounded up, to the smallest that there is. -/
theorem adjustedSize_spec {sizeIn : Nat}
    (hok : ¬(memSizeAligned < adjustedSize sizeIn ∨ adjustedSize sizeIn < sizeIn)) :
    12 ≤ adjustedSize sizeIn ∧ adjustedSize sizeIn % 4 = 0 ∧ sizeIn ≤ adjustedSize sizeIn ∧
      adjustedSize sizeIn ≤ 20480 := by
  obtain ⟨hdvd, -, -⟩ := lwipMemAlignSize_spec sizeIn
  have heq := adjustedSize_eq sizeIn
  rw [memSizeAligned_eq] at hok
  simp only [memSizeT] at heq
  omega

/-- Which sizes are not too large. -/
theorem adjustedSize_ok {sizeIn : Nat} (hle : sizeIn ≤ 20480) :
    ¬(memSizeAligned < adjustedSize sizeIn ∨ adjustedSize sizeIn < sizeIn) ∧
      adjustedSize sizeIn = max 12 (lwipMemAlignSize sizeIn) := by
  obtain ⟨hdvd, hge, hlt⟩ := lwipMemAlignSize_spec sizeIn
  have heq := adjustedSize_eq sizeIn
  rw [memSizeT_of_lt (by omega)] at heq
  rw [heq, memSizeAligned_eq]
  omega

theorem adjustedSize_tooLarge {sizeIn : Nat} (hlt : 20480 < sizeIn) :
    memSizeAligned < adjustedSize sizeIn ∨ adjustedSize sizeIn < sizeIn := by
  rw [memSizeAligned_eq]
  by_cases h : adjustedSize sizeIn < sizeIn
  · exact .inr h
  · exact .inl (by omega)

/-! ## The function -/

theorem ok_bind {α β : Type} (a : α) (f : α → Except String β) : (Except.ok a >>= f) = f a := rfl

/-- The block that was found is used from now on, the others are as they were. -/
theorem Tiled.memMallocAt (ht : Tiled h (xs ++ ⟨m, false⟩ :: ys)) (hmin : 12 ≤ size)
    (hdvd : size % 4 = 0) (hm : size + 8 ≤ m) :
    ∃ h' bs k, Lwip.memMallocAt h size (some (total xs)) = .ok (some (total xs + 8), h') ∧ Tiled h' bs ∧
      usedFrom 0 bs = usedFrom 0 xs ++ (total xs, k) :: usedFrom (total xs + m) ys ∧ size + 8 ≤ k ∧
      k < size + 28 ∧ Kept h.ram h'.ram bs := by
  obtain ⟨h₁, k, zs, htake, hlfree, hchain, hcoal, hused, hk, hk', hblocks, hkept⟩ :=
    ht.takeBlock hmin hdvd hm
  have hfits := hchain.total
  simp only [total_append, total_cons] at hfits
  have haligned := (Sized.append.mp ht.sized).1.total
  refine ⟨{ h₁ with lfree := firstFree 0 (xs ++ ⟨k, true⟩ :: zs) }, _, k, ?_,
    ⟨⟨hchain, rfl, hused⟩, hcoal⟩, ?_, hk, hk', hkept⟩
  · rw [Lwip.memMallocAt, htake, ok_bind, ht.adjustLfree hlfree hchain, ok_bind,
      lwipAssert_pos (by simp only [sizeofStructMem_eq, memSizeAligned_eq]; omega), ok_bind,
      lwipAssert_pos (by simp only [sizeofStructMem_eq, memAlignment_eq]; omega), ok_bind]
    rfl
  · rw [usedFrom_append, usedFrom_used rfl, Nat.zero_add, hblocks]

/-- The search finds the first block with enough room, wherever `lfree` is. -/
theorem Tiled.findFree (ht : Tiled h bs) (hle : size ≤ 20480) :
    (Lwip.findFree h.ram size (memSizeAligned + 1) h.lfree = .ok none ∧
        ∀ b ∈ bs, b.used = false → b.len < size + 8) ∨
      ∃ xs m ys, bs = xs ++ ⟨m, false⟩ :: ys ∧ size + 8 ≤ m ∧
        (∀ b ∈ xs, b.used = false → b.len < size + 8) ∧
        Lwip.findFree h.ram size (memSizeAligned + 1) h.lfree = .ok (some (total xs)) := by
  obtain ⟨us, vs, rfl, hall, hlfree⟩ : ∃ us vs, bs = us ++ vs ∧ (∀ b ∈ us, b.used = true) ∧
      h.lfree = total us := by
    rcases exists_of_firstFree bs 0 with ⟨heq, hall⟩ | ⟨us, n, vs, heq, hall, hfirst⟩
    · exact ⟨bs, [], by simp, hall, by rw [ht.lfree, heq, Nat.zero_add]⟩
    · exact ⟨us, _, heq, hall, by rw [ht.lfree, hfirst, Nat.zero_add]⟩
  have htotal := ht.total
  rw [total_append] at htotal
  obtain ⟨-, hlinked⟩ := linked_append.mp ht.linked
  obtain ⟨-, hsv⟩ := Sized.append.mp ht.sized
  rw [Nat.zero_add] at hlinked
  have husNone : ∀ b ∈ us, b.used = false → b.len < size + 8 := fun b hb hfree => by
    rw [hall b hb] at hfree
    exact absurd hfree (by decide)
  rw [hlfree]
  rcases @findFree_spec _ _ _ _ _ (memSizeAligned + 1) hlinked hsv htotal (by
      have := hsv.length_le
      rw [memSizeAligned_eq]
      omega) hle with ⟨hnone, hall'⟩ | ⟨xs, m, ys, rfl, hm, hall', hsome⟩
  · exact .inl ⟨hnone, List.forall_mem_append.mpr ⟨husNone, hall'⟩⟩
  · rw [← total_append] at hsome
    exact .inr ⟨us ++ xs, m, ys, by rw [List.append_assoc], hm,
      List.forall_mem_append.mpr ⟨husNone, hall'⟩, hsome⟩

/-- There is no room, or the first block with room is used from now on, the others as they were. -/
theorem Tiled.memMalloc {sizeIn : Nat} (ht : Tiled h bs) (hpos : 0 < sizeIn) (hle : sizeIn ≤ 20480) :
    (Lwip.memMalloc sizeIn h = .ok (none, h.incErr) ∧
        ∀ b ∈ bs, b.used = false → b.len < adjustedSize sizeIn + 8) ∨
      ∃ xs m ys h' bs' k, bs = xs ++ ⟨m, false⟩ :: ys ∧ adjustedSize sizeIn + 8 ≤ m ∧
        (∀ b ∈ xs, b.used = false → b.len < adjustedSize sizeIn + 8) ∧
        Lwip.memMalloc sizeIn h = .ok (some (total xs + 8), h') ∧ Tiled h' bs' ∧
        usedFrom 0 bs' = usedFrom 0 xs ++ (total xs, k) :: usedFrom (total xs + m) ys ∧
        adjustedSize sizeIn + 8 ≤ k ∧ k < adjustedSize sizeIn + 28 ∧ Kept h.ram h'.ram bs' := by
  obtain ⟨hok, -⟩ := adjustedSize_ok hle
  obtain ⟨hmin, hdvd, -, hmax⟩ := adjustedSize_spec hok
  rw [Lwip.memMalloc, if_neg (by omega)]
  simp only [if_neg hok]
  rcases ht.findFree hmax with ⟨hnone, hall⟩ | ⟨xs, m, ys, rfl, hm, hall, hsome⟩
  · exact .inl ⟨by rw [hnone, ok_bind]; rfl, hall⟩
  · obtain ⟨h', bs', k, hcall, ht', hblocks, hk, hk', hkept⟩ := ht.memMallocAt hmin hdvd hm
    exact .inr ⟨xs, m, ys, h', bs', k, rfl, hm, hall, by rw [hsome, ok_bind, hcall], ht', hblocks, hk, hk',
      hkept⟩

end Lwip
