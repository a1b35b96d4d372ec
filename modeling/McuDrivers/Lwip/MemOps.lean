import McuDrivers.Lwip.MemChain

set_option autoImplicit false

/-! # lwIP heap: what its functions do

Each function, called for a block of a heap whose chain is in order, is said by what it makes of the used
blocks: that no assertion fails, that the tiling is in order again, and that the data of the used blocks
is kept. Where the free blocks are follows from that, since the tiling is coalesced. -/

namespace Lwip

open Tiling

/-- The chain is in order, and no two free blocks are neighbours. -/
structure Tiled (h : Heap) (bs : List Block) : Prop extends Threaded h bs where
  coalesced : Coalesced bs

section

variable {h : Heap} {bs xs ys : List Block} {n m : Nat}

theorem lwipAssert_pos {message : String} {p : Prop} [Decidable p] (hp : p) :
    lwipAssert message p = .ok () := if_pos hp

theorem Sized.pos (hsize : Sized bs) : ∀ b ∈ bs, 0 < b.len := fun b hb => by
  have := hsize b hb
  omega

theorem Sized.length_le (hsize : Sized bs) : 20 * bs.length ≤ Tiling.total bs := by
  induction bs with
  | nil => exact Nat.zero_le _
  | cons b bs ih =>
      obtain ⟨hb, hsize⟩ := Sized.cons.mp hsize
      have := ih hsize
      rw [List.length_cons, total_cons]
      omega

/-- The header of one block of the tiling. -/
theorem Linked.block {ram : Ram} {u : Bool} (hl : Linked ram 0 0 (xs ++ ⟨n, u⟩ :: ys)) :
    memNext ram (Tiling.total xs) = Tiling.total xs + n ∧
      memPrev ram (Tiling.total xs) = lastFrom 0 0 xs ∧ memUsed ram (Tiling.total xs) = u.toNat := by
  obtain ⟨-, hnext, hprev, hused, -⟩ := linked_append.mp hl
  simp only [Nat.zero_add] at hnext hprev hused
  exact ⟨hnext, hprev, hused⟩

/-- A list of blocks that has a last one. -/
theorem lastFrom_concat {p a : Nat} {b : Block} : lastFrom p a (xs ++ [b]) = a + Tiling.total xs := by
  rw [lastFrom_append, lastFrom, lastFrom]

/-! ## Coalescing -/

/-- The two free blocks become one, whichever of them is called `mem` in the code. -/
theorem Threaded.join (ht : Threaded h (xs ++ ⟨m, false⟩ :: ⟨n, false⟩ :: ys)) (first : Nat) :
    Threaded { h with
        ram := skipBlock h.ram (Tiling.total xs) (Tiling.total xs + m),
        lfree := if h.lfree = Tiling.total xs + m then first else h.lfree }
      (xs ++ ⟨m + n, false⟩ :: ys) := by
  obtain ⟨⟨hlinked, htotal, hsize, hend⟩, hlfree, hused⟩ := ht
  have htotal' : Tiling.total xs + (m + (n + Tiling.total ys)) = 20480 := by simpa using htotal
  obtain ⟨hsx, hsy⟩ := Sized.append.mp hsize
  obtain ⟨hm, hsy⟩ := Sized.cons.mp hsy
  obtain ⟨hn, hsy⟩ := Sized.cons.mp hsy
  dsimp only at hm hn
  have hle : firstFree 0 xs ≤ 0 + Tiling.total xs := firstFree_le
  refine ⟨⟨linked_skipBlock hlinked hsize htotal', by simp [← htotal', Nat.add_assoc], ?_,
    hend.congr fun x hx => skipBlock_above hlinked hsize htotal' hx⟩, ?_, ?_⟩
  · exact Sized.append.mpr ⟨hsx, Sized.cons.mpr ⟨⟨by dsimp only; omega, by dsimp only; omega⟩, hsy⟩⟩
  · rw [firstFree_append_cons_free] at hlfree ⊢
    exact (if_neg (by omega)).trans hlfree
  · simpa [usedLen] using hused

theorem Threaded.kept_join (ht : Threaded h (xs ++ ⟨m, false⟩ :: ⟨n, false⟩ :: ys)) :
    Kept h.ram (skipBlock h.ram (Tiling.total xs) (Tiling.total xs + m)) (xs ++ ⟨m + n, false⟩ :: ys) :=
  kept_skipBlock ht.linked ht.sized

/-- The forward half of `plug_holes`: after it no free block follows. -/
theorem Threaded.plugForward (ht : Threaded h (xs ++ ⟨n, false⟩ :: ys)) (hys : Coalesced ys) :
    ∃ h' n' ys', (if Tiling.total xs ≠ memNext h.ram (Tiling.total xs) ∧
          memUsed h.ram (memNext h.ram (Tiling.total xs)) = 0 ∧
          memNext h.ram (Tiling.total xs) ≠ memSizeAligned then
        Lwip.plugForward h (Tiling.total xs) (memNext h.ram (Tiling.total xs)) else h) = h' ∧
      Threaded h' (xs ++ ⟨n', false⟩ :: ys') ∧ Coalesced (⟨n', false⟩ :: ys') ∧
      usedFrom (Tiling.total xs + n') ys' = usedFrom (Tiling.total xs + n) ys ∧
      Kept h.ram h'.ram (xs ++ ⟨n', false⟩ :: ys') := by
  obtain ⟨hnext, -, -⟩ := ht.linked.block
  have hn := (Sized.cons.mp (Sized.append.mp ht.sized).2).1
  have htotal := ht.total
  simp only [total_append, total_cons] at htotal
  rw [hnext]
  cases ys with
  | nil =>
      refine ⟨h, n, [], if_neg ?_, ht, (@coalesced_free [] _ n).mpr (by simp [Coalesced]), rfl, ?_⟩
      · rw [total_nil] at htotal
        simp only [memSizeAligned_eq, ne_eq]
        omega
      · exact fun _ _ _ _ _ _ => rfl
  | cons b ys =>
      obtain ⟨k, u⟩ := b
      have hlinked := ht.linked
      rw [← List.singleton_append, ← List.append_assoc] at hlinked
      obtain ⟨-, -, hused⟩ := hlinked.block
      simp only [total_append, total_cons, total_nil, Nat.add_zero] at hused
      cases u with
      | true =>
          refine ⟨h, n, _, if_neg ?_, ht, ?_, rfl, fun _ _ _ _ _ _ => rfl⟩
          · simp [hused]
          · exact (@coalesced_free [] _ n).mpr ⟨.nil, hys, by simp, by simp⟩
      | false =>
          have hk := (Sized.cons.mp (Sized.cons.mp (Sized.append.mp ht.sized).2).2).1
          rw [total_cons] at htotal
          dsimp only at hn hk htotal
          rw [if_pos ⟨by omega, hused, by rw [memSizeAligned_eq]; omega⟩]
          have hhead := ((@coalesced_free [] _ k).mp hys).2.2.2
          refine ⟨_, n + k, ys, rfl, ht.join _, ?_, ?_, ht.kept_join⟩
          · exact (@coalesced_free [] _ _).mpr ⟨.nil, hys.tail, by simp, hhead⟩
          · rw [usedFrom_free rfl, Nat.add_assoc]

/-- The backward half: after it the tiling is coalesced. -/
theorem Threaded.plugBackward (ht : Threaded h (xs ++ ⟨n, false⟩ :: ys)) (hxs : Coalesced xs)
    (hys : Coalesced (⟨n, false⟩ :: ys)) :
    ∃ h' bs, (if memPrev h.ram (Tiling.total xs) ≠ Tiling.total xs ∧
          memUsed h.ram (memPrev h.ram (Tiling.total xs)) = 0 then
        Lwip.plugBackward h (Tiling.total xs) (memPrev h.ram (Tiling.total xs)) else h) = h' ∧
      Tiled h' bs ∧ usedFrom 0 bs = usedFrom 0 xs ++ usedFrom (Tiling.total xs + n) ys ∧
      Kept h.ram h'.ram bs := by
  obtain ⟨-, hprev, -⟩ := ht.linked.block
  obtain ⟨-, hys', -, hhead⟩ := (@coalesced_free [] _ n).mp hys
  have hblocks : ∀ zs : List Block, usedFrom 0 (zs ++ ⟨n, false⟩ :: ys) =
      usedFrom 0 zs ++ usedFrom (Tiling.total zs + n) ys := by
    intro zs
    rw [usedFrom_append, usedFrom_free rfl, Nat.zero_add]
  rw [hprev]
  rcases List.eq_nil_or_concat' xs with rfl | ⟨zs, b, rfl⟩
  · exact ⟨h, _, if_neg (by simp [lastFrom]), ⟨ht, hys⟩, hblocks _, fun _ _ _ _ _ _ => rfl⟩
  · obtain ⟨m, u⟩ := b
    rw [lastFrom_concat, Nat.zero_add]
    have hlinked := ht.linked
    rw [List.append_assoc, List.singleton_append] at hlinked
    obtain ⟨-, -, hused⟩ := hlinked.block
    cases u with
    | true =>
        refine ⟨h, _, if_neg (by simp [hused]), ⟨ht, ?_⟩, hblocks _, fun _ _ _ _ _ _ => rfl⟩
        exact (coalesced_free n).mpr ⟨hxs, hys', by simp, hhead⟩
    | false =>
        have hm := (Sized.append.mp (Sized.append.mp ht.sized).1).2 ⟨m, false⟩ (by simp)
        dsimp only at hm
        rw [List.append_assoc, List.singleton_append] at ht
        have htot : Tiling.total (zs ++ [⟨m, false⟩]) = Tiling.total zs + m := by simp
        rw [htot, if_pos ⟨by omega, hused⟩]
        refine ⟨_, _, rfl, ⟨ht.join _, ?_⟩, ?_, ht.kept_join⟩
        · obtain ⟨hzs, -, hlast, -⟩ := (@coalesced_free _ [] m).mp hxs
          exact (coalesced_free _).mpr ⟨hzs, hys', hlast, hhead⟩
        · rw [usedFrom_append, usedFrom_append, usedFrom_free rfl, usedFrom_free rfl, usedFrom_nil,
            List.append_nil, Nat.zero_add, Nat.add_assoc]

/-! ## Freeing -/

theorem decUsed_used {k : Nat} (hk : k ≤ h.stats.used) (hu : h.stats.used ≤ 20480) :
    (h.decUsed k).stats.used = h.stats.used - k := by
  simp only [Heap.decUsed, memSizeT]
  omega

theorem incUsed_used {k : Nat} (hk : h.stats.used + k ≤ 20480) :
    (h.incUsed k).stats.used = h.stats.used + k :=
  memSizeT_of_lt (by omega)

theorem Threaded.markFree (ht : Threaded h (xs ++ ⟨n, true⟩ :: ys)) :
    Threaded ({ h with
        ram := setUsed h.ram (Tiling.total xs) 0,
        lfree := if Tiling.total xs < h.lfree then Tiling.total xs else h.lfree }.decUsed n)
      (xs ++ ⟨n, false⟩ :: ys) := by
  have hle := ht.usedLen_le
  have hused := ht.used
  have htotal := ht.total
  obtain ⟨hsx, hsy⟩ := Sized.append.mp ht.sized
  obtain ⟨hn, hsy⟩ := Sized.cons.mp hsy
  simp only [usedLen_append, usedLen, if_true, total_append, total_cons] at hle hused htotal hn
  refine ⟨⟨linked_setUsed (v := false) ht.linked ht.sized, by simpa using ht.total, ?_,
    ht.endHeader.congr fun x hx => update_other (by omega)⟩, ?_, ?_⟩
  · exact Sized.append.mpr ⟨hsx, Sized.cons.mpr ⟨hn, hsy⟩⟩
  · have hlfree := ht.lfree
    rw [firstFree_append_cons_free]
    rcases all_used_or_exists_free xs with hall | hfree
    · have hlate : Tiling.total xs < h.lfree := by
        have hlater := @le_firstFree (0 + Tiling.total xs + n) ys
        rw [hlfree, firstFree_append_used hall, firstFree, if_pos rfl]
        dsimp only
        omega
      exact (if_pos hlate).trans (by rw [firstFree_of_used hall, Nat.zero_add])
    · have hbefore := firstFree_lt (a := 0) hsx.pos hfree
      rw [firstFree_append_free hfree] at hlfree
      exact (if_neg (by omega)).trans hlfree
  · rw [decUsed_used (by simp only [hused]; omega) (by simp only [hused]; omega)]
    simp only [hused, usedLen_append, usedLen, Bool.false_eq_true, if_false]
    omega

/-- In a chain that is in order, every header is linked. -/
theorem Linked.memLinkValid {ram : Ram} {u : Bool} (hl : Linked ram 0 0 (xs ++ ⟨n, u⟩ :: ys))
    (hsize : Sized (xs ++ ⟨n, u⟩ :: ys)) (htotal : Tiling.total (xs ++ ⟨n, u⟩ :: ys) = 20480) :
    MemLinkValid ram (Tiling.total xs) := by
  obtain ⟨hnext, hprev, -⟩ := hl.block
  have hle : lastFrom 0 0 xs ≤ 0 + Tiling.total xs := lastFrom_le (Nat.le_refl 0)
  simp only [total_append, total_cons] at htotal
  simp only [MemLinkValid, hnext, hprev, memSizeAligned_eq, not_or, not_and, not_not, Nat.not_lt]
  refine ⟨by omega, by omega, ?_, ?_⟩
  · rcases List.eq_nil_or_concat' xs with rfl | ⟨zs, b, rfl⟩
    · intro hne
      exact absurd rfl hne
    · intro _
      rw [List.append_assoc, List.singleton_append] at hl
      rw [lastFrom_concat, Nat.zero_add, hl.block.1]
      simp
  · intro hne
    obtain ⟨hsy⟩ := (Sized.cons.mp (Sized.append.mp hsize).2)
    cases ys with
    | nil =>
        rw [total_nil] at htotal
        omega
    | cons b ys =>
        rw [← List.singleton_append, ← List.append_assoc] at hl
        obtain ⟨-, hprev', -⟩ := hl.block
        rw [lastFrom_concat, Nat.zero_add] at hprev'
        simpa using hprev'

theorem Threaded.plugHoles (ht : Threaded h (xs ++ ⟨n, false⟩ :: ys)) (hxs : Coalesced xs)
    (hys : Coalesced ys) :
    ∃ h' bs, Lwip.plugHoles h (Tiling.total xs) = .ok h' ∧ Tiled h' bs ∧
      usedFrom 0 bs = usedFrom 0 xs ++ usedFrom (Tiling.total xs + n) ys ∧ Kept h.ram h'.ram bs := by
  obtain ⟨hnext, -, hused⟩ := ht.linked.block
  have htotal := ht.total
  have hn := (Sized.cons.mp (Sized.append.mp ht.sized).2).1
  simp only [total_append, total_cons] at htotal hn
  obtain ⟨h₁, n', ys', hforward, ht₁, hc₁, hblocks₁, hkept₁⟩ := ht.plugForward hys
  obtain ⟨h', bs, hbackward, ht', hblocks, hkept⟩ := ht₁.plugBackward hxs hc₁
  refine ⟨h', bs, ?_, ht', hblocks.trans (by rw [hblocks₁]), hkept₁.trans hkept ?_⟩
  · rw [Lwip.plugHoles, lwipAssert_pos (by rw [memSizeAligned_eq]; omega), lwipAssert_pos (by simpa using hused),
      lwipAssert_pos (by rw [hnext, memSizeAligned_eq]; omega)]
    simp only [bind, Except.bind, pure, Except.pure]
    rw [hforward, hbackward]
  · intro b hb
    rw [usedFrom_append, usedFrom_free rfl, Nat.zero_add, ← hblocks]
    exact hb

/-- Freeing a used block: it is no longer one of the used blocks, and the others are as they were. -/
theorem Tiled.memFreeAt (ht : Tiled h (xs ++ ⟨n, true⟩ :: ys)) :
    ∃ h' bs, Lwip.memFreeAt h (Tiling.total xs) = .ok h' ∧ Tiled h' bs ∧
      usedFrom 0 bs = usedFrom 0 xs ++ usedFrom (Tiling.total xs + n) ys ∧ Kept h.ram h'.ram bs := by
  obtain ⟨hnext, -, hused⟩ := ht.linked.block
  obtain ⟨hxs, hys⟩ := (coalesced_used n).mp ht.coalesced
  obtain ⟨h', bs, hplug, ht', hblocks, hkept⟩ := ht.markFree.plugHoles hxs hys
  refine ⟨h', bs, ?_, ht', hblocks,
    (@kept_setUsed _ _ ys n true false).trans hkept ?_⟩
  · have hvalid := ht.linked.memLinkValid ht.sized ht.total
    have hlen : memNext (setUsed h.ram (Tiling.total xs) 0) (Tiling.total xs) - Tiling.total xs = n := by
      rw [memNext, setUsed, load16_update (by omega)]
      exact (congrArg (· - Tiling.total xs) hnext).trans (by omega)
    rw [Lwip.memFreeAt, if_neg (by rw [hused]; simp [hvalid])]
    simp only [hlen]
    exact hplug
  · intro b hb
    rw [hblocks] at hb
    rw [usedFrom_append, usedFrom_used rfl, Nat.zero_add]
    simp only [List.mem_append, List.mem_cons] at hb ⊢
    exact hb.imp_right .inr

/-! ## Shrinking -/

/-- The first free block, once the used block before a free one has been cut. -/
theorem firstFree_cut {k r : Nat} :
    firstFree 0 (xs ++ ⟨k, true⟩ :: ⟨r, false⟩ :: ys) =
      if ∀ b ∈ xs, b.used = true then Tiling.total xs + k else firstFree 0 xs := by
  split
  · rename_i hall
    rw [firstFree_append_used hall]
    simp [firstFree]
  · rename_i hfree
    exact firstFree_append_free ((all_used_or_exists_free xs).resolve_left hfree)

/-- The block after a used one is free: the end of the used one is added to it. -/
theorem Tiled.moveNext {newsize : Nat} (ht : Tiled h (xs ++ ⟨n, true⟩ :: ⟨m, false⟩ :: ys))
    (hmin : 12 ≤ newsize) (hdvd : newsize % 4 = 0) (hle : newsize + 8 ≤ n) :
    Tiled (Lwip.moveNext h (Tiling.total xs) (Tiling.total xs + (newsize + 8)) (n - 8) newsize)
        (xs ++ ⟨newsize + 8, true⟩ :: ⟨n + m - (newsize + 8), false⟩ :: ys) ∧
      Kept h.ram (Lwip.moveNext h (Tiling.total xs) (Tiling.total xs + (newsize + 8)) (n - 8) newsize).ram
        (xs ++ ⟨newsize + 8, true⟩ :: ⟨n + m - (newsize + 8), false⟩ :: ys) := by
  obtain ⟨hnext, -, hused⟩ := ht.linked.block
  have htail := ht.linked
  rw [← List.singleton_append, ← List.append_assoc] at htail
  obtain ⟨hnext2, -, -⟩ := htail.block
  have hlinked := ht.linked
  obtain ⟨-, -, -, -, -, -, -, hys⟩ := linked_append.mp hlinked
  have htotal := ht.total
  have husedLen := ht.used
  have hle' := ht.usedLen_le
  obtain ⟨hsx, hsy⟩ := Sized.append.mp ht.sized
  obtain ⟨hn, hsy⟩ := Sized.cons.mp hsy
  obtain ⟨hm, hsy⟩ := Sized.cons.mp hsy
  simp only [total_append, total_cons, total_nil, usedLen_append, usedLen, if_true, Bool.false_eq_true,
    if_false, Nat.zero_add, Nat.add_zero] at htotal husedLen hle' hn hm hys hnext2
  have hsize : Sized (xs ++ ⟨newsize + 8, true⟩ :: ⟨n + m - (newsize + 8), false⟩ :: ys) :=
    Sized.append.mpr ⟨hsx, Sized.cons.mpr ⟨⟨by dsimp only; omega, by dsimp only; omega⟩,
      Sized.cons.mpr ⟨⟨by dsimp only; omega, by dsimp only; omega⟩, hsy⟩⟩⟩
  have hmark : ∀ (r : Ram) (x : Nat), x ≠ Tiling.total xs + 4 → id r x = r x := fun _ _ _ => rfl
  have hnext' : memNext h.ram (memNext h.ram (Tiling.total xs)) =
      Tiling.total xs + (newsize + 8) + (n + m - (newsize + 8)) := by
    rw [hnext, hnext2]
    omega
  have hchain := ht.toChained.insertBlock (v := true) hsize (by omega)
    (show Linked h.ram _ (Tiling.total xs + (newsize + 8) + (n + m - (newsize + 8))) ys by
      convert hys using 1
      omega) hmark fun r hr => by rw [memUsed, id, hr]; exact hused
  have hkept := @kept_insertBlock h.ram _ _ _ _ _ _ hmark hsize (by omega)
  simp only [Lwip.moveNext]
  rw [hnext', hnext]
  refine ⟨⟨⟨hchain, ?_, ?_⟩, ?_⟩, hkept⟩
  · have hlfree := ht.lfree
    rw [firstFree_cut] at hlfree ⊢
    split at hlfree
    · rename_i hall
      rw [if_pos hall]
      exact if_pos hlfree
    · rename_i hfree
      have := firstFree_lt (a := 0) hsx.pos ((all_used_or_exists_free xs).resolve_left hfree)
      rw [if_neg hfree]
      exact (if_neg (by omega)).trans hlfree
  · rw [decUsed_used (by simp only [husedLen]; omega) (by simp only [husedLen]; omega)]
    simp only [husedLen, usedLen_append, usedLen, if_true, Bool.false_eq_true, if_false]
    omega
  · obtain ⟨hxs, hys⟩ := (coalesced_used n).mp ht.coalesced
    obtain ⟨-, hys', -, hhead⟩ := (@coalesced_free [] _ m).mp hys
    exact (coalesced_used _).mpr ⟨hxs, (@coalesced_free [] _ _).mpr ⟨.nil, hys', by simp, hhead⟩⟩

/-- No free block follows a used one that is long enough: its end becomes a free block. -/
theorem Tiled.insertFree {newsize : Nat} (ht : Tiled h (xs ++ ⟨n, true⟩ :: ys))
    (hmin : 12 ≤ newsize) (hdvd : newsize % 4 = 0) (hle : newsize + 28 ≤ n)
    (hhead : ∀ b ∈ ys.head?, b.used = true) :
    Tiled (Lwip.insertFree h (Tiling.total xs) (Tiling.total xs + (newsize + 8)) (n - 8) newsize)
        (xs ++ ⟨newsize + 8, true⟩ :: ⟨n - (newsize + 8), false⟩ :: ys) ∧
      Kept h.ram (Lwip.insertFree h (Tiling.total xs) (Tiling.total xs + (newsize + 8)) (n - 8) newsize).ram
        (xs ++ ⟨newsize + 8, true⟩ :: ⟨n - (newsize + 8), false⟩ :: ys) := by
  obtain ⟨hnext, -, hused⟩ := ht.linked.block
  obtain ⟨-, -, -, -, hys⟩ := linked_append.mp ht.linked
  have htotal := ht.total
  have husedLen := ht.used
  have hle' := ht.usedLen_le
  obtain ⟨hsx, hsy⟩ := Sized.append.mp ht.sized
  obtain ⟨hn, hsy⟩ := Sized.cons.mp hsy
  simp only [total_append, total_cons, usedLen_append, usedLen, if_true, Nat.zero_add]
    at htotal husedLen hle' hn hys
  have hsize : Sized (xs ++ ⟨newsize + 8, true⟩ :: ⟨n - (newsize + 8), false⟩ :: ys) :=
    Sized.append.mpr ⟨hsx, Sized.cons.mpr ⟨⟨by dsimp only; omega, by dsimp only; omega⟩,
      Sized.cons.mpr ⟨⟨by dsimp only; omega, by dsimp only; omega⟩, hsy⟩⟩⟩
  have hmark : ∀ (r : Ram) (x : Nat), x ≠ Tiling.total xs + 4 → id r x = r x := fun _ _ _ => rfl
  have hnext' : memNext h.ram (Tiling.total xs) =
      Tiling.total xs + (newsize + 8) + (n - (newsize + 8)) := by
    rw [hnext]
    omega
  have hchain := ht.toChained.insertBlock (v := true) hsize (by omega)
    (show Linked h.ram _ (Tiling.total xs + (newsize + 8) + (n - (newsize + 8))) ys by
      convert hys using 1
      omega) hmark fun r hr => by rw [memUsed, id, hr]; exact hused
  have hkept := @kept_insertBlock h.ram _ _ _ _ _ _ hmark hsize (by omega)
  simp only [Lwip.insertFree]
  rw [hnext']
  refine ⟨⟨⟨hchain, ?_, ?_⟩, ?_⟩, hkept⟩
  · have hlfree := ht.lfree
    rw [firstFree_cut]
    by_cases hall : ∀ b ∈ xs, b.used = true
    · have hlater := @le_firstFree (0 + Tiling.total xs + n) ys
      rw [firstFree_append_used hall, firstFree, if_pos rfl] at hlfree
      dsimp only at hlfree
      rw [if_pos hall]
      exact if_pos (by omega)
    · have hfree := (all_used_or_exists_free xs).resolve_left hall
      rw [if_neg hall]
      have hbefore := firstFree_lt (a := 0) hsx.pos hfree
      rw [firstFree_append_free hfree] at hlfree
      exact (if_neg (by omega)).trans hlfree
  · rw [decUsed_used (by simp only [husedLen]; omega) (by simp only [husedLen]; omega)]
    simp only [husedLen, usedLen_append, usedLen, if_true, Bool.false_eq_true, if_false]
    omega
  · obtain ⟨hxs, hys⟩ := (coalesced_used n).mp ht.coalesced
    exact (coalesced_used _).mpr ⟨hxs, (@coalesced_free [] _ _).mpr ⟨.nil, hys, by simp, hhead⟩⟩

/-- What `mem_trim` does with a used block, by what follows it. -/
theorem Tiled.memTrimAt_eq {newsize : Nat} (ht : Tiled h (xs ++ ⟨n, true⟩ :: ys)) (rmem : Int)
    (hle : newsize + 8 ≤ n) :
    Lwip.memTrimAt h rmem (Tiling.total xs) newsize =
      if newsize + 8 = n then .ok (some rmem, h)
      else if memUsed h.ram (Tiling.total xs + n) = 0 then
        .ok (some rmem, Lwip.moveNext h (Tiling.total xs) (Tiling.total xs + (newsize + 8)) (n - 8) newsize)
      else if newsize + 28 ≤ n then
        if Tiling.total xs + n = 20480 then .error "invalid next ptr"
        else .ok (some rmem,
          Lwip.insertFree h (Tiling.total xs) (Tiling.total xs + (newsize + 8)) (n - 8) newsize)
      else .ok (some rmem, h) := by
  obtain ⟨hnext, -, -⟩ := ht.linked.block
  have htotal := ht.total
  simp only [total_append, total_cons] at htotal
  have hsize : memSizeT (memSizeT (Tiling.total xs + n + 2 ^ 16 - Tiling.total xs) + 2 ^ 16 -
      sizeofStructMem) = n - 8 := by
    rw [sizeofStructMem_eq]
    simp only [memSizeT]
    omega
  have hptr2 : memSizeT (Tiling.total xs + sizeofStructMem + newsize) =
      Tiling.total xs + (newsize + 8) := by
    rw [sizeofStructMem_eq, memSizeT_of_lt (by omega)]
    omega
  unfold Lwip.memTrimAt
  simp only [hnext, hsize, hptr2, lwipAssert_pos (show newsize ≤ n - 8 by omega), bind, Except.bind, pure,
    Except.pure]
  by_cases heq : newsize = n - 8
  · rw [if_pos heq, if_pos (show newsize + 8 = n by omega)]
  rw [if_neg heq, if_neg (show ¬newsize + 8 = n by omega)]
  by_cases hfree : memUsed h.ram (Tiling.total xs + n) = 0
  · have hne : Tiling.total xs + n ≠ memSizeAligned := by
      intro he
      rw [he, memSizeAligned_eq, ht.endHeader.used] at hfree
      exact absurd hfree (by decide)
    rw [if_pos hfree, if_pos hfree, lwipAssert_pos hne]
  rw [if_neg hfree, if_neg hfree]
  by_cases hroom : newsize + 28 ≤ n
  · rw [if_pos hroom, if_pos (show newsize + sizeofStructMem + minSizeAligned ≤ n - 8 by
      simp only [sizeofStructMem_eq, minSizeAligned_eq]
      omega)]
    by_cases hend : Tiling.total xs + n = 20480
    · rw [if_pos hend, lwipAssert, if_neg (show ¬_ ≠ memSizeAligned from not_not_intro hend)]
    · rw [if_neg hend, lwipAssert_pos (show _ ≠ memSizeAligned from hend)]
  · rw [if_neg hroom, if_neg (show ¬newsize + sizeofStructMem + minSizeAligned ≤ n - 8 by
      simp only [sizeofStructMem_eq, minSizeAligned_eq]
      omega)]

/-- Whether the block after a used one is free, read off its header. -/
theorem Tiled.used_after {u : Bool} (ht : Tiled h (xs ++ ⟨n, u⟩ :: ys)) :
    memUsed h.ram (Tiling.total xs + n) ≠ 0 ↔ ∀ b ∈ ys.head?, b.used = true := by
  cases ys with
  | nil =>
      have htotal := ht.total
      simp only [total_append, total_cons, total_nil, Nat.add_zero] at htotal
      simp [htotal, ht.endHeader.used]
  | cons b ys =>
      have hlinked := ht.linked
      rw [← List.singleton_append, ← List.append_assoc] at hlinked
      obtain ⟨-, -, hused⟩ := hlinked.block
      simp only [total_append, total_cons, total_nil, Nat.add_zero] at hused
      cases hb : b.used <;> simp [hused, hb]

/-- Shrinking a used block: it begins where it did and is long enough, the others are as they were. -/
theorem Tiled.memTrimAt {newsize : Nat} (ht : Tiled h (xs ++ ⟨n, true⟩ :: ys)) (rmem : Int)
    (hmin : 12 ≤ newsize) (hdvd : newsize % 4 = 0) (hle : newsize + 8 ≤ n)
    (hend : Tiling.total xs + n ≠ 20480 ∨ n < newsize + 28) :
    ∃ h' bs k, Lwip.memTrimAt h rmem (Tiling.total xs) newsize = .ok (some rmem, h') ∧ Tiled h' bs ∧
      usedFrom 0 bs = usedFrom 0 xs ++ (Tiling.total xs, k) :: usedFrom (Tiling.total xs + n) ys ∧
      newsize + 8 ≤ k ∧ k ≤ n ∧ k < newsize + 28 ∧ Kept h.ram h'.ram bs := by
  rw [ht.memTrimAt_eq rmem hle]
  have hsame : n < newsize + 28 → ∃ h' bs k, (Except.ok (some rmem, h) : Except String (Option Int × Heap)) = .ok (some rmem, h') ∧ Tiled h' bs ∧
      usedFrom 0 bs = usedFrom 0 xs ++ (Tiling.total xs, k) :: usedFrom (Tiling.total xs + n) ys ∧
      newsize + 8 ≤ k ∧ k ≤ n ∧ k < newsize + 28 ∧ Kept h.ram h'.ram bs := by
    intro hlt
    refine ⟨h, _, n, rfl, ht, ?_, hle, Nat.le_refl n, hlt, fun _ _ _ _ _ _ => rfl⟩
    rw [usedFrom_append, usedFrom_used rfl, Nat.zero_add]
  by_cases heq : newsize + 8 = n
  · rw [if_pos heq]
    exact hsame (by omega)
  rw [if_neg heq]
  by_cases hused : memUsed h.ram (Tiling.total xs + n) = 0
  · rw [if_pos hused]
    have hfree : ∃ m zs, ys = ⟨m, false⟩ :: zs := by
      have hhead := mt ht.used_after.mpr (not_not_intro hused)
      cases ys with
      | nil => exact absurd (by simp) hhead
      | cons b zs =>
          obtain ⟨m, u⟩ := b
          cases u with
          | false => exact ⟨m, zs, rfl⟩
          | true => exact absurd (by simp) hhead
    obtain ⟨m, zs, rfl⟩ := hfree
    obtain ⟨ht', hkept⟩ := ht.moveNext hmin hdvd hle
    refine ⟨_, _, newsize + 8, rfl, ht', ?_, Nat.le_refl _, hle, by omega, hkept⟩
    rw [usedFrom_append, usedFrom_used rfl, usedFrom_free rfl, usedFrom_free rfl, Nat.zero_add]
    dsimp only
    rw [show Tiling.total xs + (newsize + 8) + (n + m - (newsize + 8)) = Tiling.total xs + n + m by omega]
  rw [if_neg hused]
  by_cases hroom : newsize + 28 ≤ n
  · rw [if_pos hroom, if_neg (hend.resolve_right (by omega))]
    obtain ⟨ht', hkept⟩ := ht.insertFree hmin hdvd hroom (ht.used_after.mp hused)
    refine ⟨_, _, newsize + 8, rfl, ht', ?_, Nat.le_refl _, hle, by omega, hkept⟩
    rw [usedFrom_append, usedFrom_used rfl, usedFrom_free rfl, Nat.zero_add]
    dsimp only
    rw [show Tiling.total xs + (newsize + 8) + (n - (newsize + 8)) = Tiling.total xs + n by omega]
  · rw [if_neg hroom]
    exact hsame (by omega)

/-- The assertion that a used block at the end of the heap runs into. -/
theorem Tiled.memTrimAt_last {newsize : Nat} (ht : Tiled h (xs ++ ⟨n, true⟩ :: ys)) (rmem : Int)
    (hend : Tiling.total xs + n = 20480) (hroom : newsize + 28 ≤ n) :
    Lwip.memTrimAt h rmem (Tiling.total xs) newsize = .error "invalid next ptr" := by
  have hused : memUsed h.ram (Tiling.total xs + n) ≠ 0 := by
    rw [hend, ht.endHeader.used]
    decide
  rw [ht.memTrimAt_eq rmem (by omega), if_neg (by omega), if_neg hused, if_pos hroom, if_pos hend]

end

end Lwip
