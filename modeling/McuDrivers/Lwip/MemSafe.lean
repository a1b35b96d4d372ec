import McuDrivers.Lwip.MemRun

set_option autoImplicit false

/-! # lwIP heap: every reachable state

What a user of the heap relies on, whatever calls came before: its bytes are its own, no assertion but one
fails, the heap's own check passes, an allocation fails only if there is no room, and nothing is lost. -/

namespace Lwip

open Tiling Relation

theorem MemReachable.inv {c : MemClient} (hc : MemReachable c) : ∃ bs, MemInv c bs := by
  obtain ⟨ram, hrun⟩ := hc
  induction hrun with
  | refl => exact ⟨_, .start ram⟩
  | tail _ hstep ih =>
      obtain ⟨bs, hi⟩ := ih
      exact hstep.inv hi

/-! ## Allocations -/

/-- The bytes of two allocations do not meet, nor those of one and the header of another. -/
def Alloc.Apart (a b : Alloc) : Prop :=
  a.ptr + a.bytes.length + 8 ≤ b.ptr ∨ b.ptr + b.bytes.length + 8 ≤ a.ptr

theorem MemInv.apart {c : MemClient} {bs : List Block} (hi : MemInv c bs) :
    c.live.Pairwise Alloc.Apart := by
  have hnodup := hi.owned.blocks.nodup_iff.mpr hi.tiled.sized.starts_nodup
  refine (List.pairwise_map.mp hnodup).imp_of_mem fun {a b} ha hb hne => ?_
  obtain ⟨p, n, hmem, ha⟩ := hi.owned.holds a ha
  obtain ⟨q, m, hmem', hb⟩ := hi.owned.holds b hb
  have haptr := ha.ptr
  have hbptr := hb.ptr
  have haroom := ha.room
  have hbroom := hb.room
  have hpq := usedFrom_apart hmem hmem' (by omega)
  unfold Alloc.Apart
  omega

/-- Every allocation that is held is aligned, inside the heap and apart from the others, and holds the
    bytes that its owner stored there last. -/
theorem heap_allocations {c : MemClient} (hc : MemReachable c) :
    (∀ a ∈ c.live, a.ptr % memAlignment = 0 ∧ sizeofStructMem ≤ a.ptr ∧
      a.ptr + a.bytes.length ≤ memSizeAligned ∧ dataAt c.heap.ram a.ptr a.bytes.length = a.bytes) ∧
      c.live.Pairwise Alloc.Apart := by
  obtain ⟨bs, hi⟩ := hc.inv
  refine ⟨fun a ha => ?_, hi.apart⟩
  obtain ⟨xs, n, ys, rfl, hholds⟩ := hi.block ha
  have hptr := hholds.ptr
  have hroom := hholds.room
  have htotal := hi.tiled.total
  have hxs := (Sized.append.mp hi.tiled.sized).1.total
  simp only [total_append, total_cons] at htotal
  rw [memAlignment_eq, sizeofStructMem_eq, memSizeAligned_eq]
  exact ⟨by omega, by omega, by omega, hholds.bytes⟩

/-- Three allocations that fill the heap, of which the middle one is freed. -/
def middleFreed : Option MemClient :=
  (MemClient.start fun _ => 0).run [.malloc 100, .malloc 200, .malloc 20156, .free 1]

theorem exists_middleFreed : ∃ c, MemReachable c ∧ middleFreed = some c ∧
    c.live.map (fun a => (a.ptr, a.bytes.length)) = [(324, 20156), (8, 100)] := by
  have hlive : middleFreed.map (fun c => c.live.map fun a => (a.ptr, a.bytes.length)) =
      some [(324, 20156), (8, 100)] := by decide +kernel
  obtain ⟨c, hc, hl⟩ := Option.map_eq_some_iff.mp hlive
  exact ⟨c, MemReachable.run ⟨_, .refl⟩ hc, hc, hl⟩

/-- The two that are left. -/
theorem heap_allocations_two : ∃ c, MemReachable c ∧
    c.live.map (fun a => (a.ptr, a.bytes.length)) = [(324, 20156), (8, 100)] ∧
    (∀ a ∈ c.live, a.ptr % memAlignment = 0 ∧ sizeofStructMem ≤ a.ptr ∧
      a.ptr + a.bytes.length ≤ memSizeAligned ∧ dataAt c.heap.ram a.ptr a.bytes.length = a.bytes) ∧
    c.live.Pairwise Alloc.Apart := by
  obtain ⟨c, hc, -, hlive⟩ := exists_middleFreed
  exact ⟨c, hc, hlive, heap_allocations hc⟩

/-! ## Calls -/

/-- Every call of a client returns, and no assertion fails; but `mem_trim` fails one if the block ends the
    heap and has enough to give back for a block of its own. -/
theorem heap_calls {c : MemClient} (hc : MemReachable c) :
    (∀ size, ∃ r h, memMalloc size c.heap = .ok (r, h)) ∧
      (∀ count size, count < 2 ^ 16 → size < 2 ^ 16 → ∃ r h, memCalloc count size c.heap = .ok (r, h)) ∧
      (∀ a ∈ c.live, ∃ h, memFree (some a.ptr) c.heap = .ok h) ∧
      ∀ a ∈ c.live, ∀ newSize, newSize ≤ a.bytes.length →
        (TrimsLast c.heap a.ptr newSize ∧ memTrim a.ptr newSize c.heap = .error "invalid next ptr") ∨
          (¬TrimsLast c.heap a.ptr newSize ∧ ∃ h, memTrim a.ptr newSize c.heap = .ok (some a.ptr, h)) := by
  obtain ⟨bs, hi⟩ := hc.inv
  refine ⟨fun size => ?_, fun count size hcount hsize => ?_, fun a ha => ?_, fun a ha newSize hle => ?_⟩
  · rcases hi.malloc size with ⟨h, hcall, -⟩ | ⟨p, h, -, hcall, -⟩
    · exact ⟨none, h, hcall⟩
    · exact ⟨some p, h, hcall⟩
  · rcases hi.calloc hcount hsize with ⟨h, hcall, -⟩ | ⟨p, h, -, hcall, -⟩
    · exact ⟨none, h, hcall⟩
    · exact ⟨some p, h, hcall⟩
  · obtain ⟨heap, live⟩ := c
    obtain ⟨before, after, rfl⟩ := List.append_of_mem ha
    obtain ⟨h, -, hcall, -⟩ := hi.free
    exact ⟨h, hcall⟩
  · obtain ⟨heap, live⟩ := c
    obtain ⟨before, after, rfl⟩ := List.append_of_mem ha
    rcases hi.trim hle with hlast | ⟨hnot, h, -, hcall, -⟩
    · exact .inl hlast
    · exact .inr ⟨hnot, h, hcall⟩

/-- The allocation that ends the heap is not trimmed; the other one is, and both can be freed. -/
theorem heap_calls_two : ∃ c a b, MemReachable c ∧ c.live = [a, b] ∧
    memTrim a.ptr 100 c.heap = .error "invalid next ptr" ∧
    (∃ h, memTrim b.ptr 50 c.heap = .ok (some b.ptr, h)) ∧
    (∃ h, memFree (some a.ptr) c.heap = .ok h) ∧ ∃ h, memFree (some b.ptr) c.heap = .ok h := by
  obtain ⟨c, hc, hrun, hlive⟩ := exists_middleFreed
  obtain ⟨a, rest, hab, ha, hrest⟩ := List.map_eq_cons_iff.mp hlive
  obtain ⟨b, rest, rfl, hb, hnil⟩ := List.map_eq_cons_iff.mp hrest
  rw [List.map_eq_nil_iff.mp hnil] at hab
  simp only [Prod.mk.injEq] at ha hb
  have hnext : middleFreed.map (fun c => (memNext c.heap.ram 316, memNext c.heap.ram 0)) =
      some (20480, 108) := by decide +kernel
  rw [hrun] at hnext
  simp only [Option.map_some, Option.some.injEq, Prod.mk.injEq] at hnext
  have hcalls := heap_calls hc
  have hfree := hcalls.2.2.1
  have htrim := hcalls.2.2.2
  have hlast : TrimsLast c.heap a.ptr 100 := by
    rw [TrimsLast, ha.1]
    exact ⟨hnext.1, by decide⟩
  have hnot : ¬TrimsLast c.heap b.ptr 50 := by
    rw [TrimsLast, hb.1]
    rintro ⟨h, -⟩
    exact absurd (hnext.2.symm.trans h) (by decide)
  refine ⟨c, a, b, hc, hab, ?_, ?_, hfree a (by simp [hab]), hfree b (by simp [hab])⟩
  · rcases htrim a (by simp [hab]) 100 (by omega) with ⟨-, herror⟩ | ⟨hno, -⟩
    · exact herror
    · exact absurd hlast hno
  · rcases htrim b (by simp [hab]) 50 (by omega) with ⟨hyes, -⟩ | ⟨-, hok⟩
    · exact absurd hyes hnot
    · exact hok

/-! ## The heap's own check -/

/-- The blocks that the chain threads, from `a` on. -/
def blocksFrom (ram : Ram) : (fuel a : Nat) → List Block
  | 0, _ => []
  | fuel + 1, a =>
      if a < memSizeAligned then
        ⟨memNext ram a - a, memUsed ram a ≠ 0⟩ :: blocksFrom ram fuel (memNext ram a)
      else []

/-- The blocks of the heap, read off its headers. -/
def heapBlocks (ram : Ram) : List Block := blocksFrom ram (memSizeAligned + 1) 0

theorem blocksFrom_eq {ram : Ram} {p a fuel : Nat} {bs : List Block} (hl : Linked ram p a bs)
    (hsize : Sized bs) (htotal : a + total bs = 20480) (hfuel : bs.length < fuel) :
    blocksFrom ram fuel a = bs := by
  obtain ⟨fuel, rfl⟩ : ∃ f, fuel = f + 1 := ⟨fuel - 1, by omega⟩
  induction bs generalizing p a fuel with
  | nil =>
      rw [total_nil] at htotal
      rw [blocksFrom, if_neg (by rw [memSizeAligned_eq]; omega)]
  | cons b bs ih =>
      obtain ⟨hnext, -, hused, hrest⟩ := hl
      obtain ⟨hb, hsize⟩ := Sized.cons.mp hsize
      rw [total_cons] at htotal
      rw [List.length_cons] at hfuel
      obtain ⟨fuel, rfl⟩ : ∃ f, fuel = f + 1 := ⟨fuel - 1, by omega⟩
      rw [blocksFrom, if_pos (by rw [memSizeAligned_eq]; omega), hnext, hused,
        ih hrest hsize (by omega) fuel (by omega)]
      obtain ⟨n, u⟩ := b
      cases u <;> simp

theorem Tiled.heapBlocks {h : Heap} {bs : List Block} (ht : Tiled h bs) : Lwip.heapBlocks h.ram = bs :=
  blocksFrom_eq ht.linked ht.sized (by rw [Nat.zero_add]; exact ht.total) (by
    have := ht.sized.length_le
    have := ht.total
    rw [memSizeAligned_eq]
    omega)

/-- The loop of the check, from a block on that has one before it. -/
theorem Tiled.sanityLoop {h : Heap} {xs ys : List Block} {b : Block} {fuel : Nat}
    (ht : Tiled h (xs ++ b :: ys)) (hfuel : ys.length < fuel) :
    Lwip.sanityLoop h.ram fuel (total xs + b.len) b.used.toNat = true := by
  obtain ⟨fuel, rfl⟩ : ∃ f, fuel = f + 1 := ⟨fuel - 1, by omega⟩
  have hb := (Sized.cons.mp (Sized.append.mp ht.sized).2).1
  have htotal := ht.total
  simp only [total_append, total_cons] at htotal
  induction ys generalizing xs b fuel with
  | nil =>
      rw [total_nil] at htotal
      rw [Lwip.sanityLoop, if_neg (by rw [memSizeAligned_eq]; omega)]
      have hend : total xs + b.len = 20480 := by omega
      rw [hend]
      exact decide_eq_true ⟨rfl, ht.endHeader.used, ht.endHeader.prev, ht.endHeader.next⟩
  | cons c ys ih =>
      have ht' : Tiled h ((xs ++ [b]) ++ c :: ys) := by simpa using ht
      have htot : total (xs ++ [b]) = total xs + b.len := by simp
      obtain ⟨hnext, hprev, hused⟩ := ht'.linked.block
      have hvalid := ht'.linked.memLinkValid ht'.sized ht'.total
      have hc := (Sized.cons.mp (Sized.append.mp ht'.sized).2).1
      have haligned := (Sized.append.mp ht'.sized).1.total
      have hcoal := (coalesced_cons_cons.mp ht.coalesced.right).1
      rw [lastFrom_concat, Nat.zero_add] at hprev
      rw [htot] at hnext hprev hused hvalid haligned
      rw [total_cons] at htotal
      rw [List.length_cons] at hfuel
      obtain ⟨fuel, rfl⟩ : ∃ f, fuel = f + 1 := ⟨fuel - 1, by omega⟩
      rw [Lwip.sanityLoop, if_pos (by rw [memSizeAligned_eq]; omega), hnext, hused, Bool.and_eq_true]
      constructor
      · refine decide_eq_true ⟨haligned, by rw [hprev, memSizeAligned_eq]; omega,
          by rw [memSizeAligned_eq]; omega, ?_, hvalid⟩
        cases hbu : b.used <;> cases hcu : c.used <;> simp [hbu, hcu] at hcoal ⊢
      · have := ih ht' fuel (by omega) hc (by rw [htot]; omega)
        rwa [htot] at this

/-- In every reachable state the heap's own check passes, `lfree` is the lowest free block, and the
    statistics count the bytes of the used blocks. -/
theorem heap_sane {c : MemClient} (hc : MemReachable c) :
    memSanity c.heap = true ∧ c.heap.lfree = firstFree 0 (heapBlocks c.heap.ram) ∧
      c.heap.stats.used = usedLen (heapBlocks c.heap.ram) := by
  obtain ⟨bs, hi⟩ := hc.inv
  have ht := hi.tiled
  rw [ht.heapBlocks]
  refine ⟨?_, ht.lfree, ht.used⟩
  have htotal := ht.total
  have hlength := ht.sized.length_le
  cases bs with
  | nil => exact absurd htotal (by simp)
  | cons b bs =>
      rw [total_cons] at htotal
      rw [List.length_cons, total_cons] at hlength
      obtain ⟨hnext, hprev, hused⟩ := (show Linked c.heap.ram 0 0 ([] ++ b :: bs) from ht.linked).block
      have hloop := @Tiled.sanityLoop _ [] _ _ (memSizeAligned + 1) ht (by
        rw [memSizeAligned_eq]
        omega)
      simp only [total_nil, Nat.zero_add, lastFrom] at hnext hprev hused hloop
      rw [memSanity, hnext, hprev, hused, hloop, Bool.and_true]
      refine decide_eq_true ⟨?_, rfl, by rw [memSizeAligned_eq]; omega⟩
      cases b.used <;> simp

/-- With the middle one of three blocks free. -/
theorem heap_sane_hole : ∃ c, MemReachable c ∧ heapBlocks c.heap.ram =
      [⟨108, true⟩, ⟨208, false⟩, ⟨20164, true⟩] ∧
    memSanity c.heap = true ∧ c.heap.lfree = 108 ∧ c.heap.stats.used = 20272 := by
  obtain ⟨c, hc, hrun, -⟩ := exists_middleFreed
  have hblocks : middleFreed.map (fun c => heapBlocks c.heap.ram) =
      some [⟨108, true⟩, ⟨208, false⟩, ⟨20164, true⟩] := by decide +kernel
  rw [hrun, Option.map_some, Option.some.injEq] at hblocks
  obtain ⟨hsane, hlfree, hused⟩ := heap_sane hc
  rw [hblocks] at hlfree hused
  exact ⟨c, hc, hblocks, hsane, hlfree, hused⟩

/-! ## Room -/

/-- The `n` bytes from `x` on lie in the heap and meet no used block. -/
def Room (ram : Ram) (x n : Nat) : Prop :=
  x + n ≤ memSizeAligned ∧ ∀ p m, (p, m) ∈ usedFrom 0 (heapBlocks ram) → x + n ≤ p ∨ p + m ≤ x

/-- `mem_malloc` takes the lowest place where the block and its header have room, and returns NULL only
    if there is none, whatever `lfree` spares it. -/
theorem heap_malloc_lowest {c : MemClient} (hc : MemReachable c) {size : Nat} (hpos : 0 < size)
    (hle : size ≤ memSize) :
    (∀ h, memMalloc size c.heap = .ok (none, h) →
        ∀ x, ¬Room c.heap.ram x (sizeofStructMem + adjustedSize size)) ∧
      ∀ p h, memMalloc size c.heap = .ok (some p, h) →
        Room c.heap.ram (p - sizeofStructMem) (sizeofStructMem + adjustedSize size) ∧
          ∀ x, Room c.heap.ram x (sizeofStructMem + adjustedSize size) → p ≤ x + sizeofStructMem := by
  obtain ⟨bs, hi⟩ := hc.inv
  have ht := hi.tiled
  have hroom : ∀ x, Room c.heap.ram x (8 + adjustedSize size) →
      ∃ xs m ys, bs = xs ++ ⟨m, false⟩ :: ys ∧ total xs ≤ x ∧ x + (8 + adjustedSize size) ≤ total xs + m := by
    rintro x ⟨hx, hfree⟩
    rw [ht.heapBlocks] at hfree
    have htotal := ht.total
    rw [memSizeAligned_eq] at hx
    obtain ⟨xs, m, ys, heq, hlo, hhi⟩ := ht.coalesced.room (by omega) (Nat.zero_le x) (by omega) hfree
    exact ⟨xs, m, ys, heq, by omega, by omega⟩
  rw [sizeofStructMem_eq]
  rcases ht.memMalloc hpos hle with
    ⟨hcall, hall⟩ | ⟨xs, m, ys, h', bs', k, heq, hm, hall, hcall, -, -, -, -, -⟩
  · rw [hcall]
    refine ⟨fun h _ x hx => ?_, fun p h hsome => absurd hsome (by simp)⟩
    obtain ⟨xs, m, ys, heq, hlo, hhi⟩ := hroom x hx
    have := hall ⟨m, false⟩ (by rw [heq]; simp) rfl
    dsimp only at this
    omega
  · rw [hcall]
    refine ⟨fun h hnone => absurd hnone (by simp), fun p h hsome => ?_⟩
    obtain ⟨rfl, -⟩ : total xs + 8 = p ∧ h' = h := by simpa using hsome
    refine ⟨⟨?_, ?_⟩, fun x hx => ?_⟩
    · have htotal := ht.total
      rw [heq] at htotal
      simp only [total_append, total_cons] at htotal
      rw [memSizeAligned_eq]
      omega
    · intro q l hmem
      rw [ht.heapBlocks, heq, usedFrom_split_free, List.mem_append] at hmem
      rcases hmem with hmem | hmem
      · have := (usedFrom_bounds hmem).2
        omega
      · have := (usedFrom_bounds hmem).1
        omega
    · obtain ⟨xs', m', ys', heq', hlo, hhi⟩ := hroom x hx
      by_contra hlt
      -- a block further down would have had room
      have hmem := mem_of_total_lt (heq.symm.trans heq') (by omega)
      have := hall _ hmem rfl
      dsimp only at this
      omega

theorem eq_ok_of_toOption {α : Type} {e : Except String α} {r : α} (h : e.toOption = some r) :
    e = .ok r := by
  cases e with
  | error err => cases h
  | ok a => exact congrArg _ (Option.some.inj h)

/-- 150 bytes go into the hole, and for 300 there is no room. -/
theorem heap_malloc_lowest_hole : ∃ c, MemReachable c ∧
    (∃ h, memMalloc 150 c.heap = .ok (some 116, h) ∧
      ∀ x, Room c.heap.ram x (sizeofStructMem + adjustedSize 150) → 116 ≤ x + sizeofStructMem) ∧
    ∃ h, memMalloc 300 c.heap = .ok (none, h) ∧
      ∀ x, ¬Room c.heap.ram x (sizeofStructMem + adjustedSize 300) := by
  obtain ⟨c, hc, hrun, -⟩ := exists_middleFreed
  have hcalls : middleFreed.map (fun c => ((memMalloc 150 c.heap).toOption.map (·.1),
      (memMalloc 300 c.heap).toOption.map (·.1))) = some (some (some 116), some none) := by
    decide +kernel
  rw [hrun] at hcalls
  simp only [Option.map_some, Option.some.injEq, Prod.mk.injEq, Option.map_eq_some_iff] at hcalls
  obtain ⟨⟨⟨p, h⟩, hsmall, rfl⟩, ⟨q, h'⟩, hlarge, rfl⟩ := hcalls
  replace hsmall := eq_ok_of_toOption hsmall
  replace hlarge := eq_ok_of_toOption hlarge
  exact ⟨c, hc, ⟨h, hsmall, ((heap_malloc_lowest hc (by decide) (by decide)).2 116 h hsmall).2⟩,
    h', hlarge, (heap_malloc_lowest hc (by decide) (by decide)).1 h' hlarge⟩

/-- Once everything has been given back, in whatever order, the heap is one free block again. -/
theorem heap_all_freed {c : MemClient} (hc : MemReachable c) (hlive : c.live = []) :
    heapBlocks c.heap.ram = [⟨memSizeAligned, false⟩] ∧ c.heap.lfree = 0 ∧ c.heap.stats.used = 0 := by
  obtain ⟨bs, hi⟩ := hc.inv
  have ht := hi.tiled
  have hblocks := hi.owned.blocks
  rw [hlive, List.map_nil, List.nil_perm, List.map_eq_nil_iff] at hblocks
  have hbs : bs = [⟨20480, false⟩] := by
    refine @Coalesced.ext 0 _ [⟨20480, false⟩] ht.coalesced (by simp [Coalesced]) ht.sized.pos (by simp)
      (by simpa using ht.total) ?_
    rw [hblocks]
    rfl
  have hlfree := ht.lfree
  have hused := ht.used
  rw [hbs] at hlfree hused
  rw [ht.heapBlocks, hbs]
  exact ⟨rfl, hlfree, hused⟩

/-- Four allocations, the last of them in a hole, one of them trimmed, and freed in another order. -/
theorem heap_all_freed_shuffled : ∃ c, MemReachable c ∧
    (MemClient.start fun _ => 0).run [.malloc 100, .malloc 200, .malloc 20156, .free 1, .malloc 150,
      .trim 2 40, .malloc 30, .free 1, .free 2, .free 0, .free 0] = some c ∧ c.live = [] ∧
    heapBlocks c.heap.ram = [⟨memSizeAligned, false⟩] ∧ c.heap.lfree = 0 ∧ c.heap.stats.used = 0 := by
  have hlive : ((MemClient.start fun _ => 0).run [.malloc 100, .malloc 200, .malloc 20156, .free 1,
      .malloc 150, .trim 2 40, .malloc 30, .free 1, .free 2, .free 0, .free 0]).map
      (fun c => c.live.map (·.ptr)) = some [] := by decide +kernel
  obtain ⟨c, hrun, hnil⟩ := Option.map_eq_some_iff.mp hlive
  have hc : MemReachable c := MemReachable.run ⟨_, .refl⟩ hrun
  have hempty : c.live = [] := List.map_eq_nil_iff.mp hnil
  exact ⟨c, hc, hrun, hempty, heap_all_freed hc hempty⟩

end Lwip
