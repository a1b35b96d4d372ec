import Mathlib.Logic.Relation
import McuDrivers.Lwip.MemAlloc

set_option autoImplicit false

/-! # lwIP heap: runs of its clients

`MemClient` is the heap together with what its users know of it: the allocations they hold, each with the
bytes they last stored there. That ledger is the abstract heap: `mem_malloc` adds an allocation, `mem_free`
takes one away, `mem_trim` cuts one, and nobody else's bytes change. A client frees and trims what it holds,
stores inside its own bytes, and may also pass `mem_free` NULL or a pointer that the function refuses. -/

namespace Lwip

open Tiling Relation

/-- An allocation that is held, and its bytes. -/
structure Alloc where
  ptr : Nat
  bytes : List (BitVec 8)

structure MemClient where
  heap : Heap
  live : List Alloc

/-- The bytes of the array from `p` on. -/
def dataAt (ram : Ram) (p len : Nat) : List (BitVec 8) := (List.range len).map fun i => ram (p + i)

/-- Heap and statistics as they are at startup. -/
def MemClient.start (ram : Ram) : MemClient := ⟨memInit ram ⟨0, 0, 0, 0, 0⟩, []⟩

inductive MemStep : MemClient → MemClient → Prop where
  | mallocNull {c : MemClient} {size : Nat} {h : Heap} (hcall : memMalloc size c.heap = .ok (none, h)) :
      MemStep c ⟨h, c.live⟩
  | malloc {c : MemClient} {size p : Nat} {h : Heap} (hcall : memMalloc size c.heap = .ok (some p, h)) :
      MemStep c ⟨h, ⟨p, dataAt h.ram p size⟩ :: c.live⟩
  | callocNull {c : MemClient} {count size : Nat} {h : Heap} (hcount : count < 2 ^ 16)
      (hsize : size < 2 ^ 16) (hcall : memCalloc count size c.heap = .ok (none, h)) : MemStep c ⟨h, c.live⟩
  | calloc {c : MemClient} {count size p : Nat} {h : Heap} (hcount : count < 2 ^ 16) (hsize : size < 2 ^ 16)
      (hcall : memCalloc count size c.heap = .ok (some p, h)) :
      MemStep c ⟨h, ⟨p, List.replicate (count * size) 0⟩ :: c.live⟩
  | freeNull {c : MemClient} {h : Heap} (hcall : memFree none c.heap = .ok h) : MemStep c ⟨h, c.live⟩
  | freeRefused {c : MemClient} {rmem : Int} {h : Heap} (hrefused : Refused rmem)
      (hcall : memFree (some rmem) c.heap = .ok h) : MemStep c ⟨h, c.live⟩
  | free {heap h : Heap} {before after : List Alloc} {a : Alloc}
      (hcall : memFree (some a.ptr) heap = .ok h) :
      MemStep ⟨heap, before ++ a :: after⟩ ⟨h, before ++ after⟩
  | trim {heap h : Heap} {before after : List Alloc} {a : Alloc} {newSize : Nat} {r : Option Int}
      (hle : newSize ≤ a.bytes.length) (hcall : memTrim a.ptr newSize heap = .ok (r, h)) :
      MemStep ⟨heap, before ++ a :: after⟩ ⟨h, before ++ ⟨a.ptr, a.bytes.take newSize⟩ :: after⟩
  | store {heap : Heap} {before after : List Alloc} {a : Alloc} {i : Nat} (b : BitVec 8)
      (hi : i < a.bytes.length) :
      MemStep ⟨heap, before ++ a :: after⟩
        ⟨{ heap with ram := Function.update heap.ram (a.ptr + i) b },
          before ++ ⟨a.ptr, a.bytes.set i b⟩ :: after⟩

/-- The states that a run of clients can lead to. -/
def MemReachable (c : MemClient) : Prop := ∃ ram, ReflTransGen MemStep (.start ram) c

/-! ## Runs that can be evaluated -/

/-- Calls of a client, with the `i`-th of the allocations it holds. -/
inductive MemCall where
  | malloc (size : Nat)
  | free (i : Nat)
  | trim (i newSize : Nat)

/-- The client after a call; none if an assertion fails, or if there is no such allocation. -/
def MemClient.call : MemClient → MemCall → Option MemClient
  | ⟨heap, live⟩, .malloc size =>
      match memMalloc size heap with
      | .ok (some p, h) => some ⟨h, ⟨p, dataAt h.ram p size⟩ :: live⟩
      | .ok (none, h) => some ⟨h, live⟩
      | .error _ => none
  | ⟨heap, live⟩, .free i =>
      match live[i]? with
      | none => none
      | some a =>
          match memFree (some a.ptr) heap with
          | .ok h => some ⟨h, live.take i ++ live.drop (i + 1)⟩
          | .error _ => none
  | ⟨heap, live⟩, .trim i newSize =>
      match live[i]? with
      | none => none
      | some a =>
          if newSize ≤ a.bytes.length then
            match memTrim a.ptr newSize heap with
            | .ok (_, h) => some ⟨h, live.take i ++ ⟨a.ptr, a.bytes.take newSize⟩ :: live.drop (i + 1)⟩
            | .error _ => none
          else none

def MemClient.run (c : MemClient) : List MemCall → Option MemClient
  | [] => some c
  | k :: ks => (c.call k).bind fun c => c.run ks

theorem MemClient.call_step {c c' : MemClient} {k : MemCall} (h : c.call k = some c') : MemStep c c' := by
  obtain ⟨heap, live⟩ := c
  have hsplit : ∀ i a, live[i]? = some a → live.take i ++ a :: live.drop (i + 1) = live := by
    intro i a ha
    obtain ⟨hi, rfl⟩ := List.getElem?_eq_some_iff.mp ha
    rw [← List.drop_eq_getElem_cons hi, List.take_append_drop]
  cases k with
  | malloc size =>
      rw [call] at h
      split at h
      · next hcall =>
          cases h
          exact .malloc hcall
      · next hcall =>
          cases h
          exact .mallocNull hcall
      · cases h
  | free i =>
      rw [call] at h
      split at h
      · cases h
      · next a ha =>
          split at h
          · next h' hcall =>
              cases h
              have hstep := @MemStep.free heap h' (live.take i) (live.drop (i + 1)) a hcall
              rwa [hsplit i a ha] at hstep
          · cases h
  | trim i newSize =>
      rw [call] at h
      split at h
      · cases h
      · next a ha =>
          split at h
          · next hle =>
              split at h
              · next r h' hcall =>
                  cases h
                  have hstep := @MemStep.trim heap h' (live.take i) (live.drop (i + 1)) a newSize r hle hcall
                  rwa [hsplit i a ha] at hstep
              · cases h
          · cases h

theorem MemReachable.run {c c' : MemClient} (hc : MemReachable c) {calls : List MemCall}
    (h : c.run calls = some c') : MemReachable c' := by
  induction calls generalizing c with
  | nil =>
      cases h
      exact hc
  | cons k ks ih =>
      obtain ⟨c₁, hcall, hrest⟩ := Option.bind_eq_some_iff.mp h
      obtain ⟨ram, hrun⟩ := hc
      exact ih ⟨ram, hrun.tail (MemClient.call_step hcall)⟩ hrest

/-! ## The ledger and the used blocks -/

/-- The block at `p` of length `n` is the allocation's, and there is not more of it than rounding makes. -/
structure Holds (ram : Ram) (a : Alloc) (p n : Nat) : Prop where
  ptr : a.ptr = p + 8
  room : a.bytes.length + 8 ≤ n
  tight : n < max 12 (lwipMemAlignSize a.bytes.length) + 28
  bytes : dataAt ram a.ptr a.bytes.length = a.bytes

/-- Each used block is the one of one allocation. -/
structure Owned (ram : Ram) (live : List Alloc) (used : List (Nat × Nat)) : Prop where
  blocks : (live.map (·.ptr)).Perm (used.map (·.1 + 8))
  holds : ∀ a ∈ live, ∃ p n, (p, n) ∈ used ∧ Holds ram a p n

structure MemInv (c : MemClient) (bs : List Block) : Prop where
  tiled : Tiled c.heap bs
  owned : Owned c.heap.ram c.live (usedFrom 0 bs)

section Data

variable {ram ram' : Ram} {p len : Nat}

@[simp] theorem dataAt_length : (dataAt ram p len).length = len := by simp [dataAt]

theorem dataAt_congr (h : ∀ x, p ≤ x → x < p + len → ram' x = ram x) :
    dataAt ram' p len = dataAt ram p len := by
  refine List.map_congr_left fun i hi => h _ (by omega) ?_
  have := List.mem_range.mp hi
  omega

theorem dataAt_take {k : Nat} (hk : k ≤ len) : (dataAt ram p len).take k = dataAt ram p k := by
  rw [dataAt, ← List.map_take, List.take_range, Nat.min_eq_left hk, dataAt]

/-- A byte that is stored is the one that changes. -/
theorem dataAt_update (i : Nat) (b : BitVec 8) :
    dataAt (Function.update ram (p + i) b) p len = (dataAt ram p len).set i b := by
  refine List.ext_getElem (by simp) fun j hj _ => ?_
  simp only [dataAt_length] at hj
  simp only [dataAt, List.getElem_map, List.getElem_range, List.getElem_set, Function.update_apply]
  rcases eq_or_ne i j with rfl | hne
  · simp
  · rw [if_neg (by omega), if_neg hne]

theorem Holds.kept {a : Alloc} {n : Nat} (h : Holds ram a p n)
    (hsame : ∀ x, p + 8 ≤ x → x < p + n → ram' x = ram x) : Holds ram' a p n where
  ptr := h.ptr
  room := h.room
  tight := h.tight
  bytes := by
    have hroom := h.room
    have hptr := h.ptr
    rw [dataAt_congr fun x hlo hhi => hsame x (by omega) (by omega)]
    exact h.bytes

end Data

/-! ## The start -/

theorem tiled_memInit (ram : Ram) : Tiled (memInit ram ⟨0, 0, 0, 0, 0⟩) [⟨20480, false⟩] := by
  have hnext : memNext (setUsed (setPrev (setNext ram 0 20480) 0 0) 0 0) 0 = 20480 := by
    rw [memNext, setUsed, load16_update (by omega), setPrev, load16_store16_other (by omega), setNext,
      load16_store16 (by omega)]
  have hprev : memPrev (setUsed (setPrev (setNext ram 0 20480) 0 0) 0 0) 0 = 0 := by
    rw [memPrev, setUsed, load16_update (by omega), setPrev, load16_store16 (by omega)]
  have hfirst : ∀ x, x < 20480 → (memInit ram ⟨0, 0, 0, 0, 0⟩).ram x =
      setUsed (setPrev (setNext ram 0 20480) 0 0) 0 0 x := by
    intro x hx
    simp only [memInit, memSizeAligned_eq]
    rw [setPrev, store16_other (by omega), setNext, store16_other (by omega), setUsed,
      update_other (by omega)]
  refine ⟨⟨⟨⟨?_, ?_, ?_, trivial⟩, by simp, ?_, ?_⟩, rfl, by simp [memInit, usedLen]⟩, by simp [Coalesced]⟩
  · rw [memNext, load16_congr (hfirst _ (by omega)) (hfirst _ (by omega)), ← memNext, hnext]
    rfl
  · rw [memPrev, load16_congr (hfirst _ (by omega)) (hfirst _ (by omega)), ← memPrev, hprev]
  · rw [memUsed, hfirst _ (by omega), ← memUsed, memUsed_setUsed (by omega)]
    rfl
  · intro b hb
    rw [List.mem_singleton.mp hb]
    decide
  · simp only [memInit, memSizeAligned_eq]
    constructor
    · rw [memUsed, setPrev, store16_other (by omega), setNext, store16_other (by omega)]
      exact memUsed_setUsed (by omega)
    · rw [memNext, setPrev, load16_store16_other (by omega), setNext, load16_store16 (by omega)]
    · rw [memPrev, setPrev, load16_store16 (by omega)]

theorem MemInv.start (ram : Ram) : MemInv (.start ram) [⟨20480, false⟩] where
  tiled := tiled_memInit ram
  owned := ⟨by simp [MemClient.start, usedFrom], by simp [MemClient.start]⟩

/-! ## What a call does to the ledger -/

theorem Tiled.congr {h h' : Heap} {bs : List Block} (ht : Tiled h bs) (hram : h'.ram = h.ram)
    (hlfree : h'.lfree = h.lfree) (hused : h'.stats.used = h.stats.used) : Tiled h' bs :=
  ⟨⟨hram ▸ ht.toChained, hlfree.trans ht.lfree, hused.trans ht.used⟩, ht.coalesced⟩

theorem usedFrom_split {xs ys : List Block} {n : Nat} :
    usedFrom 0 (xs ++ ⟨n, true⟩ :: ys) = usedFrom 0 xs ++ (total xs, n) :: usedFrom (total xs + n) ys := by
  rw [usedFrom_append, usedFrom_used rfl, Nat.zero_add]

theorem usedFrom_split_free {xs ys : List Block} {n : Nat} :
    usedFrom 0 (xs ++ ⟨n, false⟩ :: ys) = usedFrom 0 xs ++ usedFrom (total xs + n) ys := by
  rw [usedFrom_append, usedFrom_free rfl, Nat.zero_add]

/-- No two used blocks begin at one address. -/
theorem Sized.starts_nodup {bs : List Block} (hsize : Sized bs) :
    ((usedFrom 0 bs).map (·.1 + 8)).Nodup := by
  refine List.pairwise_map.mpr ((@usedFrom_sorted 0 bs).imp_of_mem ?_)
  intro x y hx _ hle
  obtain ⟨xs, ys, rfl, -⟩ := exists_of_mem_usedFrom hx
  have hpos := (Sized.cons.mp (Sized.append.mp hsize).2).1
  dsimp only at hpos
  omega

section Owned

variable {ram ram' : Ram} {before after : List Alloc} {a : Alloc} {U V : List (Nat × Nat)} {p n : Nat}

theorem Owned.kept {live : List Alloc} {used : List (Nat × Nat)} (h : Owned ram live used)
    (hsame : ∀ p n, (p, n) ∈ used → ∀ x, p + 8 ≤ x → x < p + n → ram' x = ram x) :
    Owned ram' live used := by
  refine ⟨h.blocks, fun a ha => ?_⟩
  obtain ⟨p, n, hmem, hholds⟩ := h.holds a ha
  exact ⟨p, n, hmem, hholds.kept (hsame p n hmem)⟩

theorem Owned.remove (h : Owned ram (before ++ a :: after) (U ++ (p, n) :: V)) (hptr : a.ptr = p + 8)
    (hnodup : ((U ++ (p, n) :: V).map (·.1 + 8)).Nodup) : Owned ram (before ++ after) (U ++ V) := by
  have hperm := h.blocks
  have hlive := hperm.nodup_iff.mpr hnodup
  simp only [List.map_append, List.map_cons, hptr] at hperm hlive
  refine ⟨?_, fun x hx => ?_⟩
  · have hmid := (List.perm_middle.symm.trans hperm).trans List.perm_middle
    simpa using hmid.cons_inv
  · have hne : x.ptr ≠ p + 8 := by
      intro heq
      have hout := (List.nodup_cons.mp (List.perm_middle.nodup_iff.mp hlive)).1
      rw [← List.map_append] at hout
      exact hout (List.mem_map.mpr ⟨x, hx, heq⟩)
    obtain ⟨p', n', hmem, hholds⟩ := h.holds x (by
      rw [List.mem_append] at hx ⊢
      exact hx.imp_right (List.mem_cons_of_mem _))
    refine ⟨p', n', ?_, hholds⟩
    rw [List.mem_append, List.mem_cons] at hmem
    rcases hmem with hU | heq | hV
    · exact List.mem_append_left _ hU
    · obtain ⟨rfl, rfl⟩ := Prod.mk.inj heq
      exact absurd hholds.ptr hne
    · exact List.mem_append_right _ hV

theorem Owned.insert (h : Owned ram (before ++ after) (U ++ V)) (hholds : Holds ram a p n) :
    Owned ram (before ++ a :: after) (U ++ (p, n) :: V) := by
  refine ⟨?_, fun x hx => ?_⟩
  · have hperm := h.blocks
    simp only [List.map_append, List.map_cons, hholds.ptr] at hperm ⊢
    exact (List.perm_middle.trans (hperm.cons _)).trans List.perm_middle.symm
  · rw [List.mem_append, List.mem_cons] at hx
    have hold : x ∈ before ++ after → ∃ p' n', (p', n') ∈ U ++ (p, n) :: V ∧ Holds ram x p' n' := by
      intro hx
      obtain ⟨p', n', hmem, hx⟩ := h.holds x hx
      refine ⟨p', n', ?_, hx⟩
      rw [List.mem_append] at hmem ⊢
      exact hmem.imp_right (List.mem_cons_of_mem _)
    rcases hx with hx | rfl | hx
    · exact hold (List.mem_append_left _ hx)
    · exact ⟨p, n, by simp, hholds⟩
    · exact hold (List.mem_append_right _ hx)

end Owned

/-- The block of an allocation that is held. -/
theorem MemInv.block {c : MemClient} {bs : List Block} (hi : MemInv c bs) {a : Alloc} (ha : a ∈ c.live) :
    ∃ xs n ys, bs = xs ++ ⟨n, true⟩ :: ys ∧ Holds c.heap.ram a (total xs) n := by
  obtain ⟨p, n, hmem, hholds⟩ := hi.owned.holds a ha
  obtain ⟨xs, ys, rfl, hp⟩ := exists_of_mem_usedFrom hmem
  rw [Nat.zero_add] at hp
  exact ⟨xs, n, ys, rfl, hp ▸ hholds⟩

/-- Every size: NULL and the array untouched, or a block of the size. -/
theorem Tiled.memMalloc_cases {h : Heap} {bs : List Block} (ht : Tiled h bs) (size : Nat) :
    (∃ h', Lwip.memMalloc size h = .ok (none, h') ∧ Tiled h' bs ∧ h'.ram = h.ram) ∨
      ∃ p k U V h' bs', Lwip.memMalloc size h = .ok (some (p + 8), h') ∧ Tiled h' bs' ∧
        usedFrom 0 bs = U ++ V ∧ usedFrom 0 bs' = U ++ (p, k) :: V ∧ size + 8 ≤ k ∧
        k < max 12 (lwipMemAlignSize size) + 28 ∧ Kept h.ram h'.ram bs' := by
  by_cases hzero : size = 0
  · exact .inl ⟨h, by rw [Lwip.memMalloc, if_pos hzero], ht, rfl⟩
  by_cases hlarge : 20480 < size
  · refine .inl ⟨h, ?_, ht, rfl⟩
    rw [Lwip.memMalloc, if_neg hzero]
    exact if_pos (adjustedSize_tooLarge hlarge)
  obtain ⟨hok, hadj⟩ := @adjustedSize_ok size (by omega)
  obtain ⟨-, -, hge, -⟩ := adjustedSize_spec hok
  rcases ht.memMalloc (show 0 < size by omega) (by omega) with
    ⟨hcall, -⟩ | ⟨xs, m, ys, h', bs', k, rfl, -, -, hcall, ht', hblocks, hk, hk', hkept⟩
  · exact .inl ⟨h.incErr, hcall, ht.congr rfl rfl rfl, rfl⟩
  · exact .inr ⟨total xs, k, _, _, h', bs', hcall, ht', usedFrom_split_free, hblocks, by omega, by omega,
      hkept⟩

theorem MemInv.malloc {c : MemClient} {bs : List Block} (hi : MemInv c bs) (size : Nat) :
    (∃ h', memMalloc size c.heap = .ok (none, h') ∧ MemInv ⟨h', c.live⟩ bs) ∨
      ∃ p h' bs', memMalloc size c.heap = .ok (some p, h') ∧
        MemInv ⟨h', ⟨p, dataAt h'.ram p size⟩ :: c.live⟩ bs' := by
  rcases hi.tiled.memMalloc_cases size with
    ⟨h', hcall, ht, hram⟩ | ⟨p, k, U, V, h', bs', hcall, ht, hold, hnew, hk, hk', hkept⟩
  · exact .inl ⟨h', hcall, ht, by rw [hram]; exact hi.owned⟩
  · refine .inr ⟨p + 8, h', bs', hcall, ht, ?_⟩
    have howned := hi.owned
    rw [hold] at howned
    have hkeep : Owned h'.ram c.live (U ++ V) := howned.kept fun p' n' hmem => hkept p' n' (by
      rw [hnew]
      rw [List.mem_append] at hmem ⊢
      exact hmem.imp_right (List.mem_cons_of_mem _))
    rw [hnew]
    exact @Owned.insert _ [] _ _ _ _ _ _ hkeep ⟨rfl, by simpa using hk, by simpa using hk', by simp⟩

theorem MemInv.free {heap : Heap} {before after : List Alloc} {a : Alloc} {bs : List Block}
    (hi : MemInv ⟨heap, before ++ a :: after⟩ bs) :
    ∃ h' bs', memFree (some a.ptr) heap = .ok h' ∧ MemInv ⟨h', before ++ after⟩ bs' := by
  obtain ⟨xs, n, ys, rfl, hholds⟩ := hi.block (a := a) (by simp)
  obtain ⟨h', bs', hcall, ht, hblocks, hkept⟩ := hi.tiled.memFreeAt
  have hroom := hholds.room
  have hptr := hholds.ptr
  have htotal := hi.tiled.total
  have hxs := (Sized.append.mp hi.tiled.sized).1.total
  have hn := (Sized.cons.mp (Sized.append.mp hi.tiled.sized).2).1
  simp only [total_append, total_cons] at htotal hn
  refine ⟨h', bs', ?_, ht, ?_⟩
  · have hok : ¬Refused a.ptr := by
      simp only [Refused, memAlignment_eq, sizeofStructMem_eq, memSizeAligned_eq, minSizeAligned_eq]
      omega
    have hmem : ((a.ptr : Int) - sizeofStructMem).toNat = total xs := by
      rw [sizeofStructMem_eq]
      omega
    simp only [memFree, if_neg hok, hmem]
    exact hcall
  · have howned := hi.owned
    rw [usedFrom_split] at howned
    rw [hblocks]
    refine (howned.remove hptr ?_).kept fun p' n' hmem => hkept p' n' (by rw [hblocks]; exact hmem)
    rw [← usedFrom_split]
    exact hi.tiled.sized.starts_nodup

/-- The block of an allocation that is trimmed: whether it ends the heap, with enough to give back. -/
def TrimsLast (h : Heap) (ptr newSize : Nat) : Prop :=
  memNext h.ram (ptr - 8) = 20480 ∧ ptr + adjustedSize newSize + 20 ≤ 20480

theorem MemInv.trim {heap : Heap} {before after : List Alloc} {a : Alloc} {bs : List Block} {newSize : Nat}
    (hi : MemInv ⟨heap, before ++ a :: after⟩ bs) (hle : newSize ≤ a.bytes.length) :
    (TrimsLast heap a.ptr newSize ∧ memTrim a.ptr newSize heap = .error "invalid next ptr") ∨
      (¬TrimsLast heap a.ptr newSize ∧ ∃ h' bs', memTrim a.ptr newSize heap = .ok (some a.ptr, h') ∧
        MemInv ⟨h', before ++ ⟨a.ptr, a.bytes.take newSize⟩ :: after⟩ bs') := by
  obtain ⟨xs, n, ys, rfl, hholds⟩ := hi.block (a := a) (by simp)
  have hroom := hholds.room
  have hptr := hholds.ptr
  have htotal := hi.tiled.total
  have hn := (Sized.cons.mp (Sized.append.mp hi.tiled.sized).2).1
  simp only [total_append, total_cons] at htotal hn
  obtain ⟨hok, hadj⟩ := @adjustedSize_ok newSize (by omega)
  obtain ⟨hmin, hdvd, hge, -⟩ := adjustedSize_spec hok
  obtain ⟨haligned, -, hlt⟩ := lwipMemAlignSize_spec newSize
  have hsmaller : adjustedSize newSize + 8 ≤ n := by omega
  have hmem : ((a.ptr : Int) - sizeofStructMem).toNat = total xs := by
    rw [sizeofStructMem_eq]
    omega
  have hlegal : lwipAssert "mem_trim: legal memory" (0 ≤ (a.ptr : Int) ∧ (a.ptr : Int) < memSizeAligned) =
      .ok () := lwipAssert_pos (by rw [memSizeAligned_eq]; omega)
  have hcall : memTrim a.ptr newSize heap = memTrimAt heap a.ptr (total xs) (adjustedSize newSize) := by
    simp only [memTrim, if_neg hok, hmem]
    rw [hlegal]
    rfl
  have hlast : TrimsLast heap a.ptr newSize ↔ total xs + n = 20480 ∧ adjustedSize newSize + 28 ≤ n := by
    have hnext : memNext heap.ram (total xs) = total xs + n := hi.tiled.linked.block.1
    rw [TrimsLast, hptr, Nat.add_sub_cancel, hnext]
    omega
  rw [hcall, hlast]
  by_cases hend : total xs + n = 20480 ∧ adjustedSize newSize + 28 ≤ n
  · exact .inl ⟨hend, hi.tiled.memTrimAt_last _ hend.1 hend.2⟩
  · obtain ⟨h', bs', k, htrim, ht, hblocks, hk, hk', htight, hkept⟩ :=
      hi.tiled.memTrimAt a.ptr hmin hdvd hsmaller (by omega)
    refine .inr ⟨hend, h', bs', htrim, ht, ?_⟩
    have howned := hi.owned
    rw [usedFrom_split] at howned
    have hrest := howned.remove hptr (by rw [← usedFrom_split]; exact hi.tiled.sized.starts_nodup)
    have hkeep := hrest.kept fun p' n' hmem => hkept p' n' (by
      rw [hblocks]
      rw [List.mem_append] at hmem ⊢
      exact hmem.imp_right (List.mem_cons_of_mem _))
    have hlen : (a.bytes.take newSize).length = newSize := by rw [List.length_take, Nat.min_eq_left hle]
    rw [hblocks]
    refine hkeep.insert ⟨hptr, by dsimp only; omega, by dsimp only; rw [hlen]; omega, ?_⟩
    have hsame := hkept (total xs) k (by rw [hblocks]; simp)
    dsimp only
    rw [hlen, dataAt_congr fun x hlo hhi => hsame x (by omega) (by omega), ← dataAt_take hle]
    exact congrArg (List.take newSize) hholds.bytes

/-- Stores inside the data of a used block leave the chain alone. -/
theorem Tiled.store {h : Heap} {xs ys : List Block} {n : Nat} {ram' : Ram}
    (ht : Tiled h (xs ++ ⟨n, true⟩ :: ys))
    (hout : ∀ x, (x < total xs + 8 ∨ total xs + n ≤ x) → ram' x = h.ram x) :
    Tiled { h with ram := ram' } (xs ++ ⟨n, true⟩ :: ys) := by
  obtain ⟨hxs, hnext, hprev, hused, hys⟩ := linked_append.mp ht.linked
  obtain ⟨hsx, hsy⟩ := Sized.append.mp ht.sized
  obtain ⟨hn, hsy⟩ := Sized.cons.mp hsy
  have htotal := ht.total
  simp only [total_append, total_cons, Nat.zero_add] at htotal hn hnext hprev hused hys
  refine ⟨⟨⟨linked_append.mpr ⟨hxs.same hsx fun x _ hx => hout x (by omega), ?_⟩, ht.total, ht.sized,
    ht.endHeader.congr fun x hx => hout x (by omega)⟩, ht.lfree, ht.used⟩, ht.coalesced⟩
  simp only [Nat.zero_add]
  refine ⟨?_, ?_, ?_, hys.same hsy fun x hx _ => hout x (by omega)⟩
  · rw [memNext, load16_congr (hout _ (by omega)) (hout _ (by omega))]
    exact hnext
  · rw [memPrev, load16_congr (hout _ (by omega)) (hout _ (by omega))]
    exact hprev
  · rw [memUsed, hout _ (by omega)]
    exact hused

/-- A client's stores inside its own bytes. -/
theorem MemInv.overwrite {heap : Heap} {before after : List Alloc} {a : Alloc} {bs : List Block}
    {ram' : Ram} {bytes : List (BitVec 8)} (hi : MemInv ⟨heap, before ++ a :: after⟩ bs)
    (hlen : bytes.length = a.bytes.length)
    (hout : ∀ x, (x < a.ptr ∨ a.ptr + a.bytes.length ≤ x) → ram' x = heap.ram x)
    (hdata : dataAt ram' a.ptr a.bytes.length = bytes) :
    MemInv ⟨{ heap with ram := ram' }, before ++ ⟨a.ptr, bytes⟩ :: after⟩ bs := by
  obtain ⟨xs, n, ys, rfl, hholds⟩ := hi.block (a := a) (by simp)
  have hptr := hholds.ptr
  have hroom := hholds.room
  refine ⟨hi.tiled.store fun x hx => hout x (by omega), ?_⟩
  have howned := hi.owned
  rw [usedFrom_split] at howned
  have hrest := howned.remove hptr (by rw [← usedFrom_split]; exact hi.tiled.sized.starts_nodup)
  rw [usedFrom_split]
  refine (hrest.kept fun p' n' hmem x hlo hhi => hout x ?_).insert
    ⟨hptr, by rw [hlen]; exact hroom, by rw [hlen]; exact hholds.tight, by rw [hlen]; exact hdata⟩
  rw [List.mem_append] at hmem
  rcases hmem with hU | hV
  · have := (usedFrom_bounds hU).2
    omega
  · have := (usedFrom_bounds hV).1
    omega

theorem MemInv.store {heap : Heap} {before after : List Alloc} {a : Alloc} {bs : List Block} {i : Nat}
    (hi : MemInv ⟨heap, before ++ a :: after⟩ bs) (hlt : i < a.bytes.length) (b : BitVec 8) :
    MemInv ⟨{ heap with ram := Function.update heap.ram (a.ptr + i) b },
      before ++ ⟨a.ptr, a.bytes.set i b⟩ :: after⟩ bs := by
  obtain ⟨xs, n, ys, rfl, hholds⟩ := hi.block (a := a) (by simp)
  refine hi.overwrite (by simp) (fun x hx => update_other (by omega)) ?_
  rw [dataAt_update]
  exact congrArg (List.set · i b) hholds.bytes

theorem dataAt_memsetZero (ram : Ram) (p len : Nat) :
    dataAt (memsetZero ram p len) p len = List.replicate len 0 := by
  refine List.eq_replicate_iff.mpr ⟨by simp, fun b hb => ?_⟩
  obtain ⟨i, hi, rfl⟩ := List.mem_map.mp hb
  have := List.mem_range.mp hi
  exact if_pos (by omega)

theorem MemInv.calloc {c : MemClient} {bs : List Block} (hi : MemInv c bs) {count size : Nat}
    (hcount : count < 2 ^ 16) (hsize : size < 2 ^ 16) :
    (∃ h', memCalloc count size c.heap = .ok (none, h') ∧ MemInv ⟨h', c.live⟩ bs) ∨
      ∃ p h' bs', memCalloc count size c.heap = .ok (some p, h') ∧
        MemInv ⟨h', ⟨p, List.replicate (count * size) 0⟩ :: c.live⟩ bs' := by
  have hmul : count * size % 2 ^ 32 = count * size := by
    refine Nat.mod_eq_of_lt (Nat.lt_of_lt_of_le (Nat.mul_lt_mul'' hcount hsize) (by decide))
  rw [memCalloc, hmul]
  by_cases hfits : memSizeT (count * size) = count * size
  · rw [if_neg (not_not_intro hfits), hfits]
    rcases hi.malloc (count * size) with ⟨h', hcall, hi'⟩ | ⟨p, h', bs', hcall, hi'⟩
    · exact .inl ⟨h', by rw [hcall]; rfl, hi'⟩
    · refine .inr ⟨p, _, bs', by rw [hcall]; rfl, ?_⟩
      exact @MemInv.overwrite _ [] _ _ _ _ _ hi' (by simp)
        (fun x hx => if_neg (by rw [dataAt_length] at hx; dsimp only at hx; omega))
        (by rw [dataAt_length]; exact dataAt_memsetZero _ _ _)
  · exact .inl ⟨c.heap, if_pos hfits, hi.tiled, hi.owned⟩

theorem MemInv.refused {c : MemClient} {bs : List Block} (hi : MemInv c bs) :
    MemInv ⟨c.heap.incIllegal, c.live⟩ bs := ⟨hi.tiled.congr rfl rfl rfl, hi.owned⟩

/-! ## Runs -/

/-- Every call keeps the heap in order, and the ledger. -/
theorem MemStep.inv {c c' : MemClient} (hstep : MemStep c c') {bs : List Block} (hi : MemInv c bs) :
    ∃ bs', MemInv c' bs' := by
  cases hstep with
  | @mallocNull _ size h hcall =>
      rcases hi.malloc size with ⟨h', hcall', hi'⟩ | ⟨p, h', bs', hcall', -⟩
      · obtain rfl : h' = h := by simpa using hcall'.symm.trans hcall
        exact ⟨bs, hi'⟩
      · exact absurd (hcall'.symm.trans hcall) (by simp)
  | @malloc _ size p h hcall =>
      rcases hi.malloc size with ⟨h', hcall', -⟩ | ⟨p', h', bs', hcall', hi'⟩
      · exact absurd (hcall'.symm.trans hcall) (by simp)
      · obtain ⟨rfl, rfl⟩ : p' = p ∧ h' = h := by simpa using hcall'.symm.trans hcall
        exact ⟨bs', hi'⟩
  | @callocNull _ count size h hcount hsize hcall =>
      rcases hi.calloc hcount hsize with ⟨h', hcall', hi'⟩ | ⟨p, h', bs', hcall', -⟩
      · obtain rfl : h' = h := by simpa using hcall'.symm.trans hcall
        exact ⟨bs, hi'⟩
      · exact absurd (hcall'.symm.trans hcall) (by simp)
  | @calloc _ count size p h hcount hsize hcall =>
      rcases hi.calloc hcount hsize with ⟨h', hcall', -⟩ | ⟨p', h', bs', hcall', hi'⟩
      · exact absurd (hcall'.symm.trans hcall) (by simp)
      · obtain ⟨rfl, rfl⟩ : p' = p ∧ h' = h := by simpa using hcall'.symm.trans hcall
        exact ⟨bs', hi'⟩
  | freeNull hcall =>
      obtain rfl := Except.ok.inj hcall
      exact ⟨bs, hi⟩
  | freeRefused hrefused hcall =>
      rw [memFree, if_pos hrefused] at hcall
      obtain rfl := Except.ok.inj hcall
      exact ⟨bs, hi.refused⟩
  | free hcall =>
      obtain ⟨h', bs', hcall', hi'⟩ := hi.free
      obtain rfl := Except.ok.inj (hcall'.symm.trans hcall)
      exact ⟨bs', hi'⟩
  | trim hle hcall =>
      rcases hi.trim hle with ⟨-, hcall'⟩ | ⟨-, h', bs', hcall', hi'⟩
      · exact absurd (hcall'.symm.trans hcall) (by simp)
      · obtain ⟨-, rfl⟩ := Prod.mk.inj (Except.ok.inj (hcall'.symm.trans hcall))
        exact ⟨bs', hi'⟩
  | store b hlt => exact ⟨bs, hi.store hlt b⟩

end Lwip
