import McuDrivers.Lwip.Mem

set_option autoImplicit false

/-! # lwIP heap: the chain of headers

`Threaded h bs` says that the headers of the heap thread exactly the tiling `bs`, that `lfree` is its
first free block and that the statistics count its used bytes. What the functions do to the headers is
one of three changes (a block changes its state, two blocks become one, one becomes two), and each is a
change of the tiling that leaves the user data of all used blocks alone. -/

namespace Lwip

open Tiling

@[simp] theorem minSizeAligned_eq : minSizeAligned = 12 := rfl

@[simp] theorem sizeofStructMem_eq : sizeofStructMem = 8 := rfl

@[simp] theorem memSizeAligned_eq : memSizeAligned = 20480 := rfl

@[simp] theorem memAlignment_eq : memAlignment = 4 := rfl

theorem memSizeT_of_lt {n : Nat} (h : n < 65536) : memSizeT n = n := Nat.mod_eq_of_lt h

/-! ## Fields of headers -/

section Fields

variable {ram : Ram} {a c x v : Nat}

theorem load16_congr {ram' : Ram} (h₀ : ram' a = ram a) (h₁ : ram' (a + 1) = ram (a + 1)) :
    load16 ram' a = load16 ram a := by
  rw [load16, load16, h₀, h₁]

theorem store16_other (h : x < c ∨ c + 2 ≤ x) : store16 ram c v x = ram x := by
  rw [store16, Function.update_of_ne (by omega), Function.update_of_ne (by omega)]

theorem load16_store16 (hv : v < 65536) : load16 (store16 ram a v) a = v := by
  rw [load16, store16, Function.update_of_ne (by omega), Function.update_self, Function.update_self,
    BitVec.toNat_ofNat, BitVec.toNat_ofNat]
  omega

theorem load16_store16_other (h : a + 2 ≤ c ∨ c + 2 ≤ a) :
    load16 (store16 ram c v) a = load16 ram a :=
  load16_congr (store16_other (by omega)) (store16_other (by omega))

theorem update_other {b : BitVec 8} (h : x ≠ c) : Function.update ram c b x = ram x :=
  Function.update_of_ne h b ram

theorem load16_update {b : BitVec 8} (h : c < a ∨ a + 2 ≤ c) :
    load16 (Function.update ram c b) a = load16 ram a :=
  load16_congr (update_other (by omega)) (update_other (by omega))

theorem memUsed_setUsed (hv : v < 256) : memUsed (setUsed ram a v) a = v := by
  rw [memUsed, setUsed, Function.update_self, BitVec.toNat_ofNat, Nat.mod_eq_of_lt hv]

end Fields

/-! ## Linked blocks -/

/-- The headers from `a` on are those of the blocks `bs`; `p` comes before them. -/
def Linked (ram : Ram) : (p a : Nat) → List Block → Prop
  | _, _, [] => True
  | p, a, b :: bs => memNext ram a = a + b.len ∧ memPrev ram a = p ∧ memUsed ram a = b.used.toNat ∧
      Linked ram a (a + b.len) bs

/-- Where the last of the blocks begins, or `p` if there is none. -/
def lastFrom : (p a : Nat) → List Block → Nat
  | p, _, [] => p
  | _, a, b :: bs => lastFrom a (a + b.len) bs

section Linked

variable {ram ram' : Ram} {p q a x : Nat} {b : Block} {bs xs ys : List Block}

theorem linked_append : Linked ram p a (xs ++ ys) ↔
    Linked ram p a xs ∧ Linked ram (lastFrom p a xs) (a + total xs) ys := by
  induction xs generalizing p a with
  | nil => simp [Linked, lastFrom]
  | cons b xs ih => simp only [List.cons_append, Linked, ih, lastFrom, total_cons, Nat.add_assoc, and_assoc]

theorem lastFrom_append : lastFrom p a (xs ++ ys) = lastFrom (lastFrom p a xs) (a + total xs) ys := by
  induction xs generalizing p a with
  | nil => rfl
  | cons b xs ih => rw [List.cons_append, lastFrom, ih, lastFrom, total_cons, Nat.add_assoc]

theorem lastFrom_le (h : p ≤ a) : lastFrom p a xs ≤ a + total xs := by
  induction xs generalizing p a with
  | nil => exact h
  | cons b xs ih =>
      rw [lastFrom, total_cons]
      have := ih (p := a) (a := a + b.len) (by omega)
      omega

/-- Blocks that are long enough for a header and as much data as there has to be. -/
def Sized (bs : List Block) : Prop := ∀ b ∈ bs, 20 ≤ b.len ∧ b.len % 4 = 0

theorem Sized.append : Sized (xs ++ ys) ↔ Sized xs ∧ Sized ys := List.forall_mem_append

theorem Sized.cons : Sized (b :: bs) ↔ (20 ≤ b.len ∧ b.len % 4 = 0) ∧ Sized bs := List.forall_mem_cons

theorem Sized.total (h : Sized bs) : total bs % 4 = 0 := by
  induction bs with
  | nil => rfl
  | cons b bs ih =>
      have hb := (Sized.cons.mp h).1
      have := ih (Sized.cons.mp h).2
      rw [total_cons]
      omega

/-- Only the bytes of the blocks matter, and the `prev` of the first may be another one. -/
theorem Linked.congr (h : Linked ram q a bs) (hsize : Sized bs)
    (hsame : ∀ x, a ≤ x → x < a + total bs → (x < a + 2 ∨ a + 4 ≤ x) → ram' x = ram x)
    (hprev : bs ≠ [] → memPrev ram' a = p) : Linked ram' p a bs := by
  induction bs generalizing p q a with
  | nil => trivial
  | cons b bs ih =>
      obtain ⟨hnext, -, hused, hrest⟩ := h
      obtain ⟨hb, hsize⟩ := Sized.cons.mp hsize
      rw [total_cons] at hsame
      refine ⟨?_, hprev (by simp), ?_, ?_⟩
      · rw [memNext, load16_congr (hsame a (by omega) (by omega) (by omega))
          (hsame (a + 1) (by omega) (by omega) (by omega))]
        exact hnext
      · rw [memUsed, hsame (a + 4) (by omega) (by omega) (by omega)]
        exact hused
      · refine ih hrest hsize (fun x hlo hhi _ => hsame x (by omega) (by omega) (by omega)) ?_
        intro hne
        obtain ⟨c, cs, rfl⟩ := List.exists_cons_of_ne_nil hne
        have hc := (Sized.cons.mp hsize).1
        rw [total_cons] at hsame
        rw [memPrev, load16_congr (hsame _ (by omega) (by omega) (by omega))
          (hsame _ (by omega) (by omega) (by omega))]
        exact hrest.2.1

/-- Blocks none of whose bytes changed. -/
theorem Linked.same (h : Linked ram p a bs) (hsize : Sized bs)
    (hsame : ∀ x, a ≤ x → x < a + total bs → ram' x = ram x) : Linked ram' p a bs := by
  refine h.congr hsize (fun x hlo hhi _ => hsame x hlo hhi) fun hne => ?_
  obtain ⟨c, cs, rfl⟩ := List.exists_cons_of_ne_nil hne
  have hc := (Sized.cons.mp hsize).1
  rw [total_cons] at hsame
  rw [memPrev, load16_congr (hsame _ (by omega) (by omega)) (hsame _ (by omega) (by omega))]
  exact h.2.1

end Linked

/-! ## The heap and its tiling -/

/-- The header behind the last block. -/
structure EndHeader (ram : Ram) : Prop where
  used : memUsed ram 20480 = 1
  next : memNext ram 20480 = 20480
  prev : memPrev ram 20480 = 20480

theorem EndHeader.congr {ram ram' : Ram} (h : EndHeader ram) (hsame : ∀ x, 20480 ≤ x → ram' x = ram x) :
    EndHeader ram' where
  used := by rw [memUsed, hsame _ (by omega)]; exact h.used
  next := by rw [memNext, load16_congr (hsame _ (by omega)) (hsame _ (by omega))]; exact h.next
  prev := by rw [memPrev, load16_congr (hsame _ (by omega)) (hsame _ (by omega))]; exact h.prev

/-- The headers of the whole array thread the blocks. -/
structure Chained (ram : Ram) (bs : List Block) : Prop where
  linked : Linked ram 0 0 bs
  total : total bs = 20480
  sized : Sized bs
  endHeader : EndHeader ram

structure Threaded (h : Heap) (bs : List Block) : Prop extends Chained h.ram bs where
  lfree : h.lfree = firstFree 0 bs
  used : h.stats.used = usedLen bs

/-- The data of the used blocks is the same in both arrays. -/
def Kept (ram ram' : Ram) (bs : List Block) : Prop :=
  ∀ p n, (p, n) ∈ usedFrom 0 bs → ∀ x, p + 8 ≤ x → x < p + n → ram' x = ram x

theorem Kept.trans {ram ram' ram'' : Ram} {bs bs' : List Block} (h : Kept ram ram' bs)
    (h' : Kept ram' ram'' bs') (hsub : ∀ b ∈ usedFrom 0 bs', b ∈ usedFrom 0 bs) :
    Kept ram ram'' bs' := by
  intro p n hmem x hlo hhi
  rw [h' p n hmem x hlo hhi, h p n (hsub _ hmem) x hlo hhi]

theorem Threaded.usedLen_le {h : Heap} {bs : List Block} (ht : Threaded h bs) : usedLen bs ≤ 20480 :=
  ht.total ▸ usedLen_le_total

/-- Changes that stay in the headers keep the data. -/
theorem kept_of_headers {ram ram' : Ram} {bs : List Block}
    (hsame : ∀ x, (∀ c ∈ starts 0 bs, x < c ∨ c + 8 ≤ x) → ram' x = ram x) : Kept ram ram' bs := by
  intro p n hmem x hlo hhi
  refine hsame x fun c hc => ?_
  have := starts_outside hmem hc
  omega

/-! ## A block changes its state -/

section Changes

variable {ram : Ram} {xs ys : List Block} {n m s : Nat} {u v : Bool}

theorem linked_setUsed (h : Linked ram 0 0 (xs ++ ⟨n, u⟩ :: ys)) (hsize : Sized (xs ++ ⟨n, u⟩ :: ys)) :
    Linked (setUsed ram (total xs) v.toNat) 0 0 (xs ++ ⟨n, v⟩ :: ys) := by
  obtain ⟨hxs, hnext, hprev, -, hys⟩ := linked_append.mp h
  obtain ⟨hsx, hsy⟩ := Sized.append.mp hsize
  obtain ⟨hn, hsy⟩ := Sized.cons.mp hsy
  simp only [Nat.zero_add] at hnext hprev hys hn
  refine linked_append.mpr ⟨hxs.same hsx fun x _ hx => update_other (by omega), ?_⟩
  simp only [Nat.zero_add]
  refine ⟨?_, ?_, memUsed_setUsed (by cases v <;> decide), ?_⟩
  · rw [memNext, setUsed, load16_update (by omega)]
    exact hnext
  · rw [memPrev, setUsed, load16_update (by omega)]
    exact hprev
  · exact hys.same hsy fun x hx _ => update_other (by omega)

theorem kept_setUsed : Kept ram (setUsed ram (total xs) v.toNat) (xs ++ ⟨n, u⟩ :: ys) := by
  refine kept_of_headers fun x hx => update_other ?_
  have := hx (total xs) (by simpa using @starts_append 0 xs (⟨n, u⟩ :: ys))
  omega

/-! ## Two blocks become one -/

theorem skipBlock_other {mem nmem x : Nat} (h : x < mem ∨ mem + 2 ≤ x)
    (h' : x < memNext (setNext ram mem (memNext ram nmem)) nmem + 2 ∨
      memNext (setNext ram mem (memNext ram nmem)) nmem + 4 ≤ x) : skipBlock ram mem nmem x = ram x := by
  unfold skipBlock
  split
  · rw [setPrev, store16_other (by omega), setNext, store16_other h]
  · rw [setNext, store16_other h]

/-- Whether blocks follow is whether the end of the array is reached. -/
theorem eq_end_iff {e : Nat} (hsize : Sized ys) (htotal : e + total ys = 20480) : e = 20480 ↔ ys = [] := by
  cases ys with
  | nil => simpa using htotal
  | cons b ys =>
      have hb := (Sized.cons.mp hsize).1
      rw [total_cons] at htotal
      simp only [reduceCtorEq, iff_false]
      omega

section Skip

variable (h : Linked ram 0 0 (xs ++ ⟨m, u⟩ :: ⟨n, v⟩ :: ys))
  (hsize : Sized (xs ++ ⟨m, u⟩ :: ⟨n, v⟩ :: ys))

include h hsize

/-- Where the second block ends, read after the first was made to end there too. -/
theorem skipBlock_next : memNext ram (total xs + m) = total xs + m + n ∧
    memNext (setNext ram (total xs) (total xs + m + n)) (total xs + m) = total xs + m + n := by
  obtain ⟨-, -, -, -, hnext, -⟩ := linked_append.mp h
  obtain ⟨hm, -⟩ := Sized.cons.mp (Sized.append.mp hsize).2
  simp only [Nat.zero_add] at hnext hm
  refine ⟨hnext, ?_⟩
  rw [memNext, setNext, load16_store16_other (by omega)]
  exact hnext

theorem skipBlock_same {x : Nat} (hx : x < total xs ∨ total xs + 2 ≤ x)
    (hx' : x < total xs + m + n + 2 ∨ total xs + m + n + 4 ≤ x) :
    skipBlock ram (total xs) (total xs + m) x = ram x := by
  obtain ⟨hnext, hnext'⟩ := skipBlock_next h hsize
  refine skipBlock_other hx ?_
  rw [hnext, hnext']
  exact hx'

theorem linked_skipBlock (htotal : total xs + (m + (n + total ys)) = 20480) :
    Linked (skipBlock ram (total xs) (total xs + m)) 0 0 (xs ++ ⟨m + n, u⟩ :: ys) := by
  obtain ⟨hnext, hnext'⟩ := skipBlock_next h hsize
  have hsame := @skipBlock_same _ _ _ _ _ _ _ h hsize
  obtain ⟨hxs, -, hprev, hused, -, -, -, hys⟩ := linked_append.mp h
  obtain ⟨hsx, hsy⟩ := Sized.append.mp hsize
  obtain ⟨hm, hsy⟩ := Sized.cons.mp hsy
  obtain ⟨hn, hsy⟩ := Sized.cons.mp hsy
  simp only [Nat.zero_add] at hprev hused hys hm hn
  refine linked_append.mpr ⟨hxs.same hsx fun x _ hx => hsame (by omega) (by omega), ?_⟩
  simp only [Nat.zero_add, Linked, ← Nat.add_assoc]
  refine ⟨?_, ?_, ?_, ?_⟩
  · simp only [skipBlock, hnext, hnext']
    split
    · rw [memNext, setPrev, load16_store16_other (by omega), setNext, load16_store16 (by omega)]
    · rw [memNext, setNext, load16_store16 (by omega)]
  · rw [memPrev, load16_congr (hsame (by omega) (by omega)) (hsame (by omega) (by omega))]
    exact hprev
  · rw [memUsed, hsame (by omega) (by omega)]
    exact hused
  · refine hys.congr hsy (fun x hlo _ hx => hsame (by omega) (by omega)) fun hne => ?_
    have hend : total xs + m + n ≠ 20480 := fun he => hne ((eq_end_iff hsy (by omega)).mp he)
    simp only [skipBlock, hnext, hnext', memSizeAligned_eq, ne_eq, hend, not_false_eq_true, if_true]
    rw [memPrev, setPrev, load16_store16 (by omega)]

theorem skipBlock_above (htotal : total xs + (m + (n + total ys)) = 20480) {x : Nat} (hx : 20480 ≤ x) :
    skipBlock ram (total xs) (total xs + m) x = ram x := by
  obtain ⟨hnext, hnext'⟩ := skipBlock_next h hsize
  obtain ⟨hm, hsy⟩ := Sized.cons.mp (Sized.append.mp hsize).2
  have hsy := (Sized.cons.mp hsy).2
  dsimp only at hm
  have hfirst : ∀ v, setNext ram (total xs) v x = ram x := fun v => store16_other (by omega)
  simp only [skipBlock, hnext, hnext']
  split
  · rename_i hend
    obtain ⟨b, ys, rfl⟩ := List.exists_cons_of_ne_nil fun he => hend ((eq_end_iff hsy (by omega)).mpr he)
    have hb := (Sized.cons.mp hsy).1
    rw [total_cons] at htotal
    rw [setPrev, store16_other (by omega), hfirst]
  · exact hfirst _

theorem kept_skipBlock :
    Kept ram (skipBlock ram (total xs) (total xs + m)) (xs ++ ⟨m + n, u⟩ :: ys) := by
  refine kept_of_headers fun x hx => skipBlock_same h hsize ?_ ?_
  · have := hx (total xs) (by simpa using @starts_append 0 xs (⟨m + n, u⟩ :: ys))
    omega
  · have hmem := @starts_append 0 (xs ++ [⟨m + n, u⟩]) ys
    have := hx (total xs + m + n) (by simpa [Nat.add_assoc] using hmem)
    omega

end Skip

/-! ## One block becomes two -/

section Insert

variable {q next : Nat} {mark : Ram → Ram}

theorem insertBlock_other {mem ptr2 x : Nat} (hmark : ∀ r x, x ≠ mem + 4 → mark r x = r x)
    (hmem : x < mem ∨ mem + 5 ≤ x) (hptr2 : x < ptr2 ∨ ptr2 + 5 ≤ x)
    (hapart : mem + 5 ≤ ptr2) (hnext : next < 65536) (hx : x < next + 2 ∨ next + 4 ≤ x) :
    insertBlock ram mem ptr2 next mark x = ram x := by
  have hread : memNext (mark (setNext (setPrev (setNext (setUsed ram ptr2 0) ptr2 next) ptr2 mem) mem
      ptr2)) ptr2 = next := by
    rw [memNext, load16_congr (hmark _ _ (by omega)) (hmark _ _ (by omega)), setNext,
      load16_store16_other (by omega), setPrev, load16_store16_other (by omega), setNext,
      load16_store16 hnext]
  unfold insertBlock
  rw [hread]
  have hbase : mark (setNext (setPrev (setNext (setUsed ram ptr2 0) ptr2 next) ptr2 mem) mem ptr2) x =
      ram x := by
    rw [hmark _ _ (by omega), setNext, store16_other (by omega), setPrev, store16_other (by omega),
      setNext, store16_other (by omega), setUsed, update_other (by omega)]
  split
  · rw [setPrev, store16_other (by omega), hbase]
  · exact hbase

variable (hmark : ∀ r x, x ≠ total xs + 4 → mark r x = r x)
  (hsize : Sized (xs ++ ⟨s, v⟩ :: ⟨n, false⟩ :: ys)) (htotal : total xs + (s + (n + total ys)) = 20480)

include hmark hsize htotal

theorem insertBlock_same {x : Nat} (hmem : x < total xs ∨ total xs + 5 ≤ x)
    (hptr2 : x < total xs + s ∨ total xs + s + 5 ≤ x)
    (hx : x < total xs + s + n + 2 ∨ total xs + s + n + 4 ≤ x) :
    insertBlock ram (total xs) (total xs + s) (total xs + s + n) mark x = ram x := by
  have hs := (Sized.cons.mp (Sized.append.mp hsize).2).1
  dsimp only at hs
  exact insertBlock_other hmark hmem hptr2 (by omega) (by omega) hx

/-- The blocks before and after are linked, and of the block that is cut the header is right. -/
theorem linked_insertBlock (hxs : Linked ram 0 0 xs) (hprev : memPrev ram (total xs) = lastFrom 0 0 xs)
    (hys : Linked ram q (total xs + s + n) ys)
    (hused : ∀ r : Ram, r (total xs + 4) = ram (total xs + 4) → memUsed (mark r) (total xs) = v.toNat) :
    Linked (insertBlock ram (total xs) (total xs + s) (total xs + s + n) mark) 0 0
      (xs ++ ⟨s, v⟩ :: ⟨n, false⟩ :: ys) := by
  have hsame := @insertBlock_same ram _ _ _ _ _ _ hmark hsize htotal
  obtain ⟨hsx, hsy⟩ := Sized.append.mp hsize
  obtain ⟨hs, hsy⟩ := Sized.cons.mp hsy
  obtain ⟨hn, hsy⟩ := Sized.cons.mp hsy
  dsimp only at hs hn
  -- the array before the last store, and its fields
  generalize hr : mark (setNext (setPrev (setNext (setUsed ram (total xs + s) 0) (total xs + s)
    (total xs + s + n)) (total xs + s) (total xs)) (total xs) (total xs + s)) = r
  have hrnext : memNext r (total xs) = total xs + s := by
    rw [← hr, memNext, load16_congr (hmark _ _ (by omega)) (hmark _ _ (by omega)), setNext,
      load16_store16 (by omega)]
  have hrused : memUsed r (total xs) = v.toNat := by
    rw [← hr]
    refine hused _ ?_
    rw [setNext, store16_other (by omega), setPrev, store16_other (by omega), setNext,
      store16_other (by omega), setUsed, update_other (by omega)]
  have hrnext2 : memNext r (total xs + s) = total xs + s + n := by
    rw [← hr, memNext, load16_congr (hmark _ _ (by omega)) (hmark _ _ (by omega)), setNext,
      load16_store16_other (by omega), setPrev, load16_store16_other (by omega), setNext,
      load16_store16 (by omega)]
  have hrprev2 : memPrev r (total xs + s) = total xs := by
    rw [← hr, memPrev, load16_congr (hmark _ _ (by omega)) (hmark _ _ (by omega)), setNext,
      load16_store16_other (by omega), setPrev, load16_store16 (by omega)]
  have hrused2 : memUsed r (total xs + s) = 0 := by
    rw [← hr, memUsed, hmark _ _ (by omega), setNext, store16_other (by omega), setPrev,
      store16_other (by omega), setNext, store16_other (by omega)]
    exact memUsed_setUsed (by omega)
  have hram : insertBlock ram (total xs) (total xs + s) (total xs + s + n) mark =
      if total xs + s + n ≠ 20480 then setPrev r (total xs + s + n) (total xs + s) else r := by
    simp only [insertBlock, hr, hrnext2, memSizeAligned_eq]
  -- the last store is one of the `prev` of the next header
  have hlast : ∀ x, x < total xs + s + n →
      insertBlock ram (total xs) (total xs + s) (total xs + s + n) mark x = r x := by
    intro x hx
    rw [hram]
    split
    · rw [setPrev, store16_other (by omega)]
    · rfl
  refine linked_append.mpr ⟨hxs.same hsx fun x _ hx => hsame (by omega) (by omega) (by omega), ?_⟩
  simp only [Nat.zero_add, Linked]
  refine ⟨?_, ?_, ?_, ?_, ?_, ?_, ?_⟩
  · rw [memNext, load16_congr (hlast _ (by omega)) (hlast _ (by omega))]
    exact hrnext
  · have hr2 : ∀ x, total xs + 2 ≤ x → x < total xs + 4 →
        insertBlock ram (total xs) (total xs + s) (total xs + s + n) mark x = ram x := by
      intro x hlo hhi
      rw [hlast x (by omega), ← hr, hmark _ _ (by omega), setNext, store16_other (by omega), setPrev,
        store16_other (by omega), setNext, store16_other (by omega), setUsed, update_other (by omega)]
    rw [memPrev, load16_congr (hr2 _ (by omega) (by omega)) (hr2 _ (by omega) (by omega))]
    exact hprev
  · rw [memUsed, hlast _ (by omega)]
    exact hrused
  · rw [memNext, load16_congr (hlast _ (by omega)) (hlast _ (by omega))]
    exact hrnext2
  · rw [memPrev, load16_congr (hlast _ (by omega)) (hlast _ (by omega))]
    exact hrprev2
  · rw [memUsed, hlast _ (by omega)]
    exact hrused2
  · refine hys.congr hsy (fun x hlo _ hx => hsame (by omega) (by omega) (by omega)) fun hne => ?_
    have hend : total xs + s + n ≠ 20480 := fun he => hne ((eq_end_iff hsy (by omega)).mp he)
    rw [hram, if_pos hend, memPrev, setPrev, load16_store16 (by omega)]

theorem insertBlock_above {x : Nat} (hx : 20480 ≤ x) :
    insertBlock ram (total xs) (total xs + s) (total xs + s + n) mark x = ram x := by
  obtain ⟨hs, hsy⟩ := Sized.cons.mp (Sized.append.mp hsize).2
  obtain ⟨hn, hsy⟩ := Sized.cons.mp hsy
  dsimp only at hs hn
  by_cases hend : total xs + s + n = 20480
  · -- nothing follows, and nothing is stored there
    have hread : ∀ r : Ram, memNext (mark (setNext (setPrev (setNext r (total xs + s)
        (total xs + s + n)) (total xs + s) (total xs)) (total xs) (total xs + s))) (total xs + s) =
          total xs + s + n := by
      intro r
      rw [memNext, load16_congr (hmark _ _ (by omega)) (hmark _ _ (by omega)), setNext,
        load16_store16_other (by omega), setPrev, load16_store16_other (by omega), setNext,
        load16_store16 (by omega)]
    simp only [insertBlock, hread]
    rw [if_neg (show ¬_ ≠ memSizeAligned from not_not_intro hend), hmark _ _ (by omega), setNext, store16_other (by omega), setPrev, store16_other (by omega),
      setNext, store16_other (by omega), setUsed, update_other (by omega)]
  · obtain ⟨b, ys, rfl⟩ := List.exists_cons_of_ne_nil fun he => hend ((eq_end_iff hsy (by omega)).mpr he)
    have hb := (Sized.cons.mp hsy).1
    rw [total_cons] at htotal
    exact insertBlock_same hmark hsize (by simpa using htotal) (by omega) (by omega) (by omega)

theorem kept_insertBlock : Kept ram (insertBlock ram (total xs) (total xs + s) (total xs + s + n) mark)
    (xs ++ ⟨s, v⟩ :: ⟨n, false⟩ :: ys) := by
  refine kept_of_headers fun x hx => insertBlock_same hmark hsize htotal ?_ ?_ ?_
  · have hmem := @starts_append 0 xs (⟨s, v⟩ :: ⟨n, false⟩ :: ys)
    have := hx (total xs) (by simpa using hmem)
    omega
  · have hmem := @starts_append 0 (xs ++ [⟨s, v⟩]) (⟨n, false⟩ :: ys)
    have := hx (total xs + s) (by simpa [Nat.add_assoc] using hmem)
    omega
  · have hmem := @starts_append 0 (xs ++ [⟨s, v⟩, ⟨n, false⟩]) ys
    have := hx (total xs + s + n) (by simpa [Nat.add_assoc] using hmem)
    omega

end Insert

end Changes

/-- Cutting a block: it keeps its first `s` bytes, and a free block takes the place up to the blocks `zs`. -/
theorem Chained.insertBlock {ram : Ram} {xs ys zs : List Block} {n s r q : Nat} {u v : Bool}
    {mark : Ram → Ram} (hc : Chained ram (xs ++ ⟨n, u⟩ :: ys))
    (hsize : Sized (xs ++ ⟨s, v⟩ :: ⟨r, false⟩ :: zs)) (htotal : Tiling.total xs + (s + (r + Tiling.total zs)) = 20480)
    (hzs : Linked ram q (Tiling.total xs + s + r) zs)
    (hmark : ∀ r x, x ≠ Tiling.total xs + 4 → mark r x = r x)
    (hused : ∀ r : Ram, r (Tiling.total xs + 4) = ram (Tiling.total xs + 4) →
      memUsed (mark r) (Tiling.total xs) = v.toNat) :
    Chained (Lwip.insertBlock ram (Tiling.total xs) (Tiling.total xs + s) (Tiling.total xs + s + r) mark)
      (xs ++ ⟨s, v⟩ :: ⟨r, false⟩ :: zs) := by
  obtain ⟨hxs, -, hprev, -⟩ := linked_append.mp hc.linked
  rw [Nat.zero_add] at hprev
  refine ⟨linked_insertBlock hmark hsize htotal hxs hprev hzs hused, ?_, hsize,
    hc.endHeader.congr fun x hx => insertBlock_above hmark hsize htotal hx⟩
  simpa using htotal

end Lwip
