import Mathlib.Data.List.Pairwise
import Mathlib.Data.List.Perm.Basic
import Mathlib.Tactic.Common

set_option autoImplicit false

/-! # Spans of a stream

Pieces of a stream that arrive in any order, each with the place it covers. The pieces that are kept
are `Ordered`: none meets the one before it. They are `Adjoined` when each starts where the one before
ends; what they hold is then the stream from the first place to the last, however it was cut. -/

class Span (α : Type*) where
  start : α → Nat
  stop : α → Nat

namespace Span

variable {α β : Type*} [Span α] {a b c : α} {l m before behind : List α} {at' : Nat}

/-- The first ends before the second starts, and starts before it. -/
def Before (a b : α) : Prop := start a < start b ∧ stop a ≤ start b

instance (a b : α) : Decidable (Before a b) := inferInstanceAs (Decidable (_ ∧ _))

def Ordered (l : List α) : Prop := l.Pairwise Before

/-- The first starts at the given place, and each other where the one before it ends. -/
def Adjoined : Nat → List α → Prop
  | _, [] => True
  | at', a :: l => start a = at' ∧ Adjoined (stop a) l

instance decidableAdjoined : (at' : Nat) → (l : List α) → Decidable (Adjoined at' l)
  | _, [] => isTrue trivial
  | at', a :: l =>
      have := decidableAdjoined (stop a) l
      inferInstanceAs (Decidable (start a = at' ∧ Adjoined (stop a) l))

/-- Where the last one ends. -/
def endOf : Nat → List α → Nat
  | at', [] => at'
  | _, a :: l => endOf (stop a) l

/-- The piece meets none of those that are there. -/
def Fits (a : α) (l : List α) : Prop := ∀ b ∈ l, Before b a ∨ Before a b

/-! ## Placing a piece -/

theorem Ordered.insert (hl : Ordered (before ++ behind)) (hbefore : ∀ b ∈ before, Before b a)
    (hbehind : ∀ c ∈ behind, Before a c) : Ordered (before ++ a :: behind) := by
  unfold Ordered at *
  rw [List.pairwise_append] at hl ⊢
  obtain ⟨hfirst, hsecond, hacross⟩ := hl
  refine ⟨hfirst, List.pairwise_cons.mpr ⟨hbehind, hsecond⟩, ?_⟩
  intro b hb c hc
  rcases List.mem_cons.mp hc with rfl | hc
  · exact hbefore b hb
  · exact hacross b hb c hc

/-- Of ordered pieces, two that start at one place are one. -/
theorem Ordered.start_inj (hl : Ordered l) (ha : a ∈ l) (hb : b ∈ l) (hstart : start a = start b) :
    a = b := by
  induction l with
  | nil => cases ha
  | cons c l ih =>
    obtain ⟨hhead, htail⟩ := List.pairwise_cons.mp hl
    rcases List.mem_cons.mp ha with ha | ha
    · rcases List.mem_cons.mp hb with hb | hb
      · exact ha.trans hb.symm
      · have hbefore := (hhead b hb).1
        rw [← ha] at hbefore
        omega
    · rcases List.mem_cons.mp hb with hb | hb
      · have hbefore := (hhead a ha).1
        rw [← hb] at hbefore
        omega
      · exact ih htail ha hb

theorem Ordered.apart (hl : Ordered l) (ha : a ∈ l) (hb : b ∈ l) (hne : a ≠ b) :
    Before a b ∨ Before b a := by
  induction l with
  | nil => cases ha
  | cons c l ih =>
    obtain ⟨hhead, htail⟩ := List.pairwise_cons.mp hl
    rcases List.mem_cons.mp ha with ha | ha
    · rcases List.mem_cons.mp hb with hb | hb
      · exact absurd (ha.trans hb.symm) hne
      · rw [ha]
        exact .inl (hhead b hb)
    · rcases List.mem_cons.mp hb with hb | hb
      · rw [hb]
        exact .inr (hhead a ha)
      · exact ih htail ha hb

/-! ## Adjoined pieces -/

theorem adjoined_append : Adjoined at' (l ++ m) ↔ Adjoined at' l ∧ Adjoined (endOf at' l) m := by
  induction l generalizing at' with
  | nil => simp [Adjoined, endOf]
  | cons a l ih => simp [Adjoined, endOf, ih, and_assoc]

theorem endOf_append : endOf at' (l ++ m) = endOf (endOf at' l) m := by
  induction l generalizing at' with
  | nil => rfl
  | cons a l ih => exact ih

theorem endOf_le {n : Nat} (hat : at' ≤ n) (hl : ∀ a ∈ l, stop a ≤ n) : endOf at' l ≤ n := by
  induction l generalizing at' with
  | nil => exact hat
  | cons a l ih =>
    exact ih (hl a (List.mem_cons_self ..)) fun b hb => hl b (List.mem_cons_of_mem _ hb)

/-- The last one ends where all end. -/
theorem exists_stop_eq_endOf (at' : Nat) (hl : l ≠ []) : ∃ a ∈ l, stop a = endOf at' l := by
  induction l generalizing at' with
  | nil => exact absurd rfl hl
  | cons a l ih =>
    cases l with
    | nil => exact ⟨a, List.mem_cons_self .., rfl⟩
    | cons b l =>
      obtain ⟨c, hc, hstop⟩ := ih (stop a) (List.cons_ne_nil b l)
      exact ⟨c, List.mem_cons_of_mem _ hc, hstop⟩

theorem Adjoined.le_endOf (hl : Adjoined at' l) (hle : ∀ a ∈ l, start a ≤ stop a) :
    at' ≤ endOf at' l := by
  induction l generalizing at' with
  | nil => exact Nat.le_refl _
  | cons a l ih =>
    obtain ⟨rfl, htail⟩ := hl
    have ha := hle a (List.mem_cons_self ..)
    have hrest := ih htail fun b hb => hle b (List.mem_cons_of_mem _ hb)
    exact Nat.le_trans ha hrest

theorem Adjoined.bounds (hl : Adjoined at' l) (hle : ∀ a ∈ l, start a ≤ stop a) (ha : a ∈ l) :
    at' ≤ start a ∧ stop a ≤ endOf at' l := by
  induction l generalizing at' with
  | nil => cases ha
  | cons b l ih =>
    obtain ⟨rfl, htail⟩ := hl
    have hle' : ∀ c ∈ l, start c ≤ stop c := fun c hc => hle c (List.mem_cons_of_mem _ hc)
    rcases List.mem_cons.mp ha with rfl | ha
    · exact ⟨Nat.le_refl _, htail.le_endOf hle'⟩
    · have hb := hle b (List.mem_cons_self ..)
      obtain ⟨hlow, hhigh⟩ := ih htail hle' ha
      exact ⟨Nat.le_trans hb hlow, hhigh⟩

/-- Pieces that are joined, out of pieces that are joined, up to the same end, are all of them. -/
theorem Adjoined.eq_of_subset (hl : Adjoined at' l) (hm : Adjoined at' m) (hordered : Ordered m)
    (hlt : ∀ b ∈ m, start b < stop b) (hsub : ∀ a ∈ l, a ∈ m)
    (hend : endOf at' l = endOf at' m) : l = m := by
  induction l generalizing at' m with
  | nil =>
    cases m with
    | nil => rfl
    | cons b m =>
      obtain ⟨rfl, htail⟩ := hm
      have hb := hlt b (List.mem_cons_self ..)
      have hrest := htail.le_endOf fun c hc => Nat.le_of_lt (hlt c (List.mem_cons_of_mem _ hc))
      simp only [endOf] at hend
      omega
  | cons a l ih =>
    obtain ⟨rfl, htail⟩ := hl
    have ha := hsub a (List.mem_cons_self ..)
    cases m with
    | nil => cases ha
    | cons b m =>
      obtain ⟨hstart, hjoined⟩ := hm
      obtain rfl := hordered.start_inj ha (List.mem_cons_self ..) hstart.symm
      have hsub' : ∀ c ∈ l, c ∈ m := by
        intro c hc
        have hle : ∀ d ∈ l, start d ≤ stop d := fun d hd =>
          Nat.le_of_lt (hlt d (hsub d (List.mem_cons_of_mem _ hd)))
        have hfrom := (htail.bounds hle hc).1
        rcases List.mem_cons.mp (hsub c (List.mem_cons_of_mem _ hc)) with rfl | hc'
        · have hc_lt := hlt c (List.mem_cons_self ..)
          omega
        · exact hc'
      rw [ih htail hjoined (List.pairwise_cons.mp hordered).2
        (fun c hc => hlt c (List.mem_cons_of_mem _ hc)) hsub' hend]

/-! ## When all have come -/

instance : Span (Nat × Nat) := ⟨Prod.fst, Prod.snd⟩

/-- The place that a piece covers. -/
def place (a : α) : Nat × Nat := (start a, stop a)

theorem ordered_map_place : Ordered (l.map place) ↔ Ordered l := List.pairwise_map

theorem adjoined_map_place : Adjoined at' (l.map place) ↔ Adjoined at' l := by
  induction l generalizing at' with
  | nil => exact Iff.rfl
  | cons a l ih => exact and_congr_right' ih

theorem endOf_map_place : endOf at' (l.map place) = endOf at' l := by
  induction l generalizing at' with
  | nil => rfl
  | cons a l ih => exact ih

/-- Pieces that are joined, none of them empty, are ordered. -/
theorem Adjoined.ordered (hl : Adjoined at' l) (hlt : ∀ a ∈ l, start a < stop a) : Ordered l := by
  induction l generalizing at' with
  | nil => exact List.Pairwise.nil
  | cons a l ih =>
    have hlt' : ∀ b ∈ l, start b < stop b := fun b hb => hlt b (List.mem_cons_of_mem _ hb)
    refine List.pairwise_cons.mpr ⟨fun b hb => ?_, ih hl.2 hlt'⟩
    have ha := hlt a (List.mem_cons_self ..)
    have hb := (hl.2.bounds (fun c hc => Nat.le_of_lt (hlt' c hc)) hb).1
    exact ⟨Nat.lt_of_lt_of_le ha hb, hb⟩

theorem Ordered.nodup (hl : Ordered l) : l.Nodup := by
  refine List.Pairwise.imp (fun {a b} (hab : Before a b) => ?_) hl
  rintro rfl
  exact Nat.lt_irrefl _ hab.1

/-- Ordered pieces are determined by which they are. -/
theorem Ordered.ext (hl : Ordered l) (hm : Ordered m) (hmem : ∀ a, a ∈ l ↔ a ∈ m) : l = m :=
  ((List.perm_ext_iff_of_nodup hl.nodup hm.nodup).mpr hmem).eq_of_pairwise
    (fun _ _ _ _ hab hba => absurd hab.1 (Nat.lt_asymm hba.1)) hl hm

section Complete

variable {places : List (Nat × Nat)}

/-- Ordered pieces that have places out of a list of joined ones are joined up to its end just when every
    place is taken. -/
theorem Ordered.complete_iff (hl : Ordered l) (hplaces : Adjoined at' places)
    (hlt : ∀ x ∈ places, start x < stop x) (hsub : ∀ a ∈ l, place a ∈ places) :
    (Adjoined at' l ∧ endOf at' l = endOf at' places) ↔ ∀ x ∈ places, x ∈ l.map place := by
  have hordered := hplaces.ordered hlt
  have hsub' : ∀ x ∈ l.map place, x ∈ places := by
    intro x hx
    obtain ⟨a, ha, rfl⟩ := List.mem_map.mp hx
    exact hsub a ha
  constructor
  · rintro ⟨hjoined, hend⟩ x hx
    rw [← adjoined_map_place] at hjoined
    rw [← endOf_map_place] at hend
    rwa [hjoined.eq_of_subset hplaces hordered hlt hsub' hend]
  · intro hall
    have heq : l.map place = places :=
      (ordered_map_place.mpr hl).ext hordered fun x => ⟨hsub' x, hall x⟩
    rw [← adjoined_map_place, ← endOf_map_place (l := l), heq]
    exact ⟨hplaces, rfl⟩

/-- A piece with a place of its own fits among the others. -/
theorem Fits.of_places (hplaces : Ordered places) (ha : place a ∈ places)
    (hsub : ∀ b ∈ l, place b ∈ places) (hnew : place a ∉ l.map place) : Fits a l := by
  intro b hb
  have hne : place b ≠ place a := fun h => hnew (h ▸ List.mem_map_of_mem hb)
  exact hplaces.apart (hsub b hb) ha hne

end Complete

/-! ## What the pieces hold -/

/-- The items stand in the stream from `start` on. -/
def SliceOf (stream items : List β) (start : Nat) : Prop :=
  ∃ pre post, stream = pre ++ items ++ post ∧ pre.length = start

theorem SliceOf.stop_le {stream items : List β} {n : Nat} (h : SliceOf stream items n) :
    n + items.length ≤ stream.length := by
  obtain ⟨pre, post, rfl, rfl⟩ := h
  simp

theorem SliceOf.take {stream items : List β} {n : Nat} (h : SliceOf stream items n) (k : Nat) :
    SliceOf stream (items.take k) n := by
  obtain ⟨pre, post, rfl, hpre⟩ := h
  refine ⟨pre, items.drop k ++ post, ?_, hpre⟩
  rw [List.append_assoc pre, List.append_assoc pre, ← List.append_assoc (items.take k),
    List.take_append_drop]

theorem SliceOf.drop {stream items : List β} {n k : Nat} (h : SliceOf stream items n)
    (hk : k ≤ items.length) : SliceOf stream (items.drop k) (n + k) := by
  obtain ⟨pre, post, rfl, hpre⟩ := h
  refine ⟨pre ++ items.take k, post, ?_, ?_⟩
  · rw [List.append_assoc pre (items.take k), List.take_append_drop]
  · rw [List.length_append, List.length_take, hpre, Nat.min_eq_left hk]

/-- A slice that ends before the stream is cut off is one of what is left. -/
theorem SliceOf.of_le {stream items : List β} {n k : Nat} (h : SliceOf stream items n)
    (hk : n + items.length ≤ k) : SliceOf (stream.take k) items n := by
  obtain ⟨pre, post, rfl, rfl⟩ := h
  refine ⟨pre, post.take (k - (pre ++ items).length), ?_, rfl⟩
  rw [List.take_append, List.take_of_length_le (by rwa [List.length_append])]

/-- Adjoined slices of a stream hold it from the first place to the last. -/
theorem Adjoined.contents {stream : List β} {items : α → List β} (hl : Adjoined at' l)
    (hstop : ∀ a ∈ l, stop a = start a + (items a).length)
    (hslice : ∀ a ∈ l, SliceOf stream (items a) (start a)) :
    l.flatMap items = (stream.drop at').take (endOf at' l - at') := by
  induction l generalizing at' with
  | nil => simp [endOf]
  | cons a l ih =>
    obtain ⟨rfl, htail⟩ := hl
    have hstop_a := hstop a (List.mem_cons_self ..)
    have hstop' : ∀ b ∈ l, stop b = start b + (items b).length :=
      fun b hb => hstop b (List.mem_cons_of_mem _ hb)
    have hrest := ih htail hstop' fun b hb => hslice b (List.mem_cons_of_mem _ hb)
    have hend := htail.le_endOf fun b hb => by rw [hstop' b hb]; omega
    obtain ⟨pre, post, hstream, hpre⟩ := hslice a (List.mem_cons_self ..)
    have hfrom : stream.drop (start a) = items a ++ post := by
      rw [hstream, List.append_assoc, ← hpre, List.drop_left]
    have hbehind : stream.drop (stop a) = post := by
      rw [hstop_a, ← List.drop_drop, hfrom, List.drop_left]
    have hlen : endOf (start a) (a :: l) - start a
        = (items a).length + (endOf (stop a) l - stop a) := by
      simp only [endOf]
      omega
    rw [List.flatMap_cons, hrest, hbehind, hfrom, hlen, List.take_length_add_append]

end Span
