import Mathlib.Tactic.Common

set_option autoImplicit false

/-! # Histories

A record of what a program did, newest first. `History.Guarded ok` says that everything in it was
done when it was right to do so: `ok a past` looks at an entry and at what came before it. -/

namespace History

variable {α : Type} (ok : α → List α → Prop)

def Guarded : List α → Prop
  | [] => True
  | a :: past => ok a past ∧ Guarded past

@[simp] theorem guarded_nil : Guarded ok [] := trivial

@[simp] theorem guarded_cons (a : α) (past : List α) :
    Guarded ok (a :: past) ↔ ok a past ∧ Guarded ok past := Iff.rfl

end History
