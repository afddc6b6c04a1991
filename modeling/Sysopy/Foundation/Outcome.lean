import Mathlib.Data.Nat.Notation

/-!
# How a computation that may fail ends

A computation ends with a result, or it stops with an error. Both ends have their
postcondition, and for a sequence of computations the one for errors is the same all
the way.
-/

namespace Sysopy.Foundation

variable {ε α β : Type} {E : ε → Prop} {Q Q' : α → Prop} {R : β → Prop} {x : Except ε α}

/-- The computation returns what satisfies `Q`, or stops with an error that satisfies `E`. -/
def Ends (E : ε → Prop) (x : Except ε α) (Q : α → Prop) : Prop :=
  match x with
  | .ok a => Q a
  | .error e => E e

namespace Ends

theorem ok {a : α} (h : Q a) : Ends E (.ok a) Q := h

theorem error {e : ε} (h : E e) : Ends E (.error e) Q := h

theorem mono (h : Ends E x Q) (hq : ∀ a, Q a → Q' a) : Ends E x Q' := by
  cases x with
  | ok a => exact hq a h
  | error e => exact h

theorem bind {f : α → Except ε β} (h : Ends E x Q) (hf : ∀ a, Q a → Ends E (f a) R) :
    Ends E (x >>= f) R := by
  cases x with
  | ok a => exact hf a h
  | error e => exact h

theorem of_ok {a : α} (h : Ends E x Q) (hx : x = .ok a) : Q a := by
  subst hx
  exact h

theorem of_error {e : ε} (h : Ends E x Q) (hx : x = .error e) : E e := by
  subst hx
  exact h

end Ends

end Sysopy.Foundation
