import Mathlib.Data.Fintype.Basic
import Mathlib.Logic.Function.Basic

/-!
# Record locks

Every process has at most one lock on a byte, to read or to write. Two processes may
have a lock on the same byte only if both are to read. A process is never in its own
way: a new lock on a byte replaces the one it has there.
-/

namespace Sysopy.Foundation

/-- `F_RDLCK` and `F_WRLCK` -/
inductive LockType
  | read
  | write
deriving DecidableEq

def LockType.Conflicts : LockType → LockType → Prop
  | .read, .read => False
  | _, _ => True

instance LockType.decidableConflicts : ∀ l l' : LockType, Decidable (l.Conflicts l')
  | .read, .read => inferInstanceAs (Decidable False)
  | .read, .write => inferInstanceAs (Decidable True)
  | .write, .read => inferInstanceAs (Decidable True)
  | .write, .write => inferInstanceAs (Decidable True)

abbrev LockTable (P K : Type*) := P → K → Option LockType

namespace LockTable

variable {P K : Type*} {t : LockTable P K} {p q : P} {k k' : K} {l : LockType}
  {o : Option LockType}

def Free (t : LockTable P K) (p : P) (k : K) (want : LockType) : Prop :=
  ∀ q, q ≠ p → ∀ l ∈ t q k, ¬want.Conflicts l

instance [DecidableEq P] [Fintype P] (want : LockType) : Decidable (t.Free p k want) :=
  inferInstanceAs (Decidable (∀ q, q ≠ p → ∀ l ∈ t q k, ¬want.Conflicts l))

theorem free_write_iff : t.Free p k .write ↔ ∀ q, q ≠ p → t q k = none := by
  refine forall₂_congr fun q _ => ?_
  cases t q k with
  | none => exact iff_of_true (fun _ hl => absurd hl nofun) rfl
  | some l => exact iff_of_false (fun h => h l rfl (by cases l <;> trivial)) nofun

variable [DecidableEq P]

def clear (t : LockTable P K) (p : P) : LockTable P K := Function.update t p fun _ => none

theorem clear_self : t.clear p p k = none := by rw [clear, Function.update_self]

theorem clear_of_ne (h : q ≠ p) : t.clear p q = t q := by rw [clear, Function.update_of_ne h]

theorem Free.clear {want : LockType} (h : t.Free p k want) : (t.clear q).Free p k want := by
  intro r hr l hl
  by_cases hrq : r = q
  · rw [hrq, clear_self] at hl
    exact absurd hl nofun
  · rw [clear_of_ne hrq] at hl
    exact h r hr l hl

variable [DecidableEq K]

def set (t : LockTable P K) (p : P) (k : K) (o : Option LockType) : LockTable P K :=
  Function.update t p (Function.update (t p) k o)

@[simp] theorem set_self : t.set p k o p k = o := by
  rw [set, Function.update_self, Function.update_self]

theorem set_of_ne (h : q ≠ p) : t.set p k o q = t q := by
  rw [set, Function.update_of_ne h]

theorem set_of_ne_byte (h : k' ≠ k) : t.set p k o q k' = t q k' := by
  unfold set
  by_cases hq : q = p
  · rw [hq, Function.update_self, Function.update_of_ne h]
  · rw [Function.update_of_ne hq]

/-- A process that gives a lock back, or takes one that is in nobody's way, leaves the
byte free for the others. -/
theorem Free.set {want : LockType} (h : t.Free p k want)
    (hnew : q ≠ p → k' = k → ∀ l ∈ o, ¬want.Conflicts l) : (t.set q k' o).Free p k want := by
  intro r hr l hl
  by_cases hk : k = k'
  · subst hk
    by_cases hrq : r = q
    · subst hrq
      rw [set_self] at hl
      exact hnew hr rfl l hl
    · rw [set_of_ne hrq] at hl
      exact h r hr l hl
  · rw [set_of_ne_byte hk] at hl
    exact h r hr l hl

end LockTable

end Sysopy.Foundation
