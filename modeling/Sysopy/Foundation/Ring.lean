import Mathlib.Data.List.Basic
import Mathlib.Data.Nat.Basic
import Mathlib.Tactic.Common

/-!
# Rings of cells

The `j`-th write into a ring of `n` cells goes to the cell `pos j`, and two
writes share a cell exactly when their numbers agree modulo `n`. Whatever the
direction or the offset of `pos`, the last `n` writes are still in their cells;
which of them a reader meets is then a question about indices only.
-/

namespace Sysopy.Foundation

variable {κ α : Type*}

/-- The ring still holds each of the last `n` values written. -/
def RingHolds (n : ℕ) (pos : ℕ → κ) (cell : κ → α) (written : List α) : Prop :=
  ∀ j (hj : j < written.length), written.length ≤ j + n → cell (pos j) = written[j]

theorem ringHolds_nil (n : ℕ) (pos : ℕ → κ) (cell : κ → α) : RingHolds n pos cell [] :=
  fun _ hj => absurd hj (Nat.not_lt_zero _)

/-- One write: the cell it takes is that of the value written `n` writes
before, so the last `n` values stay in place. -/
theorem RingHolds.write [DecidableEq κ] {n : ℕ} {pos : ℕ → κ} {cell : κ → α}
    {written : List α} (hpos : ∀ i j, pos i = pos j ↔ i % n = j % n)
    (h : RingHolds n pos cell written) (x : α) :
    RingHolds n pos (Function.update cell (pos written.length) x) (written ++ [x]) := by
  intro j hj hlast
  rw [List.length_append, List.length_singleton] at hj hlast
  by_cases hjl : j = written.length
  · subst hjl
    rw [Function.update_self, List.getElem_concat_length rfl]
  · have hj' : j < written.length := by omega
    have hne : pos j ≠ pos written.length := by
      intro heq
      have hmod := Nat.sub_mod_eq_zero_of_mod_eq ((hpos _ _).mp heq).symm
      have := Nat.le_of_dvd (by omega) (Nat.dvd_of_mod_eq_zero hmod)
      omega
    rw [Function.update_of_ne hne, List.getElem_append_left hj']
    exact h j hj' (by omega)

end Sysopy.Foundation
