import Mathlib.Data.Fintype.Card
import Mathlib.Algebra.BigOperators.Group.Finset.Basic
import Mathlib.Algebra.BigOperators.Group.Finset.Piecewise

/-!
# Counting processes by control point

The invariants of a system of many processes count processes (how many are past
one step and before another) or add up what each of them has at its control
point. `total g f` is that sum for the family `f` of control points, `tally Q f`
the count, and `total_update` and `tally_update` say how they change when one
process moves; with them an accounting equation over all processes reduces to one
over the process that moved, and `omega` closes it.
-/

namespace Sysopy.Foundation

variable {ι κ : Type*} [Fintype ι]

/-! ## Sums over all processes -/

def total (g : κ → ℕ) (f : ι → κ) : ℕ := ∑ i, g (f i)

theorem total_eq_add [DecidableEq ι] (g : κ → ℕ) (f : ι → κ) (i : ι) :
    total g f = g (f i) + ∑ j ∈ Finset.univ.erase i, g (f j) :=
  (Finset.add_sum_erase _ (fun j => g (f j)) (Finset.mem_univ i)).symm

theorem total_update [DecidableEq ι] (g : κ → ℕ) (f : ι → κ) (i : ι) (c : κ) :
    total g (Function.update f i c) + g (f i) = total g f + g c := by
  have hrest : ∑ j ∈ Finset.univ.erase i, g (Function.update f i c j) =
      ∑ j ∈ Finset.univ.erase i, g (f j) := by
    refine Finset.sum_congr rfl fun j hj => ?_
    rw [Function.update_of_ne (Finset.ne_of_mem_erase hj)]
  rw [total_eq_add g _ i, total_eq_add g f i, hrest, Function.update_self]
  omega

theorem part_le_total [DecidableEq ι] (g : κ → ℕ) (f : ι → κ) (i : ι) : g (f i) ≤ total g f := by
  rw [total_eq_add g f i]
  exact Nat.le_add_right _ _

theorem total_eq_zero {g : κ → ℕ} {f : ι → κ} (h : ∀ i, g (f i) = 0) : total g f = 0 :=
  Finset.sum_eq_zero fun i _ => h i

theorem total_eq_single [DecidableEq ι] {g : κ → ℕ} {f : ι → κ} (i : ι)
    (h : ∀ j, j ≠ i → g (f j) = 0) : total g f = g (f i) :=
  Finset.sum_eq_single i (fun j _ hj => h j hj) fun hi => absurd (Finset.mem_univ i) hi

/-! ## Counts -/

/-- The number of processes whose control point satisfies `Q`. -/
def tally (Q : κ → Bool) (f : ι → κ) : ℕ :=
  (Finset.univ.filter fun i => Q (f i) = true).card

theorem tally_eq_total (Q : κ → Bool) (f : ι → κ) :
    tally Q f = total (fun c => (Q c).toNat) f := by
  rw [tally, Finset.card_filter]
  refine Finset.sum_congr rfl fun j _ => ?_
  change _ = (Q (f j)).toNat
  cases Q (f j) <;> rfl

theorem tally_update [DecidableEq ι] (Q : κ → Bool) (f : ι → κ) (i : ι) (c : κ) :
    tally Q (Function.update f i c) + (Q (f i)).toNat = tally Q f + (Q c).toNat := by
  rw [tally_eq_total, tally_eq_total]
  exact total_update _ f i c

theorem tally_update_of_eq [DecidableEq ι] {Q : κ → Bool} {f : ι → κ} {i : ι} {c : κ}
    (h : Q (f i) = Q c) : tally Q (Function.update f i c) = tally Q f := by
  have hmove := tally_update Q f i c
  rw [h] at hmove
  exact Nat.add_right_cancel hmove

theorem tally_eq_zero {Q : κ → Bool} {f : ι → κ} (h : ∀ i, Q (f i) = false) :
    tally Q f = 0 := by
  rw [tally, Finset.card_eq_zero, Finset.filter_eq_empty_iff]
  intro i _
  simp [h i]

theorem toNat_le_tally [DecidableEq ι] (Q : κ → Bool) (f : ι → κ) (i : ι) :
    (Q (f i)).toNat ≤ tally Q f := by
  rw [tally_eq_total]
  exact part_le_total (fun c => (Q c).toNat) f i

theorem tally_le_tally {Q R : κ → Bool} (h : ∀ c, Q c = true → R c = true) (f : ι → κ) :
    tally Q f ≤ tally R f := by
  refine Finset.card_le_card fun i hi => ?_
  simp only [Finset.mem_filter, Finset.mem_univ, true_and] at hi ⊢
  exact h _ hi

/-- A tally of at most one means mutual exclusion. -/
theorem eq_of_tally_le_one {Q : κ → Bool} {f : ι → κ} (h : tally Q f ≤ 1) {i j : ι}
    (hi : Q (f i) = true) (hj : Q (f j) = true) : i = j :=
  Finset.card_le_one.mp h i (by simpa using hi) j (by simpa using hj)

end Sysopy.Foundation
