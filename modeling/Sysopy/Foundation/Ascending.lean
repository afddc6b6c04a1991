import Mathlib.Data.List.Basic
import Mathlib.Data.List.Perm.Basic

/-!
# Splitting by a three-way comparison

A list is split into the elements before, beside and behind a pivot. The three parts
are a permutation of the list, and if each part is in ascending order, so are all
three one after the other. The parts are shorter than the list as soon as it has an
element on another side.
-/

namespace Sysopy.Foundation

open Std

variable {α β : Type*} {cmp : α → α → Ordering}

/-- No element comes before an earlier one. -/
def Ascending (cmp : α → α → Ordering) (xs : List α) : Prop :=
  xs.Pairwise fun a b => (cmp a b).isLE

def side (cmp : α → α → Ordering) (pivot : α) (xs : List α) (o : Ordering) : List α :=
  xs.filter fun a => cmp a pivot = o

theorem mem_side {pivot a : α} {xs : List α} {o : Ordering} :
    a ∈ side cmp pivot xs o ↔ a ∈ xs ∧ cmp a pivot = o := by
  rw [side, List.mem_filter, decide_eq_true_iff]

theorem side_cons (pivot a : α) (xs : List α) (o : Ordering) :
    side cmp pivot (a :: xs) o =
      if cmp a pivot = o then a :: side cmp pivot xs o else side cmp pivot xs o := by
  simp only [side, List.filter_cons, decide_eq_true_eq]

theorem transCmp_on [TransCmp cmp] (f : β → α) : TransCmp fun a b => cmp (f a) (f b) where
  eq_swap := OrientedCmp.eq_swap
  isLE_trans := TransCmp.isLE_trans

theorem side_perm (pivot : α) (xs : List α) :
    (side cmp pivot xs .lt ++ side cmp pivot xs .eq ++ side cmp pivot xs .gt).Perm xs := by
  induction xs with
  | nil => exact .nil
  | cons a xs ih =>
      cases ha : cmp a pivot with
      | lt =>
          simp only [side_cons, ha, if_true, reduceCtorEq, if_false, List.cons_append]
          exact ih.cons a
      | eq =>
          simp only [side_cons, ha, if_true, reduceCtorEq, if_false, List.append_assoc] at ih ⊢
          exact List.perm_middle.trans (ih.cons a)
      | gt =>
          simp only [side_cons, ha, if_true, reduceCtorEq, if_false]
          exact List.perm_middle.trans (ih.cons a)

theorem side_length_lt {pivot a : α} {xs : List α} {o : Ordering} (ha : a ∈ xs)
    (hside : cmp a pivot ≠ o) : (side cmp pivot xs o).length < xs.length := by
  refine List.length_filter_lt_length_iff_exists.mpr ⟨a, ha, ?_⟩
  rwa [decide_eq_true_iff]

/-- If the comparison is one of keys, keys are different where the sides are. -/
theorem pairwise_of_sides (pivot : α) {xs : List α} {key : α → β}
    (hkey : ∀ a b, key a = key b → cmp a pivot = cmp b pivot)
    (h : ∀ o, (side cmp pivot xs o).Pairwise fun a b => key a ≠ key b) :
    xs.Pairwise fun a b => key a ≠ key b := by
  have hperm : (side cmp pivot xs .lt ++ side cmp pivot xs .eq ++ side cmp pivot xs .gt).Perm
      xs := side_perm pivot xs
  refine (hperm.pairwise_iff fun hne heq => hne heq.symm).mp ?_
  refine List.pairwise_append.mpr ⟨List.pairwise_append.mpr ⟨h .lt, h .eq, ?_⟩, h .gt, ?_⟩
  · intro a ha b hb heq
    have hcmp := hkey a b heq
    rw [(mem_side.mp ha).2, (mem_side.mp hb).2] at hcmp
    exact nomatch hcmp
  · intro a ha b hb heq
    have hcmp := hkey a b heq
    rw [(mem_side.mp hb).2] at hcmp
    rcases List.mem_append.mp ha with ha | ha
    · exact nomatch (mem_side.mp ha).2.symm.trans hcmp
    · exact nomatch (mem_side.mp ha).2.symm.trans hcmp

theorem isLE_of_sides [TransCmp cmp] {pivot a b : α} (ha : (cmp a pivot).isLE)
    (hb : (cmp b pivot).isGE) : (cmp a b).isLE :=
  TransCmp.isLE_trans ha (OrientedCmp.isGE_iff_isLE.mp hb)

/-- **Sorted parts make a sorted list.** -/
theorem Ascending.join [TransCmp cmp] {pivot : α} {parts : Ordering → List α}
    (hasc : ∀ o, Ascending cmp (parts o)) (hside : ∀ o, ∀ a ∈ parts o, cmp a pivot = o) :
    Ascending cmp (parts .lt ++ parts .eq ++ parts .gt) := by
  refine List.pairwise_append.mpr ⟨List.pairwise_append.mpr ⟨hasc .lt, hasc .eq, ?_⟩,
    hasc .gt, ?_⟩
  · intro a ha b hb
    exact isLE_of_sides (by rw [hside .lt a ha]; rfl) (by rw [hside .eq b hb]; rfl)
  · intro a ha b hb
    have hle : (cmp a pivot).isLE := by
      rcases List.mem_append.mp ha with ha | ha
      · rw [hside .lt a ha]
        rfl
      · rw [hside .eq a ha]
        rfl
    exact isLE_of_sides hle (by rw [hside .gt b hb]; rfl)

end Sysopy.Foundation
