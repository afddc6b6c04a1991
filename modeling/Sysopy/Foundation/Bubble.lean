import Mathlib.Data.List.Basic
import Mathlib.Order.Defs.LinearOrder
import Mathlib.Order.Basic
import Mathlib.Order.Lattice

/-!
# Sorting by carrying the greatest element

One pass carries an element through the list: whenever the next one is smaller the two
change places, else the next one is carried on. A pass ends with a greatest element in
the last place, and it never moves two elements with the same key past each other.
Passes over shorter and shorter beginnings of the list sort it.

## Sections

* §1 one pass
* §2 all passes
-/

namespace Sysopy.Foundation

variable {α β : Type*} [LinearOrder β] {key : α → β}

/-- `ys` is `xs` in the order of the keys, elements with the same key as before. -/
structure StableSort (key : α → β) (xs ys : List α) : Prop where
  perm : ys.Perm xs
  ordered : ys.Pairwise fun a b => key a ≤ key b
  stable : ∀ k, ys.filter (fun a => key a = k) = xs.filter fun a => key a = k

/-! ## §1  One pass -/

/-- `x` is carried through the list. -/
def carry (key : α → β) (x : α) : List α → List α
  | [] => [x]
  | y :: ys => if key y < key x then y :: carry key x ys else x :: carry key y ys

theorem length_carry (x : α) (ys : List α) : (carry key x ys).length = ys.length + 1 := by
  induction ys generalizing x with
  | nil => rfl
  | cons y ys ih =>
      unfold carry
      split_ifs
      · rw [List.length_cons, ih, List.length_cons]
      · rw [List.length_cons, ih, List.length_cons]

theorem carry_perm (key : α → β) (x : α) (ys : List α) : (carry key x ys).Perm (x :: ys) := by
  induction ys generalizing x with
  | nil => exact .refl _
  | cons y ys ih =>
      unfold carry
      split_ifs
      · exact ((ih x).cons y).trans (.swap x y ys)
      · exact (ih y).cons x

/-- Only elements with different keys change places. -/
theorem carry_stable (x : α) (ys : List α) (k : β) :
    (carry key x ys).filter (fun a => key a = k) = (x :: ys).filter fun a => key a = k := by
  induction ys generalizing x with
  | nil => rfl
  | cons y ys ih =>
      unfold carry
      split_ifs with hlt
      · simp only [List.filter_cons, ih x]
        by_cases hx : key x = k
        · have hy : key y ≠ k := fun hy => (hx ▸ hy ▸ hlt).false
          simp [hx, hy]
        · simp [hx]
      · simp only [List.filter_cons, ih y]

/-- The last element of a pass is a greatest one. -/
theorem exists_carry_eq (key : α → β) (x : α) (ys : List α) :
    ∃ zs z, carry key x ys = zs ++ [z] ∧ ∀ a ∈ x :: ys, key a ≤ key z := by
  induction ys generalizing x with
  | nil => exact ⟨[], x, rfl, by simp⟩
  | cons y ys ih =>
      unfold carry
      split_ifs with hlt
      · obtain ⟨zs, z, heq, hmax⟩ := ih x
        refine ⟨y :: zs, z, by rw [heq, List.cons_append], ?_⟩
        have hx := hmax x List.mem_cons_self
        intro a ha
        rcases List.mem_cons.mp ha with rfl | ha
        · exact hx
        · rcases List.mem_cons.mp ha with rfl | ha
          · exact hlt.le.trans hx
          · exact hmax a (List.mem_cons_of_mem _ ha)
      · obtain ⟨zs, z, heq, hmax⟩ := ih y
        refine ⟨x :: zs, z, by rw [heq, List.cons_append], ?_⟩
        intro a ha
        rcases List.mem_cons.mp ha with rfl | ha
        · exact (not_lt.mp hlt).trans (hmax y List.mem_cons_self)
        · exact hmax a ha

/-! ## §2  All passes -/

/-- Passes over the first `n + 1`, `n`, .., 2 elements. -/
def passes (key : α → β) : ℕ → List α → List α
  | 0, xs => xs
  | n + 1, xs =>
      match xs with
      | [] => []
      | x :: xs => passes key n (carry key x (xs.take (n + 1)) ++ xs.drop (n + 1))

/-- From place `n` on the elements are in order, and none before is greater. -/
structure Settled (key : α → β) (n : ℕ) (xs : List α) : Prop where
  ordered : (xs.drop n).Pairwise fun a b => key a ≤ key b
  below : ∀ a ∈ xs.take n, ∀ b ∈ xs.drop n, key a ≤ key b

theorem settled_length (xs : List α) : Settled key xs.length xs where
  ordered := by
    rw [List.drop_length]
    exact .nil
  below := by
    rw [List.drop_length]
    exact fun _ _ b hb => absurd hb List.not_mem_nil

theorem Settled.pass {n : ℕ} {x : α} {xs : List α} (h : Settled key (n + 2) (x :: xs))
    (hn : n + 1 ≤ xs.length) :
    Settled key (n + 1) (carry key x (xs.take (n + 1)) ++ xs.drop (n + 1)) := by
  obtain ⟨zs, z, heq, hmax⟩ := exists_carry_eq key x (xs.take (n + 1))
  have hperm : (zs ++ [z]).Perm (x :: xs.take (n + 1)) := heq ▸ carry_perm key x _
  have hlen : zs.length = n + 1 := by
    have hlength := hperm.length_eq
    rw [List.length_append, List.length_singleton, List.length_cons, List.length_take,
      Nat.min_eq_left hn] at hlength
    exact Nat.succ.inj hlength
  have hbelow : ∀ a ∈ zs ++ [z], ∀ b ∈ xs.drop (n + 1), key a ≤ key b := fun a ha =>
    h.below a (hperm.mem_iff.mp ha)
  rw [heq, List.append_assoc]
  refine ⟨?_, ?_⟩
  · rw [← hlen, List.drop_left, hlen]
    exact List.pairwise_cons.mpr ⟨hbelow z (by simp), h.ordered⟩
  · rw [← hlen, List.drop_left, List.take_left, hlen]
    intro a ha b hb
    rcases List.mem_cons.mp hb with rfl | hb
    · exact hmax a (hperm.mem_iff.mp (List.mem_append_left _ ha))
    · exact hbelow a (List.mem_append_left _ ha) b hb

theorem passes_perm (n : ℕ) (xs : List α) : (passes key n xs).Perm xs := by
  induction n generalizing xs with
  | zero => exact .refl _
  | succ n ih =>
      cases xs with
      | nil => exact .refl _
      | cons x xs =>
          have hpass := (carry_perm key x (xs.take (n + 1))).append_right
            (xs.drop (n + 1))
          rw [List.cons_append, List.take_append_drop] at hpass
          exact (ih _).trans hpass

theorem passes_stable (n : ℕ) (xs : List α) (k : β) :
    (passes key n xs).filter (fun a => key a = k) = xs.filter fun a => key a = k := by
  induction n generalizing xs with
  | zero => rfl
  | succ n ih =>
      cases xs with
      | nil => rfl
      | cons x xs =>
          have hpass := ih (carry key x (xs.take (n + 1)) ++ xs.drop (n + 1))
          rwa [List.filter_append, carry_stable, ← List.filter_append, List.cons_append,
            List.take_append_drop] at hpass

theorem passes_ordered {n : ℕ} {xs : List α} (hn : n < xs.length)
    (h : Settled key (n + 1) xs) : (passes key n xs).Pairwise fun a b => key a ≤ key b := by
  induction n generalizing xs with
  | zero =>
      cases xs with
      | nil => exact .nil
      | cons x xs => exact List.pairwise_cons.mpr ⟨h.below x (by simp), h.ordered⟩
  | succ n ih =>
      cases xs with
      | nil => exact .nil
      | cons x xs =>
          have hlt : n + 1 ≤ xs.length := Nat.lt_succ_iff.mp hn
          refine ih ?_ (h.pass hlt)
          rw [List.length_append, length_carry, List.length_take, Nat.min_eq_left hlt]
          omega

/-- **All passes sort the list.** -/
theorem passes_stableSort (xs : List α) : StableSort key xs (passes key (xs.length - 1) xs) where
  perm := passes_perm _ xs
  ordered := by
    cases xs with
    | nil => exact .nil
    | cons x xs => exact passes_ordered (Nat.lt_succ_self _) (settled_length (x :: xs))
  stable := passes_stable _ xs

end Sysopy.Foundation
