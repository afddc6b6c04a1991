import Mathlib.Data.List.Nodup
import Mathlib.Data.List.Perm.Basic
import Mathlib.Data.List.TakeWhile

/-!
# One message for each recipient

A server that relays a message goes through its table and makes one call for
each entry it selects: the calls are `rs.map call` for the list `rs` of selected
entries. Each recipient is called exactly once as soon as no entry occurs twice
and no two selected entries have the same destination. A server that gives up at a
call leaves out that call and all behind it.
-/

namespace Sysopy.Foundation

variable {ι μ δ : Type*} [DecidableEq δ]

/-- A condition that one entry of a list without duplicates satisfies. -/
theorem filter_eq_singleton {rs : List ι} (hnodup : rs.Nodup) {p : ι → Bool} {i : ι}
    (hi : i ∈ rs) (hp : ∀ k ∈ rs, p k = true ↔ k = i) : rs.filter p = [i] := by
  apply List.perm_singleton.mp
  apply (List.perm_ext_iff_of_nodup (hnodup.filter p) (List.nodup_singleton i)).mpr
  intro k
  rw [List.mem_filter, List.mem_singleton]
  constructor
  · rintro ⟨hk, hpk⟩
    exact (hp k hk).mp hpk
  · rintro rfl
    exact ⟨hi, (hp k hi).mpr rfl⟩

theorem broadcast_to (call : ι → μ) (dest : μ → δ) {rs : List ι} (hnodup : rs.Nodup) {i : ι}
    (hi : i ∈ rs) (hdest : ∀ k ∈ rs, dest (call k) = dest (call i) → k = i) :
    (rs.map call).filter (fun m => dest m = dest (call i)) = [call i] := by
  have hone : rs.filter (fun k => dest (call k) = dest (call i)) = [i] := by
    refine filter_eq_singleton hnodup hi fun k hk => ?_
    rw [decide_eq_true_iff]
    exact ⟨hdest k hk, fun h => congrArg (dest ∘ call) h⟩
  rw [List.filter_map]
  exact congrArg (List.map call) hone

section Until

variable {p q : μ → Bool} {l : List μ} {m : μ}

/-- The one message with `p` comes before all that fails `q` if it has `q` itself and so do
those in front of it. -/
theorem mem_takeWhile_iff (h : l.filter p = [m]) :
    m ∈ l.takeWhile q ↔ q m = true ∧ ∀ x ∈ l.takeWhile (fun x => !p x), q x = true := by
  induction l with
  | nil => exact absurd h (List.cons_ne_nil m []).symm
  | cons y l ih =>
      cases hp : p y with
      | true =>
          rw [List.filter_cons_of_pos hp] at h
          obtain ⟨rfl, hrest⟩ := List.cons.inj h
          have hbefore : (y :: l).takeWhile (fun x => !p x) = [] :=
            List.takeWhile_cons_of_neg (by simp [hp])
          rw [hbefore]
          refine ⟨fun hmem => ⟨List.mem_takeWhile_imp hmem, fun x hx => ?_⟩, fun hq => ?_⟩
          · exact absurd hx List.not_mem_nil
          · rw [List.takeWhile_cons_of_pos hq.1]
            exact List.mem_cons_self
      | false =>
          have hne : m ≠ y := by
            rintro rfl
            have hm : m ∈ (m :: l).filter p := h ▸ List.mem_cons_self
            exact Bool.false_ne_true (hp.symm.trans (List.mem_filter.mp hm).2)
          rw [List.filter_cons_of_neg (by simp [hp])] at h
          rw [List.takeWhile_cons_of_pos (p := fun x => !p x) (by simp [hp])]
          cases hq : q y with
          | true =>
              rw [List.takeWhile_cons_of_pos hq, List.mem_cons, or_iff_right hne, ih h]
              simp [hq]
          | false =>
              rw [List.takeWhile_cons_of_neg (by simp [hq])]
              simp [hq]

/-- The message is the only one with `p` that is left, or there is none. -/
theorem filter_takeWhile_eq (h : l.filter p = [m]) (hm : m ∈ l.takeWhile q) :
    (l.takeWhile q).filter p = [m] := by
  have hsublist : List.Sublist ((l.takeWhile q).filter p) [m] :=
    h ▸ (List.takeWhile_sublist q).filter p
  have hp : m ∈ l.filter p := h ▸ List.mem_cons_self
  have hmem := List.mem_filter.mpr ⟨hm, (List.mem_filter.mp hp).2⟩
  exact hsublist.eq_of_length_le (List.length_pos_of_mem hmem)

end Until

end Sysopy.Foundation
