import Sysopy.Foundation.System

/-!
# First-in first-out channels of a transition system

A channel is whatever part of the state keeps its entries in order: a queue of the
kernel, or a queue together with a list of calls that are still to be made. What is
put in at its end and taken from its front during a run are observations of the
steps, and for every channel the two lists and the contents fit together.

A queue whose readers ask for different kinds of entries is one channel for each kind.

## Sections

* §1 channels
* §2 queues for several readers
-/

namespace Sysopy.Foundation

/-! ## §1  Channels -/

/-- The contents `c` become `c'` when `ins` are put in at the end and `outs` are taken
from the front. -/
def Moves {β : Type*} (c ins outs c' : List β) : Prop := c ++ ins = outs ++ c'

namespace Moves

variable {β : Type*} {c c' c'' ins ins' outs outs' : List β}

theorem refl (c : List β) : Moves c [] [] c := List.append_nil c

theorem put (c ins : List β) : Moves c ins [] (c ++ ins) := rfl

theorem take (x : β) (c : List β) : Moves (x :: c) [] [x] c := List.append_nil (x :: c)

theorem trans (h : Moves c ins outs c') (h' : Moves c' ins' outs' c'') :
    Moves c (ins ++ ins') (outs ++ outs') c'' := by
  calc c ++ (ins ++ ins') = (c ++ ins) ++ ins' := (List.append_assoc ..).symm
    _ = (outs ++ c') ++ ins' := by rw [h]
    _ = outs ++ (c' ++ ins') := List.append_assoc ..
    _ = outs ++ (outs' ++ c'') := by rw [h']
    _ = (outs ++ outs') ++ c'' := (List.append_assoc ..).symm

/-- Two channels in a row: what leaves the second one enters the first. -/
theorem pipe {c₁ c₁' c₂ c₂' mid : List β} (h₁ : Moves c₁ mid outs c₁')
    (h₂ : Moves c₂ ins mid c₂') : Moves (c₁ ++ c₂) ins outs (c₁' ++ c₂') := by
  calc (c₁ ++ c₂) ++ ins = c₁ ++ (c₂ ++ ins) := List.append_assoc ..
    _ = c₁ ++ (mid ++ c₂') := by rw [h₂]
    _ = (c₁ ++ mid) ++ c₂' := (List.append_assoc ..).symm
    _ = (outs ++ c₁') ++ c₂' := by rw [h₁]
    _ = outs ++ (c₁' ++ c₂') := List.append_assoc ..

theorem length_eq (h : Moves c ins outs c') :
    c.length + ins.length = outs.length + c'.length := by
  have := congrArg List.length h
  rwa [List.length_append, List.length_append] at this

end Moves

/-- **The channel rule**: a channel that every step moves by what the step puts in and
takes out is moved by a path by all that was put in and taken out. -/
theorem System.Path.moves {σ α β : Type*} {M : System σ α} (chan : σ → List β)
    (ins outs : σ → α → List β) {I : σ → Prop} {s t : σ} {tr : List (σ × α)}
    (h : M.Path s tr t) (start : I s)
    (step : ∀ t a u, I t → M.next t a = some u →
      I u ∧ Moves (chan t) (ins t a) (outs t a) (chan u)) :
    I t ∧ Moves (chan s) (observe ins tr) (observe outs tr) (chan t) := by
  refine h.invariant
    (I := fun tr t => I t ∧ Moves (chan s) (observe ins tr) (observe outs tr) (chan t))
    ⟨start, Moves.refl _⟩ ?_
  rintro tr t a u ⟨ht, hmoves⟩ hn
  obtain ⟨hu, hstep⟩ := step t a u ht hn
  rw [observe_snoc, observe_snoc]
  exact ⟨hu, hmoves.trans hstep⟩

/-! ## §2  Queues for several readers -/

section TakeFirst

variable {β : Type*} {p p' : β → Bool} {c c' : List β} {x : β}

def takeFirst (p : β → Bool) : List β → Option (β × List β)
  | [] => none
  | x :: c => if p x then some (x, c) else (takeFirst p c).map fun r => (r.1, x :: r.2)

theorem takeFirst_eq_none : takeFirst p c = none ↔ ∀ x ∈ c, p x = false := by
  induction c with
  | nil => simp [takeFirst]
  | cons x c ih =>
      rw [takeFirst, List.forall_mem_cons, ← ih]
      cases hx : p x <;> simp

theorem takeFirst_eq_some (h : takeFirst p c = some (x, c')) :
    ∃ pre post, c = pre ++ x :: post ∧ c' = pre ++ post ∧ p x = true ∧
      ∀ y ∈ pre, p y = false := by
  induction c generalizing c' with
  | nil => exact absurd h (Option.some_ne_none _).symm
  | cons y c ih =>
      rw [takeFirst] at h
      cases hy : p y with
      | true =>
          rw [hy, if_pos rfl, Option.some.injEq, Prod.mk.injEq] at h
          obtain ⟨rfl, rfl⟩ := h
          exact ⟨[], c, rfl, rfl, hy, fun _ hz => absurd hz List.not_mem_nil⟩
      | false =>
          rw [hy, if_neg Bool.false_ne_true] at h
          obtain ⟨⟨x', rest⟩, hrest, heq⟩ := Option.map_eq_some_iff.mp h
          obtain ⟨rfl, rfl⟩ := Prod.mk.inj heq
          obtain ⟨pre, post, rfl, rfl, hx, hpre⟩ := ih hrest
          exact ⟨y :: pre, post, rfl, rfl, hx, List.forall_mem_cons.mpr ⟨hy, hpre⟩⟩

/-- It is the first one of its kind. -/
theorem filter_takeFirst (h : takeFirst p c = some (x, c')) : c.filter p = x :: c'.filter p := by
  obtain ⟨pre, post, rfl, rfl, hx, hpre⟩ := takeFirst_eq_some h
  have hnone : pre.filter p = [] := List.filter_eq_nil_iff.mpr fun y hy => by simp [hpre y hy]
  simp [hnone, hx]

theorem filter_takeFirst_of_not (h : takeFirst p c = some (x, c')) (hx : p' x = false) :
    c.filter p' = c'.filter p' := by
  obtain ⟨pre, post, rfl, rfl, -⟩ := takeFirst_eq_some h
  simp [hx]

theorem length_takeFirst (h : takeFirst p c = some (x, c')) : c.length = c'.length + 1 := by
  obtain ⟨pre, post, rfl, rfl, -⟩ := takeFirst_eq_some h
  rw [List.length_append, List.length_append, List.length_cons, Nat.add_assoc]

theorem mem_of_takeFirst (h : takeFirst p c = some (x, c')) : p x = true ∧ x ∈ c ∧ c' ⊆ c := by
  obtain ⟨pre, post, rfl, rfl, hx, -⟩ := takeFirst_eq_some h
  refine ⟨hx, List.mem_append_right _ (List.mem_cons_self ..), ?_⟩
  exact List.append_subset.mpr ⟨List.subset_append_left _ _,
    List.Subset.trans (List.subset_cons_self _ _) (List.subset_append_right _ _)⟩

end TakeFirst

end Sysopy.Foundation
