import Sysopy.Foundation.System

/-!
# Refinement

A program refines another one when all that is seen of its runs is also seen of runs of
the other one. It is proved with a relation between the states of the two: each step of
the program is answered by a path of the other one on which the same is seen.

What is true of all that is seen of the other program is then true of the program.
-/

namespace Sysopy.Foundation.System

variable {σ α σ' α' β : Type*} {A : System σ' α'} {M : System σ α}
  {f : σ → α → List β} {g : σ' → α' → List β}

theorem observe_append (f : σ → α → List β) (tr tr' : List (σ × α)) :
    observe f (tr ++ tr') = observe f tr ++ observe f tr' :=
  List.flatMap_append

/-- Related states stay related, and `A` shows on a path what `M` shows in a step. -/
structure Simulation (A : System σ' α') (g : σ' → α' → List β) (M : System σ α)
    (f : σ → α → List β) (R : σ' → σ → Prop) : Prop where
  init : R A.init M.init
  step : ∀ u s a t, R u s → M.next s a = some t →
    ∃ tr v, A.Path u tr v ∧ observe g tr = f s a ∧ R v t

/-- **The simulation rule**: every run of `M` is answered by a run of `A`. -/
theorem Simulation.run {R : σ' → σ → Prop} (hsim : Simulation A g M f R)
    {tr : List (σ × α)} {s : σ} (h : M.Run tr s) :
    ∃ tr' u, A.Run tr' u ∧ observe g tr' = observe f tr ∧ R u s := by
  refine h.invariant (I := fun tr s => ∃ tr' u, A.Run tr' u ∧
    observe g tr' = observe f tr ∧ R u s) ⟨[], A.init, Path.nil, rfl, hsim.init⟩ ?_
  rintro tr s a t ⟨tr', u, hrun, heq, hrel⟩ hn
  obtain ⟨steps, v, hpath, hshown, hrel'⟩ := hsim.step u s a t hrel hn
  refine ⟨tr' ++ steps, v, hrun.trans hpath, ?_, hrel'⟩
  rw [observe_append, observe_snoc, heq, hshown]

/-- What is true of all that `A` shows is true of all that `M` shows. -/
theorem Simulation.transfer {R : σ' → σ → Prop} (hsim : Simulation A g M f R)
    {P : List β → Prop} (hA : ∀ tr u, A.Run tr u → P (observe g tr))
    {tr : List (σ × α)} {s : σ} (h : M.Run tr s) : P (observe f tr) := by
  obtain ⟨tr', u, hrun, heq, -⟩ := hsim.run h
  exact heq ▸ hA tr' u hrun

end Sysopy.Foundation.System
