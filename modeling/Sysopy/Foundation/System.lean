import Mathlib.Data.List.Basic
import Mathlib.Data.List.Induction
import Mathlib.Tactic.TypeStar

/-!
# Guarded step functions and their runs

A program model is a partial step function: `next s a` is the state after
action `a`, or `none` when `a` is not enabled in `s` (a blocked semaphore, a
thread that is not at that control point). Everything the environment chooses
(which process moves, what a system call returns) is part of the action, so one
definition serves both to replay a schedule and to prove facts of every
schedule.

A run is recorded as its *trace*: the list of its steps, each as the state
before the step and the action taken. Histories (what was sent, stored, read)
and conditions on steps are functions and predicates of the trace, so the
program state needs no ghost fields.
-/

namespace Sysopy.Foundation

/-- A place in a history that has grown by one entry is the new entry or a
place in the history before it. -/
theorem split_snoc {β : Type*} {h pre post : List β} {x y : β}
    (heq : h ++ [x] = pre ++ y :: post) :
    (pre = h ∧ y = x ∧ post = []) ∨ ∃ post', post = post' ++ [x] ∧ h = pre ++ y :: post' := by
  rcases List.eq_nil_or_concat post with rfl | ⟨post', z, rfl⟩
  · obtain ⟨hpre, hy⟩ := List.append_inj' heq rfl
    rw [List.singleton_inj] at hy
    exact Or.inl ⟨hpre.symm, hy.symm, rfl⟩
  · rw [List.concat_eq_append, ← List.cons_append, ← List.append_assoc] at heq
    obtain ⟨hh, hz⟩ := List.append_inj' heq rfl
    rw [List.singleton_inj] at hz
    exact Or.inr ⟨post', by rw [List.concat_eq_append, hz], hh⟩

/-- What is seen of a trace through an observation of single steps. -/
def observe {σ α β : Type*} (f : σ → α → List β) (tr : List (σ × α)) : List β :=
  tr.flatMap fun x => f x.1 x.2

@[simp] theorem observe_nil {σ α β : Type*} (f : σ → α → List β) : observe f [] = [] := rfl

@[simp] theorem observe_snoc {σ α β : Type*} (f : σ → α → List β) (tr : List (σ × α))
    (s : σ) (a : α) : observe f (tr ++ [(s, a)]) = observe f tr ++ f s a := by
  simp [observe]

theorem mem_observe {σ α β : Type*} {f : σ → α → List β} {tr : List (σ × α)} {b : β} :
    b ∈ observe f tr ↔ ∃ x ∈ tr, b ∈ f x.1 x.2 := by
  simp [observe]

/-- Two observations agree all the time exactly if they agree on every step. -/
theorem observe_prefixes_iff {σ α β : Type*} {f g : σ → α → List β} {tr : List (σ × α)} :
    (∀ t, t <+: tr → observe f t = observe g t) ↔ ∀ x ∈ tr, f x.1 x.2 = g x.1 x.2 := by
  induction tr using List.reverseRecOn with
  | nil => simp
  | append_singleton tr x ih =>
      rw [List.forall_mem_append, List.forall_mem_singleton, ← ih]
      constructor
      · intro h
        refine ⟨fun t ht => h t (ht.trans (List.prefix_append _ _)), ?_⟩
        have hwhole := h _ (List.prefix_refl _)
        rw [observe_snoc, observe_snoc, h tr (List.prefix_append _ _)] at hwhole
        exact List.append_cancel_left hwhole
      · rintro ⟨hshorter, hlast⟩ t ht
        rcases List.prefix_concat_iff.mp ht with rfl | ht
        · rw [observe_snoc, observe_snoc, hshorter tr (List.prefix_refl tr), hlast]
        · exact hshorter t ht

/-- A transition system with a guarded, executable step function. -/
structure System (σ α : Type*) where
  init : σ
  next : σ → α → Option σ

namespace System

variable {σ α : Type*} {M : System σ α}

/-- `M.Path s tr t`: the steps of `tr`, taken from `s`, lead to `t`. -/
inductive Path (M : System σ α) (s : σ) : List (σ × α) → σ → Prop
  | nil : Path M s [] s
  | snoc {tr : List (σ × α)} {t u : σ} {a : α} :
      Path M s tr t → M.next t a = some u → Path M s (tr ++ [(t, a)]) u

def Run (M : System σ α) (tr : List (σ × α)) (s : σ) : Prop := M.Path M.init tr s

/-- **The invariant rule for histories**: a relation between the trace so far
and the current state that holds at the start and survives every step holds at
the end of every path. -/
theorem Path.invariant {I : List (σ × α) → σ → Prop} {s t : σ} {tr : List (σ × α)}
    (h : M.Path s tr t) (start : I [] s)
    (step : ∀ tr t a u, I tr t → M.next t a = some u → I (tr ++ [(t, a)]) u) :
    I tr t := by
  induction h with
  | nil => exact start
  | snoc _ hn ih => exact step _ _ _ _ ih hn

theorem Run.invariant {I : List (σ × α) → σ → Prop} {tr : List (σ × α)} {s : σ}
    (h : M.Run tr s) (start : I [] M.init)
    (step : ∀ tr s a t, I tr s → M.next s a = some t → I (tr ++ [(s, a)]) t) :
    I tr s :=
  Path.invariant h start step

theorem Path.cons {s t u : σ} {a : α} {tr : List (σ × α)} (hn : M.next s a = some t)
    (h : M.Path t tr u) : M.Path s ((s, a) :: tr) u := by
  induction h with
  | nil => exact Path.snoc Path.nil hn
  | snoc _ hn' ih => exact Path.snoc ih hn'

theorem Path.trans {s t u : σ} {tr tr' : List (σ × α)} (h : M.Path s tr t)
    (h' : M.Path t tr' u) : M.Path s (tr ++ tr') u := by
  induction h' with
  | nil => rwa [List.append_nil]
  | snoc _ hn ih =>
      rw [← List.append_assoc]
      exact Path.snoc ih hn

/-- **The progress rule**: if short of the goal some allowed action keeps `I` and
lowers the measure, then allowed actions lead to the goal. -/
theorem exists_path_of_measure {I G : σ → Prop} {A : α → Prop} (measure : σ → ℕ)
    (step : ∀ s, I s → ¬G s →
      ∃ a t, A a ∧ M.next s a = some t ∧ I t ∧ measure t < measure s) :
    ∀ s, I s → ∃ tr t, M.Path s tr t ∧ (∀ x ∈ tr, A x.2) ∧ I t ∧ G t := by
  intro s
  induction hm : measure s using Nat.strongRecOn generalizing s with
  | ind m ih =>
      intro hs
      by_cases hg : G s
      · exact ⟨[], s, Path.nil, fun x hx => absurd hx List.not_mem_nil, hs, hg⟩
      · obtain ⟨a, t, ha, hn, ht, hlt⟩ := step s hs hg
        obtain ⟨tr, u, hp, htr, hu, hgoal⟩ := ih (measure t) (hm ▸ hlt) t rfl ht
        refine ⟨(s, a) :: tr, u, Path.cons hn hp, fun x hx => ?_, hu, hgoal⟩
        rcases List.mem_cons.mp hx with rfl | hx
        · exact ha
        · exact htr x hx

/-- **The bound rule**: where every step lowers the measure, a path is not longer than
the measure at its start. -/
theorem Path.length_add_le_measure {I : σ → Prop} (measure : σ → ℕ) {s t : σ}
    {tr : List (σ × α)} (h : M.Path s tr t) (start : I s)
    (step : ∀ t a u, I t → M.next t a = some u → I u ∧ measure u < measure t) :
    tr.length + measure t ≤ measure s := by
  suffices hboth : I t ∧ tr.length + measure t ≤ measure s from hboth.2
  refine h.invariant (I := fun tr t => I t ∧ tr.length + measure t ≤ measure s)
    ⟨start, by simp⟩ ?_
  rintro tr t a u ⟨ht, hle⟩ hn
  obtain ⟨hu, hlt⟩ := step t a u ht hn
  refine ⟨hu, ?_⟩
  rw [List.length_append, List.length_singleton]
  omega

/-- The invariant rule for runs whose steps all meet a condition. -/
theorem Path.invariant_of_steps {I : List (σ × α) → σ → Prop} {C : σ → α → Prop} {s t : σ}
    {tr : List (σ × α)} (h : M.Path s tr t) (hsteps : ∀ x ∈ tr, C x.1 x.2) (start : I [] s)
    (step : ∀ tr t a u, I tr t → C t a → M.next t a = some u → I (tr ++ [(t, a)]) u) :
    I tr t := by
  induction h with
  | nil => exact start
  | snoc _ hn ih =>
      rw [List.forall_mem_append, List.forall_mem_singleton] at hsteps
      exact step _ _ _ _ (ih hsteps.1) hsteps.2 hn

/-- Every step of a path is taken in a state that the path leads to. -/
theorem Path.of_mem {s t : σ} {tr : List (σ × α)} (h : M.Path s tr t) {x : σ × α}
    (hx : x ∈ tr) : ∃ pre u, M.Path s pre x.1 ∧ M.next x.1 x.2 = some u := by
  induction h with
  | nil => exact absurd hx List.not_mem_nil
  | snoc hp hn ih =>
      rcases List.mem_append.mp hx with hx | hx
      · exact ih hx
      · obtain rfl := List.mem_singleton.mp hx
        exact ⟨_, _, hp, hn⟩

/-! ## Replaying a schedule -/

/-- Replay a schedule from `s`: its trace and final state, or `none` when some
action is not enabled. -/
def replayFrom (M : System σ α) (s : σ) : List α → Option (List (σ × α) × σ)
  | [] => some ([], s)
  | a :: as =>
      match M.next s a with
      | none => none
      | some t => (M.replayFrom t as).map fun r => ((s, a) :: r.1, r.2)

def replay (M : System σ α) (as : List α) : Option (List (σ × α) × σ) :=
  M.replayFrom M.init as

theorem path_of_replayFrom : ∀ (as : List α) {s t : σ} {tr : List (σ × α)},
    M.replayFrom s as = some (tr, t) → M.Path s tr t
  | [], s, t, tr, h => by
      simp only [replayFrom, Option.some.injEq, Prod.mk.injEq] at h
      obtain ⟨rfl, rfl⟩ := h
      exact Path.nil
  | a :: as, s, t, tr, h => by
      cases hn : M.next s a with
      | none => simp [replayFrom, hn] at h
      | some v =>
          simp only [replayFrom, hn, Option.map_eq_some_iff, Prod.mk.injEq] at h
          obtain ⟨⟨tr', t'⟩, hr, rfl, rfl⟩ := h
          exact Path.cons hn (path_of_replayFrom as hr)

/-- A schedule that replays is a run. -/
theorem run_of_replay (as : List α) {tr : List (σ × α)} {s : σ}
    (h : M.replay as = some (tr, s)) : M.Run tr s :=
  path_of_replayFrom as h

end System

end Sysopy.Foundation
