import Sysopy.Philosophers.Dining

/-!
# Exclusion among the dining philosophers

A fork is used exactly when one philosopher has stored that and not yet taken it
back, because the status of a fork is only tested and stored by the owner of its
mutex.

## Sections

* §1 the invariant
* §2 steps
* §3 neighbours do not eat together
-/

namespace Sysopy.Philosophers

open Sysopy.Foundation

variable {m : ℕ} {s t : Table m} {p q : Philosopher m} {w : Which} {c c₀ : Pc}

/-! ## §1  The invariant -/

def Table.inside (s : Table m) (p : Philosopher m) : Option (Fork m) :=
  (s.pc p).inside.map (forkOf p)

/-- The philosopher has acquired the fork and not yet released it. -/
def Table.Holds (s : Table m) (p : Philosopher m) (f : Fork m) : Prop :=
  ∃ w, (s.pc p).holds w = true ∧ forkOf p w = f

/-- What every reachable state satisfies. -/
structure Sound (s : Table m) : Prop where
  owned : Owned s.forkMutex s.inside
  used : ∀ f, s.forkStatus f = .used ↔ ∃ p, s.Holds p f
  alone : ∀ f p q, s.Holds p f → s.Holds q f → p = q
  /-- a fork that is about to be taken is free -/
  taking : ∀ p w, s.pc p = .take w → s.forkStatus (forkOf p w) = .free

theorem sound_start (m : ℕ) : Sound (dining m).init where
  owned := Owned.unowned
  used f := by
    refine ⟨fun h => ForkStatus.noConfusion h, ?_⟩
    rintro ⟨p, w, hw, -⟩
    cases w <;> exact Bool.noConfusion hw
  alone f p q := by
    rintro ⟨w, hw, -⟩
    cases w <;> exact Bool.noConfusion hw
  taking p w h := Pc.noConfusion h

/-! ## §2  Steps -/

theorem inside_of_pc (h : (s.pc p).inside = some w) : s.inside p = some (forkOf p w) :=
  congrArg (Option.map (forkOf p)) h

theorem inside_update (ht : t.pc = Function.update s.pc p c) :
    t.inside = Function.update s.inside p (c.inside.map (forkOf p)) := by
  funext q
  unfold Table.inside
  rw [ht]
  by_cases hq : q = p
  · subst hq
    simp
  · simp [Function.update_of_ne hq]

theorem owned_stay (h : Owned s.forkMutex s.inside) (hmutex : t.forkMutex = s.forkMutex)
    (ht : t.pc = Function.update s.pc p c) (hinside : c.inside = (s.pc p).inside) :
    Owned t.forkMutex t.inside := by
  have hkeep : t.inside = s.inside := by
    rw [inside_update ht, hinside]
    exact Function.update_eq_self ..
  rwa [hmutex, hkeep]

theorem Sound.keep (hs : Sound s) (hstatus : t.forkStatus = s.forkStatus)
    (hholds : ∀ q, (t.pc q).holds = (s.pc q).holds) (howned : Owned t.forkMutex t.inside)
    (htaking : ∀ q w, t.pc q = .take w → s.forkStatus (forkOf q w) = .free) : Sound t := by
  have heq : ∀ q f, t.Holds q f ↔ s.Holds q f := by
    intro q f
    unfold Table.Holds
    rw [hholds q]
  exact
    { owned := howned
      used := fun f => by
        rw [hstatus, hs.used f]
        exact exists_congr fun q => (heq q f).symm
      alone := fun f q r hq hr => hs.alone f q r ((heq q f).mp hq) ((heq r f).mp hr)
      taking := fun q w hq => hstatus ▸ htaking q w hq }

theorem holds_update (hholds : c.holds = (s.pc p).holds) (q : Philosopher m) :
    (Function.update s.pc p c q).holds = (s.pc q).holds := by
  by_cases hq : q = p
  · subst hq
    rw [Function.update_self, hholds]
  · rw [Function.update_of_ne hq]

theorem Sound.taking_update (hs : Sound s)
    (hc : ∀ w, c = .take w → s.forkStatus (forkOf p w) = .free) (q : Philosopher m) (w : Which)
    (hq : Function.update s.pc p c q = .take w) : s.forkStatus (forkOf q w) = .free := by
  by_cases hqp : q = p
  · subst hqp
    exact hc w ((Function.update_self ..).symm.trans hq)
  · rw [Function.update_of_ne hqp] at hq
    exact hs.taking q w hq

theorem Sound.goto (hs : Sound s) (hpc : s.pc p = c₀) (hholds : c.holds = c₀.holds)
    (hinside : c.inside = c₀.inside)
    (hc : ∀ w, c = .take w → s.forkStatus (forkOf p w) = .free) : Sound (s.goto p c) := by
  subst hpc
  exact hs.keep rfl (holds_update hholds) (owned_stay hs.owned rfl rfl hinside)
    (hs.taking_update hc)

theorem Sound.lockMutex (hs : Sound s) (hpc : s.pc p = c₀) (hholds : c.holds = c₀.holds)
    (hbefore : c₀.inside = none) (hinside : c.inside = some w)
    (hc : ∀ w', c = .take w' → s.forkStatus (forkOf p w') = .free)
    (hfree : s.forkMutex (forkOf p w) = none) :
    Sound { s.goto p c with
      forkMutex := Function.update s.forkMutex (forkOf p w) (some p) } := by
  subst hpc
  refine hs.keep rfl (holds_update hholds) ?_ (hs.taking_update hc)
  have hnone : s.inside p = none := congrArg (Option.map (forkOf p)) hbefore
  rw [inside_update (s := s) (p := p) (c := c) rfl, hinside]
  exact hs.owned.lock hfree hnone

theorem Sound.unlockMutex (hs : Sound s) (hpc : s.pc p = c₀) (hholds : c.holds = c₀.holds)
    (hbefore : c₀.inside = some w) (hinside : c.inside = none) :
    Sound (s.unlockMutex p w c) := by
  subst hpc
  have hc : ∀ w', c = .take w' → s.forkStatus (forkOf p w') = .free := by
    rintro w' rfl
    exact absurd hinside (Option.some_ne_none w')
  refine hs.keep rfl (holds_update hholds) ?_ (hs.taking_update hc)
  rw [inside_update (s := s) (p := p) (c := c) rfl, hinside]
  exact hs.owned.unlock (inside_of_pc hbefore)

theorem holds_goto_of_ne {s t : Table m} (ht : t.pc = Function.update s.pc p c) (hq : q ≠ p)
    (f : Fork m) : t.Holds q f ↔ s.Holds q f := by
  unfold Table.Holds
  rw [ht, Function.update_of_ne hq]

theorem Sound.take (hs : Sound s) (hpc : s.pc p = .take w) :
    Sound (s.setStatus p w .used (.unlock w)) := by
  set t := s.setStatus p w .used (.unlock w) with ht
  have hself : ∀ f, t.Holds p f ↔ s.Holds p f ∨ forkOf p w = f := by
    have hholds : ∀ w', (Pc.unlock w).holds w' = true ↔ (Pc.take w).holds w' = true ∨ w' = w := by
      cases w <;> intro w' <;> cases w' <;> decide
    intro f
    have hp : t.pc p = .unlock w := Function.update_self ..
    unfold Table.Holds
    rw [hp, hpc]
    constructor
    · rintro ⟨w', hw', hf⟩
      rcases (hholds w').mp hw' with hw' | rfl
      · exact Or.inl ⟨w', hw', hf⟩
      · exact Or.inr hf
    · rintro (⟨w', hw', hf⟩ | hf)
      · exact ⟨w', (hholds w').mpr (Or.inl hw'), hf⟩
      · exact ⟨w, (hholds w).mpr (Or.inr rfl), hf⟩
  have hothers : ∀ q, q ≠ p → ∀ f, t.Holds q f ↔ s.Holds q f :=
    fun q hq => holds_goto_of_ne rfl hq
  -- before the store nobody has the fork
  have hfree : ∀ q, ¬ s.Holds q (forkOf p w) := by
    intro q hq
    have hused := (hs.used _).mpr ⟨q, hq⟩
    rw [hs.taking p w hpc] at hused
    exact ForkStatus.noConfusion hused
  have hold : ∀ q f, t.Holds q f → s.Holds q f ∨ (q = p ∧ forkOf p w = f) := by
    intro q f hq
    by_cases hqp : q = p
    · subst hqp
      exact ((hself f).mp hq).imp_right fun h => ⟨rfl, h⟩
    · exact Or.inl ((hothers q hqp f).mp hq)
  refine ⟨?_, fun f => ?_, fun f q r hq hr => ?_, fun q w' hq => ?_⟩
  · exact owned_stay hs.owned rfl rfl (by rw [hpc]; rfl)
  · by_cases hf : f = forkOf p w
    · subst hf
      exact iff_of_true (Function.update_self ..) ⟨p, (hself _).mpr (Or.inr rfl)⟩
    · have hstatus : t.forkStatus f = s.forkStatus f := Function.update_of_ne hf ..
      rw [hstatus, hs.used f]
      constructor
      · rintro ⟨q, hq⟩
        by_cases hqp : q = p
        · subst hqp
          exact ⟨q, (hself f).mpr (Or.inl hq)⟩
        · exact ⟨q, (hothers q hqp f).mpr hq⟩
      · rintro ⟨q, hq⟩
        rcases hold q f hq with hq | ⟨-, heq⟩
        · exact ⟨q, hq⟩
        · exact absurd heq.symm hf
  · rcases hold q f hq with hq' | ⟨hqp, hf⟩ <;> rcases hold r f hr with hr' | ⟨hrp, hf'⟩
    · exact hs.alone f q r hq' hr'
    · exact absurd (hf' ▸ hq') (hfree q)
    · exact absurd (hf ▸ hr') (hfree r)
    · exact hqp.trans hrp.symm
  · have hqp : q ≠ p := by
      rintro rfl
      exact Pc.noConfusion ((Function.update_self ..).symm.trans hq)
    have hq' : s.pc q = .take w' := (Function.update_of_ne hqp ..).symm.trans hq
    have hin : s.inside q = some (forkOf q w') := inside_of_pc (by rw [hq']; rfl)
    have hin' : s.inside p = some (forkOf p w) := inside_of_pc (by rw [hpc]; rfl)
    have hne : forkOf q w' ≠ forkOf p w := fun heq => hqp (hs.owned.unique (heq ▸ hin) hin')
    exact (Function.update_of_ne hne ..).trans (hs.taking q w' hq')

theorem Sound.release (hs : Sound s) (hpc : s.pc p = .release w) :
    Sound (s.setStatus p w .free (.signal w)) := by
  set t := s.setStatus p w .free (.signal w) with ht
  have hself : ∀ f, t.Holds p f ↔ s.Holds p f ∧ forkOf p w ≠ f := by
    have hholds : ∀ w', (Pc.signal w).holds w' = true ↔
        (Pc.release w).holds w' = true ∧ w' ≠ w := by
      cases w <;> intro w' <;> cases w' <;> decide
    intro f
    have hp : t.pc p = .signal w := Function.update_self ..
    unfold Table.Holds
    rw [hp, hpc]
    constructor
    · rintro ⟨w', hw', rfl⟩
      obtain ⟨hold, hne⟩ := (hholds w').mp hw'
      exact ⟨⟨w', hold, rfl⟩, fun heq => hne (forkOf_injective p heq).symm⟩
    · rintro ⟨⟨w', hw', rfl⟩, hne⟩
      exact ⟨w', (hholds w').mpr ⟨hw', fun h => hne (h ▸ rfl)⟩, rfl⟩
  have hothers : ∀ q, q ≠ p → ∀ f, t.Holds q f ↔ s.Holds q f :=
    fun q hq => holds_goto_of_ne rfl hq
  have hheld : s.Holds p (forkOf p w) := ⟨w, by rw [hpc]; cases w <;> rfl, rfl⟩
  -- after the store nobody has the fork, and the other forks stay where they are
  have hiff : ∀ q f, t.Holds q f ↔ s.Holds q f ∧ forkOf p w ≠ f := by
    intro q f
    by_cases hqp : q = p
    · subst hqp
      exact hself f
    · rw [hothers q hqp f]
      refine ⟨fun hq => ⟨hq, ?_⟩, And.left⟩
      rintro rfl
      exact hqp (hs.alone _ q p hq hheld)
  refine ⟨?_, fun f => ?_, fun f q r hq hr => ?_, fun q w' hq => ?_⟩
  · exact owned_stay hs.owned rfl rfl (by rw [hpc]; rfl)
  · by_cases hf : f = forkOf p w
    · subst hf
      have hstatus : t.forkStatus (forkOf p w) = .free := Function.update_self ..
      rw [hstatus]
      refine iff_of_false ForkStatus.noConfusion ?_
      rintro ⟨q, hq⟩
      exact ((hiff q _).mp hq).2 rfl
    · have hstatus : t.forkStatus f = s.forkStatus f := Function.update_of_ne hf ..
      rw [hstatus, hs.used f]
      refine exists_congr fun q => ?_
      rw [hiff]
      exact (and_iff_left fun h => hf h.symm).symm
  · exact hs.alone f q r ((hiff q f).mp hq).1 ((hiff r f).mp hr).1
  · by_cases heq : forkOf q w' = forkOf p w
    · rw [heq]
      exact Function.update_self ..
    · have hqp : q ≠ p := by
        rintro rfl
        exact Pc.noConfusion ((Function.update_self ..).symm.trans hq)
      have hq' : s.pc q = .take w' := (Function.update_of_ne hqp ..).symm.trans hq
      exact (Function.update_of_ne heq ..).trans (hs.taking q w' hq')

theorem holds_ext {c c' : Pc} (hfirst : c.holds .first = c'.holds .first)
    (hsecond : c.holds .second = c'.holds .second) : c.holds = c'.holds := by
  funext w
  cases w
  · exact hfirst
  · exact hsecond

theorem holds_woken (c : Pc) : c.woken.holds = c.holds := by
  cases c with
  | asleep w => cases w <;> exact holds_ext rfl rfl
  | _ => rfl

theorem inside_woken (c : Pc) : c.woken.inside = c.inside := by
  cases c <;> rfl

theorem Table.afterSignal_cases (s : Table m) (p : Philosopher m) (w : Which)
    (woken : Finset (Philosopher m)) (q : Philosopher m) :
    s.afterSignal p w woken q = .reunlock w ∧ q = p ∨
      s.afterSignal p w woken q = (s.pc q).woken ∨ s.afterSignal p w woken q = s.pc q := by
  unfold Table.afterSignal
  split_ifs with hq
  · exact Or.inl ⟨rfl, hq⟩
  · exact Or.inr (Or.inl rfl)
  · exact Or.inr (Or.inr rfl)

theorem Sound.signalCondition (hs : Sound s) {woken : Finset (Philosopher m)}
    (hn : s.signalCondition p woken = some t) : Sound t := by
  unfold Table.signalCondition at hn
  cases hpc : s.pc p with
  | signal w =>
      simp only [hpc] at hn
      split_ifs at hn with hwoken
      obtain rfl := Option.some.inj hn
      have hcases := s.afterSignal_cases p w woken
      apply hs.keep
      · rfl
      · intro q
        dsimp only
        rcases hcases q with ⟨h, rfl⟩ | h | h
        · rw [h, hpc]
          cases w <;> exact holds_ext rfl rfl
        · rw [h, holds_woken]
        · rw [h]
      · have hkeep : ∀ q, (s.afterSignal p w woken q).inside = (s.pc q).inside := by
          intro q
          rcases hcases q with ⟨h, rfl⟩ | h | h
          · rw [h, hpc]
            rfl
          · rw [h, inside_woken]
          · rw [h]
        intro f q
        refine (hs.owned f q).trans ?_
        unfold Table.inside
        rw [hkeep q]
      · intro q w' hq
        dsimp only at hq
        rcases hcases q with ⟨h, rfl⟩ | h | h
        · exact Pc.noConfusion (h.symm.trans hq)
        · rw [h] at hq
          refine hs.taking q w' ?_
          cases hpc' : s.pc q <;> rw [hpc'] at hq <;> first | exact hq | exact Pc.noConfusion hq
        · exact hs.taking q w' (h.symm.trans hq)
  | _ => simp [hpc] at hn

theorem Sound.diningFunction (hs : Sound s) (hn : s.diningFunction p = some t) : Sound t := by
  have hcount : Sound { s with count := Function.update s.count p (s.count p + 1) } :=
    ⟨hs.owned, hs.used, hs.alone, hs.taking⟩
  cases diningStep hn with
  | lock w hpc hfree =>
      have hholds : (Pc.test w).holds = (Pc.lock w).holds := by cases w <;> exact holds_ext rfl rfl
      exact hs.lockMutex hpc hholds rfl rfl (fun _ => Pc.noConfusion) hfree
  | sleep w hpc =>
      have hholds : (Pc.asleep w).holds = (Pc.test w).holds := by
        cases w <;> exact holds_ext rfl rfl
      exact hs.unlockMutex hpc hholds rfl rfl
  | found w hpc hstatus =>
      -- the fork is free, and the mutex keeps it so until it is taken
      have hholds : (Pc.take w).holds = (Pc.test w).holds := by
        cases w <;> exact holds_ext rfl rfl
      refine hs.goto hpc hholds rfl fun w' hw => ?_
      obtain rfl := Pc.take.inj hw
      exact hstatus
  | take w hpc => exact hs.take hpc
  | unlockFirst hpc => exact hs.unlockMutex hpc (holds_ext rfl rfl) rfl rfl
  | unlockSecond hpc => exact hs.unlockMutex hpc (holds_ext rfl rfl) rfl rfl
  | eat hpc => exact hs.goto hpc (holds_ext rfl rfl) rfl fun _ => Pc.noConfusion
  | relock w hpc hfree =>
      have hholds : (Pc.release w).holds = (Pc.relock w).holds := by
        cases w <;> exact holds_ext rfl rfl
      exact hs.lockMutex hpc hholds rfl rfl (fun _ => Pc.noConfusion) hfree
  | release w hpc => exact hs.release hpc
  | reunlock hpc => exact hs.unlockMutex hpc (holds_ext rfl rfl) rfl rfl
  | again hpc => exact hcount.unlockMutex hpc (holds_ext rfl rfl) rfl rfl
  | leave hpc => exact hcount.unlockMutex hpc (holds_ext rfl rfl) rfl rfl

theorem Sound.wakeUp (hs : Sound s) (hn : s.wakeUp p = some t) : Sound t := by
  unfold Table.wakeUp at hn
  cases hpc : s.pc p with
  | asleep w =>
      simp only [hpc, Option.some.injEq] at hn
      have hholds : (Pc.lock w).holds = (Pc.asleep w).holds := by
        cases w <;> exact holds_ext rfl rfl
      exact hn ▸ hs.goto hpc hholds rfl fun _ => Pc.noConfusion
  | _ => simp [hpc] at hn

theorem Sound.next (hs : Sound s) {a : Action m} (hn : (dining m).next s a = some t) :
    Sound t := by
  cases a with
  | run p => exact hs.diningFunction hn
  | signal p woken => exact hs.signalCondition hn
  | wake p => exact hs.wakeUp hn

theorem run_sound {tr : List (Table m × Action m)} (h : (dining m).Run tr s) : Sound s :=
  h.invariant (I := fun _ s => Sound s) (sound_start m) fun _ _ _ _ hs hn => hs.next hn

/-! ## §3  Neighbours do not eat together -/

def Pc.eats (c : Pc) : Bool := c.holds .first && c.holds .second

theorem holds_of_eats (h : (s.pc p).eats = true) : s.Holds p p ∧ s.Holds p (p + 1) := by
  obtain ⟨h1, h2⟩ := Bool.and_eq_true_iff.mp h
  have hw : ∀ w, s.Holds p (forkOf p w) := fun w => ⟨w, by cases w <;> assumption, rfl⟩
  have hlast : Fin.last (m + 1) + 1 = 0 := Fin.last_add_one _
  have hfirst := hw .first
  have hsecond := hw .second
  unfold forkOf at hfirst hsecond
  split_ifs at hfirst hsecond with hp
  · subst hp
    exact ⟨hsecond, hlast ▸ hfirst⟩
  · exact ⟨hfirst, hsecond⟩

/-- **A fork is used exactly when one philosopher has it, and neighbours never eat
at the same time**: in every reachable state, for any number of philosophers. -/
theorem fork_used_iff_held {tr : List (Table m × Action m)} (h : (dining m).Run tr s) :
    (∀ f, s.forkStatus f = .used ↔ ∃! p, s.Holds p f) ∧
    (∀ f p q, s.Holds p f → s.Holds q f → p = q) ∧
    ∀ p q, Neighbours p q → ¬ ((s.pc p).eats = true ∧ (s.pc q).eats = true) := by
  have hs := run_sound h
  refine ⟨fun f => ?_, hs.alone, fun p q hpq => ?_⟩
  · rw [hs.used f]
    constructor
    · rintro ⟨p, hp⟩
      exact ⟨p, hp, fun q hq => hs.alone f q p hq hp⟩
    · rintro ⟨p, hp, -⟩
      exact ⟨p, hp⟩
  · rintro ⟨hp, hq⟩
    have hne : ∀ r : Philosopher m, r + 1 ≠ r := fun r h => one_ne_zero (add_eq_left.mp h)
    rcases hpq with rfl | rfl
    · exact hne p (hs.alone (p + 1) p _ (holds_of_eats hp).2 (holds_of_eats hq).1).symm
    · exact hne q (hs.alone (q + 1) q _ (holds_of_eats hq).2 (holds_of_eats hp).1).symm

/-- Philosopher 0 of two eats. -/
theorem fork_used_iff_held_two : ∃ tr s, (dining 0).Run tr s ∧ s.pc 0 = .eat ∧
    (∀ f, s.forkStatus f = .used ↔ ∃! p, s.Holds p f) := by
  have h := (dining 0).run_of_replay (List.replicate 8 (.run 0)) rfl
  exact ⟨_, _, h, rfl, (fork_used_iff_held h).1⟩

end Sysopy.Philosophers
