import Mathlib.Data.Fintype.EquivFin
import Mathlib.Order.Fin.Basic
import Sysopy.Philosophers.Exclusion

/-!
# Progress of the dining philosophers

Only two philosophers use a fork, so the one that a signal wakes is the only one
that can sleep on its condition: no signal is lost. If nobody could go on, every
philosopher that is not done would sleep on a fork that another one has who
sleeps on a fork with a greater number.

## Sections

* §1 no signal is lost
* §2 no deadlock
-/

namespace Sysopy.Philosophers

open Sysopy.Foundation

variable {m : ℕ} {s t : Table m} {p q : Philosopher m} {w : Which} {c : Pc}

/-! ## §1  No signal is lost -/

/-- Who sleeps waits for a fork that is used or will be woken at once. -/
def Awaited (s : Table m) : Prop :=
  ∀ p w, s.pc p = .asleep w → s.forkStatus (forkOf p w) = .used ∨
    ∃ q w', s.pc q = .signal w' ∧ forkOf q w' = forkOf p w

theorem Awaited.move (ha : Awaited s) (ht : t.pc = Function.update s.pc p c)
    (hsignal : ∀ w, s.pc p ≠ .signal w)
    (hasleep : ∀ w, c = .asleep w → t.forkStatus (forkOf p w) = .used)
    (hstatus : ∀ f, s.forkStatus f = .used → t.forkStatus f = .used ∨
      ∃ w, c = .signal w ∧ forkOf p w = f) : Awaited t := by
  have hself : t.pc p = c := by
    rw [ht]
    exact Function.update_self ..
  intro q w hq
  by_cases hqp : q = p
  · subst hqp
    exact Or.inl (hasleep w (hself.symm.trans hq))
  · have hq' : s.pc q = .asleep w := by
      rwa [ht, Function.update_of_ne hqp] at hq
    rcases ha q w hq' with hused | ⟨r, w', hr, hf⟩
    · rcases hstatus _ hused with hused | ⟨w', hc, hf⟩
      · exact Or.inl hused
      · exact Or.inr ⟨p, w', hself.trans hc, hf⟩
    · have hrp : r ≠ p := by
        rintro rfl
        exact hsignal w' hr
      refine Or.inr ⟨r, w', ?_, hf⟩
      rw [ht, Function.update_of_ne hrp]
      exact hr

/-- A step sends nobody to sleep for a free fork and frees a fork only to signal
that next. -/
theorem Table.diningFunction_pc (hn : s.diningFunction p = some t) :
    ∃ c, t.pc = Function.update s.pc p c ∧ (∀ w, s.pc p ≠ .signal w) ∧
      (∀ w, c = .asleep w → t.forkStatus (forkOf p w) = .used) ∧
      ∀ f, s.forkStatus f = .used → t.forkStatus f = .used ∨
        ∃ w, c = .signal w ∧ forkOf p w = f := by
  cases diningStep hn with
  | sleep w hpc hused =>
      refine ⟨_, rfl, hpc ▸ fun _ => Pc.noConfusion, fun w' hw => ?_, fun f hf => Or.inl hf⟩
      obtain rfl := Pc.asleep.inj hw
      exact hused
  | take w hpc =>
      refine ⟨_, rfl, hpc ▸ fun _ => Pc.noConfusion, fun _ => Pc.noConfusion,
        fun f hf => Or.inl ?_⟩
      by_cases hfw : f = forkOf p w
      · rw [hfw]
        exact Function.update_self ..
      · exact (Function.update_of_ne hfw ..).trans hf
  | release w hpc =>
      refine ⟨_, rfl, hpc ▸ fun _ => Pc.noConfusion, fun _ => Pc.noConfusion, fun f hf => ?_⟩
      -- the only fork that becomes free is the one to signal
      by_cases hfw : f = forkOf p w
      · exact Or.inr ⟨w, rfl, hfw.symm⟩
      · exact Or.inl ((Function.update_of_ne hfw ..).trans hf)
  | lock w hpc | found w hpc | unlockFirst hpc | unlockSecond hpc | eat hpc | relock w hpc
  | reunlock hpc | again hpc | leave hpc =>
      exact ⟨_, rfl, hpc ▸ fun _ => Pc.noConfusion, fun _ => Pc.noConfusion,
        fun f hf => Or.inl hf⟩

/-- The only other philosopher at the fork is woken by the signal. -/
theorem Awaited.signalCondition (ha : Awaited s) {woken : Finset (Philosopher m)}
    (hn : s.signalCondition p woken = some t) : Awaited t := by
  unfold Table.signalCondition at hn
  cases hpc : s.pc p with
  | signal w =>
      simp only [hpc] at hn
      split_ifs at hn with hwoken
      obtain rfl := Option.some.inj hn
      intro q w' hq
      have hqp : q ≠ p := by
        rintro rfl
        exact Pc.noConfusion ((if_pos rfl).symm.trans hq)
      dsimp only [Table.afterSignal] at hq
      rw [if_neg hqp] at hq
      have hnot : q ∉ woken := by
        intro hmem
        rw [if_pos hmem] at hq
        cases hpc' : s.pc q <;> rw [hpc'] at hq <;> exact Pc.noConfusion hq
      rw [if_neg hnot] at hq
      rcases ha q w' hq with hused | ⟨r, w'', hr, hf⟩
      · exact Or.inl hused
      · by_cases hrp : r = p
        · -- the signal was for `q`, and nobody else sleeps there
          subst hrp
          obtain rfl := Pc.signal.inj (hpc.symm.trans hr)
          have hsleeps : q ∈ s.sleepers (forkOf r w) := by
            simp [Table.sleepers, Table.SleepsOn, hq, hf]
          obtain ⟨x, hx⟩ := hwoken.2 ⟨q, hsleeps⟩
          have hxsleeps : s.SleepsOn (forkOf r w) x := by
            simpa [Table.sleepers] using hwoken.1 hx
          unfold Table.SleepsOn at hxsleeps
          split at hxsleeps
          · rename_i v hv
            rcases two_of_fork (f := forkOf r w) rfl hf.symm hxsleeps with h | h | h
            · exact absurd h.symm hqp
            · exact absurd (h ▸ hx) hnot
            · subst h
              exact Pc.noConfusion (hpc.symm.trans hv)
          · exact hxsleeps.elim
        · refine Or.inr ⟨r, w'', ?_, hf⟩
          dsimp only [Table.afterSignal]
          rw [if_neg hrp, hr]
          split_ifs <;> rfl
  | _ => simp [hpc] at hn

theorem Awaited.next (ha : Awaited s) {a : Action m} (hn : (dining m).next s a = some t) :
    Awaited t := by
  cases a with
  | run p =>
      obtain ⟨c, ht, hsignal, hasleep, hstatus⟩ := Table.diningFunction_pc hn
      exact ha.move ht hsignal hasleep hstatus
  | signal p woken => exact ha.signalCondition hn
  | wake p =>
      change s.wakeUp p = some t at hn
      unfold Table.wakeUp at hn
      cases hpc : s.pc p with
      | asleep w =>
          simp only [hpc, Option.some.injEq] at hn
          subst hn
          refine ha.move (p := p) rfl ?_ (fun _ => Pc.noConfusion) fun f hf => Or.inl hf
          rw [hpc]
          exact fun _ => Pc.noConfusion
      | _ => simp [hpc] at hn

theorem run_awaited {tr : List (Table m × Action m)} (h : (dining m).Run tr s) : Awaited s :=
  h.invariant (I := fun _ s => Awaited s) (fun _ _ h => Pc.noConfusion h)
    fun _ _ _ _ ha hn => ha.next hn

/-! ## §2  No deadlock -/

/-- A wake-up without a signal is no progress. -/
def Action.spurious : Action m → Bool
  | .wake _ => true
  | _ => false

/-- Some philosopher can take a step that is no spurious wake-up. -/
def CanStep (s : Table m) : Prop :=
  ∃ a : Action m, a.spurious = false ∧ ((dining m).next s a).isSome

theorem canStep_inside {f : Fork m} (h : s.inside p = some f) : CanStep s := by
  cases hpc : s.pc p with
  | test w =>
      refine ⟨.run p, rfl, ?_⟩
      simp only [dining, Table.diningFunction, hpc]
      split_ifs <;> rfl
  | take w => exact ⟨.run p, rfl, by simp [dining, Table.diningFunction, hpc]⟩
  | unlock w => exact ⟨.run p, rfl, by cases w <;> simp [dining, Table.diningFunction, hpc]⟩
  | release w => exact ⟨.run p, rfl, by simp [dining, Table.diningFunction, hpc]⟩
  | signal w =>
      refine ⟨.signal p (s.sleepers (forkOf p w)), rfl, ?_⟩
      simp [dining, Table.signalCondition, hpc]
  | reunlock w => exact ⟨.run p, rfl, by cases w <;> simp [dining, Table.diningFunction, hpc]⟩
  | _ => simp [Table.inside, Pc.inside, hpc] at h

/-- A philosopher in no critical section can go on, or sleeps, or is done. -/
theorem canStep_outside (hfree : ∀ f, s.forkMutex f = none) (hdone : s.pc p ≠ .done)
    (hasleep : ∀ w, s.pc p ≠ .asleep w) (hin : s.inside p = none) : CanStep s := by
  refine ⟨.run p, rfl, ?_⟩
  cases hpc : s.pc p with
  | lock w => simp [dining, Table.diningFunction, hpc, Table.lockMutex, hfree]
  | eat => simp [dining, Table.diningFunction, hpc]
  | relock w => simp [dining, Table.diningFunction, hpc, Table.lockMutex, hfree]
  | asleep w => exact absurd hpc (hasleep w)
  | done => exact absurd hpc hdone
  | _ => simp [Table.inside, Pc.inside, hpc] at hin

/-- **No deadlock**: as long as a philosopher is not done somebody can go on. -/
theorem Sound.canStep (hs : Sound s) (ha : Awaited s) (hdone : s.pc p ≠ .done) : CanStep s := by
  by_contra hno
  have hout : ∀ q, s.inside q = none := by
    intro q
    by_contra hin
    obtain ⟨f, hf⟩ := Option.ne_none_iff_exists'.mp hin
    exact hno (canStep_inside hf)
  have hfree : ∀ f, s.forkMutex f = none := fun f =>
    hs.owned.eq_none fun q => hout q ▸ (Option.some_ne_none f).symm
  have hasleep : ∀ q, s.pc q ≠ .done → ∃ w, s.pc q = .asleep w := by
    intro q hq
    by_contra hawake
    push Not at hawake
    exact hno (canStep_outside hfree hq hawake (hout q))
  -- from fork to fork with a greater number
  have hnobody : ∀ f q w, s.pc q = .asleep w → forkOf q w ≠ f := by
    intro f
    induction f using WellFoundedGT.induction with
    | ind f ih =>
        intro q w hq hf
        rcases ha q w hq with hused | ⟨r, w', hr, -⟩
        · obtain ⟨r, w', hw', hr⟩ := (hs.used _).mp hused
          have hrdone : s.pc r ≠ .done := by
            intro h
            rw [h] at hw'
            exact Bool.noConfusion hw'
          obtain ⟨v, hv⟩ := hasleep r hrdone
          rw [hv] at hw'
          cases v <;> cases w' <;> first | exact Bool.noConfusion hw' | skip
          refine ih (forkOf r .second) ?_ r .second hv rfl
          rw [← hf, ← hr]
          exact first_lt_second r
        · have hin := hout r
          simp [Table.inside, Pc.inside, hr] at hin
  obtain ⟨w, hw⟩ := hasleep p hdone
  exact hnobody _ p w hw rfl

/-- **No deadlock and no lost wake-up**, in every reachable state and for any number
of philosophers: as long as one is not done some thread can take a step that is no
spurious wake-up, and who sleeps on the condition of a free fork is about to be
woken by the owner of its mutex. -/
theorem no_deadlock_no_lost_signal {tr : List (Table m × Action m)} (h : (dining m).Run tr s) :
    ((∃ p, s.pc p ≠ .done) → CanStep s) ∧
    ∀ p w, s.pc p = .asleep w → s.forkStatus (forkOf p w) = .free →
      ∃ q w', s.pc q = .signal w' ∧ forkOf q w' = forkOf p w ∧
        s.forkMutex (forkOf p w) = some q := by
  have hs := run_sound h
  have ha := run_awaited h
  constructor
  · rintro ⟨p, hp⟩
    exact hs.canStep ha hp
  · intro p w hp hfree
    rcases ha p w hp with hused | ⟨q, w', hq, hf⟩
    · exact ForkStatus.noConfusion (hfree.symm.trans hused)
    · refine ⟨q, w', hq, hf, (hs.owned _ _).mpr ?_⟩
      rw [← hf]
      exact inside_of_pc (by rw [hq]; rfl)

/-- Philosopher 1 of two finds fork 0 used and sleeps; philosopher 0 can go on. -/
theorem no_deadlock_no_lost_signal_two : ∃ tr s, (dining 0).Run tr s ∧
    s.pc 1 = .asleep .first ∧ CanStep s := by
  have h := (dining 0).run_of_replay (List.replicate 4 (.run 0) ++ [.run 1, .run 1]) rfl
  exact ⟨_, _, h, rfl, (no_deadlock_no_lost_signal h).1 ⟨1, Pc.noConfusion⟩⟩

end Sysopy.Philosophers
