import Mathlib.Algebra.Group.Fin.Basic
import Mathlib.Data.Fintype.Basic
import Mathlib.Data.Fin.Basic
import Sysopy.Foundation.Mutex
import Sysopy.Foundation.System

/-!
# The dining philosophers

Every fork has a status, a mutex for it and a condition on which a philosopher
sleeps who finds the fork used. A philosopher takes the fork with its own number
and then the next one; the last philosopher takes fork 0 first, so that every
philosopher takes the fork with the smaller number first.

A signal wakes at least one of the philosophers that sleep on the condition, if
there are any, and any of them may wake up without a signal. The calls of
`pthread` do not fail.

## Sections

* §1 philosophers and forks
* §2 one step
* §3 what a step can do
* §4 the order of the forks
-/

namespace Sysopy.Philosophers

open Sysopy.Foundation

/-! ## §1  Philosophers and forks -/

/-- There are `m + 2` philosophers, and so `NUM_PHILOSOPHERS` is any number from
2 on. -/
abbrev Philosopher (m : ℕ) := Fin (m + 2)

abbrev Fork (m : ℕ) := Fin (m + 2)

def coursesToEat : ℕ := 10

/-- `FORK_FREE` and `FORK_USED` -/
inductive ForkStatus
  | free
  | used
deriving DecidableEq

inductive Which
  | first
  | second
deriving DecidableEq

/-- `first_fork` and `second_fork` of `dining_function`. -/
def forkOf {m : ℕ} (myId : Philosopher m) : Which → Fork m
  | .first => if myId = Fin.last (m + 1) then 0 else myId
  | .second => if myId = Fin.last (m + 1) then myId else myId + 1

def Neighbours {m : ℕ} (p q : Philosopher m) : Prop := q = p + 1 ∨ p = q + 1

inductive Pc
  /-- before `lock_mutex`, or woken in `wait_condition` and without the mutex -/
  | lock (w : Which)
  /-- before the test of `fork_status` -/
  | test (w : Which)
  /-- asleep in `wait_condition` -/
  | asleep (w : Which)
  /-- before the store of `FORK_USED` -/
  | take (w : Which)
  /-- before `unlock_mutex`, with the fork -/
  | unlock (w : Which)
  /-- before or after "is now eating" -/
  | eat
  /-- before `lock_mutex`, to release the fork -/
  | relock (w : Which)
  /-- before the store of `FORK_FREE` -/
  | release (w : Which)
  /-- before `signal_condition` -/
  | signal (w : Which)
  /-- before `unlock_mutex`, without the fork -/
  | reunlock (w : Which)
  | done
deriving DecidableEq

/-- The fork whose mutex the philosopher has. -/
def Pc.inside : Pc → Option Which
  | .test w | .take w | .unlock w | .release w | .signal w | .reunlock w => some w
  | _ => none

/-- The philosopher has stored `FORK_USED` for the fork and not yet `FORK_FREE`. -/
def Pc.holds : Pc → Which → Bool
  | .unlock _, .first | .eat, _ | .relock .first, _ | .release .first, _ => true
  | .lock .second, .first | .test .second, .first | .asleep .second, .first => true
  | .take .second, .first | .unlock .second, .second => true
  | .signal .first, .second | .reunlock .first, .second => true
  | .relock .second, .second | .release .second, .second => true
  | _, _ => false

/-! ## §2  One step -/

structure Table (m : ℕ) where
  forkStatus : Fork m → ForkStatus
  forkMutex : Fork m → Option (Philosopher m)
  pc : Philosopher m → Pc
  /-- the courses eaten -/
  count : Philosopher m → ℕ

inductive Action (m : ℕ)
  /-- the next step of a philosopher, a signal apart -/
  | run (p : Philosopher m)
  /-- `signal_condition` and whom it wakes -/
  | signal (p : Philosopher m) (woken : Finset (Philosopher m))
  /-- a spurious wake-up -/
  | wake (p : Philosopher m)

namespace Table

variable {m : ℕ}

def goto (s : Table m) (p : Philosopher m) (c : Pc) : Table m :=
  { s with pc := Function.update s.pc p c }

/-- `lock_mutex`, which waits for a free mutex. -/
def lockMutex (s : Table m) (p : Philosopher m) (w : Which) (c : Pc) : Option (Table m) :=
  if s.forkMutex (forkOf p w) = none then
    some { s.goto p c with forkMutex := Function.update s.forkMutex (forkOf p w) (some p) }
  else none

def unlockMutex (s : Table m) (p : Philosopher m) (w : Which) (c : Pc) : Table m :=
  { s.goto p c with forkMutex := Function.update s.forkMutex (forkOf p w) none }

/-- A store into `fork_status`. -/
def setStatus (s : Table m) (p : Philosopher m) (w : Which) (status : ForkStatus) (c : Pc) :
    Table m :=
  { s.goto p c with forkStatus := Function.update s.forkStatus (forkOf p w) status }

/-- The head of the loop over the courses. -/
def nextCourse (s : Table m) (p : Philosopher m) : Table m :=
  let s := { s with count := Function.update s.count p (s.count p + 1) }
  if s.count p < coursesToEat then s.unlockMutex p .second (.lock .first)
  else s.unlockMutex p .second .done

def diningFunction (s : Table m) (p : Philosopher m) : Option (Table m) :=
  match s.pc p with
  | .lock w => s.lockMutex p w (.test w)
  | .test w =>
      if s.forkStatus (forkOf p w) = .used then some (s.unlockMutex p w (.asleep w))
      else some (s.goto p (.take w))
  | .asleep _ => none
  | .take w => some (s.setStatus p w .used (.unlock w))
  | .unlock .first => some (s.unlockMutex p .first (.lock .second))
  | .unlock .second => some (s.unlockMutex p .second .eat)
  | .eat => some (s.goto p (.relock .first))
  | .relock w => s.lockMutex p w (.release w)
  | .release w => some (s.setStatus p w .free (.signal w))
  | .signal _ => none
  | .reunlock .first => some (s.unlockMutex p .first (.relock .second))
  | .reunlock .second => some (s.nextCourse p)
  | .done => none

def SleepsOn (s : Table m) (f : Fork m) (p : Philosopher m) : Prop :=
  match s.pc p with
  | .asleep w => forkOf p w = f
  | _ => False

instance (s : Table m) (f : Fork m) (p : Philosopher m) : Decidable (s.SleepsOn f p) := by
  unfold SleepsOn
  split <;> infer_instance

def sleepers (s : Table m) (f : Fork m) : Finset (Philosopher m) :=
  Finset.univ.filter (s.SleepsOn f)

end Table

/-- A philosopher that is woken has to get the mutex again. -/
def Pc.woken : Pc → Pc
  | .asleep w => .lock w
  | c => c

def Table.afterSignal {m : ℕ} (s : Table m) (p : Philosopher m) (w : Which)
    (woken : Finset (Philosopher m)) (q : Philosopher m) : Pc :=
  if q = p then .reunlock w else if q ∈ woken then (s.pc q).woken else s.pc q

/-- `signal_condition`, which wakes at least one philosopher if any sleeps. -/
def Table.signalCondition {m : ℕ} (s : Table m) (p : Philosopher m)
    (woken : Finset (Philosopher m)) : Option (Table m) :=
  match s.pc p with
  | .signal w =>
      if woken ⊆ s.sleepers (forkOf p w) ∧
          ((s.sleepers (forkOf p w)).Nonempty → woken.Nonempty) then
        some { s with pc := s.afterSignal p w woken }
      else none
  | _ => none

def Table.wakeUp {m : ℕ} (s : Table m) (p : Philosopher m) : Option (Table m) :=
  match s.pc p with
  | .asleep w => some (s.goto p (.lock w))
  | _ => none

def dining (m : ℕ) : System (Table m) (Action m) where
  init :=
    { forkStatus := fun _ => .free
      forkMutex := fun _ => none
      pc := fun _ => .lock .first
      count := fun _ => 0 }
  next s a :=
    match a with
    | .run p => s.diningFunction p
    | .signal p woken => s.signalCondition p woken
    | .wake p => s.wakeUp p

/-! ## §3  What a step can do -/

/-- The steps of a philosopher, with the branch that each of them takes. -/
inductive DiningStep {m : ℕ} (s : Table m) (p : Philosopher m) : Table m → Prop
  | lock (w : Which) : s.pc p = .lock w → s.forkMutex (forkOf p w) = none →
      DiningStep s p { s.goto p (.test w) with
        forkMutex := Function.update s.forkMutex (forkOf p w) (some p) }
  | sleep (w : Which) : s.pc p = .test w → s.forkStatus (forkOf p w) = .used →
      DiningStep s p (s.unlockMutex p w (.asleep w))
  | found (w : Which) : s.pc p = .test w → s.forkStatus (forkOf p w) = .free →
      DiningStep s p (s.goto p (.take w))
  | take (w : Which) : s.pc p = .take w → DiningStep s p (s.setStatus p w .used (.unlock w))
  | unlockFirst : s.pc p = .unlock .first →
      DiningStep s p (s.unlockMutex p .first (.lock .second))
  | unlockSecond : s.pc p = .unlock .second → DiningStep s p (s.unlockMutex p .second .eat)
  | eat : s.pc p = .eat → DiningStep s p (s.goto p (.relock .first))
  | relock (w : Which) : s.pc p = .relock w → s.forkMutex (forkOf p w) = none →
      DiningStep s p { s.goto p (.release w) with
        forkMutex := Function.update s.forkMutex (forkOf p w) (some p) }
  | release (w : Which) : s.pc p = .release w →
      DiningStep s p (s.setStatus p w .free (.signal w))
  | reunlock : s.pc p = .reunlock .first →
      DiningStep s p (s.unlockMutex p .first (.relock .second))
  | again : s.pc p = .reunlock .second → s.count p + 1 < coursesToEat →
      DiningStep s p (({ s with count := Function.update s.count p (s.count p + 1) }).unlockMutex
        p .second (.lock .first))
  | leave : s.pc p = .reunlock .second → coursesToEat ≤ s.count p + 1 →
      DiningStep s p (({ s with count := Function.update s.count p (s.count p + 1) }).unlockMutex
        p .second .done)

theorem diningStep {m : ℕ} {s t : Table m} {p : Philosopher m}
    (hn : s.diningFunction p = some t) : DiningStep s p t := by
  unfold Table.diningFunction at hn
  cases hpc : s.pc p with
  | lock w =>
      simp only [hpc, Table.lockMutex] at hn
      split_ifs at hn with hfree
      exact Option.some.inj hn ▸ .lock w hpc hfree
  | test w =>
      simp only [hpc] at hn
      cases hstatus : s.forkStatus (forkOf p w) with
      | used =>
          rw [if_pos hstatus] at hn
          exact Option.some.inj hn ▸ .sleep w hpc hstatus
      | free =>
          rw [if_neg (by rw [hstatus]; exact nofun)] at hn
          exact Option.some.inj hn ▸ .found w hpc hstatus
  | asleep w => simp [hpc] at hn
  | take w =>
      simp only [hpc, Option.some.injEq] at hn
      exact hn ▸ .take w hpc
  | unlock w =>
      cases w with
      | first =>
          simp only [hpc, Option.some.injEq] at hn
          exact hn ▸ .unlockFirst hpc
      | second =>
          simp only [hpc, Option.some.injEq] at hn
          exact hn ▸ .unlockSecond hpc
  | eat =>
      simp only [hpc, Option.some.injEq] at hn
      exact hn ▸ .eat hpc
  | relock w =>
      simp only [hpc, Table.lockMutex] at hn
      split_ifs at hn with hfree
      exact Option.some.inj hn ▸ .relock w hpc hfree
  | release w =>
      simp only [hpc, Option.some.injEq] at hn
      exact hn ▸ .release w hpc
  | signal w => simp [hpc] at hn
  | reunlock w =>
      cases w with
      | first =>
          simp only [hpc, Option.some.injEq] at hn
          exact hn ▸ .reunlock hpc
      | second =>
          simp only [hpc, Option.some.injEq, Table.nextCourse, Function.update_self] at hn
          subst hn
          split_ifs with hmore
          · exact .again hpc hmore
          · exact .leave hpc (Nat.not_lt.mp hmore)
  | done => simp [hpc] at hn

/-! ## §4  The order of the forks -/

section Order

variable {m : ℕ} {f : Fork m} {p q r : Philosopher m}

/-- **Every philosopher takes the fork with the smaller number first.** -/
theorem first_lt_second (p : Philosopher m) : forkOf p .first < forkOf p .second := by
  unfold forkOf
  split_ifs with hp
  · rw [hp]
    exact Fin.last_pos
  · exact Fin.lt_add_one_iff.mpr (Fin.lt_last_iff_ne_last.mpr hp)

theorem forkOf_injective (p : Philosopher m) {w w' : Which} (h : forkOf p w = forkOf p w') :
    w = w' := by
  have hlt := first_lt_second p
  cases w <;> cases w'
  · rfl
  · exact absurd h hlt.ne
  · exact absurd h hlt.ne'
  · rfl

/-- A fork lies to the one or the other side of a philosopher that uses it. -/
theorem forkOf_cases (p : Philosopher m) (w : Which) : forkOf p w = p ∨ forkOf p w = p + 1 := by
  have hlast : Fin.last (m + 1) + 1 = 0 := Fin.last_add_one _
  cases w <;> unfold forkOf <;> split_ifs with hp
  · exact Or.inr (by rw [hp, hlast])
  · exact Or.inl rfl
  · exact Or.inl rfl
  · exact Or.inr rfl

/-- Of three philosophers with a fork in common two are the same. -/
theorem two_of_fork {w w' w'' : Which} (hp : forkOf p w = f) (hq : forkOf q w' = f)
    (hr : forkOf r w'' = f) : p = q ∨ q = r ∨ p = r := by
  have hside : ∀ {p : Philosopher m} {w : Which}, forkOf p w = f → p = f ∨ p + 1 = f := by
    intro p w hf
    rcases forkOf_cases p w with h | h
    · exact Or.inl (h.symm.trans hf)
    · exact Or.inr (h.symm.trans hf)
  rcases hside hp with h | h <;> rcases hside hq with h' | h'
  · exact Or.inl (h.trans h'.symm)
  · rcases hside hr with h'' | h''
    · exact Or.inr (Or.inr (h.trans h''.symm))
    · exact Or.inr (Or.inl (add_right_cancel (h'.trans h''.symm)))
  · rcases hside hr with h'' | h''
    · exact Or.inr (Or.inl (h'.trans h''.symm))
    · exact Or.inr (Or.inr (add_right_cancel (h.trans h''.symm)))
  · exact Or.inl (add_right_cancel (h.trans h'.symm))

end Order

end Sysopy.Philosophers
