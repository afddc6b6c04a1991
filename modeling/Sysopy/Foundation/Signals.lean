import Mathlib.Data.Fintype.Basic
import Mathlib.Data.List.Count
import Mathlib.Logic.Function.Basic
import Mathlib.Order.Basic
import Mathlib.Order.Defs.LinearOrder
import Mathlib.Order.WellFounded

/-!
# Signals of a process

Signals are sent to a process and stay pending until they are delivered. A delivered
signal interrupts the process with a frame of its handler, which is named by the
statement that it executes next. A frame blocks some signals until it returns, and the
others may interrupt it too. Of the signals that could be delivered the one with the
lowest number is.

A standard signal is pending at most once, so that further ones merge with it; real-time
signals are queued.

## Sections

* §1 pending signals and handlers
* §2 how often a statement is still to be executed
* §3 nothing is invented, and not all is lost
* §4 two signals, and a loop that waits for them
-/

namespace Sysopy.Foundation

/-! ## §1  Pending signals and handlers -/

/-- What becomes of a signal that is pending already. -/
inductive Discipline
  | merged
  | queued
deriving DecidableEq

def Discipline.post : Discipline → ℕ → ℕ
  | .merged, _ => 1
  | .queued, k => k + 1

theorem Discipline.post_le (d : Discipline) (k : ℕ) : d.post k ≤ k + 1 := by
  cases d with
  | merged => exact Nat.succ_le_succ (Nat.zero_le k)
  | queued => exact Nat.le_refl _

theorem Discipline.post_pos (d : Discipline) (k : ℕ) : 0 < d.post k := by
  cases d with
  | merged => exact Nat.one_pos
  | queued => exact Nat.succ_pos k

theorem Discipline.post_zero (d : Discipline) : d.post 0 = 1 := by cases d <;> rfl

structure Inbox (S F : Type*) where
  /-- the instances of each signal that are pending -/
  pending : S → ℕ
  /-- the handlers that run, the innermost first -/
  frames : List F

namespace Inbox

variable {S F : Type*} {i j : Inbox S F} {sig sig' : S} {f g g' : F} {fs : List F}
  {d : Discipline} {blocks : F → S → Bool}

def empty : Inbox S F where
  pending := fun _ => 0
  frames := []

/-- A running handler blocks the signal. -/
def Blocked (blocks : F → S → Bool) (i : Inbox S F) (sig : S) : Prop :=
  i.frames.any (blocks · sig) = true

instance : Decidable (i.Blocked blocks sig) :=
  inferInstanceAs (Decidable (_ = true))

/-- No handler runs and no signal is pending: the interrupted code may go on. -/
def Quiet (i : Inbox S F) : Prop := i.frames.isEmpty = true ∧ ∀ sig, i.pending sig = 0

instance [Fintype S] : Decidable i.Quiet :=
  inferInstanceAs (Decidable (i.frames.isEmpty = true ∧ ∀ sig, i.pending sig = 0))

/-- The innermost handler goes on to another statement. -/
def goOn (i : Inbox S F) (f : F) : Inbox S F := { i with frames := f :: i.frames.tail }

/-- The innermost handler returns. -/
def leave (i : Inbox S F) : Inbox S F := { i with frames := i.frames.tail }

variable [LinearOrder S]

/-- `kill` -/
def post (d : Discipline) (i : Inbox S F) (sig : S) : Inbox S F :=
  { i with pending := Function.update i.pending sig (d.post (i.pending sig)) }

/-- The signal is pending and not blocked, and no signal with a lower number is so. -/
def Deliverable (blocks : F → S → Bool) (i : Inbox S F) (sig : S) : Prop :=
  0 < i.pending sig ∧ ¬i.Blocked blocks sig ∧
    ∀ sig', sig' < sig → i.pending sig' = 0 ∨ i.Blocked blocks sig'

instance [Fintype S] : Decidable (i.Deliverable blocks sig) :=
  inferInstanceAs (Decidable (0 < i.pending sig ∧ ¬i.Blocked blocks sig ∧
    ∀ sig', sig' < sig → i.pending sig' = 0 ∨ i.Blocked blocks sig'))

/-- A process without a running handler takes the first of its signals. -/
theorem exists_deliverable [WellFoundedLT S] (blocks : F → S → Bool)
    (hframes : i.frames = []) (hpending : ∃ sig, 0 < i.pending sig) :
    ∃ sig, i.Deliverable blocks sig := by
  have hfree : ∀ sig, ¬ i.Blocked blocks sig := by
    intro sig hblocked
    rw [Blocked, hframes] at hblocked
    exact Bool.false_ne_true hblocked
  obtain ⟨sig, hsig, hfirst⟩ := wellFounded_lt.has_min {sig | 0 < i.pending sig} hpending
  refine ⟨sig, hsig, hfree sig, fun sig' hlt => Or.inl ?_⟩
  by_contra hne
  exact hfirst sig' (Nat.pos_of_ne_zero hne) hlt

/-- A process that runs no handler and can take no signal has none. -/
theorem quiet_of_not_deliverable [WellFoundedLT S] (blocks : F → S → Bool)
    (hframes : i.frames = []) (hdeliver : ∀ sig, ¬ i.Deliverable blocks sig) : i.Quiet := by
  refine ⟨List.isEmpty_iff.mpr hframes, fun sig => ?_⟩
  by_contra hpending
  obtain ⟨sig', hsig⟩ := exists_deliverable blocks hframes ⟨sig, Nat.pos_of_ne_zero hpending⟩
  exact hdeliver sig' hsig

theorem Quiet.not_deliverable (h : i.Quiet) (sig : S) : ¬ i.Deliverable blocks sig :=
  fun hsig => absurd (h.2 sig) hsig.1.ne'

/-- The signal interrupts the process, and its handler is to begin with `f`. -/
def take (i : Inbox S F) (sig : S) (f : F) : Inbox S F where
  pending := Function.update i.pending sig (i.pending sig - 1)
  frames := f :: i.frames

/-! ## §2  How often a statement is still to be executed -/

theorem post_pending_self : (i.post d sig).pending sig = d.post (i.pending sig) :=
  Function.update_self ..

theorem post_pending_of_ne (h : sig ≠ sig') : (i.post d sig').pending sig = i.pending sig :=
  Function.update_of_ne h ..

theorem take_pending_self : (i.take sig f).pending sig = i.pending sig - 1 :=
  Function.update_self ..

theorem take_pending_of_ne (h : sig ≠ sig') : (i.take sig' f).pending sig = i.pending sig :=
  Function.update_of_ne h ..

omit [LinearOrder S] in
theorem Quiet.frames_eq (h : i.Quiet) : i.frames = [] := List.isEmpty_iff.mp h.1

variable [DecidableEq F]

/-- How many handlers have got to `f`. -/
def running (i : Inbox S F) (f : F) : ℕ := i.frames.count f

/-- The instances that are pending, and those whose handler has got to `f`. -/
def due (i : Inbox S F) (sig : S) (f : F) : ℕ := i.pending sig + i.running f

section Running

omit [LinearOrder S]

theorem Quiet.running (h : i.Quiet) (f : F) : i.running f = 0 := by
  rw [Inbox.running, h.frames_eq, List.count_nil]

theorem Quiet.due (h : i.Quiet) (sig : S) (f : F) : i.due sig f = 0 := by
  rw [Inbox.due, h.2 sig, h.running]

theorem running_leave_self (h : i.frames = f :: fs) : i.leave.running f + 1 = i.running f := by
  rw [running, running, leave, h, List.count_cons_self, List.tail_cons]

theorem running_leave_of_ne (h : i.frames = g :: fs) (hf : f ≠ g) :
    i.leave.running f = i.running f := by
  rw [running, running, leave, h, List.count_cons_of_ne hf.symm, List.tail_cons]

theorem running_ne_zero (h : i.frames = f :: fs) : i.running f ≠ 0 := by
  rw [← running_leave_self h]
  exact Nat.succ_ne_zero _

theorem due_leave_self (sig : S) (h : i.frames = f :: fs) :
    i.leave.due sig f + 1 = i.due sig f := by
  rw [due, due, ← running_leave_self h, Nat.add_assoc]
  rfl

theorem due_leave_of_ne (sig : S) (h : i.frames = g :: fs) (hf : f ≠ g) :
    i.leave.due sig f = i.due sig f := by
  rw [due, due, running_leave_of_ne h hf]
  rfl

/-- A statement has been executed, and the handler goes on with another one. -/
theorem running_goOn_self (h : i.frames = g :: fs) (hf : f ≠ g) :
    (i.goOn f).running f = i.running f + 1 := by
  rw [← running_leave_of_ne h hf]
  exact List.count_cons_self

theorem running_goOn_of_ne (h : i.frames = g :: fs) (hf : f ≠ g) (hf' : f ≠ g') :
    (i.goOn g').running f = i.running f := by
  rw [← running_leave_of_ne h hf]
  exact List.count_cons_of_ne hf'.symm

theorem due_goOn_self (sig : S) (h : i.frames = f :: fs) (hf : f ≠ g) :
    (i.goOn g).due sig f + 1 = i.due sig f := by
  rw [← due_leave_self sig h, due, due]
  exact congrArg (fun k => i.pending sig + k + 1) (List.count_cons_of_ne hf.symm)

theorem due_goOn_of_ne (sig : S) (h : i.frames = g :: fs) (hf : f ≠ g) (hf' : f ≠ g') :
    (i.goOn g').due sig f = i.due sig f := by
  rw [due, due, running_goOn_of_ne h hf hf']
  rfl

end Running

@[simp] theorem running_post : (i.post d sig).running f = i.running f := rfl

theorem running_take_self : (i.take sig f).running f = i.running f + 1 := List.count_cons_self

theorem running_take_of_ne (i : Inbox S F) (sig : S) (hf : f ≠ g) :
    (i.take sig g).running f = i.running f :=
  List.count_cons_of_ne hf.symm

theorem due_post_of_ne (h : sig ≠ sig') : (i.post d sig').due sig f = i.due sig f := by
  rw [due, post_pending_of_ne h, running_post, due]

theorem due_post_le (sig : S) : (i.post d sig).due sig f ≤ i.due sig f + 1 := by
  have := d.post_le (i.pending sig)
  rw [due, post_pending_self, running_post, due]
  omega

theorem due_post_pos : 0 < (i.post d sig).due sig f := by
  have := d.post_pos (i.pending sig)
  rw [due, post_pending_self]
  omega

theorem due_post_queued : (i.post .queued sig).due sig f = i.due sig f + 1 := by
  rw [due, post_pending_self, running_post, due, Discipline.post]
  omega

theorem due_post_of_eq_zero (h : i.pending sig = 0) :
    (i.post d sig).due sig f = i.due sig f + 1 := by
  rw [due, post_pending_self, running_post, due, h, d.post_zero]
  omega

theorem due_take_self (h : 0 < i.pending sig) : (i.take sig f).due sig f = i.due sig f := by
  rw [due, due, take_pending_self, running_take_self]
  omega

theorem due_take_of_ne (i : Inbox S F) (h : sig ≠ sig') (hf : f ≠ g) :
    (i.take sig' g).due sig f = i.due sig f := by
  rw [due, due, take_pending_of_ne h, running_take_of_ne i sig' hf]

end Inbox

/-! ## §3  Nothing is invented, and not all is lost -/

/-- `total` of `sent` signals have been received or still will be: some may have merged,
but not all of them; when they are queued, none is lost. -/
structure Carries (d : Discipline) (total sent : ℕ) : Prop where
  le : total ≤ sent
  pos : 0 < sent → 0 < total
  eq : d = .queued → total = sent

theorem Carries.of_eq {d : Discipline} {total sent total' : ℕ} (h : Carries d total sent)
    (heq : total' = total) : Carries d total' sent :=
  heq ▸ h

theorem carries_zero {d : Discipline} : Carries d 0 0 := ⟨Nat.le_refl 0, id, fun _ => rfl⟩

theorem Carries.post {S F : Type*} [LinearOrder S] [DecidableEq F] {d : Discipline}
    {i : Inbox S F} {sig : S} {f : F} {n sent : ℕ} (h : Carries d (n + i.due sig f) sent) :
    Carries d (n + (i.post d sig).due sig f) (sent + 1) where
  le := by
    have hle := h.le
    have hpost := Inbox.due_post_le (i := i) (f := f) (d := d) sig
    omega
  pos := fun _ => Nat.add_pos_right n Inbox.due_post_pos
  eq := by
    rintro rfl
    rw [Inbox.due_post_queued, ← Nat.add_assoc, h.eq rfl]

/-! ## §4  Two signals, and a loop that waits for them -/

/-- `SIGUSR1` and `SIGUSR2`, or two real-time signals. -/
inductive Usr
  | usr1
  | usr2
deriving DecidableEq

namespace Usr

def number : Usr → ℕ
  | .usr1 => 1
  | .usr2 => 2

theorem number_injective : Function.Injective number
  | .usr1, .usr1, _ => rfl
  | .usr1, .usr2, h => absurd h (by decide)
  | .usr2, .usr1, h => absurd h (by decide)
  | .usr2, .usr2, _ => rfl

instance : LinearOrder Usr := LinearOrder.lift' number number_injective

instance : Fintype Usr where
  elems := {usr1, usr2}
  complete
    | .usr1 => by decide
    | .usr2 => by decide

end Usr

/-- Where a process is in `while(!flag) pause();`, or with `sigsuspend`. -/
inductive Stage
  /-- before the test of the flag -/
  | test
  /-- before the call -/
  | call
  /-- in the call, until a handler has run -/
  | blocked
deriving DecidableEq

end Sysopy.Foundation
