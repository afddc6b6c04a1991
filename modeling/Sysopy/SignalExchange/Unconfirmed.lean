import Sysopy.Foundation.Signals
import Sysopy.Foundation.System

/-!
# Signals there and back without confirmation

The parent waits until the child is ready, sends `num_signals` signals and then an end
marker. The child counts the signals until it sees the marker, and sends as many back,
with a marker again. One program does so with `SIGUSR1` and `SIGUSR2`, another one with
two real-time signals; they differ in nothing else, so that the discipline of the signals
is a parameter here.

The exchange begins with the parent behind `fork` and the child behind `exec`. A signal
is blocked while its own handler runs. No `kill` fails.

## Sections

* §1 parent and child
* §2 one step
* §3 what a step can do
-/

namespace Sysopy.SignalExchange.Unconfirmed

open Sysopy.Foundation

/-! ## §1  Parent and child -/

/-- The statement of `sig_handle` for each signal. -/
inductive Frame
  /-- `++counter` -/
  | count
  /-- `flag = 1`, in the child `proceed = 1` -/
  | mark
deriving DecidableEq

/-- The signal for which the handler was called is blocked. -/
def Frame.blocks : Frame → Usr → Bool
  | .count, .usr1 | .mark, .usr2 => true
  | _, _ => false

def sigHandle : Usr → Frame
  | .usr1 => .count
  | .usr2 => .mark

inductive ParentPc
  /-- before the first `flag = 0` -/
  | resetFlag
  /-- waiting for the child to confirm ready -/
  | ready (stage : Stage)
  /-- before the second `flag = 0` -/
  | resetAgain
  /-- the loop over `i`, and the end marker after it -/
  | send (i : ℕ)
  /-- waiting for the end marker -/
  | finish (stage : Stage)
  | print
  | ended
deriving DecidableEq

inductive ChildPc
  /-- before `signal` for the first signal -/
  | catchUsr1
  /-- before `signal` for the second signal -/
  | catchUsr2
  /-- before the `kill` that tells that it is ready -/
  | killReady
  /-- waiting for `proceed` -/
  | wait (stage : Stage)
  | print
  /-- the loop over `i`, and the end marker after it -/
  | resend (i : ℕ)
  | ended
deriving DecidableEq

/-- A handler has run, and the call that waits for one returns. -/
def ParentPc.woken : ParentPc → ParentPc
  | .ready .blocked => .ready .test
  | .finish .blocked => .finish .test
  | pc => pc

def ChildPc.woken : ChildPc → ChildPc
  | .wait .blocked => .wait .test
  | pc => pc

/-- `sig_handle` is installed for the signal; else the signal ends the process. -/
def ChildPc.catches : ChildPc → Usr → Bool
  | .catchUsr1, _ | .catchUsr2, .usr2 => false
  | _, _ => true

structure Process (Pc : Type) where
  pc : Pc
  counter : ℕ
  /-- `flag` of the parent, `proceed` of the child -/
  flag : ℕ
  inbox : Inbox Usr Frame

structure State where
  parent : Process ParentPc
  child : Process ChildPc

/-! ## §2  One step -/

inductive Event
  /-- the next statement of `main` -/
  | main
  /-- the statement of the innermost handler -/
  | handle
  /-- a signal is delivered -/
  | deliver (sig : Usr)

inductive Action
  | parent (e : Event)
  | child (e : Event)

namespace Process

variable {Pc : Type}

def goto (p : Process Pc) (pc : Pc) : Process Pc := { p with pc := pc }

/-- `kill` with this process as the target. -/
def kill (d : Discipline) (p : Process Pc) (sig : Usr) : Process Pc :=
  { p with inbox := p.inbox.post d sig }

/-- The innermost handler executes its statement and returns. -/
def handle (p : Process Pc) : Option (Process Pc) :=
  match p.inbox.frames with
  | [] => none
  | .count :: _ => some { p with counter := p.counter + 1, inbox := p.inbox.leave }
  | .mark :: _ => some { p with flag := 1, inbox := p.inbox.leave }

/-- The signal interrupts the process, which goes on at `woken`. -/
def interrupt (p : Process Pc) (woken : Pc) (sig : Usr) : Process Pc :=
  { p with pc := woken, inbox := p.inbox.take sig (sigHandle sig) }

end Process

namespace State

def parentMain (d : Discipline) (numSignals : ℕ) (s : State) : Option State :=
  match s.parent.pc with
  | .resetFlag => some { s with parent := { s.parent with flag := 0, pc := .ready .test } }
  | .ready .test =>
      some { s with
        parent := s.parent.goto (if s.parent.flag = 0 then .ready .call else .resetAgain) }
  | .ready .call => some { s with parent := s.parent.goto (.ready .blocked) }
  | .ready .blocked => none
  | .resetAgain => some { s with parent := { s.parent with flag := 0, pc := .send 0 } }
  | .send i =>
      if i < numSignals then
        some { parent := s.parent.goto (.send (i + 1)), child := s.child.kill d .usr1 }
      else some { parent := s.parent.goto (.finish .test), child := s.child.kill d .usr2 }
  | .finish .test =>
      some { s with parent := s.parent.goto (if s.parent.flag = 0 then .finish .call else .print) }
  | .finish .call => some { s with parent := s.parent.goto (.finish .blocked) }
  | .finish .blocked => none
  | .print => some { s with parent := s.parent.goto .ended }
  | .ended => none

def childMain (d : Discipline) (s : State) : Option State :=
  match s.child.pc with
  | .catchUsr1 => some { s with child := s.child.goto .catchUsr2 }
  | .catchUsr2 => some { s with child := s.child.goto .killReady }
  | .killReady => some { parent := s.parent.kill d .usr2, child := s.child.goto (.wait .test) }
  | .wait .test =>
      some { s with child := s.child.goto (if s.child.flag = 0 then .wait .call else .print) }
  | .wait .call => some { s with child := s.child.goto (.wait .blocked) }
  | .wait .blocked => none
  | .print => some { s with child := s.child.goto (.resend 0) }
  | .resend i =>
      if i < s.child.counter then
        some { parent := s.parent.kill d .usr1, child := s.child.goto (.resend (i + 1)) }
      else some { parent := s.parent.kill d .usr2, child := s.child.goto .ended }
  | .ended => none

/-- `main` goes on when no handler runs and no signal is pending. -/
def next (d : Discipline) (numSignals : ℕ) (s : State) : Action → Option State
  | .parent e =>
      if s.parent.pc = .ended then none
      else
        match e with
        | .main => if s.parent.inbox.Quiet then s.parentMain d numSignals else none
        | .handle => s.parent.handle.map fun p => { s with parent := p }
        | .deliver sig =>
            if s.parent.inbox.Deliverable Frame.blocks sig then
              some { s with parent := s.parent.interrupt s.parent.pc.woken sig }
            else none
  | .child e =>
      if s.child.pc = .ended then none
      else
        match e with
        | .main => if s.child.inbox.Quiet then s.childMain d else none
        | .handle => s.child.handle.map fun c => { s with child := c }
        | .deliver sig =>
            if s.child.inbox.Deliverable Frame.blocks sig then
              some { s with
                child :=
                  if s.child.pc.catches sig then s.child.interrupt s.child.pc.woken sig
                  else s.child.goto .ended }
            else none

end State

/-- `parent` with `numSignals` signals to send. -/
def exchange (d : Discipline) (numSignals : ℕ) : System State Action where
  init :=
    { parent := { pc := .resetFlag, counter := 0, flag := 0, inbox := .empty }
      child := { pc := .catchUsr1, counter := 0, flag := 0, inbox := .empty } }
  next := State.next d numSignals

/-! ## §3  What a step can do -/

section Inversion

variable {d : Discipline} {n : ℕ} {s t : State}

/-- The steps of `main` of the parent, with the branch that each of them takes. -/
inductive ParentStep (d : Discipline) (n : ℕ) (s : State) : State → Prop
  | resetFlag : s.parent.pc = .resetFlag →
      ParentStep d n s { s with parent := { s.parent with flag := 0, pc := .ready .test } }
  | notReady : s.parent.pc = .ready .test → s.parent.flag = 0 →
      ParentStep d n s { s with parent := s.parent.goto (.ready .call) }
  | ready : s.parent.pc = .ready .test → s.parent.flag ≠ 0 →
      ParentStep d n s { s with parent := s.parent.goto .resetAgain }
  | pauseReady : s.parent.pc = .ready .call →
      ParentStep d n s { s with parent := s.parent.goto (.ready .blocked) }
  | resetAgain : s.parent.pc = .resetAgain →
      ParentStep d n s { s with parent := { s.parent with flag := 0, pc := .send 0 } }
  | send (i : ℕ) : s.parent.pc = .send i → i < n →
      ParentStep d n s
        { parent := s.parent.goto (.send (i + 1)), child := s.child.kill d .usr1 }
  | sent (i : ℕ) : s.parent.pc = .send i → ¬i < n →
      ParentStep d n s
        { parent := s.parent.goto (.finish .test), child := s.child.kill d .usr2 }
  | notFinished : s.parent.pc = .finish .test → s.parent.flag = 0 →
      ParentStep d n s { s with parent := s.parent.goto (.finish .call) }
  | finished : s.parent.pc = .finish .test → s.parent.flag ≠ 0 →
      ParentStep d n s { s with parent := s.parent.goto .print }
  | pauseFinish : s.parent.pc = .finish .call →
      ParentStep d n s { s with parent := s.parent.goto (.finish .blocked) }
  | print : s.parent.pc = .print →
      ParentStep d n s { s with parent := s.parent.goto .ended }

theorem parentStep (h : s.parentMain d n = some t) : ParentStep d n s t := by
  unfold State.parentMain at h
  cases hpc : s.parent.pc with
  | resetFlag =>
      simp only [hpc, Option.some.injEq] at h
      exact h ▸ .resetFlag hpc
  | ready stage =>
      cases stage with
      | test =>
          simp only [hpc, Option.some.injEq] at h
          subst h
          split_ifs with hflag
          · exact .notReady hpc hflag
          · exact .ready hpc hflag
      | call =>
          simp only [hpc, Option.some.injEq] at h
          exact h ▸ .pauseReady hpc
      | blocked => simp [hpc] at h
  | resetAgain =>
      simp only [hpc, Option.some.injEq] at h
      exact h ▸ .resetAgain hpc
  | send i =>
      simp only [hpc] at h
      split_ifs at h with hi
      · exact Option.some.inj h ▸ .send i hpc hi
      · exact Option.some.inj h ▸ .sent i hpc hi
  | finish stage =>
      cases stage with
      | test =>
          simp only [hpc, Option.some.injEq] at h
          subst h
          split_ifs with hflag
          · exact .notFinished hpc hflag
          · exact .finished hpc hflag
      | call =>
          simp only [hpc, Option.some.injEq] at h
          exact h ▸ .pauseFinish hpc
      | blocked => simp [hpc] at h
  | print =>
      simp only [hpc, Option.some.injEq] at h
      exact h ▸ .print hpc
  | ended => simp [hpc] at h

/-- The steps of `main` of the child, with the branch that each of them takes. -/
inductive ChildStep (d : Discipline) (s : State) : State → Prop
  | catchUsr1 : s.child.pc = .catchUsr1 →
      ChildStep d s { s with child := s.child.goto .catchUsr2 }
  | catchUsr2 : s.child.pc = .catchUsr2 →
      ChildStep d s { s with child := s.child.goto .killReady }
  | killReady : s.child.pc = .killReady →
      ChildStep d s { parent := s.parent.kill d .usr2, child := s.child.goto (.wait .test) }
  | notSeen : s.child.pc = .wait .test → s.child.flag = 0 →
      ChildStep d s { s with child := s.child.goto (.wait .call) }
  | seen : s.child.pc = .wait .test → s.child.flag ≠ 0 →
      ChildStep d s { s with child := s.child.goto .print }
  | pauseWait : s.child.pc = .wait .call →
      ChildStep d s { s with child := s.child.goto (.wait .blocked) }
  | print : s.child.pc = .print → ChildStep d s { s with child := s.child.goto (.resend 0) }
  | resend (i : ℕ) : s.child.pc = .resend i → i < s.child.counter →
      ChildStep d s { parent := s.parent.kill d .usr1, child := s.child.goto (.resend (i + 1)) }
  | resent (i : ℕ) : s.child.pc = .resend i → ¬i < s.child.counter →
      ChildStep d s { parent := s.parent.kill d .usr2, child := s.child.goto .ended }

theorem childStep (h : s.childMain d = some t) : ChildStep d s t := by
  unfold State.childMain at h
  cases hpc : s.child.pc with
  | catchUsr1 =>
      simp only [hpc, Option.some.injEq] at h
      exact h ▸ .catchUsr1 hpc
  | catchUsr2 =>
      simp only [hpc, Option.some.injEq] at h
      exact h ▸ .catchUsr2 hpc
  | killReady =>
      simp only [hpc, Option.some.injEq] at h
      exact h ▸ .killReady hpc
  | wait stage =>
      cases stage with
      | test =>
          simp only [hpc, Option.some.injEq] at h
          subst h
          split_ifs with hflag
          · exact .notSeen hpc hflag
          · exact .seen hpc hflag
      | call =>
          simp only [hpc, Option.some.injEq] at h
          exact h ▸ .pauseWait hpc
      | blocked => simp [hpc] at h
  | print =>
      simp only [hpc, Option.some.injEq] at h
      exact h ▸ .print hpc
  | resend i =>
      simp only [hpc] at h
      split_ifs at h with hi
      · exact Option.some.inj h ▸ .resend i hpc hi
      · exact Option.some.inj h ▸ .resent i hpc hi
  | ended => simp [hpc] at h

inductive HandlerStep {Pc : Type} (p : Process Pc) : Process Pc → Prop
  | count (fs : List Frame) : p.inbox.frames = .count :: fs →
      HandlerStep p { p with counter := p.counter + 1, inbox := p.inbox.leave }
  | mark (fs : List Frame) : p.inbox.frames = .mark :: fs →
      HandlerStep p { p with flag := 1, inbox := p.inbox.leave }

theorem handlerStep {Pc : Type} {p q : Process Pc} (h : p.handle = some q) : HandlerStep p q := by
  unfold Process.handle at h
  split at h
  · cases h
  · exact Option.some.inj h ▸ .count _ ‹_›
  · exact Option.some.inj h ▸ .mark _ ‹_›

end Inversion

end Sysopy.SignalExchange.Unconfirmed
