import Sysopy.Foundation.Signals
import Sysopy.Foundation.System

/-!
# Signals there and back, each one confirmed

The parent waits until the child is ready, sends `num_signals` times `SIGUSR1` and then
`SIGUSR2` as the end marker. The handler of the child counts a signal and answers it with
another `SIGUSR1`, for which the parent waits before it sends the next one. Then the two
change their parts, and both install other handlers for that.

Standard signals are pending at most once. The handlers installed with `sigaction` block
both signals, the one installed with `signal` only its own. What is installed stays so.
The exchange begins with the parent behind `fork` and the child behind `exec`. No `kill`
fails.

## Sections

* §1 parent and child
* §2 one step
* §3 what a step can do
-/

namespace Sysopy.SignalExchange.Confirmed

open Sysopy.Foundation

/-! ## §1  Parent and child -/

inductive ParentFrame
  /-- `sig_handle_sender` for `SIGUSR1`: `confirmation = 1` -/
  | confirm
  /-- both handlers for `SIGUSR2`: `flag = 1` -/
  | mark
  /-- `sig_handle_receiver` for `SIGUSR1`: `++counter` -/
  | count
  /-- then `kill(child_pid, SIGUSR1)` -/
  | reply
deriving DecidableEq

def ParentFrame.blocks : ParentFrame → Usr → Bool
  | _, _ => true

inductive ChildFrame
  /-- `sig_handle` for `SIGUSR1`: `++counter` -/
  | count
  /-- then `kill(getppid(), SIGUSR1)` -/
  | reply
  /-- `sig_handle` for `SIGUSR2`: `proceed = 1` -/
  | mark
  /-- `sig_handle_sender`: `confirmation = 1` -/
  | confirm
deriving DecidableEq

/-- `sig_handle_sender` is installed with `signal`. -/
def ChildFrame.blocks : ChildFrame → Usr → Bool
  | .confirm, .usr2 => false
  | _, _ => true

inductive ParentPc
  /-- before the first `flag = 0` -/
  | resetFlag
  /-- waiting for the child to confirm ready -/
  | ready (stage : Stage)
  /-- before the second `flag = 0` -/
  | resetAgain
  /-- the head of the loop, and `kill` with `SIGUSR1` -/
  | send (i : ℕ)
  /-- waiting for `confirmation` -/
  | confirm (i : ℕ) (stage : Stage)
  /-- before `confirmation = 0` -/
  | clear (i : ℕ)
  /-- before `sigaction` for `SIGUSR1` -/
  | switchUsr1
  /-- before `sigaction` for `SIGUSR2` -/
  | switchUsr2
  /-- before `kill` with `SIGUSR2` -/
  | tell
  /-- waiting for the end marker -/
  | finish (stage : Stage)
  | print
  | ended
deriving DecidableEq

inductive ChildPc
  /-- before `sigaction` for `SIGUSR1` -/
  | catchUsr1
  /-- before `sigaction` for `SIGUSR2` -/
  | catchUsr2
  /-- before the `kill` that tells that it is ready -/
  | killReady
  /-- waiting for `proceed` -/
  | wait (stage : Stage)
  | print
  /-- before `signal` for `SIGUSR1` -/
  | switch
  /-- the head of the loop, `kill` with `SIGUSR1`, and with `SIGUSR2` after the loop -/
  | resend (i : ℕ)
  /-- waiting for `confirmation` -/
  | confirm (i : ℕ) (stage : Stage)
  /-- before `confirmation = 0` -/
  | clear (i : ℕ)
  | ended
deriving DecidableEq

namespace ParentPc

/-- The handler that is installed for the signal. -/
def sigHandle : ParentPc → Usr → ParentFrame
  | _, .usr2 => .mark
  | .switchUsr2, .usr1 | .tell, .usr1 | .finish _, .usr1 | .print, .usr1 | .ended, .usr1 => .count
  | _, .usr1 => .confirm

/-- A handler has run, and `pause` returns. -/
def woken : ParentPc → ParentPc
  | .ready .blocked => .ready .test
  | .confirm i .blocked => .confirm i .test
  | .finish .blocked => .finish .test
  | pc => pc

/-- The process is in `pause`. -/
def Blocked : ParentPc → Prop
  | .ready .blocked | .confirm _ .blocked | .finish .blocked => True
  | _ => False

end ParentPc

namespace ChildPc

/-- The handler that is installed for the signal, if there is one yet. -/
def sigHandle : ChildPc → Usr → Option ChildFrame
  | .catchUsr1, _ | .catchUsr2, .usr2 => none
  | _, .usr2 => some .mark
  | .resend _, .usr1 | .confirm _ _, .usr1 | .clear _, .usr1 | .ended, .usr1 => some .confirm
  | _, .usr1 => some .count

/-- A handler has run, and `pause` returns. -/
def woken : ChildPc → ChildPc
  | .wait .blocked => .wait .test
  | .confirm i .blocked => .confirm i .test
  | pc => pc

/-- The process is in `pause`. -/
def Blocked : ChildPc → Prop
  | .wait .blocked | .confirm _ .blocked => True
  | _ => False

end ChildPc

structure Parent where
  pc : ParentPc
  counter : ℕ
  flag : ℕ
  confirmation : ℕ
  inbox : Inbox Usr ParentFrame

structure Child where
  pc : ChildPc
  counter : ℕ
  proceed : ℕ
  confirmation : ℕ
  inbox : Inbox Usr ChildFrame

structure State where
  parent : Parent
  child : Child

/-! ## §2  One step -/

inductive Event
  /-- the next statement of `main` -/
  | main
  /-- the next statement of the innermost handler -/
  | handle
  /-- a signal is delivered -/
  | deliver (sig : Usr)

inductive Action
  | parent (e : Event)
  | child (e : Event)

def Parent.goto (p : Parent) (pc : ParentPc) : Parent := { p with pc := pc }

def Child.goto (c : Child) (pc : ChildPc) : Child := { c with pc := pc }

/-- `kill` with the parent as the target. -/
def Parent.kill (p : Parent) (sig : Usr) : Parent := { p with inbox := p.inbox.post .merged sig }

/-- `kill` with the child as the target. -/
def Child.kill (c : Child) (sig : Usr) : Child := { c with inbox := c.inbox.post .merged sig }

namespace State

def parentMain (numSignals : ℕ) (s : State) : Option State :=
  let p := s.parent
  match p.pc with
  | .resetFlag => some { s with parent := { p with flag := 0, pc := .ready .test } }
  | .ready .test =>
      some { s with parent := p.goto (if p.flag = 0 then .ready .call else .resetAgain) }
  | .ready .call => some { s with parent := p.goto (.ready .blocked) }
  | .ready .blocked => none
  | .resetAgain => some { s with parent := { p with flag := 0, pc := .send 0 } }
  | .send i =>
      if i < numSignals then
        some { parent := p.goto (.confirm i .test), child := s.child.kill .usr1 }
      else some { s with parent := p.goto .switchUsr1 }
  | .confirm i .test =>
      some { s with parent := p.goto (if p.confirmation = 0 then .confirm i .call else .clear i) }
  | .confirm i .call => some { s with parent := p.goto (.confirm i .blocked) }
  | .confirm _ .blocked => none
  | .clear i => some { s with parent := { p with confirmation := 0, pc := .send (i + 1) } }
  | .switchUsr1 => some { s with parent := p.goto .switchUsr2 }
  | .switchUsr2 => some { s with parent := p.goto .tell }
  | .tell => some { parent := p.goto (.finish .test), child := s.child.kill .usr2 }
  | .finish .test =>
      some { s with parent := p.goto (if p.flag = 0 then .finish .call else .print) }
  | .finish .call => some { s with parent := p.goto (.finish .blocked) }
  | .finish .blocked => none
  | .print => some { s with parent := p.goto .ended }
  | .ended => none

def childMain (s : State) : Option State :=
  let c := s.child
  match c.pc with
  | .catchUsr1 => some { s with child := c.goto .catchUsr2 }
  | .catchUsr2 => some { s with child := c.goto .killReady }
  | .killReady => some { parent := s.parent.kill .usr2, child := c.goto (.wait .test) }
  | .wait .test => some { s with child := c.goto (if c.proceed = 0 then .wait .call else .print) }
  | .wait .call => some { s with child := c.goto (.wait .blocked) }
  | .wait .blocked => none
  | .print => some { s with child := c.goto .switch }
  | .switch => some { s with child := c.goto (.resend 0) }
  | .resend i =>
      if i < c.counter then
        some { parent := s.parent.kill .usr1, child := c.goto (.confirm i .test) }
      else some { parent := s.parent.kill .usr2, child := c.goto .ended }
  | .confirm i .test =>
      some { s with child := c.goto (if c.confirmation = 0 then .confirm i .call else .clear i) }
  | .confirm i .call => some { s with child := c.goto (.confirm i .blocked) }
  | .confirm _ .blocked => none
  | .clear i => some { s with child := { c with confirmation := 0, pc := .resend (i + 1) } }
  | .ended => none

def parentHandle (s : State) : Option State :=
  let p := s.parent
  match p.inbox.frames with
  | [] => none
  | .confirm :: _ => some { s with parent := { p with confirmation := 1, inbox := p.inbox.leave } }
  | .mark :: _ => some { s with parent := { p with flag := 1, inbox := p.inbox.leave } }
  | .count :: _ =>
      some { s with parent := { p with counter := p.counter + 1, inbox := p.inbox.goOn .reply } }
  | .reply :: _ => some { parent := { p with inbox := p.inbox.leave }, child := s.child.kill .usr1 }

def childHandle (s : State) : Option State :=
  let c := s.child
  match c.inbox.frames with
  | [] => none
  | .count :: _ =>
      some { s with child := { c with counter := c.counter + 1, inbox := c.inbox.goOn .reply } }
  | .reply :: _ =>
      some { parent := s.parent.kill .usr1, child := { c with inbox := c.inbox.leave } }
  | .mark :: _ => some { s with child := { c with proceed := 1, inbox := c.inbox.leave } }
  | .confirm :: _ => some { s with child := { c with confirmation := 1, inbox := c.inbox.leave } }

def parentDeliver (s : State) (sig : Usr) : State :=
  let p := s.parent
  { s with parent := { p with pc := p.pc.woken, inbox := p.inbox.take sig (p.pc.sigHandle sig) } }

/-- A signal interrupts the child, or ends it when no handler is installed. -/
def childDeliver (s : State) (sig : Usr) : State :=
  let c := s.child
  match c.pc.sigHandle sig with
  | some f => { s with child := { c with pc := c.pc.woken, inbox := c.inbox.take sig f } }
  | none => { s with child := c.goto .ended }

/-- `main` goes on when no handler runs and no signal is pending. -/
def next (numSignals : ℕ) (s : State) : Action → Option State
  | .parent e =>
      if s.parent.pc = .ended then none
      else
        match e with
        | .main => if s.parent.inbox.Quiet then s.parentMain numSignals else none
        | .handle => s.parentHandle
        | .deliver sig =>
            if s.parent.inbox.Deliverable ParentFrame.blocks sig then some (s.parentDeliver sig)
            else none
  | .child e =>
      if s.child.pc = .ended then none
      else
        match e with
        | .main => if s.child.inbox.Quiet then s.childMain else none
        | .handle => s.childHandle
        | .deliver sig =>
            if s.child.inbox.Deliverable ChildFrame.blocks sig then some (s.childDeliver sig)
            else none

end State

/-- `parent` with `numSignals` signals to send. -/
def exchange (numSignals : ℕ) : System State Action where
  init :=
    { parent := { pc := .resetFlag, counter := 0, flag := 0, confirmation := 0, inbox := .empty }
      child :=
        { pc := .catchUsr1, counter := 0, proceed := 0, confirmation := 0, inbox := .empty } }
  next := State.next numSignals

/-! ## §3  What a step can do -/

section Inversion

variable {n : ℕ} {s t : State}

/-- The steps of `main` of the parent, with the branch that each of them takes. -/
inductive ParentStep (n : ℕ) (s : State) : State → Prop
  | resetFlag : s.parent.pc = .resetFlag →
      ParentStep n s { s with parent := { s.parent with flag := 0, pc := .ready .test } }
  | notReady : s.parent.pc = .ready .test → s.parent.flag = 0 →
      ParentStep n s { s with parent := s.parent.goto (.ready .call) }
  | ready : s.parent.pc = .ready .test → s.parent.flag ≠ 0 →
      ParentStep n s { s with parent := s.parent.goto .resetAgain }
  | pauseReady : s.parent.pc = .ready .call →
      ParentStep n s { s with parent := s.parent.goto (.ready .blocked) }
  | resetAgain : s.parent.pc = .resetAgain →
      ParentStep n s { s with parent := { s.parent with flag := 0, pc := .send 0 } }
  | send (i : ℕ) : s.parent.pc = .send i → i < n →
      ParentStep n s
        { parent := s.parent.goto (.confirm i .test), child := s.child.kill .usr1 }
  | sent (i : ℕ) : s.parent.pc = .send i → n ≤ i →
      ParentStep n s { s with parent := s.parent.goto .switchUsr1 }
  | notConfirmed (i : ℕ) : s.parent.pc = .confirm i .test → s.parent.confirmation = 0 →
      ParentStep n s { s with parent := s.parent.goto (.confirm i .call) }
  | confirmed (i : ℕ) : s.parent.pc = .confirm i .test → s.parent.confirmation ≠ 0 →
      ParentStep n s { s with parent := s.parent.goto (.clear i) }
  | pauseConfirm (i : ℕ) : s.parent.pc = .confirm i .call →
      ParentStep n s { s with parent := s.parent.goto (.confirm i .blocked) }
  | clear (i : ℕ) : s.parent.pc = .clear i →
      ParentStep n s { s with parent := { s.parent with confirmation := 0, pc := .send (i + 1) } }
  | switchUsr1 : s.parent.pc = .switchUsr1 →
      ParentStep n s { s with parent := s.parent.goto .switchUsr2 }
  | switchUsr2 : s.parent.pc = .switchUsr2 →
      ParentStep n s { s with parent := s.parent.goto .tell }
  | tell : s.parent.pc = .tell →
      ParentStep n s { parent := s.parent.goto (.finish .test), child := s.child.kill .usr2 }
  | notFinished : s.parent.pc = .finish .test → s.parent.flag = 0 →
      ParentStep n s { s with parent := s.parent.goto (.finish .call) }
  | finished : s.parent.pc = .finish .test → s.parent.flag ≠ 0 →
      ParentStep n s { s with parent := s.parent.goto .print }
  | pauseFinish : s.parent.pc = .finish .call →
      ParentStep n s { s with parent := s.parent.goto (.finish .blocked) }
  | print : s.parent.pc = .print →
      ParentStep n s { s with parent := s.parent.goto .ended }

theorem parentStep (h : s.parentMain n = some t) : ParentStep n s t := by
  unfold State.parentMain at h
  cases hpc : s.parent.pc with
  | resetFlag =>
      simp only [hpc, Option.some.injEq] at h
      exact h ▸ .resetFlag hpc
  | ready stage =>
      cases stage with
      | test =>
          simp only [hpc, Option.some.injEq] at h
          subst h
          split_ifs with hflag
          · exact .notReady hpc hflag
          · exact .ready hpc hflag
      | call =>
          simp only [hpc, Option.some.injEq] at h
          exact h ▸ .pauseReady hpc
      | blocked => simp [hpc] at h
  | resetAgain =>
      simp only [hpc, Option.some.injEq] at h
      exact h ▸ .resetAgain hpc
  | send i =>
      simp only [hpc] at h
      split_ifs at h with hi
      · exact Option.some.inj h ▸ .send i hpc hi
      · exact Option.some.inj h ▸ .sent i hpc (Nat.not_lt.mp hi)
  | confirm i stage =>
      cases stage with
      | test =>
          simp only [hpc, Option.some.injEq] at h
          subst h
          split_ifs with hconfirmation
          · exact .notConfirmed i hpc hconfirmation
          · exact .confirmed i hpc hconfirmation
      | call =>
          simp only [hpc, Option.some.injEq] at h
          exact h ▸ .pauseConfirm i hpc
      | blocked => simp [hpc] at h
  | clear i =>
      simp only [hpc, Option.some.injEq] at h
      exact h ▸ .clear i hpc
  | switchUsr1 =>
      simp only [hpc, Option.some.injEq] at h
      exact h ▸ .switchUsr1 hpc
  | switchUsr2 =>
      simp only [hpc, Option.some.injEq] at h
      exact h ▸ .switchUsr2 hpc
  | tell =>
      simp only [hpc, Option.some.injEq] at h
      exact h ▸ .tell hpc
  | finish stage =>
      cases stage with
      | test =>
          simp only [hpc, Option.some.injEq] at h
          subst h
          split_ifs with hflag
          · exact .notFinished hpc hflag
          · exact .finished hpc hflag
      | call =>
          simp only [hpc, Option.some.injEq] at h
          exact h ▸ .pauseFinish hpc
      | blocked => simp [hpc] at h
  | print =>
      simp only [hpc, Option.some.injEq] at h
      exact h ▸ .print hpc
  | ended => simp [hpc] at h

/-- The steps of `main` of the child, with the branch that each of them takes. -/
inductive ChildStep (s : State) : State → Prop
  | catchUsr1 : s.child.pc = .catchUsr1 →
      ChildStep s { s with child := s.child.goto .catchUsr2 }
  | catchUsr2 : s.child.pc = .catchUsr2 →
      ChildStep s { s with child := s.child.goto .killReady }
  | killReady : s.child.pc = .killReady →
      ChildStep s { parent := s.parent.kill .usr2, child := s.child.goto (.wait .test) }
  | notSeen : s.child.pc = .wait .test → s.child.proceed = 0 →
      ChildStep s { s with child := s.child.goto (.wait .call) }
  | seen : s.child.pc = .wait .test → s.child.proceed ≠ 0 →
      ChildStep s { s with child := s.child.goto .print }
  | pauseWait : s.child.pc = .wait .call →
      ChildStep s { s with child := s.child.goto (.wait .blocked) }
  | print : s.child.pc = .print → ChildStep s { s with child := s.child.goto .switch }
  | switch : s.child.pc = .switch → ChildStep s { s with child := s.child.goto (.resend 0) }
  | resend (i : ℕ) : s.child.pc = .resend i → i < s.child.counter →
      ChildStep s { parent := s.parent.kill .usr1, child := s.child.goto (.confirm i .test) }
  | resent (i : ℕ) : s.child.pc = .resend i → ¬i < s.child.counter →
      ChildStep s { parent := s.parent.kill .usr2, child := s.child.goto .ended }
  | notConfirmed (i : ℕ) : s.child.pc = .confirm i .test → s.child.confirmation = 0 →
      ChildStep s { s with child := s.child.goto (.confirm i .call) }
  | confirmed (i : ℕ) : s.child.pc = .confirm i .test → s.child.confirmation ≠ 0 →
      ChildStep s { s with child := s.child.goto (.clear i) }
  | pauseConfirm (i : ℕ) : s.child.pc = .confirm i .call →
      ChildStep s { s with child := s.child.goto (.confirm i .blocked) }
  | clear (i : ℕ) : s.child.pc = .clear i →
      ChildStep s { s with child := { s.child with confirmation := 0, pc := .resend (i + 1) } }

theorem childStep (h : s.childMain = some t) : ChildStep s t := by
  unfold State.childMain at h
  cases hpc : s.child.pc with
  | catchUsr1 =>
      simp only [hpc, Option.some.injEq] at h
      exact h ▸ .catchUsr1 hpc
  | catchUsr2 =>
      simp only [hpc, Option.some.injEq] at h
      exact h ▸ .catchUsr2 hpc
  | killReady =>
      simp only [hpc, Option.some.injEq] at h
      exact h ▸ .killReady hpc
  | wait stage =>
      cases stage with
      | test =>
          simp only [hpc, Option.some.injEq] at h
          subst h
          split_ifs with hproceed
          · exact .notSeen hpc hproceed
          · exact .seen hpc hproceed
      | call =>
          simp only [hpc, Option.some.injEq] at h
          exact h ▸ .pauseWait hpc
      | blocked => simp [hpc] at h
  | print =>
      simp only [hpc, Option.some.injEq] at h
      exact h ▸ .print hpc
  | switch =>
      simp only [hpc, Option.some.injEq] at h
      exact h ▸ .switch hpc
  | resend i =>
      simp only [hpc] at h
      split_ifs at h with hi
      · exact Option.some.inj h ▸ .resend i hpc hi
      · exact Option.some.inj h ▸ .resent i hpc hi
  | confirm i stage =>
      cases stage with
      | test =>
          simp only [hpc, Option.some.injEq] at h
          subst h
          split_ifs with hconfirmation
          · exact .notConfirmed i hpc hconfirmation
          · exact .confirmed i hpc hconfirmation
      | call =>
          simp only [hpc, Option.some.injEq] at h
          exact h ▸ .pauseConfirm i hpc
      | blocked => simp [hpc] at h
  | clear i =>
      simp only [hpc, Option.some.injEq] at h
      exact h ▸ .clear i hpc
  | ended => simp [hpc] at h

inductive ParentHandler (s : State) : State → Prop
  | confirm (fs : List ParentFrame) : s.parent.inbox.frames = .confirm :: fs →
      ParentHandler s { s with
        parent := { s.parent with confirmation := 1, inbox := s.parent.inbox.leave } }
  | mark (fs : List ParentFrame) : s.parent.inbox.frames = .mark :: fs →
      ParentHandler s { s with
        parent := { s.parent with flag := 1, inbox := s.parent.inbox.leave } }
  | count (fs : List ParentFrame) : s.parent.inbox.frames = .count :: fs →
      ParentHandler s { s with
        parent := { s.parent with counter := s.parent.counter + 1
                                  inbox := s.parent.inbox.goOn .reply } }
  | reply (fs : List ParentFrame) : s.parent.inbox.frames = .reply :: fs →
      ParentHandler s { parent := { s.parent with inbox := s.parent.inbox.leave }
                        child := s.child.kill .usr1 }

theorem parentHandler (h : s.parentHandle = some t) : ParentHandler s t := by
  unfold State.parentHandle at h
  dsimp only at h
  split at h
  · cases h
  · exact Option.some.inj h ▸ .confirm _ ‹_›
  · exact Option.some.inj h ▸ .mark _ ‹_›
  · exact Option.some.inj h ▸ .count _ ‹_›
  · exact Option.some.inj h ▸ .reply _ ‹_›

inductive ChildHandler (s : State) : State → Prop
  | count (fs : List ChildFrame) : s.child.inbox.frames = .count :: fs →
      ChildHandler s { s with
        child := { s.child with counter := s.child.counter + 1
                                inbox := s.child.inbox.goOn .reply } }
  | reply (fs : List ChildFrame) : s.child.inbox.frames = .reply :: fs →
      ChildHandler s { parent := s.parent.kill .usr1
                       child := { s.child with inbox := s.child.inbox.leave } }
  | mark (fs : List ChildFrame) : s.child.inbox.frames = .mark :: fs →
      ChildHandler s { s with
        child := { s.child with proceed := 1, inbox := s.child.inbox.leave } }
  | confirm (fs : List ChildFrame) : s.child.inbox.frames = .confirm :: fs →
      ChildHandler s { s with
        child := { s.child with confirmation := 1, inbox := s.child.inbox.leave } }

theorem childHandler (h : s.childHandle = some t) : ChildHandler s t := by
  unfold State.childHandle at h
  dsimp only at h
  split at h
  · cases h
  · exact Option.some.inj h ▸ .count _ ‹_›
  · exact Option.some.inj h ▸ .reply _ ‹_›
  · exact Option.some.inj h ▸ .mark _ ‹_›
  · exact Option.some.inj h ▸ .confirm _ ‹_›

end Inversion

end Sysopy.SignalExchange.Confirmed
