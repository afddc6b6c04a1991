import Mathlib.Algebra.Ring.Int.Defs
import Mathlib.Logic.Function.Basic
import Sysopy.Foundation.System

/-!
# Four ways to make a process

The program makes a child `n` times, waits for each one, and measures how long that
takes: with `fork`, with `vfork`, and with `clone` in the place of either. The mapping is
common to all processes. The rest of the memory is copied for a child, or shared with it
by `vfork` and `CLONE_VM`.

A sum is read, computed and written back in two steps, and the steps of the parent and
its children come in any order. A parent that made a child with `vfork` or `CLONE_VFORK`
goes on after the child has ended. Every creation succeeds; what is printed at the end is
left out, with the times of the parent.

## Sections

* §1 memory
* §2 the code of a child
* §3 the four loops
* §4 one step
-/

namespace Sysopy.ProcessCreation

open Sysopy.Foundation

/-! ## §1  Memory -/

/-- The memory that is copied or shared. -/
structure Memory where
  counter : ℤ
  forkStartTime : ℤ
  /-- `child_end_time`, and `function_end_time` -/
  childEndTime : ℤ
deriving DecidableEq

/-- The memory from `mmap` with `MAP_SHARED`. -/
structure Mapping where
  globalVariable : ℤ
  totalChildProcessesTime : ℤ
deriving DecidableEq

/-- A variable that a child adds to. -/
inductive Var
  | counter
  | globalVariable
  | totalChildProcessesTime
deriving DecidableEq

/-- What a child works on. -/
structure View where
  registers : Var → ℤ
  memory : Memory
  mapping : Mapping

namespace View

def value (w : View) : Var → ℤ
  | .counter => w.memory.counter
  | .globalVariable => w.mapping.globalVariable
  | .totalChildProcessesTime => w.mapping.totalChildProcessesTime

def write (w : View) (x : ℤ) : Var → View
  | .counter => { w with memory.counter := x }
  | .globalVariable => { w with mapping.globalVariable := x }
  | .totalChildProcessesTime => { w with mapping.totalChildProcessesTime := x }

def summand (w : View) : Var → ℤ
  | .counter | .globalVariable => 1
  | .totalChildProcessesTime => w.memory.childEndTime - w.memory.forkStartTime

end View

/-! ## §2  The code of a child -/

inductive Stmt
  /-- `fork_start_time = times(NULL)` -/
  | startTime
  /-- `child_end_time = times(NULL)` -/
  | endTime
  | load (v : Var)
  | store (v : Var)
  /-- `_exit(0)` -/
  | exit
deriving DecidableEq

def Stmt.exec (now : ℤ) (w : View) : Stmt → View
  | .startTime => { w with memory.forkStartTime := now }
  | .endTime => { w with memory.childEndTime := now }
  | .load v => { w with registers := Function.update w.registers v (w.value v) }
  | .store v => w.write (w.registers v + w.summand v) v
  | .exit => w

def add (v : Var) : List Stmt := [.load v, .store v]

/-- `function`, which `clone` calls in the child -/
def function : List Stmt :=
  add .globalVariable ++ add .counter ++ [.endTime] ++ add .totalChildProcessesTime ++ [.exit]

/-! ## §3  The four loops -/

/-- A loop that makes a child and waits for it. -/
structure Loop where
  /-- the parent reads the time before the call, and not after it -/
  timesFirst : Bool
  /-- the child shares the memory of the parent -/
  vm : Bool
  /-- the parent goes on when the child has ended -/
  vfork : Bool
  child : List Stmt

def doFork : Loop where
  timesFirst := false
  vm := false
  vfork := false
  child := [.startTime] ++ add .counter ++ [.endTime] ++ add .totalChildProcessesTime ++
    add .globalVariable ++ [.exit]

def doVfork : Loop where
  timesFirst := false
  vm := true
  vfork := true
  child := [.startTime] ++ add .globalVariable ++ add .counter ++ [.endTime] ++
    add .totalChildProcessesTime ++ [.exit]

/-- `do_fork_clone`, with `SIGCHLD` -/
def doForkClone : Loop where
  timesFirst := true
  vm := false
  vfork := false
  child := function

/-- `do_vfork_clone`, with `SIGCHLD | CLONE_VFORK | CLONE_VM` -/
def doVforkClone : Loop where
  timesFirst := true
  vm := true
  vfork := true
  child := function

/-- `FORK`, `VFORK`, `FORK_CLONE` and `VFORK_CLONE` -/
inductive Mode
  | fork
  | vfork
  | forkClone
  | vforkClone
deriving DecidableEq

/-- The `switch` of `main`. -/
def Mode.loop : Mode → Loop
  | .fork => doFork
  | .vfork => doVfork
  | .forkClone => doForkClone
  | .vforkClone => doVforkClone

/-! ## §4  One step -/

inductive Pc
  /-- `i < n` -/
  | test
  /-- before `fork_start_time = times(NULL)` -/
  | startTime (created : Bool)
  /-- before `fork`, `vfork` or `clone` -/
  | create
  /-- in `wait` -/
  | wait
  | done
deriving DecidableEq

structure Child where
  /-- what is left to do; nothing after `_exit` -/
  code : List Stmt
  registers : Var → ℤ
  /-- its copy of the memory, unless it shares that of the parent -/
  memory : Option Memory

structure State where
  pc : Pc
  i : ℤ
  memory : Memory
  mapping : Mapping
  children : List Child

inductive Action
  /-- the next step of the parent, but `wait` only if there is no child -/
  | parent (now : ℤ)
  /-- `wait` finds this child -/
  | reap (k : ℕ)
  /-- the next step of a child -/
  | child (k : ℕ) (now : ℤ)

/-- The memory at the call is what a child without `CLONE_VM` gets. -/
def Loop.newChild (loop : Loop) (s : State) : Child where
  code := loop.child
  registers := fun _ => 0
  memory := if loop.vm then none else some s.memory

def Child.view (c : Child) (s : State) : View where
  registers := c.registers
  memory := c.memory.getD s.memory
  mapping := s.mapping

def Child.step (c : Child) (w : View) (rest : List Stmt) : Child where
  code := rest
  registers := w.registers
  memory := c.memory.map fun _ => w.memory

namespace State

/-- The parent is held back by a child. -/
def Suspended (s : State) (loop : Loop) : Prop := loop.vfork ∧ ∃ c ∈ s.children, c.code ≠ []

instance (s : State) (loop : Loop) : Decidable (s.Suspended loop) :=
  inferInstanceAs (Decidable (_ ∧ _))

def runChild (s : State) (k : ℕ) (c : Child) (stmt : Stmt) (rest : List Stmt) (now : ℤ) :
    State :=
  let w := stmt.exec now (c.view s)
  { s with
    memory := if c.memory.isNone then w.memory else s.memory
    mapping := w.mapping
    children := s.children.set k (c.step w rest) }

/-- `++i` -/
def pass (s : State) : State := { s with i := s.i + 1, pc := .test }

def next (loop : Loop) (n : ℤ) (s : State) : Action → Option State
  | .parent now =>
      if s.Suspended loop then none else
        match s.pc with
        | .test =>
            some { s with
              pc := if s.i < n then (if loop.timesFirst then .startTime false else .create)
                else .done }
        | .startTime created =>
            some { s with
              memory.forkStartTime := now
              pc := if created then .wait else .create }
        | .create =>
            some { s with
              children := s.children ++ [loop.newChild s]
              pc := if loop.timesFirst then .wait else .startTime true }
        | .wait => if s.children = [] then some s.pass else none
        | .done => none
  | .reap k =>
      if s.Suspended loop ∨ s.pc ≠ .wait then none else
        match s.children[k]? with
        | some c =>
            if c.code = [] then some { s.pass with children := s.children.eraseIdx k }
            else none
        | none => none
  | .child k now =>
      match s.children[k]? with
      | some c =>
          match c.code with
          | [] => none
          | stmt :: rest => some (s.runChild k c stmt rest now)
      | none => none

end State

/-- `main` clears the three variables first. -/
def processCreation (mode : Mode) (n : ℤ) : System State Action where
  init :=
    { pc := .test, i := 0, memory := ⟨0, 0, 0⟩, mapping := ⟨0, 0⟩, children := [] }
  next := State.next mode.loop n

end Sysopy.ProcessCreation
