import Sysopy.Foundation.CString
import Sysopy.Foundation.ProcessTree

/-!
# The recursive file counter

`file_counter` reads one directory. For every subdirectory it forks a child that executes
the program again on the longer path, and at the end it waits for as many children as it
has forked and adds up their exit statuses.

What a process meets is data here: the entries of its directory in the order of `readdir`,
without `.` and `..`, and for every call whether it fails. A child whose `execl` fails goes
on in the loop of its parent, with its own view of the entries that are left. `malloc`
succeeds; a number of children always fits an `int`, because a process never has more of
them than there are process ids. The wait of ten seconds in test mode is left out.

## Sections

* §1 arguments
* §2 directories, messages and processes
* §3 the loop over the entries
* §4 main
-/

namespace Sysopy.FileCounter

open Foundation

/-! ## §1  Arguments -/

/-- `'-'`, `'v'`, `'w'` and `'/'` -/
def dash : Byte := 45
def letterV : Byte := 118
def letterW : Byte := 119
def slash : Byte := 47

/-- `test_mode` and `should_log` -/
structure Mode where
  testMode : Bool
  shouldLog : Bool
deriving DecidableEq

/-- What `main` reads from the arguments behind `argv[0]`; `none` is `usage`. -/
def arguments : List (List Byte) → Option (Mode × List Byte)
  | [one, two, path] =>
    if (one = [dash, letterV] ∧ two = [dash, letterW])
        ∨ (one = [dash, letterW] ∧ two = [dash, letterV]) then
      some (⟨true, true⟩, path)
    else none
  | [one, path] =>
    if one = [dash, letterW, letterV] ∨ one = [dash, letterV, letterW] then
      some (⟨true, true⟩, path)
    else if one = [dash, letterV] then some (⟨false, true⟩, path)
    else if one = [dash, letterW] then some (⟨true, false⟩, path)
    else none
  | [path] => some (⟨false, false⟩, path)
  | _ => none

/-- The arguments of `execl`. With both letters `opts[3]` has no room for a NUL, and the
string goes on with the bytes behind it in memory, up to the first NUL there. -/
def execArgs (mode : Mode) (behind path : List Byte) : List (List Byte) :=
  if mode.shouldLog || mode.testMode then
    [dash :: (if mode.shouldLog then letterV else letterW) ::
      (if mode.testMode && mode.shouldLog then letterW :: behind else []), path]
  else [path]

/-- The child reads its options: there is a NUL behind them. -/
def Starts (mode : Mode) (behind : List Byte) : Prop :=
  (mode.testMode && mode.shouldLog) = true → behind = []

instance (mode : Mode) (behind : List Byte) : Decidable (Starts mode behind) :=
  inferInstanceAs (Decidable (_ → _))

theorem arguments_execArgs_of_starts {mode : Mode} {behind : List Byte}
    (h : Starts mode behind) (path : List Byte) :
    arguments (execArgs mode behind path) = some (mode, path) := by
  rcases mode with ⟨_ | _, _ | _⟩
  · rfl
  · rfl
  · rfl
  · obtain rfl := h rfl
    rfl

theorem arguments_execArgs_of_not_starts {mode : Mode} {behind : List Byte}
    (h : ¬Starts mode behind) (path : List Byte) :
    arguments (execArgs mode behind path) = none := by
  obtain ⟨hboth, hbehind⟩ := Classical.not_imp.mp h
  obtain ⟨b, more, rfl⟩ := List.exists_cons_of_ne_nil hbehind
  rcases mode with ⟨_ | _, _ | _⟩
  · cases hboth
  · cases hboth
  · cases hboth
  · show arguments [dash :: letterV :: letterW :: b :: more, path] = none
    simp only [arguments, List.cons.injEq, reduceCtorEq, and_false, or_self, if_false]

/-! ## §2  Directories, messages and processes -/

inductive Entries
  /-- no entry is left; then how the children end, and what the uninitialised `status`
  holds -/
  | done (order : WaitOrder) (status : ℕ)
  | file (name : List Byte) (rest : Entries)
  /-- neither a directory nor a regular file -/
  | other (name : List Byte) (rest : Entries)
  | lstatFails (name : List Byte)
  | forkFails (name : List Byte)
  /-- a subdirectory, with the bytes behind `opts`, whether the child can open it and what
  the child meets in it -/
  | directory (name behind : List Byte) (opens : Bool) (inside rest : Entries)
  /-- a subdirectory whose child is not executed and meets `clone` in the loop -/
  | execFails (name : List Byte) (clone rest : Entries)

inductive Message
  | usage
  | notADir (path : List Byte)
  | cannotRead (path name : List Byte)
  | forkingError (path : List Byte)
  | execlError
  | total (path : List Byte) (numFiles all : ℤ)
deriving DecidableEq

def Message.isError : Message → Bool
  | .notADir _ | .cannotRead _ _ | .forkingError _ | .execlError => true
  | .usage | .total _ _ _ => false

/-- The three ways to leave `main`: `exit(1)` in `usage`, `exit(-1)`, or with a number of
files. -/
inductive Exit
  | usage
  | failure
  | files (n : ℤ)
deriving DecidableEq

/-- The argument of `exit`. -/
def Exit.code : Exit → ℤ
  | .usage => 1
  | .failure => -1
  | .files n => n

/-- A process that has ended, with the directory it was to count. -/
structure Process where
  dir : Entries
  said : List Message
  ended : Exit

def Process.status (p : Process) : ℕ := exitStatus p.ended.code

def Process.Failed (p : Process) : Prop := p.said.any Message.isError = true

/-! ## §3  The loop over the entries -/

/-- The variables of `main`, and what it has printed. -/
structure Vars where
  numFiles : ℤ
  numProcesses : ℕ
  said : List Message

def Vars.start : Vars := ⟨0, 0, []⟩

/-- The loop is over: `last` is `none` if it was left by `exit(-1)`. -/
structure Scan where
  vars : Vars
  last : Option (WaitOrder × ℕ)
  children : Forest Process

/-- `path` with a slash and the name behind it, if that fits the 1024 bytes. -/
def entryPath (path name : List Byte) : Option (List Byte) :=
  if path.length + 1 + name.length + 1 ≤ 1024 then some (path ++ slash :: name) else none

/-- Lines 120–128: `num_processes` times `wait` and what it stores. When no child is left
`wait` fails and `status` stays as it is; `none` is `exit(-1)`. -/
def collect : ℕ → List ℕ → ℕ → ℤ → Option ℤ
  | 0, _, _, childFiles => some childFiles
  | n + 1, [], status, childFiles =>
    if wexitstatus status = -1 then none
    else collect n [] status (addInt childFiles (wexitstatus status))
  | n + 1, status :: waited, _, childFiles =>
    if wexitstatus status = -1 then none
    else collect n waited status (addInt childFiles (wexitstatus status))

def finish (mode : Mode) (path : List Byte) (dir : Entries) (scan : Scan) : Process :=
  match scan.last with
  | none => ⟨dir, scan.vars.said, .failure⟩
  | some (order, status) =>
    match collect scan.vars.numProcesses
        (order.arrange (scan.children.roots.map Process.status)) status 0 with
    | none => ⟨dir, scan.vars.said, .failure⟩
    | some childFiles =>
      let all := addInt scan.vars.numFiles childFiles
      ⟨dir, scan.vars.said ++
        if mode.shouldLog then [.total path scan.vars.numFiles all] else [], .files all⟩

/-- `main` from its first line, on a directory that it can open or not. -/
def mainOn (args : List (List Byte)) (opens : Bool) (dir : Entries)
    (readLoop : Mode → List Byte → Option Scan) : Option (Process × Forest Process) :=
  match arguments args with
  | none => some (⟨dir, [.usage], .usage⟩, .nil)
  | some (mode, path) =>
    if path.length + 1 ≤ 1024 then
      if opens then
        (readLoop mode path).map fun scan => (finish mode path dir scan, scan.children)
      else some (⟨dir, [.notADir path], .failure⟩, .nil)
    else none

/-- Lines 63–109. A child that executes the program is a run of `main` on its directory; one
that does not inherits the variables and goes on. `none` is a path that leaves its buffer. -/
def readLoop : Entries → Mode → List Byte → Vars → Option Scan
  | .done order status, _, _, vars => some ⟨vars, some (order, status), .nil⟩
  | .file name rest, mode, path, vars =>
    (entryPath path name).bind fun _ =>
      readLoop rest mode path { vars with numFiles := addInt vars.numFiles 1 }
  | .other name rest, mode, path, vars =>
    (entryPath path name).bind fun _ => readLoop rest mode path vars
  | .lstatFails name, _, path, vars =>
    (entryPath path name).map fun full =>
      ⟨{ vars with said := vars.said ++ [.cannotRead full name] }, none, .nil⟩
  | .forkFails name, _, path, vars =>
    (entryPath path name).map fun full =>
      ⟨⟨vars.numFiles, vars.numProcesses + 1, vars.said ++ [.forkingError full]⟩, none, .nil⟩
  | .directory name behind opens inside rest, mode, path, vars =>
    (entryPath path name).bind fun full =>
      (mainOn (execArgs mode behind full) opens inside
        fun mode path => readLoop inside mode path .start).bind fun (child, below) =>
        (readLoop rest mode path { vars with numProcesses := vars.numProcesses + 1 }).map
          fun scan => { scan with children := .cons child below scan.children }
  | .execFails name clone rest, mode, path, vars =>
    (entryPath path name).bind fun _ =>
      (readLoop clone mode path ⟨vars.numFiles, vars.numProcesses + 1, [.execlError]⟩).bind
        fun own =>
        (readLoop rest mode path { vars with numProcesses := vars.numProcesses + 1 }).map
          fun scan =>
          { scan with children := .cons (finish mode path clone own) own.children scan.children }

/-! ## §4  main -/

/-- A run of the program: the process itself and all processes below it. -/
def main (args : List (List Byte)) (opens : Bool) (dir : Entries) :
    Option (Process × Forest Process) :=
  mainOn args opens dir fun mode path => readLoop dir mode path .start

end Sysopy.FileCounter
