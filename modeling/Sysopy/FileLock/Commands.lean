import Sysopy.Foundation.CString
import Sysopy.Foundation.Memory
import Sysopy.Foundation.RecordLocks
import Sysopy.Foundation.System

/-!
# The commands of file_lock

Any number of processes run `file_lock` on one file. Every command asks first, with
`F_GETLK`, whether a lock of another process is in its way, and then carries on without
asking again. The single calls of one process come between those of the others, and a
process may end at any moment, which gives its locks back.

`fcntl` fails for a negative byte, and `F_SETLK` also for a lock that another process
keeps from being granted. What the commands print is left out, with the byte that
`read_character` reads; the report of `print_locks` has a module of its own.

## Sections

* §1 commands
* §2 one step
* §3 what a step does
-/

namespace Sysopy.FileLock

open Sysopy.Foundation

/-! ## §1  Commands -/

inductive CmdIndex
  /-- `STRDLCK_IND` -/
  | setReadLock
  /-- `STWRLCK_IND` -/
  | setWriteLock
  /-- `PRTLCKS_IND` -/
  | printLocks
  /-- `FRELCK_IND` -/
  | freeLock
  /-- `RDCAHR_IND` -/
  | readCharacter
  /-- `WRTCHR_IND` -/
  | writeCharacter
deriving DecidableEq

structure Command where
  cmdIndex : CmdIndex
  num : ℤ
deriving DecidableEq

/-- `flock_ltype`, the lock that `F_GETLK` is asked for; `print_locks` returns before. -/
def CmdIndex.flockLtype : CmdIndex → LockType
  | .setReadLock | .readCharacter | .printLocks => .read
  | .setWriteLock | .freeLock | .writeCharacter => .write

inductive Pc
  /-- at `fgets` in `main` -/
  | prompt
  /-- in `try_lock`, before `F_GETLK` -/
  | check (cmd : Command)
  /-- before the `F_SETLK` or the `lseek` of the command -/
  | act (cmd : Command)
  /-- before `read` -/
  | atRead (num : ℤ)
  /-- at `fgets` of the character to write -/
  | atEnter (num : ℤ)
  /-- before `write` -/
  | atWrite (num : ℤ) (byte : Byte)
  | ended
deriving DecidableEq

/-! ## §2  One step -/

structure State (P : Type*) where
  pc : P → Pc
  locks : LockTable P ℤ
  file : List Byte

inductive Action (P : Type*)
  /-- a command is entered -/
  | enter (p : P) (cmd : Command)
  /-- the next call of a process -/
  | step (p : P)
  /-- the character is entered -/
  | character (p : P) (byte : Byte)
  /-- the process ends -/
  | exit (p : P)

namespace State

variable {P : Type*} [DecidableEq P] [Fintype P]

def goto (s : State P) (p : P) (pc : Pc) : State P := { s with pc := Function.update s.pc p pc }

/-- `F_GETLK` for one byte, which leaves `F_UNLCK`. -/
def Unlocked (s : State P) (p : P) (num : ℤ) (want : LockType) : Prop :=
  0 ≤ num ∧ s.locks.Free p num want

instance (s : State P) (p : P) (num : ℤ) (want : LockType) : Decidable (s.Unlocked p num want) :=
  inferInstanceAs (Decidable (0 ≤ num ∧ s.locks.Free p num want))

/-- `F_SETLK` for one byte, with `F_RDLCK` or `F_WRLCK`, which the command ends with. -/
def setLock (s : State P) (p : P) (num : ℤ) (want : LockType) : State P :=
  if s.Unlocked p num want then
    { s.goto p .prompt with locks := s.locks.set p num (some want) }
  else s.goto p .prompt

/-- `F_SETLK` with `F_UNLCK`. -/
def unlock (s : State P) (p : P) (num : ℤ) : State P :=
  if 0 ≤ num then { s.goto p .prompt with locks := s.locks.set p num none }
  else s.goto p .prompt

/-- `write` of one byte at the place; behind the end the gap is filled with zeros. -/
def write (s : State P) (num : ℤ) (byte : Byte) : State P :=
  { s with file := store num.toNat [byte] (zeroPadded num.toNat s.file) }

/-- The second `switch` of `try_lock`. -/
def act (s : State P) (p : P) (cmd : Command) : State P :=
  match cmd.cmdIndex with
  | .setReadLock => s.setLock p cmd.num .read
  | .setWriteLock => s.setLock p cmd.num .write
  | .freeLock => s.unlock p cmd.num
  | .readCharacter => if 0 ≤ cmd.num then s.goto p (.atRead cmd.num) else s.goto p .prompt
  | .writeCharacter => if 0 ≤ cmd.num then s.goto p (.atEnter cmd.num) else s.goto p .prompt
  | .printLocks => s.goto p .prompt

def next (s : State P) : Action P → Option (State P)
  | .enter p cmd =>
      if s.pc p = .prompt then
        -- `print_locks` leaves the report to a child that has no locks
        some (if cmd.cmdIndex = .printLocks then s else s.goto p (.check cmd))
      else none
  | .step p =>
      match s.pc p with
      | .check cmd =>
          some (if s.Unlocked p cmd.num cmd.cmdIndex.flockLtype then s.goto p (.act cmd)
            else s.goto p .prompt)
      | .act cmd => some (s.act p cmd)
      | .atRead _ => some (s.goto p .prompt)
      | .atWrite num byte => some ((s.write num byte).goto p .prompt)
      | _ => none
  | .character p byte =>
      match s.pc p with
      | .atEnter num => some (s.goto p (.atWrite num byte))
      | _ => none
  | .exit p =>
      if s.pc p = .ended then none
      else some { s.goto p .ended with locks := s.locks.clear p }

end State

def fileLock (P : Type*) [DecidableEq P] [Fintype P] (file : List Byte) :
    System (State P) (Action P) where
  init := { pc := fun _ => .prompt, locks := fun _ _ => none, file := file }
  next := State.next

/-! ## §3  What a step does -/

def Action.actor {P : Type*} : Action P → P
  | .enter p _ | .step p | .character p _ | .exit p => p

namespace State

variable {P : Type*} [DecidableEq P] [Fintype P] {s t : State P} {a : Action P} {p q : P}
  {n : ℤ} {want : LockType}

omit [Fintype P] in
theorem goto_pc_self (pc : Pc) : (s.goto p pc).pc p = pc := Function.update_self ..

/-- The steps, and where they lead. -/
inductive Moves (s : State P) : Action P → State P → Prop
  | check (p : P) (cmd : Command) (hpc : s.pc p = .prompt) (hcmd : cmd.cmdIndex ≠ .printLocks) :
      Moves s (.enter p cmd) (s.goto p (.check cmd))
  | report (p : P) (cmd : Command) (hpc : s.pc p = .prompt)
      (hcmd : cmd.cmdIndex = .printLocks) : Moves s (.enter p cmd) s
  | pass (p : P) (cmd : Command) (hpc : s.pc p = .check cmd)
      (hfree : s.Unlocked p cmd.num cmd.cmdIndex.flockLtype) :
      Moves s (.step p) (s.goto p (.act cmd))
  | refuse (p : P) (cmd : Command) (hpc : s.pc p = .check cmd)
      (hlocked : ¬s.Unlocked p cmd.num cmd.cmdIndex.flockLtype) :
      Moves s (.step p) (s.goto p .prompt)
  | act (p : P) (cmd : Command) (hpc : s.pc p = .act cmd) : Moves s (.step p) (s.act p cmd)
  | read (p : P) (num : ℤ) (hpc : s.pc p = .atRead num) :
      Moves s (.step p) (s.goto p .prompt)
  | write (p : P) (num : ℤ) (byte : Byte) (hpc : s.pc p = .atWrite num byte) :
      Moves s (.step p) ((s.write num byte).goto p .prompt)
  | character (p : P) (num : ℤ) (byte : Byte) (hpc : s.pc p = .atEnter num) :
      Moves s (.character p byte) (s.goto p (.atWrite num byte))
  | exit (p : P) (hpc : s.pc p ≠ .ended) :
      Moves s (.exit p) { s.goto p .ended with locks := s.locks.clear p }

theorem moves_of_next (h : s.next a = some t) : s.Moves a t := by
  cases a with
  | enter p cmd =>
      simp only [next, Option.ite_none_right_eq_some, Option.some.injEq] at h
      obtain ⟨hpc, rfl⟩ := h
      split_ifs with hcmd
      · exact .report p cmd hpc hcmd
      · exact .check p cmd hpc hcmd
  | step p =>
      simp only [next] at h
      split at h
      · obtain rfl := Option.some.inj h
        split_ifs with hfree
        · exact .pass p _ ‹_› hfree
        · exact .refuse p _ ‹_› hfree
      · obtain rfl := Option.some.inj h
        exact .act p _ ‹_›
      · obtain rfl := Option.some.inj h
        exact .read p _ ‹_›
      · obtain rfl := Option.some.inj h
        exact .write p _ _ ‹_›
      · cases h
  | character p byte =>
      simp only [next] at h
      split at h
      · obtain rfl := Option.some.inj h
        exact .character p _ byte ‹_›
      · cases h
  | exit p =>
      simp only [next, Option.ite_none_left_eq_some, Option.some.injEq] at h
      obtain ⟨hpc, rfl⟩ := h
      exact .exit p hpc

def granted (s : State P) : Action P → Option (ℤ × LockType)
  | .step p =>
      match s.pc p with
      | .act ⟨.setReadLock, num⟩ =>
          if s.Unlocked p num .read then some (num, .read) else none
      | .act ⟨.setWriteLock, num⟩ =>
          if s.Unlocked p num .write then some (num, .write) else none
      | _ => none
  | _ => none

/-- What a step may do to the locks of its process. -/
inductive Touches (s : State P) (a : Action P) (t : State P) : Prop
  | keeps (h : t.locks = s.locks)
  | grants (num : ℤ) (l : LockType) (hgranted : s.granted a = some (num, l)) (hnum : 0 ≤ num)
      (h : t.locks = s.locks.set a.actor num (some l))
  | frees (num : ℤ) (h : t.locks = s.locks.set a.actor num none)
  | clears (h : t.locks = s.locks.clear a.actor)

theorem touches_act {cmd : Command} (hpc : s.pc p = .act cmd) :
    s.Touches (.step p) (s.act p cmd) := by
  obtain ⟨index, num⟩ := cmd
  cases index with
  | setReadLock =>
      show s.Touches _ (s.setLock p num .read)
      unfold setLock
      split_ifs with hfree
      · exact .grants num .read (by simp [granted, hpc, hfree]) hfree.1 rfl
      · exact .keeps rfl
  | setWriteLock =>
      show s.Touches _ (s.setLock p num .write)
      unfold setLock
      split_ifs with hfree
      · exact .grants num .write (by simp [granted, hpc, hfree]) hfree.1 rfl
      · exact .keeps rfl
  | printLocks => exact .keeps rfl
  | freeLock =>
      show s.Touches _ (s.unlock p num)
      unfold unlock
      split_ifs
      · exact .frees num rfl
      · exact .keeps rfl
  | readCharacter =>
      show s.Touches _ (if 0 ≤ num then _ else _)
      split_ifs <;> exact .keeps rfl
  | writeCharacter =>
      show s.Touches _ (if 0 ≤ num then _ else _)
      split_ifs <;> exact .keeps rfl

theorem next_touches (h : s.next a = some t) : s.Touches a t := by
  cases moves_of_next h with
  | act p cmd hpc => exact touches_act hpc
  | exit p hpc => exact .clears rfl
  | check p cmd hpc hcmd | report p cmd hpc hcmd | pass p cmd hpc hfree
  | refuse p cmd hpc hlocked | read p num hpc | write p num byte hpc
  | character p num byte hpc => exact .keeps rfl

/-- A lock was there before, or the step sets it on a byte that `fcntl` takes. -/
theorem held_of_next (h : s.next a = some t) (hn : t.locks q n ≠ none) :
    s.locks q n ≠ none ∨ 0 ≤ n ∧ ∃ l, s.granted a = some (n, l) := by
  cases next_touches h with
  | keeps h => exact Or.inl (h ▸ hn)
  | grants num l hgranted hnum h =>
      by_cases hnum' : n = num
      · subst hnum'
        exact Or.inr ⟨hnum, l, hgranted⟩
      · exact Or.inl (by rwa [h, LockTable.set_of_ne_byte hnum'] at hn)
  | frees num h =>
      rw [h] at hn
      by_cases hq : q = a.actor
      · by_cases hnum : n = num
        · exact absurd (by rw [hq, hnum, LockTable.set_self]) hn
        · exact Or.inl (by rwa [LockTable.set_of_ne_byte hnum] at hn)
      · exact Or.inl (by rwa [LockTable.set_of_ne hq] at hn)
  | clears h =>
      rw [h] at hn
      by_cases hq : q = a.actor
      · exact absurd (by rw [hq, LockTable.clear_self]) hn
      · exact Or.inl (by rwa [LockTable.clear_of_ne hq] at hn)

theorem exists_act_pc (cmd : Command) :
    ∃ pc, (s.act p cmd).pc = Function.update s.pc p pc := by
  obtain ⟨index, num⟩ := cmd
  cases index with
  | printLocks => exact ⟨_, rfl⟩
  | setReadLock | setWriteLock =>
      simp only [act, setLock]
      split_ifs <;> exact ⟨_, rfl⟩
  | freeLock =>
      simp only [act, unlock]
      split_ifs <;> exact ⟨_, rfl⟩
  | readCharacter | writeCharacter =>
      simp only [act]
      split_ifs <;> exact ⟨_, rfl⟩

theorem exists_next_pc (h : s.next a = some t) :
    ∃ pc, t.pc = Function.update s.pc a.actor pc := by
  cases moves_of_next h with
  | report p cmd hpc hcmd => exact ⟨s.pc p, (Function.update_eq_self p s.pc).symm⟩
  | act p cmd hpc => exact exists_act_pc cmd
  | check p cmd hpc hcmd | pass p cmd hpc hfree | refuse p cmd hpc hlocked | read p num hpc
  | write p num byte hpc | character p num byte hpc | exit p hpc => exact ⟨_, rfl⟩

theorem next_pc_of_ne (h : s.next a = some t) (hq : q ≠ a.actor) : t.pc q = s.pc q := by
  obtain ⟨pc, hpc⟩ := exists_next_pc h
  rw [hpc, Function.update_of_ne hq]

theorem next_locks_of_ne (h : s.next a = some t) (hq : q ≠ a.actor) : t.locks q = s.locks q := by
  cases next_touches h with
  | keeps h => rw [h]
  | grants num l _ _ h => rw [h, LockTable.set_of_ne hq]
  | frees num h => rw [h, LockTable.set_of_ne hq]
  | clears h => rw [h, LockTable.clear_of_ne hq]

end State

end Sysopy.FileLock
