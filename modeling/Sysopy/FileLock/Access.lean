import Sysopy.FileLock.Commands

/-!
# Reading and writing a byte

`read_character` and `write_character` ask whether a lock of another process is in their
way, but take no lock themselves. Until they read or write the byte, another process may
set a lock on it, above all while `write_character` waits for the character.

## Sections

* §1 between the check and the access
* §2 all steps
-/

namespace Sysopy.FileLock

open Sysopy.Foundation

variable {P : Type*} [DecidableEq P] [Fintype P] {file : List Byte} {s t : State P}
  {a : Action P} {p : P} {n : ℤ} {want : LockType} {tr : List (State P × Action P)}

/-! ## §1  Between the check and the access -/

/-- The byte that a process has found free, and for which kind of access. -/
def Pc.found : Pc → Option (ℤ × LockType)
  | .act ⟨.readCharacter, num⟩ | .atRead num => some (num, .read)
  | .act ⟨.writeCharacter, num⟩ | .atEnter num | .atWrite num _ => some (num, .write)
  | _ => none

/-- No `F_SETLK` grants a lock on a byte against another process that has found the byte
free and has not read or written it yet. -/
def Careful (s : State P) (a : Action P) : Prop :=
  ∀ num l, s.granted a = some (num, l) →
    ∀ q, q ≠ a.actor → ∀ want, (s.pc q).found = some (num, want) → ¬want.Conflicts l

theorem found_act {cmd : Command} (h : (Pc.act cmd).found = some (n, want)) :
    n = cmd.num ∧ want = cmd.cmdIndex.flockLtype := by
  obtain ⟨index, num⟩ := cmd
  cases index with
  | readCharacter | writeCharacter =>
      obtain ⟨rfl, rfl⟩ := Prod.mk.inj (Option.some.inj h)
      exact ⟨rfl, rfl⟩
  | setReadLock | setWriteLock | printLocks | freeLock => cases h

/-- What a process has found free still is. -/
def Guarded (s : State P) : Prop :=
  ∀ p n want, (s.pc p).found = some (n, want) → s.locks.Free p n want

def State.accessed (s : State P) : Action P → Option (ℤ × LockType)
  | .step p =>
      match s.pc p with
      | .atRead num => some (num, .read)
      | .atWrite num _ => some (num, .write)
      | _ => none
  | _ => none

/-- No other process has a lock in the way of the step: no lock to write when it reads,
no lock when it writes. -/
def Protected (s : State P) (a : Action P) : Prop :=
  ∀ num want, s.accessed a = some (num, want) → s.locks.Free a.actor num want

omit [DecidableEq P] [Fintype P] in
theorem Guarded.protected (h : Guarded s) : Protected s a := by
  intro num want hacc
  cases a with
  | enter p cmd | character p byte | exit p => cases hacc
  | step p =>
      refine h p num want ?_
      simp only [State.accessed] at hacc
      split at hacc
      · rwa [‹s.pc p = _›]
      · rwa [‹s.pc p = _›]
      · cases hacc

/-! ## §2  All steps -/

theorem Guarded.others (h : Guarded s) (ha : Careful s a) (hnext : s.next a = some t)
    (hp : p ≠ a.actor) (hfound : (t.pc p).found = some (n, want)) :
    t.locks.Free p n want := by
  rw [State.next_pc_of_ne hnext hp] at hfound
  have hfree := h p n want hfound
  cases State.next_touches hnext with
  | keeps h => exact h ▸ hfree
  | grants num l hgranted _ hset =>
      rw [hset]
      refine hfree.set fun _ hnum l' hl' => ?_
      obtain rfl := Option.some.inj hl'
      exact ha num l hgranted p hp want (hnum ▸ hfound)
  | frees num hset =>
      rw [hset]
      exact hfree.set fun _ _ l hl => absurd hl nofun
  | clears hset => exact hset ▸ hfree.clear

/-- Only `read_character` and `write_character` go on with the byte. -/
theorem found_of_act {cmd : Command} (hpc : s.pc p = .act cmd)
    (hfound : ((s.act p cmd).pc p).found = some (n, want)) :
    (s.pc p).found = some (n, want) ∧ (s.act p cmd).locks = s.locks := by
  obtain ⟨index, num⟩ := cmd
  rw [hpc]
  cases index with
  | setReadLock | setWriteLock =>
      have hpc' (l : LockType) : (s.setLock p num l).pc p = .prompt := by
        unfold State.setLock
        split_ifs <;> exact State.goto_pc_self _
      rw [State.act, hpc'] at hfound
      cases hfound
  | freeLock =>
      have hpc' : (s.unlock p num).pc p = .prompt := by
        unfold State.unlock
        split_ifs <;> exact State.goto_pc_self _
      rw [State.act, hpc'] at hfound
      cases hfound
  | printLocks =>
      simp only [State.act, State.goto_pc_self] at hfound
      cases hfound
  | readCharacter | writeCharacter =>
      simp only [State.act] at hfound ⊢
      split_ifs at hfound ⊢
      · rw [State.goto_pc_self] at hfound
        exact ⟨hfound, rfl⟩
      · rw [State.goto_pc_self] at hfound
        cases hfound

/-- The process itself has just found the byte free, or goes on with it. -/
theorem Guarded.self (h : Guarded s) (hnext : s.next a = some t)
    (hfound : (t.pc a.actor).found = some (n, want)) : t.locks.Free a.actor n want := by
  cases State.moves_of_next hnext with
  | report p cmd hpc hcmd =>
      rw [show s.pc (Action.enter p cmd).actor = _ from hpc] at hfound
      cases hfound
  | pass p cmd hpc hfree =>
      -- the only step that finds a byte free: `F_GETLK` has just said so
      rw [Action.actor, State.goto_pc_self] at hfound
      obtain ⟨rfl, rfl⟩ := found_act hfound
      exact hfree.2
  | act p cmd hpc =>
      obtain ⟨hbefore, hlocks⟩ := found_of_act hpc hfound
      rw [hlocks]
      exact h p n want hbefore
  | character p num byte hpc =>
      rw [Action.actor, State.goto_pc_self] at hfound
      refine h p n want ?_
      rw [hpc]
      exact hfound
  | check p cmd hpc hcmd | refuse p cmd hpc hlocked | read p num hpc | write p num byte hpc
  | exit p hpc =>
      rw [Action.actor, State.goto_pc_self] at hfound
      cases hfound

theorem Guarded.next (h : Guarded s) (ha : Careful s a) (hnext : s.next a = some t) :
    Guarded t := by
  intro p n want hfound
  by_cases hp : p = a.actor
  · subst hp
    exact h.self hnext hfound
  · exact h.others ha hnext hp hfound

/-- **The locks protect the bytes as long as none is set on a byte between the check and
the access of another process**: in such a run every byte is read and written while no
other process has a lock in the way. -/
theorem protected_of_careful (h : (fileLock P file).Run tr s)
    (hcareful : ∀ x ∈ tr, Careful x.1 x.2) : ∀ x ∈ tr, Protected x.1 x.2 := by
  have hrun := h.invariant_of_steps (I := fun tr s => Guarded s ∧ ∀ x ∈ tr, Protected x.1 x.2)
    hcareful ⟨fun _ _ _ hfound => absurd hfound nofun, fun _ hx => absurd hx List.not_mem_nil⟩
    fun tr s a t ih ha hnext => ⟨ih.1.next ha hnext, ?_⟩
  · exact hrun.2
  · rw [List.forall_mem_append, List.forall_mem_singleton]
    exact ⟨ih.2, ih.1.protected⟩

/-- A process writes byte 0 while the other one has a lock on byte 1. -/
theorem protected_of_careful_write :
    ∃ (tr : List (State (Fin 2) × Action (Fin 2))) (s : State (Fin 2)),
      (fileLock (Fin 2) [65, 66]).Run tr s ∧ s.file = [90, 66] ∧
      ∀ x ∈ tr, Protected x.1 x.2 := by
  have hrun := (fileLock (Fin 2) [65, 66]).run_of_replay
    [.enter 0 ⟨.writeCharacter, 0⟩, .step 0, .enter 1 ⟨.setReadLock, 1⟩, .step 1, .step 0,
      .step 1, .character 0 90, .step 0] rfl
  have hquiet {s : State (Fin 2)} {a : Action (Fin 2)} (h : s.granted a = none) : Careful s a :=
    fun num l hgranted => absurd (h.symm.trans hgranted) nofun
  refine ⟨_, _, hrun, rfl, protected_of_careful hrun ?_⟩
  simp only [List.forall_mem_cons]
  refine ⟨hquiet rfl, hquiet rfl, hquiet rfl, hquiet rfl, hquiet rfl, ?_, hquiet rfl, hquiet rfl,
    fun _ hx => absurd hx List.not_mem_nil⟩
  intro num l hgranted q hq want hfound
  obtain ⟨rfl, rfl⟩ := Prod.mk.inj (Option.some.inj hgranted)
  match q with
  | 0 =>
      have hbyte : some ((0 : ℤ), LockType.write) = some (1, want) := hfound
      exact absurd (Prod.mk.inj (Option.some.inj hbyte)).1 (by decide)
  | 1 => exact absurd rfl hq

/-- A process sets a lock to write on byte 0 while the other one waits for the character
to write there. -/
theorem locked_byte_is_written :
    ∃ (tr : List (State (Fin 2) × Action (Fin 2))) (s t : State (Fin 2)),
      (fileLock (Fin 2) [65]).Run tr s ∧ s.next (.step 0) = some t ∧
      s.pc 0 = .atWrite 0 90 ∧ t.file = [90] ∧ s.locks 1 0 = some .write ∧
      ¬Protected s (.step 0) := by
  refine ⟨_, _, _, System.run_of_replay (M := fileLock (Fin 2) [65])
    [.enter 0 ⟨.writeCharacter, 0⟩, .step 0, .step 0, .enter 1 ⟨.setWriteLock, 0⟩, .step 1,
      .step 1, .character 0 90] rfl, rfl, rfl, rfl, rfl, fun h => ?_⟩
  exact absurd (h 0 .write rfl) (by decide)

end Sysopy.FileLock
