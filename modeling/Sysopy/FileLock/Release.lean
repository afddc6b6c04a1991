import Sysopy.FileLock.Commands

/-!
# Giving a lock back

`free_lock` asks like the commands that take a lock, and for a lock to write. A lock to
read that another process has on the byte too is then in the way, and the command ends
with the lock still there.
-/

namespace Sysopy.FileLock

open Sysopy.Foundation

variable {P : Type*} [DecidableEq P] [Fintype P] {file : List Byte} {s t u : State P} {p : P}
  {n : ℤ} {tr : List (State P × Action P)}

/-- `fcntl` takes locks on the bytes of the file only. -/
def Placed (s : State P) : Prop := ∀ p n, s.locks p n ≠ none → 0 ≤ n

theorem run_placed (h : (fileLock P file).Run tr s) : Placed s := by
  refine h.invariant (I := fun _ s => Placed s) (fun p n hn => absurd rfl hn) ?_
  intro tr s a t ih hnext q m hm
  exact (State.held_of_next hnext hm).elim (ih q m) And.left

/-- The process is back at the prompt with this lock on the byte, or has ended. -/
def Back (p : P) (n : ℤ) (o : Option LockType) (s : State P) : Prop :=
  s.pc p = .prompt ∧ s.locks p n = o ∨ s.pc p = .ended

/-- Until it is given a new command, a process keeps its locks at the prompt. -/
theorem Back.next {o : Option LockType} {a : Action P} (h : Back p n o s)
    (ha : ∀ cmd, a ≠ .enter p cmd) (hnext : s.next a = some t) : Back p n o t := by
  by_cases hp : p = a.actor
  · have hidle : s.pc a.actor = .prompt ∨ s.pc a.actor = .ended :=
      hp ▸ h.imp_left And.left
    subst hp
    cases State.moves_of_next hnext with
    | check q cmd | report q cmd => exact absurd rfl (ha cmd)
    | exit q => exact Or.inr (Function.update_self ..)
    | pass q cmd hpc | refuse q cmd hpc | act q cmd hpc | read q num hpc | write q num byte hpc
    | character q num byte hpc =>
        -- from the prompt there is no such step
        rcases hidle with hidle | hidle <;> cases hpc.symm.trans hidle
  · rw [Back, State.next_pc_of_ne hnext hp, State.next_locks_of_ne hnext hp]
    exact h

theorem releasing_next {a : Action P} (hn : 0 ≤ n)
    (h : s.pc p = .act ⟨.freeLock, n⟩ ∨ Back p n none s) (ha : ∀ cmd, a ≠ .enter p cmd)
    (hnext : s.next a = some t) : t.pc p = .act ⟨.freeLock, n⟩ ∨ Back p n none t := by
  rcases h with hfree | hback
  · by_cases hp : p = a.actor
    · subst hp
      cases State.moves_of_next hnext with
      | check q cmd | report q cmd => exact absurd rfl (ha cmd)
      | act q cmd hpc =>
          obtain rfl := Pc.act.inj (hpc.symm.trans hfree)
          rw [State.act, State.unlock, if_pos hn]
          exact Or.inr (Or.inl ⟨Function.update_self .., LockTable.set_self⟩)
      | exit q => exact Or.inr (Or.inr (Function.update_self ..))
      | pass q cmd hpc | refuse q cmd hpc | read q num hpc | write q num byte hpc
      | character q num byte hpc => cases hpc.symm.trans hfree
    · rw [State.next_pc_of_ne hnext hp]
      exact Or.inl hfree
  · exact Or.inr (hback.next ha hnext)

/-- **A lock can be given back exactly when no other process has a lock on the byte**: at
the end of `free_lock` the process has none there, if and only if `F_GETLK` at the
beginning of the command finds nobody else's. -/
theorem given_back_iff_alone (hrun : (fileLock P file).Run tr s)
    (hpc : s.pc p = .check ⟨.freeLock, n⟩) (hown : s.locks p n ≠ none)
    (hcheck : s.next (.step p) = some u) {tr' : List (State P × Action P)}
    (hpath : (fileLock P file).Path u tr' t) (hsame : ∀ x ∈ tr', ∀ cmd, x.2 ≠ .enter p cmd)
    (hend : t.pc p = .prompt) : t.locks p n = none ↔ ∀ q, q ≠ p → s.locks q n = none := by
  have hn : 0 ≤ n := run_placed hrun p n hown
  have hback {o : Option LockType} (h : Back p n o t) : t.locks p n = o :=
    h.elim And.right fun hended => by cases hend.symm.trans hended
  rw [← LockTable.free_write_iff]
  simp only [State.next, hpc, Option.some.injEq] at hcheck
  by_cases hfree : s.locks.Free p n .write
  · rw [if_pos ⟨hn, hfree⟩] at hcheck
    subst hcheck
    have hgone := hpath.invariant_of_steps
      (I := fun _ s => s.pc p = .act ⟨.freeLock, n⟩ ∨ Back p n none s) hsame
      (Or.inl (Function.update_self ..))
      fun _ _ _ _ h ha hnext => releasing_next hn h ha hnext
    exact iff_of_true (hgone.elim (fun hact => by cases hend.symm.trans hact) hback) hfree
  · rw [if_neg fun h => hfree h.2] at hcheck
    subst hcheck
    have hkept := hpath.invariant_of_steps (I := fun _ s' => Back p n (s.locks p n) s') hsame
      (Or.inl ⟨Function.update_self .., rfl⟩) fun _ _ _ _ h ha hnext => h.next ha hnext
    exact iff_of_false (fun h => hown ((hback hkept).symm.trans h)) hfree

/-- The first process takes a lock and gives it back, while the second one reads. -/
theorem given_back_iff_alone_first :
    ∃ (tr tr' : List (State (Fin 2) × Action (Fin 2))) (s t u : State (Fin 2)),
      (fileLock (Fin 2) [65, 66]).Run tr s ∧ s.next (.step 0) = some u ∧
      (fileLock (Fin 2) [65, 66]).Path u tr' t ∧ s.locks 0 0 = some .write ∧
      (t.locks 0 0 = none ↔ ∀ q, q ≠ 0 → s.locks q 0 = none) := by
  have hrun := (fileLock (Fin 2) [65, 66]).run_of_replay
    [.enter 0 ⟨.setWriteLock, 0⟩, .step 0, .step 0, .enter 1 ⟨.setReadLock, 1⟩, .step 1,
      .enter 0 ⟨.freeLock, 0⟩] rfl
  refine ⟨_, _, _, _, _, hrun, rfl, System.path_of_replayFrom [.step 1, .step 0] rfl, rfl, ?_⟩
  exact given_back_iff_alone hrun rfl (by decide) rfl
    (System.path_of_replayFrom [.step 1, .step 0] rfl) (by simp) rfl

/-- Two processes have a lock to read on byte 0, and neither can give it back. -/
theorem shared_lock_stays :
    ∃ (tr : List (State (Fin 2) × Action (Fin 2))) (s t : State (Fin 2)),
      (fileLock (Fin 2) [65]).Run tr s ∧ s.pc 0 = .check ⟨.freeLock, 0⟩ ∧
      s.locks 0 0 = some .read ∧ s.next (.step 0) = some t ∧ t.pc 0 = .prompt ∧
      t.locks 0 0 = some .read :=
  ⟨_, _, _, System.run_of_replay (M := fileLock (Fin 2) [65])
    [.enter 0 ⟨.setReadLock, 0⟩, .step 0, .step 0, .enter 1 ⟨.setReadLock, 0⟩, .step 1,
      .step 1, .enter 0 ⟨.freeLock, 0⟩] rfl, rfl, rfl, rfl, rfl, rfl⟩

end Sysopy.FileLock
