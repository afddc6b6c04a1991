import Sysopy.FileLock.Access
import Sysopy.FileLock.Release

/-!
# What a lock is good for

The kernel never lets two processes have locks on a byte that exclude each other. A
process that gets its lock while nobody else is between the check and the access of the
byte is alone with it until it gives the lock back: whoever asks afterwards is told.

## Sections

* §1 the locks of all processes
* §2 who has found the byte free
* §3 one process has the lock
-/

namespace Sysopy.FileLock

open Sysopy.Foundation

variable {P : Type*} [DecidableEq P] [Fintype P] {file : List Byte} {s t : State P}
  {a : Action P} {p q : P} {n : ℤ} {want l l' : LockType} {tr tr' : List (State P × Action P)}

/-! ## §1  The locks of all processes -/

theorem conflicts_symm (h : l.Conflicts l') : l'.Conflicts l := by
  cases l <;> cases l' <;> exact h

/-- No two processes have locks on a byte that exclude each other. -/
def Compatible (s : State P) : Prop :=
  ∀ p q n l l', p ≠ q → s.locks p n = some l → s.locks q n = some l' → ¬ l.Conflicts l'

theorem unlocked_of_granted {num : ℤ} (h : s.granted a = some (num, l)) :
    s.Unlocked a.actor num l := by
  unfold State.granted at h
  split at h
  next =>
    split at h
    next =>
      obtain ⟨hfree, heq⟩ := Option.ite_none_right_eq_some.mp h
      obtain ⟨rfl, rfl⟩ := Prod.mk.inj (Option.some.inj heq)
      exact hfree
    next =>
      obtain ⟨hfree, heq⟩ := Option.ite_none_right_eq_some.mp h
      obtain ⟨rfl, rfl⟩ := Prod.mk.inj (Option.some.inj heq)
      exact hfree
    next => exact absurd h nofun
  next => exact absurd h nofun

omit [Fintype P] in
theorem locks_set {num : ℤ} {o : Option LockType} {r : P}
    (h : s.locks.set r num o q n = some l) :
    (q = r ∧ n = num ∧ o = some l) ∨ s.locks q n = some l := by
  by_cases hq : q = r
  · by_cases hn : n = num
    · subst hq hn
      exact Or.inl ⟨rfl, rfl, LockTable.set_self.symm.trans h⟩
    · exact Or.inr (by rwa [LockTable.set_of_ne_byte hn] at h)
  · exact Or.inr (by rwa [LockTable.set_of_ne hq] at h)

theorem Compatible.next (hs : Compatible s) (hn : s.next a = some t) : Compatible t := by
  intro p q n l l' hpq hp hq
  cases State.next_touches hn with
  | keeps hkeep =>
      rw [hkeep] at hp hq
      exact hs p q n l l' hpq hp hq
  | grants num new hgranted _ hset =>
      have hfree := (unlocked_of_granted hgranted).2
      rw [hset] at hp hq
      rcases locks_set hp with ⟨rfl, rfl, hnew⟩ | hold
      · obtain rfl := Option.some.inj hnew
        rcases locks_set hq with ⟨rfl, -, -⟩ | hold'
        · exact absurd rfl hpq
        · exact hfree q hpq.symm l' hold'
      · rcases locks_set hq with ⟨rfl, rfl, hnew⟩ | hold'
        · obtain rfl := Option.some.inj hnew
          exact fun hc => hfree p hpq l hold (conflicts_symm hc)
        · exact hs p q n l l' hpq hold hold'
  | frees num hset =>
      rw [hset] at hp hq
      rcases locks_set hp with ⟨-, -, hnone⟩ | hold
      · exact absurd hnone nofun
      · rcases locks_set hq with ⟨-, -, hnone⟩ | hold'
        · exact absurd hnone nofun
        · exact hs p q n l l' hpq hold hold'
  | clears hclear =>
      have hkept : ∀ {r : P} {k : LockType}, t.locks r n = some k → s.locks r n = some k := by
        intro r k hr
        rw [hclear] at hr
        by_cases hra : r = a.actor
        · rw [hra, LockTable.clear_self] at hr
          exact absurd hr nofun
        · rwa [LockTable.clear_of_ne hra] at hr
      exact hs p q n l l' hpq (hkept hp) (hkept hq)

theorem run_compatible (h : (fileLock P file).Run tr s) : Compatible s :=
  h.invariant (I := fun _ s => Compatible s) (fun _ _ _ _ _ _ h => absurd h nofun)
    fun _ _ _ _ hs hn => hs.next hn

/-! ## §2  Who has found the byte free -/

/-- Only `F_GETLK` lets a process find a byte free. -/
theorem found_of_next (hn : s.next a = some t) (hfound : (t.pc q).found = some (n, want)) :
    (s.pc q).found = some (n, want) ∨ (q = a.actor ∧ s.Unlocked q n want) := by
  by_cases hq : q = a.actor
  · subst hq
    cases State.moves_of_next hn with
    | report p cmd hpc hcmd => exact Or.inl hfound
    | pass p cmd hpc hfree =>
        rw [Action.actor, State.goto_pc_self] at hfound
        obtain ⟨rfl, rfl⟩ := found_act hfound
        exact Or.inr ⟨rfl, hfree⟩
    | act p cmd hpc => exact Or.inl (found_of_act hpc hfound).1
    | character p num byte hpc =>
        rw [Action.actor, State.goto_pc_self] at hfound
        refine Or.inl ?_
        rw [Action.actor, hpc]
        exact hfound
    | check p cmd hpc hcmd | refuse p cmd hpc hlocked | read p num hpc | write p num byte hpc
    | exit p hpc =>
        rw [Action.actor, State.goto_pc_self] at hfound
        cases hfound
  · rw [State.next_pc_of_ne hn hq] at hfound
    exact Or.inl hfound

/-- No other process is about to do with the byte what the lock forbids. -/
def Undisturbed (p : P) (n : ℤ) (l : LockType) (s : State P) : Prop :=
  ∀ q, q ≠ p → ∀ want, (s.pc q).found = some (n, want) → ¬ want.Conflicts l

theorem Undisturbed.next (hs : Undisturbed p n l s) (hlock : s.locks p n = some l)
    (hn : s.next a = some t) : Undisturbed p n l t := by
  intro q hq want hfound
  rcases found_of_next hn hfound with hbefore | ⟨-, -, hfree⟩
  · exact hs q hq want hbefore
  · exact hfree p hq.symm l hlock

omit [DecidableEq P] [Fintype P] in
theorem found_of_accessed (h : s.accessed a = some (n, want)) :
    (s.pc a.actor).found = some (n, want) := by
  cases a with
  | enter p cmd | character p byte | exit p => cases h
  | step p =>
      simp only [State.accessed] at h
      split at h
      next num hpc => rwa [Action.actor, hpc]
      next num byte hpc => rwa [Action.actor, hpc]
      next => cases h

theorem run_found (h : (fileLock P file).Run tr s) :
    ∀ q n want, (s.pc q).found = some (n, want) → 0 ≤ n := by
  refine h.invariant (I := fun _ s => ∀ q n want, (s.pc q).found = some (n, want) → 0 ≤ n)
    (fun _ _ _ hfound => absurd hfound nofun) ?_
  intro _ s a t hs hn q n want hfound
  rcases found_of_next hn hfound with hbefore | ⟨-, hnum, -⟩
  · exact hs q n want hbefore
  · exact hnum

/-! ## §3  One process has the lock -/

theorem getElem?_store_of_ne {i off : ℕ} {b : Byte} {buf : List Byte} (hi : i ≠ off)
    (hoff : off ≤ buf.length) : (store off [b] buf)[i]? = buf[i]? := by
  have hlen : (buf.take off).length = off := List.length_take_of_le hoff
  rw [store, List.append_assoc]
  rcases Nat.lt_or_gt_of_ne hi with hlt | hgt
  · rw [List.getElem?_append_left (by omega), List.getElem?_take_of_lt hlt]
  · obtain ⟨k, rfl⟩ := Nat.exists_eq_add_of_lt hgt
    rw [List.getElem?_append_right (by omega), hlen, Nat.add_assoc, Nat.add_sub_cancel_left,
      List.singleton_append, List.getElem?_cons_succ, List.getElem?_drop]
    congr 1
    simp only [List.length_singleton]
    omega

omit [DecidableEq P] [Fintype P] in
/-- Where the file ends before the byte that is written, zeros come in between. -/
theorem getElem?_write {num : ℤ} {byte : Byte} {i : ℕ} (hi : i ≠ num.toNat) :
    (s.write num byte).file[i]? = s.file[i]? ∨
      s.file[i]? = none ∧ (s.write num byte).file[i]? = some 0 := by
  have hpad : num.toNat ≤ (zeroPadded num.toNat s.file).length := by
    rw [zeroPadded, List.length_append, List.length_replicate]
    omega
  rw [State.write, getElem?_store_of_ne hi hpad, zeroPadded]
  rcases Nat.lt_or_ge i s.file.length with hin | hout
  · exact Or.inl (List.getElem?_append_left hin)
  · rw [List.getElem?_append_right hout, List.getElem?_eq_none hout, List.getElem?_replicate]
    split_ifs
    · exact Or.inr ⟨rfl, rfl⟩
    · exact Or.inl rfl

/-- A step that does not write the byte leaves it, or makes it a zero where it was not yet
in the file. -/
theorem file_of_next (hplaced : ∀ q m want, (s.pc q).found = some (m, want) → 0 ≤ m)
    (hnum : 0 ≤ n) (hacc : s.accessed a ≠ some (n, .write)) (hn : s.next a = some t) :
    t.file[n.toNat]? = s.file[n.toNat]? ∨
      s.file[n.toNat]? = none ∧ t.file[n.toNat]? = some 0 := by
  have hact : ∀ (p : P) (cmd : Command), (s.act p cmd).file = s.file := by
    intro p cmd
    obtain ⟨index, num⟩ := cmd
    cases index with
    | printLocks => rfl
    | setReadLock | setWriteLock =>
        simp only [State.act, State.setLock]
        split_ifs <;> rfl
    | freeLock =>
        simp only [State.act, State.unlock]
        split_ifs <;> rfl
    | readCharacter | writeCharacter =>
        simp only [State.act]
        split_ifs <;> rfl
  cases State.moves_of_next hn with
  | act p cmd hpc => exact Or.inl (by rw [hact])
  | write p num byte hpc =>
      have hfound : (s.pc p).found = some (num, .write) := by rw [hpc]; rfl
      have hne : num ≠ n := by
        rintro rfl
        exact hacc (by simp [State.accessed, hpc])
      have hpos := hplaced p num .write hfound
      exact getElem?_write (by omega)
  | check | report | pass | refuse | read | character | exit => exact Or.inl rfl

/-- What may become of a byte that nobody writes: it stays as it is, and one behind the end
of the file may come into being as a zero. -/
def Untouched (before after : Option Byte) : Prop :=
  after = before ∨ before = none ∧ after = some 0

theorem Untouched.trans {x y z : Option Byte} (h : Untouched x y) (h' : Untouched y z) :
    Untouched x z := by
  rcases h' with rfl | ⟨hy, rfl⟩
  · exact h
  · rcases h with rfl | ⟨-, rfl⟩
    · exact Or.inr ⟨hy, rfl⟩
    · exact absurd hy (Option.some_ne_none 0)

/-- **Who has the lock is alone with the byte**: in every reachable state the locks of
different processes on a byte do not exclude each other. From a state in which a process
has a lock on a byte and no other one is between the check and a forbidden access, for
as long as it keeps the lock no other process reads or writes the byte against it, and
the byte changes only if the process itself writes it. -/
theorem isolated_while_locked (h : (fileLock P file).Run tr s) (hlock : s.locks p n = some l)
    (hquiet : Undisturbed p n l s) (h' : (fileLock P file).Path s tr' t)
    (hkeep : ∀ x ∈ tr', x.1.locks p n = some l) :
    Compatible t ∧
    (∀ x ∈ tr', x.2.actor ≠ p → ∀ want, x.1.accessed x.2 = some (n, want) →
      ¬ want.Conflicts l) ∧
    ((∀ x ∈ tr', x.2.actor = p → x.1.accessed x.2 ≠ some (n, .write)) →
      Untouched s.file[n.toNat]? t.file[n.toNat]?) := by
  have hnum : 0 ≤ n := run_placed h p n fun heq => absurd (heq.symm.trans hlock) nofun
  have hpath : Undisturbed p n l t ∧ ∀ x ∈ tr', Undisturbed p n l x.1 := by
    refine h'.invariant_of_steps
      (I := fun tr' t => Undisturbed p n l t ∧ ∀ x ∈ tr', Undisturbed p n l x.1)
      (C := fun s _ => s.locks p n = some l) hkeep
      ⟨hquiet, fun _ hx => absurd hx List.not_mem_nil⟩ ?_
    rintro tr' t a u ⟨ht, hall⟩ hheld hn
    refine ⟨ht.next hheld hn, ?_⟩
    rw [List.forall_mem_append, List.forall_mem_singleton]
    exact ⟨hall, ht⟩
  have hothers : ∀ x ∈ tr', x.2.actor ≠ p → ∀ want, x.1.accessed x.2 = some (n, want) →
      ¬ want.Conflicts l :=
    fun x hx hactor want hacc => hpath.2 x hx x.2.actor hactor want (found_of_accessed hacc)
  refine ⟨run_compatible (h.trans h'), hothers, fun hown => ?_⟩
  -- nobody writes the byte: to write is against every lock
  have hwrites : ∀ x ∈ tr', x.1.accessed x.2 ≠ some (n, .write) := by
    intro x hx hacc
    by_cases hactor : x.2.actor = p
    · exact hown x hx hactor hacc
    · exact hothers x hx hactor .write hacc (by cases l <;> trivial)
  refine (h'.invariant_of_steps (I := fun tr' t => Untouched s.file[n.toNat]? t.file[n.toNat]? ∧
    ∃ pre, (fileLock P file).Run pre t) (C := fun s a => s.accessed a ≠ some (n, .write))
    hwrites ⟨Or.inl rfl, tr, h⟩ ?_).1
  rintro tr' t a u ⟨ht, pre, hpre⟩ hacc hn
  exact ⟨ht.trans (file_of_next (run_found hpre) hnum hacc hn), _, hpre.snoc hn⟩

/-- The first process locks byte 1, behind the end of a file of one byte; the second one asks
and is told, and then writes byte 2. -/
theorem isolated_while_locked_asked :
    ∃ (tr tr' : List (State (Fin 2) × Action (Fin 2))) (s t : State (Fin 2)),
      (fileLock (Fin 2) [65]).Run tr s ∧ (fileLock (Fin 2) [65]).Path s tr' t ∧
      s.locks 0 1 = some .write ∧ s.file = [65] ∧ t.file = [65, 0, 66] ∧
      Untouched s.file[1]? t.file[1]? := by
  have hrun := (fileLock (Fin 2) [65]).run_of_replay
    [.enter 0 ⟨.setWriteLock, 1⟩, .step 0, .step 0] rfl
  refine ⟨_, _, _, _, hrun, System.path_of_replayFrom [.enter 1 ⟨.writeCharacter, 1⟩, .step 1,
    .enter 1 ⟨.writeCharacter, 2⟩, .step 1, .step 1, .character 1 66, .step 1] rfl,
    rfl, rfl, rfl, ?_⟩
  refine (isolated_while_locked (n := 1) (l := .write) hrun (p := 0) rfl ?_
    (System.path_of_replayFrom [.enter 1 ⟨.writeCharacter, 1⟩, .step 1,
      .enter 1 ⟨.writeCharacter, 2⟩, .step 1, .step 1, .character 1 66, .step 1] rfl) ?_).2.2 ?_
  · intro q _ want hfound
    match q with
    | 0 => exact absurd hfound nofun
    | 1 => exact absurd hfound nofun
  · simp only [List.forall_mem_cons]
    exact ⟨rfl, rfl, rfl, rfl, rfl, rfl, rfl, fun _ hx => absurd hx List.not_mem_nil⟩
  · simp only [List.forall_mem_cons]
    exact ⟨fun _ => nofun, fun _ => nofun, fun _ => nofun, fun _ => nofun, fun _ => nofun,
      fun _ => nofun, fun _ => nofun, fun _ hx => absurd hx List.not_mem_nil⟩

end Sysopy.FileLock
