import Sysopy.FileLock.Release
import Sysopy.Foundation.Ints
import Sysopy.Foundation.LockRanges

/-!
# The report of print_locks

A child of the process that is asked goes over the bytes of the file and lists the lock
that `F_GETLK` finds on each. The child has no locks, so that those of its parent are in
its way like all others. But one call names one owner, and the bytes end where the file
does, while a lock may lie anywhere. The child ends with `_exit`, which leaves behind what
stdio has not passed on yet.

## Sections

* §1 the scan
* §2 where locks are
* §3 what is shown
-/

namespace Sysopy.FileLock

open Sysopy.Foundation

/-! ## §1  The scan -/

section Scan

variable {P : Type*} {fcntl : ℤ → Option (Option (Flock P))} {lock : Flock P}

/-- The passes of the loop from `counter` on. The call gives `none` where it returns -1,
and `some none` where it leaves `F_UNLCK`; the locks are those that are printed. -/
def printFrom (fcntl : ℤ → Option (Option (Flock P))) (counter : ℤ) : ℕ → List (Flock P)
  | 0 => []
  | passes + 1 =>
      match fcntl counter with
      | none => []
      | some none => printFrom fcntl (counter + 1) passes
      | some (some lock) => lock :: printFrom fcntl (counter + 1) passes

/-- `print_locks`, for the size that `lstat` finds: the locks for which `printf` is called -/
def printLocks (fcntl : ℤ → Option (Option (Flock P))) (stSize : ℕ) : List (Flock P) :=
  let fileSize := toInt stSize
  printFrom fcntl 0 fileSize.toNat

/-- How stdio buffers the output: on a terminal by lines, else in blocks. -/
inductive Stdout
  | lineBuffered
  | fullyBuffered

/-- The locks whose lines have got out of the child when `_exit(0)` ends it without a flush.
A block is passed on when it is full; how long it is, the library decides. -/
def Transmitted : Stdout → List (Flock P) → List (Flock P) → Prop
  | .lineBuffered, printed, out => out = printed
  | .fullyBuffered, printed, out => out <+: printed

theorem Transmitted.subset {stdout : Stdout} {printed out : List (Flock P)}
    (h : Transmitted stdout printed out) : out ⊆ printed := by
  cases stdout with
  | lineBuffered =>
      obtain rfl := h
      exact List.Subset.refl _
  | fullyBuffered => exact List.IsPrefix.subset h

theorem mem_printFrom {passes : ℕ} : ∀ {counter : ℤ},
    (∀ n, counter ≤ n → fcntl n ≠ none) → (lock ∈ printFrom fcntl counter passes ↔
      ∃ n, counter ≤ n ∧ n < counter + passes ∧ fcntl n = some (some lock)) := by
  induction passes with
  | zero =>
      intro counter _
      refine iff_of_false List.not_mem_nil ?_
      rintro ⟨n, hle, hlt, -⟩
      omega
  | succ passes ih =>
      intro counter hcalls
      have htail := @ih (counter + 1) fun n hn => hcalls n (by omega)
      have hsplit : (∃ n, counter ≤ n ∧ n < counter + (passes + 1 : ℕ) ∧
          fcntl n = some (some lock)) ↔ fcntl counter = some (some lock) ∨
            ∃ n, counter + 1 ≤ n ∧ n < counter + 1 + passes ∧ fcntl n = some (some lock) := by
        constructor
        · rintro ⟨n, hle, hlt, hn⟩
          rcases eq_or_lt_of_le hle with rfl | hlt'
          · exact Or.inl hn
          · exact Or.inr ⟨n, hlt', by omega, hn⟩
        · rintro (hn | ⟨n, hle, hlt, hn⟩)
          · exact ⟨counter, le_rfl, by omega, hn⟩
          · exact ⟨n, by omega, by omega, hn⟩
      rw [hsplit, ← htail, printFrom]
      cases hcall : fcntl counter with
      | none => exact absurd hcall (hcalls counter le_rfl)
      | some o =>
          cases o with
          | none => simp
          | some first => simp [eq_comm]

theorem mem_printLocks {stSize : ℕ} (hcalls : ∀ n, 0 ≤ n → fcntl n ≠ none) :
    lock ∈ printLocks fcntl stSize ↔
      ∃ n, 0 ≤ n ∧ n < toInt stSize ∧ fcntl n = some (some lock) := by
  rw [printLocks, mem_printFrom hcalls]
  refine exists_congr fun n => and_congr_right fun hn => and_congr_left' ?_
  omega

end Scan

/-! ## §2  Where locks are -/

variable {P : Type*} [DecidableEq P] [Fintype P] {file : List Byte} {s : State P}
  {tr : List (State P × Action P)}

/-- A run sets finitely many locks. -/
theorem run_bounded (h : (fileLock P file).Run tr s) :
    ∃ stop, ∀ p n, s.locks p n ≠ none → n < stop := by
  refine h.invariant (I := fun _ s => ∃ stop, ∀ p n, s.locks p n ≠ none → n < stop)
    ⟨0, fun p n hn => absurd rfl hn⟩ ?_
  rintro tr s a t ⟨stop, hstop⟩ hnext
  cases hgranted : s.granted a with
  | none =>
      refine ⟨stop, fun p n hn => (State.held_of_next hnext hn).elim (hstop p n) ?_⟩
      rintro ⟨-, l, hl⟩
      rw [hgranted] at hl
      cases hl
  | some grant =>
      refine ⟨max stop (grant.1 + 1), fun p n hn => lt_max_iff.mpr ?_⟩
      refine (State.held_of_next hnext hn).imp (hstop p n) ?_
      rintro ⟨-, l, hl⟩
      obtain rfl := Option.some.inj (hgranted.symm.trans hl)
      exact Int.lt_succ n

/-! ## §3  What is shown -/

section Shown

variable {t : LockTable P ℤ} {fcntl : ℤ → Option (Option (Flock P))} {lock : Flock P}
  {stdout : Stdout} {stSize : ℕ} {p : P} {n : ℤ}

/-- The calls of the child, while the locks stay as they are. -/
def Answered (t : LockTable P ℤ) (fcntl : ℤ → Option (Option (Flock P))) : Prop :=
  ∀ n, 0 ≤ n → ∃ o, fcntl n = some o ∧ InTheWay t n o

/-- Whatever the kernel and stdio choose, every lock is on a range of its process that gets
out, and every byte of such a range is locked. -/
def Shows (stdout : Stdout) (t : LockTable P ℤ) (stSize : ℕ) : Prop :=
  ∀ fcntl, Answered t fcntl → ∀ out, Transmitted stdout (printLocks fcntl stSize) out →
    (∀ p n, t p n ≠ none → ∃ lock ∈ out, lock.pid = p ∧ lock.Covers n) ∧
    ∀ lock ∈ out, ∀ n, lock.Covers n → t lock.pid n ≠ none

/-- The merged lock has a byte inside of the size, as an `int`, where no other process
has a lock. -/
def HasOwnByte (t : LockTable P ℤ) (stSize : ℕ) (p : P) (n : ℤ) : Prop :=
  ∃ c, 0 ≤ c ∧ c < toInt stSize ∧ Joined (t p) c n ∧ ∀ q, q ≠ p → t q c = none

omit [DecidableEq P] [Fintype P]

theorem Answered.mem_iff (h : Answered t fcntl) :
    lock ∈ printLocks fcntl stSize ↔
      ∃ n, 0 ≤ n ∧ n < toInt stSize ∧ fcntl n = some (some lock) := by
  refine mem_printLocks fun n hn => ?_
  obtain ⟨o, ho, -⟩ := h n hn
  rw [ho]
  exact Option.some_ne_none o

theorem Answered.merged_of_mem (h : Answered t fcntl)
    (hmem : lock ∈ printLocks fcntl stSize) : lock.Merged t := by
  obtain ⟨n, hn, -, hcall⟩ := h.mem_iff.mp hmem
  obtain ⟨o, ho, hway⟩ := h n hn
  obtain rfl := Option.some.inj (hcall.symm.trans ho)
  exact hway.merged.1

/-- The kernel may keep silent about a process wherever it has another one to name, and a
stream that is buffered in blocks about all of them. -/
theorem Shows.hasOwnByte {lo hi : ℤ} (h : Shows stdout t stSize)
    (hbounds : ∀ q m, t q m ≠ none → lo ≤ m ∧ m < hi) (hn : t p n ≠ none) :
    stdout = .lineBuffered ∧ HasOwnByte t stSize p n := by
  -- at each byte the kernel names somebody else if it can
  choose answer hway hsole using exists_inTheWay hbounds p
  have hanswered : Answered t fun m => some (answer m) := fun m _ => ⟨answer m, rfl, hway m⟩
  cases stdout with
  | fullyBuffered =>
      -- the block is not full before `_exit`
      obtain ⟨lock, hmem, -⟩ := (h _ hanswered [] List.nil_prefix).1 p n hn
      exact absurd hmem List.not_mem_nil
  | lineBuffered =>
      obtain ⟨lock, hmem, hpid, hcovers⟩ := (h _ hanswered _ rfl).1 p n hn
      obtain ⟨c, hc, hsize, hcall⟩ := hanswered.mem_iff.mp hmem
      have hlock : answer c = some lock := Option.some.inj hcall
      obtain ⟨hmerged, hcovers'⟩ := (hlock ▸ hway c).merged
      exact ⟨rfl, c, hc, hsize, hpid ▸ hmerged.joined hcovers' hcovers, hsole c lock hlock hpid⟩

/-- On a byte of its own a process is the only one that the kernel can name. -/
theorem shows_of_hasOwnByte
    (h : ∀ p n, t p n ≠ none → stdout = .lineBuffered ∧ HasOwnByte t stSize p n) :
    Shows stdout t stSize := by
  intro fcntl hanswered out hout
  refine ⟨fun p n hn => ?_, fun lock hmem n hn => ?_⟩
  · obtain ⟨rfl, c, hc, hsize, hjoined, hsole⟩ := h p n hn
    rw [show out = printLocks fcntl stSize from hout]
    obtain ⟨o, hcall, hway⟩ := hanswered c hc
    obtain ⟨lock, rfl, hmerged, hcovers⟩ := hway.exists_lock (hjoined.eq ▸ hn)
    -- nobody else has a lock there, so the one that is named is this one
    have hpid : lock.pid = p := by
      by_contra hother
      have hheld := hmerged.held c hcovers
      rw [hsole _ hother] at hheld
      cases hheld
    refine ⟨lock, hanswered.mem_iff.mpr ⟨c, hc, hsize, hcall⟩, hpid, ?_⟩
    exact hmerged.covers_of_joined hcovers (hpid ▸ hjoined)
  · rw [(hanswered.merged_of_mem (hout.subset hmem)).held n hn]
    exact Option.some_ne_none _

end Shown

/-- **The report is complete exactly when it goes to a terminal and every merged lock has a
byte of its own below the end of the file**, or when there are no locks. -/
theorem shows_iff (h : (fileLock P file).Run tr s) (stdout : Stdout) (stSize : ℕ) :
    Shows stdout s.locks stSize ↔
      ∀ p n, s.locks p n ≠ none → stdout = .lineBuffered ∧ HasOwnByte s.locks stSize p n := by
  obtain ⟨stop, hstop⟩ := run_bounded h
  refine ⟨fun hshows p n hn => ?_, shows_of_hasOwnByte⟩
  exact hshows.hasOwnByte (fun q m hm => ⟨run_placed h q m hm, hstop q m hm⟩) hn

/-- The first process has a lock on the byte behind the end. -/
theorem shows_iff_first :
    ∃ (tr : List (State (Fin 2) × Action (Fin 2))) (s : State (Fin 2)),
      (fileLock (Fin 2) [65, 67]).Run tr s ∧ s.locks 0 2 = some .write ∧
      (Shows .lineBuffered s.locks 2 ↔ ∀ p n, s.locks p n ≠ none →
        Stdout.lineBuffered = .lineBuffered ∧ HasOwnByte s.locks 2 p n) := by
  have hrun := (fileLock (Fin 2) [65, 67]).run_of_replay
    [.enter 0 ⟨.setWriteLock, 2⟩, .step 0, .step 0] rfl
  exact ⟨_, _, hrun, rfl, shows_iff hrun .lineBuffered 2⟩

/-- Two processes have a lock to read on the only byte of the file, and the kernel may
name the first one alone. -/
theorem second_reader_is_missing :
    ∃ (tr : List (State (Fin 2) × Action (Fin 2))) (s : State (Fin 2)),
      (fileLock (Fin 2) [67]).Run tr s ∧ s.locks 0 0 = some .read ∧
      s.locks 1 0 = some .read ∧ ¬Shows .lineBuffered s.locks s.file.length := by
  have hrun := (fileLock (Fin 2) [67]).run_of_replay
    [.enter 0 ⟨.setReadLock, 0⟩, .step 0, .step 0, .enter 1 ⟨.setReadLock, 0⟩, .step 1,
      .step 1] rfl
  refine ⟨_, _, hrun, rfl, rfl, fun hshows => ?_⟩
  obtain ⟨stop, hstop⟩ := run_bounded hrun
  obtain ⟨-, c, hc, hsize, -, hsole⟩ := hshows.hasOwnByte (p := 1) (n := 0)
    (fun q m hm => ⟨run_placed hrun q m hm, hstop q m hm⟩) (Option.some_ne_none _)
  change c < toInt (1 : ℕ) at hsize
  rw [toInt_natCast_eq.mpr (by decide)] at hsize
  obtain rfl : c = 0 := by omega
  cases hsole 0 (by decide)

end Sysopy.FileLock
