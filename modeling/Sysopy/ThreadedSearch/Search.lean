import Mathlib.Data.Fin.Basic
import Mathlib.Data.List.Infix
import Mathlib.Logic.Function.Basic
import Sysopy.Foundation.CString
import Sysopy.Foundation.System

/-!
# A file searched by several threads

The threads share the descriptor of a file of records and read it in batches, each
into a buffer of its own. A thread that finds the word cancels all others and stops
after the batch; a thread that gets less than a full batch stops after it, too.

A step is one call on shared state or the test of one record. The file is a
sequence of whole records, so an offset is a number of records. The calls do not
fail; in particular the key of the buffers, which zad1a never assigns, is taken to
be one that `pthread_setspecific` accepts (else the program ends there).

## Sections

* §1 records
* §2 threads
* §3 one step
* §4 what is seen of a run
-/

namespace Sysopy.ThreadedSearch

open Sysopy.Foundation

/-! ## §1  Records -/

def recordSize : ℕ := 1024

/-- A record of the file, or whatever stands in the place of one in a buffer. -/
structure Record where
  bytes : List Byte
  size : bytes.length = recordSize

/-- `rec_id`, the first four bytes as an `int`. -/
def Record.recId (r : Record) : ℤ :=
  (BitVec.ofNat 32 ((r.bytes.take 4).foldr (fun b n => b.toNat + 256 * n) 0)).toInt

/-- The string that is copied to `tmp_buff`. -/
def Record.text (r : Record) : List Byte := beforeTerminator 0 (r.bytes.drop 4)

/-- `strstr(s, word) != NULL` -/
def strstr : List Byte → List Byte → Bool
  | [], word => word.isEmpty
  | b :: s, word => word.isPrefixOf (b :: s) || strstr s word

def Record.Contains (r : Record) (word : List Byte) : Prop := word <:+: r.text

theorem strstr_eq_true (s word : List Byte) : strstr s word = true ↔ word <:+: s := by
  induction s with
  | nil => rw [strstr, List.isEmpty_iff, List.infix_nil]
  | cons b s ih =>
      rw [strstr, Bool.or_eq_true, List.isPrefixOf_iff_prefix, ih, List.infix_cons_iff]

theorem Record.strstr_text {r : Record} {word : List Byte} :
    strstr r.text word = true ↔ r.Contains word :=
  strstr_eq_true r.text word

instance (r : Record) (word : List Byte) : Decidable (r.Contains word) :=
  decidable_of_iff _ Record.strstr_text

theorem length_idAndText (id : Byte) {text : List Byte} (h : text.length ≤ recordSize - 4) :
    (id :: 0 :: 0 :: 0 :: zeroPadded (recordSize - 4) text).length = recordSize := by
  simp only [List.length_cons, zeroPadded, List.length_append, List.length_replicate]
  unfold recordSize at h ⊢
  omega

def Record.ofText (id : Byte) (text : List Byte) (h : text.length ≤ recordSize - 4) : Record where
  bytes := id :: 0 :: 0 :: 0 :: zeroPadded (recordSize - 4) text
  size := length_idAndText id h

/-! ## §2  Threads -/

/-- When a pending cancellation acts. -/
inductive CancelMode
  /-- at any step (zad1a) -/
  | asynchronous
  /-- at a cancellation point (zad1b) -/
  | deferred
  /-- never (zad1c) -/
  | disabled

/-- Where a thread is; `M` is the number of records in its buffer. -/
inductive Pc (M : ℕ)
  /-- in the loop of `usleep` -/
  | start
  /-- before `pthread_mutex_lock` -/
  | lock
  /-- before `read` -/
  | read
  /-- before `pthread_mutex_unlock`, with the number of records read -/
  | unlock (numRead : ℕ)
  /-- before `pthread_testcancel` -/
  | testcancel (numRead : ℕ)
  /-- at the head of the loop over the records -/
  | scan (i : ℕ)
  /-- before the `printf` -/
  | report (i : Fin M)
  /-- at the head of the loop over the threads to cancel -/
  | cancel (i : Fin M) (j : ℕ)
  /-- returned -/
  | done
  | cancelled
deriving DecidableEq

/-- The cancellation points; `printf` may be one. -/
def Pc.cancellable {M : ℕ} : CancelMode → Pc M → Bool
  | .asynchronous, .done | .asynchronous, .cancelled => false
  | .asynchronous, _ => true
  | .deferred, .start | .deferred, .read | .deferred, .testcancel _ | .deferred, .report _ => true
  | .deferred, _ => false
  | .disabled, _ => false

def Pc.ended {M : ℕ} : Pc M → Bool
  | .done | .cancelled => true
  | _ => false

structure Searcher (M : ℕ) where
  pc : Pc M
  shouldLoop : Bool
  recBuff : Fin M → Record

/-- The arguments of the program, and what `malloc` left in each buffer. -/
structure Setup (N M : ℕ) where
  mode : CancelMode
  file : List Record
  word : List Byte
  malloc : Fin N → Fin M → Record

/-- The second of three records contains the word. -/
def Setup.threeRecords (mode : CancelMode) : Setup 2 2 where
  mode := mode
  file := [.ofText 0 [97] (by decide), .ofText 1 [98] (by decide), .ofText 2 [97] (by decide)]
  word := [98]
  malloc _ _ := .ofText 9 [97] (by decide)

/-- The only record of the file contains the word. -/
def oneRecord (mode : CancelMode) : Setup 3 1 where
  mode := mode
  file := [.ofText 0 [98] (by decide)]
  word := [98]
  malloc _ _ := .ofText 9 [97] (by decide)

/-- One thread, a file of one record without the word, and room for two records. -/
def dirtyMemory (mode : CancelMode) : Setup 1 2 where
  mode := mode
  file := [.ofText 0 [97] (by decide)]
  word := [98]
  malloc _ _ := .ofText 9 [98] (by decide)

structure Search (N M : ℕ) where
  /-- how many records have been read -/
  offset : ℕ
  readProtectMutex : Option (Fin N)
  thread : Fin N → Searcher M
  /-- the threads that `pthread_cancel` was called for -/
  pending : Fin N → Bool

inductive Action (N : ℕ)
  /-- the next step of a thread -/
  | run (p : Fin N)
  /-- a pending cancellation acts -/
  | act (p : Fin N)

/-! ## §3  One step -/

namespace Search

variable {N M : ℕ}

def set (s : Search N M) (p : Fin N) (x : Searcher M) : Search N M :=
  { s with thread := Function.update s.thread p x }

def goto (s : Search N M) (p : Fin N) (c : Pc M) : Search N M :=
  s.set p { s.thread p with pc := c }

/-- What `read` makes of a buffer: records of the file as far as there are any. -/
def fill (file : List Record) (offset : ℕ) (recBuff : Fin M → Record) (i : Fin M) : Record :=
  (file[offset + i]?).getD (recBuff i)

/-- The records that the next `read` returns. -/
def numRead (s : Search N M) (c : Setup N M) : ℕ := min M (c.file.length - s.offset)

def read (s : Search N M) (c : Setup N M) (p : Fin N) : Search N M :=
  { s.set p { s.thread p with
      pc := .unlock (s.numRead c), recBuff := fill c.file s.offset (s.thread p).recBuff } with
    offset := s.offset + s.numRead c }

/-- The head of the loop over the records, and of the outer loop after it. -/
def scan (s : Search N M) (c : Setup N M) (p : Fin N) (i : ℕ) : Search N M :=
  if h : i < M then
    if strstr ((s.thread p).recBuff ⟨i, h⟩).text c.word then s.goto p (.report ⟨i, h⟩)
    else s.goto p (.scan (i + 1))
  else if (s.thread p).shouldLoop then s.goto p .lock
  else s.goto p .done

/-- `pthread_cancel(thread_ids[j])`, but for the thread itself. -/
def cancelOther (s : Search N M) (p : Fin N) (i : Fin M) (j : ℕ) : Search N M :=
  if h : j < N then
    if ⟨j, h⟩ = p then s.goto p (.cancel i (j + 1))
    else { s.goto p (.cancel i (j + 1)) with pending := Function.update s.pending ⟨j, h⟩ true }
  else s.goto p (.scan (i + 1))

def threadWorkFunction (s : Search N M) (c : Setup N M) (p : Fin N) : Option (Search N M) :=
  match (s.thread p).pc with
  | .start => some (s.goto p .lock)
  | .lock =>
      if s.readProtectMutex = none then
        some { s.goto p .read with readProtectMutex := some p }
      else none
  | .read => some (s.read c p)
  | .unlock n => some { s.goto p (.testcancel n) with readProtectMutex := none }
  | .testcancel n =>
      some (s.set p { s.thread p with
        pc := .scan 0, shouldLoop := if n < M then false else (s.thread p).shouldLoop })
  | .scan i => some (s.scan c p i)
  | .report i => some (s.set p { s.thread p with pc := .cancel i 0, shouldLoop := false })
  | .cancel i j => some (s.cancelOther p i j)
  | .done => none
  | .cancelled => none

/-- The thread ends where it is; nothing is cleaned up. -/
def actCancel (s : Search N M) (c : Setup N M) (p : Fin N) : Option (Search N M) :=
  if s.pending p = true ∧ (s.thread p).pc.cancellable c.mode = true then
    some (s.goto p .cancelled)
  else none

end Search

/-- The program from the moment on when all threads have been created. -/
def search {N M : ℕ} (c : Setup N M) : System (Search N M) (Action N) where
  init :=
    { offset := 0
      readProtectMutex := none
      thread := fun p => { pc := .start, shouldLoop := true, recBuff := c.malloc p }
      pending := fun _ => false }
  next s a :=
    match a with
    | .run p => s.threadWorkFunction c p
    | .act p => s.actCancel c p

/-! ## §4  What is seen of a run -/

section Observations

variable {N M : ℕ}

/-- The records that a `read` delivers, as places in the file, and to whom. -/
def delivered (c : Setup N M) (s : Search N M) : Action N → List (Fin N × ℕ)
  | .run p =>
      match (s.thread p).pc with
      | .read => (List.range' s.offset (s.numRead c)).map fun k => (p, k)
      | _ => []
  | .act _ => []

/-- The `Found` lines, as the thread and the id that they name. -/
def found (s : Search N M) : Action N → List (Fin N × ℤ)
  | .run p =>
      match (s.thread p).pc with
      | .report i => [(p, ((s.thread p).recBuff i).recId)]
      | _ => []
  | .act _ => []

end Observations

end Sysopy.ThreadedSearch
