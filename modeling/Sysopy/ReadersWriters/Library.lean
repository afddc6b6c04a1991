import Mathlib.Data.Fintype.Card
import Mathlib.Data.Int.Notation
import Sysopy.Foundation.System

/-!
# Readers and writers of a library of numbers

Readers count the occurrences of a number in an array, writers store random
numbers in it. A reader needs one permit of `sem_library_empty` for its pass over
the array. A writer gets `sem_writer` first and then all `NUM_READERS` permits of
`sem_library_empty`, one after the other.

A step is one call on a semaphore or one access to the array. The calls on the
semaphores do not fail. What `rand` returns is part of a writer's step.

## Sections

* §1 control points
* §2 one step
-/

namespace Sysopy.ReadersWriters

open Sysopy.Foundation

/-! ## §1  Control points -/

def librarySize : ℕ := 5000

def maxNum : ℕ := 999

def numReaders : ℕ := 15

abbrev Reader := Fin numReaders

abbrev Index := Fin librarySize

theorem librarySize_pos : 0 < librarySize := by decide

theorem numReaders_pos : 0 < numReaders := by decide

inductive ReaderPc
  /-- before `wait(&sem_library_empty)` -/
  | wait
  /-- in `reader_read`, before the access to `library[i]` -/
  | read (i : Index) (numFound : ℕ)
  /-- before the `printf` of what `reader_read` returned -/
  | print (numFound : ℕ)
  /-- before `post(&sem_library_empty)` -/
  | post
deriving DecidableEq

inductive WriterPc
  /-- before `wait(&sem_writer)` -/
  | waitWriter
  /-- before `wait(&sem_library_empty)`, with `i` permits -/
  | collect (i : Fin numReaders)
  /-- in `writer_write`, before the choice of the number of indices to modify -/
  | choose
  /-- in `writer_write`, before the store number `i` of `k` -/
  | write (i k : ℕ)
  /-- before the `printf` -/
  | print (k : ℕ)
  /-- before `post(&sem_library_empty)`, with `i` permits given back -/
  | release (i : Fin numReaders)
  /-- before `post(&sem_writer)` -/
  | postWriter
deriving DecidableEq

/-- The permits of `sem_library_empty` that the reader has. -/
def ReaderPc.held : ReaderPc → ℕ
  | .wait => 0
  | _ => 1

def ReaderPc.inReaderRead : ReaderPc → Bool
  | .read _ _ => true
  | _ => false

/-- The permits of `sem_library_empty` that the writer has. -/
def WriterPc.held : WriterPc → ℕ
  | .waitWriter => 0
  | .collect i => i
  | .release i => numReaders - i
  | .postWriter => 0
  | _ => numReaders

/-- The writer has `sem_writer`. -/
def WriterPc.busy : WriterPc → Bool
  | .waitWriter => false
  | _ => true

def WriterPc.inWriterWrite : WriterPc → Bool
  | .choose | .write _ _ => true
  | _ => false

/-! ## §2  One step -/

structure Library (n : ℕ) where
  library : Index → ℤ
  semWriter : ℕ
  semLibraryEmpty : ℕ
  reader : Reader → ReaderPc
  /-- the writers, whose number is a parameter of the program -/
  writer : Fin n → WriterPc

inductive Action (n : ℕ)
  | reader (r : Reader)
  /-- a writer with the next results of `rand` -/
  | writer (w : Fin n) (rand₁ rand₂ : ℕ)

namespace Library

variable {n : ℕ}

def readerGoto (s : Library n) (r : Reader) (c : ReaderPc) : Library n :=
  { s with reader := Function.update s.reader r c }

def writerGoto (s : Library n) (w : Fin n) (c : WriterPc) : Library n :=
  { s with writer := Function.update s.writer w c }

/-- One step of the loop of `reader_read`. -/
def readerRead (s : Library n) (num : ℤ) (i : Index) (numFound : ℕ) : ReaderPc :=
  let numFound := if s.library i = num then numFound + 1 else numFound
  if h : i + 1 < librarySize then .read ⟨i + 1, h⟩ numFound else .print numFound

def readerFun (num : Reader → ℤ) (s : Library n) (r : Reader) : Option (Library n) :=
  match s.reader r with
  | .wait =>
      if 0 < s.semLibraryEmpty then
        some { s.readerGoto r (.read ⟨0, librarySize_pos⟩ 0) with
          semLibraryEmpty := s.semLibraryEmpty - 1 }
      else none
  | .read i numFound => some (s.readerGoto r (s.readerRead (num r) i numFound))
  | .print _ => some (s.readerGoto r .post)
  | .post => some { s.readerGoto r .wait with semLibraryEmpty := s.semLibraryEmpty + 1 }

/-- One store of the loop of `writer_write`. -/
def writerWrite (s : Library n) (rand₁ rand₂ : ℕ) : Index → ℤ :=
  Function.update s.library ⟨rand₁ % librarySize, Nat.mod_lt _ librarySize_pos⟩
    ((rand₂ % (maxNum + 1) : ℕ) : ℤ)

def writerFun (s : Library n) (w : Fin n) (rand₁ rand₂ : ℕ) : Option (Library n) :=
  match s.writer w with
  | .waitWriter =>
      if 0 < s.semWriter then
        some { s.writerGoto w (.collect ⟨0, numReaders_pos⟩) with
          semWriter := s.semWriter - 1 }
      else none
  | .collect i =>
      if 0 < s.semLibraryEmpty then
        some { s.writerGoto w
            (if h : i + 1 < numReaders then .collect ⟨i + 1, h⟩ else .choose) with
          semLibraryEmpty := s.semLibraryEmpty - 1 }
      else none
  | .choose => some (s.writerGoto w (.write 0 (1 + rand₁ % 100)))
  | .write i k =>
      some { s.writerGoto w (if i + 1 < k then .write (i + 1) k else .print k) with
        library := s.writerWrite rand₁ rand₂ }
  | .print _ => some (s.writerGoto w (.release ⟨0, numReaders_pos⟩))
  | .release i =>
      some { s.writerGoto w
          (if h : i + 1 < numReaders then .release ⟨i + 1, h⟩ else .postWriter) with
        semLibraryEmpty := s.semLibraryEmpty + 1 }
  | .postWriter => some { s.writerGoto w .waitWriter with semWriter := s.semWriter + 1 }

end Library

/-- The program with `n` writers, in which reader `r` looks for `num r`. -/
def readersWriters (n : ℕ) (num : Reader → ℤ) : System (Library n) (Action n) where
  init :=
    { library := fun _ => 0
      semWriter := 1
      semLibraryEmpty := numReaders
      reader := fun _ => .wait
      writer := fun _ => .waitWriter }
  next s a :=
    match a with
    | .reader r => s.readerFun num r
    | .writer w rand₁ rand₂ => s.writerFun w rand₁ rand₂

/-- What a reader prints: its number and how often it found its value. -/
def printed {n : ℕ} (s : Library n) (a : Action n) : List (Reader × ℕ) :=
  match a with
  | .reader r =>
      match s.reader r with
      | .print numFound => [(r, numFound)]
      | _ => []
  | .writer _ _ _ => []

end Sysopy.ReadersWriters
