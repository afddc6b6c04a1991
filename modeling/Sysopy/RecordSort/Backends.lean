import Mathlib.Algebra.Group.Nat.Defs
import Sysopy.Foundation.Records

/-!
# Access to the records of a file

Two sets of functions read the next record, go back to the first one and exchange two
records: one with `read`, `write` and `lseek`, the other with the functions of `stdio`.
Every call of the system succeeds in full where it can: a seek fails for a place before
the file, a read stops at its end. What is written through `stdio` counts as written at
once, since `main` closes the stream by returning.

## Sections

* §1 an open file
* §2 `read`, `write` and `lseek`
* §3 `stdio`
* §4 the functions that a sort is given
* §5 what the functions do
-/

namespace Sysopy.RecordSort

open Sysopy.Foundation

/-! ## §1  An open file -/

inductive Stop
  /-- `exit(1)` after a message, and the bytes of the file then -/
  | exit (text : String) (bytes : List Byte)
  /-- bytes of a buffer are used that no read has filled -/
  | undefined
  /-- a function calls itself for ever -/
  | endless

structure Stream where
  bytes : List Byte
  position : ℕ
  /-- the end-of-file indicator of `stdio` -/
  eof : Bool
  printed : List String

namespace Stream

def exit {α : Type} (s : Stream) (text : String) : Except Stop α := .error (.exit text s.bytes)

def print (s : Stream) (text : String) : Stream := { s with printed := s.printed ++ [text] }

/-- The bytes that a read of at most `n` bytes gets. -/
def next (s : Stream) (n : ℕ) : List Byte := (s.bytes.drop s.position).take n

/-- The place after a read of `n` bytes. -/
def advance (s : Stream) (n : ℕ) : Stream := { s with position := s.position + (s.next n).length }

/-- A write; behind the end of the file the gap is filled with zeros. -/
def write (s : Stream) (buffer : List Byte) : Stream :=
  { s with bytes := store s.position buffer (zeroPadded s.position s.bytes)
           position := s.position + buffer.length }

end Stream

/-- A product of two `int`s, which wraps around. -/
def mulInt (a b : ℤ) : ℤ := (a * b).bmod (2 ^ 32)

/-! ## §2  read, write and lseek -/

namespace Stream

/-- `lseek(fd, offset, SEEK_SET)` or exit with the message. -/
def lseek (s : Stream) (offset : ℤ) (text : String) : Except Stop Stream :=
  if 0 ≤ offset then .ok { s with position := offset.toNat } else s.exit text

/-- `read` of a whole record. -/
def readRecord (s : Stream) (r : ℕ) : Except Stop (List Byte × Stream) :=
  if (s.next r).length = r then .ok (s.next r, s.advance r) else .error .undefined

end Stream

def setFileStartSysIo (s : Stream) : Except Stop Stream := s.lseek 0 "File access error.\n"

/-- `get_next_record_sys_io`, with at most `depth` calls of itself in one another. -/
def getNextRecordSysIo (r : ℕ) : ℕ → Stream → Except Stop (List Byte × Stream)
  | 0, _ => .error .endless
  | depth + 1, s =>
      let buffer := s.next r
      let s := s.advance r
      if buffer.length = 0 then do
        let s := s.print "End of records\n"
        let s ← s.lseek 0 "File access error.\n"
        getNextRecordSysIo r depth (s.print "Start from the beggining\n")
      else if buffer.length ≠ r then s.exit "Reading error.\n"
      else .ok (buffer, s)

def swapRecordsSysIo (r : ℕ) (a b : ℤ) (s : Stream) : Except Stop Stream := do
  let currentFilePosition := s.position
  let aStartIndex := mulInt a r
  let bStartIndex := mulInt b r
  let s ← s.lseek aStartIndex "File access error.\n"
  let (aBuffer, s) ← s.readRecord r
  let s ← s.lseek bStartIndex "File access error.\n"
  let (tmpBuffer, s) ← s.readRecord r
  let s ← s.lseek aStartIndex "File access error.\n"
  let s := s.write tmpBuffer
  let s ← s.lseek bStartIndex "File access error.\n"
  let s := s.write aBuffer
  s.lseek currentFilePosition "File access error.\n"

/-! ## §3  stdio -/

namespace Stream

/-- `fseek(file, offset, SEEK_SET)` or exit with the message. -/
def fseek (s : Stream) (offset : ℤ) (text : String) : Except Stop Stream :=
  if 0 ≤ offset then .ok { s with position := offset.toNat, eof := false } else s.exit text

/-- `fread(buffer, r, 1, file)`: the record, or `none` where it returns 0. -/
def fread (s : Stream) (r : ℕ) : Option (List Byte) × Stream :=
  if (s.next r).length = r then (some (s.next r), s.advance r)
  else (none, { s.advance r with eof := true })

/-- `fread` of a record or exit with the message. -/
def freadRecord (s : Stream) (r : ℕ) (text : String) : Except Stop (List Byte × Stream) :=
  match s.fread r with
  | (some buffer, s) => .ok (buffer, s)
  | (none, s) => s.exit text

end Stream

def setFileStartStdIo (s : Stream) : Except Stop Stream := s.fseek 0 "File access error.\n"

def getNextRecordStdIo (r : ℕ) (s : Stream) : Except Stop (List Byte × Stream) := do
  let (buffer, s) ← s.freadRecord r "File reading error 1.\n"
  if s.eof then do
    let s ← s.fseek 0 "File access error.\n"
    .ok (buffer, s)
  else .ok (buffer, s)

def swapRecordsStdIo (r : ℕ) (a b : ℤ) (s : Stream) : Except Stop Stream := do
  let currentFilePosition := s.position
  let aStartIndex := mulInt a r
  let bStartIndex := mulInt b r
  let s ← s.fseek aStartIndex "File access error 2.\n"
  let (aBuffer, s) ← s.freadRecord r "File read error 3.\n"
  let s ← s.fseek bStartIndex "File access error 4.\n"
  let (tmpBuffer, s) ← s.freadRecord r "File read error 5.\n"
  let s ← s.fseek aStartIndex "File access error 6.\n"
  let s := s.write tmpBuffer
  let s ← s.fseek bStartIndex "File access error 7.\n"
  let s := s.write aBuffer
  s.fseek currentFilePosition "File access error 8.\n"

/-! ## §4  The functions that a sort is given -/

/-- `get_next_record`, `swap_records` and `set_file_start` -/
structure Backend where
  getNextRecord : Stream → Except Stop (List Byte × Stream)
  swapRecords : ℤ → ℤ → Stream → Except Stop Stream
  setFileStart : Stream → Except Stop Stream

def sysIo (r depth : ℕ) : Backend where
  getNextRecord := getNextRecordSysIo r depth
  swapRecords := swapRecordsSysIo r
  setFileStart := setFileStartSysIo

/-- The functions for `LIB`. -/
def stdIo (r : ℕ) : Backend where
  getNextRecord := getNextRecordStdIo r
  swapRecords := swapRecordsStdIo r
  setFileStart := setFileStartStdIo

/-! ## §5  What the functions do -/

variable {r : ℕ} {a b : ℤ} {s : Stream} {text : String}

namespace Stream

theorem length_next (h : s.position + r ≤ s.bytes.length) : (s.next r).length = r := by
  rw [next, List.length_take, List.length_drop]
  exact Nat.min_eq_left (Nat.le_sub_of_add_le' h)

theorem advance_eq (h : s.position + r ≤ s.bytes.length) :
    s.advance r = { s with position := s.position + r } := by
  rw [advance, length_next h]

theorem lseek_ok {o : ℤ} (h : 0 ≤ o) :
    s.lseek o text = .ok { s with position := o.toNat } := if_pos h

theorem fseek_ok {o : ℤ} (h : 0 ≤ o) :
    s.fseek o text = .ok { s with position := o.toNat, eof := false } := if_pos h

theorem lseek_exit {o : ℤ} (h : o < 0) : s.lseek o text = .error (.exit text s.bytes) :=
  if_neg (Int.not_le.mpr h)

theorem fseek_exit {o : ℤ} (h : o < 0) : s.fseek o text = .error (.exit text s.bytes) :=
  if_neg (Int.not_le.mpr h)

theorem readRecord_ok (h : s.position + r ≤ s.bytes.length) :
    s.readRecord r = .ok (s.next r, { s with position := s.position + r }) := by
  rw [readRecord, if_pos (length_next h), advance_eq h]

theorem freadRecord_ok (h : s.position + r ≤ s.bytes.length) (text : String) :
    s.freadRecord r text = .ok (s.next r, { s with position := s.position + r }) := by
  rw [freadRecord, fread, if_pos (length_next h), advance_eq h]

theorem write_inside {buffer : List Byte} (h : s.position ≤ s.bytes.length) :
    s.write buffer = { s with bytes := store s.position buffer s.bytes
                              position := s.position + buffer.length } := by
  rw [write, zeroPadded, Nat.sub_eq_zero_of_le h, List.replicate_zero, List.append_nil]

end Stream

theorem setFileStartSysIo_eq (s : Stream) :
    setFileStartSysIo s = .ok { s with position := 0 } := rfl

theorem setFileStartStdIo_eq (s : Stream) :
    setFileStartStdIo s = .ok { s with position := 0, eof := false } := rfl

theorem getNextRecordSysIo_ok (hr : 1 ≤ r) (h : s.position + r ≤ s.bytes.length) (depth : ℕ) :
    getNextRecordSysIo r (depth + 1) s =
      .ok (s.next r, { s with position := s.position + r }) := by
  have hzero : r ≠ 0 := Nat.one_le_iff_ne_zero.mp hr
  simp only [getNextRecordSysIo, Stream.length_next h, if_neg hzero, ne_eq, not_true, if_false,
    Stream.advance_eq h]

/-- At the end of the file the first record is read again. -/
theorem getNextRecordSysIo_end (h : s.position = s.bytes.length) (depth : ℕ) :
    getNextRecordSysIo r (depth + 1) s =
      getNextRecordSysIo r depth
        { s with position := 0
                 printed := s.printed ++ ["End of records\n", "Start from the beggining\n"] } := by
  have hnext : s.next r = [] := by rw [Stream.next, h, List.drop_length, List.take_nil]
  have hadvance : s.advance r = s := by rw [Stream.advance, hnext, List.length_nil, Nat.add_zero]
  simp only [getNextRecordSysIo, hnext, hadvance, List.length_nil, if_true, Stream.print,
    Stream.lseek_ok (Int.le_refl 0), bind, Except.bind, List.append_assoc, List.cons_append,
    List.nil_append, Int.toNat_zero]

theorem getNextRecordStdIo_ok (h : s.position + r ≤ s.bytes.length) (heof : s.eof = false) :
    getNextRecordStdIo r s = .ok (s.next r, { s with position := s.position + r }) := by
  simp only [getNextRecordStdIo, Stream.freadRecord_ok h, bind, Except.bind, heof,
    Bool.false_eq_true, if_false]

/-- At the end of the file the program ends. -/
theorem getNextRecordStdIo_end (hr : 1 ≤ r) (h : s.position = s.bytes.length) :
    getNextRecordStdIo r s = .error (.exit "File reading error 1.\n" s.bytes) := by
  have hnext : s.next r = [] := by rw [Stream.next, h, List.drop_length, List.take_nil]
  have hne : ([] : List Byte).length ≠ r := (Nat.ne_of_lt hr)
  have hread : s.freadRecord r "File reading error 1.\n" =
      .error (.exit "File reading error 1.\n" s.bytes) := by
    rw [Stream.freadRecord, Stream.fread, hnext, if_neg hne]
    rfl
  rw [getNextRecordStdIo, hread]
  rfl

section Swap

variable (ha : 0 ≤ mulInt a r) (hb : 0 ≤ mulInt b r)
  (hafit : (mulInt a r).toNat + r ≤ s.bytes.length)
  (hbfit : (mulInt b r).toNat + r ≤ s.bytes.length)
include ha hb hafit hbfit

theorem swapRecordsSysIo_ok : swapRecordsSysIo r a b s =
    .ok { s with bytes := exchange r (mulInt a r).toNat (mulInt b r).toNat s.bytes } := by
  have hread {m : ℕ} (h : m + r ≤ s.bytes.length) :
      ({ s with position := m } : Stream).readRecord r =
        .ok ((s.bytes.drop m).take r, { s with position := m + r }) := Stream.readRecord_ok h
  have hwrite {m : ℕ} (h : m + r ≤ s.bytes.length) (buffer : List Byte) :
      ({ s with position := m } : Stream).write buffer =
        { s with bytes := store m buffer s.bytes, position := m + buffer.length } :=
    Stream.write_inside (Nat.le_of_add_right_le h)
  unfold swapRecordsSysIo
  simp only [Stream.lseek_ok ha, Stream.lseek_ok hb, Stream.lseek_ok (Int.natCast_nonneg _),
    hread hafit, hread hbfit, bind, Except.bind, Int.toNat_natCast]
  have hend := Nat.le_of_add_right_le (hbfit.trans (length_store_piece hafit hbfit).ge)
  rw [hwrite hafit, Stream.write_inside hend]
  rfl

theorem swapRecordsStdIo_ok : swapRecordsStdIo r a b s =
    .ok { s with bytes := exchange r (mulInt a r).toNat (mulInt b r).toNat s.bytes
                 eof := false } := by
  have hread {m : ℕ} (h : m + r ≤ s.bytes.length) (text : String) :
      ({ s with position := m, eof := false } : Stream).freadRecord r text =
        .ok ((s.bytes.drop m).take r, { s with position := m + r, eof := false }) :=
    Stream.freadRecord_ok h text
  have hwrite {m : ℕ} (h : m + r ≤ s.bytes.length) (buffer : List Byte) :
      ({ s with position := m, eof := false } : Stream).write buffer =
        { s with bytes := store m buffer s.bytes, position := m + buffer.length
                 eof := false } :=
    Stream.write_inside (Nat.le_of_add_right_le h)
  unfold swapRecordsStdIo
  simp only [Stream.fseek_ok ha, Stream.fseek_ok hb, Stream.fseek_ok (Int.natCast_nonneg _),
    hread hafit, hread hbfit, bind, Except.bind, Int.toNat_natCast]
  have hend := Nat.le_of_add_right_le (hbfit.trans (length_store_piece hafit hbfit).ge)
  rw [hwrite hafit, Stream.write_inside hend]
  rfl

end Swap

/-- An exchange with a place before the file ends the program. -/
theorem swapRecordsSysIo_exit (hneg : mulInt a r < 0 ∨ mulInt b r < 0)
    (hafit : 0 ≤ mulInt a r → (mulInt a r).toNat + r ≤ s.bytes.length) :
    swapRecordsSysIo r a b s = .error (.exit "File access error.\n" s.bytes) := by
  unfold swapRecordsSysIo
  generalize mulInt a r = o at *
  generalize mulInt b r = p at *
  by_cases ho : o < 0
  · simp only [Stream.lseek_exit ho, bind, Except.bind]
  · have hread := Stream.readRecord_ok (s := { s with position := o.toNat })
      (hafit (Int.not_lt.mp ho))
    simp only [Stream.lseek_ok (Int.not_lt.mp ho), hread,
      Stream.lseek_exit (hneg.resolve_left ho), bind, Except.bind]

theorem swapRecordsStdIo_exit (hneg : mulInt a r < 0 ∨ mulInt b r < 0)
    (hafit : 0 ≤ mulInt a r → (mulInt a r).toNat + r ≤ s.bytes.length) :
    ∃ text, swapRecordsStdIo r a b s = .error (.exit text s.bytes) := by
  unfold swapRecordsStdIo
  generalize mulInt a r = o at *
  generalize mulInt b r = p at *
  by_cases ho : o < 0
  · exact ⟨_, by simp only [Stream.fseek_exit ho, bind, Except.bind]; rfl⟩
  · have hread := Stream.freadRecord_ok (s := { s with position := o.toNat, eof := false })
      (hafit (Int.not_lt.mp ho)) "File read error 3.\n"
    exact ⟨_, by
      simp only [Stream.fseek_ok (Int.not_lt.mp ho), hread,
        Stream.fseek_exit (hneg.resolve_left ho), bind, Except.bind]
      rfl⟩

end Sysopy.RecordSort
