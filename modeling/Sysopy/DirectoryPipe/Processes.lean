import Mathlib.Algebra.GroupWithZero.Nat
import Sysopy.Foundation.Lines
import Sysopy.Foundation.System
import Sysopy.NamedPipe.Format
import Sysopy.TreeCrawler.Crawlers

/-!
# Three processes that count directories

What `ls -l | grep ^d | wc -l` does, by three processes and two pipes. The first writes a
line for every entry of the directory, the second passes on the lines that begin with `d`,
the third counts lines. The entries come with what `lstat` stores for them, or would if it
did not fail. The string of the access rights is its ten characters.

## Sections

* §1 entries and their lines
* §2 processes and pipes
* §3 the line buffer
* §4 a step of each process
-/

namespace Sysopy.DirectoryPipe

open Foundation
open NamedPipe (decimal length_decimal_le_iff mem_decimal)
open TreeCrawler (Stat)

/-! ## §1  Entries and their lines -/

/-- What `readdir` returns, with what the file is and whether `lstat` fails for it. -/
structure DirEntry where
  dName : List Byte
  stat : Stat
  lstatFails : Bool
  no_nul : 0 ∉ dName
  length_le : dName.length ≤ 255

/-- `!(strcmp("..", curr_file_name) && strcmp(".", curr_file_name))` -/
def DirEntry.IsDot (e : DirEntry) : Prop := e.dName = [46, 46] ∨ e.dName = [46]

instance : DecidablePred DirEntry.IsDot := fun _ => inferInstanceAs (Decidable (_ ∨ _))

def getAccess (st : Stat) : List Byte :=
  (if st.isDir then 100 else 45) ::
    [(0x100, 114), (0x80, 119), (0x40, 120), (0x20, 114), (0x10, 119), (0x8, 120),
      (0x4, 114), (0x2, 119), (0x1, 120)].map fun (bit, letter) =>
        if bit &&& st.stMode == 0 then 45 else letter

/-- What `%d` prints. -/
def decimalInt (n : ℤ) : List Byte :=
  if n < 0 then 45 :: decimal n.natAbs else decimal n.natAbs

/-- What a turn of the first loop leaves in `line`. -/
def buildLine (found : ℕ → Byte) (e : DirEntry) : Option (List Byte) := do
  let line ← strcpyIn 0 (getAccess e.stat) (malloc found 1024)
  let line ← storeIn 10 [32] line
  let line ← strcpyIn 11 (decimalInt e.stat.size) line
  let line ← strcpyIn (← cString 0 line).length e.dName line
  let len := (← cString 0 line).length
  let line ← storeIn len [10] line
  let line ← storeIn (len + 1) [0] line
  cString 0 line

/-! ## §2  Processes and pipes -/

/-- The working directory, and whether `opendir` opens it. -/
structure Directory where
  path : List Byte
  opens : Bool
  entries : List DirEntry

/-- What `getcwd(cwd, 2048)` leaves in the array, if the directory is opened. Else nothing is
known of the array, or `readdir` is called with `NULL`. -/
def Directory.cwd (d : Directory) : Option (List Byte) :=
  if d.opens ∧ d.path.length + 1 ≤ 2048 then some d.path else none

/-- `cwd` with a slash and the name behind it, if that stays in the array. -/
def entryPath (cwd name : List Byte) : Option (List Byte) :=
  if cwd.length + 1 + name.length + 1 ≤ 2048 then some (cwd ++ 47 :: name) else none

/-- The path of the directory, the entries that `readdir` has not returned yet, the two
pipes, each with whether its writer has it open, and the last process. -/
structure State where
  cwd : Option (List Byte)
  entries : List DirEntry
  fdOpen : Bool
  fd : List Byte
  subFdOpen : Bool
  subFd : List Byte
  numLines : ℕ
  printed : Option ℕ

inductive Action
  /-- a turn of the first process, with what its `malloc` finds -/
  | list (found : ℕ → Byte)
  /-- a turn of the second process -/
  | filter
  /-- a turn of the last process -/
  | count

def State.next (s : State) : Action → Option State
  | .list found =>
      if s.fdOpen then do
        let cwd ← s.cwd
        match s.entries with
        | [] => some { s with fdOpen := false }
        | e :: rest => do
            let _ ← entryPath cwd e.dName
            -- `exit(-1)`
            if e.lstatFails then some { s with fdOpen := false }
            else do
              let line ← buildLine found e
              some { s with entries := rest, fd := if e.IsDot then s.fd else s.fd ++ line }
      else none
  | .filter =>
      if s.subFdOpen then do
        let (line, fd) ← fgetsPipe 1024 s.fdOpen s.fd
        if line = [] then some { s with fd := fd, subFdOpen := false }
        else if line.head? = some 100 then
          some { s with fd := fd, subFd := s.subFd ++ beforeTerminator 0 line }
        else some { s with fd := fd }
      else none
  | .count =>
      if s.printed = none then do
        let (line, subFd) ← fgetsPipe 1024 s.subFdOpen s.subFd
        if line = [] then some { s with subFd := subFd, printed := some s.numLines }
        -- `num_lines` is an int
        else if s.numLines + 1 < 2 ^ 31 then
          some { s with subFd := subFd, numLines := s.numLines + 1 }
        else none
      else none

def pipeline (d : Directory) : System State Action where
  init :=
    { cwd := d.cwd
      entries := d.entries
      fdOpen := true
      fd := []
      subFdOpen := true
      subFd := []
      numLines := 0
      printed := none }
  next := State.next

/-! ## §3  The line buffer -/

def DirEntry.columns (e : DirEntry) : List Byte := getAccess e.stat ++ 32 :: decimalInt e.stat.size

def DirEntry.text (e : DirEntry) : List Byte := e.columns ++ e.dName

theorem length_getAccess (st : Stat) : (getAccess st).length = 10 := rfl

theorem head_getAccess {st : Stat} : (getAccess st).head? = some 100 ↔ st.isDir = true := by
  cases hdir : st.isDir with
  | false => simp [getAccess, hdir]
  | true => simp [getAccess, hdir]

theorem mem_getAccess {st : Stat} {b : Byte} (hb : b ∈ getAccess st) : 32 ≤ b := by
  rcases List.mem_cons.mp hb with rfl | hb
  · split_ifs
    · decide
    · decide
  · obtain ⟨⟨bit, letter⟩, hmem, rfl⟩ := List.mem_map.mp hb
    have hletters : ∀ x ∈ ([(0x100, 114), (0x80, 119), (0x40, 120), (0x20, 114), (0x10, 119),
        (0x8, 120), (0x4, 114), (0x2, 119), (0x1, 120)] : List (UInt32 × Byte)), 32 ≤ x.2 := by
      simp
    dsimp only
    split_ifs
    · decide
    · exact hletters _ hmem

theorem mem_decimalInt {n : ℤ} {b : Byte} (hb : b ∈ decimalInt n) : 32 ≤ b := by
  have hdigit : ∀ b : Byte, 48 ≤ b → 32 ≤ b := fun b h => UInt8.le_trans (by decide) h
  unfold decimalInt at hb
  split_ifs at hb
  · rcases List.mem_cons.mp hb with rfl | hb
    · decide
    · exact hdigit b (mem_decimal hb).1
  · exact hdigit b (mem_decimal hb).1

theorem mem_columns {e : DirEntry} {b : Byte} (hb : b ∈ e.columns) : 32 ≤ b := by
  rcases List.mem_append.mp hb with hb | hb
  · exact mem_getAccess hb
  · rcases List.mem_cons.mp hb with rfl | hb
    · decide
    · exact mem_decimalInt hb

theorem length_size_le (st : Stat) : (decimalInt st.size).length ≤ 11 := by
  have hle := Int.le_bmod (x := st.stSize) (m := 2 ^ 32) (by decide)
  have hlt := Int.bmod_lt (x := st.stSize) (m := 2 ^ 32) (by decide)
  have hsize : st.size.natAbs < 10 ^ 10 := by
    unfold Stat.size
    omega
  have hdigits := (length_decimal_le_iff (by decide)).mpr hsize
  unfold decimalInt
  split_ifs
  · exact Nat.succ_le_succ hdigits
  · exact hdigits.trans (by decide)

theorem length_text_le (e : DirEntry) : e.text.length ≤ 277 := by
  have hsize := length_size_le e.stat
  have hname := e.length_le
  rw [DirEntry.text, DirEntry.columns, List.length_append, List.length_append, List.length_cons,
    length_getAccess]
  omega

theorem zero_notMem_columns (e : DirEntry) : 0 ∉ e.columns := fun h =>
  absurd (mem_columns h) (by decide)

theorem newline_notMem_columns (e : DirEntry) : 10 ∉ e.columns := fun h =>
  absurd (mem_columns h) (by decide)

theorem zero_notMem_text (e : DirEntry) : 0 ∉ e.text := by
  rw [DirEntry.text, List.mem_append, not_or]
  exact ⟨zero_notMem_columns e, e.no_nul⟩

theorem storeIn_byte (pre : List Byte) (b c : Byte) (rest : List Byte) :
    storeIn pre.length [b] (pre ++ c :: rest) = some (pre ++ b :: rest) := by
  have hroom : [b].length ≤ (c :: rest).length := Nat.succ_le_succ (Nat.zero_le rest.length)
  rw [storeIn_append rfl, if_pos hroom, List.append_assoc]
  rfl

theorem strcpyIn_behind (pre s : List Byte) {rest : List Byte} (h : s.length < rest.length) :
    ∃ rest', strcpyIn pre.length s (pre ++ rest) = some (pre ++ s ++ 0 :: rest') ∧
      s.length + 1 + rest'.length = rest.length := by
  have hlength : (terminated 0 s).length = s.length + 1 := List.length_append
  refine ⟨rest.drop (s.length + 1), ?_, ?_⟩
  · rw [strcpyIn, storeIn_append rfl, hlength, if_pos (Nat.succ_le_of_lt h), terminated]
    simp
  · rw [List.length_drop]
    omega

theorem cString_behind {t : List Byte} (ht : 0 ∉ t) (rest : List Byte) :
    cString 0 (t ++ 0 :: rest) = some t :=
  cString_eq_some.mpr ⟨ht, rest, rfl⟩

/-- **The line stays in its buffer**, and what is written is the text and a newline. -/
theorem buildLine_eq (found : ℕ → Byte) (e : DirEntry) :
    buildLine found e = some (terminated 10 e.text) := by
  have hsize := length_size_le e.stat
  have hname := e.length_le
  have hmalloc := length_malloc found 1024
  obtain ⟨r₁, haccess, hr₁⟩ := strcpyIn_behind [] (getAccess e.stat)
    (show (getAccess e.stat).length < (malloc found 1024).length by
      rw [hmalloc, length_getAccess]; decide)
  rw [List.length_nil, List.nil_append, List.nil_append] at haccess
  rw [hmalloc, length_getAccess] at hr₁
  have hblank : storeIn 10 [32] (getAccess e.stat ++ 0 :: r₁) =
      some (getAccess e.stat ++ 32 :: r₁) := storeIn_byte (getAccess e.stat) 32 0 r₁
  obtain ⟨r₂, hcopy, hr₂⟩ := strcpyIn_behind (getAccess e.stat ++ [32])
    (decimalInt e.stat.size) (show _ < r₁.length by omega)
  have hcopySize : strcpyIn 11 (decimalInt e.stat.size) (getAccess e.stat ++ 32 :: r₁) =
      some (e.columns ++ 0 :: r₂) := by
    rw [List.append_assoc, List.append_assoc] at hcopy
    rw [DirEntry.columns, List.append_assoc]
    exact hcopy
  have hcolumns := cString_behind (zero_notMem_columns e) r₂
  obtain ⟨r₃, hcopyName, hr₃⟩ := strcpyIn_behind e.columns e.dName
    (show _ < (0 :: r₂).length by rw [List.length_cons]; omega)
  rw [List.length_cons] at hr₃
  have htext := cString_behind (zero_notMem_text e) r₃
  obtain ⟨c, r₄, rfl⟩ : ∃ c r₄, r₃ = c :: r₄ := List.exists_cons_of_length_pos (by omega)
  have hnewline := storeIn_byte e.text 10 0 (c :: r₄)
  have hnul : storeIn (e.text.length + 1) [0] (e.text ++ 10 :: c :: r₄) =
      some (terminated 10 e.text ++ 0 :: r₄) := by
    have hstore := storeIn_byte (terminated 10 e.text) 0 c r₄
    rw [← hstore, terminated, List.length_append, List.append_assoc]
    rfl
  have hzero : 0 ∉ terminated 10 e.text := by
    rw [terminated, List.mem_append, not_or]
    exact ⟨zero_notMem_text e, by decide⟩
  have hline := cString_behind hzero r₄
  have hcopyText : strcpyIn e.columns.length e.dName (e.columns ++ 0 :: r₂) =
      some (e.text ++ 0 :: c :: r₄) := hcopyName
  simp only [buildLine, haccess, hblank, hcopySize, hcolumns, hcopyText, htext, hnewline, hnul,
    hline, Option.bind_eq_bind, Option.bind_some]

end Sysopy.DirectoryPipe
