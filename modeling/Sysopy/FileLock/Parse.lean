import Mathlib.Data.List.DropRight
import Sysopy.Foundation.Ints
import Sysopy.FileLock.Commands

/-!
# The parser of file_lock

`parse` cuts the end off the line in the array of `main`, looks for a word and an
argument in what is left, and copies the word to memory of its own. Where it stands in
the line is counted from the start of the array in one place and from the first byte
that is no blank in another. A function is `none` when it uses a byte outside of the array
or of the copy, and when the copy that is taken for a string has no NUL.

`malloc` returns memory for every size, 0 too, and what it finds there is unknown.

## Sections

* §1 the line in the array
* §2 the copy of the word
* §3 `parse`
* §4 what trimming leaves
* §5 what is counted
* §6 what is copied
-/

namespace Sysopy.FileLock

open Sysopy.Foundation

/-! ## §1  The line in the array -/

/-- `' '` or `'\t'` -/
def isBlank (b : Byte) : Bool := b == 32 || b == 9

/-- `buf[i] = b` -/
def setByte {α : Type} (buf : List α) (i : ℤ) (b : α) : Option (List α) :=
  if 0 ≤ i ∧ i < buf.length then some (buf.set i.toNat b) else none

/-- `while(c >= 0)`, from `c` down, where `c + 1` is given. -/
def trimLoop : ℕ → List Byte → Option (List Byte)
  | 0, input => some input
  | c + 1, input => do
      let b ← input[c]?
      if isBlank b then trimLoop c (input.set c 0) else some input

/-- The newline and the blanks before it become NULs. -/
def trim (input : List Byte) : Option (List Byte) := do
  let len ← strlen input
  let input ← setByte input ((len : ℤ) - 1) 0
  trimLoop (len - 1) input

def startIndex : List Byte → Option ℕ
  | [] => none
  | b :: input => if isBlank b then (startIndex input).map (· + 1) else some 0

/-- `while(c < len)`, with `turns` to come: `num_spaces` and `space_index`. -/
def countSpaces (input : List Byte) : ℕ → ℕ → ℕ × ℤ → Option (ℕ × ℤ)
  | 0, _, spaces => some spaces
  | turns + 1, c, spaces => do
      let b ← input[c]?
      countSpaces input turns (c + 1) (if b = 32 then (spaces.1 + 1, c) else spaces)

/-! ## §2  The copy of the word -/

/-- The loop that copies, with `turns` to come. A byte of `cmd` is `none` before it is
written. -/
def copyWord (input : List Byte) (startIndex : ℕ) :
    ℕ → ℕ → List (Option Byte) → Option (List (Option Byte))
  | 0, _, cmd => some cmd
  | turns + 1, c, cmd => do
      let b ← input[startIndex + c]?
      let cmd ← setByte cmd c (some b)
      copyWord input startIndex turns (c + 1) cmd

/-- The bytes of the copy; where nothing was written they are as `malloc` found them. -/
def contents (found : ℕ → Byte) (cmd : List (Option Byte)) : List Byte :=
  cmd.mapIdx fun i b => b.getD (found i)

/-- How far `parse` comes before it looks at the word. -/
inductive Scanned
  /-- the line is `exit` -/
  | exit
  /-- more than one space -/
  | wrongFormat
  | word (cmd : List (Option Byte)) (numSpaces : ℕ) (spaceIndex : ℤ)

/-- `exit`, without its NUL. -/
def exitLine : List Byte := [101, 120, 105, 116]

/-- `parse` up to the first comparison with a command. -/
def scan (input : List Byte) : Option (Scanned × List Byte) := do
  let line ← cString 0 input
  if line = exitLine then some (.exit, input)
  else do
    let input ← trim input
    let start ← startIndex input
    let len ← strlen input
    let (numSpaces, spaceIndex) ← countSpaces input (len - start) start (0, -1)
    if 1 < numSpaces then some (.wrongFormat, input)
    else do
      let turns := if numSpaces ≠ 0 then spaceIndex.toNat else len
      let cmd ← copyWord input start turns 0 (List.replicate (spaceIndex + 1).toNat none)
      some (.word cmd numSpaces spaceIndex, input)

/-! ## §3  parse -/

def ascii (s : String) : List Byte := s.toList.map fun c => c.toNat.toUInt8

/-- `STRDLCK` and the others. -/
def CmdIndex.keyword : CmdIndex → List Byte
  | .setReadLock => ascii "set_read_lock"
  | .setWriteLock => ascii "set_write_lock"
  | .printLocks => ascii "print_locks"
  | .freeLock => ascii "free_lock"
  | .readCharacter => ascii "read_character"
  | .writeCharacter => ascii "write_character"

def CmdIndex.spaces : CmdIndex → ℕ
  | .printLocks => 0
  | _ => 1

def cmdIndexOf (cmd : List Byte) : Option CmdIndex :=
  [.setReadLock, .setWriteLock, .printLocks, .freeLock, .readCharacter, .writeCharacter].find?
    fun index => strcmp index.keyword cmd = .eq

inductive Parsed
  /-- `exit(0)` -/
  | ended
  /-- `NULL`, after `Wrong input format` -/
  | wrongFormat
  /-- `NULL`, after `Unknown command` with the word -/
  | unknown (cmd : List Byte)
  | command (cmd : Command)

/-- `parse` from the first comparison with a command on. -/
def choose (found : ℕ → Byte) (input : List Byte) : Scanned → Option Parsed
  | .exit => some .ended
  | .wrongFormat => some .wrongFormat
  | .word cmd numSpaces spaceIndex => do
      let word ← cString 0 (contents found cmd)
      match cmdIndexOf word with
      | none => some (.unknown word)
      | some index =>
          if numSpaces ≠ index.spaces then some .wrongFormat
          else if numSpaces = 1 then do
            let argument ← cString (spaceIndex + 1).toNat input
            some (.command ⟨index, atoi argument⟩)
          else some (.command ⟨index, 0⟩)

/-- `parse`, with the array that it leaves. -/
def parse (found : ℕ → Byte) (input : List Byte) : Option (Parsed × List Byte) := do
  let (scanned, input) ← scan input
  let parsed ← choose found input scanned
  some (parsed, input)

/-! ## §4  What trimming leaves -/

def trimmed (s : List Byte) : List Byte := s.dropLast.rdropWhile isBlank

variable {s t p v rest : List Byte} {found : ℕ → Byte}

theorem strlen_append (hs : 0 ∉ s) (rest : List Byte) :
    strlen (s ++ 0 :: rest) = some s.length := by
  rw [strlen, if_pos (List.mem_append_right s List.mem_cons_self), beforeTerminator_append hs]

theorem cString_append (hs : 0 ∉ s) (rest : List Byte) : cString 0 (s ++ 0 :: rest) = some s :=
  cString_eq_some.mpr ⟨hs, rest, List.drop_zero⟩

/-- The induction is on the bytes in front of the NULs, from the last one on. -/
theorem trimLoop_eq (s rest : List Byte) :
    ∃ rest', trimLoop s.length (s ++ 0 :: rest) = some (s.rdropWhile isBlank ++ 0 :: rest') ∧
      (s.rdropWhile isBlank ++ 0 :: rest').length = (s ++ 0 :: rest).length := by
  induction s using List.reverseRecOn generalizing rest with
  | nil => exact ⟨rest, rfl, rfl⟩
  | append_singleton s b ih =>
      have hget : (s ++ [b] ++ 0 :: rest)[s.length]? = some b := by simp
      rw [List.length_append, List.length_singleton, trimLoop, hget, Option.bind_eq_bind,
        Option.bind_some, List.rdropWhile_concat]
      split_ifs
      · obtain ⟨rest', htrim, hlength⟩ := ih (0 :: rest)
        have hset : (s ++ [b] ++ 0 :: rest).set s.length 0 = s ++ 0 :: 0 :: rest := by simp
        refine ⟨rest', hset ▸ htrim, hlength.trans ?_⟩
        simp
      · exact ⟨rest, rfl, rfl⟩

theorem trim_eq (hs : 0 ∉ s) (hne : s ≠ []) (rest : List Byte) :
    ∃ rest', trim (s ++ 0 :: rest) = some (trimmed s ++ 0 :: rest') ∧
      (trimmed s ++ 0 :: rest').length = (s ++ 0 :: rest).length := by
  obtain ⟨l, b, rfl⟩ := List.eq_nil_or_concat s |>.resolve_left hne
  rw [List.concat_eq_append] at hs ⊢
  obtain ⟨rest', htrim, hlength⟩ := trimLoop_eq l (0 :: rest)
  have hset : setByte (l ++ [b] ++ 0 :: rest) (((l ++ [b]).length : ℤ) - 1) 0 =
      some (l ++ 0 :: 0 :: rest) := by
    have hindex : (((l ++ [b]).length : ℤ) - 1) = l.length := by simp
    rw [setByte, hindex, if_pos (by simp; omega), Int.toNat_natCast]
    simp
  have htrimmed : trimmed (l ++ [b]) = l.rdropWhile isBlank := by
    rw [trimmed, List.dropLast_concat]
  rw [htrimmed]
  refine ⟨rest', ?_, hlength.trans (by simp)⟩
  rw [trim, strlen_append hs, Option.bind_eq_bind, Option.bind_some, Option.bind_eq_bind, hset,
    Option.bind_some, List.length_append, List.length_singleton, Nat.add_sub_cancel]
  exact htrim

/-- The newline that is cut off has to be there. -/
theorem trim_empty (rest : List Byte) : trim (0 :: rest) = none := by
  have hlen : strlen (0 :: rest) = some 0 := strlen_append (s := []) List.not_mem_nil rest
  rw [trim, hlen]
  rfl

theorem notMem_trimmed (hs : 0 ∉ s) : 0 ∉ trimmed s := fun hmem =>
  hs ((List.dropLast_sublist s).subset ((List.rdropWhile_prefix isBlank _).subset hmem))

/-! ## §5  What is counted -/

def leading (t : List Byte) : List Byte := t.takeWhile isBlank

/-- The word and what follows it. -/
def typed (t : List Byte) : List Byte := t.dropWhile isBlank

theorem leading_append_typed (t : List Byte) : leading t ++ typed t = t :=
  List.takeWhile_append_dropWhile

theorem startIndex_eq (t rest : List Byte) :
    startIndex (t ++ 0 :: rest) = some (leading t).length := by
  induction t with
  | nil => rfl
  | cons b t ih =>
      rw [List.cons_append, startIndex, leading, List.takeWhile_cons]
      split_ifs
      · rw [ih]
        rfl
      · rfl

/-- The place of the last space, where `c` is that of the first byte. -/
def lastSpace : ℕ → ℤ → List Byte → ℤ
  | _, i, [] => i
  | c, i, b :: u => lastSpace (c + 1) (if b = 32 then c else i) u

theorem countSpaces_eq (u rest : List Byte) (n : ℕ) (i : ℤ) :
    countSpaces (p ++ (u ++ rest)) u.length p.length (n, i) =
      some (n + u.count 32, lastSpace p.length i u) := by
  induction u generalizing p n i with
  | nil => rfl
  | cons b u ih =>
      have hget : (p ++ (b :: u ++ rest))[p.length]? = some b := by simp
      have hstep := ih (p := p ++ [b]) (n := if b = 32 then n + 1 else n)
        (i := if b = 32 then p.length else i)
      rw [List.length_append, List.length_singleton, List.append_assoc, List.singleton_append]
        at hstep
      rw [List.length_cons, countSpaces, hget, Option.bind_eq_bind, Option.bind_some, lastSpace,
        List.count_cons]
      by_cases hb : b = 32
      · simp only [hb, if_true] at hstep ⊢
        rw [List.cons_append, hstep, Nat.add_assoc, Nat.add_comm 1]
        rfl
      · simp only [hb, if_false, beq_iff_eq] at hstep ⊢
        rw [List.cons_append, hstep]
        rfl

theorem lastSpace_of_notMem {u : List Byte} (hu : 32 ∉ u) (c : ℕ) (i : ℤ) :
    lastSpace c i u = i := by
  induction u generalizing c with
  | nil => rfl
  | cons b u ih =>
      have hb : b ≠ 32 := (List.ne_of_not_mem_cons hu).symm
      rw [lastSpace, if_neg hb, ih (List.not_mem_of_not_mem_cons hu)]

theorem lastSpace_split (hp : 32 ∉ p) (hv : 32 ∉ v) (c : ℕ) (i : ℤ) :
    lastSpace c i (p ++ 32 :: v) = c + p.length := by
  induction p generalizing c with
  | nil =>
      show lastSpace (c + 1) (if (32 : Byte) = 32 then c else i) v = _
      rw [if_pos rfl, lastSpace_of_notMem hv, List.length_nil, Int.natCast_zero, Int.add_zero]
  | cons b p ih =>
      have hb : b ≠ 32 := (List.ne_of_not_mem_cons hp).symm
      rw [List.cons_append, lastSpace, if_neg hb, ih (List.not_mem_of_not_mem_cons hp),
        List.length_cons]
      omega

/-! ## §6  What is copied -/

theorem copyWord_eq (input : List Byte) (start turns c : ℕ) (cmd : List (Option Byte))
    (hc : start + c ≤ input.length) (hcmd : c ≤ cmd.length) :
    copyWord input start turns c cmd =
      if start + c + turns ≤ input.length ∧ c + turns ≤ cmd.length then
        some (cmd.take c ++ ((input.drop (start + c)).take turns).map some ++
          cmd.drop (c + turns))
      else none := by
  induction turns generalizing c cmd with
  | zero =>
      rw [if_pos ⟨hc, hcmd⟩, List.take_zero, List.map_nil, List.append_nil, Nat.add_zero,
        List.take_append_drop]
      rfl
  | succ turns ih =>
      by_cases hin : start + c < input.length
      · by_cases hcell : c < cmd.length
        · have hget := List.getElem?_eq_getElem hin
          have hset : setByte cmd c (some input[start + c]) =
              some (cmd.set c (some input[start + c])) := by
            rw [setByte, if_pos ⟨Int.natCast_nonneg c, Int.ofNat_lt.mpr hcell⟩,
              Int.toNat_natCast]
          have htake : (cmd.set c (some input[start + c])).take (c + 1) =
              cmd.take c ++ [some input[start + c]] := by
            rw [List.take_add_one, List.take_set_of_le (Nat.le_refl c),
              List.getElem?_set_self hcell]
            rfl
          rw [copyWord, hget, Option.bind_eq_bind, Option.bind_some, hset, Option.bind_eq_bind,
            Option.bind_some, ih (c + 1) _ hin (by rwa [List.length_set]), List.length_set,
            htake, List.drop_set_of_lt (by omega), List.drop_eq_getElem_cons hin,
            List.take_succ_cons, List.map_cons, List.append_assoc, List.append_assoc,
            List.singleton_append, Nat.succ_add_eq_add_succ c, ← Nat.add_assoc start c 1,
            Nat.succ_add_eq_add_succ (start + c)]
          rw [List.append_assoc, List.cons_append]
        · have hset (b : Byte) : setByte cmd c (some b) = none :=
            if_neg fun h => hcell (Int.ofNat_lt.mp h.2)
          rw [if_neg fun h => hcell (by omega), copyWord, List.getElem?_eq_getElem hin]
          simp only [Option.bind_eq_bind, Option.bind_some, hset, Option.bind_none]
      · rw [if_neg fun h => hin (by omega), copyWord,
          List.getElem?_eq_none (Nat.not_lt.mp hin)]
        rfl

/-- Nothing is written to the last byte of the copy. -/
theorem copyWord_word (input : List Byte) {start : ℕ} (k : ℕ) (hstart : start ≤ input.length) :
    copyWord input start k 0 (List.replicate (k + 1) none) =
      if start + k ≤ input.length then
        some (((input.drop start).take k).map some ++ [none])
      else none := by
  rw [copyWord_eq input start k 0 _ hstart (Nat.zero_le _)]
  by_cases h : start + k ≤ input.length
  · have hcmd : 0 + k ≤ (List.replicate (k + 1) (none : Option Byte)).length := by
      rw [List.length_replicate, Nat.zero_add]
      exact Nat.le_succ k
    rw [if_pos h, if_pos ⟨h, hcmd⟩, List.take_zero, List.nil_append, Nat.zero_add,
      List.drop_replicate, Nat.add_sub_cancel_left]
    rfl
  · rw [if_neg h, if_neg fun h' => h h'.1]

end Sysopy.FileLock
