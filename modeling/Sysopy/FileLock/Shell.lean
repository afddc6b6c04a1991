import Sysopy.Foundation.Lines
import Sysopy.FileLock.Language

/-!
# The loop of file_lock

`main` calls `parse` in every turn, whether or not `fgets` has found another line. At the
end of the input the array holds what `parse` has left of the last line, and each further
call takes another byte off its end: a command whose argument can be shortened is executed
once more. Otherwise the calls go on until `parse` leaves its buffers.

The character that `write_character` asks for comes from the same input as the lines: it
is the first byte of the line that is typed next, and what is left of that line is parsed.

## Sections

* §1 the loop
* §2 the command of a line
* §3 the lines that turns come to
* §4 turns with a line
* §5 turns at the end of the input
* §6 what is executed
-/

namespace Sysopy.FileLock

open Sysopy.Foundation

/-! ## §1  The loop -/

structure Shell where
  /-- what is left of the input -/
  stdin : List Byte
  /-- the array of `main` -/
  input : List Byte
  /-- what `write_character` has taken from the input since the last line -/
  doubleBuf : List Byte
  ended : Bool

structure Turn where
  /-- what `malloc` finds -/
  found : ℕ → Byte
  /-- `write_character` gets to the character that it asks for -/
  asks : Bool

/-- What `try_lock` takes from the input, and what it leaves: `fgets(double_buf, 2, stdin)`
takes a byte. -/
def tryLock (asks : Bool) (cmd : Command) (stdin : List Byte) : List Byte × List Byte :=
  if cmd.cmdIndex = .writeCharacter ∧ asks = true then stdin.splitAt 1 else ([], stdin)

/-- What follows the call of `parse`. -/
def Shell.act (asks : Bool) (stdin : List Byte) : Parsed × List Byte → Shell
  | (.ended, input) => ⟨stdin, input, [], true⟩
  | (.command cmd, input) =>
      let r := tryLock asks cmd stdin
      ⟨r.2, input, r.1, false⟩
  | (_, input) => ⟨stdin, input, [], false⟩

/-- A turn of the loop of `main`; it has no next state where `parse` leaves its buffers. -/
def Shell.next (s : Shell) (a : Turn) : Option Shell :=
  if s.ended = true then none
  else (parse a.found (fgets 255 s.stdin s.input).1).map
    (Shell.act a.asks (fgets 255 s.stdin s.input).2)

/-- `main` on an input; nothing is known of the array at the start. -/
def shell (stdin array : List Byte) : System Shell Turn where
  init := ⟨stdin, array, [], false⟩
  next := Shell.next

/-- The command that `parse` returns. -/
def commandOf (found : ℕ → Byte) (input : List Byte) : Option Command :=
  match parse found input with
  | some (.command cmd, _) => some cmd
  | _ => none

namespace Shell

/-- The command that a turn passes to `try_lock`. -/
def executed (s : Shell) (a : Turn) : List Command :=
  (commandOf a.found (fgets 255 s.stdin s.input).1).toList

def line (s : Shell) : List Byte := (readLine 10 254 s.stdin).1

/-- The typed lines that a turn comes to: the one that it reads, with the byte that was taken
off its front. A newline that was taken was a line of its own. -/
def typedLines (s : Shell) (_ : Turn) : List (List Byte) :=
  if s.stdin = [] then (if s.doubleBuf = [] then [] else [s.doubleBuf])
  else if s.doubleBuf = [10] then [[10], s.line]
  else [s.doubleBuf ++ s.line]

/-- The commands of these lines, each in an array of its own. -/
def typed (s : Shell) (a : Turn) : List Command :=
  (s.typedLines a).filterMap fun line => commandOf a.found (line ++ [0])

end Shell

/-- A proper prefix of the text is a command with its argument. -/
def Shortens (text : List Byte) : Prop :=
  ∃ (index : CmdIndex) (v more : List Byte), index.spaces = 1 ∧ Argument v ∧ more ≠ [] ∧
    text = index.keyword ++ 32 :: v ++ more

/-- What is left in the array can be shortened to a command. -/
def Shell.Replays (s : Shell) : Prop := ∃ text, cString 0 s.input = some text ∧ Shortens text

/-- The line is a command with its argument: a keyword, a space and what has no other one, and
behind them a byte that is dropped with the blanks before it; `malloc` finds a NUL behind the
keyword. -/
def IsCommand (found : ℕ → Byte) (line : List Byte) : Prop :=
  ∃ (index : CmdIndex) (v : List Byte), index.spaces = 1 ∧ 32 ∉ v ∧
    found index.keyword.length = 0 ∧
    trimmed (beforeTerminator 0 line) = index.keyword ++ 32 :: v

/-- The first byte of the line, no newline, is gone, and it makes or breaks a command. -/
def Shell.Garbles (s : Shell) (a : Turn) : Prop :=
  s.stdin ≠ [] ∧ ∃ b, s.doubleBuf = [b] ∧ b ≠ 10 ∧
    (IsCommand a.found (b :: s.line) ∨ IsCommand a.found s.line)

def Faithful (tr : List (Shell × Turn)) : Prop :=
  ∀ t, t <+: tr → observe Shell.executed t = observe Shell.typed t

variable {s : List Byte} {rest rest' input' v more : List Byte} {found : ℕ → Byte}
  {cmd : Command} {parsed : Parsed} {index : CmdIndex} {x y : Shell} {a : Turn}

/-! ## §2  The command of a line -/

theorem commandOf_eq_some {input : List Byte} : commandOf found input = some cmd ↔
    ∃ input', parse found input = some (.command cmd, input') := by
  unfold commandOf
  constructor
  · intro h
    split at h
    · obtain rfl := Option.some.inj h
      exact ⟨_, ‹_›⟩
    · exact absurd h.symm (Option.some_ne_none _)
  · rintro ⟨input', h⟩
    rw [h]

/-- **The command of a line is that of its text**, whatever stands behind it in the array. -/
theorem commandOf_eq_some_iff (hs : 0 ∉ s) : commandOf found (s ++ 0 :: rest) = some cmd ↔
    numSpaces (trimmed s) = 1 ∧ leading (trimmed s) = [] ∧
      found (word (trimmed s)).length = 0 ∧
      ∃ v, FileLock.typed (trimmed s) = word (trimmed s) ++ 32 :: v ∧ 32 ∉ v ∧
        chosen (word (trimmed s)) v = .command cmd := by
  rw [commandOf_eq_some]
  constructor
  · rintro ⟨input', h⟩
    rcases parse_some hs h with ⟨hended, -⟩ | ⟨rest', -, hcommand⟩
    · exact Parsed.noConfusion hended
    · exact hcommand cmd rfl
  · rintro ⟨hone, hlead, hfound, v, hv, hspace, hchosen⟩
    have hne := ne_nil_of_numSpaces (hone ▸ Nat.one_ne_zero)
    have hexit : s ≠ exitLine := by
      rintro rfl
      exact absurd hone (by decide)
    obtain ⟨rest', -, hparse⟩ := parse_word found hs hne hexit hone hlead hv rest
    rw [if_pos hfound, hchosen] at hparse
    exact ⟨_, hparse⟩

theorem commandOf_congr (hs : 0 ∉ s) (rest rest' : List Byte) :
    commandOf found (s ++ 0 :: rest) = commandOf found (s ++ 0 :: rest') := by
  apply Option.ext
  intro cmd
  rw [commandOf_eq_some_iff hs, commandOf_eq_some_iff hs]

/-- A line may hold NULs; its text ends at the first one. -/
theorem exists_text (line rest : List Byte) : ∃ rest',
    line ++ 0 :: rest = beforeTerminator 0 line ++ 0 :: rest' := by
  by_cases hzero : 0 ∈ line
  · obtain ⟨r, hr⟩ := exists_eq_beforeTerminator_append hzero
    refine ⟨r ++ 0 :: rest, ?_⟩
    conv_lhs => rw [hr]
    rw [List.append_assoc, List.cons_append]
  · exact ⟨rest, by rw [beforeTerminator_eq_self hzero]⟩

theorem commandOf_line (found : ℕ → Byte) (line rest : List Byte) :
    commandOf found (line ++ 0 :: rest) = commandOf found (line ++ [0]) := by
  obtain ⟨r, hr⟩ := exists_text line rest
  obtain ⟨r', hr'⟩ := exists_text line []
  rw [hr, hr']
  exact commandOf_congr (notMem_beforeTerminator line) r r'

theorem trimmed_isPrefix (s : List Byte) : trimmed s <+: s :=
  (List.rdropWhile_prefix isBlank _).trans (List.dropLast_prefix s)

theorem leading_typed_command (index : CmdIndex) (t : List Byte) :
    leading (index.keyword ++ t) = [] ∧
      FileLock.typed (index.keyword ++ t) = index.keyword ++ t := by
  obtain ⟨c, r, hkey, hc⟩ := keyword_head index
  have hhead : ∃ b r', index.keyword ++ t = b :: r' ∧ isBlank b = false :=
    ⟨c, r ++ t, by rw [hkey, List.cons_append], hc⟩
  exact leading_typed (List.forall_mem_nil _) hhead

theorem commandOf_ne_none {line : List Byte} :
    commandOf found (line ++ [0]) ≠ none ↔ IsCommand found line := by
  obtain ⟨r, hr⟩ := exists_text line []
  rw [hr, Option.ne_none_iff_exists']
  simp only [commandOf_eq_some_iff (notMem_beforeTerminator line)]
  constructor
  · rintro ⟨cmd, -, hlead, hfound, v, hv, hspace, hchosen⟩
    obtain ⟨index, hindex, hword, -⟩ := chosen_eq_command.mp hchosen
    refine ⟨index, v, hindex, hspace, hword ▸ hfound, ?_⟩
    rw [← leading_append_typed (trimmed _), hlead, hv, hword, List.nil_append]
  · rintro ⟨index, v, hindex, hspace, hfound, htrimmed⟩
    obtain ⟨hlead, htyped⟩ := leading_typed_command index (32 :: v)
    obtain ⟨hone, hword⟩ := numSpaces_of_typed htyped (keyword_bytes index).2 hspace
    rw [htrimmed]
    refine ⟨⟨index, atoi v⟩, hone, hlead, ?_, v, ?_, hspace, ?_⟩
    · rwa [hword]
    · rw [hword, htyped]
    · exact chosen_eq_command.mpr ⟨index, hindex, hword, rfl⟩

theorem commandOf_newline (found : ℕ → Byte) : commandOf found ([10] ++ [0]) = none := by
  by_contra hcommand
  obtain ⟨index, v, -, -, -, htrimmed⟩ := commandOf_ne_none.mp hcommand
  exact List.append_ne_nil_of_right_ne_nil _ (List.cons_ne_nil 32 v) htrimmed.symm

theorem keyword_ne_cons (index index' : CmdIndex) (b : Byte) :
    index.keyword ≠ b :: index'.keyword := by
  intro h
  have htail : index.keyword.tail = index'.keyword := congrArg List.tail h
  clear h
  revert htail
  cases index <;> cases index' <;> decide

theorem commandOf_cons_eq_iff {b : Byte} {line : List Byte} :
    commandOf found (b :: line ++ [0]) = commandOf found (line ++ [0]) ↔
      ¬(IsCommand found (b :: line) ∨ IsCommand found line) := by
  constructor
  · rintro heq hcommand
    have hboth : IsCommand found (b :: line) ∧ IsCommand found line := by
      rw [← commandOf_ne_none, ← commandOf_ne_none, heq, and_self]
      rw [← commandOf_ne_none, ← commandOf_ne_none, heq, or_self] at hcommand
      exact hcommand
    obtain ⟨⟨index, v, -, hv, -, htrimmed⟩, index', v', -, hv', -, htrimmed'⟩ := hboth
    obtain ⟨r, hr⟩ := trimmed_isPrefix (beforeTerminator 0 (b :: line))
    obtain ⟨r', hr'⟩ := trimmed_isPrefix (beforeTerminator 0 line)
    rw [htrimmed, List.append_assoc] at hr
    rw [htrimmed', List.append_assoc] at hr'
    have hb : b ≠ 0 := fun hb => by
      rw [beforeTerminator_cons_eq_nil.mpr hb] at hr
      exact List.append_ne_nil_of_right_ne_nil _ (List.cons_ne_nil 32 _) hr
    have htext : beforeTerminator 0 (b :: line) = b :: beforeTerminator 0 line :=
      List.takeWhile_cons_of_pos (by simpa using hb)
    -- both keywords end in front of the first space
    rw [htext, ← hr', ← List.cons_append] at hr
    have hargument : ∀ v r : List Byte, 32 :: v ++ r = 32 :: (v ++ r) := fun _ _ => rfl
    have hword := congrArg (beforeTerminator 32) hr
    rw [hargument v, beforeTerminator_append (keyword_bytes index).2, hargument v'] at hword
    by_cases hspace : b = 32
    · rw [List.cons_append, beforeTerminator_cons_eq_nil.mpr hspace] at hword
      obtain ⟨c, r, hkey, -⟩ := keyword_head index
      exact List.cons_ne_nil c r (hkey.symm.trans hword)
    · have hfront : 32 ∉ b :: index'.keyword :=
        List.not_mem_cons_of_ne_of_not_mem (Ne.symm hspace) (keyword_bytes index').2
      rw [beforeTerminator_append hfront] at hword
      exact keyword_ne_cons index index' b hword
  · intro hnot
    rw [not_or, ← commandOf_ne_none, ← commandOf_ne_none, not_not, not_not] at hnot
    rw [hnot.1, hnot.2]

/-! ## §3  The lines that turns come to -/

variable {stdin array : List Byte} {tr tr' : List (Shell × Turn)} {l : List Byte}
  {ls : List (List Byte)}

/-- What is taken from the input and what is left of it, after a turn. -/
theorem next_input (h : x.next a = some y) :
    y.doubleBuf ++ y.stdin = (fgets 255 x.stdin x.input).2 ∧ y.doubleBuf.length ≤ 1 := by
  unfold Shell.next at h
  split_ifs at h
  obtain ⟨⟨parsed, input'⟩, -, rfl⟩ := Option.map_eq_some_iff.mp h
  cases parsed with
  | command cmd =>
      simp only [Shell.act, tryLock]
      split_ifs
      · rw [List.splitAt_eq]
        exact ⟨List.take_append_drop 1 _, List.length_take_le 1 _⟩
      · exact ⟨rfl, Nat.zero_le 1⟩
  | ended | wrongFormat | unknown p => exact ⟨rfl, Nat.zero_le 1⟩

/-- A newline at most has been taken where nothing is left. -/
theorem doubleBuf_of_end (hwire : x.doubleBuf ++ x.stdin = wire 10 ls)
    (hbuf : x.doubleBuf.length ≤ 1) (hend : x.stdin = []) :
    x.doubleBuf = [] ∧ ls = [] ∨ x.doubleBuf = [10] ∧ ls = [[]] := by
  rw [hend, List.append_nil] at hwire
  cases ls with
  | nil => exact Or.inl ⟨hwire, rfl⟩
  | cons l ls =>
      rw [hwire, wire_cons, List.length_append, List.length_cons] at hbuf
      obtain rfl : l = [] := List.length_eq_zero_iff.mp (by omega)
      have hrest : (wire 10 ls).length = 0 := by omega
      cases ls with
      | nil => exact Or.inr ⟨hwire, rfl⟩
      | cons l' ls =>
          rw [wire_cons, List.length_append, List.length_cons] at hrest
          omega

/-- **A turn comes to the next lines**, whole, and leaves the others. -/
theorem typedLines_wire (hls : ∀ l ∈ ls, 10 ∉ l ∧ l.length < 254)
    (hwire : x.doubleBuf ++ x.stdin = wire 10 ls) (hbuf : x.doubleBuf.length ≤ 1) :
    ∃ j, x.typedLines a = (ls.take j).map (terminated 10) ∧
      (fgets 255 x.stdin x.input).2 = wire 10 (ls.drop j) := by
  unfold Shell.typedLines Shell.line fgets
  by_cases hend : x.stdin = []
  · rcases doubleBuf_of_end hwire hbuf hend with ⟨hnone, rfl⟩ | ⟨hten, rfl⟩
    · exact ⟨0, by simp [hend, hnone], by simp [hend]⟩
    · exact ⟨1, by simp [hend, hten, terminated], by simp [hend]⟩
  · rw [if_neg hend, if_neg hend]
    -- the line that is read, where the input is left at its beginning
    have hread {l : List Byte} {rest : List (List Byte)} (hstdin : x.stdin = wire 10 (l :: rest))
        (hl : 10 ∉ l ∧ l.length < 254) :
        readLine 10 (255 - 1) x.stdin = (terminated 10 l, wire 10 rest) := by
      rw [hstdin]
      exact readLine_wire hl.1 hl.2 rest
    cases ls with
    | nil =>
        rw [wire_nil] at hwire
        exact absurd (List.append_eq_nil_iff.mp hwire).2 hend
    | cons l rest =>
        obtain ⟨hl, hrest⟩ := List.forall_mem_cons.mp hls
        cases hb : x.doubleBuf with
        | nil =>
            rw [hb, List.nil_append] at hwire
            refine ⟨1, ?_, ?_⟩
            · rw [if_neg (List.cons_ne_nil _ _).symm, hread hwire hl]
              rfl
            · rw [hread hwire hl]
              rfl
        | cons b more =>
            rw [hb, List.length_cons] at hbuf
            obtain rfl : more = [] := List.length_eq_zero_iff.mp (by omega)
            rw [hb, List.singleton_append, wire_cons] at hwire
            cases l with
            | nil =>
                obtain ⟨rfl, hstdin⟩ := List.cons.inj hwire
                cases rest with
                | nil => exact absurd hstdin hend
                | cons l' rest =>
                    have hl' := hrest l' List.mem_cons_self
                    refine ⟨2, ?_, ?_⟩
                    · rw [if_pos rfl, hread hstdin hl']
                      rfl
                    · rw [hread hstdin hl']
                      rfl
            | cons c l =>
                obtain ⟨rfl, hstdin⟩ := List.cons.inj hwire
                change x.stdin = l ++ 10 :: wire 10 rest at hstdin
                rw [← wire_cons] at hstdin
                have hl' : 10 ∉ l ∧ l.length < 254 :=
                  ⟨fun hmem => hl.1 (List.mem_cons_of_mem b hmem), Nat.lt_of_succ_lt hl.2⟩
                refine ⟨1, ?_, ?_⟩
                · rw [if_neg, hread hstdin hl']
                  · rfl
                  · rintro heq
                    exact hl.1 (List.head_eq_of_cons_eq heq ▸ List.mem_cons_self)
                · rw [hread hstdin hl']
                  rfl

/-- **Every run comes to the typed lines one after the other.** -/
theorem run_typedLines (hls : ∀ l ∈ ls, 10 ∉ l ∧ l.length < 254)
    (hrun : (shell (wire 10 ls) array).Run tr x) :
    ∃ k, observe Shell.typedLines tr = (ls.take k).map (terminated 10) ∧
      x.doubleBuf ++ x.stdin = wire 10 (ls.drop k) ∧ x.doubleBuf.length ≤ 1 := by
  refine hrun.invariant (I := fun tr x => ∃ k, observe Shell.typedLines tr =
    (ls.take k).map (terminated 10) ∧ x.doubleBuf ++ x.stdin = wire 10 (ls.drop k) ∧
      x.doubleBuf.length ≤ 1) ⟨0, rfl, rfl, Nat.zero_le 1⟩ ?_
  rintro tr x a y ⟨k, hlines, hwire, hbuf⟩ hnext
  obtain ⟨j, hnew, hrest⟩ := typedLines_wire (a := a)
    (fun l hl => hls l (List.mem_of_mem_drop hl)) hwire hbuf
  obtain ⟨hinput, hbuf'⟩ := next_input hnext
  refine ⟨k + j, ?_, ?_, hbuf'⟩
  · rw [observe_snoc, hlines, hnew, List.take_add, List.map_append]
  · rw [hinput, hrest, List.drop_drop]

/-! ## §4  Turns with a line -/

theorem toList_eq_toList {α : Type*} {o o' : Option α} : o.toList = o'.toList ↔ o = o' := by
  cases o <;> cases o' <;> simp

/-- **A turn that reads a line executes what was typed**, unless the byte that is gone
matters. -/
theorem executed_of_line (hne : x.stdin ≠ []) (hbuf : x.doubleBuf.length ≤ 1) :
    x.executed a = x.typed a ↔ ¬x.Garbles a := by
  obtain ⟨rest, hrest⟩ := fgets_fst hne 255 x.input
  have hexecuted : x.executed a = (commandOf a.found (x.line ++ [0])).toList := by
    rw [Shell.executed, hrest, commandOf_line]
    rfl
  have hone (line : List Byte) :
      [line].filterMap (fun line => commandOf a.found (line ++ [0])) =
        (commandOf a.found (line ++ [0])).toList := by
    rw [List.filterMap_cons]
    cases commandOf a.found (line ++ [0]) <;> rfl
  rw [hexecuted, Shell.typed, Shell.typedLines, if_neg hne]
  cases hb : x.doubleBuf with
  | nil =>
      rw [if_neg (List.cons_ne_nil _ _).symm, List.nil_append, hone]
      refine iff_of_true rfl ?_
      rintro ⟨-, b, hgone, -⟩
      exact List.cons_ne_nil b [] (hgone.symm.trans hb)
  | cons b more =>
      rw [hb, List.length_cons] at hbuf
      obtain rfl : more = [] := List.length_eq_zero_iff.mp (by omega)
      by_cases hten : b = 10
      · subst hten
        have hfirst : [[10], x.line].filterMap (fun line => commandOf a.found (line ++ [0])) =
            [x.line].filterMap fun line => commandOf a.found (line ++ [0]) :=
          List.filterMap_cons_none (commandOf_newline a.found)
        rw [if_pos rfl, hfirst, hone]
        refine iff_of_true rfl ?_
        rintro ⟨-, b, hgone, hb', -⟩
        exact hb' (List.head_eq_of_cons_eq (hgone.symm.trans hb))
      · rw [if_neg fun heq => hten (List.head_eq_of_cons_eq heq), List.singleton_append, hone,
          toList_eq_toList, eq_comm, commandOf_cons_eq_iff]
        apply not_congr
        constructor
        · exact fun hcommand => ⟨hne, b, hb, hten, hcommand⟩
        · rintro ⟨-, b', hgone, -, hcommand⟩
          obtain rfl := List.head_eq_of_cons_eq (hb.symm.trans hgone)
          exact hcommand

/-- At the end of the input nothing was typed that a turn could execute. -/
theorem typed_of_end (h : x.stdin = []) (hbuf : x.doubleBuf = [] ∨ x.doubleBuf = [10]) :
    x.typed a = [] := by
  rw [Shell.typed, Shell.typedLines, if_pos h]
  rcases hbuf with hb | hb
  · rw [if_pos hb, List.filterMap_nil]
  · rw [hb, if_neg (List.cons_ne_nil _ _)]
    exact List.filterMap_cons_none (commandOf_newline a.found)

/-! ## §5  Turns at the end of the input -/

theorem shortens_of_prefix {t : List Byte} (h : Shortens t) (hts : t <+: s) :
    Shortens s := by
  obtain ⟨index, v, more, hindex, hv, hmore, rfl⟩ := h
  obtain ⟨r, rfl⟩ := hts
  refine ⟨index, v, more ++ r, hindex, hv, List.append_ne_nil_of_left_ne_nil hmore r, ?_⟩
  rw [List.append_assoc]

/-- A command found at the end of the input was a proper prefix of what was left. -/
theorem shortens_of_command (hs : 0 ∉ s) (h : commandOf found (s ++ 0 :: rest) = some cmd) :
    Shortens s := by
  obtain ⟨hone, hlead, -, v, hv, hspace, hchosen⟩ := (commandOf_eq_some_iff hs).mp h
  obtain ⟨index, hindex, hword, -⟩ := chosen_eq_command.mp hchosen
  have htext : trimmed s = index.keyword ++ 32 :: v := by
    rw [← leading_append_typed (trimmed s), hlead, hv, hword, List.nil_append]
  obtain ⟨r, hr⟩ := List.rdropWhile_prefix isBlank s.dropLast
  have hne := ne_nil_of_numSpaces (hone ▸ Nat.one_ne_zero)
  refine ⟨index, v, r ++ [s.getLast hne], hindex, argument_of_trimmed hs hv hspace,
    List.append_ne_nil_of_right_ne_nil _ (List.cons_ne_nil _ _), ?_⟩
  conv_lhs => rw [← List.dropLast_append_getLast hne, ← hr, ← trimmed, htext]
  rw [List.append_assoc]

theorem commandOf_of_noString {input : List Byte} (h : cString 0 input = none) :
    commandOf found input = none := by
  rw [commandOf, parse, scan, h]
  rfl

theorem act_end (asks : Bool) (r : Parsed × List Byte) :
    (Shell.act asks [] r).stdin = [] ∧ (Shell.act asks [] r).input = r.2 ∧
      (Shell.act asks [] r).doubleBuf = [] := by
  obtain ⟨parsed, input⟩ := r
  cases parsed with
  | command cmd =>
      simp only [Shell.act, tryLock]
      split_ifs
      · exact ⟨rfl, trivial, rfl⟩
      · exact ⟨rfl, trivial, rfl⟩
  | ended | wrongFormat | unknown p => exact ⟨rfl, rfl, rfl⟩

theorem next_end (h : x.stdin = []) (hnext : x.next a = some y) :
    y.stdin = [] ∧ y.doubleBuf = [] ∧ ∃ parsed, parse a.found x.input = some (parsed, y.input) := by
  unfold Shell.next at hnext
  split_ifs at hnext
  rw [h, fgets_end] at hnext
  obtain ⟨⟨parsed, input'⟩, hparse, rfl⟩ := Option.map_eq_some_iff.mp hnext
  obtain ⟨hstdin, hinput, hbuf⟩ := act_end a.asks (parsed, input')
  exact ⟨hstdin, hbuf, parsed, hinput.symm ▸ hparse⟩

/-- Nothing that can be shortened to a command is left, and nothing is left to be read. -/
structure Done (s : Shell) : Prop where
  stdin : s.stdin = []
  harmless : ¬s.Replays

theorem Done.executed (h : Done x) : x.executed a = [] := by
  rw [Shell.executed, h.stdin, fgets_end]
  cases hstring : cString 0 x.input with
  | none =>
      rw [commandOf_of_noString hstring]
      rfl
  | some text =>
      obtain ⟨hzero, rest, hinput⟩ := cString_eq_some.mp hstring
      rw [List.drop_zero] at hinput
      cases hcommand : commandOf a.found x.input with
      | none => rfl
      | some cmd =>
          exact absurd ⟨text, hstring, shortens_of_command hzero (hinput ▸ hcommand)⟩ h.harmless

theorem Done.next (h : Done x) (hnext : x.next a = some y) : Done y := by
  obtain ⟨hstdin, -, parsed, hparse⟩ := next_end h.stdin hnext
  refine ⟨hstdin, ?_⟩
  rintro ⟨text', hstring', hshortens⟩
  cases hstring : cString 0 x.input with
  | none =>
      rw [parse, scan, hstring] at hparse
      exact absurd hparse.symm (Option.some_ne_none _)
  | some text =>
      obtain ⟨hzero, rest, hinput⟩ := cString_eq_some.mp hstring
      rw [List.drop_zero] at hinput
      rw [hinput] at hparse
      refine h.harmless ⟨text, hstring, ?_⟩
      rcases parse_some hzero hparse with ⟨-, hinput'⟩ | ⟨rest', hinput', -⟩
      · rw [hinput', cString_append hzero] at hstring'
        exact Option.some.inj hstring' ▸ hshortens
      · rw [hinput', cString_append (notMem_trimmed hzero)] at hstring'
        obtain rfl := Option.some.inj hstring'
        exact shortens_of_prefix hshortens (trimmed_isPrefix text)

theorem executed_of_done (h : Done x) (hpath : (shell stdin array).Path x tr' y) :
    ∀ z ∈ tr', z.1.executed z.2 = [] := by
  have hinvariant := hpath.invariant
    (I := fun tr y => Done y ∧ ∀ z ∈ tr, z.1.executed z.2 = [])
    ⟨h, fun _ hz => absurd hz List.not_mem_nil⟩ ?_
  · exact hinvariant.2
  · rintro tr y a z ⟨hy, htr⟩ hnext
    refine ⟨hy.next hnext, ?_⟩
    rw [List.forall_mem_append, List.forall_mem_singleton]
    exact ⟨htr, hy.executed⟩

theorem typed_at_end (h : x.stdin = []) (hbuf : x.doubleBuf = [] ∨ x.doubleBuf = [10])
    (hpath : (shell stdin array).Path x tr' y) : ∀ z ∈ tr', z.1.typed z.2 = [] := by
  have hinvariant := hpath.invariant (I := fun tr y => (y.stdin = [] ∧
    (y.doubleBuf = [] ∨ y.doubleBuf = [10])) ∧ ∀ z ∈ tr, z.1.typed z.2 = [])
    ⟨⟨h, hbuf⟩, fun _ hz => absurd hz List.not_mem_nil⟩ ?_
  · exact hinvariant.2
  · rintro tr y a z ⟨⟨hy, hbuf⟩, htr⟩ hnext
    obtain ⟨hstdin, hnone, -⟩ := next_end hy hnext
    refine ⟨⟨hstdin, Or.inl hnone⟩, ?_⟩
    rw [List.forall_mem_append, List.forall_mem_singleton]
    exact ⟨htr, typed_of_end hy hbuf⟩

/-! ## §6  What is executed -/

/-- One byte less behind a command: it is still there, and less is behind it. -/
theorem trimmed_command (index : CmdIndex) (harg : Argument v) (hmore : more ≠ []) :
    ∃ more', trimmed (index.keyword ++ 32 :: v ++ more) = index.keyword ++ 32 :: v ++ more' ∧
      more'.length < more.length := by
  obtain ⟨init, b, rfl, hb⟩ := harg.last
  have hlength : more.dropLast.length < more.length := by
    rw [List.length_dropLast]
    exact Nat.sub_lt (List.length_pos_iff.mpr hmore) Nat.one_pos
  rw [trimmed, List.dropLast_append_of_ne_nil hmore]
  generalize more.dropLast = r at hlength
  induction r using List.reverseRecOn with
  | nil =>
      refine ⟨[], ?_, hlength⟩
      rw [List.append_nil, ← List.cons_append, ← List.append_assoc,
        List.rdropWhile_concat_neg _ _ _ (by simp [hb])]
  | append_singleton r c ih =>
      by_cases hc : isBlank c
      · rw [← List.append_assoc, List.rdropWhile_concat_pos _ _ _ hc]
        apply ih
        rw [List.length_append] at hlength
        exact Nat.lt_of_le_of_lt (Nat.le_add_right _ _) hlength
      · refine ⟨r ++ [c], ?_, hlength⟩
        rw [← List.append_assoc, List.rdropWhile_concat_neg _ _ _ hc]

section Behind

variable {more' : List Byte} (index : CmdIndex)

/-- With another space behind the command only the last byte is taken off. -/
theorem parse_spaced (found : ℕ → Byte) (hzero : 0 ∉ index.keyword ++ 32 :: v ++ more)
    (htrimmed : trimmed (index.keyword ++ 32 :: v ++ more) = index.keyword ++ 32 :: v ++ more')
    (hspace : 32 ∈ more') (rest : List Byte) :
    ∃ rest', parse found (index.keyword ++ 32 :: v ++ more ++ 0 :: rest) =
      some (.wrongFormat, index.keyword ++ 32 :: v ++ more' ++ 0 :: rest') := by
  have htyped := (leading_typed_command index (32 :: v ++ more')).2
  rw [← List.append_assoc] at htyped
  have hmany : 2 ≤ numSpaces (trimmed (index.keyword ++ 32 :: v ++ more)) := by
    have hpos := List.count_pos_iff.mpr hspace
    rw [numSpaces, htrimmed, htyped, List.count_append, List.count_append,
      List.count_cons_self]
    omega
  have hexit : index.keyword ++ 32 :: v ++ more ≠ exitLine := by
    intro heq
    rw [heq] at hmany
    exact absurd hmany (by decide)
  obtain ⟨rest', -, hparse⟩ := parse_many found hzero
    (ne_nil_of_numSpaces (Nat.ne_zero_of_lt hmany)) hexit hmany rest
  exact ⟨rest', htrimmed ▸ hparse⟩

/-- Without one it is found, with a longer argument. -/
theorem commandOf_unspaced (hindex : index.spaces = 1) (harg : Argument v)
    (hzero : 0 ∉ index.keyword ++ 32 :: v ++ more)
    (htrimmed : trimmed (index.keyword ++ 32 :: v ++ more) = index.keyword ++ 32 :: v ++ more')
    (hspace : 32 ∉ more') (rest : List Byte) :
    commandOf (fun _ => 0) (index.keyword ++ 32 :: v ++ more ++ 0 :: rest) =
      some ⟨index, atoi (v ++ more')⟩ := by
  have htext : trimmed (index.keyword ++ 32 :: v ++ more) =
      index.keyword ++ 32 :: (v ++ more') := by
    rw [htrimmed, List.append_assoc, List.cons_append]
  have hv : 32 ∉ v ++ more' := fun hmem =>
    (List.mem_append.mp hmem).elim harg.noSpace hspace
  obtain ⟨hlead, htyped⟩ := leading_typed_command index (32 :: (v ++ more'))
  obtain ⟨hone, hword⟩ := numSpaces_of_typed htyped (keyword_bytes index).2 hv
  rw [commandOf_eq_some_iff hzero, htext]
  refine ⟨hone, hlead, rfl, v ++ more', ?_, hv, ?_⟩
  · rw [hword, htyped]
  · exact chosen_eq_command.mpr ⟨index, hindex, hword, rfl⟩

end Behind

/-- `malloc` finds zeros, and no character is asked for. -/
def zeros : Turn := ⟨fun _ => 0, false⟩

/-- **What can be shortened to a command is executed.** The induction is on what stands
behind the command. -/
theorem exists_replay (stdin array : List Byte) (hstdin : x.stdin = [])
    (hrunning : x.ended = false) (h : x.Replays) :
    ∃ tr' y, (shell stdin array).Path x tr' y ∧ observe Shell.executed tr' ≠ [] := by
  obtain ⟨text, hstring, index, v, more, hindex, harg, hmore, rfl⟩ := h
  induction hn : more.length using Nat.strongRecOn generalizing x more with
  | ind n ih =>
      obtain ⟨hzero, rest, hinput⟩ := cString_eq_some.mp hstring
      rw [List.drop_zero] at hinput
      obtain ⟨more', htrimmed, hless⟩ := trimmed_command index harg hmore
      have hnext : x.next zeros = (parse zeros.found x.input).map (Shell.act false []) := by
        rw [Shell.next, hrunning, if_neg Bool.false_ne_true, hstdin, fgets_end]
        rfl
      by_cases hspace : 32 ∈ more'
      · -- one space too many, so the next turn is the same with less behind the command
        obtain ⟨rest', hparse⟩ := parse_spaced index zeros.found hzero htrimmed hspace rest
        rw [← hinput] at hparse
        rw [hparse] at hnext
        have hzero' := notMem_trimmed hzero
        rw [htrimmed] at hzero'
        obtain ⟨tr', y, hpath, hne⟩ := ih more'.length (hn ▸ hless)
          (x := ⟨[], index.keyword ++ 32 :: v ++ more' ++ 0 :: rest', [], false⟩) rfl rfl more'
          (List.ne_nil_of_mem hspace) (cString_append hzero' rest') rfl
        refine ⟨(x, zeros) :: tr', y, .cons hnext hpath, ?_⟩
        unfold observe at hne ⊢
        rw [List.flatMap_cons]
        exact List.append_ne_nil_of_right_ne_nil _ hne
      · have hcommand := commandOf_unspaced index hindex harg hzero htrimmed hspace rest
        rw [← hinput] at hcommand
        obtain ⟨input', hparse⟩ := commandOf_eq_some.mp hcommand
        have hexecuted : x.executed zeros = [⟨index, atoi (v ++ more')⟩] := by
          rw [Shell.executed, hstdin, fgets_end]
          exact congrArg Option.toList hcommand
        rw [zeros, hparse] at hnext
        refine ⟨[] ++ [(x, zeros)], _, .snoc .nil hnext, ?_⟩
        rw [observe_snoc, hexecuted]
        exact List.cons_ne_nil _ _

/-- **Only what was typed is executed exactly if no byte is taken off a line that matters and
nothing that is left at the end of the input can be shortened to a command.** Whatever
happens the turns come to the typed lines one after the other. -/
theorem executed_typed_iff {ls : List (List Byte)} (hls : ∀ l ∈ ls, 10 ∉ l ∧ l.length < 254)
    (hrun : (shell (wire 10 ls) array).Run tr x) (hfresh : ∀ z ∈ tr, z.1.stdin ≠ []) :
    (∃ k, observe Shell.typedLines tr = (ls.take k).map (terminated 10) ∧
      x.doubleBuf ++ x.stdin = wire 10 (ls.drop k)) ∧
    (Faithful tr ↔ ∀ z ∈ tr, ¬z.1.Garbles z.2) ∧
    (x.stdin = [] → x.ended = false →
      ((∀ tr' y, (shell (wire 10 ls) array).Path x tr' y → Faithful (tr ++ tr')) ↔
        (∀ z ∈ tr, ¬z.1.Garbles z.2) ∧ ¬x.Replays)) := by
  obtain ⟨k, hlines, hwire, hbuf⟩ := run_typedLines hls hrun
  have hsteps : Faithful tr ↔ ∀ z ∈ tr, ¬z.1.Garbles z.2 := by
    rw [Faithful, observe_prefixes_iff]
    refine forall₂_congr fun z hz => ?_
    obtain ⟨pre, u, hpre, -⟩ := hrun.of_mem hz
    obtain ⟨-, -, -, hbuf⟩ := run_typedLines hls hpre
    exact executed_of_line (hfresh z hz) hbuf
  refine ⟨⟨k, hlines, hwire⟩, hsteps, fun hend hrunning => ?_⟩
  have hten : x.doubleBuf = [] ∨ x.doubleBuf = [10] :=
    (doubleBuf_of_end hwire hbuf hend).imp And.left And.left
  constructor
  · intro h
    refine ⟨hsteps.mp ?_, fun hreplays => ?_⟩
    · have hnow := h [] x .nil
      rwa [List.append_nil] at hnow
    · obtain ⟨tr', y, hpath, hne⟩ := exists_replay (wire 10 ls) array hend hrunning hreplays
      refine hne (List.flatMap_eq_nil_iff.mpr fun z hz => ?_)
      rw [observe_prefixes_iff.mp (h tr' y hpath) z (List.mem_append_right tr hz)]
      exact typed_at_end hend hten hpath z hz
  · rintro ⟨hkept, hharmless⟩ tr' y hpath
    refine observe_prefixes_iff.mpr (List.forall_mem_append.mpr ⟨?_, fun z hz => ?_⟩)
    · exact observe_prefixes_iff.mp (hsteps.mpr hkept)
    · rw [executed_of_done ⟨hend, hharmless⟩ hpath z hz, typed_at_end hend hten hpath z hz]

/-- A character is asked for, and the first byte of the next line is taken for it. -/
theorem executed_typed_iff_lock : ∃ tr x,
    (shell (wire 10 [ascii "write_character 0", ascii "set_read_lock 5"])
      (List.replicate 256 0)).Run tr x ∧
    observe Shell.typed tr = [⟨.writeCharacter, 0⟩, ⟨.setReadLock, 5⟩] ∧
    observe Shell.executed tr = [⟨.writeCharacter, 0⟩] ∧
    (Faithful tr ↔ ∀ z ∈ tr, ¬z.1.Garbles z.2) := by
  have hevaluated : ((shell (wire 10 [ascii "write_character 0", ascii "set_read_lock 5"])
      (List.replicate 256 0)).replay [⟨fun _ => 0, true⟩, zeros]).map
        (fun r => (r.1.all fun z => !z.1.stdin.isEmpty, observe Shell.typed r.1,
          observe Shell.executed r.1)) =
      some (true, [⟨.writeCharacter, 0⟩, ⟨.setReadLock, 5⟩], [⟨.writeCharacter, 0⟩]) := by
    decide +kernel
  obtain ⟨⟨tr, x⟩, hreplay, hx⟩ := Option.map_eq_some_iff.mp hevaluated
  obtain ⟨hall, hrest⟩ := Prod.ext_iff.mp hx
  obtain ⟨htyped, hexecuted⟩ := Prod.ext_iff.mp hrest
  have hrun := System.run_of_replay _ hreplay
  refine ⟨tr, x, hrun, htyped, hexecuted,
    (executed_typed_iff (by decide) hrun fun z hz => ?_).2.1⟩
  have hfresh := List.all_eq_true.mp hall z hz
  simpa using hfresh

/-- An argument of two digits is executed again with the first one. -/
theorem last_command_is_replayed : ∃ tr x,
    (shell (wire 10 [ascii "set_read_lock 12"]) (List.replicate 256 0)).Run tr x ∧
    observe Shell.typed tr = [⟨.setReadLock, 12⟩] ∧
    observe Shell.executed tr = [⟨.setReadLock, 12⟩, ⟨.setReadLock, 1⟩] := by
  have hevaluated : ((shell (wire 10 [ascii "set_read_lock 12"]) (List.replicate 256 0)).replay
      [zeros, zeros]).map (fun r => (observe Shell.typed r.1, observe Shell.executed r.1)) =
      some ([⟨.setReadLock, 12⟩], [⟨.setReadLock, 12⟩, ⟨.setReadLock, 1⟩]) := by decide +kernel
  obtain ⟨⟨tr, x⟩, hreplay, hx⟩ := Option.map_eq_some_iff.mp hevaluated
  obtain ⟨htyped, hexecuted⟩ := Prod.ext_iff.mp hx
  exact ⟨tr, x, System.run_of_replay _ hreplay, htyped, hexecuted⟩

end Sysopy.FileLock
