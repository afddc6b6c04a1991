import Sysopy.FileLock.Lines

/-!
# The language of file_lock

The commands that the usage text of `main` shows, with blanks around them that the parser
wants to allow. `parse` gives the command of such a line only where nothing stands in
front of it, and never gets through a line without an argument.

## Sections

* §1 the language
* §2 the text of a line in the language
* §3 lines with one space
* §4 which lines are recognised
-/

namespace Sysopy.FileLock

open Sysopy.Foundation

variable {line body s t p v arg rest : List Byte} {found : ℕ → Byte} {index : CmdIndex}
  {cmd : Command}

/-! ## §1  The language -/

/-- An argument: no space in it, and its last byte is not one of the blanks that follow. -/
structure Argument (arg : List Byte) : Prop where
  noSpace : 32 ∉ arg
  noNul : 0 ∉ arg
  last : ∃ init b, arg = init ++ [b] ∧ isBlank b = false

/-- The lines of the language, with their commands. -/
inductive InLanguage : List Byte → Command → Prop
  | lock (lead arg trail : List Byte) (index : CmdIndex) (hindex : index ≠ .printLocks)
      (hlead : ∀ b ∈ lead, isBlank b) (harg : Argument arg) (htrail : ∀ b ∈ trail, isBlank b) :
      InLanguage (lead ++ (index.keyword ++ 32 :: arg) ++ trail ++ [10]) ⟨index, atoi arg⟩
  | print (lead trail : List Byte) (hlead : ∀ b ∈ lead, isBlank b)
      (htrail : ∀ b ∈ trail, isBlank b) :
      InLanguage (lead ++ CmdIndex.printLocks.keyword ++ trail ++ [10]) ⟨.printLocks, 0⟩

/-- `parse` returns a command exactly for a line of the language, and then its command. -/
def Recognises (found : ℕ → Byte) (input line : List Byte) : Prop :=
  ∃ parsed input', parse found input = some (parsed, input') ∧
    ∀ cmd, parsed = .command cmd ↔ InLanguage line cmd

/-! ## §2  The text of a line in the language -/

theorem not_zero_of_isBlank (h : ∀ b ∈ p, isBlank b) : 0 ∉ p := fun hmem =>
  absurd (h 0 hmem) (by decide)

theorem spaces_eq_one : index.spaces = 1 ↔ index ≠ .printLocks := by
  cases index <;> decide

theorem keyword_head (index : CmdIndex) :
    ∃ b r, index.keyword = b :: r ∧ isBlank b = false := by
  cases index <;> exact ⟨_, _, rfl, by decide⟩

theorem keyword_last (index : CmdIndex) :
    ∃ init b, index.keyword = init ++ [b] ∧ isBlank b = false := by
  cases index with
  | setReadLock => exact ⟨ascii "set_read_loc", 107, by decide, by decide⟩
  | setWriteLock => exact ⟨ascii "set_write_loc", 107, by decide, by decide⟩
  | printLocks => exact ⟨ascii "print_lock", 115, by decide, by decide⟩
  | freeLock => exact ⟨ascii "free_loc", 107, by decide, by decide⟩
  | readCharacter => exact ⟨ascii "read_characte", 114, by decide, by decide⟩
  | writeCharacter => exact ⟨ascii "write_characte", 114, by decide, by decide⟩

/-- Blanks behind a text that does not end with one are cut off with the newline. -/
theorem trimmed_line {trail : List Byte} (ht : ∃ init b, t = init ++ [b] ∧ isBlank b = false)
    (htrail : ∀ b ∈ trail, isBlank b) : trimmed (t ++ trail ++ [10]) = t := by
  obtain ⟨init, b, rfl, hb⟩ := ht
  rw [trimmed, List.dropLast_concat]
  induction trail using List.reverseRecOn with
  | nil =>
      rw [List.append_nil, List.rdropWhile_concat_neg _ _ _ (by simp [hb])]
  | append_singleton trail c ih =>
      have hc : isBlank c := htrail c (List.mem_append_right _ List.mem_cons_self)
      rw [← List.append_assoc, List.rdropWhile_concat_pos _ _ _ hc]
      exact ih fun b hb => htrail b (List.mem_append_left _ hb)

theorem leading_typed {lead : List Byte} (hlead : ∀ b ∈ lead, isBlank b)
    (ht : ∃ b r, t = b :: r ∧ isBlank b = false) :
    leading (lead ++ t) = lead ∧ typed (lead ++ t) = t := by
  obtain ⟨b, r, rfl, hb⟩ := ht
  constructor
  · rw [leading, List.takeWhile_append_of_pos hlead, List.takeWhile_cons_of_neg (by simp [hb]),
      List.append_nil]
  · rw [typed, List.dropWhile_append_of_pos hlead, List.dropWhile_cons_of_neg (by simp [hb])]

theorem InLanguage.notMem (h : InLanguage line cmd) : 0 ∉ line := by
  cases h with
  | lock lead arg trail index hindex hlead harg htrail =>
      have hkey := (keyword_bytes index).1
      have := harg.noNul
      simp [hkey, this, not_zero_of_isBlank hlead, not_zero_of_isBlank htrail]
  | print lead trail hlead htrail =>
      have hkey := (keyword_bytes .printLocks).1
      simp [hkey, not_zero_of_isBlank hlead, not_zero_of_isBlank htrail]

/-- **A line of the language** is a command with an argument behind one space, or has no
space. -/
theorem InLanguage.typed_eq (h : InLanguage line cmd) :
    (∃ index arg, index.spaces = 1 ∧ 32 ∉ arg ∧ cmd = ⟨index, atoi arg⟩ ∧
      typed (trimmed line) = index.keyword ++ 32 :: arg) ∨
    numSpaces (trimmed line) = 0 := by
  cases h with
  | lock lead arg trail index hindex hlead harg htrail =>
      left
      obtain ⟨init, b, rfl, hb⟩ := harg.last
      obtain ⟨c, r, hkey, hc⟩ := keyword_head index
      have hlast : ∃ init' b', lead ++ (index.keyword ++ 32 :: (init ++ [b])) = init' ++ [b'] ∧
          isBlank b' = false :=
        ⟨lead ++ (index.keyword ++ 32 :: init), b, by simp, hb⟩
      have hhead : ∃ b' r', index.keyword ++ 32 :: (init ++ [b]) = b' :: r' ∧
          isBlank b' = false :=
        ⟨c, r ++ 32 :: (init ++ [b]), by rw [hkey, List.cons_append], hc⟩
      refine ⟨index, init ++ [b], spaces_eq_one.mpr hindex, harg.noSpace, rfl, ?_⟩
      rw [trimmed_line hlast htrail, (leading_typed hlead hhead).2]
  | print lead trail hlead htrail =>
      right
      obtain ⟨init, b, hkey, hb⟩ := keyword_last .printLocks
      have hlast : ∃ init' b', lead ++ CmdIndex.printLocks.keyword = init' ++ [b'] ∧
          isBlank b' = false :=
        ⟨lead ++ init, b, by rw [hkey, List.append_assoc], hb⟩
      rw [numSpaces, trimmed_line hlast htrail, (leading_typed hlead (keyword_head _)).2]
      rfl

/-! ## §3  Lines with one space -/

theorem trimmed_last {b : Byte} (h : trimmed s = p ++ [b]) : isBlank b = false := by
  have hsame : (p ++ [b]).rdropWhile isBlank = p ++ [b] :=
    h ▸ List.rdropWhile_idempotent isBlank s.dropLast
  by_contra hb
  rw [List.rdropWhile_concat_pos _ _ _ (Bool.not_eq_false _ ▸ hb)] at hsame
  have hle := (List.rdropWhile_prefix isBlank p).length_le
  rw [hsame, List.length_append, List.length_singleton] at hle
  exact Nat.not_succ_le_self _ hle

/-- A text that has been trimmed does not end with the space before its argument. -/
theorem argument_of_trimmed (hs : 0 ∉ s) (hv : typed (trimmed s) = p ++ 32 :: v)
    (hspace : 32 ∉ v) : Argument v := by
  have htext : trimmed s = leading (trimmed s) ++ p ++ 32 :: v := by
    conv_lhs => rw [← leading_append_typed (trimmed s), hv]
    exact (List.append_assoc _ _ _).symm
  refine ⟨hspace, fun hmem => ?_, ?_⟩
  · exact notMem_typed (notMem_trimmed hs)
      (hv ▸ List.mem_append_right _ (List.mem_cons_of_mem _ hmem))
  · rcases List.eq_nil_or_concat v with rfl | ⟨init, b, rfl⟩
    · exact absurd (trimmed_last htext) (by decide)
    · rw [List.concat_eq_append] at htext ⊢
      rw [← List.cons_append, ← List.append_assoc] at htext
      exact ⟨init, b, rfl, trimmed_last htext⟩

theorem inLanguage_of_typed (hline : line = body ++ [10]) (hzero : 0 ∉ line)
    (hindex : index.spaces = 1) (hv : typed (trimmed line) = index.keyword ++ 32 :: v)
    (hspace : 32 ∉ v) : InLanguage line ⟨index, atoi v⟩ := by
  have hsplit : line = leading (trimmed line) ++ (index.keyword ++ 32 :: v) ++
      body.rtakeWhile isBlank ++ [10] := by
    rw [← hv, leading_append_typed, trimmed]
    conv_lhs => rw [hline]
    rw [hline, List.dropLast_concat, List.rdropWhile_append_rtakeWhile]
  have hlang := InLanguage.lock (leading (trimmed line)) v (body.rtakeWhile isBlank) index
    (spaces_eq_one.mp hindex) (fun b hb => List.mem_takeWhile_imp hb)
    (argument_of_trimmed hzero hv hspace) (fun b hb => List.mem_rtakeWhile_imp hb)
  rw [← hsplit] at hlang
  exact hlang

theorem inLanguage_iff (hline : line = body ++ [10]) (hs : s = beforeTerminator 0 line)
    (hspaces : numSpaces (trimmed s) = 1)
    (hv : typed (trimmed s) = word (trimmed s) ++ 32 :: v) (hspace : 32 ∉ v) :
    InLanguage line cmd ↔ 0 ∉ line ∧ ∃ index : CmdIndex, index.spaces = 1 ∧
      word (trimmed s) = index.keyword ∧ cmd = ⟨index, atoi v⟩ := by
  constructor
  · intro h
    have hzero := h.notMem
    rw [beforeTerminator_eq_self hzero] at hs
    subst hs
    refine ⟨hzero, ?_⟩
    rcases h.typed_eq with ⟨index, arg, hindex, harg, hcmd, htyped⟩ | hnone
    · obtain ⟨-, hword⟩ := numSpaces_of_typed htyped (keyword_bytes index).2 harg
      have hargs := htyped.symm.trans hv
      rw [hword, List.append_cancel_left_eq, List.cons_inj_right] at hargs
      exact ⟨index, hindex, hword, hargs ▸ hcmd⟩
    · exact absurd (hspaces.symm.trans hnone) Nat.one_ne_zero
  · rintro ⟨hzero, index, hindex, hword, rfl⟩
    rw [beforeTerminator_eq_self hzero] at hs
    subst hs
    exact inLanguage_of_typed hline hzero hindex (hword ▸ hv) hspace

theorem chosen_eq_command : chosen p v = .command cmd ↔
    ∃ index : CmdIndex, index.spaces = 1 ∧ p = index.keyword ∧ cmd = ⟨index, atoi v⟩ := by
  rw [chosen]
  constructor
  · intro h
    split at h
    · exact Parsed.noConfusion h
    · split_ifs at h with hone
      exact ⟨_, hone, cmdIndexOf_eq_some.mp ‹_›, (Parsed.command.inj h).symm⟩
  · rintro ⟨index, hone, rfl, rfl⟩
    rw [cmdIndexOf_keyword]
    exact if_pos hone

/-! ## §4  Which lines are recognised -/

def Locking (p : List Byte) : Prop := ∃ index : CmdIndex, index.spaces = 1 ∧ p = index.keyword

/-- `parse` returns at all: more than one space, or one and a NUL in or behind the copy. -/
def Returns (found : ℕ → Byte) (t : List Byte) : Prop :=
  2 ≤ numSpaces t ∨ numSpaces t = 1 ∧ copyEnd t ≤ 256 ∧
    (t.length < copyEnd t ∨ found ((leading t).length + (word t).length) = 0)

theorem recognises_of_exit (hline : line = body ++ [10]) (hs : exitLine = beforeTerminator 0 line)
    (hinput : t = exitLine ++ 0 :: rest) : Recognises found t line := by
  refine ⟨_, _, hinput ▸ parse_exit rest, fun cmd => iff_of_false Parsed.noConfusion fun h => ?_⟩
  have hsame := hs.trans (beforeTerminator_eq_self h.notMem)
  exact absurd (congrArg List.getLast? (hsame.trans hline)) (by simp [exitLine])

theorem not_recognises_of_none (hs : s = beforeTerminator 0 line) (hexit : s ≠ exitLine)
    (hnone : numSpaces (trimmed s) = 0) (hinput : t = s ++ 0 :: rest) :
    ¬Recognises found t line := by
  rintro ⟨parsed, input', hparse, -⟩
  rw [hinput, parse_none (hs ▸ notMem_beforeTerminator line) hexit hnone] at hparse
  exact absurd hparse.symm (Option.some_ne_none _)

theorem recognises_of_many (hs : s = beforeTerminator 0 line) (hexit : s ≠ exitLine)
    (hmany : 2 ≤ numSpaces (trimmed s)) (hinput : t = s ++ 0 :: rest) :
    Recognises found t line := by
  have hne := ne_nil_of_numSpaces (Nat.ne_zero_of_lt hmany)
  obtain ⟨rest', -, hparse⟩ := parse_many found (hs ▸ notMem_beforeTerminator line) hne
    hexit hmany rest
  refine ⟨_, _, hinput ▸ hparse, fun cmd => iff_of_false Parsed.noConfusion fun hlang => ?_⟩
  rw [beforeTerminator_eq_self hlang.notMem] at hs
  subst hs
  rcases hlang.typed_eq with ⟨index, arg, -, harg, -, htyped⟩ | hnone
  · have hone := (numSpaces_of_typed htyped (keyword_bytes index).2 harg).1
    omega
  · omega

theorem recognises_of_word (hline : line = body ++ [10]) (hs : s = beforeTerminator 0 line)
    (hexit : s ≠ exitLine) (hone : numSpaces (trimmed s) = 1) (hlead : leading (trimmed s) = [])
    (hinput : t = s ++ 0 :: rest) :
    Recognises found t line ↔
      found (word (trimmed s)).length = 0 ∧ (Locking (word (trimmed s)) → 0 ∉ line) := by
  have hne := ne_nil_of_numSpaces (hone ▸ Nat.one_ne_zero)
  obtain ⟨v, hv, -, hspace⟩ := typed_of_numSpaces hone
  obtain ⟨rest', -, hparse⟩ := parse_word found (hs ▸ notMem_beforeTerminator line)
    hne hexit hone hlead hv rest
  rw [← hinput] at hparse
  by_cases hfound : found (word (trimmed s)).length = 0
  · rw [if_pos hfound] at hparse
    rw [and_iff_right hfound]
    constructor
    · rintro ⟨parsed, input', hparse', hiff⟩ ⟨index, hindex, hword⟩
      obtain ⟨rfl, rfl⟩ := Prod.ext_iff.mp (Option.some.inj (hparse.symm.trans hparse'))
      exact ((hiff _).mp (chosen_eq_command.mpr ⟨index, hindex, hword, rfl⟩)).notMem
    · intro hzero
      refine ⟨_, _, hparse, fun cmd => ?_⟩
      rw [chosen_eq_command, inLanguage_iff hline hs hone hv hspace, iff_and_self]
      rintro ⟨index, hindex, hword, -⟩
      exact hzero ⟨index, hindex, hword⟩
  · rw [if_neg hfound] at hparse
    refine iff_of_false ?_ fun h => hfound h.1
    rintro ⟨parsed, input', hparse', -⟩
    exact absurd (hparse'.symm.trans hparse) (Option.some_ne_none _)

theorem recognises_of_space (hline : line = body ++ [10]) (hs : s = beforeTerminator 0 line)
    (hexit : s ≠ exitLine) (hone : numSpaces (trimmed s) = 1) (hlead : leading (trimmed s) ≠ [])
    (hinput : t = s ++ 0 :: rest) :
    Recognises found t line ↔ (copyEnd (trimmed s) ≤ t.length ∧
      ((trimmed s).length < copyEnd (trimmed s) ∨
        found ((leading (trimmed s)).length + (word (trimmed s)).length) = 0)) ∧
      (Locking (word (trimmed s)) → 0 ∈ line) := by
  have hne := ne_nil_of_numSpaces (hone ▸ Nat.one_ne_zero)
  obtain ⟨v, hv, -, hspace⟩ := typed_of_numSpaces hone
  obtain ⟨rest', p, -, hparse⟩ := parse_space found
    (hs ▸ notMem_beforeTerminator line) hne hexit hone hlead rest
  rw [← hinput] at hparse
  by_cases hnul : copyEnd (trimmed s) ≤ t.length ∧ ((trimmed s).length < copyEnd (trimmed s) ∨
      found ((leading (trimmed s)).length + (word (trimmed s)).length) = 0)
  · rw [if_pos hnul] at hparse
    rw [and_iff_right hnul]
    constructor
    · rintro ⟨parsed, input', hparse', hiff⟩ ⟨index, hindex, hword⟩
      obtain ⟨rfl, rfl⟩ := Prod.ext_iff.mp (Option.some.inj (hparse.symm.trans hparse'))
      by_contra hzero
      have hlang := (inLanguage_iff hline hs hone hv hspace).mpr
        ⟨hzero, index, hindex, hword, rfl⟩
      exact Parsed.noConfusion ((hiff _).mpr hlang)
    · intro hzero
      refine ⟨_, _, hparse, fun cmd => iff_of_false Parsed.noConfusion fun hlang => ?_⟩
      obtain ⟨hnotMem, index, hindex, hword, -⟩ :=
        (inLanguage_iff hline hs hone hv hspace).mp hlang
      exact hnotMem (hzero ⟨index, hindex, hword⟩)
  · rw [if_neg hnul] at hparse
    refine iff_of_false ?_ fun h => hnul h.1
    rintro ⟨parsed, input', hparse', -⟩
    exact absurd (hparse'.symm.trans hparse) (Option.some_ne_none _)

/-- **The parser recognises its language exactly** on lines on which it returns, and there
unless a command with its argument has blanks in front of it. (A line may contain NULs; the
parser sees what is in front of the first one, and the line is not in the language.) -/
theorem recognises_iff (hline : line = body ++ [10]) (hs : s = beforeTerminator 0 line)
    (hlength : (line ++ 0 :: rest).length = 256) :
    Recognises found (line ++ 0 :: rest) line ↔
      s = exitLine ∨ (Returns found (trimmed s) ∧
        (numSpaces (trimmed s) = 1 → Locking (word (trimmed s)) →
          (leading (trimmed s) = [] ↔ 0 ∉ line))) := by
  obtain ⟨rest', hinput⟩ := exists_beforeTerminator_append (z := 0) line rest
  rw [← hs] at hinput
  by_cases hexit : s = exitLine
  · subst hexit
    exact iff_of_true (recognises_of_exit hline hs hinput) (Or.inl rfl)
  · rw [or_iff_right hexit]
    rcases Nat.lt_trichotomy (numSpaces (trimmed s)) 1 with hnone | hone | hmany
    · refine iff_of_false (not_recognises_of_none hs hexit (Nat.lt_one_iff.mp hnone) hinput) ?_
      rintro ⟨hmany | hone, -⟩ <;> omega
    · have hreturns : Returns found (trimmed s) ↔ copyEnd (trimmed s) ≤ 256 ∧
          ((trimmed s).length < copyEnd (trimmed s) ∨
            found ((leading (trimmed s)).length + (word (trimmed s)).length) = 0) := by
        rw [Returns, or_iff_right (by omega), and_iff_right hone]
      rw [hreturns, forall_prop_of_true hone]
      by_cases hlead : leading (trimmed s) = []
      · have hshort := length_of_numSpaces hone
        have hle : (trimmed s).length ≤ s.length :=
          (List.rdropWhile_prefix isBlank _).length_le.trans (List.dropLast_sublist s).length_le
        have hin := congrArg List.length hinput
        rw [hlength, List.length_append] at hin
        rw [recognises_of_word hline hs hexit hone hlead hinput, copyEnd, hlead]
        rw [hlead] at hshort
        simp only [List.length_nil, Nat.zero_add, true_iff] at hshort ⊢
        have hfit : (word (trimmed s)).length ≤ 256 := by omega
        have hbehind : ¬(trimmed s).length < (word (trimmed s)).length := by omega
        simp only [hfit, hbehind, true_and, false_or]
      · rw [recognises_of_space hline hs hexit hone hlead hinput, hlength]
        simp only [hlead, false_iff, not_not]
    · refine iff_of_true (recognises_of_many hs hexit hmany hinput) ⟨Or.inl hmany, ?_⟩
      intro hone
      omega

theorem recognises_iff_lock :
    Recognises (fun _ => 0) (inArray (ascii "free_lock 5\n")) (ascii "free_lock 5\n") ↔
      beforeTerminator 0 (ascii "free_lock 5\n") = exitLine ∨
        (Returns (fun _ => 0) (trimmed (beforeTerminator 0 (ascii "free_lock 5\n"))) ∧
          (numSpaces (trimmed (beforeTerminator 0 (ascii "free_lock 5\n"))) = 1 →
            Locking (word (trimmed (beforeTerminator 0 (ascii "free_lock 5\n")))) →
            (leading (trimmed (beforeTerminator 0 (ascii "free_lock 5\n"))) = [] ↔
              0 ∉ ascii "free_lock 5\n"))) :=
  recognises_iff (show _ = ascii "free_lock 5" ++ [10] by decide) rfl (length_inArray (by decide))

/-- A blank in front of a command. -/
theorem blank_hides_command :
    InLanguage (ascii " free_lock 5\n") ⟨.freeLock, 5⟩ ∧
      ¬Recognises (fun _ => 0) (inArray (ascii " free_lock 5\n")) (ascii " free_lock 5\n") := by
  constructor
  · exact InLanguage.lock [32] [53] [] .freeLock (by decide)
      (List.forall_mem_singleton.mpr rfl) ⟨by decide, by decide, [], 53, rfl, by decide⟩
      (List.forall_mem_nil _)
  · rw [inArray, recognises_of_space (show _ = ascii " free_lock 5" ++ [10] by decide)
      (show ascii " free_lock 5\n" = _ by decide) (by decide) (by decide) (by decide) rfl]
    intro h
    exact absurd (h.2 ⟨.freeLock, by decide, by decide⟩) (by decide)

end Sysopy.FileLock
