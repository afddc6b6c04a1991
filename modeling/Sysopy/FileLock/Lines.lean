import Sysopy.FileLock.Parse

/-!
# What the parser makes of a line

The text of a line, without the newline and the blanks in front of it, has no space, one
space or more behind its leading blanks. With none the copy has no room at all. With one
the copy has a byte for each byte before the space, counted from the start of the array,
and one more that is never written; so the copy is the word only where the line begins
with it, and even there its NUL is one that `malloc` found. With more spaces nothing is
copied.

## Sections

* §1 the spaces of a text
* §2 the scan
* §3 the copy as a string
* §4 the results of `parse`
* §5 inside the buffers
-/

namespace Sysopy.FileLock

open Sysopy.Foundation

variable {s t p v rest input input' : List Byte} {found : ℕ → Byte} {index : CmdIndex}

/-! ## §1  The spaces of a text -/

def numSpaces (t : List Byte) : ℕ := (typed t).count 32

def word (t : List Byte) : List Byte := beforeTerminator 32 (typed t)

/-- `start_index + space_index`, where there is one space. -/
def copyEnd (t : List Byte) : ℕ := (leading t).length + ((leading t).length + (word t).length)

theorem typed_of_numSpaces (h : numSpaces t = 1) :
    ∃ v, typed t = word t ++ 32 :: v ∧ 32 ∉ word t ∧ 32 ∉ v := by
  have hmem : 32 ∈ typed t := List.count_pos_iff.mp (by rw [← numSpaces, h]; exact Nat.one_pos)
  obtain ⟨v, hv⟩ := exists_eq_beforeTerminator_append hmem
  have hword : 32 ∉ word t := notMem_beforeTerminator _
  refine ⟨v, hv, hword, fun hmem => ?_⟩
  have hpos := List.count_pos_iff.mpr hmem
  rw [numSpaces, hv, List.count_append, List.count_cons_self] at h
  omega

theorem numSpaces_of_typed (ht : typed t = p ++ 32 :: v) (hp : 32 ∉ p) (hv : 32 ∉ v) :
    numSpaces t = 1 ∧ word t = p := by
  constructor
  · rw [numSpaces, ht, List.count_append, List.count_cons_self,
      List.count_eq_zero.mpr hp, List.count_eq_zero.mpr hv]
  · rw [word, ht, beforeTerminator_append hp]

theorem length_of_numSpaces (h : numSpaces t = 1) :
    (leading t).length + (word t).length < t.length := by
  obtain ⟨v, hv, -⟩ := typed_of_numSpaces h
  conv_rhs => rw [← leading_append_typed t, hv]
  rw [List.length_append, List.length_append, List.length_cons]
  omega

theorem notMem_typed (ht : 0 ∉ t) : 0 ∉ typed t := fun hmem =>
  ht (leading_append_typed t ▸ List.mem_append_right _ hmem)

theorem drop_leading (t rest : List Byte) :
    (t ++ 0 :: rest).drop (leading t).length = typed t ++ 0 :: rest := by
  have hsplit : t ++ 0 :: rest = leading t ++ (typed t ++ 0 :: rest) := by
    rw [← List.append_assoc, leading_append_typed]
  rw [hsplit, List.drop_left]

/-! ## §2  The scan -/

def spaceIndex (t : List Byte) : ℤ := lastSpace (leading t).length (-1) (typed t)

theorem spaceIndex_eq (h : numSpaces t = 1) :
    spaceIndex t = ((leading t).length + (word t).length : ℕ) := by
  obtain ⟨v, ht, hword, hv⟩ := typed_of_numSpaces h
  rw [spaceIndex, ht, lastSpace_split hword hv, Int.natCast_add]

theorem scan_eq (hs : 0 ∉ s) (hne : s ≠ []) (hexit : s ≠ exitLine) (rest : List Byte) :
    ∃ rest', (trimmed s ++ 0 :: rest').length = (s ++ 0 :: rest).length ∧
      scan (s ++ 0 :: rest) =
        if 1 < numSpaces (trimmed s) then some (.wrongFormat, trimmed s ++ 0 :: rest')
        else (copyWord (trimmed s ++ 0 :: rest') (leading (trimmed s)).length
          (if numSpaces (trimmed s) ≠ 0 then (spaceIndex (trimmed s)).toNat
            else (trimmed s).length) 0
          (List.replicate (spaceIndex (trimmed s) + 1).toNat none)).map fun cmd =>
            (.word cmd (numSpaces (trimmed s)) (spaceIndex (trimmed s)),
              trimmed s ++ 0 :: rest') := by
  obtain ⟨rest', htrim, hlength⟩ := trim_eq hs hne rest
  refine ⟨rest', hlength, ?_⟩
  have hcount := countSpaces_eq (p := leading (trimmed s)) (typed (trimmed s)) (0 :: rest') 0 (-1)
  have hturns : (trimmed s).length - (leading (trimmed s)).length = (typed (trimmed s)).length := by
    conv_lhs => rw [← leading_append_typed (trimmed s), List.length_append]
    rw [leading_append_typed, Nat.add_sub_cancel_left]
  rw [← List.append_assoc, leading_append_typed, Nat.zero_add, ← hturns] at hcount
  replace hcount : _ = some (numSpaces (trimmed s), spaceIndex (trimmed s)) := hcount
  rw [scan, cString_append hs, Option.bind_eq_bind, Option.bind_some, if_neg hexit,
    htrim, Option.bind_eq_bind, Option.bind_some, startIndex_eq, Option.bind_eq_bind,
    Option.bind_some, strlen_append (notMem_trimmed hs), Option.bind_eq_bind, Option.bind_some,
    hcount, Option.bind_some]
  by_cases hmany : 1 < numSpaces (trimmed s)
  · rw [if_pos hmany]
    exact if_pos hmany
  · rw [if_neg hmany, Option.map_eq_bind]
    exact if_neg hmany

theorem scan_exit (rest : List Byte) :
    scan (exitLine ++ 0 :: rest) = some (.exit, exitLine ++ 0 :: rest) := by
  rw [scan, cString_append (by decide), Option.bind_eq_bind, Option.bind_some, if_pos rfl]

theorem scan_empty (rest : List Byte) : scan (0 :: rest) = none := by
  rw [scan, show cString 0 (0 :: rest) = some [] from cString_append List.not_mem_nil rest,
    Option.bind_eq_bind, Option.bind_some, if_neg (by decide), trim_empty]
  rfl

theorem scan_many (hs : 0 ∉ s) (hne : s ≠ []) (hexit : s ≠ exitLine)
    (hspaces : 2 ≤ numSpaces (trimmed s)) (rest : List Byte) :
    ∃ rest', (trimmed s ++ 0 :: rest').length = (s ++ 0 :: rest).length ∧
      scan (s ++ 0 :: rest) = some (.wrongFormat, trimmed s ++ 0 :: rest') := by
  obtain ⟨rest', hlength, hscan⟩ := scan_eq hs hne hexit rest
  exact ⟨rest', hlength, hscan.trans (if_pos hspaces)⟩

/-- What is copied of a line with one space. -/
def copied (t rest : List Byte) : List Byte :=
  (typed t ++ 0 :: rest).take ((leading t).length + (word t).length)

theorem scan_one (hs : 0 ∉ s) (hne : s ≠ []) (hexit : s ≠ exitLine)
    (hspaces : numSpaces (trimmed s) = 1) (rest : List Byte) :
    ∃ rest', (trimmed s ++ 0 :: rest').length = (s ++ 0 :: rest).length ∧
      scan (s ++ 0 :: rest) =
        if copyEnd (trimmed s) ≤ (s ++ 0 :: rest).length then
          some (.word ((copied (trimmed s) rest').map some ++ [none]) 1 (spaceIndex (trimmed s)),
            trimmed s ++ 0 :: rest')
        else none := by
  obtain ⟨rest', hlength, hscan⟩ := scan_eq hs hne hexit rest
  refine ⟨rest', hlength, ?_⟩
  have hstart : (leading (trimmed s)).length ≤ (trimmed s ++ 0 :: rest').length := by
    have := length_of_numSpaces hspaces
    rw [List.length_append]
    omega
  rw [hscan, hspaces, if_neg (Nat.lt_irrefl 1), if_pos Nat.one_ne_zero, spaceIndex_eq hspaces,
    Int.toNat_natCast, ← Int.natCast_succ, Int.toNat_natCast, copyWord_word _ _ hstart, hlength,
    drop_leading]
  by_cases hfit : copyEnd (trimmed s) ≤ (s ++ 0 :: rest).length
  · rw [if_pos hfit]
    exact congrArg (Option.map _) (if_pos hfit)
  · rw [if_neg hfit]
    exact congrArg (Option.map _) (if_neg hfit)

theorem scan_none (hs : 0 ∉ s) (hne : s ≠ []) (hexit : s ≠ exitLine)
    (hspaces : numSpaces (trimmed s) = 0) (rest : List Byte) :
    ∃ rest', scan (s ++ 0 :: rest) =
      if trimmed s = [] then some (.word [] 0 (-1), trimmed s ++ 0 :: rest') else none := by
  obtain ⟨rest', -, hscan⟩ := scan_eq hs hne hexit rest
  have hindex : spaceIndex (trimmed s) = -1 :=
    lastSpace_of_notMem (List.count_eq_zero.mp hspaces) _ _
  refine ⟨rest', ?_⟩
  rw [hscan, hspaces, if_neg (Nat.not_lt_zero 1), if_neg (not_not.mpr rfl), hindex]
  generalize htext : trimmed s = t
  cases t with
  | nil => rfl
  | cons b t =>
      rw [if_neg (List.cons_ne_nil b t), List.length_cons, copyWord]
      cases (b :: t ++ 0 :: rest')[(leading (b :: t)).length + 0]? with
      | none => rfl
      | some c => rfl

/-! ## §3  The copy as a string -/

theorem contents_copied (found : ℕ → Byte) (l : List Byte) :
    contents found (l.map some ++ [none]) = l ++ [found l.length] := by
  have hwritten : (l.map some).mapIdx (fun i b => b.getD (found i)) = l :=
    List.mapIdx_eq_iff.mpr fun i => by simp [Option.map_map, Function.comp_def]
  rw [contents, List.mapIdx_append, hwritten, List.length_map]
  simp

theorem mem_take_append (hp : 0 ∉ p) (rest : List Byte) (k : ℕ) :
    0 ∈ (p ++ 0 :: rest).take k ↔ p.length < k := by
  rw [List.take_append, List.mem_append]
  constructor
  · rintro (h | h)
    · exact absurd (List.mem_of_mem_take h) hp
    · by_contra hle
      rw [Nat.sub_eq_zero_of_le (Nat.not_lt.mp hle), List.take_zero] at h
      exact absurd h List.not_mem_nil
  · intro hlt
    obtain ⟨m, hm⟩ := Nat.exists_eq_add_of_lt hlt
    rw [hm, Nat.add_assoc, Nat.add_sub_cancel_left, List.take_succ_cons]
    exact Or.inr List.mem_cons_self

/-- `parse` copies a NUL where it reads on behind the text. -/
theorem zero_mem_copied (ht : 0 ∉ t) (rest : List Byte) :
    0 ∈ copied t rest ↔ t.length < copyEnd t := by
  rw [copied, mem_take_append (notMem_typed ht), copyEnd]
  conv_rhs => rw [← leading_append_typed t, List.length_append]
  rw [leading_append_typed]
  omega

theorem length_copied (hfit : copyEnd t ≤ (t ++ 0 :: rest).length) :
    (copied t rest).length = (leading t).length + (word t).length := by
  rw [copied, List.length_take, ← drop_leading, List.length_drop]
  unfold copyEnd at hfit
  omega

theorem copied_word (hlead : leading t = []) (hspaces : numSpaces t = 1) (rest : List Byte) :
    copied t rest = word t := by
  obtain ⟨v, hv, -⟩ := typed_of_numSpaces hspaces
  rw [copied, hlead, hv, List.append_assoc, List.length_nil, Nat.zero_add, List.take_left]

/-- **Behind leading blanks the copy goes on past the word**, to the space at least. -/
theorem copied_space (hlead : leading t ≠ []) (hspaces : numSpaces t = 1) (rest : List Byte) :
    ∃ r, copied t rest = word t ++ 32 :: r := by
  obtain ⟨v, hv, -⟩ := typed_of_numSpaces hspaces
  obtain ⟨m, hm⟩ := Nat.exists_eq_succ_of_ne_zero (List.length_pos_iff.mpr hlead).ne'
  refine ⟨(v ++ 0 :: rest).take m, ?_⟩
  rw [copied, hv, hm, List.append_assoc, Nat.add_comm, List.take_length_add_append,
    List.cons_append, List.take_succ_cons]

theorem cString_concat (hp : 0 ∉ p) (b : Byte) :
    cString 0 (p ++ [b]) = if b = 0 then some p else none := by
  split_ifs with hb
  · subst hb
    exact cString_append hp []
  · refine if_neg fun hmem => ?_
    rcases List.mem_append.mp hmem with hmem | hmem
    · exact hp hmem
    · exact hb (List.mem_singleton.mp hmem).symm

theorem keyword_bytes (index : CmdIndex) : 0 ∉ index.keyword ∧ 32 ∉ index.keyword := by
  cases index <;> decide

theorem cmdIndexOf_keyword (index : CmdIndex) : cmdIndexOf index.keyword = some index := by
  cases index <;> decide

theorem cmdIndexOf_eq_some : cmdIndexOf p = some index ↔ p = index.keyword := by
  constructor
  · intro h
    have hfound := List.find?_some h
    exact ((strcmp_eq_eq _ _).mp (of_decide_eq_true hfound)).symm
  · rintro rfl
    exact cmdIndexOf_keyword index

theorem cmdIndexOf_of_space (hp : 32 ∈ p) : cmdIndexOf p = none := by
  apply Option.eq_none_iff_forall_not_mem.mpr
  intro index hindex
  exact (keyword_bytes index).2 (cmdIndexOf_eq_some.mp hindex ▸ hp)

/-! ## §4  The results of parse -/

theorem parse_of_scan {scanned : Scanned} (h : scan input = some (scanned, input')) :
    parse found input = (choose found input' scanned).map fun parsed => (parsed, input') := by
  rw [parse, h, Option.bind_eq_bind, Option.bind_some, Option.map_eq_bind]
  rfl

theorem parse_of_scan_none (h : scan input = none) : parse found input = none := by
  rw [parse, h]
  rfl

theorem parse_exit (rest : List Byte) :
    parse found (exitLine ++ 0 :: rest) = some (.ended, exitLine ++ 0 :: rest) :=
  parse_of_scan (scan_exit rest)

theorem parse_none (hs : 0 ∉ s) (hexit : s ≠ exitLine) (hspaces : numSpaces (trimmed s) = 0)
    (rest : List Byte) : parse found (s ++ 0 :: rest) = none := by
  by_cases hne : s = []
  · subst hne
    exact parse_of_scan_none (scan_empty rest)
  · obtain ⟨rest', hscan⟩ := scan_none hs hne hexit hspaces rest
    split_ifs at hscan
    · rw [parse_of_scan hscan]
      rfl
    · exact parse_of_scan_none hscan

theorem parse_many (found : ℕ → Byte) (hs : 0 ∉ s) (hne : s ≠ []) (hexit : s ≠ exitLine)
    (hspaces : 2 ≤ numSpaces (trimmed s)) (rest : List Byte) :
    ∃ rest', (trimmed s ++ 0 :: rest').length = (s ++ 0 :: rest).length ∧
      parse found (s ++ 0 :: rest) = some (.wrongFormat, trimmed s ++ 0 :: rest') := by
  obtain ⟨rest', hlength, hscan⟩ := scan_many hs hne hexit hspaces rest
  exact ⟨rest', hlength, parse_of_scan hscan⟩

/-- What becomes of the word `p` of a text with one space and the argument `v`. -/
def chosen (p v : List Byte) : Parsed :=
  match cmdIndexOf p with
  | none => .unknown p
  | some index => if index.spaces = 1 then .command ⟨index, atoi v⟩ else .wrongFormat

theorem argument_eq (ht : 0 ∉ t) (hspaces : numSpaces t = 1) (hv : typed t = word t ++ 32 :: v)
    (rest : List Byte) : cString (spaceIndex t + 1).toNat (t ++ 0 :: rest) = some v := by
  have hpre : t ++ 0 :: rest = (leading t ++ word t ++ [32]) ++ (v ++ 0 :: rest) := by
    conv_lhs => rw [← leading_append_typed t, hv]
    simp
  have hindex : (spaceIndex t + 1).toNat = (leading t ++ word t ++ [32]).length := by
    rw [spaceIndex_eq hspaces, ← Int.natCast_succ, Int.toNat_natCast]
    simp [Nat.add_assoc]
  have hzero : 0 ∉ v := fun hmem =>
    notMem_typed ht (hv ▸ List.mem_append_right _ (List.mem_cons_of_mem _ hmem))
  rw [hindex, hpre]
  exact cString_eq_some.mpr ⟨hzero, rest, List.drop_left⟩

theorem choose_chosen {cmd : List (Option Byte)} (hcmd : cString 0 (contents found cmd) = some p)
    {i : ℤ} (hargument : cString (i + 1).toNat input = some v) :
    choose found input (.word cmd 1 i) = some (chosen p v) := by
  rw [choose, hcmd, Option.bind_eq_bind, Option.bind_some, chosen]
  cases cmdIndexOf p with
  | none => rfl
  | some index =>
      by_cases hone : index.spaces = 1
      · simp only [hone, ne_eq, not_true, if_false, if_true, hargument, Option.bind_some]
      · simp only [hone, ne_eq, Ne.symm hone, not_false_eq_true, if_true, if_false]

/-- **A word at the start of the array** is taken for what it is if `malloc` happens to
find a NUL behind its copy. -/
theorem parse_word (found : ℕ → Byte) (hs : 0 ∉ s) (hne : s ≠ []) (hexit : s ≠ exitLine)
    (hspaces : numSpaces (trimmed s) = 1) (hlead : leading (trimmed s) = [])
    (hv : typed (trimmed s) = word (trimmed s) ++ 32 :: v) (rest : List Byte) :
    ∃ rest', (trimmed s ++ 0 :: rest').length = (s ++ 0 :: rest).length ∧
      parse found (s ++ 0 :: rest) =
        if found (word (trimmed s)).length = 0 then
          some (chosen (word (trimmed s)) v, trimmed s ++ 0 :: rest')
        else none := by
  obtain ⟨rest', hlength, hscan⟩ := scan_one hs hne hexit hspaces rest
  refine ⟨rest', hlength, ?_⟩
  have ht : 0 ∉ trimmed s := notMem_trimmed hs
  have hshort := length_of_numSpaces hspaces
  have hfit : copyEnd (trimmed s) ≤ (s ++ 0 :: rest).length := by
    rw [← hlength, copyEnd, hlead, List.length_append]
    rw [hlead] at hshort
    simp only [List.length_nil, Nat.zero_add] at hshort ⊢
    omega
  rw [if_pos hfit, copied_word hlead hspaces] at hscan
  have hword : 0 ∉ word (trimmed s) := fun hmem =>
    notMem_typed ht (hv ▸ List.mem_append_left _ hmem)
  have hcmd := cString_concat hword (found (word (trimmed s)).length)
  rw [← contents_copied] at hcmd
  rw [parse_of_scan hscan]
  split_ifs at hcmd ⊢
  · rw [choose_chosen hcmd (argument_eq ht hspaces hv rest')]
    rfl
  · rw [choose, hcmd]
    rfl

/-- **Behind leading blanks** no word is known. -/
theorem parse_space (found : ℕ → Byte) (hs : 0 ∉ s) (hne : s ≠ []) (hexit : s ≠ exitLine)
    (hspaces : numSpaces (trimmed s) = 1) (hlead : leading (trimmed s) ≠ [])
    (rest : List Byte) :
    ∃ rest' p, (trimmed s ++ 0 :: rest').length = (s ++ 0 :: rest).length ∧
      parse found (s ++ 0 :: rest) =
        if copyEnd (trimmed s) ≤ (s ++ 0 :: rest).length ∧
            ((trimmed s).length < copyEnd (trimmed s) ∨
              found ((leading (trimmed s)).length + (word (trimmed s)).length) = 0) then
          some (.unknown p, trimmed s ++ 0 :: rest')
        else none := by
  obtain ⟨rest', hlength, hscan⟩ := scan_one hs hne hexit hspaces rest
  have ht : 0 ∉ trimmed s := notMem_trimmed hs
  obtain ⟨r, hr⟩ := copied_space hlead hspaces rest'
  refine ⟨rest', beforeTerminator 0 (contents found ((copied (trimmed s) rest').map some ++
    [none])), hlength, ?_⟩
  by_cases hfit : copyEnd (trimmed s) ≤ (s ++ 0 :: rest).length
  · rw [if_pos hfit] at hscan
    have hnul : 0 ∈ contents found ((copied (trimmed s) rest').map some ++ [none]) ↔
        (trimmed s).length < copyEnd (trimmed s) ∨
          found ((leading (trimmed s)).length + (word (trimmed s)).length) = 0 := by
      rw [contents_copied, length_copied (hlength ▸ hfit), List.mem_append, zero_mem_copied ht,
        List.mem_singleton, eq_comm (a := (0 : Byte))]
    rw [parse_of_scan hscan, choose, cString, List.drop_zero]
    by_cases hzero : 0 ∈ contents found ((copied (trimmed s) rest').map some ++ [none])
    · -- the space is part of the string
      have hword : 0 ∉ word (trimmed s) := fun hmem =>
        notMem_typed ht (List.takeWhile_prefix _ |>.subset hmem)
      have hspace : 32 ∈ beforeTerminator 0
          (contents found ((copied (trimmed s) rest').map some ++ [none])) := by
        rw [contents_copied, hr, List.append_assoc, List.cons_append,
          beforeTerminator_append_left hword, beforeTerminator, List.takeWhile_cons]
        exact List.mem_append_right _ List.mem_cons_self
      rw [if_pos hzero, if_pos ⟨hfit, hnul.mp hzero⟩, Option.bind_eq_bind, Option.bind_some]
      simp only [cmdIndexOf_of_space hspace, Option.map_some]
    · rw [if_neg hzero, if_neg fun h => hzero (hnul.mpr h.2)]
      rfl
  · rw [if_neg hfit] at hscan
    rw [parse_of_scan_none hscan, if_neg fun h => hfit h.1]

theorem ne_nil_of_numSpaces (h : numSpaces (trimmed s) ≠ 0) : s ≠ [] := by
  rintro rfl
  exact h rfl

/-- What a call of `parse` that returns has done: the array is trimmed, and a command was
taken from the start of it. -/
theorem parse_some {parsed : Parsed} (hs : 0 ∉ s)
    (h : parse found (s ++ 0 :: rest) = some (parsed, input')) :
    (parsed = .ended ∧ input' = s ++ 0 :: rest) ∨
    ∃ rest', input' = trimmed s ++ 0 :: rest' ∧ ∀ cmd, parsed = .command cmd →
      numSpaces (trimmed s) = 1 ∧ leading (trimmed s) = [] ∧
      found (word (trimmed s)).length = 0 ∧
      ∃ v, typed (trimmed s) = word (trimmed s) ++ 32 :: v ∧ 32 ∉ v ∧
        chosen (word (trimmed s)) v = .command cmd := by
  by_cases hexit : s = exitLine
  · subst hexit
    obtain ⟨rfl, rfl⟩ := Prod.ext_iff.mp (Option.some.inj ((parse_exit rest).symm.trans h))
    exact Or.inl ⟨rfl, rfl⟩
  · right
    rcases Nat.lt_trichotomy (numSpaces (trimmed s)) 1 with hnone | hone | hmany
    · rw [parse_none hs hexit (Nat.lt_one_iff.mp hnone)] at h
      exact absurd h.symm (Option.some_ne_none _)
    · have hne := ne_nil_of_numSpaces (hone ▸ Nat.one_ne_zero)
      obtain ⟨v, hv, -, hspace⟩ := typed_of_numSpaces hone
      by_cases hlead : leading (trimmed s) = []
      · obtain ⟨rest', -, hparse⟩ := parse_word found hs hne hexit hone hlead hv rest
        rw [hparse, Option.ite_none_right_eq_some] at h
        obtain ⟨hfound, heq⟩ := h
        obtain ⟨rfl, rfl⟩ := Prod.ext_iff.mp (Option.some.inj heq)
        exact ⟨rest', rfl, fun cmd hcmd => ⟨hone, hlead, hfound, v, hv, hspace, hcmd⟩⟩
      · obtain ⟨rest', p, -, hparse⟩ := parse_space found hs hne hexit hone hlead rest
        rw [hparse, Option.ite_none_right_eq_some] at h
        obtain ⟨rfl, rfl⟩ := Prod.ext_iff.mp (Option.some.inj h.2)
        exact ⟨rest', rfl, fun cmd hcmd => Parsed.noConfusion hcmd⟩
    · have hne := ne_nil_of_numSpaces (Nat.ne_zero_of_lt hmany)
      obtain ⟨rest', -, hparse⟩ := parse_many found hs hne hexit hmany rest
      obtain ⟨rfl, rfl⟩ := Prod.ext_iff.mp (Option.some.inj (hparse.symm.trans h))
      exact ⟨rest', rfl, fun cmd hcmd => Parsed.noConfusion hcmd⟩

/-! ## §5  Inside the buffers -/

/-- `parse` uses no byte outside of the array or of the copy, and the copy has a NUL that
`parse` has written. -/
def StaysInside (input : List Byte) : Prop :=
  ∃ scanned input', scan input = some (scanned, input') ∧
    ∀ cmd n i, scanned = .word cmd n i →
      some 0 ∈ cmd ∧ (n = 1 → (cString (i + 1).toNat input').isSome)

theorem staysInside_of_exit (rest : List Byte) : StaysInside (exitLine ++ 0 :: rest) :=
  ⟨.exit, _, scan_exit rest, fun _ _ _ h => Scanned.noConfusion h⟩

theorem staysInside_of_many (hs : 0 ∉ s) (hne : s ≠ []) (hexit : s ≠ exitLine)
    (hspaces : 2 ≤ numSpaces (trimmed s)) (rest : List Byte) :
    StaysInside (s ++ 0 :: rest) := by
  obtain ⟨rest', -, hscan⟩ := scan_many hs hne hexit hspaces rest
  exact ⟨.wrongFormat, _, hscan, fun _ _ _ h => Scanned.noConfusion h⟩

theorem staysInside_of_one (hs : 0 ∉ s) (hne : s ≠ []) (hexit : s ≠ exitLine)
    (hspaces : numSpaces (trimmed s) = 1) (rest : List Byte) :
    StaysInside (s ++ 0 :: rest) ↔ (trimmed s).length < copyEnd (trimmed s) ∧
      copyEnd (trimmed s) ≤ (s ++ 0 :: rest).length := by
  obtain ⟨rest', -, hscan⟩ := scan_one hs hne hexit hspaces rest
  obtain ⟨v, hv, -⟩ := typed_of_numSpaces hspaces
  have ht : 0 ∉ trimmed s := notMem_trimmed hs
  have hnul : some 0 ∈ (copied (trimmed s) rest').map some ++ [none] ↔
      (trimmed s).length < copyEnd (trimmed s) := by
    rw [← zero_mem_copied ht rest']
    simp
  by_cases hfit : copyEnd (trimmed s) ≤ (s ++ 0 :: rest).length
  · rw [if_pos hfit] at hscan
    rw [and_iff_left hfit, ← hnul]
    constructor
    · rintro ⟨scanned, input', hscan', hinside⟩
      obtain ⟨rfl, rfl⟩ := Prod.ext_iff.mp (Option.some.inj (hscan.symm.trans hscan'))
      exact (hinside _ _ _ rfl).1
    · intro hmem
      refine ⟨_, _, hscan, fun cmd n i heq => ?_⟩
      obtain ⟨rfl, rfl, rfl⟩ := Scanned.word.inj heq
      refine ⟨hmem, fun _ => ?_⟩
      rw [argument_eq ht hspaces hv]
      rfl
  · rw [if_neg hfit] at hscan
    refine iff_of_false ?_ fun h => hfit h.2
    rintro ⟨scanned, input', hscan', -⟩
    exact absurd (hscan'.symm.trans hscan) (Option.some_ne_none _)

theorem not_staysInside_of_none (hs : 0 ∉ s) (hexit : s ≠ exitLine)
    (hspaces : numSpaces (trimmed s) = 0) (rest : List Byte) :
    ¬StaysInside (s ++ 0 :: rest) := by
  rintro ⟨scanned, input', hscan, hinside⟩
  by_cases hne : s = []
  · subst hne
    exact absurd (hscan.symm.trans (scan_empty rest)) (Option.some_ne_none _)
  · obtain ⟨rest', hscan'⟩ := scan_none hs hne hexit hspaces rest
    split_ifs at hscan'
    · obtain ⟨rfl, rfl⟩ := Prod.ext_iff.mp (Option.some.inj (hscan'.symm.trans hscan))
      exact absurd (hinside [] 0 (-1) rfl).1 List.not_mem_nil
    · exact absurd (hscan.symm.trans hscan') (Option.some_ne_none _)

/-- **`parse` stays inside its buffers exactly** for `exit`, for a text with two spaces or
more, and for a text with one space and so many leading blanks that the copy takes the NUL
with it but does not leave the array. -/
theorem staysInside_iff (hlength : input.length = 256) (hs : cString 0 input = some s) :
    StaysInside input ↔ s = exitLine ∨ 2 ≤ numSpaces (trimmed s) ∨
      (numSpaces (trimmed s) = 1 ∧ (trimmed s).length < copyEnd (trimmed s) ∧
        copyEnd (trimmed s) ≤ 256) := by
  obtain ⟨hzero, rest, hinput⟩ := cString_eq_some.mp hs
  rw [List.drop_zero] at hinput
  subst hinput
  by_cases hexit : s = exitLine
  · subst hexit
    exact iff_of_true (staysInside_of_exit rest) (Or.inl rfl)
  · rw [or_iff_right hexit]
    rcases Nat.lt_trichotomy (numSpaces (trimmed s)) 1 with hnone | hone | hmany
    · have hspaces := Nat.lt_one_iff.mp hnone
      refine iff_of_false (not_staysInside_of_none hzero hexit hspaces rest) ?_
      omega
    · have hne := ne_nil_of_numSpaces (hone ▸ Nat.one_ne_zero)
      rw [staysInside_of_one hzero hne hexit hone, hlength, or_iff_right (by omega),
        and_iff_right hone]
    · have hne := ne_nil_of_numSpaces (Nat.ne_zero_of_lt hmany)
      exact iff_of_true (staysInside_of_many hzero hne hexit hmany rest) (Or.inl hmany)

/-- A line in an array of 256 bytes. -/
def inArray (line : List Byte) : List Byte := line ++ 0 :: List.replicate (255 - line.length) 0

theorem length_inArray (h : s.length ≤ 255) : (inArray s).length = 256 := by
  rw [inArray, List.length_append, List.length_cons, List.length_replicate]
  omega

theorem staysInside_iff_wrongFormat : StaysInside (inArray (ascii "free_lock 1 2\n")) ↔
    ascii "free_lock 1 2\n" = exitLine ∨ 2 ≤ numSpaces (trimmed (ascii "free_lock 1 2\n")) ∨
      (numSpaces (trimmed (ascii "free_lock 1 2\n")) = 1 ∧
        (trimmed (ascii "free_lock 1 2\n")).length <
          copyEnd (trimmed (ascii "free_lock 1 2\n")) ∧
        copyEnd (trimmed (ascii "free_lock 1 2\n")) ≤ 256) :=
  staysInside_iff (length_inArray (by decide)) (cString_append (by decide) _)

/-- The copy of a command without an argument has no byte. -/
theorem print_locks_leaves_copy : (inArray (ascii "print_locks\n")).length = 256 ∧
    cString 0 (inArray (ascii "print_locks\n")) = some (ascii "print_locks\n") ∧
    ¬StaysInside (inArray (ascii "print_locks\n")) :=
  ⟨length_inArray (by decide), cString_append (by decide) _,
    not_staysInside_of_none (by decide) (by decide) (by decide) _⟩

end Sysopy.FileLock
