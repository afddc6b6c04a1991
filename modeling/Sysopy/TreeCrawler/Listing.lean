import Mathlib.Data.Finset.Basic
import Mathlib.Data.Nat.Bitwise
import Sysopy.TreeCrawler.Crawlers

/-!
# What the recursive crawler lists

A tree has files of any kind. Its entries in the order of the walk, with their levels, are
given by recursion over the tree. The recursive crawler prints a line for every directory
and for every regular file whose rights the template has: every turn of its loop leaves the
path of the directory in the buffer, the level as it was and every stream of the directories
below open.

The file system may refuse to open some directories. Where it refuses none that the walk
comes to, the crawler returns. Paths that the file system takes are far shorter than
`INT_MAX`, so lengths and sizes are natural numbers.

## Sections

* §1 access rights
* §2 trees
* §3 the path buffer
* §4 one entry
* §5 the loop and the recursion
* §6 the list
-/

namespace Sysopy.TreeCrawler

open Foundation

/-! ## §1  Access rights -/

/-- The template "rwxrwxrwx". -/
def allRights : Fin 9 → Byte := fun i =>
  if i.val % 3 = 0 then 114 else if i.val % 3 = 1 then 119 else 120

/-- All permission bits of the mode are in the template. -/
def Stat.Allowed (permitWord : Fin 9 → Byte) (st : Stat) : Prop :=
  ∀ i : Fin 9, st.stMode.toNat.testBit (8 - i) = true → permitWord i = allRights i

instance (permitWord : Fin 9 → Byte) : DecidablePred (Stat.Allowed permitWord) :=
  fun st => inferInstanceAs
    (Decidable (∀ i : Fin 9, st.stMode.toNat.testBit (8 - i) = true → permitWord i = allRights i))

theorem two_pow_and_eq_zero {k : ℕ} (hk : k < 32) (mode : UInt32) :
    UInt32.ofNat (2 ^ k) &&& mode = 0 ↔ mode.toNat.testBit k = false := by
  have hlt : 2 ^ k < 2 ^ 32 := Nat.pow_lt_pow_right (by decide) hk
  rw [← UInt32.toNat_inj, UInt32.toNat_and, UInt32.toNat_ofNat_of_lt' hlt, Nat.two_pow_and]
  cases mode.toNat.testBit k with
  | false => simp
  | true => simp

theorem compareAccess_iff {permitWord : Fin 9 → Byte} {st : Stat} :
    compareAccess permitWord st = true ↔ st.Allowed permitWord := by
  have htests : compareAccess permitWord st = passes
      ((List.finRange 9).map fun i => (UInt32.ofNat (2 ^ (8 - i.val)), i, allRights i))
      permitWord st := rfl
  rw [htests, passes, List.all_map, List.all_eq_true]
  constructor
  · intro h i hbit
    have htest := h i (List.mem_finRange i)
    simp only [Function.comp_apply, Bool.or_eq_true, beq_iff_eq,
      two_pow_and_eq_zero (show 8 - i.val < 32 by omega)] at htest
    exact htest.resolve_left fun hzero => Bool.false_ne_true (hzero.symm.trans hbit)
  · intro h i _
    simp only [Function.comp_apply, Bool.or_eq_true, beq_iff_eq,
      two_pow_and_eq_zero (show 8 - i.val < 32 by omega)]
    exact (Bool.eq_false_or_eq_true _).symm.imp_right (h i)

theorem listed_iff {permitWord : Fin 9 → Byte} {st : Stat} :
    (st.isReg && compareAccess permitWord st) = true ↔
      st.isReg = true ∧ st.Allowed permitWord := by
  rw [Bool.and_eq_true, compareAccess_iff]

/-! ## §2  Trees -/

/-- The entries of a directory other than `.` and `..` in the order of `readdir`, with what
is below them. A file is anything that is no directory. -/
inductive Content where
  | done
  | file (name : Name) (st : {st : Stat // st.isDir = false}) (rest : Content)
  | directory (name : Name) (st : {st : Stat // st.isDir = true}) (inside rest : Content)

structure Entry where
  level : ℕ
  name : List Byte
  status : Stat

namespace Content

def names : Content → List (List Byte)
  | .done => []
  | .file name _ rest => name.bytes :: names rest
  | .directory name _ _ rest => name.bytes :: names rest

/-- All entries, a directory before its own; those of the tree itself have the level `lvl`. -/
def preorder : ℕ → Content → List Entry
  | _, .done => []
  | lvl, .file name st rest => ⟨lvl, name.bytes, st.val⟩ :: preorder lvl rest
  | lvl, .directory name st inside rest =>
      ⟨lvl, name.bytes, st.val⟩ :: preorder (lvl + 1) inside ++ preorder lvl rest

/-- The paths of the directories below `path`. -/
def paths : List Byte → Content → List (List Byte)
  | _, .done => []
  | path, .file _ _ rest => paths path rest
  | path, .directory name _ inside rest =>
      entryPath path name.bytes :: paths (entryPath path name.bytes) inside ++ paths path rest

def directories : Content → ℕ
  | .done => 0
  | .file _ _ rest => directories rest
  | .directory _ _ inside rest => 1 + directories inside + directories rest

def depth : Content → ℕ
  | .done => 0
  | .file _ _ rest => depth rest
  | .directory _ _ inside rest => max (depth inside + 1) (depth rest)

end Content

/-- The line for an entry, if there is one: a directory has one, and a regular file whose
rights the template has. -/
def Entry.line (permitWord : Fin 9 → Byte) (e : Entry) : Option Line :=
  if e.status.isDir then some (.directory e.level e.name)
  else if e.status.isReg ∧ e.status.Allowed permitWord then
    some (.file e.level e.name e.status.size)
  else none

/-- The lines for the entries of a directory whose level is `lvl`. -/
def Content.lines (permitWord : Fin 9 → Byte) (lvl : ℕ) (content : Content) : List Line :=
  (content.preorder lvl).filterMap (Entry.line permitWord)

namespace FileSystem

variable (fs : FileSystem) (unreadable : Finset (List Byte)) (bound : ℕ)

/-- As long as fewer than `bound` streams are open, `opendir` fails for the unreadable paths,
and for another one `readdir` returns these names and somewhere among them `.` and `..`. -/
def Reads (path : List Byte) (names : List (List Byte)) : Prop :=
  ∃ listing, listing.filter (fun name => ¬(name = [46] ∨ name = [46, 46])) = names ∧
    ∀ n < bound, fs.opendir n path = if path ∈ unreadable then none else some listing

/-- Below `path` there is what the tree says. -/
def Matches (path : List Byte) : Content → Prop
  | .done => True
  | .file name st rest =>
      fs.lstat (entryPath path name.bytes) = some st.val ∧ Matches path rest
  | .directory name st inside rest =>
      fs.lstat (entryPath path name.bytes) = some st.val ∧
        fs.Reads unreadable bound (entryPath path name.bytes) inside.names ∧
        (entryPath path name.bytes ∉ unreadable →
          Matches (entryPath path name.bytes) inside) ∧
        Matches path rest

/-- The tree at `root` is this one, and no call but `opendir` for an unreadable directory
fails when the crawler visits it. -/
def Shows (root : List Byte) (content : Content) : Prop :=
  fs.Reads unreadable (1 + content.directories) root content.names ∧
    (root ∉ unreadable → fs.Matches unreadable (1 + content.directories) root content)

end FileSystem

/-! ## §3  The path buffer -/

section PathBuffer

variable {found : ℕ → Byte} {buf path name : List Byte} {need : ℕ}

theorem growLoop_eq (hpath : cString 0 buf = some path) {turns : ℕ} (hturns : 0 < turns)
    (hneed : need < buf.length + turns) :
    ∃ buf', growPathBuffer found need turns buf = some buf' ∧ cString 0 buf' = some path ∧
      need ≤ buf'.length := by
  induction turns generalizing buf with
  | zero => exact absurd hturns (Nat.lt_irrefl 0)
  | succ turns ih =>
      by_cases hlt : need > buf.length
      · have hpos := length_pos_of_cString hpath
        have hle : buf.length ≤ buf.length * 2 := by omega
        have hlonger : need < (realloc found (buf.length * 2) buf).length + turns := by
          rw [length_realloc hle]
          omega
        obtain ⟨buf', heq, hstring, hroom⟩ :=
          ih (cString_realloc hpath hle) (by omega) hlonger
        refine ⟨buf', ?_, hstring, hroom⟩
        rw [growPathBuffer, if_pos hlt, heq]
      · refine ⟨buf, ?_, hpath, not_lt.mp hlt⟩
        rw [growPathBuffer, if_neg hlt]

/-- The loop makes the buffer large enough and keeps the path. -/
theorem growPathBuffer_eq (found : ℕ → Byte) (hpath : cString 0 buf = some path)
    (hneed : 0 < need) :
    ∃ buf', growPathBuffer found need need buf = some buf' ∧ cString 0 buf' = some path ∧
      need ≤ buf'.length :=
  growLoop_eq hpath hneed (Nat.lt_add_of_pos_left (length_pos_of_cString hpath))

/-- `main` starts with the root path in the buffer: a path that `access` finds is shorter
than what `pathconf` returns. -/
theorem copyRootPath_eq (found : ℕ → Byte) {maxLen : ℤ} (hpath : 0 ∉ path)
    (hlen : path.length < maxLen) :
    ∃ buf, copyRootPath found maxLen path = some buf ∧ cString 0 buf = some path := by
  have hsize : (getPathBuffer found maxLen).length = (maxLen + 2).toNat := by
    rw [getPathBuffer, length_malloc, if_neg (by omega)]
  refine ⟨strcpy 0 path (getPathBuffer found maxLen), ?_, cString_strcpy hpath (Nat.zero_le _)⟩
  rw [copyRootPath, if_neg (by omega)]
  apply strcpyIn_eq
  rw [hsize]
  omega

theorem storeName_eq (hpath : cString 0 buf = some path) (hname : 0 ∉ name)
    (hroom : path.length + name.length + 2 ≤ buf.length) :
    ∃ buf₁ buf₂, storeIn path.length [slash] buf = some buf₁ ∧
      strcpyIn (path.length + 1) name buf₁ = some buf₂ ∧
      cString 0 buf₂ = some (entryPath path name) := by
  obtain ⟨hnul, r, hr⟩ := cString_eq_some.mp hpath
  obtain rfl : buf = path ++ 0 :: r := hr
  have hrest : (terminated 0 name).length ≤ r.length := by
    simp only [List.length_append, List.length_cons, terminated, List.length_nil] at hroom ⊢
    omega
  refine ⟨path ++ [slash] ++ r,
    path ++ [slash] ++ terminated 0 name ++ r.drop (terminated 0 name).length, ?_, ?_, ?_⟩
  · exact (storeIn_append rfl).trans (if_pos (by simp))
  · exact (storeIn_append (by simp)).trans (if_pos hrest)
  · refine cString_eq_some.mpr ⟨?_, r.drop (terminated 0 name).length, ?_⟩
    · have hslash : (0 : Byte) ≠ slash := by decide
      simp [entryPath, hnul, hname, hslash]
    · simp [entryPath, terminated]

/-- A NUL over the slash takes the name away. -/
theorem clearName_eq (hpath : cString 0 buf = some (entryPath path name)) :
    ∃ buf', storeIn path.length [0] buf = some buf' ∧ cString 0 buf' = some path := by
  obtain ⟨hnul, r, hr⟩ := cString_eq_some.mp hpath
  obtain rfl : buf = path ++ slash :: (name ++ 0 :: r) := by
    simpa [entryPath] using hr
  refine ⟨path ++ [0] ++ (name ++ 0 :: r), ?_, ?_⟩
  · exact (storeIn_append rfl).trans (if_pos (by simp))
  · refine cString_eq_some.mpr ⟨fun h => hnul (List.mem_append_left _ h), name ++ 0 :: r, ?_⟩
    simp

end PathBuffer

/-! ## §4  One entry -/

/-- What a part of the walk comes to that starts and ends with `path` in the buffer. -/
structure Visited (path : List Byte) (s : Crawler) (opened : ℕ) (lines : List Line)
    (s' : Crawler) : Prop where
  path : cString 0 s'.pathBuffer = some path
  level : s'.indentationLvl = s.indentationLvl
  opened : s'.opened = s.opened + opened
  printed : s'.printed = s.printed ++ lines

theorem Visited.trans {path : List Byte} {s s' s'' : Crawler} {m n : ℕ} {xs ys : List Line}
    (h : Visited path s m xs s') (h' : Visited path s' n ys s'') :
    Visited path s (m + n) (xs ++ ys) s'' where
  path := h'.path
  level := h'.level.trans h.level
  opened := by rw [h'.opened, h.opened, Nat.add_assoc]
  printed := by rw [h'.printed, h.printed, List.append_assoc]

section Recursive

variable {fs : FileSystem} {found : ℕ → Byte} {permitWord : Fin 9 → Byte}
  {enter : Crawler → Option Crawler} {path : List Byte} {s : Crawler}

theorem viewFiles_filter (names : List (List Byte)) (s : Crawler) :
    viewFiles fs found permitWord enter names s =
      viewFiles fs found permitWord enter
        (names.filter fun name => ¬(name = [46] ∨ name = [46, 46])) s := by
  induction names generalizing s with
  | nil => rfl
  | cons name names ih =>
      by_cases hdot : name = [46] ∨ name = [46, 46]
      · rw [List.filter_cons_of_neg (by rwa [decide_eq_true_eq, not_not]), viewFiles,
          if_pos hdot, ih]
      · rw [List.filter_cons_of_pos (by rwa [decide_eq_true_eq])]
        simp only [viewFiles, if_neg hdot, ih]

/-- A turn of the loop looks at the entry with its path in the buffer and puts the NUL back. -/
theorem viewFiles_turn (found : ℕ → Byte) (permitWord : Fin 9 → Byte)
    (enter : Crawler → Option Crawler) {name : Name} (names : List (List Byte)) {st : Stat}
    (hpath : cString 0 s.pathBuffer = some path)
    (hst : fs.lstat (entryPath path name.bytes) = some st) :
    ∃ buf, cString 0 buf = some (entryPath path name.bytes) ∧
      viewFiles fs found permitWord enter (name.bytes :: names) s =
        (viewFile permitWord enter name.bytes st { s with pathBuffer := buf }).bind fun s =>
          (storeIn path.length [0] s.pathBuffer).bind fun buf =>
            viewFiles fs found permitWord enter names { s with pathBuffer := buf } := by
  obtain ⟨buf, hgrow, hbuf, hroom⟩ := growPathBuffer_eq found hpath
    (Nat.succ_pos (path.length + name.bytes.length + 1))
  obtain ⟨buf₁, buf₂, hslash, hname, hentry⟩ := storeName_eq hbuf name.no_nul hroom
  refine ⟨buf₂, hentry, ?_⟩
  rw [viewFiles, if_neg (not_or.mpr ⟨name.ne_dot, name.ne_dotDot⟩)]
  simp only [hpath, hgrow, hslash, hname, hentry, hst, Option.bind_eq_bind, Option.bind_some]

/-- An entry that leaves its path in the buffer, and then the others. -/
theorem viewFiles_cons {name : Name} (names : List (List Byte)) {st : Stat} {opened : ℕ}
    {lines : List Line} (hpath : cString 0 s.pathBuffer = some path)
    (hst : fs.lstat (entryPath path name.bytes) = some st)
    (hview : ∀ buf, cString 0 buf = some (entryPath path name.bytes) →
      ∃ s', viewFile permitWord enter name.bytes st { s with pathBuffer := buf } = some s' ∧
        Visited (entryPath path name.bytes) { s with pathBuffer := buf } opened lines s') :
    ∃ s', viewFiles fs found permitWord enter (name.bytes :: names) s =
        viewFiles fs found permitWord enter names s' ∧ Visited path s opened lines s' := by
  obtain ⟨buf, hbuf, hturn⟩ := viewFiles_turn found permitWord enter names hpath hst
  obtain ⟨s', heq, hvisited⟩ := hview buf hbuf
  obtain ⟨buf', hclear, hback⟩ := clearName_eq hvisited.path
  refine ⟨{ s' with pathBuffer := buf' }, ?_, hback, hvisited.level, hvisited.opened,
    hvisited.printed⟩
  rw [hturn, heq, Option.bind_some, hclear, Option.bind_some]

theorem viewFile_file {name : List Byte} {st : Stat} (hst : st.isDir = false)
    (hpath : cString 0 s.pathBuffer = some path) :
    ∃ s', viewFile permitWord enter name st s = some s' ∧
      Visited path s 0 (Entry.line permitWord ⟨s.indentationLvl, name, st⟩).toList s' := by
  unfold viewFile Entry.line
  rw [if_neg (Bool.eq_false_iff.mp hst), if_neg (Bool.eq_false_iff.mp hst)]
  by_cases hline : st.isReg = true ∧ st.Allowed permitWord
  · rw [if_pos (listed_iff.mpr hline), if_pos hline]
    exact ⟨_, rfl, hpath, rfl, rfl, rfl⟩
  · rw [if_neg (mt listed_iff.mp hline), if_neg hline]
    exact ⟨s, rfl, hpath, rfl, rfl, (List.append_nil _).symm⟩

theorem viewFile_directory {name : List Byte} {st : Stat} (hst : st.isDir = true) {opened : ℕ}
    {lines : List Line}
    (henter : ∃ s', enter { s with
        printed := s.printed ++ [.directory s.indentationLvl name]
        indentationLvl := s.indentationLvl + 1 } = some s' ∧
      Visited path { s with
        printed := s.printed ++ [.directory s.indentationLvl name]
        indentationLvl := s.indentationLvl + 1 } opened lines s') :
    ∃ s', viewFile permitWord enter name st s = some s' ∧
      Visited path s opened (.directory s.indentationLvl name :: lines) s' := by
  obtain ⟨s', heq, hvisited⟩ := henter
  refine ⟨{ s' with indentationLvl := s'.indentationLvl - 1 }, ?_, hvisited.path, ?_,
    hvisited.opened, ?_⟩
  · rw [viewFile, if_pos hst, heq]
    rfl
  · show s'.indentationLvl - 1 = s.indentationLvl
    rw [hvisited.level, Nat.add_sub_cancel]
  · exact hvisited.printed.trans (List.append_assoc ..)

/-! ## §5  The loop and the recursion -/

theorem Content.lines_file (name : Name) (st : {st : Stat // st.isDir = false})
    (rest : Content) (lvl : ℕ) :
    (Content.file name st rest).lines permitWord lvl =
      (Entry.line permitWord ⟨lvl, name.bytes, st.val⟩).toList ++ rest.lines permitWord lvl := by
  unfold Content.lines
  rw [Content.preorder, List.filterMap_cons]
  cases Entry.line permitWord ⟨lvl, name.bytes, st.val⟩ with
  | none => rfl
  | some l => rfl

theorem Content.lines_directory (name : Name) (st : {st : Stat // st.isDir = true})
    (inside rest : Content) (lvl : ℕ) :
    (Content.directory name st inside rest).lines permitWord lvl =
      .directory lvl name.bytes :: inside.lines permitWord (lvl + 1) ++
        rest.lines permitWord lvl := by
  have hline : Entry.line permitWord ⟨lvl, name.bytes, st.val⟩ =
      some (.directory lvl name.bytes) := if_pos st.property
  unfold Content.lines
  rw [Content.preorder, List.cons_append, List.filterMap_cons_some hline, List.filterMap_append,
    List.cons_append]

variable {unreadable : Finset (List Byte)} {bound depth : ℕ}

theorem traverseRecursively_succ {names : List (List Byte)}
    (hpath : cString 0 s.pathBuffer = some path) (hreadable : path ∉ unreadable)
    (hreads : fs.Reads unreadable bound path names) (hopened : s.opened < bound) :
    traverseRecursively fs found permitWord (depth + 1) s =
      viewFiles fs found permitWord (traverseRecursively fs found permitWord depth) names
        { s with opened := s.opened + 1 } := by
  obtain ⟨listing, hnames, hopendir⟩ := hreads
  rw [traverseRecursively, hpath, Option.bind_eq_bind, Option.bind_some,
    hopendir s.opened hopened, if_neg hreadable, Option.bind_eq_bind, Option.bind_some,
    viewFiles_filter, hnames]

theorem traverseRecursively_visited {names : List (List Byte)} {opened : ℕ} {lines : List Line}
    (hpath : cString 0 s.pathBuffer = some path) (hreadable : path ∉ unreadable)
    (hreads : fs.Reads unreadable bound path names) (hopened : s.opened < bound)
    (hview : ∃ s', viewFiles fs found permitWord
        (traverseRecursively fs found permitWord depth) names
        { s with opened := s.opened + 1 } = some s' ∧
      Visited path { s with opened := s.opened + 1 } opened lines s') :
    ∃ s', traverseRecursively fs found permitWord (depth + 1) s = some s' ∧
      Visited path s (1 + opened) lines s' := by
  obtain ⟨s', heq, hvisited⟩ := hview
  refine ⟨s', ?_, hvisited.path, hvisited.level, ?_, hvisited.printed⟩
  · rw [traverseRecursively_succ hpath hreadable hreads hopened, heq]
  · rw [hvisited.opened, Nat.add_assoc]

/-- The crawler when the loop over the entries of the directory `name` begins. -/
def Crawler.entered (s : Crawler) (name buf : List Byte) : Crawler where
  pathBuffer := buf
  indentationLvl := s.indentationLvl + 1
  opened := s.opened + 1
  printed := s.printed ++ [.directory s.indentationLvl name]

theorem viewFiles_file {name : Name} (names : List (List Byte)) {st : Stat}
    (hdir : st.isDir = false) (hpath : cString 0 s.pathBuffer = some path)
    (hst : fs.lstat (entryPath path name.bytes) = some st) :
    ∃ s', viewFiles fs found permitWord enter (name.bytes :: names) s =
        viewFiles fs found permitWord enter names s' ∧
      Visited path s 0 (Entry.line permitWord ⟨s.indentationLvl, name.bytes, st⟩).toList s' := by
  refine viewFiles_cons names hpath hst fun buf hbuf => ?_
  exact viewFile_file hdir hbuf

/-- A directory whose entries are all visited, and then the others. -/
theorem viewFiles_directory {name : Name} (names : List (List Byte)) {st : Stat}
    {inside : List (List Byte)} {opened : ℕ} {lines : List Line} (hdir : st.isDir = true)
    (hpath : cString 0 s.pathBuffer = some path)
    (hst : fs.lstat (entryPath path name.bytes) = some st)
    (hreadable : entryPath path name.bytes ∉ unreadable)
    (hreads : fs.Reads unreadable bound (entryPath path name.bytes) inside)
    (hopened : s.opened < bound)
    (hinside : ∀ buf, cString 0 buf = some (entryPath path name.bytes) →
      ∃ s', viewFiles fs found permitWord (traverseRecursively fs found permitWord depth) inside
          (s.entered name.bytes buf) = some s' ∧
        Visited (entryPath path name.bytes) (s.entered name.bytes buf) opened lines s') :
    ∃ s', viewFiles fs found permitWord (traverseRecursively fs found permitWord (depth + 1))
          (name.bytes :: names) s =
        viewFiles fs found permitWord (traverseRecursively fs found permitWord (depth + 1))
          names s' ∧
      Visited path s (1 + opened) (.directory s.indentationLvl name.bytes :: lines) s' := by
  refine viewFiles_cons names hpath hst fun buf hbuf => ?_
  apply viewFile_directory hdir
  refine traverseRecursively_visited hbuf hreadable hreads ?_ ?_
  · exact hopened
  · exact hinside buf hbuf

/-- The loop over the entries of a directory prints their lines, if every directory below
can be opened. -/
theorem viewFiles_eq (found : ℕ → Byte) (permitWord : Fin 9 → Byte) (content : Content)
    (hpath : cString 0 s.pathBuffer = some path)
    (hmatches : fs.Matches unreadable bound path content)
    (hreadable : ∀ p ∈ content.paths path, p ∉ unreadable)
    (hopened : s.opened + content.directories ≤ bound) (hdepth : content.depth ≤ depth) :
    ∃ s', viewFiles fs found permitWord (traverseRecursively fs found permitWord depth)
        content.names s = some s' ∧
      Visited path s content.directories (content.lines permitWord s.indentationLvl) s' := by
  induction content generalizing path s depth with
  | done => exact ⟨s, rfl, hpath, rfl, rfl, (List.append_nil _).symm⟩
  | file name st rest ih =>
      obtain ⟨hst, hrest⟩ := hmatches
      obtain ⟨s₁, heq₁, hfirst⟩ := viewFiles_file rest.names st.property hpath hst
      obtain ⟨s₂, heq₂, hlast⟩ := ih hfirst.path hrest hreadable (hfirst.opened ▸ hopened) hdepth
      refine ⟨s₂, heq₁.trans heq₂, ?_⟩
      have hall := hfirst.trans hlast
      rwa [hfirst.level, Nat.zero_add, ← Content.lines_file] at hall
  | directory name st inside rest ihInside ihRest =>
      obtain ⟨hst, hreads, hinside, hrest⟩ := hmatches
      obtain ⟨hhere, hbelow⟩ := List.forall_mem_cons.mp hreadable
      obtain ⟨hreadInside, hreadRest⟩ := List.forall_mem_append.mp hbelow
      simp only [Content.directories, Content.depth] at hopened hdepth
      obtain ⟨depth, rfl⟩ : ∃ d, depth = d + 1 := Nat.exists_eq_succ_of_ne_zero (by omega)
      have hinside' : ∀ buf, cString 0 buf = some (entryPath path name.bytes) →
          ∃ s', viewFiles fs found permitWord (traverseRecursively fs found permitWord depth)
              inside.names (s.entered name.bytes buf) = some s' ∧
            Visited (entryPath path name.bytes) (s.entered name.bytes buf) inside.directories
              (inside.lines permitWord (s.indentationLvl + 1)) s' := by
        intro buf hbuf
        refine ihInside hbuf (hinside hhere) hreadInside ?_ ?_
        · show s.opened + 1 + inside.directories ≤ bound
          omega
        · omega
      obtain ⟨s₁, heq₁, hfirst⟩ := viewFiles_directory rest.names st.property hpath hst hhere
        hreads (by omega) hinside'
      obtain ⟨s₂, heq₂, hlast⟩ := ihRest hfirst.path hrest hreadRest (by rw [hfirst.opened]; omega)
        (show rest.depth ≤ depth + 1 by omega)
      refine ⟨s₂, heq₁.trans heq₂, ?_⟩
      have hall := hfirst.trans hlast
      rwa [hfirst.level, ← Content.lines_directory] at hall

end Recursive

/-! ## §6  The list -/

/-- `path_buffer` at the first call. -/
def Crawler.start (buf : List Byte) : Crawler where
  pathBuffer := buf
  indentationLvl := 0
  opened := 0
  printed := []

section Listing

variable {fs : FileSystem} (found : ℕ → Byte) (permitWord : Fin 9 → Byte)
  {rootPath buf : List Byte} {unreadable : Finset (List Byte)} {content : Content} {depth : ℕ}

/-- Where every directory can be opened, the call for the root comes back. -/
theorem traverseRecursively_start (hbuf : cString 0 buf = some rootPath)
    (hfs : fs.Shows unreadable rootPath content)
    (hreadable : ∀ p ∈ rootPath :: content.paths rootPath, p ∉ unreadable)
    (hdepth : content.depth < depth) :
    ∃ s, traverseRecursively fs found permitWord depth (.start buf) = some s ∧
      Visited rootPath (.start buf) (1 + content.directories) (content.lines permitWord 0) s := by
  obtain ⟨hreads, hmatches⟩ := hfs
  obtain ⟨hroot, hbelow⟩ := List.forall_mem_cons.mp hreadable
  obtain ⟨depth, rfl⟩ := Nat.exists_eq_succ_of_ne_zero (Nat.ne_zero_of_lt hdepth)
  apply traverseRecursively_visited hbuf hroot hreads (Nat.add_pos_left Nat.one_pos _)
  refine viewFiles_eq found permitWord content hbuf (hmatches hroot) hbelow ?_
    (Nat.le_of_lt_succ hdepth)
  show 0 + 1 + content.directories ≤ 1 + content.directories
  rw [Nat.zero_add]

/-- **Every entry is listed once**: in a tree where every call succeeds the lines are those
of the directories and of the regular files that the template allows, in the order of the
walk, and the buffer is left with the root path. -/
theorem traverseRecursively_lists (hbuf : cString 0 buf = some rootPath)
    (hfs : fs.Shows ∅ rootPath content) (hdepth : content.depth < depth) :
    ∃ s, traverseRecursively fs found permitWord depth (.start buf) = some s ∧
      s.printed = (content.preorder 0).filterMap (Entry.line permitWord) ∧
      cString 0 s.pathBuffer = some rootPath := by
  obtain ⟨s, heq, hvisited⟩ := traverseRecursively_start found permitWord hbuf hfs
    (fun p _ => Finset.notMem_empty p) hdepth
  exact ⟨s, heq, hvisited.printed, hvisited.path⟩

end Listing

/-- The directory `r` with the directory `e`, which has the symbolic link `b` and the file
`c` of 12 bytes. -/
def mixedFileSystem : FileSystem where
  opendir _ path :=
    if path = [114] then some [[46], [101], [46, 46]]
    else if path = [114, 47, 101] then some [[46], [98], [46, 46], [99]]
    else none
  lstat path :=
    if path = [114, 47, 101] then some ⟨0x41C0, 80⟩
    else if path = [114, 47, 101, 47, 98] then some ⟨0xA1FF, 1⟩
    else if path = [114, 47, 101, 47, 99] then some ⟨0x81B0, 12⟩
    else none

def mixedContent : Content :=
  .directory ⟨[101], by decide, by decide, by decide, by decide, by decide⟩
    ⟨⟨0x41C0, 80⟩, by decide⟩
    (.file ⟨[98], by decide, by decide, by decide, by decide, by decide⟩
      ⟨⟨0xA1FF, 1⟩, by decide⟩
      (.file ⟨[99], by decide, by decide, by decide, by decide, by decide⟩
        ⟨⟨0x81B0, 12⟩, by decide⟩ .done))
    .done

theorem mixedFileSystem_shows : mixedFileSystem.Shows ∅ [114] mixedContent :=
  ⟨⟨_, by decide, fun _ _ => rfl⟩, fun _ =>
    ⟨rfl, ⟨_, by decide, fun _ _ => rfl⟩, fun _ => ⟨rfl, rfl, trivial⟩, trivial⟩⟩

/-- The list of that directory. -/
theorem traverseRecursively_lists_small :
    ∃ s, traverseRecursively mixedFileSystem (fun _ => 1) allRights 2 (.start [114, 0]) = some s ∧
      s.printed = (mixedContent.preorder 0).filterMap (Entry.line allRights) ∧
      cString 0 s.pathBuffer = some [114] :=
  traverseRecursively_lists (fun _ => 1) allRights (by decide) mixedFileSystem_shows (by decide)

example : (mixedContent.preorder 0).filterMap (Entry.line allRights) =
    [.directory 0 [101], .file 1 [99] 12] := by decide

end Sysopy.TreeCrawler
