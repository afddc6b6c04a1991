import Sysopy.TreeCrawler.Listing

/-!
# The tree that both crawlers walk

A tree without symbolic links. Its lines are given by recursion over the tree; it is a tree
as the recursive crawler sees it, and so the recursive crawler prints them. `main` puts the
root path into the buffer.

## Sections

* §1 the lines for a tree
* §2 the tree as the recursive crawler sees it
* §3 what the recursive crawler prints
-/

namespace Sysopy.TreeCrawler

open Foundation

/-! ## §1  The lines for a tree -/

def fileLines (permitWord : Fin 9 → Byte) (lvl : ℕ) (name : List Byte) (st : Stat) :
    List Line :=
  if st.isReg && compareAccess permitWord st then [.file lvl name st.size] else []

theorem fileLines_eq {permitWord : Fin 9 → Byte} {lvl : ℕ} {name : List Byte} {st : Stat}
    (hst : st.isDir = false) :
    (Entry.line permitWord ⟨lvl, name, st⟩).toList = fileLines permitWord lvl name st := by
  unfold Entry.line fileLines
  rw [if_neg (Bool.eq_false_iff.mp hst)]
  by_cases hline : st.isReg = true ∧ st.Allowed permitWord
  · rw [if_pos hline, if_pos (listed_iff.mpr hline)]
    rfl
  · rw [if_neg hline, if_neg (mt listed_iff.mp hline)]
    rfl

namespace Entries

/-- The lines for the entries of a directory whose level is `lvl`. -/
def lines (permitWord : Fin 9 → Byte) : ℕ → Entries → List Line
  | _, .done => []
  | lvl, .file name st rest =>
      fileLines permitWord lvl name.bytes st.val ++ lines permitWord lvl rest
  | lvl, .directory name _ inside rest =>
      .directory lvl name.bytes :: lines permitWord (lvl + 1) inside ++ lines permitWord lvl rest

def names : Entries → List (List Byte)
  | .done => []
  | .file name _ rest => name.bytes :: names rest
  | .directory name _ _ rest => name.bytes :: names rest

def directories : Entries → ℕ
  | .done => 0
  | .file _ _ rest => directories rest
  | .directory _ _ inside rest => 1 + directories inside + directories rest

def depth : Entries → ℕ
  | .done => 0
  | .file _ _ rest => depth rest
  | .directory _ _ inside rest => max (depth inside + 1) (depth rest)

end Entries

namespace FileSystem

variable (fs : FileSystem) (bound : ℕ)

/-- As long as fewer than `bound` streams are open, `readdir` returns the entries of `path`
and somewhere among them `.` and `..`. -/
def Lists (path : List Byte) (entries : Entries) : Prop :=
  ∃ listing, listing.filter (fun name => ¬(name = [46] ∨ name = [46, 46])) = entries.names ∧
    ∀ n < bound, fs.opendir n path = some listing

/-- `lstat` and `opendir` succeed below `path` and return what the tree says. -/
def Below (path : List Byte) : Entries → Prop
  | .done => True
  | .file name st rest =>
      fs.lstat (entryPath path name.bytes) = some st.val ∧ Below path rest
  | .directory name st inside rest =>
      fs.lstat (entryPath path name.bytes) = some st.val ∧
        fs.Lists bound (entryPath path name.bytes) inside ∧
        Below (entryPath path name.bytes) inside ∧ Below path rest

/-- The tree at `root` has these entries, and no call fails when the crawler visits it. -/
def Holds (root : List Byte) (entries : Entries) : Prop :=
  fs.Lists (1 + entries.directories) root entries ∧
    fs.Below (1 + entries.directories) root entries

end FileSystem

/-! ## §2  The tree as the recursive crawler sees it -/

namespace Entries

/-- A file that is no link is a file. -/
def content : Entries → Content
  | .done => .done
  | .file name st rest => .file name ⟨st.val, st.property.1⟩ (content rest)
  | .directory name st inside rest => .directory name st (content inside) (content rest)

theorem names_content (entries : Entries) : entries.content.names = entries.names := by
  induction entries with
  | done => rfl
  | file name st rest ih => rw [content, Content.names, ih, names]
  | directory name st inside rest _ ihRest => rw [content, Content.names, ihRest, names]

theorem directories_content (entries : Entries) :
    entries.content.directories = entries.directories := by
  induction entries with
  | done => rfl
  | file name st rest ih => exact ih
  | directory name st inside rest ihInside ihRest =>
      rw [content, Content.directories, ihInside, ihRest, directories]

theorem depth_content (entries : Entries) : entries.content.depth = entries.depth := by
  induction entries with
  | done => rfl
  | file name st rest ih => exact ih
  | directory name st inside rest ihInside ihRest =>
      rw [content, Content.depth, ihInside, ihRest, depth]

theorem lines_content (permitWord : Fin 9 → Byte) (entries : Entries) (lvl : ℕ) :
    entries.content.lines permitWord lvl = entries.lines permitWord lvl := by
  induction entries generalizing lvl with
  | done => rfl
  | file name st rest ih =>
      rw [content, Content.lines_file, ih, lines, fileLines_eq st.property.1]
  | directory name st inside rest ihInside ihRest =>
      rw [content, Content.lines_directory, ihInside, ihRest, lines]

end Entries

namespace FileSystem

variable {fs : FileSystem} {bound : ℕ} {path root : List Byte} {entries : Entries}

theorem Lists.reads (h : fs.Lists bound path entries) :
    fs.Reads ∅ bound path entries.content.names := by
  obtain ⟨listing, hnames, hopendir⟩ := h
  refine ⟨listing, hnames.trans entries.names_content.symm, fun n hn => ?_⟩
  rw [hopendir n hn, if_neg (Finset.notMem_empty path)]

theorem Below.matches (h : fs.Below bound path entries) :
    fs.Matches ∅ bound path entries.content := by
  induction entries generalizing path with
  | done => trivial
  | file name st rest ih => exact ⟨h.1, ih h.2⟩
  | directory name st inside rest ihInside ihRest =>
      obtain ⟨hst, hlists, hinside, hrest⟩ := h
      exact ⟨hst, hlists.reads, fun _ => ihInside hinside, ihRest hrest⟩

theorem Holds.shows (h : fs.Holds root entries) : fs.Shows ∅ root entries.content := by
  unfold Shows
  rw [entries.directories_content]
  exact ⟨h.1.reads, fun _ => h.2.matches⟩

end FileSystem

/-! ## §3  What the recursive crawler prints -/

/-- **The recursive crawler prints the lines of the tree.** -/
theorem traverseRecursively_eq {fs : FileSystem} (found : ℕ → Byte)
    (permitWord : Fin 9 → Byte) {rootPath buf : List Byte} (hbuf : cString 0 buf = some rootPath)
    {entries : Entries} (hfs : fs.Holds rootPath entries) {depth : ℕ}
    (hdepth : entries.depth < depth) :
    ∃ s, traverseRecursively fs found permitWord depth
        { pathBuffer := buf, indentationLvl := 0, opened := 0, printed := [] } = some s ∧
      s.printed = entries.lines permitWord 0 := by
  obtain ⟨s, heq, hvisited⟩ := traverseRecursively_start found permitWord hbuf hfs.shows
    (fun p _ => Finset.notMem_empty p) (entries.depth_content.symm ▸ hdepth)
  exact ⟨s, heq, hvisited.printed.trans (entries.lines_content permitWord 0)⟩

end Sysopy.TreeCrawler
