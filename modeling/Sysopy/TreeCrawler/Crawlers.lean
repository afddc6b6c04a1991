import Mathlib.Algebra.GroupWithZero.Nat
import Sysopy.Foundation.Memory

/-!
# The two file tree crawlers

Both programs print the directories of a tree and those regular files whose access rights
a template allows. `file_tree_crawler` goes down by recursion, with one path buffer and a
count of the levels; `file_tree_crawler_ftw` leaves the walk to `ftw` and finds level and
name in the path that it is given.

The file system answers by path. `opendir` also depends on the number of open streams,
because the recursive crawler closes none. `malloc` and `realloc` succeed. The date of a
line, which is the time of its printing, is left out.

## Sections

* §1 access rights
* §2 what is printed
* §3 the recursive crawler
* §4 directories and `ftw`
* §5 the crawler over `ftw`
-/

namespace Sysopy.TreeCrawler

open Foundation

def slash : Byte := 47

/-! ## §1  Access rights -/

/-- `st_mode` and `st_size` of a `struct stat`. -/
structure Stat where
  stMode : UInt32
  stSize : ℤ
deriving DecidableEq

def Stat.isDir (st : Stat) : Bool := st.stMode &&& 0xF000 == 0x4000

def Stat.isReg (st : Stat) : Bool := st.stMode &&& 0xF000 == 0x8000

def Stat.isLnk (st : Stat) : Bool := st.stMode &&& 0xF000 == 0xA000

/-- No test fails: a permission bit of the mode has its letter at its place of
`permit_word`. -/
def passes (tests : List (UInt32 × Fin 9 × Byte)) (permitWord : Fin 9 → Byte) (st : Stat) :
    Bool :=
  tests.all fun (bit, i, letter) => bit &&& st.stMode == 0 || permitWord i == letter

/-- `compare_access` of the recursive crawler. -/
def compareAccess : (Fin 9 → Byte) → Stat → Bool := passes
  [(0x100, 0, 114), (0x80, 1, 119), (0x40, 2, 120),
    (0x20, 3, 114), (0x10, 4, 119), (0x8, 5, 120),
    (0x4, 6, 114), (0x2, 7, 119), (0x1, 8, 120)]

/-- `compare_access` of the crawler over `ftw`. -/
def compareAccessFtw : (Fin 9 → Byte) → Stat → Bool := passes
  [(0x100, 0, 114), (0x80, 1, 119), (0x40, 2, 120),
    (0x20, 3, 114), (0x10, 4, 119), (0x8, 5, 120),
    (0x4, 6, 114), (0x2, 7, 119), (0x1, 8, 120)]

/-! ## §2  What is printed -/

/-- A line, with the number of times that `..` is printed in front of the name. -/
inductive Line where
  /-- `"%s/\n"` -/
  | directory (dots : ℕ) (name : List Byte)
  /-- `"%s, "`, `"%d B, "` and the date -/
  | file (dots : ℕ) (name : List Byte) (size : ℤ)
  /-- `"Something went wrong in %s, won't go further\n"` -/
  | wentWrong (name : List Byte)
deriving DecidableEq

/-- `(int) st_size` -/
def Stat.size (st : Stat) : ℤ := st.stSize.bmod (2 ^ 32)

/-! ## §3  The recursive crawler -/

/-- What `opendir` and `readdir` make of a path when some streams are open already, and
what `lstat` stores for it; `none` when the call fails. -/
structure FileSystem where
  opendir : ℕ → List Byte → Option (List (List Byte))
  lstat : List Byte → Option Stat

/-- `path_buffer`, whose length is `path_buffer_size`, `indentation_lvl`, the number of
streams opened and the lines printed. -/
structure Crawler where
  pathBuffer : List Byte
  indentationLvl : ℕ
  opened : ℕ
  printed : List Line
deriving DecidableEq

/-- `while(need > path_buffer_size)`. A turn adds a byte at least, so that `need` turns
are enough. -/
def growPathBuffer (found : ℕ → Byte) (need : ℕ) : ℕ → List Byte → Option (List Byte)
  | 0, _ => none
  | turns + 1, buf =>
      if need > buf.length then
        growPathBuffer found need turns (realloc found (buf.length * 2) buf)
      else some buf

section Recursive

variable (fs : FileSystem) (found : ℕ → Byte) (permitWord : Fin 9 → Byte)

/-- The branches for a directory and for a regular file; `enter` is the recursive call. -/
def viewFile (enter : Crawler → Option Crawler) (name : List Byte) (st : Stat) (s : Crawler) :
    Option Crawler :=
  if st.isDir then do
    let s ← enter { s with
      printed := s.printed ++ [.directory s.indentationLvl name]
      indentationLvl := s.indentationLvl + 1 }
    some { s with indentationLvl := s.indentationLvl - 1 }
  else if st.isReg && compareAccess permitWord st then
    some { s with printed := s.printed ++ [.file s.indentationLvl name st.size] }
  else some s

/-- The loop over the names that are left. When `lstat` fails the function returns and the
name stays in the buffer. -/
def viewFiles (enter : Crawler → Option Crawler) : List (List Byte) → Crawler → Option Crawler
  | [], s => some s
  | name :: names, s =>
      if name = [46] ∨ name = [46, 46] then viewFiles enter names s
      else do
        let path ← cString 0 s.pathBuffer
        let need := path.length + name.length + 2
        let buf ← growPathBuffer found need need s.pathBuffer
        let buf ← storeIn path.length [slash] buf
        let buf ← strcpyIn (path.length + 1) name buf
        let currPath ← cString 0 buf
        match fs.lstat currPath with
        | none => some { s with pathBuffer := buf, printed := s.printed ++ [.wentWrong name] }
        | some st =>
            let s ← viewFile permitWord enter name st { s with pathBuffer := buf }
            let buf ← storeIn path.length [0] s.pathBuffer
            viewFiles enter names { s with pathBuffer := buf }

/-- `traverse_recursively` with calls nested at most so deep. -/
def traverseRecursively : ℕ → Crawler → Option Crawler
  | 0, _ => none
  | depth + 1, s => do
      let path ← cString 0 s.pathBuffer
      -- `readdir` of a stream that `opendir` failed to open is undefined
      let names ← fs.opendir s.opened path
      viewFiles fs found permitWord (traverseRecursively depth) names
        { s with opened := s.opened + 1 }

/-- `get_path_buffer`, with what `pathconf` returns. -/
def getPathBuffer (maxLen : ℤ) : List Byte :=
  malloc found (if maxLen ≤ 0 then 2048 else (maxLen + 2).toNat)

/-- `main` puts the root path into the buffer. -/
def copyRootPath (maxLen : ℤ) (rootPath : List Byte) : Option (List Byte) :=
  let buf := getPathBuffer found maxLen
  strcpyIn 0 rootPath
    (if buf.length < rootPath.length then realloc found (buf.length * 2) buf else buf)

end Recursive

/-! ## §4  Directories and `ftw` -/

/-- A name that `readdir` returns for an entry of a directory. -/
structure Name where
  bytes : List Byte
  ne_nil : bytes ≠ []
  no_nul : 0 ∉ bytes
  no_slash : slash ∉ bytes
  ne_dot : bytes ≠ [46]
  ne_dotDot : bytes ≠ [46, 46]

/-- The entries of a directory other than `.` and `..` in the order of `readdir`, with
what is below them. No entry is a symbolic link. -/
inductive Entries where
  | done
  | file (name : Name) (st : {st : Stat // st.isDir = false ∧ st.isLnk = false})
      (rest : Entries)
  | directory (name : Name) (st : {st : Stat // st.isDir = true}) (inside rest : Entries)

def entryPath (path name : List Byte) : List Byte := path ++ slash :: name

/-- The calls that `ftw` makes for the entries of the directory `path`: one for each of
them, a directory before its own entries. -/
def Entries.calls (path : List Byte) : Entries → List (List Byte × Stat)
  | .done => []
  | .file name st rest => (entryPath path name.bytes, st.val) :: rest.calls path
  | .directory name st inside rest =>
      (entryPath path name.bytes, st.val) ::
        (inside.calls (entryPath path name.bytes) ++ rest.calls path)

/-- `ftw` on the directory `root`: what the calls of `fn`, which all return 0, print. -/
def ftw (fn : List Byte → Stat → Option (List Line)) (root : List Byte) (st : Stat)
    (entries : Entries) : Option (List Line) :=
  (((root, st) :: entries.calls root).mapM fun call => fn call.1 call.2).map List.flatten

/-! ## §5  The crawler over `ftw` -/

/-- The loop over `fpath` finds `lvl` and `last_slash_index`; `counter` is the index of
the byte it looks at. -/
def scanPath : List Byte → ℕ → ℕ × ℤ → ℕ × ℤ
  | [], _, r => r
  | c :: cs, counter, (lvl, lastSlashIndex) =>
      scanPath cs (counter + 1)
        (if c = slash then (lvl + 1, (counter : ℤ)) else (lvl, lastSlashIndex))

/-- `fn`; `none` when the copy of the name leaves its buffer. -/
def fn (found : ℕ → Byte) (permitWord : Fin 9 → Byte) (fpath : List Byte) (st : Stat) :
    Option (List Line) := do
  let (lvl, lastSlashIndex) := scanPath fpath 0 (0, -1)
  let fpathLen : ℤ :=
    if lastSlashIndex ≠ -1 then fpath.length - lastSlashIndex - 1 else fpath.length
  let buf ← strcpyIn 0 (fpath.drop (lastSlashIndex + 1).toNat)
    (malloc found (fpathLen + 1).toNat)
  let currFileName ← cString 0 buf
  if st.isDir then some [.directory lvl currFileName]
  else if st.isReg && compareAccessFtw permitWord st then
    some [.file lvl currFileName st.size]
  else some []

end Sysopy.TreeCrawler
