import Mathlib.Data.List.Count
import Sysopy.TreeCrawler.Traversal

/-!
# The two crawlers agree

`fn` finds in the path of an entry the level and the name that the recursive crawler has
kept. `ftw` counts the slashes of the root path as well, and one for the root itself:
its lines are those of the recursive crawler, all moved by that number of levels.

## Sections

* §1 levels and names in a path
* §2 the lines of `fn`
* §3 the walk of `ftw`
* §4 agreement
-/

namespace Sysopy.TreeCrawler

open Foundation

/-! ## §1  Levels and names in a path -/

theorem scanPath_append (xs ys : List Byte) (counter : ℕ) (r : ℕ × ℤ) :
    scanPath (xs ++ ys) counter r = scanPath ys (counter + xs.length) (scanPath xs counter r) := by
  induction xs generalizing counter r with
  | nil => rfl
  | cons c xs ih =>
      rw [List.cons_append, scanPath, ih, scanPath, List.length_cons, Nat.add_assoc,
        Nat.add_comm 1]

theorem scanPath_of_notMem {xs : List Byte} (hxs : slash ∉ xs) (counter : ℕ) (r : ℕ × ℤ) :
    scanPath xs counter r = r := by
  induction xs generalizing counter with
  | nil => rfl
  | cons c xs ih =>
      obtain ⟨hc, hxs⟩ := List.ne_and_not_mem_of_not_mem_cons hxs
      rw [scanPath, if_neg fun h => hc h.symm]
      exact ih hxs (counter + 1)

theorem scanPath_fst (xs : List Byte) (counter : ℕ) (r : ℕ × ℤ) :
    (scanPath xs counter r).1 = r.1 + xs.count slash := by
  induction xs generalizing counter r with
  | nil => rfl
  | cons c xs ih =>
      rw [scanPath, ih]
      by_cases hc : c = slash
      · rw [if_pos hc, hc, List.count_cons_self]
        omega
      · rw [if_neg hc, List.count_cons_of_ne hc]

theorem scanPath_snd (xs : List Byte) (counter : ℕ) (r : ℕ × ℤ) :
    (scanPath xs counter r).2 = r.2 ∨
      counter ≤ (scanPath xs counter r).2 ∧
        (scanPath xs counter r).2 < counter + xs.length := by
  induction xs generalizing counter r with
  | nil => exact Or.inl rfl
  | cons c xs ih =>
      obtain ⟨lvl, lastSlashIndex⟩ := r
      rw [scanPath, List.length_cons]
      by_cases hc : c = slash
      · rw [if_pos hc]
        rcases ih (counter + 1) (lvl + 1, (counter : ℤ)) with h | h
        · exact Or.inr (by omega)
        · exact Or.inr (by omega)
      · rw [if_neg hc]
        rcases ih (counter + 1) (lvl, lastSlashIndex) with h | h
        · exact Or.inl h
        · exact Or.inr (by omega)

/-- In the path of an entry the last slash stands in front of the name. -/
theorem scanPath_entryPath (path : List Byte) (name : Name) :
    scanPath (entryPath path name.bytes) 0 (0, -1) =
      (path.count slash + 1, (path.length : ℤ)) := by
  rw [entryPath, scanPath_append, scanPath, if_pos rfl, scanPath_of_notMem name.no_slash,
    scanPath_fst, Nat.zero_add, Nat.zero_add]

theorem count_entryPath (path : List Byte) (name : Name) :
    (entryPath path name.bytes).count slash = path.count slash + 1 := by
  rw [entryPath, List.count_append, List.count_cons_self, List.count_eq_zero.mpr name.no_slash]

theorem zero_notMem_entryPath {path : List Byte} (hpath : 0 ∉ path) (name : Name) :
    0 ∉ entryPath path name.bytes := by
  have hslash : (0 : Byte) ≠ slash := by decide
  simp [entryPath, hpath, hslash, name.no_nul]

/-! ## §2  The lines of `fn` -/

theorem compareAccessFtw_eq : compareAccessFtw = compareAccess := rfl

section Fn

variable (found : ℕ → Byte) (permitWord : Fin 9 → Byte)

/-- A string is read back from memory that is just large enough for it. -/
theorem strcpyIn_malloc {s : List Byte} (hs : 0 ∉ s) :
    ∃ buf, strcpyIn 0 s (malloc found (s.length + 1)) = some buf ∧ cString 0 buf = some s := by
  refine ⟨strcpy 0 s (malloc found (s.length + 1)), ?_, cString_strcpy hs (Nat.zero_le _)⟩
  apply strcpyIn_eq
  rw [length_malloc, Nat.zero_add]
  exact Nat.lt_succ_self s.length

/-- The line for the entry with the last part of the path as its name. -/
theorem fn_eq {fpath : List Byte} (hfpath : 0 ∉ fpath) (st : Stat) {lvl : ℕ}
    {lastSlashIndex : ℤ} (hscan : scanPath fpath 0 (0, -1) = (lvl, lastSlashIndex)) :
    fn found permitWord fpath st =
      some (if st.isDir then [.directory lvl (fpath.drop (lastSlashIndex + 1).toNat)]
        else fileLines permitWord lvl (fpath.drop (lastSlashIndex + 1).toNat) st) := by
  have hbounds := scanPath_snd fpath 0 (0, -1)
  rw [hscan] at hbounds
  have hlen : ((if lastSlashIndex ≠ -1 then (fpath.length : ℤ) - lastSlashIndex - 1
      else fpath.length) + 1).toNat =
        (fpath.drop (lastSlashIndex + 1).toNat).length + 1 := by
    rw [List.length_drop]
    split_ifs <;> omega
  obtain ⟨buf, hcopy, hname⟩ := strcpyIn_malloc found
    fun h => hfpath (List.mem_of_mem_drop (i := (lastSlashIndex + 1).toNat) h)
  unfold fn fileLines
  rw [hscan, ← compareAccessFtw_eq]
  simp only [hlen, hcopy, hname, Option.bind_eq_bind, Option.bind_some]
  by_cases hdir : st.isDir = true
  · rw [if_pos hdir, if_pos hdir]
  · rw [if_neg hdir, if_neg hdir]
    by_cases hline : (st.isReg && compareAccessFtw permitWord st) = true
    · rw [if_pos hline, if_pos hline]
    · rw [if_neg hline, if_neg hline]

theorem fn_entryPath {path : List Byte} (hpath : 0 ∉ path) (name : Name) (st : Stat) :
    fn found permitWord (entryPath path name.bytes) st =
      some (if st.isDir then [.directory (path.count slash + 1) name.bytes]
        else fileLines permitWord (path.count slash + 1) name.bytes st) := by
  have hname : (entryPath path name.bytes).drop ((path.length : ℤ) + 1).toNat = name.bytes := by
    have hlen : ((path.length : ℤ) + 1).toNat = path.length + 1 := by omega
    rw [hlen, entryPath, List.drop_length_add_append, List.drop_succ_cons, List.drop_zero]
  rw [fn_eq found permitWord (zero_notMem_entryPath hpath name) st
    (scanPath_entryPath path name), hname]

/-! ## §3  The walk of `ftw` -/

theorem calls_eq (entries : Entries) {path : List Byte} (hpath : 0 ∉ path) :
    ∃ outs,
      (entries.calls path).mapM (fun call => fn found permitWord call.1 call.2) = some outs ∧
      outs.flatten = entries.lines permitWord (path.count slash + 1) := by
  induction entries generalizing path with
  | done => exact ⟨[], rfl, rfl⟩
  | file name st rest ih =>
      obtain ⟨outs, heq, hlines⟩ := ih hpath
      refine ⟨fileLines permitWord (path.count slash + 1) name.bytes st.val :: outs, ?_, ?_⟩
      · have hst : ¬ st.val.isDir = true := Bool.eq_false_iff.mp st.property.1
        rw [Entries.calls, List.mapM_cons, fn_entryPath found permitWord hpath, if_neg hst, heq]
        rfl
      · rw [List.flatten_cons, hlines, Entries.lines]
  | directory name st inside rest ihInside ihRest =>
      obtain ⟨outs₁, heq₁, hlines₁⟩ := ihInside (zero_notMem_entryPath hpath name)
      obtain ⟨outs₂, heq₂, hlines₂⟩ := ihRest hpath
      refine ⟨[.directory (path.count slash + 1) name.bytes] :: (outs₁ ++ outs₂), ?_, ?_⟩
      · rw [Entries.calls, List.mapM_cons, fn_entryPath found permitWord hpath,
          if_pos st.property, List.mapM_append, heq₁, heq₂]
        rfl
      · rw [List.flatten_cons, List.flatten_append, hlines₁, hlines₂, count_entryPath,
          Entries.lines]
        rfl

/-- The line with `k` more levels in front of it. -/
def Line.indent (k : ℕ) : Line → Line
  | .directory dots name => .directory (k + dots) name
  | .file dots name size => .file (k + dots) name size
  | .wentWrong name => .wentWrong name

theorem fileLines_add (k lvl : ℕ) (name : List Byte) (st : Stat) :
    fileLines permitWord (k + lvl) name st =
      (fileLines permitWord lvl name st).map (Line.indent k) := by
  unfold fileLines
  split_ifs
  · rfl
  · rfl

/-- At a deeper level the same lines are printed further to the right. -/
theorem lines_add (k lvl : ℕ) (entries : Entries) :
    entries.lines permitWord (k + lvl) =
      (entries.lines permitWord lvl).map (Line.indent k) := by
  induction entries generalizing lvl with
  | done => rfl
  | file name st rest ih =>
      rw [Entries.lines, Entries.lines, List.map_append, ih, fileLines_add]
  | directory name st inside rest ihInside ihRest =>
      rw [Entries.lines, Entries.lines, List.map_append, List.map_cons, ihRest,
        Nat.add_assoc, ihInside]
      rfl

end Fn

/-! ## §4  Agreement -/

/-- **The two crawlers agree**: for every tree, every template and every root path the lines
of `fn` behind the one for the root are the lines of the recursive crawler, each with
the same number of levels more. -/
theorem crawlers_agree {fs : FileSystem} (found foundFtw : ℕ → Byte)
    (permitWord : Fin 9 → Byte) {rootPath buf : List Byte}
    (hbuf : cString 0 buf = some rootPath)
    (st : {st : Stat // st.isDir = true}) {entries : Entries} (hfs : fs.Holds rootPath entries)
    {depth : ℕ} (hdepth : entries.depth < depth) :
    ∃ s rootLine,
      traverseRecursively fs found permitWord depth
        { pathBuffer := buf, indentationLvl := 0, opened := 0, printed := [] } = some s ∧
      fn foundFtw permitWord rootPath st = some [rootLine] ∧
      ftw (fn foundFtw permitWord) rootPath st entries =
        some (rootLine :: s.printed.map (Line.indent (rootPath.count slash + 1))) := by
  have hnul : 0 ∉ rootPath := (cString_eq_some.mp hbuf).1
  obtain ⟨s, heq, hprinted⟩ := traverseRecursively_eq found permitWord hbuf hfs hdepth
  obtain ⟨outs, hcalls, hlines⟩ := calls_eq foundFtw permitWord entries hnul
  have hroot := fn_eq foundFtw permitWord hnul st.val rfl
  rw [if_pos st.property] at hroot
  refine ⟨s, _, heq, hroot, ?_⟩
  rw [ftw, List.mapM_cons, hroot, hcalls, hprinted, ← lines_add, Nat.add_zero, ← hlines]
  rfl

/-- The directory `r` with the directory `d`, which has the file `f` of 5 bytes. -/
def smallFileSystem : FileSystem where
  opendir _ path :=
    if path = [114] then some [[46], [100], [46, 46]]
    else if path = [114, 47, 100] then some [[46], [46, 46], [102]]
    else none
  lstat path :=
    if path = [114, 47, 100] then some ⟨0x41ED, 4096⟩
    else if path = [114, 47, 100, 47, 102] then some ⟨0x81A4, 5⟩
    else none

def smallEntries : Entries :=
  .directory ⟨[100], by decide, by decide, by decide, by decide, by decide⟩
    ⟨⟨0x41ED, 4096⟩, by decide⟩
    (.file ⟨[102], by decide, by decide, by decide, by decide, by decide⟩
      ⟨⟨0x81A4, 5⟩, by decide⟩ .done)
    .done

theorem smallFileSystem_holds : smallFileSystem.Holds [114] smallEntries :=
  ⟨⟨_, by decide, fun _ _ => rfl⟩, rfl, ⟨_, by decide, fun _ _ => rfl⟩, ⟨rfl, trivial⟩, trivial⟩

example : ftw (fn (fun _ => 1) allRights) [114] ⟨0x41ED, 4096⟩ smallEntries =
    some [.directory 0 [114], .directory 1 [100], .file 2 [102] 5] := by decide

/-- Both crawlers in that directory. -/
theorem crawlers_agree_small : ∃ buf, copyRootPath (fun _ => 1) 4 [114] = some buf ∧
    ∃ s rootLine,
      traverseRecursively smallFileSystem (fun _ => 1) allRights 2
        { pathBuffer := buf, indentationLvl := 0, opened := 0, printed := [] } = some s ∧
      fn (fun _ => 1) allRights [114] ⟨0x41ED, 4096⟩ = some [rootLine] ∧
      ftw (fn (fun _ => 1) allRights) [114] ⟨0x41ED, 4096⟩ smallEntries =
        some (rootLine :: s.printed.map (Line.indent (0 + 1))) := by
  have hmain : ∃ buf, copyRootPath (fun _ => 1) 4 [114] = some buf ∧
      cString 0 buf = some [114] := copyRootPath_eq _ (by decide) (by decide)
  obtain ⟨buf, hcopy, hbuf⟩ := hmain
  exact ⟨buf, hcopy, crawlers_agree (fun _ => 1) (fun _ => 1) allRights hbuf
    ⟨⟨0x41ED, 4096⟩, by decide⟩ smallFileSystem_holds (by decide)⟩

end Sysopy.TreeCrawler
