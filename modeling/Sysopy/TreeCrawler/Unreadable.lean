import Sysopy.TreeCrawler.Listing

/-!
# Directories that cannot be opened

When `opendir` fails the crawler prints its message and hands the null pointer to `readdir`
all the same. So one directory that cannot be opened, anywhere in the tree, is enough: the
walk comes to it and does not come back.

## Sections

* §1 what should be printed
* §2 a directory that cannot be opened
* §3 the walk
* §4 trees that are walked
-/

namespace Sysopy.TreeCrawler

open Foundation

/-! ## §1  What should be printed -/

/-- The lines when the message for an unreadable directory stands in place of its entries. -/
def Content.reported (permitWord : Fin 9 → Byte) (unreadable : Finset (List Byte)) :
    List Byte → ℕ → Content → List Line
  | _, _, .done => []
  | path, lvl, .file name st rest =>
      (Entry.line permitWord ⟨lvl, name.bytes, st.val⟩).toList ++
        reported permitWord unreadable path lvl rest
  | path, lvl, .directory name _ inside rest =>
      .directory lvl name.bytes ::
        (if entryPath path name.bytes ∈ unreadable then [.wentWrong (entryPath path name.bytes)]
          else reported permitWord unreadable (entryPath path name.bytes) (lvl + 1) inside) ++
        reported permitWord unreadable path lvl rest

/-- The call for the root comes back, with calls nested deep enough, and has reported the
unreadable directories and listed everything outside them. -/
def CrawlsOn (fs : FileSystem) (found : ℕ → Byte) (permitWord : Fin 9 → Byte)
    (unreadable : Finset (List Byte)) (rootPath buf : List Byte) (content : Content) : Prop :=
  ∃ enough, ∀ depth > enough,
    ∃ s, traverseRecursively fs found permitWord depth (.start buf) = some s ∧
      s.printed =
        if rootPath ∈ unreadable then [.wentWrong rootPath]
        else content.reported permitWord unreadable rootPath 0

/-- Where every directory can be opened, nothing is to be reported. -/
theorem Content.reported_eq (permitWord : Fin 9 → Byte) {unreadable : Finset (List Byte)}
    {path : List Byte} (content : Content) (lvl : ℕ)
    (hreadable : ∀ p ∈ content.paths path, p ∉ unreadable) :
    content.reported permitWord unreadable path lvl = content.lines permitWord lvl := by
  induction content generalizing path lvl with
  | done => rfl
  | file name st rest ih =>
      rw [Content.lines_file, reported, ih lvl hreadable]
  | directory name st inside rest ihInside ihRest =>
      obtain ⟨hhere, hbelow⟩ := List.forall_mem_cons.mp hreadable
      obtain ⟨hinside, hrest⟩ := List.forall_mem_append.mp hbelow
      rw [Content.lines_directory, reported, if_neg hhere, ihInside (lvl + 1) hinside,
        ihRest lvl hrest]

/-! ## §2  A directory that cannot be opened -/

section Recursive

variable {fs : FileSystem} {found : ℕ → Byte} {permitWord : Fin 9 → Byte}
  {enter : Crawler → Option Crawler} {path : List Byte} {s : Crawler}
  {unreadable : Finset (List Byte)} {bound depth : ℕ} {content : Content}

theorem traverseRecursively_unreadable {names : List (List Byte)}
    (hpath : cString 0 s.pathBuffer = some path) (hunreadable : path ∈ unreadable)
    (hreads : fs.Reads unreadable bound path names) (hopened : s.opened < bound) :
    traverseRecursively fs found permitWord depth s = none := by
  cases depth with
  | zero => rfl
  | succ depth =>
      obtain ⟨listing, -, hopendir⟩ := hreads
      rw [traverseRecursively, hpath, Option.bind_eq_bind, Option.bind_some,
        hopendir s.opened hopened, if_pos hunreadable]
      rfl

theorem viewFile_directory_none {name : List Byte} {st : Stat} (hst : st.isDir = true)
    (henter : enter { s with
      printed := s.printed ++ [.directory s.indentationLvl name]
      indentationLvl := s.indentationLvl + 1 } = none) :
    viewFile permitWord enter name st s = none := by
  rw [viewFile, if_pos hst, henter]
  rfl

/-- An entry that does not come back takes the loop with it. -/
theorem viewFiles_cons_none {name : Name} (names : List (List Byte)) {st : Stat}
    (hpath : cString 0 s.pathBuffer = some path)
    (hst : fs.lstat (entryPath path name.bytes) = some st)
    (hview : ∀ buf, cString 0 buf = some (entryPath path name.bytes) →
      viewFile permitWord enter name.bytes st { s with pathBuffer := buf } = none) :
    viewFiles fs found permitWord enter (name.bytes :: names) s = none := by
  obtain ⟨buf, hbuf, hturn⟩ := viewFiles_turn found permitWord enter names hpath hst
  rw [hturn, hview buf hbuf, Option.bind_none]

/-! ## §3  The walk -/

/-- A directory is the first entry, or below it, or below an entry behind it. -/
theorem Content.exists_paths_directory {name : Name} {st : {st : Stat // st.isDir = true}}
    {inside rest : Content} :
    (∃ p ∈ (Content.directory name st inside rest).paths path, p ∈ unreadable) ↔
      entryPath path name.bytes ∈ unreadable ∨
        (∃ p ∈ inside.paths (entryPath path name.bytes), p ∈ unreadable) ∨
        ∃ p ∈ rest.paths path, p ∈ unreadable := by
  rw [Content.paths, List.cons_append, List.exists_mem_cons_iff]
  simp only [List.mem_append, or_and_right, exists_or]

/-- With calls nested deep enough the loop comes to an unreadable directory below `path`. The
directories in front of it come back, so that the induction is over the tree. -/
theorem viewFiles_unreadable (found : ℕ → Byte) (permitWord : Fin 9 → Byte) (content : Content)
    (hpath : cString 0 s.pathBuffer = some path)
    (hmatches : fs.Matches unreadable bound path content)
    (hunreadable : ∃ p ∈ content.paths path, p ∈ unreadable)
    (hopened : s.opened + content.directories ≤ bound) (hdepth : content.depth ≤ depth) :
    viewFiles fs found permitWord (traverseRecursively fs found permitWord depth)
      content.names s = none := by
  induction content generalizing path s depth with
  | done =>
      obtain ⟨p, hp, -⟩ := hunreadable
      exact absurd hp List.not_mem_nil
  | file name st rest ih =>
      obtain ⟨hst, hrest⟩ := hmatches
      obtain ⟨s', heq, hvisited⟩ := viewFiles_file rest.names st.property hpath hst
      rw [Content.names, heq]
      exact ih hvisited.path hrest hunreadable (hvisited.opened ▸ hopened) hdepth
  | directory name st inside rest ihInside ihRest =>
      obtain ⟨hst, hreads, hinside, hrest⟩ := hmatches
      simp only [Content.directories, Content.depth] at hopened hdepth
      have hroom : s.opened < bound := by omega
      by_cases hhere : entryPath path name.bytes ∈ unreadable
      · refine viewFiles_cons_none rest.names hpath hst fun buf hbuf => ?_
        apply viewFile_directory_none st.property
        refine traverseRecursively_unreadable hbuf hhere hreads ?_
        exact hroom
      · obtain ⟨depth, rfl⟩ : ∃ d, depth = d + 1 := Nat.exists_eq_succ_of_ne_zero (by omega)
        have hroomInside : s.opened + 1 + inside.directories ≤ bound := by omega
        have hdepthInside : inside.depth ≤ depth := by omega
        by_cases hbelow : ∃ p ∈ inside.paths (entryPath path name.bytes), p ∈ unreadable
        · refine viewFiles_cons_none rest.names hpath hst fun buf hbuf => ?_
          apply viewFile_directory_none st.property
          -- the call for this directory does not come back
          have hentered := ihInside (s := s.entered name.bytes buf) hbuf (hinside hhere) hbelow
            hroomInside hdepthInside
          rw [← hentered]
          refine traverseRecursively_succ hbuf hhere hreads ?_
          exact hroom
        · have hreadable : ∀ p ∈ inside.paths (entryPath path name.bytes), p ∉ unreadable :=
            fun p hp hmem => hbelow ⟨p, hp, hmem⟩
          have hentered : ∀ buf, cString 0 buf = some (entryPath path name.bytes) →
              ∃ s', viewFiles fs found permitWord (traverseRecursively fs found permitWord depth)
                  inside.names (s.entered name.bytes buf) = some s' ∧
                Visited (entryPath path name.bytes) (s.entered name.bytes buf)
                  inside.directories (inside.lines permitWord (s.indentationLvl + 1)) s' := by
            intro buf hbuf
            exact viewFiles_eq found permitWord inside hbuf (hinside hhere) hreadable
              hroomInside hdepthInside
          obtain ⟨s', heq, hvisited⟩ := viewFiles_directory rest.names st.property hpath hst
            hhere hreads hroom hentered
          rw [Content.names, heq]
          -- this one does, and the directory that fails is behind it
          have hbehind :=
            ((Content.exists_paths_directory.mp hunreadable).resolve_left hhere).resolve_left hbelow
          refine ihRest hvisited.path hrest hbehind ?_ (by omega)
          rw [hvisited.opened]
          omega

end Recursive

/-! ## §4  Trees that are walked -/

section Crawls

variable {fs : FileSystem} (found : ℕ → Byte) (permitWord : Fin 9 → Byte)
  {rootPath buf : List Byte} {unreadable : Finset (List Byte)} {content : Content} {depth : ℕ}

theorem traverseRecursively_start_none (hbuf : cString 0 buf = some rootPath)
    (hfs : fs.Shows unreadable rootPath content)
    (hunreadable : ∃ p ∈ rootPath :: content.paths rootPath, p ∈ unreadable)
    (hdepth : content.depth < depth) :
    traverseRecursively fs found permitWord depth (.start buf) = none := by
  obtain ⟨hreads, hmatches⟩ := hfs
  have hroom : (Crawler.start buf).opened < 1 + content.directories :=
    Nat.add_pos_left Nat.one_pos _
  by_cases hroot : rootPath ∈ unreadable
  · exact traverseRecursively_unreadable hbuf hroot hreads hroom
  · obtain ⟨depth, rfl⟩ := Nat.exists_eq_succ_of_ne_zero (Nat.ne_zero_of_lt hdepth)
    rw [traverseRecursively_succ hbuf hroot hreads hroom]
    refine viewFiles_unreadable found permitWord content hbuf (hmatches hroot) ?_ ?_
      (Nat.le_of_lt_succ hdepth)
    · obtain ⟨p, hp, hmem⟩ := hunreadable
      rcases List.mem_cons.mp hp with rfl | hp
      · exact absurd hmem hroot
      · exact ⟨p, hp, hmem⟩
    · show 0 + 1 + content.directories ≤ 1 + content.directories
      rw [Nat.zero_add]

/-- **The crawler goes on around the unreadable directories exactly if there are none.** -/
theorem crawlsOn_iff (hbuf : cString 0 buf = some rootPath)
    (hfs : fs.Shows unreadable rootPath content) :
    CrawlsOn fs found permitWord unreadable rootPath buf content ↔
      ∀ p ∈ rootPath :: content.paths rootPath, p ∉ unreadable := by
  constructor
  · rintro ⟨enough, hreturns⟩ p hp hmem
    have hlt : enough < max enough content.depth + 1 := Nat.lt_succ_of_le (le_max_left _ _)
    obtain ⟨s, heq, -⟩ := hreturns _ hlt
    have hnone := traverseRecursively_start_none found permitWord hbuf hfs ⟨p, hp, hmem⟩
      (Nat.lt_succ_of_le (le_max_right enough content.depth))
    exact Option.some_ne_none s (heq.symm.trans hnone)
  · intro hreadable
    refine ⟨content.depth, fun depth hdepth => ?_⟩
    obtain ⟨s, heq, hvisited⟩ :=
      traverseRecursively_start found permitWord hbuf hfs hreadable hdepth
    obtain ⟨hroot, hbelow⟩ := List.forall_mem_cons.mp hreadable
    refine ⟨s, heq, ?_⟩
    rw [if_neg hroot, Content.reported_eq permitWord content 0 hbelow]
    exact hvisited.printed

end Crawls

/-- In that directory everything can be opened. -/
theorem crawlsOn_iff_small :
    CrawlsOn mixedFileSystem (fun _ => 1) allRights ∅ [114] [114, 0] mixedContent ↔
      ∀ p ∈ [114] :: mixedContent.paths [114], p ∉ (∅ : Finset (List Byte)) :=
  crawlsOn_iff (fun _ => 1) allRights (by decide) mixedFileSystem_shows

/-- The directory `r` with the file `n` of 7 bytes behind the directory `l`, which cannot be
opened. -/
def lockedFileSystem : FileSystem where
  opendir _ path := if path = [114] then some [[46], [46, 46], [108], [110]] else none
  lstat path :=
    if path = [114, 47, 108] then some ⟨0x4000, 4096⟩
    else if path = [114, 47, 110] then some ⟨0x81A4, 7⟩
    else none

def lockedContent : Content :=
  .directory ⟨[108], by decide, by decide, by decide, by decide, by decide⟩
    ⟨⟨0x4000, 4096⟩, by decide⟩ .done
    (.file ⟨[110], by decide, by decide, by decide, by decide, by decide⟩
      ⟨⟨0x81A4, 7⟩, by decide⟩ .done)

/-- The file `n` is never listed. -/
theorem locked_directory_ends_crawl :
    lockedFileSystem.Shows {[114, 47, 108]} [114] lockedContent ∧
      (∀ depth, traverseRecursively lockedFileSystem (fun _ => 1) allRights depth
        (.start [114, 0]) = none) ∧
      ¬CrawlsOn lockedFileSystem (fun _ => 1) allRights {[114, 47, 108]} [114] [114, 0]
        lockedContent := by
  have hnone : ∀ depth, traverseRecursively lockedFileSystem (fun _ => 1) allRights depth
      (.start [114, 0]) = none := by
    rintro (_ | _ | depth)
    · rfl
    · decide
    · rfl
  refine ⟨?_, hnone, ?_⟩
  · refine ⟨⟨_, by decide, fun _ _ => rfl⟩, fun _ => ⟨rfl, ⟨[], rfl, fun _ _ => rfl⟩, ?_⟩⟩
    exact ⟨fun _ => trivial, rfl, trivial⟩
  · rintro ⟨enough, hreturns⟩
    obtain ⟨s, heq, -⟩ := hreturns (enough + 1) (Nat.lt_succ_self enough)
    exact Option.some_ne_none s (heq.symm.trans (hnone (enough + 1)))

end Sysopy.TreeCrawler
