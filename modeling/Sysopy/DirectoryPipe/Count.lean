import Sysopy.DirectoryPipe.Processes

/-!
# What the last process counts

The text of an entry is more than one line when the name has a newline, and then a later
line may begin with a `d` of the name. Lines are never longer than the buffers of the readers
and are written at once, so every schedule counts the same lines: those of the directories,
and those that begin in a name. The processes never wait for each other without end.

The first process gives up at the first entry that `lstat` fails for, and it has no room for
the path of an entry whose name is too long for the array behind the working directory's.

## Sections

* §1 the lines of the entries
* §2 directories and other lines
* §3 the processes between two steps
* §4 a step
* §5 every run
-/

namespace Sysopy.DirectoryPipe

open Foundation

/-! ## §1  The lines of the entries -/

/-- A line that both readers take as it is. -/
structure IsLine (l : List Byte) : Prop where
  newline : 10 ∉ l
  zero : 0 ∉ l
  short : l.length < 1024 - 1

/-- `line[0] == 'd'` -/
def beginsWithD (l : List Byte) : Bool := l.head? == some 100

noncomputable def DirEntry.lines (e : DirEntry) : List (List Byte) :=
  if e.IsDot then [] else e.text.splitOn 10

noncomputable def linesOf (entries : List DirEntry) : List (List Byte) :=
  entries.flatMap DirEntry.lines

variable {e : DirEntry} {entries : List DirEntry} {l : List Byte}

theorem isLine_of_mem_lines (hl : l ∈ e.lines) : IsLine l := by
  unfold DirEntry.lines at hl
  split_ifs at hl with hdot
  · exact absurd hl List.not_mem_nil
  · obtain ⟨hnewline, hlength, hsubset⟩ := of_mem_splitOn hl
    refine ⟨hnewline, fun hzero => zero_notMem_text e (hsubset hzero), ?_⟩
    exact Nat.lt_of_le_of_lt (hlength.trans (length_text_le e)) (by decide)

theorem wire_lines (e : DirEntry) :
    wire 10 e.lines = if e.IsDot then [] else terminated 10 e.text := by
  unfold DirEntry.lines
  split_ifs
  · rfl
  · exact wire_splitOn 10 e.text

/-! ## §2  Directories and other lines -/

/-- The entries other than `.` and `..` that are directories. -/
def directories (entries : List DirEntry) : ℕ :=
  entries.countP fun e => !decide e.IsDot && e.stat.isDir

/-- How often a `d` stands behind a newline in the names, other than `.` and `..`. -/
def brokenLines (entries : List DirEntry) : ℕ :=
  (entries.map fun e => if e.IsDot then 0 else pairCount 10 100 e.dName).sum

/-- The first line of an entry begins with a `d` exactly for a directory, and of the later
ones as many as the name has a `d` behind a newline. -/
theorem countP_lines (e : DirEntry) :
    e.lines.countP beginsWithD = (if !decide e.IsDot && e.stat.isDir then 1 else 0) +
      if e.IsDot then 0 else pairCount 10 100 e.dName := by
  unfold DirEntry.lines
  by_cases hdot : e.IsDot
  · simp [hdot]
  · obtain ⟨first, more, hsplit, hfirst, hmore⟩ :=
      splitOn_heads (show (100 : Byte) ≠ 10 by decide) e.text
    have hhead : e.text.head? = some 100 ↔ e.stat.isDir = true := head_getAccess
    have hlater : more.countP beginsWithD = pairCount 10 100 e.dName := by
      rw [DirEntry.text, pairCount_append (newline_notMem_columns e)] at hmore
      rw [← hmore]
      exact List.countP_congr fun l _ => by simp [beginsWithD]
    rw [if_neg hdot, if_neg hdot, hsplit, List.countP_cons, hlater, Nat.add_comm]
    congr 1
    simp [beginsWithD, hfirst, hhead, hdot]

/-- **What all lines come to**: the number of directories, and the later lines of names. -/
theorem countP_linesOf (entries : List DirEntry) :
    (linesOf entries).countP beginsWithD = directories entries + brokenLines entries := by
  induction entries with
  | nil => rfl
  | cons e entries ih =>
      rw [linesOf, List.flatMap_cons, List.countP_append, countP_lines, ← linesOf, ih, directories,
        directories, List.countP_cons, brokenLines, brokenLines, List.map_cons, List.sum_cons]
      omega

/-! ### The entries that the first process gets to -/

/-- The entries that `lstat` is called for. -/
def tried : List DirEntry → List DirEntry
  | [] => []
  | e :: rest => e :: if e.lstatFails then [] else tried rest

def listed (entries : List DirEntry) : List DirEntry := entries.takeWhile fun e => !e.lstatFails

/-- The entries from the first one on that `lstat` fails for. -/
def missed (entries : List DirEntry) : List DirEntry := entries.dropWhile fun e => !e.lstatFails

theorem directories_listed (entries : List DirEntry) :
    directories (listed entries) + directories (missed entries) = directories entries := by
  rw [directories, directories, ← List.countP_append, listed, missed,
    List.takeWhile_append_dropWhile]
  rfl

def Directory.Fits (d : Directory) (e : DirEntry) : Prop :=
  d.path.length + 1 + e.dName.length + 1 ≤ 2048

def Directory.total (d : Directory) : ℕ :=
  directories (listed d.entries) + brokenLines (listed d.entries)

/-! ## §3  The processes between two steps -/

/-- The pipes have the lines `ls` and `ks`, a process that has ended has left nothing to come,
and all that is counted, waits in a pipe or is still to be written comes to `total`. -/
structure Piped (d : Directory) (ls ks : List (List Byte)) (s : State) : Prop where
  cwd : s.cwd = d.cwd
  fd : s.fd = wire 10 ls
  subFd : s.subFd = wire 10 ks
  isLine : ∀ l ∈ ls ++ ks, IsLine l
  opened : s.fdOpen = false → d.cwd ≠ none
  fitting : ∀ e ∈ tried d.entries, d.Fits e ∨ s.fdOpen = true ∧ e ∈ tried s.entries
  remaining : ∀ e ∈ tried s.entries, e ∈ tried d.entries
  listed : s.fdOpen = false → listed s.entries = []
  filtered : s.subFdOpen = false → s.fdOpen = false ∧ ls = []
  counted : ∀ n, s.printed = some n → n = s.numLines ∧ s.subFdOpen = false ∧ ks = []
  fits : s.numLines < 2 ^ 31
  sum : s.numLines + ks.length + ls.countP beginsWithD +
    (linesOf (DirectoryPipe.listed s.entries)).countP beginsWithD = d.total

variable {d : Directory} {ls ks : List (List Byte)} {s t : State}

theorem piped_init (d : Directory) : Piped d [] [] (pipeline d).init where
  cwd := rfl
  fd := rfl
  subFd := rfl
  isLine := fun l hl => absurd hl List.not_mem_nil
  opened := fun h => absurd h.symm Bool.false_ne_true
  fitting := fun e he => Or.inr ⟨rfl, he⟩
  remaining := fun e he => he
  listed := fun h => absurd h.symm Bool.false_ne_true
  filtered := fun h => absurd h.symm Bool.false_ne_true
  counted := fun n h => absurd h.symm (Option.some_ne_none n)
  fits := (by decide : 0 < 2 ^ 31)
  sum := (Nat.zero_add _).trans (countP_linesOf _)

theorem Piped.printed (h : Piped d ls ks s) {n : ℕ} (hn : s.printed = some n) : n = d.total := by
  obtain ⟨rfl, hclosed, rfl⟩ := h.counted n hn
  obtain ⟨hopen, rfl⟩ := h.filtered hclosed
  have hsum := h.sum
  rw [h.listed hopen] at hsum
  exact hsum

theorem Directory.cwd_eq_some {cwd : List Byte} (h : d.cwd = some cwd) : cwd = d.path := by
  obtain ⟨-, h⟩ := Option.ite_none_right_eq_some.mp h
  exact (Option.some.inj h).symm

theorem entryPath_of_fits (h : d.Fits e) :
    entryPath d.path e.dName = some (d.path ++ 47 :: e.dName) :=
  if_pos h

theorem entryPath_of_not_fits (h : ¬d.Fits e) : entryPath d.path e.dName = none :=
  if_neg h

/-! ## §4  A step -/

section List

variable {cwd : List Byte} {rest : List DirEntry}

theorem Piped.list_end (found : ℕ → Byte) (h : Piped d ls ks s) (hopen : s.fdOpen = true)
    (hcwd : s.cwd = some cwd) (hentries : s.entries = []) :
    s.next (.list found) = some { s with fdOpen := false } ∧
      Piped d ls ks { s with fdOpen := false } := by
  refine ⟨?_, { h with
    opened := fun _ => ?_
    fitting := fun e he => (h.fitting e he).imp_right fun he => ?_
    listed := fun _ => congrArg DirectoryPipe.listed hentries
    filtered := fun hclosed => ⟨rfl, (h.filtered hclosed).2⟩ }⟩
  · rw [State.next, if_pos hopen, hcwd, hentries]
    rfl
  · rw [← h.cwd, hcwd]
    exact Option.some_ne_none cwd
  · rw [hentries] at he
    exact absurd he.2 List.not_mem_nil

/-- At an entry that `lstat` fails for the first process ends. -/
theorem Piped.list_exit (found : ℕ → Byte) (h : Piped d ls ks s) (hopen : s.fdOpen = true)
    (hcwd : s.cwd = some cwd) (hentries : s.entries = e :: rest) (hfits : d.Fits e)
    (hfails : e.lstatFails = true) :
    s.next (.list found) = some { s with fdOpen := false } ∧
      Piped d ls ks { s with fdOpen := false } := by
  obtain rfl := Directory.cwd_eq_some (h.cwd.symm.trans hcwd)
  refine ⟨?_, { h with
    opened := fun _ => ?_
    fitting := fun e' he => (h.fitting e' he).elim Or.inl fun he => Or.inl ?_
    listed := fun _ => ?_
    filtered := fun hclosed => ⟨rfl, (h.filtered hclosed).2⟩ }⟩
  · rw [State.next, if_pos hopen, hcwd, hentries]
    simp only [entryPath_of_fits hfits, hfails, if_true, Option.bind_eq_bind, Option.bind_some]
  · rw [← h.cwd, hcwd]
    exact Option.some_ne_none _
  · rw [hentries, tried, if_pos hfails, List.mem_singleton] at he
    exact he.2 ▸ hfits
  · show DirectoryPipe.listed s.entries = []
    rw [hentries, DirectoryPipe.listed, List.takeWhile_cons_of_neg (by simp [hfails])]

theorem Piped.list_entry (found : ℕ → Byte) (h : Piped d ls ks s) (hopen : s.fdOpen = true)
    (hcwd : s.cwd = some cwd) (hentries : s.entries = e :: rest) (hfits : d.Fits e)
    (hstat : e.lstatFails = false) :
    s.next (.list found) = some { s with
        entries := rest
        fd := if e.IsDot then s.fd else s.fd ++ terminated 10 e.text } ∧
      Piped d (ls ++ e.lines) ks { s with
        entries := rest
        fd := if e.IsDot then s.fd else s.fd ++ terminated 10 e.text } := by
  obtain rfl := Directory.cwd_eq_some (h.cwd.symm.trans hcwd)
  have hfd : (if e.IsDot then s.fd else s.fd ++ terminated 10 e.text) =
      wire 10 (ls ++ e.lines) := by
    rw [wire_append, ← h.fd, wire_lines]
    split_ifs
    · exact (List.append_nil s.fd).symm
    · rfl
  have hsum := h.sum
  rw [hentries, DirectoryPipe.listed, List.takeWhile_cons_of_pos (by simp [hstat]), linesOf,
    List.flatMap_cons, List.countP_append, ← linesOf, ← DirectoryPipe.listed] at hsum
  refine ⟨?_, { h with
    fd := hfd, isLine := ?_, opened := ?_, fitting := ?_, remaining := ?_,
    listed := ?_, filtered := ?_, sum := ?_ }⟩
  · rw [State.next, if_pos hopen, hcwd, hentries]
    simp only [entryPath_of_fits hfits, hstat, Bool.false_eq_true, if_false, buildLine_eq,
      Option.bind_eq_bind, Option.bind_some]
  · intro l hl
    rcases List.mem_append.mp hl with hl | hl
    · rcases List.mem_append.mp hl with hl | hl
      · exact h.isLine l (List.mem_append_left ks hl)
      · exact isLine_of_mem_lines hl
    · exact h.isLine l (List.mem_append_right ls hl)
  · exact fun hclosed => absurd (hopen.symm.trans hclosed).symm Bool.false_ne_true
  · intro e' he
    rcases h.fitting e' he with hf | ⟨-, hmem⟩
    · exact Or.inl hf
    · rw [hentries, tried, hstat, if_neg Bool.false_ne_true] at hmem
      rcases List.mem_cons.mp hmem with rfl | hmem
      · exact Or.inl hfits
      · exact Or.inr ⟨hopen, hmem⟩
  · intro e' he
    apply h.remaining
    rw [hentries, tried, hstat, if_neg Bool.false_ne_true]
    exact List.mem_cons_of_mem e he
  · exact fun hclosed => absurd (hopen.symm.trans hclosed).symm Bool.false_ne_true
  · exact fun hclosed => absurd (hopen.symm.trans (h.filtered hclosed).1).symm Bool.false_ne_true
  · rw [List.countP_append]
    show s.numLines + ks.length + (ls.countP beginsWithD + e.lines.countP beginsWithD) +
      (linesOf (DirectoryPipe.listed rest)).countP beginsWithD = d.total
    omega

end List

theorem Piped.filter_end (h : Piped d [] ks s) (hopen : s.subFdOpen = true)
    (hclosed : s.fdOpen = false) :
    s.next .filter = some { s with fd := [], subFdOpen := false } ∧
      Piped d [] ks { s with fd := [], subFdOpen := false } := by
  refine ⟨?_, { h with
    fd := rfl
    filtered := fun _ => ⟨hclosed, rfl⟩
    counted := fun n hn => ?_ }⟩
  · rw [State.next, if_pos hopen, h.fd, hclosed, wire_nil, fgetsPipe_end]
    rfl
  · exact absurd (hopen.symm.trans (h.counted n hn).2.1).symm Bool.false_ne_true

theorem terminated_ne_nil (l : List Byte) : terminated 10 l ≠ [] :=
  List.append_ne_nil_of_right_ne_nil l (List.cons_ne_nil 10 [])

theorem head_terminated (l : List Byte) :
    (terminated 10 l).head? = some 100 ↔ beginsWithD l = true := by
  cases l with
  | nil => decide
  | cons b l => simp [terminated, beginsWithD]

theorem Piped.filter_line (h : Piped d (l :: ls) ks s) (hopen : s.subFdOpen = true) :
    s.next .filter = some { s with
        fd := wire 10 ls
        subFd := if beginsWithD l then s.subFd ++ terminated 10 l else s.subFd } ∧
      Piped d ls (ks ++ [l].filter beginsWithD) { s with
        fd := wire 10 ls
        subFd := if beginsWithD l then s.subFd ++ terminated 10 l else s.subFd } := by
  have hl := h.isLine l List.mem_cons_self
  have hread := fgetsPipe_line hl.newline hl.short s.fdOpen ls
  have hstrlen : beforeTerminator 0 (terminated 10 l) = terminated 10 l := by
    apply beforeTerminator_eq_self
    rw [terminated, List.mem_append, not_or]
    exact ⟨hl.zero, by decide⟩
  have hsubFd : (if beginsWithD l then s.subFd ++ terminated 10 l else s.subFd) =
      wire 10 (ks ++ [l].filter beginsWithD) := by
    rw [wire_append, ← h.subFd]
    by_cases hd : beginsWithD l = true
    · rw [if_pos hd, List.filter_cons_of_pos hd, List.filter_nil, wire_cons]
      rfl
    · rw [if_neg hd, List.filter_cons_of_neg hd, List.filter_nil, wire_nil, List.append_nil]
  refine ⟨?_, { h with
    fd := rfl, subFd := hsubFd, isLine := ?_, filtered := ?_, counted := ?_, sum := ?_ }⟩
  · rw [State.next, if_pos hopen, h.fd, hread, Option.bind_eq_bind, Option.bind_some]
    dsimp only
    rw [if_neg (terminated_ne_nil l), hstrlen]
    by_cases hd : beginsWithD l = true
    · rw [if_pos ((head_terminated l).mpr hd), if_pos hd]
    · rw [if_neg (mt (head_terminated l).mp hd), if_neg hd]
  · intro l' hl'
    apply h.isLine
    rcases List.mem_append.mp hl' with hl' | hl'
    · exact List.mem_append_left ks (List.mem_cons_of_mem l hl')
    · rcases List.mem_append.mp hl' with hl' | hl'
      · exact List.mem_append_right (l :: ls) hl'
      · obtain rfl := List.mem_singleton.mp (List.mem_of_mem_filter hl')
        exact List.mem_cons_self
  · exact fun hclosed => absurd (hopen.symm.trans hclosed).symm Bool.false_ne_true
  · intro n hn
    exact absurd (hopen.symm.trans (h.counted n hn).2.1).symm Bool.false_ne_true
  · have hsum := h.sum
    rw [List.countP_cons] at hsum
    show s.numLines + (ks ++ [l].filter beginsWithD).length + ls.countP beginsWithD +
      (linesOf (DirectoryPipe.listed s.entries)).countP beginsWithD = d.total
    rw [List.length_append, ← List.countP_eq_length_filter, List.countP_singleton]
    omega

theorem Piped.count_end (h : Piped d ls [] s) (hprinted : s.printed = none)
    (hclosed : s.subFdOpen = false) :
    s.next .count = some { s with subFd := [], printed := some s.numLines } ∧
      Piped d ls [] { s with subFd := [], printed := some s.numLines } := by
  refine ⟨?_, { h with
    subFd := rfl
    counted := fun n hn => ⟨(Option.some.inj hn).symm, hclosed, rfl⟩ }⟩
  rw [State.next, if_pos hprinted, h.subFd, hclosed, wire_nil, fgetsPipe_end]
  rfl

theorem Piped.count_line (h : Piped d ls (l :: ks) s) (hprinted : s.printed = none)
    (hfits : s.numLines + 1 < 2 ^ 31) :
    s.next .count = some { s with subFd := wire 10 ks, numLines := s.numLines + 1 } ∧
      Piped d ls ks { s with subFd := wire 10 ks, numLines := s.numLines + 1 } := by
  have hl := h.isLine l (List.mem_append_right ls List.mem_cons_self)
  have hread := fgetsPipe_line hl.newline hl.short s.subFdOpen ks
  refine ⟨?_, { h with subFd := rfl, isLine := ?_, counted := ?_, fits := hfits, sum := ?_ }⟩
  · rw [State.next, if_pos hprinted, h.subFd, hread, Option.bind_eq_bind, Option.bind_some]
    dsimp only
    rw [if_neg (terminated_ne_nil l), if_pos hfits]
  · intro l' hl'
    apply h.isLine
    rcases List.mem_append.mp hl' with hl' | hl'
    · exact List.mem_append_left _ hl'
    · exact List.mem_append_right ls (List.mem_cons_of_mem l hl')
  · intro n hn
    exact absurd (hprinted.symm.trans hn).symm (Option.some_ne_none n)
  · have hsum := h.sum
    rw [List.length_cons] at hsum
    show s.numLines + 1 + ks.length + ls.countP beginsWithD +
      (linesOf (DirectoryPipe.listed s.entries)).countP beginsWithD = d.total
    omega

/-- **A step keeps what all lines come to.** -/
theorem Piped.step {a : Action} (h : Piped d ls ks s) (hnext : s.next a = some t) :
    ∃ ls' ks', Piped d ls' ks' t := by
  cases a with
  | list found =>
      by_cases hopen : s.fdOpen = true
      · cases hcwd : s.cwd with
        | none =>
            rw [State.next, if_pos hopen, hcwd] at hnext
            exact absurd hnext.symm (Option.some_ne_none t)
        | some cwd =>
            cases hentries : s.entries with
            | nil =>
                obtain ⟨heq, ht⟩ := h.list_end found hopen hcwd hentries
                exact ⟨_, _, Option.some.inj (heq.symm.trans hnext) ▸ ht⟩
            | cons e rest =>
                by_cases hfits : d.Fits e
                · cases hstat : e.lstatFails with
                  | true =>
                      obtain ⟨heq, ht⟩ := h.list_exit found hopen hcwd hentries hfits hstat
                      exact ⟨_, _, Option.some.inj (heq.symm.trans hnext) ▸ ht⟩
                  | false =>
                      obtain ⟨heq, ht⟩ := h.list_entry found hopen hcwd hentries hfits hstat
                      exact ⟨_, _, Option.some.inj (heq.symm.trans hnext) ▸ ht⟩
                · -- the name does not stay in the array
                  obtain rfl := Directory.cwd_eq_some (h.cwd.symm.trans hcwd)
                  rw [State.next, if_pos hopen, hcwd, hentries] at hnext
                  simp only [Option.bind_eq_bind, Option.bind_some,
                    entryPath_of_not_fits hfits, Option.bind_none] at hnext
                  exact absurd hnext.symm (Option.some_ne_none t)
      · rw [State.next, if_neg hopen] at hnext
        exact absurd hnext.symm (Option.some_ne_none t)
  | filter =>
      by_cases hopen : s.subFdOpen = true
      · cases ls with
        | nil =>
            cases hclosed : s.fdOpen with
            | false =>
                obtain ⟨heq, ht⟩ := h.filter_end hopen hclosed
                exact ⟨_, _, Option.some.inj (heq.symm.trans hnext) ▸ ht⟩
            | true =>
                -- the writer has the pipe open, so `fgets` waits
                rw [State.next, if_pos hopen, h.fd, hclosed, wire_nil,
                  fgetsPipe_wait (by decide)] at hnext
                exact absurd hnext.symm (Option.some_ne_none t)
        | cons l ls =>
            obtain ⟨heq, ht⟩ := h.filter_line hopen
            exact ⟨_, _, Option.some.inj (heq.symm.trans hnext) ▸ ht⟩
      · rw [State.next, if_neg hopen] at hnext
        exact absurd hnext.symm (Option.some_ne_none t)
  | count =>
      by_cases hprinted : s.printed = none
      · cases ks with
        | nil =>
            cases hclosed : s.subFdOpen with
            | false =>
                obtain ⟨heq, ht⟩ := h.count_end hprinted hclosed
                exact ⟨_, _, Option.some.inj (heq.symm.trans hnext) ▸ ht⟩
            | true =>
                rw [State.next, if_pos hprinted, h.subFd, hclosed, wire_nil,
                  fgetsPipe_wait (by decide)] at hnext
                exact absurd hnext.symm (Option.some_ne_none t)
        | cons l ks =>
            by_cases hfits : s.numLines + 1 < 2 ^ 31
            · obtain ⟨heq, ht⟩ := h.count_line hprinted hfits
              exact ⟨_, _, Option.some.inj (heq.symm.trans hnext) ▸ ht⟩
            · have hl := h.isLine l (List.mem_append_right ls List.mem_cons_self)
              rw [State.next, if_pos hprinted, h.subFd,
                fgetsPipe_line hl.newline hl.short, Option.bind_eq_bind, Option.bind_some] at hnext
              dsimp only at hnext
              rw [if_neg (terminated_ne_nil l), if_neg hfits] at hnext
              exact absurd hnext.symm (Option.some_ne_none t)
      · rw [State.next, if_neg hprinted] at hnext
        exact absurd hnext.symm (Option.some_ne_none t)

/-! ## §5  Every run -/

/-- The bytes that are still to be moved, each weighed by the number of moves. -/
def measure (s : State) : ℕ :=
  (s.entries.map fun e => 3 * (e.text.length + 2)).sum + s.fdOpen.toNat + 2 * s.fd.length +
    s.subFdOpen.toNat + s.subFd.length + (if s.printed = none then 1 else 0)

/-- As long as nothing is printed, one of the processes can go on. -/
theorem Piped.progress (h : Piped d ls ks s) (hcwd : d.cwd = some d.path)
    (hfit : ∀ e ∈ tried d.entries, d.Fits e) (htotal : d.total < 2 ^ 31)
    (hprinted : s.printed = none) :
    ∃ a t, s.next a = some t ∧ (∃ ls' ks', Piped d ls' ks' t) ∧ measure t < measure s := by
  cases hopen : s.fdOpen with
  | true =>
      have hcwd := h.cwd.trans hcwd
      cases hentries : s.entries with
      | nil =>
          obtain ⟨heq, ht⟩ := h.list_end (fun _ => 0) hopen hcwd hentries
          refine ⟨_, _, heq, ⟨_, _, ht⟩, ?_⟩
          simp [measure, hopen]
      | cons e rest =>
          have hfits : d.Fits e := by
            apply hfit e
            apply h.remaining
            rw [hentries, tried]
            exact List.mem_cons_self
          cases hstat : e.lstatFails with
          | true =>
              obtain ⟨heq, ht⟩ := h.list_exit (fun _ => 0) hopen hcwd hentries hfits hstat
              refine ⟨_, _, heq, ⟨_, _, ht⟩, ?_⟩
              simp [measure, hopen]
          | false =>
              obtain ⟨heq, ht⟩ := h.list_entry (fun _ => 0) hopen hcwd hentries hfits hstat
              refine ⟨_, _, heq, ⟨_, _, ht⟩, ?_⟩
              have hlength : (if e.IsDot then s.fd else s.fd ++ terminated 10 e.text).length ≤
                  s.fd.length + (e.text.length + 1) := by
                split_ifs
                · exact Nat.le_add_right _ _
                · rw [List.length_append, terminated, List.length_append, List.length_singleton]
              simp only [measure, hentries, List.map_cons, List.sum_cons]
              omega
  | false =>
      cases hsub : s.subFdOpen with
      | true =>
          cases ls with
          | nil =>
              obtain ⟨heq, ht⟩ := h.filter_end hsub hopen
              refine ⟨_, _, heq, ⟨_, _, ht⟩, ?_⟩
              simp [measure, hsub, h.fd]
          | cons l ls =>
              obtain ⟨heq, ht⟩ := h.filter_line hsub
              refine ⟨_, _, heq, ⟨_, _, ht⟩, ?_⟩
              have hlength : (if beginsWithD l then s.subFd ++ terminated 10 l
                  else s.subFd).length ≤ s.subFd.length + (l.length + 1) := by
                split_ifs
                · rw [List.length_append, terminated, List.length_append, List.length_singleton]
                · exact Nat.le_add_right _ _
              simp only [measure, h.fd, wire_cons, List.length_append, List.length_cons]
              omega
      | false =>
          cases ks with
          | nil =>
              obtain ⟨heq, ht⟩ := h.count_end hprinted hsub
              refine ⟨_, _, heq, ⟨_, _, ht⟩, ?_⟩
              simp [measure, hprinted, h.subFd]
          | cons l ks =>
              have hsum := h.sum
              rw [List.length_cons] at hsum
              obtain ⟨heq, ht⟩ := h.count_line hprinted (by omega)
              refine ⟨_, _, heq, ⟨_, _, ht⟩, ?_⟩
              simp only [measure, h.subFd, wire_cons, List.length_append, List.length_cons]
              omega

theorem run_piped {tr : List (State × Action)} (hrun : (pipeline d).Run tr s) :
    ∃ ls ks, Piped d ls ks s := by
  refine hrun.invariant (I := fun _ s => ∃ ls ks, Piped d ls ks s) ⟨[], [], piped_init d⟩ ?_
  rintro _ s a t ⟨ls, ks, h⟩ hnext
  exact h.step hnext

/-- Whatever the schedule has been, the number of directories can still be printed, and no
other number has been. -/
def Counts (d : Directory) : Prop :=
  ∀ tr s, (pipeline d).Run tr s →
    (∀ n, s.printed = some n → n = directories d.entries) ∧
      ∃ tr' t, (pipeline d).Path s tr' t ∧ t.printed = some (directories d.entries)

/-- **The pipeline counts the directories exactly if** the directory opens and its path fits
into the array, also with the name of each entry that is tried behind it, as many names begin
a further line with `d` as directories are missed, and the number is an int. -/
theorem counts_iff (d : Directory) :
    Counts d ↔ d.opens = true ∧ d.path.length < 2048 ∧ (∀ e ∈ tried d.entries, d.Fits e) ∧
      brokenLines (listed d.entries) = directories (missed d.entries) ∧
        directories d.entries < 2 ^ 31 := by
  have hsplit := directories_listed d.entries
  constructor
  · intro hcounts
    obtain ⟨-, tr, s, hrun, hprinted⟩ := hcounts [] _ .nil
    obtain ⟨ls, ks, h⟩ := run_piped hrun
    obtain ⟨hnum, hsub, -⟩ := h.counted _ hprinted
    obtain ⟨hclosed, -⟩ := h.filtered hsub
    obtain ⟨cwd, hcwd⟩ := Option.ne_none_iff_exists'.mp (h.opened hclosed)
    obtain ⟨⟨hopens, hpath⟩, -⟩ := Option.ite_none_right_eq_some.mp hcwd
    have hfitting : ∀ e ∈ tried d.entries, d.Fits e := fun e he =>
      (h.fitting e he).resolve_right fun hrest =>
        Bool.false_ne_true (hclosed.symm.trans hrest.1)
    have htotal : directories d.entries = d.total := h.printed hprinted
    have hfits := hnum ▸ h.fits
    rw [Directory.total] at htotal
    exact ⟨hopens, hpath, hfitting, by omega, hfits⟩
  · rintro ⟨hopens, hpath, hfitting, hbroken, hfits⟩ tr s hrun
    have hcwd : d.cwd = some d.path := if_pos ⟨hopens, hpath⟩
    have htotal : d.total = directories d.entries := by
      rw [Directory.total, hbroken, hsplit]
    refine ⟨?_, ?_⟩
    · intro n hn
      obtain ⟨ls, ks, h⟩ := run_piped hrun
      exact (h.printed hn).trans htotal
    · obtain ⟨tr', t, hpath, -, ⟨ls, ks, h⟩, hprinted⟩ :=
        System.exists_path_of_measure (M := pipeline d) (A := fun _ => True)
          (I := fun s => ∃ ls ks, Piped d ls ks s)
          (G := fun s => s.printed ≠ none) measure (fun s ⟨ls, ks, h⟩ hgoal => by
            obtain ⟨a, t, hnext, ht, hless⟩ :=
              h.progress hcwd hfitting (htotal ▸ hfits) (not_not.mp hgoal)
            exact ⟨a, t, trivial, hnext, ht, hless⟩) s (run_piped hrun)
      obtain ⟨n, hn⟩ := Option.ne_none_iff_exists'.mp hprinted
      exact ⟨tr', t, hpath, hn.trans (congrArg some ((h.printed hn).trans htotal))⟩

/-- A file whose name is `x`, a newline and `d`. -/
def brokenName : DirEntry where
  dName := [120, 10, 100]
  stat := ⟨0x81A4, 5⟩
  lstatFails := false
  no_nul := by decide
  length_le := by decide

/-- `/t` with this file and nothing else. -/
def oneFile : Directory where
  path := [47, 116]
  opens := true
  entries := [brokenName]

/-- One file and no directory, and the number 1. -/
theorem second_line_is_counted :
    (∃ tr s, (pipeline oneFile).Run tr s ∧ s.printed = some 1) ∧
      directories oneFile.entries = 0 ∧ ¬Counts oneFile := by
  have hreplay : ((pipeline oneFile).replay [.list fun _ => 0, .list fun _ => 0, .filter,
      .filter, .filter, .count, .count]).map (fun r => r.2.printed) = some (some 1) := by
    decide +kernel
  obtain ⟨⟨tr, s⟩, hrun, hprinted⟩ := Option.map_eq_some_iff.mp hreplay
  have hrun := (pipeline oneFile).run_of_replay _ hrun
  refine ⟨⟨tr, s, hrun, hprinted⟩, by decide, fun hcounts => ?_⟩
  have hone := (hcounts tr s hrun).1 1 hprinted
  exact absurd hone (by decide)

end Sysopy.DirectoryPipe
