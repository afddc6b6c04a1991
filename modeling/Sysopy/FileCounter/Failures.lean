import Sysopy.FileCounter.Runs

/-!
# How the file counter reports failures

A process that meets a failing call ends with `exit(-1)`, and its parent is to recognise
that by a `WEXITSTATUS` of -1. No status has that value, so the parent counts 255 files
instead and goes on. A process ends with a failure only for a failing call of its own.

## Sections

* §1 where calls fail
* §2 the end of a loop
* §3 failed processes
* §4 failures are reported
-/

namespace Sysopy.FileCounter

open Foundation

variable {mode : Mode} {path name behind full : List Byte} {vars : Vars} {scan : Scan}
  {opens : Bool} {dir inside e : Entries} {child : Process} {below : Forest Process}

/-! ## §1  Where calls fail -/

namespace Entries

/-- The process that reads the entries meets a failing `lstat` or `fork` itself. -/
def Fails : Entries → Prop
  | done _ _ => False
  | file _ rest => rest.Fails
  | other _ rest => rest.Fails
  | lstatFails _ => True
  | forkFails _ => True
  | directory _ _ _ _ rest => rest.Fails
  | execFails _ _ rest => rest.Fails

/-- A process started for one of the entries fails, or one below it: it is started and its
directory cannot be opened or has a failing call, or its `execl` fails. -/
def Broken (mode : Mode) : Entries → Prop
  | done _ _ => False
  | file _ rest => rest.Broken mode
  | other _ rest => rest.Broken mode
  | lstatFails _ => False
  | forkFails _ => False
  | directory _ behind opens inside rest =>
    (Starts mode behind ∧ (opens = true → inside.Fails)) ∨
      (Starts mode behind ∧ opens = true ∧ inside.Broken mode) ∨ rest.Broken mode
  | execFails _ _ _ => True

/-- A process fails that is below one of those started for the entries. -/
def Deep (mode : Mode) : Entries → Prop
  | done _ _ => False
  | file _ rest => rest.Deep mode
  | other _ rest => rest.Deep mode
  | lstatFails _ => False
  | forkFails _ => False
  | directory _ behind opens inside rest =>
    (Starts mode behind ∧ opens = true ∧ inside.Broken mode) ∨ rest.Deep mode
  | execFails _ clone rest => clone.Broken mode ∨ rest.Deep mode

end Entries

/-! ## §2  The end of a loop -/

/-- A loop is left with a message after a failing call, or it comes to the waits and has
printed nothing. -/
theorem readLoop_end (e : Entries) : ∀ (vars : Vars) (scan : Scan),
    readLoop e mode path vars = some scan →
      (e.Fails ∧ scan.last = none ∧
        ∃ m, m.isError = true ∧ scan.vars.said = vars.said ++ [m]) ∨
      (¬e.Fails ∧ (∃ order status, scan.last = some (order, status)) ∧
        scan.vars.said = vars.said) := by
  induction e with
  | done order status =>
      intro vars scan h
      obtain rfl := readLoop_done_iff.mp h
      exact .inr ⟨id, ⟨order, status, rfl⟩, rfl⟩
  | file name rest ih =>
      intro vars scan h
      have hrest := ih _ _ (readLoop_file_iff.mp h).2
      exact hrest
  | other name rest ih => exact fun _ _ h => ih _ _ (readLoop_other_iff.mp h).2
  | lstatFails name =>
      intro vars scan h
      obtain ⟨-, rfl⟩ := readLoop_lstatFails_iff.mp h
      exact .inl ⟨trivial, rfl, _, rfl, rfl⟩
  | forkFails name =>
      intro vars scan h
      obtain ⟨-, rfl⟩ := readLoop_forkFails_iff.mp h
      exact .inl ⟨trivial, rfl, _, rfl, rfl⟩
  | directory name behind opens inside rest _ ihrest =>
      intro vars scan h
      obtain ⟨-, child, below, -, tail, htail, rfl⟩ := readLoop_directory_iff.mp h
      have hrest := ihrest _ _ htail
      exact hrest
  | execFails name clone rest _ ihrest =>
      intro vars scan h
      obtain ⟨-, own, -, tail, htail, rfl⟩ := readLoop_execFails_iff.mp h
      have hrest := ihrest _ _ htail
      exact hrest

def Process.Silent (p : Process) : Prop :=
  ∀ path numFiles all, Message.total path numFiles all ∉ p.said

/-- A process ends with a failure exactly when a call of its own loop fails. -/
theorem finish_ended_iff (h : readLoop dir mode path vars = some scan) :
    (finish mode path dir scan).ended = .failure ↔ dir.Fails := by
  rcases readLoop_end dir vars scan h with ⟨hfails, hlast, -⟩ | ⟨hfails, ⟨_, _, hlast⟩, -⟩
  · rw [finish_of_none hlast]
    exact iff_of_true rfl hfails
  · obtain ⟨childFiles, -, hfinish⟩ := finish_of_some hlast
    rw [hfinish]
    exact iff_of_false nofun hfails

theorem finish_silent (h : readLoop dir mode path .start = some scan) (hfails : dir.Fails) :
    (finish mode path dir scan).Silent := by
  rcases readLoop_end dir .start scan h with ⟨-, hlast, m, hm, hsaid⟩ | ⟨hnot, -⟩
  · intro path' numFiles all hmem
    rw [finish_of_none hlast, hsaid] at hmem
    cases List.mem_singleton.mp hmem
    cases hm
  · exact absurd hfails hnot

/-- A process has failed if its loop was left, or if it had failed before. -/
theorem finish_failed_iff (h : readLoop dir mode path vars = some scan) :
    (finish mode path dir scan).Failed ↔
      vars.said.any Message.isError = true ∨ dir.Fails := by
  unfold Process.Failed
  rcases readLoop_end dir vars scan h with
    ⟨hfails, hlast, m, hm, hsaid⟩ | ⟨hfails, ⟨_, _, hlast⟩, hsaid⟩
  · rw [finish_of_none hlast]
    dsimp only
    rw [hsaid, List.any_append, Bool.or_eq_true]
    refine or_congr Iff.rfl (iff_of_true ?_ hfails)
    rw [List.any_cons, hm, Bool.true_or]
  · obtain ⟨childFiles, -, hfinish⟩ := finish_of_some hlast
    rw [hfinish]
    dsimp only
    rw [hsaid, List.any_append, Bool.or_eq_true]
    refine or_congr Iff.rfl (iff_of_false ?_ hfails)
    cases mode.shouldLog <;> exact Bool.false_ne_true

/-! ## §3  Failed processes -/

theorem Started.failed_iff (h : Started mode full behind inside opens child below) :
    child.Failed ↔ Starts mode behind ∧ (opens = true → inside.Fails) := by
  rcases h with hn | hs | ⟨hs, hown⟩
  · exact iff_of_false Bool.false_ne_true fun h => hn h.1
  · exact iff_of_true rfl ⟨hs, nofun⟩
  · refine (finish_failed_iff hown).trans ?_
    exact ⟨fun h => ⟨hs, fun _ => h.resolve_left Bool.false_ne_true⟩, fun h => .inr (h.2 rfl)⟩

theorem Started.some_below_iff (h : Started mode full behind inside opens child below)
    (hinside : ∀ own, readLoop inside mode full .start = some own →
      (own.children.Some Process.Failed ↔ inside.Broken mode)) :
    below.Some Process.Failed ↔ Starts mode behind ∧ opens = true ∧ inside.Broken mode := by
  rcases h with hn | hs | ⟨hs, hown⟩
  · exact iff_of_false id fun h => hn h.1
  · exact iff_of_false id fun h => Bool.false_ne_true h.2.1
  · refine (hinside _ hown).trans ?_
    exact ⟨fun h => ⟨hs, rfl, h⟩, fun h => h.2.2⟩

/-- The failed processes below a loop are those of its broken entries. -/
theorem some_failed_iff (e : Entries) : ∀ (path : List Byte) (vars : Vars) (scan : Scan),
    readLoop e mode path vars = some scan →
      (scan.children.Some Process.Failed ↔ e.Broken mode) := by
  induction e with
  | done order status =>
      intro path vars scan h
      obtain rfl := readLoop_done_iff.mp h
      exact Iff.rfl
  | file name rest ih => exact fun _ _ _ h => ih _ _ _ (readLoop_file_iff.mp h).2
  | other name rest ih => exact fun _ _ _ h => ih _ _ _ (readLoop_other_iff.mp h).2
  | lstatFails name =>
      intro path vars scan h
      obtain ⟨-, rfl⟩ := readLoop_lstatFails_iff.mp h
      exact Iff.rfl
  | forkFails name =>
      intro path vars scan h
      obtain ⟨-, rfl⟩ := readLoop_forkFails_iff.mp h
      exact Iff.rfl
  | directory name behind opens inside rest ihinside ihrest =>
      intro path vars scan h
      obtain ⟨-, child, below, hchild, tail, htail, rfl⟩ := readLoop_directory_iff.mp h
      exact or_congr hchild.failed_iff (or_congr
        (hchild.some_below_iff fun own => ihinside _ _ own) (ihrest _ _ _ htail))
  | execFails name clone rest _ _ =>
      intro path vars scan h
      obtain ⟨-, own, hown, tail, -, rfl⟩ := readLoop_execFails_iff.mp h
      exact iff_of_true (.inl ((finish_failed_iff hown).mpr (.inl rfl))) trivial

theorem below_failed_iff (e : Entries) : ∀ (path : List Byte) (vars : Vars) (scan : Scan),
    readLoop e mode path vars = some scan →
      (scan.children.Below Process.Failed ↔ e.Deep mode) := by
  induction e with
  | done order status =>
      intro path vars scan h
      obtain rfl := readLoop_done_iff.mp h
      exact Iff.rfl
  | file name rest ih => exact fun _ _ _ h => ih _ _ _ (readLoop_file_iff.mp h).2
  | other name rest ih => exact fun _ _ _ h => ih _ _ _ (readLoop_other_iff.mp h).2
  | lstatFails name =>
      intro path vars scan h
      obtain ⟨-, rfl⟩ := readLoop_lstatFails_iff.mp h
      exact Iff.rfl
  | forkFails name =>
      intro path vars scan h
      obtain ⟨-, rfl⟩ := readLoop_forkFails_iff.mp h
      exact Iff.rfl
  | directory name behind opens inside rest _ ihrest =>
      intro path vars scan h
      obtain ⟨-, child, below, hchild, tail, htail, rfl⟩ := readLoop_directory_iff.mp h
      exact or_congr (hchild.some_below_iff fun own => some_failed_iff inside _ _ own)
        (ihrest _ _ _ htail)
  | execFails name clone rest _ ihrest =>
      intro path vars scan h
      obtain ⟨-, own, hown, tail, htail, rfl⟩ := readLoop_execFails_iff.mp h
      exact or_congr (some_failed_iff clone _ _ _ hown) (ihrest _ _ _ htail)

/-! ## §4  Failures are reported -/

/-- The process ends so that its parent recognises a failure, and prints no total. -/
def Process.Recognised (p : Process) : Prop := wexitstatus p.status = -1 ∧ p.Silent

/-- The run ends, and if a process fails, every process above it ends with a failure that
its parent recognises and prints no total. The first process has no parent in the program;
it ends with `exit(-1)`. -/
def Reports (args : List (List Byte)) (opens : Bool) (dir : Entries) : Prop :=
  ∃ root children, main args opens dir = some (root, children) ∧
    (children.Some Process.Failed → root.ended = .failure ∧ root.Silent) ∧
    children.Each fun p below => below.Some Process.Failed → p.Recognised

/-- No parent recognises a failure, so there must be none below another process. -/
theorem each_recognised_iff {f : Forest Process} :
    (f.Each fun p below => below.Some Process.Failed → p.Recognised) ↔
      ¬f.Below Process.Failed := by
  rw [← Forest.each_not_some_iff]
  constructor
  · exact fun h => h.imp fun p _ hp hsome => wexitstatus_ne_neg_one p.status (hp hsome).1
  · exact fun h => h.imp fun _ _ hp hsome => absurd hsome hp

/-- What the first process and its children do about failures, from the directory. -/
theorem reports_scan_iff (h : readLoop dir mode path .start = some scan) :
    ((scan.children.Some Process.Failed →
        (finish mode path dir scan).ended = .failure ∧ (finish mode path dir scan).Silent) ∧
      scan.children.Each fun p below => below.Some Process.Failed → p.Recognised) ↔
    ¬dir.Deep mode ∧ (dir.Broken mode → dir.Fails) := by
  rw [each_recognised_iff, below_failed_iff dir _ _ _ h, some_failed_iff dir _ _ _ h,
    finish_ended_iff h, and_comm]
  refine and_congr_right fun _ => forall_congr' fun _ => ?_
  exact ⟨fun h => h.1, fun hfails => ⟨hfails, finish_silent h hfails⟩⟩

theorem reports_cases {args : List (List Byte)} (hargs : arguments args = some (mode, path))
    (h : Reports args true dir) :
    dir.Fits mode path ∧ ¬dir.Deep mode ∧ (dir.Broken mode → dir.Fails) := by
  obtain ⟨root, children, hmain, hreports⟩ := h
  rcases ((main_iff hargs).mp hmain).2 with hn | _ | ⟨_, hscan⟩
  · exact absurd (fun _ => rfl) hn
  · exact ⟨(exists_readLoop_iff dir path _).mp ⟨_, hscan⟩, (reports_scan_iff hscan).mp hreports⟩

/-- **Only the failures next to the first process are reported.** The run reports its
failures exactly when every path fits its buffer, no process below a child of the first
process fails, and a child of it fails only if a call of the first process fails too. -/
theorem reports_iff_next_to_own {args : List (List Byte)}
    (hargs : arguments args = some (mode, path)) :
    Reports args opens dir ↔ path.length + 1 ≤ 1024 ∧
      (opens = true →
        dir.Fits mode path ∧ ¬dir.Deep mode ∧ (dir.Broken mode → dir.Fails)) := by
  constructor
  · intro h
    obtain ⟨_, _, hmain, -⟩ := id h
    refine ⟨((main_iff hargs).mp hmain).1, ?_⟩
    rintro rfl
    exact reports_cases hargs h
  · rintro ⟨hlen, h⟩
    cases opens with
    | false =>
        exact ⟨_, _, (main_iff hargs).mpr ⟨hlen, .notADir fun _ => rfl⟩, nofun, trivial⟩
    | true =>
        obtain ⟨hfits, hreports⟩ := h rfl
        obtain ⟨scan, hscan⟩ := (exists_readLoop_iff dir path .start).mpr hfits
        exact ⟨_, _, (main_iff hargs).mpr ⟨hlen, .reads (fun _ => rfl) hscan⟩,
          (reports_scan_iff hscan).mpr hreports⟩

/-- A subdirectory that cannot be opened, and a second entry whose `lstat` fails. -/
def closedThenUnknown : Entries :=
  .directory [letterV] [] false (.done .asStarted 0) (.lstatFails [letterW])

theorem reports_closedThenUnknown :
    Reports [[dash, letterV], [letterW]] true closedThenUnknown :=
  (reports_iff_next_to_own rfl).mpr
    ⟨by decide, fun _ => ⟨by decide,
      fun h => h.elim (fun h => Bool.false_ne_true h.2.1) id, fun _ => trivial⟩⟩

/-- A subdirectory that cannot be opened. -/
def closedOnly : Entries :=
  .directory [letterV] [] false (.done .asStarted 0) (.done .asStarted 0)

/-- The child that cannot open its directory is counted as 255 files. -/
theorem not_reports_closedOnly :
    (∃ root children, main [[dash, letterV], [letterW]] true closedOnly =
      some (root, children) ∧ root.said = [.total [letterW] 0 255]) ∧
    ¬Reports [[dash, letterV], [letterW]] true closedOnly := by
  have hargs : arguments [[dash, letterV], [letterW]] = some (⟨false, true⟩, [letterW]) := rfl
  refine ⟨⟨_, _, rfl, rfl⟩, fun h => ?_⟩
  obtain ⟨-, -, hbroken⟩ := reports_cases hargs h
  exact hbroken (.inl ⟨nofun, nofun⟩)

end Sysopy.FileCounter
