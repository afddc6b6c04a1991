import Sysopy.FileCounter.Program

/-!
# Runs of the file counter

What a run of the loop says about its entries, one lemma for each kind of entry, and what
a process does after the loop. A run exists when no path leaves its buffer.

## Sections

* §1 the waits and the end of a process
* §2 one lemma for each kind of entry
* §3 when a run exists
-/

namespace Sysopy.FileCounter

open Foundation

variable {mode : Mode} {path name behind full : List Byte} {vars : Vars} {scan : Scan}
  {opens : Bool} {dir inside clone rest : Entries} {child : Process} {below : Forest Process}

/-! ## §1  The waits and the end of a process -/

theorem collect_cons (n s status : ℕ) (waited : List ℕ) (childFiles : ℤ) :
    collect (n + 1) (s :: waited) status childFiles =
      collect n waited s (addInt childFiles (wexitstatus s)) :=
  if_neg (wexitstatus_ne_neg_one s)

theorem collect_nil (n status : ℕ) (childFiles : ℤ) :
    collect (n + 1) [] status childFiles =
      collect n [] status (addInt childFiles (wexitstatus status)) :=
  if_neg (wexitstatus_ne_neg_one status)

/-- The `exit(-1)` among the waits is never reached: no status has the value -1. -/
theorem collect_isSome (n : ℕ) : ∀ (waited : List ℕ) (status : ℕ) (childFiles : ℤ),
    ∃ sum, collect n waited status childFiles = some sum := by
  induction n with
  | zero => exact fun _ _ childFiles => ⟨childFiles, rfl⟩
  | succ n ih =>
      intro waited status childFiles
      cases waited with
      | nil => rw [collect_nil]; exact ih _ _ _
      | cons s waited => rw [collect_cons]; exact ih _ _ _

/-- A process that waits for all its children adds up what `WEXITSTATUS` gives it. -/
theorem collect_modEq {sum : ℤ} : ∀ (waited : List ℕ) (status : ℕ) (childFiles : ℤ),
    collect waited.length waited status childFiles = some sum →
      sum ≡ childFiles + (waited.map wexitstatus).sum [ZMOD 2 ^ 32] := by
  intro waited
  induction waited with
  | nil =>
      intro status childFiles h
      obtain rfl : childFiles = sum := Option.some.inj h
      rw [List.map_nil, List.sum_nil, add_zero]
  | cons s waited ih =>
      intro status childFiles h
      rw [List.length_cons, collect_cons] at h
      refine (ih s _ h).trans ?_
      rw [List.map_cons, List.sum_cons, ← add_assoc]
      exact (addInt_modEq _ _).add_right _

theorem finish_of_none (h : scan.last = none) :
    finish mode path dir scan = ⟨dir, scan.vars.said, .failure⟩ := by
  unfold finish
  rw [h]

/-- A process that reaches the waits prints its total and ends with it. -/
theorem finish_of_some {order : WaitOrder} {status : ℕ} (h : scan.last = some (order, status)) :
    ∃ childFiles, collect scan.vars.numProcesses
        (order.arrange (scan.children.roots.map Process.status)) status 0 = some childFiles ∧
      finish mode path dir scan = ⟨dir, scan.vars.said ++ (if mode.shouldLog then
          [.total path scan.vars.numFiles (addInt scan.vars.numFiles childFiles)] else []),
        .files (addInt scan.vars.numFiles childFiles)⟩ := by
  obtain ⟨childFiles, hc⟩ := collect_isSome scan.vars.numProcesses
    (order.arrange (scan.children.roots.map Process.status)) status 0
  refine ⟨childFiles, hc, ?_⟩
  unfold finish
  rw [h]
  dsimp only
  rw [hc]

/-! ## §2  One lemma for each kind of entry -/

def FitsName (path name : List Byte) : Prop := path.length + 1 + name.length + 1 ≤ 1024

theorem entryPath_eq_some_iff :
    entryPath path name = some full ↔ FitsName path name ∧ path ++ slash :: name = full := by
  unfold entryPath FitsName
  split
  · rename_i h
    rw [Option.some.injEq]
    exact (and_iff_right h).symm
  · rename_i h
    exact iff_of_false nofun fun hf => h hf.1

theorem bind_entryPath_iff {f : List Byte → Option Scan} :
    (entryPath path name).bind f = some scan ↔
      FitsName path name ∧ f (path ++ slash :: name) = some scan := by
  rw [Option.bind_eq_some_iff]
  simp only [entryPath_eq_some_iff, and_assoc, exists_and_left, exists_eq_left']

theorem map_entryPath_iff {f : List Byte → Scan} :
    (entryPath path name).map f = some scan ↔
      FitsName path name ∧ scan = f (path ++ slash :: name) := by
  rw [Option.map_eq_bind, bind_entryPath_iff, Function.comp_apply, Option.some.injEq]
  exact and_congr_right fun _ => eq_comm

theorem readLoop_done_iff {order : WaitOrder} {status : ℕ} :
    readLoop (.done order status) mode path vars = some scan ↔
      scan = ⟨vars, some (order, status), .nil⟩ := by
  rw [readLoop, Option.some.injEq]
  exact eq_comm

theorem readLoop_file_iff :
    readLoop (.file name rest) mode path vars = some scan ↔ FitsName path name ∧
      readLoop rest mode path { vars with numFiles := addInt vars.numFiles 1 } = some scan :=
  bind_entryPath_iff

theorem readLoop_other_iff :
    readLoop (.other name rest) mode path vars = some scan ↔
      FitsName path name ∧ readLoop rest mode path vars = some scan :=
  bind_entryPath_iff

theorem readLoop_lstatFails_iff :
    readLoop (.lstatFails name) mode path vars = some scan ↔ FitsName path name ∧
      scan = ⟨{ vars with said := vars.said ++ [.cannotRead (path ++ slash :: name) name] },
        none, .nil⟩ :=
  map_entryPath_iff

theorem readLoop_forkFails_iff :
    readLoop (.forkFails name) mode path vars = some scan ↔ FitsName path name ∧
      scan = ⟨⟨vars.numFiles, vars.numProcesses + 1,
        vars.said ++ [.forkingError (path ++ slash :: name)]⟩, none, .nil⟩ :=
  map_entryPath_iff

/-- How a child that executes the program ends, and what it starts: it does not accept its
options, it cannot open its directory, or it reads it. -/
inductive Started (mode : Mode) (full behind : List Byte) (inside : Entries) :
    Bool → Process → Forest Process → Prop
  | usage {opens : Bool} : ¬Starts mode behind →
      Started mode full behind inside opens ⟨inside, [.usage], .usage⟩ .nil
  | notADir : Starts mode behind →
      Started mode full behind inside false ⟨inside, [.notADir full], .failure⟩ .nil
  | reads {own : Scan} : Starts mode behind → readLoop inside mode full .start = some own →
      Started mode full behind inside true (finish mode full inside own) own.children

theorem mainOn_iff {args : List (List Byte)} (hargs : arguments args = some (mode, path))
    (hs : Starts mode behind) (hlen : path.length + 1 ≤ 1024) :
    mainOn args opens dir (fun mode path => readLoop dir mode path .start) =
        some (child, below) ↔
      Started mode path behind dir opens child below := by
  unfold mainOn
  rw [hargs]
  dsimp only
  rw [if_pos hlen]
  cases opens with
  | false =>
      rw [if_neg Bool.false_ne_true, Option.some.injEq, Prod.mk.injEq]
      constructor
      · rintro ⟨rfl, rfl⟩
        exact .notADir hs
      · rintro (hn | _)
        · exact absurd hs hn
        · exact ⟨rfl, rfl⟩
  | true =>
      rw [if_pos rfl, Option.map_eq_some_iff]
      constructor
      · rintro ⟨own, hown, hchild⟩
        obtain ⟨rfl, rfl⟩ := Prod.mk.inj hchild
        exact .reads hs hown
      · rintro (hn | _ | ⟨_, hown⟩)
        · exact absurd hs hn
        · exact ⟨_, hown, rfl⟩

theorem mainOn_execArgs_iff (hfits : FitsName path name) :
    mainOn (execArgs mode behind (path ++ slash :: name)) opens inside
        (fun mode path => readLoop inside mode path .start) = some (child, below) ↔
      Started mode (path ++ slash :: name) behind inside opens child below := by
  by_cases hs : Starts mode behind
  · refine mainOn_iff (arguments_execArgs_of_starts hs _) hs ?_
    rw [List.length_append, List.length_cons]
    unfold FitsName at hfits
    omega
  · unfold mainOn
    rw [arguments_execArgs_of_not_starts hs, Option.some.injEq, Prod.mk.injEq]
    constructor
    · rintro ⟨rfl, rfl⟩
      exact .usage hs
    · rintro (_ | hs' | ⟨hs', _⟩)
      · exact ⟨rfl, rfl⟩
      · exact absurd hs' hs
      · exact absurd hs' hs

/-- The first process is like a child with a NUL behind its options. -/
theorem main_iff {args : List (List Byte)} (hargs : arguments args = some (mode, path)) :
    main args opens dir = some (child, below) ↔
      path.length + 1 ≤ 1024 ∧ Started mode path [] dir opens child below := by
  by_cases hlen : path.length + 1 ≤ 1024
  · exact (mainOn_iff hargs (fun _ => rfl) hlen).trans (and_iff_right hlen).symm
  · refine iff_of_false ?_ fun h => hlen h.1
    unfold main mainOn
    rw [hargs]
    dsimp only
    rw [if_neg hlen]
    exact nofun

theorem readLoop_directory_iff :
    readLoop (.directory name behind opens inside rest) mode path vars = some scan ↔
      FitsName path name ∧ ∃ child below,
        Started mode (path ++ slash :: name) behind inside opens child below ∧ ∃ tail,
          readLoop rest mode path { vars with numProcesses := vars.numProcesses + 1 } =
            some tail ∧
          scan = { tail with children := .cons child below tail.children } := by
  rw [readLoop, bind_entryPath_iff]
  refine and_congr_right fun hfits => ?_
  constructor
  · intro h
    obtain ⟨⟨child, below⟩, hchild, h⟩ := Option.bind_eq_some_iff.mp h
    obtain ⟨tail, htail, rfl⟩ := Option.map_eq_some_iff.mp h
    exact ⟨child, below, (mainOn_execArgs_iff hfits).mp hchild, tail, htail, rfl⟩
  · rintro ⟨child, below, hchild, tail, htail, rfl⟩
    refine Option.bind_eq_some_iff.mpr
      ⟨(child, below), (mainOn_execArgs_iff hfits).mpr hchild, ?_⟩
    exact Option.map_eq_some_iff.mpr ⟨tail, htail, rfl⟩

theorem readLoop_execFails_iff :
    readLoop (.execFails name clone rest) mode path vars = some scan ↔
      FitsName path name ∧ ∃ own,
        readLoop clone mode path ⟨vars.numFiles, vars.numProcesses + 1, [.execlError]⟩ =
          some own ∧ ∃ tail,
          readLoop rest mode path { vars with numProcesses := vars.numProcesses + 1 } =
            some tail ∧
          scan = { tail with
            children := .cons (finish mode path clone own) own.children tail.children } := by
  rw [readLoop, bind_entryPath_iff]
  refine and_congr_right fun _ => Option.bind_eq_some_iff.trans ?_
  refine exists_congr fun own => and_congr_right fun _ => Option.map_eq_some_iff.trans ?_
  exact exists_congr fun tail => and_congr_right fun _ => eq_comm

/-! ## §3  When a run exists -/

/-- No path leaves the buffer of a process that reads these entries or is started for one
of them. -/
def Entries.Fits (mode : Mode) : Entries → List Byte → Prop
  | .done _ _, _ => True
  | .file name rest, path => FitsName path name ∧ rest.Fits mode path
  | .other name rest, path => FitsName path name ∧ rest.Fits mode path
  | .lstatFails name, path => FitsName path name
  | .forkFails name, path => FitsName path name
  | .directory name behind opens inside rest, path =>
    FitsName path name ∧
      (Starts mode behind → opens = true → inside.Fits mode (path ++ slash :: name)) ∧
      rest.Fits mode path
  | .execFails name clone rest, path =>
    FitsName path name ∧ clone.Fits mode path ∧ rest.Fits mode path

instance : Decidable (FitsName path name) := inferInstanceAs (Decidable (_ ≤ _))

instance decidableFits (mode : Mode) :
    ∀ (e : Entries) (path : List Byte), Decidable (e.Fits mode path)
  | .done _ _, _ => inferInstanceAs (Decidable True)
  | .file name rest, path =>
    haveI := decidableFits mode rest path
    inferInstanceAs (Decidable (FitsName path name ∧ rest.Fits mode path))
  | .other name rest, path =>
    haveI := decidableFits mode rest path
    inferInstanceAs (Decidable (FitsName path name ∧ rest.Fits mode path))
  | .lstatFails name, path => inferInstanceAs (Decidable (FitsName path name))
  | .forkFails name, path => inferInstanceAs (Decidable (FitsName path name))
  | .directory name behind opens inside rest, path =>
    haveI := decidableFits mode inside (path ++ slash :: name)
    haveI := decidableFits mode rest path
    inferInstanceAs (Decidable (FitsName path name ∧
      (Starts mode behind → opens = true → inside.Fits mode (path ++ slash :: name)) ∧
      rest.Fits mode path))
  | .execFails name clone rest, path =>
    haveI := decidableFits mode clone path
    haveI := decidableFits mode rest path
    inferInstanceAs (Decidable (FitsName path name ∧ clone.Fits mode path ∧
      rest.Fits mode path))

theorem exists_started_iff :
    (∃ child below, Started mode full behind inside opens child below) ↔
      (Starts mode behind → opens = true →
        ∃ own, readLoop inside mode full .start = some own) := by
  constructor
  · rintro ⟨child, below, hn | _ | ⟨_, hown⟩⟩ hs ho
    · exact absurd hs hn
    · cases ho
    · exact ⟨_, hown⟩
  · intro h
    by_cases hs : Starts mode behind
    · cases opens with
      | false => exact ⟨_, _, .notADir hs⟩
      | true =>
          obtain ⟨own, hown⟩ := h hs rfl
          exact ⟨_, _, .reads hs hown⟩
    · exact ⟨_, _, .usage hs⟩

theorem exists_readLoop_iff (e : Entries) : ∀ (path : List Byte) (vars : Vars),
    (∃ scan, readLoop e mode path vars = some scan) ↔ e.Fits mode path := by
  induction e with
  | done order status => exact fun _ _ => iff_of_true ⟨_, rfl⟩ trivial
  | file name rest ih =>
      intro path vars
      simp only [readLoop_file_iff, exists_and_left, ih]
      rfl
  | other name rest ih =>
      intro path vars
      simp only [readLoop_other_iff, exists_and_left, ih]
      rfl
  | lstatFails name =>
      intro path vars
      simp only [readLoop_lstatFails_iff, exists_and_left, exists_eq, and_true]
      rfl
  | forkFails name =>
      intro path vars
      simp only [readLoop_forkFails_iff, exists_and_left, exists_eq, and_true]
      rfl
  | directory name behind opens inside rest ihinside ihrest =>
      intro path vars
      constructor
      · rintro ⟨scan, h⟩
        obtain ⟨hfits, child, below, hchild, tail, htail, -⟩ := readLoop_directory_iff.mp h
        have hinside := exists_started_iff.mp ⟨child, below, hchild⟩
        exact ⟨hfits, fun hs ho => (ihinside _ _).mp (hinside hs ho),
          (ihrest path _).mp ⟨tail, htail⟩⟩
      · rintro ⟨hfits, hinside, hrest⟩
        obtain ⟨child, below, hchild⟩ :=
          exists_started_iff.mpr fun hs ho => (ihinside _ _).mpr (hinside hs ho)
        obtain ⟨tail, htail⟩ := (ihrest path _).mpr hrest
        exact ⟨_, readLoop_directory_iff.mpr
          ⟨hfits, child, below, hchild, tail, htail, rfl⟩⟩
  | execFails name clone rest ihclone ihrest =>
      intro path vars
      constructor
      · rintro ⟨scan, h⟩
        obtain ⟨hfits, own, hown, tail, htail, -⟩ := readLoop_execFails_iff.mp h
        exact ⟨hfits, (ihclone path _).mp ⟨own, hown⟩, (ihrest path _).mp ⟨tail, htail⟩⟩
      · rintro ⟨hfits, hclone, hrest⟩
        obtain ⟨own, hown⟩ := (ihclone path _).mpr hclone
        obtain ⟨tail, htail⟩ := (ihrest path _).mpr hrest
        exact ⟨_, readLoop_execFails_iff.mpr ⟨hfits, own, hown, tail, htail, rfl⟩⟩

end Sysopy.FileCounter
