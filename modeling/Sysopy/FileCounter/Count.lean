import Sysopy.FileCounter.Runs

/-!
# What the file counter counts

The total of a process is the number of regular files under its directory, as long as
every process below it gives its parent the number it has counted. It gives only the low
eight bits of it, so the whole tree is counted exactly when no subdirectory holds more than
255 regular files.

## Sections

* §1 directories without failing calls
* §2 exact processes
* §3 the sum of a loop
* §4 small subdirectories
* §5 the counter counts
-/

namespace Sysopy.FileCounter

open Foundation

variable {mode : Mode} {path name behind full : List Byte} {vars : Vars} {scan : Scan}
  {opens : Bool} {dir inside e : Entries} {child : Process} {below : Forest Process}

/-! ## §1  Directories without failing calls -/

namespace Entries

def count : Entries → ℕ
  | done _ _ => 0
  | file _ rest => rest.count + 1
  | other _ rest => rest.count
  | lstatFails _ => 0
  | forkFails _ => 0
  | directory _ _ _ inside rest => inside.count + rest.count
  | execFails _ _ rest => rest.count

/-- No call fails, in the process that reads the directory or below it. -/
def Clean : Entries → Prop
  | done _ _ => True
  | file _ rest => rest.Clean
  | other _ rest => rest.Clean
  | lstatFails _ => False
  | forkFails _ => False
  | directory _ _ opens inside rest => opens = true ∧ inside.Clean ∧ rest.Clean
  | execFails _ _ _ => False

/-- Every subdirectory with a running process has at most 255 regular files below it. One
whose process does not accept its options has one regular file: the status of `usage`. -/
def Small (mode : Mode) : Entries → Prop
  | done _ _ => True
  | file _ rest => rest.Small mode
  | other _ rest => rest.Small mode
  | lstatFails _ => True
  | forkFails _ => True
  | directory _ behind _ inside rest =>
    (Starts mode behind → inside.count ≤ 255 ∧ inside.Small mode) ∧
      (¬Starts mode behind → inside.count = 1) ∧ rest.Small mode
  | execFails _ _ rest => rest.Small mode

instance decidableSmall (mode : Mode) : ∀ e : Entries, Decidable (e.Small mode)
  | done _ _ => inferInstanceAs (Decidable True)
  | file _ rest => decidableSmall mode rest
  | other _ rest => decidableSmall mode rest
  | lstatFails _ => inferInstanceAs (Decidable True)
  | forkFails _ => inferInstanceAs (Decidable True)
  | directory _ behind _ inside rest =>
    haveI := decidableSmall mode inside
    haveI := decidableSmall mode rest
    inferInstanceAs (Decidable ((Starts mode behind → inside.count ≤ 255 ∧ inside.Small mode) ∧
      (¬Starts mode behind → inside.count = 1) ∧ rest.Small mode))
  | execFails _ _ rest => decidableSmall mode rest

end Entries

/-! ## §2  Exact processes -/

/-- A total that the process prints is the number of regular files under its directory. -/
def Process.Truthful (p : Process) : Prop :=
  ∀ path numFiles all, Message.total path numFiles all ∈ p.said → all = (p.dir.count : ℤ)

/-- Its parent gets the number of regular files under its directory from `WEXITSTATUS`. -/
def Process.Exact (p : Process) : Prop :=
  wexitstatus p.status = (p.dir.count : ℤ) ∧ p.Truthful

def AllExact (f : Forest Process) : Prop := f.Each fun p _ => p.Exact

/-- What `WEXITSTATUS` gives for the processes at the top, together. -/
def values (f : Forest Process) : ℤ := ((f.roots.map Process.status).map wexitstatus).sum

theorem values_nil : values .nil = 0 := rfl

theorem values_cons (p : Process) (below rest : Forest Process) :
    values (.cons p below rest) = wexitstatus p.status + values rest := List.sum_cons

/-! ## §3  The sum of a loop -/

/-- What a loop without failing calls leaves: nothing printed, as many children as forks,
and, if the children are exact, all files, up to wrapping around. -/
structure Counted (e : Entries) (vars : Vars) (scan : Scan) : Prop where
  said : scan.vars.said = vars.said
  last : ∃ order status, scan.last = some (order, status)
  processes : scan.vars.numProcesses = vars.numProcesses + scan.children.roots.length
  files : AllExact scan.children →
    scan.vars.numFiles + values scan.children ≡ vars.numFiles + e.count [ZMOD 2 ^ 32]

theorem Counted.cons {rest : Entries} {tail : Scan} {opens : Bool}
    (h : Counted rest { vars with numProcesses := vars.numProcesses + 1 } tail)
    (hchild : child.dir = inside) :
    Counted (.directory name behind opens inside rest) vars
      { tail with children := .cons child below tail.children } where
  said := h.said
  last := h.last
  processes := by
    show tail.vars.numProcesses = vars.numProcesses + (tail.children.roots.length + 1)
    rw [h.processes]
    show vars.numProcesses + 1 + _ = _
    omega
  files := by
    rintro ⟨⟨hvalue, -⟩, -, htail⟩
    rw [hchild] at hvalue
    show tail.vars.numFiles + values (.cons child below tail.children) ≡
      vars.numFiles + ((inside.count + rest.count : ℕ) : ℤ) [ZMOD 2 ^ 32]
    have hsum := (h.files htail).add_left (inside.count : ℤ)
    rw [values_cons, hvalue, Nat.cast_add, add_left_comm, add_left_comm vars.numFiles]
    exact hsum

theorem Started.dir_eq (h : Started mode full behind inside opens child below) :
    child.dir = inside := by
  cases h with
  | usage => rfl
  | notADir => rfl
  | reads =>
      unfold finish
      split
      · rfl
      · dsimp only
        split <;> rfl

theorem readLoop_counted (e : Entries) (hclean : e.Clean) : ∀ (vars : Vars) (scan : Scan),
    readLoop e mode path vars = some scan → Counted e vars scan := by
  induction e with
  | done order status =>
      intro vars scan h
      obtain rfl := readLoop_done_iff.mp h
      refine ⟨rfl, ⟨order, status, rfl⟩, rfl, fun _ => ?_⟩
      rw [values_nil]
      rfl
  | file name rest ih =>
      intro vars scan h
      have hrest := ih hclean _ _ (readLoop_file_iff.mp h).2
      refine ⟨hrest.said, hrest.last, hrest.processes, fun hexact => ?_⟩
      refine (hrest.files hexact).trans (((addInt_modEq _ _).add_right _).trans ?_)
      show _ ≡ vars.numFiles + ((rest.count + 1 : ℕ) : ℤ) [ZMOD 2 ^ 32]
      rw [Nat.cast_add, Nat.cast_one, add_assoc, add_comm (1 : ℤ)]
  | other name rest ih =>
      intro vars scan h
      have hrest := ih hclean _ _ (readLoop_other_iff.mp h).2
      exact ⟨hrest.said, hrest.last, hrest.processes, hrest.files⟩
  | lstatFails name => exact hclean.elim
  | forkFails name => exact hclean.elim
  | directory name behind opens inside rest _ ihrest =>
      intro vars scan h
      obtain ⟨-, -, hrest⟩ := hclean
      obtain ⟨-, child, below, hchild, tail, htail, rfl⟩ := readLoop_directory_iff.mp h
      exact (ihrest hrest _ _ htail).cons hchild.dir_eq
  | execFails name clone rest _ _ => exact hclean.elim

/-- A process with exact children ends with the number of files, wrapped around. -/
theorem finish_of_counted (h : Counted dir .start scan) (hexact : AllExact scan.children) :
    finish mode path dir scan = ⟨dir,
      if mode.shouldLog then
        [.total path scan.vars.numFiles ((dir.count : ℤ).bmod (2 ^ 32))] else [],
      .files ((dir.count : ℤ).bmod (2 ^ 32))⟩ := by
  obtain ⟨order, status, hlast⟩ := h.last
  obtain ⟨childFiles, hcollect, hfinish⟩ := finish_of_some hlast
  have hnum : scan.vars.numProcesses =
      (order.arrange (scan.children.roots.map Process.status)).length := by
    rw [order.length_arrange, List.length_map, h.processes]
    exact Nat.zero_add _
  rw [hnum] at hcollect
  have hchildren := collect_modEq _ _ _ hcollect
  rw [order.sum_arrange, zero_add] at hchildren
  have hall : scan.vars.numFiles + childFiles ≡ (dir.count : ℤ) [ZMOD 2 ^ 32] := by
    refine (hchildren.add_left _).trans ((h.files hexact).trans ?_)
    show 0 + (dir.count : ℤ) ≡ _ [ZMOD 2 ^ 32]
    rw [zero_add]
  rw [hfinish, addInt_eq_of_modEq hall, h.said]
  rfl

/-! ## §4  Small subdirectories -/

/-- The total is wrong only when it does not fit an `int`. -/
theorem truthful_finish_iff (h : Counted dir .start scan) (hexact : AllExact scan.children) :
    (finish mode path dir scan).Truthful ↔ (mode.shouldLog = true → dir.count < 2 ^ 31) := by
  rw [finish_of_counted h hexact, ← bmod_eq_self_iff]
  unfold Process.Truthful
  dsimp only
  cases mode.shouldLog with
  | false =>
      exact iff_of_true (fun _ _ _ hm => absurd hm List.not_mem_nil) fun h => by cases h
  | true =>
      rw [if_pos rfl]
      constructor
      · exact fun htruth _ => htruth path scan.vars.numFiles _ (List.mem_singleton_self _)
      · intro hcount path' numFiles all hm
        obtain ⟨-, -, hall⟩ := Message.total.inj (List.mem_singleton.mp hm)
        exact hall.trans (hcount rfl)

/-- The eight bits are enough for 255 files. -/
theorem exact_finish_iff (h : Counted dir .start scan) (hexact : AllExact scan.children) :
    (finish mode path dir scan).Exact ↔ dir.count ≤ 255 := by
  have hstatus : wexitstatus (finish mode path dir scan).status =
      (dir.count : ℤ).bmod (2 ^ 32) % 256 := by
    rw [finish_of_counted h hexact]
    exact wexitstatus_exitStatus _
  have hdir : (finish mode path dir scan).dir = dir := by rw [finish_of_counted h hexact]
  unfold Process.Exact
  rw [truthful_finish_iff h hexact, hstatus, hdir]
  constructor
  · rintro ⟨hvalue, -⟩
    have hlt := Int.emod_lt_of_pos ((dir.count : ℤ).bmod (2 ^ 32)) (show (0 : ℤ) < 256 by decide)
    omega
  · intro hcount
    rw [(bmod_eq_self_iff _).mpr (by omega)]
    exact ⟨Int.emod_eq_of_lt (by omega) (by omega), fun _ => by omega⟩

theorem exact_usage_iff : Process.Exact ⟨dir, [.usage], .usage⟩ ↔ dir.count = 1 := by
  have hstatus : wexitstatus (Process.status ⟨dir, [.usage], .usage⟩) = 1 :=
    wexitstatus_exitStatus 1
  unfold Process.Exact
  rw [hstatus]
  constructor
  · rintro ⟨hvalue, -⟩
    exact_mod_cast hvalue.symm
  · intro hcount
    refine ⟨by rw [hcount]; rfl, fun _ _ _ hm => ?_⟩
    cases List.mem_singleton.mp hm

/-- When the child started for a subdirectory and all below it are exact. -/
theorem Started.exact_iff (h : Started mode full behind inside true child below)
    (hclean : inside.Clean)
    (hinside : ∀ own, readLoop inside mode full .start = some own →
      (AllExact own.children ↔ inside.Small mode)) :
    (child.Exact ∧ AllExact below) ↔
      (Starts mode behind → inside.count ≤ 255 ∧ inside.Small mode) ∧
        (¬Starts mode behind → inside.count = 1) := by
  rcases h with hn | _ | ⟨hs, hown⟩
  · rw [exact_usage_iff]
    exact ⟨fun h => ⟨fun hs => absurd hs hn, fun _ => h.1⟩, fun h => ⟨h.2 hn, trivial⟩⟩
  · have hcounted := readLoop_counted inside hclean _ _ hown
    constructor
    · rintro ⟨hchild, hbelow⟩
      refine ⟨fun _ => ⟨(exact_finish_iff hcounted hbelow).mp hchild, ?_⟩,
        fun hn => absurd hs hn⟩
      exact (hinside _ hown).mp hbelow
    · rintro ⟨h, -⟩
      obtain ⟨hcount, hsmall⟩ := h hs
      have hbelow := (hinside _ hown).mpr hsmall
      exact ⟨(exact_finish_iff hcounted hbelow).mpr hcount, hbelow⟩

/-- All processes below a loop are exact as long as its subdirectories are small. -/
theorem allExact_iff (e : Entries) (hclean : e.Clean) : ∀ (path : List Byte) (vars : Vars)
    (scan : Scan), readLoop e mode path vars = some scan →
      (AllExact scan.children ↔ e.Small mode) := by
  induction e with
  | done order status =>
      intro path vars scan h
      obtain rfl := readLoop_done_iff.mp h
      exact Iff.rfl
  | file name rest ih => exact fun _ _ _ h => ih hclean _ _ _ (readLoop_file_iff.mp h).2
  | other name rest ih => exact fun _ _ _ h => ih hclean _ _ _ (readLoop_other_iff.mp h).2
  | lstatFails name => exact hclean.elim
  | forkFails name => exact hclean.elim
  | directory name behind opens inside rest ihinside ihrest =>
      intro path vars scan h
      obtain ⟨rfl, hinside, hrest⟩ := hclean
      obtain ⟨-, child, below, hchild, tail, htail, rfl⟩ := readLoop_directory_iff.mp h
      have hfirst := hchild.exact_iff hinside fun own => ihinside hinside _ _ own
      exact (and_assoc.symm.trans (and_congr hfirst (ihrest hrest _ _ _ htail))).trans and_assoc
  | execFails name clone rest _ _ => exact hclean.elim

/-! ## §5  The counter counts -/

/-- The run ends, every total it prints is right, and every process gets the right numbers
from its children. -/
def Counts (args : List (List Byte)) (dir : Entries) : Prop :=
  ∃ root children, main args true dir = some (root, children) ∧
    root.Truthful ∧ AllExact children

theorem counts_cases {args : List (List Byte)} (hargs : arguments args = some (mode, path))
    (h : Counts args dir) : path.length + 1 ≤ 1024 ∧ ∃ scan,
      readLoop dir mode path .start = some scan ∧
      (finish mode path dir scan).Truthful ∧ AllExact scan.children := by
  obtain ⟨root, children, hmain, htruth, hexact⟩ := h
  obtain ⟨hlen, hroot⟩ := (main_iff hargs).mp hmain
  rcases hroot with hn | _ | ⟨_, hscan⟩
  · exact absurd (fun _ => rfl) hn
  · exact ⟨hlen, _, hscan, htruth, hexact⟩

/-- **The counter counts small subdirectories.** Without failing calls the run gives every
process the right numbers and prints the right totals exactly when every path fits its
buffer, no subdirectory is too large for the eight bits of an exit status, and a total that
is printed fits an `int`. -/
theorem counts_iff_small {args : List (List Byte)} (hargs : arguments args = some (mode, path))
    (hclean : dir.Clean) :
    Counts args dir ↔ path.length + 1 ≤ 1024 ∧ dir.Fits mode path ∧ dir.Small mode ∧
      (mode.shouldLog = true → dir.count < 2 ^ 31) := by
  constructor
  · intro h
    obtain ⟨hlen, scan, hscan, htruth, hexact⟩ := counts_cases hargs h
    have hcounted := readLoop_counted dir hclean _ _ hscan
    exact ⟨hlen, (exists_readLoop_iff dir path _).mp ⟨scan, hscan⟩,
      (allExact_iff dir hclean _ _ _ hscan).mp hexact,
      (truthful_finish_iff hcounted hexact).mp htruth⟩
  · rintro ⟨hlen, hfits, hsmall, htotal⟩
    obtain ⟨scan, hscan⟩ := (exists_readLoop_iff dir path .start).mpr hfits
    have hexact := (allExact_iff dir hclean _ _ _ hscan).mpr hsmall
    have hcounted := readLoop_counted dir hclean _ _ hscan
    exact ⟨_, _, (main_iff hargs).mpr ⟨hlen, .reads (fun _ => rfl) hscan⟩,
      (truthful_finish_iff hcounted hexact).mpr htotal, hexact⟩

/-- `n` regular files with different names. -/
def manyFiles : ℕ → Entries
  | 0 => .done .asStarted 0
  | n + 1 => .file [letterV + UInt8.ofNat (n / 16), letterV + UInt8.ofNat (n % 16)] (manyFiles n)

/-- A directory with one subdirectory of `n` files. -/
def oneDirectory (n : ℕ) : Entries :=
  .directory [letterV] [] true (manyFiles n) (.done .asStarted 0)

/-- Three files in a subdirectory, with `-v`. -/
theorem counts_oneDirectory : Counts [[dash, letterV], [letterW]] (oneDirectory 3) := by
  have hclean : (oneDirectory 3).Clean := ⟨rfl, trivial, trivial⟩
  exact (counts_iff_small rfl hclean).mpr ⟨by decide, by decide, by decide, by decide⟩

/-- 256 files in a subdirectory are counted as none. -/
theorem not_counts_oneDirectory :
    (oneDirectory 256).Clean ∧ ¬Counts [[dash, letterV], [letterW]] (oneDirectory 256) := by
  have hclean : (oneDirectory 256).Clean := ⟨rfl, trivial, trivial⟩
  refine ⟨hclean, fun h => ?_⟩
  have hargs : arguments [[dash, letterV], [letterW]] = some (⟨false, true⟩, [letterW]) := rfl
  obtain ⟨-, scan, hscan, -, hexact⟩ := counts_cases hargs h
  exact absurd ((allExact_iff _ hclean _ _ _ hscan).mp hexact) (by decide +kernel)

end Sysopy.FileCounter
