import Mathlib.Algebra.GroupWithZero.Nat
import Sysopy.Foundation.Refinement
import Sysopy.ReadersWriters.Snapshot

/-!
# Sessions of the library are atomic

In the atomic library a reader counts at once and a writer makes all its stores at once.
Each line that a reader or a writer prints stands for one session, and it is printed
before the permits are given back. So the program prints in every interleaving what the
atomic library prints when it takes the sessions in the order of their lines.

## Sections

* §1 the atomic library
* §2 stores that are not reported yet
* §3 the program refines the atomic library
* §4 what a reader's count says of the next one
-/

namespace Sysopy.ReadersWriters

open Sysopy.Foundation

variable {n : ℕ} {num : Reader → ℤ}

/-! ## §1  The atomic library -/

/-- A line of the output, from the loop of a reader or of a writer. -/
inductive Line (n : ℕ)
  /-- `Reader %d - found %d occurences of %d` -/
  | reader (r : Reader) (numFound : ℕ)
  /-- `Writer %d - %d indices modified` -/
  | writer (w : Fin n) (modifiedIndices : ℕ)
deriving DecidableEq

def lines (s : Library n) : Action n → List (Line n)
  | .reader r =>
      match s.reader r with
      | .print numFound => [.reader r numFound]
      | _ => []
  | .writer w _ _ =>
      match s.writer w with
      | .print k => [.writer w k]
      | _ => []

/-- A pass of a reader over the array, or the stores of a writer. -/
inductive Session (n : ℕ)
  | read (r : Reader)
  | write (w : Fin n) (stores : List (Index × ℤ))

def storeAt (library : Index → ℤ) (x : Index × ℤ) : Index → ℤ :=
  Function.update library x.1 x.2

def InRange (stores : List (Index × ℤ)) : Prop := ∀ x ∈ stores, 0 ≤ x.2 ∧ x.2 ≤ maxNum

instance (stores : List (Index × ℤ)) : Decidable (InRange stores) :=
  inferInstanceAs (Decidable (∀ x ∈ stores, _))

/-- The library in which every session is one step; a writer makes up to 100 stores. -/
def atomicLibrary (n : ℕ) : System (Index → ℤ) (Session n) where
  init := fun _ => 0
  next library session :=
    match session with
    | .read _ => some library
    | .write _ stores =>
        if 1 ≤ stores.length ∧ stores.length ≤ 100 ∧ InRange stores then
          some (stores.foldl storeAt library)
        else none

def sessionLines (num : Reader → ℤ) (library : Index → ℤ) : Session n → List (Line n)
  | .read r => [.reader r (occurrences library (num r))]
  | .write w stores => [.writer w stores.length]

/-! ## §2  Stores that are not reported yet -/

/-- The stores of the session that the writer has made and not reported yet. -/
def WriterPc.stored : WriterPc → ℕ
  | .write i _ => i
  | .print k => k
  | _ => 0

/-- The counters of `writer_write` are in range. -/
def WriterPc.InSession : WriterPc → Prop
  | .write i k => i < k ∧ k ≤ 100
  | .print k => 1 ≤ k ∧ k ≤ 100
  | _ => True

theorem WriterPc.stored_of_held {c : WriterPc} (h : c.held ≠ numReaders) : c.stored = 0 := by
  cases c with
  | write i k => exact absurd rfl h
  | print k => exact absurd rfl h
  | _ => rfl

theorem WriterPc.busy_of_stored {c : WriterPc} (h : c.stored ≠ 0) : c.busy = true := by
  cases c with
  | waitWriter => exact absurd rfl h
  | _ => rfl

/-- The program behind the atomic library: what is not reported has still to be stored
there. -/
structure Refines (num : Reader → ℤ) (library : Index → ℤ) (s : Library n) : Prop where
  sound : Sound num s
  counters : ∀ w, (s.writer w).InSession
  stores : ∃ stores, s.library = stores.foldl storeAt library ∧
    stores.length = total WriterPc.stored s.writer ∧ InRange stores

section Step

variable {library : Index → ℤ} {s t : Library n} {w : Fin n} {r : Reader}

/-- Only the writer that is in the array has stores to report. -/
theorem Sound.total_stored (hs : Sound num s) (hw : (s.writer w).busy = true) :
    total WriterPc.stored s.writer = (s.writer w).stored := by
  refine total_eq_single w fun w' hne => ?_
  by_contra hstored
  exact hne (hs.busy_unique (WriterPc.busy_of_stored hstored) hw)

/-- While a reader has a permit, there is nothing to report. -/
theorem Refines.library_eq (h : Refines num library s) (hr : (s.reader r).held ≠ 0) :
    s.library = library := by
  obtain ⟨stores, heq, hlength, -⟩ := h.stores
  have hnone : total WriterPc.stored s.writer = 0 := by
    refine total_eq_zero fun w => WriterPc.stored_of_held fun hall => ?_
    exact hr (h.sound.held_eq_zero hall r)
  rw [hnone, List.length_eq_zero_iff] at hlength
  rw [heq, hlength]
  rfl

/-! ## §3  The program refines the atomic library -/

theorem refines_init : Refines num (atomicLibrary n).init (readersWriters n num).init := by
  refine ⟨sound_init, fun _ => trivial, [], rfl, ?_, fun x hx => absurd hx List.not_mem_nil⟩
  exact (total_eq_zero fun _ => rfl).symm

theorem readerFun_frame (hn : s.readerFun num r = some t) :
    t.library = s.library ∧ t.writer = s.writer := by
  unfold Library.readerFun at hn
  cases hpc : s.reader r with
  | wait =>
      simp only [hpc] at hn
      split_ifs at hn
      obtain rfl := Option.some.inj hn
      exact ⟨rfl, rfl⟩
  | _ =>
      simp only [hpc, Option.some.injEq] at hn
      subst hn
      exact ⟨rfl, rfl⟩

theorem Refines.reader (h : Refines num library s) (hn : s.readerFun num r = some t) :
    Refines num library t := by
  obtain ⟨hlibrary, hwriter⟩ := readerFun_frame hn
  refine ⟨h.sound.readerFun hn, ?_, ?_⟩
  · rw [hwriter]
    exact h.counters
  · rw [hlibrary, hwriter]
    exact h.stores

theorem Refines.reader_line (h : Refines num library s) (r : Reader) :
    lines s (.reader r) = [] ∨
      lines s (.reader r) = sessionLines num library (.read r : Session n) := by
  cases hpc : s.reader r with
  | print numFound =>
      have hseen := h.sound.seen r
      rw [hpc] at hseen
      have hlibrary : s.library = library :=
        h.library_eq (r := r) (by rw [hpc]; exact Nat.one_ne_zero)
      right
      simp only [lines, hpc, sessionLines]
      rw [← hlibrary, show numFound = occurrences s.library (num r) from hseen]
  | _ =>
      left
      simp only [lines, hpc]

theorem Refines.quiet (h : Refines num library s) (ht : Sound num t) {c : WriterPc}
    (hlibrary : t.library = s.library) (hwriter : t.writer = Function.update s.writer w c)
    (hstored : c.stored = (s.writer w).stored) (hc : c.InSession) : Refines num library t := by
  refine ⟨ht, fun w' => ?_, ?_⟩
  · rw [hwriter]
    by_cases hw : w' = w
    · subst hw
      rwa [Function.update_self]
    · rw [Function.update_of_ne hw]
      exact h.counters w'
  · have hmove := total_update WriterPc.stored s.writer w c
    rw [hstored, Nat.add_right_cancel_iff] at hmove
    rw [hlibrary, hwriter, hmove]
    exact h.stores

theorem Refines.store (h : Refines num library s) {i k rand₁ rand₂ : ℕ}
    (hpc : s.writer w = .write i k) (ht : Sound num t)
    (hlibrary : t.library = s.writerWrite rand₁ rand₂)
    (hwriter : t.writer = Function.update s.writer w
      (if i + 1 < k then .write (i + 1) k else .print k)) : Refines num library t := by
  have hcounter := h.counters w
  rw [hpc] at hcounter
  obtain ⟨stores, heq, hlength, hrange⟩ := h.stores
  have hstored : (if i + 1 < k then WriterPc.write (i + 1) k else .print k).stored = i + 1 := by
    split_ifs with hlast
    · rfl
    · exact Nat.le_antisymm (Nat.not_lt.mp hlast) hcounter.1
  refine ⟨ht, fun w' => ?_, stores ++ [(⟨rand₁ % librarySize, Nat.mod_lt _ librarySize_pos⟩,
    ((rand₂ % (maxNum + 1) : ℕ) : ℤ))], ?_, ?_, ?_⟩
  · rw [hwriter]
    by_cases hw : w' = w
    · subst hw
      rw [Function.update_self]
      split_ifs with hlast
      · exact ⟨hlast, hcounter.2⟩
      · exact ⟨Nat.one_le_of_lt hcounter.1, hcounter.2⟩
    · rw [Function.update_of_ne hw]
      exact h.counters w'
  · rw [List.foldl_append, ← heq, hlibrary]
    rfl
  · have hmove := total_update WriterPc.stored s.writer w
      (if i + 1 < k then .write (i + 1) k else .print k)
    rw [hstored, hpc, ← hwriter] at hmove
    change _ + i = _ at hmove
    rw [List.length_append, List.length_singleton]
    omega
  · intro x hx
    rcases List.mem_append.mp hx with hx | hx
    · exact hrange x hx
    · obtain rfl := List.mem_singleton.mp hx
      have hlt := Nat.mod_lt rand₂ (Nat.succ_pos maxNum)
      exact ⟨Int.natCast_nonneg _, Int.ofNat_le.mpr (Nat.le_of_lt_succ hlt)⟩

/-- A writer's line is that of its session, and there is nothing left to report. -/
theorem Refines.report (h : Refines num library s) {k : ℕ} (hpc : s.writer w = .print k)
    (ht : Sound num t) (hlibrary : t.library = s.library)
    (hwriter : t.writer = Function.update s.writer w (.release ⟨0, numReaders_pos⟩)) :
    ∃ stores, stores.length = k ∧
      (atomicLibrary n).next library (.write w stores) = some t.library ∧
      Refines num t.library t := by
  have hcounter := h.counters w
  rw [hpc] at hcounter
  obtain ⟨stores, heq, hlength, hrange⟩ := h.stores
  have htotal := h.sound.total_stored (w := w) (by rw [hpc]; rfl)
  rw [hpc] at htotal
  have hk : stores.length = k := hlength.trans htotal
  refine ⟨stores, hk, ?_, ht, fun w' => ?_, [], rfl, ?_, fun x hx => absurd hx List.not_mem_nil⟩
  · simp only [atomicLibrary]
    rw [if_pos ⟨hk ▸ hcounter.1, hk ▸ hcounter.2, hrange⟩, hlibrary, heq]
  · rw [hwriter]
    by_cases hw : w' = w
    · subst hw
      rw [Function.update_self]
      trivial
    · rw [Function.update_of_ne hw]
      exact h.counters w'
  · have hmove := total_update WriterPc.stored s.writer w (.release ⟨0, numReaders_pos⟩)
    rw [hpc, htotal, ← hwriter] at hmove
    change _ + k = k + 0 at hmove
    rw [List.length_nil]
    omega

/-- A step of a writer is answered by its session if it prints, and else by nothing. -/
theorem Refines.writer (h : Refines num library s) {rand₁ rand₂ : ℕ}
    (hn : s.writerFun w rand₁ rand₂ = some t) :
    (lines s (.writer w rand₁ rand₂) = [] ∧ Refines num library t) ∨
    ∃ stores, lines s (.writer w rand₁ rand₂) = sessionLines num library (.write w stores) ∧
      (atomicLibrary n).next library (.write w stores) = some t.library ∧
      Refines num t.library t := by
  have ht := h.sound.writerFun hn
  unfold Library.writerFun at hn
  cases hpc : s.writer w with
  | waitWriter =>
      simp only [hpc] at hn
      split_ifs at hn
      obtain rfl := Option.some.inj hn
      refine Or.inl ⟨by simp only [lines, hpc], h.quiet ht rfl rfl ?_ trivial⟩
      rw [hpc]
      rfl
  | collect i =>
      simp only [hpc] at hn
      split_ifs at hn
      · obtain rfl := Option.some.inj hn
        refine Or.inl ⟨by simp only [lines, hpc], h.quiet ht rfl rfl ?_ trivial⟩
        rw [hpc]
        rfl
      · obtain rfl := Option.some.inj hn
        refine Or.inl ⟨by simp only [lines, hpc], h.quiet ht rfl rfl ?_ trivial⟩
        rw [hpc]
        rfl
  | choose =>
      simp only [hpc, Option.some.injEq] at hn
      subst hn
      refine Or.inl ⟨by simp only [lines, hpc], h.quiet ht rfl rfl ?_ ?_⟩
      · rw [hpc]
        rfl
      · have hlt := Nat.mod_lt rand₁ (Nat.zero_lt_succ 99)
        exact ⟨Nat.lt_of_lt_of_le Nat.zero_lt_one (Nat.le_add_right 1 _), by omega⟩
  | write i k =>
      simp only [hpc, Option.some.injEq] at hn
      subst hn
      exact Or.inl ⟨by simp only [lines, hpc], h.store hpc ht rfl rfl⟩
  | print k =>
      simp only [hpc, Option.some.injEq] at hn
      subst hn
      obtain ⟨stores, hk, hnext, hrefines⟩ := h.report hpc ht rfl rfl
      exact Or.inr ⟨stores, by simp only [lines, hpc, sessionLines, hk], hnext, hrefines⟩
  | release i =>
      simp only [hpc, Option.some.injEq] at hn
      subst hn
      refine Or.inl ⟨by simp only [lines, hpc], h.quiet ht rfl rfl ?_ ?_⟩
      · rw [hpc]
        split_ifs <;> rfl
      · split_ifs <;> trivial
  | postWriter =>
      simp only [hpc, Option.some.injEq] at hn
      subst hn
      refine Or.inl ⟨by simp only [lines, hpc], h.quiet ht rfl rfl ?_ trivial⟩
      rw [hpc]
      rfl

end Step

theorem refines_atomic (num : Reader → ℤ) : System.Simulation (atomicLibrary n)
    (sessionLines num) (readersWriters n num) lines (Refines num) where
  init := refines_init
  step := by
    intro library s a t h hn
    cases a with
    | reader r =>
        have ht : Refines num library t := h.reader hn
        rcases h.reader_line r with hnone | hline
        · exact ⟨[], library, .nil, hnone.symm, ht⟩
        · exact ⟨_, library, .snoc .nil (a := .read r) rfl, by rw [hline]; rfl, ht⟩
    | writer w rand₁ rand₂ =>
        rcases h.writer hn with ⟨hnone, ht⟩ | ⟨stores, hline, hnext, ht⟩
        · exact ⟨[], library, .nil, hnone.symm, ht⟩
        · exact ⟨_, _, .snoc .nil hnext, by rw [hline]; rfl, ht⟩

/-- **Sessions are atomic**, for any number of writers and in every interleaving: what
the program has printed is what the atomic library prints in a run, one session for each
line in the order of the lines; and where no writer has stores to report, the array is
the one of that run. -/
theorem sessions_are_atomic {tr : List (Library n × Action n)} {s : Library n}
    (h : (readersWriters n num).Run tr s) :
    ∃ tr' library, (atomicLibrary n).Run tr' library ∧
      observe (sessionLines num) tr' = observe lines tr ∧
      ((∀ w, (s.writer w).stored = 0) → s.library = library) := by
  obtain ⟨tr', library, hrun, heq, hrefines⟩ := (refines_atomic num).run h
  refine ⟨tr', library, hrun, heq, fun hnone => ?_⟩
  obtain ⟨stores, hlibrary, hlength, -⟩ := hrefines.stores
  rw [total_eq_zero hnone, List.length_eq_zero_iff] at hlength
  rw [hlibrary, hlength]
  rfl

/-- A writer alone makes one store and reports it. -/
theorem sessions_are_atomic_one : ∃ tr s, (readersWriters 1 fun _ => 7).Run tr s ∧
    ∃ tr' library, (atomicLibrary 1).Run tr' library ∧
      observe (sessionLines fun _ => 7) tr' = [.writer 0 1] ∧ s.library = library := by
  have h := (readersWriters 1 fun _ => 7).run_of_replay
    (List.replicate 16 (.writer 0 0 0) ++ [.writer 0 0 0, .writer 0 9 7, .writer 0 0 0]) rfl
  obtain ⟨tr, s, h, hlog, hstored⟩ : ∃ tr s, (readersWriters 1 fun _ => 7).Run tr s ∧
      observe lines tr = [.writer 0 1] ∧ ∀ w, (s.writer w).stored = 0 :=
    ⟨_, _, h, rfl, fun w => by rw [Fin.fin_one_eq_zero w]; rfl⟩
  obtain ⟨tr', library, hrun, hlog', hlibrary⟩ := sessions_are_atomic h
  exact ⟨tr, s, h, tr', library, hrun, hlog'.trans hlog, hlibrary hstored⟩

/-! ## §4  What a reader's count says of the next one -/

/-- The numbers differ by at most `d`. -/
def Near (x y d : ℕ) : Prop := x ≤ y + d ∧ y ≤ x + d

theorem Near.refl (x : ℕ) : Near x x 0 := ⟨Nat.le_refl x, Nat.le_refl x⟩

theorem Near.trans {x y z d e : ℕ} (h : Near x y d) (h' : Near y z e) : Near x z (d + e) := by
  obtain ⟨hle, hge⟩ := h
  obtain ⟨hle', hge'⟩ := h'
  constructor <;> omega

theorem occurrences_le {library library' : Index → ℤ} {i : Index}
    (h : ∀ j, j ≠ i → library' j = library j) (m : ℤ) :
    occurrences library' m ≤ occurrences library m + 1 := by
  have hsubset : (Finset.univ.filter fun j => library' j = m) ⊆
      insert i (Finset.univ.filter fun j => library j = m) := by
    intro j hj
    rw [Finset.mem_filter] at hj
    by_cases hji : j = i
    · exact hji ▸ Finset.mem_insert_self ..
    · refine Finset.mem_insert_of_mem (Finset.mem_filter.mpr ⟨hj.1, ?_⟩)
      rw [← h j hji]
      exact hj.2
  exact (Finset.card_le_card hsubset).trans (Finset.card_insert_le ..)

theorem occurrences_storeAt (library : Index → ℤ) (x : Index × ℤ) (m : ℤ) :
    Near (occurrences library m) (occurrences (storeAt library x) m) 1 := by
  have hother : ∀ j, j ≠ x.1 → storeAt library x j = library j :=
    fun j hj => Function.update_of_ne hj ..
  exact ⟨occurrences_le (fun j hj => (hother j hj).symm) m, occurrences_le hother m⟩

theorem occurrences_foldl (library : Index → ℤ) (stores : List (Index × ℤ)) (m : ℤ) :
    Near (occurrences library m) (occurrences (stores.foldl storeAt library) m)
      stores.length := by
  induction stores generalizing library with
  | nil => exact Near.refl _
  | cons x stores ih =>
      rw [List.length_cons, Nat.add_comm]
      exact (occurrences_storeAt library x m).trans (ih _)

def Line.modified : Line n → ℕ
  | .reader _ _ => 0
  | .writer _ k => k

def modified (log : List (Line n)) : ℕ := (log.map Line.modified).sum

theorem modified_snoc (log : List (Line n)) (l : Line n) :
    modified (log ++ [l]) = modified log + modified [l] := by
  simp [modified]

/-- A count is as near to an earlier one of the same number as the lines between them
say, and all counts are near to the array in that way. -/
structure Reports (num : Reader → ℤ) (log : List (Line n)) (library : Index → ℤ) : Prop where
  counts : ∀ pre r x mid q y post, log = pre ++ .reader r x :: mid ++ .reader q y :: post →
    num r = num q → Near x y (modified mid)
  array : ∀ pre r x mid, log = pre ++ .reader r x :: mid →
    Near x (occurrences library (num r)) (modified mid)

theorem Reports.snoc {log : List (Line n)} {library library' : Index → ℤ}
    (h : Reports num log library) {a : Session n}
    (hn : (atomicLibrary n).next library a = some library') :
    Reports num (log ++ sessionLines num library a) library' := by
  cases a with
  | read r =>
      obtain rfl := Option.some.inj hn
      rw [sessionLines]
      constructor
      · intro pre r₁ x mid q y post heq hnum
        rcases split_snoc heq with ⟨hlog, hline, -⟩ | ⟨post', -, hlog⟩
        · obtain ⟨hreader, hcount⟩ := Line.reader.inj hline
          rw [hcount, ← hreader, ← hnum]
          exact h.array pre r₁ x mid hlog.symm
        · exact h.counts pre r₁ x mid q y post' hlog hnum
      · intro pre r₁ x mid heq
        rcases split_snoc heq with ⟨-, hline, rfl⟩ | ⟨mid', rfl, hlog⟩
        · obtain ⟨hreader, hcount⟩ := Line.reader.inj hline
          rw [hcount, hreader]
          exact Near.refl _
        · rw [modified_snoc]
          exact h.array pre r₁ x mid' hlog
  | write w stores =>
      simp only [atomicLibrary] at hn
      split_ifs at hn
      obtain rfl := Option.some.inj hn
      rw [sessionLines]
      constructor
      · intro pre r₁ x mid q y post heq hnum
        rcases split_snoc heq with ⟨-, hline, -⟩ | ⟨post', -, hlog⟩
        · cases hline
        · exact h.counts pre r₁ x mid q y post' hlog hnum
      · intro pre r₁ x mid heq
        rcases split_snoc heq with ⟨-, hline, -⟩ | ⟨mid', rfl, hlog⟩
        · cases hline
        · rw [modified_snoc]
          refine (h.array pre r₁ x mid' hlog).trans ?_
          exact occurrences_foldl library stores (num r₁)

theorem run_reports {tr : List ((Index → ℤ) × Session n)} {library : Index → ℤ}
    (h : (atomicLibrary n).Run tr library) :
    Reports num (observe (sessionLines num) tr) library := by
  refine h.invariant (I := fun tr library => Reports num (observe (sessionLines num) tr) library)
    ⟨?_, ?_⟩ ?_
  · intro pre r x mid q y post heq
    simp at heq
  · intro pre r x mid heq
    simp at heq
  · intro tr library a library' hs hn
    rw [observe_snoc]
    exact hs.snoc hn

/-- **Counts change as far as the writers report**, in every interleaving: two readers
that look for the same number find it so often that the difference is at most what the
writers say between the two lines. -/
theorem counts_change_as_reported {tr : List (Library n × Action n)} {s : Library n}
    (h : (readersWriters n num).Run tr s) {pre mid post : List (Line n)} {r q : Reader}
    {x y : ℕ} (hlog : observe lines tr = pre ++ .reader r x :: mid ++ .reader q y :: post)
    (hnum : num r = num q) : x ≤ y + modified mid ∧ y ≤ x + modified mid :=
  (refines_atomic num).transfer (P := fun log => ∀ pre r x mid q y post,
      log = pre ++ .reader r x :: mid ++ .reader q y :: post → num r = num q →
      Near x y (modified mid))
    (fun _ _ hrun => (run_reports hrun).counts) h pre r x mid q y post hlog hnum

theorem readerGoto_self (s : Library n) (r : Reader) : s.readerGoto r (s.reader r) = s :=
  congrArg (fun f => { s with reader := f }) (Function.update_eq_self r s.reader)

theorem reader_readerGoto (s : Library n) (r : Reader) (c : ReaderPc) :
    (s.readerGoto r c).reader r = c :=
  Function.update_self ..

theorem readerGoto_readerGoto (s : Library n) (r : Reader) (c c' : ReaderPc) :
    (s.readerGoto r c).readerGoto r c' = s.readerGoto r c' :=
  congrArg (fun f => { s with reader := f }) (Function.update_idem ..)

theorem exists_read (num : Reader → ℤ) {s : Library n} {r : Reader}
    (hpc : s.reader r = .read ⟨0, librarySize_pos⟩ 0) (m : ℕ) (hm : m < librarySize) :
    ∃ tr x, (readersWriters n num).Path s tr (s.readerGoto r (.read ⟨m, hm⟩ x)) ∧
      observe lines tr = [] := by
  induction m with
  | zero =>
      refine ⟨[], 0, ?_, rfl⟩
      rw [← hpc, readerGoto_self]
      exact .nil
  | succ m ih =>
      obtain ⟨tr, x, hpath, hquiet⟩ := ih (Nat.lt_of_succ_lt hm)
      refine ⟨_, if s.library ⟨m, Nat.lt_of_succ_lt hm⟩ = num r then x + 1 else x,
        .snoc hpath (a := .reader r) ?_, ?_⟩
      · simp only [readersWriters, Library.readerFun, reader_readerGoto, Library.readerRead,
          dif_pos hm, readerGoto_readerGoto]
        rfl
      · rw [observe_snoc, hquiet]
        simp only [lines, reader_readerGoto]
        rfl

theorem exists_print (num : Reader → ℤ) {s : Library n} {r : Reader}
    (hpc : s.reader r = .read ⟨0, librarySize_pos⟩ 0) :
    ∃ tr x, (readersWriters n num).Path s tr (s.readerGoto r (.print x)) ∧
      observe lines tr = [] := by
  have hlt : librarySize - 1 < librarySize := Nat.sub_lt librarySize_pos Nat.one_pos
  obtain ⟨tr, x, hpath, hquiet⟩ := exists_read num hpc _ hlt
  have hlast : ¬librarySize - 1 + 1 < librarySize := Nat.lt_irrefl _
  refine ⟨_, if s.library ⟨librarySize - 1, hlt⟩ = num r then x + 1 else x,
    .snoc hpath (a := .reader r) ?_, ?_⟩
  · simp only [readersWriters, Library.readerFun, reader_readerGoto, Library.readerRead,
      dif_neg hlast, readerGoto_readerGoto]
    rfl
  · rw [observe_snoc, hquiet]
    simp only [lines, reader_readerGoto]
    rfl

theorem exists_post (num : Reader → ℤ) {s : Library n} {r : Reader}
    (hpc : s.reader r = .read ⟨0, librarySize_pos⟩ 0) :
    ∃ tr x, (readersWriters n num).Path s tr
        { s.readerGoto r .wait with semLibraryEmpty := s.semLibraryEmpty + 1 } ∧
      observe lines tr = [.reader r x] := by
  obtain ⟨tr, x, hpath, hquiet⟩ := exists_print num hpc
  have hprint : (readersWriters n num).next (s.readerGoto r (.print x)) (.reader r) =
      some (s.readerGoto r .post) := by
    simp only [readersWriters, Library.readerFun, reader_readerGoto, readerGoto_readerGoto]
  have hpost : (readersWriters n num).next (s.readerGoto r .post) (.reader r) =
      some { s.readerGoto r .wait with semLibraryEmpty := s.semLibraryEmpty + 1 } := by
    simp only [readersWriters, Library.readerFun, reader_readerGoto, readerGoto_readerGoto]
    rfl
  refine ⟨_, x, (hpath.snoc hprint).snoc hpost, ?_⟩
  rw [observe_snoc, observe_snoc, hquiet]
  simp only [lines, reader_readerGoto]
  rfl

/-- A session of a reader that nobody disturbs leaves everything as it was. -/
theorem exists_session (num : Reader → ℤ) {s : Library n} {r : Reader} (hpc : s.reader r = .wait)
    (hfree : 0 < s.semLibraryEmpty) :
    ∃ tr x, (readersWriters n num).Path s tr s ∧ observe lines tr = [.reader r x] := by
  obtain ⟨library, k, e, reader, writer⟩ := s
  obtain ⟨e, rfl⟩ := Nat.exists_eq_succ_of_ne_zero (Nat.ne_of_gt hfree)
  change reader r = .wait at hpc
  have hwait : (readersWriters n num).next ⟨library, k, e + 1, reader, writer⟩ (.reader r) =
      some ⟨library, k, e, Function.update reader r (.read ⟨0, librarySize_pos⟩ 0), writer⟩ := by
    simp only [readersWriters, Library.readerFun, hpc]
    exact if_pos (Nat.succ_pos e)
  obtain ⟨tr, x, hpath, hline⟩ := exists_post num (r := r)
    (s := ⟨library, k, e, Function.update reader r (.read ⟨0, librarySize_pos⟩ 0), writer⟩)
    (Function.update_self ..)
  have hsame : Function.update (Function.update reader r (.read ⟨0, librarySize_pos⟩ 0)) r
      .wait = reader := by
    rw [Function.update_idem, ← hpc, Function.update_eq_self]
  simp only [Library.readerGoto, hsame] at hpath
  refine ⟨_, x, System.Path.cons hwait hpath, ?_⟩
  have hquiet : lines (n := n) ⟨library, k, e + 1, reader, writer⟩ (.reader r) = [] := by
    simp only [lines, hpc]
  rw [observe, List.flatMap_cons, hquiet, List.nil_append]
  exact hline

/-- A session of a writer between two of a reader. -/
theorem counts_change_as_reported_between : ∃ tr s r x y,
    (readersWriters 1 fun _ => 7).Run tr s ∧
    observe lines tr = [.reader r x, .writer 0 1, .reader r y] ∧ x ≤ y + 1 ∧ y ≤ x + 1 := by
  obtain ⟨tr₁, x, hpath₁, hline₁⟩ := exists_session (fun _ => 7)
    (r := ⟨0, numReaders_pos⟩) (s := (readersWriters 1 fun _ => 7).init) rfl numReaders_pos
  obtain ⟨tr₂, s, hpath₂, hline₂, hpc, hfree⟩ : ∃ tr₂ s,
      (readersWriters 1 fun _ => 7).Path (readersWriters 1 fun _ => 7).init tr₂ s ∧
      observe lines tr₂ = [.writer 0 1] ∧ s.reader ⟨0, numReaders_pos⟩ = .wait ∧
      0 < s.semLibraryEmpty :=
    ⟨_, _, System.path_of_replayFrom (List.replicate 16 (.writer 0 0 0) ++
      [.writer 0 0 0, .writer 0 9 7, .writer 0 0 0, .writer 0 0 0]) rfl, rfl, rfl, by decide⟩
  obtain ⟨tr₃, y, hpath₃, hline₃⟩ := exists_session (fun _ => 7) hpc hfree
  have hrun : (readersWriters 1 fun _ => 7).Run (tr₁ ++ tr₂ ++ tr₃) s :=
    (hpath₁.trans hpath₂).trans hpath₃
  have hlog : observe lines (tr₁ ++ tr₂ ++ tr₃) = [] ++ .reader ⟨0, numReaders_pos⟩ x ::
      [.writer 0 1] ++ .reader ⟨0, numReaders_pos⟩ y :: [] := by
    rw [System.observe_append, System.observe_append, hline₁, hline₂, hline₃]
    rfl
  exact ⟨_, s, _, x, y, hrun, hlog, counts_change_as_reported hrun hlog rfl⟩

end Sysopy.ReadersWriters
