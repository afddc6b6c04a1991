import Sysopy.ReadersWriters.Snapshot

/-!
# Readers and writers do not block each other

A reader that has a permit waits for nothing, and the only writer past
`wait(&sem_writer)` waits for readers alone. So those who have a permit can go on
until the one that somebody waits for is free.

## Sections

* §1 who waits for what
* §2 who has a permit goes on
* §3 every permit comes
-/

namespace Sysopy.ReadersWriters

open Sysopy.Foundation

variable {n : ℕ} {num : Reader → ℤ} {s t : Library n} {w : Fin n} {r : Reader}

/-! ## §1  Who waits for what -/

inductive Thread (n : ℕ)
  | reader (r : Reader)
  | writer (w : Fin n)

inductive Semaphore
  | writer
  | libraryEmpty

def Action.thread : Action n → Thread n
  | .reader r => .reader r
  | .writer w _ _ => .writer w

def Library.value (s : Library n) : Semaphore → ℕ
  | .writer => s.semWriter
  | .libraryEmpty => s.semLibraryEmpty

/-- The semaphore in whose `sem_wait` the thread is. -/
def Library.waits (s : Library n) : Thread n → Option Semaphore
  | .reader r =>
      match s.reader r with
      | .wait => some .libraryEmpty
      | _ => none
  | .writer w =>
      match s.writer w with
      | .waitWriter => some .writer
      | .collect _ => some .libraryEmpty
      | _ => none

theorem held_of_waits_reader {sem : Semaphore} (h : s.waits (.reader r) = some sem) :
    (s.reader r).held = 0 := by
  cases hpc : s.reader r with
  | wait => rfl
  | _ => simp [Library.waits, hpc] at h

/-- The one `sem_wait` of a writer that is past the other. -/
theorem collect_of_waits_writer {sem : Semaphore} (h : s.waits (.writer w) = some sem)
    (hbusy : (s.writer w).busy = true) : sem = .libraryEmpty ∧ ∃ i, s.writer w = .collect i := by
  cases hpc : s.writer w with
  | waitWriter =>
      rw [hpc] at hbusy
      exact Bool.noConfusion hbusy
  | collect i =>
      simp only [Library.waits, hpc, Option.some.injEq] at h
      exact ⟨h.symm, i, rfl⟩
  | _ => simp [Library.waits, hpc] at h

theorem next_of_value_pos (num : Reader → ℤ) {x : Thread n} {sem : Semaphore}
    (hx : s.waits x = some sem) (hpos : 0 < s.value sem) :
    ∃ a u, a.thread = x ∧ (readersWriters n num).next s a = some u := by
  cases x with
  | reader r =>
      cases hpc : s.reader r with
      | wait =>
          simp only [Library.waits, hpc, Option.some.injEq] at hx
          subst hx
          exact ⟨.reader r, _, rfl, by
            simp only [readersWriters, Library.readerFun, hpc]
            exact if_pos hpos⟩
      | _ => simp [Library.waits, hpc] at hx
  | writer w =>
      cases hpc : s.writer w with
      | waitWriter =>
          simp only [Library.waits, hpc, Option.some.injEq] at hx
          subst hx
          exact ⟨.writer w 0 0, _, rfl, by
            simp only [readersWriters, Library.writerFun, hpc]
            exact if_pos hpos⟩
      | collect i =>
          simp only [Library.waits, hpc, Option.some.injEq] at hx
          subst hx
          exact ⟨.writer w 0 0, _, rfl, by
            simp only [readersWriters, Library.writerFun, hpc]
            exact if_pos hpos⟩
      | _ => simp [Library.waits, hpc] at hx

/-! ## §2  Who has a permit goes on -/

def ReaderPc.rank : ReaderPc → ℕ
  | .wait => 0
  | .post => 1
  | .print _ => 2
  | .read i _ => librarySize - i + 2

/-- A bound of the steps of a writer until it waits for `sem_writer`, if it modifies
one place. -/
def WriterPc.rank : WriterPc → ℕ
  | .waitWriter => 0
  | .postWriter => 1
  | .release i => numReaders - i + 1
  | .print _ => numReaders + 2
  | .write i k => (k - i) + numReaders + 3
  | .choose => numReaders + 5
  | .collect i => (numReaders - i) + numReaders + 5

def Library.rank (s : Library n) : ℕ :=
  total ReaderPc.rank s.reader + total WriterPc.rank s.writer

theorem rank_lt_of_reader {c : ReaderPc} (hreader : t.reader = Function.update s.reader r c)
    (hwriter : t.writer = s.writer) (h : c.rank < (s.reader r).rank) : t.rank < s.rank := by
  have hmove := total_update ReaderPc.rank s.reader r c
  rw [Library.rank, Library.rank, hreader, hwriter]
  omega

theorem rank_lt_of_writer {c : WriterPc} (hwriter : t.writer = Function.update s.writer w c)
    (hreader : t.reader = s.reader) (h : c.rank < (s.writer w).rank) : t.rank < s.rank := by
  have hmove := total_update WriterPc.rank s.writer w c
  rw [Library.rank, Library.rank, hreader, hwriter]
  omega

/-- A reader that goes on keeps nobody else from waiting. -/
theorem waits_of_reader {x : Thread n} {c : ReaderPc} (hx : x ≠ .reader r)
    (hreader : t.reader = Function.update s.reader r c) (hwriter : t.writer = s.writer) :
    t.waits x = s.waits x := by
  cases x with
  | reader q =>
      have hq : t.reader q = s.reader q := by
        rw [hreader, Function.update_of_ne fun hqr => hx (congrArg _ hqr)]
      simp only [Library.waits, hq]
  | writer v => simp only [Library.waits, hwriter]

theorem waits_of_writer {x : Thread n} {c : WriterPc} (hx : x ≠ .writer w)
    (hwriter : t.writer = Function.update s.writer w c) (hreader : t.reader = s.reader) :
    t.waits x = s.waits x := by
  cases x with
  | reader q => simp only [Library.waits, hreader]
  | writer v =>
      have hv : t.writer v = s.writer v := by
        rw [hwriter, Function.update_of_ne fun hvw => hx (congrArg _ hvw)]
      simp only [Library.waits, hv]

theorem rank_readerRead (x : ℤ) (i : Index) (numFound : ℕ) :
    (s.readerRead x i numFound).rank < (ReaderPc.read i numFound).rank := by
  have hi := i.isLt
  unfold Library.readerRead
  dsimp only
  split_ifs <;> simp only [ReaderPc.rank] <;> omega

theorem reader_goes_on (num : Reader → ℤ) (hheld : (s.reader r).held ≠ 0) :
    ∃ t, s.readerFun num r = some t ∧ t.rank < s.rank ∧
      ∀ x, x ≠ .reader r → t.waits x = s.waits x := by
  cases hpc : s.reader r with
  | wait =>
      rw [hpc] at hheld
      exact absurd rfl hheld
  | read i numFound =>
      refine ⟨s.readerGoto r (s.readerRead (num r) i numFound),
        by simp only [Library.readerFun, hpc], rank_lt_of_reader rfl rfl ?_,
        fun x hx => waits_of_reader hx rfl rfl⟩
      rw [hpc]
      exact rank_readerRead _ _ _
  | print numFound =>
      refine ⟨s.readerGoto r .post, by simp only [Library.readerFun, hpc],
        rank_lt_of_reader rfl rfl ?_, fun x hx => waits_of_reader hx rfl rfl⟩
      rw [hpc]
      exact Nat.one_lt_two
  | post =>
      refine ⟨{ s.readerGoto r .wait with semLibraryEmpty := s.semLibraryEmpty + 1 },
        by simp only [Library.readerFun, hpc], rank_lt_of_reader rfl rfl ?_,
        fun x hx => waits_of_reader hx rfl rfl⟩
      rw [hpc]
      exact Nat.one_pos

/-- A writer that has `sem_writer` waits for a permit at most. -/
theorem writer_goes_on (hbusy : (s.writer w).busy = true)
    (hpermit : ∀ i, s.writer w = .collect i → 0 < s.semLibraryEmpty) :
    ∃ t, s.writerFun w 0 0 = some t ∧ t.rank < s.rank ∧
      ∀ x, x ≠ .writer w → t.waits x = s.waits x := by
  have hgo : ∀ {c library k e}, s.writerFun w 0 0 = some { s.writerGoto w c with
        library := library, semWriter := k, semLibraryEmpty := e } →
      c.rank < (s.writer w).rank →
      ∃ t, s.writerFun w 0 0 = some t ∧ t.rank < s.rank ∧
        ∀ x, x ≠ .writer w → t.waits x = s.waits x := fun hn hrank =>
    ⟨_, hn, rank_lt_of_writer rfl rfl hrank, fun _ hx => waits_of_writer hx rfl rfl⟩
  cases hpc : s.writer w with
  | waitWriter =>
      rw [hpc] at hbusy
      exact Bool.noConfusion hbusy
  | collect i =>
      have hi := i.isLt
      have hpos := hpermit i hpc
      refine hgo (by simp only [Library.writerFun, hpc]; exact if_pos hpos) ?_
      rw [hpc]
      split_ifs <;> simp only [WriterPc.rank] <;> omega
  | choose =>
      refine hgo (by simp only [Library.writerFun, hpc]; rfl) ?_
      rw [hpc]
      exact Nat.lt_succ_self _
  | write i k =>
      refine hgo (by simp only [Library.writerFun, hpc]; rfl) ?_
      rw [hpc]
      split_ifs <;> simp only [WriterPc.rank] <;> omega
  | print k =>
      refine hgo (by simp only [Library.writerFun, hpc]; rfl) ?_
      rw [hpc]
      exact Nat.lt_succ_self _
  | release i =>
      have hi := i.isLt
      refine hgo (by simp only [Library.writerFun, hpc]; rfl) ?_
      rw [hpc]
      split_ifs <;> simp only [WriterPc.rank] <;> omega
  | postWriter =>
      refine hgo (by simp only [Library.writerFun, hpc]; rfl) ?_
      rw [hpc]
      exact Nat.one_pos

/-! ## §3  Every permit comes -/

theorem Sound.other_goes_on (hs : Sound num s) {x : Thread n} {sem : Semaphore}
    (hx : s.waits x = some sem) (hzero : ¬0 < s.value sem) :
    ∃ a t, a.thread ≠ x ∧ (readersWriters n num).next s a = some t ∧ t.waits x = some sem ∧
      t.rank < s.rank := by
  by_cases hreader : ∃ r, (s.reader r).held ≠ 0
  · obtain ⟨r, hr⟩ := hreader
    obtain ⟨t, hn, hlt, hwaits⟩ := reader_goes_on num hr
    have hne : x ≠ .reader r := by
      rintro rfl
      exact hr (held_of_waits_reader hx)
    exact ⟨.reader r, t, hne.symm, hn, (hwaits x hne).trans hx, hlt⟩
  push Not at hreader
  have hpermits := hs.permits
  rw [total_eq_zero hreader] at hpermits
  by_cases hwriter : ∃ w, (s.writer w).busy = true
  · obtain ⟨w, hw⟩ := hwriter
    have hsingle : total WriterPc.held s.writer = (s.writer w).held := by
      refine total_eq_single w fun v hv => ?_
      by_contra hheld
      exact hv (hs.busy_unique (WriterPc.busy_of_held hheld) hw)
    -- what the readers have given back is enough for the writer
    have hpermit : ∀ i, s.writer w = .collect i → 0 < s.semLibraryEmpty := by
      intro i hi
      have hlt := i.isLt
      have hheld : (s.writer w).held = i := by rw [hi]; rfl
      omega
    have hne : x ≠ .writer w := by
      rintro rfl
      obtain ⟨rfl, i, hi⟩ := collect_of_waits_writer hx hw
      exact hzero (hpermit i hi)
    obtain ⟨t, hn, hlt, hwaits⟩ := writer_goes_on hw hpermit
    exact ⟨.writer w 0 0, t, hne.symm, hn, (hwaits x hne).trans hx, hlt⟩
  · push Not at hwriter
    have hidle : ∀ w, (s.writer w).busy = false := fun w => Bool.not_eq_true _ ▸ hwriter w
    have hwriters := hs.writers
    rw [tally_eq_zero hidle] at hwriters
    have hheld : total WriterPc.held s.writer = 0 := by
      refine total_eq_zero fun w => ?_
      by_contra hne
      exact hwriter w (WriterPc.busy_of_held hne)
    have hsize := numReaders_pos
    cases sem with
    | writer =>
        change ¬0 < s.semWriter at hzero
        omega
    | libraryEmpty =>
        change ¬0 < s.semLibraryEmpty at hzero
        omega

/-- **Readers and writers never block each other for good**: in every reachable state
and for every thread in a `sem_wait` the others can go on until the thread gets its
permit, and two writers never have permits of `sem_library_empty` at the same
time. -/
theorem every_permit_comes {tr : List (Library n × Action n)}
    (h : (readersWriters n num).Run tr s) :
    (∀ x sem, s.waits x = some sem →
      ∃ tr' t a u, (readersWriters n num).Path s tr' t ∧ (∀ y ∈ tr', y.2.thread ≠ x) ∧
        t.waits x = some sem ∧ a.thread = x ∧ (readersWriters n num).next t a = some u) ∧
    ∀ w w', (s.writer w).held ≠ 0 → (s.writer w').held ≠ 0 → w = w' := by
  have hs := run_sound h
  refine ⟨fun x sem hx => ?_, fun w w' hw hw' => hs.held_unique hw hw'⟩
  obtain ⟨tr', t, hp, hothers, ⟨-, ht⟩, hpos⟩ :=
    System.exists_path_of_measure (M := readersWriters n num)
      (I := fun s => Sound num s ∧ s.waits x = some sem) (G := fun s => 0 < s.value sem)
      (A := fun a => a.thread ≠ x) Library.rank
      (fun s hs hg => by
        obtain ⟨a, t, ha, hn, ht, hlt⟩ := hs.1.other_goes_on hs.2 hg
        exact ⟨a, t, ha, hn, ⟨hs.1.next hn, ht⟩, hlt⟩)
      s ⟨hs, hx⟩
  obtain ⟨a, u, ha, hn⟩ := next_of_value_pos num ht hpos
  exact ⟨tr', t, a, u, hp, hothers, ht, ha, hn⟩

/-- A reader has a permit, the writer the other fourteen and waits. -/
theorem every_permit_comes_one : ∃ tr s, (readersWriters 1 fun _ => 7).Run tr s ∧
    s.semLibraryEmpty = 0 ∧ s.waits (.writer 0) = some .libraryEmpty ∧
    ∃ tr' t a u, (readersWriters 1 fun _ => 7).Path s tr' t ∧
      (∀ y ∈ tr', y.2.thread ≠ .writer 0) ∧ t.waits (.writer 0) = some .libraryEmpty ∧
      a.thread = .writer 0 ∧ (readersWriters 1 fun _ => 7).next t a = some u := by
  have h := (readersWriters 1 fun _ => 7).run_of_replay
    (.reader ⟨0, numReaders_pos⟩ :: List.replicate 15 (.writer 0 0 0)) rfl
  exact ⟨_, _, h, rfl, rfl, (every_permit_comes h).1 _ _ rfl⟩

end Sysopy.ReadersWriters
