import Mathlib.Data.Fintype.EquivFin
import Mathlib.Data.Finset.Insert
import Mathlib.Algebra.Group.Nat.Defs
import Sysopy.Foundation.Tally
import Sysopy.ReadersWriters.Library

/-!
# Readers see one snapshot

The free permits of `sem_library_empty` and those that the threads have are
`NUM_READERS` together, and a writer in `writer_write` has that many. So the array
does not change while a reader goes through it.

## Sections

* §1 counting in the array
* §2 permits
* §3 every step keeps the accounts
* §4 what a reader prints
-/

namespace Sysopy.ReadersWriters

open Sysopy.Foundation

/-! ## §1  Counting in the array -/

def occurrences (library : Index → ℤ) (num : ℤ) : ℕ :=
  (Finset.univ.filter fun j => library j = num).card

/-- How often the number occurs before place `i`. -/
def occurrencesBelow (library : Index → ℤ) (num : ℤ) (i : ℕ) : ℕ :=
  (Finset.univ.filter fun j : Index => j.val < i ∧ library j = num).card

section Occurrences

variable (library : Index → ℤ) (num : ℤ)

theorem occurrencesBelow_zero : occurrencesBelow library num 0 = 0 := by
  simp [occurrencesBelow]

theorem occurrencesBelow_librarySize :
    occurrencesBelow library num librarySize = occurrences library num := by
  refine congrArg Finset.card (Finset.filter_congr fun j _ => ?_)
  exact and_iff_right j.isLt

theorem occurrencesBelow_succ (i : Index) :
    occurrencesBelow library num (i + 1) =
      if library i = num then occurrencesBelow library num i + 1
      else occurrencesBelow library num i := by
  have hlt : ∀ j : Index, j.val < i + 1 ↔ j = i ∨ j.val < i := fun j => by
    rw [Nat.lt_succ_iff_lt_or_eq, or_comm, Fin.ext_iff]
  unfold occurrencesBelow
  split_ifs with hi
  · rw [← Finset.card_insert_of_notMem (a := i) (by simp)]
    refine congrArg Finset.card (Finset.ext fun j => ?_)
    simp only [Finset.mem_filter, Finset.mem_univ, true_and, Finset.mem_insert, hlt]
    constructor
    · rintro ⟨rfl | hj, hnum⟩
      · exact Or.inl rfl
      · exact Or.inr ⟨hj, hnum⟩
    · rintro (rfl | ⟨hj, hnum⟩)
      · exact ⟨Or.inl rfl, hi⟩
      · exact ⟨Or.inr hj, hnum⟩
  · refine congrArg Finset.card (Finset.filter_congr fun j _ => ?_)
    rw [hlt]
    constructor
    · rintro ⟨rfl | hj, hnum⟩
      · exact absurd hnum hi
      · exact ⟨hj, hnum⟩
    · rintro ⟨hj, hnum⟩
      exact ⟨Or.inr hj, hnum⟩

/-- What a reader has counted is right for the array as it is now. -/
def ReaderPc.Seen : ReaderPc → Prop
  | .read i numFound => numFound = occurrencesBelow library num i
  | .print numFound => numFound = occurrences library num
  | _ => True

theorem ReaderPc.seen_of_held {c : ReaderPc} (h : c.held = 0) : c.Seen library num := by
  cases c with
  | wait => trivial
  | _ => exact absurd h Nat.one_ne_zero

end Occurrences

/-! ## §2  Permits -/

/-- The accounts of both semaphores, and what the readers have counted. -/
structure Sound {n : ℕ} (num : Reader → ℤ) (s : Library n) : Prop where
  permits : s.semLibraryEmpty + total ReaderPc.held s.reader + total WriterPc.held s.writer =
    numReaders
  writers : s.semWriter + tally WriterPc.busy s.writer = 1
  seen : ∀ r, (s.reader r).Seen s.library (num r)

section Permits

variable {n : ℕ} {num : Reader → ℤ} {s : Library n} {w w' : Fin n} {r : Reader}

theorem WriterPc.held_of_inWriterWrite {c : WriterPc} (h : c.inWriterWrite = true) :
    c.held = numReaders := by
  cases c with
  | choose => rfl
  | write i k => rfl
  | _ => exact absurd h Bool.false_ne_true

theorem WriterPc.busy_of_held {c : WriterPc} (h : c.held ≠ 0) : c.busy = true := by
  cases c with
  | waitWriter => exact absurd rfl h
  | _ => rfl

theorem Sound.busy_unique (hs : Sound num s) (hw : (s.writer w).busy = true)
    (hw' : (s.writer w').busy = true) : w = w' := by
  have hone := hs.writers
  exact eq_of_tally_le_one (by omega) hw hw'

theorem Sound.held_unique (hs : Sound num s) (hw : (s.writer w).held ≠ 0)
    (hw' : (s.writer w').held ≠ 0) : w = w' :=
  hs.busy_unique (WriterPc.busy_of_held hw) (WriterPc.busy_of_held hw')

/-- Beside a writer with all permits no reader has one. -/
theorem Sound.held_eq_zero (hs : Sound num s) (hw : (s.writer w).held = numReaders)
    (r : Reader) : (s.reader r).held = 0 := by
  have hpermits := hs.permits
  have hreader := part_le_total ReaderPc.held s.reader r
  have hwriter := part_le_total WriterPc.held s.writer w
  omega

end Permits

/-! ## §3  Every step keeps the accounts -/

section Step

variable {n : ℕ} {num : Reader → ℤ} {s t : Library n} {w : Fin n} {r : Reader}

theorem sound_init : Sound num (readersWriters n num).init := by
  refine ⟨?_, ?_, fun _ => trivial⟩
  · have hreader : total ReaderPc.held (fun _ : Reader => .wait) = 0 :=
      total_eq_zero fun _ => rfl
    have hwriter : total WriterPc.held (fun _ : Fin n => .waitWriter) = 0 :=
      total_eq_zero fun _ => rfl
    change numReaders + total ReaderPc.held (fun _ => .wait) +
      total WriterPc.held (fun _ : Fin n => .waitWriter) = numReaders
    rw [hreader, hwriter]
    rfl
  · change 1 + tally WriterPc.busy (fun _ : Fin n => .waitWriter) = 1
    rw [tally_eq_zero fun _ => rfl]

theorem Sound.readerMove (hs : Sound num s) {c : ReaderPc} {e : ℕ}
    (he : e + c.held = s.semLibraryEmpty + (s.reader r).held)
    (hc : c.Seen s.library (num r)) :
    Sound num { s.readerGoto r c with semLibraryEmpty := e } := by
  refine ⟨?_, hs.writers, fun q => ?_⟩
  · have hpermits := hs.permits
    have hmove := total_update ReaderPc.held s.reader r c
    change e + total ReaderPc.held (Function.update s.reader r c) + total WriterPc.held s.writer =
      numReaders
    omega
  · change (Function.update s.reader r c q).Seen s.library (num q)
    by_cases hq : q = r
    · subst hq
      rwa [Function.update_self]
    · rw [Function.update_of_ne hq]
      exact hs.seen q

/-- A writer moves on and takes or gives back permits with that; it stores into the
array only when no reader has a permit. -/
theorem Sound.writerMove (hs : Sound num s) {c : WriterPc} {e k : ℕ} {library : Index → ℤ}
    (he : e + c.held = s.semLibraryEmpty + (s.writer w).held)
    (hk : k + c.busy.toNat = s.semWriter + (s.writer w).busy.toNat)
    (hlibrary : library = s.library ∨ (s.writer w).held = numReaders) :
    Sound num { s.writerGoto w c with
      library := library, semWriter := k, semLibraryEmpty := e } := by
  refine ⟨?_, ?_, fun r => ?_⟩
  · have hpermits := hs.permits
    have hmove := total_update WriterPc.held s.writer w c
    change e + total ReaderPc.held s.reader + total WriterPc.held (Function.update s.writer w c) =
      numReaders
    omega
  · have hwriters := hs.writers
    have hmove := tally_update WriterPc.busy s.writer w c
    change k + tally WriterPc.busy (Function.update s.writer w c) = 1
    omega
  · change (s.reader r).Seen library (num r)
    rcases hlibrary with rfl | hall
    · exact hs.seen r
    · exact ReaderPc.seen_of_held _ _ (hs.held_eq_zero hall r)

theorem seen_readerRead {i : Index} {numFound : ℕ} {x : ℤ}
    (h : numFound = occurrencesBelow s.library x i) :
    (s.readerRead x i numFound).Seen s.library x := by
  have hfound : (if s.library i = x then numFound + 1 else numFound) =
      occurrencesBelow s.library x (i + 1) := by
    rw [occurrencesBelow_succ, h]
  unfold Library.readerRead
  dsimp only
  rw [hfound]
  split_ifs with hlast
  · rfl
  · have hsize : (i : ℕ) + 1 = librarySize := Nat.le_antisymm i.isLt (Nat.not_lt.mp hlast)
    change occurrencesBelow s.library x (i + 1) = _
    rw [hsize, occurrencesBelow_librarySize]

theorem held_readerRead (x : ℤ) (i : Index) (numFound : ℕ) :
    (s.readerRead x i numFound).held = 1 := by
  unfold Library.readerRead
  dsimp only
  split_ifs <;> rfl

theorem Sound.readerFun (hs : Sound num s) (hn : s.readerFun num r = some t) :
    Sound num t := by
  unfold Library.readerFun at hn
  cases hpc : s.reader r with
  | wait =>
      simp only [hpc] at hn
      split_ifs at hn with hpos
      obtain rfl := Option.some.inj hn
      refine hs.readerMove ?_ (occurrencesBelow_zero _ _).symm
      rw [hpc]
      exact Nat.sub_add_cancel hpos
  | read i numFound =>
      simp only [hpc, Option.some.injEq] at hn
      subst hn
      refine hs.readerMove (e := s.semLibraryEmpty) ?_ (seen_readerRead ?_)
      · rw [hpc, held_readerRead]
        rfl
      · have hseen := hs.seen r
        rwa [hpc] at hseen
  | print numFound =>
      simp only [hpc, Option.some.injEq] at hn
      subst hn
      refine hs.readerMove (e := s.semLibraryEmpty) ?_ trivial
      rw [hpc]
      rfl
  | post =>
      simp only [hpc, Option.some.injEq] at hn
      subst hn
      refine hs.readerMove ?_ trivial
      rw [hpc]
      rfl

theorem Sound.writerFun (hs : Sound num s) {rand₁ rand₂ : ℕ}
    (hn : s.writerFun w rand₁ rand₂ = some t) : Sound num t := by
  unfold Library.writerFun at hn
  cases hpc : s.writer w with
  | waitWriter =>
      simp only [hpc] at hn
      split_ifs at hn with hpos
      obtain rfl := Option.some.inj hn
      refine hs.writerMove (e := s.semLibraryEmpty) ?_ ?_ (Or.inl rfl) <;> rw [hpc]
      · rfl
      · exact Nat.sub_add_cancel hpos
  | collect i =>
      simp only [hpc] at hn
      split_ifs at hn with hpos hlast
      · obtain rfl := Option.some.inj hn
        refine hs.writerMove (k := s.semWriter) ?_ ?_ (Or.inl rfl) <;> rw [hpc]
        · simp only [WriterPc.held]
          omega
        · rfl
      · obtain rfl := Option.some.inj hn
        have hi := i.isLt
        refine hs.writerMove (k := s.semWriter) ?_ ?_ (Or.inl rfl) <;> rw [hpc]
        · simp only [WriterPc.held]
          omega
        · rfl
  | choose =>
      simp only [hpc, Option.some.injEq] at hn
      subst hn
      refine hs.writerMove (e := s.semLibraryEmpty) (k := s.semWriter) ?_ ?_ (Or.inl rfl) <;>
        rw [hpc] <;> rfl
  | write i k =>
      simp only [hpc, Option.some.injEq] at hn
      subst hn
      -- only here the array changes, with all permits held
      refine hs.writerMove (e := s.semLibraryEmpty) (k := s.semWriter) ?_ ?_
        (Or.inr (by rw [hpc]; rfl)) <;> rw [hpc] <;> split_ifs <;> rfl
  | print k =>
      simp only [hpc, Option.some.injEq] at hn
      subst hn
      refine hs.writerMove (e := s.semLibraryEmpty) (k := s.semWriter) ?_ ?_ (Or.inl rfl) <;>
        rw [hpc] <;> rfl
  | release i =>
      simp only [hpc, Option.some.injEq] at hn
      subst hn
      have hi := i.isLt
      refine hs.writerMove (k := s.semWriter) ?_ ?_ (Or.inl rfl) <;> rw [hpc] <;>
        split_ifs with hlast
      · simp only [WriterPc.held]
        omega
      · simp only [WriterPc.held]
        omega
      · rfl
      · rfl
  | postWriter =>
      simp only [hpc, Option.some.injEq] at hn
      subst hn
      refine hs.writerMove (e := s.semLibraryEmpty) ?_ ?_ (Or.inl rfl) <;> rw [hpc] <;> rfl

theorem Sound.next (hs : Sound num s) {a : Action n}
    (hn : (readersWriters n num).next s a = some t) : Sound num t := by
  cases a with
  | reader r => exact hs.readerFun hn
  | writer w rand₁ rand₂ => exact hs.writerFun hn

theorem path_sound {tr : List (Library n × Action n)} (hs : Sound num s)
    (h : (readersWriters n num).Path s tr t) : Sound num t :=
  h.invariant (I := fun _ s => Sound num s) hs fun _ _ _ _ hs hn => hs.next hn

theorem run_sound {tr : List (Library n × Action n)} (h : (readersWriters n num).Run tr s) :
    Sound num s :=
  path_sound sound_init h

end Step

/-! ## §4  What a reader prints -/

section Snapshot

variable {n : ℕ} {num : Reader → ℤ} {s : Library n} {tr : List (Library n × Action n)}

/-- **Readers see one snapshot**, for any number of writers and in every
interleaving: a writer in `writer_write` excludes every reader from `reader_read` and
every other writer, no permit of `sem_library_empty` is lost or made up, and the
number that a reader prints is how often its value occurs in the array at that
moment. -/
theorem readers_see_one_snapshot (h : (readersWriters n num).Run tr s) :
    (∀ w, (s.writer w).inWriterWrite = true →
      (∀ r, (s.reader r).inReaderRead = false) ∧
      ∀ w', w' ≠ w → (s.writer w').inWriterWrite = false ∧ (s.writer w').held = 0) ∧
    s.semLibraryEmpty + total ReaderPc.held s.reader + total WriterPc.held s.writer =
      numReaders ∧
    ∀ r numFound, (r, numFound) ∈ observe printed tr →
      ∃ x ∈ tr, (r, numFound) ∈ printed x.1 x.2 ∧
        numFound = occurrences x.1.library (num r) := by
  have hs := run_sound h
  refine ⟨fun w hw => ?_, hs.permits, fun r numFound hprinted => ?_⟩
  · have hall := WriterPc.held_of_inWriterWrite hw
    constructor
    · intro r
      have hnone := hs.held_eq_zero hall r
      cases hpc : s.reader r with
      | read i numFound =>
          rw [hpc] at hnone
          exact absurd hnone Nat.one_ne_zero
      | _ => rfl
    · intro w' hne
      have hnone : (s.writer w').held = 0 := by
        by_contra hheld
        exact hne (hs.held_unique hheld (hall ▸ numReaders_pos.ne'))
      refine ⟨?_, hnone⟩
      by_contra hin
      rw [Bool.not_eq_false] at hin
      exact numReaders_pos.ne' ((WriterPc.held_of_inWriterWrite hin).symm.trans hnone)
  · obtain ⟨x, hx, hout⟩ := mem_observe.mp hprinted
    refine ⟨x, hx, hout, ?_⟩
    obtain ⟨pre, u, hpath, -⟩ := h.of_mem hx
    have hseen := (run_sound hpath).seen r
    unfold printed at hout
    split at hout
    · split at hout
      · rename_i q found hpc
        obtain ⟨rfl, rfl⟩ := Prod.mk.inj (List.mem_singleton.mp hout)
        rwa [hpc] at hseen
      · exact absurd hout List.not_mem_nil
    · exact absurd hout List.not_mem_nil

/-- The only writer has all permits and stores into the array. -/
theorem readers_see_one_snapshot_one : ∃ tr s, (readersWriters 1 fun _ => 7).Run tr s ∧
    (s.writer 0).inWriterWrite = true ∧ ∀ r, (s.reader r).inReaderRead = false := by
  have h := (readersWriters 1 fun _ => 7).run_of_replay
    (List.replicate 16 (.writer 0 0 0) ++ [.writer 0 2 0, .writer 0 9 7]) rfl
  exact ⟨_, _, h, rfl, ((readers_see_one_snapshot h).1 0 rfl).1⟩

end Snapshot

end Sysopy.ReadersWriters
