import Mathlib.Data.List.Forall2
import Mathlib.Data.List.Nodup
import Sysopy.ThreadedSearch.Batches

/-!
# What the search reports

The loop over the records goes through the whole buffer, also after a `read` that
filled only a part of it. What stands in the rest was either there when the thread
looked through its last batch and found nothing, or is what `malloc` left there.

## Sections

* §1 lines that name records
* §2 what a clean step preserves
* §3 the search reports real matches, unless memory is dirty
* §4 only the first batch of a thread can be dirty
-/

namespace Sysopy.ThreadedSearch

open Sysopy.Foundation

variable {N M : ℕ} {c : Setup N M} {s t : Search N M} {p q : Fin N}
  {tr : List (Search N M × Action N)}

/-! ## §1  Lines that name records -/

/-- The line names the record at place `k` of the file, which contains the word. -/
def Names (c : Setup N M) (k : ℕ) (line : Fin N × ℤ) : Prop :=
  ∃ r, c.file[k]? = some r ∧ r.Contains c.word ∧ line.2 = r.recId

/-- Every line names another record of the file that contains the word. -/
def RealMatches (c : Setup N M) (lines : List (Fin N × ℤ)) : Prop :=
  ∃ ks : List ℕ, ks.Nodup ∧ List.Forall₂ (Names c) ks lines

/-- When the step is a `read`, the places that it does not fill do not contain the
word. -/
def CleanStep (c : Setup N M) (s : Search N M) : Action N → Prop
  | .run p => (s.thread p).pc = .read →
      ∀ i : Fin M, c.file[s.offset + i]? = none → ¬((s.thread p).recBuff i).Contains c.word
  | .act _ => True

instance (c : Setup N M) (s : Search N M) (a : Action N) : Decidable (CleanStep c s a) :=
  match a with
  | .run p => inferInstanceAs (Decidable ((s.thread p).pc = .read →
      ∀ i : Fin M, c.file[s.offset + i]? = none → ¬((s.thread p).recBuff i).Contains c.word))
  | .act _ => inferInstanceAs (Decidable True)

/-! ## §2  What a clean step preserves -/

/-- `ks` are the records reported so far, and `place p i` is where in the file the
record in place `i` of the buffer of `p` is, if it will still be reported. -/
structure Matched (c : Setup N M) (tr : List (Search N M × Action N)) (s : Search N M)
    (ks : List ℕ) (place : Fin N → Fin M → ℕ) : Prop where
  nodup : ks.Nodup
  lines : List.Forall₂ (Names c) ks (observe found tr)
  below : ∀ k ∈ ks, k < s.offset
  reported : Reported c s
  batch : ∀ p i, s.Ahead c p i → c.file[place p i]? = some ((s.thread p).recBuff i) ∧
    place p i < s.offset ∧ place p i ∉ ks
  apart : ∀ p i q j, s.Ahead c p i → s.Ahead c q j → place p i = place q j → p = q ∧ i = j

theorem matched_init : Matched c [] (search c).init [] fun _ _ => 0 where
  nodup := List.nodup_nil
  lines := List.Forall₂.nil
  below _ hk := absurd hk List.not_mem_nil
  reported _ _ h := nomatch h
  batch _ _ h := h.1.elim
  apart _ _ _ _ h := h.1.elim

namespace Matched

variable {ks : List ℕ} {place : Fin N → Fin M → ℕ}

theorem quiet (h : Matched c tr s ks place) {a : Action N} (hreported : Reported c t)
    (hquiet : Quiet c s t a.thread) (hfound : found s a = []) :
    Matched c (tr ++ [(s, a)]) t ks place := by
  have hback : ∀ q i, t.Ahead c q i →
      s.Ahead c q i ∧ (t.thread q).recBuff = (s.thread q).recBuff := by
    intro q i hi
    by_cases hq : q = a.thread
    · subst hq
      exact ⟨hquiet.behind i hi, hquiet.recBuff⟩
    · rw [Search.ahead_congr (hquiet.others q hq)] at hi
      exact ⟨hi, by rw [hquiet.others q hq]⟩
  refine ⟨h.nodup, ?_, fun k hk => hquiet.offset ▸ h.below k hk, hreported, fun q i hi => ?_,
    fun q i r j hi hj => h.apart q i r j (hback q i hi).1 (hback r j hj).1⟩
  · rw [observe_snoc, hfound, List.append_nil]
    exact h.lines
  · rw [(hback q i hi).2, hquiet.offset]
    exact h.batch q i (hback q i hi).1

theorem read (h : Matched c tr s ks place) (hreported : Reported c (s.read c p))
    (hpc : (s.thread p).pc = .read) (hclean : CleanStep c s (.run p)) :
    Matched c (tr ++ [(s, .run p)]) (s.read c p) ks
      (Function.update place p fun i => s.offset + i) := by
  have hoffset : (s.read c p).offset = s.offset + s.numRead c := rfl
  have hnew : ∀ i, (s.read c p).Ahead c p i → s.offset + i < c.file.length := by
    intro i hi
    by_contra hend
    have hnone := List.getElem?_eq_none (Nat.not_lt.mp hend)
    have hword := hi.2
    rw [Search.read_thread_self] at hword
    simp only [Search.fill, hnone, Option.getD_none] at hword
    exact hclean hpc i hnone hword
  have hold : ∀ q, q ≠ p → ∀ i, (s.read c p).Ahead c q i → s.Ahead c q i := fun q hq i =>
    (Search.ahead_congr (Search.read_thread_of_ne hq) i).mp
  refine ⟨h.nodup, ?_, fun k hk => ?_, hreported, fun q i hi => ?_, fun q i r j hi hj heq => ?_⟩
  · rw [observe_snoc, found_of_read hpc, List.append_nil]
    exact h.lines
  · exact Nat.lt_of_lt_of_le (h.below k hk) (hoffset ▸ Nat.le_add_right _ _)
  · by_cases hq : q = p
    · subst hq
      have hlt := hnew i hi
      rw [Function.update_self, Search.read_thread_self, hoffset]
      refine ⟨?_, ?_, fun hk => ?_⟩
      · simp only [Search.fill, List.getElem?_eq_getElem hlt, Option.getD_some]
      · have := i.isLt
        unfold Search.numRead
        omega
      · exact absurd (h.below _ hk) (Nat.not_lt.mpr (Nat.le_add_right _ _))
    · obtain ⟨hget, hlt, hk⟩ := h.batch q i (hold q hq i hi)
      rw [Function.update_of_ne hq, Search.read_thread_of_ne hq, hoffset]
      exact ⟨hget, Nat.lt_of_lt_of_le hlt (Nat.le_add_right _ _), hk⟩
  · by_cases hq : q = p <;> by_cases hr : r = p
    · subst hq
      subst hr
      rw [Function.update_self] at heq
      exact ⟨rfl, Fin.ext (Nat.add_left_cancel heq)⟩
    · subst hq
      rw [Function.update_self, Function.update_of_ne hr] at heq
      have hlt := (h.batch r j (hold r hr j hj)).2.1
      omega
    · subst hr
      rw [Function.update_self, Function.update_of_ne hq] at heq
      have hlt := (h.batch q i (hold q hq i hi)).2.1
      omega
    · rw [Function.update_of_ne hq, Function.update_of_ne hr] at heq
      exact h.apart q i r j (hold q hq i hi) (hold r hr j hj) heq

theorem report (h : Matched c tr s ks place) {i : Fin M}
    (hpc : (s.thread p).pc = .report i)
    (ht : t = s.set p { s.thread p with pc := .cancel i 0, shouldLoop := false })
    (hreported : Reported c t) :
    Matched c (tr ++ [(s, .run p)]) t (ks ++ [place p i]) place := by
  have hself : t.thread p = { s.thread p with pc := .cancel i 0, shouldLoop := false } := by
    rw [ht, Search.set_thread_self]
  have hothers : ∀ q, q ≠ p → t.thread q = s.thread q := fun q hq => by
    rw [ht, Search.set_thread_of_ne _ hq]
  have hoffset : t.offset = s.offset := by
    rw [ht]
    rfl
  have hahead : s.Ahead c p i := ⟨by rw [hpc]; exact le_rfl, h.reported p i hpc⟩
  obtain ⟨hget, hlt, hk⟩ := h.batch p i hahead
  have hback : ∀ q j, t.Ahead c q j → s.Ahead c q j ∧ ¬(q = p ∧ j = i) ∧
      (t.thread q).recBuff = (s.thread q).recBuff := by
    intro q j hj
    by_cases hq : q = p
    · subst hq
      unfold Search.Ahead at hj ⊢
      rw [hself] at hj ⊢
      refine ⟨⟨?_, hj.2⟩, fun heq => ?_, rfl⟩
      · rw [hpc]
        exact Nat.le_of_lt hj.1
      · exact absurd hj.1 (heq.2 ▸ Nat.lt_irrefl _)
    · rw [Search.ahead_congr (hothers q hq)] at hj
      exact ⟨hj, fun heq => hq heq.1, by rw [hothers q hq]⟩
  refine ⟨?_, ?_, fun k hmem => hoffset ▸ ?_, hreported, fun q j hj => ?_,
    fun q j r l hj hl => h.apart q j r l (hback q j hj).1 (hback r l hl).1⟩
  · exact List.nodup_append.mpr ⟨h.nodup, List.nodup_singleton _, fun a ha b hb hab => by
      rw [hab, List.mem_singleton.mp hb] at ha
      exact hk ha⟩
  · rw [observe_snoc, found_of_report hpc]
    exact List.rel_append h.lines
      (List.Forall₂.cons ⟨_, hget, hahead.2, rfl⟩ List.Forall₂.nil)
  · rcases List.mem_append.mp hmem with hmem | hmem
    · exact h.below k hmem
    · rw [List.mem_singleton.mp hmem]
      exact hlt
  · obtain ⟨hj, hne, hbuff⟩ := hback q j hj
    obtain ⟨hget', hlt', hk'⟩ := h.batch q j hj
    rw [hbuff, hoffset]
    refine ⟨hget', hlt', fun hmem => ?_⟩
    rcases List.mem_append.mp hmem with hmem | hmem
    · exact hk' hmem
    · exact hne (h.apart q j p i hj hahead (List.mem_singleton.mp hmem))

theorem next (h : Matched c tr s ks place) {a : Action N} (hclean : CleanStep c s a)
    (hn : (search c).next s a = some t) :
    ∃ ks place, Matched c (tr ++ [(s, a)]) t ks place := by
  have hreported := h.reported.next hn
  rcases next_cases hn with ⟨hquiet, hfound, -⟩ | ⟨p, rfl, hpc, rfl⟩ | ⟨p, i, rfl, hpc, ht⟩
  · exact ⟨ks, place, h.quiet hreported hquiet hfound⟩
  · exact ⟨ks, _, h.read hreported hpc hclean⟩
  · exact ⟨_, place, h.report hpc ht hreported⟩

end Matched

/-! ## §3  The search reports real matches, unless memory is dirty -/

/-- **The search reports only real matches**, and each at most once, in every run of
each variant in which no `read` leaves the word in the part of a buffer that it does
not fill. -/
theorem clean_search_reports_real_matches (h : (search c).Run tr s)
    (hclean : ∀ x ∈ tr, CleanStep c x.1 x.2) : RealMatches c (observe found tr) := by
  obtain ⟨ks, place, hs⟩ := h.invariant_of_steps
    (I := fun tr s => ∃ ks place, Matched c tr s ks place) hclean ⟨_, _, matched_init⟩
    fun _ _ _ _ ⟨_, _, hs⟩ ha hn => hs.next ha hn
  exact ⟨ks, hs.nodup, hs.lines⟩

/-- No line that names record 9 is right. -/
theorem not_realMatches_dirtyMemory (mode : CancelMode) :
    ¬RealMatches (dirtyMemory mode) [(0, 9)] := by
  rintro ⟨ks, -, hlines⟩
  obtain ⟨hnames, -⟩ := List.forall₂_cons_right_iff.mp hlines |>.choose_spec.choose_spec
  obtain ⟨r, hget, hword, -⟩ := hnames
  obtain rfl := List.mem_singleton.mp (List.mem_of_getElem? hget)
  exact Bool.noConfusion (Record.strstr_text.mpr hword)

/-- In each variant the thread reads one record and reports what `malloc` left behind
it. -/
theorem search_reports_dirty_memory :
    ¬∀ (mode : CancelMode) (N M : ℕ) (file : List Record) (word : List Byte)
      (malloc : Fin N → Fin M → Record) (tr : List (Search N M × Action N)) (s : Search N M),
      (search ⟨mode, file, word, malloc⟩).Run tr s →
        RealMatches ⟨mode, file, word, malloc⟩ (observe found tr) := by
  intro hall
  have h := (search (dirtyMemory .deferred)).run_of_replay (List.replicate 8 (.run 0)) rfl
  obtain ⟨tr, s, h, hfound⟩ : ∃ tr s, (search (dirtyMemory .deferred)).Run tr s ∧
      observe found tr = [(0, 9)] := ⟨_, _, h, rfl⟩
  have hreal := hall _ _ _ _ _ _ _ _ h
  rw [hfound] at hreal
  exact not_realMatches_dirtyMemory .deferred hreal

/-- One thread reports the second record; the other one gets the third and has a place
left that nothing was read into. -/
theorem clean_search_reports_real_matches_two : ∃ tr s,
    (search (.threeRecords .deferred)).Run tr s ∧ observe found tr = [(0, 1)] ∧
    RealMatches (.threeRecords .deferred) (observe found tr) := by
  have h := (search (.threeRecords .deferred)).run_of_replay
    (List.replicate 10 (.run 0) ++ List.replicate 4 (.run 1)) rfl
  obtain ⟨tr, s, h, hfound, hclean⟩ : ∃ tr s, (search (.threeRecords .deferred)).Run tr s ∧
      observe found tr = [(0, 1)] ∧ ∀ x ∈ tr, CleanStep (.threeRecords .deferred) x.1 x.2 :=
    ⟨_, _, h, rfl, by decide⟩
  exact ⟨tr, s, h, hfound, clean_search_reports_real_matches h hclean⟩

/-! ## §4  Only the first batch of a thread can be dirty -/

/-- The thread has called `read`. -/
def HasRead (tr : List (Search N M × Action N)) (p : Fin N) : Prop :=
  ∃ x ∈ tr, x.2 = .run p ∧ (x.1.thread p).pc = .read

/-- While the thread goes on, all places of its buffer that contain the word are
ahead of it. -/
def Remaining (c : Setup N M) (x : Searcher M) : Prop :=
  x.shouldLoop = true → x.pc ≠ .cancelled → ∀ i, (x.recBuff i).Contains c.word → x.pc.ahead i

theorem remaining_next (hs : ∀ p, HasRead tr p → Remaining c (s.thread p)) {a : Action N}
    (hn : (search c).next s a = some t) (q : Fin N) (hread : HasRead (tr ++ [(s, a)]) q) :
    Remaining c (t.thread q) := by
  obtain ⟨x, hx, hrun, hpc⟩ := hread
  rcases List.mem_append.mp hx with hx | hx
  · have hq := hs q ⟨x, hx, hrun, hpc⟩
    rcases next_cases hn with ⟨hquiet, -, -⟩ | ⟨p, rfl, -, rfl⟩ | ⟨p, i, rfl, -, rfl⟩
    · by_cases hqa : q = a.thread
      · subst hqa
        intro hloop hgo i hword
        rw [hquiet.recBuff] at hword
        have hgoing : (s.thread a.thread).pc ≠ .cancelled := by
          intro hpc
          have hended := ended_eq_false hn
          rw [hpc] at hended
          exact Bool.noConfusion hended
        exact (hquiet.ahead (Or.inr hgo) i
          ⟨hq (hquiet.loops hloop) hgoing i hword, hword⟩).1
      · rwa [hquiet.others q hqa]
    · by_cases hqp : q = p
      · subst hqp
        rw [Search.read_thread_self]
        exact fun _ _ _ _ => trivial
      · rwa [Search.read_thread_of_ne hqp]
    · by_cases hqp : q = p
      · subst hqp
        rw [Search.set_thread_self]
        exact fun hloop => Bool.noConfusion hloop
      · rwa [Search.set_thread_of_ne _ hqp]
  · obtain rfl := List.mem_singleton.mp hx
    dsimp only at hrun hpc
    subst hrun
    have hread : t = s.read c q := by cases threadStep hn <;> simp_all
    subst hread
    rw [Search.read_thread_self]
    exact fun _ _ _ _ => trivial

/-- **A stale batch is clean**: only the first `read` of a thread can leave the word in
its buffer. -/
theorem later_read_clean (h : (search c).Run tr s) (hread : HasRead tr p) :
    CleanStep c s (.run p) := by
  have hremaining := h.invariant
    (I := fun tr s => ∀ p, HasRead tr p → Remaining c (s.thread p))
    (fun _ hread => absurd hread.choose_spec.1 List.not_mem_nil)
    fun _ _ _ _ hs hn q => remaining_next hs hn q
  intro hpc i _ hword
  have hloop := run_looping h p true (by rw [hpc]; rfl)
  have hahead := hremaining p hread hloop (by rw [hpc]; nofun) i hword
  rw [hpc] at hahead
  exact hahead

end Sysopy.ThreadedSearch
