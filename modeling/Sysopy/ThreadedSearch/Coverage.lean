import Sysopy.ThreadedSearch.Batches

/-!
# The search misses nothing when cancellation is disabled

A thread stops after a batch that was not full, and then the file is at its end, or
after it has found the word. In a full batch every place holds a record of the
file, so what was found there is one. A record that was read is ahead of the thread
that read it until that thread has reported it.

## Sections

* §1 what a thread knows when it stops
* §2 every record that was read is covered
* §3 nothing is missed
-/

namespace Sysopy.ThreadedSearch

open Sysopy.Foundation

variable {N M : ℕ} {c : Setup N M} {s t : Search N M} {p q : Fin N}
  {tr : List (Search N M × Action N)}

/-- A record of the file with the word has been reported. -/
def Real (c : Setup N M) (tr : List (Search N M × Action N)) : Prop :=
  ∃ r ∈ c.file, r.Contains c.word ∧ ∃ p, (p, r.recId) ∈ observe found tr

theorem Real.snoc (h : Real c tr) (x : Search N M × Action N) : Real c (tr ++ [x]) := by
  obtain ⟨r, hr, hword, p, hfound⟩ := h
  refine ⟨r, hr, hword, p, ?_⟩
  rw [observe_snoc]
  exact List.mem_append_left _ hfound

theorem real_of_report {i : Fin M} (hpc : (s.thread p).pc = .report i)
    (hmem : (s.thread p).recBuff i ∈ c.file)
    (hword : ((s.thread p).recBuff i).Contains c.word) : Real c (tr ++ [(s, .run p)]) := by
  refine ⟨_, hmem, hword, p, ?_⟩
  rw [observe_snoc]
  apply List.mem_append_right
  simp [found, hpc]

/-! ## §1  What a thread knows when it stops -/

def Pc.hasBatch : Pc M → Bool
  | .unlock _ | .testcancel _ | .scan _ | .report _ | .cancel _ _ => true
  | _ => false

/-- `offset` records have been read; `real` says that a record with the word was
reported. -/
structure Kept (c : Setup N M) (offset : ℕ) (real : Prop) (x : Searcher M) : Prop where
  short : ∀ n, x.pc = .unlock n ∨ x.pc = .testcancel n → n < M → c.file.length ≤ offset
  fresh : x.pc.hasBatch = true → c.file.length ≤ offset ∨ ∀ i, x.recBuff i ∈ c.file
  stops : x.shouldLoop = false → c.file.length ≤ offset ∨ real
  done : x.pc = .done → x.shouldLoop = false

namespace Kept

variable {offset offset' : ℕ} {real real' : Prop} {x : Searcher M}

theorem mono (h : Kept c offset real x) (hle : offset ≤ offset') (hreal : real → real') :
    Kept c offset' real' x where
  short n hpc hn := (h.short n hpc hn).trans hle
  fresh hbatch := (h.fresh hbatch).imp_left fun hend => hend.trans hle
  stops hstop := (h.stops hstop).imp (fun hend => hend.trans hle) hreal
  done := h.done

theorem goto (h : Kept c offset real x) {k : Pc M}
    (hshort : ∀ n, k = .unlock n ∨ k = .testcancel n → x.pc = .unlock n)
    (hbatch : k.hasBatch = true → x.pc.hasBatch = true)
    (hdone : k = .done → x.shouldLoop = false) : Kept c offset real { x with pc := k } where
  short n hk := h.short n (Or.inl (hshort n hk))
  fresh hk := h.fresh (hbatch hk)
  stops := h.stops
  done := hdone

end Kept

theorem Search.numRead_lt (h : s.numRead c < M) :
    c.file.length ≤ s.offset + s.numRead c := by
  unfold Search.numRead at h ⊢
  omega

/-- Unless the file is at its end a `read` fills the whole buffer. -/
theorem Search.fill_mem (hle : s.offset ≤ c.file.length) (recBuff : Fin M → Record) :
    c.file.length ≤ s.offset + s.numRead c ∨
      ∀ i, Search.fill c.file s.offset recBuff i ∈ c.file := by
  rcases Nat.lt_or_ge (s.numRead c) M with hn | hn
  · exact Or.inl (Search.numRead_lt hn)
  · refine Or.inr fun i => ?_
    have hi : s.offset + i < c.file.length := by
      have := i.isLt
      unfold Search.numRead at hn
      omega
    unfold Search.fill
    rw [List.getElem?_eq_getElem hi]
    exact List.getElem_mem hi

/-- **A thread that stops has come to the end of the file or found a record.** -/
theorem Kept.run {real : Prop} (h : Kept c s.offset real (s.thread p))
    (hle : s.offset ≤ c.file.length)
    (hreal : ∀ i, (s.thread p).pc = .report i → (s.thread p).recBuff i ∈ c.file → real)
    (hn : s.threadWorkFunction c p = some t) : Kept c t.offset real (t.thread p) := by
  cases threadStep hn with
  | start hpc =>
      rw [Search.goto_thread_self]
      exact h.goto nofun nofun nofun
  | lock hpc =>
      simp only [Search.goto_thread_self]
      exact h.goto nofun nofun nofun
  | read hpc =>
      rw [Search.read_thread_self]
      refine ⟨fun n hn hlt => ?_, fun _ => Search.fill_mem hle _, fun hstop => ?_, nofun⟩
      · rcases hn with hn | hn
        · obtain rfl := Pc.unlock.inj hn
          exact Search.numRead_lt hlt
        · exact nomatch hn
      · exact (h.stops hstop).imp_left fun hend => hend.trans (Nat.le_add_right _ _)
  | unlock n hpc =>
      simp only [Search.goto_thread_self]
      refine h.goto (fun m hm => ?_) (fun _ => by rw [hpc]; rfl) nofun
      rcases hm with hm | hm
      · exact nomatch hm
      · obtain rfl := Pc.testcancel.inj hm
        exact hpc
  | testcancel n hpc =>
      rw [Search.set_thread_self]
      refine ⟨nofun, fun _ => h.fresh (by rw [hpc]; rfl), fun hstop => ?_, nofun⟩
      dsimp only at hstop
      split_ifs at hstop with hlt
      -- a batch that does not fill the buffer ends with the file
      · exact Or.inl (h.short n (Or.inr hpc) hlt)
      · exact h.stops hstop
  | word i hpc =>
      rw [Search.goto_thread_self]
      exact h.goto nofun (fun _ => by rw [hpc]; rfl) nofun
  | noWord i hpc =>
      rw [Search.goto_thread_self]
      exact h.goto nofun (fun _ => by rw [hpc]; rfl) nofun
  | again k hpc =>
      rw [Search.goto_thread_self]
      exact h.goto nofun nofun nofun
  | stop k hpc _ hstop =>
      rw [Search.goto_thread_self]
      exact h.goto nofun nofun fun _ => hstop
  | report i hpc =>
      rw [Search.set_thread_self]
      have hfresh := h.fresh (by rw [hpc]; rfl)
      refine ⟨nofun, fun _ => hfresh, fun _ => ?_, nofun⟩
      -- what it reports is a record of the batch, if it has read one
      exact hfresh.imp_right fun hmem => hreal i hpc (hmem i)
  | itself i hpc =>
      rw [Search.goto_thread_self]
      exact h.goto nofun (fun _ => by rw [hpc]; rfl) nofun
  | other i r hpc =>
      simp only [Search.goto_thread_self]
      exact h.goto nofun (fun _ => by rw [hpc]; rfl) nofun
  | back i j hpc =>
      rw [Search.goto_thread_self]
      exact h.goto nofun (fun _ => by rw [hpc]; rfl) nofun

/-! ## §2  Every record that was read is covered -/

/-- What holds in every state of a run in which no cancellation acts. -/
structure Covered (c : Setup N M) (tr : List (Search N M × Action N)) (s : Search N M) :
    Prop where
  le : s.offset ≤ c.file.length
  order : (observe (delivered c) tr).map Prod.snd = List.range s.offset
  reported : Reported c s
  kept : ∀ p, Kept c s.offset (Real c tr) (s.thread p)
  covered : ∀ k r, k < s.offset → c.file[k]? = some r → r.Contains c.word →
    Real c tr ∨ ∃ p i, s.Ahead c p i ∧ (s.thread p).recBuff i = r

theorem covered_init : Covered c [] (search c).init where
  le := Nat.zero_le _
  order := rfl
  reported _ _ h := nomatch h
  kept _ := ⟨nofun, nofun, nofun, nofun⟩
  covered _ _ hk := absurd hk (Nat.not_lt_zero _)

theorem Kept.next (hmode : c.mode = .disabled) (hs : Covered c tr s) {a : Action N}
    (hn : (search c).next s a = some t) (hle : s.offset ≤ t.offset)
    (hothers : ∀ q, q ≠ a.thread → t.thread q = s.thread q) (q : Fin N) :
    Kept c t.offset (Real c (tr ++ [(s, a)])) (t.thread q) := by
  cases a with
  | act p =>
      obtain ⟨-, -, hact⟩ := actCancel_eq_some hn
      rw [hmode] at hact
      exact absurd hact Bool.false_ne_true
  | run p =>
      by_cases hq : q = p
      · subst hq
        refine ((hs.kept q).mono le_rfl fun hreal => hreal.snoc _).run hs.le ?_ hn
        exact fun i hpc hmem => real_of_report hpc hmem (hs.reported q i hpc)
      · rw [hothers q hq]
        exact (hs.kept q).mono hle fun hreal => hreal.snoc _

theorem Covered.next (hmode : c.mode = .disabled) (hs : Covered c tr s) {a : Action N}
    (hn : (search c).next s a = some t) : Covered c (tr ++ [(s, a)]) t := by
  have hreported := hs.reported.next hn
  rcases next_cases hn with ⟨hquiet, -, hdelivered⟩ | ⟨p, rfl, hpc, rfl⟩ | ⟨p, i, rfl, hpc, rfl⟩
  · refine ⟨hquiet.offset ▸ hs.le, ?_, hreported,
      Kept.next hmode hs hn hquiet.offset.ge hquiet.others, fun k r hk hget hword => ?_⟩
    · rw [observe_snoc, hdelivered, List.append_nil, hquiet.offset]
      exact hs.order
    · rcases hs.covered k r (hquiet.offset ▸ hk) hget hword with hreal | ⟨q, i, hahead, hbuff⟩
      · exact Or.inl (hreal.snoc _)
      · refine Or.inr ⟨q, i, ?_⟩
        by_cases hq : q = a.thread
        · subst hq
          exact ⟨hquiet.ahead (Or.inl hmode) i hahead, hquiet.recBuff ▸ hbuff⟩
        · rw [Search.ahead_congr (hquiet.others q hq), hquiet.others q hq]
          exact ⟨hahead, hbuff⟩
  · have hoffset : (s.read c p).offset = s.offset + s.numRead c := rfl
    refine ⟨?_, ?_, hreported, Kept.next hmode hs hn (hoffset ▸ Nat.le_add_right _ _)
      fun q hq => Search.read_thread_of_ne hq, fun k r hk hget hword => ?_⟩
    · have hle := hs.le
      rw [hoffset]
      unfold Search.numRead
      omega
    · have hrecords : (delivered c s (.run p)).map Prod.snd =
          List.range' s.offset (s.numRead c) := by
        simp [delivered, hpc, Function.comp_def]
      rw [observe_snoc, List.map_append, hs.order, hrecords, hoffset, List.range_eq_range',
        List.range_eq_range', ← List.range'_append_1, Nat.zero_add]
    · rcases Nat.lt_or_ge k s.offset with hold | hnew
      · rcases hs.covered k r hold hget hword with hreal | ⟨q, i, hahead, hbuff⟩
        · exact Or.inl (hreal.snoc _)
        -- the thread that reads has nothing of the old batch ahead
        · have hq : q ≠ p := by
            rintro rfl
            have hnone := hahead.1
            rw [hpc] at hnone
            exact hnone
          refine Or.inr ⟨q, i, ?_⟩
          rw [Search.ahead_congr (Search.read_thread_of_ne hq), Search.read_thread_of_ne hq]
          exact ⟨hahead, hbuff⟩
      · -- the record is in the new batch
        have hi : k - s.offset < M := by
          rw [hoffset] at hk
          unfold Search.numRead at hk
          omega
        have hbuff : ((s.read c p).thread p).recBuff ⟨k - s.offset, hi⟩ = r := by
          rw [Search.read_thread_self]
          simp only [Search.fill, Nat.add_sub_cancel' hnew, hget, Option.getD_some]
        refine Or.inr ⟨p, ⟨k - s.offset, hi⟩, ⟨?_, ?_⟩, hbuff⟩
        · rw [Search.read_thread_self]
          trivial
        · rwa [hbuff]
  · refine ⟨hs.le, ?_, hreported, Kept.next hmode hs hn le_rfl
      fun q hq => Search.set_thread_of_ne _ hq, fun k r hk hget hword => ?_⟩
    · rw [observe_snoc, delivered, hpc, List.append_nil]
      exact hs.order
    · rcases hs.covered k r hk hget hword with hreal | ⟨q, j, hahead, rfl⟩
      · exact Or.inl (hreal.snoc _)
      · by_cases hq : q = p
        · subst hq
          by_cases hj : j = i
          · -- this is the record that is reported
            subst hj
            exact Or.inl (real_of_report hpc (List.mem_of_getElem? hget) hword)
          · refine Or.inr ⟨q, j, ⟨?_, ?_⟩, ?_⟩ <;> rw [Search.set_thread_self]
            · have hle := hahead.1
              rw [hpc] at hle
              exact Nat.lt_of_le_of_ne hle fun h => hj (Fin.ext h.symm)
            · exact hword
        · refine Or.inr ⟨q, j, ?_⟩
          rw [Search.ahead_congr (Search.set_thread_of_ne _ hq), Search.set_thread_of_ne _ hq]
          exact ⟨hahead, rfl⟩

theorem run_covered (hmode : c.mode = .disabled) (h : (search c).Run tr s) : Covered c tr s :=
  h.invariant (I := fun tr s => Covered c tr s) covered_init
    fun _ _ _ _ hs hn => hs.next hmode hn

/-! ## §3  Nothing is missed -/

/-- **The threaded search misses nothing** (zad1c), for every file, word, number of
threads from one on and batch size, and in every interleaving: the records are
delivered one by one from the first on, so none to two threads, and when all
threads have returned and the text of some record contains the word, a `Found` line
was printed for a record that contains it. -/
theorem search_misses_nothing (hmode : c.mode = .disabled) (h : (search c).Run tr s) :
    ((observe (delivered c) tr).map Prod.snd).Nodup ∧
    (0 < N → (∀ p, (s.thread p).pc = .done) →
      (∃ r ∈ c.file, r.Contains c.word) → Real c tr) := by
  have hs := run_covered hmode h
  constructor
  · rw [hs.order]
    exact List.nodup_range
  · rintro hN hdone ⟨r, hr, hword⟩
    obtain ⟨k, hk, rfl⟩ := List.getElem_of_mem hr
    have hstop := (hs.kept ⟨0, hN⟩).done (hdone ⟨0, hN⟩)
    rcases (hs.kept ⟨0, hN⟩).stops hstop with hend | hreal
    · have hget := List.getElem?_eq_getElem hk
      rcases hs.covered k _ (Nat.lt_of_lt_of_le hk hend) hget hword with
        hreal | ⟨p, i, hahead, -⟩
      · exact hreal
      · have hnone := hahead.1
        rw [hdone p] at hnone
        exact hnone.elim
    · exact hreal

/-- One thread finds the word in a full batch, the other one gets the third record. -/
theorem search_misses_nothing_two : ∃ tr s, (search (.threeRecords .disabled)).Run tr s ∧
    (∀ p, (s.thread p).pc = .done) ∧ Real (.threeRecords .disabled) tr := by
  have h := (search (.threeRecords .disabled)).run_of_replay
    (List.replicate 12 (.run 0) ++ List.replicate 8 (.run 1)) rfl
  obtain ⟨tr, s, h, hdone⟩ : ∃ tr s, (search (.threeRecords .disabled)).Run tr s ∧
      ∀ p, (s.thread p).pc = .done := ⟨_, _, h, by decide⟩
  exact ⟨tr, s, h, hdone, (search_misses_nothing rfl h).2 (by decide) hdone
    ⟨_, List.mem_cons_of_mem _ List.mem_cons_self, Record.strstr_text.mp rfl⟩⟩

end Sysopy.ThreadedSearch
