import Sysopy.ThreadedSearch.Search

/-!
# Batches of the threaded search

What a thread will still report is fixed by its buffer and by where it is in the
loop over the records. Only two steps change it: `read`, which gives the thread a
new batch, and the `printf` of a record. All other steps are quiet.

## Sections

* §1 the records ahead of a thread
* §2 what a step can do
* §3 who reports has found
* §4 who goes on has found nothing
-/

namespace Sysopy.ThreadedSearch

open Sysopy.Foundation

variable {N M : ℕ} {c : Setup N M} {s t : Search N M} {p q : Fin N}

@[simp] theorem Search.set_thread_self (x : Searcher M) : (s.set p x).thread p = x :=
  Function.update_self ..

@[simp] theorem Search.goto_thread_self (k : Pc M) :
    (s.goto p k).thread p = { s.thread p with pc := k } :=
  Function.update_self ..

theorem Search.set_thread_of_ne (x : Searcher M) (h : q ≠ p) :
    (s.set p x).thread q = s.thread q :=
  Function.update_of_ne h ..

@[simp] theorem Search.read_thread_self : (s.read c p).thread p = { s.thread p with
    pc := .unlock (s.numRead c),
    recBuff := Search.fill c.file s.offset (s.thread p).recBuff } :=
  Function.update_self ..

theorem Search.read_thread_of_ne (h : q ≠ p) : (s.read c p).thread q = s.thread q :=
  Function.update_of_ne h ..

/-! ## §1  The records ahead of a thread -/

/-- A thread at this place will still test place `k` of its buffer. -/
def Pc.ahead : Pc M → ℕ → Prop
  | .unlock _, _ => True
  | .testcancel _, _ => True
  | .scan i, k => i ≤ k
  | .report i, k => i ≤ k
  | .cancel i _, k => i < k
  | _, _ => False

/-- The thread will still report place `i` of its buffer, or is about to. -/
def Search.Ahead (s : Search N M) (c : Setup N M) (p : Fin N) (i : Fin M) : Prop :=
  (s.thread p).pc.ahead i ∧ ((s.thread p).recBuff i).Contains c.word

theorem Search.ahead_congr (h : t.thread p = s.thread p) (i : Fin M) :
    t.Ahead c p i ↔ s.Ahead c p i := by
  unfold Search.Ahead
  rw [h]

/-! ## §2  What a step can do -/

/-- The steps of a thread, with the branch that each of them takes. -/
inductive ThreadStep (c : Setup N M) (s : Search N M) (p : Fin N) : Search N M → Prop
  | start : (s.thread p).pc = .start → ThreadStep c s p (s.goto p .lock)
  | lock : (s.thread p).pc = .lock → s.readProtectMutex = none →
      ThreadStep c s p { s.goto p .read with readProtectMutex := some p }
  | read : (s.thread p).pc = .read → ThreadStep c s p (s.read c p)
  | unlock (n : ℕ) : (s.thread p).pc = .unlock n →
      ThreadStep c s p { s.goto p (.testcancel n) with readProtectMutex := none }
  | testcancel (n : ℕ) : (s.thread p).pc = .testcancel n →
      ThreadStep c s p (s.set p { s.thread p with
        pc := .scan 0, shouldLoop := if n < M then false else (s.thread p).shouldLoop })
  | word (i : Fin M) : (s.thread p).pc = .scan i → ((s.thread p).recBuff i).Contains c.word →
      ThreadStep c s p (s.goto p (.report i))
  | noWord (i : Fin M) : (s.thread p).pc = .scan i →
      ¬((s.thread p).recBuff i).Contains c.word →
      ThreadStep c s p (s.goto p (.scan (i + 1)))
  | again (k : ℕ) : (s.thread p).pc = .scan k → M ≤ k → (s.thread p).shouldLoop = true →
      ThreadStep c s p (s.goto p .lock)
  | stop (k : ℕ) : (s.thread p).pc = .scan k → M ≤ k → (s.thread p).shouldLoop = false →
      ThreadStep c s p (s.goto p .done)
  | report (i : Fin M) : (s.thread p).pc = .report i →
      ThreadStep c s p (s.set p { s.thread p with pc := .cancel i 0, shouldLoop := false })
  | itself (i : Fin M) : (s.thread p).pc = .cancel i p →
      ThreadStep c s p (s.goto p (.cancel i (p + 1)))
  | other (i : Fin M) (r : Fin N) : (s.thread p).pc = .cancel i r → r ≠ p →
      ThreadStep c s p { s.goto p (.cancel i (r + 1)) with
        pending := Function.update s.pending r true }
  | back (i : Fin M) (j : ℕ) : (s.thread p).pc = .cancel i j → N ≤ j →
      ThreadStep c s p (s.goto p (.scan (i + 1)))

theorem threadStep (hn : s.threadWorkFunction c p = some t) : ThreadStep c s p t := by
  unfold Search.threadWorkFunction at hn
  cases hpc : (s.thread p).pc with
  | start =>
      simp only [hpc, Option.some.injEq] at hn
      exact hn ▸ .start hpc
  | lock =>
      simp only [hpc] at hn
      split_ifs at hn with hfree
      obtain rfl := Option.some.inj hn
      exact .lock hpc hfree
  | read =>
      simp only [hpc, Option.some.injEq] at hn
      exact hn ▸ .read hpc
  | unlock n =>
      simp only [hpc, Option.some.injEq] at hn
      exact hn ▸ .unlock n hpc
  | testcancel n =>
      simp only [hpc, Option.some.injEq] at hn
      exact hn ▸ .testcancel n hpc
  | scan k =>
      simp only [hpc, Option.some.injEq] at hn
      subst hn
      unfold Search.scan
      split_ifs with hk hword hloop
      · exact .word ⟨k, hk⟩ hpc (Record.strstr_text.mp hword)
      · exact .noWord ⟨k, hk⟩ hpc fun h => hword (Record.strstr_text.mpr h)
      · exact .again k hpc (Nat.not_lt.mp hk) hloop
      · exact .stop k hpc (Nat.not_lt.mp hk) (Bool.eq_false_iff.mpr hloop)
  | report i =>
      simp only [hpc, Option.some.injEq] at hn
      exact hn ▸ .report i hpc
  | cancel i j =>
      simp only [hpc, Option.some.injEq] at hn
      subst hn
      unfold Search.cancelOther
      split_ifs with hj hself
      · subst hself
        exact .itself i hpc
      · exact .other i ⟨j, hj⟩ hpc hself
      · exact .back i j hpc (Nat.not_lt.mp hj)
  | done => simp [hpc] at hn
  | cancelled => simp [hpc] at hn

theorem actCancel_eq_some (hn : s.actCancel c p = some t) : t = s.goto p .cancelled ∧
    s.pending p = true ∧ (s.thread p).pc.cancellable c.mode = true := by
  unfold Search.actCancel at hn
  split_ifs at hn with hact
  exact ⟨(Option.some.inj hn).symm, hact⟩

/-- A step of `p` that gets no batch and reports nothing. Only a cancellation takes
something away from what is ahead. -/
structure Quiet (c : Setup N M) (s t : Search N M) (p : Fin N) : Prop where
  offset : t.offset = s.offset
  others : ∀ q, q ≠ p → t.thread q = s.thread q
  recBuff : (t.thread p).recBuff = (s.thread p).recBuff
  behind : ∀ i, t.Ahead c p i → s.Ahead c p i
  ahead : c.mode = .disabled ∨ (t.thread p).pc ≠ .cancelled →
    ∀ i, s.Ahead c p i → t.Ahead c p i
  loops : (t.thread p).shouldLoop = true → (s.thread p).shouldLoop = true
  report : ∀ i, (t.thread p).pc = .report i → ((s.thread p).recBuff i).Contains c.word

theorem Quiet.of_update {x : Searcher M} (hoffset : t.offset = s.offset)
    (hthread : t.thread = Function.update s.thread p x)
    (hbuff : x.recBuff = (s.thread p).recBuff)
    (hloop : x.shouldLoop = true → (s.thread p).shouldLoop = true)
    (hreport : ∀ i, x.pc = .report i → ((s.thread p).recBuff i).Contains c.word)
    (hahead : ∀ i : Fin M, ((s.thread p).recBuff i).Contains c.word →
      (x.pc.ahead i ↔ (s.thread p).pc.ahead i)) : Quiet c s t p := by
  have hself : t.thread p = x := by
    rw [hthread]
    exact Function.update_self ..
  have hiff : ∀ i, t.Ahead c p i ↔ s.Ahead c p i := by
    intro i
    unfold Search.Ahead
    rw [hself, hbuff]
    exact and_congr_left fun hword => hahead i hword
  refine ⟨hoffset, fun q hq => ?_, ?_, fun i => (hiff i).mp, fun _ i => (hiff i).mpr,
    fun h => hloop (hself ▸ h), fun i hi => hreport i (hself ▸ hi)⟩
  · rw [hthread, Function.update_of_ne hq]
  · rw [hself, hbuff]

theorem Quiet.of_goto {k : Pc M} (hoffset : t.offset = s.offset)
    (hthread : t.thread = (s.goto p k).thread)
    (hreport : ∀ i, k = .report i → ((s.thread p).recBuff i).Contains c.word)
    (hahead : ∀ i : Fin M, ((s.thread p).recBuff i).Contains c.word →
      (k.ahead i ↔ (s.thread p).pc.ahead i)) : Quiet c s t p :=
  .of_update hoffset hthread rfl id hreport hahead

def Pc.observed : Pc M → Bool
  | .read | .report _ => true
  | _ => false

theorem found_of_not_observed (h : (s.thread p).pc.observed = false) :
    found s (.run p) = [] := by
  unfold found
  dsimp only
  split
  · rename_i i hpc
    rw [hpc] at h
    exact Bool.noConfusion h
  · rfl

theorem delivered_of_not_observed (h : (s.thread p).pc.observed = false) :
    delivered c s (.run p) = [] := by
  unfold delivered
  dsimp only
  split
  · rename_i hpc
    rw [hpc] at h
    exact Bool.noConfusion h
  · rfl

theorem found_of_read (h : (s.thread p).pc = .read) : found s (.run p) = [] := by
  unfold found
  dsimp only
  rw [h]

theorem found_of_report {i : Fin M} (h : (s.thread p).pc = .report i) :
    found s (.run p) = [(p, ((s.thread p).recBuff i).recId)] := by
  unfold found
  dsimp only
  rw [h]

def Action.thread : Action N → Fin N
  | .run p => p
  | .act p => p

/-- A step is quiet, or a `read`, or the `printf` of a `Found` line. -/
theorem next_cases {a : Action N} (hn : (search c).next s a = some t) :
    (Quiet c s t a.thread ∧ found s a = [] ∧ delivered c s a = []) ∨
    (∃ p, a = .run p ∧ (s.thread p).pc = .read ∧ t = s.read c p) ∨
    ∃ p i, a = .run p ∧ (s.thread p).pc = .report i ∧
      t = s.set p { s.thread p with pc := .cancel i 0, shouldLoop := false } := by
  cases a with
  | act p =>
      obtain ⟨rfl, hact⟩ := actCancel_eq_some hn
      refine Or.inl ⟨⟨rfl, fun q hq => Search.set_thread_of_ne _ hq, ?_, fun i hi => ?_,
        fun hmode => ?_, fun h => ?_, fun i hi => ?_⟩, rfl, rfl⟩ <;>
        dsimp only [Action.thread] at *
      · rw [Search.goto_thread_self]
      · unfold Search.Ahead at hi
        rw [Search.goto_thread_self] at hi
        exact hi.1.elim
      · rcases hmode with hmode | hgone
        · rw [hmode] at hact
          exact absurd hact.2 Bool.false_ne_true
        · rw [Search.goto_thread_self] at hgone
          exact absurd rfl hgone
      · rwa [Search.goto_thread_self] at h
      · rw [Search.goto_thread_self] at hi
        exact nomatch hi
  | run p =>
      have hquiet : Quiet c s t p → (s.thread p).pc.observed = false →
          Quiet c s t p ∧ found s (.run p) = [] ∧ delivered c s (.run p) = [] :=
        fun h hpc => ⟨h, found_of_not_observed hpc, delivered_of_not_observed hpc⟩
      cases threadStep hn with
      | read hpc => exact Or.inr (Or.inl ⟨p, rfl, hpc, rfl⟩)
      | report i hpc => exact Or.inr (Or.inr ⟨p, i, rfl, hpc, rfl⟩)
      | start hpc =>
          exact Or.inl (hquiet (Quiet.of_goto rfl rfl nofun fun i _ => by rw [hpc]; rfl)
            (by rw [hpc]; rfl))
      | lock hpc =>
          exact Or.inl (hquiet (Quiet.of_goto rfl rfl nofun fun i _ => by rw [hpc]; rfl)
            (by rw [hpc]; rfl))
      | unlock n hpc =>
          exact Or.inl (hquiet (Quiet.of_goto rfl rfl nofun fun i _ => by rw [hpc]; rfl)
            (by rw [hpc]; rfl))
      | testcancel n hpc =>
          refine Or.inl (hquiet (Quiet.of_update rfl rfl rfl (fun h => ?_) nofun
            fun i _ => ?_) (by rw [hpc]; rfl))
          · dsimp only at h
            split_ifs at h
            exact h
          · rw [hpc]
            exact iff_of_true (Nat.zero_le _) trivial
      | word k hpc hword =>
          refine Or.inl (hquiet (Quiet.of_goto rfl rfl (fun i hi => ?_) fun i _ => by
            rw [hpc]; rfl) (by rw [hpc]; rfl))
          obtain rfl := Pc.report.inj hi
          exact hword
      | noWord k hpc hword =>
          refine Or.inl (hquiet (Quiet.of_goto rfl rfl nofun fun i hi => ?_) (by rw [hpc]; rfl))
          have hne : (i : ℕ) ≠ k := fun h => hword (Fin.ext h ▸ hi)
          rw [hpc]
          simp only [Pc.ahead]
          omega
      | again k hpc hk =>
          refine Or.inl (hquiet (Quiet.of_goto rfl rfl nofun fun i _ => ?_) (by rw [hpc]; rfl))
          rw [hpc]
          exact iff_of_false id (i.isLt.trans_le hk).not_ge
      | stop k hpc hk =>
          refine Or.inl (hquiet (Quiet.of_goto rfl rfl nofun fun i _ => ?_) (by rw [hpc]; rfl))
          rw [hpc]
          exact iff_of_false id (i.isLt.trans_le hk).not_ge
      | itself k hpc =>
          exact Or.inl (hquiet (Quiet.of_goto rfl rfl nofun fun i _ => by rw [hpc]; rfl)
            (by rw [hpc]; rfl))
      | other k r hpc =>
          exact Or.inl (hquiet (Quiet.of_goto rfl rfl nofun fun i _ => by rw [hpc]; rfl)
            (by rw [hpc]; rfl))
      | back k j hpc =>
          refine Or.inl (hquiet (Quiet.of_goto rfl rfl nofun fun i _ => ?_) (by rw [hpc]; rfl))
          rw [hpc]
          exact Nat.succ_le_iff

theorem ended_eq_false {a : Action N} (hn : (search c).next s a = some t) :
    (s.thread a.thread).pc.ended = false := by
  cases a with
  | run p => cases threadStep hn <;> simp [Action.thread, Pc.ended, *]
  | act p =>
      obtain ⟨-, -, hact⟩ := actCancel_eq_some hn
      show (s.thread p).pc.ended = false
      cases hpc : (s.thread p).pc with
      | done =>
          rw [hpc] at hact
          cases hmode : c.mode <;> rw [hmode] at hact <;> exact Bool.noConfusion hact
      | cancelled =>
          rw [hpc] at hact
          cases hmode : c.mode <;> rw [hmode] at hact <;> exact Bool.noConfusion hact
      | _ => rfl

theorem next_thread_of_ne {a : Action N} (hn : (search c).next s a = some t)
    (hq : q ≠ a.thread) : t.thread q = s.thread q := by
  rcases next_cases hn with ⟨hquiet, -, -⟩ | ⟨p, rfl, -, rfl⟩ | ⟨p, i, rfl, -, rfl⟩
  · exact hquiet.others q hq
  · exact Search.read_thread_of_ne hq
  · exact Search.set_thread_of_ne _ hq

/-! ## §3  Who reports has found -/

/-- A thread before the `printf` has a record with the word. -/
def Reported (c : Setup N M) (s : Search N M) : Prop :=
  ∀ p i, (s.thread p).pc = .report i → ((s.thread p).recBuff i).Contains c.word

theorem Reported.next (hs : Reported c s) {a : Action N}
    (hn : (search c).next s a = some t) : Reported c t := by
  intro q i hi
  rcases next_cases hn with ⟨hquiet, -, -⟩ | ⟨p, -, -, rfl⟩ | ⟨p, j, -, -, rfl⟩
  · by_cases hq : q = a.thread
    · subst hq
      rw [hquiet.recBuff]
      exact hquiet.report i hi
    · rw [hquiet.others q hq] at hi ⊢
      exact hs q i hi
  · by_cases hq : q = p
    · subst hq
      rw [Search.read_thread_self] at hi
      exact nomatch hi
    · rw [Search.read_thread_of_ne hq] at hi ⊢
      exact hs q i hi
  · by_cases hq : q = p
    · subst hq
      rw [Search.set_thread_self] at hi
      exact nomatch hi
    · rw [Search.set_thread_of_ne _ hq] at hi ⊢
      exact hs q i hi

/-! ## §4  Who goes on has found nothing -/

/-- What `should_loop` is at the places where that is known. -/
def Pc.loops : Pc M → Option Bool
  | .start | .lock | .read | .unlock _ | .testcancel _ => some true
  | .cancel _ _ | .done => some false
  | _ => none

def Looping (s : Search N M) : Prop :=
  ∀ p b, (s.thread p).pc.loops = some b → (s.thread p).shouldLoop = b

theorem Looping.run (hs : Looping s) (hn : s.threadWorkFunction c p = some t) (b : Bool)
    (hb : (t.thread p).pc.loops = some b) : (t.thread p).shouldLoop = b := by
  have hloop := hs p b
  cases threadStep hn with
  | start hpc =>
      rw [Search.goto_thread_self] at hb ⊢
      exact hloop (hpc ▸ hb)
  | lock hpc =>
      simp only [Search.goto_thread_self] at hb ⊢
      exact hloop (hpc ▸ hb)
  | read hpc =>
      rw [Search.read_thread_self] at hb ⊢
      exact hloop (hpc ▸ hb)
  | unlock n hpc =>
      simp only [Search.goto_thread_self] at hb ⊢
      exact hloop (hpc ▸ hb)
  | testcancel n =>
      rw [Search.set_thread_self] at hb
      exact nomatch hb
  | word i =>
      rw [Search.goto_thread_self] at hb
      exact nomatch hb
  | noWord i =>
      rw [Search.goto_thread_self] at hb
      exact nomatch hb
  | again k _ _ hagain =>
      rw [Search.goto_thread_self] at hb ⊢
      exact hagain.trans (Option.some.inj hb)
  | stop k _ _ hstop =>
      rw [Search.goto_thread_self] at hb ⊢
      exact hstop.trans (Option.some.inj hb)
  | report i =>
      rw [Search.set_thread_self] at hb ⊢
      exact Option.some.inj hb
  | itself i hpc =>
      rw [Search.goto_thread_self] at hb ⊢
      exact hloop (hpc ▸ hb)
  | other i r hpc =>
      simp only [Search.goto_thread_self] at hb ⊢
      exact hloop (hpc ▸ hb)
  | back i =>
      rw [Search.goto_thread_self] at hb
      exact nomatch hb

theorem Looping.next (hs : Looping s) {a : Action N} (hn : (search c).next s a = some t) :
    Looping t := by
  intro q b hb
  by_cases hq : q = a.thread
  · subst hq
    cases a with
    | run p => exact hs.run hn b hb
    | act p =>
        obtain ⟨rfl, -⟩ := actCancel_eq_some hn
        rw [show Action.thread (.act p) = p from rfl, Search.goto_thread_self] at hb
        exact nomatch hb
  · rw [next_thread_of_ne hn hq] at hb ⊢
    exact hs q b hb

theorem looping_init : Looping (search c).init := fun _ _ hb => Option.some.inj hb

theorem run_looping {tr : List (Search N M × Action N)} (h : (search c).Run tr s) :
    Looping s :=
  h.invariant (I := fun _ s => Looping s) looping_init fun _ _ _ _ hs hn => hs.next hn

end Sysopy.ThreadedSearch
