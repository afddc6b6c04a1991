import Mathlib.Algebra.Order.BigOperators.Group.Finset
import Sysopy.Foundation.Tally
import Sysopy.ThreadedSearch.Cancel
import Sysopy.ThreadedSearch.Coverage

/-!
# The end of the threaded search

A thread reads another batch only after a full one, and every full batch brings the
common offset nearer to the end of the file. So the searchers cannot go on for ever,
and where none of them can take a step they have all ended, or the mutex has an owner
that was cancelled and the others wait for it.

Meanwhile `main` joins the threads in their order. A finder still calls `pthread_cancel`
for every id, also for that of a thread that has been joined, and then nothing is defined.

## Sections

* §1 what is left of the search
* §2 every step leaves less
* §3 where nobody can go on
* §4 without cancellations
* §5 `main` and its joins
-/

namespace Sysopy.ThreadedSearch

open Sysopy.Foundation

variable {N M : ℕ} {c : Setup N M} {s t : Search N M} {p q : Fin N}
  {tr : List (Search N M × Action N)}

/-! ## §1  What is left of the search -/

/-- The steps that a record takes: its test, the `printf` and the loop over the threads. -/
def recordCost (N : ℕ) : ℕ := N + 3

/-- The steps from `pthread_mutex_lock` to the end of the batch. -/
def batchCost (N M : ℕ) : ℕ := M * recordCost N + 5

def Pc.rest (N : ℕ) : Pc M → ℕ
  | .start => M * recordCost N + 6
  | .lock => M * recordCost N + 5
  | .read => M * recordCost N + 4
  | .unlock _ => M * recordCost N + 3
  | .testcancel _ => M * recordCost N + 2
  | .scan i => (M - i) * recordCost N + 1
  | .report i => (M - i) * recordCost N
  | .cancel i j => (M - (i + 1)) * recordCost N + (N - j) + 2
  | .done | .cancelled => 0

/-- The thread will read another batch if nothing is found in this one. -/
def Searcher.again (x : Searcher M) : Bool :=
  match x.pc with
  | .unlock n | .testcancel n => x.shouldLoop && decide (M ≤ n)
  | .scan _ | .report _ | .cancel _ _ => x.shouldLoop
  | _ => false

/-- What is left for a thread; the batch after this one is paid for when this one is read. -/
def Searcher.rest (N : ℕ) (x : Searcher M) : ℕ :=
  x.pc.rest N + x.again.toNat * batchCost N M

def Search.rest (c : Setup N M) (s : Search N M) : ℕ :=
  (c.file.length - s.offset) * batchCost N M + total (Searcher.rest N) s.thread

/-! ## §2  Every step leaves less -/

theorem sub_mul_recordCost {i : ℕ} (h : i < M) :
    (M - i) * recordCost N = (M - (i + 1)) * recordCost N + recordCost N := by
  rw [← Nat.succ_mul, Nat.succ_eq_add_one, Nat.sub_add_eq,
    Nat.sub_add_cancel (Nat.sub_pos_of_lt h)]

/-- A full batch pays for the next one. -/
theorem read_rest (hM : 0 < M) (c : Setup N M) (s : Search N M) (b : Bool) :
    (c.file.length - (s.offset + s.numRead c)) * batchCost N M +
      (b && decide (M ≤ s.numRead c)).toNat * batchCost N M ≤
    (c.file.length - s.offset) * batchCost N M := by
  have hle : s.numRead c ≤ c.file.length - s.offset := Nat.min_le_right ..
  have hone : (b && decide (M ≤ s.numRead c)).toNat ≤ s.numRead c := by
    by_cases hfull : M ≤ s.numRead c
    · exact (Bool.toNat_le _).trans (hM.trans_le hfull)
    · simp [hfull]
  rw [← Nat.add_mul]
  apply Nat.mul_le_mul_right
  omega

theorem thread_rest (hM : 0 < M) (hn : s.threadWorkFunction c p = some t) :
    ∃ x, t.thread = Function.update s.thread p x ∧
      (c.file.length - t.offset) * batchCost N M + x.rest N <
        (c.file.length - s.offset) * batchCost N M + (s.thread p).rest N := by
  cases threadStep hn with
  | start hpc =>
      refine ⟨_, rfl, Nat.add_lt_add_left ?_ _⟩
      simp [Searcher.rest, Searcher.again, hpc, Pc.rest]
  | lock hpc =>
      refine ⟨_, rfl, Nat.add_lt_add_left ?_ _⟩
      simp [Searcher.rest, Searcher.again, hpc, Pc.rest]
  | read hpc =>
      refine ⟨_, rfl, ?_⟩
      have hread := read_rest hM c s (s.thread p).shouldLoop
      have hoffset : (s.read c p).offset = s.offset + s.numRead c := rfl
      simp only [Searcher.rest, Searcher.again, hpc, Pc.rest, hoffset]
      omega
  | unlock n hpc =>
      refine ⟨_, rfl, Nat.add_lt_add_left ?_ _⟩
      simp [Searcher.rest, Searcher.again, hpc, Pc.rest]
  | testcancel n hpc =>
      refine ⟨_, rfl, Nat.add_lt_add_left ?_ _⟩
      have hloop : (if n < M then false else (s.thread p).shouldLoop) =
          ((s.thread p).shouldLoop && decide (M ≤ n)) := by
        by_cases hn : n < M
        · simp [hn, Nat.not_le.mpr hn]
        · simp [hn, Nat.not_lt.mp hn]
      simp only [Searcher.rest, Searcher.again, hpc, Pc.rest, hloop, Nat.sub_zero]
      omega
  | word i hpc =>
      refine ⟨_, rfl, Nat.add_lt_add_left ?_ _⟩
      simp only [Searcher.rest, Searcher.again, hpc, Pc.rest]
      omega
  | noWord i hpc =>
      refine ⟨_, rfl, Nat.add_lt_add_left ?_ _⟩
      have hsplit := sub_mul_recordCost (N := N) i.isLt
      have hcost : recordCost N = N + 3 := rfl
      simp only [Searcher.rest, Searcher.again, hpc, Pc.rest]
      omega
  | again k hpc _ hloop =>
      -- the next batch is paid for
      refine ⟨_, rfl, Nat.add_lt_add_left ?_ _⟩
      simp [Searcher.rest, Searcher.again, hpc, Pc.rest, hloop, batchCost]
  | stop k hpc =>
      refine ⟨_, rfl, Nat.add_lt_add_left ?_ _⟩
      simp [Searcher.rest, Searcher.again, hpc, Pc.rest]
  | report i hpc =>
      refine ⟨_, rfl, Nat.add_lt_add_left ?_ _⟩
      have hsplit := sub_mul_recordCost (N := N) i.isLt
      have hcost : recordCost N = N + 3 := rfl
      simp only [Searcher.rest, Searcher.again, hpc, Pc.rest, Bool.toNat_false, Nat.sub_zero]
      omega
  | itself i hpc =>
      refine ⟨_, rfl, Nat.add_lt_add_left ?_ _⟩
      have hp := p.isLt
      simp only [Searcher.rest, Searcher.again, hpc, Pc.rest]
      omega
  | other i r hpc =>
      refine ⟨_, rfl, Nat.add_lt_add_left ?_ _⟩
      have hr := r.isLt
      simp only [Searcher.rest, Searcher.again, hpc, Pc.rest]
      omega
  | back i j hpc =>
      refine ⟨_, rfl, Nat.add_lt_add_left ?_ _⟩
      simp only [Searcher.rest, Searcher.again, hpc, Pc.rest]
      omega

theorem Pc.rest_pos {k : Pc M} (h : k.ended = false) (N : ℕ) : 0 < k.rest N := by
  cases k with
  | report i => exact Nat.mul_pos (Nat.sub_pos_of_lt i.isLt) (Nat.succ_pos _)
  | done => exact Bool.noConfusion h
  | cancelled => exact Bool.noConfusion h
  | _ => exact Nat.succ_pos _

/-- **Every step leaves less of the search.** -/
theorem rest_next (hM : 0 < M) {a : Action N} (hn : (search c).next s a = some t) :
    t.rest c < s.rest c := by
  have hended := ended_eq_false hn
  cases a with
  | run p =>
      obtain ⟨x, hthread, hlt⟩ := thread_rest hM hn
      have hmove := total_update (Searcher.rest N) s.thread p x
      rw [Search.rest, Search.rest, hthread]
      omega
  | act p =>
      obtain ⟨rfl, -⟩ := actCancel_eq_some hn
      have hpos : 0 < (s.thread p).rest N :=
        Nat.lt_of_lt_of_le (Pc.rest_pos hended N) (Nat.le_add_right _ _)
      have hmove := total_update (Searcher.rest N) s.thread p { s.thread p with pc := .cancelled }
      have hzero : Searcher.rest N { s.thread p with pc := .cancelled } = 0 := by
        simp [Searcher.rest, Searcher.again, Pc.rest]
      show (c.file.length - s.offset) * batchCost N M +
        total (Searcher.rest N) (Function.update s.thread p _) < s.rest c
      rw [Search.rest]
      omega

theorem rest_init (c : Setup N M) : (search c).init.rest c =
    c.file.length * batchCost N M + N * (batchCost N M + 1) := by
  have hstart : total (Searcher.rest N) (search c).init.thread =
      ∑ _p : Fin N, (batchCost N M + 1) :=
    Finset.sum_congr rfl fun p _ => by
      simp [Searcher.rest, Searcher.again, search, Pc.rest, batchCost]
  rw [Search.rest, hstart, Finset.sum_const_nat fun _ _ => rfl, Finset.card_univ, Fintype.card_fin]
  rfl

/-! ## §3  Where nobody can go on -/

def Halted (c : Setup N M) (s : Search N M) : Prop := ∀ a, (search c).next s a = none

/-- The owner of the mutex is in the critical section, or it was cancelled there. -/
def Owned (s : Search N M) : Prop :=
  ∀ p, s.readProtectMutex = some p →
    (s.thread p).pc.inside = true ∨ (s.thread p).pc = .cancelled

theorem Owned.next (hs : Owned s) {a : Action N} (hn : (search c).next s a = some t) :
    Owned t := by
  intro p hp
  have hended := ended_eq_false hn
  cases a with
  | run r =>
      by_cases hpr : p = r
      · subst hpr
        rcases Search.mutex_run hn with hnone | ⟨-, hin⟩ | ⟨hsame, hin⟩
        · exact absurd (hnone.symm.trans hp) (Option.some_ne_none p).symm
        · exact Or.inl hin
        · rcases hs p (hsame ▸ hp) with h | h
          · exact Or.inl (hin h)
          · change (s.thread p).pc.ended = false at hended
            rw [h] at hended
            exact Bool.noConfusion hended
      · rw [next_thread_of_ne hn hpr]
        rcases Search.mutex_run hn with hnone | ⟨hr, -⟩ | ⟨hsame, -⟩
        · exact absurd (hnone.symm.trans hp) (Option.some_ne_none p).symm
        · exact absurd (Option.some.inj (hp.symm.trans hr)) hpr
        · exact hs p (hsame ▸ hp)
  | act r =>
      obtain ⟨rfl, -⟩ := actCancel_eq_some hn
      by_cases hpr : p = r
      · subst hpr
        rw [Search.goto_thread_self]
        exact Or.inr rfl
      · have hother : (s.goto r .cancelled).thread p = s.thread p := Search.set_thread_of_ne _ hpr
        rw [hother]
        exact hs p hp

theorem run_owned (h : (search c).Run tr s) : Owned s :=
  h.invariant (I := fun _ s => Owned s) (fun p hp => absurd hp.symm (Option.some_ne_none p))
    fun _ _ _ _ hs hn => hs.next hn

theorem halted_of_ended (h : ∀ p, (s.thread p).pc.ended = true) : Halted c s := by
  intro a
  rw [Option.eq_none_iff_forall_ne_some]
  intro t hn
  exact Bool.noConfusion ((ended_eq_false hn).symm.trans (h a.thread))

/-- A thread that can do nothing has ended, or it waits for the mutex. -/
theorem Halted.thread (h : Halted c s) (p : Fin N) :
    (s.thread p).pc.ended = true ∨
      (s.thread p).pc = .lock ∧ ∃ q, s.readProtectMutex = some q := by
  have hnone : s.threadWorkFunction c p = none := h (.run p)
  unfold Search.threadWorkFunction at hnone
  cases hpc : (s.thread p).pc with
  | done => exact Or.inl rfl
  | cancelled => exact Or.inl rfl
  | lock =>
      simp only [hpc] at hnone
      split_ifs at hnone with hfree
      exact Or.inr ⟨rfl, Option.ne_none_iff_exists'.mp hfree⟩
  | _ =>
      simp only [hpc] at hnone
      exact absurd hnone (Option.some_ne_none _)

/-- Where nobody can go on, the owner of the mutex has been cancelled. -/
theorem Halted.owner (h : Halted c s) (hs : Owned s) (hq : s.readProtectMutex = some q) :
    (s.thread q).pc = .cancelled := by
  rcases hs q hq with hin | hcancelled
  · rcases h.thread q with hended | ⟨hlock, -⟩
    · cases hpc : (s.thread q).pc <;> rw [hpc] at hin hended <;>
        first | exact Bool.noConfusion hin | exact Bool.noConfusion hended
    · rw [hlock] at hin
      exact Bool.noConfusion hin
  · exact hcancelled

/-- All have ended, or a cancelled thread has the mutex and another one waits for it. -/
theorem Halted.ended_iff (h : Halted c s) (hs : Owned s) :
    (∀ p, (s.thread p).pc.ended = true) ↔ ¬Wedged s := by
  constructor
  · rintro hall ⟨p, q, -, -, -, hlock⟩
    have hended := hall q
    rw [hlock] at hended
    exact Bool.noConfusion hended
  · intro hfree p
    rcases h.thread p with hended | ⟨hlock, q, hq⟩
    · exact hended
    · have hcancelled := h.owner hs hq
      refine absurd ⟨q, p, hq, hcancelled ▸ rfl, ?_, hlock⟩ hfree
      rintro rfl
      cases hlock.symm.trans hcancelled

/-! ## §4  Without cancellations -/

theorem run_pc_ne_cancelled (hn : s.threadWorkFunction c p = some t) :
    (t.thread p).pc ≠ .cancelled := by
  cases threadStep hn <;> simp [Search.goto, Search.set, Search.read]

def Uncancelled (s : Search N M) : Prop := ∀ p, (s.thread p).pc ≠ .cancelled

theorem Uncancelled.next (hmode : c.mode = .disabled) (hs : Uncancelled s) {a : Action N}
    (hn : (search c).next s a = some t) : Uncancelled t := by
  intro q
  by_cases hq : q = a.thread
  · subst hq
    cases a with
    | run p => exact run_pc_ne_cancelled hn
    | act p =>
        obtain ⟨-, -, hact⟩ := actCancel_eq_some hn
        rw [hmode] at hact
        exact absurd hact Bool.false_ne_true
  · rw [next_thread_of_ne hn hq]
    exact hs q

/-- Where nobody can go on and nobody was cancelled, everybody has returned. -/
theorem Halted.done (h : Halted c s) (hs : Owned s) (huncancelled : Uncancelled s) (p : Fin N) :
    (s.thread p).pc = .done := by
  rcases h.thread p with hended | ⟨-, q, hq⟩
  · cases hpc : (s.thread p).pc with
    | done => rfl
    | cancelled => exact absurd hpc (huncancelled p)
    | _ =>
        rw [hpc] at hended
        exact Bool.noConfusion hended
  · exact absurd (h.owner hs hq) (huncancelled q)

/-- When all have returned, a record with the word has been reported if there is one. -/
theorem Covered.real_iff (hs : Covered c tr s) (hN : 0 < N)
    (hdone : ∀ p, (s.thread p).pc = .done) :
    Real c tr ↔ ∃ r ∈ c.file, r.Contains c.word := by
  constructor
  · rintro ⟨r, hr, hword, -⟩
    exact ⟨r, hr, hword⟩
  · rintro ⟨r, hr, hword⟩
    have hfirst := hs.kept ⟨0, hN⟩
    rcases hfirst.stops (hfirst.done (hdone ⟨0, hN⟩)) with hend | hreal
    · obtain ⟨k, hk, rfl⟩ := List.getElem_of_mem hr
      rcases hs.covered k _ (hk.trans_le hend) (List.getElem?_eq_getElem hk) hword with
        hreal | ⟨p, i, hahead, -⟩
      · exact hreal
      · -- who has returned has nothing ahead
        have hnone := hahead.1
        rw [hdone p] at hnone
        exact hnone.elim
    · exact hreal

/-! ## §5  `main` and its joins -/

/-- The threads, and how many of them `main` has joined. -/
structure Program (N M : ℕ) where
  threads : Search N M
  joined : ℕ

inductive MainAction (N : ℕ)
  | thread (a : Action N)
  /-- `pthread_join` returns -/
  | join

/-- The next step of the thread is `pthread_cancel` of one that has been joined. -/
def Program.cancelsJoined (s : Program N M) : Action N → Bool
  | .run p =>
      match (s.threads.thread p).pc with
      | .cancel _ j => decide (j ≠ p.val ∧ j < s.joined)
      | _ => false
  | .act _ => false

def Program.next (c : Setup N M) (s : Program N M) : MainAction N → Option (Program N M)
  | .thread a =>
      -- the id of a joined thread is no argument of `pthread_cancel`
      if s.cancelsJoined a then none
      else ((search c).next s.threads a).map fun t => { s with threads := t }
  | .join =>
      if h : s.joined < N then
        if (s.threads.thread ⟨s.joined, h⟩).pc.ended then some { s with joined := s.joined + 1 }
        else none
      else none

/-- The program from the moment on when all threads have been created. -/
def program (c : Setup N M) : System (Program N M) (MainAction N) where
  init :=
    { threads := (search c).init
      joined := 0 }
  next := Program.next c

def threadSteps : List (Program N M × MainAction N) → List (Search N M × Action N) :=
  observe fun s a =>
    match a with
    | .thread a => [(s.threads, a)]
    | .join => []

/-- What `main` adds to the steps of the threads. -/
structure Joins (c : Setup N M) (tr : List (Program N M × MainAction N)) (s : Program N M) :
    Prop where
  run : (search c).Run (threadSteps tr) s.threads
  joined : s.joined ≤ N

variable {u v : Program N M} {tr' : List (Program N M × MainAction N)}

/-- A step of the program is one of a thread, and not of the undefined kind, or a join. -/
theorem Program.next_cases {a : MainAction N} (hn : u.next c a = some v) :
    (∃ b t, a = .thread b ∧ u.cancelsJoined b = false ∧ (search c).next u.threads b = some t ∧
      v = { u with threads := t }) ∨
    (a = .join ∧ u.joined < N ∧ v = { u with joined := u.joined + 1 }) := by
  cases a with
  | thread b =>
      obtain ⟨hdefined, hn⟩ := Option.ite_none_left_eq_some.mp hn
      obtain ⟨t, ht, rfl⟩ := Option.map_eq_some_iff.mp hn
      exact Or.inl ⟨b, t, rfl, Bool.eq_false_iff.mpr hdefined, ht, rfl⟩
  | join =>
      unfold Program.next at hn
      split_ifs at hn with hlt
      exact Or.inr ⟨rfl, hlt, (Option.some.inj hn).symm⟩

theorem Joins.step {a : MainAction N} (hs : Joins c tr' u) (hn : u.next c a = some v) :
    Joins c (tr' ++ [(u, a)]) v := by
  rcases Program.next_cases hn with ⟨b, t, rfl, -, ht, rfl⟩ | ⟨rfl, hlt, rfl⟩
  · refine ⟨?_, hs.joined⟩
    rw [threadSteps, observe_snoc]
    exact hs.run.snoc ht
  · refine ⟨?_, hlt⟩
    rw [threadSteps, observe_snoc, List.append_nil]
    exact hs.run

theorem run_joins (h : (program c).Run tr' u) : Joins c tr' u :=
  h.invariant (I := Joins c) ⟨.nil, Nat.zero_le N⟩ fun _ _ _ _ hs hn => hs.step hn

def Program.rest (c : Setup N M) (s : Program N M) : ℕ := s.threads.rest c + (N - s.joined)

theorem program_rest_next (hM : 0 < M) {a : MainAction N} (hn : u.next c a = some v) :
    v.rest c < u.rest c := by
  rcases Program.next_cases hn with ⟨b, t, rfl, -, ht, rfl⟩ | ⟨rfl, hlt, rfl⟩
  · exact Nat.add_lt_add_right (rest_next hM ht) _
  · exact Nat.add_lt_add_left (by dsimp only; omega) _

/-- Nothing that is defined can happen any more. -/
def Program.Halted (c : Setup N M) (s : Program N M) : Prop := ∀ a, (program c).next s a = none

/-- A thread is before `pthread_cancel` of one that has been joined. -/
def Program.Undefined (s : Program N M) : Prop := ∃ a, s.cancelsJoined a = true

/-- `main` has returned, and before it all threads. -/
def Program.Ended (s : Program N M) : Prop :=
  s.joined = N ∧ ∀ p, (s.threads.thread p).pc.ended = true

theorem Program.Halted.threads (h : u.Halted c) (hdefined : ¬u.Undefined) :
    ThreadedSearch.Halted c u.threads := by
  intro a
  have hnone : u.next c (.thread a) = none := h (.thread a)
  rw [Program.next, if_neg fun hundefined => hdefined ⟨a, hundefined⟩, Option.map_eq_none_iff]
    at hnone
  exact hnone

theorem Program.Halted.joined (h : u.Halted c) (hle : u.joined ≤ N)
    (hended : ∀ p, (u.threads.thread p).pc.ended = true) : u.joined = N := by
  by_contra hne
  have hlt := Nat.lt_of_le_of_ne hle hne
  have hnone : u.next c .join = none := h .join
  rw [Program.next, dif_pos hlt, if_pos (hended _)] at hnone
  exact Option.some_ne_none _ hnone

/-- Who has ended cancels nobody. -/
theorem not_undefined_of_ended (h : ∀ p, (u.threads.thread p).pc.ended = true) :
    ¬u.Undefined := by
  rintro ⟨a, ha⟩
  cases a with
  | act p => exact Bool.false_ne_true ha
  | run p =>
      have hended := h p
      unfold Program.cancelsJoined at ha
      cases hpc : (u.threads.thread p).pc with
      | cancel i j =>
          rw [hpc] at hended
          exact Bool.false_ne_true hended
      | _ =>
          simp only [hpc] at ha
          exact Bool.false_ne_true ha

theorem Program.Halted.ended_iff (h : u.Halted c) (hs : Joins c tr' u) :
    u.Ended ↔ ¬Wedged u.threads ∧ ¬u.Undefined := by
  constructor
  · rintro ⟨-, hended⟩
    have hdefined := not_undefined_of_ended hended
    exact ⟨((h.threads hdefined).ended_iff (run_owned hs.run)).mp hended, hdefined⟩
  · rintro ⟨hfree, hdefined⟩
    have hended := ((h.threads hdefined).ended_iff (run_owned hs.run)).mpr hfree
    exact ⟨h.joined hs.joined hended, hended⟩

/-- **The search ends**: for any number of threads and every file, word and batch size, in
every variant and in every order of the steps there are at most as many as the records and
the threads allow. Where nothing can go on, `main` and all threads have returned or been
cancelled, unless a cancelled owner keeps the mutex from another thread or one is about to
cancel a thread that has been joined. With cancellation disabled, where no such call is
due, all have returned, and a record with the word has been reported exactly if the file has
one. -/
theorem search_ends (hM : 0 < M) (h : (program c).Run tr' u) :
    tr'.length ≤ c.file.length * batchCost N M + N * (batchCost N M + 1) + N ∧
    (u.Halted c → (u.Ended ↔ ¬Wedged u.threads ∧ ¬u.Undefined)) ∧
    (c.mode = .disabled → u.Halted c → ¬u.Undefined → 0 < N →
      u.joined = N ∧ (∀ p, (u.threads.thread p).pc = .done) ∧
      (Real c (threadSteps tr') ↔ ∃ r ∈ c.file, r.Contains c.word)) := by
  have hs := run_joins h
  refine ⟨?_, fun hhalted => hhalted.ended_iff hs, fun hmode hhalted hdefined hN => ?_⟩
  · have hbound := h.length_add_le_measure (I := fun _ => True) (Program.rest c) trivial
      fun t a u _ hn => ⟨trivial, program_rest_next hM hn⟩
    have hinit : (program c).init.rest c = (search c).init.rest c + N := rfl
    rw [hinit, rest_init] at hbound
    exact (Nat.le_add_right _ _).trans hbound
  · have huncancelled : Uncancelled u.threads :=
      hs.run.invariant (I := fun _ s => Uncancelled s) (fun _ => by simp [search])
        fun _ _ _ _ hs hn => hs.next hmode hn
    have hdone := (hhalted.threads hdefined).done (run_owned hs.run) huncancelled
    refine ⟨hhalted.joined hs.joined fun p => ?_, hdone,
      (run_covered hmode hs.run).real_iff hN hdone⟩
    rw [hdone p]
    rfl

theorem halted_of_joined (hjoined : u.joined = N)
    (h : ∀ p, (u.threads.thread p).pc.ended = true) : u.Halted c := by
  intro a
  cases a with
  | thread a =>
      have hnone := halted_of_ended (c := c) h a
      show Program.next c u (.thread a) = none
      rw [Program.next, hnone]
      exact ite_self none
  | join => exact dif_neg (Nat.not_lt.mpr hjoined.ge)

/-- Two threads share three records, the second one has the word, and `main` joins both. -/
theorem search_ends_two : ∃ tr s, (program (.threeRecords .disabled)).Run tr s ∧
    tr.length ≤ 79 ∧ s.Halted (.threeRecords .disabled) ∧ s.Ended ∧
    Real (.threeRecords .disabled) (threadSteps tr) := by
  have h := (program (.threeRecords .disabled)).run_of_replay
    (List.replicate 12 (.thread (.run 0)) ++ List.replicate 8 (.thread (.run 1)) ++
      [.join, .join]) rfl
  obtain ⟨tr, s, h, hjoined, hended⟩ : ∃ tr s, (program (.threeRecords .disabled)).Run tr s ∧
      s.joined = 2 ∧ ∀ p, (s.threads.thread p).pc.ended = true :=
    ⟨_, _, h, rfl, by decide⟩
  have hhalted := halted_of_joined (c := .threeRecords .disabled) hjoined hended
  obtain ⟨hlength, -, hreal⟩ := search_ends (by decide) h
  obtain ⟨-, -, hfound⟩ := hreal rfl hhalted (not_undefined_of_ended hended) (by decide)
  exact ⟨tr, s, h, hlength, hhalted, ⟨hjoined, hended⟩, hfound.mpr
    ⟨_, List.mem_cons_of_mem _ List.mem_cons_self, Record.strstr_text.mp rfl⟩⟩

end Sysopy.ThreadedSearch
