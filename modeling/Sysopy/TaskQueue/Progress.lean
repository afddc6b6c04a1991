import Sysopy.TaskQueue.Fifo

/-!
# What the callers of the task queue can count on

A call waits at two semaphores. At its first one it waits for room or for a number, and
the account of the tokens says how many numbers the queue then holds; at the mutex it
waits for a process that never waits. So running calls come to an end unless the queue
is full or empty. What they hand out is late by one number.

## Sections

* §1 the statements a call has before it
* §2 calls come to an end
* §3 the numbers handed out
-/

namespace Sysopy.TaskQueue

open Sysopy.Foundation

/-! ## §1  The statements a call has before it -/

def Call.rest : Call → ℕ
  | .idle => 0
  | .put _ .downPut | .get _ .downGet => 5
  | .put _ .downMutex | .get _ .downMutex => 4
  | .put _ .critical | .get _ .critical => 3
  | .put _ .upMutex | .get _ .upMutex => 2
  | .put _ .upGet | .get _ .upPut => 1

theorem advance_rest {q q' : Ipc} {c c' : Call} (h : advance q c = some (q', c')) :
    c'.rest + 1 = c.rest := by
  rcases advance_cases h with
    ⟨t, rfl, rfl, -⟩ | ⟨t, rfl, rfl, -⟩ | ⟨t, rfl, rfl, -⟩ | ⟨t, rfl, rfl, -⟩ | ⟨t, rfl, rfl, -⟩ |
    ⟨t, rfl, rfl, -⟩ | ⟨t, rfl, rfl, -⟩ | ⟨t, rfl, rfl, -⟩ | ⟨t, rfl, rfl, -⟩ | ⟨t, rfl, rfl, -⟩
  all_goals rfl

theorem advance_none {q : Ipc} {c : Call} (h : advance q c = none) :
    c = .idle ∨ (∃ t, c = .put t .downPut ∧ q.putSemaphore = 0) ∨
    (∃ t, c = .get t .downGet ∧ q.getSemaphore = 0) ∨
    ((∃ t, c = .put t .downMutex ∨ c = .get t .downMutex) ∧ q.mutexSemaphore = 0) := by
  have hdown : ∀ {n : ℕ}, down n = none → n = 0 := by
    intro n hn
    cases n with
    | zero => rfl
    | succ n => simp [down] at hn
  cases c with
  | idle => exact Or.inl rfl
  | put t point =>
      cases point <;> simp only [advance, putTask, Option.map_eq_none_iff, reduceCtorEq] at h
      case downPut => exact Or.inr (Or.inl ⟨t, rfl, hdown h⟩)
      case downMutex => exact Or.inr (Or.inr (Or.inr ⟨⟨t, Or.inl rfl⟩, hdown h⟩))
  | get t point =>
      cases point <;> simp only [advance, getTask, Option.map_eq_none_iff, reduceCtorEq] at h
      case downGet => exact Or.inr (Or.inr (Or.inl ⟨t, rfl, hdown h⟩))
      case downMutex => exact Or.inr (Or.inr (Or.inr ⟨⟨t, Or.inr rfl⟩, hdown h⟩))

/-! ## §2  Calls come to an end -/

variable {P : Type*} [Fintype P] [DecidableEq P]

def Queue.Still (s : Queue P) : Prop := ∀ p, s.next (.advance p) = none

omit [Fintype P] in
theorem Queue.Still.advance {s : Queue P} (hs : s.Still) (p : P) :
    TaskQueue.advance s.ipc (s.call p) = none :=
  Option.map_eq_none_iff.mp (hs p)

/-- Who has the mutex can go on, so nobody waits for it. -/
theorem Accounts.mutex_free {h : List Access} {s : Queue P} (hacc : Accounts h s)
    (hs : s.Still) : s.ipc.mutexSemaphore = 1 := by
  have hnone : tally Call.inMutex s.call = 0 := by
    refine tally_eq_zero fun p => ?_
    rcases advance_none (hs.advance p) with hc | ⟨t, hc, -⟩ | ⟨t, hc, -⟩ | ⟨⟨t, hc | hc⟩, -⟩
    all_goals
      rw [hc]
      rfl
  have := hacc.mutex
  omega

/-- Everyone who waits does so at the first semaphore of its call. -/
theorem Accounts.waits {h : List Access} {s : Queue P} (hacc : Accounts h s) (hs : s.Still)
    (p : P) : s.call p = .idle ∨ (∃ t, s.call p = .put t .downPut ∧ s.ipc.putSemaphore = 0) ∨
      (∃ t, s.call p = .get t .downGet ∧ s.ipc.getSemaphore = 0) := by
  rcases advance_none (hs.advance p) with hc | hc | hc | ⟨-, hzero⟩
  · exact Or.inl hc
  · exact Or.inr (Or.inl hc)
  · exact Or.inr (Or.inr hc)
  · have := hacc.mutex_free hs
    omega

/-- Nobody is between two semaphores: the counter is the number of get tokens, and the
put tokens are the rest. -/
theorem Accounts.still {h : List Access} {s : Queue P} (hacc : Accounts h s) (hs : s.Still) :
    s.ipc.shm.taskCounter = s.ipc.getSemaphore ∧
      s.ipc.putSemaphore + s.ipc.getSemaphore = maxTaskCapacity := by
  have hzero : ∀ Q : Call → Bool, Q .idle = false → (∀ t, Q (.put t .downPut) = false) →
      (∀ t, Q (.get t .downGet) = false) → tally Q s.call = 0 := by
    intro Q hidle hput hget
    refine tally_eq_zero fun p => ?_
    rcases hacc.waits hs p with hc | ⟨t, hc, -⟩ | ⟨t, hc, -⟩
    · rw [hc, hidle]
    · rw [hc, hput]
    · rw [hc, hget]
  have h1 := hzero Call.inPut rfl (fun _ => rfl) fun _ => rfl
  have h2 := hzero Call.inGet rfl (fun _ => rfl) fun _ => rfl
  have h3 := hzero Call.putStored rfl (fun _ => rfl) fun _ => rfl
  have h4 := hzero Call.getClaimed rfl (fun _ => rfl) fun _ => rfl
  have htokens := hacc.tokens
  have hstock := hacc.stock
  omega

/-- The process is in no call, or waits for room in a full queue, or for a number in an
empty one. -/
def Queue.Settled (s : Queue P) (p : P) : Prop :=
  s.call p = .idle ∨
  (∃ t, s.call p = .put t .downPut ∧ s.ipc.shm.taskCounter = maxTaskCapacity) ∨
  (∃ t, s.call p = .get t .downGet ∧ s.ipc.shm.taskCounter = 0)

theorem Accounts.settled {h : List Access} {s : Queue P} (hacc : Accounts h s) (hs : s.Still)
    (p : P) : s.Settled p := by
  obtain ⟨hcounter, htokens⟩ := hacc.still hs
  rcases hacc.waits hs p with hc | ⟨t, hc, hzero⟩ | ⟨t, hc, hzero⟩
  · exact Or.inl hc
  · exact Or.inr (Or.inl ⟨t, hc, by omega⟩)
  · exact Or.inr (Or.inr ⟨t, hc, by omega⟩)

/-- **Calls come to an end**: from every reachable state the steps of the running calls,
in whatever order, are bounded by what is left of the calls, and where none of them can
go on, every call is over or waits for room while the queue is full, or for a number while
it is empty. -/
theorem calls_settle {cell : ℤ → ℤ} {tr : List (Queue P × Action P)} {s t : Queue P}
    (h : (queue P cell).Run tr s) {tr' : List (Queue P × Action P)}
    (h' : (queue P cell).Path s tr' t) (hadvance : ∀ x ∈ tr', ∃ p, x.2 = .advance p) :
    tr'.length + total Call.rest t.call ≤ total Call.rest s.call ∧
    (t.Still → ∀ p, t.Settled p) := by
  constructor
  · refine h'.invariant_of_steps (I := fun tr' t => tr'.length + total Call.rest t.call ≤
      total Call.rest s.call) (C := fun _ a => ∃ p, a = .advance p) hadvance (by simp) ?_
    rintro tr' t _ u hle ⟨p, rfl⟩ hn
    obtain ⟨⟨q, c⟩, hadv, rfl⟩ := Option.map_eq_some_iff.mp hn
    have hrest := advance_rest hadv
    have hmove := total_update Call.rest t.call p c
    rw [List.length_append, List.length_singleton]
    dsimp only
    omega
  · intro hstill p
    exact (run_accounts (h.trans h')).settled hstill p

/-- A producer has stored 7 and a consumer stands before its second semaphore; the rest
of its call is four steps. -/
theorem calls_settle_get : ∃ tr s, (queue (Fin 2) fun _ => 0).Run tr s ∧
    ∀ tr' t, (queue (Fin 2) fun _ => 0).Path s tr' t → (∀ x ∈ tr', ∃ p, x.2 = .advance p) →
      tr'.length ≤ 4 ∧ (t.Still → ∀ p, t.Settled p) := by
  have h := (queue (Fin 2) fun _ => 0).run_of_replay
    [.putTask 0 ⟨7, 0⟩, .advance 0, .advance 0, .advance 0, .advance 0, .advance 0,
      .getTask 1 ⟨0, 0⟩, .advance 1] rfl
  refine ⟨_, _, h, fun tr' t h' hadvance => ?_⟩
  obtain ⟨hle, hsettled⟩ := calls_settle h h' hadvance
  exact ⟨(Nat.le_add_right _ _).trans hle, hsettled⟩

/-! ## §3  The numbers handed out -/

theorem concat_isPrefix {α : Type*} {xs ys : List α} {y : α} (h : xs <+: ys)
    (hy : ys[xs.length]? = some y) : xs ++ [y] <+: ys := by
  obtain ⟨zs, rfl⟩ := h
  rw [List.getElem?_append_right le_rfl, Nat.sub_self] at hy
  cases zs with
  | nil => exact absurd hy (Option.some_ne_none y).symm
  | cons z zs =>
      obtain rfl : z = y := Option.some.inj hy
      exact ⟨zs, List.append_assoc ..⟩

/-- No `get_task` finds a full ring. -/
def NeverFull (h : List Access) : Prop :=
  ∀ pre n post, h = pre ++ .fetched n :: post →
    (storedNumbers pre).length ≠ (fetchedNumbers pre).length + maxTaskCapacity

/-- The number that lies in the cell is the one before the number that is due. -/
theorem source_getElem {first : ℤ} {pre : List Access} {n : ℤ}
    (hfull : (storedNumbers pre).length ≠ (fetchedNumbers pre).length + maxTaskCapacity)
    (h : source first pre = some n) :
    (first :: storedNumbers pre)[(fetchedNumbers pre).length]? = some n := by
  unfold source at h
  rw [if_neg hfull] at h
  cases hk : (fetchedNumbers pre).length with
  | zero =>
      rw [hk, if_pos rfl] at h
      exact h
  | succ k =>
      rw [hk, if_neg (Nat.succ_ne_zero k)] at h
      exact h

/-- What is handed out, if each `get_task` meets the number of its source. -/
theorem fetched_isPrefix {first : ℤ} (h : List Access) :
    (∀ pre n post, h = pre ++ .fetched n :: post → source first pre = some n) →
    NeverFull h → fetchedNumbers h <+: first :: storedNumbers h := by
  induction h using List.reverseRecOn with
  | nil => exact fun _ _ => List.nil_prefix
  | append_singleton h x ih =>
      intro hsource hfull
      have hh := ih
        (fun pre n post heq => hsource pre n (post ++ [x]) (by rw [heq]; simp))
        (fun pre n post heq => hfull pre n (post ++ [x]) (by rw [heq]; simp))
      rw [fetchedNumbers_append, storedNumbers_append]
      cases x with
      | stored n =>
          rw [← List.cons_append]
          exact (List.append_nil (fetchedNumbers h)).symm ▸ hh.trans (List.prefix_append _ _)
      | fetched n =>
          have hn := source_getElem (hfull h n [] rfl) (hsource h n [] rfl)
          rw [← List.cons_append]
          exact (concat_isPrefix hh hn).trans (List.prefix_append _ _)

/-- **The queue is late by one number**: in every run in which no `get_task` finds 25
numbers waiting, the numbers handed out are, in order, what cell 0 held at the start and
then the numbers put, so that the newest number never leaves before another is put. -/
theorem handed_out_late {cell : ℤ → ℤ} {tr : List (Queue P × Action P)} {s : Queue P}
    (h : (queue P cell).Run tr s) (hfull : NeverFull (history tr)) :
    fetchedNumbers (history tr) <+: cell 0 :: storedNumbers (history tr) :=
  fetched_isPrefix _ (fun pre n post heq => ((run_served h).served pre n post heq).2) hfull

theorem handed_out_late_seven : ∃ tr s, (queue (Fin 2) fun _ => 5).Run tr s ∧
    fetchedNumbers (history tr) = [5] ∧ storedNumbers (history tr) = [7] ∧
    fetchedNumbers (history tr) <+: 5 :: storedNumbers (history tr) := by
  have h := (queue (Fin 2) fun _ => 5).run_of_replay (putThenGet 7) rfl
  refine ⟨_, _, h, rfl, rfl, handed_out_late h ?_⟩
  intro pre n post heq
  have hlen := congrArg (fun h => (storedNumbers h).length) heq
  simp only [storedNumbers_append, List.length_append] at hlen
  have hle : (storedNumbers pre).length ≤ 1 := (Nat.le_add_right _ _).trans hlen.ge
  have hcap : maxTaskCapacity = 25 := rfl
  omega

end Sysopy.TaskQueue
