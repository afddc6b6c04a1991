import Mathlib.Data.Int.Order.Basic
import Mathlib.Data.Fintype.Basic
import Sysopy.Foundation.System
import Sysopy.Foundation.Tally
import Sysopy.TaskQueue.Ipc

/-!
# The shared-memory task queue: any number of processes

Any process may call `put_task` or `get_task` at any time; the steps of all
running calls interleave freely. The accounting invariant ties the semaphore
values, the stored counter and the processes stopped between two statements.

## Sections

* §1 the system
* §2 the accounting invariant
* §3 queue accounting
-/

namespace Sysopy.TaskQueue

open Sysopy.Foundation

/-! ## §1  The system -/

/-- The shared objects and the control point of every process. -/
structure Queue (P : Type*) where
  ipc : Ipc
  call : P → Call

/-- A process enters a function with its `task`, or takes a step of the running
call. A blocked semaphore is a step that is not enabled. -/
inductive Action (P : Type*) where
  | putTask (p : P) (t : Task)
  | getTask (p : P) (t : Task)
  | advance (p : P)

variable {P : Type*}

def Queue.accesses (s : Queue P) : Action P → List Access
  | .advance p => access s.ipc (s.call p)
  | _ => []

def Queue.touches (s : Queue P) : Action P → List ℤ
  | .advance p => cellsTouched s.ipc (s.call p)
  | _ => []

def history (tr : List (Queue P × Action P)) : List Access :=
  observe Queue.accesses tr

def cellsUsed (tr : List (Queue P × Action P)) : List ℤ :=
  observe Queue.touches tr

@[simp] theorem history_snoc (tr : List (Queue P × Action P)) (s : Queue P) (a : Action P) :
    history (tr ++ [(s, a)]) = history tr ++ s.accesses a :=
  observe_snoc _ _ _ _

@[simp] theorem cellsUsed_snoc (tr : List (Queue P × Action P)) (s : Queue P)
    (a : Action P) : cellsUsed (tr ++ [(s, a)]) = cellsUsed tr ++ s.touches a :=
  observe_snoc _ _ _ _

variable [DecidableEq P]

def Queue.next (s : Queue P) : Action P → Option (Queue P)
  | .putTask p t =>
      if s.call p = .idle then
        some { s with call := Function.update s.call p (.put t .downPut) }
      else none
  | .getTask p t =>
      if s.call p = .idle then
        some { s with call := Function.update s.call p (.get t .downGet) }
      else none
  | .advance p =>
      (TaskQueue.advance s.ipc (s.call p)).map fun r =>
        { ipc := r.1, call := Function.update s.call p r.2 }

/-- What `init_ipc` leaves: counter and start index 0, mutex 1, put semaphore
at the capacity, get semaphore 0. It does not write the cells. -/
def initializedIpc (cell : ℤ → ℤ) : Ipc where
  shm := { cell := cell, taskCounter := 0, startIndex := 0 }
  mutexSemaphore := 1
  putSemaphore := maxTaskCapacity
  getSemaphore := 0

/-- The queue after a completed initialisation, with the given cell contents. -/
def queue (P : Type*) [DecidableEq P] (cell : ℤ → ℤ) : System (Queue P) (Action P) where
  init := { ipc := initializedIpc cell, call := fun _ => .idle }
  next := Queue.next

/-- A step enters a function, which shows in no account, or advances a call. -/
theorem Queue.next_cases {s s' : Queue P} {a : Action P} (h : s.next a = some s') :
    (∃ p t, s.call p = .idle ∧ s.accesses a = [] ∧ s.touches a = [] ∧ s'.ipc = s.ipc ∧
      (s'.call = Function.update s.call p (.put t .downPut) ∨
        s'.call = Function.update s.call p (.get t .downGet))) ∨
    (∃ p q c, a = .advance p ∧ TaskQueue.advance s.ipc (s.call p) = some (q, c) ∧
      s' = { ipc := q, call := Function.update s.call p c }) := by
  cases a with
  | putTask p t =>
      simp only [Queue.next, Option.ite_none_right_eq_some, Option.some.injEq] at h
      obtain ⟨hidle, rfl⟩ := h
      exact Or.inl ⟨p, t, hidle, rfl, rfl, rfl, Or.inl rfl⟩
  | getTask p t =>
      simp only [Queue.next, Option.ite_none_right_eq_some, Option.some.injEq] at h
      obtain ⟨hidle, rfl⟩ := h
      exact Or.inl ⟨p, t, hidle, rfl, rfl, rfl, Or.inr rfl⟩
  | advance p =>
      simp only [Queue.next, Option.map_eq_some_iff] at h
      obtain ⟨⟨q, c⟩, hadv, rfl⟩ := h
      exact Or.inr ⟨p, q, c, rfl, hadv, rfl⟩

/-! ## §2  The accounting invariant -/

variable [Fintype P]

/-- The accounts of the queue after the accesses `h`. -/
structure Accounts (h : List Access) (s : Queue P) : Prop where
  tokens : s.ipc.putSemaphore + s.ipc.getSemaphore + tally Call.inPut s.call +
    tally Call.inGet s.call = maxTaskCapacity
  mutex : s.ipc.mutexSemaphore + tally Call.inMutex s.call = 1
  stock : s.ipc.shm.taskCounter = s.ipc.getSemaphore + tally Call.putStored s.call +
    tally Call.getClaimed s.call
  counter : s.ipc.shm.taskCounter + (fetchedNumbers h).length = (storedNumbers h).length
  start : s.ipc.shm.startIndex = ((fetchedNumbers h).length % maxTaskCapacity : ℕ)

theorem accounts_start (cell : ℤ → ℤ) : Accounts [] (queue P cell).init where
  tokens := by
    rw [tally_eq_zero fun _ => rfl, tally_eq_zero fun _ => rfl]
    rfl
  mutex := by
    rw [tally_eq_zero fun _ => rfl]
    rfl
  stock := by
    rw [tally_eq_zero fun _ => rfl, tally_eq_zero fun _ => rfl]
    rfl
  counter := rfl
  start := rfl

/-- The start index counts the numbers handed out, modulo the capacity. -/
theorem advance_start {q q' : Ipc} {c c' : Call} {n : ℕ}
    (h : TaskQueue.advance q c = some (q', c'))
    (hs : q.shm.startIndex = (n % maxTaskCapacity : ℕ)) :
    q'.shm.startIndex =
      ((n + (fetchedNumbers (access q c)).length) % maxTaskCapacity : ℕ) := by
  rcases advance_shm h with ⟨hacc, -, hshm⟩ | ⟨t, rfl, hshm⟩ | ⟨t, rfl, hshm⟩
  · simp [hshm, hacc, fetchedNumbers, hs]
  · simp [hshm, putCritical, access, fetchedNumbers, hs]
  · have hn : (0 : ℤ) ≤ q.shm.startIndex + 1 := by omega
    have hmod : q'.shm.startIndex = (q.shm.startIndex + 1) % maxTaskCapacity := by
      rw [hshm, ← Int.tmod_eq_emod_of_nonneg hn]
      rfl
    simp only [hmod, hs, access, fetchedNumbers, List.filterMap_cons, List.filterMap_nil,
      List.length_cons, List.length_nil, maxTaskCapacity]
    omega

theorem Accounts.step {h : List Access} {s s' : Queue P} {a : Action P}
    (hacc : Accounts h s) (hn : s.next a = some s') : Accounts (h ++ s.accesses a) s' := by
  rcases Queue.next_cases hn with ⟨p, t, hidle, hempty, -, hipc, hcall⟩ | ⟨p, q, c, rfl, hadv, rfl⟩
  · -- entering a function moves `p` between two points outside every count
    have hkeep : ∀ Q : Call → Bool, Q .idle = Q (.put t .downPut) →
        Q .idle = Q (.get t .downGet) → tally Q s'.call = tally Q s.call := by
      intro Q h1 h2
      rcases hcall with hc | hc
      · rw [hc]; exact tally_update_of_eq (by rw [hidle, h1])
      · rw [hc]; exact tally_update_of_eq (by rw [hidle, h2])
    rw [hempty, List.append_nil]
    constructor
    · rw [hipc, hkeep _ rfl rfl, hkeep _ rfl rfl]; exact hacc.tokens
    · rw [hipc, hkeep _ rfl rfl]; exact hacc.mutex
    · rw [hipc, hkeep _ rfl rfl, hkeep _ rfl rfl]; exact hacc.stock
    · rw [hipc]; exact hacc.counter
    · rw [hipc]; exact hacc.start
  · have hb := advance_balanced hadv
    have hmove := fun Q => tally_update Q s.call p c
    constructor
    · have h1 := hmove Call.inPut
      have h2 := hmove Call.inGet
      have h3 := hb.tokens
      have h4 := hacc.tokens
      dsimp only
      omega
    · have h1 := hmove Call.inMutex
      have h2 := hb.mutex
      have h3 := hacc.mutex
      dsimp only
      omega
    · have h1 := hmove Call.putStored
      have h2 := hmove Call.getClaimed
      have h3 := hb.stock
      have h4 := hacc.stock
      dsimp only
      omega
    · have h1 := hb.counter
      have h2 := hacc.counter
      simp only [Queue.accesses, storedNumbers_append, fetchedNumbers_append,
        List.length_append]
      push_cast
      omega
    · simpa [Queue.accesses] using advance_start hadv hacc.start

theorem run_accounts {cell : ℤ → ℤ} {tr : List (Queue P × Action P)} {s : Queue P}
    (h : (queue P cell).Run tr s) : Accounts (history tr) s := by
  refine h.invariant (I := fun tr s => Accounts (history tr) s) (accounts_start cell) ?_
  intro tr s a t hacc hn
  rw [history_snoc]
  exact hacc.step hn

omit [DecidableEq P] in
/-- The counter stays within the capacity: each token and each process between
its two semaphores stands for at most one number. -/
theorem Accounts.counter_bounds {h : List Access} {s : Queue P} (hacc : Accounts h s) :
    0 ≤ s.ipc.shm.taskCounter ∧ s.ipc.shm.taskCounter ≤ maxTaskCapacity := by
  have hput := tally_le_tally putStored_inPut s.call
  have hget := tally_le_tally getClaimed_inGet s.call
  have h1 := hacc.tokens
  have h2 := hacc.stock
  omega

omit [DecidableEq P] in
theorem Accounts.start_bounds {h : List Access} {s : Queue P} (hacc : Accounts h s) :
    0 ≤ s.ipc.shm.startIndex ∧ s.ipc.shm.startIndex < maxTaskCapacity := by
  have hlt := Nat.mod_lt (fetchedNumbers h).length (show 0 < maxTaskCapacity by decide)
  rw [hacc.start]
  omega

/-! ## §3  Queue accounting -/

omit [DecidableEq P] in
theorem Accounts.touches_range {h : List Access} {s : Queue P} (hacc : Accounts h s)
    (a : Action P) : ∀ i ∈ s.touches a, 0 ≤ i ∧ i < maxTaskCapacity := by
  have hstart := hacc.start_bounds
  have hcount := hacc.counter_bounds
  cases a with
  | putTask p t | getTask p t => simp [Queue.touches]
  | advance p =>
      simp only [Queue.touches]
      rcases s.call p with _ | ⟨t, _ | _⟩ | ⟨t, _ | _⟩ <;>
        simp only [cellsTouched, List.not_mem_nil, List.mem_singleton, forall_eq,
          false_implies, implies_true]
      · have hnn : 0 ≤ s.ipc.shm.startIndex + (s.ipc.shm.taskCounter + 1) := by omega
        exact ⟨Int.tmod_nonneg _ hnn, Int.tmod_lt_of_pos _ (by omega)⟩
      · exact hstart

/-- The accounts of a run as a user of the queue would state them. -/
structure Accounted (tr : List (Queue P × Action P)) (s : Queue P) : Prop where
  counter : s.ipc.shm.taskCounter =
    (storedNumbers (history tr)).length - (fetchedNumbers (history tr)).length
  counter_range : 0 ≤ s.ipc.shm.taskCounter ∧ s.ipc.shm.taskCounter ≤ 25
  start_range : 0 ≤ s.ipc.shm.startIndex ∧ s.ipc.shm.startIndex ≤ 24
  cells_range : ∀ i ∈ cellsUsed tr, 0 ≤ i ∧ i ≤ 24
  exclusion : ∀ p p', (s.call p).inMutex = true → (s.call p').inMutex = true → p = p'
  tokens : s.ipc.putSemaphore + s.ipc.getSemaphore + tally Call.inPut s.call +
    tally Call.inGet s.call = 25

/-- **Queue accounting**, for every interleaving of every number of processes. -/
theorem queue_accounted {cell : ℤ → ℤ} {tr : List (Queue P × Action P)} {s : Queue P}
    (h : (queue P cell).Run tr s) : Accounted tr s := by
  have hacc := run_accounts h
  have hcells : Accounts (history tr) s ∧ ∀ i ∈ cellsUsed tr, 0 ≤ i ∧ i ≤ 24 := by
    refine h.invariant
      (I := fun tr s => Accounts (history tr) s ∧ ∀ i ∈ cellsUsed tr, 0 ≤ i ∧ i ≤ 24)
      ⟨accounts_start cell, by simp [cellsUsed]⟩ ?_
    rintro tr s a t ⟨hacc, hused⟩ hn
    refine ⟨by rw [history_snoc]; exact hacc.step hn, ?_⟩
    intro i hi
    rw [cellsUsed_snoc, List.mem_append] at hi
    rcases hi with hi | hi
    · exact hused i hi
    · have hr := hacc.touches_range a i hi
      have hcap : (maxTaskCapacity : ℤ) = 25 := rfl
      omega
  have hbounds := hacc.counter_bounds
  have hcounter := hacc.counter
  have hstart := hacc.start_bounds
  have hcap : maxTaskCapacity = 25 := rfl
  constructor
  · omega
  · omega
  · omega
  · exact hcells.2
  · intro p p' hp hp'
    have hone := hacc.mutex
    exact eq_of_tally_le_one (by omega) hp hp'
  · exact hacc.tokens

/-- A producer stores 7, then a consumer takes a number. -/
theorem queue_accounted_put_get : ∃ tr s, (queue (Fin 2) fun _ => 0).Run tr s ∧
    (storedNumbers (history tr)).length = 1 ∧ (fetchedNumbers (history tr)).length = 1 ∧
    Accounted tr s := by
  have h := (queue (Fin 2) fun _ => 0).run_of_replay
    [.putTask 0 ⟨7, 0⟩, .advance 0, .advance 0, .advance 0, .advance 0, .advance 0,
      .getTask 1 ⟨0, 0⟩, .advance 1, .advance 1, .advance 1, .advance 1, .advance 1] rfl
  exact ⟨_, _, h, rfl, rfl, queue_accounted h⟩

end Sysopy.TaskQueue
