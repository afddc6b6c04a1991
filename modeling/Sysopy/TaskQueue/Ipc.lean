import Mathlib.Data.Int.Basic
import Mathlib.Logic.Function.Basic
import Mathlib.Tactic.Common

/-!
# The shared-memory task queue: one process

The state shared by all processes (the segment and three semaphores) and the
control points of one call of `put_task` or `get_task`. `advance` takes one
atomic step of such a call: a semaphore operation or the whole critical
section. The System V variant and the POSIX variant run the same statements on
the same layout, so one model serves both.

## Sections

* §1 the segment and its critical sections
* §2 semaphores and the steps of a call
* §3 what one step does to the accounts
-/

namespace Sysopy.TaskQueue

/-! ## §1  The segment and its critical sections -/

def maxTaskCapacity : ℕ := 25

/-- The shared segment: the cells, then the word at `TASK_COUNTER_OFFSET`, then
the word at `START_INDEX_OFFSET`. -/
structure Segment where
  cell : ℤ → ℤ
  taskCounter : ℤ
  startIndex : ℤ

structure Task where
  number : ℤ
  awaiting : ℤ
deriving DecidableEq

/-- The cell `put_task` writes: `num_tasks_in_buffer` is already incremented
when the index is computed. -/
def putIndex (m : Segment) : ℤ :=
  (m.startIndex + (m.taskCounter + 1)).tmod maxTaskCapacity

/-- The cell `get_task` reads. -/
def getIndex (m : Segment) : ℤ := m.startIndex

/-- The critical section of `put_task`. -/
def putCritical (m : Segment) (t : Task) : Segment × Task :=
  let numTasksInBuffer := m.taskCounter
  let t := { t with awaiting := numTasksInBuffer }
  let numTasksInBuffer := numTasksInBuffer + 1
  ({ m with
      taskCounter := numTasksInBuffer
      cell := Function.update m.cell (putIndex m) t.number }, t)

/-- The critical section of `get_task`. -/
def getCritical (m : Segment) (_ : Task) : Segment × Task :=
  let numTasksInBuffer := m.taskCounter - 1
  let startIndex := (m.startIndex + 1).tmod maxTaskCapacity
  ({ m with
      taskCounter := numTasksInBuffer
      startIndex := startIndex },
    { number := m.cell (getIndex m), awaiting := numTasksInBuffer })

/-! ## §2  Semaphores and the steps of a call -/

/-- `down` on a semaphore value; at 0 it blocks. -/
def down : ℕ → Option ℕ
  | 0 => none
  | v + 1 => some v

/-- `up` on a semaphore value. -/
def up (v : ℕ) : ℕ := v + 1

/-- Everything the processes share. -/
structure Ipc where
  shm : Segment
  mutexSemaphore : ℕ
  putSemaphore : ℕ
  getSemaphore : ℕ

/-- The next statement of a running `put_task`. -/
inductive PutPoint where
  | downPut | downMutex | critical | upMutex | upGet
deriving DecidableEq

/-- The next statement of a running `get_task`. -/
inductive GetPoint where
  | downGet | downMutex | critical | upMutex | upPut
deriving DecidableEq

/-- Where a process stands: outside both functions, or inside one of them with
the caller's `task`. -/
inductive Call where
  | idle
  | put (t : Task) (next : PutPoint)
  | get (t : Task) (next : GetPoint)
deriving DecidableEq

/-- One atomic step of `put_task`; `none` while its `down` blocks. -/
def putTask (q : Ipc) (t : Task) : PutPoint → Option (Ipc × Call)
  | .downPut =>
      (down q.putSemaphore).map fun v => ({ q with putSemaphore := v }, .put t .downMutex)
  | .downMutex =>
      (down q.mutexSemaphore).map fun v => ({ q with mutexSemaphore := v }, .put t .critical)
  | .critical =>
      let r := putCritical q.shm t
      some ({ q with shm := r.1 }, .put r.2 .upMutex)
  | .upMutex => some ({ q with mutexSemaphore := up q.mutexSemaphore }, .put t .upGet)
  | .upGet => some ({ q with getSemaphore := up q.getSemaphore }, .idle)

/-- One atomic step of `get_task`; `none` while its `down` blocks. -/
def getTask (q : Ipc) (t : Task) : GetPoint → Option (Ipc × Call)
  | .downGet =>
      (down q.getSemaphore).map fun v => ({ q with getSemaphore := v }, .get t .downMutex)
  | .downMutex =>
      (down q.mutexSemaphore).map fun v => ({ q with mutexSemaphore := v }, .get t .critical)
  | .critical =>
      let r := getCritical q.shm t
      some ({ q with shm := r.1 }, .get r.2 .upMutex)
  | .upMutex => some ({ q with mutexSemaphore := up q.mutexSemaphore }, .get t .upPut)
  | .upPut => some ({ q with putSemaphore := up q.putSemaphore }, .idle)

def advance (q : Ipc) : Call → Option (Ipc × Call)
  | .idle => none
  | .put t point => putTask q t point
  | .get t point => getTask q t point

/-- What a critical section does to the queue: store a number or hand one out. -/
inductive Access where
  | stored (n : ℤ)
  | fetched (n : ℤ)
deriving DecidableEq

/-- The access made by the next step, if that step is a critical section. -/
def access (q : Ipc) : Call → List Access
  | .put t .critical => [.stored t.number]
  | .get t .critical => [.fetched (getCritical q.shm t).2.number]
  | _ => []

def cellsTouched (q : Ipc) : Call → List ℤ
  | .put _ .critical => [putIndex q.shm]
  | .get _ .critical => [getIndex q.shm]
  | _ => []

def storedNumbers (h : List Access) : List ℤ :=
  h.filterMap fun | .stored n => some n | .fetched _ => none

def fetchedNumbers (h : List Access) : List ℤ :=
  h.filterMap fun | .stored _ => none | .fetched n => some n

@[simp] theorem storedNumbers_append (h h' : List Access) :
    storedNumbers (h ++ h') = storedNumbers h ++ storedNumbers h' :=
  List.filterMap_append

@[simp] theorem fetchedNumbers_append (h h' : List Access) :
    fetchedNumbers (h ++ h') = fetchedNumbers h ++ fetchedNumbers h' :=
  List.filterMap_append

/-! ## §3  What one step does to the accounts

Five sets of control points carry every count of the queue. -/

/-- In `put_task`, past `down(put)` and before `up(get)`. -/
def Call.inPut : Call → Bool
  | .put _ .downPut => false
  | .put _ _ => true
  | _ => false

/-- In `get_task`, past `down(get)` and before `up(put)`. -/
def Call.inGet : Call → Bool
  | .get _ .downGet => false
  | .get _ _ => true
  | _ => false

/-- Past `down(mutex)` and before `up(mutex)`. -/
def Call.inMutex : Call → Bool
  | .put _ .critical | .put _ .upMutex | .get _ .critical | .get _ .upMutex => true
  | _ => false

/-- In `put_task`, with the number stored but `up(get)` still to come. -/
def Call.putStored : Call → Bool
  | .put _ .upMutex | .put _ .upGet => true
  | _ => false

/-- In `get_task`, past `down(get)` with the number not yet read. -/
def Call.getClaimed : Call → Bool
  | .get _ .downMutex | .get _ .critical => true
  | _ => false

theorem putStored_inPut (c : Call) (h : c.putStored = true) : c.inPut = true := by
  cases c with
  | idle | get => simp [Call.putStored] at h
  | put t point => cases point <;> simp_all [Call.putStored, Call.inPut]

theorem getClaimed_inGet (c : Call) (h : c.getClaimed = true) : c.inGet = true := by
  cases c with
  | idle | put => simp [Call.getClaimed] at h
  | get t point => cases point <;> simp_all [Call.getClaimed, Call.inGet]

/-- The step relation, one case for each statement of the two functions. -/
theorem advance_cases {q q' : Ipc} {c c' : Call} (h : advance q c = some (q', c')) :
    (∃ t, c = .put t .downPut ∧ c' = .put t .downMutex ∧
      ∃ v, q.putSemaphore = v + 1 ∧ q' = { q with putSemaphore := v }) ∨
    (∃ t, c = .put t .downMutex ∧ c' = .put t .critical ∧
      ∃ v, q.mutexSemaphore = v + 1 ∧ q' = { q with mutexSemaphore := v }) ∨
    (∃ t, c = .put t .critical ∧ c' = .put (putCritical q.shm t).2 .upMutex ∧
      q' = { q with shm := (putCritical q.shm t).1 }) ∨
    (∃ t, c = .put t .upMutex ∧ c' = .put t .upGet ∧
      q' = { q with mutexSemaphore := q.mutexSemaphore + 1 }) ∨
    (∃ t, c = .put t .upGet ∧ c' = .idle ∧
      q' = { q with getSemaphore := q.getSemaphore + 1 }) ∨
    (∃ t, c = .get t .downGet ∧ c' = .get t .downMutex ∧
      ∃ v, q.getSemaphore = v + 1 ∧ q' = { q with getSemaphore := v }) ∨
    (∃ t, c = .get t .downMutex ∧ c' = .get t .critical ∧
      ∃ v, q.mutexSemaphore = v + 1 ∧ q' = { q with mutexSemaphore := v }) ∨
    (∃ t, c = .get t .critical ∧ c' = .get (getCritical q.shm t).2 .upMutex ∧
      q' = { q with shm := (getCritical q.shm t).1 }) ∨
    (∃ t, c = .get t .upMutex ∧ c' = .get t .upPut ∧
      q' = { q with mutexSemaphore := q.mutexSemaphore + 1 }) ∨
    (∃ t, c = .get t .upPut ∧ c' = .idle ∧
      q' = { q with putSemaphore := q.putSemaphore + 1 }) := by
  have hdown : ∀ {n v : ℕ}, down n = some v → n = v + 1 := by
    intro n v hv
    cases n with
    | zero => simp [down] at hv
    | succ n => simpa [down] using hv
  cases c with
  | idle => simp [advance] at h
  | put t point =>
      cases point <;>
        simp only [advance, putTask, up, Option.map_eq_some_iff, Option.some.injEq,
          Prod.mk.injEq] at h
      case downPut | downMutex =>
        obtain ⟨v, hv, rfl, rfl⟩ := h
        simp [hdown hv]
      all_goals
        obtain ⟨rfl, rfl⟩ := h
        simp
  | get t point =>
      cases point <;>
        simp only [advance, getTask, up, Option.map_eq_some_iff, Option.some.injEq,
          Prod.mk.injEq] at h
      case downGet | downMutex =>
        obtain ⟨v, hv, rfl, rfl⟩ := h
        simp [hdown hv]
      all_goals
        obtain ⟨rfl, rfl⟩ := h
        simp

/-- Only the critical sections touch the segment. -/
theorem advance_shm {q q' : Ipc} {c c' : Call} (h : advance q c = some (q', c')) :
    (access q c = [] ∧ cellsTouched q c = [] ∧ q'.shm = q.shm) ∨
    (∃ t, c = .put t .critical ∧ q'.shm = (putCritical q.shm t).1) ∨
    (∃ t, c = .get t .critical ∧ q'.shm = (getCritical q.shm t).1) := by
  rcases advance_cases h with
    ⟨t, rfl, rfl, v, hv, rfl⟩ | ⟨t, rfl, rfl, v, hv, rfl⟩ | ⟨t, rfl, rfl, rfl⟩ |
    ⟨t, rfl, rfl, rfl⟩ | ⟨t, rfl, rfl, rfl⟩ | ⟨t, rfl, rfl, v, hv, rfl⟩ |
    ⟨t, rfl, rfl, v, hv, rfl⟩ | ⟨t, rfl, rfl, rfl⟩ | ⟨t, rfl, rfl, rfl⟩ | ⟨t, rfl, rfl, rfl⟩
  case inr.inr.inl => exact Or.inr (Or.inl ⟨t, rfl, rfl⟩)
  case inr.inr.inr.inr.inr.inr.inr.inl => exact Or.inr (Or.inr ⟨t, rfl, rfl⟩)
  all_goals exact Or.inl ⟨rfl, rfl, rfl⟩

/-- What one step of a call keeps: the tokens of the two counting semaphores,
the one token of the mutex, the difference between the stored counter and the
get tokens, and the count of critical sections. -/
structure Balanced (q : Ipc) (c : Call) (q' : Ipc) (c' : Call) : Prop where
  tokens : q'.putSemaphore + q'.getSemaphore + c'.inPut.toNat + c'.inGet.toNat =
    q.putSemaphore + q.getSemaphore + c.inPut.toNat + c.inGet.toNat
  mutex : q'.mutexSemaphore + c'.inMutex.toNat = q.mutexSemaphore + c.inMutex.toNat
  stock : q'.shm.taskCounter + q.getSemaphore + c.putStored.toNat + c.getClaimed.toNat =
    q.shm.taskCounter + q'.getSemaphore + c'.putStored.toNat + c'.getClaimed.toNat
  counter : q'.shm.taskCounter + (fetchedNumbers (access q c)).length =
    q.shm.taskCounter + (storedNumbers (access q c)).length

theorem advance_balanced {q q' : Ipc} {c c' : Call} (h : advance q c = some (q', c')) :
    Balanced q c q' c' := by
  rcases advance_cases h with
    ⟨t, rfl, rfl, v, hv, rfl⟩ | ⟨t, rfl, rfl, v, hv, rfl⟩ | ⟨t, rfl, rfl, rfl⟩ |
    ⟨t, rfl, rfl, rfl⟩ | ⟨t, rfl, rfl, rfl⟩ | ⟨t, rfl, rfl, v, hv, rfl⟩ |
    ⟨t, rfl, rfl, v, hv, rfl⟩ | ⟨t, rfl, rfl, rfl⟩ | ⟨t, rfl, rfl, rfl⟩ | ⟨t, rfl, rfl, rfl⟩
  all_goals
    constructor <;>
      simp only [Call.inPut, Call.inGet, Call.inMutex, Call.putStored, Call.getClaimed,
        access, storedNumbers, fetchedNumbers, putCritical, getCritical, List.filterMap_cons,
        List.filterMap_nil, List.length_cons, List.length_nil, Bool.toNat_true,
        Bool.toNat_false] <;>
      omega

end Sysopy.TaskQueue
