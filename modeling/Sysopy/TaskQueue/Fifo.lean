import Sysopy.Foundation.Ring
import Sysopy.TaskQueue.Accounting

/-!
# The order in which the task queue hands numbers out

`put_task` computes its cell from the counter it has already incremented, so
the `k`-th number goes to cell `k + 1`, while the `k`-th `get_task` reads cell
`k` (both modulo the capacity, counting from 0). A reader therefore meets the
number put *before* the one it should take: for the first reader whatever the
segment held, and on a full ring the newest number, which has just come round.

## Sections

* §1 what the order should be and what the cells hold
* §2 what each `get_task` returns
* §3 when the queue is first-in first-out
-/

namespace Sysopy.TaskQueue

open Sysopy.Foundation

/-! ## §1  What the order should be and what the cells hold -/

/-- First-in first-out: a `get_task` with `k` others before it returns the
number of the `put_task` with `k` others before it. -/
def FirstInFirstOut (h : List Access) : Prop :=
  ∀ pre n post, h = pre ++ .fetched n :: post →
    (storedNumbers h)[(fetchedNumbers pre).length]? = some n

/-- The number that lies in the cell read by a `get_task` coming after `pre`,
from the numbers put so far: the newest one on a full ring, else the one put
just before the oldest still waiting; `first` is what cell 0 held at the
start. -/
def source (first : ℤ) (pre : List Access) : Option ℤ :=
  let k := (fetchedNumbers pre).length
  if (storedNumbers pre).length = k + maxTaskCapacity then (storedNumbers pre).getLast?
  else if k = 0 then some first
  else (storedNumbers pre)[k - 1]?

/-- At every `get_task` the number in its cell happens to be the one that is
due. -/
def NumbersAgree (first : ℤ) (h : List Access) : Prop :=
  ∀ pre n post, h = pre ++ .fetched n :: post →
    source first pre = (storedNumbers pre)[(fetchedNumbers pre).length]?

/-- The cell of the `j`-th number put. -/
def putCell (j : ℕ) : ℤ := ((j + 1) % maxTaskCapacity : ℕ)

theorem putCell_eq_iff (i j : ℕ) :
    putCell i = putCell j ↔ i % maxTaskCapacity = j % maxTaskCapacity := by
  simp only [putCell, maxTaskCapacity]
  omega

variable {P : Type*} [Fintype P]

theorem Accounts.putIndex_eq {h : List Access} {s : Queue P} (hacc : Accounts h s) :
    putIndex s.ipc.shm = putCell (storedNumbers h).length := by
  have hcount := hacc.counter_bounds
  have hbounds := hacc.start_bounds
  have hcounter := hacc.counter
  have hstart := hacc.start
  have hnn : 0 ≤ s.ipc.shm.startIndex + (s.ipc.shm.taskCounter + 1) := by omega
  rw [putIndex, Int.tmod_eq_emod_of_nonneg hnn, hstart]
  simp only [putCell, maxTaskCapacity]
  omega

/-- What the cells hold after the accesses `h`, when they started as `cell`. -/
structure Cells (cell : ℤ → ℤ) (h : List Access) (m : Segment) : Prop where
  ring : RingHolds maxTaskCapacity putCell m.cell (storedNumbers h)
  first : (storedNumbers h).length < maxTaskCapacity → m.cell 0 = cell 0

theorem cells_start (cell : ℤ → ℤ) : Cells cell [] (initializedIpc cell).shm where
  ring := ringHolds_nil _ _ _
  first := fun _ => rfl

theorem Cells.put {cell : ℤ → ℤ} {h : List Access} {s : Queue P} (hacc : Accounts h s)
    (hc : Cells cell h s.ipc.shm) (t : Task) :
    Cells cell (h ++ [.stored t.number]) (putCritical s.ipc.shm t).1 where
  ring := by
    simp only [putCritical, hacc.putIndex_eq, storedNumbers_append]
    exact hc.ring.write putCell_eq_iff t.number
  first := by
    simp only [storedNumbers_append, List.length_append, putCritical]
    intro hlt
    have hlt' : (storedNumbers h).length + 1 < maxTaskCapacity := hlt
    have hne : (0 : ℤ) ≠ putIndex s.ipc.shm := by
      rw [hacc.putIndex_eq, putCell, Nat.mod_eq_of_lt hlt']
      omega
    rw [Function.update_of_ne hne]
    exact hc.first (by omega)

theorem Cells.get {cell : ℤ → ℤ} {h : List Access} {m : Segment} (hc : Cells cell h m)
    (t : Task) (n : ℤ) : Cells cell (h ++ [.fetched n]) (getCritical m t).1 where
  ring := by
    simpa [getCritical, storedNumbers] using hc.ring
  first := by
    simpa [getCritical, storedNumbers] using hc.first

/-! ## §2  What each `get_task` returns -/

/-- A `get_task` in its critical section finds some number still waiting. -/
theorem Accounts.waiting {h : List Access} {s : Queue P} [DecidableEq P]
    (hacc : Accounts h s) {p : P} {t : Task} (hp : s.call p = .get t .critical) :
    (fetchedNumbers h).length < (storedNumbers h).length := by
  have hone := toNat_le_tally Call.getClaimed s.call p
  rw [hp] at hone
  have hstock := hacc.stock
  have hcounter := hacc.counter
  have : (1 : ℕ) ≤ tally Call.getClaimed s.call := hone
  omega

theorem Cells.fetched {cell : ℤ → ℤ} {h : List Access} {s : Queue P}
    (hacc : Accounts h s) (hc : Cells cell h s.ipc.shm)
    (hwait : (fetchedNumbers h).length < (storedNumbers h).length) :
    source (cell 0) h = some (s.ipc.shm.cell (getIndex s.ipc.shm)) := by
  have hcount := hacc.counter_bounds
  have hcounter := hacc.counter
  have hcap : maxTaskCapacity = 25 := rfl
  have hidx : getIndex s.ipc.shm = ((fetchedNumbers h).length % maxTaskCapacity : ℕ) :=
    hacc.start
  -- the cell of put number `j` is the one read, whenever `j` is congruent to it
  have hread : ∀ j (hj : j < (storedNumbers h).length),
      (storedNumbers h).length ≤ j + maxTaskCapacity →
      (j + 1) % maxTaskCapacity = (fetchedNumbers h).length % maxTaskCapacity →
      s.ipc.shm.cell (getIndex s.ipc.shm) = (storedNumbers h)[j] := by
    intro j hj hlast hmod
    rw [hidx, ← hmod]
    exact hc.ring j hj hlast
  unfold source
  by_cases hfull : (storedNumbers h).length = (fetchedNumbers h).length + maxTaskCapacity
  · have hlast := hread ((storedNumbers h).length - 1) (by omega) (by omega)
      (by rw [hcap]; omega)
    rw [if_pos hfull, hlast, List.getLast?_eq_getElem?]
    exact List.getElem?_eq_getElem _
  · rw [if_neg hfull]
    by_cases hzero : (fetchedNumbers h).length = 0
    · rw [if_pos hzero, hidx, hzero]
      exact congrArg some (hc.first (by omega)).symm
    · have hprev := hread ((fetchedNumbers h).length - 1) (by omega) (by omega)
        (by rw [hcap]; omega)
      rw [if_neg hzero, hprev]
      exact List.getElem?_eq_getElem _

variable [DecidableEq P]

/-- Everything a run says about the numbers handed out so far. -/
structure Served (cell : ℤ → ℤ) (h : List Access) (s : Queue P) : Prop where
  accounts : Accounts h s
  cells : Cells cell h s.ipc.shm
  served : ∀ pre n post, h = pre ++ .fetched n :: post →
    (fetchedNumbers pre).length < (storedNumbers pre).length ∧
      source (cell 0) pre = some n

theorem Served.step {cell : ℤ → ℤ} {h : List Access} {s s' : Queue P} {a : Action P}
    (hs : Served cell h s) (hn : s.next a = some s') :
    Served cell (h ++ s.accesses a) s' := by
  have hacc := hs.accounts.step hn
  rcases Queue.next_cases hn with ⟨p, t, -, hempty, -, hipc, -⟩ | ⟨p, q, c, rfl, hadv, rfl⟩
  · rw [hempty, List.append_nil] at hacc ⊢
    exact ⟨hacc, by rw [hipc]; exact hs.cells, hs.served⟩
  · simp only [Queue.accesses] at hacc ⊢
    rcases advance_shm hadv with ⟨hempty, -, hshm⟩ | ⟨t, hp, hshm⟩ | ⟨t, hp, hshm⟩
    · rw [hempty, List.append_nil] at hacc ⊢
      exact ⟨hacc, by rw [hshm]; exact hs.cells, hs.served⟩
    · -- a put: the history ends with a stored number
      rw [hp] at hacc ⊢
      refine ⟨hacc, by rw [hshm]; exact hs.cells.put hs.accounts t, ?_⟩
      intro pre n post heq
      rcases split_snoc heq with ⟨-, hbad, -⟩ | ⟨post', -, hold⟩
      · exact absurd hbad (by simp)
      · exact hs.served pre n post' hold
    · -- a get: the new entry is served from the cells before the step
      have hwait := hs.accounts.waiting hp
      have hsource := hs.cells.fetched hs.accounts hwait
      rw [hp] at hacc ⊢
      refine ⟨hacc, by rw [hshm]; exact hs.cells.get t _, ?_⟩
      intro pre n post heq
      rcases split_snoc heq with ⟨rfl, hnew, -⟩ | ⟨post', -, hold⟩
      · obtain rfl := Access.fetched.inj hnew
        exact ⟨hwait, hsource⟩
      · exact hs.served pre n post' hold

theorem run_served {cell : ℤ → ℤ} {tr : List (Queue P × Action P)} {s : Queue P}
    (h : (queue P cell).Run tr s) : Served cell (history tr) s := by
  refine h.invariant (I := fun tr s => Served cell (history tr) s) ?_ ?_
  · exact ⟨accounts_start cell, cells_start cell, by simp [history]⟩
  · intro tr s a t hs hn
    rw [history_snoc]
    exact hs.step hn

/-! ## §3  When the queue is first-in first-out -/

/-- **The queue is first-in first-out exactly when the numbers agree**: a run
serves its callers in order if and only if each `get_task` finds, in the cell
before the right one, a number equal to the one due. -/
theorem fifo_iff_numbersAgree {cell : ℤ → ℤ} {tr : List (Queue P × Action P)}
    {s : Queue P} (h : (queue P cell).Run tr s) :
    FirstInFirstOut (history tr) ↔ NumbersAgree (cell 0) (history tr) := by
  have hserved := (run_served h).served
  have hdue : ∀ pre n post, history tr = pre ++ .fetched n :: post →
      (storedNumbers (history tr))[(fetchedNumbers pre).length]? =
        (storedNumbers pre)[(fetchedNumbers pre).length]? := by
    intro pre n post heq
    rw [heq, storedNumbers_append]
    exact List.getElem?_append_left (hserved pre n post heq).1
  constructor
  · intro hfifo pre n post heq
    rw [(hserved pre n post heq).2, ← hdue pre n post heq]
    exact (hfifo pre n post heq).symm
  · intro hagree pre n post heq
    rw [hdue pre n post heq, ← hagree pre n post heq]
    exact (hserved pre n post heq).2

/-- The schedule of one producer that stores `n` and one consumer. -/
def putThenGet (n : ℤ) : List (Action (Fin 2)) :=
  [.putTask 0 ⟨n, 0⟩, .advance 0, .advance 0, .advance 0, .advance 0, .advance 0,
    .getTask 1 ⟨0, 0⟩, .advance 1, .advance 1, .advance 1, .advance 1, .advance 1]

/-- A consumer that takes a number from zero-filled cells after a producer has
put 7 gets 0. -/
theorem fetches_unwritten_cell : ∃ tr s, (queue (Fin 2) fun _ => 0).Run tr s ∧
    history tr = [.stored 7, .fetched 0] ∧ ¬ FirstInFirstOut (history tr) := by
  have h := (queue (Fin 2) fun _ => 0).run_of_replay (putThenGet 7) rfl
  refine ⟨_, _, h, rfl, ?_⟩
  intro hfifo
  exact absurd (hfifo [.stored 7] 0 [] rfl) (by decide)

/-- With 7 already in cell 0 the same schedule is in order. -/
theorem fifo_iff_numbersAgree_seven : ∃ tr s, (queue (Fin 2) fun _ => 7).Run tr s ∧
    history tr = [.stored 7, .fetched 7] ∧
    (FirstInFirstOut (history tr) ↔ NumbersAgree 7 (history tr)) := by
  have h := (queue (Fin 2) fun _ => 7).run_of_replay (putThenGet 7) rfl
  exact ⟨_, _, h, rfl, fifo_iff_numbersAgree h⟩

end Sysopy.TaskQueue
