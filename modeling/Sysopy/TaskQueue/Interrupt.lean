import Sysopy.TaskQueue.Accounting

/-!
# Interrupting users of the task queue

`SIGINT` only sets `was_interrupted`, and the loops of producer and consumer
test it between two calls. But the signal also interrupts a `semop` that is
blocked: it returns -1, and `down` leaves the process with `exit`, whatever
tokens the call has already taken. The counts of the running queue still hold
when the abandoned calls are counted as if they were running.

## Sections

* §1 the system
* §2 accounts with abandoned calls
* §3 when an interruption damages nothing
-/

namespace Sysopy.TaskQueue

open Sysopy.Foundation

/-! ## §1  The system -/

/-- A process is in its main loop, in some call or between two, or has exited. -/
inductive Life where
  | running (c : Call)
  | exited
deriving DecidableEq

def Life.call : Life → Call
  | .running c => c
  | .exited => .idle

@[simp] theorem Life.call_running (c : Call) : (Life.running c).call = c := rfl

@[simp] theorem Life.call_exited : Life.exited.call = .idle := rfl

/-- The shared objects, every process, and its flag `was_interrupted`. -/
structure Users (P : Type*) where
  ipc : Ipc
  life : P → Life
  wasInterrupted : P → Bool

/-- The steps of the queue, and `SIGINT`: its handler alone, or its handler
and the failure of the `semop` it interrupts. `quit` ends the main loop. -/
inductive Event (P : Type*) where
  | putTask (p : P) (t : Task)
  | getTask (p : P) (t : Task)
  | advance (p : P)
  | quit (p : P)
  | sigint (p : P)
  | sigintBlocked (p : P)

section

variable {P : Type*}

def Users.shouldContinue (s : Users P) (p : P) : Bool := !s.wasInterrupted p

/-- The call that ends when its process exits from `down`. -/
def Users.abandoned (s : Users P) : Event P → List Call
  | .sigintBlocked p => [(s.life p).call]
  | _ => []

variable [DecidableEq P]

def Users.next (s : Users P) : Event P → Option (Users P)
  | .putTask p t =>
      if s.life p = .running .idle ∧ s.shouldContinue p then
        some { s with life := Function.update s.life p (.running (.put t .downPut)) }
      else none
  | .getTask p t =>
      if s.life p = .running .idle ∧ s.shouldContinue p then
        some { s with life := Function.update s.life p (.running (.get t .downGet)) }
      else none
  | .advance p =>
      match s.life p with
      | .running c =>
          (TaskQueue.advance s.ipc c).map fun r =>
            { s with ipc := r.1, life := Function.update s.life p (.running r.2) }
      | .exited => none
  | .quit p =>
      if s.life p = .running .idle ∧ ¬ s.shouldContinue p then
        some { s with life := Function.update s.life p .exited }
      else none
  | .sigint p =>
      match s.life p with
      | .running _ => some { s with wasInterrupted := Function.update s.wasInterrupted p true }
      | .exited => none
  | .sigintBlocked p =>
      match s.life p with
      | .running c =>
          -- the process sleeps in `down` exactly when its call cannot advance
          if c ≠ .idle ∧ (TaskQueue.advance s.ipc c).isNone then
            some { s with
              life := Function.update s.life p .exited
              wasInterrupted := Function.update s.wasInterrupted p true }
          else none
      | .exited => none

def users (P : Type*) [DecidableEq P] (cell : ℤ → ℤ) : System (Users P) (Event P) where
  init :=
    { ipc := initializedIpc cell
      life := fun _ => .running .idle
      wasInterrupted := fun _ => false }
  next := Users.next

/-- A step moves one process between two points outside every count, advances
one call, touches only the flags, or abandons a call. -/
theorem Users.next_cases {s s' : Users P} {e : Event P} (h : s.next e = some s') :
    (∃ p l, (s.life p).call = .idle ∧
      (l.call = .idle ∨ (∃ t, l.call = .put t .downPut) ∨ ∃ t, l.call = .get t .downGet) ∧
      s.abandoned e = [] ∧ s'.ipc = s.ipc ∧ s'.life = Function.update s.life p l) ∨
    (∃ p c q c', s.life p = .running c ∧ TaskQueue.advance s.ipc c = some (q, c') ∧
      s.abandoned e = [] ∧ s'.ipc = q ∧
      s'.life = Function.update s.life p (.running c')) ∨
    (s.abandoned e = [] ∧ s'.ipc = s.ipc ∧ s'.life = s.life) ∨
    (∃ p, s.abandoned e = [(s.life p).call] ∧ s'.ipc = s.ipc ∧
      s'.life = Function.update s.life p .exited) := by
  cases e with
  | putTask p t =>
      simp only [Users.next, Option.ite_none_right_eq_some, Option.some.injEq] at h
      obtain ⟨⟨hidle, -⟩, rfl⟩ := h
      exact Or.inl ⟨p, _, by rw [hidle]; rfl, Or.inr (Or.inl ⟨t, rfl⟩), rfl, rfl, rfl⟩
  | getTask p t =>
      simp only [Users.next, Option.ite_none_right_eq_some, Option.some.injEq] at h
      obtain ⟨⟨hidle, -⟩, rfl⟩ := h
      exact Or.inl ⟨p, _, by rw [hidle]; rfl, Or.inr (Or.inr ⟨t, rfl⟩), rfl, rfl, rfl⟩
  | advance p =>
      cases hp : s.life p with
      | running c =>
          simp only [Users.next, hp, Option.map_eq_some_iff] at h
          obtain ⟨⟨q, c'⟩, hadv, rfl⟩ := h
          exact Or.inr (Or.inl ⟨p, c, q, c', hp, hadv, rfl, rfl, rfl⟩)
      | exited => simp [Users.next, hp] at h
  | quit p =>
      simp only [Users.next, Option.ite_none_right_eq_some, Option.some.injEq] at h
      obtain ⟨⟨hidle, -⟩, rfl⟩ := h
      exact Or.inl ⟨p, .exited, by rw [hidle]; rfl, Or.inl rfl, rfl, rfl, rfl⟩
  | sigint p =>
      cases hp : s.life p with
      | running c =>
          simp only [Users.next, hp, Option.some.injEq] at h
          subst h
          exact Or.inr (Or.inr (Or.inl ⟨rfl, rfl, rfl⟩))
      | exited => simp [Users.next, hp] at h
  | sigintBlocked p =>
      cases hp : s.life p with
      | running c =>
          simp only [Users.next, hp, Option.ite_none_right_eq_some, Option.some.injEq] at h
          obtain ⟨-, rfl⟩ := h
          exact Or.inr (Or.inr (Or.inr ⟨p, rfl, rfl, rfl⟩))
      | exited => simp [Users.next, hp] at h

end

/-! ## §2  Accounts with abandoned calls -/

variable {P : Type*} [Fintype P]

/-- The processes at a control point in `Q`, and the calls abandoned there. -/
def Users.count (s : Users P) (gone : List Call) (Q : Call → Bool) : ℕ :=
  tally (fun l : Life => Q l.call) s.life + gone.countP Q

/-- The accounts of the queue when the calls `gone` were abandoned. -/
structure Abandons (gone : List Call) (s : Users P) : Prop where
  tokens : s.ipc.putSemaphore + s.ipc.getSemaphore + s.count gone Call.inPut +
    s.count gone Call.inGet = maxTaskCapacity
  stock : s.ipc.shm.taskCounter = s.ipc.getSemaphore + s.count gone Call.putStored +
    s.count gone Call.getClaimed

variable [DecidableEq P]

theorem abandons_start (cell : ℤ → ℤ) : Abandons [] (users P cell).init where
  tokens := by
    simp only [Users.count]
    rw [tally_eq_zero fun _ => rfl, tally_eq_zero fun _ => rfl]
    rfl
  stock := by
    simp only [Users.count]
    rw [tally_eq_zero fun _ => rfl, tally_eq_zero fun _ => rfl]
    rfl

omit [DecidableEq P] in
/-- Only the shared objects and the counts matter. -/
theorem Abandons.congr {gone gone' : List Call} {s s' : Users P} (ha : Abandons gone s)
    (hipc : s'.ipc = s.ipc)
    (hput : s'.count gone' Call.inPut = s.count gone Call.inPut)
    (hget : s'.count gone' Call.inGet = s.count gone Call.inGet)
    (hstored : s'.count gone' Call.putStored = s.count gone Call.putStored)
    (hclaimed : s'.count gone' Call.getClaimed = s.count gone Call.getClaimed) :
    Abandons gone' s' := by
  constructor
  · rw [hipc, hput, hget]; exact ha.tokens
  · rw [hipc, hstored, hclaimed]; exact ha.stock

/-- A process that moves is counted at its new point instead of its old one. -/
theorem Users.count_update (gone : List Call) {s s' : Users P} {p : P} {l : Life}
    (hlife : s'.life = Function.update s.life p l) (Q : Call → Bool) :
    s'.count gone Q + (Q (s.life p).call).toNat = s.count gone Q + (Q l.call).toNat := by
  have h := tally_update (fun l : Life => Q l.call) s.life p l
  rw [← hlife] at h
  unfold Users.count
  omega

theorem Users.count_abandon {gone : List Call} {s s' : Users P} {p : P}
    (hlife : s'.life = Function.update s.life p .exited) {Q : Call → Bool}
    (hidle : Q .idle = false) :
    s'.count (gone ++ [(s.life p).call]) Q = s.count gone Q := by
  have h := Users.count_update gone hlife Q
  have hgone : s'.count (gone ++ [(s.life p).call]) Q =
      s'.count gone Q + (Q (s.life p).call).toNat := by
    unfold Users.count
    rw [List.countP_append, List.countP_singleton, ← add_assoc]
    cases Q (s.life p).call <;> rfl
  rw [Life.call_exited, hidle] at h
  rw [hgone]
  exact h

theorem Abandons.step {gone : List Call} {s s' : Users P} {e : Event P}
    (ha : Abandons gone s) (hn : s.next e = some s') :
    Abandons (gone ++ s.abandoned e) s' := by
  rcases Users.next_cases hn with
    ⟨p, l, hp, hl, hgone, hipc, hlife⟩ | ⟨p, c, q, c', hp, hadv, hgone, hipc, hlife⟩ |
    ⟨hgone, hipc, hlife⟩ | ⟨p, hgone, hipc, hlife⟩
  · have hkeep : ∀ Q : Call → Bool, (∀ t, Q .idle = Q (.put t .downPut)) →
        (∀ t, Q .idle = Q (.get t .downGet)) → s'.count gone Q = s.count gone Q := by
      intro Q h1 h2
      -- no count tells the two points apart
      have hQ : Q (s.life p).call = Q l.call := by
        rcases hl with h | ⟨t, h⟩ | ⟨t, h⟩
        · rw [hp, h]
        · rw [hp, h, h1 t]
        · rw [hp, h, h2 t]
      have h := Users.count_update gone hlife Q
      rw [hQ] at h
      exact Nat.add_right_cancel h
    rw [hgone, List.append_nil]
    exact ha.congr hipc (hkeep _ (fun _ => rfl) fun _ => rfl)
      (hkeep _ (fun _ => rfl) fun _ => rfl) (hkeep _ (fun _ => rfl) fun _ => rfl)
      (hkeep _ (fun _ => rfl) fun _ => rfl)
  · have hb := advance_balanced hadv
    have hmove : ∀ Q : Call → Bool,
        s'.count gone Q + (Q c).toNat = s.count gone Q + (Q c').toNat := by
      intro Q
      have h := Users.count_update gone hlife Q
      rwa [hp, Life.call_running, Life.call_running] at h
    rw [hgone, List.append_nil]
    constructor
    · have h1 := hmove Call.inPut
      have h2 := hmove Call.inGet
      have h3 := hb.tokens
      have h4 := ha.tokens
      rw [hipc]
      omega
    · have h1 := hmove Call.putStored
      have h2 := hmove Call.getClaimed
      have h3 := hb.stock
      have h4 := ha.stock
      rw [hipc]
      omega
  · rw [hgone, List.append_nil]
    have hkeep : ∀ Q, s'.count gone Q = s.count gone Q := by
      intro Q
      unfold Users.count
      rw [hlife]
    exact ha.congr hipc (hkeep _) (hkeep _) (hkeep _) (hkeep _)
  · rw [hgone]
    exact ha.congr hipc (Users.count_abandon hlife rfl) (Users.count_abandon hlife rfl)
      (Users.count_abandon hlife rfl) (Users.count_abandon hlife rfl)

theorem run_abandons {cell : ℤ → ℤ} {tr : List (Users P × Event P)} {s : Users P}
    (h : (users P cell).Run tr s) : Abandons (observe Users.abandoned tr) s := by
  refine h.invariant (I := fun tr s => Abandons (observe Users.abandoned tr) s)
    (abandons_start cell) ?_
  intro tr s a t ha hn
  rw [observe_snoc]
  exact ha.step hn

/-! ## §3  When an interruption damages nothing -/

omit [Fintype P] [DecidableEq P]

/-- No process is inside `put_task` or `get_task`. -/
def Users.Quiescent (s : Users P) : Prop := ∀ p, (s.life p).call = .idle

/-- All tokens are back, and there is a get token for each number stored. -/
def Undamaged (s : Users P) : Prop :=
  s.ipc.putSemaphore + s.ipc.getSemaphore = 25 ∧
    (s.ipc.getSemaphore : ℤ) = s.ipc.shm.taskCounter

/-- A process that exits from `down` holds no token: it sleeps in the first
`down` of its call, not in `down(mutex_semaphore_id)`. -/
def ExitsEmptyHanded (s : Users P) (e : Event P) : Prop :=
  ∀ p, e = .sigintBlocked p →
    (s.life p).call.inPut = false ∧ (s.life p).call.inGet = false

theorem exitsEmptyHanded_iff {tr : List (Users P × Event P)} :
    (∀ x ∈ tr, ExitsEmptyHanded x.1 x.2) ↔
      ∀ c ∈ observe Users.abandoned tr, c.inPut = false ∧ c.inGet = false := by
  constructor
  · intro hall c hc
    obtain ⟨⟨s, e⟩, hx, hce⟩ := mem_observe.mp hc
    cases e with
    | sigintBlocked p =>
        rw [List.mem_singleton.mp hce]
        exact hall _ hx p rfl
    | putTask | getTask | advance | quit | sigint => exact absurd hce List.not_mem_nil
  · rintro hall ⟨s, e⟩ hx p rfl
    exact hall _ (mem_observe.mpr ⟨_, hx, List.mem_singleton.mpr rfl⟩)

/-- **An interruption damages nothing exactly when it finds no token taken**:
in a state where no process is inside a call, the tokens and the counter are
right if and only if every process that exited from `down` did so from the
first `down` of its call. -/
theorem undamaged_iff_exitsEmptyHanded [Fintype P] [DecidableEq P] {cell : ℤ → ℤ}
    {tr : List (Users P × Event P)} {s : Users P} (h : (users P cell).Run tr s)
    (hq : s.Quiescent) : Undamaged s ↔ ∀ x ∈ tr, ExitsEmptyHanded x.1 x.2 := by
  have ha := run_abandons h
  have hcount : ∀ Q : Call → Bool, Q .idle = false →
      s.count (observe Users.abandoned tr) Q = (observe Users.abandoned tr).countP Q := by
    intro Q hidle
    unfold Users.count
    rw [tally_eq_zero fun p => by rw [hq p, hidle], Nat.zero_add]
  have htokens := ha.tokens
  have hstock := ha.stock
  rw [hcount _ rfl, hcount _ rfl] at htokens hstock
  have hcap : maxTaskCapacity = 25 := rfl
  rw [exitsEmptyHanded_iff, Undamaged]
  constructor
  · rintro ⟨hsum, -⟩ c hc
    have hput : (observe Users.abandoned tr).countP Call.inPut = 0 := by omega
    have hget : (observe Users.abandoned tr).countP Call.inGet = 0 := by omega
    exact ⟨Bool.eq_false_iff.mpr (List.countP_eq_zero.mp hput c hc),
      Bool.eq_false_iff.mpr (List.countP_eq_zero.mp hget c hc)⟩
  · intro hall
    have hput : (observe Users.abandoned tr).countP Call.inPut = 0 :=
      List.countP_eq_zero.mpr fun c hc => by simp [(hall c hc).1]
    have hget : (observe Users.abandoned tr).countP Call.inGet = 0 :=
      List.countP_eq_zero.mpr fun c hc => by simp [(hall c hc).2]
    have hstored := List.countP_mono_left (l := observe Users.abandoned tr)
      fun c _ hc => putStored_inPut c hc
    have hclaimed := List.countP_mono_left (l := observe Users.abandoned tr)
      fun c _ hc => getClaimed_inGet c hc
    omega

/-- Process 0 is in its critical section and process 1 waits for the mutex with
a put token in hand when `SIGINT` reaches it. -/
theorem interrupted_mutex_loses_token : ∃ tr s, (users (Fin 2) fun _ => 0).Run tr s ∧
    s.Quiescent ∧ ¬ Undamaged s := by
  have h := (users (Fin 2) fun _ => 0).run_of_replay
    [.putTask 0 ⟨7, 0⟩, .advance 0, .advance 0, .putTask 1 ⟨8, 0⟩, .advance 1,
      .sigintBlocked 1, .advance 0, .advance 0, .advance 0] rfl
  refine ⟨_, _, h, ?_, ?_⟩
  · unfold Users.Quiescent
    decide
  · unfold Undamaged
    decide

/-- A consumer is interrupted while it waits for the first number. -/
theorem undamaged_iff_exitsEmptyHanded_first : ∃ tr s,
    (users (Fin 2) fun _ => 0).Run tr s ∧ observe Users.abandoned tr = [.get ⟨0, 0⟩ .downGet] ∧
    (Undamaged s ↔ ∀ x ∈ tr, ExitsEmptyHanded x.1 x.2) := by
  have h := (users (Fin 2) fun _ => 0).run_of_replay
    [.getTask 1 ⟨0, 0⟩, .sigintBlocked 1] rfl
  refine ⟨_, _, h, rfl, undamaged_iff_exitsEmptyHanded h ?_⟩
  unfold Users.Quiescent
  decide

end Sysopy.TaskQueue
