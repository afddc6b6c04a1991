import Mathlib.Algebra.BigOperators.Group.List.Basic
import Mathlib.Algebra.GroupWithZero.Nat
import Mathlib.Algebra.Ring.Int.Defs
import Sysopy.TaskQueue.Accounting

/-!
# Concurrent start-up of the task queue

Every process runs `init_ipc` first. `IPC_CREAT | IPC_EXCL` lets exactly one
process create each object, and that process then initialises it in a later
step; the others attach and go on at once. So a creator may store the counter,
or `SETVAL` the get semaphore, when the queue is already in use.

## Sections

* §1 `init_ipc` and the system
* §2 what the initialising stores overwrite
* §3 when start-up loses nothing
-/

namespace Sysopy.TaskQueue

open Sysopy.Foundation

/-! ## §1  `init_ipc` and the system -/

/-- The next statement of a running `init_ipc`. -/
inductive InitPoint where
  | shmget | storeCounter | storeStartIndex
  | semgetMutex | setvalMutex
  | semgetPut | setvalPut
  | semgetGet | setvalGet
deriving DecidableEq

/-- A process is still in `init_ipc` or has returned from it. -/
inductive Proc where
  | init (next : InitPoint)
  | ready (c : Call)
deriving DecidableEq

/-- The IPC objects, and which of them have been created. -/
structure Objects where
  ipc : Ipc
  shmExists : Bool
  mutexExists : Bool
  putExists : Bool
  getExists : Bool

/-- One atomic step of `init_ipc`. The first `shmget` or `semget` of an object
creates it, zero-filled, and leads to its initialisation; a later one finds it
and skips that. -/
def initIpc (k : Objects) : InitPoint → Objects × Proc
  | .shmget =>
      if k.shmExists then (k, .init .semgetMutex)
      else ({ k with
        shmExists := true
        ipc := { k.ipc with shm := { cell := fun _ => 0, taskCounter := 0, startIndex := 0 } } },
        .init .storeCounter)
  | .storeCounter =>
      ({ k with ipc := { k.ipc with shm := { k.ipc.shm with taskCounter := 0 } } },
        .init .storeStartIndex)
  | .storeStartIndex =>
      ({ k with ipc := { k.ipc with shm := { k.ipc.shm with startIndex := 0 } } },
        .init .semgetMutex)
  | .semgetMutex =>
      if k.mutexExists then (k, .init .semgetPut)
      else ({ k with mutexExists := true, ipc := { k.ipc with mutexSemaphore := 0 } },
        .init .setvalMutex)
  | .setvalMutex => ({ k with ipc := { k.ipc with mutexSemaphore := 1 } }, .init .semgetPut)
  | .semgetPut =>
      if k.putExists then (k, .init .semgetGet)
      else ({ k with putExists := true, ipc := { k.ipc with putSemaphore := 0 } },
        .init .setvalPut)
  | .setvalPut =>
      ({ k with ipc := { k.ipc with putSemaphore := maxTaskCapacity } }, .init .semgetGet)
  | .semgetGet =>
      if k.getExists then (k, .ready .idle)
      else ({ k with getExists := true, ipc := { k.ipc with getSemaphore := 0 } },
        .init .setvalGet)
  | .setvalGet => ({ k with ipc := { k.ipc with getSemaphore := 0 } }, .ready .idle)

structure Startup (P : Type*) where
  objects : Objects
  proc : P → Proc

/-- The call a process is in; none while it is in `init_ipc`. -/
def Proc.call : Proc → Call
  | .init _ => .idle
  | .ready c => c

@[simp] theorem Proc.call_init (point : InitPoint) : (Proc.init point).call = .idle := rfl

@[simp] theorem Proc.call_ready (c : Call) : (Proc.ready c).call = c := rfl

section

variable {P : Type*}

def Startup.accesses (s : Startup P) : Action P → List Access
  | .advance p => access s.objects.ipc (s.proc p).call
  | _ => []

/-- The counter value overwritten when the creator of the segment stores 0. -/
def Startup.counterOverwritten (s : Startup P) : Action P → List ℤ
  | .advance p =>
      if s.proc p = .init .storeCounter then [s.objects.ipc.shm.taskCounter] else []
  | _ => []

/-- The get tokens overwritten when the creator of the semaphore sets it to 0. -/
def Startup.tokensOverwritten (s : Startup P) : Action P → List ℕ
  | .advance p => if s.proc p = .init .setvalGet then [s.objects.ipc.getSemaphore] else []
  | _ => []

variable [DecidableEq P]

def Startup.next (s : Startup P) : Action P → Option (Startup P)
  | .putTask p t =>
      if s.proc p = .ready .idle then
        some { s with proc := Function.update s.proc p (.ready (.put t .downPut)) }
      else none
  | .getTask p t =>
      if s.proc p = .ready .idle then
        some { s with proc := Function.update s.proc p (.ready (.get t .downGet)) }
      else none
  | .advance p =>
      match s.proc p with
      | .init point =>
          let r := initIpc s.objects point
          some { objects := r.1, proc := Function.update s.proc p r.2 }
      | .ready c =>
          (TaskQueue.advance s.objects.ipc c).map fun r =>
            { objects := { s.objects with ipc := r.1 }
              proc := Function.update s.proc p (.ready r.2) }

/-- Nothing exists and every process is about to call `init_ipc`. -/
def startup (P : Type*) [DecidableEq P] : System (Startup P) (Action P) where
  init :=
    { objects :=
        { ipc :=
            { shm := { cell := fun _ => 0, taskCounter := 0, startIndex := 0 }
              mutexSemaphore := 0
              putSemaphore := 0
              getSemaphore := 0 }
          shmExists := false
          mutexExists := false
          putExists := false
          getExists := false }
      proc := fun _ => .init .shmget }
  next := Startup.next

/-- A step enters a function, takes a step of `init_ipc`, or advances a call. -/
theorem Startup.next_cases {s s' : Startup P} {a : Action P} (h : s.next a = some s') :
    (∃ p c, s.proc p = .ready .idle ∧ (∀ q, a ≠ .advance q) ∧
      ((∃ t, c = .put t .downPut) ∨ ∃ t, c = .get t .downGet) ∧
      s' = { s with proc := Function.update s.proc p (.ready c) }) ∨
    (∃ p point, a = .advance p ∧ s.proc p = .init point ∧
      s' = { objects := (initIpc s.objects point).1
             proc := Function.update s.proc p (initIpc s.objects point).2 }) ∨
    (∃ p c q c', a = .advance p ∧ s.proc p = .ready c ∧
      TaskQueue.advance s.objects.ipc c = some (q, c') ∧
      s' = { objects := { s.objects with ipc := q }
             proc := Function.update s.proc p (.ready c') }) := by
  cases a with
  | putTask p t =>
      simp only [Startup.next, Option.ite_none_right_eq_some, Option.some.injEq] at h
      obtain ⟨hidle, rfl⟩ := h
      exact Or.inl ⟨p, _, hidle, by simp, Or.inl ⟨t, rfl⟩, rfl⟩
  | getTask p t =>
      simp only [Startup.next, Option.ite_none_right_eq_some, Option.some.injEq] at h
      obtain ⟨hidle, rfl⟩ := h
      exact Or.inl ⟨p, _, hidle, by simp, Or.inr ⟨t, rfl⟩, rfl⟩
  | advance p =>
      cases hp : s.proc p with
      | init point =>
          simp only [Startup.next, hp, Option.some.injEq] at h
          exact Or.inr (Or.inl ⟨p, point, rfl, hp, h.symm⟩)
      | ready c =>
          simp only [Startup.next, hp, Option.map_eq_some_iff] at h
          obtain ⟨⟨q, c'⟩, hadv, rfl⟩ := h
          exact Or.inr (Or.inr ⟨p, c, q, c', rfl, hp, hadv, rfl⟩)

end

/-! ## §2  What the initialising stores overwrite -/

def Proc.early : Proc → Bool
  | .init .setvalGet => false
  | .init _ => true
  | .ready _ => false

def Proc.atStore : Proc → Bool
  | .init .storeCounter => true
  | _ => false

theorem initIpc_call (k : Objects) (point : InitPoint) : (initIpc k point).2.call = .idle := by
  cases point <;> simp only [initIpc] <;> first | rfl | (split <;> rfl)

theorem initIpc_counter (k : Objects) (point : InitPoint) :
    (initIpc k point).1.ipc.shm.taskCounter =
      if point = .storeCounter ∨ (point = .shmget ∧ k.shmExists = false) then 0
      else k.ipc.shm.taskCounter := by
  cases point <;> simp [initIpc] <;> split <;> simp_all

theorem initIpc_tokens (k : Objects) (point : InitPoint) :
    (initIpc k point).1.ipc.getSemaphore =
      if point = .setvalGet ∨ (point = .semgetGet ∧ k.getExists = false) then 0
      else k.ipc.getSemaphore := by
  cases point <;> simp [initIpc] <;> split <;> simp_all

theorem initIpc_atStore (k : Objects) (point : InitPoint) :
    (initIpc k point).2.atStore = (decide (point = .shmget) && !k.shmExists) := by
  cases point <;> simp only [initIpc] <;> first | rfl | (split <;> simp_all [Proc.atStore])

theorem initIpc_shmExists {k : Objects} {point : InitPoint}
    (h : (initIpc k point).1.shmExists = false) : k.shmExists = false ∧ point ≠ .shmget := by
  cases point <;> simp only [initIpc] at h <;> (try split at h) <;> simp_all

theorem initIpc_getExists {k : Objects} {point : InitPoint}
    (h : (initIpc k point).1.getExists = false) :
    k.getExists = false ∧ point ≠ .semgetGet := by
  cases point <;> simp only [initIpc] at h <;> (try split at h) <;> simp_all

theorem initIpc_early {k : Objects} {point : InitPoint} (h1 : point ≠ .semgetGet)
    (h2 : point ≠ .setvalGet) : (initIpc k point).2.early = true := by
  cases point <;> simp only [initIpc] <;>
    first | rfl | contradiction | (split <;> simp [Proc.early])

variable {P : Type*} [DecidableEq P] [Fintype P]

/-- The accounts of a start-up after the accesses `h`, when the initialising
stores have overwritten the counter values `lc` and the token counts `lt`. -/
structure Overwrites (h : List Access) (lc : List ℤ) (lt : List ℕ) (s : Startup P) :
    Prop where
  counter : s.objects.ipc.shm.taskCounter + (fetchedNumbers h).length + lc.sum =
    (storedNumbers h).length
  tokens : s.objects.ipc.getSemaphore + (fetchedNumbers h).length + lt.sum +
    tally (fun r : Proc => r.call.getClaimed) s.proc +
    tally (fun r : Proc => r.call.putStored) s.proc = (storedNumbers h).length
  once : lc.length + tally Proc.atStore s.proc ≤ 1
  noSegment : s.objects.shmExists = false →
    (∀ p, s.proc p = .init .shmget) ∧ h = [] ∧ lc = []
  noTokens : s.objects.getExists = false →
    (∀ p, (s.proc p).early = true) ∧ h = [] ∧ lt = []

theorem overwrites_start : Overwrites [] [] [] (startup P).init where
  counter := rfl
  tokens := by
    rw [tally_eq_zero fun _ => rfl, tally_eq_zero fun _ => rfl]
    rfl
  once := by
    rw [tally_eq_zero fun _ => rfl]
    decide
  noSegment := fun _ => ⟨fun _ => rfl, rfl, rfl⟩
  noTokens := fun _ => ⟨fun _ => rfl, rfl, rfl⟩

omit [DecidableEq P] [Fintype P] in
theorem call_of_early {r : Proc} (h : r.early = true) : r.call = .idle := by
  cases r with
  | init point => rfl
  | ready c => simp [Proc.early] at h

theorem Overwrites.enter {h : List Access} {lc : List ℤ} {lt : List ℕ} {s : Startup P}
    (hw : Overwrites h lc lt s) {p : P} {c : Call} (hp : s.proc p = .ready .idle)
    (hc : (∃ t, c = .put t .downPut) ∨ ∃ t, c = .get t .downGet) :
    Overwrites h lc lt { s with proc := Function.update s.proc p (.ready c) } := by
  have hclaimed : c.getClaimed = false := by rcases hc with ⟨t, rfl⟩ | ⟨t, rfl⟩ <;> rfl
  have hstored : c.putStored = false := by rcases hc with ⟨t, rfl⟩ | ⟨t, rfl⟩ <;> rfl
  constructor
  · exact hw.counter
  · rw [tally_update_of_eq (by rw [hp, Proc.call_ready, Proc.call_ready, hclaimed]; rfl),
      tally_update_of_eq (by rw [hp, Proc.call_ready, Proc.call_ready, hstored]; rfl)]
    exact hw.tokens
  · rw [tally_update_of_eq (by rw [hp]; rfl)]
    exact hw.once
  · intro habs
    exact absurd ((hw.noSegment habs).1 p) (by simp [hp])
  · intro habs
    exact absurd ((hw.noTokens habs).1 p) (by simp [hp, Proc.early])

theorem Overwrites.advance {h : List Access} {lc : List ℤ} {lt : List ℕ} {s : Startup P}
    (hw : Overwrites h lc lt s) {p : P} {c c' : Call} {q : Ipc}
    (hp : s.proc p = .ready c) (hadv : TaskQueue.advance s.objects.ipc c = some (q, c')) :
    Overwrites (h ++ access s.objects.ipc c) lc lt
      { objects := { s.objects with ipc := q }
        proc := Function.update s.proc p (.ready c') } := by
  have hb := advance_balanced hadv
  have hmove := fun Q => tally_update Q s.proc p (.ready c')
  constructor
  · have h1 := hb.counter
    have h2 := hw.counter
    simp only [storedNumbers_append, fetchedNumbers_append, List.length_append]
    push_cast
    omega
  · have h1 := hmove fun r => r.call.getClaimed
    have h2 := hmove fun r => r.call.putStored
    have h3 := hb.stock
    have h4 := hb.counter
    have h5 := hw.tokens
    simp only [hp, Proc.call_ready] at h1 h2
    simp only [storedNumbers_append, fetchedNumbers_append, List.length_append]
    omega
  · rw [tally_update_of_eq (by rw [hp]; rfl)]
    exact hw.once
  · intro habs
    exact absurd ((hw.noSegment habs).1 p) (by simp [hp])
  · intro habs
    exact absurd ((hw.noTokens habs).1 p) (by simp [hp, Proc.early])

section Initialise

variable {h : List Access} {lc : List ℤ} {lt : List ℕ} {s : Startup P} {p : P}
  {point : InitPoint}

omit [DecidableEq P] in
/-- Only the store to the counter overwrites a value of it. -/
theorem Overwrites.initialise_counter (hw : Overwrites h lc lt s) :
    (initIpc s.objects point).1.ipc.shm.taskCounter + (fetchedNumbers h).length +
        (lc ++ if point = .storeCounter then [s.objects.ipc.shm.taskCounter] else []).sum =
      (storedNumbers h).length := by
  have hcounter := hw.counter
  rw [initIpc_counter]
  by_cases hstore : point = .storeCounter
  · simp only [hstore, true_or, if_true, List.sum_append, List.sum_singleton]
    omega
  · rw [if_neg hstore, List.append_nil]
    by_cases hcreate : point = .shmget ∧ s.objects.shmExists = false
    · -- a new segment: its counter was never stored to
      obtain ⟨-, hh, hlc⟩ := hw.noSegment hcreate.2
      rw [if_pos (Or.inr hcreate)]
      subst hh hlc
      rfl
    · rw [if_neg (by tauto)]
      exact hcounter

omit [DecidableEq P] in
/-- Only `semctl` on the get semaphore overwrites tokens. -/
theorem Overwrites.initialise_tokens (hw : Overwrites h lc lt s) :
    (initIpc s.objects point).1.ipc.getSemaphore + (fetchedNumbers h).length +
        (lt ++ if point = .setvalGet then [s.objects.ipc.getSemaphore] else []).sum +
        tally (fun r : Proc => r.call.getClaimed) s.proc +
        tally (fun r : Proc => r.call.putStored) s.proc =
      (storedNumbers h).length := by
  have htokens := hw.tokens
  rw [initIpc_tokens]
  by_cases hset : point = .setvalGet
  · simp only [hset, true_or, if_true, List.sum_append, List.sum_singleton]
    omega
  · rw [if_neg hset, List.append_nil]
    by_cases hcreate : point = .semgetGet ∧ s.objects.getExists = false
    · -- a new semaphore: nobody is past its creation
      obtain ⟨hearly, hh, hlt⟩ := hw.noTokens hcreate.2
      rw [if_pos (Or.inr hcreate)]
      have hclaimed : tally (fun r : Proc => r.call.getClaimed) s.proc = 0 :=
        tally_eq_zero fun i => by rw [call_of_early (hearly i)]; rfl
      have hstored : tally (fun r : Proc => r.call.putStored) s.proc = 0 :=
        tally_eq_zero fun i => by rw [call_of_early (hearly i)]; rfl
      rw [hclaimed, hstored, hh, hlt]
      rfl
    · rw [if_neg (by tauto)]
      exact htokens

/-- The process that has created the segment is the only one that stores the counter. -/
theorem Overwrites.initialise_once (hw : Overwrites h lc lt s) (hp : s.proc p = .init point) :
    (lc ++ if point = .storeCounter then [s.objects.ipc.shm.taskCounter] else []).length +
      tally Proc.atStore (Function.update s.proc p (initIpc s.objects point).2) ≤ 1 := by
  have honce := hw.once
  have hmove := tally_update Proc.atStore s.proc p (initIpc s.objects point).2
  rw [hp, initIpc_atStore] at hmove
  by_cases hcreate : point = .shmget ∧ s.objects.shmExists = false
  · obtain ⟨hall, -, hlc⟩ := hw.noSegment hcreate.2
    have hnone : tally Proc.atStore s.proc = 0 := tally_eq_zero fun i => by rw [hall i]; rfl
    simp [hcreate.1, hcreate.2, hnone, hlc, Proc.atStore] at hmove ⊢
    omega
  · have hfalse : (decide (point = .shmget) && !s.objects.shmExists) = false := by
      simpa using hcreate
    rw [hfalse] at hmove
    by_cases hstore : point = .storeCounter
    · subst hstore
      simp [Proc.atStore] at hmove ⊢
      omega
    · have hnot : (Proc.init point).atStore = false := by
        cases point <;> first | rfl | contradiction
      rw [hnot] at hmove
      rw [if_neg hstore, List.append_nil]
      simp only [Bool.toNat_false, Nat.add_zero] at hmove
      rw [hmove]
      exact honce

omit [Fintype P] in
/-- Without the get semaphore the step leaves its process early. -/
theorem early_initialise (hearly : ∀ i, (s.proc i).early = true) (hne : point ≠ .semgetGet)
    (hset : point ≠ .setvalGet) (i : P) :
    (Function.update s.proc p (initIpc s.objects point).2 i).early = true := by
  by_cases hi : i = p
  · rw [hi, Function.update_self]
    exact initIpc_early hne hset
  · rw [Function.update_of_ne hi]
    exact hearly i

/-- A step of `init_ipc` overwrites at most the counter or the get tokens, and
a creation finds nothing to overwrite. -/
theorem Overwrites.initialise (hw : Overwrites h lc lt s) (hp : s.proc p = .init point) :
    Overwrites h
      (lc ++ if point = .storeCounter then [s.objects.ipc.shm.taskCounter] else [])
      (lt ++ if point = .setvalGet then [s.objects.ipc.getSemaphore] else [])
      { objects := (initIpc s.objects point).1
        proc := Function.update s.proc p (initIpc s.objects point).2 } := by
  have hcall := initIpc_call s.objects point
  refine ⟨hw.initialise_counter, ?_, hw.initialise_once hp, ?_, ?_⟩
  · rw [tally_update_of_eq (by rw [hp, Proc.call_init, hcall]),
      tally_update_of_eq (by rw [hp, Proc.call_init, hcall])]
    exact hw.initialise_tokens
  · intro habs
    obtain ⟨habs', hne⟩ := initIpc_shmExists habs
    have hshm := (hw.noSegment habs').1 p
    rw [hp] at hshm
    exact absurd (Proc.init.inj hshm) hne
  · intro habs
    obtain ⟨habs', hne⟩ := initIpc_getExists habs
    obtain ⟨hearly, hh, hlt⟩ := hw.noTokens habs'
    have hset : point ≠ .setvalGet := by
      rintro rfl
      have := hearly p
      rw [hp] at this
      exact absurd this (by decide)
    exact ⟨early_initialise hearly hne hset, hh, by rw [hlt, if_neg hset]; rfl⟩

end Initialise

theorem Overwrites.step {h : List Access} {lc : List ℤ} {lt : List ℕ} {s s' : Startup P}
    {a : Action P} (hw : Overwrites h lc lt s) (hn : s.next a = some s') :
    Overwrites (h ++ s.accesses a) (lc ++ s.counterOverwritten a)
      (lt ++ s.tokensOverwritten a) s' := by
  rcases Startup.next_cases hn with
    ⟨p, c, hp, ha, hc, rfl⟩ | ⟨p, point, rfl, hp, rfl⟩ | ⟨p, c, q, c', rfl, hp, hadv, rfl⟩
  · cases a with
    | putTask | getTask => simpa [Startup.accesses, Startup.counterOverwritten,
        Startup.tokensOverwritten] using hw.enter hp hc
    | advance q => exact absurd rfl (ha q)
  · simpa [Startup.accesses, Startup.counterOverwritten, Startup.tokensOverwritten, hp,
      access] using hw.initialise hp
  · simpa [Startup.accesses, Startup.counterOverwritten, Startup.tokensOverwritten, hp]
      using hw.advance hp hadv

theorem run_overwrites {tr : List (Startup P × Action P)} {s : Startup P}
    (h : (startup P).Run tr s) :
    Overwrites (observe Startup.accesses tr) (observe Startup.counterOverwritten tr)
      (observe Startup.tokensOverwritten tr) s := by
  refine h.invariant (I := fun tr s => Overwrites (observe Startup.accesses tr)
    (observe Startup.counterOverwritten tr) (observe Startup.tokensOverwritten tr) s)
    overwrites_start ?_
  intro tr s a t hw hn
  simp only [observe_snoc]
  exact hw.step hn

/-! ## §3  When start-up loses nothing -/

/-- No process is inside `put_task` or `get_task`. -/
def Startup.Quiescent (s : Startup P) : Prop := ∀ p, (s.proc p).call = .idle

/-- The counter and the get semaphore both stand at puts minus gets. -/
def NothingLost (tr : List (Startup P × Action P)) (s : Startup P) : Prop :=
  s.objects.ipc.shm.taskCounter = (storedNumbers (observe Startup.accesses tr)).length -
      (fetchedNumbers (observe Startup.accesses tr)).length ∧
    s.objects.ipc.shm.taskCounter = s.objects.ipc.getSemaphore

/-- The step does not initialise what is already in use: a store of 0 to the
counter finds 0 there, and so does a `SETVAL` 0 of the get semaphore. -/
def InitialisesUnused (s : Startup P) (a : Action P) : Prop :=
  ∀ p, a = .advance p →
    (s.proc p = .init .storeCounter → s.objects.ipc.shm.taskCounter = 0) ∧
      (s.proc p = .init .setvalGet → s.objects.ipc.getSemaphore = 0)

omit [DecidableEq P] [Fintype P] in
theorem initialisesUnused_iff {tr : List (Startup P × Action P)} :
    (∀ x ∈ tr, InitialisesUnused x.1 x.2) ↔
      (∀ v ∈ observe Startup.counterOverwritten tr, v = 0) ∧
        ∀ v ∈ observe Startup.tokensOverwritten tr, v = 0 := by
  constructor
  · intro hall
    constructor
    · intro v hv
      obtain ⟨⟨s, a⟩, hx, hva⟩ := mem_observe.mp hv
      cases a with
      | putTask | getTask => simp [Startup.counterOverwritten] at hva
      | advance p =>
          simp only [Startup.counterOverwritten, List.mem_ite_nil_right,
            List.mem_singleton] at hva
          rw [hva.2]
          exact (hall _ hx p rfl).1 hva.1
    · intro v hv
      obtain ⟨⟨s, a⟩, hx, hva⟩ := mem_observe.mp hv
      cases a with
      | putTask | getTask => simp [Startup.tokensOverwritten] at hva
      | advance p =>
          simp only [Startup.tokensOverwritten, List.mem_ite_nil_right,
            List.mem_singleton] at hva
          rw [hva.2]
          exact (hall _ hx p rfl).2 hva.1
  · rintro ⟨hc, ht⟩ ⟨s, a⟩ hx p rfl
    constructor
    · intro hp
      exact hc _ (mem_observe.mpr ⟨_, hx, by simpa [Startup.counterOverwritten] using hp⟩)
    · intro hp
      exact ht _ (mem_observe.mpr ⟨_, hx, by simpa [Startup.tokensOverwritten] using hp⟩)

/-- **Start-up loses nothing exactly when it initialises only what is unused**:
in a state where no process is inside a call, the counter and the get semaphore
are right if and only if every initialising store of the run found 0. -/
theorem nothingLost_iff_initialisesUnused {tr : List (Startup P × Action P)}
    {s : Startup P} (h : (startup P).Run tr s) (hq : s.Quiescent) :
    NothingLost tr s ↔ ∀ x ∈ tr, InitialisesUnused x.1 x.2 := by
  have hw := run_overwrites h
  have hcounter := hw.counter
  have htokens := hw.tokens
  have honce := hw.once
  rw [tally_eq_zero fun p => by rw [hq p]; rfl, tally_eq_zero fun p => by rw [hq p]; rfl]
    at htokens
  have hsum : (∀ v ∈ observe Startup.counterOverwritten tr, v = 0) ↔
      (observe Startup.counterOverwritten tr).sum = 0 := by
    -- the counter is stored to at most once
    match hl : observe Startup.counterOverwritten tr with
    | [] => simp
    | [v] => simp
    | v :: w :: l =>
        rw [hl, List.length_cons, List.length_cons] at honce
        omega
  rw [initialisesUnused_iff, hsum, ← List.sum_eq_zero_iff_forall_eq_nat, NothingLost]
  omega

/-- Process 0 has created the segment when process 1 initialises the semaphores
and puts a number; then process 0 stores 0 to the counter. -/
theorem late_store_loses_task : ∃ tr s, (startup (Fin 2)).Run tr s ∧ s.Quiescent ∧
    ¬ NothingLost tr s := by
  have h := (startup (Fin 2)).run_of_replay
    (.advance 0 :: List.replicate 7 (.advance 1) ++
      .putTask 1 ⟨7, 0⟩ :: List.replicate 5 (.advance 1) ++ List.replicate 5 (.advance 0)) rfl
  refine ⟨_, _, h, ?_, ?_⟩
  · unfold Startup.Quiescent
    decide
  · unfold NothingLost
    decide

/-- Process 0 starts up alone and puts a number. -/
theorem nothingLost_iff_initialisesUnused_alone : ∃ tr s, (startup (Fin 2)).Run tr s ∧
    s.objects.ipc.shm.taskCounter = 1 ∧
    (NothingLost tr s ↔ ∀ x ∈ tr, InitialisesUnused x.1 x.2) := by
  have h := (startup (Fin 2)).run_of_replay
    (List.replicate 9 (.advance 0) ++ .putTask 0 ⟨7, 0⟩ :: List.replicate 5 (.advance 0)) rfl
  refine ⟨_, _, h, rfl, nothingLost_iff_initialisesUnused h ?_⟩
  unfold Startup.Quiescent
  decide

end Sysopy.TaskQueue
