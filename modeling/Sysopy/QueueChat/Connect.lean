import Sysopy.QueueChat.SysV

/-!
# Connecting to the System V server

A client asks for registration, waits for its id file and opens its queue; the
accepting thread creates first the file and then the queue. Either side creates
the queue if it comes first, but the server takes a queue that exists for a
failure, and the client gives up after five polls. Client and server agree in the
end exactly when the client opens the queue after the server has created it and
does not give up a connection that the server completes.

## Sections

* §1 the kernel
* §2 the two sides
* §3 orderly steps
* §4 the invariant
* §5 agreement
-/

namespace Sysopy.QueueChat.Connect

open Sysopy.Foundation
open Sysopy.QueueChat.SysV (AcceptPc Answers Shared acceptStep)

/-! ## §1  The kernel -/

/-- The client's id file, the queues by key and the number of the next queue. -/
structure Kernel where
  idFile : Bool
  queues : ℤ → Option ℕ
  fresh : ℕ

namespace Kernel

variable {k : Kernel} {key key' : ℤ} {q : ℕ}

/-- `ftok(unique_id_file, EX_NUMBER)`, -1 without the file. -/
def ftok (k : Kernel) (fileKey : ℤ) : ℤ := if k.idFile then fileKey else -1

def newQueue (k : Kernel) (key : ℤ) : Kernel :=
  { k with queues := Function.update k.queues key (some k.fresh), fresh := k.fresh + 1 }

/-- `msgget` with `IPC_CREAT | IPC_EXCL`, `none` for -1. -/
def createQueue (k : Kernel) (key : ℤ) : Kernel × Option ℕ :=
  match k.queues key with
  | some _ => (k, none)
  | none => (k.newQueue key, some k.fresh)

/-- `msgget` with `IPC_CREAT` -/
def openQueue (k : Kernel) (key : ℤ) : Kernel × ℕ :=
  match k.queues key with
  | some q => (k, q)
  | none => (k.newQueue key, k.fresh)

/-- A queue that exists stays. -/
theorem newQueue_queues (hkey : k.queues key = none) (hq : k.queues key' = some q) :
    (k.newQueue key).queues key' = some q :=
  update_of_named hkey hq

theorem openQueue_queues (hq : k.queues key' = some q) :
    (k.openQueue key).1.queues key' = some q := by
  unfold openQueue
  cases hkey : k.queues key with
  | some _ => exact hq
  | none => exact newQueue_queues hkey hq

theorem openQueue_snd (k : Kernel) (key : ℤ) :
    (k.openQueue key).1.queues key = some (k.openQueue key).2 := by
  unfold openQueue
  cases hkey : k.queues key with
  | some _ => exact hkey
  | none => exact Function.update_self ..

theorem openQueue_of_some (hq : k.queues key = some q) : k.openQueue key = (k, q) := by
  rw [openQueue, hq]

theorem fresh_le_openQueue (k : Kernel) (key : ℤ) : k.fresh ≤ (k.openQueue key).1.fresh := by
  unfold openQueue
  cases k.queues key with
  | some _ => exact le_rfl
  | none => exact Nat.le_succ _

theorem openQueue_idFile (k : Kernel) (key : ℤ) : (k.openQueue key).1.idFile = k.idFile := by
  unfold openQueue
  cases k.queues key <;> rfl

end Kernel

/-! ## §2  The two sides -/

inductive ClientPc
  /-- before the check that nobody uses the id file -/
  | check
  /-- before `send_init_msg` -/
  | send
  /-- before poll `n + 1` -/
  | poll (n : ℕ)
  /-- before `ftok` -/
  | ftok
  /-- before `open_queue` -/
  | openQueue (key : ℤ)
  /-- in `sender_loop` -/
  | loop (q : ℕ)
  /-- before `cleanup_fn` removes the id file -/
  | cleanup
  | exited
deriving DecidableEq

def ClientPc.Dead : ClientPc → Prop
  | .cleanup => True
  | .exited => True
  | _ => False

def clientTimeout : ℕ := 5

/-- The server and the kernel when the client starts: any clients may be
connected, and a queue or an id file may be left from before. -/
structure Start where
  clientId : Name
  /-- the key `ftok` makes of the id file -/
  fileKey : ℤ
  kernel : Kernel
  shared : Shared
  slotsOld : ∀ i, shared.clientsQueueIds i < (kernel.fresh : ℤ)
  queuesOld : ∀ key q, kernel.queues key = some q → q < kernel.fresh

structure State where
  kernel : Kernel
  /-- the init message is in the server's queue -/
  mailbox : Bool
  client : ClientPc
  shared : Shared
  accept : AcceptPc

def clientStep (start : Start) (s : State) : Option State :=
  match s.client with
  -- `cleanup_fn` uses `line_buffer`, which is `NULL` there, before it can remove the file
  | .check => some { s with client := if s.kernel.idFile then .exited else .send }
  | .send => some { s with mailbox := true, client := .poll 0 }
  | .poll n => some { s with client :=
      if n + 1 = clientTimeout then .cleanup
      else if s.kernel.idFile then .ftok else .poll (n + 1) }
  | .ftok => some { s with client := .openQueue (s.kernel.ftok start.fileKey) }
  | .openQueue key => some { s with
      kernel := (s.kernel.openQueue key).1
      client := .loop (s.kernel.openQueue key).2 }
  | .cleanup => some { s with kernel := { s.kernel with idFile := false }, client := .exited }
  | .loop _ => none
  | .exited => none

def answers (start : Start) (s : State) : Answers where
  clientId := start.clientId
  opened := !s.kernel.idFile
  key := s.kernel.ftok start.fileKey
  queue :=
    match s.accept with
    | .createQueue key => (s.kernel.createQueue key).2
    | _ => none

def kernelAfter (s : State) : Kernel :=
  match s.accept with
  | .openFile _ => { s.kernel with idFile := true }
  | .createQueue key => (s.kernel.createQueue key).1
  | _ => s.kernel

/-- One step of the accepting thread, which sleeps until a message arrives. -/
def serverStep (start : Start) (s : State) : Option State :=
  if s.accept = .receive ∧ s.mailbox = false then none
  else (acceptStep (answers start s) s.shared s.accept).map fun r =>
    { s with
      kernel := kernelAfter s
      mailbox := s.mailbox && decide (s.accept ≠ .receive)
      shared := r.1
      accept := r.2 }

/-- The communicator empties the slot of a client that was connected before. -/
def departStep (start : Start) (s : State) (i : Slot) : Option State :=
  if s.shared.clientsQueueIds i = start.shared.clientsQueueIds i then
    some { s with shared := { s.shared with
      clientsQueueIds := Function.update s.shared.clientsQueueIds i emptyClientSlot } }
  else none

inductive Action
  | client
  | server
  | depart (i : Slot)

def connect (start : Start) : System State Action where
  init :=
    { kernel := start.kernel
      mailbox := false
      client := .check
      shared := start.shared
      accept := .receive }
  next s a :=
    match a with
    | .client => clientStep start s
    | .server => serverStep start s
    | .depart i => departStep start s i

/-! ## §3  Orderly steps -/

def holds : AcceptPc → Option ℕ
  | .count q => some q
  | .search q _ => some q
  | .store q _ => some q
  | _ => none

/-- The queue has been stored in a slot since the client started. -/
def Stored (start : Start) (s : State) (q : ℕ) : Prop :=
  ∃ i, s.shared.clientsQueueIds i = (q : ℤ) ∧ start.shared.clientsQueueIds i ≠ (q : ℤ)

/-- The server has created the client's queue. -/
def Created (start : Start) (s : State) (q : ℕ) : Prop :=
  holds s.accept = some q ∨ Stored start s q

/-- The client does not open a queue that the server has not created and does
not give up one that it has; the server does not create a queue for a client that
has given up. -/
def Orderly (start : Start) (s : State) : Action → Prop
  | .client =>
      match s.client with
      | .poll n => n + 1 = clientTimeout → ∀ q, ¬ Created start s q
      | .openQueue _ => ∃ q, Created start s q
      | _ => True
  | .server =>
      match s.accept with
      | .createQueue key => s.kernel.queues key = none → ¬ s.client.Dead
      | _ => True
  | .depart _ => True

def Done (s : State) : Prop :=
  (s.client = .exited ∨ ∃ q, s.client = .loop q) ∧ s.accept = .receive ∧ s.mailbox = false

/-- The client is in its sender loop with the queue the server has stored. -/
def Agreed (start : Start) (s : State) : Prop :=
  ∀ q, s.client = .loop q ↔ Stored start s q

/-! ## §4  The invariant -/

variable {start : Start} {s t : State}

/-- How files, keys and queues hang together. -/
structure Wired (start : Start) (s : State) : Prop where
  started : s.client = .check ∨ s.client = .send →
    s.mailbox = false ∧ s.accept = .receive ∧ ∀ q, ¬ Stored start s q
  waiting : s.mailbox = true → s.accept = .receive ∧ ∀ q, ¬ Stored start s q
  handling : s.accept ≠ .receive → ∀ q, ¬ Stored start s q
  fresh : start.kernel.fresh ≤ s.kernel.fresh
  held : ∀ q, holds s.accept = some q → start.kernel.fresh ≤ q
  clientFile : s.client = .ftok → s.kernel.idFile = true
  clientKey : ∀ key, s.client = .openQueue key → key = start.fileKey
  serverFile : s.accept = .ftok → ¬ s.client.Dead → s.kernel.idFile = true
  serverKey : ∀ key, s.accept = .createQueue key → ¬ s.client.Dead → key = start.fileKey
  /-- the queue of a client that has not given up can be found by its key -/
  created : ∀ q, Created start s q → ¬ s.client.Dead →
    s.kernel.queues start.fileKey = some q
  looped : ∀ q, s.client = .loop q → s.kernel.queues start.fileKey = some q

theorem wired_start (start : Start) : Wired start (connect start).init where
  started _ := ⟨rfl, rfl, fun q hq => by
    obtain ⟨i, hi, hne⟩ := hq
    exact hne hi⟩
  waiting h := absurd h Bool.false_ne_true
  handling h := absurd rfl h
  fresh := le_rfl
  held q h := absurd h (Option.some_ne_none q).symm
  clientFile h := ClientPc.noConfusion h
  clientKey key h := ClientPc.noConfusion h
  serverFile h := AcceptPc.noConfusion h
  serverKey key h := AcceptPc.noConfusion h
  created q h := by
    rcases h with h | ⟨i, hi, hne⟩
    · exact absurd h (Option.some_ne_none q).symm
    · exact absurd hi hne
  looped q h := ClientPc.noConfusion h

theorem Wired.moveClient (hs : Wired start s) (halive : ¬ s.client.Dead) {c : ClientPc}
    (hstarted : c = .check ∨ c = .send →
      s.mailbox = false ∧ s.accept = .receive ∧ ∀ q, ¬ Stored start s q)
    (hfile : c = .ftok → s.kernel.idFile = true)
    (hkey : ∀ key, c = .openQueue key → key = start.fileKey)
    (hloop : ∀ q, c = .loop q → s.kernel.queues start.fileKey = some q) :
    Wired start { s with client := c } where
  started := hstarted
  waiting := hs.waiting
  handling := hs.handling
  fresh := hs.fresh
  held := hs.held
  clientFile := hfile
  clientKey := hkey
  serverFile hpc _ := hs.serverFile hpc halive
  serverKey key hpc _ := hs.serverKey key hpc halive
  created q hq _ := hs.created q hq halive
  looped := hloop

theorem Wired.send (hs : Wired start s) (hpc : s.client = .send) :
    Wired start { s with mailbox := true, client := .poll 0 } := by
  obtain ⟨-, hacc, hnone⟩ := hs.started (Or.inr hpc)
  have halive : ¬ s.client.Dead := hpc ▸ id
  exact
    { started := fun h => h.elim ClientPc.noConfusion ClientPc.noConfusion
      waiting := fun _ => ⟨hacc, hnone⟩
      handling := hs.handling
      fresh := hs.fresh
      held := hs.held
      clientFile := ClientPc.noConfusion
      clientKey := fun _ => ClientPc.noConfusion
      serverFile := fun hpc _ => hs.serverFile hpc halive
      serverKey := fun key hpc _ => hs.serverKey key hpc halive
      created := fun q hq _ => hs.created q hq halive
      looped := fun _ => ClientPc.noConfusion }

theorem Wired.openQueue (hs : Wired start s) {key : ℤ} (hpc : s.client = .openQueue key) :
    Wired start { s with
      kernel := (s.kernel.openQueue key).1
      client := .loop (s.kernel.openQueue key).2 } := by
  have halive : ¬ s.client.Dead := hpc ▸ id
  have hkey := hs.clientKey key hpc
  exact
    { started := fun h => h.elim ClientPc.noConfusion ClientPc.noConfusion
      waiting := hs.waiting
      handling := hs.handling
      fresh := hs.fresh.trans (Kernel.fresh_le_openQueue ..)
      held := hs.held
      clientFile := ClientPc.noConfusion
      clientKey := fun _ => ClientPc.noConfusion
      serverFile := fun hpc _ => (Kernel.openQueue_idFile ..).trans (hs.serverFile hpc halive)
      serverKey := fun key hpc _ => hs.serverKey key hpc halive
      created := fun q hq _ => Kernel.openQueue_queues (hs.created q hq halive)
      looped := fun q heq => by
        obtain rfl := ClientPc.loop.inj heq
        exact hkey ▸ Kernel.openQueue_snd s.kernel key }

theorem Wired.cleanup (hs : Wired start s) :
    Wired start { s with kernel := { s.kernel with idFile := false }, client := .exited } where
  started h := h.elim ClientPc.noConfusion ClientPc.noConfusion
  waiting := hs.waiting
  handling := hs.handling
  fresh := hs.fresh
  held := hs.held
  clientFile := ClientPc.noConfusion
  clientKey _ := ClientPc.noConfusion
  serverFile _ h := absurd trivial h
  serverKey _ _ h := absurd trivial h
  created _ _ h := absurd trivial h
  looped _ := ClientPc.noConfusion

theorem Wired.client (hs : Wired start s) (h : clientStep start s = some t) :
    Wired start t := by
  unfold clientStep at h
  cases hpc : s.client with
  | check =>
      rw [hpc] at h
      obtain rfl := Option.some.inj h
      split_ifs
      all_goals
        refine hs.moveClient (hpc ▸ id) (fun _ => hs.started (Or.inl hpc)) ?_ ?_ ?_
        · exact ClientPc.noConfusion
        · exact fun _ => ClientPc.noConfusion
        · exact fun _ => ClientPc.noConfusion
  | send =>
      rw [hpc] at h
      obtain rfl := Option.some.inj h
      exact hs.send hpc
  | poll n =>
      rw [hpc] at h
      obtain rfl := Option.some.inj h
      have hstart : ∀ c : ClientPc, c ≠ .check → c ≠ .send → c = .check ∨ c = .send →
          s.mailbox = false ∧ s.accept = .receive ∧ ∀ q, ¬ Stored start s q :=
        fun c hc hs' h => absurd h (not_or.mpr ⟨hc, hs'⟩)
      split_ifs with htime hfile
      · exact hs.moveClient (hpc ▸ id) (hstart _ ClientPc.noConfusion ClientPc.noConfusion)
          ClientPc.noConfusion (fun _ => ClientPc.noConfusion) fun _ => ClientPc.noConfusion
      · exact hs.moveClient (hpc ▸ id) (hstart _ ClientPc.noConfusion ClientPc.noConfusion)
          (fun _ => hfile) (fun _ => ClientPc.noConfusion) fun _ => ClientPc.noConfusion
      · exact hs.moveClient (hpc ▸ id) (hstart _ ClientPc.noConfusion ClientPc.noConfusion)
          ClientPc.noConfusion (fun _ => ClientPc.noConfusion) fun _ => ClientPc.noConfusion
  | ftok =>
      rw [hpc] at h
      obtain rfl := Option.some.inj h
      refine hs.moveClient (hpc ▸ id) (fun h => h.elim ClientPc.noConfusion ClientPc.noConfusion)
        ClientPc.noConfusion (fun key heq => ?_) fun _ => ClientPc.noConfusion
      rw [← ClientPc.openQueue.inj heq, Kernel.ftok, if_pos (hs.clientFile hpc)]
  | openQueue key =>
      rw [hpc] at h
      obtain rfl := Option.some.inj h
      exact hs.openQueue hpc
  | cleanup =>
      rw [hpc] at h
      obtain rfl := Option.some.inj h
      exact hs.cleanup
  | loop q =>
      rw [hpc] at h
      exact absurd h (Option.some_ne_none t).symm
  | exited =>
      rw [hpc] at h
      exact absurd h (Option.some_ne_none t).symm

/-- What is known when the accepting thread moves: no queue is stored yet, and
the init message is taken. -/
theorem Wired.serverStep (hs : Wired start s) (h : serverStep start s = some t) :
    ¬ (s.client = .check ∨ s.client = .send) ∧ (∀ q, ¬ Stored start s q) ∧
    ∃ shared pc, acceptStep (answers start s) s.shared s.accept = some (shared, pc) ∧
      t = { s with kernel := kernelAfter s, mailbox := false, shared := shared, accept := pc } := by
  unfold Connect.serverStep at h
  split_ifs at h with hsleep
  obtain ⟨⟨shared, pc⟩, hstep, rfl⟩ := Option.map_eq_some_iff.mp h
  by_cases hacc : s.accept = .receive
  · have hmail : s.mailbox = true := by
      simpa [hacc] using hsleep
    refine ⟨fun hc => ?_, (hs.waiting hmail).2, shared, pc, hstep, by simp [hacc]⟩
    exact Bool.false_ne_true ((hs.started hc).1.symm.trans hmail)
  · have hmail : s.mailbox = false :=
      Bool.eq_false_iff.mpr fun hmail => hacc (hs.waiting hmail).1
    refine ⟨fun hc => hacc (hs.started hc).2.1, hs.handling hacc, shared, pc, hstep, ?_⟩
    simp [hmail]

/-- A step of the accepting thread that creates and stores nothing. -/
theorem Wired.moveServer (hs : Wired start s) (hstarted : ¬ (s.client = .check ∨ s.client = .send))
    (hnone : ∀ q, ¬ Stored start s q) {k : Kernel} {shared : Shared} {pc : AcceptPc}
    (hqueues : k.queues = s.kernel.queues) (hfresh : k.fresh = s.kernel.fresh)
    (hfile : s.kernel.idFile = true → k.idFile = true)
    (hids : shared.clientsQueueIds = s.shared.clientsQueueIds)
    (hholds : ∀ q, holds pc = some q → holds s.accept = some q)
    (hserverFile : pc = .ftok → ¬ s.client.Dead → k.idFile = true)
    (hserverKey : ∀ key, pc = .createQueue key → ¬ s.client.Dead → key = start.fileKey) :
    Wired start { s with kernel := k, mailbox := false, shared := shared, accept := pc } := by
  have hstored : ∀ q, Stored start
      { s with kernel := k, mailbox := false, shared := shared, accept := pc } q → False := by
    rintro q ⟨i, hi, hne⟩
    exact hnone q ⟨i, (congrFun hids i).symm.trans hi, hne⟩
  exact
    { started := fun h => absurd h hstarted
      waiting := fun h => absurd h Bool.false_ne_true
      handling := fun _ => hstored
      fresh := hs.fresh.trans hfresh.ge
      held := fun q hq => hs.held q (hholds q hq)
      clientFile := fun hpc => hfile (hs.clientFile hpc)
      clientKey := hs.clientKey
      serverFile := hserverFile
      serverKey := hserverKey
      created := fun q hq halive => by
        rcases hq with hq | hq
        · exact (congrFun hqueues _).trans (hs.created q (Or.inl (hholds q hq)) halive)
        · exact absurd hq (hstored q)
      looped := fun q hq => (congrFun hqueues _).trans (hs.looped q hq) }

theorem Wired.createQueue (hs : Wired start s)
    (hstarted : ¬ (s.client = .check ∨ s.client = .send)) (hnone : ∀ q, ¬ Stored start s q)
    {key : ℤ} (hpc : s.accept = .createQueue key) (hkey : s.kernel.queues key = none) :
    Wired start { s with
      kernel := s.kernel.newQueue key, mailbox := false, accept := .count s.kernel.fresh } where
  started h := absurd h hstarted
  waiting h := absurd h Bool.false_ne_true
  handling _ := hnone
  fresh := hs.fresh.trans (Nat.le_succ _)
  held q hq := Option.some.inj hq ▸ hs.fresh
  clientFile := hs.clientFile
  clientKey := hs.clientKey
  serverFile := AcceptPc.noConfusion
  serverKey _ := AcceptPc.noConfusion
  created q hq halive := by
    rcases hq with hq | hq
    · rw [← Option.some.inj hq, ← hs.serverKey key hpc halive]
      exact Function.update_self ..
    · exact absurd hq (hnone q)
  looped q hq := Kernel.newQueue_queues hkey (hs.looped q hq)

/-- After the store the stored queue is the one the thread was holding. -/
theorem stored_store (hs : Wired start s) (hnone : ∀ q, ¬ Stored start s q) {q : ℕ} {i : Slot}
    (hpc : s.accept = .store q i) (k : Kernel) (pc : AcceptPc) (q' : ℕ) :
    Stored start { s with
      kernel := k
      mailbox := false
      shared := { s.shared with
        clientsQueueIds := Function.update s.shared.clientsQueueIds i (q : ℤ) }
      accept := pc } q' ↔ q' = q := by
  constructor
  · rintro ⟨j, hj, hne⟩
    by_cases hji : j = i
    · subst hji
      exact (Int.natCast_inj.mp ((Function.update_self ..).symm.trans hj)).symm
    · exact absurd ⟨j, (Function.update_of_ne hji ..).symm.trans hj, hne⟩ (hnone q')
  · rintro rfl
    refine ⟨i, Function.update_self .., ?_⟩
    have hlt := start.slotsOld i
    have hheld := hs.held q' (by rw [hpc]; rfl)
    omega

theorem Wired.store (hs : Wired start s) (hstarted : ¬ (s.client = .check ∨ s.client = .send))
    (hnone : ∀ q, ¬ Stored start s q) {q : ℕ} {i : Slot} (hpc : s.accept = .store q i) :
    Wired start { s with
      mailbox := false
      shared := { s.shared with
        clientsQueueIds := Function.update s.shared.clientsQueueIds i (q : ℤ) }
      accept := .receive } where
  started h := absurd h hstarted
  waiting h := absurd h Bool.false_ne_true
  handling h := absurd rfl h
  fresh := hs.fresh
  held q' hq := absurd hq (Option.some_ne_none q').symm
  clientFile := hs.clientFile
  clientKey := hs.clientKey
  serverFile := AcceptPc.noConfusion
  serverKey _ := AcceptPc.noConfusion
  created q' hq halive := by
    rcases hq with hq | hq
    · exact absurd hq (Option.some_ne_none q').symm
    · rw [(stored_store hs hnone hpc _ _ q').mp hq]
      exact hs.created q (Or.inl (by rw [hpc]; rfl)) halive
  looped := hs.looped

/-- The server's part of the connection after a step: it has just created the
queue, or stands as before, or the search has left the table. -/
def ServerMoved (start : Start) (s t : State) : Prop :=
  t.client = s.client ∧
  ((∃ key, s.accept = .createQueue key ∧ s.kernel.queues key = none ∧
      Created start t s.kernel.fresh ∧ ∀ q, ¬ Created start s q) ∨
    (Orderly start s .server ∧ ∀ q, Created start t q ↔ Created start s q) ∨
    t.accept = .overrun)

theorem orderly_server {start : Start} {s : State}
    (h : ∀ key, s.accept = .createQueue key → s.kernel.queues key ≠ none) :
    Orderly start s .server := by
  unfold Orderly
  cases hacc : s.accept with
  | createQueue key => exact fun hnone => absurd hnone (h key hacc)
  | _ => trivial

theorem orderly_client {start : Start} {s : State} (hpoll : ∀ n, s.client ≠ .poll n)
    (hopen : ∀ key, s.client ≠ .openQueue key) : Orderly start s .client := by
  unfold Orderly
  cases hpc : s.client with
  | poll n => exact absurd hpc (hpoll n)
  | openQueue key => exact absurd hpc (hopen key)
  | _ => trivial

theorem Wired.quiet (hs : Wired start s) (hstarted : ¬ (s.client = .check ∨ s.client = .send))
    (hnone : ∀ q, ¬ Stored start s q) (horderly : Orderly start s .server) {k : Kernel}
    {pc : AcceptPc} (hacc : holds s.accept = none) (hpc : holds pc = none)
    (hqueues : k.queues = s.kernel.queues) (hfresh : k.fresh = s.kernel.fresh)
    (hfile : s.kernel.idFile = true → k.idFile = true)
    (hserverFile : pc = .ftok → ¬ s.client.Dead → k.idFile = true)
    (hserverKey : ∀ key, pc = .createQueue key → ¬ s.client.Dead → key = start.fileKey) :
    Wired start { s with kernel := k, mailbox := false, accept := pc } ∧
    ServerMoved start s { s with kernel := k, mailbox := false, accept := pc } := by
  constructor
  · refine hs.moveServer hstarted hnone hqueues hfresh hfile rfl (fun q hq => ?_) hserverFile
      hserverKey
    exact absurd (hpc.symm.trans hq) (Option.some_ne_none q).symm
  · refine ⟨rfl, Or.inr (Or.inl ⟨horderly, fun q => ?_⟩)⟩
    unfold Created
    rw [hacc, hpc]
    exact Iff.rfl

theorem Wired.hold (hs : Wired start s) (hstarted : ¬ (s.client = .check ∨ s.client = .send))
    (hnone : ∀ q, ¬ Stored start s q) {shared : Shared} {pc : AcceptPc}
    (hkey : ∀ key, s.accept ≠ .createQueue key) (hpc : holds pc = holds s.accept)
    (hids : shared.clientsQueueIds = s.shared.clientsQueueIds) (hftok : pc ≠ .ftok)
    (hcreate : ∀ key, pc ≠ .createQueue key) :
    Wired start { s with mailbox := false, shared := shared, accept := pc } ∧
    ServerMoved start s { s with mailbox := false, shared := shared, accept := pc } := by
  constructor
  · exact hs.moveServer hstarted hnone rfl rfl id hids (fun q hq => hpc ▸ hq)
      (fun h => absurd h hftok) fun key h => absurd h (hcreate key)
  · refine ⟨rfl, Or.inr (Or.inl ⟨orderly_server fun key h => absurd h (hkey key), fun q => ?_⟩)⟩
    unfold Created Stored
    rw [hpc, hids]

theorem Wired.server (hs : Wired start s) (h : Connect.serverStep start s = some t) :
    Wired start t ∧ ServerMoved start s t := by
  obtain ⟨hstarted, hnone, shared, pc, hstep, rfl⟩ := hs.serverStep h
  have horderly : (∀ key, s.accept ≠ .createQueue key) → Orderly start s .server :=
    fun hne => orderly_server fun key h => absurd h (hne key)
  unfold kernelAfter
  cases hacc : s.accept with
  | receive =>
      rw [hacc] at hstep
      obtain ⟨rfl, rfl⟩ := Prod.mk.inj (Option.some.inj hstep)
      exact hs.quiet hstarted hnone (horderly (by simp [hacc])) (hacc ▸ rfl) rfl rfl rfl id
        AcceptPc.noConfusion fun _ => AcceptPc.noConfusion
  | check name =>
      rw [hacc] at hstep
      obtain ⟨rfl, rfl⟩ := Prod.mk.inj (Option.some.inj hstep)
      split_ifs
      all_goals
        exact hs.quiet hstarted hnone (horderly (by simp [hacc])) (hacc ▸ rfl) rfl rfl rfl id
          AcceptPc.noConfusion fun _ => AcceptPc.noConfusion
  | openFile name =>
      rw [hacc] at hstep
      obtain ⟨rfl, rfl⟩ := Prod.mk.inj (Option.some.inj hstep)
      split_ifs
      all_goals
        exact hs.quiet hstarted hnone (horderly (by simp [hacc])) (hacc ▸ rfl) rfl rfl rfl
          (fun _ => rfl) (fun _ _ => rfl) fun _ => AcceptPc.noConfusion
  | ftok =>
      rw [hacc] at hstep
      obtain ⟨rfl, rfl⟩ := Prod.mk.inj (Option.some.inj hstep)
      refine hs.quiet hstarted hnone (horderly (by simp [hacc])) (hacc ▸ rfl) rfl rfl rfl id
        AcceptPc.noConfusion fun key heq halive => ?_
      rw [← AcceptPc.createQueue.inj heq]
      exact if_pos (hs.serverFile hacc halive)
  | createQueue key =>
      rw [hacc] at hstep
      obtain ⟨rfl, rfl⟩ := Prod.mk.inj (Option.some.inj hstep)
      dsimp only [answers]
      rw [hacc]
      dsimp only [Kernel.createQueue]
      cases hkey : s.kernel.queues key with
      | some q =>
          -- a queue under this key is there: nothing is created
          refine hs.quiet hstarted hnone (orderly_server fun key' h => ?_) (hacc ▸ rfl) rfl rfl
            rfl id AcceptPc.noConfusion fun _ => AcceptPc.noConfusion
          obtain rfl := AcceptPc.createQueue.inj (hacc.symm.trans h)
          exact hkey ▸ Option.some_ne_none q
      | none =>
          refine ⟨hs.createQueue hstarted hnone hacc hkey, rfl, Or.inl ⟨key, hacc, hkey,
            Or.inl rfl, fun q hq => ?_⟩⟩
          rcases hq with hq | hq
          · rw [hacc] at hq
            exact absurd hq (Option.some_ne_none q).symm
          · exact hnone q hq
  | count q =>
      rw [hacc] at hstep
      obtain ⟨rfl, rfl⟩ := Prod.mk.inj (Option.some.inj hstep)
      exact hs.hold hstarted hnone (by simp [hacc]) (by rw [hacc]; rfl) rfl
        AcceptPc.noConfusion fun _ => AcceptPc.noConfusion
  | search q i =>
      rw [hacc] at hstep
      obtain ⟨rfl, rfl⟩ := Prod.mk.inj (Option.some.inj hstep)
      split_ifs
      · exact hs.hold hstarted hnone (by simp [hacc]) (by rw [hacc]; rfl) rfl
          AcceptPc.noConfusion fun _ => AcceptPc.noConfusion
      · exact hs.hold hstarted hnone (by simp [hacc]) (by rw [hacc]; rfl) rfl
          AcceptPc.noConfusion fun _ => AcceptPc.noConfusion
      · refine ⟨hs.moveServer hstarted hnone rfl rfl id rfl (fun q' hq => ?_)
          AcceptPc.noConfusion fun _ => AcceptPc.noConfusion, rfl, Or.inr (Or.inr rfl)⟩
        exact absurd hq (Option.some_ne_none q').symm
  | store q i =>
      rw [hacc] at hstep
      obtain ⟨rfl, rfl⟩ := Prod.mk.inj (Option.some.inj hstep)
      refine ⟨hs.store hstarted hnone hacc, rfl,
        Or.inr (Or.inl ⟨horderly (by simp [hacc]), fun q' => ?_⟩)⟩
      have hstored := stored_store hs hnone hacc s.kernel .receive q'
      unfold Created
      rw [hstored, hacc]
      simp [holds, hnone q', eq_comm]
  | overrun =>
      rw [hacc] at hstep
      exact absurd hstep (Option.some_ne_none _).symm

theorem stored_depart {i : Slot}
    (hi : s.shared.clientsQueueIds i = start.shared.clientsQueueIds i) (q : ℕ) :
    Stored start { s with shared := { s.shared with
      clientsQueueIds := Function.update s.shared.clientsQueueIds i emptyClientSlot } } q ↔
    Stored start s q := by
  constructor
  · rintro ⟨j, hj, hne⟩
    by_cases hji : j = i
    · subst hji
      exact absurd ((Function.update_self ..).symm.trans hj).symm (QueueIds.natCast_ne_empty q)
    · exact ⟨j, (Function.update_of_ne hji ..).symm.trans hj, hne⟩
  · rintro ⟨j, hj, hne⟩
    have hji : j ≠ i := by
      rintro rfl
      exact hne (hi.symm.trans hj)
    exact ⟨j, (Function.update_of_ne hji ..).trans hj, hne⟩

theorem Wired.depart (hs : Wired start s) {i : Slot} (h : departStep start s i = some t) :
    Wired start t ∧ t.client = s.client ∧ t.accept = s.accept ∧
    ∀ q, Created start t q ↔ Created start s q := by
  unfold departStep at h
  split_ifs at h with hi
  obtain rfl := Option.some.inj h
  have hstored := stored_depart hi
  have hcreated : ∀ q, Created start { s with shared := { s.shared with
      clientsQueueIds := Function.update s.shared.clientsQueueIds i emptyClientSlot } } q ↔
      Created start s q := fun q => or_congr_right (hstored q)
  have hnone : (∀ q, ¬ Stored start s q) → ∀ q, ¬ Stored start { s with shared := { s.shared with
      clientsQueueIds := Function.update s.shared.clientsQueueIds i emptyClientSlot } } q :=
    fun hnone q hq => hnone q ((hstored q).mp hq)
  refine ⟨?_, rfl, rfl, hcreated⟩
  exact
    { hs with
      started := fun h => ⟨(hs.started h).1, (hs.started h).2.1, hnone (hs.started h).2.2⟩
      waiting := fun h => ⟨(hs.waiting h).1, hnone (hs.waiting h).2⟩
      handling := fun h => hnone (hs.handling h)
      created := fun q hq => hs.created q ((hcreated q).mp hq) }

/-! ## §5  Agreement -/

/-- The client has a queue that the server has not created, or has given up one
that it has. -/
def Diverged (start : Start) (s : State) : Prop :=
  (∃ q, s.client = .loop q ∧ ¬ Created start s q) ∨
  (s.client.Dead ∧ ∃ q, Created start s q)

theorem diverged_congr (hclient : t.client = s.client)
    (hcreated : ∀ q, Created start t q ↔ Created start s q) :
    Diverged start t ↔ Diverged start s := by
  simp only [Diverged, hclient, hcreated]

theorem clientStep_created (h : clientStep start s = some t) :
    t.accept = s.accept ∧ ∀ q, Created start t q ↔ Created start s q := by
  unfold clientStep at h
  cases hpc : s.client <;> rw [hpc] at h <;>
    first
    | exact absurd h (Option.some_ne_none t).symm
    | (obtain rfl := Option.some.inj h; exact ⟨rfl, fun _ => Iff.rfl⟩)

/-- A client that is neither in its loop nor dead has not diverged. -/
theorem not_diverged (hloop : ∀ q, s.client ≠ .loop q) (halive : ¬ s.client.Dead) :
    ¬ Diverged start s := by
  rintro (⟨q, hq, -⟩ | ⟨hdead, -⟩)
  · exact hloop q hq
  · exact halive hdead

/-- An orderly step from a state that has not diverged to another one. -/
theorem diverged_of_orderly {a : Action} (hbefore : ¬ Diverged start s)
    (horderly : Orderly start s a) (hafter : ¬ Diverged start t) :
    Diverged start t ↔ Diverged start s ∨ ¬ Orderly start s a :=
  iff_of_false hafter (not_or.mpr ⟨hbefore, not_not.mpr horderly⟩)

/-- A step of the client diverges exactly if it is not orderly. -/
theorem Wired.diverged_client (hs : Wired start s) (h : clientStep start s = some t) :
    Diverged start t ↔ Diverged start s ∨ ¬ Orderly start s .client := by
  have hcreated := (clientStep_created h).2
  unfold clientStep at h
  cases hpc : s.client with
  | check =>
      have hnone : ∀ q, ¬ Created start s q := by
        obtain ⟨-, hacc, hnone⟩ := hs.started (Or.inl hpc)
        rintro q (hq | hq)
        · rw [hacc] at hq
          exact absurd hq (Option.some_ne_none q).symm
        · exact hnone q hq
      rw [hpc] at h
      obtain rfl := Option.some.inj h
      apply diverged_of_orderly (not_diverged (by simp [hpc]) (hpc ▸ id))
      · exact orderly_client (by simp [hpc]) (by simp [hpc])
      rintro (⟨q, hq, -⟩ | ⟨-, q, hq⟩)
      · dsimp only at hq
        split_ifs at hq
      · exact hnone q ((hcreated q).mp hq)
  | send =>
      rw [hpc] at h
      obtain rfl := Option.some.inj h
      apply diverged_of_orderly (not_diverged (by simp [hpc]) (hpc ▸ id))
      · exact orderly_client (by simp [hpc]) (by simp [hpc])
      · exact not_diverged (fun _ => ClientPc.noConfusion) id
  | poll n =>
      have hbefore : ¬ Diverged start s := not_diverged (by simp [hpc]) (hpc ▸ id)
      rw [hpc] at h
      obtain rfl := Option.some.inj h
      unfold Orderly
      rw [hpc, or_iff_right hbefore]
      dsimp only
      by_cases htime : n + 1 = clientTimeout
      · -- giving up is right only without a created queue
        simp only [htime, true_imp_iff, not_forall, not_not]
        simp only [if_pos htime] at hcreated
        constructor
        · rintro (⟨q, hq, -⟩ | ⟨-, q, hq⟩)
          · exact ClientPc.noConfusion hq
          · exact ⟨q, (hcreated q).mp hq⟩
        · rintro ⟨q, hq⟩
          exact Or.inr ⟨trivial, q, (hcreated q).mpr hq⟩
      · refine iff_of_false (not_diverged (fun q => ?_) ?_) fun h => h fun hn => absurd hn htime
        · dsimp only
          split_ifs <;> exact ClientPc.noConfusion
        · dsimp only
          split_ifs <;> exact id
  | ftok =>
      rw [hpc] at h
      obtain rfl := Option.some.inj h
      apply diverged_of_orderly (not_diverged (by simp [hpc]) (hpc ▸ id))
      · exact orderly_client (by simp [hpc]) (by simp [hpc])
      · exact not_diverged (fun _ => ClientPc.noConfusion) id
  | openQueue key =>
      have hbefore : ¬ Diverged start s := not_diverged (by simp [hpc]) (hpc ▸ id)
      rw [hpc] at h
      obtain rfl := Option.some.inj h
      unfold Orderly
      rw [hpc, or_iff_right hbefore]
      constructor
      · rintro (⟨q, hq, hno⟩ | ⟨hdead, -⟩)
        · rintro ⟨q', hq'⟩
          -- the queue under the client's key is the one the server has created
          have hfound := hs.created q' hq' (hpc ▸ id)
          rw [← hs.clientKey key hpc] at hfound
          obtain rfl := ClientPc.loop.inj hq
          rw [Kernel.openQueue_of_some hfound] at hno hcreated
          exact hno ((hcreated q').mpr hq')
        · exact hdead.elim
      · intro hno
        exact Or.inl ⟨_, rfl, fun hq => hno ⟨_, (hcreated _).mp hq⟩⟩
  | cleanup =>
      rw [hpc] at h
      obtain rfl := Option.some.inj h
      rw [or_iff_left (not_not.mpr (orderly_client (by simp [hpc]) (by simp [hpc])))]
      constructor
      · rintro (⟨q, hq, -⟩ | ⟨-, q, hq⟩)
        · exact ClientPc.noConfusion hq
        · exact Or.inr ⟨hpc ▸ trivial, q, (hcreated q).mp hq⟩
      · rintro (⟨q, hq, -⟩ | ⟨-, q, hq⟩)
        · exact absurd (hpc.symm.trans hq) ClientPc.noConfusion
        · exact Or.inr ⟨trivial, q, (hcreated q).mpr hq⟩
  | loop q =>
      rw [hpc] at h
      exact absurd h (Option.some_ne_none t).symm
  | exited =>
      rw [hpc] at h
      exact absurd h (Option.some_ne_none t).symm

/-- A step of the accepting thread diverges exactly if it is not orderly. -/
theorem Wired.diverged_server (hs : Wired start s) (h : ServerMoved start s t)
    (hover : t.accept ≠ .overrun) :
    Diverged start t ↔ Diverged start s ∨ ¬ Orderly start s .server := by
  obtain ⟨hclient, ⟨key, hacc, hkey, hnew, hnone⟩ | ⟨horderly, hcreated⟩ | hpc⟩ := h
  · -- the client is not in its loop: its queue would exist under the key
    have hloop : ∀ q, s.client ≠ .loop q := by
      intro q hq
      have hfound := hs.looped q hq
      rw [← hs.serverKey key hacc (hq ▸ id), hkey] at hfound
      exact absurd hfound (Option.some_ne_none q).symm
    have hbefore : ¬ Diverged start s := by
      rintro (⟨q, hq, -⟩ | ⟨-, q, hq⟩)
      · exact hloop q hq
      · exact hnone q hq
    have horderly : Orderly start s .server ↔ ¬ s.client.Dead := by
      unfold Orderly
      rw [hacc]
      exact ⟨fun h => h hkey, fun h _ => h⟩
    rw [or_iff_right hbefore, horderly, not_not, Diverged, hclient]
    constructor
    · rintro (⟨q, hq, -⟩ | ⟨hdead, -⟩)
      · exact absurd hq (hloop q)
      · exact hdead
    · intro hdead
      exact Or.inr ⟨hdead, _, hnew⟩
  · rw [or_iff_left (not_not.mpr horderly)]
    exact diverged_congr hclient hcreated
  · exact absurd hpc hover

/-- The invariant of a run: the two sides have diverged exactly if some step was
not orderly. -/
theorem run_diverged {tr : List (State × Action)} (h : (connect start).Run tr s) :
    Wired start s ∧ (s.accept ≠ .overrun →
      ((∀ x ∈ tr, Orderly start x.1 x.2) ↔ ¬ Diverged start s)) := by
  refine h.invariant (I := fun tr s => Wired start s ∧ (s.accept ≠ .overrun →
      ((∀ x ∈ tr, Orderly start x.1 x.2) ↔ ¬ Diverged start s))) ?_ ?_
  · refine ⟨wired_start start, fun _ => ?_⟩
    have hbefore : ¬ Diverged start (connect start).init :=
      not_diverged (fun _ => ClientPc.noConfusion) id
    simpa using hbefore
  · rintro tr s a t ⟨hs, ih⟩ hn
    have hstep : Wired start t ∧ (t.accept ≠ .overrun → s.accept ≠ .overrun ∧
        (Diverged start t ↔ Diverged start s ∨ ¬ Orderly start s a)) := by
      cases a with
      | client =>
          have hacc := (clientStep_created hn).1
          exact ⟨hs.client hn, fun hover => ⟨hacc ▸ hover, hs.diverged_client hn⟩⟩
      | server =>
          obtain ⟨ht, hmoved⟩ := hs.server hn
          refine ⟨ht, fun hover => ⟨fun hacc => ?_, hs.diverged_server hmoved hover⟩⟩
          obtain ⟨-, -, shared, pc, hstep, -⟩ := hs.serverStep hn
          rw [hacc] at hstep
          exact absurd hstep (Option.some_ne_none _).symm
      | depart i =>
          obtain ⟨ht, hclient, hacc, hcreated⟩ := hs.depart hn
          refine ⟨ht, fun hover => ⟨hacc ▸ hover, ?_⟩⟩
          have horderly : Orderly start s (.depart i) := trivial
          rw [or_iff_left (not_not.mpr horderly)]
          exact diverged_congr hclient hcreated
    refine ⟨hstep.1, fun hover => ?_⟩
    obtain ⟨hover', hdiv⟩ := hstep.2 hover
    rw [List.forall_mem_append, List.forall_mem_singleton, ih hover', hdiv, not_or, not_not]

theorem Wired.agreed_iff (hs : Wired start s) (hdone : Done s) :
    Agreed start s ↔ ¬ Diverged start s := by
  obtain ⟨hclient, hacc, -⟩ := hdone
  have hcreated : ∀ q, Created start s q ↔ Stored start s q := by
    intro q
    unfold Created
    rw [hacc]
    exact or_iff_right (Option.some_ne_none q).symm
  constructor
  · rintro hagreed (⟨q, hq, hno⟩ | ⟨hdead, q, hq⟩)
    · exact hno ((hcreated q).mpr ((hagreed q).mp hq))
    · rw [(hagreed q).mpr ((hcreated q).mp hq)] at hdead
      exact hdead
  · intro hdiv q
    constructor
    · intro hq
      by_contra hno
      exact hdiv (Or.inl ⟨q, hq, fun h => hno ((hcreated q).mp h)⟩)
    · intro hq
      rcases hclient with hexit | ⟨q', hq'⟩
      · exact absurd (Or.inr ⟨hexit ▸ trivial, q, (hcreated q).mpr hq⟩) hdiv
      · -- both found the queue under the client's key
        have hfound := hs.created q ((hcreated q).mpr hq) (hq' ▸ id)
        rw [hq', Option.some.inj (hfound.symm.trans (hs.looped q' hq'))]

/-- **Client and server agree exactly after orderly steps**: in every state of
every run in which both are done, whatever clients were connected and whatever
queue or id file was left, the client is in its sender loop with the queue the
server has stored and no other if and only if all steps so far were orderly. -/
theorem agreed_iff_orderly {tr : List (State × Action)} (h : (connect start).Run tr s)
    (hdone : Done s) : Agreed start s ↔ ∀ x ∈ tr, Orderly start x.1 x.2 := by
  obtain ⟨hs, hdiv⟩ := run_diverged h
  rw [hs.agreed_iff hdone]
  exact (hdiv (hdone.2.1 ▸ AcceptPc.noConfusion)).symm

def emptyStart : Start where
  clientId := [97]
  fileKey := 7
  kernel := { idFile := false, queues := fun _ => none, fresh := 0 }
  shared := { numClients := 0, clientsQueueIds := fun _ => emptyClientSlot }
  slotsOld _ := by
    show emptyClientSlot < 0
    decide
  queuesOld _ _ h := absurd h (Option.some_ne_none _).symm

/-- The server creates and stores the queue before the client's second poll. -/
theorem agreed_iff_orderly_first : ∃ tr s, (connect emptyStart).Run tr s ∧
    s.client = .loop 0 ∧ ∀ x ∈ tr, Orderly emptyStart x.1 x.2 := by
  have h := (connect emptyStart).run_of_replay
    ([.client, .client, .client] ++ List.replicate 8 .server ++ [.client, .client, .client]) rfl
  obtain ⟨tr, s, h, hclient, hids, hacc, hmail⟩ : ∃ tr s, (connect emptyStart).Run tr s ∧
      s.client = .loop 0 ∧
      s.shared.clientsQueueIds = Function.update (fun _ => emptyClientSlot) 0 ((0 : ℕ) : ℤ) ∧
      s.accept = .receive ∧ s.mailbox = false := ⟨_, _, h, rfl, rfl, rfl, rfl⟩
  refine ⟨tr, s, h, hclient,
    (agreed_iff_orderly h ⟨Or.inr ⟨0, hclient⟩, hacc, hmail⟩).mp fun q => ?_⟩
  rw [hclient, Stored, hids]
  constructor
  · intro hq
    obtain rfl := ClientPc.loop.inj hq
    exact ⟨0, rfl, by decide⟩
  · rintro ⟨i, hi, -⟩
    by_cases hi0 : i = 0
    · subst hi0
      exact congrArg ClientPc.loop (Int.natCast_inj.mp hi)
    · rw [Function.update_of_ne hi0] at hi
      exact absurd hi.symm (QueueIds.natCast_ne_empty q)

/-- The id file makes the client open its queue before the server creates it:
the client enters its loop with queue 0, and the server takes it for a failure. -/
theorem client_creates_queue : ∃ tr s, (connect emptyStart).Run tr s ∧ Done s ∧
    s.client = .loop 0 ∧ (∀ i, s.shared.clientsQueueIds i = emptyClientSlot) ∧
    ¬ Agreed emptyStart s := by
  have h := (connect emptyStart).run_of_replay
    ([.client, .client] ++ List.replicate 3 .server ++ List.replicate 3 .client ++
      [.server, .server]) rfl
  obtain ⟨tr, s, h, hclient, hids, hdone⟩ : ∃ tr s, (connect emptyStart).Run tr s ∧
      s.client = .loop 0 ∧ (∀ i, s.shared.clientsQueueIds i = emptyClientSlot) ∧
      s.accept = .receive ∧ s.mailbox = false := ⟨_, _, h, rfl, fun _ => rfl, rfl, rfl⟩
  refine ⟨tr, s, h, ⟨Or.inr ⟨0, hclient⟩, hdone⟩, hclient, hids, fun hagreed => ?_⟩
  obtain ⟨i, hi, -⟩ := (hagreed 0).mp hclient
  exact QueueIds.natCast_ne_empty 0 (hi.symm.trans (hids i))

end Sysopy.QueueChat.Connect
