import Sysopy.Foundation.System
import Sysopy.QueueChat.Slots

/-!
# The POSIX message-queue server

One loop receives the messages of all clients from the main queue. An init
message registers a client under its name: the server creates the queue of that
name, so that a name whose queue exists is refused. An exit message unlinks the
queue and empties the slot of the name. Any other message is a text and goes to
the queue of each slot whose name differs from the author's.

The environment chooses the messages and which calls of `mq_open` fail for
reasons of their own.

## Sections

* §1 the queues
* §2 one message
* §3 the system
-/

namespace Sysopy.QueueChat.Posix

open Sysopy.Foundation

/-! ## §1  The queues -/

/-- The queues the kernel knows by name, and the number of the next one. -/
structure Queues where
  named : Name → Option ℕ
  fresh : ℕ

/-- `create_queue`: `mq_open` with `O_CREAT | O_EXCL`. -/
def Queues.create (k : Queues) (name : Name) : Option (Queues × ℕ) :=
  match k.named name with
  | some _ => none
  | none => some ({ named := Function.update k.named name (some k.fresh)
                    fresh := k.fresh + 1 }, k.fresh)

/-- `mq_unlink`; a queue that is open lives on without its name. -/
def Queues.unlink (k : Queues) (name : Name) : Queues :=
  { k with named := Function.update k.named name none }

/-! ## §2  One message -/

def msgTypeInit : ℤ := 1

def msgTypeText : ℤ := 2

/-- `num_clients`, `clients_queue_ids` and `client_names`, with the kernel's
queues; `none` is a NULL name. -/
structure Server where
  numClients : ℕ
  clientsQueueIds : QueueIds
  clientNames : Slot → Option Name
  queues : Queues

/-- The loop that looks for an empty slot, `none` if it leaves the table. -/
def findSlot (ids : QueueIds) : Option Slot :=
  (List.finRange maxClients).find? fun i => ids i = emptyClientSlot

def findName (names : Slot → Option Name) (name : Name) : Option Slot :=
  (List.finRange maxClients).find? fun i => names i = some name

/-- The branch of an init message; `opened` says whether `mq_open` succeeds for a
name without a queue. `none` means that the search leaves the table. -/
def handleInit (s : Server) (name : Name) (opened : Bool) : Option Server :=
  if s.numClients = maxClients then some s -- "Too many clients"
  else match (if opened then s.queues.create name else none) with
    | none => some s -- "Could not create queue"
    | some (queues, q) => (findSlot s.clientsQueueIds).map fun i =>
        { numClients := s.numClients + 1
          clientsQueueIds := Function.update s.clientsQueueIds i (q : ℤ)
          clientNames := Function.update s.clientNames i (some name)
          queues := queues }

def handleExit (s : Server) (name : Name) : Server :=
  let s := { s with queues := s.queues.unlink name }
  match findName s.clientNames name with
  | some i =>
      { s with
        clientsQueueIds := Function.update s.clientsQueueIds i emptyClientSlot
        clientNames := Function.update s.clientNames i none }
  | none => s

/-- The calls of `send_message` for a text: the slots in use whose name is not
the author's. -/
def relay (s : Server) (msg : Message) : List (ℤ × Message) :=
  ((List.finRange maxClients).filter fun j =>
    s.clientsQueueIds j ≠ emptyClientSlot ∧ s.clientNames j ≠ some msg.clientId).map fun j =>
      (s.clientsQueueIds j, { msg with msgType := msgTypeText })

/-- One iteration of `enter_communicator_loop`. -/
def handle (s : Server) (msg : Message) (opened : Bool) :
    Option (Server × List (ℤ × Message)) :=
  if msg.msgType = msgTypeInit then
    (handleInit s msg.clientId opened).map fun s => (s, [])
  else if msg.msgBody = exitText then some (handleExit s msg.clientId, [])
  else some (s, relay s msg)

/-! ## §3  The system -/

structure Action where
  msg : Message
  opened : Bool

/-- The server without clients; queues of any names may be left from before. -/
def server (queues : Queues) : System Server Action where
  init :=
    { numClients := 0
      clientsQueueIds := fun _ => emptyClientSlot
      clientNames := fun _ => none
      queues := queues }
  next s a := (handle s a.msg a.opened).map Prod.fst

theorem findSlot_some {ids : QueueIds} {i : Slot} (h : findSlot ids = some i) :
    ids i = emptyClientSlot := by
  simpa using List.find?_some h

theorem findSlot_isSome {ids : QueueIds} {i : Slot} (h : ids i = emptyClientSlot) :
    (findSlot ids).isSome := by
  rw [findSlot, List.find?_isSome]
  exact ⟨i, List.mem_finRange i, by simpa using h⟩

theorem findName_some {names : Slot → Option Name} {name : Name} {i : Slot}
    (h : findName names name = some i) : names i = some name := by
  simpa using List.find?_some h

theorem findName_none {names : Slot → Option Name} {name : Name}
    (h : findName names name = none) (i : Slot) : names i ≠ some name := by
  simpa using List.find?_eq_none.mp h i (List.mem_finRange i)

namespace Server

/-- A new client takes slot `i`. -/
def register (s : Server) (name : Name) (i : Slot) : Server :=
  { numClients := s.numClients + 1
    clientsQueueIds := Function.update s.clientsQueueIds i (s.queues.fresh : ℤ)
    clientNames := Function.update s.clientNames i (some name)
    queues :=
      { named := Function.update s.queues.named name (some s.queues.fresh)
        fresh := s.queues.fresh + 1 } }

/-- The client of slot `i` leaves. -/
def leave (s : Server) (name : Name) (i : Slot) : Server :=
  { s with
    clientsQueueIds := Function.update s.clientsQueueIds i emptyClientSlot
    clientNames := Function.update s.clientNames i none
    queues := s.queues.unlink name }

end Server

/-- What handling a message comes to: a refused init message, a registration,
the exit of a client with a slot or without one, or a text. -/
theorem handle_cases {s t : Server} {msg : Message} {opened : Bool}
    {sends : List (ℤ × Message)} (h : handle s msg opened = some (t, sends)) :
    (msg.msgType = msgTypeInit ∧ t = s ∧ sends = []) ∨
    (msg.msgType = msgTypeInit ∧ s.numClients ≠ maxClients ∧
      s.queues.named msg.clientId = none ∧
      ∃ i, findSlot s.clientsQueueIds = some i ∧ t = s.register msg.clientId i ∧ sends = []) ∨
    (msg.msgType ≠ msgTypeInit ∧ msg.msgBody = exitText ∧
      ∃ i, findName s.clientNames msg.clientId = some i ∧ t = s.leave msg.clientId i ∧
        sends = []) ∨
    (msg.msgType ≠ msgTypeInit ∧ msg.msgBody = exitText ∧
      findName s.clientNames msg.clientId = none ∧
      t = { s with queues := s.queues.unlink msg.clientId } ∧ sends = []) ∨
    (msg.msgType ≠ msgTypeInit ∧ msg.msgBody ≠ exitText ∧ t = s ∧ sends = relay s msg) := by
  unfold handle at h
  split_ifs at h with htype hbody
  · simp only [handleInit, Option.map_eq_some_iff, Prod.mk.injEq] at h
    obtain ⟨u, hu, rfl, rfl⟩ := h
    split_ifs at hu with hfull hopened
    · exact Or.inl ⟨htype, (Option.some.inj hu).symm, rfl⟩
    · cases hnamed : s.queues.named msg.clientId with
      | some q =>
          simp only [Queues.create, hnamed, Option.some.injEq] at hu
          exact Or.inl ⟨htype, hu.symm, rfl⟩
      | none =>
          simp only [Queues.create, hnamed, Option.map_eq_some_iff] at hu
          obtain ⟨i, hi, rfl⟩ := hu
          exact Or.inr (Or.inl ⟨htype, hfull, rfl, i, hi, rfl, rfl⟩)
    · exact Or.inl ⟨htype, (Option.some.inj hu).symm, rfl⟩
  · simp only [Option.some.injEq, Prod.mk.injEq] at h
    obtain ⟨rfl, rfl⟩ := h
    unfold handleExit
    cases hname : findName s.clientNames msg.clientId with
    | some i =>
        refine Or.inr (Or.inr (Or.inl ⟨htype, hbody, i, rfl, ?_, rfl⟩))
        simp only [hname]
        rfl
    | none =>
        refine Or.inr (Or.inr (Or.inr (Or.inl ⟨htype, hbody, rfl, ?_, rfl⟩)))
        simp only [hname]
  · simp only [Option.some.injEq, Prod.mk.injEq] at h
    obtain ⟨rfl, rfl⟩ := h
    exact Or.inr (Or.inr (Or.inr (Or.inr ⟨htype, hbody, rfl, rfl⟩)))

end Sysopy.QueueChat.Posix
