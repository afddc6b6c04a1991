import Sysopy.Foundation.System
import Sysopy.QueueChat.Slots

/-!
# The System V message-queue server

Two threads share `num_clients` and `clients_queue_ids` without a lock. The
accepting thread receives init messages and registers clients; the communicator
polls the queues of the registered clients, relays their texts and empties the
slot of a client that says "exit". Each access to a shared variable is a step
of its own. The environment chooses which thread moves and what its system calls
return.

## Sections

* §1 the accepting thread
* §2 the communicator
* §3 the system
-/

namespace Sysopy.QueueChat.SysV

open Sysopy.Foundation

/-! ## §1  The accepting thread -/

/-- Where `client_accepting_function` is. -/
inductive AcceptPc
  /-- before `msgrcv` -/
  | receive
  /-- before the comparison of `num_clients` with `MAX_CLIENTS` -/
  | check (id : Name)
  /-- before `open` of the client's id file -/
  | openFile (id : Name)
  /-- before `ftok` -/
  | ftok
  /-- before `create_queue` -/
  | createQueue (key : ℤ)
  /-- before `++num_clients` -/
  | count (q : ℕ)
  /-- before the test of `clients_queue_ids[i]` -/
  | search (q i : ℕ)
  /-- before the store into `clients_queue_ids[i]` -/
  | store (q : ℕ) (i : Slot)
  /-- the search has left the table -/
  | overrun
deriving DecidableEq

/-- What the system calls of the accepting thread return; each step uses the
answer to its own call. -/
structure Answers where
  /-- `client_id` of the message from `msgrcv` -/
  clientId : Name
  /-- `open` succeeds -/
  opened : Bool
  /-- the key from `ftok` -/
  key : ℤ
  /-- the queue from `create_queue`, `none` for -1 -/
  queue : Option ℕ

structure Shared where
  numClients : ℕ
  clientsQueueIds : QueueIds

def acceptStep (ans : Answers) (s : Shared) : AcceptPc → Option (Shared × AcceptPc)
  | .receive => some (s, .check ans.clientId)
  | .check id => some (s, if s.numClients = maxClients then .receive else .openFile id)
  | .openFile _ => some (s, if ans.opened then .ftok else .receive)
  | .ftok => some (s, .createQueue ans.key)
  | .createQueue _ =>
      some (s, match ans.queue with
        | some q => .count q
        | none => .receive)
  | .count q => some ({ s with numClients := s.numClients + 1 }, .search q 0)
  | .search q i =>
      some (s, if h : i < maxClients then
          if s.clientsQueueIds ⟨i, h⟩ ≠ emptyClientSlot then .search q (i + 1)
          else .store q ⟨i, h⟩
        else .overrun)
  | .store q i =>
      some ({ s with clientsQueueIds := Function.update s.clientsQueueIds i (q : ℤ) }, .receive)
  | .overrun => none

/-! ## §2  The communicator -/

/-- Where `enter_communicator_loop` is. -/
inductive CommPc
  /-- before `receive_message_nonblock(clients_queue_ids[i])` -/
  | poll (i : Slot)
  /-- before the removal of the queue of a client that has said "exit" -/
  | remove (i : Slot)
  /-- before `clients_queue_ids[i] = EMPTY_CLIENT_SLOT` -/
  | clear (i : Slot)
  /-- before iteration `j` of the loop that relays a text -/
  | relay (i : Slot) (msg : Message) (j : ℕ)
deriving DecidableEq

/-- One step of the communicator and its calls of `send_message`. `received` is
what the queue of the polled client holds; polling an empty slot fails. -/
def commStep (received : Option Message) (s : Shared) :
    CommPc → Shared × CommPc × List (ℤ × Message)
  | .poll i =>
      if s.clientsQueueIds i = emptyClientSlot then (s, .poll (i + 1), [])
      else match received with
        | none => (s, .poll (i + 1), [])
        | some msg =>
            if msg.msgBody = exitText then (s, .remove i, [])
            else (s, .relay i { msg with msgType := 12 } 0, [])
  | .remove i => (s, .clear i, [])
  | .clear i =>
      ({ s with clientsQueueIds := Function.update s.clientsQueueIds i emptyClientSlot },
        .poll (i + 1), [])
  | .relay i msg j =>
      if h : j < maxClients then
        (s, .relay i msg (j + 1),
          if i ≠ ⟨j, h⟩ ∧ s.clientsQueueIds ⟨j, h⟩ ≠ emptyClientSlot then
            [(s.clientsQueueIds ⟨j, h⟩, msg)]
          else [])
      else (s, .poll (i + 1), [])

/-! ## §3  The system -/

structure Server where
  shared : Shared
  accept : AcceptPc
  comm : CommPc

inductive Action
  | accept (ans : Answers)
  | comm (received : Option Message)

def Server.next (s : Server) : Action → Option Server
  | .accept ans => (acceptStep ans s.shared s.accept).map fun r =>
      { s with shared := r.1, accept := r.2 }
  | .comm received =>
      let r := commStep received s.shared s.comm
      some { s with shared := r.1, comm := r.2.1 }

def server : System Server Action where
  init :=
    { shared := { numClients := 0, clientsQueueIds := fun _ => emptyClientSlot }
      accept := .receive
      comm := .poll 0 }
  next := Server.next

end Sysopy.QueueChat.SysV
