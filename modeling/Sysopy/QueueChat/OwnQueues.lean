import Sysopy.Foundation.Channel
import Sysopy.QueueChat.Connect
import Sysopy.QueueChat.Counting

/-!
# A conversation over System V message queues

Each client has one queue, and uses it in both directions: it posts its lines under one
type and reads the texts of the others under another, and the server does the reverse.
Who sends to a full queue waits, whoever has filled it.

The communicator takes the posted lines slot by slot and sends each to the queues of the
other slots, one after the other, while the accepting thread registers new clients. Every
client is the one for which its queue was created: no two of them have the same identifier.
(Two that have it, and pass the test of the id file before the server creates that, share a
queue, and each may take what is meant for the other.)

## Sections

* §1 the queues and their clients
* §2 what one step does
* §3 the table and the queues
* §4 clients that leave
-/

namespace Sysopy.QueueChat.OwnQueues

open Sysopy.Foundation
open Sysopy.QueueChat.Connect (holds)
open Sysopy.QueueChat.SysV (Server AcceptPc CommPc Answers Shared acceptStep commStep)

/-! ## §1  The queues and their clients -/

def c2s : ℤ := 7

def s2c : ℤ := 12

/-- `msg_qbytes` of a new queue -/
def msgQbytes : ℕ := 16384

/-- `MSG_SIZE_PARAM`, the size of every message -/
def msgSizeParam : ℕ := 1032

/-- `msgsnd` does not wait. -/
def Room (msgs : List Message) : Prop := msgSizeParam * (msgs.length + 1) ≤ msgQbytes

instance (msgs : List Message) : Decidable (Room msgs) := inferInstanceAs (Decidable (_ ≤ _))

def hasType (msgType : ℤ) (msg : Message) : Bool := decide (msg.msgType = msgType)

/-- `msgrcv`: the first message of the type, and what it leaves in the queue. -/
def msgrcv (msgType : ℤ) (msgs : List Message) : Option (Message × List Message) :=
  takeFirst (hasType msgType) msgs

inductive ClientPc
  /-- there is no such queue -/
  | absent
  /-- before `open_queue` -/
  | opening
  /-- in `sender_loop` and `receiver_loop` -/
  | loop
  | exited
deriving DecidableEq

structure Chat where
  server : Server
  /-- the number of the next queue -/
  fresh : ℕ
  queue : ℤ → List Message
  client : ℤ → ClientPc

/-- `clients_queue_ids` -/
def Chat.slots (c : Chat) : QueueIds := c.server.shared.clientsQueueIds

inductive Action
  /-- the accepting thread, with what its system calls return -/
  | accept (ans : Answers)
  /-- the communicator -/
  | comm
  | openQueue (q : ℤ)
  /-- a line typed into the client of a queue -/
  | type (q : ℤ) (msg : Message)
  /-- a turn of `receiver_loop` -/
  | receive (q : ℤ)
  /-- the client of a queue is killed -/
  | die (q : ℤ)

/-- One step of the accepting thread; `create_queue` gives out the next number. -/
def acceptTurn (c : Chat) (ans : Answers) : Option Chat :=
  let ans := { ans with queue := ans.queue.map fun _ => c.fresh }
  (acceptStep ans c.server.shared c.server.accept).map fun r =>
    let server := { c.server with shared := r.1, accept := r.2 }
    match c.server.accept, ans.queue with
    | .createQueue _, some _ =>
        { c with
          server
          fresh := c.fresh + 1
          client := Function.update c.client c.fresh .opening }
    | _, _ => { c with server }

/-- `receive_message_nonblock` of the communicator. -/
def received (c : Chat) : Option (Message × List Message) :=
  match c.server.comm with
  | .poll i => if c.slots i = emptyClientSlot then none else msgrcv c2s (c.queue (c.slots i))
  | _ => none

/-- One step of the communicator, which waits where a queue it sends to is full. -/
def commTurn (c : Chat) : Option Chat :=
  let (shared, comm, sends) :=
    commStep ((received c).map Prod.fst) c.server.shared c.server.comm
  let d := { c with server := { c.server with shared, comm } }
  match c.server.comm, sends with
  | .poll i, _ => match received c with
      | none => some d
      | some (_, rest) => some { d with queue := Function.update c.queue (c.slots i) rest }
  | .remove i, _ => some { d with queue := Function.update c.queue (c.slots i) [] }
  | _, [] => some d
  | _, (q, msg) :: _ =>
      if Room (c.queue q) then
        some { d with queue := Function.update c.queue q (c.queue q ++ [msg]) }
      else none

/-- A turn of `sender_loop`, which waits where the client's queue is full. -/
def senderTurn (c : Chat) (q : ℤ) (msg : Message) : Option Chat :=
  if c.client q = .loop ∧ Room (c.queue q) then
    some { c with
      queue := Function.update c.queue q (c.queue q ++ [{ msg with msgType := c2s }])
      client := Function.update c.client q (if msg.msgBody = exitText then .exited else .loop) }
  else none

def receiverTurn (c : Chat) (q : ℤ) : Option Chat :=
  if c.client q = .loop then
    (msgrcv s2c (c.queue q)).map fun r =>
      { c with
        queue := Function.update c.queue q r.2
        client := Function.update c.client q (if r.1.msgBody = exitWord then .exited else .loop) }
  else none

def next (c : Chat) : Action → Option Chat
  | .accept ans => acceptTurn c ans
  | .comm => commTurn c
  | .openQueue q =>
      if c.client q = .opening then some { c with client := Function.update c.client q .loop }
      else none
  | .type q msg => senderTurn c q msg
  | .receive q => receiverTurn c q
  | .die q =>
      if c.client q = .absent then none
      else some { c with client := Function.update c.client q .exited }

/-- The server at its start, with no queue but its own. -/
def chat : System Chat Action where
  init :=
    { server := SysV.server.init
      fresh := 0
      queue := fun _ => []
      client := fun _ => .absent }
  next := next

/-! ## §2  What one step does -/

variable {c d : Chat} {a : Action} {q : ℤ}

def asText (msg : Message) : Message := { msg with msgType := s2c }

/-- The communicator has gone to another point, and nothing else has happened. -/
def Chat.goto (c : Chat) (comm : CommPc) : Chat := { c with server := { c.server with comm } }

inductive Does (c : Chat) : Action → Chat → Prop
  /-- a step of the accepting thread without a queue or a slot -/
  | accept (ans : Answers) (numClients : ℕ) (pc : AcceptPc) :
      (∀ q k, c.server.accept ≠ .store q k) →
      (∀ q, holds pc = some q → holds c.server.accept = some q) →
      Does c (.accept ans) { c with server := { c.server with
        shared := { c.server.shared with numClients }, accept := pc } }
  | create (ans : Answers) (key : ℤ) : c.server.accept = .createQueue key →
      Does c (.accept ans) { c with
        server := { c.server with accept := .count c.fresh }
        fresh := c.fresh + 1
        client := Function.update c.client c.fresh .opening }
  | store (ans : Answers) (q : ℕ) (k : Slot) : c.server.accept = .store q k →
      Does c (.accept ans) { c with server := { c.server with
        shared := { c.server.shared with clientsQueueIds := Function.update c.slots k (q : ℤ) }
        accept := .receive } }
  /-- there is nothing for the communicator here -/
  | pass (i : Slot) : c.server.comm = .poll i → received c = none →
      Does c .comm (c.goto (.poll (i + 1)))
  | leave (i : Slot) (msg : Message) (rest : List Message) : c.server.comm = .poll i →
      received c = some (msg, rest) → msg.msgBody = exitText →
      Does c .comm { c.goto (.remove i) with queue := Function.update c.queue (c.slots i) rest }
  | take (i : Slot) (msg : Message) (rest : List Message) : c.server.comm = .poll i →
      received c = some (msg, rest) → msg.msgBody ≠ exitText →
      Does c .comm { c.goto (.relay i (asText msg) 0) with
        queue := Function.update c.queue (c.slots i) rest }
  | remove (i : Slot) : c.server.comm = .remove i →
      Does c .comm { c.goto (.clear i) with queue := Function.update c.queue (c.slots i) [] }
  | clear (i : Slot) : c.server.comm = .clear i →
      Does c .comm { c with server := { c.server with
        shared := { c.server.shared with
          clientsQueueIds := Function.update c.slots i emptyClientSlot }
        comm := .poll (i + 1) } }
  | finish (i : Slot) (msg : Message) (j : ℕ) : c.server.comm = .relay i msg j →
      maxClients ≤ j → Does c .comm (c.goto (.poll (i + 1)))
  | skip (i : Slot) (msg : Message) (j : Slot) : c.server.comm = .relay i msg j →
      i = j ∨ c.slots j = emptyClientSlot → Does c .comm (c.goto (.relay i msg (j + 1)))
  | send (i : Slot) (msg : Message) (j : Slot) : c.server.comm = .relay i msg j →
      i ≠ j → c.slots j ≠ emptyClientSlot → Room (c.queue (c.slots j)) →
      Does c .comm { c.goto (.relay i msg (j + 1)) with
        queue := Function.update c.queue (c.slots j) (c.queue (c.slots j) ++ [msg]) }
  | openQueue (q : ℤ) : c.client q = .opening →
      Does c (.openQueue q) { c with client := Function.update c.client q .loop }
  | type (q : ℤ) (msg : Message) (pc : ClientPc) : c.client q = .loop → Room (c.queue q) →
      pc = .loop ∧ msg.msgBody ≠ exitText ∨ pc = .exited →
      Does c (.type q msg) { c with
        queue := Function.update c.queue q (c.queue q ++ [{ msg with msgType := c2s }])
        client := Function.update c.client q pc }
  | receive (q : ℤ) (msg : Message) (rest : List Message) (pc : ClientPc) :
      c.client q = .loop → msgrcv s2c (c.queue q) = some (msg, rest) →
      pc = .loop ∨ pc = .exited →
      Does c (.receive q) { c with
        queue := Function.update c.queue q rest
        client := Function.update c.client q pc }
  | die (q : ℤ) : c.client q ≠ .absent →
      Does c (.die q) { c with client := Function.update c.client q .exited }

/-- The accepting thread creates a queue, fills a slot, or does neither. -/
theorem acceptStep_cases {ans : Answers} {x y : Shared} {pc pc' : AcceptPc}
    (h : acceptStep ans x pc = some (y, pc')) :
    (∃ key q, pc = .createQueue key ∧ ans.queue = some q ∧ y = x ∧ pc' = .count q) ∨
    (∃ q k, pc = .store q k ∧ pc' = .receive ∧
      y = { x with clientsQueueIds := Function.update x.clientsQueueIds k (q : ℤ) }) ∨
    ((∀ key, pc = .createQueue key → ans.queue = none) ∧ (∀ q k, pc ≠ .store q k) ∧
      (∃ numClients, y = { x with numClients }) ∧
      ∀ q, holds pc' = some q → holds pc = some q) := by
  cases pc with
  | createQueue key =>
      obtain ⟨rfl, rfl⟩ := Prod.mk.inj (Option.some.inj h)
      cases hqueue : ans.queue with
      | none =>
          exact Or.inr (Or.inr ⟨fun _ _ => rfl, fun _ _ => AcceptPc.noConfusion, ⟨_, rfl⟩,
            fun q hq => hq⟩)
      | some q => exact Or.inl ⟨key, q, rfl, rfl, rfl, rfl⟩
  | store q k =>
      obtain ⟨rfl, rfl⟩ := Prod.mk.inj (Option.some.inj h)
      exact Or.inr (Or.inl ⟨q, k, rfl, rfl, rfl⟩)
  | overrun => exact absurd h (Option.some_ne_none _).symm
  | receive | ftok | count q =>
      obtain ⟨rfl, rfl⟩ := Prod.mk.inj (Option.some.inj h)
      exact Or.inr (Or.inr ⟨fun _ => AcceptPc.noConfusion, fun _ _ => AcceptPc.noConfusion,
        ⟨_, rfl⟩, fun q hq => hq⟩)
  | check id | openFile id =>
      obtain ⟨rfl, rfl⟩ := Prod.mk.inj (Option.some.inj h)
      refine Or.inr (Or.inr ⟨fun _ => AcceptPc.noConfusion, fun _ _ => AcceptPc.noConfusion,
        ⟨_, rfl⟩, fun q hq => ?_⟩)
      split_ifs at hq <;> exact hq
  | search q i =>
      obtain ⟨rfl, rfl⟩ := Prod.mk.inj (Option.some.inj h)
      refine Or.inr (Or.inr ⟨fun _ => AcceptPc.noConfusion, fun _ _ => AcceptPc.noConfusion,
        ⟨_, rfl⟩, fun q' hq' => ?_⟩)
      split_ifs at hq'
      · exact hq'
      · exact hq'
      · exact absurd hq' (Option.some_ne_none _).symm

theorem does_of_acceptTurn {ans : Answers} (h : acceptTurn c ans = some d) :
    Does c (.accept ans) d := by
  obtain ⟨⟨x, pc⟩, hstep, rfl⟩ := Option.map_eq_some_iff.mp h
  rcases acceptStep_cases hstep with ⟨key, q, hpc, hqueue, rfl, rfl⟩ | ⟨q, k, hpc, rfl, rfl⟩ |
    ⟨hnone, hstore, ⟨n, rfl⟩, hholds⟩
  · obtain ⟨q', hq', rfl⟩ := Option.map_eq_some_iff.mp hqueue
    simp only [hpc, hq', Option.map_some]
    exact Does.create ans key hpc
  · simp only [hpc]
    exact Does.store ans q k hpc
  · split
    next key q hpc hqueue =>
      exact absurd ((hnone key hpc).symm.trans hqueue) (Option.some_ne_none q).symm
    next => exact Does.accept ans n pc hstore hholds

theorem received_eq_some {i : Slot} {r : Message × List Message} (hpc : c.server.comm = .poll i)
    (h : received c = some r) :
    c.slots i ≠ emptyClientSlot ∧ msgrcv c2s (c.queue (c.slots i)) = some r := by
  rw [received, hpc] at h
  dsimp only at h
  split_ifs at h with hempty
  exact ⟨hempty, h⟩

theorem does_of_commTurn (h : commTurn c = some d) : Does c .comm d := by
  unfold commTurn at h
  cases hpc : c.server.comm with
  | poll i =>
      simp only [hpc, commStep] at h
      cases hreceived : received c with
      | none =>
          simp only [hreceived, Option.map_none, ite_self, Option.some.injEq] at h
          subst h
          exact Does.pass i hpc hreceived
      | some r =>
          obtain ⟨msg, rest⟩ := r
          have hused : c.server.shared.clientsQueueIds i ≠ emptyClientSlot :=
            (received_eq_some hpc hreceived).1
          simp only [hreceived, Option.map_some, if_neg hused] at h
          by_cases hbody : msg.msgBody = exitText
          · simp only [hbody, if_pos, Option.some.injEq] at h
            subst h
            exact Does.leave i msg rest hpc hreceived hbody
          · simp only [if_neg hbody, Option.some.injEq] at h
            subst h
            exact Does.take i msg rest hpc hreceived hbody
  | remove i =>
      simp only [hpc, commStep, Option.some.injEq] at h
      subst h
      exact Does.remove i hpc
  | clear i =>
      simp only [hpc, commStep, Option.some.injEq] at h
      subst h
      exact Does.clear i hpc
  | relay i msg j =>
      simp only [hpc, commStep] at h
      by_cases hj : j < maxClients
      · rw [dif_pos hj] at h
        by_cases hsends : i ≠ ⟨j, hj⟩ ∧ c.server.shared.clientsQueueIds ⟨j, hj⟩ ≠ emptyClientSlot
        · simp only [if_pos hsends] at h
          split_ifs at h with hroom
          obtain rfl := Option.some.inj h
          exact Does.send i msg ⟨j, hj⟩ hpc hsends.1 hsends.2 hroom
        · simp only [if_neg hsends, Option.some.injEq] at h
          subst h
          refine Does.skip i msg ⟨j, hj⟩ hpc ?_
          rwa [not_and_or, not_not, not_not] at hsends
      · rw [dif_neg hj] at h
        simp only [Option.some.injEq] at h
        subst h
        exact Does.finish i msg j hpc (Nat.le_of_not_lt hj)

theorem does_of_next (h : next c a = some d) : Does c a d := by
  cases a with
  | accept ans => exact does_of_acceptTurn h
  | comm => exact does_of_commTurn h
  | openQueue q =>
      simp only [next] at h
      split_ifs at h with hpc
      obtain rfl := Option.some.inj h
      exact Does.openQueue q hpc
  | type q msg =>
      simp only [next, senderTurn] at h
      split_ifs at h with hturn hbody
      · obtain rfl := Option.some.inj h
        exact Does.type q msg .exited hturn.1 hturn.2 (Or.inr rfl)
      · obtain rfl := Option.some.inj h
        exact Does.type q msg .loop hturn.1 hturn.2 (Or.inl ⟨rfl, hbody⟩)
  | receive q =>
      simp only [next, receiverTurn] at h
      split_ifs at h with hpc
      obtain ⟨⟨msg, rest⟩, htake, rfl⟩ := Option.map_eq_some_iff.mp h
      refine Does.receive q msg rest _ hpc htake ?_
      dsimp only
      split_ifs
      · exact Or.inr rfl
      · exact Or.inl rfl
  | die q =>
      simp only [next] at h
      split_ifs at h with hpc
      obtain rfl := Option.some.inj h
      exact Does.die q hpc

/-! ## §3  The table and the queues -/

theorem server_next (h : next c a = some d) :
    d.server = c.server ∨ ∃ b, SysV.server.next c.server b = some d.server := by
  cases a with
  | accept ans =>
      obtain ⟨r, hstep, rfl⟩ := Option.map_eq_some_iff.mp h
      refine Or.inr ⟨.accept { ans with queue := ans.queue.map fun _ => c.fresh }, ?_⟩
      simp only [SysV.server, Server.next, hstep, Option.map_some]
      split <;> rfl
  | comm =>
      refine Or.inr ⟨.comm ((received c).map Prod.fst), ?_⟩
      simp only [SysV.server, Server.next]
      simp only [next, commTurn] at h
      split at h
      · split at h <;> exact congrArg (fun d => d.map Chat.server) h
      · exact congrArg (fun d => d.map Chat.server) h
      · exact congrArg (fun d => d.map Chat.server) h
      · split_ifs at h
        exact congrArg (fun d => d.map Chat.server) h
  | openQueue q =>
      simp only [next] at h
      split_ifs at h
      exact Or.inl (congrArg Chat.server (Option.some.inj h)).symm
  | type q msg =>
      simp only [next, senderTurn] at h
      split_ifs at h
      all_goals exact Or.inl (congrArg Chat.server (Option.some.inj h)).symm
  | receive q =>
      simp only [next, receiverTurn] at h
      split_ifs at h
      obtain ⟨r, -, rfl⟩ := Option.map_eq_some_iff.mp h
      exact Or.inl rfl
  | die q =>
      simp only [next] at h
      split_ifs at h
      exact Or.inl (congrArg Chat.server (Option.some.inj h)).symm

/-- **The chat runs the server**: the server in a run of the chat is one in a run of
its own. -/
theorem server_run {tr : List (Chat × Action)} (h : chat.Run tr c) :
    ∃ tr', SysV.server.Run tr' c.server := by
  refine h.invariant (I := fun _ c => ∃ tr', SysV.server.Run tr' c.server) ?_ ?_
  · exact ⟨[], System.Path.nil⟩
  · rintro _ c a d ⟨tr', hrun⟩ hn
    rcases server_next hn with heq | ⟨b, hb⟩
    · exact ⟨tr', heq ▸ hrun⟩
    · exact ⟨_, System.Path.snoc hrun hb⟩

/-- The accepting thread fills an empty slot only. -/
theorem run_free {tr : List (Chat × Action)} (h : chat.Run tr c) {n : ℕ} {k : Slot}
    (hpc : c.server.accept = .store n k) : c.slots k = emptyClientSlot := by
  obtain ⟨tr', h'⟩ := server_run h
  exact (SysV.run_books h').store n k hpc

def waiting (msgType : ℤ) (c : Chat) (q : ℤ) : List Message :=
  (c.queue q).filter (hasType msgType)

/-- The slots have different queues, and a queue the accepting thread holds has none; the
queues below `fresh` are there, and none is overfull. -/
structure Kept (c : Chat) : Prop where
  apart : ∀ i j, c.slots i ≠ emptyClientSlot → c.slots i = c.slots j → i = j
  known : ∀ i, c.slots i < (c.fresh : ℤ)
  nonneg : ∀ i, c.slots i ≠ emptyClientSlot → 0 ≤ c.slots i
  held : ∀ n, holds c.server.accept = some n → n < c.fresh ∧ ∀ i, c.slots i ≠ (n : ℤ)
  absent_iff : ∀ q, c.client q = .absent ↔ q < 0 ∨ (c.fresh : ℤ) ≤ q
  room : ∀ q, msgSizeParam * (c.queue q).length ≤ msgQbytes

theorem empty_lt (n : ℕ) : emptyClientSlot < (n : ℤ) := by
  unfold emptyClientSlot
  omega

theorem kept_start : Kept chat.init where
  apart _ _ h := absurd rfl h
  known _ := empty_lt 0
  nonneg _ h := absurd rfl h
  held n h := absurd h (Option.some_ne_none n).symm
  absent_iff q := ⟨fun _ => Int.lt_or_le q 0, fun _ => rfl⟩
  room _ := Nat.zero_le _

theorem room_update {queue : ℤ → List Message}
    (hroom : ∀ q, msgSizeParam * (queue q).length ≤ msgQbytes) {msgs : List Message}
    (h : msgSizeParam * msgs.length ≤ msgQbytes) (q q' : ℤ) :
    msgSizeParam * (Function.update queue q msgs q').length ≤ msgQbytes := by
  rw [Function.update_apply]
  split_ifs
  · exact h
  · exact hroom q'

theorem room_append {msgs : List Message} (h : Room msgs) (msg : Message) :
    msgSizeParam * (msgs ++ [msg]).length ≤ msgQbytes := by
  rw [List.length_append, List.length_singleton]
  exact h

theorem room_rest {msgType : ℤ} {msgs rest : List Message} {msg : Message}
    (h : msgSizeParam * msgs.length ≤ msgQbytes) (htake : msgrcv msgType msgs = some (msg, rest)) :
    Room rest :=
  (congrArg (msgSizeParam * ·) (length_takeFirst htake)).symm.trans_le h

theorem absent_update {client : ℤ → ClientPc} {n : ℤ}
    (habsent : ∀ q, client q = .absent ↔ q < 0 ∨ n ≤ q) {q : ℤ} (hq : client q ≠ .absent)
    {pc : ClientPc} (hpc : pc ≠ .absent) (q' : ℤ) :
    Function.update client q pc q' = .absent ↔ q' < 0 ∨ n ≤ q' := by
  rw [← habsent, Function.update_apply]
  split_ifs with heq
  · subst heq
    exact iff_of_false hpc hq
  · rfl

theorem apart_update {slots : QueueIds}
    (hapart : ∀ i j, slots i ≠ emptyClientSlot → slots i = slots j → i = j) {k : Slot} {x : ℤ}
    (hx : x ≠ emptyClientSlot → ∀ i, slots i ≠ x) (i j : Slot)
    (hused : Function.update slots k x i ≠ emptyClientSlot)
    (heq : Function.update slots k x i = Function.update slots k x j) : i = j := by
  simp only [Function.update_apply] at hused heq
  split_ifs at hused heq with hi hj hj
  · exact hi.trans hj.symm
  · exact absurd heq.symm (hx hused j)
  · exact absurd heq (hx (heq ▸ hused) i)
  · exact hapart i j hused heq

theorem known_update {slots : QueueIds} {n x : ℤ} (hknown : ∀ i, slots i < n) (hx : x < n)
    (k i : Slot) : Function.update slots k x i < n := by
  rw [Function.update_apply]
  split_ifs
  · exact hx
  · exact hknown i

theorem nonneg_update {slots : QueueIds} {x : ℤ}
    (hnonneg : ∀ i, slots i ≠ emptyClientSlot → 0 ≤ slots i) (hx : x ≠ emptyClientSlot → 0 ≤ x)
    (k i : Slot) (hused : Function.update slots k x i ≠ emptyClientSlot) :
    0 ≤ Function.update slots k x i := by
  rw [Function.update_apply] at hused ⊢
  split_ifs at hused ⊢
  · exact hx hused
  · exact hnonneg i hused

theorem Room.le {msgs : List Message} (h : Room msgs) : msgSizeParam * msgs.length ≤ msgQbytes :=
  (Nat.mul_le_mul_left _ (Nat.le_succ _)).trans h

theorem Kept.next (hc : Kept c) (h : next c a = some d) : Kept d := by
  cases does_of_next h with
  | accept ans n pc _ hholds => exact { hc with held := fun q hq => hc.held q (hholds q hq) }
  | create ans key _ =>
      exact
        { apart := hc.apart
          known := fun i => (hc.known i).trans (Int.ofNat_lt.mpr (Nat.lt_succ_self _))
          nonneg := hc.nonneg
          held := fun n hn => by
            obtain rfl := Option.some.inj hn
            exact ⟨Nat.lt_succ_self _, fun i => (hc.known i).ne⟩
          absent_iff := fun q => by
            have hiff := hc.absent_iff q
            dsimp only
            rw [Function.update_apply, Int.natCast_succ]
            split_ifs with heq
            · exact iff_of_false id (by omega)
            · rw [hiff]
              omega
          room := hc.room }
  | store ans n k hpc =>
      obtain ⟨hn, hnone⟩ := hc.held n (by rw [hpc]; rfl)
      exact
        { apart := apart_update hc.apart fun _ => hnone
          known := known_update hc.known (Int.ofNat_lt.mpr hn) k
          nonneg := nonneg_update hc.nonneg (fun _ => Int.natCast_nonneg n) k
          held := fun n hn => absurd hn (Option.some_ne_none n).symm
          absent_iff := hc.absent_iff
          room := hc.room }
  | pass | finish | skip => exact { hc with }
  | leave i msg rest hpc hreceived _ | take i msg rest hpc hreceived _ =>
      have hrest := room_rest (hc.room _) (received_eq_some hpc hreceived).2
      exact { hc with room := room_update hc.room hrest.le _ }
  | remove i hpc => exact { hc with room := room_update hc.room (Nat.zero_le _) _ }
  | clear i hpc =>
      exact
        { apart := apart_update hc.apart fun hne => absurd rfl hne
          known := known_update hc.known (empty_lt _) i
          nonneg := nonneg_update hc.nonneg (fun hne => absurd rfl hne) i
          held := fun n hn => ⟨(hc.held n hn).1, fun j => by
            simp only [Chat.slots, Function.update_apply]
            split_ifs
            · exact (QueueIds.natCast_ne_empty n).symm
            · exact (hc.held n hn).2 j⟩
          absent_iff := hc.absent_iff
          room := hc.room }
  | send i msg j hpc hne hused hroom =>
      exact { hc with room := room_update hc.room (room_append hroom msg) _ }
  | openQueue q hpc =>
      exact { hc with
        absent_iff := absent_update hc.absent_iff (hpc ▸ ClientPc.noConfusion)
          ClientPc.noConfusion }
  | type q msg pc hpc hroom hpc' =>
      exact { hc with
        absent_iff := absent_update hc.absent_iff (hpc ▸ ClientPc.noConfusion)
          (by rcases hpc' with ⟨rfl, -⟩ | rfl <;> exact ClientPc.noConfusion)
        room := room_update hc.room (room_append hroom _) _ }
  | receive q msg rest pc hpc htake hpc' =>
      exact { hc with
        absent_iff := absent_update hc.absent_iff (hpc ▸ ClientPc.noConfusion)
          (by rcases hpc' with rfl | rfl <;> exact ClientPc.noConfusion)
        room := room_update hc.room (room_rest (hc.room q) htake).le _ }
  | die q hpc =>
      exact { hc with absent_iff := absent_update hc.absent_iff hpc ClientPc.noConfusion }

theorem run_kept {tr : List (Chat × Action)} (h : chat.Run tr c) : Kept c :=
  h.invariant (I := fun _ c => Kept c) kept_start fun _ _ _ _ hc hn => hc.next hn

/-! ## §4  Clients that leave -/

/-- Who says "exit" says nothing afterwards. -/
structure Farewell (lines : List Message) (pc : ClientPc) : Prop where
  last : ∀ msg ∈ lines.dropLast, msg.msgBody ≠ exitText
  said : ∀ msg ∈ lines, msg.msgBody = exitText → pc = .exited

namespace Farewell

variable {lines : List Message} {msg : Message} {pc pc' : ClientPc}

theorem nil : Farewell [] pc :=
  ⟨fun _ h => absurd h List.not_mem_nil, fun _ h => absurd h List.not_mem_nil⟩

theorem tail (h : Farewell (msg :: lines) pc) : Farewell lines pc where
  last x hx := by
    cases lines with
    | nil => exact absurd hx List.not_mem_nil
    | cons y ys => exact h.last x (List.mem_cons_of_mem msg hx)
  said x hx := h.said x (List.mem_cons_of_mem msg hx)

theorem eq_nil (h : Farewell (msg :: lines) pc) (hbody : msg.msgBody = exitText) : lines = [] := by
  cases lines with
  | nil => rfl
  | cons y ys => exact absurd hbody (h.last msg (List.mem_cons_self ..))

theorem moved (h : Farewell lines pc) (hpc : pc = .exited → pc' = .exited) :
    Farewell lines pc' :=
  ⟨h.last, fun x hx hbody => hpc (h.said x hx hbody)⟩

theorem snoc (h : Farewell lines pc) (hpc : pc ≠ .exited)
    (hpc' : msg.msgBody = exitText → pc' = .exited) : Farewell (lines ++ [msg]) pc' where
  last x hx hbody := by
    rw [List.dropLast_concat] at hx
    exact hpc (h.said x hx hbody)
  said x hx hbody := by
    rcases List.mem_append.mp hx with hx | hx
    · exact absurd (h.said x hx hbody) hpc
    · rw [List.mem_singleton] at hx
      exact hpc' (hx ▸ hbody)

end Farewell

/-- A client that has said "exit" has gone, and the communicator is done with its lines
before it removes the queue. -/
structure Polite (c : Chat) : Prop where
  farewell : ∀ q, Farewell (waiting c2s c q) (c.client q)
  leaving : ∀ i, c.server.comm = .remove i ∨ c.server.comm = .clear i →
    c.slots i ≠ emptyClientSlot ∧ c.client (c.slots i) = .exited ∧ waiting c2s c (c.slots i) = []
  relayed : ∀ i msg j, c.server.comm = .relay i msg j → msg.msgType = s2c

theorem filter_update (p : Message → Bool) (queue : ℤ → List Message) (q : ℤ)
    (msgs : List Message) (q' : ℤ) :
    (Function.update queue q msgs q').filter p =
      if q' = q then msgs.filter p else (queue q').filter p := by
  rw [Function.update_apply]
  split_ifs <;> rfl

theorem exited_update {client : ℤ → ClientPc} {q q' : ℤ} {pc : ClientPc}
    (hpc : client q = .exited → pc = .exited) (h : client q' = .exited) :
    Function.update client q pc q' = .exited := by
  rw [Function.update_apply]
  split_ifs with heq
  · exact hpc (heq ▸ h)
  · exact h

theorem Polite.client (hc : Polite c) (q : ℤ) (pc : ClientPc)
    (hpc : c.client q = .exited → pc = .exited) :
    Polite { c with client := Function.update c.client q pc } where
  farewell q' := (hc.farewell q').moved fun h => exited_update hpc h
  leaving i hi := by
    obtain ⟨hused, hexited, hnone⟩ := hc.leaving i hi
    exact ⟨hused, exited_update hpc hexited, hnone⟩
  relayed := hc.relayed

/-- The communicator goes on to a point where it neither leaves nor relays. -/
theorem Polite.poll (hc : Polite c) (i : Slot) : Polite (c.goto (.poll i)) where
  farewell := hc.farewell
  leaving _ h := h.elim CommPc.noConfusion CommPc.noConfusion
  relayed _ _ _ h := CommPc.noConfusion h

theorem Polite.farewell_update (hc : Polite c) (q : ℤ) {msgs : List Message} {pc : ClientPc}
    (h : Farewell (msgs.filter (hasType c2s)) pc) (q' : ℤ) :
    Farewell ((Function.update c.queue q msgs q').filter (hasType c2s))
      (Function.update c.client q pc q') := by
  rw [filter_update, Function.update_apply]
  split_ifs
  · exact h
  · exact hc.farewell q'

theorem Polite.queue_update (hc : Polite c) (q : ℤ) {msgs : List Message}
    (h : Farewell (msgs.filter (hasType c2s)) (c.client q)) (q' : ℤ) :
    Farewell ((Function.update c.queue q msgs q').filter (hasType c2s)) (c.client q') := by
  have hboth := hc.farewell_update q h q'
  rwa [Function.update_eq_self] at hboth

theorem hasType_self (msg : Message) (msgType : ℤ) :
    hasType msgType { msg with msgType := msgType } = true :=
  decide_eq_true rfl

theorem not_c2s_of_s2c {msg : Message} (h : msg.msgType = s2c) : hasType c2s msg = false :=
  decide_eq_false (h ▸ by decide)

theorem not_s2c_of_c2s {msg : Message} (h : msg.msgType = c2s) : hasType s2c msg = false :=
  decide_eq_false (h ▸ by decide)

theorem type_of_msgrcv {msgType : ℤ} {msgs rest : List Message} {msg : Message}
    (h : msgrcv msgType msgs = some (msg, rest)) : msg.msgType = msgType :=
  of_decide_eq_true (mem_of_takeFirst h).1

theorem Polite.leaving_update (hc : Polite c) {q : ℤ} (hq : c.client q ≠ .exited)
    (msgs : List Message) (pc : ClientPc) (i : Slot)
    (hi : c.server.comm = .remove i ∨ c.server.comm = .clear i) :
    c.slots i ≠ emptyClientSlot ∧ Function.update c.client q pc (c.slots i) = .exited ∧
      (Function.update c.queue q msgs (c.slots i)).filter (hasType c2s) = [] := by
  obtain ⟨hused, hexited, hnone⟩ := hc.leaving i hi
  have hne : c.slots i ≠ q := fun heq => hq (heq ▸ hexited)
  rw [Function.update_of_ne hne, Function.update_of_ne hne]
  exact ⟨hused, hexited, hnone⟩

theorem Polite.next (hc : Polite c) (hkept : Kept c)
    (hfree : ∀ n k, c.server.accept = .store n k → c.slots k = emptyClientSlot)
    (h : next c a = some d) : Polite d := by
  cases does_of_next h with
  | accept => exact { hc with }
  | create ans key _ =>
      have habsent : c.client c.fresh = .absent := (hkept.absent_iff _).mpr (Or.inr le_rfl)
      have hpolite := hc.client c.fresh .opening fun h =>
        ClientPc.noConfusion (habsent.symm.trans h)
      exact { hpolite with }
  | store ans n k hpc =>
      refine { hc with leaving := fun i hi => ?_ }
      have hgone := hc.leaving i hi
      -- the slot that is about to be emptied is not the one that is filled
      have hne : i ≠ k := fun heq => hgone.1 (heq ▸ hfree n k hpc)
      have hslot : Function.update c.slots k (n : ℤ) i = c.slots i := Function.update_of_ne hne ..
      rw [← hslot] at hgone
      exact hgone
  | pass | finish => exact hc.poll _
  | leave i msg rest hpc hreceived hbody =>
      obtain ⟨hused, htake⟩ := received_eq_some hpc hreceived
      have hfarewell := hc.farewell (c.slots i)
      rw [waiting, filter_takeFirst htake] at hfarewell
      refine ⟨hc.queue_update _ hfarewell.tail, fun k hk => ?_,
        fun _ _ _ h => CommPc.noConfusion h⟩
      obtain rfl : k = i := by
        rcases hk with hk | hk
        · exact (CommPc.remove.inj hk).symm
        · exact CommPc.noConfusion hk
      refine ⟨hused, hfarewell.said msg (List.mem_cons_self ..) hbody, ?_⟩
      have hrest : (Function.update c.queue (c.slots k) rest (c.slots k)) = rest :=
        Function.update_self ..
      exact (congrArg _ hrest).trans (hfarewell.eq_nil hbody)
  | take i msg rest hpc hreceived _ =>
      obtain ⟨hused, htake⟩ := received_eq_some hpc hreceived
      have hfarewell := hc.farewell (c.slots i)
      rw [waiting, filter_takeFirst htake] at hfarewell
      refine ⟨hc.queue_update _ hfarewell.tail,
        fun _ h => h.elim CommPc.noConfusion CommPc.noConfusion, fun i' msg' j' h => ?_⟩
      obtain ⟨-, rfl, -⟩ := CommPc.relay.inj h
      rfl
  | remove i hpc =>
      refine ⟨hc.queue_update _ Farewell.nil, fun k hk => ?_,
        fun _ _ _ h => CommPc.noConfusion h⟩
      obtain rfl : k = i := by
        rcases hk with hk | hk
        · exact CommPc.noConfusion hk
        · exact (CommPc.clear.inj hk).symm
      obtain ⟨hused, hexited, -⟩ := hc.leaving k (Or.inl hpc)
      have hnone : Function.update c.queue (c.slots k) [] (c.slots k) = [] :=
        Function.update_self ..
      exact ⟨hused, hexited, congrArg _ hnone⟩
  | clear i hpc =>
      exact ⟨hc.farewell, fun _ h => h.elim CommPc.noConfusion CommPc.noConfusion,
        fun _ _ _ h => CommPc.noConfusion h⟩
  | skip i msg j hpc _ =>
      refine ⟨hc.farewell, fun _ h => h.elim CommPc.noConfusion CommPc.noConfusion,
        fun i' msg' j' h => ?_⟩
      obtain ⟨-, rfl, -⟩ := CommPc.relay.inj h
      exact hc.relayed i msg j hpc
  | send i msg j hpc hne hused hroom =>
      have htext := hc.relayed i msg j hpc
      refine ⟨hc.queue_update _ ?_, fun _ h => h.elim CommPc.noConfusion CommPc.noConfusion,
        fun i' msg' j' h => ?_⟩
      · rw [List.filter_append, List.filter_singleton, not_c2s_of_s2c htext, cond_false,
          List.append_nil]
        exact hc.farewell (c.slots j)
      · obtain ⟨-, rfl, -⟩ := CommPc.relay.inj h
        exact htext
  | openQueue q hpc => exact hc.client q .loop fun h => ClientPc.noConfusion (hpc.symm.trans h)
  | type q msg pc hpc hroom hpc' =>
      have hthere : c.client q ≠ .exited := hpc ▸ ClientPc.noConfusion
      refine ⟨hc.farewell_update q ?_, hc.leaving_update hthere _ pc, hc.relayed⟩
      rw [List.filter_append, List.filter_singleton, hasType_self, cond_true]
      refine (hc.farewell q).snoc hthere fun hbody => ?_
      rcases hpc' with ⟨-, hne⟩ | rfl
      · exact absurd hbody hne
      · rfl
  | receive q msg rest pc hpc htake hpc' =>
      have hthere : c.client q ≠ .exited := hpc ▸ ClientPc.noConfusion
      refine ⟨hc.farewell_update q ?_, hc.leaving_update hthere rest pc, hc.relayed⟩
      have hlines := filter_takeFirst_of_not htake (not_c2s_of_s2c (type_of_msgrcv htake))
      rw [← hlines]
      exact (hc.farewell q).moved fun h => absurd h hthere
  | die q hpc => exact hc.client q .exited fun _ => rfl

end Sysopy.QueueChat.OwnQueues
