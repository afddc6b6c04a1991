import Sysopy.Foundation.Channel
import Sysopy.QueueChat.Exclusive
import Sysopy.QueueChat.Members

/-!
# A conversation over POSIX message queues

Clients post to the main queue, the server takes one message after the other and puts a
text into the queues of the other clients, one call of `mq_send` at a time, and the
receiver of each client reads its own queue. Every queue has room for `mq_maxmsg`
messages, and who finds a queue full waits.

The main queue puts all messages into one order, and every client hears the texts that
are meant for it in this order.

## Sections

* §1 the processes and the queues
* §2 what one step does
* §3 what is posted, handled and read
* §4 one order for everybody
-/

namespace Sysopy.QueueChat.Conversation

open Sysopy.Foundation
open Sysopy.QueueChat.Exclusive (ClientPc World Leftover clientStep textStep timeout)
open Sysopy.QueueChat.Fields (Identifier Line sentName)
open Sysopy.QueueChat.Posix (Server Members handle handle_cases relay msgTypeInit msgTypeText)

/-! ## §1  The processes and the queues -/

def mqMaxmsg : ℕ := 8

/-- The server and the clients, the calls of `send_message` that are left for the text
at hand, and the messages in the clients' queues. -/
structure Chat (P : Type*) where
  world : World P
  sending : List (ℤ × Message)
  queue : ℤ → List Message

inductive Action (P : Type*)
  /-- the next step of a starting client -/
  | client (p : P) (opened : Bool)
  /-- a line typed into a client -/
  | text (p : P) (msgType : ℤ) (line : Line)
  /-- a client is killed -/
  | die (p : P)
  /-- the server receives the next message -/
  | server (opened : Bool)
  /-- the server makes its next call of `send_message` -/
  | send
  /-- the receiver of a client reads a message -/
  | receive (p : P)

variable {P : Type*}

/-- `mq_send` to the main queue waits. -/
def Chat.Full (c : Chat P) : Prop := mqMaxmsg ≤ c.world.mailbox.length

instance (c : Chat P) : Decidable c.Full := inferInstanceAs (Decidable (_ ≤ _))

/-- `receive_message_block` of the server and what it does with the message. -/
def receiveMessage (c : Chat P) (opened : Bool) : Option (Chat P) :=
  match c.world.mailbox with
  | [] => none
  | msg :: rest => (handle c.world.server msg opened).map fun r =>
      { c with world := { c.world with server := r.1, mailbox := rest }, sending := r.2 }

/-- `send_message` of the server, which waits while the queue is full. -/
def sendMessage (c : Chat P) : Option (Chat P) :=
  match c.sending with
  | [] => none
  | (q, msg) :: rest =>
      if (c.queue q).length < mqMaxmsg then
        some { c with sending := rest, queue := Function.update c.queue q (c.queue q ++ [msg]) }
      else none

def receiverTurn [DecidableEq P] (c : Chat P) (p : P) : Option (Chat P) :=
  match c.world.client p with
  | .loop q =>
      match c.queue q with
      | [] => none
      | msg :: rest =>
          let pc := if msg.msgBody = exitWord then ClientPc.exited else .loop q
          some { c with
            world := { c.world with client := Function.update c.world.client p pc }
            queue := Function.update c.queue q rest }
  | _ => none

def next [DecidableEq P] (ids : P → Identifier) (c : Chat P) : Action P → Option (Chat P)
  | .client p opened =>
      if c.world.client p = .send ∧ c.Full then none
      else (clientStep ids c.world p opened).map fun w => { c with world := w }
  | .text p msgType line =>
      if c.Full then none
      else (textStep ids c.world p msgType line).map fun w => { c with world := w }
  | .die p =>
      some { c with world := { c.world with client := Function.update c.world.client p .exited } }
  | .server opened => if c.sending = [] then receiveMessage c opened else none
  | .send => sendMessage c
  | .receive p => receiverTurn c p

/-- Queues that are left from before, with what is in them. -/
structure Found extends Leftover where
  queue : ℤ → List Message
  room : ∀ q, (queue q).length ≤ mqMaxmsg
  new : ∀ q : ℕ, queues.fresh ≤ q → queue q = []

def chat [DecidableEq P] (found : Found) (ids : P → Identifier) : System (Chat P) (Action P) where
  init :=
    { world := (Exclusive.world found.toLeftover ids).init
      sending := []
      queue := found.queue }
  next := next ids

/-! ## §2  What one step does -/

variable [DecidableEq P] {found : Found} {ids : P → Identifier} {c d : Chat P}

/-- Where a starting client can get without sending. -/
inductive Starts (ids : P → Identifier) (w : World P) (p : P) : ClientPc → Prop
  | pass : w.client p = .check → w.server.queues.named (ids p).clientId = none →
      Starts ids w p .send
  | retry (n m : ℕ) : w.client p = .opening n → Starts ids w p (.opening m)
  | opens (n q : ℕ) : w.client p = .opening n →
      w.server.queues.named (ids p).clientId = some q → Starts ids w p (.loop q)
  | ends : Starts ids w p .exited

/-- Where a client is after it has posted a message. -/
inductive Posts (w : World P) (p : P) : ClientPc → Prop
  | init : w.client p = .send → Posts w p (.opening 0)
  | text (q : ℕ) : w.client p = .loop q → Posts w p (.loop q)
  | exit (q : ℕ) : w.client p = .loop q → Posts w p .exited

theorem clientStep_cases {w w' : World P} {p : P} {opened : Bool}
    (h : clientStep ids w p opened = some w') :
    (w.client p ≠ .send ∧ ∃ pc, Starts ids w p pc ∧
      w' = { w with client := Function.update w.client p pc }) ∨
    (w.client p = .send ∧ w' = { w with
      mailbox := w.mailbox ++ [⟨msgTypeInit, (ids p).clientId, [], []⟩]
      client := Function.update w.client p (.opening 0) }) := by
  unfold clientStep at h
  cases hpc : w.client p with
  | check =>
      simp only [hpc, Option.some.injEq] at h
      refine Or.inl ⟨ClientPc.noConfusion, _, ?_, h.symm⟩
      split_ifs with hcheck
      · exact Starts.pass hpc hcheck.2
      · exact Starts.ends
  | send =>
      simp only [hpc, Option.some.injEq] at h
      exact Or.inr ⟨rfl, h.symm⟩
  | opening n =>
      simp only [hpc, Option.some.injEq] at h
      refine Or.inl ⟨ClientPc.noConfusion, _, ?_, h.symm⟩
      split
      next q hq =>
        refine Starts.opens n q hpc ?_
        split_ifs at hq
        exact hq
      next =>
        split_ifs
        · exact Starts.ends
        · exact Starts.retry n _ hpc
  | loop q => simp [hpc] at h
  | exited => simp [hpc] at h

theorem textStep_cases {w w' : World P} {p : P} {msgType : ℤ} {line : Line}
    (h : textStep ids w p msgType line = some w') :
    ∃ pc, Posts w p pc ∧ w' = { w with
      mailbox := w.mailbox ++
        [⟨msgType, sentName (ids p) line, line.timestamp, line.text⟩]
      client := Function.update w.client p pc } := by
  unfold textStep at h
  split at h
  next q hpc =>
    rw [Option.some.injEq] at h
    refine ⟨_, ?_, h.symm⟩
    split_ifs
    · exact Posts.exit q hpc
    · exact Posts.text q hpc
  next => exact absurd h (Option.some_ne_none w').symm

def posts (ids : P → Identifier) (c : Chat P) : Action P → List Message
  | .client p _ =>
      if c.world.client p = .send then [⟨msgTypeInit, (ids p).clientId, [], []⟩] else []
  | .text p msgType line => [⟨msgType, sentName (ids p) line, line.timestamp, line.text⟩]
  | _ => []

/-- The message that a step has the server handle, with the table it finds. -/
def handles (c : Chat P) : Action P → List (Server × Message)
  | .server _ => (c.world.mailbox.take 1).map fun msg => (c.world.server, msg)
  | _ => []

/-- The messages that a step reads from queue `q`. -/
def reads (q : ℤ) (c : Chat P) : Action P → List Message
  | .receive p =>
      match c.world.client p with
      | .loop q' => if (q' : ℤ) = q then (c.queue q).take 1 else []
      | _ => []
  | _ => []

/-- A step moves a client, posts a message, has the server take a message, fills a
client's queue or empties it. -/
inductive Does (ids : P → Identifier) (c : Chat P) : Action P → Chat P → Prop
  | move (a : Action P) (p : P) (pc : ClientPc) : Starts ids c.world p pc →
      posts ids c a = [] → handles c a = [] → (∀ q, reads q c a = []) →
      Does ids c a { c with
        world := { c.world with client := Function.update c.world.client p pc } }
  | post (a : Action P) (p : P) (pc : ClientPc) (msg : Message) : ¬ c.Full →
      Posts c.world p pc →
      posts ids c a = [msg] → handles c a = [] → (∀ q, reads q c a = []) →
      Does ids c a { c with world := { c.world with
        mailbox := c.world.mailbox ++ [msg]
        client := Function.update c.world.client p pc } }
  | take (opened : Bool) (msg : Message) (rest : List Message) (s : Server)
      (sends : List (ℤ × Message)) : c.sending = [] → c.world.mailbox = msg :: rest →
      handle c.world.server msg opened = some (s, sends) →
      Does ids c (.server opened) { c with
        world := { c.world with server := s, mailbox := rest }, sending := sends }
  | send (q : ℤ) (msg : Message) (rest : List (ℤ × Message)) : c.sending = (q, msg) :: rest →
      (c.queue q).length < mqMaxmsg →
      Does ids c .send { c with
        sending := rest, queue := Function.update c.queue q (c.queue q ++ [msg]) }
  | receive (p : P) (q : ℕ) (msg : Message) (rest : List Message) (pc : ClientPc) :
      c.world.client p = .loop q → c.queue q = msg :: rest →
      (pc = .exited ∨ pc = .loop q) →
      Does ids c (.receive p) { c with
        world := { c.world with client := Function.update c.world.client p pc }
        queue := Function.update c.queue q rest }

theorem does_of_next {a : Action P} (h : next ids c a = some d) : Does ids c a d := by
  cases a with
  | client p opened =>
      simp only [next] at h
      split_ifs at h with hfull
      obtain ⟨w, hw, rfl⟩ := Option.map_eq_some_iff.mp h
      rcases clientStep_cases hw with ⟨hpc, pc, hstarts, rfl⟩ | ⟨hpc, rfl⟩
      · exact Does.move _ p pc hstarts (if_neg hpc) rfl fun _ => rfl
      · exact Does.post _ p _ _ (fun hf => hfull ⟨hpc, hf⟩) (Posts.init hpc) (if_pos hpc) rfl
          fun _ => rfl
  | text p msgType line =>
      simp only [next] at h
      split_ifs at h with hfull
      obtain ⟨w, hw, rfl⟩ := Option.map_eq_some_iff.mp h
      obtain ⟨pc, hposts, rfl⟩ := textStep_cases hw
      exact Does.post _ p pc _ hfull hposts rfl rfl fun _ => rfl
  | die p =>
      simp only [next, Option.some.injEq] at h
      subst h
      exact Does.move _ p .exited Starts.ends rfl rfl fun _ => rfl
  | server opened =>
      simp only [next, receiveMessage] at h
      split_ifs at h with hsending
      split at h
      next => exact absurd h (Option.some_ne_none d).symm
      next msg rest hmail =>
        obtain ⟨⟨s, sends⟩, hhandle, rfl⟩ := Option.map_eq_some_iff.mp h
        exact Does.take opened msg rest s sends hsending hmail hhandle
  | send =>
      simp only [next, sendMessage] at h
      split at h
      next => exact absurd h (Option.some_ne_none d).symm
      next q msg rest hsending =>
        split_ifs at h with hroom
        obtain rfl := Option.some.inj h
        exact Does.send q msg rest hsending hroom
  | receive p =>
      simp only [next, receiverTurn] at h
      split at h
      next q hpc =>
        split at h
        next => exact absurd h (Option.some_ne_none d).symm
        next msg rest hqueue =>
          obtain rfl := Option.some.inj h
          refine Does.receive p q msg rest _ hpc hqueue ?_
          split_ifs
          · exact Or.inl rfl
          · exact Or.inr rfl
      next => exact absurd h (Option.some_ne_none d).symm

/-! ## §3  What is posted, handled and read -/

/-- The table holds together, the queues are not overfull, and the calls that are left go
to different clients. -/
structure Kept (c : Chat P) : Prop where
  members : Members c.world.server
  room : ∀ q, (c.queue q).length ≤ mqMaxmsg
  once : (c.sending.map Prod.fst).Nodup
  known : ∀ x ∈ c.sending, x.1 < (c.world.server.queues.fresh : ℤ)
  new : ∀ q : ℕ, c.world.server.queues.fresh ≤ q → c.queue q = []
  old : ∀ name q, c.world.server.queues.named name = some q → q < c.world.server.queues.fresh
  used : ∀ p q, c.world.client p = .loop q → q < c.world.server.queues.fresh

theorem queues_handle {s t : Server} {msg : Message} {opened : Bool}
    {sends : List (ℤ × Message)} (h : handle s msg opened = some (t, sends)) :
    s.queues.fresh ≤ t.queues.fresh ∧ ∀ name q, t.queues.named name = some q →
      s.queues.named name = some q ∨ (q = s.queues.fresh ∧ q < t.queues.fresh) := by
  -- `mq_unlink` takes a name away, `mq_open` gives out the next number
  have hunlink : ∀ name q, (s.queues.unlink msg.clientId).named name = some q →
      s.queues.named name = some q := by
    intro name q hq
    simp only [Posix.Queues.unlink, Function.update_apply] at hq
    split_ifs at hq
    exact hq
  rcases handle_cases h with ⟨-, rfl, -⟩ | ⟨-, -, hnamed, i, hi, rfl, -⟩ |
    ⟨-, -, i, hi, rfl, -⟩ | ⟨-, -, hnone, rfl, -⟩ | ⟨-, -, rfl, -⟩
  · exact ⟨le_rfl, fun _ _ hq => Or.inl hq⟩
  · refine ⟨Nat.le_succ _, fun name q hq => ?_⟩
    simp only [Posix.Server.register, Function.update_apply] at hq ⊢
    split_ifs at hq
    · obtain rfl := Option.some.inj hq
      exact Or.inr ⟨rfl, Nat.lt_succ_self _⟩
    · exact Or.inl hq
  · exact ⟨le_rfl, fun name q hq => Or.inl (hunlink name q hq)⟩
  · exact ⟨le_rfl, fun name q hq => Or.inl (hunlink name q hq)⟩
  · exact ⟨le_rfl, fun _ _ hq => Or.inl hq⟩

theorem sends_handle {s t : Server} (hs : Members s) {msg : Message} {opened : Bool}
    {sends : List (ℤ × Message)} (h : handle s msg opened = some (t, sends)) :
    (sends.map Prod.fst).Nodup ∧ ∀ x ∈ sends, x.1 < (s.queues.fresh : ℤ) := by
  have hnil : ((([] : List (ℤ × Message)).map Prod.fst).Nodup) ∧
      ∀ x ∈ ([] : List (ℤ × Message)), x.1 < (s.queues.fresh : ℤ) :=
    ⟨List.nodup_nil, fun _ hx => absurd hx List.not_mem_nil⟩
  rcases handle_cases h with ⟨-, -, rfl⟩ | ⟨-, -, -, i, -, -, rfl⟩ | ⟨-, -, i, -, -, rfl⟩ |
    ⟨-, -, -, -, rfl⟩ | ⟨-, -, -, rfl⟩
  · exact hnil
  · exact hnil
  · exact hnil
  · exact hnil
  · constructor
    · rw [relay, List.map_map]
      refine ((List.nodup_finRange _).filter _).map_on ?_
      intro j hj k _ heq
      have hused := (List.mem_filter.mp hj).2
      rw [decide_eq_true_iff] at hused
      exact hs.apart j k hused.1 heq
    · intro x hx
      obtain ⟨j, -, rfl⟩ := List.mem_map.mp hx
      exact hs.fresh j

theorem kept_start (found : Found) (ids : P → Identifier) : Kept (chat found ids).init where
  members := Posix.members_start found.queues
  room := found.room
  once := List.nodup_nil
  known _ hx := absurd hx List.not_mem_nil
  new := found.new
  old := found.old
  used _ _ h := ClientPc.noConfusion h

theorem used_update {w : World P} {p : P} {pc : ClientPc} {n : ℕ}
    (hused : ∀ p q, w.client p = .loop q → q < n) (hpc : ∀ q, pc = .loop q → q < n)
    {p' : P} {q : ℕ} (h : Function.update w.client p pc p' = .loop q) : q < n := by
  rw [Function.update_apply] at h
  split_ifs at h
  · exact hpc q h
  · exact hused p' q h

theorem room_update {queue : ℤ → List Message} (hroom : ∀ q, (queue q).length ≤ mqMaxmsg)
    {q : ℤ} {msgs : List Message} (h : msgs.length ≤ mqMaxmsg) (q' : ℤ) :
    (Function.update queue q msgs q').length ≤ mqMaxmsg := by
  rw [Function.update_apply]
  split_ifs
  · exact h
  · exact hroom q'

theorem new_update {queue : ℤ → List Message} {n : ℕ} (hnew : ∀ q : ℕ, n ≤ q → queue q = [])
    {q : ℤ} (hq : q < (n : ℤ)) (msgs : List Message) (q' : ℕ) (hq' : n ≤ q') :
    Function.update queue q msgs q' = [] := by
  have hne : (q' : ℤ) ≠ q := by omega
  exact (Function.update_of_ne hne ..).trans (hnew q' hq')

theorem Kept.next (hc : Kept c) {a : Action P} (h : next ids c a = some d) : Kept d := by
  cases does_of_next h with
  | move _ p pc hstarts =>
      refine { hc with used := fun p' q hq => used_update hc.used ?_ hq }
      intro q hpc
      cases hstarts with
      | opens n q' _ hnamed => exact ClientPc.loop.inj hpc ▸ hc.old _ _ hnamed
      | _ => exact ClientPc.noConfusion hpc
  | post _ p pc msg _ hposts =>
      refine { hc with used := fun p' q hq => used_update hc.used ?_ hq }
      intro q hpc
      cases hposts with
      | text q' hp => exact ClientPc.loop.inj hpc ▸ hc.used p q' hp
      | _ => exact ClientPc.noConfusion hpc
  | take opened msg rest s sends _ _ hhandle =>
      obtain ⟨hfresh, hnamed⟩ := queues_handle hhandle
      obtain ⟨honce, hknown⟩ := sends_handle hc.members hhandle
      exact
        { members := hc.members.handle hhandle
          room := hc.room
          once := honce
          known := fun x hx => (hknown x hx).trans_le (Int.ofNat_le.mpr hfresh)
          new := fun q hq => hc.new q (hfresh.trans hq)
          old := fun name q hq => by
            rcases hnamed name q hq with hold | ⟨-, hlt⟩
            · exact (hc.old name q hold).trans_le hfresh
            · exact hlt
          used := fun p q hp => (hc.used p q hp).trans_le hfresh }
  | send q msg rest hsending hroom =>
      have hknown := hc.known (q, msg) (hsending ▸ List.mem_cons_self ..)
      exact
        { members := hc.members
          room := room_update hc.room (by
            rw [List.length_append, List.length_singleton]
            exact hroom)
          once := (List.nodup_cons.mp (by simpa [hsending] using hc.once)).2
          known := fun x hx => hc.known x (hsending ▸ List.mem_cons_of_mem _ hx)
          new := new_update hc.new hknown _
          old := hc.old
          used := hc.used }
  | receive p q msg rest pc hp hqueue hpc =>
      exact
        { members := hc.members
          room := room_update hc.room (by
            have hle := hc.room q
            rw [hqueue, List.length_cons] at hle
            omega)
          once := hc.once
          known := hc.known
          new := new_update hc.new (Int.ofNat_lt.mpr (hc.used p q hp)) _
          old := hc.old
          used := fun p' q' hq' => used_update hc.used
            (fun q'' heq => by
              rcases hpc with rfl | rfl
              · exact ClientPc.noConfusion heq
              · exact ClientPc.loop.inj heq ▸ hc.used p q hp) hq' }

/-! ## §4  One order for everybody -/

/-- A text that the server sends to queue `q`: the slot of this queue has another name
than the author. -/
def Hears (q : ℕ) (s : Server) (msg : Message) : Prop :=
  msg.msgType ≠ msgTypeInit ∧ msg.msgBody ≠ exitText ∧
    ∃ i, s.clientsQueueIds i = (q : ℤ) ∧ s.clientNames i ≠ some msg.clientId

instance (q : ℕ) (s : Server) (msg : Message) : Decidable (Hears q s msg) :=
  inferInstanceAs (Decidable (_ ∧ _ ∧ _))

def asText (msg : Message) : Message := { msg with msgType := msgTypeText }

/-- The messages for queue `q` among the calls. -/
def callsTo (q : ℕ) (sends : List (ℤ × Message)) : List Message :=
  (sends.filter fun x => x.1 = (q : ℤ)).map Prod.snd

theorem relay_hears {s : Server} (hs : Members s) {q : ℕ} {msg : Message} {i : Slot}
    (hi : s.clientsQueueIds i = (q : ℤ)) (hname : s.clientNames i ≠ some msg.clientId) :
    callsTo q (relay s msg) = [asText msg] := by
  have hused : s.clientsQueueIds i ≠ emptyClientSlot := hi ▸ QueueIds.natCast_ne_empty q
  have hone := broadcast_to (fun j => (s.clientsQueueIds j, asText msg)) Prod.fst
    ((List.nodup_finRange maxClients).filter fun j =>
      s.clientsQueueIds j ≠ emptyClientSlot ∧ s.clientNames j ≠ some msg.clientId)
    (List.mem_filter.mpr ⟨List.mem_finRange i, by simp [hused, hname]⟩)
    (fun k _ heq => (hs.apart i k hused heq.symm).symm)
  rw [callsTo, ← hi]
  exact congrArg (List.map Prod.snd) hone

theorem relay_not_hears {s : Server} {q : ℕ} {msg : Message}
    (h : ∀ i, s.clientsQueueIds i = (q : ℤ) → s.clientNames i = some msg.clientId) :
    callsTo q (relay s msg) = [] := by
  rw [callsTo, List.map_eq_nil_iff, List.filter_eq_nil_iff]
  intro x hx
  obtain ⟨j, hj, rfl⟩ := List.mem_map.mp hx
  have hj := (List.mem_filter.mp hj).2
  rw [decide_eq_true_iff] at hj ⊢
  exact fun hq => hj.2 (h j hq)

theorem callsTo_handle {s t : Server} (hs : Members s) {q : ℕ} {msg : Message} {opened : Bool}
    {sends : List (ℤ × Message)} (h : handle s msg opened = some (t, sends)) :
    callsTo q sends = if Hears q s msg then [asText msg] else [] := by
  rcases handle_cases h with ⟨htype, -, rfl⟩ | ⟨htype, -, -, i, -, -, rfl⟩ |
    ⟨-, hbody, i, -, -, rfl⟩ | ⟨-, hbody, -, -, rfl⟩ | ⟨htype, hbody, -, rfl⟩
  · exact (if_neg fun hh => hh.1 htype).symm
  · exact (if_neg fun hh => hh.1 htype).symm
  · exact (if_neg fun hh => hh.2.1 hbody).symm
  · exact (if_neg fun hh => hh.2.1 hbody).symm
  · split_ifs with hears
    · obtain ⟨-, -, i, hi, hname⟩ := hears
      exact relay_hears hs hi hname
    · refine relay_not_hears fun i hi => ?_
      by_contra hname
      exact hears ⟨htype, hbody, i, hi, hname⟩

/-- What is on its way to the client of queue `q`. -/
def underway (q : ℕ) (c : Chat P) : List Message := c.queue q ++ callsTo q c.sending

/-- What the server makes of a message for queue `q`. -/
def heard (q : ℕ) (c : Chat P) (a : Action P) : List Message :=
  ((handles c a).filter fun x => Hears q x.1 x.2).map fun x => asText x.2

/-- One step moves what is underway by what the server makes of a message and what the
client reads. -/
theorem underway_moves (hc : Kept c) (q : ℕ) {a : Action P} (h : next ids c a = some d) :
    Moves (underway q c) (heard q c a) (reads q c a) (underway q d) := by
  cases does_of_next h with
  | move _ p pc _ _ hhandles hreads =>
      rw [heard, hhandles, hreads]
      exact Moves.refl _
  | post _ p pc msg _ _ _ hhandles hreads =>
      rw [heard, hhandles, hreads]
      exact Moves.refl _
  | take opened msg rest s sends hsending hmail hhandle =>
      have hheard : heard q c (.server opened) = callsTo q sends := by
        rw [callsTo_handle hc.members hhandle]
        simp only [heard, handles, hmail, List.take_succ_cons, List.take_zero, List.map_cons,
          List.map_nil, List.filter_cons, List.filter_nil, decide_eq_true_eq]
        split_ifs <;> rfl
      rw [hheard, underway, hsending]
      simp [underway, Moves, callsTo, reads]
  | send q' msg rest hsending _ =>
      -- the message only moves from the calls to the queue
      by_cases hq : q' = (q : ℤ)
      · subst hq
        simp [underway, Moves, callsTo, heard, handles, reads, hsending]
      · have hq' : (q : ℤ) ≠ q' := fun heq => hq heq.symm
        simp [underway, Moves, callsTo, heard, handles, reads, hsending, hq,
          Function.update_of_ne hq']
  | receive p q' msg rest pc hp hqueue _ =>
      by_cases hq : q' = q
      · subst hq
        simp [underway, Moves, heard, handles, reads, hp, hqueue]
      · have hne : (q : ℤ) ≠ (q' : ℤ) := fun heq => hq (Int.ofNat_inj.mp heq).symm
        simp [underway, Moves, heard, handles, reads, hp, hne.symm, Function.update_of_ne hne]

/-- One step moves the main queue by what is posted and what the server takes. -/
theorem mailbox_moves {a : Action P} (h : next ids c a = some d) :
    Moves c.world.mailbox (posts ids c a) ((handles c a).map Prod.snd) d.world.mailbox := by
  cases does_of_next h with
  | move _ p pc _ hposts hhandles _ =>
      rw [hposts, hhandles]
      exact Moves.refl _
  | post _ p pc msg _ _ hposts hhandles _ =>
      rw [hposts, hhandles]
      exact Moves.put _ _
  | take opened msg rest s sends _ hmail _ => simp [Moves, posts, handles, hmail]
  | send => exact Moves.refl _
  | receive => exact Moves.refl _

theorem run_kept {tr : List (Chat P × Action P)} (h : (chat found ids).Run tr c) : Kept c :=
  h.invariant (I := fun _ c => Kept c) (kept_start found ids) fun _ _ _ _ hc hn => hc.next hn

omit [DecidableEq P] in
theorem observe_heard (q : ℕ) (tr : List (Chat P × Action P)) :
    observe (heard q) tr =
      ((observe handles tr).filter fun x => Hears q x.1 x.2).map fun x => asText x.2 := by
  induction tr using List.reverseRecOn with
  | nil => rfl
  | append_singleton tr x ih =>
      obtain ⟨c, a⟩ := x
      rw [observe_snoc, observe_snoc, ih, List.filter_append, List.map_append]
      rfl

/-- **One order for everybody**: the messages the server has handled and those that wait
in the main queue are all that were posted, in the order in which they were posted. And
what the client of any queue has read, with what is in its queue or still to be sent to
it, is in this order each text handled while the queue was in the table, but for those
of its own name, and each once. -/
theorem texts_in_one_order {tr : List (Chat P × Action P)} (h : (chat found ids).Run tr c) :
    (observe handles tr).map Prod.snd ++ c.world.mailbox = observe (posts ids) tr ∧
    ∀ q : ℕ, found.queues.fresh ≤ q →
      observe (reads q) tr ++ underway q c =
        ((observe handles tr).filter fun x => Hears q x.1 x.2).map fun x => asText x.2 := by
  constructor
  · obtain ⟨-, hmain⟩ := h.moves (fun c => c.world.mailbox) (posts ids)
      (fun c a => (handles c a).map Prod.snd) (I := fun _ => True) trivial
      fun _ _ _ _ hn => ⟨trivial, mailbox_moves hn⟩
    have hmap : observe (fun c a => (handles c a).map Prod.snd) tr =
        (observe handles tr).map Prod.snd := (List.map_flatMap ..).symm
    rw [← hmap]
    exact hmain.symm
  · intro q hq
    obtain ⟨-, hqueue⟩ := h.moves (underway q) (heard q) (reads q) (kept_start found ids)
      fun _ _ _ hc hn => ⟨hc.next hn, underway_moves hc q hn⟩
    have hempty : underway q (chat found ids).init = [] := by
      show found.queue q ++ [] = []
      rw [found.new q hq, List.append_nil]
    rw [← observe_heard]
    rw [hempty] at hqueue
    exact hqueue.symm

def nothingFound : Found where
  toLeftover := Exclusive.noLeftover
  queue _ := []
  room _ := Nat.zero_le _
  new _ _ := rfl

/-- Two clients, "b" and "c". -/
def twoIds (second : Bool) : Identifier where
  bytes := [if second then 99 else 98]
  noNul := by revert second; decide
  noSlash := by revert second; decide
  fits := Nat.le_add_left 1 19

/-- Both clients join, the first one greets, and the second one reads it. -/
def greetingSchedule : List (Action Bool) :=
  [.client false true, .client false true, .server true, .client false true,
    .client true true, .client true true, .server true, .client true true,
    .text false 0 Fields.hiLine, .server true, .send, .receive true]

theorem texts_in_one_order_greeting : ∃ tr c, (chat nothingFound twoIds).Run tr c ∧
    (observe (reads 1) tr).map Message.msgBody = [[104, 105]] ∧
    (observe handles tr).map Prod.snd ++ c.world.mailbox = observe (posts twoIds) tr ∧
    observe (reads 1) tr ++ underway 1 c =
      ((observe handles tr).filter fun x => Hears 1 x.1 x.2).map fun x => asText x.2 := by
  have h := (chat nothingFound twoIds).run_of_replay greetingSchedule rfl
  obtain ⟨hmain, hqueue⟩ := texts_in_one_order h
  exact ⟨_, _, h, rfl, hmain, hqueue 1 (Nat.zero_le _)⟩

end Sysopy.QueueChat.Conversation
