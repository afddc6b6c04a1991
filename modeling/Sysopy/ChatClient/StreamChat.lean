import Sysopy.ChatClient.Buffer
import Sysopy.ChatClient.Incoming
import Sysopy.ChatClient.Typed
import Sysopy.Foundation.Pieces

/-!
# The stream chat

Any number of clients with their two threads, the server with its table and its loop, and
between them the connections. A connection keeps the order of its bytes and nothing else:
each call of `recv` returns as many of them as the environment likes, up to the size of the
buffer. So a client may print less than a message, but never more than one, and never
something of two.

What a client sends before the server has accepted its connection waits for that. The
server closes no connection, so that a descriptor never stands for two of them. A client
that is gone kills the server when that sends on to it; the clients go on.

## Sections

* §1 the system
* §2 pieces of what was typed
* §3 every step
* §4 what is shown was typed by another client
-/

namespace Sysopy.ChatClient.StreamChat

open Sysopy.Foundation
open StreamServer (Server Listeners Table)

/-! ## §1  The system -/

/-- The sockets of the server, the arguments of the clients, and what the memory of their
cells holds. -/
structure Setup (n : ℕ) where
  listeners : Listeners
  myId : Fin n → Message
  messages : Fin n → ℕ → Message

structure Chat (n : ℕ) where
  server : Server
  client : Fin n → Client
  /-- the descriptor that the server has for the connection, once it has accepted it -/
  fd : Fin n → Option ℤ
  /-- the bytes on their way to the server -/
  toServer : Fin n → List Byte
  /-- the bytes on their way to the client -/
  toClient : Fin n → List Byte

/-- A step of a client or of the server; the server receives `k` bytes of a client, and cannot
send them on to the clients in `broken`, or a client receives `k` bytes of the server. -/
inductive Step (n : ℕ) where
  | client (i : Fin n) (a : Action)
  | select (ready : Finset ℤ)
  | skip
  | accept (i : Fin n) (newfd : ℤ)
  | recv (i : Fin n) (k : ℕ) (broken : Finset ℤ)
  | hangup (garbled : Finset ℤ)
  | receive (j : Fin n) (k : ℕ)

variable {n : ℕ}

/-- The bytes of the calls of `send` on this descriptor. -/
def meantFor (fd : Option ℤ) (sends : List StreamServer.Send) : List Byte :=
  (sends.filterMap fun x => if some x.dest = fd then x.payload else none).flatten

namespace Chat

def clientStep (c : Setup n) (s : Chat n) (i : Fin n) (a : Action) : Option (Chat n) :=
  ((s.client i).next (c.myId i) a).map fun x => { s with
    client := Function.update s.client i x
    toServer := Function.update s.toServer i (s.toServer i ++ wire 0 ((s.client i).sent a)) }

def serverStep (c : Setup n) (s : Chat n) (a : StreamServer.Action) : Option (Chat n) :=
  (s.server.next c.listeners a).map fun x => { s with server := x }

/-- `accept` returns the connection of a client. -/
def accept (c : Setup n) (s : Chat n) (i : Fin n) (newfd : ℤ) : Option (Chat n) :=
  if s.fd i = none then
    (s.server.next c.listeners (.accept newfd)).map fun x => { s with
      server := x
      fd := Function.update s.fd i (some newfd) }
  else none

/-- The slot that is visited is that of the client, and its chunk is sent on. -/
def recv (c : Setup n) (s : Chat n) (i : Fin n) (k : ℕ) (broken : Finset ℤ) :
    Option (Chat n) :=
  let chunk := (s.toServer i).take k
  if s.server.visited.map s.server.sockets = s.fd i then
    (s.server.next c.listeners (.recv chunk broken)).map fun x => { s with
      server := x
      toServer := Function.update s.toServer i ((s.toServer i).drop k)
      toClient := fun j => s.toClient j ++
        meantFor (s.fd j) (s.server.sends c.listeners (.recv chunk broken)) }
  else none

/-- `recv` of a client, which prints the chunk. -/
def receive (s : Chat n) (j : Fin n) (k : ℕ) : Option (Chat n) :=
  let chunk := (s.toClient j).take k
  if 1 ≤ chunk.length ∧ chunk.length ≤ bufSize then
    some { s with toClient := Function.update s.toClient j ((s.toClient j).drop k) }
  else none

def next (c : Setup n) (s : Chat n) : Step n → Option (Chat n)
  | .client i a => s.clientStep c i a
  | .select ready => s.serverStep c (.select ready)
  | .skip => s.serverStep c .skip
  | .accept i newfd => s.accept c i newfd
  | .recv i k broken => s.recv c i k broken
  | .hangup garbled => s.serverStep c (.hangup garbled)
  | .receive j k => s.receive j k

end Chat

/-- The chat when every client has called `connect`. -/
def chat (c : Setup n) : System (Chat n) (Step n) where
  init :=
    { server := (StreamServer.server c.listeners).init
      client := fun i => (client (c.myId i) (c.messages i)).init
      fd := fun _ => none
      toServer := fun _ => []
      toClient := fun _ => [] }
  next := Chat.next c

/-- What the server passes to `send`, `none` when `strlen` leaves `buf`. -/
def sentOn (c : Setup n) (s : Chat n) : Step n → List (Option (List Byte))
  | .recv i k broken =>
      (s.server.sends c.listeners (.recv ((s.toServer i).take k) broken)).map
        StreamServer.Send.payload
  | _ => []

/-- What a client prints, `none` when `printf` leaves `buf`. -/
def shown : Chat n → Step n → List (Fin n × Option (List Byte))
  | s, .receive j k => [(j, printReceived ((s.toClient j).take k))]
  | _, _ => []

def typedAt (c : Setup n) (i : Fin n) (s : Chat n) : Step n → List Message
  | .client j a => if j = i then typed (c.myId j) (s.client j) a else []
  | _ => []

/-- The line that is typed, if one is, is a string that the buffers have room for. -/
def Step.Fits (c : Setup n) : Step n → Prop
  | .client i (.getline line) => 0 ∉ line ∧ ChatClient.Fits (c.myId i) line
  | _ => True

instance (c : Setup n) (a : Step n) : Decidable (a.Fits c) :=
  match a with
  | .client _ (.getline line) => inferInstanceAs (Decidable (0 ∉ line ∧ _ ≤ _))
  | .client _ .stdin | .client _ .signal | .client _ .handler | .select _ | .skip | .accept ..
  | .recv .. | .hangup _ | .receive .. => inferInstanceAs (Decidable True)

/-! ## §2  Pieces of what was typed -/

variable {c : Setup n} {tr : List (Chat n × Step n)} {s t : Chat n} {i j : Fin n} {w : Message}

/-- A piece of a message that was typed at the client; a cleared message is an empty one. -/
def PieceOf (c : Setup n) (tr : List (Chat n × Step n)) (i : Fin n) (w : Message) : Prop :=
  w = [] ∨ ∃ m ∈ observe (typedAt c i) tr, w <:+: m

/-- A piece of a message that was typed at another client. -/
def FromOther (c : Setup n) (tr : List (Chat n × Step n)) (j : Fin n) (w : Message) : Prop :=
  w = [] ∨ ∃ i, i ≠ j ∧ ∃ m ∈ observe (typedAt c i) tr, w <:+: m

theorem PieceOf.part {w' : Message} (h : PieceOf c tr i w) (hw : w' <:+: w) :
    PieceOf c tr i w' := by
  rcases h with rfl | ⟨m, hm, hpiece⟩
  · exact Or.inl (List.infix_nil.mp hw)
  · exact Or.inr ⟨m, hm, hw.trans hpiece⟩

theorem PieceOf.fromOther (h : PieceOf c tr i w) (hij : i ≠ j) : FromOther c tr j w :=
  h.imp_right fun hm => ⟨i, hij, hm⟩

theorem PieceOf.snoc (h : PieceOf c tr i w) (x : Chat n × Step n) :
    PieceOf c (tr ++ [x]) i w := by
  refine h.imp_right ?_
  rintro ⟨m, hm, hpiece⟩
  refine ⟨m, ?_, hpiece⟩
  rw [observe_snoc]
  exact List.mem_append_left _ hm

theorem FromOther.snoc (h : FromOther c tr j w) (x : Chat n × Step n) :
    FromOther c (tr ++ [x]) j w := by
  refine h.imp_right ?_
  rintro ⟨i, hij, m, hm, hpiece⟩
  refine ⟨i, hij, m, ?_, hpiece⟩
  rw [observe_snoc]
  exact List.mem_append_left _ hm

/-- The messages typed so far fit into the buffers with their NULs. -/
def MessagesFit (c : Setup n) (tr : List (Chat n × Step n)) : Prop :=
  ∀ i, ∀ m ∈ observe (typedAt c i) tr, m.length < bufSize

theorem PieceOf.length_lt (hfit : MessagesFit c tr) (h : PieceOf c tr i w) :
    w.length < bufSize := by
  rcases h with rfl | ⟨m, hm, hpiece⟩
  · decide
  · exact Nat.lt_of_le_of_lt hpiece.length_le (hfit i m hm)

theorem FromOther.length_lt (hfit : MessagesFit c tr) (h : FromOther c tr j w) :
    w.length < bufSize := by
  rcases h with rfl | ⟨i, -, hm⟩
  · decide
  · exact PieceOf.length_lt hfit (Or.inr hm)

/-- A chunk of a stream of short messages leaves a string in the buffer. -/
theorem zero_mem_chunk {P : Message → Prop} {bs : List Byte} (hbs : Pieces 0 P bs)
    (hP : ∀ w, P w → w.length < bufSize) (k : ℕ) : 0 ∈ zeroPadded bufSize (bs.take k) := by
  rw [zero_mem_zeroPadded]
  rcases Nat.lt_or_ge (bs.take k).length bufSize with hlength | hlength
  · exact Or.inl hlength
  · exact Or.inr (hbs.mem_take hP hlength)

/-! ## §3  Every step -/

theorem pieces_update {P : Fin n → Message → Prop} {f : Fin n → List Byte} {bs : List Byte}
    (hbs : Pieces 0 (P i) bs) (h : ∀ k, Pieces 0 (P k) (f k)) :
    ∀ k, Pieces 0 (P k) (Function.update f i bs k) :=
  (Function.forall_update_iff f fun k bs => Pieces 0 (P k) bs).mpr ⟨hbs, fun k _ => h k⟩

structure Passes (c : Setup n) (tr : List (Chat n × Step n)) (s : Chat n) : Prop where
  table : Table c.listeners s.server
  client : ∀ i, ∃ tr', (ChatClient.client (c.myId i) (c.messages i)).Run tr' (s.client i) ∧
    observe (typed (c.myId i)) tr' = observe (typedAt c i) tr
  fit : MessagesFit c tr
  toServer : ∀ i, Pieces 0 (PieceOf c tr i) (s.toServer i)
  toClient : ∀ j, Pieces 0 (FromOther c tr j) (s.toClient j)
  sentOn : none ∉ observe (sentOn c) tr
  shown : ∀ x ∈ observe shown tr, ∃ w, x.2 = some (w ++ [10]) ∧ FromOther c tr x.1 w

theorem Passes.quiet (hs : Passes c tr s) {a : Step n} (htyped : ∀ i, typedAt c i s a = [])
    (htable : Table c.listeners t.server) (hclient : t.client = s.client)
    (htoServer : ∀ i, Pieces 0 (PieceOf c tr i) (t.toServer i))
    (htoClient : ∀ j, Pieces 0 (FromOther c tr j) (t.toClient j))
    (hsentOn : none ∉ StreamChat.sentOn c s a)
    (hshown : ∀ x ∈ StreamChat.shown s a, ∃ w, x.2 = some (w ++ [10]) ∧ FromOther c tr x.1 w) :
    Passes c (tr ++ [(s, a)]) t where
  table := htable
  client i := by
    rw [observe_snoc, htyped, List.append_nil, hclient]
    exact hs.client i
  fit i m hm := by
    rw [observe_snoc, htyped, List.append_nil] at hm
    exact hs.fit i m hm
  toServer i := (htoServer i).mono fun _ h => h.snoc _
  toClient j := (htoClient j).mono fun _ h => h.snoc _
  sentOn := by
    rw [observe_snoc, List.mem_append, not_or]
    exact ⟨hs.sentOn, hsentOn⟩
  shown x hx := by
    rw [observe_snoc, List.mem_append] at hx
    obtain ⟨w, hw, hpiece⟩ := hx.elim (hs.shown x) (hshown x)
    exact ⟨w, hw, hpiece.snoc _⟩

theorem Passes.serverStep (hs : Passes c tr s) {a : Step n} {b : StreamServer.Action}
    (htyped : ∀ i, typedAt c i s a = []) (hsentOn : StreamChat.sentOn c s a = [])
    (hshown : StreamChat.shown s a = []) (hn : s.serverStep c b = some t) :
    Passes c (tr ++ [(s, a)]) t := by
  obtain ⟨x, hx, rfl⟩ := Option.map_eq_some_iff.mp hn
  refine hs.quiet htyped (hs.table.step hx) rfl hs.toServer hs.toClient ?_ ?_
  · rw [hsentOn]
    exact List.not_mem_nil
  · rw [hshown]
    exact fun x hx => absurd hx List.not_mem_nil

theorem Passes.accept (hs : Passes c tr s) {newfd : ℤ} (hn : s.accept c i newfd = some t) :
    Passes c (tr ++ [(s, .accept i newfd)]) t := by
  obtain ⟨-, hn⟩ := Option.ite_none_right_eq_some.mp hn
  obtain ⟨x, hx, rfl⟩ := Option.map_eq_some_iff.mp hn
  exact hs.quiet (fun _ => rfl) (hs.table.step hx) rfl hs.toServer hs.toClient List.not_mem_nil
    fun x hx => absurd hx List.not_mem_nil

theorem typedAt_client_self (s : Chat n) (a : Action) :
    typedAt c i s (.client i a) = typed (c.myId i) (s.client i) a :=
  if_pos rfl

theorem typedAt_client_of_ne (h : j ≠ i) (s : Chat n) (a : Action) :
    typedAt c j s (.client i a) = [] :=
  if_neg h.symm

theorem length_of_typed {a : Action} (hfits : (Step.client i a).Fits c) {x : Client}
    {m : Message} (hm : m ∈ typed (c.myId i) x a) : m.length < bufSize := by
  cases a with
  | getline line =>
      obtain rfl := List.mem_singleton.mp hm
      exact (hfits.2.length_withHeader_lt hfits.1).trans (by decide)
  | _ => exact absurd hm List.not_mem_nil

theorem Passes.client_snoc (hs : Passes c tr s) {a : Action} {x : Client}
    (hx : (s.client i).next (c.myId i) a = some x) :
    ∃ tr', (ChatClient.client (c.myId i) (c.messages i)).Run (tr' ++ [(s.client i, a)]) x ∧
      observe (typed (c.myId i)) (tr' ++ [(s.client i, a)]) =
        observe (typedAt c i) (tr ++ [(s, .client i a)]) := by
  obtain ⟨tr', hrun, htyped⟩ := hs.client i
  refine ⟨tr', hrun.snoc hx, ?_⟩
  rw [observe_snoc, observe_snoc, htyped, typedAt_client_self]

/-- The handler sends what remains of the messages that were typed. -/
theorem Passes.sent_pieceOf (hs : Passes c tr s) {a : Action} {x : Client}
    (hx : (s.client i).next (c.myId i) a = some x) {m : Message} (hm : m ∈ (s.client i).sent a) :
    PieceOf c (tr ++ [(s, .client i a)]) i m := by
  obtain ⟨tr', hrun, htyped⟩ := hs.client_snoc hx
  have hsent : m ∈ observe Client.sent (tr' ++ [(s.client i, a)]) := by
    rw [observe_snoc]
    exact List.mem_append_right _ hm
  have hremains := (run_carried hrun).remains
  rw [List.append_assoc, htyped] at hremains
  exact (hremains.mem (List.mem_append_left _ hsent)).imp_right
    fun hmem => ⟨m, hmem, List.infix_refl m⟩

theorem Passes.clientStep (hs : Passes c tr s) {a : Action} (hfits : (Step.client i a).Fits c)
    (hn : s.clientStep c i a = some t) : Passes c (tr ++ [(s, .client i a)]) t := by
  obtain ⟨x, hx, rfl⟩ := Option.map_eq_some_iff.mp hn
  refine ⟨hs.table, ?_, fun k m hm => ?_, ?_, fun k => ?_, ?_, fun y hy => ?_⟩
  · refine (Function.forall_update_iff s.client fun k y =>
      ∃ tr', (ChatClient.client (c.myId k) (c.messages k)).Run tr' y ∧
        observe (typed (c.myId k)) tr' =
          observe (typedAt c k) (tr ++ [(s, .client i a)])).mpr ⟨?_, fun k hk => ?_⟩
    · obtain ⟨tr', hrun, htyped⟩ := hs.client_snoc hx
      exact ⟨_, hrun, htyped⟩
    · obtain ⟨tr', hrun, htyped⟩ := hs.client k
      refine ⟨tr', hrun, ?_⟩
      rw [observe_snoc, typedAt_client_of_ne hk, List.append_nil, htyped]
  · rw [observe_snoc, List.mem_append] at hm
    rcases hm with hm | hm
    · exact hs.fit k m hm
    · by_cases hk : k = i
      · subst hk
        rw [typedAt_client_self] at hm
        exact length_of_typed hfits hm
      · rw [typedAt_client_of_ne hk] at hm
        exact absurd hm List.not_mem_nil
  · have hlater : ∀ k, Pieces 0 (PieceOf c (tr ++ [(s, .client i a)]) k) (s.toServer k) :=
      fun k => (hs.toServer k).mono fun _ h => h.snoc _
    refine pieces_update ((hlater i).append_flatten fun p hp => ?_) hlater
    obtain ⟨m, hm, rfl⟩ := List.mem_map.mp hp
    exact ⟨m, rfl, fun w hw => (hs.sent_pieceOf hx hm).part hw⟩
  · exact (hs.toClient k).mono fun _ h => h.snoc _
  · rw [observe_snoc]
    simpa [StreamChat.sentOn] using hs.sentOn
  · rw [observe_snoc] at hy
    obtain ⟨w, hw, hpiece⟩ := hs.shown y (by simpa [StreamChat.shown] using hy)
    exact ⟨w, hw, hpiece.snoc _⟩

/-- The server sends on the piece at the beginning of the chunk, and not to the slot that it
comes from. -/
theorem send_of_recv {sv : Server} {L : Listeners} (ht : Table L sv) {chunk : List Byte}
    (hz : 0 ∈ zeroPadded bufSize chunk) {broken : Finset ℤ} {x : StreamServer.Send}
    (hx : x ∈ sv.sends L (.recv chunk broken)) :
    some x.dest ≠ sv.visited.map sv.sockets ∧
      x.payload = some (terminated 0 (beforeTerminator 0 chunk)) := by
  refine ⟨?_, ?_⟩
  · unfold StreamServer.Server.sends at hx
    cases hv : sv.visited with
    | none => exact Option.some_ne_none _
    | some k =>
        simp only [hv] at hx
        obtain ⟨l, ⟨hl, hne, -⟩, rfl⟩ :=
          StreamServer.mem_forward.mp ((List.takeWhile_sublist _).subset hx)
        intro heq
        exact hl (ht.injective l k hne (Option.some.inj heq))
  · rw [payload_of_mem_sends hx, StreamServer.relay,
      stringBytes_of_mem (show 0 ∈ zeroPadded StreamServer.bufSize chunk from hz),
      beforeTerminator_zeroPadded]

theorem Passes.recv (hs : Passes c tr s) {k : ℕ} {broken : Finset ℤ}
    (hn : s.recv c i k broken = some t) : Passes c (tr ++ [(s, .recv i k broken)]) t := by
  obtain ⟨hfd, hn⟩ := Option.ite_none_right_eq_some.mp hn
  obtain ⟨x, hx, rfl⟩ := Option.map_eq_some_iff.mp hn
  have hstream := hs.toServer i
  have hz := zero_mem_chunk hstream (fun _ h => h.length_lt hs.fit) k
  have hpiece := hstream.beforeTerminator_take k
  refine hs.quiet (fun _ => rfl) (hs.table.step hx) rfl (pieces_update (hstream.drop k) hs.toServer)
    (fun j => ?_) ?_ fun x hx => absurd hx List.not_mem_nil
  · refine (hs.toClient j).append_flatten fun p hp => ?_
    obtain ⟨y, hy, hsome⟩ := List.mem_filterMap.mp hp
    obtain ⟨hdest, hpayload⟩ := Option.ite_none_right_eq_some.mp hsome
    obtain ⟨hother, hbytes⟩ := send_of_recv hs.table hz hy
    rw [hfd, hdest] at hother
    have hij : i ≠ j := fun heq => hother (congrArg s.fd heq.symm)
    refine ⟨_, Option.some.inj (hpayload.symm.trans hbytes), fun w hw => ?_⟩
    exact (hpiece.part hw).fromOther hij
  · intro hnone
    obtain ⟨y, hy, hpayload⟩ := List.mem_map.mp hnone
    rw [(send_of_recv hs.table hz hy).2] at hpayload
    exact Option.some_ne_none _ hpayload

theorem Passes.receive (hs : Passes c tr s) {k : ℕ} (hn : s.receive j k = some t) :
    Passes c (tr ++ [(s, .receive j k)]) t := by
  obtain ⟨hlength, hn⟩ := Option.ite_none_right_eq_some.mp hn
  obtain rfl := Option.some.inj hn
  have hstream := hs.toClient j
  have hz := zero_mem_chunk hstream (fun _ h => h.length_lt hs.fit) k
  refine hs.quiet (fun _ => rfl) hs.table rfl hs.toServer
    (pieces_update (hstream.drop k) hs.toClient) List.not_mem_nil fun x hx => ?_
  obtain rfl := List.mem_singleton.mp hx
  exact ⟨_, printReceived_of_mem hlength.1 hz, hstream.beforeTerminator_take k⟩

theorem Passes.step (hs : Passes c tr s) {a : Step n} (hfits : a.Fits c)
    (hn : (chat c).next s a = some t) : Passes c (tr ++ [(s, a)]) t := by
  cases a with
  | client i a => exact hs.clientStep hfits hn
  | select ready => exact hs.serverStep (fun _ => rfl) rfl rfl hn
  | skip => exact hs.serverStep (fun _ => rfl) rfl rfl hn
  | accept i newfd => exact hs.accept hn
  | recv i k broken => exact hs.recv hn
  | hangup garbled => exact hs.serverStep (fun _ => rfl) rfl rfl hn
  | receive j k => exact hs.receive hn

/-! ## §4  What is shown was typed by another client -/

def twoClients : Setup 2 where
  listeners := StreamServer.exampleListeners
  myId i := if i.val = 0 then [97] else [98]
  messages _ _ := []

end Sysopy.ChatClient.StreamChat
