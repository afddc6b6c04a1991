import Sysopy.ChatClient.Buffer
import Sysopy.ChatClient.Incoming
import Sysopy.ChatClient.Typed
import Sysopy.DatagramServer.Heard

/-!
# The datagram chat

Any number of clients with their two threads, the server with its tables, and a network
between them that may lose, repeat and reorder datagrams. What a client prints has come a
long way: from the stdin thread of another client over its buffer and its handler, the
network, the tables of the server and the network again.

A datagram is delivered as often as the environment likes once it has been sent. A call of
the server's `sendto` that fails, because a client is gone, is the end of the server; the
clients go on. The registrations are on their way at the start. A client keeps its
address, and the name of its author stands beside each datagram but is not part of its
bytes.

## Sections

* §1 the system
* §2 the server between the clients
* §3 what is shown was typed by another client
-/

namespace Sysopy.ChatClient

open Sysopy.Foundation
open DatagramServer (Server Clock Address registerText)

/-! ## §1  The system -/

/-- The arguments of the clients, the addresses of their sockets, and what the memory of
the cells and of the server holds. -/
structure Setup (n : ℕ) where
  myId : Fin n → Message
  address : Fin n → Address
  messages : Fin n → ℕ → Message
  theirAddrUn : DatagramServer.Path

structure Datagram (n : ℕ) where
  author : Fin n
  payload : List Byte
deriving DecidableEq

/-- The server, `none` after its end, the clients, and all that has been sent so far. -/
structure Chat (n : ℕ) where
  server : Option Server
  client : Fin n → Client
  toServer : List (Datagram n)
  toClient : Fin n → List (Datagram n)

/-- A step of a client; a datagram arrives at the server, whose `sendto` fails for some
addresses; a client receives one. -/
inductive Step (n : ℕ) where
  | client (i : Fin n) (a : Action)
  | arrive (d : Datagram n) (now : Clock) (refused : Address → Bool)
  | receive (j : Fin n) (d : Datagram n)

/-- What the server makes of a datagram of this sender. -/
def arrival (data : List Byte) (now : Clock) : Address → DatagramServer.Action
  | .inl sender => .inet sender data now
  | .inr path => .unix (some path) data now

variable {n : ℕ}

/-- The datagrams among the calls of `sendto` that are meant for a client. -/
def meantFor (α : Address) (author : Fin n) (sends : List DatagramServer.Send) :
    List (Datagram n) :=
  sends.filterMap fun x => if x.dest = α then x.payload.map (Datagram.mk author) else none

namespace Chat

def clientStep (c : Setup n) (s : Chat n) (i : Fin n) (a : Action) : Option (Chat n) :=
  ((s.client i).next (c.myId i) a).map fun x => { s with
    client := Function.update s.client i x
    toServer := s.toServer ++ ((s.client i).sent a).map fun m => ⟨i, terminated 0 m⟩ }

/-- `recvfrom` takes up to 350 bytes of the datagram. -/
def arrive (c : Setup n) (s : Chat n) (d : Datagram n) (now : Clock) (refused : Address → Bool) :
    Option (Chat n) := do
  let server ← s.server
  if d ∈ s.toServer then
    let r := server.serve
      (arrival (d.payload.take DatagramServer.bufSize) now (c.address d.author)) refused
    some { s with
      server := r.1
      toClient := fun j => s.toClient j ++ meantFor (c.address j) d.author r.2 }
  else none

def next (c : Setup n) (s : Chat n) : Step n → Option (Chat n)
  | .client i a => s.clientStep c i a
  | .arrive d now refused => s.arrive c d now refused
  | .receive j d => if d ∈ s.toClient j then some s else none

end Chat

/-- The chat after every client has sent its registration. -/
def chat (c : Setup n) : System (Chat n) (Step n) where
  init :=
    { server := some (DatagramServer.server c.theirAddrUn).init
      client := fun i => (client (c.myId i) (c.messages i)).init
      toServer := (List.finRange n).map fun i => ⟨i, terminated 0 registerText⟩
      toClient := fun _ => [] }
  next := Chat.next c

/-- A line on the output of a client, with its author; `none` when `printf` leaves `buf`. -/
structure Shown (n : ℕ) where
  reader : Fin n
  author : Fin n
  text : Option (List Byte)

def shown : Chat n → Step n → List (Shown n)
  | _, .receive j d => [⟨j, d.author, printReceived (d.payload.take bufSize)⟩]
  | _, _ => []

def typedAt (i : Fin n) : Chat n → Step n → List Message
  | _, .client j (.getline line) => if j = i then [line] else []
  | _, _ => []

/-- The line that is typed, if one is, is a string that the buffers have room for. -/
def Step.Fits (c : Setup n) : Step n → Prop
  | .client i (.getline line) => 0 ∉ line ∧ ChatClient.Fits (c.myId i) line
  | _ => True

instance (c : Setup n) (a : Step n) : Decidable (a.Fits c) :=
  match a with
  | .client _ (.getline line) => inferInstanceAs (Decidable (0 ∉ line ∧ _ ≤ _))
  | .client _ .stdin | .client _ .signal | .client _ .handler | .arrive .. | .receive .. =>
      inferInstanceAs (Decidable True)

/-! ## §2  The server between the clients -/

section Server

variable {s : Server} {a : DatagramServer.Action}

@[simp] theorem data_arrival (data : List Byte) (now : Clock) (α : Address) :
    (arrival data now α).data = data := by
  cases α <;> rfl

@[simp] theorem sender_arrival (s : Server) (data : List Byte) (now : Clock) (α : Address) :
    s.sender (arrival data now α) = α := by
  cases α <;> rfl

/-- Nobody is sent the own text, with a slot or without. -/
theorem dest_ne_sender (h : s.inet.Unique ∧ s.unix.Unique) {x : DatagramServer.Send}
    (hx : x ∈ (s.handle a).2) : x.dest ≠ s.sender a := by
  rw [DatagramServer.Server.handle_snd] at hx
  obtain ⟨τ, hτ, rfl⟩ := List.mem_map.mp hx
  obtain ⟨hvisits, hrecent⟩ := DatagramServer.Server.mem_recipients.mp hτ
  intro heq
  have hid := DatagramServer.Server.senderId_of_client h hrecent.1 heq
  rw [DatagramServer.Server.visits_iff hid] at hvisits
  exact hvisits.2 rfl

end Server

/-! ## §3  What is shown was typed by another client -/

variable {c : Setup n} {tr : List (Chat n × Step n)} {s t : Chat n} {i j : Fin n} {m : Message}

theorem observe_snoc_quiet {β : Type*} {f : Chat n → Step n → List β} {a : Step n}
    (h : f s a = []) : observe f (tr ++ [(s, a)]) = observe f tr := by
  rw [observe_snoc, h, List.append_nil]

/-- The message of a line that was typed at the client, or what is left of one that was
cleared. -/
def TypedAt (c : Setup n) (tr : List (Chat n × Step n)) (i : Fin n) (m : Message) : Prop :=
  m = [] ∨ ∃ line ∈ observe (typedAt i) tr, m = withHeader (c.myId i) line

theorem TypedAt.snoc (h : TypedAt c tr i m) (x : Chat n × Step n) :
    TypedAt c (tr ++ [x]) i m := by
  refine h.imp_right ?_
  rintro ⟨line, hline, rfl⟩
  refine ⟨line, ?_, rfl⟩
  rw [observe_snoc]
  exact List.mem_append_left _ hline

def LinesFit (c : Setup n) (tr : List (Chat n × Step n)) : Prop :=
  ∀ i, ∀ line ∈ observe (typedAt i) tr, 0 ∉ line ∧ Fits (c.myId i) line

theorem printReceived_terminated (hnul : 0 ∉ m) :
    printReceived (terminated 0 m) = some (m ++ [10]) := by
  have hzero : (0 : Byte) ∈ terminated 0 m := List.mem_append_right m List.mem_cons_self
  rw [printReceived_of_mem (by simp [terminated]) (zero_mem_zeroPadded.mpr (Or.inr hzero)),
    terminated, beforeTerminator_append hnul]

theorem mem_meantFor {α : Address} {author : Fin n} {sends : List DatagramServer.Send}
    {d : Datagram n} (hd : d ∈ meantFor α author sends) :
    ∃ x ∈ sends, x.dest = α ∧ x.payload = some d.payload ∧ d.author = author := by
  obtain ⟨x, hx, hsome⟩ := List.mem_filterMap.mp hd
  rw [Option.ite_none_right_eq_some] at hsome
  obtain ⟨hdest, hmap⟩ := hsome
  obtain ⟨p, hp, rfl⟩ := Option.map_eq_some_iff.mp hmap
  exact ⟨x, hx, hdest, hp, rfl⟩

/-- What a client has sent is a string that every buffer on the way has room for. -/
theorem TypedAt.fits (hid : ∀ i, 0 ∉ c.myId i) (hlines : LinesFit c tr)
    (h : TypedAt c tr i m) : 0 ∉ m ∧ (terminated 0 m).length ≤ bufSize := by
  rcases h with rfl | ⟨line, hline, rfl⟩
  · exact ⟨List.not_mem_nil, by decide⟩
  · obtain ⟨hnul, hfits⟩ := hlines i line hline
    refine ⟨?_, ?_⟩
    · simp only [withHeader, List.mem_append, not_or]
      exact ⟨⟨hid i, by decide⟩, hnul⟩
    · rw [terminated, List.length_append, List.length_singleton]
      exact (hfits.length_withHeader_lt hnul).trans_le (by decide)

/-- The whole way of a message, and what has been shown at the end of it. -/
structure Passes (c : Setup n) (tr : List (Chat n × Step n)) (s : Chat n) : Prop where
  lines : LinesFit c tr
  server : ∀ server, s.server = some server →
    ∃ tr', (DatagramServer.server c.theirAddrUn).Run tr' server
  client : ∀ i, ∃ tr', (ChatClient.client (c.myId i) (c.messages i)).Run tr' (s.client i) ∧
    observe (typed (c.myId i)) tr' = (observe (typedAt i) tr).map (withHeader (c.myId i))
  toServer : ∀ d ∈ s.toServer, ∃ m, d.payload = terminated 0 m ∧
    (m = registerText ∨ TypedAt c tr d.author m)
  toClient : ∀ j, ∀ d ∈ s.toClient j, d.author ≠ j ∧ ∃ m, d.payload = terminated 0 m ∧
    TypedAt c tr d.author m
  shown : ∀ x ∈ observe shown tr, x.author ≠ x.reader ∧ ∃ m, x.text = some (m ++ [10]) ∧
    TypedAt c tr x.author m

theorem Passes.later (hs : Passes c tr s) (x : Chat n × Step n) :
    (∀ d ∈ s.toServer, ∃ m, d.payload = terminated 0 m ∧
      (m = registerText ∨ TypedAt c (tr ++ [x]) d.author m)) ∧
    (∀ j, ∀ d ∈ s.toClient j, d.author ≠ j ∧ ∃ m, d.payload = terminated 0 m ∧
      TypedAt c (tr ++ [x]) d.author m) ∧
    ∀ y ∈ observe ChatClient.shown tr, y.author ≠ y.reader ∧ ∃ m, y.text = some (m ++ [10]) ∧
      TypedAt c (tr ++ [x]) y.author m := by
  refine ⟨fun d hd => ?_, fun j d hd => ?_, fun y hy => ?_⟩
  · obtain ⟨m, hm, htext⟩ := hs.toServer d hd
    exact ⟨m, hm, htext.imp_right fun h => h.snoc x⟩
  · obtain ⟨hne, m, hm, htext⟩ := hs.toClient j d hd
    exact ⟨hne, m, hm, htext.snoc x⟩
  · obtain ⟨hne, m, hm, htext⟩ := hs.shown y hy
    exact ⟨hne, m, hm, htext.snoc x⟩

theorem typed_eq_map (i : Fin n) (myId : Message) (s : Chat n) (x : Client) (a : Action) :
    typed myId x a = (typedAt i s (.client i a)).map (withHeader myId) := by
  cases a with
  | getline line => simp [typed, typedAt]
  | _ => rfl

theorem mem_typedAt {a : Action} {line : Message} (h : line ∈ typedAt j s (.client i a)) :
    i = j ∧ a = .getline line := by
  cases a with
  | getline l =>
      simp only [typedAt, List.mem_ite_nil_right, List.mem_singleton] at h
      exact ⟨h.1, congrArg Action.getline h.2.symm⟩
  | _ => exact absurd h List.not_mem_nil

theorem typedAt_of_ne (h : j ≠ i) (a : Action) : typedAt j s (.client i a) = [] := by
  rw [List.eq_nil_iff_forall_not_mem]
  intro line hline
  exact h (mem_typedAt hline).1.symm

theorem Passes.clientStep (hs : Passes c tr s) {a : Action} (hfits : (Step.client i a).Fits c)
    (hn : s.clientStep c i a = some t) : Passes c (tr ++ [(s, .client i a)]) t := by
  obtain ⟨x, hx, rfl⟩ := Option.map_eq_some_iff.mp hn
  obtain ⟨tr', hrun, htyped⟩ := hs.client i
  have hrun' : (ChatClient.client (c.myId i) (c.messages i)).Run (tr' ++ [(s.client i, a)]) x :=
    hrun.snoc hx
  have htyped' : observe (typed (c.myId i)) (tr' ++ [(s.client i, a)]) =
      (observe (typedAt i) (tr ++ [(s, .client i a)])).map (withHeader (c.myId i)) := by
    rw [observe_snoc, observe_snoc, htyped, List.map_append, typed_eq_map]
  obtain ⟨hserver, hclient, hshown⟩ := hs.later (s, .client i a)
  refine ⟨fun k line hline => ?_, hs.server, fun k => ?_, fun d hd => ?_, hclient, ?_⟩
  · rw [observe_snoc] at hline
    rcases List.mem_append.mp hline with hline | hline
    · exact hs.lines k line hline
    · obtain ⟨rfl, rfl⟩ := mem_typedAt hline
      exact hfits
  · by_cases hk : k = i
    · subst hk
      refine ⟨_, ?_, htyped'⟩
      show (ChatClient.client _ _).Run _ (Function.update s.client k x k)
      rwa [Function.update_self]
    · obtain ⟨tr', hrun, htyped⟩ := hs.client k
      refine ⟨tr', ?_, ?_⟩
      · show (ChatClient.client _ _).Run _ (Function.update s.client i x k)
        rwa [Function.update_of_ne hk]
      · rw [observe_snoc, typedAt_of_ne hk, List.append_nil, htyped]
  · rcases List.mem_append.mp hd with hd | hd
    · exact hserver d hd
    · -- the handler sends what remains of the messages that were typed
      obtain ⟨m, hm, rfl⟩ := List.mem_map.mp hd
      refine ⟨m, rfl, Or.inr ?_⟩
      have hsent : m ∈ observe Client.sent (tr' ++ [(s.client i, a)]) := by
        rw [observe_snoc]
        exact List.mem_append_right _ hm
      have hremains := (run_carried hrun').remains
      rw [List.append_assoc, htyped'] at hremains
      refine (hremains.mem (List.mem_append_left _ hsent)).imp_right fun hmem => ?_
      obtain ⟨line, hline, rfl⟩ := List.mem_map.mp hmem
      exact ⟨line, hline, rfl⟩
  · rwa [observe_snoc_quiet rfl]

theorem Passes.arrive (hid : ∀ i, 0 ∉ c.myId i) (hs : Passes c tr s) {d : Datagram n}
    {now : Clock} {refused : Address → Bool} (hn : s.arrive c d now refused = some t) :
    Passes c (tr ++ [(s, .arrive d now refused)]) t := by
  obtain ⟨server, hserving, hn⟩ := Option.bind_eq_some_iff.mp hn
  obtain ⟨hd, hn⟩ := Option.ite_none_right_eq_some.mp hn
  obtain rfl := Option.some.inj hn
  obtain ⟨tr', hrun⟩ := hs.server server hserving
  obtain ⟨hserver, hclient, hshown⟩ := hs.later (s, .arrive d now refused)
  refine ⟨fun k => ?_, fun next hnext => ⟨_, hrun.snoc (a := arrival
      (d.payload.take DatagramServer.bufSize) now (c.address d.author)) ?_⟩, fun k => ?_, hserver,
    fun k e he => ?_, ?_⟩
  · rw [observe_snoc_quiet rfl]
    exact hs.lines k
  · obtain ⟨-, hnext⟩ := Option.ite_none_left_eq_some.mp hnext
    refine (if_pos ?_).trans hnext
    rw [data_arrival]
    exact List.length_take_le _ _
  · rw [observe_snoc_quiet rfl]
    exact hs.client k
  · rcases List.mem_append.mp he with he | he
    · exact hclient k e he
    · obtain ⟨x, hx, hdest, hpayload, hauthor⟩ := mem_meantFor he
      have hx := (List.takeWhile_sublist _).subset hx
      have hother := dest_ne_sender (DatagramServer.run_unique hrun) hx
      rw [sender_arrival, hdest] at hother
      refine ⟨fun heq => hother (by rw [← heq, hauthor]), ?_⟩
      obtain ⟨m, hm, hregister | htext⟩ := hs.toServer d hd
      · -- a registration is not sent on
        have hreg : DatagramServer.isRegister (arrival
            (d.payload.take DatagramServer.bufSize) now (c.address d.author)).data = true := by
          rw [data_arrival, hm, hregister]
          rfl
        rw [DatagramServer.Server.handle_snd_of_register hreg] at hx
        exact absurd hx List.not_mem_nil
      · obtain ⟨hnul, hlength⟩ := htext.fits hid hs.lines
        refine ⟨m, ?_, hauthor ▸ htext.snoc _⟩
        rw [DatagramServer.Server.handle_snd] at hx
        obtain ⟨τ, -, rfl⟩ := List.mem_map.mp hx
        have hdata : d.payload.take DatagramServer.bufSize = terminated 0 m :=
          hm.symm ▸ List.take_of_length_le hlength
        rw [data_arrival, hdata, stringBytes_zeroPadded_iff.mpr ⟨m, hnul, rfl⟩] at hpayload
        exact (Option.some.inj hpayload).symm
  · rwa [observe_snoc_quiet rfl]

theorem Passes.receive (hid : ∀ i, 0 ∉ c.myId i) (hs : Passes c tr s) {d : Datagram n}
    (hd : d ∈ s.toClient j) : Passes c (tr ++ [(s, .receive j d)]) s := by
  obtain ⟨hserver, hclient, hshown⟩ := hs.later (s, .receive j d)
  refine ⟨fun k => ?_, hs.server, fun k => ?_, hserver, hclient, fun y hy => ?_⟩
  · rw [observe_snoc_quiet rfl]
    exact hs.lines k
  · rw [observe_snoc_quiet rfl]
    exact hs.client k
  · rw [observe_snoc] at hy
    rcases List.mem_append.mp hy with hy | hy
    · exact hshown y hy
    · obtain rfl := List.mem_singleton.mp hy
      obtain ⟨hne, m, hm, htext⟩ := hs.toClient j d hd
      refine ⟨hne, m, ?_, htext.snoc _⟩
      obtain ⟨hnul, hlength⟩ := htext.fits hid hs.lines
      show printReceived (d.payload.take bufSize) = _
      rw [hm, List.take_of_length_le hlength, printReceived_terminated hnul]

def twoClients : Setup 2 where
  myId i := if i.val = 0 then [97] else [98]
  address i := .inl ⟨if i.val = 0 then 5000 else 5001, 1⟩
  messages _ _ := []
  theirAddrUn := []

end Sysopy.ChatClient
