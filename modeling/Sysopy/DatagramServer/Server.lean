import Mathlib.Data.List.Infix
import Sysopy.DatagramServer.Table
import Sysopy.Foundation.CString
import Sysopy.Foundation.System

/-!
# The datagram chat server

The server answers one datagram after another, from the inet socket if it is
ready and else from the Unix socket. Either branch gives the sender a slot in
the table of its family and, unless the text is a registration, sends it to
the clients of both tables and frees the slots of the silent ones.

The environment chooses the datagram, its sender and every value of
`time(NULL)`. A failing call ends the server through `error`, so the steps are the
iterations in which no call fails; what is sent in an iteration before `sendto`
fails is part of `Server.serve`.

## Sections

* §1 datagrams
* §2 the branches of `main`
* §3 the system
* §4 no client twice
-/

namespace Sysopy.DatagramServer

open Sysopy.Foundation

/-! ## §1  Datagrams -/

def bufSize : ℕ := 350

/-- The fields of `struct sockaddr_in` that tell senders apart. -/
@[ext] structure SockaddrIn where
  sinPort : UInt16
  sAddr : UInt32
deriving DecidableEq

/-- `sun_path` of a `struct sockaddr_un` as `strcmp` reads it: the bytes before
the NUL with which the kernel ends a path. -/
abbrev Path := List Byte

def registerText : List Byte := [45, 45, 114, 101, 103, 105, 115, 116, 101, 114, 45, 45]

/-- `strstr(buf, "--register--") != NULL` -/
def isRegister (buf : List Byte) : Bool := registerText <:+: beforeTerminator 0 buf

/-- What `time(NULL)` returns while one datagram is handled: for the sender's
ping time, and for the two tables in each iteration of the forward loop. -/
structure Clock where
  ping : ℤ
  inet : Slot → ℤ
  unix : Slot → ℤ

/-- A call of `sendto`: the client and the `strlen(buf)+1` bytes, `none` when
`strlen` leaves the buffer. -/
structure Send where
  dest : SockaddrIn ⊕ Path
  payload : Option (List Byte)
deriving DecidableEq

/-! ## §2  The branches of `main` -/

/-- The forward loop over the slots that are left. `own` is the table of the
sender's family and `guard` the test that keeps the sender out of it. -/
def forwardLoop {α β : Type*} (guard : Slot → Bool) (ownNow otherNow : Slot → ℤ) :
    List Slot → Table α → Table β → (Table α × Table β) × List (α ⊕ β)
  | [], own, other => ((own, other), [])
  | i :: is, own, other =>
      let o := if guard i then own.visit i (ownNow i) else (own, [])
      let p := other.visit i (otherNow i)
      let r := forwardLoop guard ownNow otherNow is o.1 p.1
      (r.1, o.2.map Sum.inl ++ p.2.map Sum.inr ++ r.2)

/-- The forward loop of a text; a registration leaves it at once. -/
def forward {α β : Type*} (guard : Slot → Bool) (ownNow otherNow : Slot → ℤ)
    (buf : List Byte) (own : Table α) (other : Table β) :
    (Table α × Table β) × List (α ⊕ β) :=
  if isRegister buf then ((own, other), [])
  else forwardLoop guard ownNow otherNow (List.finRange maxClients) own other

/-- The two tables and `their_addr_un`. -/
structure Server where
  inet : Table SockaddrIn
  unix : Table Path
  theirAddrUn : Path

def inetBranch (s : Server) (sender : SockaddrIn) (buf : List Byte) (now : Clock) :
    Server × List Send :=
  let e := s.inet.enroll sender now.ping
  let r := forward (fun i => e.2 ≠ some i) now.inet now.unix buf e.1 s.unix
  ({ s with inet := r.1.1, unix := r.1.2 },
    r.2.map fun dest => { dest := dest, payload := stringBytes buf })

/-- The branch of the Unix socket. It differs in the guard: a sender without a
slot sends nothing to the clients of its own family. -/
def unixBranch (s : Server) (buf : List Byte) (now : Clock) : Server × List Send :=
  let e := s.unix.enroll s.theirAddrUn now.ping
  let r := forward (fun i => e.2 ≠ none ∧ e.2 ≠ some i) now.unix now.inet buf e.1 s.inet
  ({ s with inet := r.1.2, unix := r.1.1 },
    r.2.map fun dest => { dest := dest.swap, payload := stringBytes buf })

/-! ## §3  The system -/

/-- A datagram arrives. A Unix sender without a path leaves `their_addr_un` as
it is. -/
inductive Action where
  | inet (sender : SockaddrIn) (data : List Byte) (now : Clock)
  | unix (sender : Option Path) (data : List Byte) (now : Clock)

/-- One iteration of the main loop in which no call fails: the new tables and the
calls of `sendto`. -/
def Server.handle (s : Server) : Action → Server × List Send
  | .inet sender data now => inetBranch s sender (zeroPadded bufSize data) now
  | .unix sender data now =>
      let s := { s with theirAddrUn := sender.getD s.theirAddrUn }
      unixBranch s (zeroPadded bufSize data) now

/-- One iteration, with the addresses that `sendto` fails for: at the first of them
`error` ends the server, in the middle of the loop. -/
def Server.serve (s : Server) (a : Action) (refused : SockaddrIn ⊕ Path → Bool) :
    Option Server × List Send :=
  let r := s.handle a
  (if r.2.any fun x => refused x.dest then none else some r.1,
    r.2.takeWhile fun x => !refused x.dest)

/-- `recvfrom` puts at most 350 bytes into `buf`. -/
def Action.data : Action → List Byte
  | .inet _ data _ => data
  | .unix _ data _ => data

/-- The server with free tables; `their_addr_un` is not initialised. -/
def server (theirAddrUn : Path) : System Server Action where
  init :=
    { inet := Table.empty ⟨0, 0⟩
      unix := Table.empty []
      theirAddrUn := theirAddrUn }
  next s a := if a.data.length ≤ bufSize then some (s.handle a).1 else none

/-! ## §4  No client twice -/

theorem forwardLoop_unique {α β : Type*} (guard : Slot → Bool) (ownNow otherNow : Slot → ℤ)
    (slots : List Slot) {own : Table α} {other : Table β} (hown : own.Unique)
    (hother : other.Unique) :
    (forwardLoop guard ownNow otherNow slots own other).1.1.Unique ∧
    (forwardLoop guard ownNow otherNow slots own other).1.2.Unique := by
  induction slots generalizing own other with
  | nil => exact ⟨hown, hother⟩
  | cons i is ih =>
      apply ih
      · split_ifs
        · exact hown.visit i _
        · exact hown
      · exact hother.visit i _

theorem forward_unique {α β : Type*} (guard : Slot → Bool) (ownNow otherNow : Slot → ℤ)
    (buf : List Byte) {own : Table α} {other : Table β} (hown : own.Unique)
    (hother : other.Unique) :
    (forward guard ownNow otherNow buf own other).1.1.Unique ∧
    (forward guard ownNow otherNow buf own other).1.2.Unique := by
  unfold forward
  split_ifs
  · exact ⟨hown, hother⟩
  · exact forwardLoop_unique guard ownNow otherNow _ hown hother

theorem handle_unique {s : Server} (hinet : s.inet.Unique) (hunix : s.unix.Unique)
    (a : Action) : (s.handle a).1.inet.Unique ∧ (s.handle a).1.unix.Unique := by
  cases a with
  | inet sender data now => exact forward_unique _ _ _ _ (hinet.enroll sender _) hunix
  | unix sender data now =>
      exact (forward_unique _ _ _ _ (hunix.enroll _ _) hinet).symm

theorem run_unique {theirAddrUn : Path} {tr : List (Server × Action)} {s : Server}
    (h : (server theirAddrUn).Run tr s) : s.inet.Unique ∧ s.unix.Unique := by
  refine h.invariant (I := fun _ s => s.inet.Unique ∧ s.unix.Unique) ?_ ?_
  · exact ⟨Table.unique_empty _, Table.unique_empty _⟩
  · rintro tr s a t ⟨hinet, hunix⟩ hn
    simp only [server, Option.ite_none_right_eq_some, Option.some.injEq] at hn
    obtain ⟨-, rfl⟩ := hn
    exact handle_unique hinet hunix a

/-- **The server never holds a client twice**: in every reachable state two
active slots of one table have different addresses. -/
theorem no_client_twice {theirAddrUn : Path} {tr : List (Server × Action)} {s : Server}
    (h : (server theirAddrUn).Run tr s) :
    (∀ i j, s.inet.Active i → s.inet.Active j →
      (s.inet.clients i).sinPort = (s.inet.clients j).sinPort →
      (s.inet.clients i).sAddr = (s.inet.clients j).sAddr → i = j) ∧
    (∀ i j, s.unix.Active i → s.unix.Active j →
      s.unix.clients i = s.unix.clients j → i = j) := by
  have hunique := run_unique h
  refine ⟨fun i j hi hj hport haddr => hunique.1 i j hi hj ?_, hunique.2⟩
  exact SockaddrIn.ext hport haddr

/-- A client registers and sends a text; both slots are its own. -/
theorem no_client_twice_text : ∃ tr s, (server []).Run tr s ∧
    s.inet.Active 0 ∧ ¬ s.inet.Active 1 ∧
    (∀ i j, s.inet.Active i → s.inet.Active j →
      (s.inet.clients i).sinPort = (s.inet.clients j).sinPort →
      (s.inet.clients i).sAddr = (s.inet.clients j).sAddr → i = j) ∧
    (∀ i j, s.unix.Active i → s.unix.Active j →
      s.unix.clients i = s.unix.clients j → i = j) := by
  have h := (server []).run_of_replay
    [.inet ⟨5000, 1⟩ registerText ⟨7, fun _ => 7, fun _ => 7⟩,
      .inet ⟨5000, 1⟩ [97] ⟨8, fun _ => 8, fun _ => 8⟩] rfl
  exact ⟨_, _, h, by decide, by decide, no_client_twice h⟩

end Sysopy.DatagramServer
