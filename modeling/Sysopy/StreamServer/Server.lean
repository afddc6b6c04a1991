import Mathlib.Algebra.GroupWithZero.Nat
import Mathlib.Data.Finset.Basic
import Mathlib.Data.Fin.Basic
import Mathlib.Data.List.FinRange
import Sysopy.Foundation.CString
import Sysopy.Foundation.System

/-!
# The stream chat server

The select loop of the server over stream sockets: the table `sockets`, the
sets `orig` and `read_fd`, `maxfd` and the index of the inner loop are the
program's; the list of connections is the kernel's. Each step of the model is
one `select` or one iteration of the inner loop.

What the environment chooses is in the action: the descriptors that are ready,
the descriptor `accept` returns, the bytes or the failure that `recv` returns.
A failing `accept` or `select` ends the server through `error`, so it has no
step. A `send` to a client that has gone raises `SIGPIPE`, for which nothing is
installed: the server is killed in the middle of the forward loop. On the Unix
listener, which the loop does not leave out, `send` only fails. Descriptors are below
`FD_SETSIZE`, the usual limit on the open files of a process.

## Sections

* §1 descriptors and connections
* §2 the statements of the loop
* §3 the system
-/

namespace Sysopy.StreamServer

open Sysopy.Foundation

/-! ## §1  Descriptors and connections -/

def maxClients : ℕ := 15

def bufSize : ℕ := 350

def fdSetSize : ℤ := 1024

instance : NeZero maxClients := ⟨by decide⟩

abbrev Slot := Fin maxClients

/-- `inet_listening_socket` and `unix_listening_socket`, two open sockets. -/
structure Listeners where
  inet : ℤ
  unix : ℤ
  inet_nonneg : 0 ≤ inet
  unix_nonneg : 0 ≤ unix
  inet_lt : inet < fdSetSize
  unix_lt : unix < fdSetSize
  distinct : inet ≠ unix

/-- An accepted connection: its descriptor, whether `recv` has reported its end
or an error, and whether the descriptor has been closed. -/
structure Conn where
  fd : ℤ
  ended : Bool
  closed : Bool
deriving DecidableEq

/-- `close(fd)`: closes the open connection with that descriptor, if there is
one. -/
def closeFd (fd : ℤ) (conns : List Conn) : List Conn :=
  conns.map fun c => if c.fd = fd ∧ c.closed = false then { c with closed := true } else c

/-- `recv` on `fd` reports the end of the connection. -/
def endConn (fd : ℤ) (conns : List Conn) : List Conn :=
  conns.map fun c => if c.fd = fd ∧ c.closed = false then { c with ended := true } else c

/-- `FD_CLR(fd, set)`; outside `0 .. FD_SETSIZE - 1` its effect is undefined
and the set may become anything. -/
def fdClr (fd : ℤ) (set garbled : Finset ℤ) : Finset ℤ :=
  if 0 ≤ fd ∧ fd < fdSetSize then set.erase fd else garbled

/-! ## §2  The statements of the loop -/

/-- The variables of `main`, the connections, and whether `SIGPIPE` has killed the
server. `i` is the index of the inner loop, `maxClients` when `select` is next. -/
structure Server where
  sockets : Slot → ℤ
  orig : Finset ℤ
  readFd : Finset ℤ
  maxfd : ℤ
  i : ℕ
  conns : List Conn
  killed : Bool

/-- The slot of the current iteration, if its body runs:
`sockets[i] != -1 && FD_ISSET(sockets[i], &read_fd)`. -/
def Server.visited (s : Server) : Option Slot :=
  if h : s.i < maxClients then
    if s.sockets ⟨s.i, h⟩ ≠ -1 ∧ s.sockets ⟨s.i, h⟩ ∈ s.readFd then some ⟨s.i, h⟩ else none
  else none

/-- The first slot that holds -1. -/
def Server.emptySlot (s : Server) : Option Slot :=
  (List.finRange maxClients).find? fun j => s.sockets j = -1

variable (L : Listeners)

def isListener (fd : ℤ) : Bool := fd = L.inet || fd = L.unix

def findMax (sockets : Slot → ℤ) : ℤ :=
  (List.finRange maxClients).foldl
    (fun max j => if sockets j ≠ -1 ∧ sockets j > max then sockets j else max) L.inet

/-- The branch of a listening socket, after `accept` has returned `newfd`. -/
def acceptClient (s : Server) (newfd : ℤ) : Server :=
  match s.emptySlot with
  | some j =>
      { s with
        sockets := Function.update s.sockets j newfd
        maxfd := if newfd > s.maxfd then newfd else s.maxfd
        orig := insert newfd s.orig
        conns := s.conns ++ [{ fd := newfd, ended := false, closed := false }] }
  | none =>
      -- "Cannot accept more clients"
      { s with conns := s.conns ++ [{ fd := newfd, ended := false, closed := false }] }

/-- The branch `nbytes <= 0`: the slot is reset first, so `close` and `FD_CLR`
get -1. -/
def dropClient (s : Server) (i : Slot) (garbled : Finset ℤ) : Server :=
  let conns := endConn (s.sockets i) s.conns
  let sockets := Function.update s.sockets i (-1)
  { s with
    sockets := sockets
    conns := closeFd (sockets i) conns
    orig := fdClr (sockets i) s.orig garbled
    maxfd := findMax L sockets }

/-- A call of `send`: the client the chunk came from, the descriptor sent to
and the bytes; `none` when `strlen` leaves the buffer. -/
structure Send where
  source : ℤ
  dest : ℤ
  payload : Option (List Byte)
deriving DecidableEq

/-- What `send(..., buf, strlen(buf)+1, 0)` sends after `recv` put `chunk` into
the zeroed `buf`. -/
def relay (chunk : List Byte) : Option (List Byte) := stringBytes (zeroPadded bufSize chunk)

/-- The forward loop for a chunk from the client in slot `i`, if it comes to its end. -/
def forward (s : Server) (i : Slot) (chunk : List Byte) : List Send :=
  ((List.finRange maxClients).filter fun j =>
      j ≠ i ∧ s.sockets j ≠ -1 ∧ s.sockets j ≠ L.inet).map fun j =>
    { source := s.sockets i, dest := s.sockets j, payload := relay chunk }

/-! ## §3  The system -/

/-- `select` returns the ready descriptors; the body of an iteration is skipped,
accepts `newfd`, receives a chunk, which `send` cannot pass on to the clients in
`broken`, or finds the connection ended (`recv` returned 0 or -1; `garbled` is what
an undefined `FD_CLR` leaves). -/
inductive Action where
  | select (ready : Finset ℤ)
  | skip
  | accept (newfd : ℤ)
  | recv (chunk : List Byte) (broken : Finset ℤ)
  | hangup (garbled : Finset ℤ)

/-- `accept` returns a descriptor that is not open. -/
def Server.Fresh (s : Server) (newfd : ℤ) : Prop :=
  0 ≤ newfd ∧ newfd < fdSetSize ∧ newfd ≠ L.inet ∧ newfd ≠ L.unix ∧
    ∀ c ∈ s.conns, c.closed = false → c.fd ≠ newfd

instance (s : Server) (newfd : ℤ) : Decidable (s.Fresh L newfd) := by
  unfold Server.Fresh
  infer_instance

/-- A step of a server that has not been killed. -/
def Server.iterate (s : Server) : Action → Option Server
  | .select ready =>
      if s.i = maxClients ∧ ∀ fd ∈ ready, fd ∈ s.orig ∧ fd ≤ s.maxfd then
        some { s with readFd := ready, i := 0 }
      else none
  | .skip =>
      if s.i < maxClients ∧ s.visited = none then some { s with i := s.i + 1 } else none
  | .accept newfd =>
      match s.visited with
      | some i =>
          if isListener L (s.sockets i) ∧ s.Fresh L newfd then
            some { acceptClient s newfd with i := s.i + 1 }
          else none
      | none => none
  | .recv chunk broken =>
      match s.visited with
      | some i =>
          if ¬ isListener L (s.sockets i) ∧ 1 ≤ chunk.length ∧ chunk.length ≤ bufSize ∧
              L.unix ∉ broken then
            if (forward L s i chunk).any fun m => m.dest ∈ broken then
              some { s with killed := true }
            else some { s with i := s.i + 1 }
          else none
      | none => none
  | .hangup garbled =>
      match s.visited with
      | some i =>
          if ¬ isListener L (s.sockets i) then
            some { dropClient L s i garbled with i := s.i + 1 }
          else none
      | none => none

def Server.next (s : Server) (a : Action) : Option Server :=
  if s.killed = false then s.iterate L a else none

/-- The calls of `send` that one step makes, up to the one that kills the server. -/
def Server.sends (s : Server) : Action → List Send
  | .recv chunk broken =>
      match s.visited with
      | some i => (forward L s i chunk).takeWhile fun m => m.dest ∉ broken
      | none => []
  | _ => []

/-- The server when it first reaches `select`: both listeners are in the table. -/
def server : System Server Action where
  init :=
    { sockets := fun j => if j.val = 0 then L.inet else if j.val = 1 then L.unix else -1
      orig := {L.inet, L.unix}
      readFd := ∅
      maxfd := if L.inet > L.unix then L.inet else L.unix
      i := maxClients
      conns := []
      killed := false }
  next := Server.next L

/-- One case for each statement that can change the table; `skip` only moves the index, and
`recv` does that or kills the server. -/
theorem Server.next_cases {s s' : Server} {a : Action} (h : s.next L a = some s') :
    (∃ ready, a = .select ready ∧ s' = { s with readFd := ready, i := 0 }) ∨
    ((a = .skip ∨ ∃ chunk broken i, a = .recv chunk broken ∧ s.visited = some i ∧
        isListener L (s.sockets i) = false ∧ 1 ≤ chunk.length ∧ chunk.length ≤ bufSize) ∧
      (s' = { s with i := s.i + 1 } ∨ s' = { s with killed := true })) ∨
    (∃ newfd, a = .accept newfd ∧ s.Fresh L newfd ∧
      s' = { acceptClient s newfd with i := s.i + 1 }) ∨
    (∃ garbled i, a = .hangup garbled ∧ s.visited = some i ∧
      isListener L (s.sockets i) = false ∧
      s' = { dropClient L s i garbled with i := s.i + 1 }) := by
  obtain ⟨-, h⟩ := Option.ite_none_right_eq_some.mp h
  cases a with
  | select ready =>
      simp only [Server.iterate, Option.ite_none_right_eq_some, Option.some.injEq] at h
      exact Or.inl ⟨ready, rfl, h.2.symm⟩
  | skip =>
      simp only [Server.iterate, Option.ite_none_right_eq_some, Option.some.injEq] at h
      exact Or.inr (Or.inl ⟨Or.inl rfl, Or.inl h.2.symm⟩)
  | accept newfd =>
      cases hv : s.visited with
      | none => simp [Server.iterate, hv] at h
      | some i =>
          simp only [Server.iterate, hv, Option.ite_none_right_eq_some, Option.some.injEq] at h
          exact Or.inr (Or.inr (Or.inl ⟨newfd, rfl, h.1.2, h.2.symm⟩))
  | recv chunk broken =>
      cases hv : s.visited with
      | none => simp [Server.iterate, hv] at h
      | some i =>
          simp only [Server.iterate, hv, Option.ite_none_right_eq_some, Bool.not_eq_true] at h
          obtain ⟨⟨hclient, hne, hlength, -⟩, h⟩ := h
          refine Or.inr (Or.inl ⟨Or.inr ⟨chunk, broken, i, rfl, rfl, hclient, hne, hlength⟩, ?_⟩)
          split_ifs at h
          · exact Or.inr (Option.some.inj h).symm
          · exact Or.inl (Option.some.inj h).symm
  | hangup garbled =>
      cases hv : s.visited with
      | none => simp [Server.iterate, hv] at h
      | some i =>
          simp only [Server.iterate, hv, Option.ite_none_right_eq_some, Option.some.injEq,
            Bool.not_eq_true] at h
          exact Or.inr (Or.inr (Or.inr ⟨garbled, i, rfl, rfl, h.1, h.2.symm⟩))

theorem Server.visited_ne {s : Server} {i : Slot} (h : s.visited = some i) :
    s.sockets i ≠ -1 := by
  unfold Server.visited at h
  split at h
  · simp only [Option.ite_none_right_eq_some, Option.some.injEq] at h
    obtain ⟨⟨hne, -⟩, rfl⟩ := h
    exact hne
  · simp at h

theorem Server.emptySlot_some {s : Server} {j : Slot} (h : s.emptySlot = some j) :
    s.sockets j = -1 := by
  simpa using List.find?_some h

end Sysopy.StreamServer
