import Mathlib.Logic.Function.Basic
import Sysopy.Foundation.CString
import Sysopy.Foundation.System

/-!
# The buffer of the chat client

Two threads share the buffer of outgoing messages: the stdin thread appends to
it, and the main thread empties it in the handler of `SIGUSR1`. Every access to
shared data is a step of its own, and the steps of the two threads interleave
freely. The datagram client and the stream client run the same statements.

`SIGUSR1` has at most one pending instance and is blocked while its handler
runs. A failing call ends the process through `error`, so it has no step; nor has a
line for which the buffer has no cell left, since it cannot be enlarged.

## Sections

* §1 the threads
* §2 the statements
* §3 the system
* §4 what a step can do
-/

namespace Sysopy.ChatClient

open Sysopy.Foundation

/-! ## §1  The threads -/

abbrev Message := List Byte

/-- `sender_receiver_thread` and `io_thread`. -/
inductive Thread where
  | main
  | io
deriving DecidableEq

/-- Where `stdin_read_fun` is; `msg` is `msg_with_header`. -/
inductive StdinPc where
  | getline
  | lock (msg : Message)
  | resize (msg : Message)
  | append (msg : Message)
  | count (msg : Message)
  | unlock
  | kill
deriving DecidableEq

/-- Where `sig_handle` is: `off` outside the handler, else the statement that is
next. `num` is `num_msgs_to_send` and `cpy` is `msgs_cpy`. -/
inductive HandlerPc where
  | off
  | test
  | read
  | lock (num : ℕ)
  | copy (num : ℕ)
  | reset (num : ℕ) (cpy : List Message)
  | unlock (num : ℕ) (cpy : List Message)
  | send (num : ℕ) (cpy : List Message) (i : ℕ)
deriving DecidableEq

/-- The shared variables, the mutex, the pending signal and the two threads.
A cell of `messages` is what is read there as a string. -/
structure Client where
  messages : ℕ → Message
  messagesWaiting : ℕ
  messageBuffSize : ℕ
  mutex : Option Thread
  pending : Bool
  stdin : StdinPc
  handler : HandlerPc

/-! ## §2  The statements -/

/-- `id`, a colon, a newline and the line. -/
def withHeader (myId line : Message) : Message := myId ++ [58, 10] ++ line

/-- `enlarge_msg_buff` copies and frees as many cells as the new buffer has. The old
buffer does not have them all, and what is behind it is no pointer of `malloc`. -/
def enlargeMsgBuff (s : Client) : Option Client :=
  let size := 2 * s.messageBuffSize
  if size ≤ s.messageBuffSize then some { s with messageBuffSize := size } else none

/-- The copy loop after `n` iterations; each of them also clears cell 1. -/
def copyWaiting (messages : ℕ → Message) : ℕ → List Message × (ℕ → Message)
  | 0 => ([], messages)
  | n + 1 =>
      let r := copyWaiting messages n
      (r.1 ++ [r.2 n], Function.update r.2 1 [])

theorem length_copyWaiting (messages : ℕ → Message) (n : ℕ) :
    (copyWaiting messages n).1.length = n := by
  induction n with
  | zero => rfl
  | succ n ih => simp [copyWaiting, ih]

/-! ## §3  The system -/

/-- The stdin thread reads a line, or goes on; `SIGUSR1` reaches the main
thread; its handler goes on. -/
inductive Action where
  | getline (line : Message)
  | stdin
  | signal
  | handler
deriving DecidableEq

/-- A step of `stdin_read_fun` after `getline`. -/
def Client.stdinRead (s : Client) : Option Client :=
  match s.stdin with
  | .getline => none
  | .lock msg =>
      if s.mutex = none then some { s with mutex := some .io, stdin := .resize msg } else none
  | .resize msg =>
      if s.messagesWaiting = s.messageBuffSize then
        (enlargeMsgBuff s).map fun s => { s with stdin := .append msg }
      else some { s with stdin := .append msg }
  | .append msg =>
      some { s with
        messages := Function.update s.messages s.messagesWaiting msg
        stdin := .count msg }
  | .count _ => some { s with messagesWaiting := s.messagesWaiting + 1, stdin := .unlock }
  | .unlock => some { s with mutex := none, stdin := .kill }
  | .kill => some { s with pending := true, stdin := .getline }

def Client.sigHandle (s : Client) : Option Client :=
  match s.handler with
  | .off => none
  | .test =>
      if s.messagesWaiting = 0 then some { s with handler := .off }
      else some { s with handler := .read }
  | .read => some { s with handler := .lock s.messagesWaiting }
  | .lock num =>
      if s.mutex = none then some { s with mutex := some .main, handler := .copy num } else none
  | .copy num =>
      let r := copyWaiting s.messages s.messagesWaiting
      some { s with messages := r.2, handler := .reset num r.1 }
  | .reset num cpy => some { s with messagesWaiting := 0, handler := .unlock num cpy }
  | .unlock num cpy => some { s with mutex := none, handler := .send num cpy 0 }
  | .send num cpy i =>
      if i < num then
        -- past the end of `msgs_cpy` there is no message to send
        if i < cpy.length then some { s with handler := .send num cpy (i + 1) } else none
      else some { s with handler := .off }

def Client.next (myId : Message) (s : Client) : Action → Option Client
  | .getline line =>
      if s.stdin = .getline then some { s with stdin := .lock (withHeader myId line) } else none
  | .stdin => s.stdinRead
  | .signal =>
      if s.pending = true ∧ s.handler = .off then
        some { s with pending := false, handler := .test }
      else none
  | .handler => s.sigHandle

/-- The client after `init_msg_buff`, `init_signals` and `pthread_create`;
`messages` is what the memory of the cells holds. -/
def client (myId : Message) (messages : ℕ → Message) : System Client Action where
  init :=
    { messages := messages
      messagesWaiting := 0
      messageBuffSize := 10
      mutex := none
      pending := false
      stdin := .getline
      handler := .off }
  next := Client.next myId

def Client.appended (s : Client) : Action → List Message
  | .stdin => match s.stdin with
    | .count msg => [msg]
    | _ => []
  | _ => []

def Client.sent (s : Client) : Action → List Message
  | .handler => match s.handler with
    | .send num cpy i => if i < num then cpy[i]?.toList else []
    | _ => []
  | _ => []

/-! ## §4  What a step can do -/

section Inversion

variable {s t : Client}

/-- The steps of `stdin_read_fun`, with the branch that each of them takes. -/
inductive StdinStep (s : Client) : Client → Prop
  | lock (msg : Message) : s.stdin = .lock msg → s.mutex = none →
      StdinStep s { s with mutex := some .io, stdin := .resize msg }
  | enlarge (msg : Message) : s.stdin = .resize msg →
      s.messagesWaiting = s.messageBuffSize → 2 * s.messageBuffSize ≤ s.messageBuffSize →
      StdinStep s { s with messageBuffSize := 2 * s.messageBuffSize, stdin := .append msg }
  | resize (msg : Message) : s.stdin = .resize msg → s.messagesWaiting ≠ s.messageBuffSize →
      StdinStep s { s with stdin := .append msg }
  | append (msg : Message) : s.stdin = .append msg →
      StdinStep s { s with
        messages := Function.update s.messages s.messagesWaiting msg, stdin := .count msg }
  | count (msg : Message) : s.stdin = .count msg →
      StdinStep s { s with messagesWaiting := s.messagesWaiting + 1, stdin := .unlock }
  | unlock : s.stdin = .unlock → StdinStep s { s with mutex := none, stdin := .kill }
  | kill : s.stdin = .kill → StdinStep s { s with pending := true, stdin := .getline }

theorem stdinStep (h : s.stdinRead = some t) : StdinStep s t := by
  unfold Client.stdinRead at h
  cases hpc : s.stdin with
  | getline => simp [hpc] at h
  | lock msg =>
      simp only [hpc, Option.ite_none_right_eq_some, Option.some.injEq] at h
      exact h.2 ▸ .lock msg hpc h.1
  | resize msg =>
      simp only [hpc] at h
      split_ifs at h with hfull
      · obtain ⟨u, hu, rfl⟩ := Option.map_eq_some_iff.mp h
        obtain ⟨hfits, hu⟩ := Option.ite_none_right_eq_some.mp hu
        exact Option.some.inj hu ▸ .enlarge msg hpc hfull hfits
      · exact Option.some.inj h ▸ .resize msg hpc hfull
  | append msg =>
      simp only [hpc, Option.some.injEq] at h
      exact h ▸ .append msg hpc
  | count msg =>
      simp only [hpc, Option.some.injEq] at h
      exact h ▸ .count msg hpc
  | unlock =>
      simp only [hpc, Option.some.injEq] at h
      exact h ▸ .unlock hpc
  | kill =>
      simp only [hpc, Option.some.injEq] at h
      exact h ▸ .kill hpc

inductive HandlerStep (s : Client) : Client → Prop
  | nothing : s.handler = .test → s.messagesWaiting = 0 → HandlerStep s { s with handler := .off }
  | test : s.handler = .test → s.messagesWaiting ≠ 0 → HandlerStep s { s with handler := .read }
  | read : s.handler = .read → HandlerStep s { s with handler := .lock s.messagesWaiting }
  | lock (num : ℕ) : s.handler = .lock num → s.mutex = none →
      HandlerStep s { s with mutex := some .main, handler := .copy num }
  | copy (num : ℕ) : s.handler = .copy num →
      HandlerStep s { s with
        messages := (copyWaiting s.messages s.messagesWaiting).2
        handler := .reset num (copyWaiting s.messages s.messagesWaiting).1 }
  | reset (num : ℕ) (cpy : List Message) : s.handler = .reset num cpy →
      HandlerStep s { s with messagesWaiting := 0, handler := .unlock num cpy }
  | unlock (num : ℕ) (cpy : List Message) : s.handler = .unlock num cpy →
      HandlerStep s { s with mutex := none, handler := .send num cpy 0 }
  | send (num : ℕ) (cpy : List Message) (i : ℕ) : s.handler = .send num cpy i → i < num →
      i < cpy.length → HandlerStep s { s with handler := .send num cpy (i + 1) }
  | sent (num : ℕ) (cpy : List Message) (i : ℕ) : s.handler = .send num cpy i → num ≤ i →
      HandlerStep s { s with handler := .off }

theorem handlerStep (h : s.sigHandle = some t) : HandlerStep s t := by
  unfold Client.sigHandle at h
  cases hpc : s.handler with
  | off => simp [hpc] at h
  | test =>
      simp only [hpc] at h
      split_ifs at h with hzero
      · exact Option.some.inj h ▸ .nothing hpc hzero
      · exact Option.some.inj h ▸ .test hpc hzero
  | read =>
      simp only [hpc, Option.some.injEq] at h
      exact h ▸ .read hpc
  | lock num =>
      simp only [hpc, Option.ite_none_right_eq_some, Option.some.injEq] at h
      exact h.2 ▸ .lock num hpc h.1
  | copy num =>
      simp only [hpc, Option.some.injEq] at h
      exact h ▸ .copy num hpc
  | reset num cpy =>
      simp only [hpc, Option.some.injEq] at h
      exact h ▸ .reset num cpy hpc
  | unlock num cpy =>
      simp only [hpc, Option.some.injEq] at h
      exact h ▸ .unlock num cpy hpc
  | send num cpy i =>
      simp only [hpc] at h
      split_ifs at h with hlt hlen
      · exact Option.some.inj h ▸ .send num cpy i hpc hlt hlen
      · exact Option.some.inj h ▸ .sent num cpy i hpc (Nat.not_lt.mp hlt)

end Inversion

end Sysopy.ChatClient
