import Sysopy.ChatClient.Flush
import Sysopy.QueueChat.Sender

/-!
# The end of the input

`stdin_read_fun` does not look at what `getline` returns. At the end of the input `getline`
leaves something in the line buffer, and what that is depends on the library; whatever it
is becomes the next message. The loops of the queue clients do the same with `fgets`, so no
client ever stops at the end of its input.

## Sections

* §1 the stdin thread and its input
* §2 a message is appended
* §3 the end of the input
-/

namespace Sysopy.ChatClient

open Foundation

/-! ## §1  The stdin thread and its input -/

/-- The client, what is left to be read, and whether `strcpy` has run past the line buffer. -/
structure Typist where
  client : Client
  input : List Byte
  undefined : Bool

/-- The string that `getline` has read. -/
def Typist.line (s : Typist) : Message :=
  beforeTerminator 0 (readLine 10 s.input.length s.input).1

/-- `leftover` is the string in the line buffer when `getline` has found the end of the input,
`none` if there is no NUL in it. -/
def Typist.next (myId : Message) (leftover : Option Message) (s : Typist) :
    Action → Option Typist
  | .getline line =>
      if s.client.stdin = .getline ∧ s.undefined = false then
        if s.input = [] then
          if leftover = none then some { s with undefined := true }
          else if leftover = some line then
            (s.client.next myId (.getline line)).map fun c => { s with client := c }
          else none
        else if line = s.line then
          (s.client.next myId (.getline line)).map fun c =>
            { s with client := c, input := (readLine 10 s.input.length s.input).2 }
        else none
      else none
  | a => (s.client.next myId a).map fun c => { s with client := c }

def typing (myId : Message) (messages : ℕ → Message) (leftover : Option Message)
    (input : List Byte) : System Typist Action where
  init :=
    { client := (client myId messages).init
      input := input
      undefined := false }
  next := Typist.next myId leftover

def Typist.appended (s : Typist) (a : Action) : List Message := s.client.appended a

def messagesFor (myId : Message) (lines : List (List Byte)) : List Message :=
  lines.map fun l => withHeader myId (lineString l)

/-- No turn is undefined, each appends the next line, and there is none when all are
appended, however the threads take turns. -/
structure AppendsTyped (myId : Message) (messages : ℕ → Message) (leftover : Option Message)
    (lines : List (List Byte)) : Prop where
  defined : ∀ tr s, (typing myId messages leftover (wire 10 lines)).Run tr s →
    s.undefined = false
  nothingElse : ∀ tr s, (typing myId messages leftover (wire 10 lines)).Run tr s →
    observe Typist.appended tr <+: messagesFor myId lines
  everything : ∀ tr s, (typing myId messages leftover (wire 10 lines)).Run tr s →
    s.input = [] → s.client.stdin = .getline →
    observe Typist.appended tr = messagesFor myId lines

variable {myId msg : Message} {messages : ℕ → Message} {leftover : Option Message}
  {input : List Byte} {l : List Byte} {ls lines : List (List Byte)} {s t : Typist}

/-! ## §2  A message is appended -/

/-- The thread is in front of `getline` with these lines, nothing waits in the ten cells, and
the main thread is not in its handler. -/
structure Idle (ls : List (List Byte)) (s : Typist) : Prop where
  pc : s.client.stdin = .getline
  free : s.client.mutex = none
  waiting : s.client.messagesWaiting = 0
  size : s.client.messageBuffSize = 10
  handler : s.client.handler = .off
  input : s.input = wire 10 ls
  defined : s.undefined = false

/-- From here the thread appends the messages and is in front of `getline` again. -/
def Appends (myId : Message) (messages : ℕ → Message) (leftover : Option Message)
    (input : List Byte) (ls : List (List Byte)) (msgs : List Message) (s : Typist) : Prop :=
  ∃ tr t, (typing myId messages leftover input).Path s tr t ∧
    observe Typist.appended tr = msgs ∧ Idle ls t

theorem Appends.cons {a : Action} {new msgs : List Message}
    (hnext : s.next myId leftover a = some t) (hnew : s.appended a = new)
    (h : Appends myId messages leftover input ls msgs t) :
    Appends myId messages leftover input ls (new ++ msgs) s := by
  obtain ⟨tr, u, hpath, hmsgs, hu⟩ := h
  refine ⟨(s, a) :: tr, u, .cons hnext hpath, ?_, hu⟩
  rw [← hmsgs, ← hnew]
  exact List.flatMap_cons

theorem Appends.quiet {a : Action} {msgs : List Message}
    (hnext : s.next myId leftover a = some t) (hnew : s.appended a = [])
    (h : Appends myId messages leftover input ls msgs t) :
    Appends myId messages leftover input ls msgs s :=
  Appends.cons hnext hnew h

theorem next_stdin {c : Client} (h : s.client.stdinRead = some c) :
    s.next myId leftover .stdin = some { s with client := c } := by
  show s.client.stdinRead.map _ = _
  rw [h]
  rfl

/-- Behind `getline` the thread is in front of the mutex with its message. -/
theorem next_getline (h : s.client.stdin = .getline) (line : Message) :
    s.client.next myId (.getline line) =
      some { s.client with stdin := .lock (withHeader myId line) } := if_pos h

theorem next_handler {c : Client} (h : s.client.sigHandle = some c) :
    s.next myId leftover .handler = some { s with client := c } := by
  show s.client.sigHandle.map _ = _
  rw [h]
  rfl

/-- **The signal of a message** has the main thread send it, and the ten cells are free
again. -/
theorem appends_of_signal (hs : Idle ls { s with client := { s.client with messagesWaiting := 0 } })
    (hwaiting : s.client.messagesWaiting = 1) (hpending : s.client.pending = true) :
    Appends myId messages leftover input ls [] s := by
  obtain ⟨⟨cells, waiting, size, mutex, pending, pc, handler⟩, rest, undefined⟩ := s
  obtain ⟨hpc, hfree, -, hsize, hhandler, hinput, hdefined⟩ := hs
  obtain rfl : pc = .getline := hpc
  obtain rfl : mutex = none := hfree
  obtain rfl : waiting = 1 := hwaiting
  obtain rfl : pending = true := hpending
  obtain rfl : handler = .off := hhandler
  have hsignal : ∀ t : Typist, t.client.pending = true → t.client.handler = .off →
      t.next myId leftover .signal =
        some { t with client := { t.client with pending := false, handler := .test } } := by
    intro t hpending hoff
    show (if _ then _ else _ : Option Client).map _ = _
    rw [if_pos ⟨hpending, hoff⟩]
    rfl
  refine Appends.quiet (hsignal _ rfl rfl) rfl ?_
  -- `messages_waiting` is read, and the critical section empties the buffer
  refine Appends.quiet (next_handler rfl) rfl ?_
  refine Appends.quiet (next_handler rfl) rfl ?_
  refine Appends.quiet (next_handler rfl) rfl ?_
  refine Appends.quiet (next_handler rfl) rfl ?_
  refine Appends.quiet (next_handler rfl) rfl ?_
  refine Appends.quiet (next_handler rfl) rfl ?_
  -- one message is sent
  refine Appends.quiet (next_handler rfl) rfl ?_
  refine Appends.quiet (next_handler rfl) rfl ?_
  exact ⟨[], _, .nil, rfl, rfl, rfl, rfl, hsize, rfl, hinput, hdefined⟩

/-- **With a message at the mutex** the thread appends it and signals the main thread, if that
leaves it the mutex. -/
theorem appends_of_lock
    (hs : Idle ls { s with client := { s.client with stdin := .getline } })
    (hpc : s.client.stdin = .lock msg) :
    Appends myId messages leftover input ls [msg] s := by
  obtain ⟨⟨cells, waiting, size, mutex, pending, pc, handler⟩, rest, undefined⟩ := s
  obtain ⟨-, hfree, hwaiting, hsize, hhandler, hinput, hdefined⟩ := hs
  obtain rfl : pc = .lock msg := hpc
  obtain rfl : mutex = none := hfree
  obtain rfl : waiting = 0 := hwaiting
  obtain rfl : size = 10 := hsize
  refine Appends.quiet (next_stdin rfl) rfl ?_
  refine Appends.quiet (next_stdin rfl) rfl ?_
  refine Appends.quiet (next_stdin rfl) rfl ?_
  refine Appends.cons (next_stdin rfl) (show Typist.appended _ .stdin = [msg] from rfl) ?_
  refine Appends.quiet (next_stdin rfl) rfl ?_
  refine Appends.quiet (next_stdin rfl) rfl ?_
  exact appends_of_signal ⟨rfl, rfl, rfl, rfl, hhandler, hinput, hdefined⟩ rfl rfl

theorem Appends.trans {ls' : List (List Byte)} {msgs msgs' : List Message}
    (h : Appends myId messages leftover input ls msgs s)
    (h' : ∀ t, Idle ls t → Appends myId messages leftover input ls' msgs' t) :
    Appends myId messages leftover input ls' (msgs ++ msgs') s := by
  obtain ⟨tr, t, hpath, hmsgs, ht⟩ := h
  obtain ⟨tr', u, hpath', hmsgs', hu⟩ := h' t ht
  refine ⟨tr ++ tr', u, hpath.trans hpath', ?_, hu⟩
  rw [← hmsgs, ← hmsgs']
  exact List.flatMap_append

theorem Idle.read_line (h : Idle (l :: ls) s) (hl : 10 ∉ l) :
    s.line = lineString l ∧ (readLine 10 s.input.length s.input).2 = wire 10 ls ∧
      s.input ≠ [] := by
  have hlength : l.length < s.input.length := by
    rw [h.input, wire_cons, List.length_append, List.length_cons]
    omega
  have hread : readLine 10 s.input.length s.input = (terminated 10 l, wire 10 ls) := by
    have hmessage := readLine_wire hl hlength ls
    rwa [← h.input] at hmessage
  refine ⟨?_, ?_, List.length_pos_iff.mp (Nat.zero_lt_of_lt hlength)⟩
  · rw [Typist.line, hread]
    rfl
  · rw [hread]

/-- **A turn at a line** appends its message. -/
theorem Idle.appends_line (h : Idle (l :: ls) s) (hl : 10 ∉ l) :
    Appends myId messages leftover input ls [withHeader myId (lineString l)] s := by
  obtain ⟨hline, hrest, hne⟩ := h.read_line hl
  have hnext : s.next myId leftover (.getline (lineString l)) = some { s with
      client := { s.client with stdin := .lock (withHeader myId (lineString l)) }
      input := (readLine 10 s.input.length s.input).2 } := by
    rw [Typist.next, if_pos ⟨h.pc, h.defined⟩, if_neg hne, if_pos hline.symm,
      next_getline h.pc]
    rfl
  refine Appends.quiet hnext rfl ?_
  exact appends_of_lock ⟨rfl, h.free, h.waiting, h.size, h.handler, hrest, h.defined⟩ rfl

/-- **All lines** have their messages appended, with the thread back in front of
`getline`. -/
theorem Idle.appends_lines (h : Idle ls s) (hls : ∀ l ∈ ls, 10 ∉ l) :
    Appends myId messages leftover input [] (messagesFor myId ls) s := by
  induction ls generalizing s with
  | nil => exact ⟨[], s, .nil, rfl, h⟩
  | cons l ls ih =>
      obtain ⟨hl, hls⟩ := List.forall_mem_cons.mp hls
      exact (h.appends_line hl).trans fun t ht => ih ht hls

/-! ## §3  The end of the input -/

/-- At the end of the input what is left in the line buffer is appended. -/
theorem Idle.appends_leftover {text : Message} (h : Idle [] s) :
    Appends myId messages (some text) input [] [withHeader myId text] s := by
  have hinput : s.input = [] := h.input
  have hnext : s.next myId (some text) (.getline text) = some { s with
      client := { s.client with stdin := .lock (withHeader myId text) } } := by
    rw [Typist.next, if_pos ⟨h.pc, h.defined⟩, if_pos hinput, if_neg (Option.some_ne_none text),
      if_pos rfl, next_getline h.pc]
    rfl
  refine Appends.quiet hnext rfl ?_
  exact appends_of_lock ⟨rfl, h.free, h.waiting, h.size, h.handler, h.input, h.defined⟩ rfl

theorem Idle.next_undefined (h : Idle [] s) :
    s.next myId none (.getline []) = some { s with undefined := true } := by
  have hinput : s.input = [] := h.input
  rw [Typist.next, if_pos ⟨h.pc, h.defined⟩, if_pos hinput, if_pos rfl]

theorem idle_init (myId : Message) (messages : ℕ → Message) (leftover : Option Message)
    (lines : List (List Byte)) :
    Idle lines (typing myId messages leftover (wire 10 lines)).init where
  pc := rfl
  free := rfl
  waiting := rfl
  size := rfl
  handler := rfl
  input := rfl
  defined := rfl

/-- **The stdin thread never appends just what was typed.** -/
theorem not_appendsTyped (myId : Message) (messages : ℕ → Message) (leftover : Option Message)
    (hlines : ∀ l ∈ lines, 10 ∉ l) : ¬AppendsTyped myId messages leftover lines := by
  intro h
  have hidle := idle_init myId messages leftover lines
  cases leftover with
  | none =>
      have hall : Appends myId messages none (wire 10 lines) [] (messagesFor myId lines) _ :=
        hidle.appends_lines hlines
      obtain ⟨tr, s, hpath, -, hs⟩ := hall
      have hrun : (typing myId messages none (wire 10 lines)).Run (tr ++ [(s, .getline [])])
          { s with undefined := true } := .snoc hpath hs.next_undefined
      exact Bool.false_ne_true (h.defined _ _ hrun).symm
  | some text =>
      have hall : Appends myId messages (some text) (wire 10 lines) []
          (messagesFor myId lines ++ [withHeader myId text]) _ :=
        (hidle.appends_lines hlines).trans fun t ht => ht.appends_leftover
      obtain ⟨tr, s, hpath, hmsgs, -⟩ := hall
      have hlength := (h.nothingElse tr s hpath).length_le
      rw [hmsgs, List.length_append, List.length_singleton] at hlength
      omega

/-- **No client sends just what was typed**: behind the last line every sender loop sends
once more, and every stdin thread appends once more, or runs past its line buffer. -/
theorem never_stops_at_end (hlines : ∀ l ∈ lines, QueueChat.Typed l) :
    (∀ found foundBody, ¬QueueChat.SendsTyped found foundBody lines) ∧
      ∀ myId messages leftover, ¬AppendsTyped myId messages leftover lines :=
  ⟨fun found foundBody => QueueChat.not_sendsTyped found foundBody hlines,
    fun myId messages leftover =>
      not_appendsTyped myId messages leftover fun l hl => (hlines l hl).newline⟩

theorem typed_hi : ∀ l ∈ ([[104, 105]] : List (List Byte)), QueueChat.Typed l := by
  rw [List.forall_mem_singleton]
  exact ⟨by decide, by decide, by decide⟩

theorem never_stops_at_end_hi :
    (∀ found foundBody, ¬QueueChat.SendsTyped found foundBody [[104, 105]]) ∧
      ∀ myId messages leftover, ¬AppendsTyped myId messages leftover [[104, 105]] :=
  never_stops_at_end typed_hi

/-- Of one line there are two messages, in both kinds of clients. -/
theorem one_line_is_sent_twice :
    (∃ tr s, (QueueChat.senderLoop (fun _ => 0) (fun _ => 0) [104, 105, 10]).Run tr s ∧
        s.sent = [[104, 105, 10], [104, 105, 10]]) ∧
      (∃ tr s, (typing [97] (fun _ => []) (some [104, 105, 10]) [104, 105, 10]).Run tr s ∧
        observe Typist.appended tr =
          [[97, 58, 10, 104, 105, 10], [97, 58, 10, 104, 105, 10]]) ∧
      ¬QueueChat.SendsTyped (fun _ => 0) (fun _ => 0) [[104, 105]] ∧
      ¬AppendsTyped [97] (fun _ => []) (some [104, 105, 10]) [[104, 105]] := by
  refine ⟨?_, ?_, ?_, ?_⟩
  · obtain ⟨tr, s, hrun, -, hsent, -⟩ :=
      QueueChat.last_line_again (fun _ => 0) (fun _ => 0) typed_hi rfl 1
    exact ⟨tr, s, hrun, hsent⟩
  · have hrun := (typing [97] (fun _ => []) (some [104, 105, 10]) [104, 105, 10]).run_of_replay
      (appendLine [104, 105, 10] ++ appendLine [104, 105, 10]) rfl
    exact ⟨_, _, hrun, by decide⟩
  · exact QueueChat.not_sendsTyped _ _ typed_hi
  · exact not_appendsTyped _ _ _ fun l hl => (typed_hi l hl).newline

end Sysopy.ChatClient
