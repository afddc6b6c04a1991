import Sysopy.Foundation.System
import Sysopy.NamedPipe.Format

/-!
# One reader and any number of writers

A `wrfifo` sends its lines by atomic writes without a NUL or any other end mark, and one
`read` of `rdfifo` returns whatever is in the pipe, up to `PIPE_BUF` bytes. The reader
takes that for one message. This is right while every message is read before the next
one is written.

## Sections

* §1 programs and pipe
* §2 what is written and what is printed
* §3 the reader's turn
* §4 careful runs
-/

namespace Sysopy.NamedPipe

open Sysopy.Foundation

/-! ## §1  Programs and pipe -/

/-- What a `wrfifo` sends for a line of input: `fgets` leaves at most `PIPE_BUF - 22`
characters of it, and the hour comes from `get_formatted_hour`. -/
structure Message where
  pid : ℕ
  writeHour : List Byte
  line : List Byte
  pid_pos : 0 < pid
  pid_lt : pid < 10 ^ 7
  length_writeHour : writeHour.length = 8
  writeHour_zero : 0 ∉ writeHour
  line_zero : 0 ∉ line
  length_line : line.length ≤ pipeBuf - 22

/-- The bytes of one `write`. -/
def Message.bytes (m : Message) : List Byte := formatted m.pid m.writeHour m.line

inductive ReaderPc
  /-- in `open`, until there is a writer -/
  | opening
  | reading
  /-- `read` has returned 0 -/
  | ended
  /-- a function has left its buffers -/
  | undefined
  deriving DecidableEq

/-- A line that `rdfifo` prints: `"%s - %s - %s - %s"`. -/
structure Printed where
  readHour : List Byte
  pid : List Byte
  writeDate : List Byte
  msg : List Byte
  deriving DecidableEq

structure State where
  pc : ReaderPc
  /-- the `wrfifo` processes that have the pipe open -/
  writers : List ℕ
  pipe : List Byte
  readBuf : List Byte
  parts : Parts
  printed : List Printed

inductive Action
  | openFifo (pid : ℕ)
  /-- the end of a `wrfifo` -/
  | exit (pid : ℕ)
  | write (m : Message)
  /-- a `read` of the reader and the turn of its loop, at this hour -/
  | read (readHour : List Byte)

/-- The turn after a `read` that has returned some bytes. -/
def State.turn (s : State) (readHour : List Byte) : State :=
  let readBuf := store 0 (s.pipe.take pipeBuf) s.readBuf
  match s.parts.extract readBuf with
  | none => { s with pc := .undefined }
  | some parts =>
      match parts.strings with
      | none => { s with pc := .undefined }
      | some (pid, writeDate, msg) =>
          { s with
            pipe := s.pipe.drop pipeBuf
            readBuf := List.replicate pipeBuf 0
            parts := parts
            printed := s.printed ++ [⟨readHour, pid, writeDate, msg⟩] }

def State.next (s : State) : Action → Option State
  | .openFifo pid =>
      if pid ∈ s.writers then none
      else some { s with
        writers := pid :: s.writers
        pc := if s.pc = .opening then .reading else s.pc }
  | .exit pid => if pid ∈ s.writers then some { s with writers := s.writers.erase pid } else none
  | .write m =>
      if m.pid ∈ s.writers then some { s with pipe := s.pipe ++ m.bytes } else none
  | .read readHour =>
      if s.pc = .reading then
        if s.pipe = [] then
          -- an empty pipe blocks the reader as long as there is a writer
          if s.writers = [] then some { s with pc := .ended } else none
        else some (s.turn readHour)
      else none

/-- What the four calls of `malloc` find. -/
structure Found where
  readBuf : ℕ → Byte
  pid : ℕ → Byte
  writeDate : ℕ → Byte
  msg : ℕ → Byte

def fifo (found : Found) : System State Action where
  init :=
    { pc := .opening
      writers := []
      pipe := []
      readBuf := malloc found.readBuf pipeBuf
      parts := ⟨malloc found.pid 7, malloc found.writeDate 9, malloc found.msg (pipeBuf - 21)⟩
      printed := [] }
  next := State.next

/-! ## §2  What is written and what is printed -/

def written (_ : State) : Action → List Message
  | .write m => [m]
  | _ => []

/-- The id with its padding blanks, the hour and the text of a message. -/
def Message.told (m : Message) : List Byte × List Byte × List Byte :=
  (paddedPid m.pid, m.writeHour, m.line)

def Printed.told (p : Printed) : List Byte × List Byte × List Byte := (p.pid, p.writeDate, p.msg)

/-- One line has been printed for each message in the order of writing, except for those
that are still in the pipe; when the reader has ended there is none. -/
def Reported (ms : List Message) (s : State) : Prop :=
  s.pc ≠ .undefined ∧ ∃ done rest, ms = done ++ rest ∧
    s.printed.map Printed.told = done.map Message.told ∧ s.pipe = rest.flatMap Message.bytes ∧
    (s.pc = .ended → rest = [])

/-- The step writes only while the reader is in its loop and has read all messages before,
with an id of at most six digits, and the byte of `read_buf` behind the message is 0. -/
def Careful (s : State) : Action → Prop
  | .write m => s.pc ≠ .ended ∧ s.pipe = [] ∧ m.pid < 10 ^ 6 ∧ s.readBuf[m.bytes.length]? = some 0
  | _ => True

instance (s : State) : ∀ a, Decidable (Careful s a)
  | .write m => inferInstanceAs (Decidable (s.pc ≠ .ended ∧ s.pipe = [] ∧ m.pid < 10 ^ 6 ∧
      s.readBuf[m.bytes.length]? = some 0))
  | .openFifo _ => .isTrue trivial
  | .exit _ => .isTrue trivial
  | .read _ => .isTrue trivial

/-! ## §3  The reader's turn -/

variable {s t : State} {m : Message} {ms : List Message} {a : Action}

theorem Message.length_bytes (hpid : m.pid < 10 ^ 6) :
    m.bytes.length = 20 + m.line.length := by
  simp only [Message.bytes, formatted, List.length_append, length_paddedPid hpid,
    m.length_writeHour, separator, List.length_cons, List.length_nil]

theorem Message.bytes_ne_nil (m : Message) : m.bytes ≠ [] := by
  intro h
  have hlength := congrArg List.length h
  simp [Message.bytes, formatted, separator] at hlength

/-- **A message that is alone in the pipe** is printed with its own parts. -/
theorem turn_message (readHour : List Byte) (hpid : m.pid < 10 ^ 6) (hpipe : s.pipe = m.bytes)
    (hbehind : s.readBuf[m.bytes.length]? = some 0) (hparts : s.parts.Sized) :
    ∃ parts, parts.Sized ∧ s.turn readHour = { s with
      pipe := []
      readBuf := List.replicate pipeBuf 0
      parts := parts
      printed := s.printed ++ [⟨readHour, paddedPid m.pid, m.writeHour, m.line⟩] } := by
  have hline := m.length_line
  have hlength : m.bytes.length ≤ pipeBuf := by
    rw [Message.length_bytes hpid]
    unfold pipeBuf at hline ⊢
    omega
  obtain ⟨hlt, hzero⟩ := List.getElem?_eq_some_iff.mp hbehind
  have hbuf : store 0 (s.pipe.take pipeBuf) s.readBuf =
      paddedPid m.pid ++ separator ++ m.writeHour ++ separator ++ m.line ++
        0 :: s.readBuf.drop (m.bytes.length + 1) := by
    rw [hpipe, List.take_of_length_le hlength, store_zero, List.drop_eq_getElem_cons hlt, hzero]
    rfl
  obtain ⟨parts, hextract, hsized, hstrings⟩ := hparts.extract hbuf (length_paddedPid hpid)
    m.length_writeHour (zero_notMem_paddedPid m.pid) m.writeHour_zero m.line_zero hline
  refine ⟨parts, hsized, ?_⟩
  rw [State.turn, hextract]
  dsimp only
  rw [hstrings, hpipe, List.drop_eq_nil_of_le hlength]

/-! ## §4  Careful runs -/

/-- What holds after careful steps: the pipe is empty or has one message, for which
`read_buf` is ready. -/
structure Tidy (ms : List Message) (s : State) : Prop where
  sized : s.parts.Sized
  defined : s.pc ≠ .undefined
  told : (s.pipe = [] ∧ s.printed.map Printed.told = ms.map Message.told) ∨
    ∃ done m, ms = done ++ [m] ∧ s.printed.map Printed.told = done.map Message.told ∧
      s.pipe = m.bytes ∧ m.pid < 10 ^ 6 ∧ s.readBuf[m.bytes.length]? = some 0 ∧ s.pc ≠ .ended

theorem Tidy.reported (h : Tidy ms s) : Reported ms s := by
  refine ⟨h.defined, ?_⟩
  rcases h.told with ⟨hpipe, hprinted⟩ | ⟨done, m, hms, hprinted, hpipe, -, -, hpc⟩
  · exact ⟨ms, [], (List.append_nil ms).symm, hprinted, hpipe, fun _ => rfl⟩
  · refine ⟨done, [m], hms, hprinted, ?_, fun hended => absurd hended hpc⟩
    rw [hpipe, List.flatMap_cons, List.flatMap_nil, List.append_nil]

theorem tidy_init (found : Found) : Tidy [] (fifo found).init := by
  refine ⟨⟨?_, ?_, ?_⟩, ?_, Or.inl ⟨?_, ?_⟩⟩
  · simp only [fifo, length_malloc]
  · simp only [fifo, length_malloc]
  · simp only [fifo, length_malloc]
  · exact fun h => by cases h
  · rfl
  · rfl

theorem Tidy.step (h : Tidy ms s) (hcareful : Careful s a) (hnext : s.next a = some t) :
    Tidy (ms ++ written s a) t := by
  cases a with
  | openFifo pid =>
      rw [State.next, Option.ite_none_left_eq_some, Option.some.injEq] at hnext
      obtain ⟨-, rfl⟩ := hnext
      show Tidy (ms ++ []) _
      rw [List.append_nil]
      refine ⟨h.sized, ?_, ?_⟩
      · dsimp only
        split_ifs
        · exact fun hpc => by cases hpc
        · exact h.defined
      · rcases h.told with hnone | ⟨done, m, hms, hprinted, hpipe, hpid, hbehind, hpc⟩
        · exact Or.inl hnone
        · refine Or.inr ⟨done, m, hms, hprinted, hpipe, hpid, hbehind, ?_⟩
          dsimp only
          split_ifs
          · exact fun hpc => by cases hpc
          · exact hpc
  | exit pid =>
      rw [State.next, Option.ite_none_right_eq_some, Option.some.injEq] at hnext
      obtain ⟨-, rfl⟩ := hnext
      show Tidy (ms ++ []) _
      rw [List.append_nil]
      exact ⟨h.sized, h.defined, h.told⟩
  | write m =>
      rw [State.next, Option.ite_none_right_eq_some, Option.some.injEq] at hnext
      obtain ⟨-, rfl⟩ := hnext
      -- a careful writer finds the pipe empty
      obtain ⟨hpc, hpipe, hpid, hbehind⟩ := hcareful
      refine ⟨h.sized, h.defined, Or.inr ⟨ms, m, rfl, ?_, ?_, hpid, hbehind, hpc⟩⟩
      · rcases h.told with ⟨-, hprinted⟩ | ⟨done, m', -, -, hm', -⟩
        · exact hprinted
        · exact absurd (hm'.symm.trans hpipe) m'.bytes_ne_nil
      · show s.pipe ++ m.bytes = m.bytes
        rw [hpipe, List.nil_append]
  | read readHour =>
      rw [State.next, Option.ite_none_right_eq_some] at hnext
      obtain ⟨-, hnext⟩ := hnext
      show Tidy (ms ++ []) _
      rw [List.append_nil]
      rcases h.told with ⟨hpipe, hprinted⟩ | ⟨done, m, rfl, hprinted, hpipe, hpid, hbehind, -⟩
      · rw [if_pos hpipe, Option.ite_none_right_eq_some, Option.some.injEq] at hnext
        obtain ⟨-, rfl⟩ := hnext
        exact ⟨h.sized, fun hpc => (by cases hpc), Or.inl ⟨hpipe, hprinted⟩⟩
      · rw [if_neg (hpipe ▸ m.bytes_ne_nil), Option.some.injEq] at hnext
        -- the pipe has one message, and `read` takes all of it
        obtain ⟨parts, hparts, hturn⟩ := turn_message readHour hpid hpipe hbehind
          h.sized
        subst hnext
        rw [hturn]
        refine ⟨hparts, h.defined, Or.inl ⟨rfl, ?_⟩⟩
        rw [List.map_append, List.map_append, hprinted]
        rfl

/-- **The reader reports every message by itself in careful runs.** -/
theorem reported_of_careful {found : Found} {tr : List (State × Action)}
    (hrun : (fifo found).Run tr s) (hcareful : ∀ x ∈ tr, Careful x.1 x.2) :
    Reported (observe written tr) s := by
  refine Tidy.reported (hrun.invariant_of_steps (I := fun tr s => Tidy (observe written tr) s)
    hcareful (tidy_init found) fun tr s a t h hstep hnext => ?_)
  rw [observe_snoc]
  exact h.step hstep hnext

/-- `"hi\n"`, sent at `"12:34:56"` -/
def sayHi : Message where
  pid := 42
  writeHour := sampleHour
  line := [104, 105, 10]
  pid_pos := by decide
  pid_lt := by decide
  length_writeHour := rfl
  writeHour_zero := by decide
  line_zero := by decide
  length_line := by decide

/-- Fresh memory from the kernel. -/
def zeroed : Found := ⟨fun _ => 0, fun _ => 0, fun _ => 0, fun _ => 0⟩

/-- `"no\n"`, sent by another process -/
def sayNo : Message where
  pid := 43
  writeHour := sampleHour
  line := [110, 111, 10]
  pid_pos := by decide
  pid_lt := by decide
  length_writeHour := rfl
  writeHour_zero := by decide
  line_zero := by decide
  length_line := by decide

/-- Two writers have the pipe open, and each message is read before the next one is
written. -/
theorem reported_of_careful_two : ∃ tr s, (fifo zeroed).Run tr s ∧
    s.printed = [⟨sampleHour, paddedPid 42, sampleHour, [104, 105, 10]⟩,
      ⟨sampleHour, paddedPid 43, sampleHour, [110, 111, 10]⟩] ∧ s.pc = .ended ∧
    Reported (observe written tr) s := by
  have hreplay : (((fifo zeroed).replay [.openFifo 42, .openFifo 43, .write sayHi,
      .read sampleHour, .exit 42, .write sayNo, .read sampleHour, .exit 43,
      .read sampleHour]).map fun r => (decide (∀ x ∈ r.1, Careful x.1 x.2), r.2.printed, r.2.pc)) =
      some (true, [⟨sampleHour, paddedPid 42, sampleHour, [104, 105, 10]⟩,
        ⟨sampleHour, paddedPid 43, sampleHour, [110, 111, 10]⟩], .ended) := by
    decide +kernel
  obtain ⟨⟨tr, s⟩, hrun, heq⟩ := Option.map_eq_some_iff.mp hreplay
  obtain ⟨hcareful, heq⟩ := Prod.mk.inj heq
  obtain ⟨hprinted, hpc⟩ := Prod.mk.inj heq
  have hrun := (fifo zeroed).run_of_replay _ hrun
  exact ⟨tr, s, hrun, hprinted, hpc, reported_of_careful hrun (of_decide_eq_true hcareful)⟩

theorem Reported.length_printed (h : Reported ms s) (hpipe : s.pipe = []) :
    s.printed.length = ms.length := by
  obtain ⟨-, done, rest, rfl, hprinted, hrest, -⟩ := h
  cases rest with
  | nil =>
      have hlength := congrArg List.length hprinted
      rw [List.length_map, List.length_map] at hlength
      rw [List.append_nil, hlength]
  | cons m rest =>
      rw [hpipe, List.flatMap_cons] at hrest
      exact absurd (List.append_eq_nil_iff.mp hrest.symm).1 m.bytes_ne_nil

/-- Two messages are written before the first is read: the second becomes a part of the
text of the first. -/
theorem two_messages_one_line : ∃ tr s, (fifo zeroed).Run tr s ∧
    (observe written tr).map Message.told = [sayHi.told, sayHi.told] ∧ s.pipe = [] ∧
    s.printed = [⟨sampleHour, paddedPid 42, sampleHour, [104, 105, 10] ++ sayHi.bytes⟩] ∧
    ¬Reported (observe written tr) s := by
  have hreplay : (((fifo zeroed).replay [.openFifo 42, .write sayHi, .write sayHi,
      .read sampleHour]).map fun r =>
        ((observe written r.1).map Message.told, r.2.pipe, r.2.printed)) =
      some ([sayHi.told, sayHi.told], [],
        [⟨sampleHour, paddedPid 42, sampleHour, [104, 105, 10] ++ sayHi.bytes⟩]) := by
    decide +kernel
  obtain ⟨⟨tr, s⟩, hrun, heq⟩ := Option.map_eq_some_iff.mp hreplay
  obtain ⟨hwritten, heq⟩ := Prod.mk.inj heq
  obtain ⟨hpipe, hprinted⟩ := Prod.mk.inj heq
  refine ⟨tr, s, (fifo zeroed).run_of_replay _ hrun, hwritten, hpipe, hprinted, fun h => ?_⟩
  have hlength := h.length_printed hpipe
  have htold := congrArg List.length hwritten
  rw [List.length_map] at htold
  rw [hprinted, htold] at hlength
  exact absurd hlength (by decide)

end Sysopy.NamedPipe
