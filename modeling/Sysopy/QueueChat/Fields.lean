import Sysopy.Foundation.Memory
import Sysopy.QueueChat.Slots

/-!
# The fields of a POSIX message

A message is a `my_msg_buf` that the client fills with `strcpy` and sends as a
whole. Its fields lie next to each other: the slash and an identifier of 20
characters fill `client_id` to the last byte, the NUL goes into the timestamp
field, and the timestamp overwrites it.

## Sections

* §1 the structure
* §2 the client
* §3 what the server reads
-/

namespace Sysopy.QueueChat.Fields

open Sysopy.Foundation

/-! ## §1  The structure -/

/-- The offset of `client_id[21]`, behind the `int` of `msg_type`. -/
def clientIdAt : ℕ := 4

/-- The offset of `timestamp[9]`. -/
def timestampAt : ℕ := 25

/-- The offset of `msg_body[1000]`. -/
def msgBodyAt : ℕ := 34

def msgBufSize : ℕ := 1036

/-- A `my_msg_buf` with any content. -/
structure MsgBuf where
  bytes : List Byte
  size : bytes.length = msgBufSize

def slash : Byte := 47

structure Identifier where
  bytes : List Byte
  noNul : 0 ∉ bytes
  noSlash : slash ∉ bytes
  fits : bytes.length ≤ 20

/-- `client_id`: a slash and the identifier. -/
def Identifier.clientId (id : Identifier) : Name := slash :: id.bytes

/-! ## §2  The client -/

def twoDigits (n : Fin 100) : List Byte :=
  [48 + UInt8.ofNat (n / 10), 48 + UInt8.ofNat (n % 10)]

/-- `format_hour`: `hh:mm:ss`. -/
def formatHour (hour min sec : Fin 100) : List Byte :=
  twoDigits hour ++ 58 :: twoDigits min ++ 58 :: twoDigits sec

/-- A line from `fgets` and the hour at which it is sent. -/
structure Line where
  hour : Fin 100
  min : Fin 100
  sec : Fin 100
  text : List Byte
  noNul : 0 ∉ text
  fits : text.length ≤ 999

def Line.timestamp (l : Line) : List Byte := formatHour l.hour l.min l.sec

/-- `send_init_msg`: the message with the type and the identifier filled in. -/
def initMsg (id : Identifier) (buf : List Byte) : List Byte :=
  strcpy clientIdAt id.clientId (store 0 [1, 0, 0, 0] buf)

def fillLine (l : Line) (buf : List Byte) : List Byte :=
  strcpy msgBodyAt l.text (strcpy timestampAt l.timestamp buf)

/-- The loop of `sender_loop` over the lines typed: what is sent for each. It
ends with the line "exit". -/
def sendLines : List Line → List Byte → List (Line × List Byte)
  | [], _ => []
  | l :: ls, buf =>
      (l, fillLine l buf) ::
        if l.text = exitText then [] else sendLines ls (fillLine l buf)

/-- `sender_loop`: the identifier is filled in once, before the loop. -/
def senderLoop (id : Identifier) (ls : List Line) (buf : List Byte) :
    List (Line × List Byte) :=
  sendLines ls (strcpy clientIdAt id.clientId buf)

/-! ## §3  What the server reads -/

theorem length_timestamp (l : Line) : l.timestamp.length = 8 := rfl

theorem zero_notMem_timestamp (l : Line) : 0 ∉ l.timestamp := by
  have hdigits : ∀ n, 0 ∉ twoDigits n := by decide
  simp [Line.timestamp, formatHour, hdigits]

theorem Identifier.zero_notMem (id : Identifier) : 0 ∉ id.clientId := by
  simp [Identifier.clientId, id.noNul, slash]

theorem Identifier.length_clientId (id : Identifier) :
    id.clientId.length = id.bytes.length + 1 := rfl

section Fill

variable (l : Line) {id : Identifier} {buf : List Byte}

theorem length_strcpy_timestamp (h : buf.length = msgBufSize) :
    (strcpy timestampAt l.timestamp buf).length = msgBufSize := by
  rw [length_strcpy, h]
  rw [h, length_timestamp]
  decide

theorem length_fillLine (h : buf.length = msgBufSize) :
    (fillLine l buf).length = msgBufSize := by
  have htime := length_strcpy_timestamp l h
  have hfits := l.fits
  rw [fillLine, length_strcpy, htime]
  rw [htime]
  unfold msgBodyAt msgBufSize
  omega

theorem cString_timestamp (h : buf.length = msgBufSize) :
    cString timestampAt (fillLine l buf) = some l.timestamp := by
  refine cString_store_behind (cString_strcpy (zero_notMem_timestamp l) ?_) ?_ ?_
  · rw [h]
    decide
  · rw [length_timestamp]
    decide
  · rw [length_strcpy_timestamp l h]
    decide

theorem cString_msgBody (h : buf.length = msgBufSize) :
    cString msgBodyAt (fillLine l buf) = some l.text := by
  apply cString_strcpy l.noNul
  rw [length_strcpy_timestamp l h]
  decide

theorem prefix_fillLine (h : buf.length = msgBufSize)
    (hid : id.clientId <+: buf.drop clientIdAt) :
    id.clientId <+: (fillLine l buf).drop clientIdAt := by
  have hfits := id.fits
  have hlen := id.length_clientId
  refine prefix_store_behind (prefix_store_behind hid ?_ ?_) ?_ ?_
  · unfold clientIdAt timestampAt
    omega
  · rw [h]
    decide
  · unfold clientIdAt msgBodyAt
    omega
  · rw [length_strcpy_timestamp l h]
    decide

/-- What the server reads from `client_id`: an identifier of 20 characters runs
on into the timestamp. -/
def sentName (id : Identifier) (l : Line) : Name :=
  if id.bytes.length ≤ 19 then id.clientId else id.clientId ++ l.timestamp

/-- The NUL of a shorter identifier stays inside the field. -/
theorem cString_clientId_short (h : buf.length = msgBufSize) (hshort : id.bytes.length ≤ 19)
    (hid : cString clientIdAt buf = some id.clientId) :
    cString clientIdAt (fillLine l buf) = some id.clientId := by
  have hlen := id.length_clientId
  refine cString_store_behind (cString_store_behind hid ?_ ?_) ?_ ?_
  · unfold clientIdAt timestampAt
    omega
  · rw [h]
    decide
  · unfold clientIdAt msgBodyAt
    omega
  · rw [length_strcpy_timestamp l h]
    decide

/-- The timestamp is written onto the NUL of an identifier of 20 characters. -/
theorem cString_clientId_full (h : buf.length = msgBufSize) (hfull : id.bytes.length = 20)
    (hid : id.clientId <+: buf.drop clientIdAt) :
    cString clientIdAt (fillLine l buf) = some (id.clientId ++ l.timestamp) := by
  have hlen := id.length_clientId
  have hat : timestampAt = clientIdAt + id.clientId.length := by
    rw [hlen, hfull]
    rfl
  have hjoin : cString clientIdAt (strcpy timestampAt l.timestamp buf) =
      some (id.clientId ++ l.timestamp) := by
    rw [hat]
    apply cString_strcpy_join hid id.zero_notMem (zero_notMem_timestamp l)
    rw [← hat, h]
    decide
  refine cString_store_behind hjoin ?_ ?_
  · rw [List.length_append, hlen, hfull, length_timestamp]
    decide
  · rw [length_strcpy_timestamp l h]
    decide

end Fill

theorem cString_sendLines {id : Identifier} : ∀ (ls : List Line) {buf : List Byte},
    buf.length = msgBufSize → id.clientId <+: buf.drop clientIdAt →
    (id.bytes.length ≤ 19 → cString clientIdAt buf = some id.clientId) →
    ∀ x ∈ sendLines ls buf, cString clientIdAt x.2 = some (sentName id x.1) ∧
      cString timestampAt x.2 = some x.1.timestamp ∧ cString msgBodyAt x.2 = some x.1.text
  | [], _, _, _, _, x, hx => absurd hx List.not_mem_nil
  | l :: ls, buf, h, hid, hshort, x, hx => by
      have hname : cString clientIdAt (fillLine l buf) = some (sentName id l) := by
        unfold sentName
        split_ifs with hlen
        · exact cString_clientId_short l h hlen (hshort hlen)
        · have hfits := id.fits
          exact cString_clientId_full l h (by omega) hid
      rcases List.mem_cons.mp hx with rfl | hx
      · exact ⟨hname, cString_timestamp l h, cString_msgBody l h⟩
      · split_ifs at hx
        · exact absurd hx List.not_mem_nil
        · exact cString_sendLines ls (length_fillLine l h) (prefix_fillLine l h hid)
            (fun hlen => cString_clientId_short l h hlen (hshort hlen)) x hx

/-- The structure with an identifier of up to 19 characters filled in. -/
theorem filled_clientId {id : Identifier} (hlen : id.bytes.length ≤ 19) (buf : MsgBuf) :
    (strcpy clientIdAt id.clientId buf.bytes).length = msgBufSize ∧
      cString clientIdAt (strcpy clientIdAt id.clientId buf.bytes) = some id.clientId := by
  constructor
  · rw [length_strcpy, buf.size]
    rw [buf.size, id.length_clientId]
    unfold clientIdAt msgBufSize
    omega
  · apply cString_strcpy id.zero_notMem
    rw [buf.size]
    decide

theorem cString_senderLoop {id : Identifier} (hlen : id.bytes.length ≤ 19) (ls : List Line)
    (buf : MsgBuf) : ∀ x ∈ senderLoop id ls buf.bytes,
      cString clientIdAt x.2 = some id.clientId ∧
        cString timestampAt x.2 = some x.1.timestamp ∧ cString msgBodyAt x.2 = some x.1.text := by
  intro x hx
  obtain ⟨hsize, hstart⟩ := filled_clientId hlen buf
  have hread := cString_sendLines ls hsize (prefix_of_cString hstart) (fun _ => hstart) x hx
  rwa [sentName, if_pos hlen] at hread

def nameCapacity : ℕ := 21

theorem cString_initMsg (id : Identifier) (buf : MsgBuf) :
    cString clientIdAt (initMsg id buf.bytes) = some id.clientId := by
  apply cString_strcpy id.zero_notMem
  rw [length_store, buf.size]
  · decide
  · rw [buf.size]
    decide

/-- **The fields of a message survive for identifiers of up to 19 characters**:
whatever the structures held before, the server reads from every text the slash
and the identifier, the timestamp and the line, and the identifier of the init
message fits where the server copies it. -/
theorem fields_survive_iff (id : Identifier) (ls : List Line) (buf initBuf : MsgBuf) :
    ((∀ x ∈ senderLoop id ls buf.bytes, cString clientIdAt x.2 = some id.clientId ∧
        cString timestampAt x.2 = some x.1.timestamp ∧ cString msgBodyAt x.2 = some x.1.text) ∧
      cString clientIdAt (initMsg id initBuf.bytes) = some id.clientId ∧
      (terminated 0 id.clientId).length ≤ nameCapacity) ↔
    id.bytes.length ≤ 19 := by
  have hcapacity : (terminated 0 id.clientId).length ≤ nameCapacity ↔ id.bytes.length ≤ 19 := by
    rw [terminated, List.length_append, List.length_singleton, id.length_clientId]
    unfold nameCapacity
    omega
  constructor
  · rintro ⟨-, -, hfits⟩
    exact hcapacity.mp hfits
  · intro hlen
    exact ⟨cString_senderLoop hlen ls buf, cString_initMsg id initBuf, hcapacity.mpr hlen⟩

def longId : Identifier where
  bytes := List.replicate 20 97
  noNul := by decide
  noSlash := by decide
  fits := by decide

/-- The line "hi" at 12:34:56. -/
def hiLine : Line where
  hour := 12
  min := 34
  sec := 56
  text := [104, 105]
  noNul := by decide
  fits := by decide

def zeroBuf : MsgBuf where
  bytes := List.replicate msgBufSize 0
  size := List.length_replicate

/-- Of the text "hi" at 12:34:56 from the identifier of twenty a the server reads
a name that ends in 12:34:56; and the name of its init message needs 22 bytes. -/
theorem long_identifier_joined :
    (∃ x ∈ senderLoop longId [hiLine] zeroBuf.bytes, cString clientIdAt x.2 =
      some (longId.clientId ++ [49, 50, 58, 51, 52, 58, 53, 54])) ∧
    (terminated 0 longId.clientId).length = 22 ∧ nameCapacity = 21 := by
  refine ⟨⟨_, List.mem_cons_self, ?_⟩, by decide, rfl⟩
  have hfilled : cString clientIdAt (strcpy clientIdAt longId.clientId zeroBuf.bytes) =
      some longId.clientId := by
    apply cString_strcpy longId.zero_notMem
    rw [zeroBuf.size]
    decide
  refine cString_clientId_full hiLine ?_ rfl (prefix_of_cString hfilled)
  rw [length_strcpy, zeroBuf.size]
  rw [zeroBuf.size]
  decide

end Sysopy.QueueChat.Fields
