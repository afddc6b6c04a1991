import Mathlib.Data.Nat.Digits.Defs
import Sysopy.Foundation.Ints
import Sysopy.QueueChat.Fields
import Sysopy.QueueChat.Posix

/-!
# The type of a text

`sender_loop` of the POSIX client fills in every field of its `my_msg_buf` but the first:
`msg_type` stays what the structure has found in memory. The server only compares it with
`MSG_TYPE_INIT`, so that any other value is as good as `MSG_TYPE_TEXT`.

## Sections

* §1 what the server receives
* §2 the type of what is sent
* §3 which texts are taken as texts
-/

namespace Sysopy.QueueChat.Fields

open Foundation Posix

/-! ## §1  What the server receives -/

/-- The `int` in the first four bytes, the lowest byte first. -/
def msgTypeOf (bytes : List Byte) : ℤ :=
  toInt (Nat.ofDigits 256 ((bytes.take clientIdAt).map UInt8.toNat) : ℕ)

/-- What `receive_message_block` leaves in `in_msg_buf`, as the server reads it; `none` if
it finds no NUL. -/
def received (bytes : List Byte) : Option Message := do
  let clientId ← cString clientIdAt bytes
  let timestamp ← cString timestampAt bytes
  let msgBody ← cString msgBodyAt bytes
  some ⟨msgTypeOf bytes, clientId, timestamp, msgBody⟩

def textMessage (id : Identifier) (l : Line) : Message :=
  ⟨msgTypeText, id.clientId, l.timestamp, l.text⟩

/-- What comes of a message that is a text or an exit: the clients stay, and the text is
relayed, or the exit is handled. -/
def HandledAsText (s : Server) (msg : Message) (t : Server) (sends : List (ℤ × Message)) : Prop :=
  if msg.msgBody = exitText then t = handleExit s msg.clientId ∧ sends = []
  else t = s ∧ sends = relay s msg

/-- Whatever is typed and whatever the server has been through, each line is handled as the
message that it is. -/
def TakenAsText (id : Identifier) (buf : MsgBuf) : Prop :=
  ∀ ls, ∀ x ∈ senderLoop id ls buf.bytes, ∀ queues tr s, (server queues).Run tr s → ∀ opened,
    ∃ msg t sends, received x.2 = some msg ∧ handle s msg opened = some (t, sends) ∧
      HandledAsText s (textMessage id x.1) t sends

variable {id : Identifier} {buf : MsgBuf} {s : Server}

/-! ## §2  The type of what is sent -/

theorem msgTypeOf_store {off : ℕ} {bs bytes : List Byte} (hoff : clientIdAt ≤ off)
    (hbytes : off ≤ bytes.length) : msgTypeOf (store off bs bytes) = msgTypeOf bytes := by
  rw [msgTypeOf, take_store hoff hbytes]
  rfl

theorem msgTypeOf_fillLine (l : Line) {bytes : List Byte} (h : bytes.length = msgBufSize) :
    msgTypeOf (fillLine l bytes) = msgTypeOf bytes := by
  have htime := length_strcpy_timestamp l h
  rw [fillLine, strcpy, msgTypeOf_store (by decide) (by rw [htime]; decide), strcpy,
    msgTypeOf_store (by decide) (by rw [h]; decide)]

/-- No turn of the loop sets the type. -/
theorem msgTypeOf_sendLines : ∀ (ls : List Line) {bytes : List Byte},
    bytes.length = msgBufSize → ∀ x ∈ sendLines ls bytes, msgTypeOf x.2 = msgTypeOf bytes
  | [], _, _, x, hx => absurd hx List.not_mem_nil
  | l :: ls, bytes, h, x, hx => by
      rcases List.mem_cons.mp hx with rfl | hx
      · exact msgTypeOf_fillLine l h
      · split_ifs at hx
        · exact absurd hx List.not_mem_nil
        · have hrest := msgTypeOf_sendLines ls (length_fillLine l h) x hx
          rw [hrest, msgTypeOf_fillLine l h]

/-- **Every text has the type that was found in memory**, and its other fields are what was
typed. -/
theorem received_text (hlen : id.bytes.length ≤ 19) {ls : List Line} {x : Line × List Byte}
    (hx : x ∈ senderLoop id ls buf.bytes) :
    received x.2 = some { textMessage id x.1 with msgType := msgTypeOf buf.bytes } := by
  obtain ⟨hclientId, htimestamp, hmsgBody⟩ := cString_senderLoop hlen ls buf x hx
  have htype := msgTypeOf_sendLines ls (filled_clientId hlen buf).1 x hx
  rw [strcpy, msgTypeOf_store le_rfl (by rw [buf.size]; decide)] at htype
  simp only [received, hclientId, htimestamp, hmsgBody, htype, Option.bind_eq_bind,
    Option.bind_some]
  rfl

/-! ## §3  Which texts are taken as texts -/

theorem handle_text (s : Server) (msg : Message) {msgType : ℤ} (htype : msgType ≠ msgTypeInit)
    (opened : Bool) : ∃ t sends,
      handle s { msg with msgType := msgType } opened = some (t, sends) ∧
        HandledAsText s msg t sends := by
  unfold handle HandledAsText
  rw [if_neg htype]
  split_ifs
  · exact ⟨_, _, rfl, rfl, rfl⟩
  · exact ⟨_, _, rfl, rfl, rfl⟩

theorem sends_of_init {msg : Message} {msgType : ℤ} {opened : Bool} {t : Server}
    {sends : List (ℤ × Message)} (htype : msgType = msgTypeInit)
    (h : handle s { msg with msgType := msgType } opened = some (t, sends)) : sends = [] := by
  rw [handle, if_pos htype] at h
  obtain ⟨u, -, hu⟩ := Option.map_eq_some_iff.mp h
  exact (Prod.mk.inj hu).2.symm

def other (id : Identifier) : Name := if id.bytes = [97] then [slash, 98] else [slash, 97]

theorem other_ne (id : Identifier) : other id ≠ id.clientId := by
  unfold other
  split_ifs with h
  · rw [Identifier.clientId, h]
    decide
  · intro heq
    exact h (List.cons.inj heq).2.symm

/-- The server before any client, with no queue of a client left from before. -/
def atStart : Server := (server ⟨fun _ => none, 0⟩).init

theorem server_next (queues : Queues) (s : Server) (a : Action) :
    (server queues).next s a = (handle s a.msg a.opened).map Prod.fst := rfl

theorem next_register {queues : Queues} {name : Name} {i : Slot} (hroom : s.numClients ≠ maxClients)
    (hname : s.queues.named name = none) (hslot : findSlot s.clientsQueueIds = some i) :
    (server queues).next s ⟨⟨msgTypeInit, name, [], []⟩, true⟩ = some (s.register name i) := by
  rw [server_next, handle, if_pos rfl, handleInit, if_neg hroom]
  simp only [if_true, Queues.create, hname, hslot]
  rfl

theorem relay_ne_nil {name : Name} {msg : Message} (hname : name ≠ msg.clientId) :
    relay (atStart.register name 0) msg ≠ [] := by
  have hname' : some name ≠ some msg.clientId := fun h => hname (Option.some.inj h)
  have hslot : ((atStart.register name 0).clientsQueueIds 0 : ℤ) ≠ emptyClientSlot :=
    QueueIds.natCast_ne_empty 0
  refine List.ne_nil_of_mem (List.mem_map_of_mem (a := 0) (List.mem_filter.mpr ⟨?_, ?_⟩))
  · exact List.mem_finRange 0
  · exact decide_eq_true ⟨hslot, hname'⟩

/-- **A text is taken as a text exactly if the memory of its structure does not begin with
the type of an init message.** -/
theorem takenAsText_iff (hlen : id.bytes.length ≤ 19) :
    TakenAsText id buf ↔ msgTypeOf buf.bytes ≠ msgTypeInit := by
  constructor
  · intro h htype
    have hrun : (server ⟨fun _ => none, 0⟩).Run [(atStart, _)] (atStart.register (other id) 0) :=
      .snoc .nil (next_register (by decide) rfl (by decide))
    have hx : (hiLine, fillLine hiLine (strcpy clientIdAt id.clientId buf.bytes)) ∈
        senderLoop id [hiLine] buf.bytes := List.mem_cons_self
    obtain ⟨msg, t, sends, hmsg, hhandle, htext⟩ := h [hiLine] _ hx _ _ _ hrun false
    rw [received_text hlen hx] at hmsg
    obtain rfl := Option.some.inj hmsg
    have hsends := sends_of_init htype hhandle
    have hne : (textMessage id hiLine).msgBody ≠ exitText :=
      show hiLine.text ≠ exitText by decide
    change HandledAsText _ (textMessage id hiLine) t sends at htext
    rw [HandledAsText, if_neg hne] at htext
    exact relay_ne_nil (other_ne id) (htext.2.symm.trans hsends)
  · intro htype ls x hx queues tr s hrun opened
    obtain ⟨t, sends, hhandle, htext⟩ := handle_text s (textMessage id x.1) htype opened
    exact ⟨_, t, sends, received_text hlen hx, hhandle, htext⟩

def shortId : Identifier where
  bytes := [107]
  noNul := by decide
  noSlash := by decide
  fits := by decide

/-- In zeroed memory there is no init message. -/
theorem takenAsText_iff_zero :
    TakenAsText shortId zeroBuf ↔ msgTypeOf zeroBuf.bytes ≠ msgTypeInit :=
  takenAsText_iff (by decide)

/-- Memory that begins with the `int` 1. -/
def initBuf : MsgBuf where
  bytes := [1, 0, 0, 0] ++ List.replicate (msgBufSize - 4) 0
  size := by rw [List.length_append, List.length_replicate]; rfl

def twoClients : Server := (atStart.register [slash, 107] 0).register [slash, 98] 1

theorem twoClients_run : ∃ tr, (server ⟨fun _ => none, 0⟩).Run tr twoClients :=
  ⟨_, .snoc (.snoc .nil (next_register (by decide) rfl (by decide)))
    (next_register (by decide) (by decide) (by decide))⟩

/-- The line "hi" of k comes to nothing there, though it should go to b. -/
theorem text_is_taken_for_init : (∃ tr, (server ⟨fun _ => none, 0⟩).Run tr twoClients) ∧
    (∃ x ∈ senderLoop shortId [hiLine] initBuf.bytes, ∃ msg, received x.2 = some msg ∧
      handle twoClients msg true = some (twoClients, []) ∧
      (relay twoClients (textMessage shortId x.1)).map Prod.fst = [1]) ∧
    ¬TakenAsText shortId initBuf := by
  have hx : (hiLine, fillLine hiLine (strcpy clientIdAt shortId.clientId initBuf.bytes)) ∈
      senderLoop shortId [hiLine] initBuf.bytes := List.mem_cons_self
  have hreceived := received_text (show shortId.bytes.length ≤ 19 by decide) hx
  have htype : msgTypeOf initBuf.bytes = msgTypeInit := by decide
  have hhandle : handle twoClients { textMessage shortId hiLine with
      msgType := msgTypeOf initBuf.bytes } true = some (twoClients, []) := by
    rw [handle, if_pos htype]
    rfl
  have hrelay : (relay twoClients (textMessage shortId hiLine)).map Prod.fst = [1] := by decide
  refine ⟨twoClients_run, ⟨_, hx, _, hreceived, hhandle, hrelay⟩, fun h => ?_⟩
  obtain ⟨tr, hrun⟩ := twoClients_run
  obtain ⟨msg, t, sends, hmsg, hhandle', htext⟩ := h [hiLine] _ hx _ _ _ hrun true
  obtain rfl := Option.some.inj (hreceived.symm.trans hmsg)
  obtain ⟨-, rfl⟩ := Prod.mk.inj (Option.some.inj (hhandle.symm.trans hhandle'))
  have hnil : [] = relay twoClients (textMessage shortId hiLine) := htext.2
  rw [← hnil] at hrelay
  exact absurd hrelay (by decide)

end Sysopy.QueueChat.Fields
