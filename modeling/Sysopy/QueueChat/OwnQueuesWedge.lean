import Sysopy.QueueChat.OwnQueuesDelivery

/-!
# Who the System V server waits for

The communicator alone takes the lines of the clients out of their queues, and it waits
for room in a queue before it goes on. So a client that types faster than the server
polls can fill its queue with lines of its own, and then the server waits for the room
that only it could make.

## Sections

* §1 a call that never returns
* §2 a call that can return
-/

namespace Sysopy.QueueChat.OwnQueues

open Sysopy.Foundation
open Sysopy.QueueChat.SysV (CommPc commStep)

variable {c d : Chat} {a : Action} {i j : Slot} {msg : Message} {q : ℤ}

/-! ## §1  A call that never returns -/

/-- The queue is full, and nobody will take a message out of it while the server waits:
the client has gone, or there is no text for it in the queue. -/
structure Jammed (c : Chat) (q : ℤ) : Prop where
  full : ¬ Room (c.queue q)
  idle : c.client q = .exited ∨ waiting s2c c q = []

/-- The communicator is at its call of `send_message` for slot `j`. -/
structure Sending (c : Chat) (i : Slot) (msg : Message) (j : Slot) : Prop where
  comm : c.server.comm = .relay i msg j
  other : i ≠ j
  used : c.slots j ≠ emptyClientSlot

theorem Jammed.elsewhere {q' : ℤ} (hq : q ≠ q') (h : Jammed c q) (msgs : List Message)
    (pc : ClientPc) : Jammed { c with
      queue := Function.update c.queue q' msgs
      client := Function.update c.client q' pc } q where
  full := by
    show ¬ Room (Function.update c.queue q' msgs q)
    rw [Function.update_of_ne hq]
    exact h.full
  idle := by
    simp only [waiting, Function.update_of_ne hq]
    exact h.idle

theorem Jammed.client (h : Jammed c q) (q' : ℤ) {pc : ClientPc}
    (hpc : c.client q' = .exited → pc = .exited) :
    Jammed { c with client := Function.update c.client q' pc } q where
  full := h.full
  idle := h.idle.imp_left (exited_update hpc)

theorem Jammed.next (hc : Kept c)
    (hfree : ∀ n k, c.server.accept = .store n k → c.slots k = emptyClientSlot)
    (hsending : Sending c i msg j) (hjammed : Jammed c (c.slots j)) (h : next c a = some d) :
    Sending d i msg j ∧ d.slots j = c.slots j ∧ Jammed d (c.slots j) := by
  obtain ⟨hcomm, hother, hused⟩ := hsending
  cases does_of_next h with
  | accept ans n pc _ _ => exact ⟨⟨hcomm, hother, hused⟩, rfl, { hjammed with }⟩
  | create ans key hpc =>
      have habsent : c.client c.fresh = .absent := (hc.absent_iff _).mpr (Or.inr le_rfl)
      have hstart : c.client c.fresh = .exited → ClientPc.opening = .exited := fun h =>
        ClientPc.noConfusion (habsent.symm.trans h)
      have hclient := hjammed.client c.fresh hstart
      exact ⟨⟨hcomm, hother, hused⟩, rfl, { hclient with }⟩
  | store ans n k hpc =>
      -- the slot that is filled was empty
      have hne : j ≠ k := fun heq => hused (heq ▸ hfree n k hpc)
      have hslot : Function.update c.slots k (n : ℤ) j = c.slots j := Function.update_of_ne hne ..
      exact ⟨⟨hcomm, hother, hslot.trans_ne hused⟩, hslot, { hjammed with }⟩
  | pass i' hpc | leave i' _ _ hpc | take i' _ _ hpc | remove i' hpc | clear i' hpc =>
      exact CommPc.noConfusion (hcomm.symm.trans hpc)
  | finish i' msg' j' hpc hj =>
      obtain ⟨-, -, rfl⟩ := CommPc.relay.inj (hcomm.symm.trans hpc)
      exact absurd j.isLt (Nat.not_lt_of_le hj)
  | skip i' msg' j' hpc hskip =>
      obtain ⟨rfl, -, hj⟩ := CommPc.relay.inj (hcomm.symm.trans hpc)
      obtain rfl := Fin.val_injective hj
      exact absurd hskip (not_or.mpr ⟨hother, hused⟩)
  | send i' msg' j' hpc _ _ hroom =>
      obtain ⟨-, -, hj⟩ := CommPc.relay.inj (hcomm.symm.trans hpc)
      obtain rfl := Fin.val_injective hj
      exact absurd hroom hjammed.full
  | openQueue q' hpc =>
      exact ⟨⟨hcomm, hother, hused⟩, rfl,
        hjammed.client q' fun h => ClientPc.noConfusion (hpc.symm.trans h)⟩
  | type q' msg' pc hpc hroom hpc' =>
      have hne : c.slots j ≠ q' := fun heq => hjammed.full (heq ▸ hroom)
      exact ⟨⟨hcomm, hother, hused⟩, rfl, hjammed.elsewhere hne _ pc⟩
  | receive q' msg' rest pc hpc htake hpc' =>
      have hne : c.slots j ≠ q' := by
        rintro rfl
        have htexts := filter_takeFirst htake
        rcases hjammed.idle with hgone | hnone
        · exact ClientPc.noConfusion (hpc.symm.trans hgone)
        · exact absurd (hnone.symm.trans htexts) (List.cons_ne_nil _ _).symm
      exact ⟨⟨hcomm, hother, hused⟩, rfl, hjammed.elsewhere hne rest pc⟩
  | die q' hpc => exact ⟨⟨hcomm, hother, hused⟩, rfl, hjammed.client q' fun _ => rfl⟩

theorem Jammed.path {tr tr' : List (Chat × Action)} (hrun : chat.Run tr c)
    (hsending : Sending c i msg j) (hjammed : Jammed c (c.slots j)) (h : chat.Path c tr' d) :
    Sending d i msg j ∧ d.slots j = c.slots j := by
  suffices hall : (∃ tr, chat.Run tr d) ∧ Sending d i msg j ∧ d.slots j = c.slots j ∧
      Jammed d (c.slots j) from ⟨hall.2.1, hall.2.2.1⟩
  refine h.invariant (I := fun _ d => (∃ tr, chat.Run tr d) ∧ Sending d i msg j ∧
    d.slots j = c.slots j ∧ Jammed d (c.slots j)) ⟨⟨tr, hrun⟩, hsending, rfl, hjammed⟩ ?_
  rintro _ e a f ⟨⟨tr'', hrun'⟩, he, hslot, hjam⟩ hn
  rw [← hslot] at hjam
  obtain ⟨hf, hslot', hjam'⟩ := hjam.next (run_kept hrun') (fun _ _ => run_free hrun') he hn
  exact ⟨⟨_, System.Path.snoc hrun' hn⟩, hf, hslot'.trans hslot, hslot ▸ hjam'⟩

/-! ## §2  A call that can return -/

/-- The call for slot `j` has returned. -/
def Returns (c : Chat) (i : Slot) (msg : Message) (j : Slot) : Prop :=
  ∃ tr d, chat.Path c tr d ∧ d.server.comm = .relay i msg (j + 1)

theorem commTurn_of_room (h : Sending c i msg j) (hroom : Room (c.queue (c.slots j))) :
    commTurn c = some { c.goto (.relay i msg (j + 1)) with
      queue := Function.update c.queue (c.slots j) (c.queue (c.slots j) ++ [msg]) } := by
  obtain ⟨hcomm, hother, hused⟩ := h
  have hcall : i ≠ j ∧ c.server.shared.clientsQueueIds j ≠ emptyClientSlot := ⟨hother, hused⟩
  simp only [commTurn, hcomm, commStep, dif_pos j.isLt, Fin.eta, if_pos hcall]
  exact if_pos hroom

theorem returns_of_room (h : Sending c i msg j) (hroom : Room (c.queue (c.slots j))) :
    Returns c i msg j := by
  have hn : chat.next c .comm = some _ := commTurn_of_room h hroom
  exact ⟨_, _, System.Path.cons hn System.Path.nil, rfl⟩

theorem returns_of_reader (hc : Kept c) (h : Sending c i msg j)
    (hpc : c.client (c.slots j) = .loop) (htexts : waiting s2c c (c.slots j) ≠ []) :
    Returns c i msg j := by
  cases htake : msgrcv s2c (c.queue (c.slots j)) with
  | none =>
      refine absurd (List.filter_eq_nil_iff.mpr fun m hm => ?_) htexts
      simp [takeFirst_eq_none.mp htake m hm]
  | some r =>
      obtain ⟨m, rest⟩ := r
      let d : Chat := { c with
        queue := Function.update c.queue (c.slots j) rest
        client := Function.update c.client (c.slots j)
          (if m.msgBody = exitWord then .exited else .loop) }
      have hn : chat.next c (.receive (c.slots j)) = some d := by
        show receiverTurn c (c.slots j) = some d
        rw [receiverTurn, if_pos hpc, htake]
        rfl
      have hroom : Room (d.queue (d.slots j)) := by
        show Room (Function.update c.queue (c.slots j) rest (c.slots j))
        rw [Function.update_self]
        exact room_rest (hc.room _) htake
      obtain ⟨tr, e, hpath, hback⟩ := returns_of_room (c := d) ⟨h.comm, h.other, h.used⟩ hroom
      exact ⟨_, e, System.Path.cons hn hpath, hback⟩

theorem returns_of_opening (hc : Kept c) (h : Sending c i msg j)
    (hpc : c.client (c.slots j) = .opening) (htexts : waiting s2c c (c.slots j) ≠ []) :
    Returns c i msg j := by
  have hn : next c (.openQueue (c.slots j)) = some { c with
      client := Function.update c.client (c.slots j) .loop } := if_pos hpc
  obtain ⟨tr, e, hpath, hback⟩ := returns_of_reader (hc.next hn) ⟨h.comm, h.other, h.used⟩
    (Function.update_self ..) htexts
  have hn' : chat.next c (.openQueue (c.slots j)) = some _ := hn
  exact ⟨_, e, System.Path.cons hn' hpath, hback⟩

/-- A client of the table that is not gone and has a text to read makes room. -/
theorem returns_of_not_jammed (hc : Kept c) (h : Sending c i msg j)
    (hnot : ¬ Jammed c (c.slots j)) : Returns c i msg j := by
  by_cases hroom : Room (c.queue (c.slots j))
  · exact returns_of_room h hroom
  · have htexts : waiting s2c c (c.slots j) ≠ [] := fun hnone => hnot ⟨hroom, Or.inr hnone⟩
    cases hpc : c.client (c.slots j) with
    | absent =>
        rcases (hc.absent_iff _).mp hpc with hneg | hfresh
        · exact absurd hneg (not_lt_of_ge (hc.nonneg j h.used))
        · exact absurd hfresh (not_le_of_gt (hc.known j))
    | opening => exact returns_of_opening hc h hpc htexts
    | loop => exact returns_of_reader hc h hpc htexts
    | exited => exact absurd ⟨hroom, Or.inl hpc⟩ hnot

/-- **The server waits for good** exactly when the queue of its call is full and its client
has left or has no text to read there: in every continuation it is then at this call, and
otherwise some continuation lets the call return. -/
theorem jammed_iff {tr : List (Chat × Action)} (h : chat.Run tr c) (hsending : Sending c i msg j) :
    (∀ tr' d, chat.Path c tr' d →
      d.server.comm = .relay i msg j ∧ d.slots j = c.slots j) ↔
    ¬ Room (c.queue (c.slots j)) ∧
      (c.client (c.slots j) = .exited ∨
        ∀ m ∈ c.queue (c.slots j), m.msgType ≠ s2c) := by
  have hidle : waiting s2c c (c.slots j) = [] ↔ ∀ m ∈ c.queue (c.slots j), m.msgType ≠ s2c := by
    simp [waiting, List.filter_eq_nil_iff, hasType]
  rw [← hidle]
  constructor
  · intro hstays
    by_contra hnot
    obtain ⟨tr', d, hpath, hback⟩ := returns_of_not_jammed (run_kept h) hsending
      fun hjammed => hnot ⟨hjammed.full, hjammed.idle⟩
    obtain ⟨-, -, hj⟩ := CommPc.relay.inj ((hstays tr' d hpath).1.symm.trans hback)
    exact absurd hj (Nat.succ_ne_self j).symm
  · rintro ⟨hfull, hidle⟩ tr' d hpath
    obtain ⟨hsending', hslot⟩ := Jammed.path h hsending ⟨hfull, hidle⟩ hpath
    exact ⟨hsending'.comm, hslot⟩

/-- "hi" from the first client -/
def greeting : Message := ⟨12, [98], [], [104, 105, 10]⟩

/-- The first client greets, and the second one types fifteen lines before the server
comes to its slot. -/
def flooded : List Action :=
  joining 0 ++ joining 1 ++ [.type 0 greeting, .comm] ++ List.replicate 15 (.type 1 greeting) ++
    [.comm]

/-- Both clients are there, and the server waits. -/
theorem jammed_iff_flooded : ∃ tr c, chat.Run tr c ∧ c.client 0 = .loop ∧ c.client 1 = .loop ∧
    ∀ tr' d, chat.Path c tr' d → d.server.comm = .relay 0 greeting 1 ∧ d.slots 1 = 1 := by
  have hreplay : (chat.replay flooded).map (fun r => (r.2.server.comm, r.2.slots 1, r.2.client 0,
      r.2.client 1, r.2.queue 1)) =
      some (.relay 0 greeting 1, 1, .loop, .loop,
        List.replicate 15 { greeting with msgType := c2s }) := by decide +kernel
  obtain ⟨⟨tr, c⟩, hrun, heq⟩ := Option.map_eq_some_iff.mp hreplay
  simp only [Prod.mk.injEq] at heq
  obtain ⟨hcomm, hslot, hzero, hone, hqueue⟩ := heq
  have h := System.run_of_replay _ hrun
  have hsending : Sending c 0 greeting 1 := ⟨hcomm, by decide, by rw [hslot]; decide⟩
  refine ⟨tr, c, h, hzero, hone, fun tr' d hpath => ?_⟩
  have hstays := (jammed_iff h hsending).mpr ?_ tr' d hpath
  · exact ⟨hstays.1, hstays.2.trans hslot⟩
  · rw [hslot, hqueue]
    refine ⟨by decide, Or.inr fun m hm => ?_⟩
    rw [List.eq_of_mem_replicate hm]
    decide

end Sysopy.QueueChat.OwnQueues
