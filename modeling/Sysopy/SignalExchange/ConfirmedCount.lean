import Sysopy.SignalExchange.ConfirmedParent

/-!
# The confirmed exchange is exact

Every step of the child keeps the counts as well, and so they hold in every run.

## Sections

* §1 the child
* §2 what is printed
-/

namespace Sysopy.SignalExchange.Confirmed

open Sysopy.Foundation

variable {n : ℕ} {s t : State}

/-! ## §1  The child -/

theorem Sound.childGoto (h : Sound n s) {pc : ChildPc} {confirmation : ℕ}
    (hseen : pc.Seen ↔ s.child.pc.Seen) (hsent : pc.sent n = s.child.pc.sent n)
    (hacked : confirmation + pc.acked n = s.child.confirmation + s.child.pc.acked n)
    (hfresh : confirmation ≤ s.child.confirmation)
    (hready : s.child.pc.ready ≤ pc.ready) (htold : pc.told = s.child.pc.told)
    (hcleared : ∀ i, pc = .clear i → 0 < confirmation) :
    Sound n { s with child := { s.child with pc := pc, confirmation := confirmation } } where
  sending hpc := by
    have hsending := h.sending (mt hseen.mpr hpc)
    have hchild := hsending.childFresh
    exact { hsending with childFresh := by dsimp only; omega }
  resending hpc := by
    have hresending := h.resending (hseen.mp hpc)
    have hack := hresending.ack
    exact
      { hresending with
        data := hresending.data.trans hsent.symm
        ack := by dsimp only; omega }
  within := h.within
  childWithin := hsent ▸ h.childWithin
  cleared := h.cleared
  childCleared := hcleared
  marker := h.marker
  marks := by
    have hmarks := h.marks
    dsimp only
    omega
  flagged := h.flagged
  ended := htold ▸ h.ended

theorem Sound.childStay (h : Sound n s) {old pc : ChildPc} (hpc : s.child.pc = old)
    (hsame : (pc.Seen ↔ old.Seen) ∧ pc.sent n = old.sent n ∧ pc.acked n = old.acked n ∧
      old.ready ≤ pc.ready ∧ pc.told = old.told)
    (hcleared : ∀ i, pc = .clear i → 0 < s.child.confirmation) :
    Sound n { s with child := s.child.goto pc } := by
  subst hpc
  obtain ⟨hseen, hsent, hacked, hready, htold⟩ := hsame
  exact h.childGoto hseen hsent (congrArg _ hacked) (Nat.le_refl _) hready htold hcleared

theorem Sound.childReady (h : Sound n s) (hpc : s.child.pc = .killReady) :
    Sound n { parent := s.parent.kill .usr2, child := s.child.goto (.wait .test) } := by
  have hseen : ¬s.child.pc.Seen := by rw [hpc]; exact id
  have hsending := h.sending hseen
  have hdue {f : ParentFrame} : (s.parent.inbox.post .merged .usr2).due .usr1 f =
      s.parent.inbox.due .usr1 f := Inbox.due_post_of_ne (by decide)
  exact
    { h with
      sending := fun _ => { hsending with ack := by have := hsending.ack; rwa [← hdue] at this }
      resending := nofun
      childWithin := Nat.zero_le n
      childCleared := nofun
      marks := by
        have hmarks : s.parent.inbox.due .usr2 .mark + s.parent.flag + s.parent.pc.started ≤ 0 := by
          have hmarks := h.marks
          rwa [hpc] at hmarks
        have hpost := Inbox.due_post_le (d := .merged) (i := s.parent.inbox)
          (f := ParentFrame.mark) .usr2
        show (s.parent.inbox.post .merged .usr2).due .usr2 .mark + s.parent.flag +
          s.parent.pc.started ≤ 1
        omega
      ended := fun hover => absurd hover (h.not_over (by rw [hpc]; nofun)) }

theorem Sound.childKill (h : Sound n s) {i : ℕ} (hpc : s.child.pc = .resend i)
    (hi : i < s.child.counter) :
    Sound n { parent := s.parent.kill .usr1, child := s.child.goto (.confirm i .test) } := by
  have hseen : s.child.pc.Seen := by rw [hpc]; trivial
  have hresending := h.resending hseen
  have hdata := hresending.data
  have hack := hresending.ack
  rw [hpc, ChildPc.sent] at hdata
  rw [hpc, ChildPc.acked] at hack
  have hpending : s.parent.inbox.pending .usr1 = 0 := by
    rw [Inbox.due] at hdata
    omega
  exact
    { h with
      sending := fun h => absurd trivial h
      resending := fun _ =>
        { hresending with
          data := by
            show s.parent.counter + (s.parent.inbox.post .merged .usr1).due .usr1 .count = i + 1
            rw [Inbox.due_post_of_eq_zero hpending]
            omega
          ack := hack }
      childWithin := hresending.counted ▸ hi
      childCleared := fun _ hpc => by cases hpc
      marks := by
        have hmarks := h.marks
        rw [hpc] at hmarks
        show (s.parent.inbox.post .merged .usr1).due .usr2 .mark + _ + _ ≤ _
        rwa [Inbox.due_post_of_ne (by decide)]
      ended := fun hover => absurd hover (h.not_over fun hend => by cases hpc.symm.trans hend) }

theorem Sound.childTell (h : Sound n s) {i : ℕ} (hpc : s.child.pc = .resend i)
    (hi : ¬i < s.child.counter) :
    Sound n { parent := s.parent.kill .usr2, child := s.child.goto .ended } := by
  have hseen : s.child.pc.Seen := by rw [hpc]; trivial
  have hresending := h.resending hseen
  have hwithin := h.childWithin
  rw [hpc] at hwithin
  have heq : i = n := Nat.le_antisymm hwithin (hresending.counted ▸ Nat.not_lt.mp hi)
  have hdata := hresending.data
  have hack := hresending.ack
  rw [hpc, heq] at hdata hack
  exact
    { h with
      sending := fun h => absurd trivial h
      resending := fun _ =>
        { hresending with
          data := (congrArg _ (Inbox.due_post_of_ne (by decide))).trans hdata
          ack := hack }
      childWithin := Nat.le_refl n
      childCleared := nofun
      marks := by
        have hmarks : s.parent.inbox.due .usr2 .mark + s.parent.flag + s.parent.pc.started ≤ 1 := by
          have hmarks := h.marks
          rwa [hpc] at hmarks
        have hpost := Inbox.due_post_le (d := .merged) (i := s.parent.inbox)
          (f := ParentFrame.mark) .usr2
        show (s.parent.inbox.post .merged .usr2).due .usr2 .mark + s.parent.flag +
          s.parent.pc.started ≤ 2
        omega
      ended := fun _ => rfl }

/-- The child sees the end marker: all signals have been counted and confirmed. -/
theorem Sound.childSeen (h : Sound n s) (hquiet : s.child.inbox.Quiet)
    (hpc : s.child.pc = .wait .test) (hproceed : s.child.proceed ≠ 0) :
    Sound n { s with child := s.child.goto .print } := by
  have hseen : ¬s.child.pc.Seen := by rw [hpc]; exact id
  have hsending := h.sending hseen
  have hmarker := h.marker
  have htold : s.parent.pc.told = 1 := by
    have := s.parent.pc.told_le
    omega
  obtain ⟨hsent, hacked⟩ := ParentPc.sent_of_told (n := n) htold
  have hdata := hsending.data
  have hack := hsending.ack
  have hparent := hsending.parentFresh
  have hchild := hsending.childFresh
  have hcount := hquiet.due .usr1 ChildFrame.count
  have hconfirm := hquiet.due .usr1 ChildFrame.confirm
  have hrun := hquiet.running ChildFrame.count
  have hreply := hquiet.running ChildFrame.reply
  have hdue : s.parent.inbox.due .usr1 .confirm = 0 := by omega
  rw [Inbox.due] at hdue
  exact
    { h with
      sending := fun h => absurd trivial h
      resending := fun _ =>
        { counted := by dsimp only [Child.goto]; omega
          told := htold
          data := by
            show s.parent.counter + s.parent.inbox.due .usr1 .count = 0
            rw [Inbox.due]
            omega
          ack := by
            show s.parent.inbox.running .reply + s.child.inbox.due .usr1 .confirm +
              s.child.confirmation + 0 = s.parent.counter
            omega
          parentDone := by dsimp only; omega
          childDone := by dsimp only [Child.goto]; omega }
      childWithin := Nat.zero_le n
      childCleared := fun _ hpc => by cases hpc
      marks := by
        have hmarks := h.marks
        rwa [hpc] at hmarks
      ended := fun hover => absurd hover (h.not_over fun hend => by cases hpc.symm.trans hend) }

theorem Sound.childMain (h : Sound n s) (hquiet : s.child.inbox.Quiet)
    (hnext : s.childMain = some t) : Sound n t := by
  cases childStep hnext with
  | catchUsr1 hpc => exact h.childStay hpc ⟨Iff.rfl, rfl, rfl, Nat.le_refl _, rfl⟩ nofun
  | catchUsr2 hpc => exact h.childStay hpc ⟨Iff.rfl, rfl, rfl, Nat.le_refl _, rfl⟩ nofun
  | killReady hpc => exact h.childReady hpc
  | notSeen hpc => exact h.childStay hpc ⟨Iff.rfl, rfl, rfl, Nat.le_refl _, rfl⟩ nofun
  | seen hpc hproceed => exact h.childSeen hquiet hpc hproceed
  | pauseWait hpc => exact h.childStay hpc ⟨Iff.rfl, rfl, rfl, Nat.le_refl _, rfl⟩ nofun
  | print hpc => exact h.childStay hpc ⟨Iff.rfl, rfl, rfl, Nat.le_refl _, rfl⟩ nofun
  | switch hpc => exact h.childStay hpc ⟨Iff.rfl, rfl, rfl, Nat.le_refl _, rfl⟩ nofun
  | resend i hpc hi => exact h.childKill hpc hi
  | resent i hpc hi => exact h.childTell hpc hi
  | notConfirmed i hpc => exact h.childStay hpc ⟨Iff.rfl, rfl, rfl, Nat.le_refl _, rfl⟩ nofun
  | confirmed i hpc hconfirmation =>
      exact h.childStay hpc ⟨Iff.rfl, rfl, rfl, Nat.le_refl _, rfl⟩
        fun _ _ => Nat.pos_of_ne_zero hconfirmation
  | pauseConfirm i hpc => exact h.childStay hpc ⟨Iff.rfl, rfl, rfl, Nat.le_refl _, rfl⟩ nofun
  | clear i hpc =>
      have hcleared := h.childCleared i hpc
      have hseen : s.child.pc.Seen := by rw [hpc]; trivial
      have hbounds := (h.resending hseen).bounds
      refine h.childGoto (by rw [hpc]; exact Iff.rfl) (by rw [hpc]; rfl) ?_ (Nat.zero_le _)
        (by rw [hpc]; exact Nat.le_refl _) (by rw [hpc]; rfl) nofun
      rw [hpc]
      show 0 + (i + 1) = s.child.confirmation + i
      omega

/-- `++counter`, which only the first half knows. -/
theorem Sound.childCounts (h : Sound n s) {fs : List ChildFrame}
    (hframes : s.child.inbox.frames = .count :: fs) :
    Sound n { s with child := { s.child with counter := s.child.counter + 1
                                             inbox := s.child.inbox.goOn .reply } } := by
  have hseen := h.not_seen_of_child (.inl (Inbox.running_ne_zero hframes))
  have hcount := Inbox.due_goOn_self (g := .reply) .usr1 hframes (by decide)
  have hreply := Inbox.running_goOn_self (f := .reply) hframes (by decide)
  have hsending := h.sending hseen
  have hdata := hsending.data
  have hack := hsending.ack
  exact
    { h with
      sending := fun _ =>
        { hsending with
          data := by dsimp only; omega
          ack := by dsimp only; omega
          childFresh := by
            show _ + (s.child.inbox.goOn .reply).running .confirm = 0
            rw [Inbox.running_goOn_of_ne hframes (by decide) (by decide)]
            exact hsending.childFresh }
      resending := fun h => absurd h hseen
      marker := by
        show (s.child.inbox.goOn .reply).due .usr2 .mark + _ = _
        rw [Inbox.due_goOn_of_ne .usr2 hframes (by decide) (by decide)]
        exact h.marker }

/-- `kill`, while nothing else is pending for the parent. -/
theorem Sound.childReplies (h : Sound n s) {fs : List ChildFrame}
    (hframes : s.child.inbox.frames = .reply :: fs) :
    Sound n { parent := s.parent.kill .usr1
              child := { s.child with inbox := s.child.inbox.leave } } := by
  have hseen := h.not_seen_of_child (.inr (Inbox.running_ne_zero hframes))
  have hself := Inbox.running_leave_self hframes
  have hsending := h.sending hseen
  have hbounds := hsending.bounds
  have hack := hsending.ack
  have hpending : s.parent.inbox.pending .usr1 = 0 := by
    rw [Inbox.due, Inbox.due] at hbounds
    omega
  have hpost := Inbox.due_post_of_eq_zero (d := .merged) (f := ParentFrame.confirm) hpending
  exact
    { h with
      sending := fun _ =>
        { hsending with
          data := by
            show _ + s.child.inbox.leave.due .usr1 .count = _
            rw [Inbox.due_leave_of_ne .usr1 hframes (by decide)]
            exact hsending.data
          ack := by
            show s.child.inbox.leave.running .reply +
              (s.parent.inbox.post .merged .usr1).due .usr1 .confirm + s.parent.confirmation +
              s.parent.pc.acked n = s.child.counter
            omega
          childFresh := by
            show _ + s.child.inbox.leave.running .confirm = 0
            rw [Inbox.running_leave_of_ne hframes (by decide)]
            exact hsending.childFresh }
      resending := fun h => absurd h hseen
      marker := by
        show s.child.inbox.leave.due .usr2 .mark + _ = _
        rw [Inbox.due_leave_of_ne .usr2 hframes (by decide)]
        exact h.marker
      marks := by
        show (s.parent.inbox.post .merged .usr1).due .usr2 .mark + _ + _ ≤ _
        rw [Inbox.due_post_of_ne (by decide)]
        exact h.marks }

/-- `proceed = 1` -/
theorem Sound.childProceeds (h : Sound n s) {fs : List ChildFrame}
    (hframes : s.child.inbox.frames = .mark :: fs) :
    Sound n { s with child := { s.child with proceed := 1, inbox := s.child.inbox.leave } } := by
  have hself := Inbox.due_leave_self .usr2 hframes
  have htold := s.parent.pc.told_le
  have hmarker := h.marker
  have hrun {f : ChildFrame} (hf : f ≠ .mark) := Inbox.running_leave_of_ne hframes hf
  have hdue {f : ChildFrame} (hf : f ≠ .mark) := Inbox.due_leave_of_ne .usr1 hframes hf
  exact
    { h with
      sending := fun hseen =>
        (h.sending hseen).childInbox (hdue (by decide)) (hrun (by decide)) (hrun (by decide))
      resending := fun hseen =>
        (h.resending hseen).childInbox (hdue (by decide)) (hrun (by decide)) (hrun (by decide))
      marker := by dsimp only; omega }

/-- `confirmation = 1`, which only the second half knows. -/
theorem Sound.childConfirms (h : Sound n s) {fs : List ChildFrame}
    (hframes : s.child.inbox.frames = .confirm :: fs) :
    Sound n { s with child := { s.child with confirmation := 1
                                             inbox := s.child.inbox.leave } } := by
  have hseen := h.seen_of_child (Inbox.running_ne_zero hframes)
  have hself := Inbox.due_leave_self .usr1 hframes
  have hreply := Inbox.running_leave_of_ne (f := .reply) hframes (by decide)
  have hresending := h.resending hseen
  have hbounds := hresending.bounds
  have hack := hresending.ack
  exact
    { h with
      sending := fun h => absurd hseen h
      resending := fun _ =>
        { hresending with
          ack := by dsimp only; omega
          childDone := by
            show s.child.inbox.leave.running .count + s.child.inbox.leave.running .reply = 0
            rw [Inbox.running_leave_of_ne hframes (by decide), hreply]
            exact hresending.childDone }
      childCleared := fun _ _ => Nat.one_pos
      marker := by
        show s.child.inbox.leave.due .usr2 .mark + _ = _
        rw [Inbox.due_leave_of_ne .usr2 hframes (by decide)]
        exact h.marker }

theorem Sound.childHandle (h : Sound n s) (hnext : s.childHandle = some t) : Sound n t := by
  cases childHandler hnext with
  | count fs hframes => exact h.childCounts hframes
  | reply fs hframes => exact h.childReplies hframes
  | mark fs hframes => exact h.childProceeds hframes
  | confirm fs hframes => exact h.childConfirms hframes

theorem ChildPc.woken_eq (pc : ChildPc) : pc.woken = pc ∨
    ∃ old, pc = old ∧ (∀ n, (pc.woken.Seen ↔ old.Seen) ∧ pc.woken.sent n = old.sent n ∧
      pc.woken.acked n = old.acked n ∧ old.ready ≤ pc.woken.ready ∧ pc.woken.told = old.told) ∧
      ∀ i, pc.woken ≠ .clear i := by
  unfold woken
  split
  · exact Or.inr ⟨_, rfl, fun _ => ⟨Iff.rfl, rfl, rfl, Nat.le_refl _, rfl⟩, nofun⟩
  · exact Or.inr ⟨_, rfl, fun _ => ⟨Iff.rfl, rfl, rfl, Nat.le_refl _, rfl⟩, nofun⟩
  · exact Or.inl rfl

theorem ChildPc.seen_woken (pc : ChildPc) : pc.woken.Seen ↔ pc.Seen := by
  rcases pc.woken_eq with heq | ⟨old, hpc, hsame, -⟩
  · rw [heq]
  · exact hpc ▸ (hsame 0).1

theorem Sound.childWoken (h : Sound n s) :
    Sound n { s with child := s.child.goto s.child.pc.woken } := by
  rcases s.child.pc.woken_eq with heq | ⟨old, hpc, hsame, hclear⟩
  · rw [heq]
    exact h
  · exact h.childStay hpc (hsame n) fun i hi => absurd hi (hclear i)

/-- No signal is sent to the child before it can catch it. -/
theorem Sound.child_ready (h : Sound n s) {sig : Usr} (hsig : 0 < s.child.inbox.pending sig)
    (hseen : ¬s.child.pc.Seen) : s.child.pc.ready = 1 := by
  have hmarks := h.marks
  have hready := s.child.pc.ready_le
  have htold : s.child.pc.told = 0 := by
    have : s.child.pc ≠ .ended := fun hpc => hseen (hpc ▸ trivial)
    exact Nat.eq_zero_of_not_pos fun hpos => this (ChildPc.eq_ended (by omega))
  have hstarted : s.parent.pc.started = 1 := by
    cases sig with
    | usr1 =>
        have hdata := (h.sending hseen).data
        rw [Inbox.due] at hdata
        exact ParentPc.started_of_sent (n := n) (by omega)
    | usr2 =>
        have hmarker := h.marker
        have hparent := s.parent.pc.told_le
        rw [Inbox.due] at hmarker
        omega
  omega

/-- A handler is installed for every signal that is pending for the child. -/
theorem Sound.child_catches (h : Sound n s) {sig : Usr} (hsig : 0 < s.child.inbox.pending sig) :
    ∃ f, s.child.pc.sigHandle sig = some f := by
  by_cases hseen : s.child.pc.Seen
  · cases sig with
    | usr1 => exact (ChildPc.sigHandle_seen n hseen).elim (⟨_, ·⟩) fun h => ⟨_, h.1⟩
    | usr2 => exact ⟨_, ChildPc.sigHandle_usr2 hseen⟩
  · have hready := ChildPc.sigHandle_ready hseen (h.child_ready hsig hseen)
    cases sig with
    | usr1 => exact ⟨_, hready.1⟩
    | usr2 => exact ⟨_, hready.2⟩

theorem Sound.childDeliver (h : Sound n s) {sig : Usr} (hsig : 0 < s.child.inbox.pending sig) :
    Sound n (s.childDeliver sig) := by
  have hwoken := h.childWoken
  have hmarker := hwoken.marker
  dsimp only [State.childDeliver]
  cases sig with
  | usr1 =>
      have hmark (f : ChildFrame) (hf : ChildFrame.mark ≠ f) :=
        s.child.inbox.due_take_of_ne (show Usr.usr2 ≠ .usr1 by decide) hf
      by_cases hseen : s.child.pc.Seen
      · rcases ChildPc.sigHandle_seen n hseen with hpc | ⟨-, hsent, hacked⟩
        · -- a confirmation
          rw [hpc]
          exact
            { hwoken with
              resending := fun hseen => (hwoken.resending hseen).childInbox
                (Inbox.due_take_self hsig) (s.child.inbox.running_take_of_ne _ (by decide))
                (s.child.inbox.running_take_of_ne _ (by decide))
              sending := fun hunseen => absurd hseen (mt s.child.pc.seen_woken.mpr hunseen)
              marker := hmark .confirm (by decide) ▸ hmarker }
        · -- nothing has been sent back yet, and so nothing is confirmed
          have hdata := (h.resending hseen).data
          have hack := (h.resending hseen).ack
          rw [Inbox.due] at hack
          omega
      · -- a signal to count
        rw [(ChildPc.sigHandle_ready hseen (h.child_ready hsig hseen)).1]
        exact
          { hwoken with
            sending := fun hseen => (hwoken.sending hseen).childInbox
              (Inbox.due_take_self hsig) (s.child.inbox.running_take_of_ne _ (by decide))
              (s.child.inbox.running_take_of_ne _ (by decide))
            resending := fun hseen' => absurd (s.child.pc.seen_woken.mp hseen') hseen
            marker := hmark .count (by decide) ▸ hmarker }
  | usr2 =>
      have hmark := Inbox.due_take_self (f := ChildFrame.mark) hsig
      have hpc : s.child.pc.sigHandle .usr2 = some .mark := by
        by_cases hseen : s.child.pc.Seen
        · exact ChildPc.sigHandle_usr2 hseen
        · exact (ChildPc.sigHandle_ready hseen (h.child_ready hsig hseen)).2
      rw [hpc]
      exact
        { hwoken with
          sending := fun hseen => (hwoken.sending hseen).childInbox
            (s.child.inbox.due_take_of_ne (by decide) (by decide))
            (s.child.inbox.running_take_of_ne _ (by decide))
            (s.child.inbox.running_take_of_ne _ (by decide))
          resending := fun hseen => (hwoken.resending hseen).childInbox
            (s.child.inbox.due_take_of_ne (by decide) (by decide))
            (s.child.inbox.running_take_of_ne _ (by decide))
            (s.child.inbox.running_take_of_ne _ (by decide))
          marker := hmark ▸ hmarker }

theorem Sound.next (h : Sound n s) {a : Action} (hnext : s.next n a = some t) : Sound n t := by
  cases a with
  | parent e =>
      simp only [State.next, Option.ite_none_left_eq_some] at hnext
      obtain ⟨-, hnext⟩ := hnext
      cases e with
      | main => exact h.parentMain (Option.ite_none_right_eq_some.mp hnext).2
      | handle => exact h.parentHandle hnext
      | deliver sig =>
          obtain ⟨hsig, hnext⟩ := Option.ite_none_right_eq_some.mp hnext
          obtain rfl := Option.some.inj hnext
          exact h.parentDeliver hsig.1
  | child e =>
      simp only [State.next, Option.ite_none_left_eq_some] at hnext
      obtain ⟨-, hnext⟩ := hnext
      cases e with
      | main =>
          obtain ⟨hquiet, hnext⟩ := Option.ite_none_right_eq_some.mp hnext
          exact h.childMain hquiet hnext
      | handle => exact h.childHandle hnext
      | deliver sig =>
          obtain ⟨hsig, hnext⟩ := Option.ite_none_right_eq_some.mp hnext
          obtain rfl := Option.some.inj hnext
          exact h.childDeliver hsig.1

theorem run_sound {tr : List (State × Action)} (h : (exchange n).Run tr s) : Sound n s :=
  h.invariant (I := fun _ s => Sound n s) sound_start fun _ _ _ _ ih hnext => ih.next hnext

/-! ## §2  What is printed -/

/-- **The confirmed exchange is exact**: when the child prints its total it has counted all
signals, and when the parent prints its result it has counted as many. -/
theorem confirmed_exchange_exact {tr : List (State × Action)} (h : (exchange n).Run tr s) :
    (s.child.pc = .print → s.child.counter = n) ∧
      (s.parent.pc = .print → s.parent.counter = n ∧ s.parent.counter = s.child.counter) := by
  have hs := run_sound h
  refine ⟨fun hpc => (hs.resending (by rw [hpc]; trivial)).counted, fun hpc => ?_⟩
  have hended := ChildPc.eq_ended (hs.ended (by rw [hpc]; trivial))
  have hresending := hs.resending (by rw [hended]; trivial)
  have hdata := hresending.data
  have hack := hresending.ack
  rw [hended, ChildPc.sent] at hdata
  rw [hended, ChildPc.acked] at hack
  have hcounter : s.parent.counter = n := by omega
  exact ⟨hcounter, hcounter.trans hresending.counted.symm⟩

/-- One signal goes there and back. -/
theorem confirmed_exchange_exact_one :
    ∃ (tr : List (State × Action)) (s : State),
      (exchange 1).Run tr s ∧ s.parent.pc = .print ∧ s.parent.counter = 1 ∧
      s.parent.counter = s.child.counter := by
  have hrun := (exchange 1).run_of_replay
    [.parent .main, .child .main, .child .main, .child .main, .parent (.deliver .usr2),
      .parent .handle, .parent .main, .parent .main, .parent .main, .child (.deliver .usr1),
      .child .handle, .child .handle, .parent (.deliver .usr1), .parent .handle, .parent .main,
      .parent .main, .parent .main, .parent .main, .parent .main, .parent .main,
      .child (.deliver .usr2), .child .handle, .child .main, .child .main, .child .main,
      .child .main, .parent (.deliver .usr1), .parent .handle, .parent .handle,
      .child (.deliver .usr1), .child .handle, .child .main, .child .main, .child .main,
      .parent (.deliver .usr2), .parent .handle, .parent .main] rfl
  exact ⟨_, _, hrun, rfl, (confirmed_exchange_exact hrun).2 rfl⟩

end Sysopy.SignalExchange.Confirmed
