import Sysopy.SignalExchange.ConfirmedHalves

/-!
# The parent in the confirmed exchange

Every step of the parent keeps the counts: those of `main`, those of its handlers, and
the delivery of a signal.
-/

namespace Sysopy.SignalExchange.Confirmed

open Sysopy.Foundation

variable {n : ℕ} {s t : State}

theorem Sound.parentGoto (h : Sound n s) {pc : ParentPc} {flag confirmation : ℕ}
    (hsent : pc.sent n = s.parent.pc.sent n)
    (hacked : ¬s.child.pc.Seen →
      confirmation + pc.acked n = s.parent.confirmation + s.parent.pc.acked n)
    (htold : pc.told = s.parent.pc.told)
    (hstarted : flag + pc.started ≤ s.parent.flag + s.parent.pc.started)
    (hcleared : ∀ i, pc = .clear i → 0 < confirmation) (hflag : pc = .resetAgain → 0 < flag)
    (hover : pc.Over → s.child.pc.told = 1) :
    Sound n { s with
      parent := { s.parent with pc := pc, flag := flag, confirmation := confirmation } } where
  sending hseen :=
    { h.sending hseen with
      data := (h.sending hseen).data.trans hsent.symm
      ack := by
        have hack := (h.sending hseen).ack
        have hsum := hacked hseen
        dsimp only
        omega }
  resending hseen := { h.resending hseen with told := htold.trans (h.resending hseen).told }
  within := hsent ▸ h.within
  childWithin := h.childWithin
  cleared := hcleared
  childCleared := h.childCleared
  marker := htold ▸ h.marker
  marks := by
    have hmarks := h.marks
    dsimp only
    omega
  flagged := hflag
  ended := hover

theorem Sound.parentStay (h : Sound n s) {old pc : ParentPc} (hpc : s.parent.pc = old)
    (hsame : pc.sent n = old.sent n ∧ pc.acked n = old.acked n ∧ pc.told = old.told ∧
      pc.started = old.started)
    (hcleared : ∀ i, pc = .clear i → 0 < s.parent.confirmation)
    (hflag : pc = .resetAgain → 0 < s.parent.flag) (hover : pc.Over → s.child.pc.told = 1) :
    Sound n { s with parent := s.parent.goto pc } := by
  subst hpc
  obtain ⟨hsent, hacked, htold, hstarted⟩ := hsame
  exact h.parentGoto hsent (fun _ => congrArg _ hacked) htold (congrArg _ hstarted).le hcleared
    hflag hover

theorem Sound.parentKill (h : Sound n s) {i : ℕ} (hpc : s.parent.pc = .send i) (hi : i < n) :
    Sound n { parent := s.parent.goto (.confirm i .test), child := s.child.kill .usr1 } := by
  have hseen := h.not_seen (by rw [hpc]; rfl)
  have hsending := h.sending hseen
  have hdata := hsending.data
  have hack := hsending.ack
  rw [hpc, ParentPc.sent] at hdata
  rw [hpc, ParentPc.acked] at hack
  have hpending : s.child.inbox.pending .usr1 = 0 := by
    rw [Inbox.due] at hdata
    omega
  exact
    { h with
      sending := fun _ =>
        { hsending with
          data := by
            show s.child.counter + (s.child.inbox.post .merged .usr1).due .usr1 .count = i + 1
            rw [Inbox.due_post_of_eq_zero hpending]
            omega
          ack := hack }
      resending := fun h => absurd h hseen
      within := hi
      cleared := fun _ hpc => by cases hpc
      marker := by
        have hmarker := h.marker
        rw [hpc] at hmarker
        show (s.child.inbox.post .merged .usr1).due .usr2 .mark + s.child.proceed = 0
        rwa [Inbox.due_post_of_ne (by decide)]
      marks := by
        have hmarks := h.marks
        rwa [hpc] at hmarks
      flagged := fun hpc => by cases hpc
      ended := False.elim }

theorem Sound.parentTell (h : Sound n s) (hpc : s.parent.pc = .tell) :
    Sound n { parent := s.parent.goto (.finish .test), child := s.child.kill .usr2 } := by
  have hseen := h.not_seen (by rw [hpc]; rfl)
  have hsending := h.sending hseen
  have hdata := hsending.data
  have hack := hsending.ack
  rw [hpc] at hdata hack
  have hmarker : s.child.inbox.due .usr2 .mark + s.child.proceed = 0 := by
    have hmarker := h.marker
    rwa [hpc] at hmarker
  have hpending : s.child.inbox.pending .usr2 = 0 := by
    rw [Inbox.due] at hmarker
    omega
  exact
    { h with
      sending := fun _ =>
        { hsending with
          data := (congrArg _ (Inbox.due_post_of_ne (by decide))).trans hdata
          ack := hack }
      resending := fun h => absurd h hseen
      within := Nat.le_refl n
      cleared := fun _ hpc => by cases hpc
      marker := by
        show (s.child.inbox.post .merged .usr2).due .usr2 .mark + s.child.proceed = 1
        rw [Inbox.due_post_of_eq_zero hpending]
        omega
      marks := by
        have hmarks := h.marks
        rwa [hpc] at hmarks
      flagged := fun hpc => by cases hpc
      ended := False.elim }

theorem Sound.parentMain (h : Sound n s) (hnext : s.parentMain n = some t) : Sound n t := by
  cases parentStep hnext with
  | resetFlag hpc =>
      exact h.parentGoto (by rw [hpc]; rfl) (fun _ => by rw [hpc]; rfl) (by rw [hpc]; rfl)
        (Nat.zero_le _) nofun nofun nofun
  | notReady hpc => exact h.parentStay hpc ⟨rfl, rfl, rfl, rfl⟩ nofun nofun nofun
  | ready hpc hflag =>
      exact h.parentStay hpc ⟨rfl, rfl, rfl, rfl⟩ nofun (fun _ => Nat.pos_of_ne_zero hflag) nofun
  | pauseReady hpc => exact h.parentStay hpc ⟨rfl, rfl, rfl, rfl⟩ nofun nofun nofun
  | resetAgain hpc =>
      exact h.parentGoto (by rw [hpc]; rfl) (fun _ => by rw [hpc]; rfl) (by rw [hpc]; rfl)
        (Nat.le_trans (h.flagged hpc) (Nat.le_add_right _ _)) nofun nofun nofun
  | send i hpc hi => exact h.parentKill hpc hi
  | sent i hpc hi =>
      have hwithin := h.within
      rw [hpc] at hwithin
      have heq : n = i := Nat.le_antisymm hi hwithin
      exact h.parentStay hpc ⟨heq, heq, rfl, rfl⟩ nofun nofun nofun
  | notConfirmed i hpc => exact h.parentStay hpc ⟨rfl, rfl, rfl, rfl⟩ nofun nofun nofun
  | confirmed i hpc hconfirmation =>
      exact h.parentStay hpc ⟨rfl, rfl, rfl, rfl⟩ (fun _ _ => Nat.pos_of_ne_zero hconfirmation)
        nofun nofun
  | pauseConfirm i hpc => exact h.parentStay hpc ⟨rfl, rfl, rfl, rfl⟩ nofun nofun nofun
  | clear i hpc =>
      have hcleared := h.cleared i hpc
      refine h.parentGoto (by rw [hpc]; rfl) (fun hseen => ?_) (by rw [hpc]; rfl)
        (by rw [hpc]; rfl) nofun nofun nofun
      have hbounds := (h.sending hseen).bounds
      rw [hpc]
      show 0 + (i + 1) = s.parent.confirmation + i
      omega
  | switchUsr1 hpc => exact h.parentStay hpc ⟨rfl, rfl, rfl, rfl⟩ nofun nofun nofun
  | switchUsr2 hpc => exact h.parentStay hpc ⟨rfl, rfl, rfl, rfl⟩ nofun nofun nofun
  | tell hpc => exact h.parentTell hpc
  | notFinished hpc => exact h.parentStay hpc ⟨rfl, rfl, rfl, rfl⟩ nofun nofun nofun
  | finished hpc hflag =>
      refine h.parentStay hpc ⟨rfl, rfl, rfl, rfl⟩ nofun nofun fun _ => ?_
      -- the first mark has been used up, so that this is the second one
      have hmarks := h.marks
      have hstarted : s.parent.pc.started = 1 := by rw [hpc]; rfl
      have hchild := s.child.pc.ready_le
      omega
  | pauseFinish hpc => exact h.parentStay hpc ⟨rfl, rfl, rfl, rfl⟩ nofun nofun nofun
  | print hpc =>
      exact h.parentStay hpc ⟨rfl, rfl, rfl, rfl⟩ nofun nofun
        fun _ => h.ended (by rw [hpc]; trivial)

/-- `confirmation = 1`, which only the first half knows. -/
theorem Sound.parentConfirms (h : Sound n s) {fs : List ParentFrame}
    (hframes : s.parent.inbox.frames = .confirm :: fs) :
    Sound n { s with parent := { s.parent with confirmation := 1
                                               inbox := s.parent.inbox.leave } } := by
  have hseen := h.not_seen_of_parent (Inbox.running_ne_zero hframes)
  have hself := Inbox.due_leave_self .usr1 hframes
  have hreply := Inbox.running_leave_of_ne (f := .reply) hframes (by decide)
  have hsending := h.sending hseen
  have hbounds := hsending.bounds
  have hack := hsending.ack
  exact
    { h with
      sending := fun _ =>
        { hsending with
          ack := by dsimp only; omega
          parentFresh := by
            show _ + s.parent.inbox.leave.running .count +
              s.parent.inbox.leave.running .reply = 0
            rw [Inbox.running_leave_of_ne hframes (by decide), hreply]
            exact hsending.parentFresh }
      resending := fun h => absurd h hseen
      cleared := fun _ _ => Nat.one_pos
      marks := by
        show s.parent.inbox.leave.due .usr2 .mark + _ + _ ≤ _
        rw [Inbox.due_leave_of_ne .usr2 hframes (by decide)]
        exact h.marks }

/-- `flag = 1` -/
theorem Sound.parentFlags (h : Sound n s) {fs : List ParentFrame}
    (hframes : s.parent.inbox.frames = .mark :: fs) :
    Sound n { s with parent := { s.parent with flag := 1, inbox := s.parent.inbox.leave } } := by
  have hself := Inbox.due_leave_self .usr2 hframes
  have hmarks := h.marks
  have hrun {f : ParentFrame} (hf : f ≠ .mark) := Inbox.running_leave_of_ne hframes hf
  have hdue {f : ParentFrame} (hf : f ≠ .mark) := Inbox.due_leave_of_ne .usr1 hframes hf
  exact
    { h with
      sending := fun hseen =>
        (h.sending hseen).parentInbox (hdue (by decide)) (hrun (by decide)) (hrun (by decide))
      resending := fun hseen =>
        (h.resending hseen).parentInbox (hdue (by decide)) (hrun (by decide)) (hrun (by decide))
      marks := by dsimp only; omega
      flagged := fun _ => Nat.one_pos }

/-- `++counter`, which only the second half knows. -/
theorem Sound.parentCounts (h : Sound n s) {fs : List ParentFrame}
    (hframes : s.parent.inbox.frames = .count :: fs) :
    Sound n { s with parent := { s.parent with counter := s.parent.counter + 1
                                               inbox := s.parent.inbox.goOn .reply } } := by
  have hseen := h.seen_of_parent (.inl (Inbox.running_ne_zero hframes))
  have hcount := Inbox.due_goOn_self (g := .reply) .usr1 hframes (by decide)
  have hreply := Inbox.running_goOn_self (f := .reply) hframes (by decide)
  have hresending := h.resending hseen
  have hdata := hresending.data
  have hack := hresending.ack
  exact
    { h with
      sending := fun h => absurd hseen h
      resending := fun _ =>
        { hresending with
          data := by dsimp only; omega
          ack := by dsimp only; omega
          parentDone := by
            show (s.parent.inbox.goOn .reply).running .confirm = 0
            rw [Inbox.running_goOn_of_ne hframes (by decide) (by decide)]
            exact hresending.parentDone }
      marks := by
        show (s.parent.inbox.goOn .reply).due .usr2 .mark + _ + _ ≤ _
        rw [Inbox.due_goOn_of_ne .usr2 hframes (by decide) (by decide)]
        exact h.marks }

/-- `kill`, while no other signal is pending for the child. -/
theorem Sound.parentReplies (h : Sound n s) {fs : List ParentFrame}
    (hframes : s.parent.inbox.frames = .reply :: fs) :
    Sound n { parent := { s.parent with inbox := s.parent.inbox.leave }
              child := s.child.kill .usr1 } := by
  have hseen := h.seen_of_parent (.inr (Inbox.running_ne_zero hframes))
  have hself := Inbox.running_leave_self hframes
  have hresending := h.resending hseen
  have hbounds := hresending.bounds
  have hack := hresending.ack
  have hpending : s.child.inbox.pending .usr1 = 0 := by
    rw [Inbox.due, Inbox.due] at hbounds
    omega
  have hpost := Inbox.due_post_of_eq_zero (d := .merged) (f := ChildFrame.confirm) hpending
  exact
    { h with
      sending := fun h => absurd hseen h
      resending := fun _ =>
        { hresending with
          data := by
            show _ + s.parent.inbox.leave.due .usr1 .count = _
            rw [Inbox.due_leave_of_ne .usr1 hframes (by decide)]
            exact hresending.data
          ack := by
            show s.parent.inbox.leave.running .reply +
              (s.child.inbox.post .merged .usr1).due .usr1 .confirm + s.child.confirmation +
              s.child.pc.acked n = s.parent.counter
            omega
          parentDone := by
            show s.parent.inbox.leave.running .confirm = 0
            rw [Inbox.running_leave_of_ne hframes (by decide)]
            exact hresending.parentDone }
      marker := by
        show (s.child.inbox.post .merged .usr1).due .usr2 .mark + _ = _
        rw [Inbox.due_post_of_ne (by decide)]
        exact h.marker
      marks := by
        show s.parent.inbox.leave.due .usr2 .mark + _ + _ ≤ _
        rw [Inbox.due_leave_of_ne .usr2 hframes (by decide)]
        exact h.marks }

theorem Sound.parentHandle (h : Sound n s) (hnext : s.parentHandle = some t) : Sound n t := by
  cases parentHandler hnext with
  | confirm fs hframes => exact h.parentConfirms hframes
  | mark fs hframes => exact h.parentFlags hframes
  | count fs hframes => exact h.parentCounts hframes
  | reply fs hframes => exact h.parentReplies hframes

theorem ParentPc.woken_eq (pc : ParentPc) : pc.woken = pc ∨
    ∃ old, pc = old ∧ (∀ n, pc.woken.sent n = old.sent n ∧ pc.woken.acked n = old.acked n ∧
      pc.woken.told = old.told ∧ pc.woken.started = old.started) ∧
      ¬pc.woken.Over ∧ pc.woken ≠ .resetAgain ∧ ∀ i, pc.woken ≠ .clear i := by
  unfold woken
  split
  · exact Or.inr ⟨_, rfl, fun _ => ⟨rfl, rfl, rfl, rfl⟩, id, nofun, nofun⟩
  · exact Or.inr ⟨_, rfl, fun _ => ⟨rfl, rfl, rfl, rfl⟩, id, nofun, nofun⟩
  · exact Or.inr ⟨_, rfl, fun _ => ⟨rfl, rfl, rfl, rfl⟩, id, nofun, nofun⟩
  · exact Or.inl rfl

theorem Sound.parentWoken (h : Sound n s) :
    Sound n { s with parent := s.parent.goto s.parent.pc.woken } := by
  rcases s.parent.pc.woken_eq with heq | ⟨old, hpc, hsame, hover, hflag, hclear⟩
  · rw [heq]
    exact h
  · exact h.parentStay hpc (hsame n) (fun i hi => absurd hi (hclear i))
      (fun hpc => absurd hpc hflag) fun h => absurd h hover

theorem Sound.parentDeliver (h : Sound n s) {sig : Usr} (hsig : 0 < s.parent.inbox.pending sig) :
    Sound n (s.parentDeliver sig) := by
  have hwoken := h.parentWoken
  have hmarks := hwoken.marks
  dsimp only [State.parentDeliver]
  cases sig with
  | usr1 =>
      have hmark (f : ParentFrame) (hf : ParentFrame.mark ≠ f) :=
        s.parent.inbox.due_take_of_ne (show Usr.usr2 ≠ .usr1 by decide) hf
      rcases s.parent.pc.sigHandle_cases n with ⟨hpc, htold⟩ | ⟨hpc, hsent, hacked⟩
      · -- a confirmation
        have hseen := h.not_seen htold
        rw [hpc]
        exact
          { hwoken with
            sending := fun _ => (hwoken.sending hseen).parentInbox (Inbox.due_take_self hsig)
              (s.parent.inbox.running_take_of_ne _ (by decide))
              (s.parent.inbox.running_take_of_ne _ (by decide))
            resending := fun h => absurd h hseen
            marks := hmark .confirm (by decide) ▸ hmarks }
      · -- a signal to count, since all confirmations have come
        have hseen : s.child.pc.Seen := by
          by_contra hseen
          have hdata := (h.sending hseen).data
          have hack := (h.sending hseen).ack
          rw [Inbox.due] at hack
          omega
        rw [hpc]
        exact
          { hwoken with
            sending := fun h => absurd hseen h
            resending := fun _ => (hwoken.resending hseen).parentInbox (Inbox.due_take_self hsig)
              (s.parent.inbox.running_take_of_ne _ (by decide))
              (s.parent.inbox.running_take_of_ne _ (by decide))
            marks := hmark .count (by decide) ▸ hmarks }
  | usr2 =>
      have hmark := Inbox.due_take_self (f := ParentFrame.mark) hsig
      rw [s.parent.pc.sigHandle_usr2]
      exact
        { hwoken with
          sending := fun hseen => (hwoken.sending hseen).parentInbox
            (s.parent.inbox.due_take_of_ne (by decide) (by decide))
            (s.parent.inbox.running_take_of_ne _ (by decide))
            (s.parent.inbox.running_take_of_ne _ (by decide))
          resending := fun hseen => (hwoken.resending hseen).parentInbox
            (s.parent.inbox.due_take_of_ne (by decide) (by decide))
            (s.parent.inbox.running_take_of_ne _ (by decide))
            (s.parent.inbox.running_take_of_ne _ (by decide))
          marks := hmark ▸ hmarks }

end Sysopy.SignalExchange.Confirmed
