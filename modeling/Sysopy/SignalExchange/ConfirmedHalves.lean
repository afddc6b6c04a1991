import Sysopy.SignalExchange.Confirmed

/-!
# The two halves of the confirmed exchange

Until the child has seen the end marker, every `SIGUSR1` to the child is one of the
signals to count, and every `SIGUSR1` to the parent confirms one; behind the marker it is
the other way round. In both halves there is at most one signal or confirmation on its
way, so that none is ever merged.

## Sections

* §1 how far parent and child are
* §2 the two halves
-/

namespace Sysopy.SignalExchange.Confirmed

open Sysopy.Foundation

/-! ## §1  How far parent and child are -/

namespace ParentPc

def sent (n : ℕ) : ParentPc → ℕ
  | .resetFlag | .ready _ | .resetAgain => 0
  | .send i => i
  | .confirm i _ | .clear i => i + 1
  | _ => n

def acked (n : ℕ) : ParentPc → ℕ
  | .resetFlag | .ready _ | .resetAgain => 0
  | .send i | .confirm i _ | .clear i => i
  | _ => n

def started : ParentPc → ℕ
  | .resetFlag | .ready _ | .resetAgain => 0
  | _ => 1

def told : ParentPc → ℕ
  | .finish _ | .print | .ended => 1
  | _ => 0

def Over : ParentPc → Prop
  | .print | .ended => True
  | _ => False

variable {n : ℕ} {pc : ParentPc}

theorem window (n : ℕ) (pc : ParentPc) : pc.acked n ≤ pc.sent n ∧ pc.sent n ≤ pc.acked n + 1 := by
  cases pc <;> simp [acked, sent]

theorem told_le (pc : ParentPc) : pc.told ≤ pc.started ∧ pc.started ≤ 1 := by
  cases pc <;> simp [told, started]

theorem sent_of_told (h : pc.told = 1) : pc.sent n = n ∧ pc.acked n = n := by
  cases pc with
  | finish | print | ended => exact ⟨rfl, rfl⟩
  | _ => cases h

theorem started_of_sent (h : 0 < pc.sent n) : pc.started = 1 := by
  cases pc with
  | resetFlag | ready | resetAgain => exact absurd h (Nat.lt_irrefl 0)
  | _ => rfl

/-- The receiver is installed when all signals have been confirmed. -/
theorem sigHandle_cases (n : ℕ) (pc : ParentPc) :
    pc.sigHandle .usr1 = .confirm ∧ pc.told = 0 ∨
      pc.sigHandle .usr1 = .count ∧ pc.sent n = n ∧ pc.acked n = n := by
  cases pc with
  | switchUsr2 | tell | finish | print | ended => exact Or.inr ⟨rfl, rfl, rfl⟩
  | _ => exact Or.inl ⟨rfl, rfl⟩

theorem sigHandle_usr2 (pc : ParentPc) : pc.sigHandle .usr2 = .mark := by
  cases pc <;> rfl

end ParentPc

namespace ChildPc

def ready : ChildPc → ℕ
  | .catchUsr1 | .catchUsr2 | .killReady => 0
  | _ => 1

def Seen : ChildPc → Prop
  | .catchUsr1 | .catchUsr2 | .killReady | .wait _ => False
  | _ => True

def sent (n : ℕ) : ChildPc → ℕ
  | .resend i => i
  | .confirm i _ | .clear i => i + 1
  | .ended => n
  | _ => 0

def acked (n : ℕ) : ChildPc → ℕ
  | .resend i | .confirm i _ | .clear i => i
  | .ended => n
  | _ => 0

def told : ChildPc → ℕ
  | .ended => 1
  | _ => 0

variable {n : ℕ} {pc : ChildPc}

theorem window (n : ℕ) (pc : ChildPc) : pc.acked n ≤ pc.sent n ∧ pc.sent n ≤ pc.acked n + 1 := by
  cases pc <;> simp [acked, sent]

theorem ready_le (pc : ChildPc) : pc.ready ≤ 1 ∧ pc.told ≤ 1 := by
  cases pc <;> simp [ready, told]

theorem eq_ended (h : pc.told = 1) : pc = .ended := by
  cases pc with
  | ended => rfl
  | _ => cases h

/-- The handler of the second half is installed before the first signal is sent back. -/
theorem sigHandle_seen (n : ℕ) (h : pc.Seen) :
    pc.sigHandle .usr1 = some .confirm ∨
      pc.sigHandle .usr1 = some .count ∧ pc.sent n = 0 ∧ pc.acked n = 0 := by
  cases pc with
  | print | switch => exact Or.inr ⟨rfl, rfl, rfl⟩
  | resend | confirm | clear | ended => exact Or.inl rfl
  | _ => cases h

theorem sigHandle_usr2 (h : pc.Seen) : pc.sigHandle .usr2 = some .mark := by
  cases pc with
  | print | switch | resend | confirm | clear | ended => rfl
  | _ => cases h

/-- In the first half the handlers are installed when the child is ready. -/
theorem sigHandle_ready (h : ¬pc.Seen) (hready : pc.ready = 1) :
    pc.sigHandle .usr1 = some .count ∧ pc.sigHandle .usr2 = some .mark := by
  cases pc with
  | wait => exact ⟨rfl, rfl⟩
  | catchUsr1 | catchUsr2 | killReady => cases hready
  | _ => exact absurd trivial h

end ChildPc

/-! ## §2  The two halves -/

/-- In the first half the child counts and the parent waits for confirmations. -/
structure Sending (n : ℕ) (s : State) : Prop where
  data : s.child.counter + s.child.inbox.due .usr1 .count = s.parent.pc.sent n
  ack : s.child.inbox.running .reply + s.parent.inbox.due .usr1 .confirm +
    s.parent.confirmation + s.parent.pc.acked n = s.child.counter
  parentFresh : s.parent.counter + s.parent.inbox.running .count +
    s.parent.inbox.running .reply = 0
  childFresh : s.child.confirmation + s.child.inbox.running .confirm = 0

/-- In the second half the parent counts and the child waits for confirmations. -/
structure Resending (n : ℕ) (s : State) : Prop where
  counted : s.child.counter = n
  told : s.parent.pc.told = 1
  data : s.parent.counter + s.parent.inbox.due .usr1 .count = s.child.pc.sent n
  ack : s.parent.inbox.running .reply + s.child.inbox.due .usr1 .confirm +
    s.child.confirmation + s.child.pc.acked n = s.parent.counter
  parentDone : s.parent.inbox.running .confirm = 0
  childDone : s.child.inbox.running .count + s.child.inbox.running .reply = 0

structure Sound (n : ℕ) (s : State) : Prop where
  sending : ¬s.child.pc.Seen → Sending n s
  resending : s.child.pc.Seen → Resending n s
  within : s.parent.pc.sent n ≤ n
  childWithin : s.child.pc.sent n ≤ n
  cleared : ∀ i, s.parent.pc = .clear i → 0 < s.parent.confirmation
  childCleared : ∀ i, s.child.pc = .clear i → 0 < s.child.confirmation
  /-- the marker to the child -/
  marker : s.child.inbox.due .usr2 .mark + s.child.proceed = s.parent.pc.told
  /-- the marks to the parent: that the child is ready, and that it is done -/
  marks : s.parent.inbox.due .usr2 .mark + s.parent.flag + s.parent.pc.started ≤
    s.child.pc.ready + s.child.pc.told
  flagged : s.parent.pc = .resetAgain → 0 < s.parent.flag
  ended : s.parent.pc.Over → s.child.pc.told = 1

variable {n : ℕ} {s t : State}

theorem sound_start : Sound n (exchange n).init where
  sending _ := ⟨rfl, rfl, rfl, rfl⟩
  resending := nofun
  within := Nat.zero_le n
  childWithin := Nat.zero_le n
  cleared := nofun
  childCleared := nofun
  marker := rfl
  marks := Nat.le_refl 0
  flagged := nofun
  ended := nofun

/-- The signals and handlers of the parent that the first half counts are the same. -/
theorem Sending.parentInbox (h : Sending n s) {i : Inbox Usr ParentFrame} {flag : ℕ}
    (hconfirm : i.due .usr1 .confirm = s.parent.inbox.due .usr1 .confirm)
    (hcount : i.running .count = s.parent.inbox.running .count)
    (hreply : i.running .reply = s.parent.inbox.running .reply) :
    Sending n { s with parent := { s.parent with flag := flag, inbox := i } } :=
  { h with
    ack := hconfirm ▸ h.ack
    parentFresh := hcount ▸ hreply ▸ h.parentFresh }

theorem Sending.childInbox (h : Sending n s) {i : Inbox Usr ChildFrame} {proceed : ℕ}
    (hcount : i.due .usr1 .count = s.child.inbox.due .usr1 .count)
    (hreply : i.running .reply = s.child.inbox.running .reply)
    (hconfirm : i.running .confirm = s.child.inbox.running .confirm) :
    Sending n { s with child := { s.child with proceed := proceed, inbox := i } } :=
  { h with
    data := hcount ▸ h.data
    ack := hreply ▸ h.ack
    childFresh := hconfirm ▸ h.childFresh }

/-- The signals and handlers of the parent that the second half counts are the same. -/
theorem Resending.parentInbox (h : Resending n s) {i : Inbox Usr ParentFrame} {flag : ℕ}
    (hcount : i.due .usr1 .count = s.parent.inbox.due .usr1 .count)
    (hreply : i.running .reply = s.parent.inbox.running .reply)
    (hconfirm : i.running .confirm = s.parent.inbox.running .confirm) :
    Resending n { s with parent := { s.parent with flag := flag, inbox := i } } :=
  { h with
    data := hcount ▸ h.data
    ack := hreply ▸ h.ack
    parentDone := hconfirm ▸ h.parentDone }

theorem Resending.childInbox (h : Resending n s) {i : Inbox Usr ChildFrame} {proceed : ℕ}
    (hconfirm : i.due .usr1 .confirm = s.child.inbox.due .usr1 .confirm)
    (hcount : i.running .count = s.child.inbox.running .count)
    (hreply : i.running .reply = s.child.inbox.running .reply) :
    Resending n { s with child := { s.child with proceed := proceed, inbox := i } } :=
  { h with
    ack := hconfirm ▸ h.ack
    childDone := hcount ▸ hreply ▸ h.childDone }

/-- At most one signal of the first half is on its way, or its confirmation. -/
theorem Sending.bounds (h : Sending n s) : s.child.inbox.due .usr1 .count +
    s.child.inbox.running .reply + s.parent.inbox.due .usr1 .confirm + s.parent.confirmation ≤
      1 := by
  have hwindow := s.parent.pc.window n
  have hdata := h.data
  have hack := h.ack
  omega

theorem Resending.bounds (h : Resending n s) : s.parent.inbox.due .usr1 .count +
    s.parent.inbox.running .reply + s.child.inbox.due .usr1 .confirm + s.child.confirmation ≤
      1 := by
  have hwindow := s.child.pc.window n
  have hdata := h.data
  have hack := h.ack
  omega

/-- While the parent waits for a confirmation the signal or the confirmation is on its
way. -/
theorem Sending.eq_of_confirm (h : Sending n s) {i : ℕ} {stage : Stage}
    (hpc : s.parent.pc = .confirm i stage) : s.child.inbox.due .usr1 .count +
      s.child.inbox.running .reply + s.parent.inbox.due .usr1 .confirm + s.parent.confirmation =
        1 := by
  have hdata := h.data
  have hack := h.ack
  rw [hpc, ParentPc.sent] at hdata
  rw [hpc, ParentPc.acked] at hack
  omega

theorem Resending.eq_of_confirm (h : Resending n s) {i : ℕ} {stage : Stage}
    (hpc : s.child.pc = .confirm i stage) : s.parent.inbox.due .usr1 .count +
      s.parent.inbox.running .reply + s.child.inbox.due .usr1 .confirm + s.child.confirmation =
        1 := by
  have hdata := h.data
  have hack := h.ack
  rw [hpc, ChildPc.sent] at hdata
  rw [hpc, ChildPc.acked] at hack
  omega

/-- The child counts and replies in the first half, and its handler confirms in the second. -/
theorem Sound.not_seen_of_child (h : Sound n s)
    (hrun : s.child.inbox.running .count ≠ 0 ∨ s.child.inbox.running .reply ≠ 0) :
    ¬s.child.pc.Seen := by
  intro hseen
  have hdone := (h.resending hseen).childDone
  omega

theorem Sound.seen_of_child (h : Sound n s) (hrun : s.child.inbox.running .confirm ≠ 0) :
    s.child.pc.Seen := by
  by_contra hseen
  have hfresh := (h.sending hseen).childFresh
  omega

theorem Sound.not_seen_of_parent (h : Sound n s) (hrun : s.parent.inbox.running .confirm ≠ 0) :
    ¬s.child.pc.Seen :=
  fun hseen => hrun (h.resending hseen).parentDone

theorem Sound.seen_of_parent (h : Sound n s)
    (hrun : s.parent.inbox.running .count ≠ 0 ∨ s.parent.inbox.running .reply ≠ 0) :
    s.child.pc.Seen := by
  by_contra hseen
  have hfresh := (h.sending hseen).parentFresh
  omega

/-- A child that has not told its end has not been heard to. -/
theorem Sound.not_over (h : Sound n s) (hchild : s.child.pc ≠ .ended) : ¬s.parent.pc.Over :=
  fun hover => hchild (ChildPc.eq_ended (h.ended hover))

theorem Sound.not_seen (h : Sound n s) (hparent : s.parent.pc.told = 0) : ¬s.child.pc.Seen :=
  fun hseen => absurd (hparent.symm.trans (h.resending hseen).told) (by decide)

end Sysopy.SignalExchange.Confirmed
