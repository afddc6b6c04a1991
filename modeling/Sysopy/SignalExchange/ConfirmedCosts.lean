import Mathlib.Algebra.GroupWithZero.Nat
import Sysopy.SignalExchange.ConfirmedWakeups
import Sysopy.SignalExchange.UnconfirmedEnd

/-!
# What a signal costs in the confirmed exchange

A signal is answered by a confirmation, and both are the same `SIGUSR1`. But only the one
who counts answers, and which of the two that is changes once, when nothing is on its way.
So every signal causes a fixed number of steps, and the exchange comes to an end.

## Sections

* §1 what a signal costs
* §2 the number of steps
-/

namespace Sysopy.SignalExchange.Confirmed

open Sysopy.Foundation
open Unconfirmed (stageRank)

variable {n : ℕ} {s t : State} {a : Action}

/-! ## §1  What a signal costs -/

/-- The steps of a handler of the parent, with those that its answer causes at the child:
a delivery, two turns of the loop that waits, and the handler. -/
def ParentFrame.cost : ParentFrame → ℕ
  | .confirm | .mark => 1
  | .count => 6
  | .reply => 5

def ChildFrame.cost : ChildFrame → ℕ
  | .confirm | .mark => 1
  | .count => 6
  | .reply => 5

/-- What a pending `SIGUSR1` costs the child: until it has seen the end marker it counts
and answers it. -/
def ChildPc.usr1Cost : ChildPc → ℕ
  | .catchUsr1 | .catchUsr2 | .killReady | .wait _ => 9
  | _ => 4

/-- What it costs the parent, as long as the child is there. -/
def ChildPc.parentUsr1Cost : ChildPc → ℕ
  | .catchUsr1 | .catchUsr2 | .killReady | .wait _ => 4
  | _ => 9

theorem ChildPc.cost_of_not_seen {pc : ChildPc} (h : ¬pc.Seen) :
    pc.usr1Cost = 9 ∧ pc.parentUsr1Cost = 4 := by
  cases pc with
  | catchUsr1 | catchUsr2 | killReady | wait => exact ⟨rfl, rfl⟩
  | _ => exact absurd trivial h

theorem ChildPc.cost_of_seen {pc : ChildPc} (h : pc.Seen) :
    pc.usr1Cost = 4 ∧ pc.parentUsr1Cost = 9 := by
  cases pc with
  | catchUsr1 | catchUsr2 | killReady | wait => exact h.elim
  | _ => exact ⟨rfl, rfl⟩

theorem ChildPc.cost_bounds (pc : ChildPc) : 4 ≤ pc.usr1Cost ∧ pc.usr1Cost ≤ 9 ∧
    4 ≤ pc.parentUsr1Cost ∧ pc.parentUsr1Cost ≤ 9 := by
  cases pc <;> simp [usr1Cost, parentUsr1Cost]

/-- What the pending signals and the running handlers of a process cost. -/
def inboxCost {F : Type} (frameCost : F → ℕ) (usr1Cost : ℕ) (i : Inbox Usr F) : ℕ :=
  usr1Cost * i.pending .usr1 + 4 * i.pending .usr2 + (i.frames.map frameCost).sum

section Inbox

variable {F : Type} {frameCost : F → ℕ} {usr1Cost : ℕ} {i : Inbox Usr F} {f : F} {fs : List F}

theorem inboxCost_post_usr1 (d : Discipline) (frameCost : F → ℕ) (usr1Cost : ℕ)
    (i : Inbox Usr F) :
    inboxCost frameCost usr1Cost (i.post d .usr1) ≤ inboxCost frameCost usr1Cost i + usr1Cost := by
  have hmul := Nat.mul_le_mul_left usr1Cost (d.post_le (i.pending .usr1))
  rw [Nat.mul_succ] at hmul
  have hframes : (i.post d .usr1).frames = i.frames := rfl
  simp only [inboxCost, Inbox.post_pending_self, hframes,
    Inbox.post_pending_of_ne (show Usr.usr2 ≠ .usr1 by decide)]
  omega

theorem inboxCost_post_usr2 (d : Discipline) (frameCost : F → ℕ) (usr1Cost : ℕ)
    (i : Inbox Usr F) :
    inboxCost frameCost usr1Cost (i.post d .usr2) ≤ inboxCost frameCost usr1Cost i + 4 := by
  have hpost := d.post_le (i.pending .usr2)
  have hframes : (i.post d .usr2).frames = i.frames := rfl
  simp only [inboxCost, Inbox.post_pending_self, hframes,
    Inbox.post_pending_of_ne (show Usr.usr1 ≠ .usr2 by decide)]
  omega

theorem inboxCost_take_usr1 (frameCost : F → ℕ) (usr1Cost : ℕ) (f : F)
    (h : 0 < i.pending .usr1) :
    inboxCost frameCost usr1Cost (i.take .usr1 f) + usr1Cost =
      inboxCost frameCost usr1Cost i + frameCost f := by
  obtain ⟨k, hk⟩ := Nat.exists_eq_succ_of_ne_zero h.ne'
  have hframes : (i.take .usr1 f).frames = f :: i.frames := rfl
  simp only [inboxCost, Inbox.take_pending_self, hframes, hk, List.map_cons, List.sum_cons,
    Inbox.take_pending_of_ne (show Usr.usr2 ≠ .usr1 by decide)]
  rw [Nat.succ_sub_one, Nat.mul_succ]
  omega

theorem inboxCost_take_usr2 (frameCost : F → ℕ) (usr1Cost : ℕ) (f : F)
    (h : 0 < i.pending .usr2) :
    inboxCost frameCost usr1Cost (i.take .usr2 f) + 4 =
      inboxCost frameCost usr1Cost i + frameCost f := by
  have hframes : (i.take .usr2 f).frames = f :: i.frames := rfl
  simp only [inboxCost, Inbox.take_pending_self, hframes, List.map_cons, List.sum_cons,
    Inbox.take_pending_of_ne (show Usr.usr1 ≠ .usr2 by decide)]
  omega

theorem inboxCost_leave (frameCost : F → ℕ) (usr1Cost : ℕ) (h : i.frames = f :: fs) :
    inboxCost frameCost usr1Cost i.leave + frameCost f = inboxCost frameCost usr1Cost i := by
  simp only [inboxCost, Inbox.leave, h, List.tail_cons, List.map_cons, List.sum_cons]
  omega

theorem inboxCost_goOn (frameCost : F → ℕ) (usr1Cost : ℕ) (h : i.frames = f :: fs) (g : F) :
    inboxCost frameCost usr1Cost (i.goOn g) + frameCost f =
      inboxCost frameCost usr1Cost i + frameCost g := by
  simp only [inboxCost, Inbox.goOn, h, List.tail_cons, List.map_cons, List.sum_cons]
  omega

end Inbox

/-! ## §2  The number of steps -/

/-- The steps that the parent has left, and what the signals cost that it still sends. -/
def ParentPc.rank (n : ℕ) : ParentPc → ℕ
  | .resetFlag => 14 * n + 17
  | .ready stage => 14 * n + 14 + stageRank stage
  | .resetAgain => 14 * n + 13
  | .send i => 14 * (n - i) + 12
  | .confirm i stage => 14 * (n - (i + 1)) + 14 + stageRank stage
  | .clear i => 14 * (n - (i + 1)) + 13
  | .switchUsr1 => 11
  | .switchUsr2 => 10
  | .tell => 9
  | .finish stage => 2 + stageRank stage
  | .print => 1
  | .ended => 0

def ChildPc.rank (n : ℕ) : ChildPc → ℕ
  | .catchUsr1 => 14 * n + 17
  | .catchUsr2 => 14 * n + 16
  | .killReady => 14 * n + 15
  | .wait stage => 14 * n + 8 + stageRank stage
  | .print => 14 * n + 7
  | .switch => 14 * n + 6
  | .resend i => 14 * (n - i) + 5
  | .confirm i stage => 14 * (n - (i + 1)) + 7 + stageRank stage
  | .clear i => 14 * (n - (i + 1)) + 6
  | .ended => 0

def State.rank (n : ℕ) (s : State) : ℕ :=
  s.parent.pc.rank n + inboxCost ParentFrame.cost s.child.pc.parentUsr1Cost s.parent.inbox +
    (s.child.pc.rank n + inboxCost ChildFrame.cost s.child.pc.usr1Cost s.child.inbox)

theorem ParentPc.rank_woken (n : ℕ) (pc : ParentPc) : pc.woken.rank n ≤ pc.rank n + 2 := by
  unfold woken
  split
  · exact Nat.le_refl _
  · exact Nat.le_refl _
  · exact Nat.le_refl _
  · exact Nat.le_add_right _ _

theorem ChildPc.rank_woken (n : ℕ) (pc : ChildPc) : pc.woken.rank n ≤ pc.rank n + 2 := by
  unfold woken
  split
  · exact Nat.le_refl _
  · exact Nat.le_refl _
  · exact Nat.le_add_right _ _

theorem ChildPc.cost_woken (pc : ChildPc) :
    pc.woken.usr1Cost = pc.usr1Cost ∧ pc.woken.parentUsr1Cost = pc.parentUsr1Cost := by
  unfold woken
  split <;> exact ⟨rfl, rfl⟩

theorem rank_parentMain (h : s.parentMain n = some t) : t.rank n < s.rank n := by
  cases parentStep h with
  | send i hpc =>
      have hcost := inboxCost_post_usr1 .merged ChildFrame.cost s.child.pc.usr1Cost s.child.inbox
      have hbounds := s.child.pc.cost_bounds
      simp only [State.rank, Parent.goto, Child.kill, hpc, ParentPc.rank, stageRank]
      omega
  | tell hpc =>
      have hcost := inboxCost_post_usr2 .merged ChildFrame.cost s.child.pc.usr1Cost s.child.inbox
      simp only [State.rank, Parent.goto, Child.kill, hpc, ParentPc.rank, stageRank]
      omega
  | resetFlag hpc | notReady hpc | ready hpc | pauseReady hpc | resetAgain hpc | sent i hpc
  | notConfirmed i hpc | confirmed i hpc | pauseConfirm i hpc | clear i hpc | switchUsr1 hpc
  | switchUsr2 hpc | notFinished hpc | finished hpc | pauseFinish hpc | print hpc =>
      simp only [State.rank, Parent.goto, hpc, ParentPc.rank, stageRank]
      omega

/-- Nothing is pending for the parent when the child begins to send back. -/
theorem Sound.parent_not_pending (h : Sound n s) (hseen : s.child.pc.Seen)
    (hsent : s.child.pc.sent n = 0) : s.parent.inbox.pending .usr1 = 0 := by
  have hdata := (h.resending hseen).data
  rw [hsent, Inbox.due] at hdata
  omega

/-- Where the costs change nothing is pending that they are the costs of. -/
theorem rank_childProceeds (hs : Sound n s) (hquiet : s.child.inbox.Quiet)
    (hpc : s.child.pc = .wait .test) (hproceed : s.child.proceed ≠ 0) :
    State.rank n { s with child := s.child.goto .print } < s.rank n := by
  have hsound := hs.childSeen hquiet hpc hproceed
  have hparent : s.parent.inbox.pending .usr1 = 0 := hsound.parent_not_pending trivial rfl
  have hchild := hquiet.2 .usr1
  simp only [State.rank, inboxCost, Child.goto, hpc, hparent, hchild, Nat.mul_zero, ChildPc.rank,
    stageRank]
  omega

theorem rank_childMain (hs : Sound n s) (hquiet : s.child.inbox.Quiet)
    (h : s.childMain = some t) : t.rank n < s.rank n := by
  cases childStep h with
  | killReady hpc =>
      have hcost := inboxCost_post_usr2 .merged ParentFrame.cost 4 s.parent.inbox
      simp only [State.rank, Parent.kill, Child.goto, hpc, ChildPc.rank, ChildPc.usr1Cost,
        ChildPc.parentUsr1Cost, stageRank]
      omega
  | seen hpc hproceed => exact rank_childProceeds hs hquiet hpc hproceed
  | resend i hpc hi =>
      have hcounted := (hs.resending (hpc ▸ trivial)).counted
      have hcost := inboxCost_post_usr1 .merged ParentFrame.cost 9 s.parent.inbox
      simp only [State.rank, Parent.kill, Child.goto, hpc, ChildPc.rank, ChildPc.usr1Cost,
        ChildPc.parentUsr1Cost, stageRank]
      omega
  | resent i hpc =>
      have hcost := inboxCost_post_usr2 .merged ParentFrame.cost 9 s.parent.inbox
      simp only [State.rank, Parent.kill, Child.goto, hpc, ChildPc.rank, ChildPc.usr1Cost,
        ChildPc.parentUsr1Cost]
      omega
  | catchUsr1 hpc | catchUsr2 hpc | notSeen hpc | pauseWait hpc | print hpc | switch hpc
  | notConfirmed i hpc | confirmed i hpc | pauseConfirm i hpc | clear i hpc =>
      simp only [State.rank, Child.goto, hpc, ChildPc.rank, ChildPc.usr1Cost,
        ChildPc.parentUsr1Cost, stageRank]
      omega

/-- The answer of the parent costs the child what the handler has still to pay. -/
theorem rank_parentHandle (hs : Sound n s) (h : s.parentHandle = some t) :
    t.rank n < s.rank n := by
  cases parentHandler h with
  | confirm fs hframes | mark fs hframes =>
      have hcost := inboxCost_leave ParentFrame.cost s.child.pc.parentUsr1Cost hframes
      simp only [State.rank, ParentFrame.cost] at hcost ⊢
      omega
  | count fs hframes =>
      have hcost := inboxCost_goOn ParentFrame.cost s.child.pc.parentUsr1Cost hframes .reply
      simp only [State.rank, ParentFrame.cost] at hcost ⊢
      omega
  | reply fs hframes =>
      have hseen := hs.seen_of_parent (.inr (Inbox.running_ne_zero hframes))
      have hcost := inboxCost_leave ParentFrame.cost s.child.pc.parentUsr1Cost hframes
      have hpost := inboxCost_post_usr1 .merged ChildFrame.cost s.child.pc.usr1Cost s.child.inbox
      have hchild := (ChildPc.cost_of_seen hseen).1
      simp only [State.rank, Child.kill, ParentFrame.cost] at hcost ⊢
      omega

theorem rank_childHandle (hs : Sound n s) (h : s.childHandle = some t) : t.rank n < s.rank n := by
  cases childHandler h with
  | count fs hframes =>
      have hcost := inboxCost_goOn ChildFrame.cost s.child.pc.usr1Cost hframes .reply
      simp only [State.rank, ChildFrame.cost] at hcost ⊢
      omega
  | reply fs hframes =>
      have hseen := hs.not_seen_of_child (.inr (Inbox.running_ne_zero hframes))
      have hcost := inboxCost_leave ChildFrame.cost s.child.pc.usr1Cost hframes
      have hpost := inboxCost_post_usr1 .merged ParentFrame.cost s.child.pc.parentUsr1Cost
        s.parent.inbox
      have hparent := (ChildPc.cost_of_not_seen hseen).2
      simp only [State.rank, Parent.kill, ChildFrame.cost] at hcost ⊢
      omega
  | mark fs hframes | confirm fs hframes =>
      have hcost := inboxCost_leave ChildFrame.cost s.child.pc.usr1Cost hframes
      simp only [State.rank, ChildFrame.cost] at hcost ⊢
      omega

theorem Sound.parent_usr1_cost (h : Sound n s) (hsig : 0 < s.parent.inbox.pending .usr1) :
    (s.parent.pc.sigHandle .usr1).cost + 3 ≤ s.child.pc.parentUsr1Cost := by
  rcases s.parent.pc.sigHandle_cases n with ⟨hpc, -⟩ | ⟨hpc, hsent, hacked⟩
  · rw [hpc]
    exact s.child.pc.cost_bounds.2.2.1
  · have hseen : s.child.pc.Seen := by
      by_contra hseen
      have hdata := (h.sending hseen).data
      have hack := (h.sending hseen).ack
      rw [Inbox.due] at hack
      omega
    rw [hpc, (ChildPc.cost_of_seen hseen).2]
    exact Nat.le_refl 9

theorem rank_parentDeliver (hs : Sound n s) {sig : Usr} (hsig : 0 < s.parent.inbox.pending sig) :
    (s.parentDeliver sig).rank n < s.rank n := by
  have hwoken := s.parent.pc.rank_woken n
  cases sig with
  | usr1 =>
      have hhandler := hs.parent_usr1_cost hsig
      have hcost := inboxCost_take_usr1 ParentFrame.cost s.child.pc.parentUsr1Cost
        (s.parent.pc.sigHandle .usr1) hsig
      simp only [State.rank, State.parentDeliver]
      omega
  | usr2 =>
      have hcost := inboxCost_take_usr2 ParentFrame.cost s.child.pc.parentUsr1Cost
        (s.parent.pc.sigHandle .usr2) hsig
      have hhandler : (s.parent.pc.sigHandle .usr2).cost = 1 := by
        rw [s.parent.pc.sigHandle_usr2]
        rfl
      simp only [State.rank, State.parentDeliver]
      omega

theorem Sound.child_usr1_cost (h : Sound n s) (hsig : 0 < s.child.inbox.pending .usr1)
    {f : ChildFrame} (hf : s.child.pc.sigHandle .usr1 = some f) :
    f.cost + 3 ≤ s.child.pc.usr1Cost := by
  by_cases hseen : s.child.pc.Seen
  · rw [(ChildPc.cost_of_seen hseen).1]
    rcases s.child.pc.sigHandle_seen n hseen with hpc | ⟨-, hsent, hacked⟩
    · obtain rfl := Option.some.inj (hpc.symm.trans hf)
      exact Nat.le_refl 4
    · -- nothing has been sent back that the parent could have answered
      have hdata := (h.resending hseen).data
      have hack := (h.resending hseen).ack
      rw [Inbox.due] at hack
      omega
  · rw [(ChildPc.cost_of_not_seen hseen).1]
    cases f <;> simp [ChildFrame.cost]

theorem ChildPc.sigHandle_usr2_cost {pc : ChildPc} {f : ChildFrame}
    (h : pc.sigHandle .usr2 = some f) : f.cost = 1 := by
  cases pc <;> cases h <;> rfl

theorem rank_childDeliver (hs : Sound n s) {sig : Usr} (hsig : 0 < s.child.inbox.pending sig) :
    (s.childDeliver sig).rank n < s.rank n := by
  have hwoken := s.child.pc.rank_woken n
  obtain ⟨hcost, hparent⟩ := s.child.pc.cost_woken
  obtain ⟨f, hf⟩ := hs.child_catches hsig
  dsimp only [State.childDeliver]
  rw [hf]
  cases sig with
  | usr1 =>
      have hhandler := hs.child_usr1_cost hsig hf
      have htake := inboxCost_take_usr1 ChildFrame.cost s.child.pc.usr1Cost f hsig
      simp only [State.rank, hcost, hparent]
      omega
  | usr2 =>
      have hhandler := ChildPc.sigHandle_usr2_cost hf
      have htake := inboxCost_take_usr2 ChildFrame.cost s.child.pc.usr1Cost f hsig
      simp only [State.rank, hcost, hparent]
      omega

theorem rank_next (hs : Sound n s) (h : s.next n a = some t) : t.rank n < s.rank n := by
  cases a with
  | parent e =>
      simp only [State.next, Option.ite_none_left_eq_some] at h
      obtain ⟨-, h⟩ := h
      cases e with
      | main =>
          obtain ⟨-, h⟩ := Option.ite_none_right_eq_some.mp h
          exact rank_parentMain h
      | handle => exact rank_parentHandle hs h
      | deliver sig =>
          obtain ⟨hsig, h⟩ := Option.ite_none_right_eq_some.mp h
          obtain rfl := Option.some.inj h
          exact rank_parentDeliver hs hsig.1
  | child e =>
      simp only [State.next, Option.ite_none_left_eq_some] at h
      obtain ⟨-, h⟩ := h
      cases e with
      | main =>
          obtain ⟨hquiet, h⟩ := Option.ite_none_right_eq_some.mp h
          exact rank_childMain hs hquiet h
      | handle => exact rank_childHandle hs h
      | deliver sig =>
          obtain ⟨hsig, h⟩ := Option.ite_none_right_eq_some.mp h
          obtain rfl := Option.some.inj h
          exact rank_childDeliver hs hsig.1

end Sysopy.SignalExchange.Confirmed
