import Sysopy.SignalExchange.ConfirmedCount

/-!
# Signals that wake nobody

A process that waits tests a flag and calls `pause`. A signal that is handled between the
two has set the flag already, and wakes nobody any more; and a mark from the child that
is handled before the first `flag = 0` is forgotten. As long as neither happens, one of
the processes can always go on.

## Sections

* §1 waiting processes
* §2 the marks to the parent
* §3 all steps
-/

namespace Sysopy.SignalExchange.Confirmed

open Sysopy.Foundation

/-! ## §1  Waiting processes -/

def ParentPc.AtCall : ParentPc → Prop
  | .ready .call | .confirm _ .call | .finish .call => True
  | _ => False

def ChildPc.AtCall : ChildPc → Prop
  | .wait .call | .confirm _ .call => True
  | _ => False

def Parent.awaited (p : Parent) : ℕ :=
  match p.pc with
  | .confirm _ _ => p.confirmation
  | _ => p.flag

def Child.awaited (c : Child) : ℕ :=
  match c.pc with
  | .confirm _ _ => c.confirmation
  | _ => c.proceed

/-- `pause` is called while the flag that is waited for is still 0, and the first
`flag = 0` finds it so. -/
def Careful (s : State) : Action → Prop
  | .parent .main =>
      (s.parent.pc.AtCall → s.parent.awaited = 0) ∧ (s.parent.pc = .resetFlag → s.parent.flag = 0)
  | .child .main => s.child.pc.AtCall → s.child.awaited = 0
  | _ => True

/-- Nothing will ever happen any more: the parent is in `pause` without a signal, and so
is the child, unless it has ended. -/
def Stuck (s : State) : Prop :=
  s.parent.pc.Blocked ∧ (∀ sig, s.parent.inbox.pending sig = 0) ∧
    (s.child.pc = .ended ∨ s.child.pc.Blocked ∧ ∀ sig, s.child.inbox.pending sig = 0)

structure Awake (n : ℕ) (s : State) : Prop where
  sound : Sound n s
  /-- no mark to the parent is lost -/
  marks : s.parent.inbox.due .usr2 .mark + s.parent.flag + s.parent.pc.started =
    s.child.pc.ready + s.child.pc.told
  parentBlocked : s.parent.pc.Blocked → s.parent.inbox.frames = [] ∧ s.parent.awaited = 0
  childBlocked : s.child.pc.Blocked → s.child.inbox.frames = [] ∧ s.child.awaited = 0

variable {n : ℕ} {s t : State}

theorem awake_start : Awake n (exchange n).init where
  sound := sound_start
  marks := rfl
  parentBlocked := nofun
  childBlocked := nofun

theorem due_of_blocked {F : Type*} [DecidableEq F] {i : Inbox Usr F} (hframes : i.frames = [])
    (hpending : ∀ sig, i.pending sig = 0) (sig : Usr) (f : F) : i.due sig f = 0 := by
  rw [Inbox.due, hpending, Inbox.running, hframes, List.count_nil]

/-- **One of the processes can go on.** -/
theorem Awake.not_stuck (h : Awake n s) : ¬Stuck s := by
  rintro ⟨hparent, hpending, hchild⟩
  obtain ⟨hframes, hawaited⟩ := h.parentBlocked hparent
  have hdue := due_of_blocked hframes hpending
  have hmarks := h.marks
  rw [hdue] at hmarks
  have hready : s.child.pc.ready = 1 := by
    rcases hchild with hpc | ⟨hpc, -⟩
    · rw [hpc]
      rfl
    · cases hcase : s.child.pc with
      | wait | confirm => rfl
      | _ =>
          rw [hcase] at hpc
          exact hpc.elim
  cases hpc : s.parent.pc with
  | ready stage =>
      -- the child has told that it is ready
      rw [Parent.awaited, hpc] at hawaited
      rw [hpc, ParentPc.started] at hmarks
      dsimp only at hawaited
      omega
  | confirm i stage =>
      -- the signal has been counted and its confirmation has not come
      have hseen := h.sound.not_seen (by rw [hpc]; rfl)
      have hway := (h.sound.sending hseen).eq_of_confirm hpc
      rcases hchild with hended | ⟨hblocked, hpending'⟩
      · exact hseen (hended ▸ trivial)
      · obtain ⟨hframes', -⟩ := h.childBlocked hblocked
        rw [Parent.awaited, hpc] at hawaited
        dsimp only at hawaited
        rw [due_of_blocked hframes' hpending', hdue, hawaited, Inbox.running, hframes',
          List.count_nil] at hway
        cases hway
  | finish stage =>
      have hstarted : s.parent.pc.started = 1 := by rw [hpc]; rfl
      have htold : s.parent.pc.told = 1 := by rw [hpc]; rfl
      rw [Parent.awaited, hpc] at hawaited
      dsimp only at hawaited
      rcases hchild with hended | ⟨hblocked, hpending'⟩
      · -- the end marker of the child has come
        have htold' : s.child.pc.told = 1 := by rw [hended]; rfl
        omega
      · obtain ⟨hframes', hawaited'⟩ := h.childBlocked hblocked
        have hdue' := due_of_blocked hframes' hpending'
        cases hcase : s.child.pc with
        | wait stage' =>
            -- the end marker of the parent has come
            have hmarker := h.sound.marker
            rw [hdue', htold] at hmarker
            rw [Child.awaited, hcase] at hawaited'
            dsimp only at hawaited'
            omega
        | confirm j stage' =>
            -- the signal has been counted and its confirmation has not come
            have hway := (h.sound.resending (hcase ▸ trivial)).eq_of_confirm hcase
            rw [Child.awaited, hcase] at hawaited'
            dsimp only at hawaited'
            rw [hdue, hdue', hawaited', Inbox.running, hframes, List.count_nil] at hway
            cases hway
        | _ =>
            rw [hcase] at hblocked
            exact hblocked.elim
  | _ =>
      rw [hpc] at hparent
      exact hparent.elim

/-! ## §2  The marks to the parent -/

theorem Awake.marks_le (h : Awake n s) :
    s.parent.inbox.due .usr2 .mark + s.parent.flag ≤ 1 := by
  have hmarks := h.marks
  have hready := s.child.pc.ready_le
  by_cases hseen : s.child.pc.Seen
  · have htold := (h.sound.resending hseen).told
    have hstarted := s.parent.pc.told_le
    omega
  · have htold : s.child.pc.told = 0 := by
      by_contra hne
      have hended : s.child.pc = .ended := ChildPc.eq_ended (by omega)
      exact hseen (hended ▸ trivial)
    omega

/-- `main` of the parent leaves the marks as they are, and gets into `pause` only from
the call. -/
theorem Awake.parentMain (h : Awake n s) (hquiet : s.parent.inbox.Quiet)
    (hcareful : Careful s (.parent .main)) (hnext : s.parentMain n = some t) : Awake n t := by
  have hsound := h.sound.parentMain hnext
  have hmarks := h.marks
  cases parentStep hnext with
  | resetFlag hpc =>
      have hflag := hcareful.2 hpc
      rw [hpc, hflag] at hmarks
      exact ⟨hsound, hmarks, nofun, h.childBlocked⟩
  | pauseReady hpc | pauseConfirm i hpc | pauseFinish hpc =>
      rw [hpc] at hmarks
      -- nothing has come since the test, or the step would not be careful
      have hflag := hcareful.1 (by rw [hpc]; trivial)
      rw [Parent.awaited, hpc] at hflag
      exact ⟨hsound, hmarks, fun _ => ⟨hquiet.frames_eq, hflag⟩, h.childBlocked⟩
  | resetAgain hpc =>
      -- the flag was set, so the reset uses up one mark
      have hflag := h.sound.flagged hpc
      have hle := h.marks_le
      rw [hpc] at hmarks
      refine ⟨hsound, ?_, nofun, h.childBlocked⟩
      show s.parent.inbox.due .usr2 .mark + 0 + 1 = s.child.pc.ready + s.child.pc.told
      rw [← hmarks]
      show _ = s.parent.inbox.due .usr2 .mark + s.parent.flag + 0
      omega
  | notReady hpc | ready hpc | send i hpc | sent i hpc | notConfirmed i hpc | confirmed i hpc
  | clear i hpc | switchUsr1 hpc | switchUsr2 hpc | tell hpc | notFinished hpc | finished hpc
  | print hpc =>
      rw [hpc] at hmarks
      exact ⟨hsound, hmarks, nofun, h.childBlocked⟩

theorem Awake.parent_not_blocked (h : Awake n s) {f : ParentFrame} {fs : List ParentFrame}
    (hframes : s.parent.inbox.frames = f :: fs) : ¬s.parent.pc.Blocked := fun hblocked =>
  absurd (hframes.symm.trans (h.parentBlocked hblocked).1) (List.cons_ne_nil f fs)

theorem Awake.child_not_blocked (h : Awake n s) {f : ChildFrame} {fs : List ChildFrame}
    (hframes : s.child.inbox.frames = f :: fs) : ¬s.child.pc.Blocked := fun hblocked =>
  absurd (hframes.symm.trans (h.childBlocked hblocked).1) (List.cons_ne_nil f fs)

/-- Every mark to the parent sets `flag` from 0 to 1. -/
theorem Awake.parentHandle (h : Awake n s) (hnext : s.parentHandle = some t) : Awake n t := by
  have hsound := h.sound.parentHandle hnext
  have hmarks := h.marks
  cases parentHandler hnext with
  | confirm fs hframes | reply fs hframes =>
      have hmark := Inbox.due_leave_of_ne .usr2 (f := ParentFrame.mark) hframes nofun
      exact ⟨hsound, hmark.symm ▸ hmarks, fun hb => absurd hb (h.parent_not_blocked hframes),
        h.childBlocked⟩
  | mark fs hframes =>
      have hself := Inbox.due_leave_self .usr2 hframes
      have hle := h.marks_le
      refine ⟨hsound, ?_, fun hb => absurd hb (h.parent_not_blocked hframes), h.childBlocked⟩
      dsimp only
      omega
  | count fs hframes =>
      have hmark := Inbox.due_goOn_of_ne .usr2 (f := ParentFrame.mark) (g := .count) hframes
        (by decide) (show ParentFrame.mark ≠ .reply by decide)
      exact ⟨hsound, hmark.symm ▸ hmarks, fun hb => absurd hb (h.parent_not_blocked hframes),
        h.childBlocked⟩

theorem ParentPc.not_blocked_woken (pc : ParentPc) : ¬pc.woken.Blocked := by
  unfold woken
  split
  · exact id
  · exact id
  · exact id
  · rename_i hready hconfirm hfinish
    intro hblocked
    unfold Blocked at hblocked
    split at hblocked
    · exact hready rfl
    · exact hconfirm _ rfl
    · exact hfinish rfl
    · exact hblocked

theorem ChildPc.not_blocked_woken (pc : ChildPc) : ¬pc.woken.Blocked := by
  unfold woken
  split
  · exact id
  · exact id
  · rename_i hwait hconfirm
    intro hblocked
    unfold Blocked at hblocked
    split at hblocked
    · exact hwait rfl
    · exact hconfirm _ rfl
    · exact hblocked

theorem Awake.parentDeliver (h : Awake n s) {sig : Usr} (hsig : 0 < s.parent.inbox.pending sig) :
    Awake n (s.parentDeliver sig) := by
  have hmarks := h.marks
  refine ⟨h.sound.parentDeliver hsig, ?_, fun hb => absurd hb (ParentPc.not_blocked_woken _),
    h.childBlocked⟩
  have hstarted : s.parent.pc.woken.started = s.parent.pc.started := by
    rcases s.parent.pc.woken_eq with heq | ⟨old, hpc, hsame, -⟩
    · rw [heq]
    · rw [(hsame n).2.2.2, hpc]
  have hdue : (s.parent.inbox.take sig (s.parent.pc.sigHandle sig)).due .usr2 .mark =
      s.parent.inbox.due .usr2 .mark := by
    cases sig with
    | usr1 =>
        refine s.parent.inbox.due_take_of_ne (by decide) ?_
        rcases s.parent.pc.sigHandle_cases n with ⟨hpc, -⟩ | ⟨hpc, -⟩
        · rw [hpc]
          nofun
        · rw [hpc]
          nofun
    | usr2 =>
        rw [s.parent.pc.sigHandle_usr2]
        exact Inbox.due_take_self hsig
  show (s.parent.inbox.take sig _).due .usr2 .mark + s.parent.flag + s.parent.pc.woken.started =
    s.child.pc.ready + s.child.pc.told
  rw [hdue, hstarted, hmarks]

/-- A mark is sent while none is pending. -/
theorem due_mark_post {i : Inbox Usr ParentFrame} (h : i.due .usr2 .mark = 0) :
    (i.post .merged .usr2).due .usr2 .mark = 1 := by
  rw [Inbox.due_post_of_eq_zero (Nat.eq_zero_of_add_eq_zero_right h), h]

/-- `main` of the child sends each of its marks when no other one is on its way. -/
theorem Awake.childMain (h : Awake n s) (hquiet : s.child.inbox.Quiet)
    (hcareful : Careful s (.child .main)) (hnext : s.childMain = some t) : Awake n t := by
  have hsound := h.sound.childMain hquiet hnext
  have hmarks := h.marks
  cases childStep hnext with
  | killReady hpc =>
      have hzero : s.parent.inbox.due .usr2 .mark + s.parent.flag + s.parent.pc.started = 0 := by
        rwa [hpc] at hmarks
      have hpost := due_mark_post (i := s.parent.inbox) (by omega)
      refine ⟨hsound, ?_, h.parentBlocked, nofun⟩
      show (s.parent.inbox.post .merged .usr2).due .usr2 .mark + s.parent.flag +
        s.parent.pc.started = 1
      omega
  | pauseWait hpc | pauseConfirm i hpc =>
      rw [hpc] at hmarks
      have hflag := hcareful (by rw [hpc]; trivial)
      rw [Child.awaited, hpc] at hflag
      exact ⟨hsound, hmarks, h.parentBlocked, fun _ => ⟨hquiet.frames_eq, hflag⟩⟩
  | resend i hpc =>
      rw [hpc] at hmarks
      refine ⟨hsound, ?_, h.parentBlocked, nofun⟩
      show (s.parent.inbox.post .merged .usr1).due .usr2 .mark + _ + _ = _
      rwa [Inbox.due_post_of_ne (by decide)]
  | resent i hpc =>
      have hone : s.parent.inbox.due .usr2 .mark + s.parent.flag + s.parent.pc.started = 1 := by
        rwa [hpc] at hmarks
      -- the parent has used up the first mark before it has sent its own one
      have htold := (h.sound.resending (hpc ▸ trivial)).told
      have hstarted := s.parent.pc.told_le
      have hpost := due_mark_post (i := s.parent.inbox) (by omega)
      refine ⟨hsound, ?_, h.parentBlocked, nofun⟩
      show (s.parent.inbox.post .merged .usr2).due .usr2 .mark + s.parent.flag +
        s.parent.pc.started = 2
      omega
  | catchUsr1 hpc | catchUsr2 hpc | notSeen hpc | seen hpc | print hpc | switch hpc
  | notConfirmed i hpc | confirmed i hpc | clear i hpc =>
      rw [hpc] at hmarks
      exact ⟨hsound, hmarks, h.parentBlocked, nofun⟩

theorem Awake.childHandle (h : Awake n s) (hnext : s.childHandle = some t) : Awake n t := by
  have hsound := h.sound.childHandle hnext
  have hmarks := h.marks
  cases childHandler hnext with
  | count fs hframes | mark fs hframes | confirm fs hframes =>
      exact ⟨hsound, hmarks, h.parentBlocked, fun hb => absurd hb (h.child_not_blocked hframes)⟩
  | reply fs hframes =>
      refine ⟨hsound, ?_, h.parentBlocked, fun hb => absurd hb (h.child_not_blocked hframes)⟩
      show (s.parent.inbox.post .merged .usr1).due .usr2 .mark + _ + _ = _
      rwa [Inbox.due_post_of_ne (by decide)]

theorem ChildPc.marks_woken (pc : ChildPc) :
    pc.woken.ready = pc.ready ∧ pc.woken.told = pc.told := by
  unfold woken
  split <;> exact ⟨rfl, rfl⟩

theorem Awake.childDeliver (h : Awake n s) {sig : Usr} (hsig : 0 < s.child.inbox.pending sig) :
    Awake n (s.childDeliver sig) := by
  have hsound := h.sound.childDeliver hsig
  obtain ⟨f, hf⟩ := h.sound.child_catches hsig
  obtain ⟨hready, htold⟩ := s.child.pc.marks_woken
  dsimp only [State.childDeliver] at hsound ⊢
  rw [hf] at hsound ⊢
  refine ⟨hsound, ?_, h.parentBlocked, fun hb => absurd hb (ChildPc.not_blocked_woken _)⟩
  show _ = s.child.pc.woken.ready + s.child.pc.woken.told
  rw [hready, htold]
  exact h.marks

/-! ## §3  All steps -/

theorem Awake.next (h : Awake n s) {a : Action} (hcareful : Careful s a)
    (hnext : s.next n a = some t) : Awake n t := by
  cases a with
  | parent e =>
      simp only [State.next, Option.ite_none_left_eq_some] at hnext
      obtain ⟨-, hnext⟩ := hnext
      cases e with
      | main =>
          obtain ⟨hquiet, hnext⟩ := Option.ite_none_right_eq_some.mp hnext
          exact h.parentMain hquiet hcareful hnext
      | handle => exact h.parentHandle hnext
      | deliver sig =>
          obtain ⟨hsig, hnext⟩ := Option.ite_none_right_eq_some.mp hnext
          obtain rfl := Option.some.inj hnext
          exact h.parentDeliver hsig.1
  | child e =>
      simp only [State.next, Option.ite_none_left_eq_some] at hnext
      obtain ⟨-, hnext⟩ := hnext
      cases e with
      | main =>
          obtain ⟨hquiet, hnext⟩ := Option.ite_none_right_eq_some.mp hnext
          exact h.childMain hquiet hcareful hnext
      | handle => exact h.childHandle hnext
      | deliver sig =>
          obtain ⟨hsig, hnext⟩ := Option.ite_none_right_eq_some.mp hnext
          obtain rfl := Option.some.inj hnext
          exact h.childDeliver hsig.1

/-- **The confirmed exchange gets stuck only when a signal wakes nobody**: in a run in
which `pause` is never called after the flag has been set, and the mark of the child does
not come before the first `flag = 0`, one of the processes can always go on. -/
theorem never_stuck_of_careful {tr : List (State × Action)} (h : (exchange n).Run tr s)
    (hcareful : ∀ x ∈ tr, Careful x.1 x.2) : ¬Stuck s :=
  (h.invariant_of_steps (I := fun _ s => Awake n s) hcareful awake_start
    fun _ _ _ _ ih ha hnext => ih.next ha hnext).not_stuck

/-- The child gets ready, the parent, which has been woken for that, sends a signal, and the
child counts it and answers. -/
theorem never_stuck_of_careful_answer :
    ∃ (tr : List (State × Action)) (s : State),
      (exchange 2).Run tr s ∧ s.parent.confirmation = 1 ∧ s.child.counter = 1 ∧ ¬Stuck s := by
  have hrun := (exchange 2).run_of_replay
    [.parent .main, .parent .main, .parent .main, .child .main, .child .main, .child .main,
      .parent (.deliver .usr2), .parent .handle, .parent .main, .parent .main, .parent .main,
      .child (.deliver .usr1), .child .handle, .child .handle, .parent (.deliver .usr1),
      .parent .handle] rfl
  refine ⟨_, _, hrun, rfl, rfl, never_stuck_of_careful hrun ?_⟩
  simp only [List.forall_mem_cons]
  refine ⟨⟨False.elim, fun _ => rfl⟩, ⟨False.elim, nofun⟩, ⟨fun _ => rfl, nofun⟩, False.elim,
    False.elim, False.elim, trivial, trivial, ⟨False.elim, nofun⟩, ⟨False.elim, nofun⟩,
    ⟨False.elim, nofun⟩, trivial, trivial, trivial, trivial, trivial,
    fun _ hx => absurd hx List.not_mem_nil⟩

/-- The child is ready before the parent has got to its first `flag = 0`. -/
theorem ready_mark_is_forgotten :
    ∃ (tr : List (State × Action)) (s : State), (exchange 2).Run tr s ∧ Stuck s :=
  ⟨_, _, (exchange 2).run_of_replay
    [.child .main, .child .main, .child .main, .parent (.deliver .usr2), .parent .handle,
      .parent .main, .parent .main, .parent .main, .child .main, .child .main] rfl,
    trivial, by decide, Or.inr ⟨trivial, by decide⟩⟩

end Sysopy.SignalExchange.Confirmed
