import Mathlib.Data.Fintype.EquivFin
import Sysopy.SignalExchange.UnconfirmedCount

/-!
# How the unconfirmed exchange ends

No order of the steps goes on for ever, so that every exchange comes to a state in which
neither process can do anything. Then both have ended, or one of them sleeps for good: it
has called `pause` or `sigsuspend` after its flag had been set, or the parent has reset
its flag after the child had told that it is ready.

## Sections

* §1 the number of steps
* §2 where nobody can go on
* §3 as long as no signal is missed
* §4 after a signal was missed
* §5 the end
-/

namespace Sysopy.SignalExchange.Unconfirmed

open Sysopy.Foundation

variable {d : Discipline} {n : ℕ} {s t : State} {a : Action}

/-! ## §1  The number of steps -/

/-- The steps of a loop that waits, until the next signal. -/
def stageRank : Stage → ℕ
  | .test => 2
  | .call => 1
  | .blocked => 0

/-- The steps that the parent has left, and what the signals cost that it still sends. -/
def ParentPc.rank (n : ℕ) : ParentPc → ℕ
  | .resetFlag => 10 * n + 15
  | .ready stage => 10 * n + 12 + stageRank stage
  | .resetAgain => 10 * n + 11
  | .send i => 10 * (n - i) + 10
  | .finish stage => 2 + stageRank stage
  | .print => 1
  | .ended => 0

def ChildPc.rank (counter : ℕ) : ChildPc → ℕ
  | .catchUsr1 => 5 * counter + 17
  | .catchUsr2 => 5 * counter + 16
  | .killReady => 5 * counter + 15
  | .wait stage => 5 * counter + 8 + stageRank stage
  | .print => 5 * counter + 7
  | .resend i => 5 * (counter - i) + 6
  | .ended => 0

/-- What the signals of a process cost, when the statements of its handlers cost `count`
and `mark`: a signal that is delivered wakes the process, which tests its flag again. -/
def load (count mark : ℕ) (i : Inbox Usr Frame) : ℕ :=
  (count + 3) * i.pending .usr1 + (mark + 3) * i.pending .usr2 +
    (count * i.running .count + mark * i.running .mark)

/-- A signal that the child counts is one more that it sends back. -/
def State.rank (n : ℕ) (s : State) : ℕ :=
  s.parent.pc.rank n + load 1 1 s.parent.inbox +
    (s.child.pc.rank s.child.counter + load 6 1 s.child.inbox)

section Load

variable {count mark : ℕ} {i : Inbox Usr Frame} {fs : List Frame}

theorem load_post_usr1 (d : Discipline) (count mark : ℕ) (i : Inbox Usr Frame) :
    load count mark (i.post d .usr1) ≤ load count mark i + (count + 3) := by
  have hpost := d.post_le (i.pending .usr1)
  have hmul := Nat.mul_le_mul_left (count + 3) hpost
  rw [Nat.mul_succ] at hmul
  simp only [load, Inbox.post_pending_self, Inbox.running_post,
    Inbox.post_pending_of_ne (show Usr.usr2 ≠ .usr1 by decide)]
  omega

theorem load_post_usr2 (d : Discipline) (count mark : ℕ) (i : Inbox Usr Frame) :
    load count mark (i.post d .usr2) ≤ load count mark i + (mark + 3) := by
  have hpost := d.post_le (i.pending .usr2)
  have hmul := Nat.mul_le_mul_left (mark + 3) hpost
  rw [Nat.mul_succ] at hmul
  simp only [load, Inbox.post_pending_self, Inbox.running_post,
    Inbox.post_pending_of_ne (show Usr.usr1 ≠ .usr2 by decide)]
  omega

theorem load_take (count mark : ℕ) {sig : Usr} (h : 0 < i.pending sig) :
    load count mark (i.take sig (sigHandle sig)) + 3 = load count mark i := by
  obtain ⟨k, hk⟩ := Nat.exists_eq_succ_of_ne_zero h.ne'
  cases sig with
  | usr1 =>
      simp only [load, sigHandle, Inbox.take_pending_self, Inbox.running_take_self,
        Inbox.take_pending_of_ne (show Usr.usr2 ≠ .usr1 by decide),
        i.running_take_of_ne .usr1 (show Frame.mark ≠ .count by decide), hk]
      rw [Nat.succ_sub_one, Nat.mul_succ, Nat.mul_succ]
      omega
  | usr2 =>
      simp only [load, sigHandle, Inbox.take_pending_self, Inbox.running_take_self,
        Inbox.take_pending_of_ne (show Usr.usr1 ≠ .usr2 by decide),
        i.running_take_of_ne .usr2 (show Frame.count ≠ .mark by decide), hk]
      rw [Nat.succ_sub_one, Nat.mul_succ, Nat.mul_succ]
      omega

theorem load_leave_count (h : i.frames = .count :: fs) :
    load count mark i.leave + count = load count mark i := by
  have hself := Inbox.running_leave_self h
  have hother := Inbox.running_leave_of_ne (f := Frame.mark) h nofun
  simp only [load, hother, ← hself, Nat.mul_succ]
  show (count + 3) * i.pending .usr1 + (mark + 3) * i.pending .usr2 + _ + count = _
  omega

theorem load_leave_mark (h : i.frames = .mark :: fs) :
    load count mark i.leave + mark = load count mark i := by
  have hself := Inbox.running_leave_self h
  have hother := Inbox.running_leave_of_ne (f := Frame.count) h nofun
  simp only [load, hother, ← hself, Nat.mul_succ]
  show (count + 3) * i.pending .usr1 + (mark + 3) * i.pending .usr2 + _ + mark = _
  omega

end Load

theorem ParentPc.rank_woken (pc : ParentPc) : pc.woken.rank n ≤ pc.rank n + 2 := by
  unfold woken
  split
  · exact Nat.le_refl _
  · exact Nat.le_refl _
  · exact Nat.le_add_right _ _

theorem ChildPc.rank_woken (pc : ChildPc) (counter : ℕ) :
    pc.woken.rank counter ≤ pc.rank counter + 2 := by
  unfold woken
  split
  · exact Nat.le_refl _
  · exact Nat.le_add_right _ _

theorem ChildPc.rank_succ (pc : ChildPc) (counter : ℕ) :
    pc.rank (counter + 1) ≤ pc.rank counter + 5 := by
  cases pc <;> simp only [rank] <;> omega

theorem ChildPc.rank_pos {pc : ChildPc} (h : pc ≠ .ended) (counter : ℕ) : 0 < pc.rank counter := by
  cases pc with
  | ended => exact absurd rfl h
  | _ =>
      simp only [rank]
      omega

theorem rank_parentMain (h : s.parentMain d n = some t) : t.rank n < s.rank n := by
  cases parentStep h with
  | send i hpc hi =>
      have hload := load_post_usr1 d 6 1 s.child.inbox
      simp only [State.rank, Process.goto, Process.kill, hpc, ParentPc.rank]
      omega
  | sent i hpc =>
      have hload := load_post_usr2 d 6 1 s.child.inbox
      simp only [State.rank, Process.goto, Process.kill, hpc, ParentPc.rank, stageRank]
      omega
  | resetFlag hpc | notReady hpc | ready hpc | pauseReady hpc | resetAgain hpc
  | notFinished hpc | finished hpc | pauseFinish hpc | print hpc =>
      simp only [State.rank, Process.goto, hpc, ParentPc.rank, stageRank]
      omega

theorem rank_childMain (h : s.childMain d = some t) : t.rank n < s.rank n := by
  cases childStep h with
  | killReady hpc =>
      have hload := load_post_usr2 d 1 1 s.parent.inbox
      simp only [State.rank, Process.goto, Process.kill, hpc, ChildPc.rank, stageRank]
      omega
  | resend i hpc hi =>
      have hload := load_post_usr1 d 1 1 s.parent.inbox
      simp only [State.rank, Process.goto, Process.kill, hpc, ChildPc.rank]
      omega
  | resent i hpc =>
      have hload := load_post_usr2 d 1 1 s.parent.inbox
      simp only [State.rank, Process.goto, Process.kill, hpc, ChildPc.rank]
      omega
  | catchUsr1 hpc | catchUsr2 hpc | notSeen hpc | seen hpc | pauseWait hpc | print hpc =>
      simp only [State.rank, Process.goto, hpc, ChildPc.rank, stageRank]
      omega

/-- What a handler costs is paid for when it has executed its statement. -/
theorem load_handle {Pc : Type} {p p' : Process Pc} (h : p.handle = some p') :
    p'.pc = p.pc ∧
    ((p'.counter = p.counter + 1 ∧ ∀ count mark,
      load count mark p'.inbox + count = load count mark p.inbox) ∨
    (p'.counter = p.counter ∧ ∀ count mark,
      load count mark p'.inbox + mark = load count mark p.inbox)) := by
  cases handlerStep h with
  | count fs hframes => exact ⟨rfl, Or.inl ⟨rfl, fun _ _ => load_leave_count hframes⟩⟩
  | mark fs hframes => exact ⟨rfl, Or.inr ⟨rfl, fun _ _ => load_leave_mark hframes⟩⟩

theorem rank_next (h : s.next d n a = some t) : t.rank n < s.rank n := by
  cases a with
  | parent e =>
      simp only [State.next, Option.ite_none_left_eq_some] at h
      obtain ⟨-, h⟩ := h
      cases e with
      | main =>
          obtain ⟨-, h⟩ := Option.ite_none_right_eq_some.mp h
          exact rank_parentMain h
      | handle =>
          obtain ⟨p, hp, rfl⟩ := Option.map_eq_some_iff.mp h
          obtain ⟨hpc, ⟨-, hload⟩ | ⟨-, hload⟩⟩ := load_handle hp
          all_goals
            have hpaid := hload 1 1
            simp only [State.rank, hpc]
            omega
      | deliver sig =>
          obtain ⟨hsig, h⟩ := Option.ite_none_right_eq_some.mp h
          obtain rfl := Option.some.inj h
          have hload := load_take 1 1 hsig.1
          have hwoken := s.parent.pc.rank_woken (n := n)
          simp only [State.rank, Process.interrupt]
          omega
  | child e =>
      simp only [State.next, Option.ite_none_left_eq_some] at h
      obtain ⟨hpc, h⟩ := h
      cases e with
      | main =>
          obtain ⟨-, h⟩ := Option.ite_none_right_eq_some.mp h
          exact rank_childMain h
      | handle =>
          obtain ⟨c, hc, rfl⟩ := Option.map_eq_some_iff.mp h
          obtain ⟨hpc', ⟨hcounter, hload⟩ | ⟨hcounter, hload⟩⟩ := load_handle hc
          · have hpaid := hload 6 1
            have hsucc := s.child.pc.rank_succ s.child.counter
            simp only [State.rank, hpc', hcounter]
            omega
          · have hpaid := hload 6 1
            simp only [State.rank, hpc', hcounter]
            omega
      | deliver sig =>
          obtain ⟨hsig, h⟩ := Option.ite_none_right_eq_some.mp h
          obtain rfl := Option.some.inj h
          have hload := load_take 6 1 hsig.1
          have hwoken := s.child.pc.rank_woken s.child.counter
          split_ifs with hcatch
          · simp only [State.rank, Process.interrupt]
            omega
          · have hpos := ChildPc.rank_pos hpc s.child.counter
            have hended : ChildPc.ended.rank s.child.counter = 0 := rfl
            simp only [State.rank, Process.goto, hended]
            omega

/-! ## §2  Where nobody can go on -/

def Halted (d : Discipline) (n : ℕ) (s : State) : Prop := ∀ a, s.next d n a = none

theorem quiet_of_none {Pc : Type} {p : Process Pc} (hhandle : p.handle = none)
    (hdeliver : ∀ sig, ¬ p.inbox.Deliverable Frame.blocks sig) : p.inbox.Quiet := by
  have hframes : p.inbox.frames = [] := by
    unfold Process.handle at hhandle
    split at hhandle
    · assumption
    · exact absurd hhandle (Option.some_ne_none _)
    · exact absurd hhandle (Option.some_ne_none _)
  exact Inbox.quiet_of_not_deliverable Frame.blocks hframes hdeliver

theorem Halted.parent (h : Halted d n s) (hpc : s.parent.pc ≠ .ended) :
    s.parent.inbox.Quiet ∧ (s.parent.pc = .ready .blocked ∨ s.parent.pc = .finish .blocked) := by
  have hquiet : s.parent.inbox.Quiet := by
    refine quiet_of_none ?_ fun sig hsig => ?_
    · have hnone := h (.parent .handle)
      simpa only [State.next, if_neg hpc, Option.map_eq_none_iff] using hnone
    · have hnone := h (.parent (.deliver sig))
      simp [State.next, hpc, hsig] at hnone
  have hmain : s.parentMain d n = none := by
    have hnone := h (.parent .main)
    simpa only [State.next, if_neg hpc, if_pos hquiet] using hnone
  refine ⟨hquiet, ?_⟩
  unfold State.parentMain at hmain
  cases hcase : s.parent.pc with
  | ready stage =>
      cases stage with
      | blocked => exact Or.inl rfl
      | test | call => simp [hcase] at hmain
  | finish stage =>
      cases stage with
      | blocked => exact Or.inr rfl
      | test | call => simp [hcase] at hmain
  | send i =>
      simp only [hcase] at hmain
      split_ifs at hmain
  | resetFlag | resetAgain | print => simp [hcase] at hmain
  | ended => exact absurd hcase hpc

theorem Halted.child (h : Halted d n s) (hpc : s.child.pc ≠ .ended) :
    s.child.inbox.Quiet ∧ s.child.pc = .wait .blocked := by
  have hquiet : s.child.inbox.Quiet := by
    refine quiet_of_none ?_ fun sig hsig => ?_
    · have hnone := h (.child .handle)
      simpa only [State.next, if_neg hpc, Option.map_eq_none_iff] using hnone
    · have hnone := h (.child (.deliver sig))
      simp [State.next, hpc, hsig] at hnone
  have hmain : s.childMain d = none := by
    have hnone := h (.child .main)
    simpa only [State.next, if_neg hpc, if_pos hquiet] using hnone
  refine ⟨hquiet, ?_⟩
  unfold State.childMain at hmain
  cases hcase : s.child.pc with
  | wait stage =>
      cases stage with
      | blocked => rfl
      | test | call => simp [hcase] at hmain
  | resend i =>
      simp only [hcase] at hmain
      split_ifs at hmain
  | catchUsr1 | catchUsr2 | killReady | print => simp [hcase] at hmain
  | ended => exact absurd hcase hpc

/-! ## §3  As long as no signal is missed -/

/-- Before the call of `pause` or `sigsuspend`. -/
def ParentPc.AtCall : ParentPc → Prop
  | .ready .call | .finish .call => True
  | _ => False

def ParentPc.Blocked : ParentPc → Prop
  | .ready .blocked | .finish .blocked => True
  | _ => False

/-- The process does not go to sleep after its flag has been set, and the first `flag = 0`
resets nothing. -/
def Careful (s : State) : Action → Prop
  | .parent .main =>
      (s.parent.pc.AtCall → s.parent.flag = 0) ∧ (s.parent.pc = .resetFlag → s.parent.flag = 0)
  | .child .main => s.child.pc = .wait .call → s.child.flag = 0
  | _ => True

/-- No mark is lost, and who sleeps waits for one that has not come. -/
structure Awake (d : Discipline) (n : ℕ) (s : State) : Prop where
  sound : Sound d n s
  marks : s.parent.inbox.due .usr2 .mark + s.parent.flag + s.parent.pc.started =
    s.child.pc.ready + s.child.pc.told
  marker : s.child.inbox.due .usr2 .mark + s.child.flag = s.parent.pc.told
  parentBlocked : s.parent.pc.Blocked → s.parent.inbox.frames = [] ∧ s.parent.flag = 0
  childBlocked : s.child.pc = .wait .blocked → s.child.inbox.frames = [] ∧ s.child.flag = 0

theorem awake_start : Awake d n (exchange d n).init where
  sound := sound_start
  marks := rfl
  marker := rfl
  parentBlocked := nofun
  childBlocked := nofun

/-- **Awake processes finish**: where nobody can go on both have ended. -/
theorem Awake.finished (h : Awake d n s) (hhalted : Halted d n s) :
    s.parent.pc = .ended ∧ s.child.pc = .ended := by
  have hmarks := h.marks
  have hmarker := h.marker
  -- a child that sleeps has not been told
  have hchild : s.child.pc = .ended ∨ s.child.pc = .wait .blocked ∧ s.parent.pc.told = 0 := by
    by_cases hpc : s.child.pc = .ended
    · exact Or.inl hpc
    · obtain ⟨hquiet, hpc⟩ := hhalted.child hpc
      rw [hquiet.due, (h.childBlocked hpc).2] at hmarker
      exact Or.inr ⟨hpc, hmarker.symm⟩
  by_cases hparent : s.parent.pc = .ended
  · refine ⟨hparent, hchild.resolve_right fun hwait => ?_⟩
    have htold := (h.sound.ended (by rw [hparent]; trivial)).1
    rw [hwait.1] at htold
    exact absurd htold (by decide)
  · obtain ⟨hquiet, hpc⟩ := hhalted.parent hparent
    have hblocked : s.parent.pc.Blocked := by rcases hpc with hpc | hpc <;> rw [hpc] <;> trivial
    rw [hquiet.due, (h.parentBlocked hblocked).2] at hmarks
    rcases hpc with hpc | hpc
    · -- the child has told that it is ready
      rw [hpc] at hmarks
      rcases hchild with hended | ⟨hwait, -⟩
      · rw [hended] at hmarks
        exact absurd hmarks (by decide)
      · rw [hwait] at hmarks
        exact absurd hmarks (by decide)
    · -- the child has seen the marker and sent its own one
      rw [hpc] at hmarks
      rcases hchild with hended | ⟨-, htold⟩
      · rw [hended] at hmarks
        exact absurd hmarks (by decide)
      · rw [hpc] at htold
        exact absurd htold (by decide)

theorem Awake.parent_not_blocked (h : Awake d n s) {f : Frame} {fs : List Frame}
    (hframes : s.parent.inbox.frames = f :: fs) : ¬ s.parent.pc.Blocked := fun hblocked =>
  absurd (hframes.symm.trans (h.parentBlocked hblocked).1) (List.cons_ne_nil f fs)

theorem Awake.child_not_blocked (h : Awake d n s) {f : Frame} {fs : List Frame}
    (hframes : s.child.inbox.frames = f :: fs) : s.child.pc ≠ .wait .blocked := fun hblocked =>
  absurd (hframes.symm.trans (h.childBlocked hblocked).1) (List.cons_ne_nil f fs)

theorem Awake.marks_le (h : Awake d n s) : s.parent.inbox.due .usr2 .mark + s.parent.flag ≤ 1 := by
  have hmarks := h.marks
  have hready := s.child.pc.ready_le
  by_cases hseen : s.child.pc.Seen
  · -- the parent has used up the first mark before it has sent its own one
    have htold := (h.sound.seen hseen).1
    have hstarted := s.parent.pc.told_le
    have hended := s.child.pc.told_le
    omega
  · have htold : s.child.pc.told = 0 := by
      cases hpc : s.child.pc with
      | ended => exact absurd (by rw [hpc]; trivial) hseen
      | _ => rfl
    omega

theorem Awake.parentGoto (h : Awake d n s) {pc : ParentPc} {flag : ℕ}
    (hsound : Sound d n { s with parent := { s.parent with pc := pc, flag := flag } })
    (hmarks : flag + pc.started = s.parent.flag + s.parent.pc.started)
    (htold : pc.told = s.parent.pc.told)
    (hblocked : pc.Blocked → s.parent.inbox.frames = [] ∧ flag = 0) :
    Awake d n { s with parent := { s.parent with pc := pc, flag := flag } } where
  sound := hsound
  marks := by
    have hold := h.marks
    show s.parent.inbox.due .usr2 .mark + flag + pc.started = s.child.pc.ready + s.child.pc.told
    omega
  marker := h.marker.trans htold.symm
  parentBlocked := hblocked
  childBlocked := h.childBlocked

theorem Awake.parentMain (h : Awake d n s) (hquiet : s.parent.inbox.Quiet)
    (hcareful : Careful s (.parent .main)) (hnext : s.parentMain d n = some t) :
    Awake d n t := by
  have hsound := h.sound.parentMain hquiet hnext
  cases parentStep hnext with
  | resetFlag hpc =>
      exact h.parentGoto hsound (by rw [hpc, hcareful.2 hpc]; rfl) (by rw [hpc]; rfl) nofun
  | resetAgain hpc =>
      -- the flag was set, so the reset uses up one mark
      have hflag := h.sound.flagged hpc
      have hle := h.marks_le
      refine h.parentGoto hsound ?_ (by rw [hpc]; rfl) nofun
      rw [hpc]
      show 0 + 1 = s.parent.flag + 0
      omega
  | pauseReady hpc | pauseFinish hpc =>
      have hflag := hcareful.1 (by rw [hpc]; trivial)
      exact h.parentGoto hsound (by rw [hpc]; rfl) (by rw [hpc]; rfl)
        fun _ => ⟨hquiet.frames_eq, hflag⟩
  | send i hpc =>
      have hmarker := h.marker
      have hmarks := h.marks
      rw [hpc] at hmarker hmarks
      refine ⟨hsound, hmarks, ?_, nofun, h.childBlocked⟩
      show (s.child.inbox.post d .usr1).due .usr2 .mark + s.child.flag = 0
      rwa [Inbox.due_post_of_ne (by decide)]
  | sent i hpc =>
      have hmarker := h.marker
      have hmarks := h.marks
      rw [hpc] at hmarker hmarks
      refine ⟨hsound, hmarks, ?_, nofun, h.childBlocked⟩
      have hzero : s.child.inbox.due .usr2 .mark + s.child.flag = 0 := hmarker
      have hpost := Inbox.due_post_of_eq_zero (d := d) (f := Frame.mark)
        (Nat.eq_zero_of_add_eq_zero_right (Nat.eq_zero_of_add_eq_zero_right hzero))
      show (s.child.inbox.post d .usr2).due .usr2 .mark + s.child.flag = 1
      omega
  | notReady hpc | ready hpc | notFinished hpc | finished hpc | print hpc =>
      exact h.parentGoto hsound (by rw [hpc]; rfl) (by rw [hpc]; rfl) nofun

theorem Awake.childGoto (h : Awake d n s) {pc : ChildPc}
    (hsound : Sound d n { s with child := s.child.goto pc })
    (hready : pc.ready = s.child.pc.ready) (htold : pc.told = s.child.pc.told)
    (hblocked : pc = .wait .blocked → s.child.inbox.frames = [] ∧ s.child.flag = 0) :
    Awake d n { s with child := s.child.goto pc } where
  sound := hsound
  marks := by
    show _ = pc.ready + pc.told
    rw [hready, htold]
    exact h.marks
  marker := h.marker
  parentBlocked := h.parentBlocked
  childBlocked := hblocked

theorem Awake.childMark (h : Awake d n s) {pc : ChildPc}
    (hsound : Sound d n { parent := s.parent.kill d .usr2, child := s.child.goto pc })
    (hzero : s.parent.inbox.due .usr2 .mark = 0)
    (hmarks : pc.ready + pc.told = s.child.pc.ready + s.child.pc.told + 1)
    (hblocked : pc ≠ .wait .blocked) :
    Awake d n { parent := s.parent.kill d .usr2, child := s.child.goto pc } where
  sound := hsound
  marks := by
    have hold := h.marks
    have hpost := Inbox.due_post_of_eq_zero (d := d) (f := Frame.mark)
      (Nat.eq_zero_of_add_eq_zero_right hzero)
    show (s.parent.inbox.post d .usr2).due .usr2 .mark + s.parent.flag + s.parent.pc.started =
      pc.ready + pc.told
    omega
  marker := h.marker
  parentBlocked := h.parentBlocked
  childBlocked hpc := absurd hpc hblocked

theorem Awake.childMain (h : Awake d n s) (hquiet : s.child.inbox.Quiet)
    (hcareful : Careful s (.child .main)) (hnext : s.childMain d = some t) : Awake d n t := by
  have hsound := h.sound.childMain hquiet hnext
  have hmarks := h.marks
  cases childStep hnext with
  | killReady hpc =>
      rw [hpc] at hmarks
      have hzero : s.parent.inbox.due .usr2 .mark + s.parent.flag + s.parent.pc.started = 0 :=
        hmarks
      exact h.childMark hsound (by omega) (by rw [hpc]; rfl) nofun
  | pauseWait hpc =>
      exact h.childGoto hsound (by rw [hpc]; rfl) (by rw [hpc]; rfl)
        fun _ => ⟨hquiet.frames_eq, hcareful hpc⟩
  | resend i hpc =>
      rw [hpc] at hmarks
      refine ⟨hsound, ?_, h.marker, h.parentBlocked, nofun⟩
      show (s.parent.inbox.post d .usr1).due .usr2 .mark + _ + _ = _
      rwa [Inbox.due_post_of_ne (by decide)]
  | resent i hpc =>
      -- the parent has used up the first mark before it has sent its own one
      have htold := (h.sound.seen (by rw [hpc]; trivial)).1
      have hstarted := s.parent.pc.told_le
      rw [hpc] at hmarks
      have hone : s.parent.inbox.due .usr2 .mark + s.parent.flag + s.parent.pc.started = 1 :=
        hmarks
      exact h.childMark hsound (by omega) (by rw [hpc]; rfl) nofun
  | catchUsr1 hpc | catchUsr2 hpc | notSeen hpc | seen hpc | print hpc =>
      exact h.childGoto hsound (by rw [hpc]; rfl) (by rw [hpc]; rfl) nofun

/-- A handler sets a flag that was 0. -/
theorem Awake.parentHandle (h : Awake d n s) {p : Process ParentPc}
    (hnext : s.parent.handle = some p) : Awake d n { s with parent := p } := by
  have hsound := h.sound.parentHandle hnext
  have hmarks := h.marks
  cases handlerStep hnext with
  | count fs hframes =>
      have hmark := Inbox.due_leave_of_ne .usr2 (f := Frame.mark) hframes nofun
      exact ⟨hsound, hmark.symm ▸ hmarks, h.marker,
        fun hb => absurd hb (h.parent_not_blocked hframes), h.childBlocked⟩
  | mark fs hframes =>
      have hmark := Inbox.due_leave_self .usr2 hframes
      have hle := h.marks_le
      refine ⟨hsound, ?_, h.marker, fun hb => absurd hb (h.parent_not_blocked hframes),
        h.childBlocked⟩
      dsimp only
      omega

theorem Awake.childHandle (h : Awake d n s) {c : Process ChildPc}
    (hnext : s.child.handle = some c) : Awake d n { s with child := c } := by
  have hsound := h.sound.childHandle hnext
  have hmarker := h.marker
  cases handlerStep hnext with
  | count fs hframes =>
      have hmark := Inbox.due_leave_of_ne .usr2 (f := Frame.mark) hframes nofun
      exact ⟨hsound, h.marks, hmark.symm ▸ hmarker, h.parentBlocked,
        fun hb => absurd hb (h.child_not_blocked hframes)⟩
  | mark fs hframes =>
      have hmark := Inbox.due_leave_self .usr2 hframes
      have htold := s.parent.pc.told_le_one
      refine ⟨hsound, h.marks, ?_, h.parentBlocked,
        fun hb => absurd hb (h.child_not_blocked hframes)⟩
      dsimp only
      omega

theorem ParentPc.not_blocked_woken (pc : ParentPc) : ¬ pc.woken.Blocked := by
  cases pc with
  | ready stage | finish stage => cases stage <;> exact id
  | _ => exact id

theorem ChildPc.woken_ne_blocked (pc : ChildPc) : pc.woken ≠ .wait .blocked := by
  cases pc with
  | wait stage => cases stage <;> exact nofun
  | _ => exact nofun

theorem ParentPc.started_woken (pc : ParentPc) : pc.woken.started = pc.started := by
  unfold woken
  split <;> rfl

theorem ParentPc.told_woken (pc : ParentPc) : pc.woken.told = pc.told := by
  unfold woken
  split <;> rfl

theorem ChildPc.marks_woken (pc : ChildPc) :
    pc.woken.ready = pc.ready ∧ pc.woken.told = pc.told := by
  unfold woken
  split <;> exact ⟨rfl, rfl⟩

theorem Awake.parentDeliver (h : Awake d n s) {sig : Usr}
    (hsig : 0 < s.parent.inbox.pending sig) :
    Awake d n { s with parent := s.parent.interrupt s.parent.pc.woken sig } where
  sound := h.sound.parentDeliver hsig
  marks := by
    show (s.parent.interrupt _ sig).inbox.due .usr2 .mark + s.parent.flag +
      s.parent.pc.woken.started = _
    rw [(s.parent.interrupt_due hsig _).2, s.parent.pc.started_woken]
    exact h.marks
  marker := h.marker.trans s.parent.pc.told_woken.symm
  parentBlocked hb := absurd hb s.parent.pc.not_blocked_woken
  childBlocked := h.childBlocked

theorem Awake.childDeliver (h : Awake d n s) {sig : Usr} (hsig : 0 < s.child.inbox.pending sig) :
    Awake d n { s with child := s.child.interrupt s.child.pc.woken sig } where
  sound := h.sound.childDeliver hsig
  marks := by
    show _ = s.child.pc.woken.ready + s.child.pc.woken.told
    rw [s.child.pc.marks_woken.1, s.child.pc.marks_woken.2]
    exact h.marks
  marker := by
    show (s.child.interrupt _ sig).inbox.due .usr2 .mark + _ = _
    rw [(s.child.interrupt_due hsig _).2]
    exact h.marker
  parentBlocked := h.parentBlocked
  childBlocked hb := absurd hb s.child.pc.woken_ne_blocked

theorem Awake.next (h : Awake d n s) (hcareful : Careful s a) (hnext : s.next d n a = some t) :
    Awake d n t := by
  cases a with
  | parent e =>
      simp only [State.next, Option.ite_none_left_eq_some] at hnext
      obtain ⟨-, hnext⟩ := hnext
      cases e with
      | main =>
          obtain ⟨hquiet, hnext⟩ := Option.ite_none_right_eq_some.mp hnext
          exact h.parentMain hquiet hcareful hnext
      | handle =>
          obtain ⟨p, hp, rfl⟩ := Option.map_eq_some_iff.mp hnext
          exact h.parentHandle hp
      | deliver sig =>
          obtain ⟨hsig, hnext⟩ := Option.ite_none_right_eq_some.mp hnext
          obtain rfl := Option.some.inj hnext
          exact h.parentDeliver hsig.1
  | child e =>
      simp only [State.next, Option.ite_none_left_eq_some] at hnext
      obtain ⟨-, hnext⟩ := hnext
      cases e with
      | main =>
          obtain ⟨hquiet, hnext⟩ := Option.ite_none_right_eq_some.mp hnext
          exact h.childMain hquiet hcareful hnext
      | handle =>
          obtain ⟨c, hc, rfl⟩ := Option.map_eq_some_iff.mp hnext
          exact h.childHandle hc
      | deliver sig =>
          obtain ⟨hsig, hnext⟩ := Option.ite_none_right_eq_some.mp hnext
          obtain rfl := Option.some.inj hnext
          rw [if_pos (h.sound.catches hsig.1)]
          exact h.childDeliver hsig.1

/-! ## §4  After a signal was missed -/

/-- One of the processes sleeps for good: the parent waits for the mark of a child that
has been ready already, the child for the marker of a parent that has sent it already, or
the parent for the marker of a child that has ended. -/
inductive Asleep (s : State) : Prop
  | ready (stage : Stage) : s.parent.pc = .ready stage → (stage = .test → s.parent.flag = 0) →
      s.parent.inbox.Quiet → s.child.pc.ready = 1 → Asleep s
  | wait : s.child.pc = .wait .blocked → s.child.inbox.Quiet → s.parent.pc.told = 1 → Asleep s
  | finish : s.parent.pc = .finish .blocked → s.parent.inbox.Quiet → s.child.pc = .ended →
      Asleep s

theorem Asleep.not_finished (h : Asleep s) : ¬ (s.parent.pc = .ended ∧ s.child.pc = .ended) := by
  rintro ⟨hparent, hchild⟩
  cases h with
  | ready stage hpc => exact ParentPc.noConfusion (hparent.symm.trans hpc)
  | wait hpc => exact ChildPc.noConfusion (hchild.symm.trans hpc)
  | finish hpc => exact ParentPc.noConfusion (hparent.symm.trans hpc)

theorem quiet_step {Pc : Type} {p : Process Pc} (hquiet : p.inbox.Quiet) :
    p.handle = none ∧ ∀ sig, ¬ p.inbox.Deliverable Frame.blocks sig := by
  refine ⟨?_, fun sig => hquiet.not_deliverable sig⟩
  rw [Process.handle, hquiet.frames_eq]

theorem ChildPc.told_le_ready (pc : ChildPc) : pc.told ≤ pc.ready := by
  cases pc <;> simp [told, ready]

theorem ChildPc.eq_ended {pc : ChildPc} (h : pc.told = 1) : pc = .ended := by
  cases pc with
  | ended => rfl
  | _ => exact absurd h Nat.zero_ne_one

theorem asleep_of_parentMain (hs : Sound d n s) (hquiet : s.parent.inbox.Quiet)
    (hcareless : ¬ Careful s (.parent .main)) (hnext : s.parentMain d n = some t) :
    Asleep t := by
  have hmarks := hs.marks
  have htold := s.child.pc.told_le
  have hready := s.child.pc.ready_le
  have hle := s.child.pc.told_le_ready
  have hflag : s.parent.flag ≠ 0 := fun hzero => hcareless ⟨fun _ => hzero, fun _ => hzero⟩
  cases parentStep hnext with
  | resetFlag hpc =>
      exact .ready .test rfl (fun _ => rfl) hquiet (by dsimp only; omega)
  | pauseReady hpc =>
      exact .ready .blocked rfl (fun heq => Stage.noConfusion heq) hquiet (by dsimp only; omega)
  | pauseFinish hpc =>
      have hstarted : s.parent.pc.started = 1 := by rw [hpc]; rfl
      have htold' : s.child.pc.told = 1 := by omega
      exact .finish rfl hquiet (ChildPc.eq_ended htold')
  | notReady hpc | ready hpc | resetAgain hpc | send i hpc | sent i hpc | notFinished hpc
  | finished hpc | print hpc =>
      exact absurd ⟨by simp [hpc, ParentPc.AtCall], by simp [hpc]⟩ hcareless

theorem asleep_of_careless (hs : Sound d n s) (hcareless : ¬ Careful s a)
    (hnext : s.next d n a = some t) : Asleep t := by
  cases a with
  | parent e =>
      simp only [State.next, Option.ite_none_left_eq_some] at hnext
      obtain ⟨-, hnext⟩ := hnext
      cases e with
      | main =>
          obtain ⟨hquiet, hnext⟩ := Option.ite_none_right_eq_some.mp hnext
          exact asleep_of_parentMain hs hquiet hcareless hnext
      | handle => exact absurd trivial hcareless
      | deliver sig => exact absurd trivial hcareless
  | child e =>
      simp only [State.next, Option.ite_none_left_eq_some] at hnext
      obtain ⟨-, hnext⟩ := hnext
      cases e with
      | main =>
          obtain ⟨hquiet, hnext⟩ := Option.ite_none_right_eq_some.mp hnext
          obtain ⟨hpc, hflag⟩ : s.child.pc = .wait .call ∧ s.child.flag ≠ 0 :=
            Classical.not_imp.mp hcareless
          have hmarker := hs.marker
          have htold := s.parent.pc.told_le_one
          simp only [State.childMain, hpc, Option.some.injEq] at hnext
          subst hnext
          exact .wait rfl hquiet (by dsimp only; omega)
      | handle => exact absurd trivial hcareless
      | deliver sig => exact absurd trivial hcareless

theorem told_parentMain (htold : s.parent.pc.told = 1) (hnext : s.parentMain d n = some t) :
    t.child = s.child ∧ t.parent.pc.told = 1 := by
  cases parentStep hnext with
  | notFinished | finished | pauseFinish | print => exact ⟨rfl, rfl⟩
  | resetFlag hpc | notReady hpc | ready hpc | pauseReady hpc | resetAgain hpc | send i hpc
  | sent i hpc =>
      rw [hpc] at htold
      exact absurd htold Nat.zero_ne_one

/-- A child that is ready and has not seen the marker sends nothing. -/
theorem ready_childMain (hready : s.child.pc.ready = 1) (hseen : ¬ s.child.pc.Seen)
    (hnext : s.childMain d = some t) : t.parent = s.parent ∧ t.child.pc.ready = 1 := by
  cases childStep hnext with
  | notSeen | seen | pauseWait => exact ⟨rfl, rfl⟩
  | catchUsr1 hpc | catchUsr2 hpc | killReady hpc =>
      rw [hpc] at hready
      exact absurd hready Nat.zero_ne_one
  | print hpc | resend i hpc | resent i hpc =>
      rw [hpc] at hseen
      exact absurd trivial hseen

theorem Asleep.parent_next (h : Asleep s) {e : Event}
    (hnext : s.next d n (.parent e) = some t) : Asleep t := by
  simp only [State.next, Option.ite_none_left_eq_some] at hnext
  obtain ⟨hended, hnext⟩ := hnext
  cases h with
  | ready stage hpc hflag hquiet hready =>
      obtain ⟨hhandle, hdeliver⟩ := quiet_step hquiet
      cases e with
      | main =>
          rw [if_pos hquiet] at hnext
          cases stage with
          | test =>
              simp only [State.parentMain, hpc, hflag rfl, if_pos, Option.some.injEq] at hnext
              subst hnext
              exact .ready .call rfl (fun heq => Stage.noConfusion heq) hquiet hready
          | call =>
              simp only [State.parentMain, hpc, Option.some.injEq] at hnext
              subst hnext
              exact .ready .blocked rfl (fun heq => Stage.noConfusion heq) hquiet hready
          | blocked => simp [State.parentMain, hpc] at hnext
      | handle => simp [hhandle] at hnext
      | deliver sig => simp [hdeliver sig] at hnext
  | wait hpc hquiet htold =>
      cases e with
      | main =>
          obtain ⟨-, hnext⟩ := Option.ite_none_right_eq_some.mp hnext
          obtain ⟨hchild, htold'⟩ := told_parentMain htold hnext
          exact .wait (hchild ▸ hpc) (hchild ▸ hquiet) htold'
      | handle =>
          obtain ⟨p, hp, rfl⟩ := Option.map_eq_some_iff.mp hnext
          exact .wait hpc hquiet ((congrArg ParentPc.told (load_handle hp).1).trans htold)
      | deliver sig =>
          obtain ⟨-, hnext⟩ := Option.ite_none_right_eq_some.mp hnext
          obtain rfl := Option.some.inj hnext
          exact .wait hpc hquiet (s.parent.pc.told_woken.trans htold)
  | finish hpc hquiet hchild =>
      obtain ⟨hhandle, hdeliver⟩ := quiet_step hquiet
      cases e with
      | main => simp [State.parentMain, hpc] at hnext
      | handle => simp [hhandle] at hnext
      | deliver sig => simp [hdeliver sig] at hnext

theorem Asleep.child_next (h : Asleep s) (hs : Sound d n s) {e : Event}
    (hnext : s.next d n (.child e) = some t) : Asleep t := by
  simp only [State.next, Option.ite_none_left_eq_some] at hnext
  obtain ⟨hended, hnext⟩ := hnext
  cases h with
  | ready stage hpc hflag hquiet hready =>
      have hseen := hs.not_seen (by rw [hpc]; rfl)
      cases e with
      | main =>
          obtain ⟨-, hnext⟩ := Option.ite_none_right_eq_some.mp hnext
          obtain ⟨hparent, hready'⟩ := ready_childMain hready hseen hnext
          exact .ready stage (hparent ▸ hpc) (hparent ▸ hflag) (hparent ▸ hquiet) hready'
      | handle =>
          obtain ⟨c, hc, rfl⟩ := Option.map_eq_some_iff.mp hnext
          exact .ready stage hpc hflag hquiet
            ((congrArg ChildPc.ready (load_handle hc).1).trans hready)
      | deliver sig =>
          obtain ⟨hsig, hnext⟩ := Option.ite_none_right_eq_some.mp hnext
          obtain rfl := Option.some.inj hnext
          rw [if_pos (hs.catches hsig.1)]
          exact .ready stage hpc hflag hquiet (s.child.pc.marks_woken.1.trans hready)
  | wait hpc hquiet htold =>
      obtain ⟨hhandle, hdeliver⟩ := quiet_step hquiet
      cases e with
      | main => simp [State.childMain, hpc] at hnext
      | handle => simp [hhandle] at hnext
      | deliver sig => simp [hdeliver sig] at hnext
  | finish hpc hquiet hchild => exact absurd hchild hended

theorem Asleep.next (h : Asleep s) (hs : Sound d n s) (hnext : s.next d n a = some t) :
    Asleep t := by
  cases a with
  | parent e => exact h.parent_next hnext
  | child e => exact h.child_next hs hnext

/-! ## §5  The end -/

theorem run_awake {tr : List (State × Action)} (h : (exchange d n).Run tr s)
    (hcareful : ∀ x ∈ tr, Careful x.1 x.2) : Awake d n s :=
  h.invariant_of_steps (I := fun _ s => Awake d n s) hcareful awake_start
    fun _ _ _ _ ih ha hnext => ih.next ha hnext

theorem run_asleep {tr : List (State × Action)} (h : (exchange d n).Run tr s)
    (hcareless : ¬ ∀ x ∈ tr, Careful x.1 x.2) : Asleep s := by
  suffices hboth : Sound d n s ∧ ((¬ ∀ x ∈ tr, Careful x.1 x.2) → Asleep s) from
    hboth.2 hcareless
  refine h.invariant (I := fun tr s => Sound d n s ∧ ((¬ ∀ x ∈ tr, Careful x.1 x.2) → Asleep s))
    ⟨sound_start, fun h => absurd (fun _ hx => absurd hx List.not_mem_nil) h⟩ ?_
  rintro tr s a t ⟨hs, ih⟩ hnext
  refine ⟨hs.next hnext, fun hcareless' => ?_⟩
  rw [List.forall_mem_append, List.forall_mem_singleton, not_and_or] at hcareless'
  rcases hcareless' with hbefore | hnow
  · exact (ih hbefore).next hs hnext
  · exact asleep_of_careless hs hnow hnext

/-- **How the exchange ends**: with standard and with queued signals and in every order of
the steps there are at most `10 * n + 32` of them; and where nobody can go on, both
processes have ended exactly if neither has gone to sleep after its flag had been set and
the first `flag = 0` has reset nothing. -/
theorem exchange_ends {tr : List (State × Action)} (h : (exchange d n).Run tr s) :
    tr.length ≤ 10 * n + 32 ∧
    (Halted d n s → (s.parent.pc = .ended ∧ s.child.pc = .ended ↔
      ∀ x ∈ tr, Careful x.1 x.2)) := by
  constructor
  · have hbound := h.length_add_le_measure (I := fun _ => True) (State.rank n) trivial
      fun _ _ _ _ hnext => ⟨trivial, rank_next hnext⟩
    have hstart : (exchange d n).init.rank n = 10 * n + 32 := rfl
    omega
  · refine fun hhalted => ⟨fun hended => ?_, fun hcareful => ?_⟩
    · by_contra hcareless
      exact (run_asleep h hcareless).not_finished hended
    · exact (run_awake h hcareful).finished hhalted

/-- Two queued signals there and back. -/
theorem exchange_ends_two : ∃ (tr : List (State × Action)) (s : State),
    (exchange .queued 2).Run tr s ∧ tr.length = 30 ∧ s.parent.pc = .ended ∧
      s.child.pc = .ended ∧ ∀ x ∈ tr, Careful x.1 x.2 := by
  have hrun := (exchange .queued 2).run_of_replay
    [.parent .main, .child .main, .child .main, .child .main, .parent (.deliver .usr2),
      .parent .handle, .parent .main, .parent .main, .parent .main, .parent .main,
      .child (.deliver .usr1), .parent .main, .child (.deliver .usr2), .child .handle,
      .child .handle, .child (.deliver .usr1), .child .handle, .child .main, .child .main,
      .child .main, .child .main, .child .main, .parent (.deliver .usr1), .parent .handle,
      .parent (.deliver .usr1), .parent (.deliver .usr2), .parent .handle, .parent .handle,
      .parent .main, .parent .main] rfl
  refine ⟨_, _, hrun, rfl, rfl, rfl, ((exchange_ends hrun).2 fun a => ?_).mp ⟨rfl, rfl⟩⟩
  cases a <;> rfl

end Sysopy.SignalExchange.Unconfirmed
