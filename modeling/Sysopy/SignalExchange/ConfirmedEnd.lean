import Sysopy.SignalExchange.ConfirmedCosts

/-!
# How the confirmed exchange ends

Every order of the steps comes to a state in which neither process can do anything. Then
both have ended, or one of them sleeps for good, because it has called `pause` after its
flag had been set, or because the parent has reset its flag after the child had told that
it is ready.

## Sections

* §1 where nobody can go on
* §2 after a signal was missed
* §3 the end
-/

namespace Sysopy.SignalExchange.Confirmed

open Sysopy.Foundation

variable {n : ℕ} {s t : State} {a : Action}

/-! ## §1  Where nobody can go on -/

def Halted (n : ℕ) (s : State) : Prop := ∀ a, s.next n a = none

theorem parentHandle_eq_none (h : s.parentHandle = none) : s.parent.inbox.frames = [] := by
  unfold State.parentHandle at h
  dsimp only at h
  split at h
  · assumption
  · cases h
  · cases h
  · cases h
  · cases h

theorem childHandle_eq_none (h : s.childHandle = none) : s.child.inbox.frames = [] := by
  unfold State.childHandle at h
  dsimp only at h
  split at h
  · assumption
  · cases h
  · cases h
  · cases h
  · cases h

theorem parentMain_eq_none (h : s.parentMain n = none) :
    s.parent.pc.Blocked ∨ s.parent.pc = .ended := by
  unfold State.parentMain at h
  cases hpc : s.parent.pc with
  | ready stage | confirm i stage | finish stage =>
      cases stage with
      | blocked => exact Or.inl trivial
      | test | call => simp [hpc] at h
  | send i =>
      simp only [hpc] at h
      split_ifs at h
  | ended => exact Or.inr rfl
  | _ => simp [hpc] at h

theorem childMain_eq_none (h : s.childMain = none) :
    s.child.pc.Blocked ∨ s.child.pc = .ended := by
  unfold State.childMain at h
  cases hpc : s.child.pc with
  | wait stage | confirm i stage =>
      cases stage with
      | blocked => exact Or.inl trivial
      | test | call => simp [hpc] at h
  | resend i =>
      simp only [hpc] at h
      split_ifs at h
  | ended => exact Or.inr rfl
  | _ => simp [hpc] at h

theorem Halted.parent (h : Halted n s) (hpc : s.parent.pc ≠ .ended) :
    s.parent.inbox.Quiet ∧ s.parent.pc.Blocked := by
  have hframes : s.parent.inbox.frames = [] := by
    have hnone := h (.parent .handle)
    rw [State.next, if_neg hpc] at hnone
    exact parentHandle_eq_none hnone
  have hquiet : s.parent.inbox.Quiet := by
    refine Inbox.quiet_of_not_deliverable ParentFrame.blocks hframes fun sig hsig => ?_
    have hnone := h (.parent (.deliver sig))
    simp [State.next, hpc, hsig] at hnone
  have hmain : s.parentMain n = none := by
    have hnone := h (.parent .main)
    simpa only [State.next, if_neg hpc, if_pos hquiet] using hnone
  exact ⟨hquiet, (parentMain_eq_none hmain).resolve_right hpc⟩

theorem Halted.child (h : Halted n s) (hpc : s.child.pc ≠ .ended) :
    s.child.inbox.Quiet ∧ s.child.pc.Blocked := by
  have hframes : s.child.inbox.frames = [] := by
    have hnone := h (.child .handle)
    rw [State.next, if_neg hpc] at hnone
    exact childHandle_eq_none hnone
  have hquiet : s.child.inbox.Quiet := by
    refine Inbox.quiet_of_not_deliverable ChildFrame.blocks hframes fun sig hsig => ?_
    have hnone := h (.child (.deliver sig))
    simp [State.next, hpc, hsig] at hnone
  have hmain : s.childMain = none := by
    have hnone := h (.child .main)
    simpa only [State.next, if_neg hpc, if_pos hquiet] using hnone
  exact ⟨hquiet, (childMain_eq_none hmain).resolve_right hpc⟩

/-- **Awake processes finish**: where nobody can go on both have ended. -/
theorem Awake.finished (h : Awake n s) (hhalted : Halted n s) :
    s.parent.pc = .ended ∧ s.child.pc = .ended := by
  have hparent : s.parent.pc = .ended := by
    by_contra hpc
    obtain ⟨hquiet, hblocked⟩ := hhalted.parent hpc
    refine h.not_stuck ⟨hblocked, hquiet.2, or_iff_not_imp_left.mpr fun hchild => ?_⟩
    obtain ⟨hquiet', hblocked'⟩ := hhalted.child hchild
    exact ⟨hblocked', hquiet'.2⟩
  exact ⟨hparent, ChildPc.eq_ended (h.sound.ended (by rw [hparent]; trivial))⟩

/-! ## §2  After a signal was missed -/

/-- One of the processes sleeps for good: a signal that it waits for has come already. -/
inductive Asleep (s : State) : Prop
  /-- the parent waits for the mark of a child that has been ready already -/
  | ready (stage : Stage) : s.parent.pc = .ready stage → (stage = .test → s.parent.flag = 0) →
      s.parent.inbox.Quiet → s.child.pc.ready = 1 → Asleep s
  /-- the parent waits for a confirmation that has come already -/
  | confirm (i : ℕ) : s.parent.pc = .confirm i .blocked → s.parent.inbox.Quiet →
      0 < s.parent.confirmation → s.child.pc.ready = 1 → Asleep s
  /-- the parent waits for the marker of a child that has ended -/
  | finish : s.parent.pc = .finish .blocked → s.parent.inbox.Quiet → s.child.pc = .ended →
      Asleep s
  /-- the child waits for the marker of a parent that has sent it already -/
  | wait : s.child.pc = .wait .blocked → s.child.inbox.Quiet → s.parent.pc.told = 1 → Asleep s
  /-- the child waits for a confirmation that has come already -/
  | childConfirm (i : ℕ) : s.child.pc = .confirm i .blocked → s.child.inbox.Quiet →
      0 < s.child.confirmation → Asleep s

theorem Asleep.not_finished (h : Asleep s) : ¬(s.parent.pc = .ended ∧ s.child.pc = .ended) := by
  rintro ⟨hparent, hchild⟩
  cases h with
  | ready stage hpc => exact ParentPc.noConfusion (hparent.symm.trans hpc)
  | confirm i hpc => exact ParentPc.noConfusion (hparent.symm.trans hpc)
  | finish hpc => exact ParentPc.noConfusion (hparent.symm.trans hpc)
  | wait hpc => exact ChildPc.noConfusion (hchild.symm.trans hpc)
  | childConfirm i hpc => exact ChildPc.noConfusion (hchild.symm.trans hpc)

theorem parent_step_of_quiet (hquiet : s.parent.inbox.Quiet) {e : Event}
    (h : s.next n (.parent e) = some t) : e = .main ∧ s.parentMain n = some t := by
  simp only [State.next, Option.ite_none_left_eq_some] at h
  obtain ⟨-, h⟩ := h
  cases e with
  | main => exact ⟨rfl, (Option.ite_none_right_eq_some.mp h).2⟩
  | handle => simp [State.parentHandle, hquiet.frames_eq] at h
  | deliver sig =>
      exact absurd (Option.ite_none_right_eq_some.mp h).1 (hquiet.not_deliverable sig)

theorem child_step_of_quiet (hquiet : s.child.inbox.Quiet) {e : Event}
    (h : s.next n (.child e) = some t) : e = .main ∧ s.childMain = some t := by
  simp only [State.next, Option.ite_none_left_eq_some] at h
  obtain ⟨-, h⟩ := h
  cases e with
  | main => exact ⟨rfl, (Option.ite_none_right_eq_some.mp h).2⟩
  | handle => simp [State.childHandle, hquiet.frames_eq] at h
  | deliver sig =>
      exact absurd (Option.ite_none_right_eq_some.mp h).1 (hquiet.not_deliverable sig)

/-- A parent that has sent its marker, and has nothing to answer, sends nothing. -/
theorem parent_sends_nothing (htold : s.parent.pc.told = 1)
    (hreply : s.parent.inbox.running .reply = 0) {e : Event}
    (h : s.next n (.parent e) = some t) : t.child = s.child ∧ t.parent.pc.told = 1 := by
  simp only [State.next, Option.ite_none_left_eq_some] at h
  obtain ⟨-, h⟩ := h
  cases e with
  | main =>
      cases parentStep (Option.ite_none_right_eq_some.mp h).2 with
      | notFinished | finished | pauseFinish | print => exact ⟨rfl, rfl⟩
      | resetFlag hpc | notReady hpc | ready hpc | pauseReady hpc | resetAgain hpc | send i hpc
      | sent i hpc | notConfirmed i hpc | confirmed i hpc | pauseConfirm i hpc | clear i hpc
      | switchUsr1 hpc | switchUsr2 hpc | tell hpc =>
          rw [hpc] at htold
          cases htold
  | handle =>
      cases parentHandler h with
      | confirm | mark | count => exact ⟨rfl, htold⟩
      | reply fs hframes => exact absurd hreply (Inbox.running_ne_zero hframes)
  | deliver sig =>
      obtain ⟨-, h⟩ := Option.ite_none_right_eq_some.mp h
      obtain rfl := Option.some.inj h
      refine ⟨rfl, ?_⟩
      show s.parent.pc.woken.told = 1
      rcases s.parent.pc.woken_eq with heq | ⟨old, hpc, hsame, -⟩
      · rwa [heq]
      · rwa [(hsame n).2.2.1, ← hpc]

/-- A child that is ready, has not seen the marker and has nothing to answer sends nothing. -/
theorem child_sends_nothing (hready : s.child.pc.ready = 1) (hseen : ¬s.child.pc.Seen)
    (hreply : s.child.inbox.running .reply = 0) {e : Event}
    (h : s.next n (.child e) = some t) : t.parent = s.parent ∧ t.child.pc.ready = 1 := by
  simp only [State.next, Option.ite_none_left_eq_some] at h
  obtain ⟨-, h⟩ := h
  cases e with
  | main =>
      cases childStep (Option.ite_none_right_eq_some.mp h).2 with
      | notSeen | seen | pauseWait => exact ⟨rfl, rfl⟩
      | catchUsr1 hpc | catchUsr2 hpc | killReady hpc =>
          rw [hpc] at hready
          cases hready
      | print hpc | switch hpc | resend i hpc | resent i hpc | notConfirmed i hpc
      | confirmed i hpc | pauseConfirm i hpc | clear i hpc =>
          rw [hpc] at hseen
          exact absurd trivial hseen
  | handle =>
      cases childHandler h with
      | count | mark | confirm => exact ⟨rfl, hready⟩
      | reply fs hframes => exact absurd hreply (Inbox.running_ne_zero hframes)
  | deliver sig =>
      obtain ⟨-, h⟩ := Option.ite_none_right_eq_some.mp h
      obtain rfl := Option.some.inj h
      unfold State.childDeliver
      dsimp only
      split
      · exact ⟨rfl, s.child.pc.marks_woken.1.trans hready⟩
      · exact ⟨rfl, rfl⟩

theorem ChildPc.told_le_ready (pc : ChildPc) : pc.told ≤ pc.ready := by
  cases pc <;> simp [told, ready]

/-- The parent has used up the mark that the child is ready, or still has it. -/
theorem Sound.child_ready_of_mark (h : Sound n s)
    (hmark : 0 < s.parent.flag + s.parent.pc.started) : s.child.pc.ready = 1 := by
  have hmarks := h.marks
  have htold := s.child.pc.told_le_ready
  have hready := s.child.pc.ready_le
  omega

theorem asleep_of_parentMain (hs : Sound n s) (hquiet : s.parent.inbox.Quiet)
    (hcareless : ¬Careful s (.parent .main)) (hnext : s.parentMain n = some t) : Asleep t := by
  rcases not_and_or.mp hcareless with hmissed | hmissed
  · obtain ⟨hcall, hawaited⟩ : s.parent.pc.AtCall ∧ s.parent.awaited ≠ 0 :=
      Classical.not_imp.mp hmissed
    cases parentStep hnext with
    | pauseReady hpc =>
        rw [Parent.awaited, hpc] at hawaited
        dsimp only at hawaited
        have hready := hs.child_ready_of_mark (by omega)
        exact .ready .blocked rfl (fun heq => Stage.noConfusion heq) hquiet hready
    | pauseConfirm i hpc =>
        rw [Parent.awaited, hpc] at hawaited
        have hready := hs.child_ready_of_mark (by rw [hpc]; exact Nat.succ_pos _)
        exact .confirm i rfl hquiet (Nat.pos_of_ne_zero hawaited) hready
    | pauseFinish hpc =>
        rw [Parent.awaited, hpc] at hawaited
        dsimp only at hawaited
        -- the first mark has been used up, so that this is the second one
        have hmarks := hs.marks
        have hready := s.child.pc.ready_le
        have hstarted : s.parent.pc.started = 1 := by rw [hpc]; rfl
        have htold : s.child.pc.told = 1 := by omega
        exact .finish rfl hquiet (ChildPc.eq_ended htold)
    | resetFlag hpc | notReady hpc | ready hpc | resetAgain hpc | send i hpc | sent i hpc
    | notConfirmed i hpc | confirmed i hpc | clear i hpc | switchUsr1 hpc | switchUsr2 hpc
    | tell hpc | notFinished hpc | finished hpc | print hpc =>
        rw [hpc] at hcall
        exact hcall.elim
  · obtain ⟨hreset, hflag⟩ := Classical.not_imp.mp hmissed
    have hready := hs.child_ready_of_mark (by omega)
    simp only [State.parentMain, hreset, Option.some.injEq] at hnext
    subst hnext
    exact .ready .test rfl (fun _ => rfl) hquiet hready

theorem asleep_of_childMain (hs : Sound n s) (hquiet : s.child.inbox.Quiet)
    (hcareless : ¬Careful s (.child .main)) (hnext : s.childMain = some t) : Asleep t := by
  obtain ⟨hcall, hawaited⟩ : s.child.pc.AtCall ∧ s.child.awaited ≠ 0 :=
    Classical.not_imp.mp hcareless
  cases childStep hnext with
  | pauseWait hpc =>
      rw [Child.awaited, hpc] at hawaited
      dsimp only at hawaited
      have hmarker := hs.marker
      have htold := s.parent.pc.told_le
      exact .wait rfl hquiet (by dsimp only; omega)
  | pauseConfirm i hpc =>
      rw [Child.awaited, hpc] at hawaited
      exact .childConfirm i rfl hquiet (Nat.pos_of_ne_zero hawaited)
  | catchUsr1 hpc | catchUsr2 hpc | killReady hpc | notSeen hpc | seen hpc | print hpc
  | switch hpc | resend i hpc | resent i hpc | notConfirmed i hpc | confirmed i hpc
  | clear i hpc =>
      rw [hpc] at hcall
      exact hcall.elim

theorem asleep_of_careless (hs : Sound n s) (hcareless : ¬Careful s a)
    (hnext : s.next n a = some t) : Asleep t := by
  cases a with
  | parent e =>
      simp only [State.next, Option.ite_none_left_eq_some] at hnext
      obtain ⟨-, hnext⟩ := hnext
      cases e with
      | main =>
          obtain ⟨hquiet, hnext⟩ := Option.ite_none_right_eq_some.mp hnext
          exact asleep_of_parentMain hs hquiet hcareless hnext
      | handle => exact absurd trivial hcareless
      | deliver sig => exact absurd trivial hcareless
  | child e =>
      simp only [State.next, Option.ite_none_left_eq_some] at hnext
      obtain ⟨-, hnext⟩ := hnext
      cases e with
      | main =>
          obtain ⟨hquiet, hnext⟩ := Option.ite_none_right_eq_some.mp hnext
          exact asleep_of_childMain hs hquiet hcareless hnext
      | handle => exact absurd trivial hcareless
      | deliver sig => exact absurd trivial hcareless

theorem Asleep.parent_next (h : Asleep s) (hs : Sound n s) {e : Event}
    (hnext : s.next n (.parent e) = some t) : Asleep t := by
  cases h with
  | ready stage hpc hflag hquiet hready =>
      obtain ⟨-, hmain⟩ := parent_step_of_quiet hquiet hnext
      cases stage with
      | test =>
          simp only [State.parentMain, hpc, hflag rfl, if_pos, Option.some.injEq] at hmain
          subst hmain
          exact .ready .call rfl (fun heq => Stage.noConfusion heq) hquiet hready
      | call =>
          simp only [State.parentMain, hpc, Option.some.injEq] at hmain
          subst hmain
          exact .ready .blocked rfl (fun heq => Stage.noConfusion heq) hquiet hready
      | blocked => simp [State.parentMain, hpc] at hmain
  | confirm i hpc hquiet =>
      obtain ⟨-, hmain⟩ := parent_step_of_quiet hquiet hnext
      simp [State.parentMain, hpc] at hmain
  | finish hpc hquiet =>
      obtain ⟨-, hmain⟩ := parent_step_of_quiet hquiet hnext
      simp [State.parentMain, hpc] at hmain
  | wait hpc hquiet htold =>
      -- the child has not counted anything back yet
      have hfresh := (hs.sending (by rw [hpc]; exact id)).parentFresh
      obtain ⟨hchild, htold'⟩ := parent_sends_nothing htold (by omega) hnext
      exact .wait (hchild ▸ hpc) (hchild ▸ hquiet) htold'
  | childConfirm i hpc hquiet hconfirmation =>
      -- the only signal that has been sent back is the one that was confirmed
      have hresending := hs.resending (by rw [hpc]; trivial)
      have hbounds := hresending.bounds
      obtain ⟨hchild, -⟩ := parent_sends_nothing hresending.told (by omega) hnext
      exact .childConfirm i (hchild ▸ hpc) (hchild ▸ hquiet) (hchild ▸ hconfirmation)

theorem Asleep.child_next (h : Asleep s) (hs : Sound n s) {e : Event}
    (hnext : s.next n (.child e) = some t) : Asleep t := by
  cases h with
  | ready stage hpc hflag hquiet hready =>
      have hseen := hs.not_seen (by rw [hpc]; rfl)
      have hdata := (hs.sending hseen).data
      have hack := (hs.sending hseen).ack
      rw [hpc, ParentPc.sent] at hdata
      obtain ⟨hparent, hready'⟩ := child_sends_nothing hready hseen (by omega) hnext
      exact .ready stage (hparent ▸ hpc) (hparent ▸ hflag) (hparent ▸ hquiet) hready'
  | confirm i hpc hquiet hconfirmation hready =>
      have hseen := hs.not_seen (by rw [hpc]; rfl)
      have hbounds := (hs.sending hseen).bounds
      obtain ⟨hparent, hready'⟩ := child_sends_nothing hready hseen (by omega) hnext
      exact .confirm i (hparent ▸ hpc) (hparent ▸ hquiet) (hparent ▸ hconfirmation) hready'
  | finish hpc hquiet hchild => simp [State.next, hchild] at hnext
  | wait hpc hquiet =>
      obtain ⟨-, hmain⟩ := child_step_of_quiet hquiet hnext
      simp [State.childMain, hpc] at hmain
  | childConfirm i hpc hquiet =>
      obtain ⟨-, hmain⟩ := child_step_of_quiet hquiet hnext
      simp [State.childMain, hpc] at hmain

theorem Asleep.next (h : Asleep s) (hs : Sound n s) (hnext : s.next n a = some t) :
    Asleep t := by
  cases a with
  | parent e => exact h.parent_next hs hnext
  | child e => exact h.child_next hs hnext

/-! ## §3  The end -/

theorem run_awake {tr : List (State × Action)} (h : (exchange n).Run tr s)
    (hcareful : ∀ x ∈ tr, Careful x.1 x.2) : Awake n s :=
  h.invariant_of_steps (I := fun _ s => Awake n s) hcareful awake_start
    fun _ _ _ _ ih ha hnext => ih.next ha hnext

theorem run_asleep {tr : List (State × Action)} (h : (exchange n).Run tr s)
    (hcareless : ¬∀ x ∈ tr, Careful x.1 x.2) : Asleep s := by
  suffices hboth : Sound n s ∧ ((¬∀ x ∈ tr, Careful x.1 x.2) → Asleep s) from
    hboth.2 hcareless
  refine h.invariant (I := fun tr s => Sound n s ∧ ((¬∀ x ∈ tr, Careful x.1 x.2) → Asleep s))
    ⟨sound_start, fun h => absurd (fun _ hx => absurd hx List.not_mem_nil) h⟩ ?_
  rintro tr s a t ⟨hs, ih⟩ hnext
  refine ⟨hs.next hnext, fun hcareless' => ?_⟩
  rw [List.forall_mem_append, List.forall_mem_singleton, not_and_or] at hcareless'
  rcases hcareless' with hbefore | hnow
  · exact (ih hbefore).next hs hnext
  · exact asleep_of_careless hs hnow hnext

/-- **How the confirmed exchange ends**: in every order of the steps there are at most
`28 * n + 34` of them; and where nobody can go on, both processes have ended exactly if
`pause` was never called after the flag had been set, and the first `flag = 0` has reset
nothing. -/
theorem confirmed_exchange_ends {tr : List (State × Action)} (h : (exchange n).Run tr s) :
    tr.length ≤ 28 * n + 34 ∧
    (Halted n s → (s.parent.pc = .ended ∧ s.child.pc = .ended ↔
      ∀ x ∈ tr, Careful x.1 x.2)) := by
  constructor
  · have hbound := h.length_add_le_measure (I := Sound n) (State.rank n) sound_start
      fun _ _ _ hs hnext => ⟨hs.next hnext, rank_next hs hnext⟩
    have hstart : (exchange n).init.rank n = 14 * n + 17 + 0 + (14 * n + 17 + 0) := rfl
    omega
  · refine fun hhalted => ⟨fun hended => ?_, fun hcareful => ?_⟩
    · by_contra hcareless
      exact (run_asleep h hcareless).not_finished hended
    · exact (run_awake h hcareful).finished hhalted

/-- One signal there and back, in one order of the steps. -/
theorem confirmed_exchange_ends_one : ∃ (tr : List (State × Action)) (s : State),
    (exchange 1).Run tr s ∧ tr.length = 38 ∧ s.parent.pc = .ended ∧ s.child.pc = .ended ∧
      ∀ x ∈ tr, Careful x.1 x.2 := by
  have hrun := (exchange 1).run_of_replay
    [.parent .main, .child .main, .child .main, .child .main, .parent (.deliver .usr2),
      .parent .handle, .parent .main, .parent .main, .parent .main, .child (.deliver .usr1),
      .child .handle, .child .handle, .parent (.deliver .usr1), .parent .handle, .parent .main,
      .parent .main, .parent .main, .parent .main, .parent .main, .parent .main,
      .child (.deliver .usr2), .child .handle, .child .main, .child .main, .child .main,
      .child .main, .parent (.deliver .usr1), .parent .handle, .parent .handle,
      .child (.deliver .usr1), .child .handle, .child .main, .child .main, .child .main,
      .parent (.deliver .usr2), .parent .handle, .parent .main, .parent .main] rfl
  refine ⟨_, _, hrun, rfl, rfl, rfl, ((confirmed_exchange_ends hrun).2 fun a => ?_).mp ⟨rfl, rfl⟩⟩
  cases a <;> rfl

end Sysopy.SignalExchange.Confirmed
