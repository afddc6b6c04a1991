import Sysopy.SignalExchange.Unconfirmed

/-!
# The counts of the unconfirmed exchange

Behind an end marker there are no signals left: the marker is delivered after all signals
that were sent before it, so that both processes print what was carried over. Queued
signals are carried over one by one; of standard signals some may merge, but never all.

## Sections

* §1 the counts
* §2 what is printed
-/

namespace Sysopy.SignalExchange.Unconfirmed

open Sysopy.Foundation

/-! ## §1  The counts -/

def ParentPc.sent (n : ℕ) : ParentPc → ℕ
  | .resetFlag | .ready _ | .resetAgain => 0
  | .send i => i
  | _ => n

def ParentPc.started : ParentPc → ℕ
  | .resetFlag | .ready _ | .resetAgain => 0
  | _ => 1

def ParentPc.told : ParentPc → ℕ
  | .finish _ | .print | .ended => 1
  | _ => 0

def ParentPc.Over : ParentPc → Prop
  | .print | .ended => True
  | _ => False

def ChildPc.ready : ChildPc → ℕ
  | .catchUsr1 | .catchUsr2 | .killReady => 0
  | _ => 1

def ChildPc.Seen : ChildPc → Prop
  | .print | .resend _ | .ended => True
  | _ => False

def ChildPc.sent (counter : ℕ) : ChildPc → ℕ
  | .resend i => i
  | .ended => counter
  | _ => 0

def ChildPc.told : ChildPc → ℕ
  | .ended => 1
  | _ => 0

/-- The signals of each process and its counts. -/
structure Sound (d : Discipline) (n : ℕ) (s : State) : Prop where
  /-- the signals to the child -/
  data : Carries d (s.child.counter + s.child.inbox.due .usr1 .count) (s.parent.pc.sent n)
  within : s.parent.pc.sent n ≤ n
  /-- the marker to the child -/
  marker : s.child.inbox.due .usr2 .mark + s.child.flag ≤ s.parent.pc.told
  /-- behind the marker there are no signals any more -/
  seen : s.child.pc.Seen → s.parent.pc.told = 1 ∧ s.child.inbox.due .usr1 .count = 0
  /-- the signals to the parent -/
  back : Carries d (s.parent.counter + s.parent.inbox.due .usr1 .count)
    (s.child.pc.sent s.child.counter)
  backWithin : s.child.pc.sent s.child.counter ≤ s.child.counter
  /-- the marks to the parent: that the child is ready, and that it is done -/
  marks : s.parent.inbox.due .usr2 .mark + s.parent.flag + s.parent.pc.started ≤
    s.child.pc.ready + s.child.pc.told
  flagged : s.parent.pc = .resetAgain → 0 < s.parent.flag
  ended : s.parent.pc.Over → s.child.pc.told = 1 ∧ s.parent.inbox.due .usr1 .count = 0

variable {d : Discipline} {n : ℕ} {s t : State}

theorem sound_start : Sound d n (exchange d n).init where
  data := carries_zero
  within := Nat.zero_le n
  marker := Nat.le_refl 0
  seen := nofun
  back := carries_zero
  backWithin := Nat.le_refl 0
  marks := Nat.le_refl 0
  flagged := nofun
  ended := nofun

theorem ParentPc.told_le (pc : ParentPc) : pc.told ≤ pc.started := by
  cases pc <;> simp [told, started]

theorem ParentPc.started_le (pc : ParentPc) : pc.started ≤ 1 := by
  cases pc <;> simp [started]

theorem ParentPc.told_le_one (pc : ParentPc) : pc.told ≤ 1 := by
  cases pc <;> simp [told]

theorem ParentPc.started_of_sent {pc : ParentPc} (h : 0 < pc.sent n) : pc.started = 1 := by
  cases pc with
  | resetFlag | ready | resetAgain => exact absurd h (Nat.lt_irrefl 0)
  | send | finish | print | ended => rfl

theorem ChildPc.ready_le (pc : ChildPc) : pc.ready ≤ 1 := by
  cases pc <;> simp [ready]

theorem ChildPc.told_le (pc : ChildPc) : pc.told ≤ 1 := by
  cases pc <;> simp [told]

theorem ChildPc.sent_eq_zero {pc : ChildPc} (h : ¬pc.Seen) (counter : ℕ) :
    pc.sent counter = 0 := by
  cases pc with
  | catchUsr1 | catchUsr2 | killReady | wait => rfl
  | print | resend | ended => exact absurd trivial h

theorem Sound.parentGoto (h : Sound d n s) {pc : ParentPc} {flag : ℕ}
    (hsent : pc.sent n = s.parent.pc.sent n) (htold : pc.told = s.parent.pc.told)
    (hstarted : flag + pc.started ≤ s.parent.flag + s.parent.pc.started)
    (hflag : pc = .resetAgain → 0 < flag)
    (hover : pc.Over → s.child.pc.told = 1 ∧ s.parent.inbox.due .usr1 .count = 0) :
    Sound d n { s with parent := { s.parent with pc := pc, flag := flag } } where
  data := hsent ▸ h.data
  within := hsent ▸ h.within
  marker := htold ▸ h.marker
  seen := htold ▸ h.seen
  back := h.back
  backWithin := h.backWithin
  marks := by
    have := h.marks
    show s.parent.inbox.due .usr2 .mark + flag + pc.started ≤ s.child.pc.ready + s.child.pc.told
    omega
  flagged := hflag
  ended := hover

/-- The parent has not seen the marker of a child that has not sent it. -/
theorem Sound.not_over (h : Sound d n s) (hchild : s.child.pc.told = 0) : ¬s.parent.pc.Over :=
  fun hover => absurd (hchild.symm.trans (h.ended hover).1) (by decide)

/-- The child has not seen the marker of a parent that has not sent it. -/
theorem Sound.not_seen (h : Sound d n s) (hparent : s.parent.pc.told = 0) : ¬s.child.pc.Seen :=
  fun hseen => absurd (hparent.symm.trans (h.seen hseen).1) (by decide)

theorem Sound.parentKill (h : Sound d n s) {i : ℕ} (hpc : s.parent.pc = .send i) (hi : i < n) :
    Sound d n { parent := s.parent.goto (.send (i + 1)), child := s.child.kill d .usr1 } where
  data := by
    have hdata := h.data
    rw [hpc] at hdata
    exact hdata.post
  within := hi
  marker := by
    have hmarker := h.marker
    rw [hpc] at hmarker
    show (s.child.inbox.post d .usr1).due .usr2 .mark + s.child.flag ≤ 0
    rwa [Inbox.due_post_of_ne (by decide)]
  seen hseen := absurd hseen (h.not_seen (by rw [hpc]; rfl))
  back := h.back
  backWithin := h.backWithin
  marks := by
    have hmarks := h.marks
    rw [hpc] at hmarks
    exact hmarks
  flagged := nofun
  ended := nofun

theorem Sound.parentMark (h : Sound d n s) {i : ℕ} (hpc : s.parent.pc = .send i) (hi : ¬i < n) :
    Sound d n { parent := s.parent.goto (.finish .test), child := s.child.kill d .usr2 } where
  data := by
    have hdata := h.data
    have hwithin := h.within
    rw [hpc] at hdata hwithin
    obtain rfl : i = n := Nat.le_antisymm hwithin (Nat.not_lt.mp hi)
    exact hdata.of_eq (congrArg _ (Inbox.due_post_of_ne (by decide)))
  within := Nat.le_refl n
  marker := by
    have hmarker : s.child.inbox.due .usr2 .mark + s.child.flag ≤ 0 := by
      have hmarker := h.marker
      rwa [hpc] at hmarker
    have hpost := Inbox.due_post_le (d := d) (i := s.child.inbox) (f := Frame.mark) .usr2
    show (s.child.inbox.post d .usr2).due .usr2 .mark + s.child.flag ≤ 1
    omega
  seen hseen := absurd hseen (h.not_seen (by rw [hpc]; rfl))
  back := h.back
  backWithin := h.backWithin
  marks := by
    have hmarks := h.marks
    rw [hpc] at hmarks
    exact hmarks
  flagged := nofun
  ended := nofun

theorem Sound.parentMain (h : Sound d n s) (hquiet : s.parent.inbox.Quiet)
    (hnext : s.parentMain d n = some t) : Sound d n t := by
  have hmarks := h.marks
  cases parentStep hnext with
  | resetFlag hpc =>
      exact h.parentGoto (by rw [hpc]; rfl) (by rw [hpc]; rfl) (Nat.zero_le _) nofun nofun
  | ready hpc hflag =>
      exact h.parentGoto (by rw [hpc]; rfl) (by rw [hpc]; rfl) (by rw [hpc]; rfl)
        (fun _ => Nat.pos_of_ne_zero hflag) nofun
  | resetAgain hpc =>
      have hflag := h.flagged hpc
      exact h.parentGoto (by rw [hpc]; rfl) (by rw [hpc]; rfl)
        (Nat.le_trans hflag (Nat.le_add_right _ _)) nofun nofun
  | send i hpc hi => exact h.parentKill hpc hi
  | sent i hpc hi => exact h.parentMark hpc hi
  | finished hpc hflag =>
      refine h.parentGoto (by rw [hpc]; rfl) (by rw [hpc]; rfl) (by rw [hpc]; rfl)
        nofun fun _ => ⟨?_, hquiet.due _ _⟩
      -- the first mark has been used up, so that this is the second one
      have hstarted : s.parent.pc.started = 1 := by rw [hpc]; rfl
      have hready := s.child.pc.ready_le
      have htold := s.child.pc.told_le
      omega
  | notReady hpc | pauseReady hpc | notFinished hpc | pauseFinish hpc =>
      exact h.parentGoto (by rw [hpc]; rfl) (by rw [hpc]; rfl) (by rw [hpc]; rfl) nofun nofun
  | print hpc =>
      exact h.parentGoto (by rw [hpc]; rfl) (by rw [hpc]; rfl) (by rw [hpc]; rfl) nofun
        fun _ => h.ended (by rw [hpc]; trivial)

theorem Sound.parentHandle (h : Sound d n s) {p : Process ParentPc}
    (hnext : s.parent.handle = some p) : Sound d n { s with parent := p } := by
  have hback := h.back
  have hmarks := h.marks
  cases handlerStep hnext with
  | count fs hframes =>
      have hcount := Inbox.due_leave_self .usr1 hframes
      have hmark := Inbox.due_leave_of_ne .usr2 (f := Frame.mark) hframes nofun
      exact
        { h with
          back := hback.of_eq (by dsimp only; omega)
          marks := by dsimp only; omega
          ended := fun hover =>
            ⟨(h.ended hover).1, by have := (h.ended hover).2; dsimp only; omega⟩ }
  | mark fs hframes =>
      have hcount := Inbox.due_leave_of_ne .usr1 (f := Frame.count) hframes nofun
      have hmark := Inbox.due_leave_self .usr2 hframes
      exact
        { h with
          back := hback.of_eq (by dsimp only; omega)
          marks := by dsimp only; omega
          flagged := fun _ => Nat.one_pos
          ended := fun hover =>
            ⟨(h.ended hover).1, by have := (h.ended hover).2; dsimp only; omega⟩ }

theorem Process.interrupt_due {Pc : Type} {p : Process Pc} {sig : Usr}
    (hsig : 0 < p.inbox.pending sig) (pc : Pc) :
    (p.interrupt pc sig).inbox.due .usr1 .count = p.inbox.due .usr1 .count ∧
      (p.interrupt pc sig).inbox.due .usr2 .mark = p.inbox.due .usr2 .mark := by
  cases sig with
  | usr1 => exact ⟨Inbox.due_take_self hsig, p.inbox.due_take_of_ne (by decide) nofun⟩
  | usr2 => exact ⟨p.inbox.due_take_of_ne (by decide) nofun, Inbox.due_take_self hsig⟩

theorem ParentPc.woken_eq (pc : ParentPc) :
    pc.woken = pc ∨ pc = .ready .blocked ∧ pc.woken = .ready .test ∨
      pc = .finish .blocked ∧ pc.woken = .finish .test := by
  unfold woken
  split
  · exact Or.inr (Or.inl ⟨rfl, rfl⟩)
  · exact Or.inr (Or.inr ⟨rfl, rfl⟩)
  · exact Or.inl rfl

theorem Sound.parentDeliver (h : Sound d n s) {sig : Usr} (hsig : 0 < s.parent.inbox.pending sig) :
    Sound d n { s with parent := s.parent.interrupt s.parent.pc.woken sig } := by
  obtain ⟨hcount, hmark⟩ := s.parent.interrupt_due hsig s.parent.pc.woken
  have hwoken : Sound d n { s with parent := s.parent.goto s.parent.pc.woken } := by
    rcases s.parent.pc.woken_eq with hpc | ⟨hold, hpc⟩ | ⟨hold, hpc⟩
    · rw [hpc]
      exact h
    · rw [hpc]
      exact h.parentGoto (by rw [hold]; rfl) (by rw [hold]; rfl) (by rw [hold]; rfl) nofun nofun
    · rw [hpc]
      exact h.parentGoto (by rw [hold]; rfl) (by rw [hold]; rfl) (by rw [hold]; rfl) nofun nofun
  exact
    { hwoken with
      back := hwoken.back.of_eq (congrArg _ hcount)
      marks := by
        show (s.parent.interrupt _ sig).inbox.due .usr2 .mark + _ + _ ≤ _
        rw [hmark]
        exact hwoken.marks
      ended := hcount ▸ hwoken.ended }

theorem Sound.childGoto (h : Sound d n s) {pc : ChildPc}
    (hready : s.child.pc.ready ≤ pc.ready) (htold : pc.told = s.child.pc.told)
    (hsent : pc.sent s.child.counter = s.child.pc.sent s.child.counter)
    (hseen : pc.Seen → s.parent.pc.told = 1 ∧ s.child.inbox.due .usr1 .count = 0) :
    Sound d n { s with child := s.child.goto pc } where
  data := h.data
  within := h.within
  marker := h.marker
  seen := hseen
  back := hsent ▸ h.back
  backWithin := hsent ▸ h.backWithin
  marks := by
    have hmarks := h.marks
    show s.parent.inbox.due .usr2 .mark + s.parent.flag + s.parent.pc.started ≤
      pc.ready + pc.told
    omega
  flagged := h.flagged
  ended := htold ▸ h.ended

theorem Sound.childReady (h : Sound d n s) (hpc : s.child.pc = .killReady) :
    Sound d n { parent := s.parent.kill d .usr2, child := s.child.goto (.wait .test) } where
  data := h.data
  within := h.within
  marker := h.marker
  seen := nofun
  back := by
    have hback := h.back
    rw [hpc] at hback
    exact hback.of_eq (congrArg _ (Inbox.due_post_of_ne (by decide)))
  backWithin := Nat.zero_le _
  marks := by
    have hmarks : s.parent.inbox.due .usr2 .mark + s.parent.flag + s.parent.pc.started ≤ 0 := by
      have hmarks := h.marks
      rwa [hpc] at hmarks
    have hpost := Inbox.due_post_le (d := d) (i := s.parent.inbox) (f := Frame.mark) .usr2
    show (s.parent.inbox.post d .usr2).due .usr2 .mark + s.parent.flag + s.parent.pc.started ≤ 1
    omega
  flagged := h.flagged
  ended hover := absurd hover (h.not_over (by rw [hpc]; rfl))

theorem Sound.childKill (h : Sound d n s) {i : ℕ} (hpc : s.child.pc = .resend i)
    (hi : i < s.child.counter) :
    Sound d n { parent := s.parent.kill d .usr1, child := s.child.goto (.resend (i + 1)) } where
  data := h.data
  within := h.within
  marker := h.marker
  seen := fun _ => h.seen (by rw [hpc]; trivial)
  back := by
    have hback := h.back
    rw [hpc] at hback
    exact hback.post
  backWithin := hi
  marks := by
    have hmarks := h.marks
    rw [hpc] at hmarks
    show (s.parent.inbox.post d .usr1).due .usr2 .mark + _ + _ ≤ _
    rwa [Inbox.due_post_of_ne (by decide)]
  flagged := h.flagged
  ended hover := absurd hover (h.not_over (by rw [hpc]; rfl))

theorem Sound.childMark (h : Sound d n s) {i : ℕ} (hpc : s.child.pc = .resend i)
    (hi : ¬i < s.child.counter) :
    Sound d n { parent := s.parent.kill d .usr2, child := s.child.goto .ended } where
  data := h.data
  within := h.within
  marker := h.marker
  seen := fun _ => h.seen (by rw [hpc]; trivial)
  back := by
    have hback := h.back
    have hwithin := h.backWithin
    rw [hpc] at hback hwithin
    have heq : i = s.child.counter := Nat.le_antisymm hwithin (Nat.not_lt.mp hi)
    show Carries d (s.parent.counter + (s.parent.inbox.post d .usr2).due .usr1 .count)
      s.child.counter
    rw [Inbox.due_post_of_ne (by decide), ← heq]
    exact hback
  backWithin := Nat.le_refl _
  marks := by
    have hmarks : s.parent.inbox.due .usr2 .mark + s.parent.flag + s.parent.pc.started ≤ 1 := by
      have hmarks := h.marks
      rwa [hpc] at hmarks
    have hpost := Inbox.due_post_le (d := d) (i := s.parent.inbox) (f := Frame.mark) .usr2
    show (s.parent.inbox.post d .usr2).due .usr2 .mark + s.parent.flag + s.parent.pc.started ≤ 2
    omega
  flagged := h.flagged
  ended hover := absurd hover (h.not_over (by rw [hpc]; rfl))

theorem Sound.childMain (h : Sound d n s) (hquiet : s.child.inbox.Quiet)
    (hnext : s.childMain d = some t) : Sound d n t := by
  cases childStep hnext with
  | killReady hpc => exact h.childReady hpc
  | seen hpc hflag =>
      have hmarker := h.marker
      have htold := s.parent.pc.told_le_one
      exact h.childGoto (by rw [hpc]; rfl) (by rw [hpc]; rfl) (by rw [hpc]; rfl)
        fun _ => ⟨by omega, hquiet.due _ _⟩
  | print hpc =>
      exact h.childGoto (by rw [hpc]; rfl) (by rw [hpc]; rfl) (by rw [hpc]; rfl)
        fun _ => h.seen (by rw [hpc]; trivial)
  | resend i hpc hi => exact h.childKill hpc hi
  | resent i hpc hi => exact h.childMark hpc hi
  | catchUsr1 hpc | catchUsr2 hpc | notSeen hpc | pauseWait hpc =>
      exact h.childGoto (by rw [hpc]; rfl) (by rw [hpc]; rfl) (by rw [hpc]; rfl) nofun

theorem Sound.childHandle (h : Sound d n s) {c : Process ChildPc}
    (hnext : s.child.handle = some c) : Sound d n { s with child := c } := by
  have hdata := h.data
  have hmarker := h.marker
  cases handlerStep hnext with
  | count fs hframes =>
      -- a signal is counted, and so the end marker has not been seen yet
      have hcount := Inbox.due_leave_self .usr1 hframes
      have hmark := Inbox.due_leave_of_ne .usr2 (f := Frame.mark) hframes nofun
      have hseen : ¬s.child.pc.Seen := fun hseen => by
        have := (h.seen hseen).2
        omega
      have hsent := ChildPc.sent_eq_zero hseen
      exact
        { h with
          data := hdata.of_eq (by dsimp only; omega)
          marker := by dsimp only; omega
          seen := fun hseen' => absurd hseen' hseen
          back := by
            show Carries d _ (s.child.pc.sent (s.child.counter + 1))
            rw [hsent, ← hsent s.child.counter]
            exact h.back
          backWithin := by
            show s.child.pc.sent (s.child.counter + 1) ≤ _
            rw [hsent]
            exact Nat.zero_le _ }
  | mark fs hframes =>
      have hcount := Inbox.due_leave_of_ne .usr1 (f := Frame.count) hframes nofun
      have hmark := Inbox.due_leave_self .usr2 hframes
      exact
        { h with
          data := hdata.of_eq (by dsimp only; omega)
          marker := by dsimp only; omega
          seen := fun hseen => ⟨(h.seen hseen).1, by have := (h.seen hseen).2; dsimp only; omega⟩ }

theorem ChildPc.woken_eq (pc : ChildPc) :
    pc.woken = pc ∨ pc = .wait .blocked ∧ pc.woken = .wait .test := by
  unfold woken
  split
  · exact Or.inr ⟨rfl, rfl⟩
  · exact Or.inl rfl

/-- No signal is sent to the child before it can catch it. -/
theorem Sound.catches (h : Sound d n s) {sig : Usr} (hsig : 0 < s.child.inbox.pending sig) :
    s.child.pc.catches sig = true := by
  have hmarks := h.marks
  have hstarted : s.parent.pc.started = 1 := by
    cases sig with
    | usr1 =>
        refine ParentPc.started_of_sent (n := n) ?_
        have hle := h.data.le
        rw [Inbox.due] at hle
        omega
    | usr2 =>
        have hmarker := h.marker
        have htold := s.parent.pc.told_le
        have hle := s.parent.pc.started_le
        rw [Inbox.due] at hmarker
        omega
  cases hpc : s.child.pc with
  | catchUsr1 | catchUsr2 | killReady =>
      rw [hpc] at hmarks
      simp only [ChildPc.ready, ChildPc.told] at hmarks
      omega
  | wait | print | resend | ended => rfl

theorem Sound.childDeliver (h : Sound d n s) {sig : Usr} (hsig : 0 < s.child.inbox.pending sig) :
    Sound d n { s with child := s.child.interrupt s.child.pc.woken sig } := by
  obtain ⟨hcount, hmark⟩ := s.child.interrupt_due hsig s.child.pc.woken
  have hwoken : Sound d n { s with child := s.child.goto s.child.pc.woken } := by
    rcases s.child.pc.woken_eq with hpc | ⟨hold, hpc⟩
    · rw [hpc]
      exact h
    · rw [hpc]
      exact h.childGoto (by rw [hold]; rfl) (by rw [hold]; rfl) (by rw [hold]; rfl) nofun
  exact
    { hwoken with
      data := hwoken.data.of_eq (congrArg _ hcount)
      marker := by
        show (s.child.interrupt _ sig).inbox.due .usr2 .mark + _ ≤ _
        rw [hmark]
        exact hwoken.marker
      seen := hcount ▸ hwoken.seen }

theorem Sound.next (h : Sound d n s) {a : Action} (hnext : s.next d n a = some t) :
    Sound d n t := by
  cases a with
  | parent e =>
      simp only [State.next, Option.ite_none_left_eq_some] at hnext
      obtain ⟨-, hnext⟩ := hnext
      cases e with
      | main =>
          obtain ⟨hquiet, hnext⟩ := Option.ite_none_right_eq_some.mp hnext
          exact h.parentMain hquiet hnext
      | handle =>
          obtain ⟨p, hp, rfl⟩ := Option.map_eq_some_iff.mp hnext
          exact h.parentHandle hp
      | deliver sig =>
          obtain ⟨hsig, hnext⟩ := Option.ite_none_right_eq_some.mp hnext
          obtain rfl := Option.some.inj hnext
          exact h.parentDeliver hsig.1
  | child e =>
      simp only [State.next, Option.ite_none_left_eq_some] at hnext
      obtain ⟨-, hnext⟩ := hnext
      cases e with
      | main =>
          obtain ⟨hquiet, hnext⟩ := Option.ite_none_right_eq_some.mp hnext
          exact h.childMain hquiet hnext
      | handle =>
          obtain ⟨c, hc, rfl⟩ := Option.map_eq_some_iff.mp hnext
          exact h.childHandle hc
      | deliver sig =>
          obtain ⟨hsig, hnext⟩ := Option.ite_none_right_eq_some.mp hnext
          obtain rfl := Option.some.inj hnext
          rw [if_pos (h.catches hsig.1)]
          exact h.childDeliver hsig.1

theorem run_sound {tr : List (State × Action)} (h : (exchange d n).Run tr s) : Sound d n s :=
  h.invariant (I := fun _ s => Sound d n s) sound_start fun _ _ _ _ ih hnext => ih.next hnext

/-! ## §2  What is printed -/

theorem Sound.child_print (h : Sound d n s) (hpc : s.child.pc.Seen) :
    Carries d s.child.counter n := by
  have hdata := h.data
  obtain ⟨htold, hdue⟩ := h.seen hpc
  have hsent : s.parent.pc.sent n = n := by
    cases hparent : s.parent.pc with
    | resetFlag | ready | resetAgain | send =>
        rw [hparent] at htold
        cases htold
    | finish | print | ended => rfl
  rwa [hdue, hsent] at hdata

theorem Sound.parent_print (h : Sound d n s) (hpc : s.parent.pc = .print) :
    Carries d s.parent.counter s.child.counter ∧ Carries d s.child.counter n := by
  have hback := h.back
  obtain ⟨htold, hdue⟩ := h.ended (by rw [hpc]; trivial)
  cases hchild : s.child.pc with
  | ended =>
      rw [hdue, hchild] at hback
      exact ⟨hback, h.child_print (by rw [hchild]; trivial)⟩
  | catchUsr1 | catchUsr2 | killReady | wait | print | resend =>
      rw [hchild] at htold
      cases htold

/-- **With queued signals the exchange is exact.** -/
theorem queued_exchange_exact {tr : List (State × Action)} (h : (exchange .queued n).Run tr s) :
    (s.child.pc = .print → s.child.counter = n) ∧
      (s.parent.pc = .print → s.parent.counter = n) := by
  have hs := run_sound h
  refine ⟨fun hpc => (hs.child_print (by rw [hpc]; trivial)).eq rfl, fun hpc => ?_⟩
  obtain ⟨hparent, hchild⟩ := hs.parent_print hpc
  exact (hparent.eq rfl).trans (hchild.eq rfl)

/-- Two queued signals go there and back. -/
theorem queued_exchange_exact_two :
    ∃ (tr : List (State × Action)) (s : State),
      (exchange .queued 2).Run tr s ∧ s.parent.pc = .print ∧ s.parent.counter = 2 := by
  have hrun := (exchange .queued 2).run_of_replay
    [.parent .main, .child .main, .child .main, .child .main, .parent (.deliver .usr2),
      .parent .handle, .parent .main, .parent .main, .parent .main, .parent .main,
      .child (.deliver .usr1), .parent .main, .child (.deliver .usr2), .child .handle,
      .child .handle, .child (.deliver .usr1), .child .handle, .child .main, .child .main,
      .child .main, .child .main, .child .main, .parent (.deliver .usr1), .parent .handle,
      .parent (.deliver .usr1), .parent (.deliver .usr2), .parent .handle, .parent .handle,
      .parent .main] rfl
  exact ⟨_, _, hrun, rfl, (queued_exchange_exact hrun).2 rfl⟩

/-- **With standard signals some may be lost, but not all, and none is invented.** -/
theorem merged_exchange_bounds {tr : List (State × Action)} (h : (exchange .merged n).Run tr s)
    (hn : 1 ≤ n) (hpc : s.parent.pc = .print) :
    1 ≤ s.parent.counter ∧ s.parent.counter ≤ s.child.counter ∧ s.child.counter ≤ n := by
  obtain ⟨hparent, hchild⟩ := (run_sound h).parent_print hpc
  exact ⟨hparent.pos (hchild.pos hn), hparent.le, hchild.le⟩

/-- Two standard signals merge on the way to the child. -/
theorem merged_exchange_bounds_two :
    ∃ (tr : List (State × Action)) (s : State),
      (exchange .merged 2).Run tr s ∧ s.child.counter = 1 ∧
      1 ≤ s.parent.counter ∧ s.parent.counter ≤ s.child.counter ∧ s.child.counter ≤ 2 := by
  have hrun := (exchange .merged 2).run_of_replay
    [.parent .main, .child .main, .child .main, .child .main, .parent (.deliver .usr2),
      .parent .handle, .parent .main, .parent .main, .parent .main, .parent .main,
      .parent .main, .child (.deliver .usr1), .child (.deliver .usr2), .child .handle,
      .child .handle, .child .main, .child .main, .child .main, .child .main,
      .parent (.deliver .usr1), .parent .handle, .parent (.deliver .usr2), .parent .handle,
      .parent .main] rfl
  exact ⟨_, _, hrun, rfl, merged_exchange_bounds hrun (by decide) rfl⟩

end Sysopy.SignalExchange.Unconfirmed
