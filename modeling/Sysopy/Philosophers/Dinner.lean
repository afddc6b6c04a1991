import Mathlib.Algebra.Order.BigOperators.Group.Finset
import Sysopy.Foundation.Tally
import Sysopy.Philosophers.Progress

/-!
# The end of the dinner

A philosopher that is woken tests the status of its fork again and may have to go back to
sleep, so its own statements do not bound how often it does. But a signal wakes one
philosopher at most, and there is a signal for each fork and course: what is left of the
dinner falls with every step that is no spurious wake-up.

## Sections

* §1 what is left of the dinner
* §2 what a step leaves
* §3 everybody has eaten
-/

namespace Sysopy.Philosophers

open Sysopy.Foundation

variable {m : ℕ} {s t : Table m} {p q : Philosopher m} {w : Which} {c : Pc}

/-! ## §1  What is left of the dinner -/

/-- The steps to the end of the course. A signal counts three, the two steps back of the
philosopher that it wakes among them. -/
def Pc.rest : Pc → ℕ
  | .lock .first => 21
  | .test .first => 20
  | .asleep .first | .take .first => 19
  | .unlock .first => 18
  | .lock .second => 17
  | .test .second => 16
  | .asleep .second | .take .second => 15
  | .unlock .second => 14
  | .eat => 13
  | .relock .first => 12
  | .release .first => 11
  | .signal .first => 10
  | .reunlock .first => 7
  | .relock .second => 6
  | .release .second => 5
  | .signal .second => 4
  | .reunlock .second => 1
  | .done => 0

/-- What is left for a philosopher at this point that has eaten so many courses. -/
def restOf (x : Pc × ℕ) : ℕ := x.1.rest + 21 * (coursesToEat - 1 - x.2)

/-- Where the philosophers are, and how many courses they have eaten. -/
def Table.standing (s : Table m) (p : Philosopher m) : Pc × ℕ := (s.pc p, s.count p)

def Table.rest (s : Table m) : ℕ := total restOf s.standing

theorem restOf_le (x : Pc × ℕ) : restOf x ≤ 210 := by
  have hpc : x.1.rest ≤ 21 := by
    rcases x with ⟨⟨_ | _⟩ | ⟨_ | _⟩ | ⟨_ | _⟩ | ⟨_ | _⟩ | ⟨_ | _⟩ | _ | ⟨_ | _⟩ | ⟨_ | _⟩ |
      ⟨_ | _⟩ | ⟨_ | _⟩ | _, n⟩ <;> simp only [Pc.rest] <;> omega
  unfold restOf coursesToEat
  omega

theorem Table.rest_le (s : Table m) : s.rest ≤ 210 * (m + 2) := by
  calc s.rest = ∑ p, restOf (s.standing p) := rfl
    _ ≤ ∑ _p : Philosopher m, 210 := Finset.sum_le_sum fun p _ => restOf_le _
    _ = Fintype.card (Philosopher m) * 210 := Finset.sum_const_nat fun _ _ => rfl
    _ = 210 * (m + 2) := by rw [Fintype.card_fin, Nat.mul_comm]

theorem standing_update {n : ℕ} (hpc : t.pc = Function.update s.pc p c)
    (hcount : t.count = Function.update s.count p n) :
    t.standing = Function.update s.standing p (c, n) := by
  funext q
  rw [Table.standing, hpc, hcount, Function.update_apply, Function.update_apply,
    Function.update_apply]
  split_ifs <;> rfl

theorem standing_goto (hpc : t.pc = Function.update s.pc p c) (hcount : t.count = s.count) :
    t.standing = Function.update s.standing p (c, s.count p) :=
  standing_update hpc (by rw [hcount, Function.update_eq_self])

/-- Who is done has eaten all courses, and nobody else has. -/
def Counted (s : Table m) : Prop :=
  ∀ p, (s.pc p = .done → s.count p = coursesToEat) ∧
    (s.pc p ≠ .done → s.count p < coursesToEat)

/-! ## §2  What a step leaves -/

/-- A step of a philosopher that is no signal: where it is then, and how many courses it
has eaten. -/
theorem diningFunction_standing (hs : Counted s) (hn : s.diningFunction p = some t) :
    ∃ c n, t.standing = Function.update s.standing p (c, n) ∧
      restOf (c, n) < restOf (s.standing p) ∧
      ((c = .done ∧ n = coursesToEat) ∨ (c ≠ .done ∧ n < coursesToEat)) := by
  -- a step within a course
  have hwithin : ∀ {c}, t.standing = Function.update s.standing p (c, s.count p) →
      s.pc p ≠ .done → c ≠ .done → c.rest < (s.pc p).rest →
      ∃ c n, t.standing = Function.update s.standing p (c, n) ∧
        restOf (c, n) < restOf (s.standing p) ∧
        ((c = .done ∧ n = coursesToEat) ∨ (c ≠ .done ∧ n < coursesToEat)) :=
    fun ht hpc hc hlt => ⟨_, _, ht, Nat.add_lt_add_right hlt _, Or.inr ⟨hc, (hs p).2 hpc⟩⟩
  cases diningStep hn with
  | again hpc hmore =>
      refine ⟨.lock .first, s.count p + 1, standing_update rfl rfl, ?_,
        Or.inr ⟨Pc.noConfusion, hmore⟩⟩
      simp only [Table.standing, restOf, hpc, Pc.rest]
      omega
  | leave hpc hlast =>
      have hlt := (hs p).2 (hpc ▸ Pc.noConfusion)
      refine ⟨.done, s.count p + 1, standing_update rfl rfl, ?_, Or.inl ⟨rfl, by omega⟩⟩
      simp only [Table.standing, restOf, hpc, Pc.rest]
      omega
  | lock w hpc | sleep w hpc | found w hpc | take w hpc | relock w hpc | release w hpc =>
      refine hwithin (standing_goto rfl rfl) (hpc ▸ Pc.noConfusion) Pc.noConfusion ?_
      rw [hpc]
      cases w <;> exact Nat.lt_succ_self _
  | unlockFirst hpc | unlockSecond hpc | eat hpc | reunlock hpc =>
      refine hwithin (standing_goto rfl rfl) (hpc ▸ Pc.noConfusion) Pc.noConfusion ?_
      rw [hpc]
      exact Nat.lt_succ_self _

/-- A signal wakes nobody or one philosopher, the other one at the fork. -/
theorem signalCondition_standing {woken : Finset (Philosopher m)}
    (hn : s.signalCondition p woken = some t) :
    ∃ w, s.pc p = .signal w ∧ t.count = s.count ∧
      (t.pc = Function.update s.pc p (.reunlock w) ∨
        ∃ q w', q ≠ p ∧ s.pc q = .asleep w' ∧
          t.pc = Function.update (Function.update s.pc p (.reunlock w)) q (.lock w')) := by
  unfold Table.signalCondition at hn
  split at hn
  next w hpc =>
    split_ifs at hn with hwoken
    obtain rfl := Option.some.inj hn
    refine ⟨w, hpc, rfl, ?_⟩
    have hsleeps : ∀ q ∈ woken, ∃ w', s.pc q = .asleep w' ∧ forkOf q w' = forkOf p w := by
      intro q hq
      have hmem : s.SleepsOn (forkOf p w) q := by
        simpa [Table.sleepers] using hwoken.1 hq
      unfold Table.SleepsOn at hmem
      split at hmem
      next w' hq' => exact ⟨w', hq', hmem⟩
      next => exact hmem.elim
    rcases woken.eq_empty_or_nonempty with rfl | ⟨q, hq⟩
    · refine Or.inl (funext fun r => ?_)
      rw [Function.update_apply]
      exact congrArg (fun x => if r = p then Pc.reunlock w else x)
        (if_neg (Finset.notMem_empty r))
    · obtain ⟨w', hasleep, hfork⟩ := hsleeps q hq
      have hqp : q ≠ p := by
        rintro rfl
        exact Pc.noConfusion (hpc.symm.trans hasleep)
      refine Or.inr ⟨q, w', hqp, hasleep, funext fun r => ?_⟩
      rw [Function.update_apply, Function.update_apply]
      show s.afterSignal p w woken r = _
      unfold Table.afterSignal
      by_cases hrp : r = p
      · subst hrp
        rw [if_pos rfl, if_neg hqp.symm, if_pos rfl]
      · rw [if_neg hrp, if_neg hrp]
        by_cases hrq : r = q
        · subst hrq
          rw [if_pos hq, if_pos rfl, hasleep]
          rfl
        · -- a third philosopher is not at this fork
          have hr : r ∉ woken := by
            intro hr
            obtain ⟨w'', -, hfork'⟩ := hsleeps r hr
            rcases two_of_fork rfl hfork hfork' with h | h | h
            · exact hqp h.symm
            · exact hrq h.symm
            · exact hrp h.symm
          rw [if_neg hr, if_neg hrq]
  next => exact absurd hn (Option.some_ne_none t).symm

theorem rest_signal (w : Which) (n : ℕ) :
    restOf (.reunlock w, n) + 3 = restOf (.signal w, n) := by
  cases w <;> simp only [restOf, Pc.rest] <;> omega

theorem rest_lock (w : Which) (n : ℕ) : restOf (.lock w, n) = restOf (.asleep w, n) + 2 := by
  cases w <;> simp only [restOf, Pc.rest] <;> omega

theorem rest_signalCondition {woken : Finset (Philosopher m)}
    (hn : s.signalCondition p woken = some t) : t.rest + 1 ≤ s.rest := by
  obtain ⟨w, hpc, hcount, hpcs⟩ := signalCondition_standing hn
  have hp : s.standing p = (.signal w, s.count p) := by rw [Table.standing, hpc]
  have hmove := total_update restOf s.standing p (.reunlock w, s.count p)
  have hfall := rest_signal w (s.count p)
  rw [hp] at hmove
  rcases hpcs with hpcs | ⟨q, w', hqp, hasleep, hpcs⟩
  · rw [Table.rest, Table.rest, standing_goto hpcs hcount]
    omega
  · have hq : Function.update s.standing p (.reunlock w, s.count p) q =
        (.asleep w', s.count q) := by
      rw [Function.update_of_ne hqp, Table.standing, hasleep]
    have hmove' := total_update restOf (Function.update s.standing p (.reunlock w, s.count p)) q
      (.lock w', s.count q)
    have hrise := rest_lock w' (s.count q)
    rw [hq] at hmove'
    have hstanding : t.standing = Function.update (Function.update s.standing p
        (.reunlock w, s.count p)) q (.lock w', s.count q) := by
      have hmid : (s.goto p (.reunlock w)).standing =
          Function.update s.standing p (.reunlock w, s.count p) := standing_goto rfl rfl
      rw [← hmid]
      exact standing_goto (s := s.goto p (.reunlock w)) hpcs hcount
    rw [Table.rest, Table.rest, hstanding]
    omega

theorem rest_wakeUp (hn : s.wakeUp p = some t) :
    t.rest = s.rest + 2 ∧ ∃ w, s.pc p = .asleep w ∧
      t.standing = Function.update s.standing p (.lock w, s.count p) := by
  unfold Table.wakeUp at hn
  split at hn
  next w hpc =>
    obtain rfl := Option.some.inj hn
    have hstanding : (s.goto p (.lock w)).standing =
        Function.update s.standing p (.lock w, s.count p) := standing_goto rfl rfl
    have hp : s.standing p = (.asleep w, s.count p) := by rw [Table.standing, hpc]
    have hmove := total_update restOf s.standing p (.lock w, s.count p)
    have hrise := rest_lock w (s.count p)
    rw [hp] at hmove
    refine ⟨?_, w, hpc, hstanding⟩
    rw [Table.rest, Table.rest, hstanding]
    omega
  next => exact absurd hn (Option.some_ne_none t).symm

theorem Counted.standing (hs : Counted s) {n : ℕ}
    (ht : t.standing = Function.update s.standing p (c, n))
    (hc : (c = .done ∧ n = coursesToEat) ∨ (c ≠ .done ∧ n < coursesToEat)) : Counted t := by
  intro q
  have hq : (t.pc q, t.count q) = Function.update s.standing p (c, n) q := congrFun ht q
  rw [Function.update_apply] at hq
  split_ifs at hq with hqp
  · obtain ⟨hpc, hcount⟩ := Prod.mk.injEq .. ▸ hq
    rw [hpc, hcount]
    rcases hc with ⟨hdone, hn⟩ | ⟨hdone, hn⟩
    · exact ⟨fun _ => hn, fun hne => absurd hdone hne⟩
    · exact ⟨fun heq => absurd heq hdone, fun _ => hn⟩
  · obtain ⟨hpc, hcount⟩ := Prod.mk.injEq .. ▸ hq
    rw [hpc, hcount]
    exact hs q

theorem counted_start (m : ℕ) : Counted (dining m).init :=
  fun _ => ⟨fun h => Pc.noConfusion h, fun _ => Nat.succ_pos 9⟩

/-- A step lowers what is left by one at least, unless it is a spurious wake-up, which
adds two. -/
theorem Counted.next (hs : Counted s) {a : Action m} (hn : (dining m).next s a = some t) :
    Counted t ∧ t.rest + 1 ≤ s.rest + if a.spurious then 3 else 0 := by
  cases a with
  | run p =>
      obtain ⟨c, n, ht, hlt, hc⟩ := diningFunction_standing hs hn
      refine ⟨hs.standing ht hc, ?_⟩
      have hmove := total_update restOf s.standing p (c, n)
      rw [Table.rest, Table.rest, ht]
      show _ + 1 ≤ _ + 0
      omega
  | signal p woken =>
      refine ⟨?_, rest_signalCondition hn⟩
      obtain ⟨w, hpc, hcount, hpcs⟩ := signalCondition_standing hn
      have hlive : s.count p < coursesToEat := (hs p).2 (hpc ▸ Pc.noConfusion)
      have hmid : Counted (s.goto p (.reunlock w)) :=
        hs.standing (standing_goto rfl rfl) (Or.inr ⟨Pc.noConfusion, hlive⟩)
      rcases hpcs with hpcs | ⟨q, w', hqp, hasleep, hpcs⟩
      · exact hs.standing (standing_goto hpcs hcount) (Or.inr ⟨Pc.noConfusion, hlive⟩)
      · refine hmid.standing (standing_goto (s := s.goto p (.reunlock w)) hpcs hcount)
          (Or.inr ⟨Pc.noConfusion, (hs q).2 ?_⟩)
        rw [hasleep]
        exact Pc.noConfusion
  | wake p =>
      obtain ⟨hrest, w, hpc, ht⟩ := rest_wakeUp hn
      refine ⟨hs.standing ht (Or.inr ⟨Pc.noConfusion, (hs p).2 (hpc ▸ Pc.noConfusion)⟩), ?_⟩
      rw [hrest]
      exact le_rfl

/-! ## §3  Everybody has eaten -/

def wakeUps (tr : List (Table m × Action m)) : ℕ := tr.countP fun x => x.2.spurious

/-- **The dinner ends**: for any number of philosophers and from every reachable state,
in whatever order they go on, there are at most 210 steps for each of them and three for
each spurious wake-up; and where nobody can go on, every philosopher is done and has
eaten all its courses. -/
theorem dinner_ends {tr : List (Table m × Action m)} (h : (dining m).Run tr s)
    {tr' : List (Table m × Action m)} (h' : (dining m).Path s tr' t) :
    tr'.length ≤ 210 * (m + 2) + 3 * wakeUps tr' ∧
    (¬ CanStep t → ∀ p, t.pc p = .done ∧ t.count p = coursesToEat) := by
  have hs : Counted s := h.invariant (I := fun _ s => Counted s) (counted_start m)
    fun _ _ _ _ hs hn => (hs.next hn).1
  have hpath : Counted t ∧ tr'.length + t.rest ≤ s.rest + 3 * wakeUps tr' := by
    refine h'.invariant (I := fun tr' t => Counted t ∧
      tr'.length + t.rest ≤ s.rest + 3 * wakeUps tr') ⟨hs, by simp [wakeUps]⟩ ?_
    rintro tr' t a u ⟨ht, hle⟩ hn
    obtain ⟨hu, hrest⟩ := ht.next hn
    refine ⟨hu, ?_⟩
    have hwakes : wakeUps (tr' ++ [(t, a)]) = wakeUps tr' + if a.spurious then 1 else 0 := by
      rw [wakeUps, List.countP_append, List.countP_singleton]
      rfl
    rw [hwakes, List.length_append, List.length_singleton]
    split_ifs at hrest ⊢ <;> omega
  refine ⟨?_, fun hstuck p => ?_⟩
  · have hle := s.rest_le
    omega
  · have hrun := System.Path.trans h h'
    have hdone : t.pc p = .done := by
      by_contra hne
      exact hstuck ((run_sound hrun).canStep (run_awaited hrun) hne)
    exact ⟨hdone, (hpath.1 p).1 hdone⟩

/-- The first philosopher is eating, the second one has not begun. -/
theorem dinner_ends_two : ∃ tr s, (dining 0).Run tr s ∧ s.pc 0 = .eat ∧
    ∀ tr' t, (dining 0).Path s tr' t → tr'.length ≤ 420 + 3 * wakeUps tr' ∧
      (¬ CanStep t → ∀ p, t.pc p = .done ∧ t.count p = 10) := by
  have h := (dining 0).run_of_replay (List.replicate 8 (.run 0)) rfl
  exact ⟨_, _, h, rfl, fun _ _ h' => dinner_ends h h'⟩

end Sysopy.Philosophers
