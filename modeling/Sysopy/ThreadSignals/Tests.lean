import Mathlib.Data.Fin.Basic
import Mathlib.Logic.Function.Basic
import Sysopy.Foundation.System

/-!
# Signals to a process with threads

The program starts its threads, sends itself a signal in one of five ways, and waits for
threads that never end. What a signal does is decided for the process as a whole, by
whichever thread has called `signal` last; the threads of the fourth and the fifth test
make their calls themselves, and nothing keeps the signal from coming first.

The threads are created and joined without errors, and the signal is delivered at any
moment after it was sent.

## Sections

* §1 the process
* §2 one step
* §3 what decides about the signal
* §4 the outcome
-/

namespace Sysopy.ThreadSignals

open Sysopy.Foundation

/-! ## §1  The process -/

/-- What `get_signum` knows. -/
inductive Signum
  | sigusr1
  | sigterm
  | sigkill
  | sigstop
deriving DecidableEq

/-- `signal` refuses `SIGKILL` and `SIGSTOP`. -/
def Signum.catchable : Signum → Bool
  | .sigusr1 | .sigterm => true
  | .sigkill | .sigstop => false

inductive Testcase
  | one
  | two
  | three
  | four
  | five
  | wrong
deriving DecidableEq

inductive Disposition
  /-- `SIG_DFL` -/
  | default
  /-- `SIG_IGN` -/
  | ignored
  /-- `sig_handler` -/
  | handled
deriving DecidableEq

inductive Outcome
  | running
  | killed
  | stopped
  /-- ended by `error` -/
  | failed
  /-- `rand() % 0` -/
  | crashed
deriving DecidableEq

def Signum.defaultAction : Signum → Outcome
  | .sigstop => .stopped
  | _ => .killed

inductive MainPc
  /-- before `pthread_create` number `k` -/
  | create (k : ℕ)
  /-- at `switch (testcase_num)` -/
  | choose
  /-- before `kill` or `pthread_kill` -/
  | send
  /-- at `pthread_join` -/
  | join
deriving DecidableEq

/-- Where `thread_work_function` is. -/
inductive ThreadPc
  | absent
  /-- before its first call of `signal`, if there is one -/
  | first
  /-- before the call for `SIGTERM` -/
  | second
  /-- in the loops -/
  | working
deriving DecidableEq

structure Process (n : ℕ) where
  main : MainPc
  thread : Fin n → ThreadPc
  disposition : Signum → Disposition
  pending : Bool
  /-- the calls of `sig_handler` -/
  handlerCalls : ℕ
  outcome : Outcome

inductive Action (n : ℕ)
  | main
  | thread (i : Fin n)
  /-- the signal is delivered -/
  | deliver

/-! ## §2  One step -/

namespace Process

variable {n : ℕ}

/-- `signal`, which leaves `SIGKILL` and `SIGSTOP` alone. -/
def signal (s : Process n) (sig : Signum) (d : Disposition) : Process n :=
  if sig.catchable then { s with disposition := Function.update s.disposition sig d } else s

/-- `signal` in `main`, with the test of its result. -/
def mainSignal (s : Process n) (sig : Signum) (d : Disposition) : Process n :=
  if sig.catchable then { s.signal sig d with main := .send } else { s with outcome := .failed }

def mainStep (test : Testcase) (sig : Signum) (s : Process n) : Option (Process n) :=
  match s.main with
  | .create k =>
      if h : k < n then
        some { s with
          main := .create (k + 1), thread := Function.update s.thread ⟨k, h⟩ .first }
      else some { s with main := .choose }
  | .choose => some (match test with
      | .two => s.mainSignal sig .ignored
      | .three => s.mainSignal sig .handled
      | .wrong => { s with outcome := .failed }
      | _ => { s with main := .send })
  | .send =>
      if (test = .four ∨ test = .five) ∧ n = 0 then some { s with outcome := .crashed }
      else some { s with main := .join, pending := true }
  | .join => none

/-- One step of `thread_work_function` up to its loops. -/
def threadStep (test : Testcase) (sig : Signum) (s : Process n) (i : Fin n) :
    Option (Process n) :=
  let goto (s : Process n) (pc : ThreadPc) : Process n :=
    { s with thread := Function.update s.thread i pc }
  match s.thread i with
  | .absent => none
  | .first => some (match test with
      | .three | .five => goto (s.signal .sigusr1 .handled) .second
      | .four => goto (s.signal sig .ignored) .working
      | _ => goto s .working)
  | .second => some (goto (s.signal .sigterm .handled) .working)
  | .working => none

def deliver (sig : Signum) (s : Process n) : Option (Process n) :=
  if s.pending then
    let s := { s with pending := false }
    some (match s.disposition sig with
      | .default => { s with outcome := sig.defaultAction }
      | .ignored => s
      | .handled => { s with handlerCalls := s.handlerCalls + 1 })
  else none

end Process

/-- A run of the program with `n` threads. -/
def program (test : Testcase) (sig : Signum) (n : ℕ) : System (Process n) (Action n) where
  init :=
    { main := .create 0
      thread := fun _ => .absent
      disposition := fun _ => .default
      pending := false
      handlerCalls := 0
      outcome := .running }
  next s a :=
    if s.outcome = .running then
      match a with
      | .main => s.mainStep test sig
      | .thread i => s.threadStep test sig i
      | .deliver => s.deliver sig
    else none

/-! ## §3  What decides about the signal -/

/-- The thread has made its call of `signal` for the signal. -/
def ThreadPc.installs (test : Testcase) (sig : Signum) (pc : ThreadPc) : Bool :=
  match test, sig with
  | .three, .sigusr1 | .five, .sigusr1 => pc = .second ∨ pc = .working
  | .three, .sigterm | .five, .sigterm => pc = .working
  | .four, .sigusr1 | .four, .sigterm => pc = .working
  | _, _ => false

/-- `main` has made its call. -/
def MainPc.installs (test : Testcase) (sig : Signum) (pc : MainPc) : Bool :=
  match test with
  | .two | .three => sig.catchable && decide (pc = .send ∨ pc = .join)
  | _ => false

variable {test : Testcase} {sig : Signum} {n : ℕ} {s t : Process n} {a : Action n} {i : Fin n}

/-- Some thread or `main` has seen to the signal. -/
def Caught (test : Testcase) (sig : Signum) (s : Process n) : Prop :=
  s.main.installs test sig = true ∨ ∃ i, (s.thread i).installs test sig = true

/-- The disposition is the default one until somebody has seen to the signal; the threads
are created in order, and only in two tests do they call `signal` twice. -/
structure Disposed (test : Testcase) (sig : Signum) (s : Process n) : Prop where
  iff : s.disposition sig ≠ .default ↔ Caught test sig s
  absent : ∀ k, s.main = .create k → ∀ i : Fin n, k ≤ i → s.thread i = .absent
  second : ∀ i, s.thread i = .second → test = .three ∨ test = .five

theorem not_installs_absent : ThreadPc.installs test sig .absent = false := by
  cases test <;> cases sig <;> rfl

theorem not_installs_first : ThreadPc.installs test sig .first = false := by
  cases test <;> cases sig <;> rfl

theorem not_installs_create (k : ℕ) : MainPc.installs test sig (.create k) = false := by
  cases test <;> cases sig <;> rfl

theorem not_installs_choose : MainPc.installs test sig .choose = false := by
  cases test <;> cases sig <;> rfl

theorem caught_update {pc : ThreadPc} (hmain : t.main.installs test sig = s.main.installs test sig)
    (hthread : t.thread = Function.update s.thread i pc)
    (hpc : pc.installs test sig = (s.thread i).installs test sig) :
    Caught test sig t ↔ Caught test sig s := by
  have heq : ∀ j, (t.thread j).installs test sig = (s.thread j).installs test sig := by
    intro j
    rw [hthread, Function.update_apply]
    split_ifs with hj
    · rw [hj, hpc]
    · rfl
  simp only [Caught, hmain, heq]

theorem caught_of_installs {pc : ThreadPc} (hthread : t.thread = Function.update s.thread i pc)
    (hpc : pc.installs test sig = true) : Caught test sig t :=
  Or.inr ⟨i, by rw [hthread, Function.update_self, hpc]⟩

theorem second_update {pc : ThreadPc} (hs : Disposed test sig s)
    (hpc : pc = .second → test = .three ∨ test = .five) {j : Fin n}
    (hj : Function.update s.thread i pc j = .second) : test = .three ∨ test = .five := by
  rw [Function.update_apply] at hj
  split_ifs at hj
  · exact hpc hj
  · exact hs.second j hj

theorem Disposed.congr (hs : Disposed test sig s) (hmain : t.main = s.main)
    (hthread : t.thread = s.thread) (hdisposition : t.disposition = s.disposition) :
    Disposed test sig t where
  iff := by
    rw [hdisposition, Caught, hmain, hthread]
    exact hs.iff
  absent := by
    rw [hmain, hthread]
    exact hs.absent
  second := by
    rw [hthread]
    exact hs.second

theorem Disposed.mainStep (hs : Disposed test sig s) (hn : s.mainStep test sig = some t) :
    Disposed test sig t := by
  unfold Process.mainStep at hn
  cases hpc : s.main with
  | create k =>
      simp only [hpc] at hn
      split_ifs at hn with hk
      · obtain rfl := Option.some.inj hn
        have habsent := hs.absent k hpc ⟨k, hk⟩ le_rfl
        refine ⟨hs.iff.trans (caught_update ?_ rfl ?_).symm, ?_, fun j hj => ?_⟩
        · rw [hpc, not_installs_create, not_installs_create]
        · rw [habsent, not_installs_absent, not_installs_first]
        · rintro k' hk' j hj
          obtain rfl := MainPc.create.inj hk'
          have hne : j ≠ ⟨k, hk⟩ := by
            rintro rfl
            exact absurd hj (Nat.not_succ_le_self k)
          exact (Function.update_of_ne hne ..).trans
            (hs.absent k hpc j ((Nat.le_succ k).trans hj))
        · exact second_update hs ThreadPc.noConfusion hj
      · obtain rfl := Option.some.inj hn
        refine ⟨hs.iff.trans ?_, fun _ h => MainPc.noConfusion h, hs.second⟩
        simp only [Caught, hpc, not_installs_create, not_installs_choose]
  | choose =>
      simp only [hpc, Option.some.injEq] at hn
      subst hn
      -- who does not call `signal` or is refused changes nothing
      have hkeep : ∀ pc, (∀ k, pc ≠ .create k) →
          pc.installs test sig = MainPc.installs test sig .choose →
          Disposed test sig { s with main := pc } := by
        intro pc hcreate hinstalls
        refine ⟨hs.iff.trans ?_, fun k h => absurd h (hcreate k), hs.second⟩
        simp only [Caught, hpc, hinstalls]
      have hcall : ∀ d, d ≠ .default → (test = .two ∨ test = .three) →
          Disposed test sig (s.mainSignal sig d) := by
        intro d hd htest
        unfold Process.mainSignal Process.signal
        split_ifs with hcatch
        · refine ⟨iff_of_true ?_ (Or.inl ?_), fun _ h => MainPc.noConfusion h, hs.second⟩
          · simpa using hd
          · rcases htest with rfl | rfl <;> simp [MainPc.installs, hcatch]
        · exact hs.congr rfl rfl rfl
      cases test with
      | one | four | five => exact hkeep .send (fun _ => MainPc.noConfusion) rfl
      | two => exact hcall .ignored Disposition.noConfusion (Or.inl rfl)
      | three => exact hcall .handled Disposition.noConfusion (Or.inr rfl)
      | wrong => exact hs.congr hpc.symm rfl rfl
  | send =>
      simp only [hpc] at hn
      split_ifs at hn
      · obtain rfl := Option.some.inj hn
        exact hs.congr hpc.symm rfl rfl
      · obtain rfl := Option.some.inj hn
        have hsame : MainPc.installs test sig .join = MainPc.installs test sig .send := by
          cases test <;> cases sig <;> rfl
        refine ⟨hs.iff.trans ?_, fun _ h => MainPc.noConfusion h, hs.second⟩
        simp only [Caught, hpc, hsame]
  | join => simp [hpc] at hn

theorem Disposed.call (hs : Disposed test sig s) (hpc : s.thread i ≠ .absent)
    (sig' : Signum) {d : Disposition} (hd : d ≠ .default) {pc : ThreadPc}
    (hsecond : pc = .second → test = .three ∨ test = .five)
    (hcatch : sig'.catchable = true → sig' = sig → pc.installs test sig = true)
    (hother : sig'.catchable = false ∨ sig' ≠ sig →
      pc.installs test sig = (s.thread i).installs test sig)
    (ht : t = { s.signal sig' d with thread := Function.update s.thread i pc }) :
    Disposed test sig t := by
  have hmain : (s.signal sig' d).main = s.main := by
    unfold Process.signal
    split_ifs <;> rfl
  subst ht
  refine ⟨?_, fun k hk j hj => ?_, fun j hj => second_update hs hsecond hj⟩
  · by_cases hset : sig'.catchable = true ∧ sig' = sig
    · obtain ⟨hc, rfl⟩ := hset
      refine iff_of_true ?_ (caught_of_installs rfl (hcatch hc rfl))
      simpa [Process.signal, hc] using hd
    · have hdisposition : (s.signal sig' d).disposition sig = s.disposition sig := by
        unfold Process.signal
        split_ifs with hc
        · exact Function.update_of_ne (fun heq => hset ⟨hc, heq.symm⟩) ..
        · rfl
      have hkeep : sig'.catchable = false ∨ sig' ≠ sig := by
        by_cases hc : sig'.catchable = true
        · exact Or.inr fun heq => hset ⟨hc, heq⟩
        · exact Or.inl (Bool.eq_false_iff.mpr hc)
      dsimp only
      rw [hdisposition]
      refine hs.iff.trans (Iff.symm ?_)
      exact caught_update (congrArg (MainPc.installs test sig) hmain) rfl (hother hkeep)
  · have hne : j ≠ i := by
      rintro rfl
      exact hpc (hs.absent k (hmain.symm.trans hk) j hj)
    exact (Function.update_of_ne hne ..).trans (hs.absent k (hmain.symm.trans hk) j hj)

theorem Disposed.threadStep (hs : Disposed test sig s) (hn : s.threadStep test sig i = some t) :
    Disposed test sig t := by
  unfold Process.threadStep at hn
  have hthread : ∀ {sig' d}, (s.signal sig' d).thread = s.thread := by
    intro sig' d
    unfold Process.signal
    split_ifs <;> rfl
  cases hpc : s.thread i with
  | absent => simp [hpc] at hn
  | working => simp [hpc] at hn
  | first =>
      simp only [hpc, Option.some.injEq, hthread] at hn
      have hnot : s.thread i ≠ .absent := hpc ▸ ThreadPc.noConfusion
      -- in two tests the thread makes no call
      have hsilent : ThreadPc.installs test sig .working = false → Disposed test sig
          { s with thread := Function.update s.thread i .working } := by
        intro hinstalls
        have hd : Disposition.ignored ≠ .default := Disposition.noConfusion
        refine hs.call hnot .sigkill hd ThreadPc.noConfusion (fun h => Bool.noConfusion h)
          (fun _ => ?_) rfl
        rw [hpc, hinstalls, not_installs_first]
      cases test with
      | one | two | wrong =>
          subst hn
          exact hsilent (by cases sig <;> rfl)
      | four =>
          refine hs.call hnot _ Disposition.noConfusion ThreadPc.noConfusion ?_ ?_ hn.symm
          · intro hc _
            cases sig <;> first | rfl | exact Bool.noConfusion hc
          · rintro (hc | hne)
            · rw [hpc]
              cases sig <;> first | rfl | exact Bool.noConfusion hc
            · exact absurd rfl hne
      | three | five =>
          refine hs.call hnot _ Disposition.noConfusion (by simp) ?_ ?_ hn.symm
          · rintro - rfl
            rfl
          · rintro (hc | hne)
            · exact Bool.noConfusion hc
            · rw [hpc]
              cases sig <;> first | rfl | exact absurd rfl hne
  | second =>
      simp only [hpc, Option.some.injEq, hthread] at hn
      refine hs.call (hpc ▸ ThreadPc.noConfusion) _ Disposition.noConfusion
        ThreadPc.noConfusion ?_ ?_ hn.symm
      · rintro - rfl
        rcases hs.second i hpc with rfl | rfl <;> rfl
      · rintro (hc | hne)
        · exact Bool.noConfusion hc
        · rw [hpc]
          rcases hs.second i hpc with rfl | rfl <;> cases sig <;>
            first | rfl | exact absurd rfl hne

theorem Disposed.deliver (hs : Disposed test sig s) (hn : s.deliver sig = some t) :
    Disposed test sig t := by
  unfold Process.deliver at hn
  split_ifs at hn
  obtain rfl := Option.some.inj hn
  cases s.disposition sig <;> exact hs.congr rfl rfl rfl

theorem Disposed.next (hs : Disposed test sig s) (hn : (program test sig n).next s a = some t) :
    Disposed test sig t := by
  simp only [program] at hn
  split_ifs at hn
  cases a with
  | main => exact hs.mainStep hn
  | thread i => exact hs.threadStep hn
  | deliver => exact hs.deliver hn

/-! ## §4  The outcome -/

/-- The signal finds that somebody has seen to it. -/
def deliveries (sig : Signum) (s : Process n) : Action n → List Bool
  | .deliver => [decide (s.disposition sig ≠ .default)]
  | _ => []

/-- `main` has got to `kill`. -/
def Sends (test : Testcase) (sig : Signum) : Prop :=
  test ≠ .wrong ∧ (test = .two ∨ test = .three → sig.catchable = true)

/-- How far the program is: the outcome, and what the signal has found. -/
inductive Phase (test : Testcase) (sig : Signum) (s : Process n) : List Bool → Prop
  | before : s.outcome = .running → s.pending = false → s.main ≠ .join →
      (s.main = .send → Sends test sig) → Phase test sig s []
  | sent : s.outcome = .running → s.pending = true → s.main = .join → Sends test sig →
      Phase test sig s []
  | survived : s.outcome = .running → s.pending = false → s.main = .join → Sends test sig →
      Phase test sig s [true]
  | died : s.outcome = sig.defaultAction → Sends test sig → Phase test sig s [false]
  | failed : s.outcome = .failed → ¬ Sends test sig → Phase test sig s []
  | crashed : s.outcome = .crashed → n = 0 → Phase test sig s []

theorem Phase.congr {h : List Bool} (hs : Phase test sig s h) (hmain : t.main = s.main)
    (hpending : t.pending = s.pending) (houtcome : t.outcome = s.outcome) :
    Phase test sig t h := by
  cases hs with
  | before h1 h2 h3 h4 =>
      exact .before (houtcome.trans h1) (hpending.trans h2) (hmain ▸ h3) (hmain ▸ h4)
  | sent h1 h2 h3 h4 =>
      exact .sent (houtcome.trans h1) (hpending.trans h2) (hmain.trans h3) h4
  | survived h1 h2 h3 h4 =>
      exact .survived (houtcome.trans h1) (hpending.trans h2) (hmain.trans h3) h4
  | died h1 h2 => exact .died (houtcome.trans h1) h2
  | failed h1 h2 => exact .failed (houtcome.trans h1) h2
  | crashed h1 h2 => exact .crashed (houtcome.trans h1) h2

/-- `switch (testcase_num)` -/
theorem phase_mainSignal (hrun : s.outcome = .running) (hpending : s.pending = false)
    (htest : test = .two ∨ test = .three) (d : Disposition) :
    Phase test sig (s.mainSignal sig d) [] := by
  have hwrong : test ≠ .wrong := by
    rintro rfl
    rcases htest with h | h <;> exact Testcase.noConfusion h
  unfold Process.mainSignal Process.signal
  split_ifs with hcatch
  · exact .before hrun hpending MainPc.noConfusion fun _ => ⟨hwrong, fun _ => hcatch⟩
  · exact .failed rfl fun hsends => hcatch (hsends.2 htest)

theorem Phase.mainStep {h : List Bool} (hs : Phase test sig s h) (hrun : s.outcome = .running)
    (hn : s.mainStep test sig = some t) : Phase test sig t h := by
  have hearly : s.main ≠ .join → h = [] ∧ s.pending = false ∧
      (s.main = .send → Sends test sig) := by
    intro hmain
    cases hs with
    | before _ h2 _ h4 => exact ⟨rfl, h2, h4⟩
    | sent _ _ h3 _ => exact absurd h3 hmain
    | survived _ _ h3 _ => exact absurd h3 hmain
    | died h1 _ => cases sig <;> exact Outcome.noConfusion (hrun.symm.trans h1)
    | failed h1 _ => exact Outcome.noConfusion (hrun.symm.trans h1)
    | crashed h1 _ => exact Outcome.noConfusion (hrun.symm.trans h1)
  unfold Process.mainStep at hn
  cases hpc : s.main with
  | create k =>
      obtain ⟨rfl, hpending, -⟩ := hearly (hpc ▸ MainPc.noConfusion)
      simp only [hpc] at hn
      split_ifs at hn
      all_goals
        obtain rfl := Option.some.inj hn
        exact .before hrun hpending MainPc.noConfusion MainPc.noConfusion
  | choose =>
      obtain ⟨rfl, hpending, -⟩ := hearly (hpc ▸ MainPc.noConfusion)
      simp only [hpc, Option.some.injEq] at hn
      cases test with
      | one | four | five =>
          subst hn
          refine .before hrun hpending MainPc.noConfusion fun _ => ⟨Testcase.noConfusion, ?_⟩
          rintro (h | h) <;> exact Testcase.noConfusion h
      | two =>
          subst hn
          exact phase_mainSignal hrun hpending (Or.inl rfl) _
      | three =>
          subst hn
          exact phase_mainSignal hrun hpending (Or.inr rfl) _
      | wrong =>
          subst hn
          exact .failed rfl fun hsends => hsends.1 rfl
  | send =>
      obtain ⟨rfl, hpending, hsends⟩ := hearly (hpc ▸ MainPc.noConfusion)
      simp only [hpc] at hn
      split_ifs at hn with hzero
      · obtain rfl := Option.some.inj hn
        exact .crashed rfl hzero.2
      · obtain rfl := Option.some.inj hn
        exact .sent hrun rfl rfl (hsends hpc)
  | join => simp [hpc] at hn

theorem Phase.deliver {h : List Bool} (hs : Phase test sig s h) (hrun : s.outcome = .running)
    (hn : s.deliver sig = some t) :
    s.main = .join ∧ Phase test sig t (h ++ deliveries sig s .deliver) := by
  unfold Process.deliver at hn
  split_ifs at hn with hpending
  obtain rfl := Option.some.inj hn
  cases hs with
  | before _ h2 => exact absurd (h2.symm.trans hpending) Bool.false_ne_true
  | survived _ h2 => exact absurd (h2.symm.trans hpending) Bool.false_ne_true
  | died h1 _ => cases sig <;> exact Outcome.noConfusion (hrun.symm.trans h1)
  | failed h1 _ => exact Outcome.noConfusion (hrun.symm.trans h1)
  | crashed h1 _ => exact Outcome.noConfusion (hrun.symm.trans h1)
  | sent _ _ h3 h4 =>
      refine ⟨h3, ?_⟩
      rw [List.nil_append, deliveries]
      cases hd : s.disposition sig with
      | default => exact .died rfl h4
      | ignored => exact .survived hrun rfl h3 h4
      | handled => exact .survived hrun rfl h3 h4

/-- The history of a run: what the signal has found, and who had seen to it. -/
structure Told (test : Testcase) (sig : Signum) (tr : List (Process n × Action n))
    (s : Process n) : Prop where
  disposed : Disposed test sig s
  phase : Phase test sig s (observe (deliveries sig) tr)
  delivered : ∀ x ∈ tr, x.2 = .deliver → Disposed test sig x.1 ∧ x.1.main = .join

theorem Told.next {tr : List (Process n × Action n)} (hs : Told test sig tr s)
    (hn : (program test sig n).next s a = some t) : Told test sig (tr ++ [(s, a)]) t := by
  have hdisposed := hs.disposed.next hn
  simp only [program] at hn
  split_ifs at hn with hrun
  refine ⟨hdisposed, ?_, ?_⟩
  · rw [observe_snoc]
    cases a with
    | main => exact (List.append_nil (observe (deliveries sig) tr)).symm ▸ hs.phase.mainStep hrun hn
    | thread i =>
        have hsame : t.main = s.main ∧ t.pending = s.pending ∧ t.outcome = s.outcome := by
          have hsignal : ∀ {sig' d}, (s.signal sig' d).main = s.main ∧
              (s.signal sig' d).pending = s.pending ∧ (s.signal sig' d).outcome = s.outcome := by
            intro sig' d
            unfold Process.signal
            split_ifs <;> exact ⟨rfl, rfl, rfl⟩
          simp only [Process.threadStep] at hn
          cases hpc : s.thread i with
          | absent => simp [hpc] at hn
          | working => simp [hpc] at hn
          | second =>
              simp only [hpc, Option.some.injEq] at hn
              subst hn
              exact hsignal
          | first =>
              simp only [hpc, Option.some.injEq] at hn
              cases test <;> subst hn <;> first | exact hsignal | exact ⟨rfl, rfl, rfl⟩
        obtain ⟨hmain, hpending, houtcome⟩ := hsame
        exact (List.append_nil (observe (deliveries sig) tr)).symm ▸
          hs.phase.congr hmain hpending houtcome
    | deliver => exact (hs.phase.deliver hrun hn).2
  · rw [List.forall_mem_append, List.forall_mem_singleton]
    refine ⟨hs.delivered, ?_⟩
    rintro rfl
    exact ⟨hs.disposed, (hs.phase.deliver hrun hn).1⟩

end Sysopy.ThreadSignals
