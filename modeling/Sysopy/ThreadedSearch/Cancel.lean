import Mathlib.Data.Fintype.Basic
import Sysopy.ThreadedSearch.Batches

/-!
# Cancelled searchers and the mutex

A cancellation that acts on the owner of `read_protect_mutex` leaves the mutex
locked. The thread that asked for it has found a record and does not lock again, so
it takes a third thread that is still looking to be blocked for good.

## Sections

* §1 who owns the mutex
* §2 nobody waits for a thread that has ended
* §3 two threads
-/

namespace Sysopy.ThreadedSearch

open Sysopy.Foundation

variable {N M : ℕ} {c : Setup N M} {s t : Search N M} {p q : Fin N}
  {tr : List (Search N M × Action N)}

/-- A thread waits for a mutex whose owner has ended. -/
def Wedged (s : Search N M) : Prop :=
  ∃ p q, s.readProtectMutex = some p ∧ (s.thread p).pc.ended = true ∧ q ≠ p ∧
    (s.thread q).pc = .lock

/-- The thread has ended or will end after its batch. -/
def Search.Leaving (s : Search N M) (p : Fin N) : Prop :=
  (s.thread p).pc.ended = true ∨ (s.thread p).shouldLoop = false

instance (s : Search N M) (p : Fin N) : Decidable (s.Leaving p) :=
  inferInstanceAs (Decidable (_ ∨ _))

/-- When a cancellation acts on the owner of the mutex, all other threads are leaving. -/
def SafeStep (s : Search N M) : Action N → Prop
  | .run _ => True
  | .act p => s.readProtectMutex = some p → ∀ q, q ≠ p → s.Leaving q

instance (s : Search N M) (a : Action N) : Decidable (SafeStep s a) :=
  match a with
  | .run _ => inferInstanceAs (Decidable True)
  | .act p =>
      inferInstanceAs (Decidable (s.readProtectMutex = some p → ∀ q, q ≠ p → s.Leaving q))

/-! ## §1  Who owns the mutex -/

/-- The thread is between `pthread_mutex_lock` and `pthread_mutex_unlock`. -/
def Pc.inside : Pc M → Bool
  | .read | .unlock _ => true
  | _ => false

/-- A thread gets the mutex, or gives it back, or it stays as it is and nobody leaves
the critical section. -/
theorem Search.mutex_run (hn : s.threadWorkFunction c p = some t) :
    t.readProtectMutex = none ∨
    (t.readProtectMutex = some p ∧ (t.thread p).pc.inside = true) ∨
    (t.readProtectMutex = s.readProtectMutex ∧
      ((s.thread p).pc.inside = true → (t.thread p).pc.inside = true)) := by
  cases threadStep hn with
  | lock hpc =>
      refine Or.inr (Or.inl ⟨rfl, ?_⟩)
      simp only [Search.goto_thread_self]
      rfl
  | read hpc =>
      refine Or.inr (Or.inr ⟨rfl, fun _ => ?_⟩)
      rw [Search.read_thread_self]
      rfl
  | unlock n hpc => exact Or.inl rfl
  | start hpc => exact Or.inr (Or.inr ⟨rfl, fun h => Bool.noConfusion (hpc ▸ h)⟩)
  | testcancel n hpc => exact Or.inr (Or.inr ⟨rfl, fun h => Bool.noConfusion (hpc ▸ h)⟩)
  | word i hpc => exact Or.inr (Or.inr ⟨rfl, fun h => Bool.noConfusion (hpc ▸ h)⟩)
  | noWord i hpc => exact Or.inr (Or.inr ⟨rfl, fun h => Bool.noConfusion (hpc ▸ h)⟩)
  | again k hpc => exact Or.inr (Or.inr ⟨rfl, fun h => Bool.noConfusion (hpc ▸ h)⟩)
  | stop k hpc => exact Or.inr (Or.inr ⟨rfl, fun h => Bool.noConfusion (hpc ▸ h)⟩)
  | report i hpc => exact Or.inr (Or.inr ⟨rfl, fun h => Bool.noConfusion (hpc ▸ h)⟩)
  | itself i hpc => exact Or.inr (Or.inr ⟨rfl, fun h => Bool.noConfusion (hpc ▸ h)⟩)
  | other i r hpc => exact Or.inr (Or.inr ⟨rfl, fun h => Bool.noConfusion (hpc ▸ h)⟩)
  | back i j hpc => exact Or.inr (Or.inr ⟨rfl, fun h => Bool.noConfusion (hpc ▸ h)⟩)

theorem shouldLoop_of_next {a : Action N} (hn : (search c).next s a = some t)
    (h : (t.thread q).shouldLoop = true) : (s.thread q).shouldLoop = true := by
  by_cases hq : q = a.thread
  · subst hq
    rcases next_cases hn with ⟨hquiet, -, -⟩ | ⟨p, rfl, -, rfl⟩ | ⟨p, i, rfl, -, rfl⟩
    · exact hquiet.loops h
    · rwa [show Action.thread (.run p) = p from rfl, Search.read_thread_self] at h
    · rw [show Action.thread (.run p) = p from rfl, Search.set_thread_self] at h
      exact Bool.noConfusion h
  · rwa [next_thread_of_ne hn hq] at h

theorem leaving_next {a : Action N} (hn : (search c).next s a = some t) (h : s.Leaving q) :
    t.Leaving q := by
  rcases h with hended | hloop
  · have hq : q ≠ a.thread := by
      rintro rfl
      rw [ended_eq_false hn] at hended
      exact Bool.noConfusion hended
    refine Or.inl ?_
    rwa [next_thread_of_ne hn hq]
  · refine Or.inr ?_
    by_contra hne
    rw [Bool.not_eq_false] at hne
    exact Bool.noConfusion (hloop.symm.trans (shouldLoop_of_next hn hne))

/-! ## §2  Nobody waits for a thread that has ended -/

/-- The owner of the mutex is in the critical section, or it was cancelled there and
all others are leaving. -/
def Guarded (s : Search N M) : Prop :=
  ∀ p, s.readProtectMutex = some p →
    (s.thread p).pc.inside = true ∨
      (s.thread p).pc.ended = true ∧ ∀ q, q ≠ p → s.Leaving q

theorem Guarded.next (hs : Guarded s) {a : Action N} (hsafe : SafeStep s a)
    (hn : (search c).next s a = some t) : Guarded t := by
  -- a thread that does not take this step stays as it is
  have hother : ∀ p, s.readProtectMutex = some p → p ≠ a.thread →
      (t.thread p).pc.inside = true ∨
        (t.thread p).pc.ended = true ∧ ∀ q, q ≠ p → t.Leaving q := by
    intro p hp hne
    rw [next_thread_of_ne hn hne]
    exact (hs p hp).imp_right fun h => ⟨h.1, fun q hq => leaving_next hn (h.2 q hq)⟩
  intro p hp
  cases a with
  | run r =>
      rcases Search.mutex_run hn with hnone | ⟨hr, hin⟩ | ⟨hsame, hin⟩
      · exact absurd (hnone.symm.trans hp) (Option.some_ne_none p).symm
      · obtain rfl := Option.some.inj (hr.symm.trans hp)
        exact Or.inl hin
      · rw [hsame] at hp
        by_cases hpr : p = r
        · subst hpr
          refine Or.inl (hin ?_)
          rcases hs p hp with h | ⟨h, -⟩
          · exact h
          · exact Bool.noConfusion ((ended_eq_false hn).symm.trans h)
        · exact hother p hp hpr
  | act r =>
      obtain ⟨rfl, -⟩ := actCancel_eq_some hn
      by_cases hpr : p = r
      · subst hpr
        refine Or.inr ⟨?_, fun q hq => leaving_next hn (hsafe hp q hq)⟩
        rw [Search.goto_thread_self]
        rfl
      · exact hother p hp hpr

/-- **Cancelling the other searchers never wedges the program**, for any number of
threads and in every interleaving of each variant, as long as no cancellation acts on
the owner of the mutex while another thread is still looking. -/
theorem safe_cancel_never_wedges (h : (search c).Run tr s)
    (hsafe : ∀ x ∈ tr, SafeStep x.1 x.2) : ¬Wedged s := by
  have hguarded := h.invariant_of_steps (I := fun _ s => Guarded s) hsafe
    (fun p hp => absurd hp.symm (Option.some_ne_none p)) fun _ _ _ _ hs ha hn => hs.next ha hn
  rintro ⟨p, q, hp, hended, hq, hlock⟩
  rcases hguarded p hp with hin | ⟨-, hleaving⟩
  · cases hpc : (s.thread p).pc <;> rw [hpc] at hin hended <;>
      first | exact Bool.noConfusion hin | exact Bool.noConfusion hended
  · rcases hleaving q hq with hgone | hstop
    · rw [hlock] at hgone
      exact Bool.noConfusion hgone
    · have hloop := run_looping h q true (by rw [hlock]; rfl)
      exact Bool.noConfusion (hstop.symm.trans hloop)

/-- Thread 0 reads the record, thread 1 gets the mutex, thread 2 is about to lock it;
then thread 0 reports the record and cancels thread 1. -/
def wedging : List (Action 3) :=
  List.replicate 6 (.run 0) ++ [.run 1, .run 1, .run 2] ++ List.replicate 3 (.run 0) ++ [.act 1]

/-- In zad1b and in zad1a three threads are enough to wedge the program. -/
theorem cancelled_owner_wedges :
    (∃ tr s, (search (oneRecord .deferred)).Run tr s ∧ Wedged s) ∧
    ∃ tr s, (search (oneRecord .asynchronous)).Run tr s ∧ Wedged s := by
  constructor
  · have h := (search (oneRecord .deferred)).run_of_replay wedging rfl
    exact ⟨_, _, h, 1, 2, rfl, rfl, by decide, rfl⟩
  · have h := (search (oneRecord .asynchronous)).run_of_replay wedging rfl
    exact ⟨_, _, h, 1, 2, rfl, rfl, by decide, rfl⟩

/-- The finder is cancelled by nobody and the others while they test their places. -/
theorem safe_cancel_never_wedges_two : ∃ tr s,
    (search (.threeRecords .deferred)).Run tr s ∧ ¬Wedged s := by
  have h := (search (.threeRecords .deferred)).run_of_replay
    (List.replicate 11 (.run 0) ++ [.run 1, .run 1, .act 1]) rfl
  obtain ⟨tr, s, h, hsafe⟩ : ∃ tr s, (search (.threeRecords .deferred)).Run tr s ∧
      ∀ x ∈ tr, SafeStep x.1 x.2 := ⟨_, _, h, by decide⟩
  exact ⟨tr, s, h, safe_cancel_never_wedges h hsafe⟩

/-! ## §3  Two threads -/

/-- Who is to be cancelled has another thread that found a record. -/
def Asked (s : Search N M) : Prop :=
  ∀ p, s.pending p = true → ∃ q, q ≠ p ∧ (s.thread q).shouldLoop = false

/-- Only the loop over the threads asks for a cancellation. -/
theorem pending_next {a : Action N} (hn : (search c).next s a = some t)
    (h : t.pending q = true) : s.pending q = true ∨
      q ≠ a.thread ∧ ∃ i j, (s.thread a.thread).pc = .cancel i j := by
  cases a with
  | act p =>
      obtain ⟨rfl, -⟩ := actCancel_eq_some hn
      exact Or.inl h
  | run p =>
      cases threadStep hn with
      | other k r hpc hne =>
          by_cases hq : q = r
          · subst hq
            exact Or.inr ⟨hne, k, q, hpc⟩
          · exact Or.inl ((Function.update_of_ne hq ..).symm.trans h)
      | _ => exact Or.inl h

theorem Asked.next (hs : Asked s) (hloop : Looping s) {a : Action N}
    (hn : (search c).next s a = some t) : Asked t := by
  have hstays : ∀ q, (s.thread q).shouldLoop = false → (t.thread q).shouldLoop = false := by
    intro q hq
    by_contra hne
    rw [Bool.not_eq_false] at hne
    exact Bool.noConfusion (hq.symm.trans (shouldLoop_of_next hn hne))
  intro p hp
  rcases pending_next hn hp with hold | ⟨hne, i, j, hpc⟩
  · obtain ⟨q, hq, hfound⟩ := hs p hold
    exact ⟨q, hq, hstays q hfound⟩
  · exact ⟨a.thread, hne.symm, hstays _ (hloop _ false (by rw [hpc]; rfl))⟩

theorem run_asked (h : (search c).Run tr s) : Looping s ∧ Asked s :=
  h.invariant (I := fun _ s => Looping s ∧ Asked s)
    ⟨looping_init, fun _ hp => Bool.noConfusion hp⟩
    fun _ _ _ _ hs hn => ⟨hs.1.next hn, hs.2.next hs.1 hn⟩

/-- **Two threads never wedge**: the only other thread is the one that found a record. -/
theorem two_never_wedge {c : Setup N M} (hN : N ≤ 2) (h : (search c).Run tr s) :
    ¬Wedged s := by
  refine safe_cancel_never_wedges h fun x hx => ?_
  obtain ⟨pre, u, hpath, hn⟩ := h.of_mem hx
  have hasked := (run_asked hpath).2
  rcases x with ⟨v, a⟩
  cases a with
  | run p => trivial
  | act p =>
      obtain ⟨-, hact⟩ := actCancel_eq_some hn
      obtain ⟨r, hr, hfound⟩ := hasked p hact.1
      intro _ q hq
      have hqr : q = r := by
        apply Fin.ext
        have hqp := Fin.val_ne_of_ne hq
        have hrp := Fin.val_ne_of_ne hr
        omega
      exact Or.inr (hqr ▸ hfound)

end Sysopy.ThreadedSearch
