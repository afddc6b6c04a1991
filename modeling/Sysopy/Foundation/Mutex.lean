import Mathlib.Logic.Function.Basic
import Mathlib.Tactic.TypeStar

/-!
# Mutexes and the code they protect

`mutex f` is the thread that owns mutex `f`, and `inside p` the mutex whose
critical section thread `p` is in, as its program counter says. The two agree in
every state of a program in which each thread locks and unlocks in pairs and is in
one critical section at a time.
-/

namespace Sysopy.Foundation

variable {F P : Type*}

/-- The owner of a mutex is the thread in its critical section. -/
def Owned (mutex : F → Option P) (inside : P → Option F) : Prop :=
  ∀ f p, mutex f = some p ↔ inside p = some f

namespace Owned

variable {mutex : F → Option P} {inside : P → Option F} {f : F} {p q : P}

theorem unowned : Owned (fun _ : F => none) (fun _ : P => none) :=
  fun _ _ => ⟨fun h => absurd h.symm (Option.some_ne_none _),
    fun h => absurd h.symm (Option.some_ne_none _)⟩

/-- **Mutual exclusion**: two threads are not in one critical section. -/
theorem unique (h : Owned mutex inside) (hp : inside p = some f) (hq : inside q = some f) :
    p = q :=
  Option.some.inj (((h f p).mpr hp).symm.trans ((h f q).mpr hq))

theorem eq_none (h : Owned mutex inside) (hf : ∀ p, inside p ≠ some f) : mutex f = none := by
  by_contra hne
  obtain ⟨p, hp⟩ := Option.ne_none_iff_exists'.mp hne
  exact hf p ((h f p).mp hp)

/-- A thread that is in no critical section enters that of a free mutex. -/
theorem lock [DecidableEq F] [DecidableEq P] (h : Owned mutex inside) (hf : mutex f = none)
    (hp : inside p = none) :
    Owned (Function.update mutex f (some p)) (Function.update inside p (some f)) := by
  intro g r
  by_cases hg : g = f
  · subst hg
    by_cases hr : r = p
    · subst hr
      simp
    · have hno : inside r ≠ some g := fun hin =>
        absurd ((h g r).mpr hin) (hf ▸ (Option.some_ne_none r).symm)
      simp [hno, eq_comm (a := p), hr]
  · by_cases hr : r = p
    · subst hr
      have hno : mutex g ≠ some r := fun hin =>
        absurd ((h g r).mp hin) (hp ▸ (Option.some_ne_none g).symm)
      simp [hno, eq_comm (a := f), hg]
    · simpa [Function.update_of_ne hg, Function.update_of_ne hr] using h g r

theorem unlock [DecidableEq F] [DecidableEq P] (h : Owned mutex inside)
    (hp : inside p = some f) :
    Owned (Function.update mutex f none) (Function.update inside p none) := by
  intro g r
  by_cases hg : g = f
  · subst hg
    by_cases hr : r = p
    · subst hr
      simp
    · have hno : inside r ≠ some g := fun hin => hr (h.unique hin hp)
      simp [Function.update_of_ne hr, hno]
  · by_cases hr : r = p
    · subst hr
      have hno : mutex g ≠ some r := fun hin =>
        hg (Option.some.inj (((h g r).mp hin).symm.trans hp))
      simp [Function.update_of_ne hg, hno]
    · simpa [Function.update_of_ne hg, Function.update_of_ne hr] using h g r

end Owned

end Sysopy.Foundation
