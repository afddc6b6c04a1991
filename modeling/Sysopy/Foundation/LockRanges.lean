import Mathlib.Data.Int.LeastGreatest
import Mathlib.Order.Interval.Set.UnorderedInterval
import Sysopy.Foundation.RecordLocks

/-!
# Ranges of record locks

The kernel keeps the locks of a process that have one type and lie side by side as one
lock, and it names that whole lock when it is asked what is in the way. Where the locks
of several processes are in the way it names one of them, and which one is its choice.

## Sections

* §1 stretches of equal bytes
* §2 merged locks
* §3 what is in the way of a write lock
-/

namespace Sysopy.Foundation

/-! ## §1  Stretches of equal bytes -/

/-- From one byte to the other nothing changes. -/
def Joined {α : Type*} (f : ℤ → α) (m n : ℤ) : Prop := ∀ k ∈ Set.uIcc m n, f k = f n

theorem Joined.eq {α : Type*} {f : ℤ → α} {m n : ℤ} (h : Joined f m n) : f m = f n :=
  h m Set.left_mem_uIcc

/-- A value that stops somewhere on each side is there on a longest stretch. -/
theorem exists_stretch {α : Type*} {f : ℤ → α} {a : α} {c lo hi : ℤ} (hc : f c = a)
    (hlo : ∀ n < lo, f n ≠ a) (hhi : ∀ n, hi ≤ n → f n ≠ a) :
    ∃ first stop, first ≤ c ∧ c < stop ∧ (∀ n, first ≤ n → n < stop → f n = a) ∧
      f (first - 1) ≠ a ∧ f stop ≠ a := by
  have hloc : lo ≤ c := not_lt.mp fun h => hlo c h hc
  have hchi : c < hi := not_le.mp fun h => hhi c h hc
  -- the next byte with another value on each side
  obtain ⟨stop, ⟨hstop, hne⟩, hleast⟩ :=
    Int.exists_least_of_bdd (P := fun n => c ≤ n ∧ f n ≠ a) ⟨c, fun n hn => hn.1⟩
      ⟨hi, hchi.le, hhi hi le_rfl⟩
  obtain ⟨edge, ⟨hedge, hne'⟩, hgreatest⟩ :=
    Int.exists_greatest_of_bdd (P := fun n => n ≤ c ∧ f n ≠ a) ⟨c, fun n hn => hn.1⟩
      ⟨lo - 1, by omega, hlo _ (by omega)⟩
  have hedgec : edge ≠ c := fun h => hne' (h ▸ hc)
  have hcstop : c ≠ stop := fun h => hne (h ▸ hc)
  refine ⟨edge + 1, stop, by omega, by omega, fun n hfirst hn => ?_, ?_, hne⟩
  · by_contra hother
    rcases le_total c n with hcn | hnc
    · have := hleast n ⟨hcn, hother⟩
      omega
    · have := hgreatest n ⟨hnc, hother⟩
      omega
  · rwa [add_sub_cancel_right]

/-! ## §2  Merged locks -/

/-- `struct flock`, as the kernel fills it -/
structure Flock (P : Type*) where
  pid : P
  type : LockType
  start : ℤ
  len : ℤ

namespace Flock

variable {P : Type*} {t : LockTable P ℤ} {lock : Flock P} {m n : ℤ}

def Covers (lock : Flock P) (n : ℤ) : Prop := lock.start ≤ n ∧ n < lock.start + lock.len

/-- The locks of the process side by side, all of them. -/
structure Merged (t : LockTable P ℤ) (lock : Flock P) : Prop where
  held : ∀ n, lock.Covers n → t lock.pid n = some lock.type
  before : t lock.pid (lock.start - 1) ≠ some lock.type
  after : t lock.pid (lock.start + lock.len) ≠ some lock.type

theorem Merged.joined (h : lock.Merged t) (hm : lock.Covers m) (hn : lock.Covers n) :
    Joined (t lock.pid) m n := by
  intro k hk
  rw [Set.mem_uIcc] at hk
  rw [h.held n hn]
  refine h.held k ?_
  unfold Covers at *
  omega

/-- A merged lock does not end inside of a stretch. -/
theorem Merged.covers_of_joined (h : lock.Merged t) (hm : lock.Covers m)
    (hjoined : Joined (t lock.pid) m n) : lock.Covers n := by
  have htype : t lock.pid n = some lock.type := hjoined.eq.symm.trans (h.held m hm)
  obtain ⟨hstart, hstop⟩ := hm
  constructor
  · by_contra hn
    -- the byte in front of the lock would be on the way
    refine h.before ((hjoined _ ?_).trans htype)
    rw [Set.mem_uIcc]
    omega
  · by_contra hn
    refine h.after ((hjoined _ ?_).trans htype)
    rw [Set.mem_uIcc]
    omega

/-- Every lock is part of a merged one, where the locks of a process come to an end. -/
theorem exists_merged {p : P} {l : LockType} {lo hi : ℤ} (hn : t p n = some l)
    (hbounds : ∀ m, t p m ≠ none → lo ≤ m ∧ m < hi) :
    ∃ lock : Flock P, lock.Merged t ∧ lock.Covers n ∧ lock.pid = p := by
  have hout {m : ℤ} (hm : m < lo ∨ hi ≤ m) : t p m ≠ some l := by
    intro h
    have := hbounds m (by rw [h]; exact Option.some_ne_none l)
    omega
  obtain ⟨first, stop, hfirst, hstop, hheld, hbefore, hafter⟩ :=
    exists_stretch hn (fun m hm => hout (Or.inl hm)) (fun m hm => hout (Or.inr hm))
  refine ⟨⟨p, l, first, stop - first⟩, ⟨?_, hbefore, ?_⟩, ⟨hfirst, ?_⟩, rfl⟩
  · rintro m ⟨hm, hm'⟩
    exact hheld m hm (by simpa using hm')
  · simpa using hafter
  · simpa using hstop

end Flock

/-! ## §3  What is in the way of a write lock -/

/-- `F_GETLK` of a write lock on one byte, asked by a process that has no locks itself. -/
inductive InTheWay {P : Type*} (t : LockTable P ℤ) (n : ℤ) : Option (Flock P) → Prop
  /-- `F_UNLCK` -/
  | unlocked (h : ∀ q, t q n = none) : InTheWay t n none
  | locked (lock : Flock P) (h : lock.Merged t) (hn : lock.Covers n) :
      InTheWay t n (some lock)

theorem InTheWay.merged {P : Type*} {t : LockTable P ℤ} {n : ℤ} {lock : Flock P}
    (h : InTheWay t n (some lock)) : lock.Merged t ∧ lock.Covers n := by
  cases h with
  | locked _ h hn => exact ⟨h, hn⟩

theorem InTheWay.exists_lock {P : Type*} {t : LockTable P ℤ} {n : ℤ} {o : Option (Flock P)}
    {p : P} (h : InTheWay t n o) (hp : t p n ≠ none) :
    ∃ lock, o = some lock ∧ lock.Merged t ∧ lock.Covers n := by
  cases h with
  | unlocked h => exact absurd (h p) hp
  | locked lock h hn => exact ⟨lock, rfl, h, hn⟩

/-- The kernel names the lock of the given process only where it has no other choice. -/
theorem exists_inTheWay {P : Type*} {t : LockTable P ℤ} {lo hi : ℤ}
    (hbounds : ∀ q m, t q m ≠ none → lo ≤ m ∧ m < hi) (p : P) (n : ℤ) :
    ∃ o, InTheWay t n o ∧
      ∀ lock, o = some lock → lock.pid = p → ∀ q, q ≠ p → t q n = none := by
  by_cases hother : ∀ q, q ≠ p → t q n = none
  · cases hp : t p n with
    | none =>
        refine ⟨none, .unlocked fun q => ?_, fun _ _ _ => hother⟩
        by_cases hq : q = p
        · rw [hq, hp]
        · exact hother q hq
    | some l =>
        obtain ⟨lock, hmerged, hn, -⟩ := Flock.exists_merged hp (hbounds p)
        exact ⟨some lock, .locked lock hmerged hn, fun _ _ _ => hother⟩
  · obtain ⟨q, hother⟩ := not_forall.mp hother
    obtain ⟨hq, hlocked⟩ := not_forall.mp hother
    obtain ⟨l, hl⟩ := Option.ne_none_iff_exists'.mp hlocked
    obtain ⟨lock, hmerged, hn, hpid⟩ := Flock.exists_merged hl (hbounds q)
    refine ⟨some lock, .locked lock hmerged hn, fun lock' heq hp => ?_⟩
    obtain rfl := Option.some.inj heq
    exact absurd (hpid.symm.trans hp) hq

end Sysopy.Foundation
