import Mathlib.Data.Int.ModEq
import Mathlib.Data.List.Perm.Basic
import Mathlib.Algebra.BigOperators.Group.List.Basic

/-!
# Exit statuses and trees of processes

A process ends with `exit(code)`. Its parent gets the low eight bits of the code, in the
second byte of what `wait` stores, and takes them out with `WEXITSTATUS`. The processes
started below one process are a forest: every process stands with the processes it has
started itself.

## Sections

* §1 exit, wait and WEXITSTATUS
* §2 the order of the waits
* §3 processes below a process
-/

namespace Sysopy.Foundation

/-! ## §1  exit, wait and WEXITSTATUS -/

/-- A sum of two `int`s, which wraps around. -/
def addInt (a b : ℤ) : ℤ := (a + b).bmod (2 ^ 32)

theorem addInt_modEq (a b : ℤ) : addInt a b ≡ a + b [ZMOD 2 ^ 32] := Int.bmod_emod

theorem addInt_eq_of_modEq {a b c : ℤ} (h : a + b ≡ c [ZMOD 2 ^ 32]) :
    addInt a b = c.bmod (2 ^ 32) := by
  have h' : (a + b) % ((2 ^ 32 : ℕ) : ℤ) = c % ((2 ^ 32 : ℕ) : ℤ) := h
  rw [addInt, ← Int.emod_bmod, h', Int.emod_bmod]

/-- A number keeps its value in an `int` exactly when it is small enough. -/
theorem bmod_eq_self_iff (n : ℕ) : (n : ℤ).bmod (2 ^ 32) = n ↔ n < 2 ^ 31 := by
  constructor
  · intro h
    have hlt := Int.bmod_lt (x := n) (m := 2 ^ 32) (by decide)
    rw [h] at hlt
    exact_mod_cast hlt
  · intro h
    apply Int.bmod_eq_of_le <;> omega

/-- What `wait` stores for a process that ended with `exit(code)`. -/
def exitStatus (code : ℤ) : ℕ := (code % 256).toNat * 256

/-- `WEXITSTATUS(status)`: the second byte. -/
def wexitstatus (status : ℕ) : ℤ := (status / 256 % 256 : ℕ)

theorem wexitstatus_nonneg (status : ℕ) : 0 ≤ wexitstatus status := Int.natCast_nonneg _

theorem wexitstatus_ne_neg_one (status : ℕ) : wexitstatus status ≠ -1 := by
  have h := wexitstatus_nonneg status
  omega

theorem wexitstatus_exitStatus (code : ℤ) : wexitstatus (exitStatus code) = code % 256 := by
  have h0 : 0 ≤ code % 256 := Int.emod_nonneg _ (by decide)
  have h1 : code % 256 < 256 := Int.emod_lt_of_pos _ (by decide)
  unfold wexitstatus exitStatus
  rw [Nat.mul_div_cancel _ (by decide), Nat.mod_eq_of_lt (by omega)]
  exact Int.toNat_of_nonneg h0

/-! ## §2  The order of the waits -/

/-- The order in which `wait` hands over the children of a process. Any order is
possible, nothing is handed over twice and nothing is left out. -/
structure WaitOrder where
  arrange : List ℕ → List ℕ
  perm : ∀ statuses, (arrange statuses).Perm statuses

namespace WaitOrder

def asStarted : WaitOrder := ⟨id, fun _ => .refl _⟩

theorem length_arrange (o : WaitOrder) (statuses : List ℕ) :
    (o.arrange statuses).length = statuses.length := (o.perm statuses).length_eq

theorem sum_arrange (o : WaitOrder) (statuses : List ℕ) :
    ((o.arrange statuses).map wexitstatus).sum = (statuses.map wexitstatus).sum :=
  ((o.perm statuses).map wexitstatus).sum_eq

end WaitOrder

/-! ## §3  Processes below a process -/

/-- Processes next to each other, each with the processes it has started. -/
inductive Forest (P : Type*)
  | nil
  | cons (process : P) (below rest : Forest P)

namespace Forest

variable {P : Type*} {A : P → Prop} {B C : P → Forest P → Prop} {f : Forest P}

def roots : Forest P → List P
  | nil => []
  | cons p _ rest => p :: rest.roots

def Some (A : P → Prop) : Forest P → Prop
  | nil => False
  | cons p below rest => A p ∨ below.Some A ∨ rest.Some A

def Below (A : P → Prop) : Forest P → Prop
  | nil => False
  | cons _ below rest => below.Some A ∨ rest.Below A

/-- Every process, seen with what it has started, has the property. -/
def Each (B : P → Forest P → Prop) : Forest P → Prop
  | nil => True
  | cons p below rest => B p below ∧ below.Each B ∧ rest.Each B

theorem Each.imp (h : f.Each B) (hBC : ∀ p below, B p below → C p below) : f.Each C := by
  induction f with
  | nil => trivial
  | cons p below rest ihbelow ihrest =>
      obtain ⟨hp, hbelow, hrest⟩ := h
      exact ⟨hBC p below hp, ihbelow hbelow, ihrest hrest⟩

theorem Below.some (h : f.Below A) : f.Some A := by
  induction f with
  | nil => exact h
  | cons p below rest _ ihrest =>
      rcases h with h | h
      · exact .inr (.inl h)
      · exact .inr (.inr (ihrest h))

theorem each_of_not_below (h : ¬f.Below A) : f.Each fun _ below => ¬below.Some A := by
  induction f with
  | nil => trivial
  | cons p below rest ihbelow ihrest =>
      obtain ⟨hbelow, hrest⟩ := not_or.mp h
      exact ⟨hbelow, ihbelow fun hb => hbelow hb.some, ihrest hrest⟩

/-- No process has one with the property under it as soon as no top process has. -/
theorem each_not_some_iff : (f.Each fun _ below => ¬below.Some A) ↔ ¬f.Below A := by
  refine ⟨fun h => ?_, each_of_not_below⟩
  induction f with
  | nil => exact id
  | cons p below rest _ ihrest =>
      rintro (hbelow | hrest)
      · exact h.1 hbelow
      · exact ihrest h.2.2 hrest

end Forest

end Sysopy.Foundation
