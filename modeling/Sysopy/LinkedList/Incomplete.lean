import Sysopy.LinkedList.Termination

/-!
# Sorting a list with missing keys

The loop in front of the sort prints a line for each node without a name or without a
surname, and nothing else happens in it: the sort runs on. The split compares both keys
of every node with those of the pivot, so that a missing key gets to `strcmp` wherever
its node is. Only a list of one node is left alone.

## Sections

* §1 the report
* §2 a list of one node
* §3 which lists are refused
-/

namespace Sysopy.LinkedList

open Sysopy.Foundation Linked

variable {m m' : Memory} {list : Handle} {xs : List Addr} {before first : Option Addr}
  {a : Addr} {fuel : ℕ}

/-! ## §1  The report -/

/-- The line that `list_sort` prints. -/
def missingKeys : String :=
  "Sort operation impossible - there are keys (name and surname) missing " ++
    "in some elements.\n"

def Node.lacksKey (x : Node) : Bool := x.name.isNone || x.surname.isNone

/-- The node at `a` has no name or no surname. -/
def Memory.lacksKey (m : Memory) (a : Addr) : Bool := (m.node a).any Node.lacksKey

theorem Memory.lacksKey_of_node {x : Node} (hx : m.node a = some x) :
    m.lacksKey a = x.lacksKey := by
  rw [Memory.lacksKey, hx, Option.any_some]

theorem Node.lacksKey_iff {x : Node} : x.lacksKey ↔ x.name = none ∨ x.surname = none := by
  rw [Node.lacksKey, Bool.or_eq_true, Option.isNone_iff_eq_none, Option.isNone_iff_eq_none]

theorem not_complete_of_lacksKey (h : m.lacksKey a) : ¬Complete m.keys a := by
  rintro ⟨name, surname, hkeys⟩
  obtain ⟨x, hx, hx'⟩ := Option.map_eq_some_iff.mp hkeys
  obtain ⟨hname, hsurname⟩ := Prod.ext_iff.mp hx'
  rw [Memory.lacksKey_of_node hx, Node.lacksKey_iff] at h
  rcases h with hnone | hnone
  · exact absurd (hname.symm.trans hnone) (Option.some_ne_none name)
  · exact absurd (hsurname.symm.trans hnone) (Option.some_ne_none surname)

/-- **One line for each node that lacks a key**, and no other change. -/
theorem reportMissing_eq (h : Seg m.node before first xs none) (hfuel : xs.length < fuel) :
    Memory.reportMissing fuel m first = some
      { m with printed := m.printed ++ List.replicate (xs.countP m.lacksKey) missingKeys } := by
  induction fuel generalizing m before first xs with
  | zero => exact absurd hfuel (Nat.not_lt_zero _)
  | succ fuel ih =>
      cases h with
      | nil =>
          rw [List.countP_nil, List.replicate_zero, List.append_nil]
          rfl
      | @cons _ _ a x xs hx _ htail =>
          rw [Memory.reportMissing, hx, Option.bind_eq_bind, Option.bind_some,
            List.countP_cons, Memory.lacksKey_of_node hx]
          by_cases hlacks : x.lacksKey = true
          · rw [if_pos (Node.lacksKey_iff.mp hlacks), if_pos hlacks, List.replicate_succ]
            have hrest := ih (m := m.print missingKeys) htail (Nat.lt_of_succ_lt_succ hfuel)
            rw [Memory.print, List.append_assoc, List.singleton_append] at hrest
            exact hrest
          · rw [if_neg fun hnone => hlacks (Node.lacksKey_iff.mpr hnone), if_neg hlacks]
            exact ih htail (Nat.lt_of_succ_lt_succ hfuel)

/-! ## §2  A list of one node -/

/-- `list_sort` prints its report at least once and does nothing else. That it returns says
that no `NULL` is compared. -/
def Refuses (m : Memory) (list : Handle) : Prop :=
  ∃ fuel m' n, m.listSort fuel (some list) = some m' ∧ 0 < n ∧
    m' = { m with printed := m.printed ++ List.replicate n missingKeys }

theorem refuses_single (h : m.Holds list [a]) (hlacks : m.lacksKey a) : Refuses m list := by
  obtain ⟨first, hfirst, hseg⟩ := h
  have hreport := reportMissing_eq hseg (Nat.lt_succ_self 1)
  rw [List.countP_singleton, if_pos hlacks] at hreport
  cases hseg with
  | @cons _ _ _ x _ hx _ htail =>
      have hnext : x.next = none := htail.first_eq_none.mpr rfl
      refine ⟨2, _, 1, ?_, Nat.one_pos, rfl⟩
      rw [Memory.listSort, hfirst, Option.bind_eq_bind, Option.bind_some, Option.bind_eq_bind,
        hreport, Option.bind_some]
      simp only [Memory.performQuickListSort, hfirst, hx, hnext, Option.bind_eq_bind,
        Option.bind_some]

/-! ## §3  Which lists are refused -/

/-- Every node of a longer list is compared with the pivot. -/
theorem listSort_of_lacksKey (h : m.Holds list xs) (hlength : 2 ≤ xs.length) (ha : a ∈ xs)
    (hlacks : m.lacksKey a) (fuel : ℕ) : m.listSort fuel (some list) = none := by
  apply Option.eq_none_iff_forall_not_mem.mpr
  intro m' hrun
  obtain ⟨ys, hys⟩ := listSort_returned h hrun
  exact not_complete_of_lacksKey hlacks (hys.complete hlength a ha)

/-- **A list with a node that lacks a key is left alone exactly if this is its only node.** -/
theorem refuses_iff (h : m.Holds list xs) (hlacks : ∃ a ∈ xs, m.lacksKey a) :
    Refuses m list ↔ xs.length = 1 := by
  obtain ⟨a, ha, hlacks⟩ := hlacks
  constructor
  · rintro ⟨fuel, m', n, hrun, -⟩
    by_contra hlength
    have hpos := List.length_pos_of_mem ha
    have hnone := listSort_of_lacksKey h (by omega) ha hlacks fuel
    exact absurd (hrun.symm.trans hnone) (Option.some_ne_none m')
  · intro hlength
    obtain ⟨b, rfl⟩ := List.length_eq_one_iff.mp hlength
    obtain rfl := List.mem_singleton.mp ha
    exact refuses_single h hlacks

/-- One person without a name. -/
def nameless : Memory where
  node a := if a = 10 then some ⟨none, some [83], none, none⟩ else none
  head := [some 10]
  printed := []

theorem nameless_holds : nameless.Holds 0 [10] :=
  ⟨some 10, rfl, .cons (x := ⟨none, some [83], none, none⟩) rfl rfl .nil⟩

theorem refuses_iff_nameless : Refuses nameless 0 :=
  (refuses_iff nameless_holds ⟨10, List.mem_cons_self, rfl⟩).mpr rfl

/-- Two people, the second without a name. -/
def secondNameless : Memory where
  node a := if a = 10 then some ⟨some [78], some [83], some 20, none⟩
    else if a = 20 then some ⟨none, some [83], none, some 10⟩ else none
  head := [some 10]
  printed := []

theorem secondNameless_holds : secondNameless.Holds 0 [10, 20] := by
  refine ⟨some 10, rfl, .cons (x := ⟨some [78], some [83], some 20, none⟩) rfl rfl ?_⟩
  exact .cons (x := ⟨none, some [83], none, some 10⟩) rfl rfl .nil

/-- The first test of the split reads the name that is missing. -/
theorem missing_name_is_compared : secondNameless.Holds 0 [10, 20] ∧
    secondNameless.lacksKey 20 ∧
    Memory.isEqual ⟨none, some [83], none, some 10⟩ ⟨some [78], some [83], some 20, none⟩ =
      none ∧
    ¬Refuses secondNameless 0 := by
  refine ⟨secondNameless_holds, rfl, rfl, ?_⟩
  rintro ⟨fuel, m', n, hrun, -⟩
  have hnone := listSort_of_lacksKey secondNameless_holds (Nat.le_refl 2)
    (List.mem_cons_of_mem _ List.mem_cons_self) rfl fuel
  exact absurd (hrun.symm.trans hnone) (Option.some_ne_none m')

end Sysopy.LinkedList
