import Sysopy.Foundation.System
import Sysopy.LinkedList.Sort

/-!
# Two handles of one list

`list_concat` gives both lists the head of the joined chain. Nothing connects the two
`list_t`s after that: every function updates the head that it was given and no other
one. So the handles denote one list exactly as long as no call changes the head.

## Sections

* §1 calls through the handles
* §2 the first node decides
* §3 one call
* §4 runs
-/

namespace Sysopy.LinkedList

open Sysopy.Foundation Linked

variable {m m' : Memory} {list other first second : Handle} {xs ys zs : List Addr} {fuel : ℕ}

/-! ## §1  Calls through the handles -/

inductive HandleCall
  /-- the user allocates a node to add -/
  | newNode (a : Addr) (x : Node)
  | addElem (list : Handle) (nodeToAdd : Option Addr)
  | removeElem (list : Handle) (nodeToRemove : Option Addr)
  | listSort (list : Handle)
  | deleteList (list : Handle)

def Memory.handleCall (fuel : ℕ) (m : Memory) : HandleCall → Option Memory
  | .newNode a x => some { m with node := Function.update m.node a (some x) }
  | .addElem list p => m.addElem fuel (some list) p
  | .removeElem list p => m.removeElem fuel (some list) p
  | .listSort list => m.listSort fuel (some list)
  | .deleteList list => m.deleteList fuel (some list)

/-- The calls that are made; the turns that the loops of a call may take belong to the
step. -/
def handles (m : Memory) : System Memory (ℕ × HandleCall) where
  init := m
  next m step := m.handleCall step.1 step.2

/-- Both handles denote the same well-formed list, of allocated nodes. -/
def Memory.Shared (m : Memory) (first second : Handle) (xs : List Addr) : Prop :=
  m.Holds first xs ∧ m.Holds second xs

/-- What a user of the list `xs` keeps to: the call is through one of the handles, and
a node is added only when it is allocated and not in the list. -/
def Proper (first second : Handle) (m : Memory) (xs : List Addr) : HandleCall → Prop
  | .newNode a _ => m.node a = none
  | .addElem list p =>
      (list = first ∨ list = second) ∧ ∀ a, p = some a → (m.node a).isSome ∧ a ∉ xs
  | .removeElem list _ => list = first ∨ list = second
  | .listSort list => list = first ∨ list = second
  | .deleteList list => list = first ∨ list = second

/-- The call does not change which node is the first one of `xs`. -/
def KeepsHead (m : Memory) (xs : List Addr) : HandleCall → Prop
  | .newNode _ _ => True
  | .addElem _ p => p = none ∨ xs ≠ []
  | .removeElem _ p => p = none ∨ p ≠ xs.head?
  | .listSort _ => ∀ a, xs.head? = some a → ∀ b ∈ xs, compareNodes m.keys b a ≠ .lt
  | .deleteList _ => xs = []

/-! ## §2  The first node decides -/

theorem Memory.Holds.head (h : m.Holds list xs) : m.head[list]? = some xs.head? := by
  obtain ⟨p, hp, hseg⟩ := h
  cases hseg with
  | nil => exact hp
  | cons _ _ _ => exact hp

theorem Memory.Holds.of_head (h : m.Holds list xs) (hother : m.head[other]? = some xs.head?) :
    m.Holds other xs := by
  obtain ⟨p, hp, hseg⟩ := h
  have hhead := Memory.Holds.head ⟨p, hp, hseg⟩
  obtain rfl := Option.some.inj (hp.symm.trans hhead)
  exact ⟨_, hother, hseg⟩

theorem Memory.Shared.symm (h : m.Shared first second xs) : m.Shared second first xs :=
  ⟨h.2, h.1⟩

/-- A call has changed the list of one handle, and not the head of the other one. -/
theorem shared_iff_head? (h : m.Shared list other xs) (hys : m'.Holds list ys)
    (hother : m'.head[other]? = m.head[other]?) :
    (∃ zs, m'.Shared list other zs) ↔ ys.head? = xs.head? := by
  have hhead : m'.head[other]? = some xs.head? := hother.trans h.2.head
  constructor
  · rintro ⟨zs, hlist, hother⟩
    obtain rfl := hys.unique hlist
    exact Option.some.inj (hother.head.symm.trans hhead)
  · intro heq
    exact ⟨ys, hys, hys.of_head (heq ▸ hhead)⟩

/-! ## §3  One call -/

theorem shared_addElem {p : Option Addr} (h : m.Shared list other xs) (hne : other ≠ list)
    (hp : ∀ a, p = some a → (m.node a).isSome ∧ a ∉ xs)
    (hrun : m.addElem fuel (some list) p = some m') :
    (∃ ys, m'.Shared list other ys) ↔ p = none ∨ xs ≠ [] := by
  cases p with
  | none =>
      obtain rfl := Option.some.inj hrun
      exact iff_of_true ⟨xs, h⟩ (Or.inl rfl)
  | some a =>
      obtain ⟨hlive, ha⟩ := hp a rfl
      obtain ⟨x, hx⟩ := Option.isSome_iff_exists.mp hlive
      obtain ⟨hholds, hrel, -⟩ := addElem_returned h.1 hx ha hrun
      rw [shared_iff_head? h hholds (hrel.heads other hne)]
      cases xs with
      | nil => simp
      | cons b xs => simp

theorem shared_removeElem {p : Option Addr} (h : m.Shared list other xs) (hne : other ≠ list)
    (hrun : m.removeElem fuel (some list) p = some m') :
    (∃ ys, m'.Shared list other ys) ↔ p = none ∨ p ≠ xs.head? := by
  cases p with
  | none =>
      obtain rfl := Option.some.inj hrun
      exact iff_of_true ⟨xs, h⟩ (Or.inl rfl)
  | some a =>
      have hnodup : xs.Nodup := by
        obtain ⟨_, -, hseg⟩ := h.1
        exact hseg.nodup
      have hbig := removeElem_mono hrun (Nat.le_max_left fuel (xs.length + 1))
      by_cases ha : a ∈ xs
      · obtain ⟨us, vs, rfl⟩ := List.append_of_mem ha
        have hlt : us.length < max fuel ((us ++ a :: vs).length + 1) :=
          Nat.lt_of_lt_of_le (by rw [List.length_append]; omega) (Nat.le_max_right _ _)
        obtain ⟨m₁, hrun₁, hholds, hrel, -⟩ := removeElem_holds h.1 hlt
        obtain rfl := Option.some.inj (hbig.symm.trans hrun₁)
        rw [shared_iff_head? h hholds (hrel.heads other hne)]
        cases us with
        | nil =>
            -- the other handle still has the address of `a`
            have hnot : a ∉ vs := (List.nodup_cons.mp hnodup).1
            refine iff_of_false (fun heq => ?_) (by simp)
            exact hnot (List.mem_of_mem_head? heq)
        | cons b us =>
            have hba : b ≠ a := fun hba =>
              (List.nodup_cons.mp hnodup).1 (by simp [hba])
            exact iff_of_true rfl (Or.inr fun heq => hba (Option.some.inj heq).symm)
      · have hsame := removeElem_absent h.1 ha (Nat.le_max_right fuel (xs.length + 1))
        obtain rfl := Option.some.inj (hbig.symm.trans hsame)
        exact iff_of_true ⟨xs, h⟩ (Or.inr fun heq => ha (List.mem_of_mem_head? heq.symm))

theorem shared_listSort (h : m.Shared list other xs) (hne : other ≠ list)
    (hrun : m.listSort fuel (some list) = some m') :
    (∃ ys, m'.Shared list other ys) ↔
      ∀ a, xs.head? = some a → ∀ b ∈ xs, compareNodes m.keys b a ≠ .lt := by
  obtain ⟨ys, hys⟩ := listSort_returned h.1 hrun
  have hother : m'.head[other]? = m.head[other]? :=
    hys.moved.heads other (List.getElem?_eq_some_iff.mp h.2.head).1 (by simp [hne])
  rw [shared_iff_head? h hys.holds hother]
  constructor
  · intro heq a ha b hb
    obtain ⟨t, rfl⟩ := List.head?_eq_some_iff.mp (heq.trans ha)
    rcases List.mem_cons.mp (hys.perm.mem_iff.mpr hb) with rfl | hb
    · have hself : compareNodes m.keys b b = .eq := Std.ReflCmp.compare_self
      rw [hself]
      nofun
    · exact Std.OrientedCmp.not_lt_of_isLE (List.rel_of_pairwise_cons hys.ascending hb)
  · intro hmin
    cases xs with
    | nil => rw [List.perm_nil.mp hys.perm]
    | cons a xs => exact hys.stays a rfl (hmin a rfl)

theorem shared_deleteList (h : m.Shared list other xs)
    (hrun : m.deleteList fuel (some list) = some m') :
    (∃ ys, m'.Shared list other ys) ↔ xs = [] := by
  have hhead := h.1.head
  obtain ⟨p, hp, hseg⟩ := h.1
  obtain ⟨q, hq, hrun⟩ := Option.bind_eq_some_iff.mp hrun
  obtain rfl := Option.some.inj (hp.symm.trans hq)
  have hbig := deleteNodes_mono hrun (Nat.le_max_left fuel (xs.length + 1))
  rw [deleteNodes_eq hseg (Nat.le_max_right fuel (xs.length + 1))] at hbig
  obtain rfl := Option.some.inj hbig
  cases xs with
  | nil => exact iff_of_true ⟨[], ⟨none, hhead, .nil⟩, ⟨none, h.2.head, .nil⟩⟩ rfl
  | cons a xs =>
      refine iff_of_false ?_ (List.cons_ne_nil a xs)
      rintro ⟨ys, hys, -⟩
      have ha : a ∈ ys := List.mem_of_mem_head? (Option.some.inj (hys.head.symm.trans hhead))
      obtain ⟨_, -, hseg'⟩ := hys
      obtain ⟨x, hx⟩ := hseg'.live ha
      simp at hx

theorem shared_newNode {a : Addr} (x : Node) (h : m.Shared first second xs)
    (ha : m.node a = none) :
    Memory.Shared { m with node := Function.update m.node a (some x) } first second xs := by
  have hframe : ∀ list, m.Holds list xs →
      Memory.Holds { m with node := Function.update m.node a (some x) } list xs := by
    rintro list ⟨p, hp, hseg⟩
    refine ⟨p, hp, hseg.congr fun b hb => Function.update_of_ne ?_ ..⟩
    rintro rfl
    obtain ⟨y, hy⟩ := hseg.live hb
    exact Option.some_ne_none y (hy.symm.trans ha)
  exact ⟨hframe first h.1, hframe second h.2⟩

theorem exists_shared_comm :
    (∃ ys, m.Shared first second ys) ↔ ∃ ys, m.Shared second first ys :=
  ⟨fun ⟨ys, hys⟩ => ⟨ys, hys.symm⟩, fun ⟨ys, hys⟩ => ⟨ys, hys.symm⟩⟩

/-- **After a call that returns the handles still denote one list exactly if the call
kept the head.** -/
theorem shared_iff_keepsHead {c : HandleCall} (h : m.Shared first second xs)
    (hne : second ≠ first) (hc : Proper first second m xs c)
    (hrun : m.handleCall fuel c = some m') :
    (∃ ys, m'.Shared first second ys) ↔ KeepsHead m xs c := by
  cases c with
  | newNode a x =>
      obtain rfl := Option.some.inj hrun
      exact iff_of_true ⟨xs, shared_newNode x h hc⟩ trivial
  | addElem list p =>
      obtain ⟨rfl | rfl, hp⟩ := hc
      · exact shared_addElem h hne hp hrun
      · exact exists_shared_comm.trans (shared_addElem h.symm hne.symm hp hrun)
  | removeElem list p =>
      obtain rfl | rfl := hc
      · exact shared_removeElem h hne hrun
      · exact exists_shared_comm.trans (shared_removeElem h.symm hne.symm hrun)
  | listSort list =>
      obtain rfl | rfl := hc
      · exact shared_listSort h hne hrun
      · exact exists_shared_comm.trans (shared_listSort h.symm hne.symm hrun)
  | deleteList list =>
      obtain rfl | rfl := hc
      · exact shared_deleteList h hrun
      · exact exists_shared_comm.trans (shared_deleteList h.symm hrun)

/-! ## §4  Runs -/

/-- A proper call that keeps the head of the list that both handles denote. -/
def KeepsBoth (first second : Handle) (m : Memory) (c : HandleCall) : Prop :=
  ∀ xs, m.Shared first second xs → Proper first second m xs c ∧ KeepsHead m xs c

theorem run_shared {tr : List (Memory × (ℕ × HandleCall))} (hne : second ≠ first)
    (h : m.Shared first second xs) (hrun : (handles m).Run tr m')
    (hkeeps : ∀ x ∈ tr, KeepsBoth first second x.1 x.2.2) :
    ∃ ys, m'.Shared first second ys := by
  refine hrun.invariant_of_steps (I := fun _ s => ∃ ys, s.Shared first second ys)
    (C := fun s x => KeepsBoth first second s x.2) hkeeps ⟨xs, h⟩ ?_
  rintro tr s step t ⟨ys, hys⟩ hstep hnext
  obtain ⟨hproper, hhead⟩ := hstep ys hys
  exact (shared_iff_keepsHead hys hne hproper hnext).mpr hhead

/-- **After `list_concat` both handles denote the joined list, and they denote one and
the same list of allocated nodes after every run of calls that keep its head.** -/
theorem handles_stay_equal (hfirst : m.Holds first xs) (hsecond : m.Holds second ys)
    (hne : second ≠ first) (hdisj : ∀ a ∈ xs, a ∉ ys) :
    ∃ m₀, (∀ fuel, xs.length ≤ fuel →
        m.listConcat fuel (some first) (some second) = some m₀) ∧
      m₀.Shared first second (xs ++ ys) ∧
      ∀ tr m', (handles m₀).Run tr m' → (∀ x ∈ tr, KeepsBoth first second x.1 x.2.2) →
        ∃ zs, m'.Shared first second zs ∧ ∀ a ∈ zs, (m'.node a).isSome := by
  obtain ⟨m₀, hconcat, hholds, hheads, -⟩ :=
    listConcat_holds hfirst hsecond hne hdisj (Nat.le_refl xs.length)
  have hshared : m₀.Shared first second (xs ++ ys) :=
    ⟨hholds, hholds.of_head (hheads.trans hholds.head)⟩
  refine ⟨m₀, fun fuel hfuel => listConcat_mono hconcat hfuel, hshared,
    fun tr m' hrun htr => ?_⟩
  obtain ⟨zs, hzs⟩ := run_shared hne hshared hrun htr
  refine ⟨zs, hzs, fun a ha => ?_⟩
  obtain ⟨_, -, hseg⟩ := hzs.1
  obtain ⟨x, hx⟩ := hseg.live ha
  rw [hx]
  rfl

/-- The lists `10` and `20`. -/
def twoLists : Memory where
  node a := if a = 10 ∨ a = 20 then some ⟨some [1], some [1], none, none⟩ else none
  head := [some 10, some 20]
  printed := []

theorem twoLists_holds : twoLists.Holds 0 [10] ∧ twoLists.Holds 1 [20] :=
  ⟨⟨some 10, rfl, .cons (x := ⟨some [1], some [1], none, none⟩) rfl rfl .nil⟩,
    ⟨some 20, rfl, .cons (x := ⟨some [1], some [1], none, none⟩) rfl rfl .nil⟩⟩

/-- The last node is removed through the second handle. -/
theorem handles_stay_equal_two : ∃ m₀ m',
    twoLists.listConcat 1 (some 0) (some 1) = some m₀ ∧
      m₀.removeElem 2 (some 1) (some 20) = some m' ∧ ∃ zs, m'.Shared 0 1 zs := by
  obtain ⟨m₀, hconcat, hshared, hruns⟩ :=
    handles_stay_equal twoLists_holds.1 twoLists_holds.2 (by decide) (by decide)
  have hholds : m₀.Holds 1 ([10] ++ 20 :: []) := hshared.2
  obtain ⟨m', hremove, -⟩ := removeElem_holds hholds (show [10].length < 2 by decide)
  obtain ⟨zs, hzs, -⟩ := hruns [(m₀, 2, .removeElem 1 (some 20))] m'
    (.snoc .nil hremove) (by
      rintro x hx zs hzs
      obtain rfl := List.mem_singleton.mp hx
      obtain rfl := hzs.1.unique hshared.1
      exact ⟨Or.inr rfl, Or.inr (by decide)⟩)
  exact ⟨m₀, m', hconcat 1 (Nat.le_refl 1), hremove, zs, hzs⟩

/-- The first node is removed through the second handle; the first handle still has its
address. -/
theorem other_handle_dangles : ∃ m₀ m',
    twoLists.Holds 0 [10] ∧ twoLists.Holds 1 [20] ∧
      twoLists.listConcat 1 (some 0) (some 1) = some m₀ ∧
      m₀.removeElem 2 (some 1) (some 10) = some m' ∧
      m'.head[0]? = some (some 10) ∧ m'.node 10 = none ∧ ¬∃ zs, m'.Shared 0 1 zs := by
  obtain ⟨m₀, hconcat, hholds, hheads, -⟩ :=
    listConcat_holds twoLists_holds.1 twoLists_holds.2 (by decide) (by decide)
      (Nat.le_refl 1)
  have hshared : m₀.Shared 1 0 [10, 20] := ⟨hholds.of_head (hheads.trans hholds.head), hholds⟩
  have hsecond : m₀.Holds 1 ([] ++ 10 :: [20]) := hshared.1
  obtain ⟨m', hremove, -, hrel, -⟩ := removeElem_holds hsecond (show [].length < 2 by decide)
  refine ⟨m₀, m', twoLists_holds.1, twoLists_holds.2, hconcat, hremove,
    (hrel.heads 0 (by decide)).trans hholds.head, hrel.gone 10 (by decide), fun hsame => ?_⟩
  have hkeeps := (shared_removeElem hshared (by decide) hremove).mp (exists_shared_comm.mp hsame)
  exact absurd hkeeps (by decide)

end Sysopy.LinkedList
