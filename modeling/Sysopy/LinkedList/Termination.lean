import Sysopy.LinkedList.Sort

/-!
# When the sort returns

A call of `perform_quick_list_sort` sorts the nodes that equal the pivot like the
others. With two of them the list of equal nodes is as long as before, and the call
for it is the same call again: the sort returns only where all full names are
different. There each of the three lists is shorter than the list that was split.

## Sections

* §1 names are different if the sort returns
* §2 the loops return
* §3 the sort returns
* §4 list_sort
* §5 which lists are sorted
-/

namespace Sysopy.LinkedList

open Sysopy.Foundation Linked

variable {m m' : Memory} {list k : Handle} {xs ys : List Addr} {a b : Addr} {fuel : ℕ}

def DifferentNames (keys : Addr → Option (Option Str × Option Str)) (xs : List Addr) : Prop :=
  xs.Pairwise fun a b => fullName keys a ≠ fullName keys b

instance (keys : Addr → Option (Option Str × Option Str)) (xs : List Addr) :
    Decidable (DifferentNames keys xs) :=
  inferInstanceAs (Decidable (xs.Pairwise _))

theorem compareNodes_eq_iff {keys : Addr → Option (Option Str × Option Str)} :
    compareNodes keys a b = .eq ↔ fullName keys a = fullName keys b := by
  rw [compareNodes, compareNames, Ordering.then_eq_eq, strcmp_eq_eq, strcmp_eq_eq,
    Prod.ext_iff]

theorem compareNodes_congr {keys : Addr → Option (Option Str × Option Str)} (pivot : Addr)
    (h : fullName keys a = fullName keys b) :
    compareNodes keys a pivot = compareNodes keys b pivot := by
  rw [compareNodes, compareNodes, h]

/-! ## §1  Names are different if the sort returns -/

/-- The induction is on the depth of the calls: each of the three lists has been sorted
one call deeper. -/
theorem performQuickListSort_distinct {depth : ℕ} (h : m.Holds list xs)
    (hrun : Memory.performQuickListSort fuel depth m list = some m') :
    DifferentNames m.keys xs := by
  induction depth generalizing m m' list xs with
  | zero => exact nomatch hrun
  | succ depth ih =>
      obtain ⟨first, hfirst, hseg⟩ := h
      cases hseg with
      | nil => exact .nil
      | @cons _ _ pivot x rest hx hprev htail =>
          by_cases hnext : x.next = none
          · obtain rfl := htail.first_eq_none.mp hnext
            exact List.pairwise_singleton _ _
          · obtain ⟨m₁, m₂, m₃, m₄, -, -, -, -, hsplit, hlt, heq, hgt, -⟩ :=
              performQuickListSort_cases hfirst hx hnext hrun
            have hseg : Seg m.node none (some pivot) (pivot :: rest) none :=
              .cons hx hprev htail
            obtain ⟨hparts₁, -, hmoved₁, -⟩ := split_returned hseg hsplit
            obtain ⟨ys₁, hys₁⟩ := performQuickListSort_returned (hparts₁.holds .lt) hlt
            have hparts₂ := hparts₁.sortedTo hys₁
            obtain ⟨ys₂, hys₂⟩ := performQuickListSort_returned (hparts₂.holds .eq) heq
            have hparts₃ := hparts₂.sortedTo hys₂
            have hkeys₂ := hys₁.moved.keys.trans hmoved₁.keys
            have hkeys₃ := hys₂.moved.keys.trans hkeys₂
            refine pairwise_of_sides pivot (fun _ _ => compareNodes_congr pivot) fun o => ?_
            cases o with
            | lt =>
                have hnames := ih (hparts₁.holds .lt) hlt
                rw [hmoved₁.keys] at hnames
                exact hnames
            | eq =>
                have hnames := ih (hparts₂.holds .eq) heq
                rw [hkeys₂] at hnames
                exact hnames
            | gt =>
                have hnames := ih (hparts₃.holds .gt) hgt
                rw [hkeys₃] at hnames
                exact hnames

/-! ## §2  The loops return -/

/-- The loop that splits needs one turn for each node and one more. -/
theorem splitLoop_returns {pivot : Addr} {lesser equal greater : Handle}
    {nodes : Ordering → List Addr} {rest : List Addr} {before first : Option Addr}
    {turns : ℕ} (hparts : Parts m (part lesser equal greater) nodes)
    (hrest : Seg m.node before first rest none) (hapart : ∀ o, ∀ a ∈ nodes o, a ∉ rest)
    (hcomplete : ∀ a ∈ rest, Complete m.keys a) (hpivot : Complete m.keys pivot)
    (hfuel : ∀ o, (nodes o).length + rest.length ≤ fuel) (hturns : rest.length < turns) :
    ∃ m', Memory.splitLoop fuel pivot lesser equal greater turns m first = some m' := by
  induction turns generalizing m before first rest nodes with
  | zero => exact absurd hturns (Nat.not_lt_zero _)
  | succ turns ih =>
      have hnodup := hrest.nodup
      cases hrest with
      | nil => exact ⟨m, rfl⟩
      | @cons _ _ a x rest hx _ htail =>
          obtain ⟨harest, -⟩ := List.nodup_cons.mp hnodup
          have hnot : ∀ o, a ∉ nodes o := fun o hmem => hapart o a hmem List.mem_cons_self
          have hnode : m.splitNode fuel pivot lesser equal greater a = _ :=
            splitNode_of_complete (hcomplete a List.mem_cons_self) hpivot
          generalize compareNodes m.keys a pivot = o at hnode
          have hlength : (nodes o).length ≤ fuel :=
            (Nat.le_add_right _ _).trans (hfuel o)
          -- one turn moves one node; the induction is over what is left
          obtain ⟨m₁, hadd, -⟩ := addElem_holds (hparts.holds o) hx (hnot o) hlength
          obtain ⟨hparts₁, htail₁, hmoved, hmem⟩ :=
            hparts.addNode hx htail harest hapart hadd
          obtain ⟨m', hm'⟩ := ih hparts₁ htail₁
            (fun o' b hb hbrest => by
              rcases hmem o' b hb with hb | rfl
              · exact hapart o' b hb (List.mem_cons_of_mem _ hbrest)
              · exact harest hbrest)
            (fun b hb => hmoved.keys.symm ▸ hcomplete b (List.mem_cons_of_mem _ hb))
            (hmoved.keys.symm ▸ hpivot)
            (fun o' => by
              have hle := hfuel o'
              rw [List.length_cons] at hle
              by_cases ho' : o' = o
              · subst ho'
                rw [Function.update_self, List.length_append, List.length_singleton]
                omega
              · rw [Function.update_of_ne ho']
                omega)
            (Nat.lt_of_succ_lt_succ hturns)
          refine ⟨m', ?_⟩
          rw [Memory.splitLoop, hx, Option.bind_eq_bind, Option.bind_some, hnode, hadd]
          exact hm'

theorem split_returns {pivot : Addr} {first : Option Addr}
    (hseg : Seg m.node none first xs none) (hcomplete : ∀ a ∈ xs, Complete m.keys a)
    (hpivot : Complete m.keys pivot) (hfuel : xs.length < fuel) :
    ∃ m', Memory.splitLoop fuel pivot m.head.length (m.head.length + 1) (m.head.length + 2)
      fuel { m with head := m.head ++ List.replicate 4 none } first = some m' := by
  obtain ⟨hnew, -, -⟩ := newLists m rfl
  refine splitLoop_returns hnew hseg (fun _ _ ha => absurd ha List.not_mem_nil) hcomplete hpivot
    (fun _ => ?_) hfuel
  rw [List.length_nil, Nat.zero_add]
  exact hfuel.le

theorem Joining.returns {handle : Ordering → Handle} {nodes : Ordering → List Addr}
    {result : Handle} {o : Ordering} {todo : List Ordering} (hne : ∀ o, handle o ≠ result)
    (h : Joining m handle nodes result (o :: todo) ys) (hfuel : ys.length ≤ fuel) :
    ∃ m', m.concatNonempty fuel result (handle o) = some m' := by
  obtain ⟨head, hhead, hseg⟩ := h.holds o List.mem_cons_self
  cases head with
  | none =>
      refine ⟨m, ?_⟩
      rw [Memory.concatNonempty, hhead]
      rfl
  | some b =>
      obtain ⟨m', hm', -⟩ := listConcat_holds h.result (h.holds o List.mem_cons_self) (hne o)
        (fun b hb hb' => h.fresh o List.mem_cons_self b hb' hb) hfuel
      refine ⟨m', ?_⟩
      rw [Memory.concatNonempty, hhead]
      exact hm'

theorem reportMissing_returns {before first : Option Addr}
    (h : Seg m.node before first xs none) (hfuel : xs.length < fuel) :
    ∃ m', Memory.reportMissing fuel m first = some m' := by
  induction fuel generalizing m before first xs with
  | zero => exact absurd hfuel (Nat.not_lt_zero _)
  | succ fuel ih =>
      cases h with
      | nil => exact ⟨m, rfl⟩
      | @cons _ _ a x xs hx _ htail =>
          rw [Memory.reportMissing, hx, Option.bind_eq_bind, Option.bind_some]
          split_ifs
          · exact ih htail (Nat.lt_of_succ_lt_succ hfuel)
          · exact ih htail (Nat.lt_of_succ_lt_succ hfuel)

/-! ## §3  The sort returns -/

/-- Where all names are different, each side lacks one of the first two nodes. -/
theorem side_shorter {keys : Addr → Option (Option Str × Option Str)} {rest : List Addr}
    (h : DifferentNames keys (a :: b :: rest)) (o : Ordering) :
    (side (compareNodes keys) a (a :: b :: rest) o).length < (a :: b :: rest).length := by
  have hself : compareNodes keys a a = .eq := Std.ReflCmp.compare_self
  cases o with
  | lt => exact side_length_lt List.mem_cons_self (by simp [hself])
  | eq =>
      refine side_length_lt (List.mem_cons_of_mem _ List.mem_cons_self) fun heq => ?_
      have hne := (List.pairwise_cons.mp h).1 b List.mem_cons_self
      exact hne (compareNodes_eq_iff.mp heq).symm
  | gt => exact side_length_lt List.mem_cons_self (by simp [hself])

/-- Three calls return if each does whatever the calls before it have done. -/
theorem Parts.sort_returns {run : Memory → Handle → Option Memory}
    {handle : Ordering → Handle} {nodes : Ordering → List Addr}
    (hrun : ∀ {m m' list xs}, m.Holds list xs → run m list = some m' →
      ∃ ys, SortedTo m m' list xs ys)
    (h : Parts m handle nodes)
    (hcall : ∀ o m₀, m₀.keys = m.keys → m₀.Holds (handle o) (nodes o) →
      ∃ m', run m₀ (handle o) = some m') :
    ∃ m₁ m₂ m₃, run m (handle .lt) = some m₁ ∧ run m₁ (handle .eq) = some m₂ ∧
      run m₂ (handle .gt) = some m₃ := by
  obtain ⟨m₁, h₁⟩ := hcall .lt m rfl (h.holds .lt)
  obtain ⟨ys₁, hys₁⟩ := hrun (h.holds .lt) h₁
  have hparts₁ := h.sortedTo hys₁
  obtain ⟨m₂, h₂⟩ := hcall .eq m₁ hys₁.moved.keys (hparts₁.holds .eq)
  obtain ⟨ys₂, hys₂⟩ := hrun (hparts₁.holds .eq) h₂
  have hparts₂ := hparts₁.sortedTo hys₂
  obtain ⟨m₃, h₃⟩ := hcall .gt m₂ (hys₂.moved.keys.trans hys₁.moved.keys) (hparts₂.holds .gt)
  exact ⟨m₁, m₂, m₃, h₁, h₂, h₃⟩

theorem Parts.concat_returns {handle : Ordering → Handle} {nodes : Ordering → List Addr}
    {result : Handle} (h : Parts m handle nodes) (hresult : m.Holds result [])
    (hne : ∀ o, handle o ≠ result) (hfuel : (nodes .lt ++ nodes .eq).length ≤ fuel) :
    ∃ m₁ m₂ m₃, m.concatNonempty fuel result (handle .lt) = some m₁ ∧
      m₁.concatNonempty fuel result (handle .eq) = some m₂ ∧
      m₂.concatNonempty fuel result (handle .gt) = some m₃ ∧ ∃ ys, m₃.Holds result ys := by
  obtain ⟨m₁, h₁⟩ := (h.joining hresult).returns hne (Nat.zero_le fuel)
  obtain ⟨hjoin₁, -⟩ := (h.joining hresult).step h hne (by decide) h₁
  rw [List.nil_append] at hjoin₁
  have hfuel₁ : (nodes .lt).length ≤ fuel := by
    rw [List.length_append] at hfuel
    exact (Nat.le_add_right _ _).trans hfuel
  obtain ⟨m₂, h₂⟩ := hjoin₁.returns hne hfuel₁
  obtain ⟨hjoin₂, -⟩ := hjoin₁.step h hne (by decide) h₂
  obtain ⟨m₃, h₃⟩ := hjoin₂.returns hne hfuel
  obtain ⟨hjoin₃, -⟩ := hjoin₂.step h hne (by decide) h₃
  exact ⟨m₁, m₂, m₃, h₁, h₂, h₃, _, hjoin₃.result⟩

theorem performQuickListSort_of_calls {pivot : Addr} {x : Node} {depth : ℕ}
    {m₁ m₂ m₃ m₄ m₅ m₆ m₇ : Memory} {head : Option Addr}
    (hhead : m.head[list]? = some (some pivot)) (hx : m.node pivot = some x)
    (hnext : x.next ≠ none)
    (h₁ : Memory.splitLoop fuel pivot m.head.length (m.head.length + 1) (m.head.length + 2) fuel
      { m with head := m.head ++ List.replicate 4 none } (some pivot) = some m₁)
    (h₂ : Memory.performQuickListSort fuel depth m₁ m.head.length = some m₂)
    (h₃ : Memory.performQuickListSort fuel depth m₂ (m.head.length + 1) = some m₃)
    (h₄ : Memory.performQuickListSort fuel depth m₃ (m.head.length + 2) = some m₄)
    (h₅ : m₄.concatNonempty fuel (m.head.length + 3) m.head.length = some m₅)
    (h₆ : m₅.concatNonempty fuel (m.head.length + 3) (m.head.length + 1) = some m₆)
    (h₇ : m₆.concatNonempty fuel (m.head.length + 3) (m.head.length + 2) = some m₇)
    (h₈ : m₇.head[m.head.length + 3]? = some head) :
    Memory.performQuickListSort fuel (depth + 1) m list = some (m₇.setHead list head) := by
  obtain ⟨b, hb⟩ := Option.ne_none_iff_exists'.mp hnext
  simp only [Memory.performQuickListSort, hhead, hx, hb, Memory.createList,
    Option.bind_eq_bind, Option.bind_some, List.length_append, List.length_singleton,
    List.append_assoc, List.singleton_append]
  refine Option.bind_eq_some_iff.mpr ⟨m₁, h₁, Option.bind_eq_some_iff.mpr ⟨m₂, h₂, ?_⟩⟩
  refine Option.bind_eq_some_iff.mpr ⟨m₃, h₃, Option.bind_eq_some_iff.mpr ⟨m₄, h₄, ?_⟩⟩
  refine Option.bind_eq_some_iff.mpr ⟨m₅, h₅, Option.bind_eq_some_iff.mpr ⟨m₆, h₆, ?_⟩⟩
  exact Option.bind_eq_some_iff.mpr ⟨m₇, h₇, Option.bind_eq_some_iff.mpr ⟨head, h₈, rfl⟩⟩

/-- **Different names make every list shorter** than the one that is split, so that a
call is at most as deep as the list has nodes. -/
theorem performQuickListSort_returns {depth : ℕ} (h : m.Holds list xs)
    (hcomplete : ∀ a ∈ xs, Complete m.keys a) (hnames : DifferentNames m.keys xs)
    (hfuel : xs.length < fuel) (hdepth : xs.length < depth) :
    ∃ m', Memory.performQuickListSort fuel depth m list = some m' := by
  induction depth generalizing m list xs with
  | zero => exact absurd hdepth (Nat.not_lt_zero _)
  | succ depth ih =>
      obtain ⟨first, hfirst, hseg⟩ := h
      cases hseg with
      | nil =>
          refine ⟨m, ?_⟩
          simp only [Memory.performQuickListSort, hfirst, Option.bind_eq_bind, Option.bind_some]
      | @cons _ _ pivot x rest hx hprev htail =>
          by_cases hnext : x.next = none
          · refine ⟨m, ?_⟩
            simp only [Memory.performQuickListSort, hfirst, hx, hnext, Option.bind_eq_bind,
              Option.bind_some]
          · have hseg : Seg m.node none (some pivot) (pivot :: rest) none :=
              .cons hx hprev htail
            obtain ⟨b, rest, rfl⟩ := List.exists_cons_of_ne_nil
              fun hnil => hnext (htail.first_eq_none.mpr hnil)
            obtain ⟨m₁, hsplit⟩ := split_returns hseg hcomplete
              (hcomplete pivot List.mem_cons_self) hfuel
            obtain ⟨hparts₁, hresult₁, hmoved₁, -⟩ := split_returned hseg hsplit
            -- whatever the other two calls do, the nodes of a side have their keys
            have hcall : ∀ o m₀, m₀.keys = m₁.keys → m₀.Holds
                (part m.head.length (m.head.length + 1) (m.head.length + 2) o)
                (side (compareNodes m.keys) pivot (pivot :: b :: rest) o) →
                ∃ m', Memory.performQuickListSort fuel depth m₀
                  (part m.head.length (m.head.length + 1) (m.head.length + 2) o) = some m' := by
              intro o m₀ hkeys hholds
              have hshort := side_shorter hnames o
              refine ih hholds ?_ ?_ (hshort.trans hfuel)
                (Nat.lt_of_lt_of_le hshort (Nat.le_of_lt_succ hdepth))
              · rw [hkeys, hmoved₁.keys]
                exact fun a ha => hcomplete a (mem_side.mp ha).1
              · rw [hkeys, hmoved₁.keys]
                exact hnames.sublist List.filter_sublist
            obtain ⟨m₂, m₃, m₄, hlt, heq, hgt⟩ :=
              hparts₁.sort_returns (fun h hrun => performQuickListSort_returned h hrun) hcall
            obtain ⟨sorted, hparts₂, hperm, -, -, hmoved₂⟩ := hparts₁.sort
              (fun h hrun => performQuickListSort_returned h hrun)
              (fun o a ha => (mem_side.mp ha).1) hlt heq hgt
            have hresult₂ : m₄.Holds (m.head.length + 3) [] :=
              hmoved₂.holds hresult₁ (by simp [part]) fun _ ha => absurd ha List.not_mem_nil
            have hlength : (sorted .lt ++ sorted .eq).length ≤ fuel := by
              have htotal := (((hperm .lt).append (hperm .eq)).append (hperm .gt)).length_eq
              rw [(side_perm pivot (pivot :: b :: rest)).length_eq, List.length_append] at htotal
              omega
            obtain ⟨m₅, m₆, m₇, hcat₁, hcat₂, hcat₃, zs, head, hhead, -⟩ :=
              hparts₂.concat_returns hresult₂ (by rintro (_ | _ | _) <;> simp [part]) hlength
            exact ⟨_, performQuickListSort_of_calls hfirst hx hnext hsplit hlt heq hgt hcat₁
              hcat₂ hcat₃ hhead⟩

/-! ## §4  list_sort -/

theorem listSort_distinct (h : m.Holds list xs)
    (hrun : m.listSort fuel (some list) = some m') : DifferentNames m.keys xs := by
  obtain ⟨first, hfirst, hseg⟩ := h
  obtain ⟨head, hhead, hrun⟩ := Option.bind_eq_some_iff.mp hrun
  obtain rfl := Option.some.inj (hfirst.symm.trans hhead)
  cases first with
  | none =>
      obtain rfl := hseg.first_eq_none.mp rfl
      exact .nil
  | some a =>
      obtain ⟨m₁, hreport, hrun⟩ := Option.bind_eq_some_iff.mp hrun
      obtain ⟨printed, rfl⟩ := reportMissing_returned hreport
      exact performQuickListSort_distinct (m := { m with printed := printed })
        ⟨some a, hfirst, hseg⟩ hrun

theorem listSort_returns (h : m.Holds list xs) (hcomplete : ∀ a ∈ xs, Complete m.keys a)
    (hnames : DifferentNames m.keys xs) (hfuel : xs.length < fuel) :
    ∃ m', m.listSort fuel (some list) = some m' := by
  obtain ⟨first, hfirst, hseg⟩ := h
  cases first with
  | none =>
      refine ⟨m.print "Cannot sort NULL or empty list.\n", ?_⟩
      rw [Memory.listSort, hfirst]
      rfl
  | some a =>
      obtain ⟨m₁, hreport⟩ := reportMissing_returns hseg hfuel
      obtain ⟨printed, rfl⟩ := reportMissing_returned hreport
      have h : Memory.Holds { m with printed := printed } list xs := ⟨some a, hfirst, hseg⟩
      obtain ⟨m', hm'⟩ := performQuickListSort_returns h hcomplete hnames hfuel hfuel
      refine ⟨m', ?_⟩
      rw [Memory.listSort, hfirst, Option.bind_eq_bind, Option.bind_some, Option.bind_eq_bind,
        hreport]
      exact hm'
/-! ## §5  Which lists are sorted -/

/-- **`list_sort` returns exactly for the lists without two equal full names.** -/
theorem listSort_returns_iff (h : m.Holds list xs) (hcomplete : ∀ a ∈ xs, Complete m.keys a) :
    (∃ fuel m', m.listSort fuel (some list) = some m') ↔ DifferentNames m.keys xs := by
  constructor
  · rintro ⟨fuel, m', hrun⟩
    exact listSort_distinct h hrun
  · intro hnames
    exact ⟨_, listSort_returns h hcomplete hnames (Nat.lt_succ_self xs.length)⟩

/-- Two nodes in one list, the second with the given name, and an empty list. -/
def pairList (name : Str) : Memory where
  node a := if a = 10 then some ⟨some [78], some [83], some 20, none⟩
    else if a = 20 then some ⟨some name, some [83], none, some 10⟩ else none
  head := [some 10, none]
  printed := []

theorem pairList_holds (name : Str) : (pairList name).Holds 0 [10, 20] := by
  refine ⟨some 10, rfl, .cons (x := ⟨some [78], some [83], some 20, none⟩) rfl rfl ?_⟩
  exact .cons (x := ⟨some name, some [83], none, some 10⟩) rfl rfl .nil

theorem pairList_complete (name : Str) : ∀ a ∈ [10, 20], Complete (pairList name).keys a := by
  intro a ha
  rcases List.mem_cons.mp ha with rfl | ha
  · exact ⟨[78], [83], rfl⟩
  · obtain rfl := List.mem_singleton.mp ha
    exact ⟨name, [83], rfl⟩

theorem listSort_returns_iff_pair :
    ∃ fuel m', (pairList [77]).listSort fuel (some 0) = some m' :=
  (listSort_returns_iff (pairList_holds [77]) (pairList_complete [77])).mpr (by decide)

/-- Two people of one name. -/
theorem listSort_twins : (pairList [78]).Holds 0 [10, 20] ∧
    (∀ a ∈ [10, 20], Complete (pairList [78]).keys a) ∧
    ¬∃ fuel m', (pairList [78]).listSort fuel (some 0) = some m' := by
  refine ⟨pairList_holds [78], pairList_complete [78], ?_⟩
  rintro ⟨fuel, m', hrun⟩
  exact absurd (listSort_distinct (pairList_holds [78]) hrun) (by decide)

/-- **Whenever `list_sort` returns, the list is well formed and sorted**: it has the same
nodes, each once and with its keys, in the order of surname and then name. -/
theorem listSort_sorts (h : m.Holds list xs) (hcomplete : ∀ a ∈ xs, Complete m.keys a) :
    (∀ fuel m', m.listSort fuel (some list) = some m' →
      ∃ ys, m'.Holds list ys ∧ ys.Perm xs ∧ ys.Nodup ∧ m'.keys = m.keys ∧
        Ascending (compareNodes m.keys) ys) ∧
    (DifferentNames m.keys xs → ∃ fuel m', m.listSort fuel (some list) = some m') := by
  refine ⟨fun fuel m' hrun => ?_, fun hnames => ?_⟩
  · obtain ⟨ys, hys⟩ := listSort_returned h hrun
    obtain ⟨first, -, hseg⟩ := hys.holds
    exact ⟨ys, hys.holds, hys.perm, hseg.nodup, hys.moved.keys, hys.ascending⟩
  · exact ⟨_, listSort_returns h hcomplete hnames (Nat.lt_succ_self xs.length)⟩

/-- The second node comes first. -/
theorem listSort_sorts_pair : ∃ fuel m', (pairList [77]).listSort fuel (some 0) = some m' ∧
    ∃ ys, m'.Holds 0 ys ∧ ys.Perm [10, 20] ∧ ys.Nodup ∧ m'.keys = (pairList [77]).keys ∧
      Ascending (compareNodes (pairList [77]).keys) ys := by
  obtain ⟨hsorts, hreturns⟩ := listSort_sorts (pairList_holds [77]) (pairList_complete [77])
  obtain ⟨fuel, m', hrun⟩ := hreturns (by decide)
  exact ⟨fuel, m', hrun, hsorts fuel m' hrun⟩

end Sysopy.LinkedList
