import Sysopy.Foundation.Ascending
import Sysopy.LinkedList.Links

/-!
# Sorting relinks the nodes in order

When `perform_quick_list_sort` returns, the list has the same nodes in ascending order
of surname and then name. The nodes of the list are moved to the three temporary lists
one by one; how far this has come is given by what the three lists hold, and the nodes
that are still to be moved are a segment that no list owns.

## Sections

* §1 what may change
* §2 the order of full names
* §3 the split
* §4 the sort
-/

namespace Sysopy.LinkedList

open Sysopy.Foundation Linked

variable {m m' m'' : Memory} {list k : Handle} {hs hs' : List Handle} {xs ys zs : List Addr}
  {a : Addr} {fuel : ℕ}

/-! ## §1  What may change -/

/-- At most the heads `hs` and the links of the nodes `xs` have changed; lists may have
been created. -/
structure Moved (m m' : Memory) (hs : List Handle) (xs : List Addr) : Prop where
  length : m.head.length ≤ m'.head.length
  heads : ∀ k, k < m.head.length → k ∉ hs → m'.head[k]? = m.head[k]?
  frame : ∀ a, a ∉ xs → m'.node a = m.node a
  keys : m'.keys = m.keys

namespace Moved

theorem refl (m : Memory) (hs : List Handle) (xs : List Addr) : Moved m m hs xs where
  length := Nat.le_refl _
  heads _ _ _ := rfl
  frame _ _ := rfl
  keys := rfl

theorem trans (h : Moved m m' hs xs) (h' : Moved m' m'' hs xs) : Moved m m'' hs xs where
  length := h.length.trans h'.length
  heads k hk hnot := (h'.heads k (Nat.lt_of_lt_of_le hk h.length) hnot).trans (h.heads k hk hnot)
  frame a ha := (h'.frame a ha).trans (h.frame a ha)
  keys := h'.keys.trans h.keys

/-- The heads of lists that have been created since do not count. -/
theorem mono (h : Moved m m' hs xs) (hhs : ∀ k ∈ hs, k ∈ hs' ∨ m.head.length ≤ k)
    (hxs : ∀ a ∈ xs, a ∈ ys) : Moved m m' hs' ys where
  length := h.length
  heads k hk hnot := by
    refine h.heads k hk fun hmem => ?_
    rcases hhs k hmem with hmem | hle
    · exact hnot hmem
    · exact Nat.not_lt.mpr hle hk
  frame a ha := h.frame a fun hmem => ha (hxs a hmem)
  keys := h.keys

theorem of_relinked (h : Relinked m m' list xs []) : Moved m m' [list] xs where
  length := h.length.ge
  heads k _ hk := h.heads k fun heq => hk (List.mem_singleton.mpr heq)
  frame := h.frame
  keys := funext fun a => h.keys a List.not_mem_nil

theorem holds (h : Moved m m' hs xs) (hys : m.Holds k ys) (hk : k ∉ hs)
    (hdisj : ∀ a ∈ ys, a ∉ xs) : m'.Holds k ys := by
  obtain ⟨first, hfirst, hseg⟩ := hys
  refine ⟨first, ?_, hseg.congr fun a ha => h.frame a (hdisj a ha)⟩
  rw [h.heads k (List.getElem?_eq_some_iff.mp hfirst).1 hk, hfirst]

end Moved

theorem setHead_moved (m : Memory) (p : Option Addr) : Moved m (m.setHead list p) [list] xs where
  length := List.length_set.ge
  heads _ _ hk := List.getElem?_set_ne fun heq => hk (List.mem_singleton.mpr heq.symm)
  frame _ _ := rfl
  keys := rfl

/-! ## §2  The order of full names -/

/-- The surname and then the name; a key that is missing counts as empty. -/
def fullName (keys : Addr → Option (Option Str × Option Str)) (a : Addr) : Str × Str :=
  match keys a with
  | some (name, surname) => (surname.getD [], name.getD [])
  | none => ([], [])

/-- The node has both keys. -/
def Complete (keys : Addr → Option (Option Str × Option Str)) (a : Addr) : Prop :=
  ∃ name surname, keys a = some (some name, some surname)

/-- `strcmp` of the surnames and, where they are equal, of the names. -/
def compareNames (k l : Str × Str) : Ordering := (strcmp k.1 l.1).then (strcmp k.2 l.2)

instance : Std.TransCmp compareNames :=
  have : Std.TransCmp fun k l : Str × Str => strcmp k.1 l.1 := transCmp_on Prod.fst
  have : Std.TransCmp fun k l : Str × Str => strcmp k.2 l.2 := transCmp_on Prod.snd
  inferInstanceAs (Std.TransCmp (compareLex (fun k l : Str × Str => strcmp k.1 l.1)
    fun k l => strcmp k.2 l.2))

def compareNodes (keys : Addr → Option (Option Str × Option Str)) (a b : Addr) : Ordering :=
  compareNames (fullName keys a) (fullName keys b)

instance (keys : Addr → Option (Option Str × Option Str)) : Std.TransCmp (compareNodes keys) :=
  transCmp_on (fullName keys)

section Tests

variable {x p : Node} {n s n' s' : Str}

theorem isEqual_eq (hx : x.keys = (some n, some s)) (hp : p.keys = (some n', some s')) :
    Memory.isEqual x p = some (decide (compareNames (s, n) (s', n') = .eq)) := by
  obtain ⟨hn, hs⟩ := Prod.mk.inj hx
  obtain ⟨hn', hs'⟩ := Prod.mk.inj hp
  simp only [Memory.isEqual, Memory.strcmpKeys, hn, hs, hn', hs', Option.bind_eq_bind,
    Option.bind_some]
  rw [show compareNames (s, n) (s', n') = (strcmp s s').then (strcmp n n') from rfl]
  cases strcmp n n' <;> cases strcmp s s' <;> rfl

theorem isOnSide_eq (hx : x.keys = (some n, some s)) (hp : p.keys = (some n', some s'))
    {o : Ordering} (ho : o ≠ .eq) :
    Memory.isOnSide o x p = some (decide (compareNames (s, n) (s', n') = o)) := by
  obtain ⟨hn, hs⟩ := Prod.mk.inj hx
  obtain ⟨hn', hs'⟩ := Prod.mk.inj hp
  simp only [Memory.isOnSide, Memory.strcmpKeys, hn, hs, hn', hs', Option.bind_eq_bind,
    Option.bind_some]
  rw [show compareNames (s, n) (s', n') = (strcmp s s').then (strcmp n n') from rfl]
  cases strcmp s s' <;> cases o <;> first | rfl | exact absurd rfl ho

/-- Both tests together have read all four keys. -/
theorem complete_of_tests {same before : Bool} (hsame : Memory.isEqual x p = some same)
    (hbefore : Memory.isLesser x p = some before) :
    (∃ n s, x.keys = (some n, some s)) ∧ ∃ n s, p.keys = (some n, some s) := by
  obtain ⟨c, hc, -⟩ := Option.bind_eq_some_iff.mp hsame
  obtain ⟨n, hn, hc⟩ := Option.bind_eq_some_iff.mp hc
  obtain ⟨n', hn', -⟩ := Option.bind_eq_some_iff.mp hc
  obtain ⟨c, hc, -⟩ := Option.bind_eq_some_iff.mp hbefore
  obtain ⟨s, hs, hc⟩ := Option.bind_eq_some_iff.mp hc
  obtain ⟨s', hs', -⟩ := Option.bind_eq_some_iff.mp hc
  exact ⟨⟨n, s, Prod.ext hn hs⟩, n', s', Prod.ext hn' hs'⟩

end Tests

/-! ## §3  The split -/

def part (lesser equal greater : Handle) : Ordering → Handle
  | .lt => lesser
  | .eq => equal
  | .gt => greater

/-- Three lists that no node is in twice. -/
structure Parts (m : Memory) (handle : Ordering → Handle) (nodes : Ordering → List Addr) :
    Prop where
  holds : ∀ o, m.Holds (handle o) (nodes o)
  apart : ∀ o o', o ≠ o' → ∀ a ∈ nodes o, a ∉ nodes o'
  handles : ∀ o o', o ≠ o' → handle o ≠ handle o'

theorem Parts.update {handle : Ordering → Handle} {nodes : Ordering → List Addr}
    {o : Ordering} (h : Parts m handle nodes) (hm : Moved m m' [handle o] zs)
    (hys : m'.Holds (handle o) ys)
    (hother : ∀ o', o' ≠ o → ∀ a ∈ nodes o', a ∉ zs ∧ a ∉ ys) :
    Parts m' handle (Function.update nodes o ys) where
  holds o' := by
    by_cases ho : o' = o
    · subst ho
      rwa [Function.update_self]
    · rw [Function.update_of_ne ho]
      refine hm.holds (h.holds o') ?_ fun a ha => (hother o' ho a ha).1
      rw [List.mem_singleton]
      exact h.handles o' o ho
  apart o₁ o₂ hne a := by
    by_cases h₁ : o₁ = o
    · subst h₁
      rw [Function.update_self, Function.update_of_ne hne.symm]
      exact fun ha ha' => (hother o₂ hne.symm a ha').2 ha
    · rw [Function.update_of_ne h₁]
      intro ha
      by_cases h₂ : o₂ = o
      · subst h₂
        rw [Function.update_self]
        exact (hother o₁ h₁ a ha).2
      · rw [Function.update_of_ne h₂]
        exact h.apart o₁ o₂ hne a ha
  handles := h.handles

theorem splitNode_of_complete {pivot : Addr} {lesser equal greater : Handle}
    (ha : Complete m.keys a) (hpivot : Complete m.keys pivot) :
    m.splitNode fuel pivot lesser equal greater a =
      m.addElem fuel (some (part lesser equal greater (compareNodes m.keys a pivot)))
        (some a) := by
  obtain ⟨n, s, hakeys⟩ := ha
  obtain ⟨n', s', hpkeys⟩ := hpivot
  obtain ⟨x, hx, hxkeys⟩ := Option.map_eq_some_iff.mp hakeys
  obtain ⟨p, hp, hp'⟩ := Option.map_eq_some_iff.mp hpkeys
  have hcompare : compareNodes m.keys a pivot = compareNames (s, n) (s', n') := by
    simp only [compareNodes, fullName, hakeys, hpkeys, Option.getD_some]
  rw [hcompare]
  simp only [Memory.splitNode, hx, hp, Option.bind_eq_bind, Option.bind_some,
    isEqual_eq hxkeys hp', Memory.isLesser, Memory.isGreater,
    isOnSide_eq (o := .lt) hxkeys hp' (by decide), isOnSide_eq (o := .gt) hxkeys hp' (by decide)]
  -- two of the three tests fail, and `m` goes through them
  cases compareNames (s, n) (s', n') with
  | lt =>
      simp only [Memory.addElemIf, reduceCtorEq, decide_false, decide_true, if_true, if_false,
        Bool.false_eq_true, Option.bind_some, part, Option.bind_fun_some]
  | eq =>
      simp only [Memory.addElemIf, reduceCtorEq, decide_false, decide_true, if_true, if_false,
        Bool.false_eq_true, part, Option.bind_fun_some]
  | gt =>
      simp only [Memory.addElemIf, reduceCtorEq, decide_false, decide_true, if_true, if_false,
        Bool.false_eq_true, Option.bind_some, part]

theorem splitNode_eq {pivot : Addr} {lesser equal greater : Handle}
    (hrun : m.splitNode fuel pivot lesser equal greater a = some m') :
    Complete m.keys a ∧ Complete m.keys pivot ∧
      m.addElem fuel (some (part lesser equal greater (compareNodes m.keys a pivot)))
        (some a) = some m' := by
  obtain ⟨x, hx, h₁⟩ := Option.bind_eq_some_iff.mp hrun
  obtain ⟨p, hp, h₂⟩ := Option.bind_eq_some_iff.mp h₁
  obtain ⟨same, hsame, h₃⟩ := Option.bind_eq_some_iff.mp h₂
  obtain ⟨m₁, -, h₄⟩ := Option.bind_eq_some_iff.mp h₃
  obtain ⟨before, hbefore, -⟩ := Option.bind_eq_some_iff.mp h₄
  obtain ⟨⟨n, s, hxkeys⟩, n', s', hpkeys⟩ := complete_of_tests hsame hbefore
  have ha : Complete m.keys a := ⟨n, s, by rw [Memory.keys, hx, Option.map_some, hxkeys]⟩
  have hpivot : Complete m.keys pivot :=
    ⟨n', s', by rw [Memory.keys, hp, Option.map_some, hpkeys]⟩
  refine ⟨ha, hpivot, ?_⟩
  rw [← splitNode_of_complete ha hpivot]
  exact hrun

theorem Parts.addNode {handle : Ordering → Handle} {nodes : Ordering → List Addr}
    {o : Ordering} {x : Node} {rest : List Addr} (h : Parts m handle nodes)
    (hx : m.node a = some x) (htail : Seg m.node (some a) x.next rest none) (ha : a ∉ rest)
    (hapart : ∀ o, ∀ b ∈ nodes o, b ∉ a :: rest)
    (hadd : m.addElem fuel (some (handle o)) (some a) = some m') :
    Parts m' handle (Function.update nodes o (nodes o ++ [a])) ∧
      Seg m'.node (some a) x.next rest none ∧ Moved m m' [handle o] (nodes o ++ [a]) ∧
      ∀ o', ∀ b ∈ Function.update nodes o (nodes o ++ [a]) o', b ∈ nodes o' ∨ b = a := by
  have hnot : ∀ o', a ∉ nodes o' := fun o' hmem => hapart o' a hmem List.mem_cons_self
  obtain ⟨hholds, hrel, -⟩ := addElem_returned (h.holds o) hx (hnot o) hadd
  have hmoved := Moved.of_relinked hrel
  refine ⟨h.update hmoved hholds ?_, htail.congr ?_, hmoved, ?_⟩
  · intro o' hne b hb
    rw [and_self, List.mem_append, List.mem_singleton, not_or]
    exact ⟨h.apart o' o hne b hb, ne_of_mem_of_not_mem hb (hnot o')⟩
  · intro b hb
    refine hmoved.frame b fun hmem => ?_
    rcases List.mem_append.mp hmem with hmem | hmem
    · exact hapart o b hmem (List.mem_cons_of_mem _ hb)
    · exact ha (List.mem_singleton.mp hmem ▸ hb)
  · intro o' b hb
    by_cases ho' : o' = o
    · subst ho'
      rwa [Function.update_self, List.mem_append, List.mem_singleton] at hb
    · rw [Function.update_of_ne ho'] at hb
      exact Or.inl hb

/-- **The loop that splits** moves every node that is left to the list of its side. -/
theorem splitLoop_returned {pivot : Addr} {lesser equal greater : Handle}
    {nodes : Ordering → List Addr} {rest : List Addr} {before first : Option Addr}
    {turns : ℕ} (hparts : Parts m (part lesser equal greater) nodes)
    (hrest : Seg m.node before first rest none) (hapart : ∀ o, ∀ a ∈ nodes o, a ∉ rest)
    (hin : ∀ o, ∀ a ∈ nodes o, a ∈ xs) (hrestin : ∀ a ∈ rest, a ∈ xs)
    (hrun : Memory.splitLoop fuel pivot lesser equal greater turns m first = some m') :
    Parts m' (part lesser equal greater)
        (fun o => nodes o ++ side (compareNodes m.keys) pivot rest o) ∧
      Moved m m' [lesser, equal, greater] xs ∧ ∀ a ∈ rest, Complete m.keys a := by
  induction turns generalizing m before first rest nodes with
  | zero => exact nomatch hrun
  | succ turns ih =>
      have hnodup := hrest.nodup
      cases hrest with
      | nil =>
          obtain rfl := Option.some.inj hrun
          refine ⟨?_, .refl _ _ _, fun a ha => absurd ha List.not_mem_nil⟩
          simpa only [side, List.filter_nil, List.append_nil] using hparts
      | @cons _ _ a x rest hx _ htail =>
          obtain ⟨harest, hnodup⟩ := List.nodup_cons.mp hnodup
          obtain ⟨y, hy, hrun⟩ := Option.bind_eq_some_iff.mp hrun
          obtain rfl := Option.some.inj (hx.symm.trans hy)
          obtain ⟨m₁, hnode, hrun⟩ := Option.bind_eq_some_iff.mp hrun
          -- `rest` keeps its links because `add_elem` stores only into the list and `a`
          obtain ⟨hcomplete, -, hadd⟩ := splitNode_eq hnode
          generalize ho : compareNodes m.keys a pivot = o at hadd
          obtain ⟨hparts₁, htail₁, hmoved, hmem⟩ :=
            hparts.addNode hx htail harest hapart hadd
          obtain ⟨hparts', hmoved', hcompletes⟩ := ih hparts₁ htail₁
            (fun o' b hb hbrest => by
              rcases hmem o' b hb with hb | rfl
              · exact hapart o' b hb (List.mem_cons_of_mem _ hbrest)
              · exact harest hbrest)
            (fun o' b hb => by
              rcases hmem o' b hb with hb | rfl
              · exact hin o' b hb
              · exact hrestin b List.mem_cons_self)
            (fun b hb => hrestin b (List.mem_cons_of_mem _ hb)) hrun
          have hnodes : ∀ o', Function.update nodes o (nodes o ++ [a]) o' ++
              side (compareNodes m.keys) pivot rest o' =
                nodes o' ++ side (compareNodes m.keys) pivot (a :: rest) o' := by
            intro o'
            by_cases ho' : o' = o
            · subst ho'
              rw [Function.update_self, side_cons, if_pos ho, List.append_assoc]
              rfl
            · rw [Function.update_of_ne ho', side_cons, if_neg (by rw [ho]; exact Ne.symm ho')]
          rw [hmoved.keys] at hparts' hcompletes
          simp only [hnodes] at hparts'
          refine ⟨hparts', .trans (hmoved.mono (fun k hk => Or.inl ?_) fun b hb => ?_) hmoved',
            fun b hb => ?_⟩
          · obtain rfl := List.mem_singleton.mp hk
            cases o <;> simp [part]
          · rcases List.mem_append.mp hb with hb | hb
            · exact hin o b hb
            · exact hrestin b (List.mem_singleton.mp hb ▸ List.mem_cons_self)
          · rcases List.mem_cons.mp hb with rfl | hb
            · exact hcomplete
            · exact hcompletes b hb

/-! ## §4  The sort -/

/-- What a sort that has returned did to the list `xs`. -/
structure SortedTo (m m' : Memory) (list : Handle) (xs ys : List Addr) : Prop where
  holds : m'.Holds list ys
  perm : ys.Perm xs
  ascending : Ascending (compareNodes m.keys) ys
  moved : Moved m m' [list] xs
  complete : 2 ≤ xs.length → ∀ a ∈ xs, Complete m.keys a
  /-- the first node stays the first if no other one comes before it -/
  stays : ∀ a, xs.head? = some a → (∀ b ∈ xs, compareNodes m.keys b a ≠ .lt) →
    ys.head? = some a

theorem Parts.sortedTo {handle : Ordering → Handle} {nodes : Ordering → List Addr}
    {o : Ordering} (h : Parts m handle nodes) (hs : SortedTo m m' (handle o) (nodes o) ys) :
    Parts m' handle (Function.update nodes o ys) :=
  h.update hs.moved hs.holds fun o' hne a ha =>
    ⟨h.apart o' o hne a ha, fun hmem => h.apart o' o hne a ha (hs.perm.mem_iff.mp hmem)⟩

theorem concatNonempty_returned (h : m.Holds list xs) (h' : m.Holds k ys) (hk : k ≠ list)
    (hdisj : ∀ b ∈ xs, b ∉ ys) (hrun : m.concatNonempty fuel list k = some m') :
    m'.Holds list (xs ++ ys) ∧ Moved m m' [list, k] (xs ++ ys) := by
  obtain ⟨head, hhead, hrun⟩ := Option.bind_eq_some_iff.mp hrun
  cases head with
  | none =>
      obtain rfl := Option.some.inj hrun
      have hnil : ys = [] := h'.unique ⟨none, hhead, .nil⟩
      subst hnil
      rw [List.append_nil]
      exact ⟨h, .refl _ _ _⟩
  | some b =>
      obtain ⟨hholds, -, hheads, hlength, hframe, hkeys⟩ :=
        listConcat_returned h h' hk hdisj hrun
      refine ⟨hholds, hlength.ge, fun l _ hl => ?_, hframe, funext hkeys⟩
      rw [List.mem_cons, List.mem_singleton, not_or] at hl
      exact hheads l hl.1 hl.2

/-- The nodes `ys` have been joined, and the lists on the sides `todo` are still to be. -/
structure Joining (m : Memory) (handle : Ordering → Handle) (nodes : Ordering → List Addr)
    (result : Handle) (todo : List Ordering) (ys : List Addr) : Prop where
  result : m.Holds result ys
  holds : ∀ o ∈ todo, m.Holds (handle o) (nodes o)
  fresh : ∀ o ∈ todo, ∀ b ∈ nodes o, b ∉ ys

theorem Joining.step {m₀ : Memory} {handle : Ordering → Handle} {nodes : Ordering → List Addr}
    {result : Handle} {o : Ordering} {todo : List Ordering} (hparts : Parts m₀ handle nodes)
    (hne : ∀ o, handle o ≠ result) (ho : o ∉ todo)
    (h : Joining m handle nodes result (o :: todo) ys)
    (hrun : m.concatNonempty fuel result (handle o) = some m') :
    Joining m' handle nodes result todo (ys ++ nodes o) ∧
      Moved m m' [result, handle o] (ys ++ nodes o) := by
  have hfresh : ∀ o' ∈ todo, ∀ b ∈ nodes o', b ∉ ys ++ nodes o := by
    intro o' ho' b hb hmem
    rcases List.mem_append.mp hmem with hmem | hmem
    · exact h.fresh o' (List.mem_cons_of_mem _ ho') b hb hmem
    · exact hparts.apart o' o (fun heq => ho (heq ▸ ho')) b hb hmem
  obtain ⟨hholds, hmoved⟩ := concatNonempty_returned h.result
    (h.holds o List.mem_cons_self) (hne o)
    (fun b hb hb' => h.fresh o List.mem_cons_self b hb' hb) hrun
  refine ⟨⟨hholds, fun o' ho' => ?_, hfresh⟩, hmoved⟩
  refine hmoved.holds (h.holds o' (List.mem_cons_of_mem _ ho')) ?_ (hfresh o' ho')
  simp [hne o', hparts.handles o' o fun heq => ho (heq ▸ ho')]

theorem Parts.joining {handle : Ordering → Handle} {nodes : Ordering → List Addr}
    {result : Handle} (h : Parts m handle nodes) (hresult : m.Holds result []) :
    Joining m handle nodes result [.lt, .eq, .gt] [] :=
  ⟨hresult, fun o _ => h.holds o, fun _ _ _ _ => List.not_mem_nil⟩

theorem Parts.concat {handle : Ordering → Handle} {nodes : Ordering → List Addr}
    {result : Handle} {m₁ m₂ m₃ : Memory} (h : Parts m handle nodes)
    (hresult : m.Holds result []) (hne : ∀ o, handle o ≠ result)
    (h₁ : m.concatNonempty fuel result (handle .lt) = some m₁)
    (h₂ : m₁.concatNonempty fuel result (handle .eq) = some m₂)
    (h₃ : m₂.concatNonempty fuel result (handle .gt) = some m₃) :
    m₃.Holds result (nodes .lt ++ nodes .eq ++ nodes .gt) ∧
      Moved m m₃ [result, handle .lt, handle .eq, handle .gt]
        (nodes .lt ++ nodes .eq ++ nodes .gt) := by
  obtain ⟨hjoin₁, hmoved₁⟩ := (h.joining hresult).step h hne (by decide) h₁
  obtain ⟨hjoin₂, hmoved₂⟩ := hjoin₁.step h hne (by decide) h₂
  obtain ⟨hjoin₃, hmoved₃⟩ := hjoin₂.step h hne (by decide) h₃
  rw [List.nil_append] at hjoin₁ hmoved₁ hjoin₂ hmoved₂ hjoin₃ hmoved₃
  have hsub : ∀ b ∈ nodes .lt ++ nodes .eq, b ∈ nodes .lt ++ nodes .eq ++ nodes .gt :=
    fun b => List.mem_append_left _
  refine ⟨hjoin₃.result, ((hmoved₁.mono ?_ fun b hb => hsub b ?_).trans
    (hmoved₂.mono ?_ hsub)).trans (hmoved₃.mono ?_ fun b hb => hb)⟩
  · simp +contextual
  · exact List.mem_append_left _ hb
  · simp +contextual
  · simp +contextual

theorem Parts.sort {run : Memory → Handle → Option Memory} {handle : Ordering → Handle}
    {nodes : Ordering → List Addr} {m₁ m₂ m₃ : Memory}
    (hrun : ∀ {m m' list xs}, m.Holds list xs → run m list = some m' →
      ∃ ys, SortedTo m m' list xs ys)
    (h : Parts m handle nodes) (hin : ∀ o, ∀ a ∈ nodes o, a ∈ xs)
    (h₁ : run m (handle .lt) = some m₁) (h₂ : run m₁ (handle .eq) = some m₂)
    (h₃ : run m₂ (handle .gt) = some m₃) :
    ∃ sorted : Ordering → List Addr, Parts m₃ handle sorted ∧
      (∀ o, (sorted o).Perm (nodes o)) ∧ (∀ o, Ascending (compareNodes m.keys) (sorted o)) ∧
      (∀ a, (nodes .eq).head? = some a →
        (∀ b ∈ nodes .eq, compareNodes m.keys b a ≠ .lt) → (sorted .eq).head? = some a) ∧
      Moved m m₃ [handle .lt, handle .eq, handle .gt] xs := by
  obtain ⟨ys₁, hys₁⟩ := hrun (h.holds .lt) h₁
  have hparts₁ := h.sortedTo hys₁
  obtain ⟨ys₂, hys₂⟩ := hrun (hparts₁.holds .eq) h₂
  have hparts₂ := hparts₁.sortedTo hys₂
  obtain ⟨ys₃, hys₃⟩ := hrun (hparts₂.holds .gt) h₃
  have hparts₃ := hparts₂.sortedTo hys₃
  have hkeys₁ := hys₁.moved.keys
  have hkeys₂ := hys₂.moved.keys.trans hkeys₁
  refine ⟨_, hparts₃, fun o => ?_, fun o => ?_, ?_, ?_⟩
  · cases o with
    | lt => exact hys₁.perm
    | eq => exact hys₂.perm
    | gt => exact hys₃.perm
  · cases o with
    | lt => exact hys₁.ascending
    | eq => exact hkeys₁ ▸ hys₂.ascending
    | gt => exact hkeys₂ ▸ hys₃.ascending
  · exact hkeys₁ ▸ hys₂.stays
  · refine ((hys₁.moved.mono ?_ (hin .lt)).trans (hys₂.moved.mono ?_ (hin .eq))).trans
      (hys₃.moved.mono ?_ (hin .gt))
    · simp +contextual
    · simp +contextual
    · simp +contextual

theorem performQuickListSort_cases {pivot : Addr} {x : Node} {depth : ℕ}
    (hhead : m.head[list]? = some (some pivot)) (hx : m.node pivot = some x)
    (hnext : x.next ≠ none)
    (hrun : Memory.performQuickListSort fuel (depth + 1) m list = some m') :
    ∃ m₁ m₂ m₃ m₄ m₅ m₆ m₇ head,
      Memory.splitLoop fuel pivot m.head.length (m.head.length + 1) (m.head.length + 2) fuel
        { m with head := m.head ++ List.replicate 4 none } (some pivot) = some m₁ ∧
      Memory.performQuickListSort fuel depth m₁ m.head.length = some m₂ ∧
      Memory.performQuickListSort fuel depth m₂ (m.head.length + 1) = some m₃ ∧
      Memory.performQuickListSort fuel depth m₃ (m.head.length + 2) = some m₄ ∧
      m₄.concatNonempty fuel (m.head.length + 3) m.head.length = some m₅ ∧
      m₅.concatNonempty fuel (m.head.length + 3) (m.head.length + 1) = some m₆ ∧
      m₆.concatNonempty fuel (m.head.length + 3) (m.head.length + 2) = some m₇ ∧
      m₇.head[m.head.length + 3]? = some head ∧ m' = m₇.setHead list head := by
  obtain ⟨b, hb⟩ := Option.ne_none_iff_exists'.mp hnext
  simp only [Memory.performQuickListSort, hhead, hx, hb, Memory.createList,
    Option.bind_eq_bind, Option.bind_some, List.length_append, List.length_singleton,
    List.append_assoc, List.singleton_append] at hrun
  obtain ⟨m₁, h₁, hrun⟩ := Option.bind_eq_some_iff.mp hrun
  obtain ⟨m₂, h₂, hrun⟩ := Option.bind_eq_some_iff.mp hrun
  obtain ⟨m₃, h₃, hrun⟩ := Option.bind_eq_some_iff.mp hrun
  obtain ⟨m₄, h₄, hrun⟩ := Option.bind_eq_some_iff.mp hrun
  obtain ⟨m₅, h₅, hrun⟩ := Option.bind_eq_some_iff.mp hrun
  obtain ⟨m₆, h₆, hrun⟩ := Option.bind_eq_some_iff.mp hrun
  obtain ⟨m₇, h₇, hrun⟩ := Option.bind_eq_some_iff.mp hrun
  obtain ⟨head, h₈, hrun⟩ := Option.bind_eq_some_iff.mp hrun
  exact ⟨m₁, m₂, m₃, m₄, m₅, m₆, m₇, head, h₁, h₂, h₃, h₄, h₅, h₆, h₇, h₈,
    (Option.some.inj hrun).symm⟩

theorem newLists (m : Memory) {m₀ : Memory}
    (hm₀ : { m with head := m.head ++ List.replicate 4 none } = m₀) :
    Parts m₀ (part m.head.length (m.head.length + 1) (m.head.length + 2)) (fun _ => []) ∧
      m₀.Holds (m.head.length + 3) [] ∧ Moved m m₀ [] [] := by
  subst hm₀
  have hnew : ∀ i < 4, Memory.Holds { m with head := m.head ++ List.replicate 4 none }
      (m.head.length + i) [] := by
    refine fun i hi => ⟨none, ?_, .nil⟩
    show (m.head ++ List.replicate 4 none)[m.head.length + i]? = some none
    rw [List.getElem?_append_right (Nat.le_add_right _ _), Nat.add_sub_cancel_left,
      List.getElem?_replicate, if_pos hi]
  refine ⟨⟨fun o => ?_, fun _ _ _ _ ha => absurd ha List.not_mem_nil, ?_⟩, hnew 3 (by decide),
    ⟨by simp, fun k hk _ => List.getElem?_append_left hk, fun _ _ => rfl, rfl⟩⟩
  · cases o with
    | lt => exact hnew 0 (by decide)
    | eq => exact hnew 1 (by decide)
    | gt => exact hnew 2 (by decide)
  · rintro (_ | _ | _) (_ | _ | _) hne <;> simp [part] at hne ⊢

/-- The four lists are created and the nodes are moved to three of them. -/
theorem split_returned {pivot : Addr} {first : Option Addr} {turns : ℕ}
    (hseg : Seg m.node none first xs none)
    (hrun : Memory.splitLoop fuel pivot m.head.length (m.head.length + 1)
      (m.head.length + 2) turns { m with head := m.head ++ List.replicate 4 none } first =
      some m') :
    Parts m' (part m.head.length (m.head.length + 1) (m.head.length + 2))
        (side (compareNodes m.keys) pivot xs) ∧
      m'.Holds (m.head.length + 3) [] ∧
      Moved m m' [m.head.length, m.head.length + 1, m.head.length + 2] xs ∧
      ∀ a ∈ xs, Complete m.keys a := by
  obtain ⟨hparts, hresult, hmoved⟩ := newLists m rfl
  obtain ⟨hparts', hmoved', hcomplete⟩ := splitLoop_returned hparts hseg
    (fun _ _ ha => absurd ha List.not_mem_nil) (fun _ _ ha => absurd ha List.not_mem_nil)
    (fun _ ha => ha) hrun
  simp only [List.nil_append] at hparts'
  exact ⟨hparts', hmoved'.holds hresult (by simp) nofun,
    (hmoved.mono nofun nofun).trans hmoved', hcomplete⟩

/-- If nothing comes before the pivot, the sorted sides begin with it. -/
theorem head?_of_sides {cmp : Addr → Addr → Ordering} [Std.TransCmp cmp] {pivot : Addr}
    {sorted : Ordering → List Addr}
    (hperm : (sorted .lt).Perm (side cmp pivot (pivot :: xs) .lt))
    (hstays : ∀ a, (side cmp pivot (pivot :: xs) .eq).head? = some a →
      (∀ b ∈ side cmp pivot (pivot :: xs) .eq, cmp b a ≠ .lt) → (sorted .eq).head? = some a)
    (hmin : ∀ b ∈ pivot :: xs, cmp b pivot ≠ .lt) :
    (sorted .lt ++ sorted .eq ++ sorted .gt).head? = some pivot := by
  have hlt : side cmp pivot (pivot :: xs) .lt = [] :=
    List.eq_nil_iff_forall_not_mem.mpr fun b hb => hmin b (mem_side.mp hb).1 (mem_side.mp hb).2
  rw [hlt] at hperm
  have heq : (side cmp pivot (pivot :: xs) .eq).head? = some pivot := by
    rw [side_cons, if_pos Std.ReflCmp.compare_self]
    rfl
  rw [List.perm_nil.mp hperm, List.nil_append, List.head?_append,
    hstays pivot heq fun b hb => hmin b (mem_side.mp hb).1]
  rfl

/-- **A sort that returns has put the nodes in ascending order.** -/
theorem performQuickListSort_returned {depth : ℕ} (h : m.Holds list xs)
    (hrun : Memory.performQuickListSort fuel depth m list = some m') :
    ∃ ys, SortedTo m m' list xs ys := by
  induction depth generalizing m m' list xs with
  | zero => exact nomatch hrun
  | succ depth ih =>
      obtain ⟨first, hfirst, hseg⟩ := h
      cases hseg with
      | nil =>
          obtain rfl : m = m' := by
            simpa only [Memory.performQuickListSort, hfirst, Option.bind_eq_bind,
              Option.bind_some, Option.some.injEq] using hrun
          exact ⟨[], ⟨none, hfirst, .nil⟩, .nil, .nil, .refl _ _ _, nofun, nofun⟩
      | @cons _ _ pivot x rest hx hprev htail =>
          by_cases hnext : x.next = none
          · obtain rfl := htail.first_eq_none.mp hnext
            obtain rfl : m = m' := by
              simpa only [Memory.performQuickListSort, hfirst, hx, hnext, Option.bind_eq_bind,
                Option.bind_some, Option.some.injEq] using hrun
            exact ⟨[pivot], ⟨some pivot, hfirst, .cons hx hprev htail⟩, .refl _,
              List.pairwise_singleton _ _, .refl _ _ _,
              fun hle => absurd hle (by simp), fun a ha _ => ha⟩
          · obtain ⟨m₁, m₂, m₃, m₄, m₅, m₆, m₇, head, hsplit, hlt, heq, hgt, hcat₁, hcat₂,
              hcat₃, hhead, rfl⟩ := performQuickListSort_cases hfirst hx hnext hrun
            have hseg : Seg m.node none (some pivot) (pivot :: rest) none :=
              .cons hx hprev htail
            obtain ⟨hparts₁, hresult₁, hmoved₁, hcomplete⟩ := split_returned hseg hsplit
            obtain ⟨sorted, hparts₂, hperm, hasc, hstays, hmoved₂⟩ := hparts₁.sort
              (fun h hrun => ih h hrun) (fun o a ha => (mem_side.mp ha).1) hlt heq hgt
            rw [hmoved₁.keys] at hasc hstays
            have hresult : m₄.Holds (m.head.length + 3) [] :=
              hmoved₂.holds hresult₁ (by simp [part]) nofun
            obtain ⟨hholds, hmoved₃⟩ := hparts₂.concat hresult
              (by rintro (_ | _ | _) <;> simp [part]) hcat₁ hcat₂ hcat₃
            have hys : (sorted .lt ++ sorted .eq ++ sorted .gt).Perm (pivot :: rest) :=
              (((hperm .lt).append (hperm .eq)).append (hperm .gt)).trans (side_perm _ _)
            have hside : ∀ o, ∀ a ∈ sorted o, compareNodes m.keys a pivot = o := fun o a ha =>
              (mem_side.mp ((hperm o).mem_iff.mp ha)).2
            -- the four temporary lists are new, so that only `list` counts
            have hmoved : Moved m m₇ [list] (pivot :: rest) := by
              have hhs : ∀ k ∈ [m.head.length + 3, m.head.length, m.head.length + 1,
                  m.head.length + 2], k ∈ [list] ∨ m.head.length ≤ k := by
                simp
              refine .mono ?_ hhs fun _ ha => ha
              refine .trans (.trans (hmoved₁.mono ?_ fun _ ha => ha)
                (hmoved₂.mono ?_ fun _ ha => ha)) (hmoved₃.mono ?_ fun a => hys.mem_iff.mp)
              · simp +contextual
              · simp +contextual [part]
              · simp +contextual [part]
            have hlist : list < m₇.head.length :=
              Nat.lt_of_lt_of_le (List.getElem?_eq_some_iff.mp hfirst).1 hmoved.length
            refine ⟨sorted .lt ++ sorted .eq ++ sorted .gt, ?_, hys, .join hasc hside, ?_,
              fun _ => hcomplete, ?_⟩
            · obtain ⟨head', hhead', hseg⟩ := hholds
              obtain rfl := Option.some.inj (hhead.symm.trans hhead')
              exact ⟨head, List.getElem?_set_self hlist, hseg⟩
            · exact hmoved.trans (setHead_moved m₇ head)
            · intro a ha hmin
              obtain rfl := Option.some.inj ha
              exact head?_of_sides (hperm .lt) hstays hmin

theorem reportMissing_returned {p : Option Addr}
    (hrun : Memory.reportMissing fuel m p = some m') :
    ∃ printed, m' = { m with printed := printed } := by
  induction fuel generalizing m p with
  | zero => exact nomatch hrun
  | succ fuel ih =>
      cases p with
      | none => exact ⟨m.printed, (Option.some.inj hrun).symm⟩
      | some a =>
          obtain ⟨x, -, hrun⟩ := Option.bind_eq_some_iff.mp hrun
          obtain ⟨printed, hm'⟩ := ih hrun
          split_ifs at hm' with hmissing
          · exact ⟨printed, hm'⟩
          · exact ⟨printed, hm'⟩

theorem listSort_returned (h : m.Holds list xs)
    (hrun : m.listSort fuel (some list) = some m') : ∃ ys, SortedTo m m' list xs ys := by
  obtain ⟨first, hfirst, hseg⟩ := h
  obtain ⟨head, hhead, hrun⟩ := Option.bind_eq_some_iff.mp hrun
  obtain rfl := Option.some.inj (hfirst.symm.trans hhead)
  cases first with
  | none =>
      obtain rfl := hseg.first_eq_none.mp rfl
      obtain rfl := Option.some.inj hrun
      exact ⟨[], ⟨none, hfirst, .nil⟩, .nil, .nil,
        ⟨Nat.le_refl _, fun _ _ _ => rfl, fun _ _ => rfl, rfl⟩, nofun, nofun⟩
  | some a =>
      obtain ⟨m₁, hreport, hrun⟩ := Option.bind_eq_some_iff.mp hrun
      obtain ⟨printed, rfl⟩ := reportMissing_returned hreport
      have h : Memory.Holds { m with printed := printed } list xs := ⟨some a, hfirst, hseg⟩
      obtain ⟨ys, hys⟩ := performQuickListSort_returned h hrun
      exact ⟨ys, hys.holds, hys.perm, hys.ascending,
        ⟨hys.moved.length, hys.moved.heads, hys.moved.frame, hys.moved.keys⟩,
        hys.complete, hys.stays⟩

end Sysopy.LinkedList
