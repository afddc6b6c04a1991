import Sysopy.LinkedList.Links

/-!
# The linked list implements a sequence

`Store` is what a user of the list sees: the nodes that he has allocated with their
keys, and for each list its sequence of nodes. A call changes one sequence. The
functions do the same to the chains in memory, and they return.

## Sections

* §1 sequences
* §2 calls
* §3 memory that represents a store
* §4 one call
* §5 a whole run
-/

namespace Sysopy.LinkedList

open Sysopy.Foundation

/-! ## §1  Sequences -/

/-- The nodes with their keys, and the lists in the order of creation; a list that was
appended to another one has no sequence of its own any more. -/
structure Store where
  node : Addr → Option (Option Str × Option Str)
  list : List (Option (List Addr))

/-- The node is in none of the lists. -/
def Store.Loose (S : Store) (a : Addr) : Prop :=
  ∀ (h : Handle) (xs : List Addr), S.list[h]? = some (some xs) → a ∉ xs

def Store.Named (S : Store) (xs : List Addr) : Prop :=
  ∀ a ∈ xs, ∃ name surname, S.node a = some (some name, some surname)

def Store.find (S : Store) (xs : List Addr) (name surname : Str) : Option Addr :=
  xs.find? fun a => S.node a = some (some name, some surname)

inductive Call
  | createList
  /-- the user allocates a node, with any links -/
  | newNode (a : Addr) (x : Node)
  | addElem (list : Handle) (a : Addr)
  | removeElem (list : Handle) (a : Addr)
  | listConcat (first second : Handle)
  | findElemByFullName (list : Handle) (name surname : Str)

inductive Answer
  | void
  | list (h : Handle)
  | node (p : Option Addr)
deriving DecidableEq

/-- What a call does to the sequences, and when it may be made. -/
inductive Step : Store → Call → Store → Answer → Prop
  | createList {S : Store} :
      Step S .createList { S with list := S.list ++ [some []] } (.list S.list.length)
  | newNode {S : Store} {a : Addr} {x : Node} : S.node a = none →
      Step S (.newNode a x) { S with node := Function.update S.node a (some x.keys) } .void
  | addElem {S : Store} {h : Handle} {a : Addr} {xs : List Addr} :
      S.list[h]? = some (some xs) → (S.node a).isSome → S.Loose a →
      Step S (.addElem h a) { S with list := S.list.set h (some (xs ++ [a])) } .void
  | removeElem {S : Store} {h : Handle} {a : Addr} {xs : List Addr} :
      S.list[h]? = some (some xs) → a ∈ xs →
      Step S (.removeElem h a)
        { node := Function.update S.node a none
          list := S.list.set h (some (xs.erase a)) } .void
  | removeAbsent {S : Store} {h : Handle} {a : Addr} {xs : List Addr} :
      S.list[h]? = some (some xs) → a ∉ xs → Step S (.removeElem h a) S .void
  | listConcat {S : Store} {h k : Handle} {xs ys : List Addr} :
      S.list[h]? = some (some xs) → S.list[k]? = some (some ys) → k ≠ h →
      Step S (.listConcat h k)
        { S with list := (S.list.set h (some (xs ++ ys))).set k none } .void
  | find {S : Store} {h : Handle} {xs : List Addr} {name surname : Str} :
      S.list[h]? = some (some xs) → S.Named xs → name ≠ [] → surname ≠ [] →
      Step S (.findElemByFullName h name surname) S (.node (S.find xs name surname))

inductive Steps : Store → List Call → Store → List Answer → Prop
  | nil {S : Store} : Steps S [] S []
  | cons {S T U : Store} {c : Call} {cs : List Call} {ans : Answer} {rest : List Answer} :
      Step S c T ans → Steps T cs U rest → Steps S (c :: cs) U (ans :: rest)

/-! ## §2  Calls -/

/-- The call on memory, with loops of at most `fuel` turns. -/
def Memory.call (fuel : ℕ) (m : Memory) : Call → Option (Memory × Answer)
  | .createList => some (m.createList.1, .list m.createList.2)
  | .newNode a x => some ({ m with node := Function.update m.node a (some x) }, .void)
  | .addElem h a => (m.addElem fuel (some h) (some a)).map (·, .void)
  | .removeElem h a => (m.removeElem fuel (some h) (some a)).map (·, .void)
  | .listConcat h k => (m.listConcat fuel (some h) (some k)).map (·, .void)
  | .findElemByFullName h name surname =>
      (m.findElemByFullName fuel (some h) (some name) (some surname)).map fun r =>
        (r.1, .node r.2)

def Memory.calls (fuel : ℕ) (m : Memory) : List Call → Option (Memory × List Answer)
  | [] => some (m, [])
  | c :: cs => do
      let (m, ans) ← m.call fuel c
      let (m, rest) ← m.calls fuel cs
      some (m, ans :: rest)

/-! ## §3  Memory that represents a store -/

/-- Every list is well formed and its chain is the sequence; no node is in two lists. -/
structure Represents (m : Memory) (S : Store) : Prop where
  length : m.head.length = S.list.length
  keys : ∀ a, m.keys a = S.node a
  chain : ∀ (h : Handle) (xs : List Addr), S.list[h]? = some (some xs) → m.Holds h xs
  apart : ∀ (h k : Handle) (xs ys : List Addr), S.list[h]? = some (some xs) →
    S.list[k]? = some (some ys) → h ≠ k → ∀ a ∈ xs, a ∉ ys

def Memory.empty : Memory := { node := fun _ => none, head := [], printed := [] }

def Store.empty : Store := { node := fun _ => none, list := [] }

theorem represents_empty : Represents .empty .empty where
  length := rfl
  keys _ := rfl
  chain _ _ h := nomatch h
  apart _ _ _ _ h := nomatch h

/-! ## §4  One call -/

section Call

variable {m m' : Memory} {S T : Store} {h k : Handle} {xs ys zs freed : List Addr} {a : Addr}

theorem getElem?_set_cases {α : Type} {l : List α} {i j : ℕ} {y z : α}
    (h : (l.set i y)[j]? = some z) : j = i ∧ z = y ∨ j ≠ i ∧ l[j]? = some z := by
  by_cases hj : j = i
  · subst hj
    rw [List.getElem?_set] at h
    split_ifs at h with hself hlt
    · exact Or.inl ⟨rfl, (Option.some.inj h).symm⟩
    · exact absurd rfl hself
  · rw [List.getElem?_set_ne (Ne.symm hj)] at h
    exact Or.inr ⟨hj, h⟩

theorem Represents.set (hm : Represents m S) (hrel : Relinked m m' h zs freed)
    (hholds : m'.Holds h ys)
    (hlist : T.list = S.list.set h (some ys)) (hkeys : ∀ a, m'.keys a = T.node a)
    (hother : ∀ (k : Handle) (us : List Addr), k ≠ h → S.list[k]? = some (some us) →
      ∀ a ∈ us, a ∉ zs ∧ a ∉ ys) : Represents m' T := by
  have hcases : ∀ (k : Handle) (us : List Addr), T.list[k]? = some (some us) →
      k = h ∧ us = ys ∨ k ≠ h ∧ S.list[k]? = some (some us) := by
    intro k us hus
    rw [hlist] at hus
    rcases getElem?_set_cases hus with ⟨hk, heq⟩ | hk
    · exact Or.inl ⟨hk, Option.some.inj heq⟩
    · exact Or.inr hk
  refine ⟨?_, hkeys, fun k us hus => ?_, fun k l us vs hus hvs hkl => ?_⟩
  · rw [hrel.length, hlist, List.length_set]
    exact hm.length
  · rcases hcases k us hus with ⟨rfl, rfl⟩ | ⟨hk, hus⟩
    · exact hholds
    · exact (hm.chain k us hus).frame hrel hk fun b hb => (hother k us hk hus b hb).1
  · rcases hcases k us hus with ⟨rfl, rfl⟩ | ⟨hk, hus⟩ <;>
      rcases hcases l vs hvs with ⟨rfl, rfl⟩ | ⟨hl, hvs⟩
    · exact absurd rfl hkl
    · exact fun b hb hb' => (hother l vs hl hvs b hb').2 hb
    · exact fun b hb => (hother k us hk hus b hb).2
    · exact hm.apart k l us vs hus hvs hkl

theorem Represents.createList (hm : Represents m S) :
    m.createList.2 = S.list.length ∧
      Represents m.createList.1 { S with list := S.list ++ [some []] } := by
  have hcases : ∀ (k : Handle) (us : List Addr), (S.list ++ [some []])[k]? = some (some us) →
      k = S.list.length ∧ us = [] ∨ S.list[k]? = some (some us) := by
    intro k us hus
    rcases Nat.lt_trichotomy k S.list.length with hk | rfl | hk
    · rw [List.getElem?_append_left hk] at hus
      exact Or.inr hus
    · rw [List.getElem?_concat_length] at hus
      exact Or.inl ⟨rfl, (Option.some.inj (Option.some.inj hus)).symm⟩
    · rw [List.getElem?_eq_none (by rw [List.length_append]; exact hk)] at hus
      exact nomatch hus
  refine ⟨hm.length, ?_, hm.keys, fun k us hus => ?_, fun k l us vs hus hvs hkl => ?_⟩
  · simp [Memory.createList, hm.length]
  · rcases hcases k us hus with ⟨rfl, rfl⟩ | hus
    · refine ⟨none, ?_, .nil⟩
      rw [← hm.length]
      exact List.getElem?_concat_length
    · obtain ⟨first, hfirst, hseg⟩ := hm.chain k us hus
      refine ⟨first, ?_, hseg⟩
      exact (List.getElem?_append_left (List.getElem?_eq_some_iff.mp hfirst).1).trans hfirst
  · rcases hcases k us hus with ⟨rfl, rfl⟩ | hus
    · exact fun b hb => absurd hb List.not_mem_nil
    · rcases hcases l vs hvs with ⟨rfl, rfl⟩ | hvs
      · exact fun b _ => List.not_mem_nil
      · exact hm.apart k l us vs hus hvs hkl

theorem Represents.newNode (hm : Represents m S) (ha : S.node a = none) (x : Node) :
    Represents { m with node := Function.update m.node a (some x) }
      { S with node := Function.update S.node a (some x.keys) } := by
  have hnot : m.node a = none := by
    have hkeys := hm.keys a
    rwa [ha, Memory.keys, Option.map_eq_none_iff] at hkeys
  refine ⟨hm.length, fun b => ?_, fun k us hus => ?_, hm.apart⟩
  · by_cases hb : b = a
    · subst hb
      simp [Memory.keys]
    · simpa [Memory.keys, Function.update_of_ne hb] using hm.keys b
  · obtain ⟨first, hfirst, hseg⟩ := hm.chain k us hus
    refine ⟨first, hfirst, hseg.congr fun b hb => Function.update_of_ne ?_ ..⟩
    rintro rfl
    obtain ⟨y, hy⟩ := hseg.live hb
    exact Option.some_ne_none y (hy.symm.trans hnot)

theorem Represents.addElem (hm : Represents m S) (hxs : S.list[h]? = some (some xs))
    (hlive : (S.node a).isSome = true) (hloose : S.Loose a) {fuel : ℕ}
    (hfuel : xs.length < fuel) : ∃ m', m.addElem fuel (some h) (some a) = some m' ∧
      Represents m' { S with list := S.list.set h (some (xs ++ [a])) } := by
  obtain ⟨x, hx⟩ : ∃ x, m.node a = some x := by
    rw [← hm.keys a, Memory.keys, Option.isSome_map] at hlive
    exact Option.isSome_iff_exists.mp hlive
  obtain ⟨m', hrun, hholds, hrel, -⟩ :=
    addElem_holds (hm.chain h xs hxs) hx (hloose h xs hxs) hfuel.le
  refine ⟨m', hrun, hm.set hrel hholds rfl (fun b => ?_) fun k us hk hus b hb => ?_⟩
  · rw [hrel.keys b List.not_mem_nil]
    exact hm.keys b
  · rw [and_self, List.mem_append, List.mem_singleton, not_or]
    refine ⟨hm.apart k h us xs hus hxs hk b hb, ?_⟩
    rintro rfl
    exact hloose k us hus hb

theorem Represents.removeElem (hm : Represents m S) (hxs : S.list[h]? = some (some xs))
    (ha : a ∈ xs) {fuel : ℕ} (hfuel : xs.length < fuel) :
    ∃ m', m.removeElem fuel (some h) (some a) = some m' ∧
      Represents m' { node := Function.update S.node a none
                      list := S.list.set h (some (xs.erase a)) } := by
  have hholds := hm.chain h xs hxs
  obtain ⟨first, hfirst, hseg⟩ := hholds
  have hnodup := hseg.nodup
  obtain ⟨us, vs, rfl⟩ := List.append_of_mem ha
  have herase : (us ++ a :: vs).erase a = us ++ vs := by
    have hnot : a ∉ us := fun h => (List.nodup_append.mp hnodup).2.2 a h a List.mem_cons_self rfl
    rw [List.erase_append_right _ hnot, List.erase_cons_head]
  have hleft : us.length < fuel := Nat.lt_of_le_of_lt (by simp) hfuel
  obtain ⟨m', hrun, hholds, hrel, -⟩ := removeElem_holds ⟨first, hfirst, hseg⟩ hleft
  refine ⟨m', hrun, hm.set hrel hholds (by rw [herase]) (fun b => ?_)
    fun k ws hk hws b hb => ?_⟩
  · by_cases hb : b = a
    · subst hb
      dsimp only
      rw [Function.update_self, Memory.keys, hrel.gone b (List.mem_singleton_self b)]
      rfl
    · dsimp only
      rw [Function.update_of_ne hb, hrel.keys b (by simpa using hb)]
      exact hm.keys b
  · have hnot := hm.apart k h ws _ hws hxs hk b hb
    refine ⟨hnot, fun hmem => hnot ?_⟩
    rcases List.mem_append.mp hmem with hmem | hmem
    · exact List.mem_append_left _ hmem
    · exact List.mem_append_right _ (List.mem_cons_of_mem _ hmem)

theorem Represents.listConcat (hm : Represents m S) (hxs : S.list[h]? = some (some xs))
    (hys : S.list[k]? = some (some ys)) (hk : k ≠ h) {fuel : ℕ} (hfuel : xs.length < fuel) :
    ∃ m', m.listConcat fuel (some h) (some k) = some m' ∧
      Represents m' { S with list := (S.list.set h (some (xs ++ ys))).set k none } := by
  obtain ⟨m', hrun, hholds, -, hheads, hlength, hframe, hkeys⟩ := listConcat_holds
    (hm.chain h xs hxs) (hm.chain k ys hys) hk (hm.apart h k xs ys hxs hys hk.symm) hfuel.le
  have hcases : ∀ (l : Handle) (us : List Addr),
      ((S.list.set h (some (xs ++ ys))).set k none)[l]? = some (some us) →
      l = h ∧ us = xs ++ ys ∨ l ≠ h ∧ l ≠ k ∧ S.list[l]? = some (some us) := by
    intro l us hus
    rcases getElem?_set_cases hus with ⟨-, heq⟩ | ⟨hl, hus⟩
    · exact nomatch heq
    · rcases getElem?_set_cases hus with ⟨hl', heq⟩ | ⟨hl', hus⟩
      · exact Or.inl ⟨hl', Option.some.inj heq⟩
      · exact Or.inr ⟨hl', hl, hus⟩
  have hapart : ∀ (l : Handle) (us : List Addr), l ≠ h → l ≠ k → S.list[l]? = some (some us) →
      ∀ b ∈ us, b ∉ xs ++ ys := by
    intro l us hl hl' hus b hb hmem
    rcases List.mem_append.mp hmem with hmem | hmem
    · exact hm.apart l h us xs hus hxs hl b hb hmem
    · exact hm.apart l k us ys hus hys hl' b hb hmem
  refine ⟨m', hrun, ?_, fun b => (hkeys b).trans (hm.keys b), fun l us hus => ?_,
    fun l l' us vs hus hvs hll => ?_⟩
  · dsimp only
    rw [hlength, List.length_set, List.length_set]
    exact hm.length
  · rcases hcases l us hus with ⟨rfl, rfl⟩ | ⟨hl, hl', hus⟩
    · exact hholds
    · obtain ⟨first, hfirst, hseg⟩ := hm.chain l us hus
      exact ⟨first, (hheads l hl hl').trans hfirst,
        hseg.congr fun b hb => hframe b (hapart l us hl hl' hus b hb)⟩
  · rcases hcases l us hus with ⟨rfl, rfl⟩ | ⟨hl, hlk, hus'⟩ <;>
      rcases hcases l' vs hvs with ⟨rfl, rfl⟩ | ⟨hl', hlk', hvs'⟩
    · exact absurd rfl hll
    · exact fun b hb hb' => hapart l' vs hl' hlk' hvs' b hb' hb
    · exact hapart l us hl hlk hus'
    · exact hm.apart l l' us vs hus' hvs' hll

theorem Represents.find (hm : Represents m S) (hxs : S.list[h]? = some (some xs))
    (hnamed : S.Named xs) {name surname : Str} (hname : name ≠ []) (hsurname : surname ≠ [])
    {fuel : ℕ} (hfuel : xs.length < fuel) :
    m.findElemByFullName fuel (some h) (some name) (some surname) =
      some (m, S.find xs name surname) := by
  obtain ⟨first, hfirst, hseg⟩ := hm.chain h xs hxs
  have hkeys : ∀ b ∈ xs, ∃ n s, m.keys b = some (some n, some s) := fun b hb => by
    rw [hm.keys b]
    exact hnamed b hb
  have hfind : (xs.find? fun b => m.keys b = some (some name, some surname)) =
      S.find xs name surname := by
    simp only [Store.find, hm.keys]
  simp only [Memory.findElemByFullName, hname, hsurname, or_self, if_false, hfirst,
    Option.bind_eq_bind, Option.bind_some, findLoop_eq hseg hkeys hfuel, hfind]

/-- **A call returns and does to memory what it does to the sequences.** How many turns
of the loops are enough is seen from the sequences. -/
theorem Step.call {c : Call} {ans : Answer} (hstep : Step S c T ans) :
    ∃ n, ∀ {fuel : ℕ} {m : Memory}, n ≤ fuel → Represents m S →
      ∃ m', m.call fuel c = some (m', ans) ∧ Represents m' T := by
  cases hstep with
  | createList =>
      refine ⟨0, fun {fuel m} _ hm => ?_⟩
      obtain ⟨hhandle, hrep⟩ := hm.createList
      exact ⟨m.createList.1, by rw [Memory.call, hhandle], hrep⟩
  | newNode ha => exact ⟨0, fun _ hm => ⟨_, rfl, hm.newNode ha _⟩⟩
  | @addElem _ _ xs hxs hlive hloose =>
      refine ⟨xs.length + 1, fun {fuel m} hfuel hm => ?_⟩
      obtain ⟨m', hrun, hrep⟩ := hm.addElem hxs hlive hloose (Nat.lt_of_succ_le hfuel)
      exact ⟨m', by rw [Memory.call, hrun, Option.map_some], hrep⟩
  | @removeElem _ _ xs hxs ha =>
      refine ⟨xs.length + 1, fun {fuel m} hfuel hm => ?_⟩
      obtain ⟨m', hrun, hrep⟩ := hm.removeElem hxs ha (Nat.lt_of_succ_le hfuel)
      exact ⟨m', by rw [Memory.call, hrun, Option.map_some], hrep⟩
  | @removeAbsent _ _ xs hxs ha =>
      refine ⟨xs.length + 1, fun {fuel m} hfuel hm => ⟨m, ?_, hm⟩⟩
      rw [Memory.call, removeElem_absent (hm.chain _ _ hxs) ha (Nat.lt_of_succ_le hfuel),
        Option.map_some]
  | @listConcat _ _ xs ys hxs hys hk =>
      refine ⟨xs.length + 1, fun {fuel m} hfuel hm => ?_⟩
      obtain ⟨m', hrun, hrep⟩ := hm.listConcat hxs hys hk (Nat.lt_of_succ_le hfuel)
      exact ⟨m', by rw [Memory.call, hrun, Option.map_some], hrep⟩
  | @find _ xs name surname hxs hnamed hname hsurname =>
      refine ⟨xs.length + 1, fun {fuel m} hfuel hm => ⟨m, ?_, hm⟩⟩
      rw [Memory.call, hm.find hxs hnamed hname hsurname (Nat.lt_of_succ_le hfuel),
        Option.map_some]

end Call

/-! ## §5  A whole run -/

/-- **The linked list implements a sequence**: whatever calls are made, each of them
returns, the answers are those of the sequences, and afterwards every list is well
formed and its chain is its sequence. -/
theorem linked_list_implements_sequence {S T : Store} {cs : List Call}
    {answers : List Answer} (hsteps : Steps S cs T answers) :
    ∃ n, ∀ {fuel : ℕ} {m : Memory}, n ≤ fuel → Represents m S →
      ∃ m', m.calls fuel cs = some (m', answers) ∧ Represents m' T := by
  induction hsteps with
  | nil => exact ⟨0, fun {_ m} _ hm => ⟨m, rfl, hm⟩⟩
  | cons hstep _ ih =>
      obtain ⟨n, hcall⟩ := hstep.call
      obtain ⟨n', hcalls⟩ := ih
      refine ⟨max n n', fun hfuel hm => ?_⟩
      obtain ⟨m₁, hrun, hm₁⟩ := hcall ((Nat.le_max_left n n').trans hfuel) hm
      obtain ⟨m₂, hruns, hm₂⟩ := hcalls ((Nat.le_max_right n n').trans hfuel) hm₁
      refine ⟨m₂, ?_, hm₂⟩
      simp only [Memory.calls, hrun, hruns, Option.bind_eq_bind, Option.bind_some]

theorem Store.loose_of_forall {S : Store} {a : Addr} (h : ∀ l ∈ S.list, a ∉ l.getD []) :
    S.Loose a :=
  fun _ xs hxs => h (some xs) (List.mem_of_getElem? hxs)

/-- Two lists are filled with nodes whose links are stale, appended and searched. -/
theorem linked_list_implements_sequence_two :
    ∃ fuel m T, Memory.empty.calls fuel
        [.createList, .createList, .newNode 10 ⟨some [1], some [2], some 30, some 20⟩,
         .newNode 20 ⟨some [1], some [3], some 20, none⟩, .addElem 0 10, .addElem 1 20,
         .removeElem 0 20, .listConcat 0 1, .removeElem 0 10,
         .findElemByFullName 0 [1] [3], .findElemByFullName 0 [1] [2]] =
      some (m, [.list 0, .list 1, .void, .void, .void, .void, .void, .void, .void,
        .node (some 20), .node none]) ∧
      Represents m T ∧ T.list = [some [20], none] := by
  have hnamed : ∀ (node : Addr → Option (Option Str × Option Str)) (l : List _),
      node 20 = some (some [1], some [3]) → Store.Named ⟨node, l⟩ [20] := by
    rintro node l h a ha
    rw [List.mem_singleton.mp ha]
    exact ⟨_, _, h⟩
  obtain ⟨n, h⟩ := linked_list_implements_sequence <|
    .cons (.createList (S := Store.empty)) <| .cons .createList <|
    .cons (.newNode (a := 10) (x := ⟨some [1], some [2], some 30, some 20⟩) rfl) <|
    .cons (.newNode (a := 20) (x := ⟨some [1], some [3], some 20, none⟩) rfl) <|
    .cons (.addElem (h := 0) (a := 10) rfl rfl (Store.loose_of_forall (by decide))) <|
    .cons (.addElem (h := 1) (a := 20) rfl rfl (Store.loose_of_forall (by decide))) <|
    .cons (.removeAbsent (h := 0) (a := 20) rfl (by decide)) <|
    .cons (.listConcat (h := 0) (k := 1) rfl rfl (by decide)) <|
    .cons (.removeElem (h := 0) (a := 10) rfl (by decide)) <|
    .cons (.find (h := 0) rfl (hnamed _ _ rfl) (List.cons_ne_nil 1 _) (List.cons_ne_nil 3 _)) <|
    .cons (.find (h := 0) rfl (hnamed _ _ rfl) (List.cons_ne_nil 1 _) (List.cons_ne_nil 2 _))
      .nil
  obtain ⟨m, hrun, hm⟩ := h (Nat.le_refl n) represents_empty
  exact ⟨n, m, _, hrun, hm, rfl⟩

end Sysopy.LinkedList
