import Sysopy.LinkedList.Functions

/-!
# What the functions do to chains

Each function is given by one lemma: what it needs of the list that it works on, that
it then returns if its loops may take as many turns as the list has nodes, and what
the list is afterwards. The lemmas also say what is left alone: all nodes outside the
list, the keys of all nodes, and the other heads.

## Sections

* §1 lists in memory
* §2 loops return
* §3 add_elem
* §4 remove_elem
* §5 list_concat
* §6 find_elem_by_full_name
* §7 delete_list
* §8 functions that have returned
-/

namespace Sysopy.LinkedList

open Sysopy.Foundation Linked

variable {m m' : Memory} {list : Handle} {first before : Option Addr} {xs ys : List Addr}
  {a : Addr} {x : Node} {fuel : ℕ}

/-! ## §1  Lists in memory -/

/-- The list is well formed and its nodes are `xs`. -/
def Memory.Holds (m : Memory) (list : Handle) (xs : List Addr) : Prop :=
  ∃ first, m.head[list]? = some first ∧ Seg m.node none first xs none

def Node.keys (x : Node) : Option Str × Option Str := (x.name, x.surname)

def Memory.keys (m : Memory) (a : Addr) : Option (Option Str × Option Str) :=
  (m.node a).map Node.keys

/-- At most the head of `list` and the nodes `xs` have changed; of these `freed` are
gone, and of the others only the links have changed. -/
structure Relinked (m m' : Memory) (list : Handle) (xs freed : List Addr) : Prop where
  heads : ∀ k, k ≠ list → m'.head[k]? = m.head[k]?
  length : m'.head.length = m.head.length
  frame : ∀ a, a ∉ xs → m'.node a = m.node a
  gone : ∀ a, a ∈ freed → m'.node a = none
  keys : ∀ a, a ∉ freed → m'.keys a = m.keys a

theorem Memory.Holds.unique (h : m.Holds list xs) (h' : m.Holds list ys) : xs = ys := by
  obtain ⟨first, hfirst, hseg⟩ := h
  obtain ⟨first', hfirst', hseg'⟩ := h'
  obtain rfl := Option.some.inj (hfirst.symm.trans hfirst')
  exact hseg.unique hseg'

theorem Memory.Holds.frame {k : Handle} {freed : List Addr} (h : m.Holds k ys)
    (hm : Relinked m m' list xs freed) (hk : k ≠ list) (hdisj : ∀ b ∈ ys, b ∉ xs) :
    m'.Holds k ys := by
  obtain ⟨first, hfirst, hseg⟩ := h
  exact ⟨first, (hm.heads k hk).trans hfirst, hseg.congr fun b hb => hm.frame b (hdisj b hb)⟩

@[simp] theorem map_keys_setNext (heap : Addr → Option Node) (p q : Option Addr)
    (a : Addr) : (modifyAt heap p (setNext q) a).map Node.keys = (heap a).map Node.keys := by
  by_cases h : p = some a
  · subst h
    rw [modifyAt, Function.update_self, Option.map_map]
    rfl
  · rw [modifyAt_of_ne h]

@[simp] theorem map_keys_setPrev (heap : Addr → Option Node) (p q : Option Addr)
    (a : Addr) : (modifyAt heap p (setPrev q) a).map Node.keys = (heap a).map Node.keys := by
  by_cases h : p = some a
  · subst h
    rw [modifyAt, Function.update_self, Option.map_map]
    rfl
  · rw [modifyAt_of_ne h]

theorem map_keys_link (heap : Addr → Option Node) (p : Option Addr) (a : Addr) :
    (Seg.link heap xs ys p a).map Node.keys = (heap a).map Node.keys := by
  unfold Seg.link
  rw [map_keys_setPrev, map_keys_setNext]

theorem Memory.store_eq (h : (m.node a).isSome = true) (f : Node → Node) :
    m.store (some a) f = some { m with node := modifyAt m.node (some a) f } := by
  obtain ⟨x, hx⟩ := Option.isSome_iff_exists.mp h
  rw [Memory.store, Memory.load, Option.bind_some, hx, Option.map_some]

/-! ## §2  Loops return -/

theorem lastNode_eq (h : Seg m.node before first xs none) (hne : xs ≠ [])
    (hfuel : xs.length ≤ fuel) : m.lastNode fuel first = some (lastOr none xs) := by
  induction fuel generalizing before first xs with
  | zero => exact absurd (List.length_eq_zero_iff.mp (Nat.le_zero.mp hfuel)) hne
  | succ fuel ih =>
      cases h with
      | nil => exact absurd rfl hne
      | @cons _ _ a x xs hx _ htail =>
          have hload : m.load (some a) = some x := hx
          rw [Memory.lastNode, hload, Option.bind_eq_bind, Option.bind_some]
          cases xs with
          | nil => rw [show x.next = none from htail.first_nil]; rfl
          | cons b xs =>
              rw [show x.next = some b from htail.first_cons]
              have hrest : m.lastNode fuel x.next = some (lastOr none (b :: xs)) :=
                ih htail (List.cons_ne_nil _ _) (Nat.le_of_succ_le_succ hfuel)
              rwa [show x.next = some b from htail.first_cons] at hrest

/-- The loop of `remove_elem` stops at the node or at the end. -/
theorem seek_eq {p : Option Addr} (h : Seg m.node before first xs p)
    (hp : p = none ∨ p = some a) (ha : a ∉ xs) (hfuel : xs.length < fuel) :
    m.seek (some a) fuel first = some p := by
  induction fuel generalizing before first xs with
  | zero => exact absurd hfuel (Nat.not_lt_zero _)
  | succ fuel ih =>
      cases h with
      | nil => rw [Memory.seek, if_pos hp]
      | @cons _ _ b x xs hx _ htail =>
          have hne : ¬((some b : Option Addr) = none ∨ some b = some a) := by
            rintro (h | h)
            · exact nomatch h
            · exact ha (Option.some.inj h ▸ List.mem_cons_self)
          have hload : m.load (some b) = some x := hx
          rw [Memory.seek, if_neg hne, hload, Option.bind_eq_bind, Option.bind_some]
          exact ih htail (fun hmem => ha (List.mem_cons_of_mem _ hmem))
            (Nat.lt_of_succ_lt_succ hfuel)

/-! ## §3  add_elem -/

theorem addElem_holds (h : m.Holds list xs) (hx : m.node a = some x) (ha : a ∉ xs)
    (hfuel : xs.length ≤ fuel) : ∃ m', m.addElem fuel (some list) (some a) = some m' ∧
      m'.Holds list (xs ++ [a]) ∧ Relinked m m' list (xs ++ [a]) [] ∧
      (xs ≠ [] → m'.head = m.head) := by
  obtain ⟨first, hfirst, hseg⟩ := h
  have hlive : (m.node a).isSome = true := by rw [hx]; rfl
  have hlist : list < m.head.length := (List.getElem?_eq_some_iff.mp hfirst).1
  by_cases hnil : xs = []
  · subst hnil
    obtain rfl := hseg.first_nil
    refine ⟨{ m.setHead list (some a) with
      node := modifyAt (modifyAt m.node (some a) (setNext none)) (some a) (setPrev none) },
      ?_, ⟨some a, List.getElem?_set_self hlist, ?_⟩, ?_, fun hne => absurd rfl hne⟩
    · simp only [Memory.addElem, hfirst, Option.bind_eq_bind, Option.bind_some]
      rw [Memory.store_eq (m := m.setHead list (some a)) hlive, Option.bind_some,
        Memory.store_eq (by rwa [modifyAt_isSome])]
      rfl
    · refine .cons (modifyAt_self (modifyAt_self hx)) rfl ?_
      exact .nil
    · refine ⟨fun k hk => List.getElem?_set_ne hk.symm, List.length_set, fun b hb => ?_,
        fun _ hb => absurd hb List.not_mem_nil, fun b _ => ?_⟩
      · have hne : (some a : Option Addr) ≠ some b := fun hab =>
          hb (List.mem_singleton.mpr (Option.some.inj hab).symm)
        exact (modifyAt_of_ne hne).trans (modifyAt_of_ne hne)
      · simp only [Memory.keys, map_keys_setPrev, map_keys_setNext]
  · have hnodup : (xs ++ [a]).Nodup := List.nodup_append.mpr
      ⟨hseg.nodup, List.nodup_singleton a, fun b hb c hc hbc =>
        ha (List.mem_singleton.mp hc ▸ hbc ▸ hb)⟩
    -- whatever links the node has had, it is a segment of its own
    have hsingle : Seg m.node x.prev (some a) [a] x.next := .cons hx rfl .nil
    have hjoin := Seg.join hnodup hseg hsingle
    rw [if_neg hnil] at hjoin
    have hchain := hjoin.setNext_last hnodup (by simp) none
    rw [lastOr_append_singleton] at hchain
    obtain ⟨b, hbmem, hb⟩ := exists_lastOr hnil
    obtain ⟨c, rfl⟩ := Option.ne_none_iff_exists'.mp fun h => hnil (hseg.first_eq_none.mp h)
    obtain ⟨y, hy⟩ := hseg.live hbmem
    refine ⟨{ m with
      node := modifyAt (Seg.link m.node xs [a] (some a)) (some a) (setNext none) }, ?_,
      ⟨some c, hfirst, hchain⟩, ⟨fun _ _ => rfl, rfl, fun d hd => ?_,
        fun _ hb => absurd hb List.not_mem_nil, fun d _ => ?_⟩, fun _ => rfl⟩
    · simp only [Memory.addElem, hfirst, Option.bind_eq_bind, Option.bind_some,
        lastNode_eq hseg hnil hfuel, hb]
      rw [Memory.store_eq (by rw [hy]; rfl), Option.bind_some,
        Memory.store_eq (by rwa [modifyAt_isSome]), Option.bind_some,
        Memory.store_eq (by rwa [modifyAt_isSome, modifyAt_isSome])]
      simp only [Seg.link, hb, List.head?_cons]
    · rw [List.mem_append, List.mem_singleton, not_or] at hd
      dsimp only
      rw [modifyAt_of_ne fun h => hd.2 (Option.some.inj h).symm, Seg.link_of_notMem hd.1]
      rw [List.mem_singleton]
      exact hd.2
    · simp only [Memory.keys, map_keys_setNext, map_keys_link]

/-! ## §4  remove_elem -/

theorem storePrev_eq {p : Option Addr} (h : Seg m.node before p ys none) (q : Option Addr) :
    m.storePrev p q = some { m with node := modifyAt m.node ys.head? (setPrev q) } := by
  cases h with
  | nil => rfl
  | cons hx _ _ => exact Memory.store_eq (by rw [hx]; rfl) _

theorem deleteNode_eq (hx : m.node a = some x) :
    m.deleteNode (some a) = some { m with node := Function.update m.node a none } := by
  rw [Memory.deleteNode, hx, Option.map_some]

theorem unlinkNode_eq (hleft : Seg m.node none first xs (some a)) (hx : m.node a = some x)
    (hprev : x.prev = lastOr none xs) (hright : Seg m.node (some a) x.next ys none)
    (hnodup : (xs ++ a :: ys).Nodup) :
    m.unlinkNode list (some a) = some { m with
      node := Function.update (Seg.link m.node xs ys x.next) a none
      head := if xs = [] then m.head.set list x.next else m.head } := by
  obtain ⟨-, htail, hdisj⟩ := List.nodup_append.mp hnodup
  have hax : a ∉ xs := fun h => hdisj a h a List.mem_cons_self rfl
  have hay : a ∉ ys := (List.nodup_cons.mp htail).1
  have hlink : Seg.link m.node xs ys x.next a = some x := by
    rw [Seg.link_of_notMem hax hay, hx]
  have hload : m.load (some a) = some x := hx
  simp only [Memory.unlinkNode, hload, Option.bind_eq_bind, Option.bind_some]
  by_cases hnil : xs = []
  · subst hnil
    rw [if_pos rfl, show x.prev = none from hprev]
    dsimp only
    rw [storePrev_eq (m := m.setHead list x.next) hright, Option.bind_some]
    exact deleteNode_eq hlink
  · rw [if_neg hnil]
    obtain ⟨b, hbmem, hb⟩ := exists_lastOr hnil
    obtain ⟨y, hy⟩ := hleft.live hbmem
    rw [hb] at hprev
    rw [hprev]
    dsimp only
    -- the store into the node before does not change this one
    have hload' : Memory.load { m with node := modifyAt m.node (some b) (setNext x.next) }
        (some a) = some x := by
      show modifyAt m.node (some b) (setNext x.next) a = some x
      rw [modifyAt_of_ne, hx]
      intro h
      exact hdisj b hbmem a List.mem_cons_self (Option.some.inj h)
    have hright' : Seg (modifyAt m.node (some b) (setNext x.next)) (some a) x.next ys none :=
      hright.congr fun c hc => modifyAt_of_ne fun h =>
        hdisj b hbmem c (List.mem_cons_of_mem _ hc) (Option.some.inj h)
    rw [Memory.store_eq (by rw [hy]; rfl), Option.bind_some, hload', Option.bind_some,
      storePrev_eq hright', Option.bind_some, hprev]
    unfold Seg.link at hlink ⊢
    rw [hb] at hlink ⊢
    exact deleteNode_eq hlink

theorem removeElem_holds (h : m.Holds list (xs ++ a :: ys)) (hfuel : xs.length < fuel) :
    ∃ m', m.removeElem fuel (some list) (some a) = some m' ∧ m'.Holds list (xs ++ ys) ∧
      Relinked m m' list (xs ++ a :: ys) [a] ∧ (xs ≠ [] → m'.head = m.head) := by
  obtain ⟨first, hfirst, hseg⟩ := h
  have hlist : list < m.head.length := (List.getElem?_eq_some_iff.mp hfirst).1
  have hnodup := hseg.nodup
  obtain ⟨hxs, htail, hdisj⟩ := List.nodup_append.mp hnodup
  have hax : a ∉ xs := fun h => hdisj a h a List.mem_cons_self rfl
  have hay : a ∉ ys := (List.nodup_cons.mp htail).1
  have hxy : (xs ++ ys).Nodup := List.nodup_append.mpr
    ⟨hxs, (List.nodup_cons.mp htail).2,
      fun b hb c hc => hdisj b hb c (List.mem_cons_of_mem _ hc)⟩
  obtain ⟨mid, hleft, hmid⟩ := hseg.split
  obtain rfl := hmid.first_cons
  cases hmid with
  | @cons _ _ _ x _ hx hprev hright =>
      -- both sides are chains of their own, which the links around the node join
      have hjoin := Seg.join hxy hleft hright
      have hrun : m.removeElem fuel (some list) (some a) = some { m with
          node := Function.update (Seg.link m.node xs ys x.next) a none
          head := if xs = [] then m.head.set list x.next else m.head } := by
        simp only [Memory.removeElem, hfirst, Option.bind_eq_bind, Option.bind_some,
          seek_eq hleft (Or.inr rfl) hax hfuel, if_true]
        exact unlinkNode_eq hleft hx hprev hright hnodup
      refine ⟨_, hrun, ⟨if xs = [] then x.next else first, ?_, hjoin.congr fun b hb => ?_⟩,
        ⟨fun k hk => ?_, ?_, fun b hb => ?_, fun b hb => ?_, fun b hb => ?_⟩,
        fun hne => ?_⟩
      · dsimp only
        split_ifs
        · exact List.getElem?_set_self hlist
        · exact hfirst
      · refine Function.update_of_ne ?_ ..
        rintro rfl
        exact (List.mem_append.mp hb).elim hax hay
      · dsimp only
        split_ifs
        · exact List.getElem?_set_ne hk.symm
        · rfl
      · dsimp only
        split_ifs
        · exact List.length_set
        · rfl
      · rw [List.mem_append, List.mem_cons, not_or, not_or] at hb
        dsimp only
        rw [Function.update_of_ne hb.2.1, Seg.link_of_notMem hb.1 hb.2.2]
      · rw [List.mem_singleton.mp hb]
        exact Function.update_self ..
      · rw [List.mem_singleton] at hb
        unfold Memory.keys
        dsimp only
        rw [Function.update_of_ne hb, map_keys_link]
      · exact if_neg hne

theorem removeElem_absent (h : m.Holds list xs) (ha : a ∉ xs) (hfuel : xs.length < fuel) :
    m.removeElem fuel (some list) (some a) = some m := by
  obtain ⟨first, hfirst, hseg⟩ := h
  simp only [Memory.removeElem, hfirst, Option.bind_eq_bind, Option.bind_some,
    seek_eq hseg (Or.inl rfl) ha hfuel, reduceCtorEq, if_false]

/-! ## §5  list_concat -/

/-- **Both handles have the joined list** afterwards. -/
theorem listConcat_holds {k : Handle} (h : m.Holds list xs) (h' : m.Holds k ys) (hk : k ≠ list)
    (hdisj : ∀ b ∈ xs, b ∉ ys) (hfuel : xs.length ≤ fuel) :
    ∃ m', m.listConcat fuel (some list) (some k) = some m' ∧ m'.Holds list (xs ++ ys) ∧
      m'.head[k]? = m'.head[list]? ∧ (∀ l, l ≠ list → l ≠ k → m'.head[l]? = m.head[l]?) ∧
      m'.head.length = m.head.length ∧ (∀ b, b ∉ xs ++ ys → m'.node b = m.node b) ∧
      ∀ b, m'.keys b = m.keys b := by
  obtain ⟨first, hfirst, hseg⟩ := h
  obtain ⟨second, hsecond, hseg'⟩ := h'
  have hlist : list < m.head.length := (List.getElem?_eq_some_iff.mp hfirst).1
  have hlist' : k < m.head.length := (List.getElem?_eq_some_iff.mp hsecond).1
  by_cases hnil : xs = []
  · subst hnil
    obtain rfl := hseg.first_nil
    refine ⟨m.setHead list second, ?_, ⟨second, List.getElem?_set_self hlist, hseg'⟩, ?_,
      fun l hl _ => List.getElem?_set_ne hl.symm, List.length_set, fun _ _ => rfl, fun _ => rfl⟩
    · simp only [Memory.listConcat, hfirst, hsecond, Option.bind_eq_bind, Option.bind_some]
    · show (m.head.set list second)[k]? = (m.head.set list second)[list]?
      rw [List.getElem?_set_ne hk.symm, List.getElem?_set_self hlist, hsecond]
  obtain ⟨c, rfl⟩ := Option.ne_none_iff_exists'.mp fun h => hnil (hseg.first_eq_none.mp h)
  have hheads : (m.head.set k (some c))[list]? = some (some c) := by
    rw [List.getElem?_set_ne hk, hfirst]
  by_cases hnil' : ys = []
  · subst hnil'
    obtain rfl := hseg'.first_nil
    refine ⟨m.setHead k (some c), ?_, ⟨some c, hheads, by rwa [List.append_nil]⟩, ?_,
      fun l _ hl => List.getElem?_set_ne hl.symm, List.length_set, fun _ _ => rfl, fun _ => rfl⟩
    · simp only [Memory.listConcat, hfirst, hsecond, Option.bind_eq_bind, Option.bind_some]
    · exact (List.getElem?_set_self hlist').trans hheads.symm
  · obtain ⟨d, rfl⟩ := Option.ne_none_iff_exists'.mp fun h => hnil' (hseg'.first_eq_none.mp h)
    obtain ⟨b, hbmem, hb⟩ := exists_lastOr hnil
    obtain ⟨y, hy⟩ := hseg.live hbmem
    have hnodup : (xs ++ ys).Nodup := List.nodup_append.mpr
      ⟨hseg.nodup, hseg'.nodup, fun a ha b hb hab => hdisj a ha (hab ▸ hb)⟩
    have hjoin := Seg.join hnodup hseg hseg'
    rw [if_neg hnil] at hjoin
    obtain ⟨e, zs, rfl⟩ := List.exists_cons_of_ne_nil hnil'
    obtain rfl := Option.some.inj hseg'.first_cons
    obtain ⟨z, hz⟩ := hseg'.live List.mem_cons_self
    refine ⟨{ m with
        node := Seg.link m.node xs (d :: zs) (some d)
        head := m.head.set k (some c) }, ?_, ⟨some c, hheads, hjoin⟩, ?_,
      fun l _ hl => List.getElem?_set_ne hl.symm, List.length_set, fun a ha => ?_, fun a => ?_⟩
    · simp only [Memory.listConcat, hfirst, hsecond, Option.bind_eq_bind, Option.bind_some,
        lastNode_eq hseg hnil hfuel, hb]
      rw [Memory.store_eq (by rw [hy]; rfl), Option.bind_some,
        Memory.store_eq (by rw [modifyAt_isSome, hz]; rfl), Option.bind_some]
      simp only [Seg.link, hb, List.head?_cons, Memory.setHead]
    · exact (List.getElem?_set_self hlist').trans hheads.symm
    · rw [List.mem_append, not_or] at ha
      exact Seg.link_of_notMem ha.1 ha.2
    · simp only [Memory.keys, map_keys_link]

/-! ## §6  find_elem_by_full_name -/

theorem hasFullName_eq {x : Node} {n s : Str} (hx : x.keys = (some n, some s))
    (name surname : Str) : Memory.hasFullName x name surname =
      some (decide (x.keys = (some name, some surname))) := by
  obtain ⟨hname, hsurname⟩ := Prod.mk.inj hx
  simp only [Memory.hasFullName, hname, hsurname, Node.keys, Option.bind_eq_bind,
    Option.bind_some, strcmp_eq_eq, Prod.mk.injEq, Option.some.injEq]
  split_ifs with hn
  · simp [hn]
  · simp [hn]

theorem findLoop_eq {name surname : Str} (h : Seg m.node before first xs none)
    (hkeys : ∀ b ∈ xs, ∃ n s, m.keys b = some (some n, some s)) (hfuel : xs.length < fuel) :
    m.findLoop name surname fuel first =
      some (xs.find? fun b => m.keys b = some (some name, some surname)) := by
  induction fuel generalizing before first xs with
  | zero => exact absurd hfuel (Nat.not_lt_zero _)
  | succ fuel ih =>
      cases h with
      | nil => rfl
      | @cons _ _ b x xs hx _ htail =>
          obtain ⟨n, s, hb⟩ := hkeys b List.mem_cons_self
          have hxkeys : m.keys b = some x.keys := by
            rw [Memory.keys, hx, Option.map_some]
          have hfull := hasFullName_eq (Option.some.inj (hxkeys.symm.trans hb)) name surname
          have hrest := ih htail (fun c hc => hkeys c (List.mem_cons_of_mem _ hc))
            (Nat.lt_of_succ_lt_succ hfuel)
          simp only [Memory.findLoop, hx, hfull, Option.bind_eq_bind, Option.bind_some,
            List.find?_cons, hxkeys, Option.some.injEq]
          split_ifs with hfound
          · simp [hfound]
          · simp only [hfound]
            exact hrest

/-! ## §7  delete_list -/

theorem deleteNodes_eq (h : Seg m.node before first xs none) (hfuel : xs.length < fuel) :
    Memory.deleteNodes fuel m first =
      some { m with node := fun a => if a ∈ xs then none else m.node a } := by
  have hnodup := h.nodup
  induction fuel generalizing m before first xs with
  | zero => exact absurd hfuel (Nat.not_lt_zero _)
  | succ fuel ih =>
      cases h with
      | nil => simp only [Memory.deleteNodes, List.not_mem_nil, if_false]
      | @cons _ _ b x xs hx _ htail =>
          obtain ⟨hb, hnodup⟩ := List.nodup_cons.mp hnodup
          have hrest : Seg (Function.update m.node b none) (some b) x.next xs none :=
            htail.congr fun c hc => Function.update_of_ne (ne_of_mem_of_not_mem hc hb) ..
          simp only [Memory.deleteNodes, hx, deleteNode_eq hx, Option.bind_eq_bind,
            Option.bind_some]
          rw [ih hrest (Nat.lt_of_succ_lt_succ hfuel) hnodup]
          congr 2
          funext c
          by_cases hc : c = b
          · subst hc
            simp [hb]
          · simp [hc]

/-! ## §8  Functions that have returned -/

theorem lastNode_mono {p q : Option Addr} {fuel' : ℕ} (h : m.lastNode fuel p = some q)
    (hle : fuel ≤ fuel') : m.lastNode fuel' p = some q := by
  induction fuel generalizing p fuel' with
  | zero => exact nomatch h
  | succ fuel ih =>
      cases fuel' with
      | zero => exact absurd hle (Nat.not_succ_le_zero fuel)
      | succ fuel' =>
          obtain ⟨x, hx, h⟩ := Option.bind_eq_some_iff.mp h
          rw [Memory.lastNode, hx, Option.bind_eq_bind, Option.bind_some]
          cases hnext : x.next with
          | none =>
              rw [hnext] at h
              exact h
          | some b =>
              rw [hnext] at h
              exact ih h (Nat.le_of_succ_le_succ hle)

theorem addElem_mono {p : Option Handle} {q : Option Addr} {fuel' : ℕ}
    (h : m.addElem fuel p q = some m') (hle : fuel ≤ fuel') : m.addElem fuel' p q = some m' := by
  cases p with
  | none => exact h
  | some list =>
      cases q with
      | none => exact h
      | some a =>
          obtain ⟨head, hhead, h⟩ := Option.bind_eq_some_iff.mp h
          simp only [Memory.addElem, hhead, Option.bind_eq_bind, Option.bind_some]
          cases head with
          | none => exact h
          | some b =>
              obtain ⟨last, hlast, h⟩ := Option.bind_eq_some_iff.mp h
              simp only [lastNode_mono hlast hle, Option.bind_some]
              exact h

theorem listConcat_mono {p q : Option Handle} {fuel' : ℕ}
    (h : m.listConcat fuel p q = some m') (hle : fuel ≤ fuel') :
    m.listConcat fuel' p q = some m' := by
  cases p with
  | none => exact h
  | some list =>
      cases q with
      | none => exact h
      | some k =>
          obtain ⟨head, hhead, h⟩ := Option.bind_eq_some_iff.mp h
          obtain ⟨head', hhead', h⟩ := Option.bind_eq_some_iff.mp h
          simp only [Memory.listConcat, hhead, hhead', Option.bind_eq_bind, Option.bind_some]
          cases head with
          | none => exact h
          | some b =>
              cases head' with
              | none => exact h
              | some c =>
                  obtain ⟨last, hlast, h⟩ := Option.bind_eq_some_iff.mp h
                  simp only [lastNode_mono hlast hle, Option.bind_some]
                  exact h

theorem seek_mono {p q r : Option Addr} {fuel' : ℕ} (h : m.seek p fuel q = some r)
    (hle : fuel ≤ fuel') : m.seek p fuel' q = some r := by
  induction fuel generalizing q fuel' with
  | zero => exact nomatch h
  | succ fuel ih =>
      cases fuel' with
      | zero => exact absurd hle (Nat.not_succ_le_zero fuel)
      | succ fuel' =>
          rw [Memory.seek] at h ⊢
          split_ifs at h ⊢ with hstop
          · exact h
          · obtain ⟨x, hx, h⟩ := Option.bind_eq_some_iff.mp h
            rw [hx, Option.bind_eq_bind, Option.bind_some]
            exact ih h (Nat.le_of_succ_le_succ hle)

theorem removeElem_mono {p : Option Handle} {q : Option Addr} {fuel' : ℕ}
    (h : m.removeElem fuel p q = some m') (hle : fuel ≤ fuel') :
    m.removeElem fuel' p q = some m' := by
  cases p with
  | none => exact h
  | some list =>
      cases q with
      | none => exact h
      | some a =>
          obtain ⟨head, hhead, h⟩ := Option.bind_eq_some_iff.mp h
          obtain ⟨found, hfound, h⟩ := Option.bind_eq_some_iff.mp h
          simp only [Memory.removeElem, hhead, seek_mono hfound hle, Option.bind_eq_bind,
            Option.bind_some]
          exact h

theorem deleteNodes_mono {p : Option Addr} {fuel' : ℕ}
    (h : Memory.deleteNodes fuel m p = some m') (hle : fuel ≤ fuel') :
    Memory.deleteNodes fuel' m p = some m' := by
  induction fuel generalizing m p fuel' with
  | zero => exact nomatch h
  | succ fuel ih =>
      cases fuel' with
      | zero => exact absurd hle (Nat.not_succ_le_zero fuel)
      | succ fuel' =>
          cases p with
          | none => exact h
          | some a =>
              obtain ⟨x, hx, h⟩ := Option.bind_eq_some_iff.mp h
              obtain ⟨m₁, hm₁, h⟩ := Option.bind_eq_some_iff.mp h
              simp only [Memory.deleteNodes, hx, hm₁, Option.bind_eq_bind, Option.bind_some]
              exact ih h (Nat.le_of_succ_le_succ hle)

theorem addElem_returned (h : m.Holds list xs) (hx : m.node a = some x) (ha : a ∉ xs)
    (hrun : m.addElem fuel (some list) (some a) = some m') :
    m'.Holds list (xs ++ [a]) ∧ Relinked m m' list (xs ++ [a]) [] ∧
      (xs ≠ [] → m'.head = m.head) := by
  obtain ⟨m₁, hrun₁, hm₁⟩ := addElem_holds h hx ha (Nat.le_max_right fuel xs.length)
  obtain rfl := Option.some.inj
    ((addElem_mono hrun (Nat.le_max_left fuel xs.length)).symm.trans hrun₁)
  exact hm₁

theorem listConcat_returned {k : Handle} (h : m.Holds list xs) (h' : m.Holds k ys)
    (hk : k ≠ list) (hdisj : ∀ b ∈ xs, b ∉ ys)
    (hrun : m.listConcat fuel (some list) (some k) = some m') :
    m'.Holds list (xs ++ ys) ∧ m'.head[k]? = m'.head[list]? ∧
      (∀ l, l ≠ list → l ≠ k → m'.head[l]? = m.head[l]?) ∧
      m'.head.length = m.head.length ∧ (∀ b, b ∉ xs ++ ys → m'.node b = m.node b) ∧
      ∀ b, m'.keys b = m.keys b := by
  obtain ⟨m₁, hrun₁, hm₁⟩ := listConcat_holds h h' hk hdisj (Nat.le_max_right fuel xs.length)
  obtain rfl := Option.some.inj
    ((listConcat_mono hrun (Nat.le_max_left fuel xs.length)).symm.trans hrun₁)
  exact hm₁

end Sysopy.LinkedList
