import Mathlib.Algebra.GroupWithZero.Nat
import Sysopy.ProcessCreation.Loops

/-!
# What the children count

Each pass of a loop makes one child and does not end before the child has. So no two
children are there at a time, no sum is lost, and in each of the four modes the mapping
counts the children. The counter of the parent counts them where the memory is shared.

## Sections

* §1 what a child has left to add
* §2 what a step does
* §3 one child at a time
* §4 the end is reached
* §5 the four modes
-/

namespace Sysopy.ProcessCreation

open Sysopy.Foundation

/-! ## §1  What a child has left to add -/

/-- The value of the variable when the code is through, for the value in its register. -/
def settle (v : Var) : List Stmt → ℤ → ℤ → ℤ
  | [], _, value => value
  | .load u :: rest, register, value =>
      settle v rest (if u = v then value else register) value
  | .store u :: rest, register, value =>
      settle v rest register (if u = v then register + 1 else value)
  | .startTime :: rest, register, value => settle v rest register value
  | .endTime :: rest, register, value => settle v rest register value
  | .exit :: rest, register, value => settle v rest register value

theorem settle_exec {v : Var} (hv : v ≠ .totalChildProcessesTime) (now : ℤ) (w : View)
    (stmt : Stmt) (rest : List Stmt) :
    settle v rest ((stmt.exec now w).registers v) ((stmt.exec now w).value v) =
      settle v (stmt :: rest) (w.registers v) (w.value v) := by
  cases stmt with
  | startTime => cases v <;> rfl
  | endTime => cases v <;> rfl
  | exit => rfl
  | load u =>
      by_cases huv : u = v
      · subst huv
        simp only [settle, if_pos, Stmt.exec, Function.update_self]
        cases u <;> rfl
      · simp only [settle, if_neg huv, Stmt.exec, Function.update_of_ne (Ne.symm huv)]
        cases v <;> rfl
  | store u =>
      cases v with
      | totalChildProcessesTime => exact absurd rfl hv
      | counter => cases u <;> rfl
      | globalVariable => cases u <;> rfl

/-- Alone, the child adds one to each of the two counts, and it ends once. -/
structure Loop.CountsOnce (loop : Loop) : Prop where
  counter : ∀ r x, settle .counter loop.child r x = x + 1
  globalVariable : ∀ r x, settle .globalVariable loop.child r x = x + 1
  exit : loop.child.count .exit = 1

theorem Mode.loop_countsOnce (mode : Mode) : mode.loop.CountsOnce := by
  cases mode <;> exact ⟨fun _ _ => rfl, fun _ _ => rfl, rfl⟩

/-! ## §2  What a step does -/

variable {loop : Loop} {n : ℤ} {s t : State} {a : Action} {tr : List (State × Action)}

/-- The steps of the parent and of its children. -/
inductive Moves (loop : Loop) (n : ℤ) (s : State) : Action → State → Prop
  | enter (now : ℤ) (hpc : s.pc = .test) (hi : s.i < n) :
      Moves loop n s (.parent now)
        { s with pc := if loop.timesFirst then .startTime false else .create }
  | leave (now : ℤ) (hpc : s.pc = .test) (hi : n ≤ s.i) :
      Moves loop n s (.parent now) { s with pc := .done }
  | startTime (now : ℤ) (created : Bool) (hpc : s.pc = .startTime created) :
      Moves loop n s (.parent now)
        { s with memory.forkStartTime := now, pc := if created then .wait else .create }
  | create (now : ℤ) (hpc : s.pc = .create) :
      Moves loop n s (.parent now)
        { s with
          children := s.children ++ [loop.newChild s]
          pc := if loop.timesFirst then .wait else .startTime true }
  | nobody (now : ℤ) (hpc : s.pc = .wait) (hchildren : s.children = []) :
      Moves loop n s (.parent now) s.pass
  | reap (k : ℕ) (c : Child) (hpc : s.pc = .wait) (hchild : s.children[k]? = some c)
      (hcode : c.code = []) :
      Moves loop n s (.reap k) { s.pass with children := s.children.eraseIdx k }
  | child (k : ℕ) (now : ℤ) (c : Child) (stmt : Stmt) (rest : List Stmt)
      (hchild : s.children[k]? = some c) (hcode : c.code = stmt :: rest) :
      Moves loop n s (.child k now) (s.runChild k c stmt rest now)

theorem moves_of_next (h : s.next loop n a = some t) : Moves loop n s a t := by
  cases a with
  | parent now =>
      rw [State.next, Option.ite_none_left_eq_some] at h
      replace h := h.2
      cases hpc : s.pc with
      | test =>
          simp only [hpc, Option.some.injEq] at h
          subst h
          by_cases hi : s.i < n
          · rw [if_pos hi]
            exact .enter now hpc hi
          · rw [if_neg hi]
            exact .leave now hpc (Int.not_lt.mp hi)
      | startTime created =>
          simp only [hpc, Option.some.injEq] at h
          subst h
          exact .startTime now created hpc
      | create =>
          simp only [hpc, Option.some.injEq] at h
          subst h
          exact .create now hpc
      | wait =>
          simp only [hpc, Option.ite_none_right_eq_some, Option.some.injEq] at h
          obtain ⟨hchildren, rfl⟩ := h
          exact .nobody now hpc hchildren
      | done => simp [hpc] at h
  | reap k =>
      simp only [State.next, Option.ite_none_left_eq_some, not_or, not_not] at h
      obtain ⟨⟨-, hpc⟩, h⟩ := h
      cases hchild : s.children[k]? with
      | none => simp [hchild] at h
      | some c =>
          simp only [hchild, Option.ite_none_right_eq_some, Option.some.injEq] at h
          obtain ⟨hcode, rfl⟩ := h
          exact .reap k c hpc hchild hcode
  | child k now =>
      simp only [State.next] at h
      cases hchild : s.children[k]? with
      | none => simp [hchild] at h
      | some c =>
          cases hcode : c.code with
          | nil => simp [hchild, hcode] at h
          | cons stmt rest =>
              simp only [hchild, hcode, Option.some.injEq] at h
              subst h
              exact .child k now c stmt rest hchild hcode

/-! ## §3  One child at a time -/

def Action.creates (s : State) : Action → Bool
  | .parent _ => s.pc = .create
  | _ => false

/-- The step is the `_exit` of a child. -/
def Action.exits (s : State) : Action → Bool
  | .child k _ => s.children[k]?.any fun c => c.code.head? = some .exit
  | _ => false

def created (tr : List (State × Action)) : ℕ := tr.countP fun x => x.2.creates x.1

def exited (tr : List (State × Action)) : ℕ := tr.countP fun x => x.2.exits x.1

@[simp] theorem created_snoc :
    created (tr ++ [(s, a)]) = created tr + (a.creates s).toNat := by
  rw [created, created, List.countP_append, List.countP_singleton]
  cases a.creates s <;> rfl

@[simp] theorem exited_snoc : exited (tr ++ [(s, a)]) = exited tr + (a.exits s).toNat := by
  rw [exited, exited, List.countP_append, List.countP_singleton]
  cases a.exits s <;> rfl

def Pc.hasCreated : Pc → Bool
  | .wait | .startTime true => true
  | _ => false

def Child.leaves (c : Child) (s : State) (v : Var) : ℤ :=
  settle v c.code (c.registers v) ((c.view s).value v)

theorem Child.view_step {c : Child} {stmt : Stmt} {rest : List Stmt} {now : ℤ} {k : ℕ} :
    (c.step (stmt.exec now (c.view s)) rest).view (s.runChild k c stmt rest now) =
      stmt.exec now (c.view s) := by
  cases hmemory : c.memory <;> simp [Child.view, Child.step, State.runChild, hmemory]

theorem Child.leaves_step {c : Child} {stmt : Stmt} {rest : List Stmt} {v : Var} {k : ℕ}
    (hv : v ≠ .totalChildProcessesTime) (hcode : c.code = stmt :: rest) (now : ℤ) :
    (c.step (stmt.exec now (c.view s)) rest).leaves (s.runChild k c stmt rest now) v =
      c.leaves s v := by
  rw [Child.leaves, Child.view_step, Child.leaves, hcode]
  exact settle_exec hv now (c.view s) stmt rest

/-- Every child that was made has been waited for, or there is the one of this pass. -/
inductive Family (loop : Loop) (tr : List (State × Action)) (s : State) : Prop
  | alone (hpc : s.pc.hasCreated = false) (hchildren : s.children = [])
      (hglobal : s.mapping.globalVariable = s.i)
      (hcounter : s.memory.counter = if loop.vm then s.i else 0)
      (hcreated : (created tr : ℤ) = s.i) (hexited : (exited tr : ℤ) = s.i)
  | one (c : Child) (hpc : s.pc.hasCreated = true) (hchildren : s.children = [c])
      (hmemory : c.memory.isNone = loop.vm)
      (hglobal : c.leaves s .globalVariable = s.i + 1)
      (hcounter : if loop.vm then c.leaves s .counter = s.i + 1 else s.memory.counter = 0)
      (hcreated : (created tr : ℤ) = s.i + 1)
      (hexited : (exited tr + c.code.count .exit : ℤ) = s.i + 1)

theorem eq_of_getElem?_singleton {c c' : Child} {k : ℕ} (h : [c][k]? = some c') :
    k = 0 ∧ c' = c := by
  rw [List.getElem?_singleton, Option.ite_none_right_eq_some] at h
  exact ⟨h.1, (Option.some.inj h.2).symm⟩

theorem Family.children_ne_nil (h : Family loop tr s) (hpc : s.pc = .wait) :
    s.children ≠ [] := by
  cases h with
  | alone hpc' => simp [hpc, Pc.hasCreated] at hpc'
  | one c _ hchildren =>
      rw [hchildren]
      exact List.cons_ne_nil c []

/-- **There is never a second child.** -/
theorem Family.only_child (h : Family loop tr s) {k : ℕ} {c : Child}
    (hchild : s.children[k]? = some c) : k = 0 ∧ s.children = [c] := by
  cases h with
  | alone _ hchildren =>
      rw [hchildren] at hchild
      cases hchild
  | one c' _ hchildren =>
      rw [hchildren] at hchild
      obtain ⟨rfl, rfl⟩ := eq_of_getElem?_singleton hchild
      exact ⟨rfl, hchildren⟩

theorem Family.create (hloop : loop.CountsOnce) (h : Family loop tr s) (hpc : s.pc = .create)
    (now : ℤ) : Family loop (tr ++ [(s, .parent now)])
      { s with
        children := s.children ++ [loop.newChild s]
        pc := if loop.timesFirst then .wait else .startTime true } := by
  cases h with
  | one c hpc' => simp [hpc, Pc.hasCreated] at hpc'
  | alone _ hchildren hglobal hcounter hcreated hexited =>
      refine .one (loop.newChild s) ?_ ?_ ?_ ?_ ?_ ?_ ?_
      · cases loop.timesFirst <;> rfl
      · rw [hchildren]
        rfl
      · unfold Loop.newChild
        cases loop.vm <;> rfl
      -- the code as a whole adds one to what the children before have left
      · rw [Child.leaves, Loop.newChild, hloop.globalVariable]
        exact congrArg (· + 1) hglobal
      · by_cases hvm : loop.vm
        · rw [if_pos hvm] at hcounter ⊢
          rw [Child.leaves, Loop.newChild, hloop.counter, if_pos hvm]
          exact congrArg (· + 1) hcounter
        · rw [if_neg hvm] at hcounter ⊢
          exact hcounter
      · rw [created_snoc]
        simp [Action.creates, hpc, hcreated]
      · rw [exited_snoc, Loop.newChild, hloop.exit]
        simp [Action.exits, hexited]

theorem Family.reap (h : Family loop tr s) {k : ℕ} {c : Child}
    (hchild : s.children[k]? = some c) (hcode : c.code = []) :
    Family loop (tr ++ [(s, .reap k)]) { s.pass with children := s.children.eraseIdx k } := by
  cases h with
  | alone _ hchildren =>
      rw [hchildren] at hchild
      cases hchild
  | one c' _ hchildren hmemory hglobal hcounter hcreated hexited =>
      rw [hchildren] at hchild
      obtain ⟨rfl, rfl⟩ := eq_of_getElem?_singleton hchild
      rw [Child.leaves, hcode] at hglobal
      rw [hcode] at hexited
      refine .alone rfl ?_ hglobal ?_ ?_ ?_
      · rw [hchildren]
        rfl
      · by_cases hvm : loop.vm
        · rw [hvm, Option.isNone_iff_eq_none] at hmemory
          rw [if_pos hvm, Child.leaves, hcode, Child.view, hmemory] at hcounter
          rw [if_pos hvm]
          exact hcounter
        · rw [if_neg hvm] at hcounter ⊢
          exact hcounter
      · rw [created_snoc]
        simpa [Action.creates, State.pass] using hcreated
      · rw [exited_snoc]
        simpa [Action.exits, State.pass] using hexited

theorem Family.child (h : Family loop tr s) {k : ℕ} {c : Child} {stmt : Stmt}
    {rest : List Stmt} (now : ℤ) (hchild : s.children[k]? = some c)
    (hcode : c.code = stmt :: rest) :
    Family loop (tr ++ [(s, .child k now)]) (s.runChild k c stmt rest now) := by
  cases h with
  | alone _ hchildren =>
      rw [hchildren] at hchild
      cases hchild
  | one c' hpc hchildren hmemory hglobal hcounter hcreated hexited =>
      have hexits : Action.exits s (.child k now) = decide (stmt = .exit) := by
        simp [Action.exits, hchild, hcode]
      rw [hchildren] at hchild
      obtain ⟨rfl, rfl⟩ := eq_of_getElem?_singleton hchild
      refine .one (c.step (stmt.exec now (c.view s)) rest) hpc ?_ ?_ ?_ ?_ ?_ ?_
      · rw [State.runChild, hchildren]
        rfl
      · rw [Child.step, Option.isNone_map]
        exact hmemory
      · rw [Child.leaves_step (by decide) hcode]
        exact hglobal
      · by_cases hvm : loop.vm
        · rw [if_pos hvm] at hcounter ⊢
          rw [Child.leaves_step (by decide) hcode]
          exact hcounter
        · rw [if_neg hvm] at hcounter ⊢
          rw [State.runChild, hmemory, if_neg hvm]
          exact hcounter
      · rw [created_snoc]
        exact (congrArg Nat.cast (Nat.add_zero _)).trans hcreated
      · have hcount : (decide (stmt = .exit)).toNat + rest.count .exit = c.code.count .exit := by
          rw [hcode, List.count_cons]
          by_cases hstmt : stmt = .exit
          · simp [hstmt, Nat.add_comm]
          · simp [hstmt]
        change ((exited (tr ++ [_]) : ℕ) + rest.count .exit : ℤ) = s.i + 1
        rw [exited_snoc, hexits, ← hexited, ← hcount]
        omega

theorem Family.keep (h : Family loop tr s) (hpc : t.pc.hasCreated = s.pc.hasCreated)
    (hchildren : t.children = s.children) (hi : t.i = s.i) (hmapping : t.mapping = s.mapping)
    (hmemory : t.memory.counter = s.memory.counter) (hcreates : a.creates s = false)
    (hexits : a.exits s = false) : Family loop (tr ++ [(s, a)]) t := by
  have hcreated' : created (tr ++ [(s, a)]) = created tr := by
    rw [created_snoc, hcreates]
    rfl
  have hexited' : exited (tr ++ [(s, a)]) = exited tr := by
    rw [exited_snoc, hexits]
    rfl
  have hleaves (c : Child) (v : Var) : c.leaves t v = c.leaves s v := by
    refine congrArg (settle v c.code (c.registers v)) ?_
    cases v with
    | counter => cases hown : c.memory <;> simp [Child.view, View.value, hown, hmemory]
    | globalVariable => exact congrArg Mapping.globalVariable hmapping
    | totalChildProcessesTime => exact congrArg Mapping.totalChildProcessesTime hmapping
  cases h with
  | alone hpc' hchildren' hglobal hcounter hcreated hexited =>
      refine .alone (hpc.trans hpc') (hchildren.trans hchildren') ?_ ?_ ?_ ?_
      · rw [hmapping, hi, hglobal]
      · rw [hmemory, hi, hcounter]
      · rw [hcreated', hi, hcreated]
      · rw [hexited', hi, hexited]
  | one c hpc' hchildren' hvm hglobal hcounter hcreated hexited =>
      refine .one c (hpc.trans hpc') (hchildren.trans hchildren') hvm ?_ ?_ ?_ ?_
      · rw [hleaves, hi, hglobal]
      · rw [hleaves, hi, hmemory]
        exact hcounter
      · rw [hcreated', hi, hcreated]
      · rw [hexited', hi, hexited]

theorem Family.next (hloop : loop.CountsOnce) (h : Family loop tr s)
    (hnext : s.next loop n a = some t) : Family loop (tr ++ [(s, a)]) t := by
  cases moves_of_next hnext with
  | enter now hpc hi =>
      refine h.keep ?_ rfl rfl rfl rfl (by simp [Action.creates, hpc]) rfl
      rw [hpc]
      cases loop.timesFirst <;> rfl
  | leave now hpc hi =>
      refine h.keep ?_ rfl rfl rfl rfl (by simp [Action.creates, hpc]) rfl
      rw [hpc]
      rfl
  | startTime now created hpc =>
      refine h.keep ?_ rfl rfl rfl rfl (by simp [Action.creates, hpc]) rfl
      rw [hpc]
      cases created <;> rfl
  | create now hpc => exact h.create hloop hpc now
  | nobody now hpc hchildren => exact absurd hchildren (h.children_ne_nil hpc)
  | reap k c hpc hchild hcode => exact h.reap hchild hcode
  | child k now c stmt rest hchild hcode => exact h.child now hchild hcode

/-! ## §4  The end is reached -/

def Inside (n : ℤ) (s : State) : Prop :=
  match s.pc with
  | .test => s.i ≤ n
  | .done => s.i = n
  | .startTime _ | .create | .wait => s.i < n

theorem Inside.next (h : Inside n s) (hnext : s.next loop n a = some t) : Inside n t := by
  unfold Inside at *
  cases moves_of_next hnext with
  | enter now hpc hi => cases loop.timesFirst <;> exact hi
  | leave now hpc hi =>
      rw [hpc] at h
      exact Int.le_antisymm h hi
  | startTime now created hpc =>
      rw [hpc] at h
      cases created <;> exact h
  | create now hpc =>
      rw [hpc] at h
      cases loop.timesFirst <;> exact h
  | nobody now hpc hchildren =>
      rw [hpc] at h
      exact Int.add_one_le_of_lt h
  | reap k c hpc hchild hcode =>
      rw [hpc] at h
      exact Int.add_one_le_of_lt h
  | child k now c stmt rest hchild hcode => exact h

/-- The steps of the parent and the child up to the end of the pass. -/
def Pc.rank (loop : Loop) : Pc → ℕ
  | .test => loop.child.length + 5
  | .startTime false => loop.child.length + 4
  | .create => loop.child.length + 3
  | .startTime true => 2
  | .wait => 1
  | .done => 0

def State.rank (loop : Loop) (n : ℤ) (s : State) : ℕ :=
  (n - s.i).toNat * (loop.child.length + 6) + s.pc.rank loop +
    (s.children.map fun c => c.code.length).sum

theorem State.rank_lt (hfamily : Family loop tr s) (hinside : Inside n s)
    (hnext : s.next loop n a = some t) : t.rank loop n < s.rank loop n := by
  cases moves_of_next hnext with
  | enter now hpc hi =>
      simp only [State.rank, hpc]
      cases loop.timesFirst <;> simp [Pc.rank]
  | leave now hpc hi => simp [State.rank, hpc, Pc.rank]
  | startTime now created hpc =>
      simp only [State.rank, hpc]
      cases created <;> simp [Pc.rank]
  | create now hpc =>
      simp only [State.rank, hpc, List.map_append, List.sum_append]
      cases loop.timesFirst <;> simp [Pc.rank, Loop.newChild] <;> omega
  | nobody now hpc hchildren => exact absurd hchildren (hfamily.children_ne_nil hpc)
  | reap k c hpc hchild hcode =>
      obtain ⟨rfl, hchildren⟩ := hfamily.only_child hchild
      simp only [Inside, hpc] at hinside
      have hpass : (n - s.i).toNat = (n - (s.i + 1)).toNat + 1 := by omega
      simp only [State.rank, State.pass, hpc, hchildren, hpass, Nat.succ_mul, Pc.rank,
        List.eraseIdx_cons_zero, List.map_nil, List.map_cons, List.sum_nil, List.sum_cons]
      omega
  | child k now c stmt rest hchild hcode =>
      obtain ⟨rfl, hchildren⟩ := hfamily.only_child hchild
      simp [State.rank, State.runChild, Child.step, hchildren, hcode]

theorem exists_next (h : Family loop tr s) (hpc : s.pc ≠ .done) :
    ∃ a t, s.next loop n a = some t := by
  cases h with
  | alone hcreated hchildren =>
      have hfree : ¬s.Suspended loop := by
        rintro ⟨-, c, hc, -⟩
        rw [hchildren] at hc
        cases hc
      refine ⟨.parent 0, ?_⟩
      simp only [State.next, if_neg hfree]
      cases hs : s.pc with
      | test | startTime created | create => exact ⟨_, rfl⟩
      | wait => simp [hs, Pc.hasCreated] at hcreated
      | done => exact absurd hs hpc
  | one c hcreated hchildren =>
      have hchild : s.children[0]? = some c := by rw [hchildren]; rfl
      cases hcode : c.code with
      | cons stmt rest =>
          -- a child goes on whatever its parent does
          refine ⟨.child 0 0, ?_⟩
          simp only [State.next, hchild, hcode]
          exact ⟨_, rfl⟩
      | nil =>
          -- the only child has ended and holds nobody back
          have hfree : ¬s.Suspended loop := by
            rintro ⟨-, c', hc', hne⟩
            rw [hchildren, List.mem_singleton] at hc'
            exact hne (hc' ▸ hcode)
          cases hs : s.pc with
          | wait =>
              refine ⟨.reap 0, { s.pass with children := s.children.eraseIdx 0 }, ?_⟩
              simp [State.next, hfree, hs, hchild, hcode]
          | startTime created =>
              refine ⟨.parent 0, ?_⟩
              simp only [State.next, if_neg hfree, hs]
              exact ⟨_, rfl⟩
          | test | create | done => simp [hs, Pc.hasCreated] at hcreated

/-! ## §5  The four modes -/

theorem run_family {mode : Mode} (h : (processCreation mode n).Run tr s) :
    Family mode.loop tr s := by
  refine h.invariant ?_ fun tr s a t ih hnext => ih.next mode.loop_countsOnce hnext
  refine .alone rfl rfl rfl ?_ rfl rfl
  cases mode <;> rfl

/-- **In every mode the loop ends after `n` children that ran to their end, with the
mapping at `n`; the counter of the parent is `n` where the memory is shared, else 0.** -/
theorem every_mode_counts (mode : Mode) (n : ℕ) :
    (∃ bound, ∀ tr s, (processCreation mode n).Run tr s → tr.length ≤ bound) ∧
    ∀ tr s, (processCreation mode n).Run tr s →
      (s.pc ≠ .done → ∃ a t, (processCreation mode n).next s a = some t) ∧
      (s.pc = .done → created tr = n ∧ exited tr = n ∧ s.children = [] ∧
        s.mapping.globalVariable = n ∧
        s.memory.counter = if mode = .vfork ∨ mode = .vforkClone then (n : ℤ) else 0) := by
  have hstart : Inside n (processCreation mode n).init := Int.natCast_nonneg n
  refine ⟨⟨(processCreation mode n).init.rank mode.loop n, fun tr s hrun => ?_⟩,
    fun tr s hrun => ⟨fun hpc => exists_next (run_family hrun) hpc, fun hpc => ?_⟩⟩
  · have hbound := hrun.length_add_le_measure
      (I := fun s => Inside n s ∧ ∃ tr, Family mode.loop tr s) (State.rank mode.loop n)
      ⟨hstart, [], run_family .nil⟩ fun s a t ⟨hinside, tr, hfamily⟩ hnext =>
        ⟨⟨hinside.next hnext, _, hfamily.next mode.loop_countsOnce hnext⟩,
          State.rank_lt hfamily hinside hnext⟩
    omega
  · have hinside : Inside n s := hrun.invariant (I := fun _ s => Inside n s) hstart
      fun _ _ _ _ h hnext => h.next hnext
    rw [Inside, hpc] at hinside
    cases run_family hrun with
    | one c hcreated => simp [hpc, Pc.hasCreated] at hcreated
    | alone _ hchildren hglobal hcounter hcreated hexited =>
        rw [hinside] at hglobal hcounter hcreated hexited
        refine ⟨Int.ofNat_inj.mp hcreated, Int.ofNat_inj.mp hexited, hchildren, hglobal, ?_⟩
        rw [hcounter]
        cases mode <;> rfl

/-- Two children of `do_vfork` -/
theorem every_mode_counts_two :
    ∃ tr s, (processCreation .vfork 2).Run tr s ∧ s.pc = .done ∧ created tr = 2 ∧
      exited tr = 2 ∧ s.children = [] ∧ s.mapping.globalVariable = 2 ∧ s.memory.counter = 2 := by
  have hrun := (processCreation .vfork 2).run_of_replay
    ([.parent 0, .parent 0] ++ List.replicate 9 (.child 0 5) ++ [.parent 6, .reap 0] ++
      [.parent 6, .parent 6] ++ List.replicate 9 (.child 0 7) ++
      [.parent 8, .reap 0, .parent 8]) rfl
  exact ⟨_, _, hrun, rfl, ((every_mode_counts .vfork 2).2 _ _ hrun).2 rfl⟩

end Sysopy.ProcessCreation
