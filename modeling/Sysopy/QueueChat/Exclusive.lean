import Sysopy.QueueChat.Fields
import Sysopy.QueueChat.Posix

/-!
# Who owns a name of the POSIX message-queue server

A client starts only if no queue of its name exists, asks the server to create
it, and opens it as soon as it is there. The check and the creation are steps of
different processes, and a refused client is not told: two clients of one name
that both pass the check open the same queue. No other order of steps makes two
live clients share one.

## Sections

* §1 the processes
* §2 the invariant
* §3 no queue is shared
-/

namespace Sysopy.QueueChat.Exclusive

open Sysopy.Foundation
open Sysopy.QueueChat.Fields (Identifier Line sentName)
open Sysopy.QueueChat.Posix (Server Queues msgTypeInit handle handle_cases)

/-! ## §1  The processes -/

inductive ClientPc
  /-- before the check that no queue of its name exists -/
  | check
  /-- before `send_init_msg` -/
  | send
  /-- before attempt `n + 1` to open its queue -/
  | opening (n : ℕ)
  /-- in `sender_loop` -/
  | loop (q : ℕ)
  /-- the process has ended -/
  | exited
deriving DecidableEq

/-- The client has passed the check and has not opened its queue. -/
def ClientPc.Starts : ClientPc → Prop
  | .send => True
  | .opening _ => True
  | _ => False

def timeout : ℕ := 5

structure World (P : Type*) where
  server : Server
  mailbox : List Message
  client : P → ClientPc

inductive Action (P : Type*)
  /-- the next step of a starting client; `opened` says that its `mq_open` does not
  fail for a reason of its own -/
  | client (p : P) (opened : Bool)
  /-- a line typed into a client; the type of its message is not initialised -/
  | text (p : P) (msgType : ℤ) (line : Line)
  /-- a client is killed -/
  | die (p : P)
  /-- the server handles the next message -/
  | server (opened : Bool)

variable {P : Type*}

def clientStep [DecidableEq P] (ids : P → Identifier) (w : World P) (p : P) (opened : Bool) :
    Option (World P) :=
  let queue := w.server.queues.named (ids p).clientId
  match w.client p with
  | .check =>
      let c := if opened = true ∧ queue = none then ClientPc.send else .exited
      some { w with client := Function.update w.client p c }
  | .send =>
      let msg : Message := ⟨msgTypeInit, (ids p).clientId, [], []⟩
      some { w with
        mailbox := w.mailbox ++ [msg]
        client := Function.update w.client p (.opening 0) }
  | .opening n =>
      let c :=
        match (if opened then queue else none) with
        | some q => ClientPc.loop q
        | none => if n + 1 = timeout then .exited else .opening (n + 1)
      some { w with client := Function.update w.client p c }
  | .loop _ => none
  | .exited => none

/-- One iteration of `sender_loop`. -/
def textStep [DecidableEq P] (ids : P → Identifier) (w : World P) (p : P) (msgType : ℤ)
    (line : Line) : Option (World P) :=
  match w.client p with
  | .loop q =>
      let msg : Message := ⟨msgType, sentName (ids p) line, line.timestamp, line.text⟩
      let c := if line.text = exitText then ClientPc.exited else .loop q
      some { w with
        mailbox := w.mailbox ++ [msg]
        client := Function.update w.client p c }
  | _ => none

def serverStep (w : World P) (opened : Bool) : Option (World P) :=
  match w.mailbox with
  | [] => none
  | msg :: rest => (handle w.server msg opened).map fun r =>
      { w with server := r.1, mailbox := rest }

structure Leftover where
  queues : Queues
  injective : ∀ x y q, queues.named x = some q → queues.named y = some q → x = y
  old : ∀ x q, queues.named x = some q → q < queues.fresh

def world [DecidableEq P] (leftover : Leftover) (ids : P → Identifier) :
    System (World P) (Action P) where
  init :=
    { server := (Posix.server leftover.queues).init
      mailbox := []
      client := fun _ => .check }
  next w a :=
    match a with
    | .client p opened => clientStep ids w p opened
    | .text p msgType line => textStep ids w p msgType line
    | .die p => some { w with client := Function.update w.client p .exited }
    | .server opened => serverStep w opened

/-! ## §2  The invariant -/

/-- The server handles the message as an exit. -/
def IsExit (m : Message) : Prop := m.msgType ≠ msgTypeInit ∧ m.msgBody = exitText

/-- No two clients of one name start up at a time, and a name belongs to its live
client until the server has handled the exit. -/
structure Held (ids : P → Identifier) (w : World P) : Prop where
  starters : ∀ p p', (w.client p).Starts → (w.client p').Starts →
    (ids p).clientId = (ids p').clientId → p = p'
  users : ∀ p q, w.client p = .loop q → w.server.queues.named (ids p).clientId = some q
  alone : ∀ p p' q, (w.client p).Starts → w.client p' = .loop q →
    (ids p).clientId ≠ (ids p').clientId
  distinct : ∀ p p' q q', w.client p = .loop q → w.client p' = .loop q' →
    (ids p).clientId = (ids p').clientId → p = p'
  /-- the name of a client whose exit is pending has a queue and no other client -/
  leaving : ∀ m ∈ w.mailbox, IsExit m → ∀ p, m.clientId = (ids p).clientId →
    ¬ (w.client p).Starts ∧ (∀ q, w.client p ≠ .loop q) ∧
      w.server.queues.named (ids p).clientId ≠ none
  once : w.mailbox.Pairwise fun m m' => IsExit m → IsExit m' →
    m.clientId = m'.clientId → ∀ p, m.clientId ≠ (ids p).clientId
  injective : ∀ x y q, w.server.queues.named x = some q → w.server.queues.named y = some q →
    x = y
  fresh : ∀ x q, w.server.queues.named x = some q → q < w.server.queues.fresh

variable {ids : P → Identifier} {w t : World P}

theorem Held.send (hw : Held ids w) {m : Message} (hm : ¬ IsExit m) :
    Held ids { w with mailbox := w.mailbox ++ [m] } where
  starters := hw.starters
  users := hw.users
  alone := hw.alone
  distinct := hw.distinct
  leaving m' hm' hexit := by
    rcases List.mem_append.mp hm' with hm' | hm'
    · exact hw.leaving m' hm' hexit
    · exact absurd (List.mem_singleton.mp hm' ▸ hexit) hm
  once := by
    refine List.pairwise_append.mpr ⟨hw.once, List.pairwise_singleton _ _, ?_⟩
    intro m' _ m'' hm'' _ hexit
    exact absurd (List.mem_singleton.mp hm'' ▸ hexit) hm
  injective := hw.injective
  fresh := hw.fresh

theorem Held.receive (hw : Held ids w) {msg : Message} {rest : List Message}
    (hmail : w.mailbox = msg :: rest) : Held ids { w with mailbox := rest } where
  starters := hw.starters
  users := hw.users
  alone := hw.alone
  distinct := hw.distinct
  leaving m hm := hw.leaving m (hmail ▸ List.mem_cons_of_mem msg hm)
  once := (List.pairwise_cons.mp (hmail ▸ hw.once)).2
  injective := hw.injective
  fresh := hw.fresh

theorem Held.create (hw : Held ids w) {name : Name} (hnone : w.server.queues.named name = none)
    {s : Server} (hs : s.queues =
      { named := Function.update w.server.queues.named name (some w.server.queues.fresh)
        fresh := w.server.queues.fresh + 1 }) :
    Held ids { w with server := s } := by
  have hkeeps : ∀ x q, w.server.queues.named x = some q → s.queues.named x = some q := by
    intro x q hx
    rw [hs]
    exact update_of_named hnone hx
  -- a queue of the new state is the new one or an old one
  have hcases : ∀ x q, s.queues.named x = some q →
      (x = name ∧ q = w.server.queues.fresh) ∨ w.server.queues.named x = some q := by
    intro x q hx
    simp only [hs, Function.update_apply] at hx
    split_ifs at hx with hne
    · exact Or.inl ⟨hne, (Option.some.inj hx).symm⟩
    · exact Or.inr hx
  exact
    { starters := hw.starters
      users := fun p q hp => hkeeps _ q (hw.users p q hp)
      alone := hw.alone
      distinct := hw.distinct
      leaving := fun m hm hexit p hp => by
        obtain ⟨hstart, hno, hnamed⟩ := hw.leaving m hm hexit p hp
        obtain ⟨q, hq⟩ := Option.ne_none_iff_exists'.mp hnamed
        exact ⟨hstart, hno, hkeeps _ q hq ▸ Option.some_ne_none q⟩
      once := hw.once
      injective := fun x y q hx hy => by
        rcases hcases x q hx with ⟨rfl, rfl⟩ | hx <;> rcases hcases y _ hy with ⟨rfl, hq⟩ | hy
        · rfl
        · exact absurd (hw.fresh y _ hy) (lt_irrefl _)
        · subst hq
          exact absurd (hw.fresh x _ hx) (lt_irrefl _)
        · exact hw.injective x y q hx hy
      fresh := fun x q hx => by
        rw [hs]
        rcases hcases x q hx with ⟨-, rfl⟩ | hx
        · exact Nat.lt_succ_self _
        · exact Nat.lt_succ_of_lt (hw.fresh x q hx) }

/-- The server unlinks the queue of a name that no live client uses. -/
theorem Held.unlink (hw : Held ids w) {name : Name}
    (hleft : ∀ p, name = (ids p).clientId → ∀ q, w.client p ≠ .loop q)
    (honce : ∀ m ∈ w.mailbox, IsExit m → m.clientId = name → ∀ p, name ≠ (ids p).clientId)
    {s : Server} (hs : s.queues = w.server.queues.unlink name) :
    Held ids { w with server := s } := by
  have hkeeps : ∀ x, x ≠ name → s.queues.named x = w.server.queues.named x := by
    intro x hx
    rw [hs]
    exact Function.update_of_ne hx ..
  have hold : ∀ x q, s.queues.named x = some q → w.server.queues.named x = some q := by
    intro x q hx
    simp only [hs, Queues.unlink, Function.update_apply] at hx
    split_ifs at hx
    exact hx
  exact
    { starters := hw.starters
      users := fun p q hp => (hkeeps _ fun h => hleft p h.symm q hp).trans (hw.users p q hp)
      alone := hw.alone
      distinct := hw.distinct
      leaving := fun m hm hexit p hp => by
        obtain ⟨hstart, hno, hnamed⟩ := hw.leaving m hm hexit p hp
        refine ⟨hstart, hno, ?_⟩
        show s.queues.named (ids p).clientId ≠ none
        rw [hkeeps _ fun h => honce m hm hexit (hp.trans h) p h.symm]
        exact hnamed
      once := hw.once
      injective := fun x y q hx hy => hw.injective x y q (hold x q hx) (hold y q hy)
      fresh := fun x q hx => by
        rw [hs]
        exact hw.fresh x q (hold x q hx) }

theorem Held.serverStep (hw : Held ids w) {opened : Bool}
    (hn : serverStep w opened = some t) : Held ids t := by
  unfold Exclusive.serverStep at hn
  cases hmail : w.mailbox with
  | nil => simp [hmail] at hn
  | cons msg rest =>
      simp only [hmail, Option.map_eq_some_iff] at hn
      obtain ⟨⟨s, sends⟩, hhandle, rfl⟩ := hn
      have hrest := hw.receive hmail
      -- what is known of the name when the message is an exit
      have hunlink : IsExit msg → ∀ {s : Server},
          s.queues = w.server.queues.unlink msg.clientId →
          Held ids { w with server := s, mailbox := rest } := by
        intro hexit s hs
        have hmem : msg ∈ w.mailbox := hmail ▸ List.mem_cons_self
        have honce := (List.pairwise_cons.mp (hmail ▸ hw.once)).1
        exact hrest.unlink (fun p hp => (hw.leaving msg hmem hexit p hp).2.1)
          (fun m hm hexit' heq => honce m hm hexit hexit' heq.symm) hs
      rcases handle_cases hhandle with ⟨-, rfl, -⟩ | ⟨-, -, hnone, i, -, rfl, -⟩ |
        ⟨htype, hbody, i, -, rfl, -⟩ | ⟨htype, hbody, -, rfl, -⟩ | ⟨-, -, rfl, -⟩
      · exact hrest
      · exact hrest.create hnone rfl
      · exact hunlink ⟨htype, hbody⟩ rfl
      · exact hunlink ⟨htype, hbody⟩ rfl
      · exact hrest

variable [DecidableEq P]

theorem held_start (leftover : Leftover) (ids : P → Identifier) :
    Held ids (world leftover ids).init where
  starters _ _ h := h.elim
  users _ _ h := ClientPc.noConfusion h
  alone _ _ _ h := h.elim
  distinct _ _ _ _ h := ClientPc.noConfusion h
  leaving _ h := absurd h List.not_mem_nil
  once := List.Pairwise.nil
  injective := leftover.injective
  fresh := leftover.old

/-- A client moves: it may start up when its name has no queue and no other
client starts, and enter its loop with the queue of its name. -/
theorem Held.moveClient (hw : Held ids w) {p : P} {c : ClientPc}
    (hstarts : c.Starts → (w.client p).Starts ∨
      ((∀ p', p' ≠ p → (ids p').clientId = (ids p).clientId → ¬ (w.client p').Starts) ∧
        w.server.queues.named (ids p).clientId = none))
    (hloop : ∀ q, c = .loop q → w.client p = .loop q ∨
      ((w.client p).Starts ∧ w.server.queues.named (ids p).clientId = some q)) :
    Held ids { w with client := Function.update w.client p c } := by
  -- who starts up afterwards did before, or is the client that moves
  have hstart : ∀ a, (Function.update w.client p c a).Starts → (w.client a).Starts ∨
      (a = p ∧ (∀ p', p' ≠ a → (ids p').clientId = (ids a).clientId → ¬ (w.client p').Starts) ∧
        w.server.queues.named (ids a).clientId = none) := by
    intro a ha
    simp only [Function.update_apply] at ha
    split_ifs at ha with hap
    · subst hap
      exact (hstarts ha).imp_right fun h => ⟨rfl, h⟩
    · exact Or.inl ha
  have hin : ∀ a q, Function.update w.client p c a = .loop q → w.client a = .loop q ∨
      ((w.client a).Starts ∧ w.server.queues.named (ids a).clientId = some q) := by
    intro a q ha
    simp only [Function.update_apply] at ha
    split_ifs at ha with hap
    · subst hap
      exact hloop q ha
    · exact Or.inl ha
  have husers : ∀ a q, Function.update w.client p c a = .loop q →
      w.server.queues.named (ids a).clientId = some q := by
    intro a q ha
    rcases hin a q ha with hold | ⟨-, hnamed⟩
    · exact hw.users a q hold
    · exact hnamed
  exact
    { starters := fun a b ha hb hab => by
        rcases hstart a ha with holda | ⟨hap, hno, -⟩ <;>
          rcases hstart b hb with holdb | ⟨hbp, hno', -⟩
        · exact hw.starters a b holda holdb hab
        · by_contra hne
          exact hno' a hne hab holda
        · by_contra hne
          exact hno b (Ne.symm hne) hab.symm holdb
        · exact hap.trans hbp.symm
      users := husers
      alone := fun a b q ha hb hab => by
        rcases hstart a ha with holda | ⟨-, -, hnone⟩
        · rcases hin b q hb with holdb | ⟨holdb, -⟩
          · exact hw.alone a b q holda holdb hab
          · -- it would be the client itself, which cannot be in both places
            obtain rfl := hw.starters a b holda holdb hab
            rw [hb] at ha
            exact ha
        · rw [hab] at hnone
          exact absurd (hnone.symm.trans (husers b q hb)) (Option.some_ne_none q).symm
      distinct := fun a b q q' ha hb hab => by
        rcases hin a q ha with holda | ⟨holda, -⟩ <;>
          rcases hin b q' hb with holdb | ⟨holdb, -⟩
        · exact hw.distinct a b q q' holda holdb hab
        · exact absurd hab.symm (hw.alone b a q holdb holda)
        · exact absurd hab (hw.alone a b q' holda holdb)
        · exact hw.starters a b holda holdb hab
      leaving := fun m hm hexit a ha => by
        obtain ⟨hstarting, hno, hnamed⟩ := hw.leaving m hm hexit a ha
        refine ⟨fun h => ?_, fun q h => ?_, hnamed⟩
        · rcases hstart a h with hold | ⟨-, -, hnone⟩
          · exact hstarting hold
          · exact hnamed hnone
        · rcases hin a q h with hold | ⟨hold, -⟩
          · exact hno q hold
          · exact hstarting hold
      once := hw.once
      injective := hw.injective
      fresh := hw.fresh }

theorem Held.exit (hw : Held ids w) {p : P} {q : ℕ} (hp : w.client p = .loop q) {m : Message}
    (hm : ∀ p', m.clientId = (ids p').clientId → (ids p').clientId = (ids p).clientId) :
    Held ids { w with
      mailbox := w.mailbox ++ [m]
      client := Function.update w.client p .exited } := by
  have hended := hw.moveClient (p := p) (c := .exited) False.elim fun _ h => ClientPc.noConfusion h
  exact
    { hended with
      leaving := fun m' hm' hexit a ha => by
        rcases List.mem_append.mp hm' with hm' | hm'
        · exact hended.leaving m' hm' hexit a ha
        · -- the name of the exit was the name of `p` alone
          have hname := hm a (List.mem_singleton.mp hm' ▸ ha)
          refine ⟨fun h => ?_, fun q' h => ?_, ?_⟩
          · simp only [Function.update_apply] at h
            split_ifs at h
            · exact h
            · exact hw.alone a p q h hp hname
          · simp only [Function.update_apply] at h
            split_ifs at h with hap
            exact hap (hw.distinct a p q' q h hp hname)
          · rw [hname]
            exact hw.users p q hp ▸ Option.some_ne_none q
      once := by
        refine List.pairwise_append.mpr ⟨hw.once, List.pairwise_singleton _ _, ?_⟩
        intro m' hm' m'' hm'' hexit _ heq a ha
        rw [List.mem_singleton.mp hm''] at heq
        have hname := hm a (heq.symm.trans ha)
        exact (hw.leaving m' hm' hexit p (ha.trans hname)).2.1 q hp }

/-! ## §3  No queue is shared -/

/-- No client passes its check while another one of its name starts up. -/
def Orderly (ids : P → Identifier) (w : World P) : Action P → Prop
  | .client p opened =>
      w.client p = .check → opened = true → w.server.queues.named (ids p).clientId = none →
        ∀ p', p' ≠ p → (ids p').clientId = (ids p).clientId → ¬ (w.client p').Starts
  | _ => True

theorem Held.clientStep (hw : Held ids w) {p : P} {opened : Bool}
    (horderly : Orderly ids w (.client p opened))
    (hn : clientStep ids w p opened = some t) : Held ids t := by
  unfold Exclusive.clientStep at hn
  cases hpc : w.client p with
  | check =>
      simp only [hpc, Option.some.injEq] at hn
      subst hn
      apply hw.moveClient
      · intro hc
        split_ifs at hc with hpass
        · exact Or.inr ⟨horderly hpc hpass.1 hpass.2, hpass.2⟩
        · exact hc.elim
      · intro q hc
        split_ifs at hc
  | send =>
      simp only [hpc, Option.some.injEq] at hn
      subst hn
      have hsent := hw.send (m := ⟨msgTypeInit, (ids p).clientId, [], []⟩) fun h => h.1 rfl
      apply hsent.moveClient
      · intro _
        exact Or.inl (hpc ▸ trivial)
      · intro q hc
        exact ClientPc.noConfusion hc
  | opening n =>
      simp only [hpc, Option.some.injEq] at hn
      subst hn
      have hstarts : (w.client p).Starts := hpc ▸ trivial
      apply hw.moveClient
      · intro _
        exact Or.inl hstarts
      · intro q hc
        refine Or.inr ⟨hstarts, ?_⟩
        split at hc
        · rename_i q' hq
          obtain rfl := ClientPc.loop.inj hc
          split_ifs at hq
          exact hq
        · split_ifs at hc
  | loop q => simp [hpc] at hn
  | exited => simp [hpc] at hn

/-- The name of a text is the author's or nobody's: an identifier of 20 characters
and a timestamp are longer than any name. -/
theorem clientId_of_sentName {id id' : Identifier} {l : Line}
    (h : sentName id l = id'.clientId) : id'.clientId = id.clientId := by
  unfold sentName at h
  split_ifs at h with hshort
  · exact h.symm
  · have hlen := congrArg List.length h
    have hfits := id'.fits
    rw [List.length_append, id.length_clientId, id'.length_clientId, Fields.length_timestamp]
      at hlen
    omega

theorem Held.textStep (hw : Held ids w) {p : P} {msgType : ℤ} {line : Line}
    (hn : textStep ids w p msgType line = some t) : Held ids t := by
  unfold Exclusive.textStep at hn
  split at hn
  · rename_i q hpc
    simp only [Option.some.injEq] at hn
    subst hn
    by_cases hexit : line.text = exitText
    · rw [if_pos hexit]
      exact hw.exit hpc fun _ => clientId_of_sentName
    · rw [if_neg hexit]
      have hsent := hw.send (m := ⟨msgType, sentName (ids p) line, line.timestamp, line.text⟩)
        fun h => hexit h.2
      exact hsent.moveClient False.elim fun _ hc => Or.inl (hpc.trans hc)
  · exact absurd hn (Option.some_ne_none t).symm

variable {leftover : Leftover}

theorem Held.next (hw : Held ids w) {a : Action P} (horderly : Orderly ids w a)
    (hn : (world leftover ids).next w a = some t) : Held ids t := by
  cases a with
  | client p opened => exact hw.clientStep horderly hn
  | text p msgType line => exact hw.textStep hn
  | die p =>
      obtain rfl := Option.some.inj hn
      exact hw.moveClient False.elim fun _ hc => ClientPc.noConfusion hc
  | server opened => exact hw.serverStep hn

theorem run_held {tr : List (World P × Action P)} (h : (world leftover ids).Run tr w)
    (horderly : ∀ x ∈ tr, Orderly ids x.1 x.2) : Held ids w :=
  h.invariant_of_steps (I := fun _ w => Held ids w) horderly (held_start leftover ids)
    fun _ _ _ _ hw ha hn => hw.next ha hn

/-- **No two live clients use one queue** in any run in which no client passes its
check while another one of its name starts up: whatever the identifiers, the
queues that were left, the texts and the clients that die. -/
theorem exclusive_of_orderly {tr : List (World P × Action P)}
    (h : (world leftover ids).Run tr w) (horderly : ∀ x ∈ tr, Orderly ids x.1 x.2)
    {p p' : P} {q : ℕ} (hp : w.client p = .loop q) (hp' : w.client p' = .loop q) : p = p' := by
  have hw := run_held h horderly
  have hname := hw.injective _ _ q (hw.users p q hp) (hw.users p' q hp')
  exact hw.distinct p p' q q hp hp' hname

def noLeftover : Leftover where
  queues := { named := fun _ => none, fresh := 0 }
  injective _ _ _ h := absurd h (Option.some_ne_none _).symm
  old _ _ h := absurd h (Option.some_ne_none _).symm

/-- Two clients with the identifier "a". -/
def sameIds (_ : Fin 2) : Identifier where
  bytes := [97]
  noNul := by decide
  noSlash := by decide
  fits := by decide

/-- The second client checks after the first one has opened its queue. -/
theorem exclusive_of_orderly_second : ∃ tr w, (world noLeftover sameIds).Run tr w ∧
    w.client 0 = .loop 0 ∧ ∀ p, w.client p = .loop 0 → p = 0 := by
  have h := (world noLeftover sameIds).run_of_replay
    [.client 0 true, .client 0 true, .server true, .client 0 true, .client 1 true] rfl
  refine ⟨_, _, h, rfl, fun p hp => exclusive_of_orderly h ?_ hp rfl⟩
  simp only [List.forall_mem_cons]
  refine ⟨fun _ _ _ p' _ _ => id, ClientPc.noConfusion, trivial, ClientPc.noConfusion, ?_, ?_⟩
  · intro _ _ hnone
    exact absurd hnone (Option.some_ne_none 0)
  · exact fun x hx => absurd hx List.not_mem_nil

/-- Both clients check before the server has created the queue of the first one:
the init message of the second one is refused, and both open queue 0. -/
theorem queue_shared : ∃ tr w, (world noLeftover sameIds).Run tr w ∧
    w.client 0 = .loop 0 ∧ w.client 1 = .loop 0 := by
  have h := (world noLeftover sameIds).run_of_replay
    [.client 0 true, .client 1 true, .client 0 true, .client 1 true, .server true,
      .server true, .client 0 true, .client 1 true] rfl
  exact ⟨_, _, h, rfl, rfl⟩

end Sysopy.QueueChat.Exclusive
