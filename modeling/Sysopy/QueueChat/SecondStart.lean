import Sysopy.QueueChat.Slots

/-!
# A second start of the System V server

The exit handler of the server is registered before anything else and relies on
its global variables. In a process that fails because the key file exists they
have their initial values: every slot of `clients_queue_ids` holds 0, which is
not the mark of an empty slot, and the key file is removed whoever made it. So a
second start removes the key file of the running server, and if the kernel gave
the number 0 to one of its queues, fills and removes that one.

## Sections

* §1 the kernel
* §2 the exit handler
* §3 the second process
-/

namespace Sysopy.QueueChat.SecondStart

/-! ## §1  The kernel -/

structure Kernel where
  keyFile : Bool
  queues : ℤ → Option (List Message)

/-- What the kernel allows the process: to remove the key file, to write to a
queue and to remove it. -/
structure Rights where
  removeFile : Bool
  send : ℤ → Bool
  control : ℤ → Bool

namespace Kernel

variable (rights : Rights) (k : Kernel)

/-- `msgsnd`, which fails for a number without a queue. -/
def msgsnd (q : ℤ) (msg : Message) : Kernel :=
  if rights.send q then
    { k with queues := Function.update k.queues q ((k.queues q).map (· ++ [msg])) }
  else k

def msgctlRmid (q : ℤ) : Kernel :=
  if rights.control q then { k with queues := Function.update k.queues q none } else k

/-- `remove(GLOBAL_QUEUE_KEY_FILE)` after `access`. -/
def removeKeyFile : Kernel :=
  if k.keyFile = true ∧ rights.removeFile = true then { k with keyFile := false } else k

end Kernel

/-! ## §2  The exit handler -/

def s2c : ℤ := 12

def exitBody : List Foundation.Byte := [101, 120, 105, 116]

structure Globals where
  clientsQueueIds : QueueIds
  mainQueueId : ℤ

def Globals.initial : Globals := { clientsQueueIds := fun _ => 0, mainQueueId := -1 }

/-- The slots that the loops of `cleanup` take for used ones. -/
def Globals.clients (g : Globals) : List ℤ :=
  ((List.finRange maxClients).filter fun i => g.clientsQueueIds i ≠ emptyClientSlot).map
    g.clientsQueueIds

/-- `cleanup`; the other fields of `out_msg_buf` are not initialised. -/
def cleanup (rights : Rights) (outMsgBuf : Message) (g : Globals) (k : Kernel) : Kernel :=
  let msg := { outMsgBuf with msgType := s2c, msgBody := exitBody }
  let k := g.clients.foldl (fun k q => k.msgsnd rights q msg) k
  let k := k.removeKeyFile rights
  let k := if g.mainQueueId ≠ -1 then k.msgctlRmid rights g.mainQueueId else k
  g.clients.foldl (Kernel.msgctlRmid rights) k

/-! ## §3  The second process -/

/-- `main` up to the key file: the kernel after `error` and the exit handler, or
`none` if `open` with `O_EXCL` creates the file. -/
def start (rights : Rights) (outMsgBuf : Message) (k : Kernel) : Option Kernel :=
  if k.keyFile then some (cleanup rights outMsgBuf Globals.initial k) else none

section Loops

variable {rights : Rights} {k : Kernel} {msg : Message} {q : ℤ}

theorem foldl_msgsnd_keyFile (qs : List ℤ) (k : Kernel) :
    (qs.foldl (fun k q => k.msgsnd rights q msg) k).keyFile = k.keyFile := by
  induction qs generalizing k with
  | nil => rfl
  | cons q qs ih =>
      rw [List.foldl_cons, ih, Kernel.msgsnd]
      split_ifs <;> rfl

/-- The loop that sends adds to a queue what was allowed to be sent to it. -/
theorem foldl_msgsnd_queues (qs : List ℤ) (k : Kernel) (q : ℤ) :
    (qs.foldl (fun k q => k.msgsnd rights q msg) k).queues q =
      (k.queues q).map (· ++ List.replicate (if rights.send q then qs.count q else 0) msg) := by
  induction qs generalizing k with
  | nil => cases hq : k.queues q <;> simp [hq]
  | cons p qs ih =>
      rw [List.foldl_cons, ih, Kernel.msgsnd]
      by_cases hp : p = q
      · subst hp
        by_cases hs : rights.send p = true
        · cases k.queues p <;> simp [hs, List.replicate_succ]
        · simp [hs]
      · have hqp : q ≠ p := fun h => hp h.symm
        rw [List.count_cons_of_ne hp]
        split_ifs <;> simp [Function.update_of_ne hqp]

theorem foldl_msgctlRmid_keyFile (qs : List ℤ) (k : Kernel) :
    (qs.foldl (Kernel.msgctlRmid rights) k).keyFile = k.keyFile := by
  induction qs generalizing k with
  | nil => rfl
  | cons q qs ih =>
      rw [List.foldl_cons, ih, Kernel.msgctlRmid]
      split_ifs <;> rfl

/-- The loop that removes takes away what it is allowed to. -/
theorem foldl_msgctlRmid_queues (qs : List ℤ) (k : Kernel) (q : ℤ) :
    (qs.foldl (Kernel.msgctlRmid rights) k).queues q =
      if q ∈ qs ∧ rights.control q = true then none else k.queues q := by
  induction qs generalizing k with
  | nil => simp
  | cons p qs ih =>
      rw [List.foldl_cons, ih, Kernel.msgctlRmid]
      by_cases hp : q = p
      · subst hp
        by_cases hc : rights.control q = true <;> simp [hc]
      · split_ifs <;> simp_all [Function.update_of_ne]

end Loops

/-- The exit handler takes all fifteen slots for clients with queue 0. -/
theorem clients_initial : Globals.initial.clients = List.replicate maxClients 0 := by decide

theorem cleanup_keyFile (rights : Rights) (outMsgBuf : Message) (k : Kernel) :
    (cleanup rights outMsgBuf Globals.initial k).keyFile = (k.keyFile && !rights.removeFile) := by
  unfold cleanup
  rw [foldl_msgctlRmid_keyFile, if_neg fun h => h rfl, Kernel.removeKeyFile]
  split_ifs with hremove
  · simp [hremove.2]
  · rw [foldl_msgsnd_keyFile] at hremove ⊢
    cases hfile : k.keyFile <;> simp_all

theorem cleanup_queues (rights : Rights) (outMsgBuf : Message) (k : Kernel) (q : ℤ) :
    (cleanup rights outMsgBuf Globals.initial k).queues q =
      if q = 0 ∧ rights.control q = true then none
      else (k.queues q).map (· ++ List.replicate
        (if rights.send q = true ∧ q = 0 then maxClients else 0)
        { outMsgBuf with msgType := s2c, msgBody := exitBody }) := by
  have hqueues : ∀ k : Kernel, (k.removeKeyFile rights).queues = k.queues := by
    intro k
    unfold Kernel.removeKeyFile
    split_ifs <;> rfl
  have hmain : ¬ Globals.initial.mainQueueId ≠ -1 := fun h => h rfl
  unfold cleanup
  rw [foldl_msgctlRmid_queues, if_neg hmain, hqueues, foldl_msgsnd_queues,
    clients_initial, List.count_replicate]
  by_cases hq : q = 0
  · subst hq
    simp [maxClients]
  · have hne : ¬ (0 : ℤ) = q := fun h => hq h.symm
    simp [hq, hne]

structure Running where
  kernel : Kernel
  globals : Globals
  keyFile : kernel.keyFile = true

/-- The number is that of the main queue or of a client's queue. -/
def Running.Uses (s : Running) (q : ℤ) : Prop :=
  q = s.globals.mainQueueId ∨ ∃ i, s.globals.clientsQueueIds i = q ∧ q ≠ emptyClientSlot

/-- The key file is still there, and so are the server's queues with what was in
them. -/
def Running.Unharmed (s : Running) (k : Kernel) : Prop :=
  k.keyFile = true ∧ ∀ q, s.Uses q → k.queues q = s.kernel.queues q

/-- **A second start is harmless only for want of permission**: to remove the key
file, and, if queue 0 is one of the server's, to write to it and to remove it. -/
theorem start_unharmed_iff (s : Running) (rights : Rights) (outMsgBuf : Message) :
    (∃ k, start rights outMsgBuf s.kernel = some k ∧ s.Unharmed k) ↔
      rights.removeFile = false ∧
        (s.Uses 0 → (s.kernel.queues 0).isSome →
          rights.send 0 = false ∧ rights.control 0 = false) := by
  have hstart : start rights outMsgBuf s.kernel =
      some (cleanup rights outMsgBuf Globals.initial s.kernel) := if_pos s.keyFile
  rw [hstart]
  constructor
  · rintro ⟨k, hk, hfile, hqueues⟩
    obtain rfl := Option.some.inj hk
    rw [cleanup_keyFile, s.keyFile] at hfile
    refine ⟨by simpa using hfile, fun huses halive => ?_⟩
    obtain ⟨ms, hms⟩ := Option.isSome_iff_exists.mp halive
    have hzero := hqueues 0 huses
    rw [cleanup_queues, hms] at hzero
    split_ifs at hzero with hcontrol hsend
    · have hlen := congrArg List.length (Option.some.inj hzero)
      simp [maxClients] at hlen
    · exact ⟨by simpa using hsend, by simpa using hcontrol⟩
  · rintro ⟨hremove, hzero⟩
    refine ⟨_, rfl, ?_, fun q huses => ?_⟩
    · rw [cleanup_keyFile, s.keyFile, hremove]
      rfl
    · rw [cleanup_queues]
      by_cases hq : q = 0
      · subst hq
        cases hms : s.kernel.queues 0 with
        | none => simp
        | some ms =>
            obtain ⟨hsend, hcontrol⟩ := hzero huses (by rw [hms]; rfl)
            simp [hsend, hcontrol]
      · simp [hq]

/-- A server without clients whose main queue has the number 0. -/
def zeroQueue : Running where
  kernel := { keyFile := true, queues := Function.update (fun _ => none) 0 (some []) }
  globals := { clientsQueueIds := fun _ => emptyClientSlot, mainQueueId := 0 }
  keyFile := rfl

/-- The same user starts a second server: the key file and the main queue of the
first one are gone. -/
theorem start_removes_queue : ∃ k,
    start ⟨true, fun _ => true, fun _ => true⟩ ⟨0, [], [], []⟩ zeroQueue.kernel = some k ∧
    k.keyFile = false ∧ k.queues 0 = none ∧ ¬ zeroQueue.Unharmed k := by
  refine ⟨_, rfl, rfl, rfl, fun h => ?_⟩
  exact Bool.false_ne_true h.1

end Sysopy.QueueChat.SecondStart
