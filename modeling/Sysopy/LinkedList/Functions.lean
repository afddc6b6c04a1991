import Sysopy.Foundation.Chain
import Sysopy.Foundation.CString

/-!
# A list of people

The nodes of the list and the `list_t`s that hold the heads, and the functions that
work on them. A function is `none` when it reads through `NULL` or through a pointer
to a node that is not allocated, and when it does not return within `fuel` turns of
each of its loops and `fuel` calls of itself in one another. A `list_t` is never freed,
so the handles are numbers in the order of creation. Of the data of a node only the two
keys matter to the functions.

## Sections

* §1 memory
* §2 loops
* §3 the functions
-/

namespace Sysopy.LinkedList

open Sysopy.Foundation Linked

/-! ## §1  Memory -/

/-- A pointer to a node, without `NULL`. -/
abbrev Addr := ℕ

/-- A pointer to a `list_t`, without `NULL`. -/
abbrev Handle := ℕ

abbrev Str := List Byte

/-- `list_node_t` -/
structure Node where
  name : Option Str
  surname : Option Str
  next : Option Addr
  prev : Option Addr

instance : Linked Addr Node where
  next x := x.next
  prev x := x.prev
  setNext p x := { x with next := p }
  setPrev p x := { x with prev := p }
  next_setNext _ _ := rfl
  prev_setNext _ _ := rfl
  next_setPrev _ _ := rfl
  prev_setPrev _ _ := rfl

structure Memory where
  /-- the allocated nodes -/
  node : Addr → Option Node
  /-- the `head` of each `list_t` -/
  head : List (Option Addr)
  printed : List String

namespace Memory

def load (m : Memory) (p : Option Addr) : Option Node := p.bind m.node

def store (m : Memory) (p : Option Addr) (f : Node → Node) : Option Memory :=
  (m.load p).map fun _ => { m with node := modifyAt m.node p f }

/-- `if(p != NULL) p -> prev = q` -/
def storePrev (m : Memory) (p q : Option Addr) : Option Memory :=
  match p with
  | some _ => m.store p (setPrev q)
  | none => some m

def setHead (m : Memory) (list : Handle) (p : Option Addr) : Memory :=
  { m with head := m.head.set list p }

def print (m : Memory) (text : String) : Memory := { m with printed := m.printed ++ [text] }

/-! ## §2  Loops -/

/-- `while(iteration_node -> next != NULL)` -/
def lastNode (m : Memory) : ℕ → Option Addr → Option (Option Addr)
  | 0, _ => none
  | fuel + 1, iterationNode => do
      let x ← m.load iterationNode
      match x.next with
      | none => some iterationNode
      | some _ => m.lastNode fuel x.next

/-- `while(iteration_node != NULL && iteration_node != node_to_remove)` -/
def seek (m : Memory) (nodeToRemove : Option Addr) : ℕ → Option Addr → Option (Option Addr)
  | 0, _ => none
  | fuel + 1, iterationNode =>
      if iterationNode = none ∨ iterationNode = nodeToRemove then some iterationNode
      else do
        let x ← m.load iterationNode
        m.seek nodeToRemove fuel x.next

/-- The two comparisons of `find_elem_by_full_name`; `strcmp` must not get `NULL`. -/
def hasFullName (x : Node) (name surname : Str) : Option Bool := do
  let xName ← x.name
  if strcmp xName name = .eq then do
    let xSurname ← x.surname
    some (strcmp xSurname surname = .eq)
  else some false

/-- The loop of `find_elem_by_full_name`. -/
def findLoop (m : Memory) (name surname : Str) : ℕ → Option Addr → Option (Option Addr)
  | 0, _ => none
  | _ + 1, none => some none
  | fuel + 1, some a => do
      let x ← m.node a
      let found ← hasFullName x name surname
      if found then some (some a) else m.findLoop name surname fuel x.next

/-- `strcmp` of two keys; neither may be `NULL`. -/
def strcmpKeys (s t : Option Str) : Option Ordering := do
  let s ← s
  let t ← t
  some (strcmp s t)

/-- The test for `equal`. -/
def isEqual (x pivot : Node) : Option Bool := do
  let names ← strcmpKeys x.name pivot.name
  if names = .eq then do
    let surnames ← strcmpKeys x.surname pivot.surname
    some (surnames = .eq)
  else some false

/-- The tests for `lesser` and `greater`, with the result of `strcmp` that they look for. -/
def isOnSide (o : Ordering) (x pivot : Node) : Option Bool := do
  let surnames ← strcmpKeys x.surname pivot.surname
  if surnames = o then some true
  else if surnames = .eq then do
    let names ← strcmpKeys x.name pivot.name
    some (names = o)
  else some false

def isLesser : Node → Node → Option Bool := isOnSide .lt

def isGreater : Node → Node → Option Bool := isOnSide .gt

/-- The loop of `list_sort`, which only reports. -/
def reportMissing : ℕ → Memory → Option Addr → Option Memory
  | 0, _, _ => none
  | _ + 1, m, none => some m
  | fuel + 1, m, some a => do
      let x ← m.node a
      let m := if x.name = none ∨ x.surname = none then
          m.print ("Sort operation impossible - there are keys (name and surname) missing " ++
            "in some elements.\n")
        else m
      reportMissing fuel m x.next

/-! ## §3  The functions -/

def createList (m : Memory) : Memory × Handle :=
  ({ m with head := m.head ++ [none] }, m.head.length)

def deleteNode (m : Memory) (node : Option Addr) : Option Memory :=
  match node with
  | none => some (m.print "Passed NULL to remove_node(). Returning now.")
  | some a => (m.node a).map fun _ => { m with node := Function.update m.node a none }

/-- The loop of `delete_list`. -/
def deleteNodes : ℕ → Memory → Option Addr → Option Memory
  | 0, _, _ => none
  | _ + 1, m, none => some m
  | fuel + 1, m, some a => do
      let x ← m.node a
      let m ← m.deleteNode (some a)
      deleteNodes fuel m x.next

/-- `delete_list`, which leaves the `list_t` as it is. -/
def deleteList (fuel : ℕ) (m : Memory) (list : Option Handle) : Option Memory :=
  match list with
  | none => some m
  | some list => do
      let head ← m.head[list]?
      deleteNodes fuel m head

def addElem (fuel : ℕ) (m : Memory) (list : Option Handle) (nodeToAdd : Option Addr) :
    Option Memory :=
  match list, nodeToAdd with
  | none, _ => some (m.print "Cannot add element: 'list' is NULL.\n")
  | some _, none => some (m.print "Cannot add element: 'node_to_add' is null\n")
  | some list, some _ => do
      let head ← m.head[list]?
      match head with
      | some _ => do
          let iterationNode ← m.lastNode fuel head
          let m ← m.store iterationNode (setNext nodeToAdd)
          let m ← m.store nodeToAdd (setPrev iterationNode)
          m.store nodeToAdd (setNext none)
      | none => do
          let m := m.setHead list nodeToAdd
          let m ← m.store nodeToAdd (setNext none)
          m.store nodeToAdd (setPrev none)

/-- The part of `remove_elem` after the loop. -/
def unlinkNode (m : Memory) (list : Handle) (iterationNode : Option Addr) : Option Memory := do
  let x ← m.load iterationNode
  match x.prev with
  | none => do
      let m := m.setHead list x.next
      let m ← m.storePrev x.next none
      m.deleteNode iterationNode
  | some _ => do
      let m ← m.store x.prev (setNext x.next)
      let x ← m.load iterationNode
      let m ← m.storePrev x.next x.prev
      m.deleteNode iterationNode

def removeElem (fuel : ℕ) (m : Memory) (list : Option Handle) (nodeToRemove : Option Addr) :
    Option Memory :=
  match list, nodeToRemove with
  | none, _ => some (m.print "Passed null as an argument to remove_elem(), returning now")
  | some _, none => some (m.print "Passed null as an argument to remove_elem(), returning now")
  | some list, some _ => do
      let head ← m.head[list]?
      let iterationNode ← m.seek nodeToRemove fuel head
      if iterationNode = nodeToRemove then m.unlinkNode list iterationNode else some m

def listConcat (fuel : ℕ) (m : Memory) (first second : Option Handle) : Option Memory :=
  match first, second with
  | some first, some second => do
      let firstHead ← m.head[first]?
      let secondHead ← m.head[second]?
      match firstHead, secondHead with
      | none, _ => some (m.setHead first secondHead)
      | some _, none => some (m.setHead second firstHead)
      | some _, some _ => do
          let iterationNode ← m.lastNode fuel firstHead
          let m ← m.store iterationNode (setNext secondHead)
          let m ← m.store secondHead (setPrev iterationNode)
          some (m.setHead second firstHead)
  | _, _ => some (m.print "Cannot perform concatenation of NULL lists.\n")

/-- `if(found) add_elem(list, node_to_add)` -/
def addElemIf (found : Bool) (fuel : ℕ) (m : Memory) (list : Handle) (nodeToAdd : Addr) :
    Option Memory :=
  if found then m.addElem fuel (some list) (some nodeToAdd) else some m

/-- One turn of the loop that splits a list around `pivot`. -/
def splitNode (fuel : ℕ) (m : Memory) (pivot : Addr) (lesser equal greater : Handle)
    (iterationNode : Addr) : Option Memory := do
  let x ← m.node iterationNode
  let p ← m.node pivot
  let found ← isEqual x p
  let m ← m.addElemIf found fuel equal iterationNode
  let found ← isLesser x p
  let m ← m.addElemIf found fuel lesser iterationNode
  let found ← isGreater x p
  m.addElemIf found fuel greater iterationNode

/-- The loop that splits; a turn reads the `next` of its node before it adds the node
to another list. -/
def splitLoop (fuel : ℕ) (pivot : Addr) (lesser equal greater : Handle) :
    ℕ → Memory → Option Addr → Option Memory
  | 0, _, _ => none
  | _ + 1, m, none => some m
  | turns + 1, m, some a => do
      let x ← m.node a
      let m ← m.splitNode fuel pivot lesser equal greater a
      splitLoop fuel pivot lesser equal greater turns m x.next

/-- `if(second -> head != NULL) list_concat(first, second)` -/
def concatNonempty (fuel : ℕ) (m : Memory) (first second : Handle) : Option Memory := do
  let head ← m.head[second]?
  match head with
  | none => some m
  | some _ => m.listConcat fuel (some first) (some second)

/-- `perform_quick_list_sort`, at most `depth` calls deep. -/
def performQuickListSort (fuel : ℕ) : ℕ → Memory → Handle → Option Memory
  | 0, _, _ => none
  | depth + 1, m, list => do
      let head ← m.head[list]?
      match head with
      | none => some m
      | some pivot => do
          let x ← m.node pivot
          match x.next with
          | none => some m
          | some _ => do
              let (m, lesser) := m.createList
              let (m, equal) := m.createList
              let (m, greater) := m.createList
              let (m, result) := m.createList
              -- `list -> head` is still the pivot: it goes to `equal` itself
              let m ← splitLoop fuel pivot lesser equal greater fuel m (some pivot)
              let m ← performQuickListSort fuel depth m lesser
              let m ← performQuickListSort fuel depth m equal
              let m ← performQuickListSort fuel depth m greater
              let m ← m.concatNonempty fuel result lesser
              let m ← m.concatNonempty fuel result equal
              let m ← m.concatNonempty fuel result greater
              let head ← m.head[result]?
              some (m.setHead list head)

def listSort (fuel : ℕ) (m : Memory) (list : Option Handle) : Option Memory :=
  match list with
  | none => some (m.print "Cannot sort NULL or empty list.\n")
  | some list => do
      let head ← m.head[list]?
      match head with
      | none => some (m.print "Cannot sort NULL or empty list.\n")
      | some _ => do
          -- nothing stops the sort when keys are missing
          let m ← reportMissing fuel m head
          performQuickListSort fuel fuel m list

def findElemByFullName (fuel : ℕ) (m : Memory) (list : Option Handle)
    (name surname : Option Str) : Option (Memory × Option Addr) :=
  match list with
  | none => some (m.print "Cannot look for element: list is NULL.\n", none)
  | some list =>
      match name, surname with
      | some name, some surname =>
          if name = [] ∨ surname = [] then
            some (m.print "Cannot perform find on NULL or empty name\n", none)
          else do
            let head ← m.head[list]?
            let found ← m.findLoop name surname fuel head
            some (m, found)
      | _, _ => some (m.print "Cannot perform find on NULL or empty name\n", none)

end Memory

end Sysopy.LinkedList
