import Mathlib.Data.List.Basic
import Nachos.Fault
import Nachos.Prelude.Chain
import Nachos.Prelude.Loop

/-!
# Lists (lib/list.h, list.cc)

A list is a chain of elements, with pointers to the first and to the last of them and with their number. Nobody else has a pointer to an
element, so that every list is given a memory of its own, in which `new` numbers the elements and from which `delete` takes them away. A
walk along more links than elements were ever made goes round in circles and never ends. The number of elements does not overflow: a
memory of 32-bit addresses has no room for so many.
-/

namespace Nachos

open Loop Chain

/-- Why a call does not return: it stops the program, or it goes on for ever. -/
inductive Stop where
  | fault (f : Fault)
  | endless
  deriving DecidableEq, Repr

/-- `ASSERT(condition)`. -/
def check (condition : Prop) [Decidable condition] : Except Stop Unit :=
  if condition then .ok () else .error (.fault .assertFailed)

theorem check_of {c : Prop} [Decidable c] (h : c) : check c = .ok () := if_pos h

/-- `class ListElement`. -/
abbrev ListElement (T : Type) := Cell T

/-- `class List`, with its elements and how many of them were made. -/
structure LinkedList (T : Type) where
  elements : Memory T
  made : Nat
  first : Option Nat
  last : Option Nat
  numInList : Int

namespace LinkedList

variable {T : Type}

/-! ## Pointers -/

/-- `*ptr`. -/
def read (m : Memory T) : Option Nat → Except Stop (ListElement T)
  | none => .error (.fault .nullDereference)
  | some a => (m a).elim (.error (.fault .wildPointer)) .ok

/-- `ptr->next = next`. -/
def setNext (m : Memory T) (ptr next : Option Nat) : Except Stop (Memory T) :=
  match ptr with
  | none => .error (.fault .nullDereference)
  | some a => (m a).elim (.error (.fault .wildPointer)) fun e => .ok (Function.update m a (some { e with next }))

/-- `delete ptr`. -/
def delete (m : Memory T) : Option Nat → Except Stop (Memory T)
  | none => .ok m
  | some a => (m a).elim (.error (.fault .wildPointer)) fun _ => .ok (Function.update m a none)

/-- `new ListElement<T>(item)`, the address of which is the number of the elements made before. -/
def newElement (l : LinkedList T) (item : T) : LinkedList T :=
  { l with elements := Function.update l.elements l.made (some ⟨item, none⟩), made := l.made + 1 }

/-! ## The operations -/

/-- `List<T>::List`. -/
def new : LinkedList T where
  elements := fun _ => none
  made := 0
  first := none
  last := none
  numInList := 0

/-- `IsEmpty`. -/
def isEmpty (l : LinkedList T) : Bool := l.numInList = 0

/-- `Front`. -/
def front (l : LinkedList T) : Except Stop T := do
  let e ← read l.elements l.first
  return e.item

/-- The loop of `IsInList`. -/
def isInListFrom [DecidableEq T] (m : Memory T) (item : T) : Nat → Option Nat → Except Stop Bool
  | _, none => .ok false
  | 0, some _ => .error .endless
  | n + 1, some a => do
    let e ← read m (some a)
    if item = e.item then return true else isInListFrom m item n e.next

/-- `List<T>::IsInList`. -/
def isInList [DecidableEq T] (l : LinkedList T) (item : T) : Except Stop Bool := isInListFrom l.elements item l.made l.first

/-- The links of `Append`. -/
def linkLast (l : LinkedList T) (element : Nat) : Except Stop (LinkedList T) :=
  if l.isEmpty then .ok { l with first := some element, last := some element } -- list is empty
  else do -- else put it after last
    let elements ← setNext l.elements l.last (some element)
    return { l with elements, last := some element }

/-- `List<T>::Append`. -/
def append [DecidableEq T] (l : LinkedList T) (item : T) : Except Stop (LinkedList T) := do
  let element := l.made
  let l := l.newElement item
  let found ← l.isInList item
  check (found = false)
  let l ← l.linkLast element
  let l := { l with numInList := l.numInList + 1 }
  let found ← l.isInList item
  check (found = true)
  return l

/-- The links of `Prepend`. -/
def linkFirst (l : LinkedList T) (element : Nat) : Except Stop (LinkedList T) :=
  if l.isEmpty then .ok { l with first := some element, last := some element } -- list is empty
  else do -- else put it before first
    let elements ← setNext l.elements (some element) l.first
    return { l with elements, first := some element }

/-- `List<T>::Prepend`. -/
def prepend [DecidableEq T] (l : LinkedList T) (item : T) : Except Stop (LinkedList T) := do
  let element := l.made
  let l := l.newElement item
  let found ← l.isInList item
  check (found = false)
  let l ← l.linkFirst element
  let l := { l with numInList := l.numInList + 1 }
  let found ← l.isInList item
  check (found = true)
  return l

/-- `List<T>::RemoveFront`. -/
def removeFront (l : LinkedList T) : Except Stop (T × LinkedList T) := do
  let element := l.first
  check (l.isEmpty = false)
  let e ← read l.elements l.first
  let l :=
    if l.first = l.last then { l with first := none, last := none } -- list had one item, now has none
    else { l with first := e.next }
  let elements ← delete l.elements element
  return (e.item, { l with elements, numInList := l.numInList - 1 })

/-- The loop of `Remove`, and whether it has found the item. -/
def removeFrom [DecidableEq T] (l : LinkedList T) (item : T) : Nat → Option Nat → Option Nat → Except Stop (Bool × LinkedList T)
  | _, _, none => .ok (false, l)
  | 0, _, some _ => .error .endless
  | n + 1, prev, some ptr => do
    let e ← read l.elements (some ptr)
    if item = e.item then do
      let elements ← setNext l.elements prev e.next
      let p ← read elements prev
      let last := if p.next = none then prev else l.last
      let elements ← delete elements (some ptr)
      return (true, { l with elements, last, numInList := l.numInList - 1 })
    else removeFrom l item n (some ptr) e.next

/-- The two cases of `Remove`. -/
def takeOut [DecidableEq T] (l : LinkedList T) (item first : T) (next : Option Nat) : Except Stop (LinkedList T) :=
  if item = first then do -- if first item on list is match, then remove from front
    let (removed, l) ← l.removeFront
    check (item = removed)
    return l
  else do
    let (found, l) ← l.removeFrom item l.made l.first next
    check (found = true) -- should always find item!
    return l

/-- `List<T>::Remove`. -/
def remove [DecidableEq T] (l : LinkedList T) (item : T) : Except Stop (LinkedList T) := do
  let found ← l.isInList item
  check (found = true)
  let e ← read l.elements l.first
  let l ← l.takeOut item e.item e.next
  let found ← l.isInList item
  check (found = false)
  return l

/-- The loop of `SanityCheck`, with the number of elements found. -/
def countFrom (l : LinkedList T) : Nat → Int → Option Nat → Except Stop Int
  | 0, _, _ => .error .endless
  | n + 1, numFound, ptr =>
    if ptr = l.last then .ok numFound
    else do
      check (numFound + 1 ≤ l.numInList) -- prevent infinite loop
      let e ← read l.elements ptr
      countFrom l n (numFound + 1) e.next

/-- `List<T>::SanityCheck`; the loop runs at most `numInList` times. -/
def sanityCheck (l : LinkedList T) : Except Stop Unit := do
  if l.first = none then check (l.numInList = 0 ∧ l.last = none)
  else if l.first = l.last then do
    check (l.numInList = 1)
    let e ← read l.elements l.last
    check (e.next = none)
  else do
    let numFound ← l.countFrom (l.numInList.toNat + 1) 1 l.first
    check (numFound = l.numInList)
    let e ← read l.elements l.last
    check (e.next = none)

end LinkedList

/-! ## Iterators -/

/-- `class ListIterator`, on a list that does not change meanwhile. -/
structure ListIterator (T : Type) where
  list : LinkedList T
  current : Option Nat

namespace ListIterator

variable {T : Type}

/-- `ListIterator`. -/
def new (list : LinkedList T) : ListIterator T := { list, current := list.first }

/-- `IsDone`. -/
def isDone (it : ListIterator T) : Bool := it.current.isNone

/-- `Item`. -/
def item (it : ListIterator T) : Except Stop T := do
  check (it.isDone = false)
  let e ← LinkedList.read it.list.elements it.current
  return e.item

/-- `Next`. -/
def next (it : ListIterator T) : Except Stop (ListIterator T) := do
  let e ← LinkedList.read it.list.elements it.current
  return { it with current := e.next }

end ListIterator

end Nachos
