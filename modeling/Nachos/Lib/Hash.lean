import Nachos.Lib.List

/-!
# Hash tables (lib/hash.h, hash.cc)

An array of lists, which grows when it has too few of them for its items; all the items then move, one after the other. The number of
buckets does not overflow: a memory of 32-bit addresses has no room for so many items that it would. A loop over the items of a list
is over after as many rounds as the list has ever had elements, or never.
-/

namespace Nachos

open Loop

/-- `InitialBuckets`. -/
abbrev initialBuckets : Nat := 4

/-- `ResizeRatio`. -/
abbrev resizeRatio : Nat := 3

/-- `IncreaseSizeBy`. -/
abbrev increaseSizeBy : Nat := 4

/-- The functions that a table is made with: `getKey` and `hash`. -/
structure Hashing (Key T : Type) where
  getKey : T → Key
  hash : Key → BitVec 32

/-- `class HashTable`. -/
structure HashTable (T : Type) where
  buckets : List (LinkedList T)
  numBuckets : Nat
  numItems : Int

namespace HashTable

variable {Key T : Type}

/-- `HashTable<Key,T>::InitBuckets`. -/
def initBuckets (t : HashTable T) (sz : Nat) : HashTable T :=
  { t with buckets := List.replicate sz .new, numBuckets := sz }

/-- `HashTable<Key,T>::HashTable`. -/
def new : HashTable T := initBuckets { buckets := [], numBuckets := 0, numItems := 0 } initialBuckets

/-- `IsEmpty`. -/
def isEmpty (t : HashTable T) : Bool := t.numItems = 0

/-- `table[i]`. -/
def bucketAt (table : List (LinkedList T)) (i : Nat) : Except Stop (LinkedList T) :=
  table[i]?.elim (.error (.fault .outOfBounds)) .ok

/-- `HashTable<Key,T>::HashValue`. -/
def hashValue (f : Hashing Key T) (t : HashTable T) (key : Key) : Except Stop Nat := do
  let result := (f.hash key).toNat % t.numBuckets
  check (result < t.numBuckets)
  return result

/-- The loop of `FindInBucket`. -/
def findFrom [DecidableEq Key] (f : Hashing Key T) (key : Key) : Nat → ListIterator T → Except Stop (Option T)
  | 0, iterator => if iterator.isDone then .ok none else .error .endless
  | n + 1, iterator =>
    if iterator.isDone then .ok none
    else do
      let item ← iterator.item
      if key = f.getKey item then return some item -- found!
      else do
        let iterator ← iterator.next
        findFrom f key n iterator

/-- `HashTable<Key,T>::FindInBucket`. -/
def findInBucket [DecidableEq Key] (f : Hashing Key T) (t : HashTable T) (bucket : Nat) (key : Key) : Except Stop (Option T) := do
  let list ← bucketAt t.buckets bucket
  findFrom f key list.made (.new list)

/-- `HashTable<Key,T>::Find`. -/
def find [DecidableEq Key] (f : Hashing Key T) (t : HashTable T) (key : Key) : Except Stop (Option T) := do
  let bucket ← t.hashValue f key
  t.findInBucket f bucket key

/-- `IsInTable`. -/
def isInTable [DecidableEq Key] (f : Hashing Key T) (t : HashTable T) (key : Key) : Except Stop Bool := do
  let found ← t.find f key
  return found.isSome

/-- The loop of `SanityCheck` over the items of bucket `i`. -/
def hashedFrom (f : Hashing Key T) (t : HashTable T) (i : Nat) : Nat → ListIterator T → Except Stop Unit
  | 0, iterator => if iterator.isDone then .ok () else .error .endless
  | n + 1, iterator =>
    if iterator.isDone then .ok ()
    else do
      let item ← iterator.item
      let value ← t.hashValue f (f.getKey item)
      check (i = value)
      let iterator ← iterator.next
      hashedFrom f t i n iterator

/-- The body of the loop of `SanityCheck` over the buckets. -/
def checkBucket (f : Hashing Key T) (t : HashTable T) (i : Nat) (numFound : Int) : Except Stop Int := do
  let list ← bucketAt t.buckets i
  list.sanityCheck
  hashedFrom f t i list.made (.new list)
  return numFound + list.numInList

/-- `HashTable<Key,T>::SanityCheck`. -/
def sanityCheck (f : Hashing Key T) (t : HashTable T) : Except Stop Unit := do
  let numFound ← forRange (checkBucket f t) t.numBuckets 0
  check (t.numItems = numFound)

section
variable [DecidableEq T]

/-- `buckets[HashValue(getKey(item))]->Append(item)`. -/
def put (f : Hashing Key T) (t : HashTable T) (item : T) : Except Stop (HashTable T) := do
  let i ← t.hashValue f (f.getKey item)
  let list ← bucketAt t.buckets i
  let list ← list.append item
  return { t with buckets := t.buckets.set i list }

/-- The loop of `ReHash` that empties one list of the old table; every round deletes an element. -/
def moveFrom (f : Hashing Key T) : Nat → LinkedList T → HashTable T → Except Stop (HashTable T)
  | 0, old, t => if old.isEmpty then .ok t else .error .endless
  | n + 1, old, t =>
    if old.isEmpty then .ok t
    else do
      let (item, old) ← old.removeFront
      let t ← t.put f item
      moveFrom f n old t

/-- The body of the loop of `ReHash` over the buckets of the old table. -/
def moveBucket (f : Hashing Key T) (oldTable : List (LinkedList T)) (i : Nat) (t : HashTable T) : Except Stop (HashTable T) := do
  let old ← bucketAt oldTable i
  moveFrom f old.made old t

/-- `HashTable<Key,T>::ReHash`. -/
def reHash (f : Hashing Key T) (t : HashTable T) : Except Stop (HashTable T) := do
  let oldTable := t.buckets
  let oldSize := t.numBuckets
  t.sanityCheck f
  let t := t.initBuckets (t.numBuckets * increaseSizeBy)
  let t ← forRange (moveBucket f oldTable) oldSize t
  t.sanityCheck f
  return t

/-- The table that `Insert` puts the item into. -/
def grow (f : Hashing Key T) (t : HashTable T) : Except Stop (HashTable T) :=
  if t.numItems.tdiv t.numBuckets ≥ resizeRatio then t.reHash f else .ok t

variable [DecidableEq Key]

/-- `HashTable<Key,T>::Insert`. -/
def insert (f : Hashing Key T) (t : HashTable T) (item : T) : Except Stop (HashTable T) := do
  let key := f.getKey item
  let found ← t.isInTable f key
  check (found = false)
  let t ← t.grow f
  let t ← t.put f item
  let t := { t with numItems := t.numItems + 1 }
  let found ← t.isInTable f key
  check (found = true)
  return t

/-- `HashTable<Key,T>::Remove`. -/
def remove (f : Hashing Key T) (t : HashTable T) (key : Key) : Except Stop (T × HashTable T) := do
  let bucket ← t.hashValue f key
  let found ← t.findInBucket f bucket key
  match found with
  | none => .error (.fault .assertFailed) -- item must be in table
  | some item => do
    let list ← bucketAt t.buckets bucket
    let list ← list.remove item
    let t := { t with buckets := t.buckets.set bucket list, numItems := t.numItems - 1 }
    let found ← t.isInTable f key
    check (found = false)
    return (item, t)

end

end HashTable

end Nachos
