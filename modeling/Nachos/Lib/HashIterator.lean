import Nachos.Lib.HashSpec

/-!
# Going through a hash table (lib/hash.h, hash.cc)

An iterator is in a bucket that is not empty, with an iterator over the list in it, or behind the last bucket. What it has still in front
of it are the rest of this list and the items of the buckets behind.
-/

namespace Nachos

open Loop

namespace HashTable

variable {Key T : Type}

/-- The loop of `FindNextFullBucket`, for so many buckets. -/
def findNextFrom (t : HashTable T) : Nat → Nat → Except Stop Nat
  | 0, bucket => .ok bucket
  | n + 1, bucket => do
    let list ← bucketAt t.buckets bucket
    if list.isEmpty = false then return bucket else findNextFrom t n (bucket + 1)

/-- `HashTable<Key,T>::FindNextFullBucket`. -/
def findNextFullBucket (t : HashTable T) (bucket : Nat) : Except Stop Nat := findNextFrom t (t.numBuckets - bucket) bucket

end HashTable

/-- `class HashIterator`, on a table that does not change meanwhile. -/
structure HashIterator (T : Type) where
  table : HashTable T
  bucket : Nat
  bucketIter : Option (ListIterator T)

namespace HashIterator

variable {Key T : Type}

/-- `new ListIterator<T>(table->buckets[bucket])`, if there is this bucket. -/
def enter (table : HashTable T) (bucket : Nat) : Except Stop (HashIterator T) :=
  if bucket < table.numBuckets then do
    let list ← HashTable.bucketAt table.buckets bucket
    return { table, bucket, bucketIter := some (.new list) }
  else .ok { table, bucket, bucketIter := none }

/-- `HashIterator<Key,T>::HashIterator`. -/
def new (table : HashTable T) : Except Stop (HashIterator T) := do
  let bucket ← table.findNextFullBucket 0
  enter table bucket

/-- `IsDone`. -/
def isDone (it : HashIterator T) : Bool := it.bucket = it.table.numBuckets

/-- `*bucketIter`. -/
def inner (it : HashIterator T) : Except Stop (ListIterator T) := it.bucketIter.elim (.error (.fault .nullDereference)) .ok

/-- `Item`. -/
def item (it : HashIterator T) : Except Stop T := do
  check (it.isDone = false)
  let bucketIter ← it.inner
  bucketIter.item

/-- `HashIterator<Key,T>::Next`. -/
def next (it : HashIterator T) : Except Stop (HashIterator T) := do
  let bucketIter ← it.inner
  let bucketIter ← bucketIter.next
  if bucketIter.isDone then do
    let bucket ← it.table.findNextFullBucket (it.bucket + 1)
    enter it.table bucket
  else return { it with bucketIter := some bucketIter }

/-- The items that a loop `for (; !it.IsDone(); it.Next())` comes past, in at most so many rounds. -/
def itemsFrom : Nat → HashIterator T → Except Stop (List T)
  | 0, it => if it.isDone then .ok [] else .error .endless
  | n + 1, it =>
    if it.isDone then .ok []
    else do
      let item ← it.item
      let it ← it.next
      let items ← itemsFrom n it
      return item :: items

/-- The loop from the start. -/
def items (n : Nat) (table : HashTable T) : Except Stop (List T) := do
  let it ← new table
  itemsFrom n it

/-! ## Buckets -/

variable {f : Hashing Key T} {t : HashTable T} {bs : List (List T)} {it : HashIterator T} {rest : List T}

/-- The next bucket that is not empty: the buckets in front of it have no items. -/
theorem findNextFrom_of (h : HashTable.Filed f t bs) {n bucket : Nat} (hn : bucket + n = bs.length) :
    ∃ next, t.findNextFrom n bucket = .ok next ∧ next ≤ bs.length ∧ (bs.drop bucket).flatten = (bs.drop next).flatten ∧
      ∀ items, bs[next]? = some items → items ≠ [] := by
  induction n generalizing bucket with
  | zero =>
    refine ⟨bucket, rfl, by omega, rfl, ?_⟩
    intro items hitems
    have hlt := (List.getElem?_eq_some_iff.1 hitems).1
    omega
  | succ n ih =>
    have hlt : bucket < bs.length := by omega
    have hitems : bs[bucket]? = some bs[bucket] := List.getElem?_eq_getElem hlt
    obtain ⟨list, hlist, hholds⟩ := h.bucketAt hitems
    unfold HashTable.findNextFrom
    rw [hlist, ok_bind, hholds.isEmpty]
    by_cases hempty : bs[bucket] = []
    · have hsum : bucket + 1 + n = bs.length := by omega
      obtain ⟨next, hnext, hle, hdrop, hfull⟩ := ih hsum
      rw [if_neg (by simp [hempty])]
      refine ⟨next, hnext, hle, ?_, hfull⟩
      rw [← hdrop, List.drop_eq_getElem_cons hlt, hempty]
      rfl
    · rw [if_pos (by simp [hempty])]
      refine ⟨bucket, rfl, hlt.le, rfl, ?_⟩
      rintro items hitems'
      rw [hitems] at hitems'
      cases hitems'
      exact hempty

/-! ## Iterators -/

/-- The items that an iterator has in front of it. -/
inductive At (t : HashTable T) (bs : List (List T)) : HashIterator T → List T → Prop where
  | done (bucketIter : Option (ListIterator T)) : At t bs ⟨t, bs.length, bucketIter⟩ []
  | within {bucket : Nat} {inner : ListIterator T} {x : T} {items : List T} (hlt : bucket < bs.length) (hinner : inner.At (x :: items)) :
      At t bs ⟨t, bucket, some inner⟩ (x :: items ++ (bs.drop (bucket + 1)).flatten)

/-- From some bucket on. -/
theorem at_findNext (h : HashTable.Filed f t bs) {bucket : Nat} (hle : bucket ≤ bs.length) :
    ∃ next it, t.findNextFullBucket bucket = .ok next ∧ enter t next = .ok it ∧ At t bs it (bs.drop bucket).flatten := by
  have hsum : bucket + (bs.length - bucket) = bs.length := by omega
  obtain ⟨next, hnext, hnextle, hdrop, hfull⟩ := findNextFrom_of h hsum
  rw [← h.numBuckets] at hnext
  unfold enter
  rw [h.numBuckets, hdrop]
  by_cases hlt : next < bs.length
  · have hitems : bs[next]? = some bs[next] := List.getElem?_eq_getElem hlt
    obtain ⟨list, hlist, hholds⟩ := h.bucketAt hitems
    obtain ⟨x, items, hcons⟩ := List.exists_cons_of_ne_nil (hfull _ hitems)
    have hinner := ListIterator.at_new hholds
    rw [hcons] at hinner
    refine ⟨next, ⟨t, next, some (.new list)⟩, hnext, ?_, ?_⟩
    · rw [if_pos hlt, hlist, ok_bind]
      rfl
    · rw [List.drop_eq_getElem_cons hlt, List.flatten_cons, hcons]
      exact .within hlt hinner
  · obtain rfl : next = bs.length := by omega
    refine ⟨bs.length, ⟨t, bs.length, none⟩, hnext, if_neg hlt, ?_⟩
    rw [List.drop_length]
    exact .done none

theorem at_new (h : HashTable.Filed f t bs) : ∃ it, new t = .ok it ∧ At t bs it bs.flatten := by
  obtain ⟨next, it, hnext, hit, hat⟩ := at_findNext h (Nat.zero_le _)
  refine ⟨it, ?_, hat⟩
  unfold new
  rw [hnext, ok_bind, hit]

theorem At.isDone (hat : At t bs it rest) (h : HashTable.Filed f t bs) : it.isDone = decide (rest = []) := by
  unfold HashIterator.isDone
  cases hat with
  | done bucketIter => simp [h.numBuckets]
  | within hlt hinner => simp [h.numBuckets, hlt.ne]

/-- `Item` is the next item, and `Next` goes past it. -/
theorem At.step {x : T} (hat : At t bs it (x :: rest)) (h : HashTable.Filed f t bs) :
    it.item = .ok x ∧ ∃ it', it.next = .ok it' ∧ At t bs it' rest := by
  have hdone := hat.isDone h
  cases hat with
  | @within bucket inner x items hlt hinner =>
    obtain ⟨inner', hnext, hat'⟩ := hinner.next
    constructor
    · unfold HashIterator.item
      rw [hdone, check_of (by simp), ok_bind]
      exact hinner.item
    · unfold HashIterator.next
      dsimp only [HashIterator.inner, Option.elim_some]
      rw [ok_bind, hnext, ok_bind, hat'.isDone]
      cases items with
      | nil =>
        obtain ⟨next, it', hbucket, hit', hat''⟩ := at_findNext h (Nat.succ_le_of_lt hlt)
        refine ⟨it', ?_, hat''⟩
        rw [if_pos (by simp), hbucket, ok_bind, hit']
      | cons y items =>
        rw [if_neg (by simp)]
        exact ⟨_, rfl, .within hlt hat'⟩

/-- The loop comes past all the items in front of it. -/
theorem At.itemsFrom {n : Nat} (hat : At t bs it rest) (h : HashTable.Filed f t bs) (hn : rest.length ≤ n) :
    itemsFrom n it = .ok rest := by
  induction rest generalizing it n with
  | nil => cases n <;> unfold HashIterator.itemsFrom <;> rw [hat.isDone h] <;> rfl
  | cons x rest ih =>
    cases n with
    | zero => simp at hn
    | succ n =>
      obtain ⟨hitem, it', hnext, hat'⟩ := hat.step h
      unfold HashIterator.itemsFrom
      rw [hat.isDone h, if_neg (by simp), hitem, ok_bind, hnext, ok_bind, ih hat' (by simpa using hn)]
      rfl

/-- The loop over a table ends after as many rounds as there are items, `Item` being defined in each, and it comes past every item of the
table once and past nothing else. -/
theorem iterator_enumerates (h : HashTable.Represents f t bs) :
    ∃ out, (∀ n : Nat, t.numItems ≤ n → items n t = .ok out) ∧ out.Nodup ∧ (∀ x, x ∈ out ↔ ∃ items ∈ bs, x ∈ items) ∧
      (out.length : Int) = t.numItems := by
  obtain ⟨it, hit, hat⟩ := at_new h.toFiled
  refine ⟨bs.flatten, ?_, h.nodup, fun x => List.mem_flatten, h.numItems.symm⟩
  intro n hn
  rw [h.numItems] at hn
  unfold items
  rw [hit, ok_bind]
  exact hat.itemsFrom h.toFiled (by exact_mod_cast hn)

/-- Two items in buckets with an empty one between them. -/
theorem iterator_enumerates_two :
    let f : Hashing Nat (Nat × Char) := { getKey := Prod.fst, hash := fun key => BitVec.ofNat 32 key }
    ∃ t out, HashTable.run f .new [.insert (3, 'a'), .insert (1, 'b')] = .ok ([none, none], t) ∧
      (∀ n : Nat, t.numItems ≤ n → items n t = .ok out) ∧ out.Nodup := by
  intro f
  obtain ⟨t, bs, ht, h, -⟩ := (HashTable.represents_new f).run (m := fun _ => none) [.insert (3, 'a'), .insert (1, 'b')]
    (by simp [HashTable.Contents]) (by simp [f, HashTable.Allowed, HashTable.Call.Allowed, HashTable.Call.effect])
  obtain ⟨out, hout, hnodup, -⟩ := iterator_enumerates h
  exact ⟨t, out, ht, hout, hnodup⟩

end HashIterator

end Nachos
