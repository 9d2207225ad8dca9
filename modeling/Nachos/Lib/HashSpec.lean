import Nachos.Lib.Hash
import Nachos.Lib.ListSpec
import Nachos.Prelude.Lists

/-!
# A hash table is a finite map (lib/hash.cc)

The buckets hold lists of items, each in the bucket that its key hashes to; taken together they are the items of the table. What moves
items between buckets permutes them, and what looks for a key has to look into one bucket only.
-/

namespace Nachos

open Loop

namespace HashTable

variable {Key T : Type} {f : Hashing Key T} {t : HashTable T} {bs : List (List T)} {items : List T} {i : Nat} {key : Key} {item : T}

/-- The bucket of a key, out of `n`. -/
def index (f : Hashing Key T) (n : Nat) (key : Key) : Nat := (f.hash key).toNat % n

/-- The items in the buckets of a table, each in its own. -/
structure Filed (f : Hashing Key T) (t : HashTable T) (bs : List (List T)) : Prop where
  numBuckets : t.numBuckets = bs.length
  length : t.buckets.length = bs.length
  pos : 0 < bs.length
  holds : ∀ (i : Nat) (list : LinkedList T) (items : List T), t.buckets[i]? = some list → bs[i]? = some items → list.Holds items
  hashed : ∀ (i : Nat) (items : List T), bs[i]? = some items → ∀ x ∈ items, index f bs.length (f.getKey x) = i

/-! ## Buckets -/

theorem Filed.index_lt (h : Filed f t bs) (key : Key) : index f bs.length key < bs.length := Nat.mod_lt _ h.pos

theorem Filed.hashValue (h : Filed f t bs) (key : Key) : t.hashValue f key = .ok (index f bs.length key) := by
  have hlt := h.index_lt key
  unfold HashTable.hashValue
  rw [h.numBuckets]
  unfold index at hlt ⊢
  dsimp only
  rw [check_of hlt]
  rfl

theorem Filed.bucketAt (h : Filed f t bs) (hi : bs[i]? = some items) :
    ∃ list, HashTable.bucketAt t.buckets i = .ok list ∧ list.Holds items := by
  have hlt : i < t.buckets.length := by
    rw [h.length]
    exact (List.getElem?_eq_some_iff.1 hi).1
  have hlist : t.buckets[i]? = some t.buckets[i] := List.getElem?_eq_getElem hlt
  refine ⟨t.buckets[i], ?_, h.holds i _ _ hlist hi⟩
  unfold HashTable.bucketAt
  rw [hlist]
  rfl

/-- The bucket of a key. -/
theorem Filed.bucket (h : Filed f t bs) (key : Key) : ∃ items, bs[index f bs.length key]? = some items :=
  ⟨_, List.getElem?_eq_getElem (h.index_lt key)⟩

/-- One bucket is exchanged. -/
theorem Filed.set (h : Filed f t bs) {list : LinkedList T} {items' : List T} (hlist : list.Holds items')
    (hhashed : ∀ x ∈ items', index f bs.length (f.getKey x) = i) (n : Int) :
    Filed f { t with buckets := t.buckets.set i list, numItems := n } (bs.set i items') := by
  refine ⟨by simpa using h.numBuckets, by simpa using h.length, by simpa using h.pos, ?_, ?_⟩
  · intro j list' items hj hj'
    rw [List.getElem?_set] at hj hj'
    split at hj
    · rename_i hij
      rw [if_pos hij] at hj'
      split at hj
      · rw [if_pos (by rw [← h.length]; assumption)] at hj'
        cases hj
        cases hj'
        exact hlist
      · cases hj
    · rename_i hij
      rw [if_neg hij] at hj'
      exact h.holds j _ _ hj hj'
  · intro j items hj x hx
    rw [List.length_set]
    rw [List.getElem?_set] at hj
    split at hj
    · rename_i hij
      split at hj
      · cases hj
        exact (hhashed x hx).trans hij
      · cases hj
    · exact h.hashed j items hj x hx

/-- All items, after one bucket has been exchanged. -/
theorem flatten_set_perm (hi : bs[i]? = some items) (items' : List T) :
    ((bs.set i items').flatten ++ items).Perm (bs.flatten ++ items') := by
  have hperm := Lists.flatMap_set_perm id items' hi
  simpa only [List.flatMap_id, id] using hperm

/-- The items of one more bucket. -/
theorem flatten_take_succ (hi : i < bs.length) : (bs.take (i + 1)).flatten = (bs.take i).flatten ++ bs[i] := by
  rw [List.take_add_one, List.getElem?_eq_getElem hi, Option.toList_some, List.flatten_append, List.flatten_cons, List.flatten_nil,
    List.append_nil]

theorem mem_flatten_of (hi : bs[i]? = some items) {x : T} (hx : x ∈ items) : x ∈ bs.flatten :=
  List.mem_flatten.2 ⟨items, List.mem_of_getElem? hi, hx⟩

/-! ## Find -/

section
variable [DecidableEq Key]

theorem findFrom_of {n : Nat} {it : ListIterator T} (h : it.At items) (hn : items.length ≤ n) (key : Key) :
    findFrom f key n it = .ok (items.find? fun x => key = f.getKey x) := by
  induction items generalizing it n with
  | nil =>
    cases n <;> unfold findFrom <;> rw [h.isDone] <;> rfl
  | cons x items ih =>
    cases n with
    | zero => simp at hn
    | succ n =>
      unfold findFrom
      rw [h.isDone, if_neg (by simp), h.item, ok_bind]
      by_cases hkey : key = f.getKey x
      · rw [if_pos hkey, List.find?_cons_of_pos (by simpa using hkey)]
        rfl
      · obtain ⟨it', hit', hnext⟩ := h.next
        rw [if_neg hkey, hit', ok_bind, ih hnext (by simpa using hn), List.find?_cons_of_neg (by simpa using hkey)]

theorem Filed.findInBucket (h : Filed f t bs) (hi : bs[i]? = some items) (key : Key) :
    t.findInBucket f i key = .ok (items.find? fun x => key = f.getKey x) := by
  obtain ⟨list, hlist, hholds⟩ := h.bucketAt hi
  unfold HashTable.findInBucket
  rw [hlist, ok_bind]
  exact findFrom_of (ListIterator.at_new hholds) hholds.length_le key

/-- Among all items there is none with the key outside of its bucket. -/
theorem Filed.find?_flatten (h : Filed f t bs) (hi : bs[index f bs.length key]? = some items) :
    bs.flatten.find? (fun x => key = f.getKey x) = items.find? fun x => key = f.getKey x := by
  refine Lists.find?_flatten hi ?_
  intro j items' hj hne x hx hkey
  have hindex := h.hashed j items' hj x hx
  rw [← of_decide_eq_true hkey] at hindex
  exact hne hindex.symm

/-- `Find` finds among all items. -/
theorem Filed.find (h : Filed f t bs) (key : Key) : t.find f key = .ok (bs.flatten.find? fun x => key = f.getKey x) := by
  obtain ⟨items, hi⟩ := h.bucket key
  unfold HashTable.find
  rw [h.hashValue, ok_bind, h.findInBucket hi, h.find?_flatten hi]

theorem Filed.isInTable (h : Filed f t bs) (key : Key) : t.isInTable f key = .ok (decide (key ∈ bs.flatten.map f.getKey)) := by
  unfold HashTable.isInTable
  rw [h.find, ok_bind]
  refine congrArg Except.ok (Bool.eq_iff_iff.2 ?_)
  simp only [List.find?_isSome, decide_eq_true_eq, List.mem_map]
  constructor
  · rintro ⟨x, hx, hkey⟩
    exact ⟨x, hx, hkey.symm⟩
  · rintro ⟨x, hx, hkey⟩
    exact ⟨x, hx, hkey.symm⟩

end

/-! ## SanityCheck -/

theorem Filed.hashedFrom (h : Filed f t bs) {n : Nat} {it : ListIterator T} (hit : it.At items) (hn : items.length ≤ n)
    (hitems : ∀ x ∈ items, index f bs.length (f.getKey x) = i) : hashedFrom f t i n it = .ok () := by
  induction items generalizing it n with
  | nil => cases n <;> unfold HashTable.hashedFrom <;> rw [hit.isDone] <;> rfl
  | cons x items ih =>
    cases n with
    | zero => simp at hn
    | succ n =>
      obtain ⟨it', hit', hnext⟩ := hit.next
      have hx := hitems x List.mem_cons_self
      unfold HashTable.hashedFrom
      rw [hit.isDone, if_neg (by simp), hit.item, ok_bind, h.hashValue, ok_bind, check_of hx.symm, ok_bind, hit', ok_bind]
      exact ih hnext (by simpa using hn) fun y hy => hitems y (List.mem_cons_of_mem _ hy)

/-- `SanityCheck` goes through when the number of the items is right. -/
theorem Filed.sanityCheck (h : Filed f t bs) (hcount : t.numItems = bs.flatten.length) : t.sanityCheck f = .ok () := by
  have hloop : ∃ numFound, forRange (checkBucket f t) bs.length 0 = .ok numFound ∧
      numFound = ((bs.take bs.length).flatten.length : Int) := by
    refine forRange_ok (fun i (numFound : Int) => numFound = ((bs.take i).flatten.length : Int)) (by simp) ?_
    rintro i hi numFound rfl
    have hitems : bs[i]? = some bs[i] := List.getElem?_eq_getElem hi
    obtain ⟨list, hlist, hholds⟩ := h.bucketAt hitems
    refine ⟨(bs.take i).flatten.length + list.numInList, ?_, ?_⟩
    · unfold checkBucket
      rw [hlist, ok_bind, hholds.sanityCheck, ok_bind,
        h.hashedFrom (ListIterator.at_new hholds) hholds.length_le (h.hashed i _ hitems), ok_bind]
      rfl
    · rw [hholds.numInList, flatten_take_succ hi, List.length_append]
      rfl
  obtain ⟨numFound, hrun, rfl⟩ := hloop
  unfold HashTable.sanityCheck
  rw [h.numBuckets, hrun, ok_bind, check_of (by rw [List.take_length]; exact hcount)]

/-! ## ReHash -/

/-- An item is put into its bucket. -/
theorem Filed.put [DecidableEq T] (h : Filed f t bs) (hitem : item ∉ bs.flatten) :
    ∃ t' bs', t.put f item = .ok t' ∧ Filed f t' bs' ∧ bs'.flatten.Perm (item :: bs.flatten) ∧ bs'.length = bs.length ∧
      t'.numItems = t.numItems := by
  obtain ⟨items, hi⟩ := h.bucket (f.getKey item)
  obtain ⟨list, hlist, hholds⟩ := h.bucketAt hi
  obtain ⟨list', hlist', hholds'⟩ := hholds.append fun hmem => hitem (mem_flatten_of hi hmem)
  have hhashed : ∀ x ∈ items ++ [item], index f bs.length (f.getKey x) = index f bs.length (f.getKey item) := by
    intro x hx
    obtain hx | hx := List.mem_append.1 hx
    · exact h.hashed _ _ hi x hx
    · rw [List.mem_singleton.1 hx]
  have hperm : ((bs.set (index f bs.length (f.getKey item)) (items ++ [item])).flatten ++ items).Perm ((item :: bs.flatten) ++ items) := by
    refine (flatten_set_perm hi _).trans ?_
    rw [← List.append_assoc]
    exact List.perm_append_singleton _ _
  refine ⟨_, _, ?_, h.set hholds' hhashed t.numItems, (List.perm_append_right_iff _).1 hperm, by simp, rfl⟩
  unfold HashTable.put
  rw [h.hashValue, ok_bind, hlist, ok_bind, hlist', ok_bind]
  rfl

/-- A list is moved into the table. -/
theorem Filed.moveFrom [DecidableEq T] (h : Filed f t bs) {n : Nat} {old : LinkedList T} (hold : old.Holds items) (hn : items.length ≤ n)
    (hnodup : (items ++ bs.flatten).Nodup) :
    ∃ t' bs', moveFrom f n old t = .ok t' ∧ Filed f t' bs' ∧ bs'.flatten.Perm (items ++ bs.flatten) ∧ bs'.length = bs.length ∧
      t'.numItems = t.numItems := by
  induction items generalizing n old t bs with
  | nil =>
    refine ⟨t, bs, ?_, h, .refl _, rfl, rfl⟩
    cases n <;> unfold HashTable.moveFrom <;> rw [hold.isEmpty] <;> rfl
  | cons x items ih =>
    cases n with
    | zero => simp at hn
    | succ n =>
      rw [List.cons_append, List.nodup_cons, List.mem_append, not_or] at hnodup
      obtain ⟨⟨hx, hx'⟩, hnodup⟩ := hnodup
      obtain ⟨old', hold', hholds⟩ := hold.removeFront
      obtain ⟨t₁, bs₁, ht₁, hfiled₁, hperm₁, hlength₁, hcount₁⟩ := h.put hx'
      have hpermAll : (items ++ bs₁.flatten).Perm (x :: items ++ bs.flatten) := (hperm₁.append_left items).trans List.perm_middle
      have hnodup₁ : (items ++ bs₁.flatten).Nodup := by
        rw [hpermAll.nodup_iff, List.cons_append, List.nodup_cons, List.mem_append, not_or]
        exact ⟨⟨hx, hx'⟩, hnodup⟩
      obtain ⟨t', bs', ht', hfiled', hperm', hlength', hcount'⟩ := ih hfiled₁ hholds (by simpa using hn) hnodup₁
      refine ⟨t', bs', ?_, hfiled', hperm'.trans hpermAll, hlength'.trans hlength₁, hcount'.trans hcount₁⟩
      unfold HashTable.moveFrom
      rw [hold.isEmpty, if_neg (by simp), hold', ok_bind]
      dsimp only
      rw [ht₁, ok_bind]
      exact ht'

/-- An array of empty buckets. -/
theorem filed_initBuckets (f : Hashing Key T) (t : HashTable T) {n : Nat} (hn : 0 < n) :
    Filed f (t.initBuckets n) (List.replicate n []) := by
  refine ⟨by simp [initBuckets], by simp [initBuckets], by simpa using hn, ?_, ?_⟩
  · intro i list items hlist hitems
    obtain rfl := List.eq_of_mem_replicate (List.mem_of_getElem? hlist)
    obtain rfl := List.eq_of_mem_replicate (List.mem_of_getElem? hitems)
    exact LinkedList.holds_new
  · intro i items hitems x hx
    obtain rfl := List.eq_of_mem_replicate (List.mem_of_getElem? hitems)
    exact absurd hx List.not_mem_nil

/-- `ReHash` moves the items to four times as many buckets. -/
theorem Filed.reHash [DecidableEq T] (h : Filed f t bs) (hcount : t.numItems = bs.flatten.length) (hnodup : bs.flatten.Nodup) :
    ∃ t' bs', t.reHash f = .ok t' ∧ Filed f t' bs' ∧ bs'.flatten.Perm bs.flatten ∧ bs'.length = bs.length * increaseSizeBy ∧
      t'.numItems = t.numItems := by
  have hpos : 0 < bs.length * increaseSizeBy := Nat.mul_pos h.pos (by decide)
  have hloop : ∃ t', forRange (moveBucket f t.buckets) bs.length (t.initBuckets (bs.length * increaseSizeBy)) = .ok t' ∧
      ∃ bs', Filed f t' bs' ∧ bs'.flatten.Perm (bs.take bs.length).flatten ∧ bs'.length = bs.length * increaseSizeBy ∧
        t'.numItems = t.numItems := by
    refine forRange_ok (fun i (t' : HashTable T) => ∃ bs', Filed f t' bs' ∧ bs'.flatten.Perm (bs.take i).flatten ∧
      bs'.length = bs.length * increaseSizeBy ∧ t'.numItems = t.numItems) ?_ ?_
    · exact ⟨_, filed_initBuckets f t hpos, by simp, by simp, rfl⟩
    · rintro i hi t' ⟨bs', hfiled, hperm, hlength, hcount'⟩
      have hitems : bs[i]? = some bs[i] := List.getElem?_eq_getElem hi
      obtain ⟨old, hold, hholds⟩ := h.bucketAt hitems
      have hpermAll : (bs[i] ++ bs'.flatten).Perm (bs.take (i + 1)).flatten := by
        rw [flatten_take_succ hi]
        exact List.perm_append_comm.trans (hperm.append_right _)
      have hnodup' : (bs[i] ++ bs'.flatten).Nodup := by
        have hsplit := hnodup
        rw [← List.take_append_drop (i + 1) bs, List.flatten_append, List.nodup_append] at hsplit
        exact hpermAll.nodup_iff.2 hsplit.1
      obtain ⟨t₁, bs₁, ht₁, hfiled₁, hperm₁, hlength₁, hcount₁⟩ := hfiled.moveFrom hholds hholds.length_le hnodup'
      refine ⟨t₁, ?_, bs₁, hfiled₁, hperm₁.trans hpermAll, hlength₁.trans hlength, hcount₁.trans hcount'⟩
      unfold moveBucket
      rw [hold, ok_bind, ht₁]
  obtain ⟨t', hrun, bs', hfiled, hperm, hlength, hcount'⟩ := hloop
  rw [List.take_length] at hperm
  refine ⟨t', bs', ?_, hfiled, hperm, hlength, hcount'⟩
  unfold HashTable.reHash
  dsimp only
  rw [h.sanityCheck hcount, ok_bind, h.numBuckets, hrun, ok_bind,
    hfiled.sanityCheck (by rw [hcount', hcount, hperm.length_eq]), ok_bind]
  rfl

/-! ## Insert and Remove -/

/-- What holds of a table between two calls. -/
structure Represents (f : Hashing Key T) (t : HashTable T) (bs : List (List T)) : Prop extends Filed f t bs where
  numItems : t.numItems = bs.flatten.length
  keys : (bs.flatten.map f.getKey).Nodup
  load : bs.flatten.length ≤ resizeRatio * bs.length

theorem represents_new (f : Hashing Key T) : Represents f new (List.replicate initialBuckets []) :=
  ⟨filed_initBuckets f _ (by decide), by simp [new, initBuckets], by simp, by simp⟩

theorem Represents.nodup (h : Represents f t bs) : bs.flatten.Nodup := h.keys.of_map

/-- A table that has too few buckets grows, and then it has room for another item. -/
theorem Represents.grow [DecidableEq T] (h : Represents f t bs) :
    ∃ t' bs', t.grow f = .ok t' ∧ Filed f t' bs' ∧ bs'.flatten.Perm bs.flatten ∧ t'.numItems = t.numItems ∧
      bs'.flatten.length + 1 ≤ resizeRatio * bs'.length := by
  have hload := h.load
  have hpos := h.pos
  have hdiv : t.numItems.tdiv t.numBuckets = (bs.flatten.length / bs.length : Nat) := by
    rw [h.numItems, h.numBuckets]
    exact Int.ofNat_tdiv _ _
  unfold HashTable.grow
  rw [hdiv]
  split
  · obtain ⟨t', bs', ht', hfiled, hperm, hlength, hcount⟩ := h.reHash h.numItems h.nodup
    refine ⟨t', bs', ht', hfiled, hperm, hcount, ?_⟩
    rw [hperm.length_eq, hlength]
    unfold resizeRatio increaseSizeBy at *
    omega
  · rename_i hsmall
    refine ⟨t, bs, rfl, h.toFiled, .refl _, rfl, ?_⟩
    have hlt : bs.flatten.length / bs.length < resizeRatio := by omega
    exact Nat.lt_mul_of_div_lt hlt hpos

variable [DecidableEq T] [DecidableEq Key]

/-- `Insert`, of an item whose key is not in the table. -/
theorem Represents.insert (h : Represents f t bs) (hkey : f.getKey item ∉ bs.flatten.map f.getKey) :
    ∃ t' bs', t.insert f item = .ok t' ∧ Represents f t' bs' ∧ bs'.flatten.Perm (item :: bs.flatten) := by
  obtain ⟨t₁, bs₁, ht₁, hfiled₁, hperm₁, hcount₁, hload₁⟩ := h.grow
  have hitem : item ∉ bs₁.flatten := fun hmem => hkey (List.mem_map_of_mem (hperm₁.subset hmem))
  obtain ⟨t₂, bs₂, ht₂, hfiled₂, hperm₂, hlength₂, hcount₂⟩ := hfiled₁.put hitem
  have hperm : bs₂.flatten.Perm (item :: bs.flatten) := hperm₂.trans (hperm₁.cons item)
  have hfiled : Filed f { t₂ with numItems := t₂.numItems + 1 } bs₂ :=
    ⟨hfiled₂.numBuckets, hfiled₂.length, hfiled₂.pos, hfiled₂.holds, hfiled₂.hashed⟩
  have hr : Represents f { t₂ with numItems := t₂.numItems + 1 } bs₂ := by
    refine ⟨hfiled, ?_, ?_, ?_⟩
    · dsimp only
      rw [hcount₂, hcount₁, h.numItems, hperm.length_eq]
      rfl
    · rw [(hperm.map f.getKey).nodup_iff, List.map_cons, List.nodup_cons]
      exact ⟨hkey, h.keys⟩
    · rw [hperm₂.length_eq, hlength₂]
      exact hload₁
  have hin : f.getKey item ∈ bs₂.flatten.map f.getKey := List.mem_map_of_mem (hperm.symm.subset List.mem_cons_self)
  refine ⟨_, bs₂, ?_, hr, hperm⟩
  unfold HashTable.insert
  dsimp only
  rw [h.isInTable, ok_bind, check_of (by simpa using hkey), ok_bind, ht₁, ok_bind, ht₂, ok_bind, hr.isInTable, ok_bind,
    check_of (by simpa using hin)]
  rfl

omit [DecidableEq T] in
/-- With different keys, an item is found by its key. -/
theorem find?_of_mem {l : List T} (hkeys : (l.map f.getKey).Nodup) (hitem : item ∈ l) :
    l.find? (fun x => f.getKey item = f.getKey x) = some item := by
  cases hfind : l.find? fun x => f.getKey item = f.getKey x with
  | none => exact absurd (List.find?_eq_none.1 hfind item hitem) (by simp)
  | some x =>
    have hkey := List.find?_some hfind
    have hx := List.mem_of_find?_eq_some hfind
    rw [List.inj_on_of_nodup_map hkeys hitem hx (of_decide_eq_true hkey)]

/-- `Remove`, of the key of an item in the table. -/
theorem Represents.remove (h : Represents f t bs) (hitem : item ∈ bs.flatten) :
    ∃ t' bs', t.remove f (f.getKey item) = .ok (item, t') ∧ Represents f t' bs' ∧ bs.flatten.Perm (item :: bs'.flatten) := by
  obtain ⟨items, hi⟩ := h.bucket (f.getKey item)
  have hfound : items.find? (fun x => f.getKey item = f.getKey x) = some item := by
    rw [← h.find?_flatten hi]
    exact find?_of_mem h.keys hitem
  have hmem := List.mem_of_find?_eq_some hfound
  obtain ⟨list, hlist, hholds⟩ := h.bucketAt hi
  obtain ⟨list', hlist', hholds'⟩ := hholds.remove hmem
  have hhashed : ∀ x ∈ items.erase item, index f bs.length (f.getKey x) = index f bs.length (f.getKey item) :=
    fun x hx => h.hashed _ _ hi x (List.mem_of_mem_erase hx)
  have hfiled := h.set hholds' hhashed (t.numItems - 1)
  generalize hbs' : bs.set (index f bs.length (f.getKey item)) (items.erase item) = bs' at hfiled
  have hperm : bs.flatten.Perm (item :: bs'.flatten) := by
    refine (List.perm_append_right_iff (items.erase item)).1 ?_
    have hset := flatten_set_perm hi (items.erase item)
    rw [hbs'] at hset
    refine hset.symm.trans (((List.perm_cons_erase hmem).append_left _).trans ?_)
    exact List.perm_middle
  have hlength : bs'.length = bs.length := by rw [← hbs', List.length_set]
  have hr : Represents f { t with buckets := t.buckets.set (index f bs.length (f.getKey item)) list', numItems := t.numItems - 1 } bs' := by
    refine ⟨hfiled, ?_, ?_, ?_⟩
    · simp [h.numItems, hperm.length_eq]
    · have hkeys := (hperm.map f.getKey).nodup_iff.1 h.keys
      exact (List.nodup_cons.1 hkeys).2
    · have hload := h.load
      rw [hperm.length_eq, List.length_cons] at hload
      rw [hlength]
      omega
  have hgone : f.getKey item ∉ bs'.flatten.map f.getKey := by
    have hkeys := (hperm.map f.getKey).nodup_iff.1 h.keys
    exact (List.nodup_cons.1 hkeys).1
  refine ⟨_, bs', ?_, hr, hperm⟩
  unfold HashTable.remove
  rw [h.hashValue, ok_bind, h.findInBucket hi, ok_bind, hfound]
  dsimp only
  rw [hlist, ok_bind, hlist', ok_bind, hr.isInTable, ok_bind, check_of (by simpa using hgone)]
  rfl

/-! ## Finite maps -/

/-- The map that a table stands for. -/
def Contents (f : Hashing Key T) (m : Key → Option T) (bs : List (List T)) : Prop :=
  ∀ key x, m key = some x ↔ x ∈ bs.flatten ∧ f.getKey x = key

variable {m : Key → Option T}

omit [DecidableEq T] [DecidableEq Key] in
/-- A key without a value is the key of no item. -/
theorem Contents.eq_none_iff (hm : Contents f m bs) : m key = none ↔ key ∉ bs.flatten.map f.getKey := by
  rw [Option.eq_none_iff_forall_ne_some, List.mem_map]
  constructor
  · rintro hnone ⟨x, hx⟩
    exact hnone x ((hm key x).2 hx)
  · intro hno x hx
    exact hno ⟨x, (hm key x).1 hx⟩

omit [DecidableEq T] in
/-- `Find` returns the value of the map. -/
theorem Represents.find_contents (h : Represents f t bs) (hm : Contents f m bs) (key : Key) : t.find f key = .ok (m key) := by
  rw [h.find]
  refine congrArg Except.ok ?_
  cases hkey : m key with
  | none =>
    refine List.find?_eq_none.2 ?_
    intro x hx hfound
    refine hm.eq_none_iff.1 hkey ?_
    rw [of_decide_eq_true hfound]
    exact List.mem_map_of_mem hx
  | some x =>
    obtain ⟨hx, rfl⟩ := (hm key x).1 hkey
    exact find?_of_mem h.keys hx

omit [DecidableEq T] in
/-- A new item is the value of its key, and the other keys keep theirs. -/
theorem Contents.insert (hm : Contents f m bs) (hkey : m (f.getKey item) = none) {bs' : List (List T)}
    (hperm : bs'.flatten.Perm (item :: bs.flatten)) : Contents f (Function.update m (f.getKey item) (some item)) bs' := by
  intro key x
  rw [hperm.mem_iff, List.mem_cons]
  by_cases heq : key = f.getKey item
  · subst heq
    rw [Function.update_self]
    constructor
    · rintro ⟨⟩
      exact ⟨.inl rfl, rfl⟩
    · rintro ⟨rfl | hx, hkeyx⟩
      · rfl
      · exact absurd (hkeyx ▸ List.mem_map_of_mem hx) (hm.eq_none_iff.1 hkey)
  · rw [Function.update_of_ne heq, hm key x]
    constructor
    · rintro ⟨hx, hkeyx⟩
      exact ⟨.inr hx, hkeyx⟩
    · rintro ⟨rfl | hx, hkeyx⟩
      · exact absurd hkeyx.symm heq
      · exact ⟨hx, hkeyx⟩

omit [DecidableEq T] in
/-- The key of an item that has been removed has no value. -/
theorem Contents.remove (hm : Contents f m bs) {bs' : List (List T)} (hkeys : (bs.flatten.map f.getKey).Nodup)
    (hperm : bs.flatten.Perm (item :: bs'.flatten)) : Contents f (Function.update m (f.getKey item) none) bs' := by
  have hnodup := (hperm.map f.getKey).nodup_iff.1 hkeys
  rw [List.map_cons, List.nodup_cons] at hnodup
  intro key x
  by_cases heq : key = f.getKey item
  · subst heq
    rw [Function.update_self]
    refine iff_of_false (by simp) ?_
    rintro ⟨hx, hkeyx⟩
    exact hnodup.1 (hkeyx ▸ List.mem_map_of_mem hx)
  · rw [Function.update_of_ne heq, hm key x, hperm.mem_iff, List.mem_cons]
    constructor
    · rintro ⟨rfl | hx, hkeyx⟩
      · exact absurd hkeyx.symm heq
      · exact ⟨hx, hkeyx⟩
    · rintro ⟨hx, hkeyx⟩
      exact ⟨.inr hx, hkeyx⟩

/-! ## Runs -/

/-- A call. -/
inductive Call (Key T : Type) where
  | insert (item : T)
  | remove (key : Key)
  | find (key : Key)

omit [DecidableEq T] [DecidableEq Key] in
/-- What a call asks for: the key of an item that is inserted is absent, and a key that is removed is present. -/
def Call.Allowed (f : Hashing Key T) (m : Key → Option T) : Call Key T → Prop
  | .insert item => m (f.getKey item) = none
  | .remove key => m key ≠ none
  | .find _ => True

omit [DecidableEq T] in
/-- The map after a call. -/
def Call.effect (f : Hashing Key T) (m : Key → Option T) : Call Key T → Key → Option T
  | .insert item => Function.update m (f.getKey item) (some item)
  | .remove key => Function.update m key none
  | .find _ => m

omit [DecidableEq T] [DecidableEq Key] in
/-- What a call returns. -/
def Call.result (m : Key → Option T) : Call Key T → Option T
  | .insert _ => none
  | .remove key => m key
  | .find key => m key

/-- A call, with what it returns. -/
def perform (f : Hashing Key T) (t : HashTable T) : Call Key T → Except Stop (Option T × HashTable T)
  | .insert item => (t.insert f item).map fun t => (none, t)
  | .remove key => (t.remove f key).map fun (item, t) => (some item, t)
  | .find key => (t.find f key).map fun found => (found, t)

/-- Calls one after the other. -/
def run (f : Hashing Key T) : HashTable T → List (Call Key T) → Except Stop (List (Option T) × HashTable T)
  | t, [] => .ok ([], t)
  | t, c :: cs => do
    let (result, t) ← t.perform f c
    let (results, t) ← run f t cs
    return (result :: results, t)

omit [DecidableEq T] in
/-- Every call of a sequence is allowed when its turn comes. -/
def Allowed (f : Hashing Key T) : (Key → Option T) → List (Call Key T) → Prop
  | _, [] => True
  | m, c :: cs => c.Allowed f m ∧ Allowed f (c.effect f m) cs

omit [DecidableEq T] in
/-- What the calls of a sequence return. -/
def results (f : Hashing Key T) : (Key → Option T) → List (Call Key T) → List (Option T)
  | _, [] => []
  | m, c :: cs => c.result m :: results f (c.effect f m) cs

/-- A call that is allowed returns, and does to the map what it should. -/
theorem Represents.perform (h : Represents f t bs) (hm : Contents f m bs) {c : Call Key T} (hc : c.Allowed f m) :
    ∃ t' bs', t.perform f c = .ok (c.result m, t') ∧ Represents f t' bs' ∧ Contents f (c.effect f m) bs' := by
  cases c with
  | insert item =>
    have hkey : m (f.getKey item) = none := hc
    obtain ⟨t', bs', ht', hr', hperm⟩ := h.insert (hm.eq_none_iff.1 hkey)
    exact ⟨t', bs', by simp [HashTable.perform, ht', Except.map, Call.result], hr', hm.insert hkey hperm⟩
  | remove key =>
    obtain ⟨item, hvalue⟩ := Option.ne_none_iff_exists'.1 hc
    obtain ⟨hitem, rfl⟩ := (hm key item).1 hvalue
    obtain ⟨t', bs', ht', hr', hperm⟩ := h.remove hitem
    exact ⟨t', bs', by simp [HashTable.perform, ht', Except.map, Call.result, hvalue], hr', hm.remove h.keys hperm⟩
  | find key => exact ⟨t, bs, by simp [HashTable.perform, h.find_contents hm, Except.map, Call.result], h, hm⟩

/-- So do sequences of calls. -/
theorem Represents.run (cs : List (Call Key T)) (h : Represents f t bs) (hm : Contents f m bs) (hcs : Allowed f m cs) :
    ∃ t' bs', t.run f cs = .ok (results f m cs, t') ∧ Represents f t' bs' ∧ Contents f (cs.foldl (Call.effect f) m) bs' := by
  induction cs generalizing t m bs with
  | nil => exact ⟨t, bs, rfl, h, hm⟩
  | cons c cs ih =>
    obtain ⟨t₁, bs₁, ht₁, h₁, hm₁⟩ := h.perform hm hcs.1
    obtain ⟨t', bs', ht', h'⟩ := ih h₁ hm₁ hcs.2
    refine ⟨t', bs', ?_, h'⟩
    unfold HashTable.run
    rw [ht₁, ok_bind]
    dsimp only
    rw [ht', ok_bind]
    rfl

/-- After any calls that were allowed, the items on the lists are each in the bucket that `HashValue` gives for its key; `numItems` counts
them and is not more than `ResizeRatio` for each bucket; `SanityCheck` goes through, and so does `ReHash`, which leaves the same items;
what the calls have returned and what `Find` returns is what the map says that the calls make. -/
theorem hashTable_is_map (f : Hashing Key T) (cs : List (Call Key T)) (hcs : Allowed f (fun _ => none) cs) :
    ∃ (t : HashTable T) (bs : List (List T)), run f new cs = .ok (results f (fun _ => none) cs, t) ∧
      t.numBuckets = bs.length ∧ t.buckets.length = bs.length ∧
      (∀ (i : Nat) (list : LinkedList T) (items : List T), t.buckets[i]? = some list → bs[i]? = some items →
        list.Holds items ∧ ∀ x ∈ items, t.hashValue f (f.getKey x) = .ok i) ∧
      t.numItems = bs.flatten.length ∧ t.numItems ≤ resizeRatio * t.numBuckets ∧ t.sanityCheck f = .ok () ∧
      (∃ t' bs', t.reHash f = .ok t' ∧ Represents f t' bs' ∧ bs'.flatten.Perm bs.flatten) ∧
      ∀ key, t.find f key = .ok (cs.foldl (Call.effect f) (fun _ => none) key) := by
  have hm₀ : Contents f (fun _ => none) (List.replicate initialBuckets []) := by simp [Contents]
  obtain ⟨t, bs, ht, h, hm⟩ := (represents_new f).run cs hm₀ hcs
  obtain ⟨t', bs', ht', hfiled', hperm, hlength, hcount⟩ := h.reHash h.numItems h.nodup
  have hload := h.load
  refine ⟨t, bs, ht, h.numBuckets, h.length, ?_, h.numItems, ?_, h.sanityCheck h.numItems, ⟨t', bs', ht', ⟨hfiled', ?_, ?_, ?_⟩, hperm⟩,
    h.find_contents hm⟩
  · intro i list items hlist hitems
    refine ⟨h.holds i list items hlist hitems, ?_⟩
    intro x hx
    rw [h.hashValue, h.hashed i items hitems x hx]
  · rw [h.numItems, h.numBuckets]
    exact_mod_cast hload
  · rw [hcount, h.numItems, hperm.length_eq]
  · exact (hperm.map f.getKey).nodup_iff.2 h.keys
  · rw [hperm.length_eq, hlength]
    unfold resizeRatio increaseSizeBy at *
    omega

/-- Thirteen items whose keys all collide, so that the table grows once, and removals after that. -/
theorem hashTable_is_map_collisions :
    let f : Hashing Nat (Nat × Char) := { getKey := Prod.fst, hash := fun _ => 7 }
    let cs : List (Call Nat (Nat × Char)) := (List.range 13).map (fun i => .insert (i, 'a')) ++ [.remove 12, .insert (12, 'b'), .remove 0]
    ∃ t, run f new cs = .ok (results f (fun _ => none) cs, t) ∧ t.sanityCheck f = .ok () ∧ t.find f 12 = .ok (some (12, 'b')) ∧
      t.find f 0 = .ok none := by
  intro f cs
  obtain ⟨t, bs, ht, -, -, -, -, -, hsanity, -, hfind⟩ := hashTable_is_map f cs (by
    simp [cs, f, Allowed, Call.Allowed, Call.effect, List.range, List.range.loop, Function.update])
  exact ⟨t, ht, hsanity, hfind 12, hfind 0⟩

end HashTable

end Nachos
