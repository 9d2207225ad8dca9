import Mathlib.Data.List.TakeWhile
import Nachos.Lib.ListSpec
import Nachos.Lib.SortedList

/-!
# Insertion into a sorted list (lib/list.cc)

`SortedList<T>::Insert` on the chain of elements, with its four ways out. It does to the items what `SortedList.insert` says; with a
comparison that orders the items, they stay sorted, and those that compare equal stay in the order of their insertion.
-/

namespace Nachos

open Loop Chain

namespace LinkedList

variable {T : Type}

/-! ## The code -/

/-- The loop of `Insert`: it looks for the first element bigger than the item, and links the new one in front of it if there is one. -/
def insertFrom (compare : T → T → Int) (m : Memory T) (item : T) (element : Nat) : Nat → Option Nat → Except Stop (Option (Memory T))
  | 0, _ => .error .endless
  | n + 1, ptr => do
    let e ← read m ptr
    match e.next with
    | none => return none
    | some next => do
      let bigger ← read m (some next)
      if compare item bigger.item < 0 then do
        let m ← setNext m (some element) (some next)
        let m ← setNext m ptr (some element)
        return some m
      else insertFrom compare m item element n (some next)

/-- The links of `Insert`, and whether it has returned in the middle of the list. -/
def linkSorted (compare : T → T → Int) (l : LinkedList T) (item : T) (element : Nat) : Except Stop (Bool × LinkedList T) :=
  if l.isEmpty then .ok (false, { l with first := some element, last := some element }) -- if list is empty, put at front
  else do
    let e ← read l.elements l.first
    if compare item e.item < 0 then do -- item goes at front
      let elements ← setNext l.elements (some element) l.first
      return (false, { l with elements, first := some element })
    else do
      let middle ← insertFrom compare l.elements item element l.made l.first
      match middle with
      | some elements => return (true, { l with elements })
      | none => do -- item goes at end of list
        let elements ← setNext l.elements l.last (some element)
        return (false, { l with elements, last := some element })

/-- `SortedList<T>::Insert`. -/
def insert [DecidableEq T] (compare : T → T → Int) (l : LinkedList T) (item : T) : Except Stop (LinkedList T) := do
  let element := l.made
  let l := l.newElement item
  let found ← l.isInList item
  check (found = false)
  let (middle, l) ← linkSorted compare l item element
  let l := { l with numInList := l.numInList + 1 }
  if middle then return l
  else do
    let found ← l.isInList item
    check (found = true)
    return l

/-- The loop of `SortedList<T>::SanityCheck`. -/
def sortedFrom (compare : T → T → Int) (m : Memory T) : Nat → Option Nat → Option Nat → Except Stop Unit
  | _, _, none => .ok ()
  | 0, _, some _ => .error .endless
  | n + 1, prev, some ptr => do
    let p ← read m prev
    let e ← read m (some ptr)
    check (compare p.item e.item ≤ 0)
    sortedFrom compare m n (some ptr) e.next

/-- `SortedList<T>::SanityCheck`. -/
def sortedSanityCheck (compare : T → T → Int) (l : LinkedList T) : Except Stop Unit := do
  l.sanityCheck
  if l.first ≠ l.last then do
    let e ← read l.elements l.first
    sortedFrom compare l.elements l.made l.first e.next
  else return ()

/-! ## Comparisons -/

/-- A comparison that puts the items into an order, in which different items may be equal. -/
structure IsOrder (compare : T → T → Int) : Prop where
  swap : ∀ x y, compare x y < 0 ↔ 0 < compare y x
  trans : ∀ x y z, compare x y ≤ 0 → compare y z ≤ 0 → compare x z ≤ 0

variable {compare : T → T → Int}

theorem IsOrder.le_of_not_lt (hc : IsOrder compare) {x y : T} (h : ¬compare x y < 0) : compare y x ≤ 0 := by
  have hswap := hc.swap x y
  omega

theorem IsOrder.lt_of_lt_of_le (hc : IsOrder compare) {x y z : T} (h : compare x y < 0) (h' : compare y z ≤ 0) : compare x z < 0 := by
  by_contra hnot
  have hback := hc.trans y z x h' (hc.le_of_not_lt hnot)
  have hswap := hc.swap x y
  omega

theorem IsOrder.lt_of_le_of_lt (hc : IsOrder compare) {x y z : T} (h : compare x y ≤ 0) (h' : compare y z < 0) : compare x z < 0 := by
  by_contra hnot
  have hback := hc.trans z x y (hc.le_of_not_lt hnot) h
  have hswap := hc.swap y z
  omega

/-! ## The chain -/

variable {l : LinkedList T} {m : Memory T} {p : Option Nat} {c : Nat × T} {cells before after : List (Nat × T)} {item : T}
  {items : List T}

/-- Where the item goes: behind the elements that are not bigger, and in front of a bigger one, if there is one. -/
structure Place (compare : T → T → Int) (item : T) (before after : List (Nat × T)) : Prop where
  before : ∀ c ∈ before, ¬compare item c.2 < 0
  after : ∀ c ∈ after.head?, compare item c.2 < 0

/-- The loop of `Insert` finds the place. -/
theorem insertFrom_of {element n : Nat} {e : ListElement T} (hc : m c.1 = some ⟨c.2, p⟩) (h : Linked m p (before ++ after) none)
    (hplace : Place compare item before after) (he : m element = some e) (hne : element ∉ (c :: before).map Prod.fst)
    (hn : before.length < n) :
    after = [] ∧ insertFrom compare m item element n (some c.1) = .ok none ∨
      ∃ init b next, c :: before = init ++ [b] ∧ after ≠ [] ∧ Linked m next after none ∧
        insertFrom compare m item element n (some c.1) =
          .ok (some (Function.update (Function.update m element (some ⟨e.item, next⟩)) b.1 (some ⟨b.2, some element⟩))) := by
  induction before generalizing c p n with
  | nil =>
    cases n with
    | zero => simp at hn
    | succ n =>
      unfold insertFrom
      rw [read_of hc, ok_bind]
      dsimp only
      cases after with
      | nil =>
        obtain rfl := linked_nil.1 h
        exact .inl ⟨rfl, rfl⟩
      | cons b after =>
        obtain ⟨rfl, next, hb, hafter⟩ := id h
        have hlt : compare item b.2 < 0 := hplace.after b rfl
        have hcne : c.1 ≠ element := fun heq => hne (heq ▸ by simp)
        dsimp only
        rw [read_of hb, ok_bind, if_pos hlt, setNext_of he, ok_bind, setNext_of ((Function.update_of_ne hcne _ _).trans hc), ok_bind]
        exact .inr ⟨[], c, some b.1, rfl, List.cons_ne_nil _ _, h, rfl⟩
  | cons d before ih =>
    obtain ⟨rfl, next, hd, hbefore⟩ := h
    have hle : ¬compare item d.2 < 0 := hplace.before d List.mem_cons_self
    cases n with
    | zero => simp at hn
    | succ n =>
      unfold insertFrom
      rw [read_of hc, ok_bind]
      dsimp only
      rw [read_of hd, ok_bind, if_neg hle]
      rw [List.map_cons, List.mem_cons, not_or] at hne
      obtain ⟨hnil, hrun⟩ | ⟨init, b, next', heq, hmore, hafter, hrun⟩ :=
        ih hd hbefore ⟨fun c hc => hplace.before c (List.mem_cons_of_mem _ hc), hplace.after⟩ hne.2 (by simpa using hn)
      · exact .inl ⟨hnil, hrun⟩
      · exact .inr ⟨c :: init, b, next', by rw [heq]; rfl, hmore, hafter, hrun⟩

/-- The chain with a new element between two others. -/
theorem Represents.of_linked {init : List (Nat × T)} {b : Nat × T} {next : Option Nat} (h : Represents l (init ++ [b] ++ after))
    (hitem : item ∉ (init ++ [b] ++ after).map Prod.snd) (hafter : Linked (l.newElement item).elements next after none)
    (hne : after ≠ []) :
    Represents { l with
      elements := Function.update (Function.update (l.newElement item).elements l.made (some ⟨item, next⟩)) b.1 (some ⟨b.2, some l.made⟩)
      made := l.made + 1
      numInList := l.numInList + 1 } (init ++ [b] ++ (l.made, item) :: after) := by
  have hmade := h.made_not_mem
  have hnodup := h.nodup
  rw [List.map_append, List.nodup_append] at hnodup
  obtain ⟨hinit, -, hapart⟩ := hnodup
  have hb : b.1 ∉ after.map Prod.fst := fun hmem => hapart b.1 (by simp) b.1 hmem rfl
  rw [List.map_append, List.mem_append, not_or] at hmade
  obtain ⟨r, hlinked, -⟩ := linked_append.1 (h.linked_new item).1
  have hbne : l.made ≠ b.1 := fun heq => hmade.1 (heq ▸ by simp)
  refine h.of_added hitem List.perm_middle ?_ ?_
  · refine linked_append.2 ⟨some l.made, (hlinked.update hmade.1 _).redirect hinit _, rfl, next, ?_, ?_⟩
    · rw [Function.update_of_ne hbne]
      exact Function.update_self _ _ _
    · exact (hafter.update hmade.2 _).update hb _
  · obtain ⟨d, after, rfl⟩ := List.exists_cons_of_ne_nil hne
    rw [h.last]
    simp

/-- `Insert` links a new element in at its place. -/
theorem Represents.linkSorted (h : Represents l (before ++ after)) (hitem : item ∉ (before ++ after).map Prod.snd)
    (hplace : Place compare item before after) :
    ∃ middle l', LinkedList.linkSorted compare (l.newElement item) item l.made = .ok (middle, l') ∧
      Represents { l' with numInList := l'.numInList + 1 } (before ++ (l.made, item) :: after) := by
  have hnew := h.newElement item
  have hmade := h.made_not_mem
  obtain ⟨hlinked, halone⟩ := h.linked_new item
  unfold LinkedList.linkSorted
  rw [hnew.isEmpty]
  cases before with
  | nil =>
    cases after with
    | nil => exact ⟨false, _, rfl, h.of_added hitem (.refl _) halone rfl⟩
    | cons d after =>
      obtain ⟨next, hread, -⟩ := hnew.read_first
      rw [if_neg (by simp), hread, ok_bind, if_pos (hplace.after d rfl), setNext_of (newElement_elements l item), ok_bind]
      refine ⟨false, _, rfl, h.of_added hitem (.refl _) ?_ ?_⟩
      · exact ⟨rfl, l.first, Function.update_self _ _ _, hlinked.update hmade _⟩
      · rw [List.nil_append, List.getLast?_cons_cons]
        exact h.last
  | cons d before =>
    obtain ⟨next, hread, hd, hcells⟩ := hnew.read_first
    have hlength : before.length < (l.newElement item).made := by
      have hle := hnew.length_le
      simp only [List.cons_append, List.length_cons, List.length_append] at hle
      omega
    have hplace' : Place compare item before after :=
      ⟨fun c hc => hplace.before c (List.mem_cons_of_mem _ hc), hplace.after⟩
    have hfree : l.made ∉ (d :: before).map Prod.fst := by
      rw [List.map_append, List.mem_append, not_or] at hmade
      exact hmade.1
    have hfirst : (l.newElement item).first = some d.1 := hnew.linked.head
    rw [if_neg (by simp), hread, ok_bind, if_neg (hplace.before d List.mem_cons_self), hfirst]
    obtain ⟨rfl, hrun⟩ | ⟨init, b, next', heq, hmore, hafter, hrun⟩ :=
      insertFrom_of hd hcells hplace' (newElement_elements l item) hfree hlength
    · obtain hnil | ⟨init, c, heq⟩ := (d :: before).eq_nil_or_concat
      · cases hnil
      · rw [List.append_nil, heq, List.concat_eq_append] at h hitem hnew
        obtain ⟨hlast, hc⟩ := hnew.read_last
        rw [hrun, ok_bind, heq, List.concat_eq_append]
        dsimp only
        rw [hlast, setNext_of hc, ok_bind]
        have hr := h.of_linked_last hitem
        rw [← hfirst]
        exact ⟨false, _, rfl, hr⟩
    · rw [hrun, ok_bind, ← hfirst, heq]
      rw [heq] at h hitem
      exact ⟨true, _, rfl, h.of_linked hitem hafter hmore⟩

theorem Represents.insert [DecidableEq T] (h : Represents l (before ++ after)) (hitem : item ∉ (before ++ after).map Prod.snd)
    (hplace : Place compare item before after) :
    ∃ l', LinkedList.insert compare l item = .ok l' ∧ Represents l' (before ++ (l.made, item) :: after) := by
  obtain ⟨middle, l', hl', hr⟩ := h.linkSorted hitem hplace
  unfold LinkedList.insert
  dsimp only
  rw [(h.newElement item).isInList, ok_bind, check_of (by simpa using hitem), ok_bind, hl', ok_bind]
  dsimp only
  cases middle with
  | true => exact ⟨_, rfl, hr⟩
  | false =>
    rw [if_neg (by simp), hr.isInList, ok_bind, check_of (by simp)]
    exact ⟨_, rfl, hr⟩

/-- The place of an item: behind all elements up to the first bigger one. -/
theorem place_takeWhile (compare : T → T → Int) (item : T) (cells : List (Nat × T)) :
    Place compare item (cells.takeWhile fun c => ¬compare item c.2 < 0) (cells.dropWhile fun c => ¬compare item c.2 < 0) := by
  refine ⟨fun c hc => by simpa using List.mem_takeWhile_imp hc, ?_⟩
  intro c hc
  have hhead := List.head?_dropWhile_not (fun c : Nat × T => decide (¬compare item c.2 < 0)) cells
  rw [Option.mem_def.1 hc] at hhead
  simpa using hhead

/-- `Insert` does to the items what the insertion into a sorted sequence does. -/
theorem Holds.insert [DecidableEq T] (compare : T → T → Int) (h : Holds l items) (hitem : item ∉ items) :
    ∃ l', LinkedList.insert compare l item = .ok l' ∧ Holds l' (items.orderedInsert (fun x y => compare x y < 0) item) := by
  obtain ⟨cells, hr, rfl⟩ := h
  have hsplit := List.takeWhile_append_dropWhile (p := fun c : Nat × T => decide (¬compare item c.2 < 0)) (l := cells)
  rw [← hsplit] at hr hitem
  obtain ⟨l', hl', hr'⟩ := hr.insert hitem (place_takeWhile compare item cells)
  refine ⟨l', hl', _, hr', ?_⟩
  rw [List.orderedInsert_eq_take_drop, List.takeWhile_map, List.dropWhile_map]
  simp [Function.comp_def]

/-- So it agrees with `SortedList.insert`. -/
theorem Holds.insert_sortedList [DecidableEq T] {items' : List T} (h : Holds l items)
    (hinsert : SortedList.insert compare item items = .ok items') : ∃ l', LinkedList.insert compare l item = .ok l' ∧ Holds l' items' := by
  obtain rfl := SortedList.of_insert_ok hinsert
  exact h.insert compare (SortedList.not_mem_of_insert_ok hinsert)

/-! ## SanityCheck -/

theorem sortedFrom_of {n : Nat} (hc : m c.1 = some ⟨c.2, p⟩) (h : Linked m p cells none)
    (hsorted : ((c :: cells).map Prod.snd).Pairwise fun x y => compare x y ≤ 0) (hn : cells.length ≤ n) :
    sortedFrom compare m n (some c.1) p = .ok () := by
  induction cells generalizing c p n with
  | nil =>
    obtain rfl := linked_nil.1 h
    cases n <;> rfl
  | cons d cells ih =>
    obtain ⟨rfl, next, hd, hcells⟩ := h
    rw [List.map_cons, List.pairwise_cons] at hsorted
    cases n with
    | zero => simp at hn
    | succ n =>
      unfold sortedFrom
      rw [read_of hc, ok_bind, read_of hd, ok_bind, check_of (hsorted.1 d.2 (by simp)), ok_bind]
      exact ih hd hcells hsorted.2 (by simpa using hn)

theorem Holds.sortedSanityCheck (h : Holds l items) (hsorted : items.Pairwise fun x y => compare x y ≤ 0) :
    LinkedList.sortedSanityCheck compare l = .ok () := by
  unfold LinkedList.sortedSanityCheck
  rw [h.sanityCheck, ok_bind]
  obtain ⟨cells, hr, rfl⟩ := h
  split
  · rename_i hne
    cases cells with
    | nil =>
      have hfirst : l.first = none := hr.linked
      exact absurd (hfirst.trans hr.last.symm) hne
    | cons c cells =>
      obtain ⟨next, hread, hc, hcells⟩ := hr.read_first
      rw [hread, ok_bind, hr.linked.head]
      exact sortedFrom_of hc hcells hsorted (Nat.le_of_succ_le hr.length_le)
  · rfl

/-! ## Stability -/

/-- Insertion into a sorted sequence: behind what compares less than or equal to the item, in front of what is greater. -/
theorem IsOrder.orderedInsert (hc : IsOrder compare) (hsorted : items.Pairwise fun x y => compare x y ≤ 0) (item : T) :
    ∃ before after, items = before ++ after ∧ items.orderedInsert (fun x y => compare x y < 0) item = before ++ item :: after ∧
      (∀ x ∈ before, compare x item ≤ 0) ∧ ∀ x ∈ after, 0 < compare x item := by
  refine ⟨items.takeWhile fun x => ¬compare item x < 0, items.dropWhile fun x => ¬compare item x < 0,
    List.takeWhile_append_dropWhile.symm, List.orderedInsert_eq_take_drop _ _ _, ?_, ?_⟩
  · intro x hx
    exact hc.le_of_not_lt (by simpa using List.mem_takeWhile_imp hx)
  · have hdrop : (items.dropWhile fun x => ¬compare item x < 0).Pairwise fun x y => compare x y ≤ 0 :=
      hsorted.sublist (List.dropWhile_sublist _)
    have hhead := List.head?_dropWhile_not (fun x : T => decide (¬compare item x < 0)) items
    cases hafter : items.dropWhile fun x => ¬compare item x < 0 with
    | nil => exact nofun
    | cons y after =>
      rw [hafter] at hdrop hhead
      have hy : compare item y < 0 := by simpa using hhead
      intro x hx
      rw [← hc.swap]
      obtain rfl | hx := List.mem_cons.1 hx
      · exact hy
      · exact hc.lt_of_lt_of_le hy ((List.pairwise_cons.1 hdrop).1 x hx)

/-- The order in which the items come out again: by the comparison, and those that compare equal as they have been inserted. -/
def ComesFirst [DecidableEq T] (compare : T → T → Int) (inserted : List T) (x y : T) : Prop :=
  compare x y < 0 ∨ compare x y = 0 ∧ inserted.idxOf x < inserted.idxOf y

theorem IsOrder.comesFirst_trans [DecidableEq T] (hc : IsOrder compare) (inserted : List T) (x y z : T)
    (h : ComesFirst compare inserted x y) (h' : ComesFirst compare inserted y z) : ComesFirst compare inserted x z := by
  obtain h | ⟨heq, h⟩ := h
  · obtain h' | ⟨heq', -⟩ := h'
    · exact .inl (hc.lt_of_lt_of_le h h'.le)
    · exact .inl (hc.lt_of_lt_of_le h heq'.le)
  · obtain h' | ⟨heq', h'⟩ := h'
    · exact .inl (hc.lt_of_le_of_lt heq.le h')
    · obtain hlt | hge := (hc.trans x y z heq.le heq'.le).lt_or_eq
      · exact .inl hlt
      · exact .inr ⟨hge, h.trans h'⟩

/-- `Insert` for some items, one after the other. -/
def insertAll [DecidableEq T] (compare : T → T → Int) (l : LinkedList T) (items : List T) : Except Stop (LinkedList T) :=
  items.foldlM (LinkedList.insert compare) l

/-- `RemoveFront` some times. -/
def removeAll : Nat → LinkedList T → Except Stop (List T × LinkedList T)
  | 0, l => .ok ([], l)
  | n + 1, l => do
    let (item, l) ← l.removeFront
    let (items, l) ← removeAll n l
    return (item :: items, l)

theorem Holds.removeAll (h : Holds l items) : ∃ l', LinkedList.removeAll items.length l = .ok (items, l') ∧ Holds l' [] := by
  induction items generalizing l with
  | nil => exact ⟨l, rfl, h⟩
  | cons item items ih =>
    obtain ⟨l₁, hl₁, h₁⟩ := h.removeFront
    obtain ⟨l', hl', h'⟩ := ih h₁
    refine ⟨l', ?_, h'⟩
    rw [List.length_cons, LinkedList.removeAll, hl₁, ok_bind]
    dsimp only
    rw [hl', ok_bind]
    rfl

/-- Insertions keep the items in the order in which they come out. -/
theorem Holds.insertAll [DecidableEq T] (hc : IsOrder compare) {done rest : List T} (h : Holds l items)
    (hnodup : (done ++ rest).Nodup) (hperm : items.Perm done) (horder : items.Pairwise (ComesFirst compare (done ++ rest))) :
    ∃ l' items', LinkedList.insertAll compare l rest = .ok l' ∧ Holds l' items' ∧ items'.Perm (done ++ rest) ∧
      items'.Pairwise (ComesFirst compare (done ++ rest)) := by
  induction rest generalizing l items done with
  | nil => exact ⟨l, items, rfl, h, by simpa using hperm, horder⟩
  | cons item rest ih =>
    have hitem : item ∉ done := by
      rw [List.nodup_append] at hnodup
      exact fun hmem => hnodup.2.2 item hmem item (by simp) rfl
    obtain ⟨l₁, hl₁, h₁⟩ := h.insert compare fun hmem => hitem (hperm.subset hmem)
    have hperm₁ : (items.orderedInsert (fun x y => compare x y < 0) item).Perm (done ++ [item]) :=
      (List.perm_orderedInsert _ _ _).trans ((hperm.cons item).trans (List.perm_append_singleton _ _).symm)
    have hassoc : done ++ item :: rest = done ++ [item] ++ rest := by simp
    rw [hassoc] at hnodup horder ⊢
    have horder₁ : (items.orderedInsert (fun x y => compare x y < 0) item).Pairwise (ComesFirst compare (done ++ [item] ++ rest)) := by
      refine SortedList.pairwise_orderedInsert (hc.comesFirst_trans _) horder (fun y _ hlt => .inl hlt) ?_
      intro y hy hnot
      obtain hlt | heq := (hc.le_of_not_lt hnot).lt_or_eq
      · exact .inl hlt
      · refine .inr ⟨heq, ?_⟩
        have hy : y ∈ done := hperm.subset hy
        rw [List.append_assoc, List.idxOf_append_of_mem hy, List.idxOf_append_of_notMem hitem]
        exact Nat.lt_of_lt_of_le (List.idxOf_lt_length_of_mem hy) (Nat.le_add_right _ _)
    obtain ⟨l', items', hl', h'⟩ := ih h₁ hnodup hperm₁ horder₁
    refine ⟨l', items', ?_, h'⟩
    unfold LinkedList.insertAll at hl' ⊢
    rw [List.foldlM_cons, hl₁]
    exact hl'

/-- With a comparison that orders the items, `Insert` puts an item that is not on a sorted list behind those that compare less than or
equal to it and in front of those that compare greater, and the list passes `SanityCheck`. So the items of any sequence of insertions
come out of the list sorted, and those that compare equal as they have been inserted. -/
theorem insert_stable [DecidableEq T] (hc : IsOrder compare) :
    (∀ (l : LinkedList T) (items : List T) (item : T), Holds l items → items.Pairwise (fun x y => compare x y ≤ 0) → item ∉ items →
      ∃ l' before after, LinkedList.insert compare l item = .ok l' ∧ items = before ++ after ∧ Holds l' (before ++ item :: after) ∧
        (∀ x ∈ before, compare x item ≤ 0) ∧ (∀ x ∈ after, 0 < compare x item) ∧
        (before ++ item :: after).Pairwise (fun x y => compare x y ≤ 0) ∧ LinkedList.sortedSanityCheck compare l' = .ok ()) ∧
      ∀ inserted : List T, inserted.Nodup → ∃ l l' out, LinkedList.insertAll compare new inserted = .ok l ∧
        LinkedList.removeAll inserted.length l = .ok (out, l') ∧ l'.isEmpty = true ∧ out.Perm inserted ∧
        out.Pairwise (fun x y => compare x y < 0 ∨ compare x y = 0 ∧ inserted.idxOf x < inserted.idxOf y) := by
  constructor
  · intro l items item h hsorted hitem
    obtain ⟨l', hl', h'⟩ := h.insert compare hitem
    obtain ⟨before, after, hsplit, hinsert, hbefore, hafter⟩ := hc.orderedInsert hsorted item
    have hsorted' : (items.orderedInsert (fun x y => compare x y < 0) item).Pairwise fun x y => compare x y ≤ 0 :=
      SortedList.pairwise_orderedInsert hc.trans hsorted (fun y _ hlt => hlt.le) fun y _ hnot => hc.le_of_not_lt hnot
    rw [hinsert] at h' hsorted'
    exact ⟨l', before, after, hl', hsplit, h', hbefore, hafter, hsorted', h'.sortedSanityCheck hsorted'⟩
  · intro inserted hnodup
    have hall : ([] ++ inserted).Nodup := hnodup
    obtain ⟨l, out, hl, h, hperm, horder⟩ := holds_new.insertAll hc hall (.refl []) .nil
    obtain ⟨l', hl', h'⟩ := h.removeAll
    rw [hperm.length_eq] at hl'
    exact ⟨l, l', out, hl, hl', by simp [h'.isEmpty], hperm, horder⟩

/-- Four interrupts, by their times: two of them are for the same time, and the one that is inserted last comes out first. -/
theorem insert_stable_times :
    let compare : Nat × Char → Nat × Char → Int := fun x y => (x.1 : Int) - y.1
    ∃ l l' out, LinkedList.insertAll compare new [(20, 'a'), (30, 'b'), (20, 'c'), (10, 'd')] = .ok l ∧
      LinkedList.removeAll 4 l = .ok (out, l') ∧ l'.isEmpty = true ∧
      out.Perm [(20, 'a'), (30, 'b'), (20, 'c'), (10, 'd')] ∧ out.Pairwise (fun x y => x.1 ≤ y.1) := by
  intro compare
  have hc : IsOrder compare := ⟨fun x y => by simp only [compare]; omega, fun x y z => by simp only [compare]; omega⟩
  obtain ⟨l, l', out, hl, hl', hempty, hperm, horder⟩ := (insert_stable hc).2 [(20, 'a'), (30, 'b'), (20, 'c'), (10, 'd')] (by decide)
  refine ⟨l, l', out, hl, hl', hempty, hperm, horder.imp ?_⟩
  intro x y hxy
  simp only [compare] at hxy
  omega

end LinkedList

end Nachos
