import Mathlib.Data.List.Nodup
import Nachos.Lib.List

/-!
# A list is a sequence of items (lib/list.h, list.cc)

`Represents` is the invariant of the class: the elements on the chain from `first` to `last`, which is the last one, are all different, and
there are `numInList` of them. Every operation is described by what it does to the elements on the chain, and `Holds` forgets their
addresses.
-/

namespace Nachos

open Loop Chain

namespace LinkedList

variable {T : Type} {l : LinkedList T} {m : Memory T} {p : Option Nat} {c : Nat × T} {cells : List (Nat × T)} {item : T} {items : List T}

/-- The elements on the chain of a list, given by address and item. -/
structure Represents (l : LinkedList T) (cells : List (Nat × T)) : Prop where
  linked : Linked l.elements l.first cells none
  last : l.last = cells.getLast?.map Prod.fst
  numInList : l.numInList = cells.length
  nodup : (cells.map Prod.fst).Nodup
  made : ∀ c ∈ cells, c.1 < l.made
  distinct : (cells.map Prod.snd).Nodup

/-- The items on a list. -/
def Holds (l : LinkedList T) (items : List T) : Prop := ∃ cells, Represents l cells ∧ cells.map Prod.snd = items

/-! ## Pointers -/

theorem read_of {a : Nat} {e : ListElement T} (h : m a = some e) : read m (some a) = .ok e := by simp [read, h]

theorem setNext_of {a : Nat} {e : ListElement T} (h : m a = some e) (next : Option Nat) :
    setNext m (some a) next = .ok (Function.update m a (some ⟨e.item, next⟩)) := by
  simp [setNext, h]

theorem delete_of {a : Nat} {e : ListElement T} (h : m a = some e) : delete m (some a) = .ok (Function.update m a none) := by
  simp [delete, h]

theorem represents_new : Represents (new : LinkedList T) [] := by constructor <;> simp [new]

theorem Represents.length_le (h : Represents l cells) : cells.length ≤ l.made := Chain.length_le h.nodup h.made

theorem Represents.isEmpty (h : Represents l cells) : l.isEmpty = decide (cells = []) := by simp [LinkedList.isEmpty, h.numInList]

/-- The first element is also the last one exactly when it is alone. -/
theorem Represents.first_eq_last (h : Represents l (c :: cells)) : l.first = l.last ↔ cells = [] := by
  rw [h.linked.head, h.last]
  cases cells with
  | nil => simp
  | cons d cells =>
    have hlast : (d :: cells).getLast? = some ((d :: cells).getLast (by simp)) := List.getLast?_eq_some_getLast _
    have hne : c.1 ≠ ((d :: cells).getLast (by simp)).1 := by
      intro heq
      have hnodup := (List.nodup_cons.1 h.nodup).1
      exact hnodup (heq ▸ List.mem_map_of_mem (List.getLast_mem _))
    rw [List.getLast?_cons_cons, hlast]
    simpa using hne

/-- `first` points to the first element. -/
theorem Represents.read_first (h : Represents l (c :: cells)) :
    ∃ next, read l.elements l.first = .ok ⟨c.2, next⟩ ∧ l.elements c.1 = some ⟨c.2, next⟩ ∧ Linked l.elements next cells none := by
  obtain ⟨hfirst, next, hc, hcells⟩ := h.linked
  rw [hfirst]
  exact ⟨next, read_of hc, hc, hcells⟩

/-- `Front`. -/
theorem Represents.front (h : Represents l (c :: cells)) : l.front = .ok c.2 := by
  obtain ⟨next, hread, -⟩ := h.read_first
  unfold LinkedList.front
  rw [hread]
  rfl

/-- The memory of a new element is taken from what is free. -/
theorem Represents.newElement (h : Represents l cells) (item : T) : Represents (l.newElement item) cells := by
  refine ⟨h.linked.update ?_ _, h.last, h.numInList, h.nodup, fun c hc => Nat.lt_succ_of_lt (h.made c hc), h.distinct⟩
  intro hmem
  obtain ⟨c, hc, heq⟩ := List.mem_map.1 hmem
  have hlt := h.made c hc
  omega

theorem newElement_elements (l : LinkedList T) (item : T) : (l.newElement item).elements l.made = some ⟨item, none⟩ :=
  Function.update_self _ _ _

/-! ## IsInList -/

theorem isInListFrom_of [DecidableEq T] (item : T) {n : Nat} (h : Linked m p cells none) (hn : cells.length ≤ n) :
    isInListFrom m item n p = .ok (decide (item ∈ cells.map Prod.snd)) := by
  induction cells generalizing p n with
  | nil =>
    obtain rfl := linked_nil.1 h
    cases n <;> rfl
  | cons c cells ih =>
    obtain ⟨rfl, next, hc, hcells⟩ := h
    cases n with
    | zero => simp at hn
    | succ n =>
      unfold isInListFrom
      rw [read_of hc, ok_bind]
      by_cases hitem : item = c.2
      · simp [hitem]
        rfl
      · rw [if_neg hitem, ih hcells (by simpa using hn)]
        simp [hitem]

theorem Represents.isInList [DecidableEq T] (h : Represents l cells) (item : T) :
    l.isInList item = .ok (decide (item ∈ cells.map Prod.snd)) :=
  isInListFrom_of item h.linked h.length_le

/-! ## Append and Prepend -/

/-- The address of a new element is not in use. -/
theorem Represents.made_not_mem (h : Represents l cells) : l.made ∉ cells.map Prod.fst := by
  intro hmem
  obtain ⟨c, hc, heq⟩ := List.mem_map.1 hmem
  exact absurd (h.made c hc) (by omega)

/-- What is left to show when a new element has been linked into the chain. -/
theorem Represents.of_added (h : Represents l cells) (hitem : item ∉ cells.map Prod.snd) {cells' : List (Nat × T)}
    (hperm : cells'.Perm ((l.made, item) :: cells)) {m : Memory T} {first last : Option Nat} (hlinked : Linked m first cells' none)
    (hlast : last = cells'.getLast?.map Prod.fst) :
    Represents { elements := m, made := l.made + 1, first, last, numInList := l.numInList + 1 } cells' := by
  refine ⟨hlinked, hlast, ?_, ?_, ?_, ?_⟩
  · simp [h.numInList, hperm.length_eq]
  · exact (hperm.map Prod.fst).nodup_iff.2 (List.nodup_cons.2 ⟨h.made_not_mem, h.nodup⟩)
  · intro c hc
    obtain rfl | hc := List.mem_cons.1 (hperm.subset hc)
    · exact Nat.lt_succ_self _
    · exact Nat.lt_succ_of_lt (h.made c hc)
  · exact (hperm.map Prod.snd).nodup_iff.2 (List.nodup_cons.2 ⟨hitem, h.distinct⟩)

/-- What is left to show when an element has been taken out of the chain. -/
theorem Represents.of_removed (h : Represents l cells) {cells' : List (Nat × T)} (hperm : cells.Perm (c :: cells')) {m : Memory T}
    {first last : Option Nat} (hlinked : Linked m first cells' none) (hlast : last = cells'.getLast?.map Prod.fst) :
    Represents { l with elements := m, first, last, numInList := l.numInList - 1 } cells' := by
  refine ⟨hlinked, hlast, ?_, ?_, ?_, ?_⟩
  · simp [h.numInList, hperm.length_eq]
  · exact (List.nodup_cons.1 ((hperm.map Prod.fst).nodup_iff.1 h.nodup)).2
  · exact fun d hd => h.made d (hperm.symm.subset (List.mem_cons_of_mem _ hd))
  · exact (List.nodup_cons.1 ((hperm.map Prod.snd).nodup_iff.1 h.distinct)).2

/-- The chain, and the new element beside it. -/
theorem Represents.linked_new (h : Represents l cells) (item : T) :
    Linked (l.newElement item).elements l.first cells none ∧ Linked (l.newElement item).elements (some l.made) [(l.made, item)] none :=
  ⟨(h.newElement item).linked, rfl, none, newElement_elements l item, rfl⟩

/-- `last` points to the last element. -/
theorem Represents.read_last (h : Represents l (cells ++ [c])) : l.last = some c.1 ∧ l.elements c.1 = some ⟨c.2, none⟩ := by
  obtain ⟨r, -, -, next, hc, rfl⟩ := linked_append.1 h.linked
  exact ⟨by simp [h.last], hc⟩

/-- The chain with a new element behind the last one. -/
theorem Represents.of_linked_last {init : List (Nat × T)} (h : Represents l (init ++ [c])) (hitem : item ∉ (init ++ [c]).map Prod.snd) :
    Represents { l with
      elements := Function.update (l.newElement item).elements c.1 (some ⟨c.2, some l.made⟩)
      made := l.made + 1
      last := some l.made
      numInList := l.numInList + 1 } (init ++ [c] ++ [(l.made, item)]) := by
  obtain ⟨hlinked, halone⟩ := h.linked_new item
  have hne : l.made ≠ c.1 := fun heq => h.made_not_mem (heq ▸ by simp)
  refine h.of_added hitem (List.perm_append_singleton _ _) ?_ (by simp)
  exact linked_append.2 ⟨some l.made, hlinked.redirect h.nodup _, halone.update (by simpa using hne.symm) _⟩

/-- `Append` links a new element behind the others. -/
theorem Represents.linkLast (h : Represents l cells) (hitem : item ∉ cells.map Prod.snd) :
    ∃ l', (l.newElement item).linkLast l.made = .ok l' ∧
      Represents { l' with numInList := l'.numInList + 1 } (cells ++ [(l.made, item)]) := by
  have hnew := h.newElement item
  unfold LinkedList.linkLast
  rw [hnew.isEmpty]
  cases hcells : cells.reverse with
  | nil =>
    obtain rfl := List.reverse_eq_nil_iff.1 hcells
    exact ⟨_, rfl, h.of_added hitem (.refl _) (h.linked_new item).2 rfl⟩
  | cons c init =>
    obtain rfl := List.reverse_eq_cons_iff.1 hcells
    obtain ⟨hlast, hc⟩ := hnew.read_last
    rw [if_neg (by simp), hlast, setNext_of hc, ok_bind]
    exact ⟨_, rfl, h.of_linked_last hitem⟩

theorem Represents.append [DecidableEq T] (h : Represents l cells) (hitem : item ∉ cells.map Prod.snd) :
    ∃ l', l.append item = .ok l' ∧ Represents l' (cells ++ [(l.made, item)]) := by
  obtain ⟨l', hl', hr⟩ := h.linkLast hitem
  unfold LinkedList.append
  dsimp only
  rw [(h.newElement item).isInList, ok_bind, check_of (by simpa using hitem), ok_bind, hl', ok_bind, hr.isInList, ok_bind,
    check_of (by simp)]
  exact ⟨_, rfl, hr⟩

/-- `Prepend` links a new element in front of the others. -/
theorem Represents.linkFirst (h : Represents l cells) (hitem : item ∉ cells.map Prod.snd) :
    ∃ l', (l.newElement item).linkFirst l.made = .ok l' ∧
      Represents { l' with numInList := l'.numInList + 1 } ((l.made, item) :: cells) := by
  have hnew := h.newElement item
  obtain ⟨hlinked, halone⟩ := h.linked_new item
  unfold LinkedList.linkFirst
  rw [hnew.isEmpty]
  cases cells with
  | nil => exact ⟨_, rfl, h.of_added hitem (.refl _) halone rfl⟩
  | cons c cells =>
    rw [if_neg (by simp), setNext_of (newElement_elements l item), ok_bind]
    refine ⟨_, rfl, h.of_added hitem (.refl _) ?_ ?_⟩
    · exact ⟨rfl, l.first, Function.update_self _ _ _, hlinked.update h.made_not_mem _⟩
    · rw [List.getLast?_cons_cons]
      exact h.last

theorem Represents.prepend [DecidableEq T] (h : Represents l cells) (hitem : item ∉ cells.map Prod.snd) :
    ∃ l', l.prepend item = .ok l' ∧ Represents l' ((l.made, item) :: cells) := by
  obtain ⟨l', hl', hr⟩ := h.linkFirst hitem
  unfold LinkedList.prepend
  dsimp only
  rw [(h.newElement item).isInList, ok_bind, check_of (by simpa using hitem), ok_bind, hl', ok_bind, hr.isInList, ok_bind,
    check_of (by simp)]
  exact ⟨_, rfl, hr⟩

/-! ## RemoveFront and Remove -/

theorem Represents.removeFront (h : Represents l (c :: cells)) : ∃ l', l.removeFront = .ok (c.2, l') ∧ Represents l' cells := by
  obtain ⟨next, hread, hc, hcells⟩ := h.read_first
  have hgone : Linked (Function.update l.elements c.1 none) next cells none := hcells.update (List.nodup_cons.1 h.nodup).1 _
  have hlast := h.last
  unfold LinkedList.removeFront
  dsimp only
  rw [h.isEmpty, check_of (by simp), ok_bind, hread, ok_bind]
  dsimp only
  cases cells with
  | nil =>
    rw [if_pos (h.first_eq_last.2 rfl), h.linked.head, delete_of hc]
    exact ⟨_, rfl, h.of_removed (.refl _) rfl rfl⟩
  | cons d cells =>
    rw [if_neg (by simp [h.first_eq_last]), h.linked.head, delete_of hc]
    rw [List.getLast?_cons_cons] at hlast
    exact ⟨_, rfl, h.of_removed (.refl _) hgone hlast⟩

/-- The loop of `Remove` unlinks the element with the item, and makes the one in front of it the last one if none comes behind. -/
theorem removeFrom_of [DecidableEq T] {prev : Nat × T} {before after : List (Nat × T)} {n : Nat}
    (hprev : l.elements prev.1 = some ⟨prev.2, p⟩) (h : Linked l.elements p (before ++ c :: after) none) (hitem : c.2 ∉ before.map Prod.snd)
    (hnodup : (prev.1 :: (before ++ c :: after).map Prod.fst).Nodup) (hn : (before ++ c :: after).length ≤ n) :
    ∃ init b next, prev :: before = init ++ [b] ∧ Linked l.elements next after none ∧
      l.removeFrom c.2 n (some prev.1) p = .ok (true, { l with
        elements := Function.update (Function.update l.elements b.1 (some ⟨b.2, next⟩)) c.1 none
        last := if next = none then some b.1 else l.last
        numInList := l.numInList - 1 }) := by
  induction before generalizing prev p n with
  | nil =>
    obtain ⟨rfl, next, hc, hafter⟩ := h
    have hne : c.1 ≠ prev.1 := by
      rintro heq
      simp [heq] at hnodup
    cases n with
    | zero => simp at hn
    | succ n =>
      refine ⟨[], prev, next, rfl, hafter, ?_⟩
      unfold removeFrom
      rw [read_of hc, ok_bind, if_pos rfl, setNext_of hprev, ok_bind, read_of (Function.update_self _ _ _), ok_bind,
        delete_of ((Function.update_of_ne hne _ _).trans hc), ok_bind]
      rfl
  | cons d before ih =>
    obtain ⟨rfl, next, hd, hbefore⟩ := h
    simp only [List.map_cons, List.mem_cons, not_or] at hitem
    cases n with
    | zero => simp at hn
    | succ n =>
      obtain ⟨init, b, next', heq, hafter, hrun⟩ := ih hd hbefore hitem.2 (List.nodup_cons.1 hnodup).2 (by simpa using hn)
      refine ⟨prev :: init, b, next', by rw [heq]; rfl, hafter, ?_⟩
      unfold removeFrom
      rw [read_of hd, ok_bind, if_neg hitem.1]
      exact hrun

/-- The chain without an element. -/
theorem Represents.of_unlinked {init after : List (Nat × T)} {b : Nat × T} {next : Option Nat}
    (h : Represents l (init ++ [b] ++ c :: after)) (hafter : Linked l.elements next after none) :
    Represents { l with
      elements := Function.update (Function.update l.elements b.1 (some ⟨b.2, next⟩)) c.1 none
      last := if next = none then some b.1 else l.last
      numInList := l.numInList - 1 } (init ++ [b] ++ after) := by
  have hperm : (init ++ [b] ++ c :: after).Perm (c :: (init ++ [b] ++ after)) := List.perm_middle
  have hnodup := (hperm.map Prod.fst).nodup_iff.1 h.nodup
  rw [List.map_cons, List.nodup_cons] at hnodup
  obtain ⟨hc, hrest⟩ := hnodup
  have hsplit := hrest
  rw [List.map_append, List.nodup_append] at hsplit
  obtain ⟨hinit, -, hapart⟩ := hsplit
  have hb : b.1 ∉ after.map Prod.fst := fun hmem => hapart b.1 (by simp) b.1 hmem rfl
  obtain ⟨r, hlinked, -⟩ := linked_append.1 h.linked
  refine h.of_removed hperm ?_ ?_
  · exact (linked_append.2 ⟨next, hlinked.redirect hinit next, hafter.update hb _⟩).update hc _
  · have hnil := hafter.eq_nil_iff
    have hlast := h.last
    cases after with
    | nil => simp [hnil.1 rfl]
    | cons d after =>
      have hne : next ≠ none := fun hnone => List.cons_ne_nil d after (hnil.2 hnone)
      rw [if_neg hne, hlast]
      simp

/-- `Remove`, when the item is on the list behind some others. -/
theorem Represents.takeOut [DecidableEq T] {before after : List (Nat × T)} (h : Represents l (before ++ c :: after)) :
    ∃ e next l', read l.elements l.first = .ok ⟨e, next⟩ ∧ l.takeOut c.2 e next = .ok l' ∧ Represents l' (before ++ after) := by
  unfold LinkedList.takeOut
  cases before with
  | nil =>
    obtain ⟨next, hread, -⟩ := h.read_first
    obtain ⟨l', hl', hr⟩ := h.removeFront
    refine ⟨c.2, next, l', hread, ?_, hr⟩
    rw [if_pos rfl, hl', ok_bind]
    dsimp only
    rw [check_of rfl]
    rfl
  | cons d before =>
    obtain ⟨next, hread, hd, hcells⟩ := h.read_first
    have hitem : c.2 ∉ (d :: before).map Prod.snd := by
      have hdistinct := h.distinct
      rw [List.map_append, List.nodup_append] at hdistinct
      exact fun hmem => hdistinct.2.2 c.2 hmem c.2 (by simp) rfl
    simp only [List.map_cons, List.mem_cons, not_or] at hitem
    have hlength : (before ++ c :: after).length ≤ l.made := (Nat.le_succ _).trans h.length_le
    obtain ⟨init, b, next', heq, hafter, hrun⟩ := removeFrom_of hd hcells hitem.2 h.nodup hlength
    have hcells : Represents l (init ++ [b] ++ c :: after) := by
      rw [← heq]
      exact h
    have hr := hcells.of_unlinked hafter
    rw [← heq] at hr
    refine ⟨d.2, next, _, hread, ?_, hr⟩
    rw [← h.linked.head] at hrun
    rw [if_neg hitem.1, hrun, ok_bind]
    dsimp only
    rw [check_of rfl]
    rfl

theorem Represents.remove [DecidableEq T] {before after : List (Nat × T)} (h : Represents l (before ++ c :: after)) :
    ∃ l', l.remove c.2 = .ok l' ∧ Represents l' (before ++ after) := by
  obtain ⟨e, next, l', hread, hl', hr⟩ := h.takeOut
  have hgone : c.2 ∉ (before ++ after).map Prod.snd := by
    have hperm : (before ++ c :: after).Perm (c :: (before ++ after)) := List.perm_middle
    have hdistinct := (hperm.map Prod.snd).nodup_iff.1 h.distinct
    exact (List.nodup_cons.1 hdistinct).1
  unfold LinkedList.remove
  rw [h.isInList, ok_bind, check_of (by simp), ok_bind, hread, ok_bind, hl', ok_bind, hr.isInList, ok_bind,
    check_of (by simpa using hgone)]
  exact ⟨l', rfl, hr⟩

/-! ## SanityCheck -/

/-- The loop of `SanityCheck` gets to the last element. -/
theorem countFrom_of {n : Nat} {numFound : Int} (h : Linked l.elements p (cells ++ [c]) none) (hlast : l.last = some c.1)
    (hnodup : ((cells ++ [c]).map Prod.fst).Nodup) (hcount : numFound + cells.length ≤ l.numInList) (hn : cells.length < n) :
    l.countFrom n numFound p = .ok (numFound + cells.length) := by
  induction cells generalizing p n numFound with
  | nil =>
    obtain ⟨rfl, -⟩ := h
    cases n with
    | zero => simp at hn
    | succ n =>
      unfold countFrom
      rw [if_pos hlast.symm]
      simp
  | cons d cells ih =>
    obtain ⟨rfl, next, hd, hcells⟩ := h
    rw [List.cons_append, List.map_cons, List.nodup_cons] at hnodup
    have hne : some d.1 ≠ l.last := by
      rw [hlast]
      rintro heq
      exact hnodup.1 (Option.some.inj heq ▸ by simp)
    simp only [List.length_cons] at hcount hn
    cases n with
    | zero => simp at hn
    | succ n =>
      unfold countFrom
      rw [if_neg hne, check_of (by omega), ok_bind, read_of hd, ok_bind]
      dsimp only
      rw [ih hcells hnodup.2 (by omega) (by omega)]
      simp only [List.length_cons, Except.ok.injEq]
      omega

theorem Represents.sanityCheck (h : Represents l cells) : l.sanityCheck = .ok () := by
  unfold LinkedList.sanityCheck
  cases cells with
  | nil =>
    have hfirst : l.first = none := h.linked
    rw [if_pos hfirst, check_of ⟨h.numInList, h.last⟩]
  | cons d cells =>
    have hfirst := h.first_eq_last
    have hcount := h.numInList
    rw [if_neg (by simp [h.linked.head])]
    obtain hnil | ⟨init, c, heq⟩ := (d :: cells).eq_nil_or_concat
    · cases hnil
    · rw [List.concat_eq_append] at heq
      rw [heq] at h hcount
      obtain ⟨hlast, hc⟩ := h.read_last
      rw [List.length_append, List.length_singleton] at hcount
      by_cases hone : l.first = l.last
      · have hlength := congrArg List.length heq
        rw [hfirst.1 hone, List.length_append, List.length_singleton, List.length_singleton] at hlength
        rw [if_pos hone, check_of (by omega), ok_bind, hlast, read_of hc, ok_bind, check_of rfl]
      · have hloop : l.countFrom (l.numInList.toNat + 1) 1 l.first = .ok (1 + init.length) :=
          countFrom_of h.linked hlast h.nodup (by omega) (by omega)
        rw [if_neg hone, hloop, ok_bind, check_of (by omega), ok_bind, hlast, read_of hc, ok_bind, check_of rfl]

/-! ## Sequences of items -/

theorem holds_new : Holds (new : LinkedList T) [] := ⟨[], represents_new, rfl⟩

theorem Holds.nodup (h : Holds l items) : items.Nodup := by
  obtain ⟨cells, hr, rfl⟩ := h
  exact hr.distinct

theorem Holds.numInList (h : Holds l items) : l.numInList = items.length := by
  obtain ⟨cells, hr, rfl⟩ := h
  simp [hr.numInList]

theorem Holds.length_le (h : Holds l items) : items.length ≤ l.made := by
  obtain ⟨cells, hr, rfl⟩ := h
  simpa using hr.length_le

theorem Holds.isEmpty (h : Holds l items) : l.isEmpty = decide (items = []) := by
  obtain ⟨cells, hr, rfl⟩ := h
  simp [hr.isEmpty]

theorem Holds.sanityCheck (h : Holds l items) : l.sanityCheck = .ok () := by
  obtain ⟨cells, hr, rfl⟩ := h
  exact hr.sanityCheck

theorem Holds.front (h : Holds l (item :: items)) : l.front = .ok item := by
  obtain ⟨cells, hr, heq⟩ := h
  obtain ⟨c, cells, rfl, rfl, -⟩ := List.map_eq_cons_iff.1 heq
  exact hr.front

theorem Holds.removeFront (h : Holds l (item :: items)) : ∃ l', l.removeFront = .ok (item, l') ∧ Holds l' items := by
  obtain ⟨cells, hr, heq⟩ := h
  obtain ⟨c, cells, rfl, rfl, rfl⟩ := List.map_eq_cons_iff.1 heq
  obtain ⟨l', hl', hr'⟩ := hr.removeFront
  exact ⟨l', hl', cells, hr', rfl⟩

section
variable [DecidableEq T]

theorem Holds.isInList (h : Holds l items) (item : T) : l.isInList item = .ok (decide (item ∈ items)) := by
  obtain ⟨cells, hr, rfl⟩ := h
  exact hr.isInList item

theorem Holds.append (h : Holds l items) (hitem : item ∉ items) : ∃ l', l.append item = .ok l' ∧ Holds l' (items ++ [item]) := by
  obtain ⟨cells, hr, rfl⟩ := h
  obtain ⟨l', hl', hr'⟩ := hr.append hitem
  exact ⟨l', hl', _, hr', by simp⟩

theorem Holds.prepend (h : Holds l items) (hitem : item ∉ items) : ∃ l', l.prepend item = .ok l' ∧ Holds l' (item :: items) := by
  obtain ⟨cells, hr, rfl⟩ := h
  obtain ⟨l', hl', hr'⟩ := hr.prepend hitem
  exact ⟨l', hl', _, hr', rfl⟩

theorem Holds.remove (h : Holds l items) (hitem : item ∈ items) : ∃ l', l.remove item = .ok l' ∧ Holds l' (items.erase item) := by
  have hnodup := h.nodup
  obtain ⟨cells, hr, rfl⟩ := h
  obtain ⟨c, hc, rfl⟩ := List.mem_map.1 hitem
  obtain ⟨before, after, rfl⟩ := List.append_of_mem hc
  obtain ⟨l', hl', hr'⟩ := hr.remove
  rw [List.map_append, List.nodup_append] at hnodup
  have hbefore : c.2 ∉ before.map Prod.snd := fun hmem => hnodup.2.2 c.2 hmem c.2 (by simp) rfl
  refine ⟨l', hl', _, hr', ?_⟩
  rw [List.map_append, List.map_append, List.map_cons, List.erase_append_right _ hbefore, List.erase_cons_head]

/-! ## Runs -/

/-- A call that changes a list. -/
inductive Call (T : Type) where
  | append (item : T)
  | prepend (item : T)
  | removeFront
  | remove (item : T)

/-- What a call asks for: an item that is inserted is not on the list, and one that is removed is. -/
def Call.Allowed (items : List T) : Call T → Prop
  | .append item => item ∉ items
  | .prepend item => item ∉ items
  | .removeFront => items ≠ []
  | .remove item => item ∈ items

/-- The items after a call. -/
def Call.effect (items : List T) : Call T → List T
  | .append item => items ++ [item]
  | .prepend item => item :: items
  | .removeFront => items.tail
  | .remove item => items.erase item

omit [DecidableEq T] in
/-- What a call returns. -/
def Call.result (items : List T) : Call T → Option T
  | .removeFront => items.head?
  | _ => none

/-- A call, with what it returns. -/
def perform (l : LinkedList T) : Call T → Except Stop (Option T × LinkedList T)
  | .append item => (l.append item).map fun l => (none, l)
  | .prepend item => (l.prepend item).map fun l => (none, l)
  | .removeFront => l.removeFront.map fun (item, l) => (some item, l)
  | .remove item => (l.remove item).map fun l => (none, l)

/-- Calls one after the other. -/
def run : LinkedList T → List (Call T) → Except Stop (List (Option T) × LinkedList T)
  | l, [] => .ok ([], l)
  | l, c :: cs => do
    let (result, l) ← l.perform c
    let (results, l) ← run l cs
    return (result :: results, l)

/-- Every call of a sequence is allowed when its turn comes. -/
def Allowed : List T → List (Call T) → Prop
  | _, [] => True
  | items, c :: cs => c.Allowed items ∧ Allowed (c.effect items) cs

/-- What the calls of a sequence return. -/
def results : List T → List (Call T) → List (Option T)
  | _, [] => []
  | items, c :: cs => c.result items :: results (c.effect items) cs

/-- A call that is allowed returns, and does to the items what it should. -/
theorem Holds.perform (h : Holds l items) {c : Call T} (hc : c.Allowed items) :
    ∃ l', l.perform c = .ok (c.result items, l') ∧ Holds l' (c.effect items) := by
  cases c with
  | append item =>
    obtain ⟨l', hl', h'⟩ := h.append hc
    exact ⟨l', by simp [LinkedList.perform, hl', Except.map, Call.result], h'⟩
  | prepend item =>
    obtain ⟨l', hl', h'⟩ := h.prepend hc
    exact ⟨l', by simp [LinkedList.perform, hl', Except.map, Call.result], h'⟩
  | removeFront =>
    obtain ⟨item, items, rfl⟩ := List.exists_cons_of_ne_nil hc
    obtain ⟨l', hl', h'⟩ := h.removeFront
    exact ⟨l', by simp [LinkedList.perform, hl', Except.map, Call.result], h'⟩
  | remove item =>
    obtain ⟨l', hl', h'⟩ := h.remove hc
    exact ⟨l', by simp [LinkedList.perform, hl', Except.map, Call.result], h'⟩

/-- So do sequences of calls. -/
theorem Holds.run (cs : List (Call T)) (h : Holds l items) (hcs : Allowed items cs) :
    ∃ l', l.run cs = .ok (results items cs, l') ∧ Holds l' (cs.foldl Call.effect items) := by
  induction cs generalizing l items with
  | nil => exact ⟨l, rfl, h⟩
  | cons c cs ih =>
    obtain ⟨l₁, hl₁, h₁⟩ := h.perform hcs.1
    obtain ⟨l', hl', h'⟩ := ih h₁ hcs.2
    refine ⟨l', ?_, h'⟩
    unfold LinkedList.run
    rw [hl₁, ok_bind]
    dsimp only
    rw [hl', ok_bind]
    rfl

/-- After any calls that were allowed, a list is a chain of `numInList` different elements from `first` to `last`, behind which nothing
comes; `SanityCheck` goes through; and what the calls have returned, the items on the chain, `IsInList`, `Front`, `IsEmpty` and
`NumInList` are those of the sequence of items that the calls make. -/
theorem list_represents_sequence (cs : List (Call T)) (hcs : Allowed [] cs) :
    ∃ l cells, run new cs = .ok (results [] cs, l) ∧ cells.map Prod.snd = cs.foldl Call.effect [] ∧
      (Linked l.elements l.first cells none ∧ (cells.map Prod.fst).Nodup ∧ l.numInList = cells.length ∧
        l.last = cells.getLast?.map Prod.fst ∧ ∀ a, l.last = some a → ∃ item, l.elements a = some ⟨item, none⟩) ∧
      l.sanityCheck = .ok () ∧
      (∀ item, l.isInList item = .ok (decide (item ∈ cs.foldl Call.effect []))) ∧
      (∀ item, (cs.foldl Call.effect []).head? = some item → l.front = .ok item) ∧
      l.isEmpty = decide (cs.foldl Call.effect [] = []) ∧ l.numInList = (cs.foldl Call.effect []).length := by
  obtain ⟨l, hl, h⟩ := holds_new.run cs hcs
  obtain ⟨cells, hr, hitems⟩ := id h
  refine ⟨l, cells, hl, hitems, ⟨hr.linked, hr.nodup, hr.numInList, hr.last, ?_⟩, h.sanityCheck, h.isInList, ?_, h.isEmpty, h.numInList⟩
  · intro a ha
    obtain rfl | ⟨init, c, rfl⟩ := cells.eq_nil_or_concat
    · rw [hr.last] at ha
      cases ha
    · rw [List.concat_eq_append] at hr
      obtain ⟨hlast, hc⟩ := hr.read_last
      cases hlast.symm.trans ha
      exact ⟨c.2, hc⟩
  · intro item hhead
    obtain ⟨items, heq⟩ := List.head?_eq_some_iff.1 hhead
    rw [heq] at h
    exact h.front

/-- A list that gets empty, is filled again from both ends, and loses its last element. -/
theorem list_represents_sequence_refilled :
    ∃ l, run (new : LinkedList Nat) [.append 7, .removeFront, .append 1, .prepend 2, .append 3, .remove 3] =
      .ok ([none, some 7, none, none, none, none], l) ∧ l.sanityCheck = .ok () ∧ l.front = .ok 2 ∧ l.isInList 3 = .ok false ∧
      l.numInList = 2 := by
  obtain ⟨l, cells, hl, -, -, hsanity, hin, hfront, -, hcount⟩ := list_represents_sequence
    [.append 7, .removeFront, .append 1, .prepend 2, .append 3, .remove 3] (by simp [Allowed, Call.Allowed, Call.effect])
  exact ⟨l, hl, hsanity, hfront 2 rfl, hin 3, hcount⟩

end

end LinkedList

/-! ## Iterators -/

namespace ListIterator

variable {T : Type} {it : ListIterator T} {x : T} {items : List T}

/-- The items that an iterator has in front of it. -/
def At (it : ListIterator T) (items : List T) : Prop :=
  ∃ cells, Linked it.list.elements it.current cells none ∧ cells.map Prod.snd = items

theorem at_new {l : LinkedList T} (h : l.Holds items) : At (new l) items := by
  obtain ⟨cells, hr, rfl⟩ := h
  exact ⟨cells, hr.linked, rfl⟩

theorem At.isDone (h : At it items) : it.isDone = decide (items = []) := by
  obtain ⟨cells, hlinked, rfl⟩ := h
  have hnil := hlinked.eq_nil_iff
  unfold ListIterator.isDone
  cases hcurrent : it.current <;> simp [hcurrent] at hnil ⊢ <;> exact hnil

theorem At.item (h : At it (x :: items)) : it.item = .ok x := by
  have hdone := h.isDone
  obtain ⟨cells, hlinked, heq⟩ := h
  obtain ⟨c, cells, rfl, rfl, rfl⟩ := List.map_eq_cons_iff.1 heq
  obtain ⟨hcurrent, next, hc, -⟩ := hlinked
  unfold ListIterator.item
  rw [hdone, check_of (by simp), ok_bind, hcurrent, LinkedList.read_of hc]
  rfl

theorem At.next (h : At it (x :: items)) : ∃ it', it.next = .ok it' ∧ At it' items := by
  obtain ⟨cells, hlinked, heq⟩ := h
  obtain ⟨c, cells, rfl, rfl, rfl⟩ := List.map_eq_cons_iff.1 heq
  obtain ⟨hcurrent, next, hc, hcells⟩ := hlinked
  unfold ListIterator.next
  rw [hcurrent, LinkedList.read_of hc, ok_bind]
  exact ⟨_, rfl, cells, hcells, rfl⟩

end ListIterator

end Nachos
