import Nachos.Userprog.BubbleSort

/-!
# What the sort program prints

Each part of the program is described by what it prints, which numbers it takes, and what it leaves in the variables.
-/

namespace Nachos

open Loop Input Command Process Exchange

namespace BubbleSort

variable {C : FileSystemClass} {address : Text → BitVec 32} {rest : Stream' UInt8} {said : List UInt8}
  {numbers : List (BitVec 32)} {v : Vars} {p : Process C Vars} {Q : Post Fault (Process C Vars)}

/-- The program can rely on its strings. -/
abbrev Talks (address : Text → BitVec 32) (rest : Stream' UInt8) (said : List UInt8) (numbers : List (BitVec 32)) (v : Vars)
    (p : Process C Vars) : Prop := Console address Text.chars rest said numbers v p

theorem Text.short (t : Text) : t.chars.length ≤ 223 := by cases t <;> decide

theorem Text.nonzero (t : Text) : ∀ c ∈ t.chars, c ≠ 0 := by
  have hall : t.chars.all (fun c => c != 0) = true := by cases t <;> rfl
  intro c hc
  exact bne_iff_ne.1 (List.all_eq_true.1 hall c hc)

/-! ## Reading -/

/-- The loop asks again until there is a mode. -/
theorem readMode_ends {mode : BitVec 32} (hmode : mode = 1 ∨ mode = 2) {bad : List (BitVec 32)} (hbad : ∀ m ∈ bad, m ≠ 1 ∧ m ≠ 2)
    (h : Talks address rest said (bad ++ mode :: numbers) v p)
    (hQ : ∀ p', Talks address rest (said ++ bad.flatMap fun _ => Text.tryAgain.chars) numbers { v with mode } p' → Q.next p') :
    (readMode address).Ends Q p := by
  induction bad generalizing said v p with
  | nil =>
    refine ends_loop_true rfl (ends_seq (h.readNum rfl fun p₁ h₁ => ends_seq ?_))
    have hleave : ¬(mode ≠ 1 ∧ mode ≠ 2) := fun hne => hmode.elim hne.1 hne.2
    refine ends_ite (b := false) ?_ (ends_leave (hQ p₁ ?_))
    · rw [h₁.test]
      exact congrArg Except.ok (decide_eq_false hleave)
    rw [List.flatMap_nil, List.append_nil]
    exact h₁
  | cons m bad ih =>
    refine ends_loop_true rfl (ends_seq (h.readNum rfl fun p₁ h₁ => ends_seq ?_))
    refine ends_ite (b := true) ?_ ?_
    · rw [h₁.test]
      exact congrArg Except.ok (decide_eq_true (hbad m List.mem_cons_self))
    refine h₁.printString .tryAgain (Text.short _) fun p₂ h₂ => ends_skip ?_
    refine ih (fun m hm => hbad m (List.mem_cons_of_mem _ hm)) h₂ fun p' h' => hQ p' ?_
    rw [List.append_assoc] at h'
    exact h'

/-- The loop asks again until there is a count. `x` is the number that has been read. -/
theorem recount_ends {n : BitVec 32} (hn : 0 ≤ n.toInt ∧ n.toInt ≤ 100) {bad : List (BitVec 32)}
    (hbad : ∀ m ∈ bad, m.toInt < 0 ∨ m.toInt > 100) {x : BitVec 32} {tail : List (BitVec 32)} (hx : x :: tail = bad ++ n :: numbers)
    (h : Talks address rest said tail { v with n := x } p)
    (hQ : ∀ p', Talks address rest (said ++ bad.flatMap fun _ => Text.wrongCount.chars ++ Text.nEquals.chars) numbers { v with n } p' →
      Q.next p') : (Command.loop (test fun v => .ok (v.n.toInt < 0 ∨ v.n.toInt > 100)) (block [
        printString (address .wrongCount),
        printString (address .nEquals),
        readNum fun x v => .ok { v with n := x }])).Ends Q p := by
  induction bad generalizing x tail said p with
  | nil =>
    obtain ⟨rfl, rfl⟩ := List.cons.inj hx
    refine ends_loop_false ?_ (hQ p ?_)
    · rw [h.test]
      exact congrArg Except.ok (decide_eq_false (show ¬(x.toInt < 0 ∨ x.toInt > 100) by omega))
    · rw [List.flatMap_nil, List.append_nil]
      exact h
  | cons m bad ih =>
    rw [List.cons_append] at hx
    obtain ⟨rfl, htail⟩ := List.cons.inj hx
    obtain ⟨y, tail', hy⟩ : ∃ y tail', bad ++ n :: numbers = y :: tail' := List.exists_cons_of_ne_nil (by simp)
    refine ends_loop_true ?_ (ends_seq ?_)
    · rw [h.test]
      exact congrArg Except.ok (decide_eq_true (hbad x List.mem_cons_self))
    refine h.printString .wrongCount (Text.short _) fun p₁ h₁ => ends_seq ?_
    refine h₁.printString .nEquals (Text.short _) fun p₂ h₂ => ends_seq ?_
    rw [htail, hy] at h₂
    refine h₂.readNum rfl fun p₃ h₃ => ends_skip ?_
    refine ih (fun m hm => hbad m (List.mem_cons_of_mem _ hm)) hy.symm h₃ fun p' h' => hQ p' ?_
    rw [List.append_assoc, List.append_assoc, ← List.append_assoc Text.wrongCount.chars] at h'
    exact h'

theorem readCount_ends {n : BitVec 32} (hn : 0 ≤ n.toInt ∧ n.toInt ≤ 100) {bad : List (BitVec 32)}
    (hbad : ∀ m ∈ bad, m.toInt < 0 ∨ m.toInt > 100) (h : Talks address rest said (bad ++ n :: numbers) v p)
    (hQ : ∀ p', Talks address rest (said ++ bad.flatMap fun _ => Text.wrongCount.chars ++ Text.nEquals.chars) numbers { v with n } p' →
      Q.next p') : (readCount address).Ends Q p := by
  obtain ⟨y, tail, hy⟩ : ∃ y tail, bad ++ n :: numbers = y :: tail := List.exists_cons_of_ne_nil (by simp)
  rw [hy] at h
  exact ends_seq (h.readNum rfl fun p₁ h₁ => ends_seq (recount_ends hn hbad hy.symm h₁ fun p' h' => ends_skip (hQ p' h')))

/-- The prompts for the first `k` elements. -/
def prompts (k : Nat) : List UInt8 :=
  (List.range k).flatMap fun i : Nat => Text.element.chars ++ decimal i ++ Text.bracket.chars ++ Text.colon.chars

theorem prompts_succ (k : Nat) :
    prompts (k + 1) = prompts k ++ (Text.element.chars ++ decimal k ++ Text.bracket.chars ++ Text.colon.chars) := by
  unfold prompts
  rw [List.range_succ, List.flatMap_append, List.flatMap_singleton]

theorem toInt_ofInt_counter {k : Nat} (hk : k ≤ 100) : (BitVec.ofInt 32 (k : Int)).toInt = k :=
  BitVec.toInt_ofInt_eq_self (by decide) (by omega) (by omega)

/-- The array is what has been typed. -/
theorem readArray_ends {elements : List (BitVec 32)} (hn : v.n.toInt = elements.length) (h100 : elements.length ≤ 100)
    (h : Talks address rest said (elements ++ numbers) v p)
    (hQ : ∀ p' i arr, prefixOf elements.length arr = elements →
      Talks address rest (said ++ prompts elements.length) numbers { v with i, arr } p' → Q.next p') :
    (readArray address).Ends Q p := by
  refine ends_seq (h.assign _ rfl fun p₀ h₀ => ?_)
  refine ends_count (fun k p => ∃ arr, (∀ x (hx : x < elements.length), x < k → arr x = elements[x]) ∧
    Talks address rest (said ++ prompts k) (elements.drop k ++ numbers) { v with i := k, arr } p) (n := elements.length) ?_ ?_ ?_ ?_
  · rintro k hk p ⟨arr, -, h⟩
    rw [h.test, hn]
    exact congrArg Except.ok (decide_eq_decide.2 Int.ofNat_lt)
  · rintro k hk p ⟨arr, harr, h⟩
    rw [List.drop_eq_getElem_cons hk, List.cons_append] at h
    refine ends_seq (ends_seq (h.printString .element (Text.short _) fun p₁ h₁ => ends_seq ?_))
    refine h₁.printNum rfl fun p₂ h₂ => ends_seq ?_
    refine h₂.printString .bracket (Text.short _) fun p₃ h₃ => ends_seq ?_
    refine h₃.printString .colon (Text.short _) fun p₄ h₄ => ends_seq ?_
    have hstore : Vars.store { v with i := k, arr } k elements[k] = .ok { v with i := k, arr := Function.update arr k elements[k] } :=
      if_pos ⟨by omega, by omega⟩
    refine h₄.readNum hstore fun p₅ h₅ => ends_skip ?_
    refine h₅.assign _ rfl fun p₆ h₆ => ⟨Function.update arr k elements[k], ?_, ?_⟩
    · intro x hx hlt
      obtain rfl | hne := eq_or_ne x k
      · exact Function.update_self _ _ _
      · rw [Function.update_of_ne hne]
        exact harr x hx (by omega)
    · rw [prompts_succ]
      rw [toInt_ofInt_counter (by omega)] at h₆
      simpa only [List.append_assoc, Nat.cast_add, Nat.cast_one] using h₆
  · rintro p ⟨arr, harr, h⟩
    rw [List.drop_length, List.nil_append] at h
    refine hQ p _ arr ?_ h
    refine List.ext_getElem (by simp [prefixOf]) fun x h₁ h₂ => ?_
    simp only [prefixOf, List.getElem_map, List.getElem_range]
    exact harr x h₂ h₂
  · refine ⟨v.arr, nofun, ?_⟩
    rw [List.drop_zero, prompts, List.range_zero, List.flatMap_nil, List.append_nil]
    exact h₀

/-! ## Sorting -/

/-- The order that the mode asks for. -/
def Ordered (mode x y : BitVec 32) : Prop := if mode = 1 then x.toInt ≤ y.toInt else y.toInt ≤ x.toInt

instance (mode : BitVec 32) : DecidableRel (Ordered mode) := fun _ _ => inferInstanceAs (Decidable (ite _ _ _))

instance (mode : BitVec 32) : Std.Total (Ordered mode) where
  total x y := by
    unfold Ordered
    split <;> omega

instance (mode : BitVec 32) : IsTrans (BitVec 32) (Ordered mode) where
  trans x y z := by
    unfold Ordered
    split <;> omega

theorem load_of {k : Nat} (hk : k < 100) : v.load k = .ok (v.arr k) := if_pos ⟨by omega, by omega⟩

theorem load_next {k : Nat} (hk : k + 1 < 100) : v.load ((k : Int) + 1) = .ok (v.arr (k + 1)) := if_pos ⟨by omega, by omega⟩

/-- The three assignments exchange two neighbours. -/
theorem swap_ends {k : Nat} (hk : k + 1 < 100) (h : Talks address rest said numbers { v with j := k } p)
    (hQ : ∀ p' temp, Talks address rest said numbers { v with j := k, temp, arr := v.arr ∘ Equiv.swap k (k + 1) } p' → Q.next p') :
    swap.Ends Q p := by
  have harr : Function.update (Function.update v.arr k (v.arr (k + 1))) (k + 1) (v.arr k) = v.arr ∘ Equiv.swap k (k + 1) := by
    rw [Equiv.comp_swap_eq_update, Function.update_comm (by omega)]
  have hload : Vars.load { v with j := k } k = .ok (v.arr k) := load_of (by omega)
  have hnext (temp : BitVec 32) : Vars.load { v with j := k, temp } ((k : Int) + 1) = .ok (v.arr (k + 1)) := load_next hk
  refine ends_seq (h.assign { v with j := k, temp := v.arr k } ?_ fun p₁ h₁ => ends_seq ?_)
  · rw [hload]
    rfl
  refine h₁.assign { v with j := k, temp := v.arr k, arr := Function.update v.arr k (v.arr (k + 1)) } ?_ fun p₂ h₂ => ends_seq ?_
  · rw [hnext, ok_bind]
    exact if_pos ⟨by dsimp only; omega, by dsimp only; omega⟩
  refine h₂.assign { v with j := k, temp := v.arr k, arr := v.arr ∘ Equiv.swap k (k + 1) } ?_ fun p₃ h₃ => ends_skip (hQ p₃ _ h₃)
  rw [← harr]
  exact if_pos ⟨by dsimp only; omega, by dsimp only; omega⟩

/-- The body of the inner loop puts two neighbours in order. -/
theorem compare_ends (hmode : v.mode = 1 ∨ v.mode = 2) {k : Nat} (hk : k + 1 < 100)
    (h : Talks address rest said numbers { v with j := k } p)
    (hQ : ∀ p' temp, Talks address rest said numbers { v with j := k, temp, arr := exchange (Ordered v.mode) v.arr k } p' → Q.next p') :
    compare.Ends Q p := by
  have hload : Vars.load { v with j := k } k = .ok (v.arr k) := load_of (by omega)
  have hnext : Vars.load { v with j := k } ((k : Int) + 1) = .ok (v.arr (k + 1)) := load_next hk
  have hbranch (out : Bool) (hout : out = true ↔ ¬Ordered v.mode (v.arr k) (v.arr (k + 1))) :
      (if out then swap else skip : Statement C Vars).Ends Q p := by
    cases out with
    | false =>
      refine ends_skip (hQ p v.temp ?_)
      rw [exchange, if_pos (by simpa using hout)]
      exact h
    | true =>
      refine swap_ends hk h fun p' temp h' => hQ p' temp ?_
      rw [exchange, if_neg (by simpa using hout)]
      exact h'
  by_cases hone : v.mode = 1
  · refine ends_ite (b := true) ?_ (ends_ite (b := decide ((v.arr k).toInt > (v.arr (k + 1)).toInt)) ?_ (hbranch _ ?_))
    · rw [h.test]
      exact congrArg Except.ok (decide_eq_true hone)
    · rw [h.test, hload, ok_bind, hnext]
      rfl
    · unfold Ordered
      rw [decide_eq_true_iff, if_pos hone, Int.not_le]
  · have htwo : v.mode = 2 := hmode.resolve_left hone
    refine ends_ite (b := false) ?_ (ends_ite (b := true) ?_
      (ends_ite (b := decide ((v.arr k).toInt < (v.arr (k + 1)).toInt)) ?_ (hbranch _ ?_)))
    · rw [h.test]
      exact congrArg Except.ok (decide_eq_false hone)
    · rw [h.test]
      exact congrArg Except.ok (decide_eq_true htwo)
    · rw [h.test, hload, ok_bind, hnext]
      rfl
    · unfold Ordered
      rw [decide_eq_true_iff, if_neg hone, Int.not_le]

/-- The array is sorted. -/
theorem bubbleSort_ends (hmode : v.mode = 1 ∨ v.mode = 2) {n : Nat} (hn : v.n.toInt = n) (h100 : n ≤ 100)
    (h : Talks address rest said numbers v p)
    (hQ : ∀ p' i j temp, Talks address rest said numbers { v with i, j, temp, arr := passes (Ordered v.mode) n v.arr n } p' → Q.next p') :
    bubbleSort.Ends Q p := by
  refine ends_seq (h.assign _ rfl fun p₀ h₀ => ?_)
  refine ends_count (fun k p => ∃ j temp, Talks address rest said numbers
    { v with i := k, j, temp, arr := passes (Ordered v.mode) n v.arr k } p) (n := n) ?_ ?_ ?_ ⟨v.j, v.temp, h₀⟩
  · rintro k hk p ⟨j, temp, h⟩
    rw [h.test, hn]
    exact congrArg Except.ok (decide_eq_decide.2 Int.ofNat_lt)
  · rintro k hk p ⟨j, temp, h⟩
    refine ends_seq (ends_seq (h.assign _ rfl fun p₁ h₁ => ?_))
    refine ends_count (fun l p => ∃ temp, Talks address rest said numbers
      { v with i := k, j := l, temp, arr := pass (Ordered v.mode) (passes (Ordered v.mode) n v.arr k) l } p) (n := n - 1) ?_ ?_ ?_
        ⟨temp, h₁⟩
    · rintro l hl p ⟨temp, h⟩
      rw [h.test, hn]
      exact congrArg Except.ok (decide_eq_decide.2 (by dsimp only; omega))
    · rintro l hl p ⟨temp, h⟩
      refine ends_seq (compare_ends (v := { v with
        i := k, temp, arr := pass (Ordered v.mode) (passes (Ordered v.mode) n v.arr k) l }) hmode (by omega) h fun p₂ temp₂ h₂ => ?_)
      exact h₂.assign _ rfl fun p₃ h₃ => ⟨temp₂, h₃⟩
    · rintro p ⟨temp, h⟩
      exact h.assign _ rfl fun p₂ h₂ => ⟨_, temp, h₂⟩
  · rintro p ⟨j, temp, h⟩
    exact hQ p _ j temp h

/-! ## Printing -/

/-- Numbers with commas between them. -/
def listed (l : List (BitVec 32)) : List UInt8 := List.intercalate Text.comma.chars (l.map fun x => decimal x.toInt)

theorem listed_concat (l : List (BitVec 32)) (x : BitVec 32) :
    listed (l ++ [x]) = listed l ++ (if l = [] then [] else Text.comma.chars) ++ decimal x.toInt := by
  unfold listed
  induction l with
  | nil => simp [List.intercalate]
  | cons y l ih =>
    cases l with
    | nil => simp [List.intercalate]
    | cons z l =>
      simp only [List.intercalate, List.cons_append, List.map_cons, List.intersperse_cons_cons, List.flatten_cons] at ih ⊢
      simpa using ih

/-- A comma goes in front of each element but the first. -/
theorem comma_ends {k : Nat} (h : Talks address rest said numbers { v with i := k } p)
    (hQ : ∀ p', Talks address rest (said ++ if k = 0 then [] else Text.comma.chars) numbers { v with i := k } p' → Q.next p') :
    (Command.ite (test fun v => .ok (v.i ≠ 0)) (printString (address .comma)) skip).Ends Q p := by
  by_cases hk : k = 0
  · refine ends_ite (b := false) ?_ (ends_skip (hQ p ?_))
    · rw [h.test]
      exact congrArg Except.ok (decide_eq_false (by simpa using hk))
    · rw [if_pos hk, List.append_nil]
      exact h
  · refine ends_ite (b := true) ?_ ?_
    · rw [h.test]
      exact congrArg Except.ok (decide_eq_true (by simpa using hk))
    · rw [if_neg hk] at hQ
      exact h.printString .comma (Text.short _) hQ

/-- The array is printed. -/
theorem printArray_ends {n : Nat} (hn : v.n.toInt = n) (h100 : n ≤ 100) (h : Talks address rest said numbers v p)
    (hQ : ∀ p' i, Talks address rest (said ++ listed (prefixOf n v.arr)) numbers { v with i } p' → Q.next p') :
    (printArray address).Ends Q p := by
  refine ends_seq (h.assign _ rfl fun p₀ h₀ => ?_)
  refine ends_count (fun k p => Talks address rest (said ++ listed (prefixOf k v.arr)) numbers { v with i := k } p) (n := n) ?_ ?_ ?_ ?_
  · intro k hk p h
    rw [h.test, hn]
    exact congrArg Except.ok (decide_eq_decide.2 Int.ofNat_lt)
  · intro k hk p h
    have hload : Vars.load { v with i := k } k = .ok (v.arr k) := load_of (by omega)
    have hfirst : prefixOf k v.arr = [] ↔ k = 0 := by simp [prefixOf]
    refine ends_seq (ends_seq (comma_ends h fun p₁ h₁ => ends_seq ?_))
    refine h₁.printNum hload fun p₂ h₂ => ends_skip (h₂.assign _ rfl fun p₃ h₃ => ?_)
    rw [prefixOf_succ, listed_concat, ← List.append_assoc, ← List.append_assoc]
    simp only [hfirst]
    exact h₃
  · exact fun p h => hQ p _ h
  · have hnothing : listed (prefixOf 0 v.arr) = [] := rfl
    rw [hnothing, List.append_nil]
    exact h₀

/-! ## The program -/

/-- What the program prints up to its end: `badModes` and `badCounts` are how often it asks again. -/
def transcript (badModes badCounts : List (BitVec 32)) (sorted : List (BitVec 32)) : List UInt8 :=
  Text.title.chars ++ Text.ascending.chars ++ Text.descending.chars ++ Text.line.chars ++ Text.yourMode.chars ++
    (badModes.flatMap fun _ => Text.tryAgain.chars) ++ Text.count.chars ++
    (badCounts.flatMap fun _ => Text.wrongCount.chars ++ Text.nEquals.chars) ++ Text.array.chars ++ prompts sorted.length ++
    Text.sorted.chars ++ listed sorted ++ Text.success.chars

/-- The program has printed the numbers in the order of the mode. -/
def Printed (said : List UInt8) (badModes badCounts elements : List (BitVec 32)) (mode : BitVec 32) (p : Process C Vars) : Prop :=
  ∃ sorted, sorted.Perm elements ∧ sorted.Pairwise (Ordered mode) ∧
    p.system.consoleOut = said ++ transcript badModes badCounts sorted

theorem main_ends {badModes badCounts elements : List (BitVec 32)} {mode n : BitVec 32} (hbadModes : ∀ m ∈ badModes, m ≠ 1 ∧ m ≠ 2)
    (hmode : mode = 1 ∨ mode = 2) (hbadCounts : ∀ m ∈ badCounts, m.toInt < 0 ∨ m.toInt > 100) (hn : n.toInt = elements.length)
    (h100 : elements.length ≤ 100)
    (h : Talks address rest said (badModes ++ mode :: (badCounts ++ n :: elements)) v p)
    (hQ : ∀ p', Printed said badModes badCounts elements mode p' → p'.system.typed = rest → Q.stopped .halted p') :
    (main address).Ends Q p := by
  refine ends_seq (h.assign _ rfl fun p h => ends_seq ?_)
  refine h.printString .title (Text.short _) fun p h => ends_seq ?_
  refine h.printString .ascending (Text.short _) fun p h => ends_seq ?_
  refine h.printString .descending (Text.short _) fun p h => ends_seq ?_
  refine h.printString .line (Text.short _) fun p h => ends_seq ?_
  refine h.printString .yourMode (Text.short _) fun p h => ends_seq ?_
  refine readMode_ends hmode hbadModes h fun p h => ends_seq ?_
  refine h.printString .count (Text.short _) fun p h => ends_seq ?_
  refine readCount_ends (by omega) hbadCounts h fun p h => ends_seq ?_
  refine h.printString .array (Text.short _) fun p h => ends_seq ?_
  rw [← List.append_nil elements] at h
  refine readArray_ends hn h100 h fun p i arr harr h => ends_seq ?_
  refine bubbleSort_ends hmode hn h100 h fun p i j temp h => ends_seq ?_
  refine h.printString .sorted (Text.short _) fun p h => ends_seq ?_
  refine printArray_ends hn h100 h fun p i h => ends_seq ?_
  refine h.printString .success (Text.short _) fun p h => ends_seq (h.halt fun p h =>
    hQ p ⟨prefixOf elements.length (passes (Ordered mode) elements.length arr elements.length), ?_, passes_pairwise, ?_⟩ h.typed)
  · have hperm := passes_perm (r := Ordered mode) (n := elements.length) (a := arr) elements.length
    rwa [harr] at hperm
  · rw [h.said]
    have hlength : (prefixOf elements.length (passes (Ordered mode) elements.length arr elements.length)).length = elements.length := by
      simp [prefixOf]
    unfold transcript
    rw [hlength]
    simp only [List.append_assoc]

/-- The user types a mode, a count and so many numbers, after any that are refused. Then the program halts, and has printed the numbers in
the order of the mode. -/
theorem sorts {badModes badCounts elements : List (BitVec 32)} {mode n : BitVec 32} (hbadModes : ∀ m ∈ badModes, m ≠ 1 ∧ m ≠ 2)
    (hmode : mode = 1 ∨ mode = 2) (hbadCounts : ∀ m ∈ badCounts, m.toInt < 0 ∨ m.toInt > 100) (hn : n.toInt = elements.length)
    (h100 : elements.length ≤ 100)
    (h : Talks address rest said (badModes ++ mode :: (badCounts ++ n :: elements)) v p) :
    ∃ rounds p', (main address).run rounds p = some (.stopped .halted p') ∧ Printed said badModes badCounts elements mode p' ∧
      p'.system.typed = rest := by
  obtain ⟨rounds, o, hrun, hpost⟩ := main_ends (Q := ⟨fun _ => False, fun _ => False, fun e p' =>
    e = .halted ∧ Printed said badModes badCounts elements mode p' ∧ p'.system.typed = rest⟩)
    hbadModes hmode hbadCounts hn h100 h fun p' hprinted htyped => ⟨rfl, hprinted, htyped⟩
  cases o with
  | next s => exact hpost.elim
  | left s => exact hpost.elim
  | stopped e p' =>
    obtain ⟨rfl, hprinted, htyped⟩ := hpost
    exact ⟨rounds, p', hrun, hprinted, htyped⟩

/-- Where the strings are in a small program. -/
def place (t : Text) : Nat := 128 * t.ctorIdx

/-- Its memory. -/
def memory : Bytes.Buf := fun a =>
  ([.title, .ascending, .descending, .line, .yourMode, .tryAgain, .count, .wrongCount, .nEquals, .array, .element, .bracket, .colon, .sorted,
    .comma, .success].getD (a / 128) Text.title).chars.getD (a % 128) 0

theorem memory_place (t : Text) {i : Nat} (hi : i < 128) : memory (place t + i) = t.chars.getD i 0 := by
  have hdiv : (128 * t.ctorIdx + i) / 128 = t.ctorIdx := by omega
  have hmod : (128 * t.ctorIdx + i) % 128 = i := by omega
  unfold memory place
  rw [hdiv, hmod]
  cases t <;> rfl

theorem stringAt_place (registers : Reg → BitVec 32) (t : Text) :
    (Machine.ofProgram registers memory).StringAt (BitVec.ofNat 32 (place t)) t.chars := by
  have hlength : t.chars.length < 128 := by cases t <;> decide
  have hplace : place t + 128 ≤ memorySize := by cases t <;> decide
  refine ⟨?_, ?_, ?_, ?_⟩
  · intro i hi
    rw [← BitVec.ofNat_add, Machine.ofProgram_physical _ _ (by omega)]
    rfl
  · intro i hi
    rw [Machine.ofProgram_userBytes _ _ (by omega), memory_place t (by omega)]
    simp [hi]
  · exact t.nonzero
  · rw [Machine.ofProgram_userBytes _ _ (by omega), memory_place t hlength]
    simp

/-- The program is started, and the user types these numbers. -/
def started (numbers : List (BitVec 32)) : Process (stub Name) Vars where
  system := { Stub.calling 0 0 0 0 memory with
    consoleIn := lines newline (numbers.map fun n => decimal n.toInt) (Stream'.const newline) }
  vars := { i := 0, j := 0, n := 0, temp := 0, mode := 0, arr := fun _ => 0 }
  fresh _ := .zero
  calls := 0

theorem talks_started (numbers : List (BitVec 32)) :
    Talks (fun t => BitVec.ofNat 32 (place t)) (Stream'.const newline) [] numbers (started numbers).vars (started numbers) where
  there := stringAt_place _
  said := rfl
  typed := rfl
  readsBack n _ _ := readsBack_zero n
  vars := rfl

/-- A wrong mode, the second mode, a wrong count, and two numbers. -/
theorem sorts_two : ∃ rounds p', (main fun t => BitVec.ofNat 32 (place t)).run rounds (started ([5] ++ 2 :: ([101] ++ 2 :: [-3, 7]))) =
    some (.stopped .halted p') ∧ Printed [] [5] [101] [-3, 7] 2 p' := by
  have hmodes : ∀ m ∈ ([5] : List (BitVec 32)), m ≠ 1 ∧ m ≠ 2 := List.forall_mem_singleton.2 (by decide)
  have hcounts : ∀ m ∈ ([101] : List (BitVec 32)), m.toInt < 0 ∨ m.toInt > 100 := List.forall_mem_singleton.2 (by decide)
  have hn : (2 : BitVec 32).toInt = ([-3, 7] : List (BitVec 32)).length := by decide
  obtain ⟨rounds, p', hrun, hprinted, -⟩ := sorts hmodes (.inr rfl) hcounts hn (by decide) (talks_started _)
  exact ⟨rounds, p', hrun, hprinted⟩

end BubbleSort

end Nachos
