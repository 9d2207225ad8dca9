import Nachos.Prelude.Decimal
import Nachos.Userprog.LineSafety

/-!
# Numbers printed and read (threads/kernel.cc)

`EH_ReadNum` puts no zero behind the line, so that `strlen` finds the end of the number in what the memory held before.
-/

namespace Nachos

open Bytes Loop Input Decimal

/-! ## The loop over the characters -/

theorem decimal_eq (number : Int) :
    decimal number = if number < 0 then 45 :: Decimal.digits number.natAbs else Decimal.digits number.natAbs := by
  unfold decimal Decimal.digits
  dsimp only
  simp only [Int.natAbs_eq_zero]
  rfl

namespace System

variable {C : FileSystemClass}

theorem isDigit_iff {c : UInt8} : isDigit c = true ↔ ¬(c > 57 ∨ c < 48) := by
  unfold isDigit
  rw [decide_eq_true_iff, not_or, gt_iff_lt, UInt8.not_lt, UInt8.not_lt]
  exact and_comm

/-- A digit in front of the point. -/
theorem readNumStep_digit (n re : Int) {c : UInt8} (h : isDigit c = true) :
    readNumStep ⟨n, 0, re⟩ c = some ⟨n, 0, re * 10 + (c.toNat - 48)⟩ := by
  unfold readNumStep
  rw [if_neg (isDigit_iff.1 h), if_pos rfl]

/-- A character that is no digit: the first point, or the end. -/
theorem readNumStep_other (st : ReadNumState) {c : UInt8} (h : ¬isDigit c = true) :
    readNumStep st c = if c ≠ 46 ∨ st.countDot = 1 then none else some { st with countDot := st.countDot + 1 } :=
  if_pos (by rwa [isDigit_iff, not_not] at h)

/-- Digits in front of the point. -/
theorem foldlM_digits (n : Int) {ds : List UInt8} (h : ∀ c ∈ ds, isDigit c = true) (re : Int) :
    ds.foldlM readNumStep ⟨n, 0, re⟩ = some ⟨n, 0, append re ds⟩ := by
  induction ds generalizing re with
  | nil => rfl
  | cons c ds ih =>
    rw [List.foldlM_cons, readNumStep_digit n re (h c (List.mem_cons_self ..))]
    exact ih (fun d hd => h d (List.mem_cons_of_mem _ hd)) _

/-- The powers of 10, as far as they come up, are no digits even where they overflow. -/
theorem int32_pow {k : Nat} (h1 : 1 ≤ k) (h : k ≤ 20) : 9 < (int32 (10 ^ k)).natAbs := by
  have hall : ∀ k ∈ List.range' 1 20, 9 < ((10 ^ k : Int).bmod (2 ^ 32)).natAbs := by decide
  unfold int32
  exact hall k (List.mem_range'_1.2 ⟨h1, by omega⟩)

theorem int32_mul (x y : Int) : int32 (int32 x * y) = int32 (x * y) := by
  unfold int32
  exact Int.bmod_mul_bmod

/-- A digit behind the point adds nothing. -/
theorem readNumStep_fraction (re : Int) {k : Nat} (h : k < 20) {c : UInt8} (hc : isDigit c = true) :
    readNumStep ⟨int32 (10 ^ k), 1, re⟩ c = some ⟨int32 (10 ^ (k + 1)), 1, re⟩ := by
  have hrange := toNat_of_isDigit hc
  have hlarge := int32_pow (k := k + 1) (by omega) (by omega)
  have hzero : ((c.toNat : Int) - 48).tdiv (int32 (10 ^ (k + 1))) = 0 := by
    rw [← Int.natAbs_eq_zero, Int.natAbs_tdiv]
    exact Nat.div_eq_of_lt (by omega)
  unfold readNumStep
  rw [if_neg (isDigit_iff.1 hc), if_neg Nat.one_ne_zero]
  dsimp only
  rw [int32_mul, ← Int.pow_succ, hzero, Int.add_zero]

/-- Behind the point there can be digits only. -/
theorem foldlM_fraction (re : Int) {k : Nat} {fs : List UInt8} (h : k + fs.length ≤ 20) :
    fs.foldlM readNumStep ⟨int32 (10 ^ k), 1, re⟩ =
      if fs.all isDigit then some ⟨int32 (10 ^ (k + fs.length)), 1, re⟩ else none := by
  induction fs generalizing k with
  | nil => rfl
  | cons c fs ih =>
    rw [List.length_cons] at h ⊢
    rw [List.foldlM_cons, List.all_cons]
    by_cases hc : isDigit c = true
    · rw [readNumStep_fraction re (by omega) hc, hc, Bool.true_and, ← Nat.add_assoc, Nat.add_right_comm]
      exact ih (by omega)
    · rw [readNumStep_other _ hc, if_pos (.inr rfl), Bool.eq_false_iff.2 hc]
      rfl

/-- The characters go on a number: digits, and possibly a point with digits behind it. -/
def goesOn (w : List UInt8) : Bool :=
  match w.dropWhile isDigit with
  | [] => true
  | c :: fs => c = 46 && fs.all isDigit

/-- What the characters behind a number make of it. -/
theorem foldlM_goesOn (re : Int) {w : List UInt8} (h : w.length ≤ 20) :
    (w.foldlM readNumStep ⟨1, 0, re⟩).map ReadNumState.re =
      if goesOn w then some (append re (w.takeWhile isDigit)) else none := by
  have hdigits : ∀ c ∈ w.takeWhile isDigit, isDigit c = true := List.all_eq_true.1 List.all_takeWhile
  have hfold : w.foldlM readNumStep ⟨1, 0, re⟩ =
      (w.dropWhile isDigit).foldlM readNumStep ⟨1, 0, append re (w.takeWhile isDigit)⟩ := by
    conv_lhs => rw [← List.takeWhile_append_dropWhile (p := isDigit) (l := w), List.foldlM_append, foldlM_digits 1 hdigits]
    rfl
  have hlength : (w.dropWhile isDigit).length ≤ 20 := (List.dropWhile_sublist isDigit).length_le.trans h
  have hhead (c) (fs) (hw : w.dropWhile isDigit = c :: fs) : ¬isDigit c = true := by
    have hnot := List.head?_dropWhile_not isDigit w
    rw [hw] at hnot
    simpa using hnot
  rw [hfold]
  unfold goesOn
  cases hw : w.dropWhile isDigit with
  | nil => rfl
  | cons c fs =>
    rw [hw, List.length_cons] at hlength
    rw [List.foldlM_cons, readNumStep_other _ (hhead c fs hw)]
    dsimp only
    by_cases hc : c = 46
    · have hfraction := foldlM_fraction (append re (w.takeWhile isDigit)) (k := 0) (show 0 + fs.length ≤ 20 by omega)
      rw [if_neg (by simp [hc])]
      change Option.map _ (fs.foldlM readNumStep ⟨1, 1, append re (w.takeWhile isDigit)⟩) = _
      rw [show (1 : Int) = int32 (10 ^ 0) from (int32_of_inRange (by decide)).symm, hfraction, hc]
      by_cases hall : fs.all isDigit = true <;> simp [hall]
    · rw [if_pos (.inl hc)]
      simp [hc]

/-- The value of a line, from its characters behind the sign. -/
theorem readNumValue_eq {value : Name} {b : Bool} (h : value.head? = some 45 ↔ b = true) :
    readNumValue value = (((if b then value.tail else value).foldlM readNumStep ⟨1, 0, 0⟩).map ReadNumState.re).map
      fun re => if b then -re else re := by
  unfold readNumValue
  simp only [h]
  cases (if b then value.tail else value).foldlM readNumStep ⟨1, 0, 0⟩ <;> rfl

theorem digits_head (n : Nat) (w : List UInt8) : (Decimal.digits n ++ w).head? ≠ some 45 := by
  obtain ⟨c, ds, hds⟩ := List.exists_cons_of_ne_nil (digits_ne_nil n)
  rw [hds]
  intro hc
  have hdigit := isDigit_digits n c (hds ▸ List.mem_cons_self ..)
  rw [show c = 45 from Option.some.inj hc] at hdigit
  exact absurd hdigit (by decide)

/-- The value of a number with characters behind it. -/
theorem readNumValue_decimal (number : Int) {w : List UInt8} (h : w.length ≤ 20) :
    readNumValue (decimal number ++ w) =
      if goesOn w then
        some (if number < 0 then -append number.natAbs (w.takeWhile isDigit) else append number.natAbs (w.takeWhile isDigit))
      else none := by
  have hfold : ((Decimal.digits number.natAbs ++ w).foldlM readNumStep ⟨1, 0, 0⟩).map ReadNumState.re =
      if goesOn w then some (append number.natAbs (w.takeWhile isDigit)) else none := by
    rw [List.foldlM_append, foldlM_digits 1 (isDigit_digits _), append_digits]
    exact foldlM_goesOn _ h
  rw [decimal_eq]
  by_cases hneg : number < 0
  · rw [if_pos hneg, if_pos hneg, readNumValue_eq (b := true) (iff_of_true rfl rfl)]
    change Option.map _ (Option.map _ ((Decimal.digits number.natAbs ++ w).foldlM readNumStep ⟨1, 0, 0⟩)) = _
    rw [hfold]
    by_cases hgoes : goesOn w = true <;> simp [hgoes]
  · rw [if_neg hneg, if_neg hneg, readNumValue_eq (b := false) (iff_of_false (digits_head _ _) Bool.false_ne_true)]
    change Option.map _ (Option.map _ ((Decimal.digits number.natAbs ++ w).foldlM readNumStep ⟨1, 0, 0⟩)) = _
    rw [hfold]
    by_cases hgoes : goesOn w = true <;> simp [hgoes]

/-! ## When the number is the same -/

theorem intOfDouble_eq_iff {re : Int} {n : BitVec 32} :
    intOfDouble re = n ↔ InRange re ∧ re = n.toInt ∨ ¬InRange re ∧ n.toInt = -2147483648 := by
  unfold intOfDouble
  split
  · rename_i h
    have hof : (BitVec.ofInt 32 re).toInt = re :=
      BitVec.toInt_ofInt_eq_self (by decide) (by have := h.1; omega) (by have := h.2; omega)
    rw [← BitVec.toInt_inj, hof]
    simp [h]
  · rename_i h
    rw [← BitVec.toInt_inj, show (0x80000000 : BitVec 32).toInt = -2147483648 by decide]
    simp [h, eq_comm]

/-- The characters behind a number do not change what is read: there is no digit among those that go on the number, or the number is
0 and stays 0, or it is the least one, which stands for every number out of range. -/
def Kept (number : Int) (w : List UInt8) : Prop :=
  if goesOn w then
    w.takeWhile isDigit = [] ∨ number = -2147483648 ∨ number = 0 ∧ ∀ c ∈ w.takeWhile isDigit, c = 48
  else number = 0

instance (number : Int) (w : List UInt8) : Decidable (Kept number w) := inferInstanceAs (Decidable (ite _ _ _))

/-- Digits behind a number. -/
theorem append_kept {n : BitVec 32} {ds : List UInt8} (h : ∀ c ∈ ds, isDigit c = true) :
    intOfDouble (if n.toInt < 0 then -append n.toInt.natAbs ds else append n.toInt.natAbs ds) = n ↔
      ds = [] ∨ n.toInt = -2147483648 ∨ n.toInt = 0 ∧ ∀ c ∈ ds, c = 48 := by
  have hlt := BitVec.toInt_lt (x := n)
  have hle := BitVec.le_toInt n
  obtain ⟨hv, hzero⟩ := append_nonneg h
  rw [intOfDouble_eq_iff, ← hzero, append_eq]
  unfold InRange
  cases ds with
  | nil =>
    simp only [append, List.length_nil, List.foldl_nil, Int.pow_zero, Int.mul_one, Int.add_zero, true_or, iff_true]
    left
    split <;> omega
  | cons d ds =>
    -- one more digit makes the number at least 10 times as large
    have hten : (10 : Int) ≤ 10 ^ (d :: ds).length := by
      rw [List.length_cons, Int.pow_succ]
      have : (0 : Int) < 10 ^ ds.length := Int.pow_pos (by decide)
      omega
    have hlarge : (n.toInt.natAbs : Int) * 10 ≤ n.toInt.natAbs * 10 ^ (d :: ds).length :=
      Int.mul_le_mul_of_nonneg_left hten (by omega)
    have hnone : n.toInt.natAbs = 0 → (n.toInt.natAbs : Int) * 10 ^ (d :: ds).length = 0 := by
      intro h0
      rw [h0]
      exact Int.zero_mul _
    simp only [List.cons_ne_nil, false_or]
    generalize (n.toInt.natAbs : Int) * 10 ^ (d :: ds).length = q at hlarge hnone
    split <;> omega

/-- What is in register 2 after the characters of a number with others behind it have been read. -/
theorem readNumValue_kept {n : BitVec 32} {w : List UInt8} (h : w.length ≤ 20) :
    ((readNumValue (decimal n.toInt ++ w)).elim 0 intOfDouble = n) ↔ Kept n.toInt w := by
  rw [readNumValue_decimal _ h]
  unfold Kept
  split
  · exact append_kept (List.all_eq_true.1 List.all_takeWhile)
  · rw [← BitVec.toInt_inj]
    exact eq_comm

/-! ## The line buffer -/

/-- The bytes of the line buffer behind `k` characters, as the memory held them before. -/
def behind (junk : Buf) (k : Nat) : List UInt8 := slice junk k (20 - k)

/-- The string in the line buffer ends at the first zero behind the text, if there is one. -/
theorem string_put {junk : Buf} {text : List UInt8} {rest : Stream' UInt8} (htext : ∀ c ∈ text, c ≠ 0) (hk : text.length ≤ 20) :
    (KernelBuffer.put ⟨20, junk⟩ 0 (text ++ₛ rest) text.length).string =
      if 0 ∈ behind junk text.length then .ok (text ++ (behind junk text.length).takeWhile fun c => !decide (c = 0))
      else .error .outOfBounds := by
  have hlist : (List.range 20).map (KernelBuffer.put ⟨20, junk⟩ 0 (text ++ₛ rest) text.length).bytes =
      text ++ behind junk text.length := by
    refine List.ext_getElem (by simp [behind, length_slice, hk]) ?_
    intro i h₁ h₂
    rw [List.getElem_map, List.getElem_range]
    by_cases hi : i < text.length
    · have hput := KernelBuffer.put_inside ⟨20, junk⟩ 0 (text ++ₛ rest) hi
      rw [Nat.zero_add] at hput
      rw [List.getElem_append_left hi, hput, Stream'.get_append_left]
    · rw [List.getElem_append_right (by omega), KernelBuffer.put_outside _ _ _ (by omega)]
      unfold behind slice
      rw [List.getElem_map, List.getElem_range]
      exact congrArg junk (by omega)
  have hany : (text ++ behind junk text.length).any (fun c => decide (c = 0)) = true ↔ 0 ∈ behind junk text.length := by
    rw [List.any_eq_true]
    constructor
    · rintro ⟨c, hc, hzero⟩
      rw [decide_eq_true_iff] at hzero
      rcases List.mem_append.1 hc with hc | hc
      · exact absurd hzero (htext c hc)
      · exact hzero ▸ hc
    · exact fun h => ⟨0, List.mem_append_right _ h, rfl⟩
  have htake : (text ++ behind junk text.length).takeWhile (fun c => !decide (c = 0)) =
      text ++ (behind junk text.length).takeWhile fun c => !decide (c = 0) :=
    List.takeWhile_append_of_pos fun c hc => by simpa using htext c hc
  unfold KernelBuffer.string KernelBuffer.upTo
  rw [KernelBuffer.put_size]
  dsimp only
  rw [hlist, htake]
  exact if_congr hany rfl rfl

/-- The characters of a number are neither zero nor newline, and there are at most 11. -/
theorem decimal_text (n : BitVec 32) : (∀ c ∈ decimal n.toInt, c ≠ 0 ∧ c ≠ newline) ∧ (decimal n.toInt).length ≤ 11 := by
  have hlt := BitVec.toInt_lt (x := n)
  have hle := BitVec.le_toInt n
  have hdigits : ∀ c ∈ Decimal.digits n.toInt.natAbs, c ≠ 0 ∧ c ≠ newline := by
    intro c hc
    have hdigit := isDigit_digits _ c hc
    constructor <;>
    · rintro rfl
      exact absurd hdigit (by decide)
  have hlength : (Decimal.digits n.toInt.natAbs).length ≤ 10 := length_digits_le (by decide) (by omega)
  rw [decimal_eq]
  split
  · exact ⟨List.forall_mem_cons.2 ⟨by decide, hdigits⟩, by rw [List.length_cons]; omega⟩
  · exact ⟨hdigits, by omega⟩

/-- For every `int` and every previous contents of the line buffer: what `PrintNum` has printed is read back exactly if a zero is behind
the characters in the buffer, and what is in front of this zero changes nothing. -/
theorem reads_printed_iff {p s : System C} {n : BitVec 32} {text : List UInt8} {rest : Stream' UInt8} {fresh : Fresh}
    (hp : (p.printNum n).consoleOut = p.consoleOut ++ text) (hr : s.readRegister 2 = SyscallCode.readNum.number)
    (ht : s.typed = text ++ₛ rest.cons newline) :
    (∃ s', s.exceptionHandler .syscallException fresh = .ok s' ∧ s'.readRegister 2 = n) ↔
      0 ∈ behind (fresh.junk 0) text.length ∧
        Kept n.toInt ((behind (fresh.junk 0) text.length).takeWhile fun c => !decide (c = 0)) := by
  obtain rfl : decimal n.toInt = text := List.append_cancel_left hp
  obtain ⟨htext, hlength⟩ := decimal_text n
  have hfront : front endsNum 21 s.typed = (decimal n.toInt).length := by
    have hends : ∀ c ∈ decimal n.toInt, endsNum c = false := fun c hc => decide_eq_false (htext c hc).2
    rw [ht, front_line hends rfl]
    omega
  have hstring : (KernelBuffer.put ⟨20, fresh.junk 0⟩ 0 s.typed (decimal n.toInt).length).string = _ :=
    ht ▸ string_put (fun c hc => (htext c hc).1) (by omega)
  have hcall : s.readNum fresh =
      if 0 ∈ behind (fresh.junk 0) (decimal n.toInt).length then
        .ok ((s.dropped ((decimal n.toInt).length + 1)).writeRegister 2
          ((readNumValue (decimal n.toInt ++ (behind (fresh.junk 0) (decimal n.toInt).length).takeWhile fun c => !decide (c = 0))).elim 0
            intOfDouble))
      else .error .outOfBounds := by
    rw [readNum_eq, readNumLine_eq, hfront, if_pos (by omega), ok_bind]
    dsimp only
    rw [hstring]
    split
    · rw [ok_bind]
      cases readNumValue _ <;> rfl
    · rfl
  rw [exceptionHandler_of (show SyscallCode.readNum ∈ SyscallCode.cases by decide) hr]
  change (∃ s', (s.readNum fresh).map increasePC = .ok s' ∧ _) ↔ _
  have hw : ((behind (fresh.junk 0) (decimal n.toInt).length).takeWhile fun c => !decide (c = 0)).length ≤ 20 := by
    refine (List.takeWhile_sublist _).length_le.trans ?_
    unfold behind
    rw [length_slice]
    omega
  rw [hcall, ← readNumValue_kept hw]
  split
  · rename_i hzero
    constructor
    · rintro ⟨s', h, hn⟩
      cases h
      rw [increasePC_readRegister, writeRegister_readRegister] at hn
      exact ⟨hzero, hn⟩
    · rintro ⟨-, hn⟩
      refine ⟨_, rfl, ?_⟩
      rw [increasePC_readRegister, writeRegister_readRegister]
      exact hn
  · rename_i hzero
    refine iff_of_false ?_ fun h => hzero h.1
    rintro ⟨s', h, -⟩
    cases h

/-- A program that reads a number; the user types 5. -/
def readingFive : System (stub Name) :=
  { Stub.calling 46 0 0 0 (fun _ => 0) with consoleIn := [53] ++ₛ (Stream'.const newline).cons newline }

theorem readingFive_printed : (readingFive.printNum 5).consoleOut = readingFive.consoleOut ++ [53] := by
  change readingFive.consoleOut ++ decimal 5 = _
  rw [decimal_eq]
  simp [Decimal.digits, Decimal.digit]

/-- With a 7 behind the line, 57 is read. -/
theorem not_reads_printed : (calls (stub Name)).Reachable readingFive.fileSystem ∧
    (readingFive.printNum 5).consoleOut = readingFive.consoleOut ++ [53] ∧
    ∃ s', readingFive.exceptionHandler .syscallException { Fresh.zero with junk := fun _ j => if j = 1 then 55 else 0 } = .ok s' ∧
      s'.readRegister 2 = 57 ∧ s'.readRegister 2 ≠ 5 :=
  ⟨Stub.reachable_started, readingFive_printed, _, rfl, rfl, by decide⟩

/-- With zeros behind the line, 5 is read. -/
theorem reads_printed_five : ∃ s', readingFive.exceptionHandler .syscallException .zero = .ok s' ∧ s'.readRegister 2 = 5 :=
  (reads_printed_iff readingFive_printed rfl rfl).2 ⟨by decide, by decide⟩

end System

end Nachos
