import Nachos.Machine.Precise

/-!
# Where the bytes of user memory are (Translate of machine/translate.cc)

A byte of user memory is found through the translation, which the marks that accesses leave do not change. The translation itself:
which accesses it lets through, the address that it gives them, and the one entry that it marks.
-/

namespace Nachos

open Bytes Loop

/-- The entry allows the access, and its frame exists. -/
def TranslationEntry.Permits (entry : TranslationEntry) (writing : Bool) : Prop :=
  ¬(entry.readOnly = true ∧ writing = true) ∧ 0 ≤ entry.physicalPage.toInt ∧ entry.physicalPage.toInt < numPhysPages

namespace Machine

/-! ## Bytes of user memory -/

/-- The place in main memory of a byte of user memory, where the access raises no exception. -/
def physical (m : Machine) (virtAddr : BitVec 32) (writing : Bool) : Option Nat :=
  match m.translate virtAddr 1 writing with
  | .ok (.noException, physAddr, _) => some physAddr
  | _ => none

/-- The user memory from an address on, as far as it is mapped. -/
def userBytes (m : Machine) (virtAddr : BitVec 32) : Buf :=
  fun i => ((m.physical (virtAddr + BitVec.ofNat 32 i) false).map m.mainMemory).getD 0

theorem physical_eq_some {m : Machine} {virtAddr : BitVec 32} {writing : Bool} {p : Nat} :
    m.physical virtAddr writing = some p ↔ ∃ m', m.translate virtAddr 1 writing = .ok (.noException, p, m') := by
  unfold physical
  split
  · rename_i physAddr m' h
    rw [h]
    constructor
    · rintro ⟨⟩
      exact ⟨m', rfl⟩
    · rintro ⟨_, ⟨⟩⟩
      rfl
  · rename_i h
    constructor
    · rintro ⟨⟩
    · rintro ⟨m', hm⟩
      exact (h _ _ hm).elim

/-- With the same mapping, bytes are at the same places. -/
theorem SameMapping.physical_eq {m m' : Machine} (h : SameMapping m m') : m'.physical = m.physical := by
  have hto {m m' : Machine} (h : SameMapping m m') {virtAddr : BitVec 32} {writing : Bool} {p : Nat}
      (hp : m.physical virtAddr writing = some p) : m'.physical virtAddr writing = some p := by
    obtain ⟨m₁, h₁⟩ := physical_eq_some.1 hp
    exact physical_eq_some.2 (h.translate_same h₁)
  funext virtAddr writing
  refine Option.ext fun p => ⟨hto ⟨h.pageTableSize.symm, h.pageTable.symm, h.tlb.symm⟩, hto h⟩

theorem Touched.userBytes_eq {m m' : Machine} (h : Touched m m') (virtAddr : BitVec 32) :
    m'.userBytes virtAddr = m.userBytes virtAddr := by
  unfold userBytes
  rw [h.physical_eq, h.mainMemory]

/-- What a translation without an exception has found. -/
theorem translate_noException {m m' : Machine} {virtAddr : BitVec 32} {size : Nat} {writing : Bool} {p : Nat} :
    m.translate virtAddr size writing = .ok (.noException, p, m') ↔
      ¬(size = 4 ∧ virtAddr &&& 3 ≠ 0 ∨ size = 2 ∧ virtAddr &&& 1 ≠ 0) ∧ (m.tlb.isNone ∨ m.pageTable.isNone) ∧
        (m.tlb.isSome ∨ m.pageTable.isSome) ∧ ∃ slot entry, m.lookup (virtAddr / 128) = .ok (slot, entry) ∧
          (entry.readOnly && writing) = false ∧ ¬entry.physicalPage ≥ 128 ∧
          p = entry.physicalPage.toNat * pageSize + (virtAddr % 128).toNat ∧ p + size ≤ memorySize ∧ m' = m.touch slot writing := by
  constructor
  · intro h
    unfold translate at h
    split at h
    · cases h
    · rename_i haligned
      obtain ⟨_, hone, h⟩ := of_bind_ok h
      obtain ⟨_, htwo, h⟩ := of_bind_ok h
      have of_assert {c : Prop} [Decidable c] {u : Unit} (ha : assert c = .ok u) : c := by
        by_contra hc
        rw [assert_not hc] at ha
        cases ha
      refine ⟨haligned, of_assert hone, of_assert htwo, ?_⟩
      split at h
      · rename_i exception hl
        cases h
        exact absurd hl lookup_ne_noException
      · rename_i slot entry hl
        split at h
        · cases h
        · rename_i hread
          split at h
          · cases h
          · rename_i hframe
            obtain ⟨_, hsize, h⟩ := of_bind_ok h
            cases h
            exact ⟨slot, entry, hl, by simpa using hread, hframe, rfl, of_assert hsize, rfl⟩
  · rintro ⟨haligned, hone, htwo, slot, entry, hl, hread, hframe, rfl, hsize, rfl⟩
    unfold translate
    rw [if_neg haligned, assert_of hone, assert_of htwo, hl, ok_bind, ok_bind]
    dsimp only
    rw [if_neg (by rw [hread]; exact Bool.false_ne_true), if_neg hframe, assert_of hsize]
    rfl

/-- Bytes are in main memory. -/
theorem physical_lt {m : Machine} {virtAddr : BitVec 32} {writing : Bool} {p : Nat} (h : m.physical virtAddr writing = some p) :
    p < memorySize := by
  obtain ⟨m', ht⟩ := physical_eq_some.1 h
  obtain ⟨-, -, -, slot, entry, -, -, -, -, hsize, -⟩ := translate_noException.1 ht
  omega

/-- What can be written can be read. -/
theorem physical_of_writing {m : Machine} {virtAddr : BitVec 32} {p : Nat} (h : m.physical virtAddr true = some p) :
    m.physical virtAddr false = some p := by
  obtain ⟨m', ht⟩ := physical_eq_some.1 h
  obtain ⟨haligned, hone, htwo, slot, entry, hl, -, hframe, hp, hsize, -⟩ := translate_noException.1 ht
  exact physical_eq_some.2 ⟨_, translate_noException.2 ⟨haligned, hone, htwo, slot, entry, hl, Bool.and_false _, hframe, hp, hsize, rfl⟩⟩

/-- The translation of a byte fails only in an `ASSERT`. -/
theorem translate_error {m : Machine} {virtAddr : BitVec 32} {size : Nat} {writing : Bool} {f : Fault}
    (h : m.translate virtAddr size writing = .error f) : f = .assertFailed := by
  unfold translate at h
  split at h
  · cases h
  · unfold assert at h
    split at h
    · split at h
      · rw [ok_bind, ok_bind] at h
        split at h
        · cases h
        · dsimp only at h
          split at h
          · cases h
          · split at h
            · cases h
            · split at h
              · cases h
              · cases h
                rfl
      · cases h
        rfl
    · cases h
      rfl

/-! ## Exactness -/

/-- The sizes of accesses. -/
abbrev IsSize (size : Nat) : Prop := size = 1 ∨ size = 2 ∨ size = 4

/-- There is a page table or a TLB, and not both. -/
def OneScheme (m : Machine) : Prop := (m.tlb.isNone ∨ m.pageTable.isNone) ∧ (m.tlb.isSome ∨ m.pageTable.isSome)

instance (m : Machine) : Decidable m.OneScheme := inferInstanceAs (Decidable (_ ∧ _))

theorem SameMapping.oneScheme {m m' : Machine} (h : SameMapping m m') (hs : m.OneScheme) : m'.OneScheme := by
  have htlb : m'.tlb.isSome = m.tlb.isSome := by simpa [tlbMapping] using congrArg Option.isSome h.tlb
  have hpage : m'.pageTable.isSome = m.pageTable.isSome := by simpa [pageMapping] using congrArg Option.isSome h.pageTable
  unfold OneScheme at *
  rw [← Option.not_isSome, ← Option.not_isSome] at hs ⊢
  rwa [htlb, hpage]

/-- The entry for a virtual page: the one of a page in range, if it is valid, or the first valid one for the page in the TLB. -/
def HasEntry (m : Machine) (vpn : BitVec 32) (slot : Slot) (entry : TranslationEntry) : Prop :=
  match m.tlb with
  | none => ∃ pageTable, m.pageTable = some pageTable ∧ slot = .page vpn.toNat ∧ entry = pageTable vpn.toNat ∧
      vpn.toNat < m.pageTableSize.toNat ∧ entry.valid = true
  | some tlb => ∃ i, slot = .tlb i ∧ entry = tlb i ∧ entry.valid = true ∧ entry.virtualPage = vpn ∧
      ∀ j < i, ¬((tlb j).valid = true ∧ (tlb j).virtualPage = vpn)

theorem HasEntry.entryAt_eq {m : Machine} {vpn : BitVec 32} {slot : Slot} {entry : TranslationEntry} (h : m.HasEntry vpn slot entry) :
    m.entryAt slot = some entry := by
  unfold HasEntry at h
  split at h
  · obtain ⟨pageTable, hp, rfl, rfl, -⟩ := h
    simp [entryAt, hp]
  · rename_i tlb ht
    obtain ⟨i, rfl, rfl, -⟩ := h
    simp [entryAt, ht]

/-- The search finds the first index with a property. -/
theorem find?_finRange {n : Nat} {p : Fin n → Bool} {i : Fin n} :
    (List.finRange n).find? p = some i ↔ p i = true ∧ ∀ j < i, p j = false := by
  rw [List.find?_eq_some_iff_getElem]
  refine and_congr_right fun _ => ⟨?_, fun h => ⟨i.val, by simp, by simp, fun j hj => ?_⟩⟩
  · rintro ⟨k, hk, rfl, hbefore⟩ j hj
    simpa using hbefore j.val (by simpa [Fin.lt_def] using hj)
  · simpa using h ⟨j, hj.trans i.isLt⟩ hj

theorem lookup_eq_ok {m : Machine} {vpn : BitVec 32} {slot : Slot} {entry : TranslationEntry} :
    m.lookup vpn = .ok (slot, entry) ↔ m.HasEntry vpn slot entry := by
  unfold lookup HasEntry
  cases m.tlb with
  | none =>
    cases m.pageTable with
    | none => simp
    | some pageTable =>
      simp only [ge_iff_le, BitVec.le_def]
      constructor
      · intro h
        split at h
        · cases h
        · split at h
          · cases h
          · rename_i hrange hvalid
            cases h
            exact ⟨pageTable, rfl, rfl, rfl, Nat.lt_of_not_le hrange, by simpa using hvalid⟩
      · rintro ⟨_, ⟨⟩, rfl, rfl, hrange, hvalid⟩
        rw [if_neg (Nat.not_le_of_lt hrange), if_neg (by simp [hvalid])]
  | some tlb =>
    dsimp only
    constructor
    · intro h
      split at h
      · rename_i i hfind
        cases h
        obtain ⟨hi, hfirst⟩ := find?_finRange.1 hfind
        simp only [Bool.and_eq_true, beq_iff_eq] at hi
        refine ⟨i, rfl, rfl, hi.1, hi.2, fun j hj => ?_⟩
        simpa using hfirst j hj
      · cases h
    · rintro ⟨i, rfl, rfl, hvalid, hpage, hfirst⟩
      have hfind : ((List.finRange tlbSize).find? fun i => (tlb i).valid && (tlb i).virtualPage == vpn) = some i :=
        find?_finRange.2 ⟨by simp [hvalid, hpage], fun j hj => by simpa using hfirst j hj⟩
      rw [hfind]

/-- The use bit of one entry, and its dirty bit on writes, have been set. -/
structure Marked (m : Machine) (slot : Slot) (writing : Bool) (m' : Machine) : Prop where
  entry : m'.entryAt slot = (m.entryAt slot).map fun e => { e with use := true, dirty := e.dirty || writing }
  others : ∀ slot' ≠ slot, m'.entryAt slot' = m.entryAt slot'
  registers : m'.registers = m.registers
  mainMemory : m'.mainMemory = m.mainMemory
  pageTableSize : m'.pageTableSize = m.pageTableSize

theorem touch_marked (m : Machine) (slot : Slot) (writing : Bool) : Marked m slot writing (m.touch slot writing) := by
  refine ⟨?_, ?_, ?_, ?_, ?_⟩
  · cases slot <;> simp [touch, entryAt, Function.comp_def]
  · intro slot' hne
    cases slot with
    | page vpn =>
      cases slot' with
      | page vpn' =>
        have hv : vpn' ≠ vpn := fun h => hne (congrArg Slot.page h)
        simp [touch, entryAt, Function.comp_def, Function.update_of_ne hv]
      | tlb j => rfl
    | tlb i =>
      cases slot' with
      | page vpn' => rfl
      | tlb j =>
        have hj : j ≠ i := fun h => hne (congrArg Slot.tlb h)
        simp [touch, entryAt, Function.comp_def, Function.update_of_ne hj]
  all_goals cases slot <;> rfl

theorem frame_lt {p : BitVec 32} : ¬p ≥ 128 ↔ 0 ≤ p.toInt ∧ p.toInt < numPhysPages := by
  have h := p.isLt
  rw [ge_iff_le, BitVec.le_def, BitVec.toInt_eq_toNat_cond]
  simp
  split <;> omega

/-- The alignment check is the one for multiples of the size. -/
theorem misaligned_iff {virtAddr : BitVec 32} {size : Nat} (hs : IsSize size) :
    (size = 4 ∧ virtAddr &&& 3 ≠ 0 ∨ size = 2 ∧ virtAddr &&& 1 ≠ 0) ↔ virtAddr.toNat % size ≠ 0 := by
  have h3 : virtAddr &&& 3#32 = 0#32 ↔ virtAddr.toNat % 4 = 0 := by
    rw [← BitVec.toNat_inj, BitVec.toNat_and]
    exact Eq.congr_left (Nat.and_two_pow_sub_one_eq_mod virtAddr.toNat 2)
  have h1 : virtAddr &&& 1#32 = 0#32 ↔ virtAddr.toNat % 2 = 0 := by
    rw [← BitVec.toNat_inj, BitVec.toNat_and]
    exact Eq.congr_left (Nat.and_two_pow_sub_one_eq_mod virtAddr.toNat 1)
  rcases hs with rfl | rfl | rfl <;> simp [h1, h3, Nat.mod_one]

/-- An aligned access stays inside its page. -/
theorem offset_add_le {virtAddr : BitVec 32} {size : Nat} (hs : IsSize size) (ha : virtAddr.toNat % size = 0) :
    (virtAddr % 128).toNat + size ≤ pageSize := by
  have hoffset : (virtAddr % 128).toNat = virtAddr.toNat % 128 := BitVec.toNat_umod
  rw [hoffset]
  rcases hs with rfl | rfl | rfl <;> simp <;> omega

/-- An access is let through if it is aligned and an entry permits it. -/
theorem translate_of_entry {m : Machine} (h : m.OneScheme) {virtAddr : BitVec 32} {size : Nat}
    (hs : IsSize size) {writing : Bool} (ha : virtAddr.toNat % size = 0) {slot : Slot} {entry : TranslationEntry}
    (he : m.HasEntry (virtAddr / 128) slot entry) (hp : entry.Permits writing) :
    entry.physicalPage.toNat * pageSize + (virtAddr % 128).toNat + size ≤ memorySize ∧
      m.translate virtAddr size writing =
        .ok (.noException, entry.physicalPage.toNat * pageSize + (virtAddr % 128).toNat, m.touch slot writing) := by
  have hoffset := offset_add_le hs ha
  have hframe : entry.physicalPage.toNat < 128 := by simpa [BitVec.le_def] using frame_lt.2 hp.2
  have hfits : entry.physicalPage.toNat * pageSize + (virtAddr % 128).toNat + size ≤ memorySize := by
    simp only [pageSize, memorySize, numPhysPages] at *
    omega
  refine ⟨hfits, translate_noException.2 ⟨?_, h.1, h.2, slot, entry, lookup_eq_ok.2 he, ?_, frame_lt.2 hp.2, rfl, hfits, rfl⟩⟩
  · rw [misaligned_iff hs]
    exact not_not_intro ha
  · simpa using hp.1

/-- The translation never stops the simulator. -/
theorem translate_total {m : Machine} (h : m.OneScheme) (virtAddr : BitVec 32) {size : Nat} (hs : IsSize size)
    (writing : Bool) : ∃ r, m.translate virtAddr size writing = .ok r := by
  cases ht : m.translate virtAddr size writing with
  | ok r => exact ⟨r, rfl⟩
  | error f =>
    exfalso
    unfold translate at ht
    split at ht
    · cases ht
    · rename_i ha
      rw [misaligned_iff hs, not_not] at ha
      have hoffset := offset_add_le hs ha
      rw [assert_of h.1, assert_of h.2, ok_bind, ok_bind] at ht
      split at ht
      · cases ht
      · split at ht
        · cases ht
        · split at ht
          · cases ht
          · rename_i entry _ _ hframe
            have hlt : entry.physicalPage.toNat < 128 := by simpa [BitVec.le_def] using hframe
            dsimp only at ht
            rw [assert_of (by simp only [pageSize, memorySize, numPhysPages] at *; omega)] at ht
            cases ht

/-- `Translate` is safe and exact: an access is let through exactly if it is aligned and the entry for its page permits it; the address
is then the one in the frame, the whole access is inside of main memory, and that entry is marked. Otherwise nothing is modified. -/
theorem translate_exact (m : Machine) (h : m.OneScheme) (virtAddr : BitVec 32) (size : Nat) (hs : IsSize size)
    (writing : Bool) :
    ∃ exception physAddr m', m.translate virtAddr size writing = .ok (exception, physAddr, m') ∧
      (exception = .noException ↔
        virtAddr.toNat % size = 0 ∧ ∃ slot entry, m.HasEntry (virtAddr / 128) slot entry ∧ entry.Permits writing) ∧
      (exception = .noException → ∀ slot entry, m.HasEntry (virtAddr / 128) slot entry →
        physAddr = entry.physicalPage.toNat * pageSize + virtAddr.toNat % pageSize ∧ physAddr + size ≤ memorySize ∧
          m.entryAt slot = some entry ∧ Marked m slot writing m') ∧
      (exception ≠ .noException → m' = m) := by
  obtain ⟨⟨exception, physAddr, m'⟩, ht⟩ := translate_total h virtAddr hs writing
  refine ⟨exception, physAddr, m', ht, ⟨?_, ?_⟩, ?_, ?_⟩
  · rintro rfl
    obtain ⟨ha, -, -, slot, entry, hl, hread, hframe, -⟩ := translate_noException.1 ht
    rw [misaligned_iff hs, not_not] at ha
    exact ⟨ha, slot, entry, lookup_eq_ok.1 hl, by simpa using hread, frame_lt.1 hframe⟩
  · rintro ⟨ha, slot, entry, he, hp⟩
    rw [(translate_of_entry h hs ha he hp).2] at ht
    cases ht
    rfl
  · rintro rfl slot entry he
    obtain ⟨-, -, -, slot', entry', hl, -, -, hphys, hfits, rfl⟩ := translate_noException.1 ht
    cases (lookup_eq_ok.2 he).symm.trans hl
    exact ⟨hphys, hfits, he.entryAt_eq, touch_marked m _ writing⟩
  · intro hne
    obtain ⟨hm, -⟩ | ⟨he, -⟩ := translate_cases ht
    · exact hm
    · exact absurd he hne

/-- A machine with a TLB, in which page 1 has an invalid entry and two valid ones. -/
def withTlb : Machine where
  registers _ := 0
  mainMemory _ := 0
  tlb := some fun i => ⟨1, .ofNat 32 (3 + i), i ≠ 0, false, false, false⟩
  pageTable := none
  pageTableSize := 0

/-- The first valid entry is used. -/
theorem translate_exact_withTlb : ∃ m', withTlb.translate 0x85 1 true = .ok (.noException, 4 * 128 + 5, m') ∧
    withTlb.entryAt (.tlb 1) = some ⟨1, 4, true, false, false, false⟩ ∧ m'.entryAt (.tlb 1) = some ⟨1, 4, true, false, true, true⟩ ∧
    m'.entryAt (.tlb 2) = withTlb.entryAt (.tlb 2) := by
  obtain ⟨exception, physAddr, m', ht, hiff, hdone, -⟩ := translate_exact withTlb (by decide) 0x85 1 (.inl rfl) true
  have he : withTlb.HasEntry (0x85 / 128) (.tlb 1) ⟨1, 4, true, false, false, false⟩ := ⟨1, rfl, rfl, rfl, rfl, by decide⟩
  obtain rfl := hiff.2 ⟨rfl, _, _, he, by decide, by decide, by decide⟩
  obtain ⟨rfl, -, hentry, hmarked⟩ := hdone rfl _ _ he
  refine ⟨m', ht, hentry, ?_, hmarked.others _ (by simp)⟩
  rw [hmarked.entry, hentry]
  rfl

end Machine

end Nachos
