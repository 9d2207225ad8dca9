import Nachos.Filesys.Real
import Nachos.Userprog.OpenTableSafety

/-!
# The names that the file calls copy

`Create`, `Open` and `Remove` copy the string of the user program with limits of their own, and a longer string is cut off.
-/

namespace Nachos

open Bytes Loop CString

namespace Machine

/-- The user memory holds a string, with its terminator. -/
structure StringAt (m : Machine) (virtAddr : BitVec 32) (str : Name) : Prop where
  mapped : ∀ i ≤ str.length, (m.physical (virtAddr + BitVec.ofNat 32 i) false).isSome
  bytes : ∀ (i : Nat) (hi : i < str.length), m.userBytes virtAddr i = str[i]
  nonzero : ∀ c ∈ str, c ≠ 0
  terminated : m.userBytes virtAddr str.length = 0

variable {m : Machine} {virtAddr : BitVec 32} {str : Name}

theorem StringAt.ne_zero (h : StringAt m virtAddr str) {i : Nat} (hi : i < str.length) : m.userBytes virtAddr i ≠ 0 := by
  rw [h.bytes i hi]
  exact h.nonzero _ (List.getElem_mem hi)

/-- The string can be copied. -/
theorem StringAt.readable (h : StringAt m virtAddr str) (n : Nat) : m.Readable virtAddr n := by
  intro j _ hall
  refine h.mapped j ?_
  by_contra hj
  exact hall str.length (by omega) h.terminated

/-- The first characters of the string. -/
theorem StringAt.slice_eq (h : StringAt m virtAddr str) (n : Nat) :
    slice (m.userBytes virtAddr) 0 (strnlen (m.userBytes virtAddr) n) = str.take n := by
  have hlength : strnlen (m.userBytes virtAddr) n = min n str.length := by
    rcases Nat.lt_or_ge str.length n with hlt | hge
    · rw [strnlen_eq hlt (fun j hj => h.ne_zero hj) h.terminated, Nat.min_eq_right hlt.le]
    · rw [strnlen_of_ne_zero fun j hj => h.ne_zero (by omega), Nat.min_eq_left hge]
  refine List.ext_getElem (by rw [length_slice, hlength, List.length_take]) ?_
  intro i h₁ h₂
  have hi : i < str.length := by
    rw [List.length_take] at h₂
    omega
  simp [slice, h.bytes i hi]

/-- A buffer that has been filled with the string. -/
theorem StringAt.string_eq (h : StringAt m virtAddr str) {buffer : KernelBuffer} {n : Nat} (hsize : buffer.size = n + 1)
    (hbytes : buffer.bytes = strncpy (fun _ => 0) (m.userBytes virtAddr) n) : buffer.string = .ok (str.take n) := by
  rw [KernelBuffer.string_of_strncpy hsize hbytes, h.slice_eq]

/-- A string at the beginning of memory. -/
theorem ofProgram_stringAt (registers : Reg → BitVec 32) {str : Name} (hstr : 0 ∉ str) (hlength : str.length < memorySize) :
    StringAt (ofProgram registers str.toBuf) 0 str where
  mapped i hi := by
    rw [show (0 : BitVec 32) = BitVec.ofNat 32 0 from rfl, ← BitVec.ofNat_add, Nat.zero_add,
      ofProgram_physical registers str.toBuf (by omega)]
    rfl
  bytes i hi := by
    rw [show (0 : BitVec 32) = BitVec.ofNat 32 0 from rfl, ofProgram_userBytes registers str.toBuf (by omega), Nat.zero_add]
    simp [Name.toBuf, hi]
  nonzero c hc h0 := hstr (h0 ▸ hc)
  terminated := by
    rw [show (0 : BitVec 32) = BitVec.ofNat 32 0 from rfl, ofProgram_userBytes registers str.toBuf (by omega), Nat.zero_add]
    simp [Name.toBuf]

end Machine

namespace System

open Machine

variable {C : FileSystemClass}

/-- The string at the address in register 4, of which at most `n` characters are copied. -/
def text (s : System C) (n : Nat) : Name :=
  slice (s.machine.userBytes (s.readRegister 4)) 0 (strnlen (s.machine.userBytes (s.readRegister 4)) n)

/-- The kernel copies a string exactly if its characters are mapped. -/
theorem copyName_ok_iff {s : System C} (fresh : Fresh) {limit : BitVec 32} (hlimit : ¬BadLimit limit) (hpos : 0 ≤ limit.toInt)
    {name : Name} :
    (∃ s₁, s.copyName fresh limit = .ok (name, s₁)) ↔
      s.machine.Readable (s.readRegister 4) limit.toInt.toNat ∧ name = s.text limit.toInt.toNat := by
  have hstring {buffer : KernelBuffer} {machine : Machine}
      (hcopy : s.machine.user2System (s.readRegister 4) limit (fresh.heap 0) = .ok (buffer, machine)) :
      buffer.string = .ok (s.text limit.toInt.toNat) := by
    obtain ⟨-, hsize, hbytes⟩ := (user2System_ends _ _ _ _).of_ok hcopy
    dsimp only at hsize hbytes
    exact KernelBuffer.string_of_strncpy (by omega) hbytes
  constructor
  · rintro ⟨s₁, h⟩
    obtain ⟨⟨buffer, machine⟩, hcopy, h⟩ := of_bind_ok h
    refine ⟨(user2System_ok_iff hlimit).1 ⟨_, hcopy⟩, ?_⟩
    dsimp only at h
    rw [hstring hcopy] at h
    cases h
    rfl
  · rintro ⟨hmapped, rfl⟩
    obtain ⟨⟨buffer, machine⟩, hcopy⟩ := user2System_returns hlimit hmapped (fresh.heap 0)
    unfold copyName
    rw [hcopy, ok_bind]
    dsimp only
    rw [hstring hcopy]
    exact ⟨_, rfl⟩

/-- The kernel copies the beginning of the string. -/
theorem copyName_of {s : System C} {str : Name} (h : StringAt s.machine (s.readRegister 4) str) (fresh : Fresh) {limit : BitVec 32}
    (hlimit : ¬BadLimit limit) (hpos : 0 ≤ limit.toInt) :
    ∃ s₁, s.copyName fresh limit = .ok (str.take limit.toInt.toNat, s₁) :=
  (copyName_ok_iff fresh hlimit hpos).2 ⟨h.readable _, (h.slice_eq _).symm⟩

/-- `Create`, `Open` and `Remove` see the same name in the same string exactly if it has at most 32 characters. -/
theorem names_agree {s s' s'' : System C} {str : Name} (h : StringAt s.machine (s.readRegister 4) str)
    (h' : StringAt s'.machine (s'.readRegister 4) str) (h'' : StringAt s''.machine (s''.readRegister 4) str)
    (fresh fresh' fresh'' : Fresh) :
    (∃ name s₁ s₁' s₁'', s.createName fresh = .ok (name, s₁) ∧ s'.openName fresh' = .ok (name, s₁') ∧
      s''.removeName fresh'' = .ok (name, s₁'')) ↔ str.length ≤ 32 := by
  have hlimit33 : ¬BadLimit (maxFileLength + 1) := by decide
  have hlimit32 : ¬BadLimit 32 := by decide
  obtain ⟨s₁, hcreate⟩ := copyName_of h fresh hlimit33 (by decide)
  obtain ⟨s₁', hopen⟩ := copyName_of h' fresh' hlimit32 (by decide)
  obtain ⟨s₁'', hremove⟩ := copyName_of h'' fresh'' hlimit32 (by decide)
  have h33 : (maxFileLength + 1 : BitVec 32).toInt.toNat = 33 := by decide
  have h32 : (32 : BitVec 32).toInt.toNat = 32 := by decide
  rw [h33] at hcreate
  rw [h32] at hopen hremove
  constructor
  · rintro ⟨name, t, t', t'', hc, ho, -⟩
    have hname : name = str.take 33 := congrArg Prod.fst (Except.ok.inj (hc.symm.trans hcreate))
    have hname' : name = str.take 32 := congrArg Prod.fst (Except.ok.inj (ho.symm.trans hopen))
    have hlength := congrArg List.length (hname.symm.trans hname')
    simp only [List.length_take] at hlength
    omega
  · intro hle
    rw [List.take_of_length_le (by omega)] at hcreate hopen hremove
    exact ⟨str, s₁, s₁', s₁'', hcreate, hopen, hremove⟩

/-- A call with a name. -/
def withName (type : BitVec 32) (name : Name) : System (stub Name) := Stub.calling type 0 0 0 name.toBuf

theorem names_agree_short : ∃ name s₁ s₁' s₁'', (withName 4 (ascii "a")).createName .zero = .ok (name, s₁) ∧
    (withName 6 (ascii "a")).openName .zero = .ok (name, s₁') ∧ (withName 5 (ascii "a")).removeName .zero = .ok (name, s₁'') :=
  (names_agree (ofProgram_stringAt _ (by decide) (by decide)) (ofProgram_stringAt _ (by decide) (by decide))
    (ofProgram_stringAt _ (by decide) (by decide)) .zero .zero .zero).2 (by decide)

/-- A name of 33 characters: `Create` makes a file under the whole name, `Open` looks for its first 32 characters. -/
theorem names_disagree : ∃ str : Name, (∀ type, StringAt (withName type str).machine 0 str) ∧
    (∃ s₁, (withName 4 str).createName .zero = .ok (str, s₁)) ∧ ¬∃ s₁, (withName 6 str).openName .zero = .ok (str, s₁) := by
  have hstr : ∀ type, StringAt (withName type (List.replicate 33 97)).machine 0 (List.replicate 33 97) := fun type =>
    ofProgram_stringAt _ (by decide) (by decide)
  refine ⟨List.replicate 33 97, hstr, ?_, ?_⟩
  · exact copyName_of (s := withName 4 (List.replicate 33 97)) (hstr 4) .zero (show ¬BadLimit 33 by decide) (by decide)
  · rintro ⟨s₁, h⟩
    obtain ⟨s₂, h₂⟩ := copyName_of (s := withName 6 (List.replicate 33 97)) (hstr 6) .zero
      (show ¬BadLimit 32 by decide) (by decide)
    have heq : List.replicate 33 (97 : UInt8) = (List.replicate 33 97).take 32 := congrArg Prod.fst (Except.ok.inj (h.symm.trans h₂))
    exact absurd heq (by decide)

end System

end Nachos
