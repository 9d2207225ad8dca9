import Mathlib.Data.List.GetD
import Nachos.Prelude.Bytes

/-!
# The Nachos object code format (noff.h, with `RDATA`)

The header is thirteen little-endian words.
-/

namespace Nachos

open Bytes

/-- `NOFFMAGIC`. -/
abbrev noffMagicNumber : Int := 0xbadfad

/-- `Segment`. -/
structure Segment where
  virtualAddr : Int
  inFileAddr : Int
  size : Int

/-- `NoffHeader`. -/
structure NoffHeader where
  noffMagic : Int
  code : Segment
  initData : Segment
  readonlyData : Segment
  uninitData : Segment

/-- `sizeof(NoffHeader)`. -/
abbrev noffHeaderSize : Nat := 52

namespace Segment

/-- The words of a segment. -/
def words (s : Segment) : List Int := [s.virtualAddr, s.inFileAddr, s.size]

/-- A segment in memory. -/
def ofBytes (b : Buf) (off : Nat) : Segment where
  virtualAddr := intAt b off
  inFileAddr := intAt b (off + 4)
  size := intAt b (off + 8)

/-- The fields are of type `int`. -/
structure Valid (s : Segment) : Prop where
  virtualAddr : InRange s.virtualAddr
  inFileAddr : InRange s.inFileAddr
  size : InRange s.size

theorem Valid.words {s : Segment} (hv : s.Valid) : ∀ x ∈ s.words, InRange x := by
  simp only [Segment.words, List.mem_cons, List.not_mem_nil, or_false]
  rintro x (rfl | rfl | rfl)
  · exact hv.virtualAddr
  · exact hv.inFileAddr
  · exact hv.size

theorem ofBytes_valid (b : Buf) (off : Nat) : (ofBytes b off).Valid := ⟨inRange_intAt _ _, inRange_intAt _ _, inRange_intAt _ _⟩

end Segment

namespace NoffHeader

/-- The words of a header. -/
def words (h : NoffHeader) : List Int := h.noffMagic :: (h.code.words ++ h.initData.words ++ h.readonlyData.words ++ h.uninitData.words)

/-- A header as memory. -/
def bytes (h : NoffHeader) : Buf := fun j => byteOf (h.words.getD (j / 4) 0) (j % 4)

/-- A header in memory. -/
def ofBytes (b : Buf) : NoffHeader where
  noffMagic := intAt b 0
  code := .ofBytes b 4
  initData := .ofBytes b 16
  readonlyData := .ofBytes b 28
  uninitData := .ofBytes b 40

/-- The fields are of type `int`. -/
structure Valid (h : NoffHeader) : Prop where
  noffMagic : InRange h.noffMagic
  code : h.code.Valid
  initData : h.initData.Valid
  readonlyData : h.readonlyData.Valid
  uninitData : h.uninitData.Valid

theorem Valid.words {h : NoffHeader} (hv : h.Valid) : ∀ x ∈ h.words, InRange x := by
  simp only [NoffHeader.words, List.mem_cons, List.mem_append]
  rintro x (rfl | ((hx | hx) | hx) | hx)
  · exact hv.noffMagic
  · exact hv.code.words x hx
  · exact hv.initData.words x hx
  · exact hv.readonlyData.words x hx
  · exact hv.uninitData.words x hx

theorem ofBytes_valid (b : Buf) : (ofBytes b).Valid :=
  ⟨inRange_intAt _ _, Segment.ofBytes_valid _ _, Segment.ofBytes_valid _ _, Segment.ofBytes_valid _ _, Segment.ofBytes_valid _ _⟩

/-- What has been written is read back. -/
theorem ofBytes_bytes {h : NoffHeader} (hv : h.Valid) {b : Buf} (hb : ∀ j < noffHeaderSize, b j = h.bytes j) : ofBytes b = h := by
  have hword (i : Nat) (hi : i < 13) : intAt b (4 * i) = h.words.getD i 0 := by
    refine intAt_of_bytes ?_ (hv.words _ ?_)
    · intro k hk
      rw [hb _ (show 4 * i + k < 52 by omega)]
      unfold bytes
      rw [show (4 * i + k) / 4 = i by omega, show (4 * i + k) % 4 = k by omega]
    · rw [List.getD_eq_getElem _ _ (by exact hi)]
      exact List.getElem_mem _
  obtain ⟨magic, ⟨ca, cf, cs⟩, ⟨ia, i_f, is⟩, ⟨ra, rf, rs⟩, ⟨ua, uf, us⟩⟩ := h
  unfold ofBytes Segment.ofBytes
  congr 1
  · exact hword 0 (by decide)
  · congr 1
    · exact hword 1 (by decide)
    · exact hword 2 (by decide)
    · exact hword 3 (by decide)
  · congr 1
    · exact hword 4 (by decide)
    · exact hword 5 (by decide)
    · exact hword 6 (by decide)
  · congr 1
    · exact hword 7 (by decide)
    · exact hword 8 (by decide)
    · exact hword 9 (by decide)
  · congr 1
    · exact hword 10 (by decide)
    · exact hword 11 (by decide)
    · exact hword 12 (by decide)

end NoffHeader

end Nachos
