import Nachos.Coff2noff.Spec
import Nachos.Prelude.Outcome
import Nachos.Userprog.Load

/-!
# The program that is loaded is the one that was translated

`Load` copies the segments of the NOFF file over cleared memory. As the sections lie apart, what is then in main memory is the raw data of
the sections of the COFF file, and zeros.
-/

namespace Nachos

namespace AddrSpace

open Bytes Loop Posix Coff2noff

variable {Entry : Type}

/-! ## Load -/

/-- A segment that is not empty lies in the file and in main memory. -/
def Fits (noff : File) (s : Segment) : Prop :=
  0 < s.size → 0 ≤ s.inFileAddr ∧ s.inFileAddr ≤ maxOffset ∧ s.inFileAddr + s.size ≤ noff.size ∧ 0 ≤ s.virtualAddr ∧
    s.virtualAddr + s.size ≤ memorySize

/-- What loading a segment copies. -/
def patchOf (s : Segment) : Patch := ⟨s.inFileAddr.toNat, s.virtualAddr.toNat, s.size.toNat⟩

/-- A segment that fits is copied. -/
theorem loadSegment_of {f : Stub.OpenFile} {h : Host Entry} {file : Nat} {noff : File} {s : Segment} (ho : Host.Opened h f.file file)
    (hnoff : h.files file = noff) (hfits : Fits noff s) (mainMemory : Buf) :
    ∃ h', loadSegment f mainMemory h s = .ok (patch noff.bytes mainMemory [patchOf s], h') ∧ Host.Opened h' f.file file ∧
      h'.files file = noff := by
  unfold loadSegment
  split
  · rename_i hpos
    obtain ⟨hin, hmax, hsize, hvirt, hmem⟩ := hfits hpos
    refine ⟨h.moved f.file file (s.inFileAddr.toNat + s.size.toNat), ?_, Host.opened_moved _ _ _ _, hnoff⟩
    dsimp only
    rw [Stub.OpenFile.readAt_of ho _ (by omega) hin hmax (by rw [hnoff]; exact hsize), hnoff, ok_bind]
    dsimp only
    rw [if_pos ⟨hvirt, hmem⟩]
    congr 2
    funext p
    simp only [patch, List.foldl_cons, List.foldl_nil, patchOf, copy]
    by_cases hp : s.virtualAddr.toNat ≤ p
    · by_cases hlt : p < s.virtualAddr.toNat + s.size.toNat
      · rw [if_pos hp, if_pos (by omega), if_pos ⟨hp, hlt⟩, Nat.zero_add, Nat.sub_zero]
      · rw [if_pos hp, if_neg (by omega), if_neg (by omega), Nat.add_sub_cancel' hp]
    · rw [if_neg hp, if_neg (by omega)]
  · rename_i hpos
    refine ⟨h, ?_, ho, hnoff⟩
    have hzero : s.size.toNat = 0 := by omega
    simp only [patch, List.foldl_cons, List.foldl_nil, patchOf, hzero, copy_zero]

/-- A file with a good header is loaded unless it is too large. -/
theorem load_of {h : Host Entry} {name : Name} {file : Nat} {noff : File} {hdr : NoffHeader} (hname : h.lookup name = some file)
    (hnoff : h.files file = noff) (hbytes : ∀ j < noffHeaderSize, noff.bytes j = hdr.bytes j) (hsize : noffHeaderSize ≤ noff.size)
    (hvalid : hdr.Valid) (hmagic : hdr.noffMagic = noffMagicNumber) (hcode : Fits noff hdr.code) (hdata : Fits noff hdr.initData)
    (hrdata : Fits noff hdr.readonlyData) (mainMemory junk : Buf) :
    Ends (fun r => r.1 = some (pages hdr, patch noff.bytes mainMemory [patchOf hdr.code, patchOf hdr.initData, patchOf hdr.readonlyData]))
      (· = .assertFailed) (load h mainMemory name junk) := by
  have hheader : NoffHeader.ofBytes (copy (fun j => noff.bytes ((0 : Int).toNat + j)) 0 junk 0 (noffHeaderSize : Int).toNat) = hdr := by
    refine NoffHeader.ofBytes_bytes hvalid ?_
    intro j hj
    have := copy_inside (fun j => noff.bytes ((0 : Int).toNat + j)) junk 0 0 noffHeaderSize hj
    simp only [Int.toNat_zero, Int.toNat_natCast, Nat.zero_add] at this ⊢
    rw [this, hbytes j hj]
  have ho : Host.Opened (h.describe file).2 h.nextDescriptor file := ⟨0, Function.update_self _ _ _⟩
  unfold load Stub.open Host.openExisting
  rw [hname]
  change Ends _ _ ((Stub.OpenFile.new h.nextDescriptor).readAt (h.describe file).2 junk noffHeaderSize 0 >>= _)
  rw [Stub.OpenFile.readAt_of (f := .new h.nextDescriptor) ho junk (by decide) (by decide) (by decide)
    (by rw [show (h.describe file).2.files file = noff from hnoff]; omega), show (h.describe file).2.files file = noff from hnoff, ok_bind]
  dsimp only
  rw [hheader, assert_of hmagic, ok_bind]
  by_cases hpages : pages hdr ≤ numPhysPages
  · have ho₀ := Host.opened_moved (h.describe file).2 (Stub.OpenFile.new h.nextDescriptor).file file
      ((0 : Int).toNat + (noffHeaderSize : Int).toNat)
    obtain ⟨h₁, hload₁, ho₁, hnoff₁⟩ := loadSegment_of ho₀ hnoff hcode mainMemory
    obtain ⟨h₂, hload₂, ho₂, hnoff₂⟩ := loadSegment_of ho₁ hnoff₁ hdata (patch noff.bytes mainMemory [patchOf hdr.code])
    obtain ⟨h₃, hload₃, ⟨offset, ho₃⟩, -⟩ := loadSegment_of ho₂ hnoff₂ hrdata
      (patch noff.bytes (patch noff.bytes mainMemory [patchOf hdr.code]) [patchOf hdr.initData])
    have hclose : Stub.close h₃ (Stub.OpenFile.new h.nextDescriptor).file = .ok (h₃.close h.nextDescriptor).2 := by
      change h₃.descriptors h.nextDescriptor = _ at ho₃
      unfold Stub.close Host.close
      rw [show (Stub.OpenFile.new h.nextDescriptor).file = h.nextDescriptor from rfl, ho₃]
      rfl
    rw [assert_of hpages, ok_bind, hload₁, ok_bind, hload₂, ok_bind, hload₃, ok_bind, hclose]
    exact .ok rfl
  · rw [assert_not hpages]
    exact .error rfl

/-! ## The image -/

/-- Main memory holds the program of a COFF file. -/
structure Image (coff : File) (mainMemory : Buf) : Prop where
  raw : ∀ i, NonEmpty coff i → (sections coff i).isNamed ".bss" = false → ∀ j < (sections coff i).s_size.toNat,
    mainMemory ((sections coff i).s_paddr.toNat + j) = coff.bytes ((sections coff i).s_scnptr.toNat + j)
  zero : ∀ p < memorySize, (∀ (i : Nat) (k : Kind), NonEmpty coff i → (sections coff i).isNamed k.name = true →
    ¬((sections coff i).s_paddr ≤ p ∧ p < (sections coff i).s_paddr + (sections coff i).s_size)) → mainMemory p = 0
  bss : ∀ i, NonEmpty coff i → (sections coff i).isNamed ".bss" = true → ∀ j < (sections coff i).s_size.toNat,
    mainMemory ((sections coff i).s_paddr.toNat + j) = 0

variable {coff noff : File} {pos : Int} {hdr : NoffHeader}

/-- A segment is empty, or that of a section. -/
theorem segment_cases (hd : Described coff noff pos (numsections coff) hdr) (k : Kind) : (segmentOf hdr k).size = 0 ∨
    ∃ l, NonEmpty coff l ∧ (sections coff l).isNamed k.name = true ∧ Stored coff noff pos (sections coff l) (segmentOf hdr k) := by
  by_cases h : ∀ l < numsections coff, (sections coff l).s_size ≠ 0 → (sections coff l).isNamed k.name = false
  · exact .inl (hd.absent k h)
  · push Not at h
    obtain ⟨l, hl, hsize, hname⟩ := h
    have hname : (sections coff l).isNamed k.name = true := by simpa using hname
    exact .inr ⟨l, ⟨hl, hsize⟩, hname, hd.present k l hl hsize hname⟩

theorem segment_valid (hv : hdr.Valid) (k : Kind) : (segmentOf hdr k).Valid := by
  cases k with
  | text => exact hv.code
  | data => exact hv.initData
  | rdata => exact hv.readonlyData

theorem segment_fits (hw : WellPlaced coff) (hd : Described coff noff pos (numsections coff) hdr) (k : Kind) :
    Fits noff (segmentOf hdr k) := by
  intro hpos
  have hmax := (segment_valid hd.valid k).inFileAddr.2
  obtain hzero | ⟨l, hl, -, hs⟩ := segment_cases hd k
  · omega
  · obtain ⟨hpaddr, -, hmem⟩ := hw.inMemory l hl
    have hstart := hs.start
    rw [hs.virtualAddr, hs.size]
    rw [← hs.size] at hmem ⊢
    exact ⟨by omega, hmax, hs.inside, hpaddr, hmem⟩

/-- What a segment's patch covers is its section. -/
theorem covers_stored (hw : WellPlaced coff) {l : Nat} (hl : NonEmpty coff l) {g : Segment}
    (hs : Stored coff noff pos (sections coff l) g) (p : Nat) :
    (patchOf g).Covers p ↔ (sections coff l).s_paddr ≤ p ∧ p < (sections coff l).s_paddr + (sections coff l).s_size := by
  obtain ⟨hpaddr, hsize, -⟩ := hw.inMemory l hl
  unfold Patch.Covers patchOf
  dsimp only
  rw [hs.virtualAddr, hs.size]
  omega

theorem not_covers_empty {g : Segment} (h : g.size = 0) (p : Nat) : ¬(patchOf g).Covers p := by
  unfold Patch.Covers patchOf
  dsimp only
  omega

theorem segments_apart (hw : WellPlaced coff) (hd : Described coff noff pos (numsections coff) hdr) {k k' : Kind} (hk : k ≠ k') :
    (patchOf (segmentOf hdr k)).Apart (patchOf (segmentOf hdr k')) := by
  intro p hp hp'
  obtain hzero | ⟨l, hl, hname, hs⟩ := segment_cases hd k
  · exact not_covers_empty hzero p hp
  obtain hzero | ⟨l', hl', hname', hs'⟩ := segment_cases hd k'
  · exact not_covers_empty hzero p hp'
  have hp := (covers_stored hw hl hs p).1 hp
  have hp' := (covers_stored hw hl' hs' p).1 hp'
  have := hw.apart l l' hl hl' (by rintro rfl; exact hk (Kind.unique hname hname'))
  omega

/-- What is copied over cleared memory is the program. -/
theorem patch_image (hw : WellPlaced coff) (hd : Described coff noff pos (numsections coff) hdr) :
    Image coff (patch noff.bytes clearedMemory [patchOf hdr.code, patchOf hdr.initData, patchOf hdr.readonlyData]) := by
  change Image coff (patch noff.bytes clearedMemory ([.text, .data, .rdata].map fun k => patchOf (segmentOf hdr k)))
  have hzero : ∀ p : Nat, (∀ (i : Nat) (k : Kind), NonEmpty coff i → (sections coff i).isNamed k.name = true →
      ¬((sections coff i).s_paddr ≤ p ∧ p < (sections coff i).s_paddr + (sections coff i).s_size)) →
      patch noff.bytes clearedMemory ([.text, .data, .rdata].map fun k => patchOf (segmentOf hdr k)) p = 0 := by
    intro p hp
    refine patch_outside _ ?_ _
    intro q hq
    obtain ⟨k, -, rfl⟩ := List.mem_map.1 hq
    obtain hzero | ⟨l, hl, hname, hs⟩ := segment_cases hd k
    · exact not_covers_empty hzero p
    · exact fun hcovers => hp l k hl hname ((covers_stored hw hl hs p).1 hcovers)
  refine ⟨?_, fun p _ hp => hzero p hp, ?_⟩
  · intro i hi hbss j hj
    obtain ⟨k, hname⟩ := (hd.known i hi.1 hi.2).resolve_right (by rw [hbss]; decide)
    have hs := hd.present k i hi.1 hi.2 hname
    have hapart : ([.text, .data, .rdata].map fun k => patchOf (segmentOf hdr k)).Pairwise Patch.Apart :=
      List.Pairwise.map _ (fun _ _ => segments_apart hw hd) (by decide)
    have hmem : patchOf (segmentOf hdr k) ∈ [.text, .data, .rdata].map fun k => patchOf (segmentOf hdr k) :=
      List.mem_map_of_mem (by cases k <;> decide)
    rw [← hs.size] at hj
    have hcopied := patch_inside noff.bytes hapart hmem hj clearedMemory
    rw [← hs.bytes j hj, ← hs.virtualAddr]
    exact hcopied
  · intro i hi hbss j hj
    refine hzero _ ?_
    intro l k hl hname hin
    obtain ⟨hpaddr, -, -⟩ := hw.inMemory i hi
    have := hw.apart i l hi hl (by rintro rfl; rw [Kind.not_bss hname] at hbss; cases hbss)
    omega

/-- `coff2noff` and then `Load` bring the program of the COFF file to main memory. -/
theorem image_preserved {E : Type} [DecidableEq Entry] {h h' : Host Entry} {coffFileName noffFileName : Name} {junk : Buf}
    {fileIn : Nat} (hin : h.lookup coffFileName = some fileIn) (hw : WellPlaced (h.files fileIn))
    (hmain : main h coffFileName noffFileName junk = .ok h') :
    ∃ fileOut, h'.lookup noffFileName = some fileOut ∧ ∀ (g : Host E) (name : Name) (file : Nat) (junk : Buf),
      g.lookup name = some file → g.files file = h'.files fileOut →
        Ends (fun r => ∃ numPages mainMemory, r.1 = some (numPages, mainMemory) ∧ Image (h.files fileIn) mainMemory)
          (· = .assertFailed) (load g clearedMemory name junk) := by
  obtain ⟨fileOut, hdr, hlookup, htranslated⟩ := main_translated hin hw hmain
  obtain ⟨pos, hd⟩ := htranslated.described
  refine ⟨fileOut, hlookup, ?_⟩
  intro g name file junk hname hfile
  exact (load_of hname hfile htranslated.header htranslated.size hd.valid hd.noffMagic (segment_fits hw hd .text) (segment_fits hw hd .data)
    (segment_fits hw hd .rdata) clearedMemory junk).mono (fun _ hr => ⟨_, _, hr, patch_image hw hd⟩) fun _ he => he

/-- The section header of a small section, as memory. -/
def headerBytes (name : List UInt8) (paddr size scnptr : UInt8) : List UInt8 :=
  name ++ List.replicate (8 - name.length) 0 ++ [paddr, 0, 0, 0] ++ List.replicate 4 0 ++ [size, 0, 0, 0] ++ [scnptr, 0, 0, 0] ++
    List.replicate 16 0

/-- A COFF file with four bytes of code at 8 and eight bytes of uninitialized data at 128. -/
def smallCoff : File where
  size := 160
  bytes := fun j => ([0x62, 0x01, 2, 0] ++ List.replicate 16 0 ++ [0x07, 0x01] ++ List.replicate 54 0 ++
    headerBytes (ascii ".text") 8 4 156 ++ headerBytes (ascii ".bss") 128 8 0 ++ [1, 2, 3, 4]).getD j 0

/-- A host with that file. -/
def smallHost : Host Name :=
  { (Host.empty : Host Name) with
    entries := fun name => if name = ascii "a.coff" then some 0 else none
    files := fun _ => smallCoff
    nextFile := 1 }

theorem smallCoff_wellPlaced : WellPlaced smallCoff := by
  have hsections : (sections smallCoff 0).s_paddr = 8 ∧ (sections smallCoff 0).s_size = 4 ∧ (sections smallCoff 0).s_scnptr = 156 ∧
      (sections smallCoff 1).s_paddr = 128 ∧ (sections smallCoff 1).s_size = 8 := by decide +kernel
  obtain ⟨hp₀, hs₀, hptr₀, hp₁, hs₁⟩ := hsections
  have hcases : ∀ i, NonEmpty smallCoff i → i = 0 ∨ i = 1 := by
    rintro i ⟨hi, -⟩
    have : numsections smallCoff = 2 := by decide +kernel
    omega
  refine ⟨?_, ?_, ?_, ?_⟩
  · intro i j hi hj name hname hi' hj'
    have hapart : ∀ name ∈ [".text", ".data", ".rdata", ".bss"],
        ((sections smallCoff 0).isNamed name && (sections smallCoff 1).isNamed name) = false := by decide +kernel
    have := hapart name hname
    obtain rfl | rfl := hcases i hi <;> obtain rfl | rfl := hcases j hj <;> first | rfl | (rw [hi', hj'] at this; cases this)
  · intro i hi
    obtain rfl | rfl := hcases i hi
    · rw [hp₀, hs₀]
      decide
    · rw [hp₁, hs₁]
      decide
  · intro i j hi hj hne
    obtain rfl | rfl := hcases i hi <;> obtain rfl | rfl := hcases j hj <;> omega
  · intro i hi hbss
    obtain rfl | rfl := hcases i hi
    · rw [hptr₀, hs₀]
      decide
    · have : (sections smallCoff 1).isNamed ".bss" = true := by decide +kernel
      rw [hbss] at this
      cases this

/-- The code is loaded at 8. -/
theorem image_preserved_small : ∃ h' : Host Name, main smallHost (ascii "a.coff") (ascii "a.noff") (fun _ => 0) = .ok h' ∧
    Ends (fun r => ∃ numPages mainMemory, r.1 = some (numPages, mainMemory) ∧ Image smallCoff mainMemory) (· = .assertFailed)
      (load h' clearedMemory (ascii "a.noff") fun _ => 0) := by
  have hok : (main smallHost (ascii "a.coff") (ascii "a.noff") fun _ => 0).isOk = true := by decide +kernel
  cases hmain : main smallHost (ascii "a.coff") (ascii "a.noff") fun _ => 0 with
  | error e =>
    rw [hmain] at hok
    cases hok
  | ok h' =>
    obtain ⟨fileOut, hlookup, himage⟩ := image_preserved (E := Name)
      (show smallHost.lookup (ascii "a.coff") = some 0 by decide) smallCoff_wellPlaced hmain
    exact ⟨h', rfl, himage h' _ _ _ hlookup rfl⟩

end AddrSpace

end Nachos
