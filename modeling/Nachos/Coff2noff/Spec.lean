import Nachos.Coff2noff.Main
import Nachos.Fault
import Nachos.Filesys.StubFile
import Nachos.Machine.Machine

/-!
# What coff2noff leaves

The raw data of every section that has some is in the NOFF file, at the place and of the size that the header says. The loop over the
sections appends to the file, so that what has been copied stays; the header is written in front of it.
-/

namespace Nachos

namespace Coff2noff

open Bytes Loop Posix

/-! ## Sections and segments -/

/-- The sections that have raw data. -/
inductive Kind where
  | text
  | data
  | rdata
  deriving DecidableEq

/-- The name of a section. -/
def Kind.name : Kind → String
  | .text => ".text"
  | .data => ".data"
  | .rdata => ".rdata"

/-- The segment for a section. -/
def segmentOf (h : NoffHeader) : Kind → Segment
  | .text => h.code
  | .data => h.initData
  | .rdata => h.readonlyData

/-- The header with another segment. -/
def setSegment (h : NoffHeader) (s : Segment) : Kind → NoffHeader
  | .text => { h with code := s }
  | .data => { h with initData := s }
  | .rdata => { h with readonlyData := s }

@[simp] theorem segmentOf_setSegment (h : NoffHeader) (s : Segment) (k k' : Kind) :
    segmentOf (setSegment h s k) k' = if k' = k then s else segmentOf h k' := by
  cases k <;> cases k' <;> rfl

/-- The size of the raw data. -/
def rawSize (h : NoffHeader) : Int := h.code.size + h.initData.size + h.readonlyData.size

theorem rawSize_setSegment (h : NoffHeader) (s : Segment) (k : Kind) :
    rawSize (setSegment h s k) = rawSize h - (segmentOf h k).size + s.size := by
  unfold rawSize
  cases k <;> simp only [setSegment, segmentOf] <;> omega

theorem setSegment_valid {h : NoffHeader} (hv : h.Valid) {s : Segment} (hs : s.Valid) (k : Kind) : (setSegment h s k).Valid := by
  cases k with
  | text => exact ⟨hv.noffMagic, hs, hv.initData, hv.readonlyData, hv.uninitData⟩
  | data => exact ⟨hv.noffMagic, hv.code, hs, hv.readonlyData, hv.uninitData⟩
  | rdata => exact ⟨hv.noffMagic, hv.code, hv.initData, hs, hv.uninitData⟩

/-- The second character tells the names apart. -/
theorem isNamed_second {s : Scnhdr} {name : String} (h : s.isNamed name = true) (hlen : 1 < (ascii name).length) :
    s.s_name 1 = (ascii name).getD 1 0 := by
  unfold Scnhdr.isNamed at h
  rw [Bool.and_eq_true, List.all_eq_true] at h
  exact eq_of_beq (h.1 1 (List.mem_range.2 hlen))

theorem Kind.unique {s : Scnhdr} {k k' : Kind} (h : s.isNamed k.name = true) (h' : s.isNamed k'.name = true) : k = k' := by
  have hk := (isNamed_second h (by cases k <;> decide)).symm.trans (isNamed_second h' (by cases k' <;> decide))
  revert hk
  cases k <;> cases k' <;> decide

theorem Kind.not_bss {s : Scnhdr} {k : Kind} (h : s.isNamed k.name = true) : s.isNamed ".bss" = false := by
  refine Bool.eq_false_iff.2 ?_
  intro h'
  have hk := (isNamed_second h (by cases k <;> decide)).symm.trans (isNamed_second h' (by decide))
  revert hk
  cases k <;> decide

/-! ## The two files -/

/-- The files of a run: their descriptors, what these are open on, and what does not change. -/
structure Opened where
  fdIn : Nat
  fdOut : Nat
  fileIn : Nat
  fileOut : Nat
  coff : File
  lookup : Name → Option Nat
  fd_ne : fdIn ≠ fdOut
  file_ne : fileIn ≠ fileOut

variable {Entry : Type} {h h' : Host Entry} {o : Opened} {noff : File} {posIn posOut : Nat}

/-- The host with the two files open at these positions. -/
structure Opened.At (o : Opened) (noff : File) (posIn posOut : Nat) (h : Host Entry) : Prop where
  input : h.descriptors o.fdIn = some ⟨o.fileIn, posIn⟩
  output : h.descriptors o.fdOut = some ⟨o.fileOut, posOut⟩
  coff : h.files o.fileIn = o.coff
  noff : h.files o.fileOut = noff
  lookup : h.lookup = o.lookup

/-- The input moves. -/
theorem Opened.At.movedIn (hat : o.At noff posIn posOut h) (offset : Nat) : o.At noff offset posOut (h.moved o.fdIn o.fileIn offset) :=
  ⟨Function.update_self _ _ _, (Function.update_of_ne o.fd_ne.symm _ _).trans hat.output, hat.coff, hat.noff, hat.lookup⟩

theorem Opened.At.movedOut (hat : o.At noff posIn posOut h) (offset : Nat) : o.At noff posIn offset (h.moved o.fdOut o.fileOut offset) :=
  ⟨(Function.update_of_ne o.fd_ne _ _).trans hat.input, Function.update_self _ _ _, hat.coff, hat.noff, hat.lookup⟩

theorem Opened.At.seekIn (hat : o.At noff posIn posOut h) {offset : Int} (h0 : 0 ≤ offset) (hmax : offset ≤ maxOffset) :
    o.At noff offset.toNat posOut (lseek h (some o.fdIn) offset) := by
  unfold lseek
  dsimp only
  rw [Host.lseek_set_of ⟨_, hat.input⟩ h0 hmax]
  exact hat.movedIn _

theorem Opened.At.seekOut (hat : o.At noff posIn posOut h) {offset : Int} (h0 : 0 ≤ offset) (hmax : offset ≤ maxOffset) :
    o.At noff posIn offset.toNat (lseek h (some o.fdOut) offset) := by
  unfold lseek
  dsimp only
  rw [Host.lseek_set_of ⟨_, hat.output⟩ h0 hmax]
  exact hat.movedOut _

/-- `Read` gives the bytes of the COFF file. -/
theorem Opened.At.read (hat : o.At noff posIn posOut h) {n : Int} (hn : 0 ≤ n) {buf : Buf} (hr : read h o.fdIn n = .ok (buf, h')) :
    buf = (fun j => o.coff.bytes (posIn + j)) ∧ o.At noff (posIn + n.toNat) posOut h' := by
  unfold Coff2noff.read at hr
  rw [Host.read_eq hat.input hn, hat.coff] at hr
  dsimp only at hr
  split at hr
  · cases hr
  · rename_i hcount
    rw [Decidable.not_not.1 hcount] at hr
    cases hr
    exact ⟨rfl, hat.movedIn _⟩

/-- `Write` appends to the NOFF file, or overwrites it. -/
theorem Opened.At.write (hat : o.At noff posIn posOut h) {n : Int} (hn : 0 < n) {src : Buf} (hw : write h (some o.fdOut) src n = .ok h') :
    o.At (noff.write posOut src n.toNat) posIn (posOut + n.toNat) h' := by
  unfold Coff2noff.write at hw
  dsimp only at hw
  rw [Host.write_eq hat.output src hn, hat.noff] at hw
  split at hw
  · dsimp only at hw
    rw [if_pos (by omega)] at hw
    cases hw
  · dsimp only at hw
    split at hw
    · cases hw
    · rename_i hcount
      rw [Decidable.not_not.1 hcount] at hw
      cases hw
      exact ⟨(Function.update_of_ne o.fd_ne _ _).trans hat.input, Function.update_self _ _ _,
        (Function.update_of_ne o.file_ne _ _).trans hat.coff, Function.update_self _ _ _, hat.lookup⟩

/-- The raw data of a section is appended. -/
theorem Opened.At.copyRaw (hat : o.At noff posIn posOut h) {s : Scnhdr} (hsize : 0 < s.s_size) (hptr : 0 ≤ s.s_scnptr)
    (hmax : s.s_scnptr ≤ maxOffset) (hc : copyRaw h o.fdIn (some o.fdOut) s = .ok h') :
    ∃ posIn', o.At (noff.write posOut (fun j => o.coff.bytes (s.s_scnptr.toNat + j)) s.s_size.toNat) posIn'
      (posOut + s.s_size.toNat) h' := by
  unfold Coff2noff.copyRaw at hc
  obtain ⟨⟨buffer, h₁⟩, hr, hw⟩ := of_bind_ok hc
  obtain ⟨rfl, hat₁⟩ := (hat.seekIn hptr hmax).read (by omega) hr
  exact ⟨_, hat₁.write hsize hw⟩

/-! ## The loop over the sections -/

/-- The raw data of a section is in the NOFF file, where a segment says and in front of a position. -/
structure Stored (coff noff : File) (pos : Int) (s : Scnhdr) (g : Segment) : Prop where
  virtualAddr : g.virtualAddr = s.s_paddr
  size : g.size = s.s_size
  size_pos : 0 < g.size
  start : noffHeaderSize ≤ g.inFileAddr
  before : g.inFileAddr + g.size ≤ pos
  inside : g.inFileAddr + g.size ≤ noff.size
  bytes : ∀ j < g.size.toNat, noff.bytes (g.inFileAddr.toNat + j) = coff.bytes (s.s_scnptr.toNat + j)

/-- Bytes that are not written over stay. -/
theorem Stored.write {coff : File} {pos : Int} {s : Scnhdr} {g : Segment} (hs : Stored coff noff pos s g) {offset : Nat} {n : Nat}
    (src : Buf) (hover : (offset + n : Int) ≤ noffHeaderSize ∨ pos ≤ offset) {pos' : Int} (hpos : pos ≤ pos') :
    Stored coff (noff.write offset src n) pos' s g := by
  have hstart := hs.start
  have hbefore := hs.before
  have hinside := hs.inside
  have hsize := hs.size_pos
  refine ⟨hs.virtualAddr, hs.size, hs.size_pos, hs.start, by omega, ?_, ?_⟩
  · unfold File.write
    dsimp only
    omega
  · intro j hj
    rw [← hs.bytes j hj]
    unfold File.write
    dsimp only
    rw [if_neg (by omega), if_pos (by omega)]

/-- Raw data that has been appended is there. -/
theorem Stored.appended (coff noff : File) {pos : Int} {s : Scnhdr} (hpos : noffHeaderSize ≤ pos) (hsize : 0 < s.s_size) :
    Stored coff (noff.write pos.toNat (fun j => coff.bytes (s.s_scnptr.toNat + j)) s.s_size.toNat) (pos + s.s_size) s (segment s pos) := by
  have hinside := File.le_write_size noff pos.toNat (fun j => coff.bytes (s.s_scnptr.toNat + j)) s.s_size.toNat
  refine ⟨rfl, rfl, hsize, hpos, le_refl _, ?_, fun j hj => File.write_bytes _ _ _ hj⟩
  dsimp only [segment]
  omega

/-- The number of sections of a COFF file. -/
def numsections (coff : File) : Nat := shortAt coff.bytes 2

/-- The section headers of a COFF file stand behind its file header and its `AOUTHDR`. -/
def sections (coff : File) (i : Nat) : Scnhdr := .ofBytes (fun j => coff.bytes (filehdrSize + aouthdrSize + j)) i

/-- A section counts if it is not empty. -/
def NonEmpty (coff : File) (i : Nat) : Prop := i < numsections coff ∧ (sections coff i).s_size ≠ 0

/-- What is asked of a COFF file: at most one section of each name, sections apart from each other in main memory, and raw data inside
the file. -/
structure WellPlaced (coff : File) : Prop where
  unique : ∀ i j, NonEmpty coff i → NonEmpty coff j → ∀ name ∈ [".text", ".data", ".rdata", ".bss"],
    (sections coff i).isNamed name = true → (sections coff j).isNamed name = true → i = j
  inMemory : ∀ i, NonEmpty coff i → 0 ≤ (sections coff i).s_paddr ∧ 0 ≤ (sections coff i).s_size ∧
    (sections coff i).s_paddr + (sections coff i).s_size ≤ memorySize
  apart : ∀ i j, NonEmpty coff i → NonEmpty coff j → i ≠ j →
    (sections coff i).s_paddr + (sections coff i).s_size ≤ (sections coff j).s_paddr ∨
      (sections coff j).s_paddr + (sections coff j).s_size ≤ (sections coff i).s_paddr
  raw : ∀ i, NonEmpty coff i → (sections coff i).isNamed ".bss" = false →
    0 ≤ (sections coff i).s_scnptr ∧ (sections coff i).s_scnptr + (sections coff i).s_size ≤ coff.size

/-- The header after the first `i` sections of a COFF file. -/
structure Described (coff noff : File) (pos : Int) (i : Nat) (h : NoffHeader) : Prop where
  noffMagic : h.noffMagic = noffMagicNumber
  valid : h.Valid
  absent : ∀ k : Kind, (∀ l < i, (sections coff l).s_size ≠ 0 → (sections coff l).isNamed k.name = false) → (segmentOf h k).size = 0
  present : ∀ (k : Kind) (l : Nat), l < i → (sections coff l).s_size ≠ 0 → (sections coff l).isNamed k.name = true →
    Stored coff noff pos (sections coff l) (segmentOf h k)
  known : ∀ l < i, (sections coff l).s_size ≠ 0 →
    (∃ k : Kind, (sections coff l).isNamed k.name = true) ∨ (sections coff l).isNamed ".bss" = true

/-- The state of the loop after the first `i` sections. -/
structure Converted (o : Opened) (i : Nat) (noff : File) (p : Progress Entry) : Prop extends
    Described o.coff noff p.inNoffFile i p.noffH where
  files : ∃ posIn, o.At noff posIn p.inNoffFile.toNat p.host
  position : p.inNoffFile = noffHeaderSize + rawSize p.noffH

theorem sections_inRange (coff : File) (i : Nat) : InRange (sections coff i).s_paddr ∧ InRange (sections coff i).s_size ∧
    InRange (sections coff i).s_scnptr := ⟨inRange_intAt _ _, inRange_intAt _ _, inRange_intAt _ _⟩

/-- No segment is larger than main memory. -/
theorem Described.size_le {coff : File} {pos : Int} {i : Nat} {hdr : NoffHeader} (hd : Described coff noff pos i hdr)
    (hw : WellPlaced coff) (hi : i ≤ numsections coff) (k : Kind) : 0 ≤ (segmentOf hdr k).size ∧ (segmentOf hdr k).size ≤ memorySize := by
  by_cases h : ∀ l < i, (sections coff l).s_size ≠ 0 → (sections coff l).isNamed k.name = false
  · rw [hd.absent k h]
    exact ⟨by decide, by decide⟩
  · push Not at h
    obtain ⟨l, hl, hsize, hname⟩ := h
    have hs := hd.present k l hl hsize (by simpa using hname)
    obtain ⟨h0, -, hmem⟩ := hw.inMemory l ⟨by omega, hsize⟩
    have := hs.size
    have := hs.size_pos
    omega

theorem Described.rawSize_le {coff : File} {pos : Int} {i : Nat} {hdr : NoffHeader} (hd : Described coff noff pos i hdr)
    (hw : WellPlaced coff) (hi : i ≤ numsections coff) : 0 ≤ rawSize hdr ∧ rawSize hdr ≤ 49152 := by
  have h₁ := hd.size_le hw hi .text
  have h₂ := hd.size_le hw hi .data
  have h₃ := hd.size_le hw hi .rdata
  have hmem : (memorySize : Int) = 16384 := rfl
  unfold rawSize
  simp only [segmentOf] at h₁ h₂ h₃
  omega

variable {i : Nat} {p p' : Progress Entry} {s : Scnhdr}

/-- A section with raw data is converted. -/
theorem copySection_converted (hw : WellPlaced o.coff) (hi : i < numsections o.coff) (hp : Converted o i noff p)
    (hs : sections o.coff i = s) (hne : s.s_size ≠ 0) {k : Kind} (hname : s.isNamed k.name = true)
    (hc : copySection p o.fdIn (some o.fdOut) s (setSegment p.noffH (segment s p.inNoffFile) k) = .ok p') :
    ∃ noff', Converted o (i + 1) noff' p' := by
  have hnonempty : NonEmpty o.coff i := ⟨hi, hs ▸ hne⟩
  obtain ⟨hpaddr, hsize0, hmem⟩ := hw.inMemory i hnonempty
  obtain ⟨hptr, hraw⟩ := hw.raw i hnonempty (Kind.not_bss (hs ▸ hname))
  obtain ⟨hrPaddr, hrSize, hrPtr⟩ := sections_inRange o.coff i
  rw [hs] at hpaddr hsize0 hmem hptr hraw hrPaddr hrSize hrPtr
  have hunique : ∀ l < i, (sections o.coff l).s_size ≠ 0 → (sections o.coff l).isNamed k.name = false := by
    refine fun l hl hsize => Bool.eq_false_iff.2 ?_
    intro hl'
    have := hw.unique l i ⟨by omega, hsize⟩ hnonempty k.name (by cases k <;> decide) hl' (hs ▸ hname)
    omega
  obtain ⟨hraw0, hrawle⟩ := hp.rawSize_le hw (by omega)
  have hposition := hp.position
  have hmemory : (memorySize : Int) = 16384 := rfl
  have hheader : (noffHeaderSize : Int) = 52 := rfl
  unfold copySection at hc
  obtain ⟨host, hcopy, hc⟩ := of_bind_ok hc
  cases hc
  obtain ⟨posIn, hat⟩ := hp.files
  obtain ⟨posIn', hat'⟩ := hat.copyRaw (by omega) hptr hrPtr.2 hcopy
  have hnext : int32 (p.inNoffFile + s.s_size) = p.inNoffFile + s.s_size := int32_of_inRange ⟨by omega, by omega⟩
  have hvalid : (segment s p.inNoffFile).Valid := ⟨hrPaddr, ⟨by dsimp only [segment]; omega, by dsimp only [segment]; omega⟩, hrSize⟩
  refine ⟨noff.write p.inNoffFile.toNat (fun j => o.coff.bytes (s.s_scnptr.toNat + j)) s.s_size.toNat,
    ⟨?_, setSegment_valid hp.valid hvalid k, ?_, ?_, ?_⟩, ⟨posIn', ?_⟩, ?_⟩
  · rw [← hp.noffMagic]
    cases k <;> rfl
  · intro k' hnone
    dsimp only
    rw [segmentOf_setSegment]
    split
    · rename_i hk
      subst hk
      have := hnone i (Nat.lt_succ_self i) (hs ▸ hne)
      rw [hs, hname] at this
      cases this
    · exact hp.absent k' fun l hl => hnone l (by omega)
  · intro k' l hl hsize hl'
    dsimp only
    rw [segmentOf_setSegment, hnext]
    rcases Nat.lt_succ_iff_lt_or_eq.1 hl with hlt | rfl
    · rw [if_neg (by rintro rfl; exact absurd hl' (by rw [hunique l hlt hsize]; decide))]
      exact (hp.present k' l hlt hsize hl').write _ (.inr (by omega)) (by omega)
    · rw [hs] at hl' ⊢
      rw [if_pos (Kind.unique hl' hname)]
      exact .appended _ _ (by omega) (by omega)
  · intro l hl hsize
    rcases Nat.lt_succ_iff_lt_or_eq.1 hl with hlt | rfl
    · exact hp.known l hlt hsize
    · exact .inl ⟨k, hs ▸ hname⟩
  · dsimp only
    rw [hnext, Int.toNat_add (by omega) (by omega)]
    exact hat'
  · dsimp only
    rw [hnext, rawSize_setSegment, hp.absent k hunique]
    dsimp only [segment]
    omega

/-- A section without raw data is converted. -/
theorem Converted.skip (hp : Converted o i noff p) (hs : sections o.coff i = s) (hbss : s.s_size ≠ 0 → s.isNamed ".bss" = true)
    {u : Segment} (hu : u.Valid) : Converted o (i + 1) noff { p with noffH := { p.noffH with uninitData := u } } := by
  have hsegment (k : Kind) : segmentOf { p.noffH with uninitData := u } k = segmentOf p.noffH k := by cases k <;> rfl
  refine ⟨⟨hp.noffMagic, ⟨hp.valid.noffMagic, hp.valid.code, hp.valid.initData, hp.valid.readonlyData, hu⟩, ?_,
    ?_, ?_⟩, hp.files, hp.position⟩
  · intro k hnone
    exact (congrArg Segment.size (hsegment k)).trans (hp.absent k fun l hl => hnone l (by omega))
  · intro k l hl hsize hname
    rcases Nat.lt_succ_iff_lt_or_eq.1 hl with hlt | rfl
    · rw [hsegment]
      exact hp.present k l hlt hsize hname
    · rw [hs] at hsize hname
      have := Kind.not_bss hname
      rw [hbss hsize] at this
      cases this
  · intro l hl hsize
    rcases Nat.lt_succ_iff_lt_or_eq.1 hl with hlt | rfl
    · exact hp.known l hlt hsize
    · rw [hs] at hsize ⊢
      exact .inr (hbss hsize)

/-- The sections of uninitialized data have no raw data. -/
theorem bssSection_converted (hp : Converted o i noff p) (hs : sections o.coff i = s) (hname : s.isNamed ".bss" = true)
    (hb : bssSection p s = .ok p') : Converted o (i + 1) noff p' := by
  obtain ⟨hpaddr, hsize, -⟩ := sections_inRange o.coff i
  rw [hs] at hpaddr hsize
  unfold bssSection at hb
  dsimp only at hb
  split at hb
  · split at hb
    · cases hb
    · cases hb
      exact hp.skip hs (fun _ => hname) ⟨hp.valid.uninitData.virtualAddr, hp.valid.uninitData.inFileAddr, inRange_int32 _⟩
  · cases hb
    exact hp.skip hs (fun _ => hname) ⟨hpaddr, hp.valid.uninitData.inFileAddr, hsize⟩

/-- One iteration of the loop. -/
theorem convertSection_converted (hw : WellPlaced o.coff) (hi : i < numsections o.coff) (hp : Converted o i noff p)
    (hs : sections o.coff i = s) (hc : convertSection o.fdIn (some o.fdOut) p s = .ok p') : ∃ noff', Converted o (i + 1) noff' p' := by
  unfold convertSection at hc
  by_cases hne : s.s_size = 0
  · rw [if_pos hne] at hc
    cases hc
    exact ⟨noff, hp.skip hs (fun h => absurd hne h) hp.valid.uninitData⟩
  rw [if_neg hne] at hc
  by_cases htext : s.isNamed ".text" = true
  · rw [if_pos htext] at hc
    exact copySection_converted hw hi hp hs hne (k := .text) htext hc
  rw [if_neg htext] at hc
  by_cases hdata : s.isNamed ".data" = true
  · rw [if_pos hdata] at hc
    exact copySection_converted hw hi hp hs hne (k := .data) hdata hc
  rw [if_neg hdata] at hc
  by_cases hrdata : s.isNamed ".rdata" = true
  · rw [if_pos hrdata] at hc
    exact copySection_converted hw hi hp hs hne (k := .rdata) hrdata hc
  rw [if_neg hrdata] at hc
  split at hc
  · rename_i hbss
    exact ⟨noff, bssSection_converted hp hs hbss hc⟩
  · cases hc

/-! ## The whole program -/

theorem initialHeader_described (coff noff : File) (pos : Int) (junk : Buf) : Described coff noff pos 0 (initialHeader junk) := by
  have hv := NoffHeader.ofBytes_valid junk
  have hsegment {g : Segment} (hg : g.Valid) : Segment.Valid { g with size := 0 } :=
    ⟨hg.virtualAddr, hg.inFileAddr, (by decide : InRange 0)⟩
  refine ⟨rfl, ⟨(by decide : InRange noffMagicNumber), hsegment hv.code, hsegment hv.initData, hsegment hv.readonlyData,
      hsegment hv.uninitData⟩,
    ?_, fun k l hl => absurd hl l.not_lt_zero, fun l hl => absurd hl l.not_lt_zero⟩
  intro k _
  cases k <;> rfl

/-- The header is written in front of the raw data. -/
theorem Described.writeHeader {coff : File} {pos : Int} {hdr : NoffHeader} (hd : Described coff noff pos i hdr) (src : Buf) :
    Described coff (noff.write 0 src noffHeaderSize) pos i hdr :=
  ⟨hd.noffMagic, hd.valid, hd.absent, fun k l hl hsize hname => (hd.present k l hl hsize hname).write src (.inl (by decide)) (le_refl _),
    hd.known⟩

/-- A NOFF file says what a COFF file says. -/
structure Translated (coff noff : File) (hdr : NoffHeader) : Prop where
  header : ∀ j < noffHeaderSize, noff.bytes j = hdr.bytes j
  size : noffHeaderSize ≤ noff.size
  described : ∃ pos, Described coff noff pos (numsections coff) hdr

/-- With both files open, `main` translates. -/
theorem convert_translated {junk : Buf} (hw : WellPlaced o.coff) (hat : o.At noff 0 0 h)
    (hc : convert h o.fdIn (some o.fdOut) junk = .ok h') :
    (∃ hdr, Translated o.coff (h'.files o.fileOut) hdr) ∧ h'.lookup = o.lookup := by
  unfold convert at hc
  obtain ⟨⟨fileh, h₁⟩, hr₁, hc⟩ := of_bind_ok hc
  obtain ⟨rfl, hat₁⟩ := hat.read (by decide) hr₁
  dsimp only at hc
  split at hc
  · cases hc
  obtain ⟨⟨systemh, h₂⟩, hr₂, hc⟩ := of_bind_ok hc
  obtain ⟨rfl, hat₂⟩ := hat₁.read (by decide) hr₂
  dsimp only at hc
  split at hc
  · cases hc
  obtain ⟨⟨b, h₃⟩, hr₃, hc⟩ := of_bind_ok hc
  obtain ⟨rfl, hat₃⟩ := hat₂.read (Int.natCast_nonneg _) hr₃
  obtain ⟨p, hloop, hc⟩ := of_bind_ok hc
  obtain ⟨h₄, hwrite, hc⟩ := of_bind_ok hc
  cases hc
  have hnum : shortAt (fun j => o.coff.bytes (0 + j)) 2 = numsections o.coff := by
    unfold numsections shortAt
    simp only [Nat.zero_add]
  rw [hnum] at hloop
  have hstart : (0 : Int) ≤ noffHeaderSize ∧ (noffHeaderSize : Int) ≤ maxOffset := by decide
  obtain ⟨noff', hp⟩ := forRange_of_ok (fun i p => ∃ noff, Converted o i noff p)
    ⟨noff, initialHeader_described _ _ _ _, ⟨_, hat₃.seekOut hstart.1 hstart.2⟩, rfl⟩
    (fun i hi p p' ⟨noff, hp⟩ hbody => convertSection_converted hw hi hp (by
      unfold sections
      simp only [Nat.zero_add, Int.toNat_natCast]) hbody) hloop
  obtain ⟨posIn, hat₄⟩ := hp.files
  have hat₅ := (hat₄.seekOut (le_refl 0) (by decide)).write (by decide) hwrite
  have hnoff : h₄.files o.fileOut = noff'.write 0 p.noffH.bytes noffHeaderSize := hat₅.noff
  refine ⟨⟨p.noffH, ?_⟩, hat₅.lookup⟩
  change Translated o.coff (h₄.files o.fileOut) p.noffH
  rw [hnoff]
  refine ⟨?_, ?_, _, hp.toDescribed.writeHeader _⟩
  · intro j hj
    have := File.write_bytes noff' 0 p.noffH.bytes hj
    rwa [Nat.zero_add] at this
  · have := File.le_write_size noff' 0 p.noffH.bytes noffHeaderSize
    omega

/-- Without an output, `main` fails. -/
theorem convert_none (h : Host Entry) (fdIn : Nat) (junk : Buf) (h' : Host Entry) : convert h fdIn none junk ≠ .ok h' := by
  intro hc
  unfold convert at hc
  obtain ⟨⟨_, _⟩, -, hc⟩ := of_bind_ok hc
  dsimp only at hc
  split at hc
  · cases hc
  obtain ⟨⟨_, _⟩, -, hc⟩ := of_bind_ok hc
  dsimp only at hc
  split at hc
  · cases hc
  obtain ⟨_, -, hc⟩ := of_bind_ok hc
  obtain ⟨_, -, hc⟩ := of_bind_ok hc
  obtain ⟨_, hwrite, -⟩ := of_bind_ok hc
  cases hwrite

/-- An input of size zero is not translated. -/
theorem convert_empty {fdIn file : Nat} {fdOut : Option Nat} (hd : h.descriptors fdIn = some ⟨file, 0⟩) (hsize : (h.files file).size = 0)
    (junk : Buf) (h' : Host Entry) : convert h fdIn fdOut junk ≠ .ok h' := by
  intro hc
  unfold convert at hc
  obtain ⟨_, hr, -⟩ := of_bind_ok hc
  unfold Coff2noff.read at hr
  rw [Host.read_eq hd (by decide)] at hr
  dsimp only at hr
  rw [if_pos (by unfold Host.readCount; rw [hsize]; decide)] at hr
  cases hr

variable [DecidableEq Entry]

/-- What `open` with `O_TRUNC` leaves. -/
theorem openTruncated_spec {h h' : Host Entry} {name : Name} {fd : Nat} (ho : h.openTruncated name = (some fd, h')) :
    fd = h.nextDescriptor ∧ ∃ file, h'.lookup name = some file ∧ h'.descriptors = Function.update h.descriptors fd (some ⟨file, 0⟩) ∧
      (h'.files file).size = 0 ∧ ∀ f ≠ file, h'.files f = h.files f := by
  unfold Host.openTruncated at ho
  cases hr : h.resolve name with
  | none =>
    rw [hr] at ho
    cases ho
  | some entry =>
    rw [hr] at ho
    dsimp only at ho
    cases he : h.entries entry with
    | none =>
      rw [he] at ho
      cases ho
      refine ⟨rfl, h.nextFile, ?_, rfl, ?_, fun f hf => Function.update_of_ne hf _ _⟩
      · unfold Host.lookup
        rw [hr]
        exact Function.update_self _ _ _
      · dsimp only [Host.describe]
        rw [Function.update_self]
    | some file =>
      rw [he] at ho
      cases ho
      refine ⟨rfl, file, ?_, rfl, ?_, fun f hf => Function.update_of_ne hf _ _⟩
      · unfold Host.lookup
        rw [hr]
        exact he
      · dsimp only [Host.describe]
        rw [Function.update_self]

/-- What `main` leaves under the name of the NOFF file says what the COFF file says. -/
theorem main_translated {h h' : Host Entry} {coffFileName noffFileName : Name} {junk : Buf} {fileIn : Nat}
    (hin : h.lookup coffFileName = some fileIn) (hw : WellPlaced (h.files fileIn))
    (hmain : main h coffFileName noffFileName junk = .ok h') :
    ∃ fileOut hdr, h'.lookup noffFileName = some fileOut ∧ Translated (h.files fileIn) (h'.files fileOut) hdr := by
  unfold main Host.openExisting at hmain
  rw [hin] at hmain
  change convert ((h.describe fileIn).2.openTruncated noffFileName).2 h.nextDescriptor
    ((h.describe fileIn).2.openTruncated noffFileName).1 junk = .ok h' at hmain
  generalize hopen : (h.describe fileIn).2.openTruncated noffFileName = r at hmain
  obtain ⟨fdOut, h₁⟩ := r
  dsimp only at hmain
  cases fdOut with
  | none => exact absurd hmain (convert_none _ _ _ _)
  | some fdOut =>
    obtain ⟨rfl, fileOut, hlookup, hdescriptors, hsize, hothers⟩ := openTruncated_spec hopen
    have hne : h.nextDescriptor ≠ (h.describe fileIn).2.nextDescriptor := Nat.ne_of_lt (Nat.lt_succ_self _)
    have hinput : h₁.descriptors h.nextDescriptor = some ⟨fileIn, 0⟩ := by
      rw [hdescriptors, Function.update_of_ne hne]
      exact Function.update_self _ _ _
    by_cases hfile : fileIn = fileOut
    · subst hfile
      exact absurd hmain (convert_empty hinput hsize _ _)
    let o : Opened := ⟨h.nextDescriptor, (h.describe fileIn).2.nextDescriptor, fileIn, fileOut, h.files fileIn, h₁.lookup, hne, hfile⟩
    have hat : o.At (h₁.files fileOut) 0 0 h₁ := by
      refine ⟨hinput, ?_, hothers fileIn hfile, rfl, rfl⟩
      rw [hdescriptors]
      exact Function.update_self _ _ _
    obtain ⟨⟨hdr, htranslated⟩, hlookup'⟩ := convert_translated hw hat hmain
    exact ⟨fileOut, hdr, (congrFun hlookup' noffFileName).trans hlookup, htranslated⟩

end Coff2noff

end Nachos
