import Nachos.Coff2noff.Spec

/-!
# Sections of uninitialized data (coff2noff/coff2noff.c)

The loop over the sections keeps one segment of uninitialized data, and the sections of it do nothing else. So the loop is the one that
passes over them, next to a loop that merges them into the segment.
-/

namespace Nachos

namespace Coff2noff

open Bytes Loop Posix

variable {Entry : Type}

/-! ## Merging -/

/-- A section of uninitialized data that is not empty. -/
def isBss (s : Scnhdr) : Bool := s.s_size ≠ 0 && s.isNamed ".bss"

/-- The segment of uninitialized data after one more section. -/
def merge (u : Segment) (s : Scnhdr) : Except Nat Segment :=
  if u.size ≠ 0 then
    if s.s_paddr = int32 (u.virtualAddr + u.size) then .error 1 else .ok { u with size := int32 (u.size + s.s_size) }
  else .ok { u with virtualAddr := s.s_paddr, size := s.s_size }

/-- The same for any section. -/
def mergeSection (u : Segment) (s : Scnhdr) : Except Nat Segment := if isBss s then merge u s else .ok u

/-- The sections of uninitialized data among the first `n`, in the order of their headers. -/
def bssUpTo (coff : File) (n : Nat) : List Scnhdr := ((List.range n).map (sections coff)).filter isBss

/-- The sections of uninitialized data of a COFF file. -/
def bssSections (coff : File) : List Scnhdr := bssUpTo coff (numsections coff)

theorem bssUpTo_succ (coff : File) (n : Nat) :
    bssUpTo coff (n + 1) = bssUpTo coff n ++ if isBss (sections coff n) then [sections coff n] else [] := by
  unfold bssUpTo
  rw [List.range_succ, List.map_append, List.filter_append, List.map_singleton, List.filter_cons, List.filter_nil]

/-- Merging the sections as they come is merging those of uninitialized data. -/
theorem forRange_mergeSection (coff : File) (n : Nat) (u : Segment) :
    forRange (fun i u => mergeSection u (sections coff i)) n u = (bssUpTo coff n).foldlM merge u := by
  induction n with
  | zero => rfl
  | succ n ih =>
    rw [forRange_succ, ih, bssUpTo_succ, List.foldlM_append]
    refine congrArg _ (funext fun u' => ?_)
    unfold mergeSection
    split
    · rw [List.foldlM_cons]
      exact (bind_pure _).symm
    · rfl

/-! ## The loop over the sections -/

/-- The same variables with another segment of uninitialized data. -/
def Progress.withBss (p : Progress Entry) (u : Segment) : Progress Entry := { p with noffH := { p.noffH with uninitData := u } }

/-- The body of the loop, with sections of uninitialized data passed over. -/
def convertOther (fdIn : Nat) (fdOut : Option Nat) (p : Progress Entry) (s : Scnhdr) : Except Nat (Progress Entry) :=
  if isBss s then .ok p else convertSection fdIn fdOut p s

theorem isBss_iff {s : Scnhdr} : isBss s = true ↔ s.s_size ≠ 0 ∧ s.isNamed ".bss" = true := by
  unfold isBss
  rw [Bool.and_eq_true, decide_eq_true_iff]

theorem Kind.not_named {s : Scnhdr} (h : s.isNamed ".bss" = true) (k : Kind) : ¬s.isNamed k.name = true := by
  intro hk
  rw [Kind.not_bss hk] at h
  cases h

/-- A section of uninitialized data is merged. -/
theorem convertSection_bss {s : Scnhdr} (h : isBss s = true) (fdIn : Nat) (fdOut : Option Nat) (p : Progress Entry) (u : Segment) :
    convertSection fdIn fdOut (p.withBss u) s = (merge u s).map p.withBss := by
  obtain ⟨hsize, hname⟩ := isBss_iff.1 h
  unfold convertSection
  have htext : ¬s.isNamed ".text" = true := Kind.not_named hname .text
  have hdata : ¬s.isNamed ".data" = true := Kind.not_named hname .data
  have hrdata : ¬s.isNamed ".rdata" = true := Kind.not_named hname .rdata
  rw [if_neg hsize, if_neg htext, if_neg hdata, if_neg hrdata, if_pos hname]
  unfold bssSection merge
  dsimp only [Progress.withBss]
  split
  · split <;> rfl
  · rfl

/-- Any other section leaves the segment alone. -/
theorem convertSection_other {s : Scnhdr} (h : ¬isBss s = true) (fdIn : Nat) (fdOut : Option Nat) (p : Progress Entry) (u : Segment) :
    convertSection fdIn fdOut (p.withBss u) s = (convertSection fdIn fdOut p s).map fun p => p.withBss u := by
  have hcopy (noffH : NoffHeader) : copySection (p.withBss u) fdIn fdOut s { noffH with uninitData := u } =
      (copySection p fdIn fdOut s noffH).map fun p => p.withBss u := by
    unfold copySection
    dsimp only [Progress.withBss]
    cases copyRaw p.host fdIn fdOut s <;> rfl
  rw [isBss_iff] at h
  unfold convertSection
  by_cases hsize : s.s_size = 0
  · rw [if_pos hsize, if_pos hsize]
    rfl
  · rw [if_neg hsize, if_neg hsize]
    split
    · exact hcopy { p.noffH with code := segment s p.inNoffFile }
    · split
      · exact hcopy { p.noffH with initData := segment s p.inNoffFile }
      · split
        · exact hcopy { p.noffH with readonlyData := segment s p.inNoffFile }
        · rw [if_neg fun hname => h ⟨hsize, hname⟩, if_neg fun hname => h ⟨hsize, hname⟩]
          rfl

/-- One iteration is one of the other loop, and a merge. -/
theorem convertSection_iff (fdIn : Nat) (fdOut : Option Nat) (p : Progress Entry) (u : Segment) (s : Scnhdr) (r : Progress Entry) :
    convertSection fdIn fdOut (p.withBss u) s = .ok r ↔
      ∃ p' u', convertOther fdIn fdOut p s = .ok p' ∧ mergeSection u s = .ok u' ∧ r = p'.withBss u' := by
  unfold convertOther mergeSection
  by_cases h : isBss s = true
  · rw [convertSection_bss h, if_pos h, if_pos h]
    constructor
    · intro hr
      obtain ⟨u', hu, rfl⟩ := of_map_ok hr
      exact ⟨p, u', rfl, hu, rfl⟩
    · rintro ⟨_, u', ⟨⟩, hu, rfl⟩
      rw [hu]
      rfl
  · rw [convertSection_other h, if_neg h, if_neg h]
    constructor
    · intro hr
      obtain ⟨p', hp, rfl⟩ := of_map_ok hr
      exact ⟨p', u, hp, rfl, rfl⟩
    · rintro ⟨p', _, hp, ⟨⟩, rfl⟩
      rw [hp]
      rfl

/-- `main` between the opening of the files and the end of the loop, with another body. -/
def sectionLoop (body : Nat → Option Nat → Progress Entry → Scnhdr → Except Nat (Progress Entry)) (h : Host Entry) (fdIn : Nat)
    (fdOut : Option Nat) (junk : Buf) : Except Nat (Progress Entry) := do
  let (fileh, h) ← read h fdIn filehdrSize
  if shortAt fileh 0 ≠ mipselMagic then .error 1
  else
    let (systemh, h) ← read h fdIn aouthdrSize
    if shortAt systemh 0 ≠ oMagic then .error 1
    else
      let numsections := shortAt fileh 2
      let (sections, h) ← read h fdIn (numsections * scnhdrSize : Nat)
      let p : Progress Entry :=
        { host := lseek h fdOut noffHeaderSize, noffH := initialHeader junk, inNoffFile := noffHeaderSize }
      forRange (fun i p => body fdIn fdOut p (Scnhdr.ofBytes sections i)) numsections p

/-- The end of `main`. -/
def writeHeader (fdIn : Nat) (fdOut : Option Nat) (p : Progress Entry) : Except Nat (Host Entry) := do
  let h := lseek p.host fdOut 0
  let h ← write h fdOut p.noffH.bytes noffHeaderSize
  return close (close h (some fdIn)) fdOut

theorem convert_eq (h : Host Entry) (fdIn : Nat) (fdOut : Option Nat) (junk : Buf) :
    convert h fdIn fdOut junk = sectionLoop convertSection h fdIn fdOut junk >>= writeHeader fdIn fdOut := by
  unfold convert sectionLoop
  cases read h fdIn filehdrSize with
  | error e => rfl
  | ok r =>
    obtain ⟨fileh, h₁⟩ := r
    rw [ok_bind, ok_bind]
    dsimp only
    split
    · rfl
    · cases read h₁ fdIn aouthdrSize with
      | error e => rfl
      | ok r =>
        obtain ⟨systemh, h₂⟩ := r
        rw [ok_bind, ok_bind]
        dsimp only
        split
        · rfl
        · cases read h₂ fdIn (shortAt fileh 2 * scnhdrSize : Nat) with
          | error e => rfl
          | ok r => rfl

/-- With both files open, the loop runs over the sections of the COFF file, or is not reached at all. -/
theorem sectionLoop_eq {o : Opened} {noff : File} {h : Host Entry} (hat : o.At noff 0 0 h) (junk : Buf) :
    (∃ e : Nat, ∀ body, sectionLoop body h o.fdIn (some o.fdOut) junk = .error e) ∨
      ∃ p : Progress Entry, p.noffH = initialHeader junk ∧ ∀ body, sectionLoop body h o.fdIn (some o.fdOut) junk =
        forRange (fun i p => body o.fdIn (some o.fdOut) p (sections o.coff i)) (numsections o.coff) p := by
  unfold sectionLoop
  cases hr₁ : read h o.fdIn filehdrSize with
  | error e => exact .inl ⟨e, fun _ => rfl⟩
  | ok r =>
    obtain ⟨fileh, h₁⟩ := r
    obtain ⟨rfl, hat₁⟩ := hat.read (by decide) hr₁
    simp only [ok_bind]
    split
    · exact .inl ⟨1, fun _ => rfl⟩
    · cases hr₂ : read h₁ o.fdIn aouthdrSize with
      | error e => exact .inl ⟨e, fun _ => rfl⟩
      | ok r =>
        obtain ⟨systemh, h₂⟩ := r
        obtain ⟨rfl, hat₂⟩ := hat₁.read (by decide) hr₂
        simp only [ok_bind]
        split
        · exact .inl ⟨1, fun _ => rfl⟩
        · have hnum : shortAt (fun j => o.coff.bytes (0 + j)) 2 = numsections o.coff := by
            unfold numsections shortAt
            simp only [Nat.zero_add]
          rw [hnum]
          cases hr₃ : read h₂ o.fdIn (numsections o.coff * scnhdrSize : Nat) with
          | error e => exact .inl ⟨e, fun _ => rfl⟩
          | ok r =>
            obtain ⟨b, h₃⟩ := r
            obtain ⟨rfl, -⟩ := hat₂.read (Int.natCast_nonneg _) hr₃
            refine .inr ⟨{ host := lseek h₃ (some o.fdOut) noffHeaderSize, noffH := initialHeader junk, inNoffFile := noffHeaderSize },
              rfl, fun body => ?_⟩
            simp only [ok_bind]
            unfold sections
            simp only [Nat.zero_add, Int.toNat_natCast]

/-- The loop is the one that passes over the sections of uninitialized data, next to the one that merges them. -/
theorem sectionLoop_iff {o : Opened} {noff : File} {h : Host Entry} (hat : o.At noff 0 0 h) (junk : Buf) (r : Progress Entry) :
    sectionLoop convertSection h o.fdIn (some o.fdOut) junk = .ok r ↔
      ∃ p u, sectionLoop convertOther h o.fdIn (some o.fdOut) junk = .ok p ∧
        (bssSections o.coff).foldlM merge (initialHeader junk).uninitData = .ok u ∧ r = p.withBss u := by
  obtain ⟨e, herror⟩ | ⟨p, hp, hloop⟩ := sectionLoop_eq hat junk
  · rw [herror, herror]
    constructor
    · rintro ⟨⟩
    · rintro ⟨_, _, ⟨⟩, -⟩
  · have hstart : p = p.withBss (initialHeader junk).uninitData := by
      unfold Progress.withBss
      rw [← hp]
    rw [hloop, hloop]
    unfold bssSections
    rw [← forRange_mergeSection]
    conv_lhs => rw [hstart]
    exact forRange_factor Progress.withBss (fun i _ p u r => convertSection_iff _ _ p u _ r) p _ r

end Coff2noff

end Nachos
