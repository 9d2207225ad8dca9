import Mathlib.Algebra.Order.BigOperators.Group.List
import Mathlib.Data.List.Chain
import Nachos.Coff2noff.Bss

/-!
# When uninitialized data are merged as they should be

The test of the merge is the wrong way round: it turns away a section that starts where the ones before it end, and takes any other. So
two contiguous sections are never translated, and others are as long as none of them happens to start there.
-/

namespace Nachos

namespace Coff2noff

open Bytes Loop Posix

variable {Entry : Type}

/-! ## Lists of sections -/

/-- Each section starts where the one before it ends. -/
def Contiguous (l : List Scnhdr) : Prop := l.IsChain fun s t => t.s_paddr = s.s_paddr + s.s_size

/-- The addresses of a segment are those of the sections. -/
def Covers (u : Segment) (l : List Scnhdr) : Prop :=
  ∀ a : Int, u.virtualAddr ≤ a ∧ a < u.virtualAddr + u.size ↔ ∃ s ∈ l, s.s_paddr ≤ a ∧ a < s.s_paddr + s.s_size

/-- Some section starts at the start of the first one plus the total size of those in front of it, both as `int`s. After a total of zero the
next section is a first one. -/
def Meets (start total : Int) : List Scnhdr → Prop
  | [] => False
  | s :: l =>
    if total = 0 then Meets s.s_paddr s.s_size l else s.s_paddr = int32 (start + total) ∨ Meets start (int32 (total + s.s_size)) l

instance Meets.decidable : (start total : Int) → (l : List Scnhdr) → Decidable (Meets start total l)
  | _, _, [] => inferInstanceAs (Decidable False)
  | start, total, s :: l =>
    have : Decidable (Meets s.s_paddr s.s_size l) := Meets.decidable _ _ l
    have : Decidable (Meets start (int32 (total + s.s_size)) l) := Meets.decidable _ _ l
    inferInstanceAs (Decidable (if total = 0 then _ else _ ∨ _))

/-- The merge fails exactly when a section meets the total of those in front of it. -/
theorem merge_error_iff (l : List Scnhdr) : ∀ u : Segment, (∃ e, l.foldlM merge u = .error e) ↔ Meets u.virtualAddr u.size l := by
  induction l with
  | nil =>
    intro u
    constructor
    · rintro ⟨e, ⟨⟩⟩
    · exact nofun
  | cons s l ih =>
    intro u
    rw [List.foldlM_cons, merge, Meets]
    by_cases hsize : u.size = 0
    · rw [if_neg (not_not.2 hsize), if_pos hsize, ok_bind]
      exact ih _
    · rw [if_pos hsize, if_neg hsize]
      by_cases hmeets : s.s_paddr = int32 (u.virtualAddr + u.size)
      · rw [if_pos hmeets]
        exact ⟨fun _ => .inl hmeets, fun _ => ⟨1, rfl⟩⟩
      · rw [if_neg hmeets, ok_bind, ih]
        exact ⟨.inr, fun h => h.resolve_left hmeets⟩

/-- While the total is zero there is no start. -/
theorem meets_zero (start start' : Int) (l : List Scnhdr) : Meets start 0 l ↔ Meets start' 0 l := by
  cases l with
  | nil => exact Iff.rfl
  | cons s l =>
    rw [Meets, Meets, if_pos rfl, if_pos rfl]

/-- In an ordinary file, in which no total is too large for an `int`, this is a matter of plain sums. -/
theorem meets_iff_of_positive (l : List Scnhdr) : ∀ {start total : Int}, 0 < total → (∀ s ∈ l, 0 < s.s_size) →
    total + (l.map Scnhdr.s_size).sum ≤ 2147483647 →
    (Meets start total l ↔
      ∃ l₁ s l₂, l = l₁ ++ s :: l₂ ∧ s.s_paddr = int32 (start + (total + (l₁.map Scnhdr.s_size).sum))) := by
  induction l with
  | nil =>
    intro start total _ _ _
    exact ⟨nofun, fun ⟨l₁, s, l₂, h, _⟩ => absurd h.symm (by simp)⟩
  | cons s l ih =>
    intro start total htotal hpositive hmax
    obtain ⟨hs, hl⟩ := List.forall_mem_cons.1 hpositive
    have hsum : 0 ≤ (l.map Scnhdr.s_size).sum := List.sum_nonneg fun x hx => by
      obtain ⟨t, ht, rfl⟩ := List.mem_map.1 hx
      exact Int.le_of_lt (hl t ht)
    rw [List.map_cons, List.sum_cons] at hmax
    unfold Meets
    rw [if_neg htotal.ne', int32_of_inRange (x := total + s.s_size) (by unfold InRange; omega), ih (by omega) hl (by omega)]
    constructor
    · rintro (hmeets | ⟨l₁, t, l₂, rfl, ht⟩)
      · refine ⟨[], s, l, rfl, ?_⟩
        rwa [List.map_nil, List.sum_nil, Int.add_zero]
      · refine ⟨s :: l₁, t, l₂, rfl, ?_⟩
        rwa [List.map_cons, List.sum_cons, ← Int.add_assoc total]
    · rintro ⟨l₁, t, l₂, hsplit, ht⟩
      cases l₁ with
      | nil =>
        cases hsplit
        rw [List.map_nil, List.sum_nil, Int.add_zero] at ht
        exact .inl ht
      | cons s' l₁ =>
        cases hsplit
        rw [List.map_cons, List.sum_cons, ← Int.add_assoc total] at ht
        exact .inr ⟨l₁, t, l₂, rfl, ht⟩

/-- At most one section is merged as it is. -/
theorem merge_single {l : List Scnhdr} (hl : l.length ≤ 1) {u : Segment} (hsize : u.size = 0) :
    Contiguous l ∧ ∃ u', l.foldlM merge u = .ok u' ∧ Covers u' l := by
  match l, hl with
  | [], _ =>
    refine ⟨List.IsChain.nil, u, rfl, fun a => ?_⟩
    rw [hsize]
    constructor
    · omega
    · rintro ⟨s, hs, -⟩
      cases hs
  | [s], _ =>
    refine ⟨List.IsChain.singleton s, { u with virtualAddr := s.s_paddr, size := s.s_size }, ?_, fun a => ?_⟩
    · rw [List.foldlM_cons]
      unfold merge
      rw [if_neg (not_not.2 hsize)]
      rfl
    · constructor
      · exact fun ha => ⟨s, List.mem_cons_self, ha⟩
      · rintro ⟨t, ht, ha⟩
        obtain rfl := List.mem_singleton.1 ht
        exact ha

/-- Contiguous sections meet: the second one starts where the first one ends. -/
theorem Contiguous.meets {l : List Scnhdr} (h : Contiguous l) (hlength : 1 < l.length) (hrange : ∀ s ∈ l, InRange s.s_paddr)
    (hsize : ∀ s ∈ l, s.s_size ≠ 0) (start : Int) : Meets start 0 l := by
  match l, hlength with
  | s :: t :: l, _ =>
    have hnext : t.s_paddr = s.s_paddr + s.s_size := (List.isChain_cons_cons.1 h).1
    have ht := hrange t (List.mem_cons_of_mem _ List.mem_cons_self)
    unfold Meets
    rw [if_pos rfl]
    unfold Meets
    rw [if_neg (hsize s List.mem_cons_self), ← hnext, int32_of_inRange ht]
    exact .inl rfl

theorem mem_bssSections {coff : File} {s : Scnhdr} (h : s ∈ bssSections coff) : InRange s.s_paddr ∧ s.s_size ≠ 0 := by
  obtain ⟨hmem, hbss⟩ := List.mem_filter.1 h
  obtain ⟨i, -, rfl⟩ := List.mem_map.1 hmem
  exact ⟨(sections_inRange coff i).1, (isBss_iff.1 hbss).1⟩

/-! ## The program -/

variable [DecidableEq Entry]

/-- The beginning of `main`: both files are opened. -/
def opened {α : Type} (h : Host Entry) (coffFileName noffFileName : Name) (body : Host Entry → Nat → Option Nat → Except Nat α) :
    Except Nat α :=
  match h.openExisting coffFileName with
  | (none, _) => .error 1
  | (some fdIn, h) =>
    let (fdOut, h) := h.openTruncated noffFileName
    body h fdIn fdOut

/-- `noffH` at the end of the loop. -/
def noffHeader (h : Host Entry) (coffFileName noffFileName : Name) (junk : Buf) : Except Nat NoffHeader :=
  (opened h coffFileName noffFileName fun h fdIn fdOut => sectionLoop convertSection h fdIn fdOut junk).map Progress.noffH

/-- Nothing but its sections of uninitialized data can stop the translation of a file: it succeeds when they are passed over. -/
def OtherwiseFine (h : Host Entry) (coffFileName noffFileName : Name) (junk : Buf) : Prop :=
  ∃ h', (opened h coffFileName noffFileName fun h fdIn fdOut =>
    sectionLoop convertOther h fdIn fdOut junk >>= writeHeader fdIn fdOut) = .ok h'

theorem main_eq (h : Host Entry) (coffFileName noffFileName : Name) (junk : Buf) : main h coffFileName noffFileName junk =
    opened h coffFileName noffFileName fun h fdIn fdOut => sectionLoop convertSection h fdIn fdOut junk >>= writeHeader fdIn fdOut := by
  unfold main opened
  generalize h.openExisting coffFileName = r
  obtain ⟨fdIn, h₁⟩ := r
  cases fdIn with
  | none => rfl
  | some fdIn => exact convert_eq _ _ _ _

omit [DecidableEq Entry] in
/-- How much is written does not depend on what is. -/
theorem write_ok_iff (h : Host Entry) (fd : Option Nat) (src src' : Buf) (n : Int) :
    (∃ h', write h fd src n = .ok h') ↔ ∃ h', write h fd src' n = .ok h' := by
  cases fd with
  | none => exact Iff.rfl
  | some fd =>
    have hcount : (h.write fd src n).1 = (h.write fd src' n).1 := by
      unfold Host.write
      cases h.descriptors fd with
      | none => rfl
      | some d =>
        dsimp only
        split
        · rfl
        · split
          · rfl
          · split <;> rfl
    unfold write
    dsimp only
    rw [hcount]
    by_cases h0 : (h.write fd src' n).1 ≠ n
    · rw [if_pos h0, if_pos h0]
    · rw [if_neg h0, if_neg h0]
      exact ⟨fun _ => ⟨_, rfl⟩, fun _ => ⟨_, rfl⟩⟩

omit [DecidableEq Entry] in
theorem writeHeader_withBss (fdIn : Nat) (fdOut : Option Nat) (p : Progress Entry) (u : Segment) :
    (∃ h', writeHeader fdIn fdOut (p.withBss u) = .ok h') ↔ ∃ h', writeHeader fdIn fdOut p = .ok h' := by
  have hbind (q : Progress Entry) : (∃ h', writeHeader fdIn fdOut q = .ok h') ↔
      ∃ h', write (lseek q.host fdOut 0) fdOut q.noffH.bytes noffHeaderSize = .ok h' := by
    unfold writeHeader
    constructor
    · rintro ⟨h', hw⟩
      obtain ⟨h₁, hw₁, -⟩ := of_bind_ok hw
      exact ⟨h₁, hw₁⟩
    · rintro ⟨h₁, hw₁⟩
      refine ⟨close (close h₁ (some fdIn)) fdOut, ?_⟩
      dsimp only
      rw [hw₁]
      rfl
  rw [hbind, hbind]
  exact write_ok_iff _ _ _ _ _

/-- Either both files are open, each for itself, or `main` fails whatever it does with sections. -/
theorem opened_cases {h : Host Entry} {coffFileName : Name} {fileIn : Nat} (hin : h.lookup coffFileName = some fileIn)
    (noffFileName : Name) (junk : Buf) :
    (∃ (o : Opened) (noff : File) (h₁ : Host Entry), o.coff = h.files fileIn ∧ o.At noff 0 0 h₁ ∧
      ∀ (α : Type) (body : Host Entry → Nat → Option Nat → Except Nat α),
        opened h coffFileName noffFileName body = body h₁ o.fdIn (some o.fdOut)) ∨
      ∀ body h', (opened h coffFileName noffFileName fun h fdIn fdOut =>
        sectionLoop body h fdIn fdOut junk >>= writeHeader fdIn fdOut) ≠ .ok h' := by
  generalize hopen : (h.describe fileIn).2.openTruncated noffFileName = r
  obtain ⟨fdOut, h₁⟩ := r
  have hstart (α : Type) (body : Host Entry → Nat → Option Nat → Except Nat α) :
      opened h coffFileName noffFileName body = body h₁ h.nextDescriptor fdOut := by
    unfold opened Host.openExisting
    rw [hin]
    change (let (fdOut, h₁) := (h.describe fileIn).2.openTruncated noffFileName
      body h₁ h.nextDescriptor fdOut) = _
    rw [hopen]
  cases fdOut with
  | none =>
    right
    intro body h' hmain
    rw [hstart] at hmain
    obtain ⟨p, -, hwrite⟩ := of_bind_ok hmain
    obtain ⟨_, hwrite, -⟩ := of_bind_ok hwrite
    cases hwrite
  | some fdOut =>
    obtain ⟨rfl, fileOut, hlookup, hdescriptors, hsize, hothers⟩ := openTruncated_spec hopen
    have hne : h.nextDescriptor ≠ (h.describe fileIn).2.nextDescriptor := Nat.ne_of_lt (Nat.lt_succ_self _)
    have hinput : h₁.descriptors h.nextDescriptor = some ⟨fileIn, 0⟩ := by
      rw [hdescriptors, Function.update_of_ne hne]
      exact Function.update_self _ _ _
    by_cases hfile : fileIn = fileOut
    · -- the input is the output, which has just been truncated
      right
      subst hfile
      intro body h' hmain
      rw [hstart] at hmain
      obtain ⟨p, hloop, -⟩ := of_bind_ok hmain
      unfold sectionLoop at hloop
      obtain ⟨_, hr, -⟩ := of_bind_ok hloop
      unfold Coff2noff.read at hr
      rw [Host.read_eq hinput (by decide)] at hr
      dsimp only at hr
      rw [if_pos (by unfold Host.readCount; rw [hsize]; decide)] at hr
      cases hr
    · left
      refine ⟨⟨h.nextDescriptor, (h.describe fileIn).2.nextDescriptor, fileIn, fileOut, h.files fileIn, h₁.lookup, hne, hfile⟩,
        h₁.files fileOut, h₁, rfl, ⟨hinput, ?_, hothers fileIn hfile, rfl, rfl⟩, hstart⟩
      rw [hdescriptors]
      exact Function.update_self _ _ _

variable {h : Host Entry} {coffFileName : Name} {fileIn : Nat}

/-- `main` succeeds exactly when nothing else stops it and the merge succeeds. -/
theorem main_ok_iff (hin : h.lookup coffFileName = some fileIn) (noffFileName : Name) (junk : Buf) :
    (∃ h', main h coffFileName noffFileName junk = .ok h') ↔ OtherwiseFine h coffFileName noffFileName junk ∧
      ∃ u, (bssSections (h.files fileIn)).foldlM merge (initialHeader junk).uninitData = .ok u := by
  unfold OtherwiseFine
  simp only [main_eq]
  obtain ⟨o, noff, h₁, hcoff, hat, hopened⟩ | hfails := opened_cases hin noffFileName junk
  · simp only [hopened]
    have hloop := sectionLoop_iff hat junk
    rw [hcoff] at hloop
    constructor
    · rintro ⟨h', hmain⟩
      obtain ⟨r, hr, hwrite⟩ := of_bind_ok hmain
      obtain ⟨p, u, hp, hu, rfl⟩ := (hloop r).1 hr
      obtain ⟨h'', hwrite'⟩ := (writeHeader_withBss _ _ p u).1 ⟨h', hwrite⟩
      refine ⟨⟨h'', ?_⟩, u, hu⟩
      rw [hp]
      exact hwrite'
    · rintro ⟨⟨h', hother⟩, u, hu⟩
      obtain ⟨p, hp, hwrite⟩ := of_bind_ok hother
      obtain ⟨h'', hwrite'⟩ := (writeHeader_withBss _ _ p u).2 ⟨h', hwrite⟩
      refine ⟨h'', ?_⟩
      rw [(hloop _).2 ⟨p, u, hp, hu, rfl⟩]
      exact hwrite'
  · constructor
    · rintro ⟨h', hmain⟩
      exact absurd hmain (hfails _ h')
    · rintro ⟨⟨h', hother⟩, -⟩
      exact absurd hother (hfails _ h')

/-- After a success `noffH` has the segment that the merge gives. -/
theorem noffHeader_of_main (hin : h.lookup coffFileName = some fileIn) {noffFileName : Name} {junk : Buf} {h' : Host Entry}
    (hmain : main h coffFileName noffFileName junk = .ok h') : ∃ noffH, noffHeader h coffFileName noffFileName junk = .ok noffH ∧
      (bssSections (h.files fileIn)).foldlM merge (initialHeader junk).uninitData = .ok noffH.uninitData := by
  unfold noffHeader
  rw [main_eq] at hmain
  obtain ⟨o, noff, h₁, hcoff, hat, hopened⟩ | hfails := opened_cases hin noffFileName junk
  · rw [hopened] at hmain ⊢
    obtain ⟨r, hr, -⟩ := of_bind_ok hmain
    obtain ⟨p, u, -, hu, rfl⟩ := (sectionLoop_iff hat junk r).1 hr
    rw [hcoff] at hu
    refine ⟨(p.withBss u).noffH, ?_, hu⟩
    rw [hr]
    rfl
  · exact absurd hmain (hfails _ h')

/-- What is asked of the merge: `main` succeeds only if the sections of uninitialized data are contiguous, and then the segment of them
covers them; and contiguous ones do not stop it. -/
def MergesBss (h : Host Entry) (coffFileName noffFileName : Name) (junk : Buf) (bss : List Scnhdr) : Prop :=
  (∀ h', main h coffFileName noffFileName junk = .ok h' → Contiguous bss ∧
    ∃ noffH, noffHeader h coffFileName noffFileName junk = .ok noffH ∧ Covers noffH.uninitData bss) ∧
  (Contiguous bss → OtherwiseFine h coffFileName noffFileName junk → ∃ h', main h coffFileName noffFileName junk = .ok h')

/-- The sections of uninitialized data of a file are merged as they should be exactly when something else stops the translation anyway, when
there is at most one of them, or when they are not contiguous and one of them starts where the total of those in front of it ends. -/
theorem mergesBss_iff (hin : h.lookup coffFileName = some fileIn) (noffFileName : Name) (junk : Buf) :
    MergesBss h coffFileName noffFileName junk (bssSections (h.files fileIn)) ↔
      ¬OtherwiseFine h coffFileName noffFileName junk ∨ (bssSections (h.files fileIn)).length ≤ 1 ∨
        ¬Contiguous (bssSections (h.files fileIn)) ∧ Meets 0 0 (bssSections (h.files fileIn)) := by
  have hmain := main_ok_iff hin noffFileName junk
  have hmem : ∀ s ∈ bssSections (h.files fileIn), InRange s.s_paddr ∧ s.s_size ≠ 0 := fun s hs => mem_bssSections hs
  unfold MergesBss
  by_cases hother : OtherwiseFine h coffFileName noffFileName junk
  · rw [or_iff_right (not_not.2 hother)]
    by_cases hlength : (bssSections (h.files fileIn)).length ≤ 1
    · -- a single section is taken as it is
      obtain ⟨hcontiguous, u, hu, hcovers⟩ := merge_single hlength (u := (initialHeader junk).uninitData) rfl
      refine ⟨fun _ => .inl hlength, fun _ => ⟨?_, fun _ _ => hmain.2 ⟨hother, u, hu⟩⟩⟩
      intro h' hok
      obtain ⟨noffH, hheader, hu'⟩ := noffHeader_of_main hin hok
      obtain rfl := Except.ok.inj (hu.symm.trans hu')
      exact ⟨hcontiguous, noffH, hheader, hcovers⟩
    · rw [or_iff_right hlength]
      have hmerge := merge_error_iff (bssSections (h.files fileIn)) (initialHeader junk).uninitData
      rw [show (initialHeader junk).uninitData.size = 0 from rfl, meets_zero _ 0] at hmerge
      have hfails (hmeets : Meets 0 0 (bssSections (h.files fileIn))) (h' : Host Entry) :
          main h coffFileName noffFileName junk ≠ .ok h' := by
        intro hok
        obtain ⟨-, u, hu⟩ := hmain.1 ⟨h', hok⟩
        obtain ⟨e, he⟩ := hmerge.2 hmeets
        cases he.symm.trans hu
      constructor
      · rintro ⟨honly, haccepts⟩
        have hnot : ¬Contiguous (bssSections (h.files fileIn)) := by
          intro hcontiguous
          obtain ⟨h', hok⟩ := haccepts hcontiguous hother
          exact hfails (hcontiguous.meets (by omega) (fun s hs => (hmem s hs).1) (fun s hs => (hmem s hs).2) 0) h' hok
        refine ⟨hnot, ?_⟩
        by_contra hmeets
        cases hu : (bssSections (h.files fileIn)).foldlM merge (initialHeader junk).uninitData with
        | error e => exact hmeets (hmerge.1 ⟨e, hu⟩)
        | ok u =>
          obtain ⟨h', hok⟩ := hmain.2 ⟨hother, u, hu⟩
          exact hnot (honly h' hok).1
      · rintro ⟨hnot, hmeets⟩
        exact ⟨fun h' hok => absurd hok (hfails hmeets h'), fun hcontiguous _ => absurd hcontiguous hnot⟩
  · refine ⟨fun _ => .inl hother, fun _ => ⟨fun h' hok => ?_, fun _ hfine => absurd hfine hother⟩⟩
    exact absurd (hmain.1 ⟨h', hok⟩).1 hother

/-! ## Two files -/

/-- A COFF file that has only sections of uninitialized data, with these addresses and sizes. -/
def bssFile (l : List (Int × Int)) : File :=
  let word (x : Int) : List UInt8 := (List.range 4).map (byteOf x)
  let section_ (s : Int × Int) : List UInt8 :=
    ascii ".bss" ++ List.replicate 4 0 ++ word s.1 ++ word s.1 ++ word s.2 ++ List.replicate 20 0
  let bytes : List UInt8 := [0x62, 0x01, UInt8.ofNat l.length, 0] ++ List.replicate 16 0 ++ [0x07, 0x01] ++ List.replicate 54 0 ++
    l.flatMap section_
  { size := bytes.length, bytes := fun j => bytes.getD j 0 }

/-- A host that has such a file. -/
def bssHost (l : List (Int × Int)) : Host Name :=
  { Host.empty with
    entries := fun name => if name = ascii "a.coff" then some 0 else none
    files := fun _ => bssFile l
    nextFile := 1 }

/-- Of three sections the second one is merged, and the third one, which starts where the total of the two ends, is turned away. -/
theorem mergesBss_three : MergesBss (bssHost [(1024, 128), (1100, 64), (1216, 8)]) (ascii "a.coff") (ascii "a.noff") (fun _ => 0)
    (bssSections (bssFile [(1024, 128), (1100, 64), (1216, 8)])) := by
  have hin : (bssHost [(1024, 128), (1100, 64), (1216, 8)]).lookup (ascii "a.coff") = some 0 := by decide +kernel
  have hcontiguous : ¬Contiguous (bssSections (bssFile [(1024, 128), (1100, 64), (1216, 8)])) := by
    unfold Contiguous
    decide +kernel
  exact (mergesBss_iff hin (ascii "a.noff") fun _ => 0).2 (.inr (.inr ⟨hcontiguous, by decide +kernel⟩))

/-- Two sections, the second of which starts where the first one ends, are turned away. -/
theorem contiguous_rejected : ¬MergesBss (bssHost [(1024, 128), (1152, 64)]) (ascii "a.coff") (ascii "a.noff") (fun _ => 0)
    (bssSections (bssFile [(1024, 128), (1152, 64)])) := by
  rintro ⟨-, haccepts⟩
  have hcontiguous : Contiguous (bssSections (bssFile [(1024, 128), (1152, 64)])) := by
    unfold Contiguous
    decide +kernel
  have hother : (opened (bssHost [(1024, 128), (1152, 64)]) (ascii "a.coff") (ascii "a.noff") fun h fdIn fdOut =>
      sectionLoop convertOther h fdIn fdOut (fun _ => 0) >>= writeHeader fdIn fdOut).isOk = true := by decide +kernel
  have hmain : (main (bssHost [(1024, 128), (1152, 64)]) (ascii "a.coff") (ascii "a.noff") fun _ => 0).isOk = false := by
    decide +kernel
  have hfine : OtherwiseFine (bssHost [(1024, 128), (1152, 64)]) (ascii "a.coff") (ascii "a.noff") fun _ => 0 := by
    unfold OtherwiseFine
    cases hrun : opened (bssHost [(1024, 128), (1152, 64)]) (ascii "a.coff") (ascii "a.noff") fun h fdIn fdOut =>
        sectionLoop convertOther h fdIn fdOut (fun _ => 0) >>= writeHeader fdIn fdOut with
    | error e =>
      rw [hrun] at hother
      cases hother
    | ok h' => exact ⟨h', rfl⟩
  obtain ⟨h', hok⟩ := haccepts hcontiguous hfine
  rw [hok] at hmain
  cases hmain

end Coff2noff

end Nachos
