import Nachos.Prelude.Lists
import Nachos.Userprog.LoadSafety

/-!
# Where Load stores (userprog/addrspace.cc)

The only check of `Load` is that the sizes of the segments, with the stack, are not too large. Where the segments go is up to the file;
here it is what the addresses in the file have to satisfy for everything to stay inside the address space.
-/

namespace Nachos

namespace AddrSpace

open Bytes Loop Posix

variable {Entry : Type}

/-! ## The stores -/

/-- The header that `Load` accepts, with the open file; nothing if the file cannot be opened. -/
def accept (h : Host Entry) (fileName : Name) (junk : Buf) : Except Fault (Option (NoffHeader × Stub.OpenFile × Host Entry)) :=
  match Stub.open h fileName with
  | (none, _) => .ok none
  | (some executable, h) => do
    let (_, header, h) ← executable.readAt h junk noffHeaderSize 0
    let noffH := NoffHeader.ofBytes header
    assert (noffH.noffMagic = noffMagicNumber)
    assert (pages noffH ≤ numPhysPages)
    return some (noffH, executable, h)

/-- The segments that are copied, in order. -/
def loaded (noffH : NoffHeader) : List Segment := [noffH.code, noffH.initData, noffH.readonlyData]

/-- What is stored for the segments, from which index on and how many bytes, until the end or a call that stops the simulator. -/
def stores (executable : Stub.OpenFile) : Host Entry → List Segment → List (Int × Int)
  | _, [] => []
  | h, s :: rest =>
    if s.size > 0 then
      match executable.readAt h (fun _ => 0) s.size s.inFileAddr with
      | .error _ => []
      | .ok (numRead, _, h) => (s.virtualAddr, numRead) :: stores executable h rest
    else stores executable h rest

/-- The rest of `Load`. -/
def loadSegments (executable : Stub.OpenFile) : Buf → Host Entry → List Segment → Except Fault (Buf × Host Entry)
  | mainMemory, h, [] => .ok (mainMemory, h)
  | mainMemory, h, s :: rest => do
    let (mainMemory, h) ← loadSegment executable mainMemory h s
    loadSegments executable mainMemory h rest

/-- `Load` accepts a header and copies the segments. -/
theorem load_eq (h : Host Entry) (mainMemory : Buf) (fileName : Name) (junk : Buf) : load h mainMemory fileName junk =
    match Stub.open h fileName with
    | (none, h) => .ok (none, h)
    | (some _, _) => accept h fileName junk >>= fun
      | none => .ok (none, h)
      | some (noffH, executable, h) => do
        let (mainMemory, h) ← loadSegments executable mainMemory h (loaded noffH)
        let h ← Stub.close h executable.file
        return (some (pages noffH, mainMemory), h) := by
  unfold load accept
  cases hopen : Stub.open h fileName with
  | mk executable h₁ =>
    cases executable with
    | none => rfl
    | some executable =>
      dsimp only
      simp only [bind_assoc, pure_bind, loadSegments, loaded]
      rfl

/-- What `ReadAt` reads does not depend on what is in the buffer. -/
theorem readAt_into {f : Stub.OpenFile} {h h' : Host Entry} {into m : Buf} {n p numRead : Int}
    (hr : f.readAt h into n p = .ok (numRead, m, h')) (into' : Buf) : ∃ bytes, m = copy bytes 0 into 0 numRead.toNat ∧
      f.readAt h into' n p = .ok (numRead, copy bytes 0 into' 0 numRead.toNat, h') := by
  unfold Stub.OpenFile.readAt at hr ⊢
  obtain ⟨h₁, hseek, hr⟩ := of_bind_ok hr
  rw [hseek]
  cases hr
  exact ⟨_, rfl, rfl⟩

/-- Copying the segments changes only what is listed. -/
theorem loadSegments_frame {executable : Stub.OpenFile} {segments : List Segment} {mainMemory mainMemory' : Buf} {h h' : Host Entry}
    (hload : loadSegments executable mainMemory h segments = .ok (mainMemory', h')) {p : Nat}
    (hp : ∀ r ∈ stores executable h segments, ¬(r.1 ≤ p ∧ p < r.1 + r.2)) : mainMemory' p = mainMemory p := by
  induction segments generalizing mainMemory h with
  | nil =>
    cases hload
    rfl
  | cons s rest ih =>
    unfold loadSegments at hload
    obtain ⟨⟨mainMemory₁, h₁⟩, hs, hrest⟩ := of_bind_ok hload
    unfold loadSegment at hs
    unfold stores at hp
    by_cases hpos : s.size > 0
    · rw [if_pos hpos] at hs hp
      obtain ⟨⟨numRead, into, h₂⟩, hread, hs⟩ := of_bind_ok hs
      obtain ⟨bytes, rfl, hread'⟩ := readAt_into hread (fun _ => 0)
      rw [hread'] at hp
      dsimp only at hs hp
      split at hs
      · rename_i hin
        cases hs
        have hfirst := hp _ (List.mem_cons_self ..)
        refine (ih hrest fun r hr => hp r (List.mem_cons_of_mem _ hr)).trans ?_
        dsimp only at hfirst ⊢
        by_cases hstart : s.virtualAddr.toNat ≤ p
        · rw [if_pos hstart, copy_outside _ _ _ _ _ (Or.inr (by omega)), Nat.add_sub_cancel' hstart]
        · rw [if_neg hstart]
      · cases hs
    · rw [if_neg hpos] at hs hp
      cases hs
      exact ih hrest hp

/-- The segments are read until one lies in front of the file. -/
theorem mem_stores_iff {executable : Stub.OpenFile} {h : Host Entry} {file : Nat} {noff : File} (ho : Host.Opened h executable.file file)
    (hnoff : h.files file = noff) {segments : List Segment} (hmax : ∀ s ∈ segments, s.inFileAddr ≤ maxOffset) (r : Int × Int) :
    r ∈ stores executable h segments ↔ ∃ before s after, segments = before ++ s :: after ∧
      (∀ b ∈ before, 0 < b.size → 0 ≤ b.inFileAddr) ∧ 0 < s.size ∧ 0 ≤ s.inFileAddr ∧
      r = (s.virtualAddr, Host.readCount noff s.inFileAddr.toNat s.size) := by
  induction segments generalizing h with
  | nil =>
    refine iff_of_false nofun ?_
    rintro ⟨before, s, after, heq, -⟩
    cases before <;> cases heq
  | cons s₀ rest ih =>
    have hrest : ∀ s ∈ rest, s.inFileAddr ≤ maxOffset := fun s hs => hmax s (List.mem_cons_of_mem _ hs)
    have hsplit := Lists.exists_reached_cons (P := fun b : Segment => 0 < b.size → 0 ≤ b.inFileAddr)
      (Q := fun s => 0 < s.size ∧ 0 ≤ s.inFileAddr ∧ r = (s.virtualAddr, Host.readCount noff s.inFileAddr.toNat s.size))
      (a := s₀) (l := rest)
    rw [hsplit]
    unfold stores
    by_cases hpos : s₀.size > 0
    · rw [if_pos hpos]
      by_cases hin : 0 ≤ s₀.inFileAddr
      · rw [Stub.OpenFile.readAt_count ho _ (by omega) hin (hmax s₀ (List.mem_cons_self ..)), hnoff]
        dsimp only
        rw [List.mem_cons, ih (Host.opened_moved _ _ _ _) hnoff hrest]
        exact or_congr ⟨fun h => ⟨hpos, hin, h⟩, fun h => h.2.2⟩ ⟨fun h => ⟨fun _ => hin, h⟩, fun h => h.2⟩
      · rw [Stub.OpenFile.readAt_not _ _ _ _ (by omega)]
        refine iff_of_false nofun ?_
        rintro (h | ⟨h, -⟩)
        · exact hin h.2.1
        · exact hin (h hpos)
    · rw [if_neg hpos, ih ho hnoff hrest]
      refine ⟨fun h => Or.inr ⟨fun h => absurd h hpos, h⟩, ?_⟩
      rintro (h | h)
      · exact absurd h.1 hpos
      · exact h.2

/-! ## When everything is inside -/

/-- All segments. -/
def segments (noffH : NoffHeader) : List Segment := loaded noffH ++ [noffH.uninitData]

/-- All stores are in the address space, and all segments lie below the stack. -/
structure Inside (noffH : NoffHeader) (stored : List (Int × Int)) : Prop where
  stored : ∀ r ∈ stored, ∀ i, 0 ≤ i → i < r.2 → 0 ≤ r.1 + i ∧ r.1 + i < pages noffH * pageSize
  below : ∀ s ∈ segments noffH, 0 < s.size → s.virtualAddr + s.size ≤ pages noffH * pageSize - userStackSize

/-- The sizes of the segments and of the stack, added as unsigned numbers and rounded up to whole pages. -/
def roundedSize (noffH : NoffHeader) : Int :=
  128 * (((noffH.code.size + noffH.readonlyData.size + noffH.initData.size + noffH.uninitData.size + 1024) % 4294967296 + 127) / 128)

/-- The segments end where there is room for the stack behind them, and none of which there is something in the file begins in front of
the address space. -/
structure Packed (noffH : NoffHeader) (fileSize : Nat) : Prop where
  ends : ∀ s ∈ segments noffH, 0 < s.size → s.virtualAddr + s.size + 1024 ≤ roundedSize noffH
  starts : ∀ (before : List Segment) (s : Segment) (after : List Segment), loaded noffH = before ++ s :: after →
    (∀ b ∈ before, 0 < b.size → 0 ≤ b.inFileAddr) → 0 < s.size → 0 ≤ s.inFileAddr → s.inFileAddr < fileSize → 0 ≤ s.virtualAddr

theorem pages_eq (noffH : NoffHeader) : (pages noffH * pageSize : Int) = roundedSize noffH := by
  unfold pages roundedSize
  dsimp only [pageSize, userStackSize]
  split <;> omega

/-- What `Load` has when it has accepted a header. -/
theorem of_accept {h h' : Host Entry} {fileName : Name} {junk : Buf} {noffH : NoffHeader} {executable : Stub.OpenFile} {file : Nat}
    (hname : h.lookup fileName = some file) (haccept : accept h fileName junk = .ok (some (noffH, executable, h'))) :
    Host.Opened h' executable.file file ∧ h'.files file = h.files file ∧ noffH.Valid := by
  have ho : Host.Opened (h.describe file).2 (Stub.OpenFile.new h.nextDescriptor).file file := ⟨0, Function.update_self _ _ _⟩
  unfold accept Stub.open Host.openExisting at haccept
  rw [hname] at haccept
  change (do
    let (_, header, h) ← (Stub.OpenFile.new h.nextDescriptor).readAt (h.describe file).2 junk noffHeaderSize 0
    _) = _ at haccept
  rw [Stub.OpenFile.readAt_count ho junk (by decide) (by decide) (by decide), ok_bind] at haccept
  dsimp only at haccept
  obtain ⟨-, -, haccept⟩ := of_bind_ok haccept
  obtain ⟨-, -, haccept⟩ := of_bind_ok haccept
  cases haccept
  exact ⟨Host.opened_moved _ _ _ _, rfl, NoffHeader.ofBytes_valid _⟩

/-- `Load` of a file that it accepts stays inside the address space exactly if the segments are packed. -/
theorem load_inside_iff {h h' : Host Entry} {fileName : Name} {junk : Buf} {noffH : NoffHeader} {executable : Stub.OpenFile} {file : Nat}
    (hname : h.lookup fileName = some file) (haccept : accept h fileName junk = .ok (some (noffH, executable, h'))) :
    Inside noffH (stores executable h' (loaded noffH)) ↔ Packed noffH (h.files file).size := by
  obtain ⟨ho, hfile, hvalid⟩ := of_accept hname haccept
  have hmax : ∀ s ∈ loaded noffH, s.inFileAddr ≤ maxOffset := by
    simp only [loaded, List.mem_cons, List.not_mem_nil, or_false]
    rintro s (rfl | rfl | rfl)
    · exact hvalid.code.inFileAddr.2
    · exact hvalid.initData.inFileAddr.2
    · exact hvalid.readonlyData.inFileAddr.2
  have hstores := mem_stores_iff ho hfile hmax
  have hpages := pages_eq noffH
  constructor
  · intro hin
    refine ⟨?_, ?_⟩
    · intro s hs hpos
      have := hin.below s hs hpos
      dsimp only [userStackSize] at this
      omega
    · intro before s after heq hbefore hpos h0 hsize
      have hmem := (hstores (s.virtualAddr, Host.readCount (h.files file) s.inFileAddr.toNat s.size)).2
        ⟨before, s, after, heq, hbefore, hpos, h0, rfl⟩
      have := (hin.stored _ hmem 0 (le_refl 0) (by unfold Host.readCount; omega)).1
      dsimp only at this
      omega
  · intro hpacked
    refine ⟨?_, ?_⟩
    · intro r hr i h0 hi
      obtain ⟨before, s, after, heq, hbefore, hpos, hin, rfl⟩ := (hstores r).1 hr
      dsimp only at hi ⊢
      unfold Host.readCount at hi
      have hstart := hpacked.starts before s after heq hbefore hpos hin (by omega)
      have hend := hpacked.ends s (List.mem_append_left _ (by rw [heq]; simp)) hpos
      omega
    · intro s hs hpos
      have := hpacked.ends s hs hpos
      dsimp only [userStackSize]
      omega

/-- A NOFF file with four bytes of code, for an address of two bytes. -/
def codeAt (low high : UInt8) : File where
  size := 56
  bytes := fun j => ([0xad, 0xdf, 0xba, 0x00] ++ [low, high, 0, 0] ++ [52, 0, 0, 0] ++ [4, 0, 0, 0] ++ List.replicate 36 0 ++
    [1, 2, 3, 4]).getD j 0

/-- A host with that file. -/
def hostWith (noff : File) : Host Name :=
  { (Host.empty : Host Name) with
    entries := fun name => if name = ascii "a.noff" then some 0 else none
    files := fun _ => noff
    nextFile := 1 }

/-- What can be computed of a file that is accepted holds of it. -/
theorem accepted_of {β : Type} {x : Except Fault (Option (NoffHeader × Stub.OpenFile × Host Name))}
    {f : NoffHeader × Stub.OpenFile × Host Name → β} {b : β} (h : x.toOption.join.map f = some b) :
    ∃ noffH executable h', x = .ok (some (noffH, executable, h')) ∧ f (noffH, executable, h') = b := by
  rcases x with e | (_ | ⟨noffH, executable, h'⟩)
  · cases h
  · cases h
  · exact ⟨noffH, executable, h', rfl, Option.some.inj h⟩

/-- The code at 8 is packed, and stored inside. -/
theorem load_inside_iff_eight : ∃ noffH executable h', accept (hostWith (codeAt 8 0)) (ascii "a.noff") (fun _ => 0) =
      .ok (some (noffH, executable, h')) ∧ Inside noffH (stores executable h' (loaded noffH)) := by
  have hpacked : (accept (hostWith (codeAt 8 0)) (ascii "a.noff") fun _ => 0).toOption.join.map
      (fun r : NoffHeader × Stub.OpenFile × Host Name =>
        decide ((∀ s ∈ segments r.1, 0 < s.size → s.virtualAddr + s.size + 1024 ≤ roundedSize r.1) ∧
          ∀ s ∈ loaded r.1, 0 ≤ s.virtualAddr)) = some true := by decide +kernel
  obtain ⟨noffH, executable, h', haccept, hcheck⟩ := accepted_of hpacked
  obtain ⟨hends, hstarts⟩ := of_decide_eq_true hcheck
  have hfile : (hostWith (codeAt 8 0)).lookup (ascii "a.noff") = some 0 := by decide
  refine ⟨noffH, executable, h', haccept, (load_inside_iff hfile haccept).2 ⟨hends, ?_⟩⟩
  intro before s after heq _ _ _ _
  exact hstarts s (by rw [heq]; simp)

/-- The code at 20000 is accepted with nine pages, and stored behind them. -/
theorem not_inside_twentyThousand : ∃ noffH executable h', accept (hostWith (codeAt 32 78)) (ascii "a.noff") (fun _ => 0) =
      .ok (some (noffH, executable, h')) ∧ pages noffH = 9 ∧
    stores executable h' (loaded noffH) = [(20000, 4)] ∧ ¬Inside noffH (stores executable h' (loaded noffH)) := by
  have hloaded : (accept (hostWith (codeAt 32 78)) (ascii "a.noff") fun _ => 0).toOption.join.map
      (fun r => (pages r.1, stores r.2.1 r.2.2 (loaded r.1))) = some (9, [(20000, 4)]) := by decide +kernel
  obtain ⟨noffH, executable, h', haccept, hvalues⟩ := accepted_of hloaded
  obtain ⟨hpages, hstores⟩ := Prod.mk.inj hvalues
  refine ⟨noffH, executable, h', haccept, hpages, hstores, ?_⟩
  intro hin
  have hbehind := (hin.stored (20000, 4) (by rw [hstores]; exact List.mem_cons_self ..) 0 (by decide) (by decide)).2
  rw [hpages] at hbehind
  revert hbehind
  decide

end AddrSpace

end Nachos
