import Nachos.Filesys.StubFile
import Nachos.Prelude.Transition

/-!
# The implicit position of an open file (filesys/openfile.h with `FILESYS_STUB`)

The position of the next `Read` or `Write` is `currentOffset`. `GetCurrentPos` replaces it by the offset of the descriptor, which all
operations move, and a transfer that fails adds its -1 to it.
-/

namespace Nachos

open Bytes Loop Posix

namespace Stub

namespace OpenFile

variable {Entry : Type}

/-- A call on an open file. -/
inductive Op where
  | read (into : Buf) (numBytes : Int)
  | write (src : Buf) (numBytes : Int)
  | readAt (into : Buf) (numBytes position : Int)
  | writeAt (src : Buf) (numBytes position : Int)
  | length
  | getCurrentPos
  | seek (pos : Int)

/-- The call; the result is the value returned, the file and the host. -/
def step (f : OpenFile) (h : Host Entry) : Op → Except Fault (Int × OpenFile × Host Entry)
  | .read into numBytes => (f.read h into numBytes).map fun (numRead, _, f, h) => (numRead, f, h)
  | .write src numBytes => f.write h src numBytes
  | .readAt into numBytes position => (f.readAt h into numBytes position).map fun (numRead, _, h) => (numRead, f, h)
  | .writeAt src numBytes position => (f.writeAt h src numBytes position).map fun (numWritten, h) => (numWritten, f, h)
  | .length => (f.length h).map fun (length, h) => (length, f, h)
  | .getCurrentPos => .ok ((f.getCurrentPos h).1, (f.getCurrentPos h).2, h)
  | .seek pos => (f.seek h pos).map fun (f, h) => (f.currentOffset, f, h)

/-- The calls made so far, the latest one first, with the values they returned. -/
abbrev History := List (Op × Int)

/-- Where the next `Read` or `Write` should take place: at first at 0, and then where the last `Seek` has put it and the bytes transferred
since have moved it. -/
def expected : History → Int
  | [] => 0
  | (.read _ _, numRead) :: earlier => expected earlier + max 0 numRead
  | (.write _ _, numWritten) :: earlier => expected earlier + max 0 numWritten
  | (.seek pos, _) :: _ => pos
  | _ :: earlier => expected earlier

/-- A run on one open file. -/
structure Run (Entry : Type) where
  history : History
  file : OpenFile
  host : Host Entry

/-- One more call. -/
def Run.next (t : Run Entry) (op : Op) : Except Fault (Run Entry) :=
  (t.file.step t.host op).map fun (value, file, host) => { history := (op, value) :: t.history, file, host }

/-- The position is the one expected, every `GetCurrentPos` has returned the one expected then, and it is not negative. -/
structure Kept (t : Run Entry) : Prop where
  position : t.file.currentOffset = expected t.history
  nonneg : 0 ≤ expected t.history
  answers : ∀ later value earlier, t.history = later ++ (.getCurrentPos, value) :: earlier → value = expected earlier

/-- A call that does not lead to the position being lost: the size of a transfer is not negative, and `GetCurrentPos` is called while the
offset of the descriptor is the position. -/
def Harmless (t : Run Entry) : Op → Prop
  | .read _ numBytes => 0 ≤ numBytes
  | .write _ numBytes => 0 ≤ numBytes
  | .getCurrentPos =>
    ∃ d, t.host.descriptors t.file.file = some d ∧ (d.offset : Int) = t.file.currentOffset ∧ t.file.currentOffset ≤ maxOffset
  | _ => True

/-! ## What the calls return -/

variable {f f' : OpenFile} {h h' : Host Entry} {fd : Nat} {bytes into src : Buf} {n k p : Int}

/-- The host tells the offset of a descriptor that is open. -/
theorem tell_eq_iff (h0 : 0 ≤ p) : tell h fd = p ↔ ∃ d, h.descriptors fd = some d ∧ (d.offset : Int) = p ∧ p ≤ maxOffset := by
  unfold tell Host.lseek
  cases h.descriptors fd with
  | none =>
    refine iff_of_false ?_ nofun
    dsimp only
    omega
  | some d =>
    simp only [Int.add_zero, Option.some_inj, exists_eq_left']
    split <;> dsimp only <;> omega

/-- An `Lseek` that returns has moved an open descriptor. -/
theorem of_lseek_set (hs : lseek h fd p .set = .ok h') : 0 ≤ p ∧ p ≤ maxOffset ∧ ∃ file, h.Opened fd file := by
  unfold lseek Host.lseek at hs
  cases hd : h.descriptors fd with
  | none =>
    rw [hd] at hs
    cases hs
  | some d =>
    by_cases hp : p < 0 ∨ maxOffset < p
    · rw [hd] at hs
      simp only [if_pos hp] at hs
      cases hs
    · exact ⟨by omega, by omega, d.file, d.offset, hd⟩

/-- A read that returns has been made on an open descriptor. -/
theorem opened_of_read (hr : f.read h into n = .ok (k, bytes, f', h')) : ∃ file, h.Opened f.file file := by
  unfold OpenFile.read readAt at hr
  obtain ⟨_, hat, -⟩ := of_bind_ok hr
  obtain ⟨h₁, hseek, -⟩ := of_bind_ok hat
  exact (of_lseek_set hseek).2.2

/-- A `Seek` that returns has put the position there. -/
theorem of_seek (hs : f.seek h p = .ok (f', h')) : f'.currentOffset = p ∧ 0 ≤ p := by
  have hlseek := hs
  unfold OpenFile.seek at hlseek
  obtain ⟨h₁, hlseek, -⟩ := of_bind_ok hlseek
  obtain ⟨h0, hmax, file, ho⟩ := of_lseek_set hlseek
  rw [seek_of ho h0 hmax] at hs
  cases hs
  exact ⟨rfl, h0⟩

/-- A read of a negative size fails. -/
theorem read_negative (hn : n < 0) (hr : f.read h into n = .ok (k, bytes, f', h')) :
    k = -1 ∧ f'.currentOffset = f.currentOffset - 1 := by
  unfold OpenFile.read readAt at hr
  obtain ⟨⟨k', bytes', h₂⟩, hat, hr⟩ := of_bind_ok hr
  obtain ⟨h₁, -, hat⟩ := of_bind_ok hat
  cases hr
  have hread : (h₁.read f.file n).1 = -1 := by
    unfold Host.read
    cases h₁.descriptors f.file with
    | none => rfl
    | some d =>
      dsimp only
      rw [if_pos hn]
  have hk : k = (h₁.read f.file n).1 := (congrArg Prod.fst (Except.ok.inj hat)).symm
  rw [hread] at hk
  exact ⟨hk, by dsimp only; omega⟩

/-- A read that returns moves the position by what it returns. -/
theorem read_moves (hr : f.read h into n = .ok (k, bytes, f', h')) : f'.currentOffset = f.currentOffset + k := by
  unfold OpenFile.read at hr
  obtain ⟨⟨k', bytes', h₂⟩, -, hr⟩ := of_bind_ok hr
  cases hr
  rfl

/-! ## One call -/

variable {t t' : Run Entry} {op : Op}

/-- What a call adds to a run in which the position was kept. -/
theorem Kept.cons_iff (hk : Kept t) {value : Int} {file : OpenFile} {host : Host Entry} :
    Kept ⟨(op, value) :: t.history, file, host⟩ ↔ file.currentOffset = expected ((op, value) :: t.history) ∧
      0 ≤ expected ((op, value) :: t.history) ∧ (op = .getCurrentPos → value = expected t.history) := by
  constructor
  · rintro ⟨hposition, hnonneg, hanswers⟩
    refine ⟨hposition, hnonneg, ?_⟩
    rintro rfl
    exact hanswers [] value t.history rfl
  · rintro ⟨hposition, hnonneg, hanswer⟩
    refine ⟨hposition, hnonneg, ?_⟩
    intro later value' earlier heq
    cases later with
    | nil =>
      cases heq
      exact hanswer rfl
    | cons _ later =>
      rw [List.cons_append] at heq
      exact hk.answers later value' earlier (List.cons.inj heq).2

/-- A call that returns keeps the position exactly if it is harmless. -/
theorem kept_next_iff (hk : Kept t) (h : t.next op = .ok t') : Kept t' ↔ Harmless t op := by
  obtain ⟨⟨value, file, host⟩, hstep, rfl⟩ := of_map_ok h
  have hposition := hk.position
  have hnonneg := hk.nonneg
  rw [hk.cons_iff]
  cases op with
  | read into n =>
    obtain ⟨⟨k, bytes, f', h'⟩, hread, heq⟩ := of_map_ok hstep
    cases heq
    have hmoves := read_moves hread
    simp only [expected, Harmless, reduceCtorEq, false_implies, and_true]
    by_cases hn : 0 ≤ n
    · obtain ⟨file, ho⟩ := opened_of_read hread
      have hcount := read_count ho hn hread
      omega
    · have := read_negative (by omega) hread
      omega
  | write src n =>
    obtain ⟨rfl, hmoved⟩ := write_count hstep
    simp only [expected, Harmless, reduceCtorEq, false_implies, and_true]
    omega
  | readAt into n position =>
    obtain ⟨⟨k, bytes, h'⟩, -, heq⟩ := of_map_ok hstep
    cases heq
    simpa [expected, Harmless] using ⟨hposition, hnonneg⟩
  | writeAt src n position =>
    obtain ⟨⟨k, h'⟩, -, heq⟩ := of_map_ok hstep
    cases heq
    simpa [expected, Harmless] using ⟨hposition, hnonneg⟩
  | length =>
    obtain ⟨⟨k, h'⟩, -, heq⟩ := of_map_ok hstep
    cases heq
    simpa [expected, Harmless] using ⟨hposition, hnonneg⟩
  | getCurrentPos =>
    cases hstep
    have htell : tell t.host t.file.file = t.file.currentOffset ↔ _ := tell_eq_iff (hposition ▸ hnonneg)
    simp only [getCurrentPos, expected, Harmless, true_implies, ← htell]
    omega
  | seek p =>
    obtain ⟨⟨f', h'⟩, hseek, heq⟩ := of_map_ok hstep
    cases heq
    simpa [expected, Harmless] using of_seek hseek

/-! ## Runs -/

/-- A file has been opened on a descriptor of the host. -/
def opened (h : Host Entry) (fd : Nat) : Run Entry where
  history := []
  file := new fd
  host := h

theorem kept_opened (h : Host Entry) (fd : Nat) : Kept (opened h fd) := by
  refine ⟨rfl, le_refl 0, ?_⟩
  intro later value earlier heq
  cases later <;> cases heq

/-- The runs of harmless calls. -/
def harmlessRuns (Entry : Type) : Transition.System (Run Entry) where
  init t := ∃ h fd, t = opened h fd
  step t t' := ∃ op, Harmless t op ∧ t.next op = .ok t'

/-- In every run of harmless calls on an open file, the next `Read` or `Write` takes place where it should in every state reached,
`GetCurrentPos` has always returned this position, and it is not negative. -/
theorem position_kept {t : Run Entry} (h : (harmlessRuns Entry).Reachable t) : Kept t := by
  refine Transition.System.Reachable.invariant ?_ ?_ h
  · rintro _ ⟨h, fd, rfl⟩
    exact kept_opened h fd
  · rintro t t' - hk ⟨op, hharmless, hnext⟩
    exact (kept_next_iff hk hnext).2 hharmless

/-- A host with one descriptor, on a file of three bytes. -/
def threeBytes : Host Name where
  resolve := some
  entries _ := none
  files _ := ⟨3, fun _ => 7⟩
  nextFile := 1
  descriptors fd := if fd = 0 then some ⟨0, 0⟩ else none
  nextDescriptor := 1

/-- After `Length`, `GetCurrentPos` moves the position to the end of the file; and a `Read` of a negative size makes it negative. -/
theorem not_kept : (∃ t, [Op.length, Op.getCurrentPos].foldlM Run.next (opened threeBytes 0) = .ok t ∧
      t.file.currentOffset = 3 ∧ expected t.history = 0 ∧ ¬Kept t) ∧
    ∃ t, [Op.read (fun _ => 0) (-1)].foldlM Run.next (opened threeBytes 0) = .ok t ∧ t.file.currentOffset = -1 ∧ ¬Kept t := by
  refine ⟨⟨_, rfl, rfl, rfl, ?_⟩, _, rfl, rfl, ?_⟩
  · exact fun hk => absurd hk.position (by decide)
  · exact fun hk => absurd hk.position (by decide)

/-- Two bytes read, and the position asked for. -/
theorem position_kept_read : ∃ t, [Op.read (fun _ => 0) 2, Op.getCurrentPos].foldlM Run.next (opened threeBytes 0) = .ok t ∧
    t.history.head?.map Prod.snd = some 2 ∧ Kept t := by
  refine ⟨_, rfl, rfl, position_kept (.step (.step (.init ⟨threeBytes, 0, rfl⟩) ⟨.read (fun _ => 0) 2, ?_, rfl⟩)
    ⟨.getCurrentPos, ?_, rfl⟩)⟩
  · exact (by decide : (0 : Int) ≤ 2)
  · exact ⟨_, rfl, rfl, by decide⟩

end OpenFile

end Stub

end Nachos
