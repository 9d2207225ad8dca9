import Nachos.Filesys.StubSpec

/-!
# An open file of the stub

What the operations return on a file whose descriptor is open, and what they leave in it.
-/

namespace Posix

open Bytes

namespace File

theorem le_write_size (f : File) (offset : Nat) (src : Buf) (n : Nat) : offset + n ≤ (f.write offset src n).size := Nat.le_max_right _ _

/-- What has been written is there. -/
theorem write_bytes (f : File) (offset : Nat) (src : Buf) {n j : Nat} (hj : j < n) : (f.write offset src n).bytes (offset + j) = src j := by
  unfold write
  dsimp only
  rw [if_pos (by omega), Nat.add_sub_cancel_left]

end File

namespace Host

variable {Entry : Type}

/-- A descriptor is open, on a file. -/
def Opened (h : Host Entry) (fd file : Nat) : Prop := ∃ offset, h.descriptors fd = some ⟨file, offset⟩

/-- The descriptor has been moved, and nothing else has been done. -/
def moved (h : Host Entry) (fd file offset : Nat) : Host Entry :=
  { h with descriptors := Function.update h.descriptors fd (some ⟨file, offset⟩) }

theorem opened_moved (h : Host Entry) (fd file offset : Nat) : Opened (h.moved fd file offset) fd file :=
  ⟨offset, Function.update_self _ _ _⟩

theorem moved_descriptors (h : Host Entry) (fd file offset : Nat) :
    (h.moved fd file offset).descriptors fd = some ⟨file, offset⟩ := Function.update_self _ _ _

theorem moved_moved (h : Host Entry) (fd file offset file' offset' : Nat) :
    (h.moved fd file offset).moved fd file' offset' = h.moved fd file' offset' := by
  unfold moved
  dsimp only
  rw [Function.update_idem]

variable {h : Host Entry} {fd file : Nat}

theorem lseek_set_of (ho : Opened h fd file) {offset : Int} (h0 : 0 ≤ offset) (hmax : offset ≤ maxOffset) :
    h.lseek fd offset .set = (offset, h.moved fd file offset.toNat) := by
  obtain ⟨o, hd⟩ := ho
  unfold lseek
  rw [hd]
  dsimp only
  rw [if_neg (by omega)]
  rfl

theorem lseek_set_not (h : Host Entry) (fd : Nat) {offset : Int} (hbad : ¬(0 ≤ offset ∧ offset ≤ maxOffset)) :
    (h.lseek fd offset .set).1 = -1 := by
  unfold lseek
  cases h.descriptors fd with
  | none => rfl
  | some d =>
    dsimp only
    rw [if_pos (by omega)]

theorem lseek_end_of (ho : Opened h fd file) (hsized : h.Sized) :
    h.lseek fd 0 .end = (((h.files file).size : Int), h.moved fd file (h.files file).size) := by
  obtain ⟨o, hd⟩ := ho
  have := hsized file
  unfold lseek
  rw [hd]
  dsimp only
  rw [Int.add_zero, if_neg (by omega)]
  rfl

theorem lseek_cur_of {offset : Nat} (hd : h.descriptors fd = some ⟨file, offset⟩) (hmax : (offset : Int) ≤ maxOffset) :
    (h.lseek fd 0 .cur).1 = offset := by
  unfold lseek
  rw [hd]
  dsimp only
  rw [Int.add_zero, if_neg (by omega)]

/-- The number of bytes that a read gives. -/
abbrev readCount (f : File) (offset : Nat) (n : Int) : Int := min n (max 0 (f.size - offset))

theorem read_eq {offset : Nat} (hd : h.descriptors fd = some ⟨file, offset⟩) {n : Int} (hn : 0 ≤ n) :
    h.read fd n = (readCount (h.files file) offset n, fun j => (h.files file).bytes (offset + j),
      h.moved fd file (offset + (readCount (h.files file) offset n).toNat)) := by
  unfold read
  rw [hd]
  dsimp only
  rw [if_neg (by omega)]
  rfl

theorem write_eq {offset : Nat} (hd : h.descriptors fd = some ⟨file, offset⟩) (src : Buf) {n : Int} (hn : 0 < n) :
    h.write fd src n = if maxOffset ≤ offset then (-1, h)
      else (min n (maxOffset - offset),
        { h.moved fd file (offset + (min n (maxOffset - offset)).toNat) with
          files := Function.update h.files file ((h.files file).write offset src (min n (maxOffset - offset)).toNat) }) := by
  unfold write
  rw [hd]
  dsimp only
  rw [if_neg (by omega), if_neg (by omega)]
  rfl

/-- Nothing to write. -/
theorem write_zero {offset : Nat} (hd : h.descriptors fd = some ⟨file, offset⟩) (src : Buf) : h.write fd src 0 = (0, h) := by
  unfold write
  rw [hd]
  rfl

end Host

end Posix

namespace Nachos

namespace Stub

open Bytes Loop Posix

/-- A position that cannot be sought. -/
theorem lseek_not {Entry : Type} (h : Host Entry) (fd : Nat) {p : Int} (hp : ¬(0 ≤ p ∧ p ≤ maxOffset)) :
    lseek h fd p .set = .error .assertFailed := by
  have hret := h.lseek_set_not fd hp
  unfold lseek
  generalize h.lseek fd p .set = r at hret
  obtain ⟨retVal, h₁⟩ := r
  dsimp only at hret ⊢
  rw [assert_not (by omega)]
  rfl

/-- A descriptor that is open can be closed. -/
theorem close_of {Entry : Type} {h : Host Entry} {fd file : Nat} (ho : h.Opened fd file) : ∃ h', close h fd = .ok h' := by
  obtain ⟨offset, hd⟩ := ho
  unfold close Host.close
  rw [hd]
  exact ⟨_, rfl⟩

namespace OpenFile

variable {Entry : Type} {f f' : OpenFile} {h h' : Host Entry} {file : Nat}

/-- A write that fits in front of the greatest offset. -/
theorem write_of (ho : Host.Opened h f.file file) (src : Buf) {n : Int} (hn : 0 < n) (h0 : 0 ≤ f.currentOffset)
    (hmax : f.currentOffset + n ≤ maxOffset) :
    f.write h src n = .ok (n, { f with currentOffset := f.currentOffset + n },
      { h.moved f.file file (f.currentOffset.toNat + n.toNat) with
        files := Function.update h.files file ((h.files file).write f.currentOffset.toNat src n.toNat) }) := by
  have hwrite : (h.moved f.file file f.currentOffset.toNat).write f.file src n =
      (n, { h.moved f.file file (f.currentOffset.toNat + n.toNat) with
        files := Function.update h.files file ((h.files file).write f.currentOffset.toNat src n.toNat) }) := by
    rw [Host.write_eq (Host.moved_descriptors _ _ _ _) src hn, if_neg (by omega), Int.min_eq_left (by omega), Host.moved_moved]
    rfl
  unfold write writeAt lseek writeFile
  rw [Host.lseek_set_of ho h0 (by omega)]
  dsimp only
  rw [assert_of (show f.currentOffset ≥ 0 from h0), ok_bind]
  change ((do
    let h ← (do
      assert (((h.moved f.file file f.currentOffset.toNat).write f.file src n).1 = n)
      return ((h.moved f.file file f.currentOffset.toNat).write f.file src n).2)
    return (n, h)) >>= _) = _
  rw [hwrite]
  dsimp only
  rw [assert_of rfl]
  rfl

/-- A write that does not fit stops the simulator. -/
theorem write_not (f : OpenFile) (h : Host Entry) (src : Buf) {n : Int} (hn : 0 < n)
    (hbad : ¬(0 ≤ f.currentOffset ∧ f.currentOffset + n ≤ maxOffset)) : f.write h src n = .error .assertFailed := by
  unfold write writeAt lseek writeFile
  by_cases hseek : 0 ≤ f.currentOffset ∧ f.currentOffset ≤ maxOffset
  · have hwrite (h : Host Entry) (offset : Nat) (file : Nat) (hoffset : (offset : Int) = f.currentOffset) :
        ((h.moved f.file file offset).write f.file src n).1 ≠ n := by
      rw [Host.write_eq (Host.moved_descriptors _ _ _ _) src hn]
      split <;> dsimp only <;> omega
    cases hd : h.descriptors f.file with
    | none =>
      have hlseek : (h.lseek f.file f.currentOffset .set).1 = -1 := by
        unfold Host.lseek
        rw [hd]
      generalize h.lseek f.file f.currentOffset .set = r at hlseek
      obtain ⟨retVal, h⟩ := r
      dsimp only at hlseek ⊢
      rw [assert_not (by omega)]
      rfl
    | some d =>
      rw [Host.lseek_set_of ⟨d.offset, hd⟩ hseek.1 hseek.2]
      dsimp only
      rw [assert_of (show f.currentOffset ≥ 0 from hseek.1), ok_bind]
      have hne := hwrite h f.currentOffset.toNat d.file (by omega)
      change ((do
        let h ← (do
          assert (((h.moved f.file d.file f.currentOffset.toNat).write f.file src n).1 = n)
          return ((h.moved f.file d.file f.currentOffset.toNat).write f.file src n).2)
        return (n, h)) >>= _) = _
      rw [assert_not hne]
      rfl
  · have hlseek := h.lseek_set_not f.file hseek
    generalize h.lseek f.file f.currentOffset .set = r at hlseek
    obtain ⟨retVal, h⟩ := r
    dsimp only at hlseek ⊢
    rw [assert_not (by omega)]
    rfl

/-- The length is the size of the file. -/
theorem length_of (ho : Host.Opened h f.file file) (hsized : h.Sized) :
    f.length h = .ok (((h.files file).size : Int), h.moved f.file file (h.files file).size) := by
  unfold OpenFile.length lseek
  rw [Host.lseek_end_of ho hsized]
  dsimp only
  rw [assert_of (by omega), ok_bind]
  change Except.ok (tell (h.moved f.file file (h.files file).size) f.file, _) = _
  unfold tell
  rw [Host.lseek_cur_of (Host.moved_descriptors _ _ _ _) (hsized file)]

/-- Positions up to the greatest offset can be sought. -/
theorem seek_of (ho : Host.Opened h f.file file) {pos : Int} (h0 : 0 ≤ pos) (hmax : pos ≤ maxOffset) :
    f.seek h pos = .ok ({ f with currentOffset := pos }, h.moved f.file file pos.toNat) := by
  unfold OpenFile.seek lseek
  rw [Host.lseek_set_of ho h0 hmax]
  dsimp only
  rw [assert_of (show pos ≥ 0 from h0), ok_bind]
  change Except.ok ({ f with currentOffset := tell (h.moved f.file file pos.toNat) f.file }, _) = _
  unfold tell
  rw [Host.lseek_cur_of (Host.moved_descriptors _ _ _ _) (by omega), Int.toNat_of_nonneg h0]

/-- A read at any position gives what the file has. -/
theorem readAt_count (ho : Host.Opened h f.file file) (into : Buf) {n position : Int} (hn : 0 ≤ n) (h0 : 0 ≤ position)
    (hmax : position ≤ maxOffset) : f.readAt h into n position = .ok (Host.readCount (h.files file) position.toNat n,
      copy (fun j => (h.files file).bytes (position.toNat + j)) 0 into 0 (Host.readCount (h.files file) position.toNat n).toNat,
      h.moved f.file file (position.toNat + (Host.readCount (h.files file) position.toNat n).toNat)) := by
  have hread := Host.read_eq (Host.moved_descriptors h f.file file position.toNat) hn
  rw [Host.moved_moved] at hread
  unfold readAt lseek readPartial
  rw [Host.lseek_set_of ho h0 hmax]
  dsimp only
  rw [assert_of (show position ≥ 0 from h0), ok_bind]
  change Except.ok (((h.moved f.file file position.toNat).read f.file n).1,
    copy ((h.moved f.file file position.toNat).read f.file n).2.1 0 into 0 ((h.moved f.file file position.toNat).read f.file n).1.toNat,
    ((h.moved f.file file position.toNat).read f.file n).2.2) = _
  rw [hread]
  rfl

/-- A position in front of the file stops the simulator. -/
theorem readAt_not (f : OpenFile) (h : Host Entry) (into : Buf) (n : Int) {position : Int} (hneg : position < 0) :
    f.readAt h into n position = .error .assertFailed := by
  have hlseek := h.lseek_set_not f.file (show ¬(0 ≤ position ∧ position ≤ maxOffset) by omega)
  unfold readAt lseek
  generalize h.lseek f.file position .set = r at hlseek
  obtain ⟨retVal, h⟩ := r
  dsimp only at hlseek ⊢
  rw [assert_not (by omega)]
  rfl

/-- A read inside the file, at any position. -/
theorem readAt_of (ho : Host.Opened h f.file file) (into : Buf) {n position : Int} (hn : 0 ≤ n) (h0 : 0 ≤ position)
    (hmax : position ≤ maxOffset) (hsize : position + n ≤ (h.files file).size) :
    f.readAt h into n position = .ok (n, copy (fun j => (h.files file).bytes (position.toNat + j)) 0 into 0 n.toNat,
      h.moved f.file file (position.toNat + n.toNat)) := by
  have hcount : Host.readCount (h.files file) position.toNat n = n := by
    unfold Host.readCount
    omega
  have hread := readAt_count ho into hn h0 hmax
  rwa [hcount] at hread

/-- A read inside the file, at the cursor. -/
theorem read_of (ho : Host.Opened h f.file file) (into : Buf) {n : Int} (hn : 0 ≤ n) (h0 : 0 ≤ f.currentOffset)
    (hmax : f.currentOffset ≤ maxOffset) (hsize : f.currentOffset + n ≤ (h.files file).size) :
    f.read h into n = .ok (n, copy (fun j => (h.files file).bytes (f.currentOffset.toNat + j)) 0 into 0 n.toNat,
      { f with currentOffset := f.currentOffset + n }, h.moved f.file file (f.currentOffset.toNat + n.toNat)) := by
  unfold OpenFile.read
  rw [readAt_of ho into hn h0 hmax hsize]
  rfl

/-- A read at a position that cannot be sought stops the simulator. -/
theorem read_not (f : OpenFile) (h : Host Entry) (into : Buf) (n : Int) (hbad : ¬(0 ≤ f.currentOffset ∧ f.currentOffset ≤ maxOffset)) :
    f.read h into n = .error .assertFailed := by
  unfold OpenFile.read OpenFile.readAt
  rw [lseek_not _ _ hbad]
  rfl

/-- A read returns exactly when the cursor can be sought, whatever is asked for. -/
theorem read_ok_iff (ho : Host.Opened h f.file file) (into : Buf) (n : Int) :
    (∃ r, f.read h into n = .ok r) ↔ 0 ≤ f.currentOffset ∧ f.currentOffset ≤ maxOffset := by
  by_cases hp : 0 ≤ f.currentOffset ∧ f.currentOffset ≤ maxOffset
  · refine iff_of_true ?_ hp
    unfold OpenFile.read OpenFile.readAt lseek
    rw [Host.lseek_set_of ho hp.1 hp.2]
    dsimp only
    rw [assert_of (show f.currentOffset ≥ 0 from hp.1)]
    exact ⟨_, rfl⟩
  · refine iff_of_false ?_ hp
    rw [read_not f h into n hp]
    exact nofun

/-- Nothing is written at a position that cannot be sought, or that leaves no room for the bytes. -/
theorem write_not_fits (f : OpenFile) (h : Host Entry) (src : Buf) {n : Int} (hn : 0 ≤ n)
    (hbad : ¬(0 ≤ f.currentOffset ∧ f.currentOffset + n ≤ maxOffset)) : f.write h src n = .error .assertFailed := by
  by_cases hpos : 0 < n
  · exact write_not f h src hpos hbad
  · unfold write writeAt
    rw [lseek_not _ _ (by omega)]
    rfl

/-- A write that is not of a negative size returns exactly when it ends in front of the greatest offset. -/
theorem write_ok_iff (ho : Host.Opened h f.file file) (src : Buf) {n : Int} (hn : 0 ≤ n) :
    (∃ r, f.write h src n = .ok r) ↔ 0 ≤ f.currentOffset ∧ f.currentOffset + n ≤ maxOffset := by
  by_cases hfits : 0 ≤ f.currentOffset ∧ f.currentOffset + n ≤ maxOffset
  · refine iff_of_true ?_ hfits
    by_cases hpos : 0 < n
    · exact ⟨_, write_of ho src hpos hfits.1 hfits.2⟩
    · obtain rfl : n = 0 := by omega
      unfold write writeAt lseek writeFile
      rw [Host.lseek_set_of ho hfits.1 (by omega)]
      dsimp only
      rw [assert_of (show f.currentOffset ≥ 0 from hfits.1), ok_bind]
      change ∃ r, ((do
        let h ← (do
          assert (((h.moved f.file file f.currentOffset.toNat).write f.file src 0).1 = 0)
          return ((h.moved f.file file f.currentOffset.toNat).write f.file src 0).2)
        return ((0 : Int), h)) >>= _) = _
      rw [Host.write_zero (Host.moved_descriptors _ _ _ _) src, assert_of rfl]
      exact ⟨_, rfl⟩
  · refine iff_of_false ?_ hfits
    rw [write_not_fits f h src hn hfits]
    exact nofun

/-- A read that returns has read what there is. -/
theorem read_count {into bytes : Buf} {n k : Int} (ho : h.Opened f.file file) (hn : 0 ≤ n) (hr : f.read h into n = .ok (k, bytes, f', h')) :
    k = min n (max 0 ((h.files file).size - f.currentOffset)) := by
  by_cases hp : 0 ≤ f.currentOffset ∧ f.currentOffset ≤ maxOffset
  · unfold read at hr
    rw [readAt_count ho into hn hp.1 hp.2] at hr
    cases hr
    rw [Host.readCount, Int.toNat_of_nonneg hp.1]
  · unfold read readAt at hr
    rw [lseek_not _ _ hp] at hr
    cases hr

/-- A write that returns has written all. -/
theorem write_count {src : Buf} {n k : Int} (hw : f.write h src n = .ok (k, f', h')) : k = n ∧ f'.currentOffset = f.currentOffset + n := by
  unfold write writeAt at hw
  obtain ⟨⟨k', h₂⟩, hat, hw⟩ := of_bind_ok hw
  obtain ⟨h₁, -, hat⟩ := of_bind_ok hat
  obtain ⟨h₃, -, hat⟩ := of_bind_ok hat
  cases hat
  cases hw
  exact ⟨rfl, rfl⟩

end OpenFile

end Stub

end Nachos
