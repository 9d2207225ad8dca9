import Nachos.Prelude.Outcome
import Nachos.Filesys.Stub

/-!
# What the stub does to the descriptors of the process

The operations on an open file work on its descriptor only. `Create` leaves the descriptors as they were, `Open` adds one.
-/

namespace Posix

namespace Host

variable {Entry : Type}

/-- No descriptor but this one has changed, and it is still open if it was; no file has become too large. -/
structure Keeps (fd : Nat) (h h' : Host Entry) : Prop where
  others : ∀ fd', fd' ≠ fd → h'.descriptors fd' = h.descriptors fd'
  opened : (h'.descriptors fd).isSome = (h.descriptors fd).isSome
  nextDescriptor : h'.nextDescriptor = h.nextDescriptor
  sized : h.Sized → h'.Sized

theorem Keeps.refl (fd : Nat) (h : Host Entry) : Keeps fd h h := ⟨fun _ _ => rfl, rfl, rfl, id⟩

theorem Keeps.trans {fd : Nat} {h₁ h₂ h₃ : Host Entry} (h : Keeps fd h₁ h₂) (h' : Keeps fd h₂ h₃) : Keeps fd h₁ h₃ :=
  ⟨fun fd' hfd => (h'.others fd' hfd).trans (h.others fd' hfd), h'.opened.trans h.opened,
    h'.nextDescriptor.trans h.nextDescriptor, fun hs => h'.sized (h.sized hs)⟩

/-- Descriptors are open or not as before. -/
theorem Keeps.isSome {fd : Nat} {h h' : Host Entry} (hk : Keeps fd h h') (fd' : Nat) :
    (h'.descriptors fd').isSome = (h.descriptors fd').isSome := by
  by_cases hfd : fd' = fd
  · rw [hfd, hk.opened]
  · rw [hk.others fd' hfd]

theorem lseek_keeps (h : Host Entry) (fd : Nat) (offset : Int) (whence : Whence) : Keeps fd h (h.lseek fd offset whence).2 := by
  unfold lseek
  cases hd : h.descriptors fd with
  | none => exact .refl fd h
  | some d =>
    have hmoved (offset : Int) : Keeps fd h
        (if offset < 0 ∨ maxOffset < offset then (-1, h)
          else (offset, { h with descriptors := Function.update h.descriptors fd (some { d with offset := offset.toNat }) })).2 := by
      split
      · exact .refl fd h
      · exact ⟨fun fd' hfd => Function.update_of_ne hfd _ _, by simp [hd], rfl, id⟩
    exact hmoved _

theorem read_keeps (h : Host Entry) (fd : Nat) (numBytes : Int) : Keeps fd h (h.read fd numBytes).2.2 := by
  unfold read
  cases hd : h.descriptors fd with
  | none => exact .refl fd h
  | some d =>
    dsimp only
    split
    · exact .refl fd h
    · exact ⟨fun fd' hfd => Function.update_of_ne hfd _ _, by simp [hd], rfl, id⟩

/-- A read gives at most what is asked for. -/
theorem read_le (h : Host Entry) (fd : Nat) (numBytes : Int) : (h.read fd numBytes).1 ≤ max 0 numBytes := by
  unfold read
  split
  · dsimp only
    omega
  · split <;> dsimp only <;> omega

theorem write_keeps (h : Host Entry) (fd : Nat) (src : Bytes.Buf) (numBytes : Int) : Keeps fd h (h.write fd src numBytes).2 := by
  unfold write
  cases hd : h.descriptors fd with
  | none => exact .refl fd h
  | some d =>
    dsimp only
    split
    · exact .refl fd h
    · split
      · exact .refl fd h
      · split
        · exact .refl fd h
        · rename_i h0 hn hmax
          refine ⟨fun fd' hfd => Function.update_of_ne hfd _ _, by simp [hd], rfl, ?_⟩
          intro hs file
          dsimp only
          by_cases hfile : file = d.file
          · rw [hfile, Function.update_self]
            have := hs d.file
            unfold File.write
            dsimp only
            omega
          · rw [Function.update_of_ne hfile]
            exact hs file

end Host

end Posix

namespace Nachos

namespace Stub

open Loop Posix

variable {Entry : Type}

theorem lseek_keeps {h h' : Host Entry} {fd : Nat} {offset : Int} {whence : Whence} (hs : lseek h fd offset whence = .ok h') :
    Host.Keeps fd h h' := by
  unfold lseek at hs
  have hk := h.lseek_keeps fd offset whence
  generalize h.lseek fd offset whence = r at hs hk
  obtain ⟨-, -, hs⟩ := of_bind_ok hs
  cases hs
  exact hk

theorem writeFile_keeps {h h' : Host Entry} {fd : Nat} {src : Bytes.Buf} {numBytes : Int}
    (hs : writeFile h fd src numBytes = .ok h') : Host.Keeps fd h h' := by
  unfold writeFile at hs
  have hk := h.write_keeps fd src numBytes
  generalize h.write fd src numBytes = r at hs hk
  obtain ⟨-, -, hs⟩ := of_bind_ok hs
  cases hs
  exact hk

namespace OpenFile

/-- Reading works on the descriptor of the file. -/
theorem read_keeps {f f' : OpenFile} {h h' : Host Entry} {into bytes : Bytes.Buf} {numBytes numRead : Int}
    (hs : f.read h into numBytes = .ok (numRead, bytes, f', h')) : f'.file = f.file ∧ Host.Keeps f.file h h' := by
  unfold read readAt at hs
  obtain ⟨⟨numRead, bytes, h₂⟩, hr, hs⟩ := of_bind_ok hs
  obtain ⟨h₁, hseek, hr⟩ := of_bind_ok hr
  cases hr
  cases hs
  exact ⟨rfl, (lseek_keeps hseek).trans (h₁.read_keeps f.file numBytes)⟩

/-- Writing works on the descriptor of the file. -/
theorem write_keeps {f f' : OpenFile} {h h' : Host Entry} {src : Bytes.Buf} {numBytes numWritten : Int}
    (hs : f.write h src numBytes = .ok (numWritten, f', h')) : f'.file = f.file ∧ Host.Keeps f.file h h' := by
  unfold write writeAt at hs
  obtain ⟨⟨numWritten, h₂⟩, hr, hs⟩ := of_bind_ok hs
  obtain ⟨h₁, hseek, hr⟩ := of_bind_ok hr
  obtain ⟨h₃, hwrite, hr⟩ := of_bind_ok hr
  cases hr
  cases hs
  exact ⟨rfl, (lseek_keeps hseek).trans (writeFile_keeps hwrite)⟩

theorem length_keeps {f : OpenFile} {h h' : Host Entry} {length : Int} (hs : f.length h = .ok (length, h')) :
    Host.Keeps f.file h h' := by
  unfold OpenFile.length at hs
  obtain ⟨h₁, hseek, hs⟩ := of_bind_ok hs
  cases hs
  exact lseek_keeps hseek

theorem seek_keeps {f f' : OpenFile} {h h' : Host Entry} {pos : Int} (hs : f.seek h pos = .ok (f', h')) :
    f'.file = f.file ∧ Host.Keeps f.file h h' := by
  unfold seek at hs
  obtain ⟨h₁, hseek, hs⟩ := of_bind_ok hs
  cases hs
  exact ⟨rfl, lseek_keeps hseek⟩

end OpenFile

/-- A new descriptor has been added, and nothing else has been done to the descriptors. -/
structure Added (fd : Nat) (h h' : Host Entry) : Prop where
  new : fd = h.nextDescriptor
  others : ∀ fd', fd' ≠ fd → h'.descriptors fd' = h.descriptors fd'
  opened : (h'.descriptors fd).isSome
  nextDescriptor : h'.nextDescriptor = fd + 1
  sized : h.Sized → h'.Sized

theorem openExisting_added {h h' : Host Entry} {name : Name} {fd : Nat} (hs : h.openExisting name = (some fd, h')) :
    Added fd h h' := by
  unfold Host.openExisting Host.describe at hs
  split at hs
  · cases hs
  · cases hs
    exact ⟨rfl, fun fd' hfd => Function.update_of_ne hfd _ _, by simp, rfl, id⟩

theorem openTruncated_added [DecidableEq Entry] {h h' : Host Entry} {name : Name} {fd : Nat}
    (hs : h.openTruncated name = (some fd, h')) : Added fd h h' := by
  unfold Host.openTruncated Host.describe at hs
  split at hs
  · cases hs
  · have hempty (file : Nat) (bytes : Bytes.Buf) (hsized : h.Sized) :
        ∀ file', ((Function.update h.files file ⟨0, bytes⟩ file').size : Int) ≤ maxOffset := by
      intro file'
      by_cases hfile : file' = file
      · rw [hfile, Function.update_self]
        exact Int.le_of_lt (by decide : (0 : Int) < maxOffset)
      · rw [Function.update_of_ne hfile]
        exact hsized file'
    split at hs <;> cases hs <;> exact ⟨rfl, fun fd' hfd => Function.update_of_ne hfd _ _, by simp, rfl, hempty _ _⟩

/-- `Open` adds the descriptor of the file that it returns. -/
theorem open_added {h h' : Host Entry} {name : Name} {file : OpenFile} (hs : Stub.open h name = (some file, h')) :
    Added file.file h h' := by
  unfold Stub.open at hs
  split at hs
  · cases hs
  · rename_i fd h₁ ho
    cases hs
    exact openExisting_added ho

theorem close_ok {h h' : Host Entry} {fd : Nat} (hs : close h fd = .ok h') :
    h' = { h with descriptors := Function.update h.descriptors fd none } := by
  unfold close Host.close at hs
  obtain ⟨-, -, hs⟩ := of_bind_ok hs
  cases hs
  rfl

/-- `Create` uses a new descriptor, which it closes. -/
theorem create_descriptors [DecidableEq Entry] {h h' : Host Entry} {name : Name} {created : Bool}
    (hs : create h name = .ok (created, h')) :
    h'.nextDescriptor = h.nextDescriptor + 1 ∧ h'.descriptors h.nextDescriptor = none ∧
      (∀ fd, fd ≠ h.nextDescriptor → h'.descriptors fd = h.descriptors fd) ∧ (h.Sized → h'.Sized) := by
  unfold create openForWrite at hs
  obtain ⟨⟨fd, h₁⟩, ho, hs⟩ := of_bind_ok hs
  obtain ⟨h₂, hc, hs⟩ := of_bind_ok hs
  split at ho
  · cases ho
  · rename_i fd' h₁' hopen
    cases ho
    cases hs
    have ha := openTruncated_added hopen
    obtain rfl := ha.new
    rw [close_ok hc]
    exact ⟨ha.nextDescriptor, Function.update_self _ _ _,
      fun fd' hfd => (Function.update_of_ne hfd _ _).trans (ha.others fd' hfd), ha.sized⟩

theorem remove_descriptors [DecidableEq Entry] (h : Host Entry) (name : Name) :
    (remove h name).2.descriptors = h.descriptors ∧ (remove h name).2.nextDescriptor = h.nextDescriptor ∧
      (remove h name).2.files = h.files := by
  unfold remove Host.unlink
  split
  · exact ⟨rfl, rfl, rfl⟩
  · split <;> exact ⟨rfl, rfl, rfl⟩

end Stub

end Nachos
