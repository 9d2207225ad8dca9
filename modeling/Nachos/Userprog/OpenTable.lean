import Nachos.Prelude.Slots
import Nachos.Filesys.StubSpec
import Nachos.Userprog.CallSteps

/-!
# The invariant of the table of the open files

Slots 0 and 1 hold the console, no two of the other slots hold files of the same name, and with the stub every slot has a descriptor of
its own, which is open.
-/

namespace Nachos

open Bytes Loop Relation Posix

namespace FileSystemObject

variable {C : FileSystemClass}

/-- The names in the table. -/
def names (fs : FileSystemObject C) : Fin 20 → Option Name := fun i => (fs.listFile i).map Listed.fileName

/-- The slots of the console are in use, and the other slots differ in their names. -/
structure OpenTable (fs : FileSystemObject C) : Prop where
  console : ∀ i : Fin 20, i.val < 2 → (fs.listFile i).isSome
  names : Slots.Distinct (fun i : Fin 20 => 2 ≤ i.val) fs.names

/-! ## The start -/

/-- The kernel starts with the console only. -/
theorem of_new {files : C.Files} {junk : Nat → Nat → Buf} {fs : FileSystemObject C} (h : new C files junk = .ok fs) :
    ∃ stdin stdout files₁ files₂ files₃ files₄ created created', C.create (junk 0) files (ascii "stdin") 0 = .ok (created, files₁) ∧
      C.create (junk 1) files₁ (ascii "stdout") 0 = .ok (created', files₂) ∧
      C.open (junk 2) files₂ (fun _ => none) (ascii "stdin") = .ok (some stdin, files₃) ∧
      C.open (junk 3) files₃ (fun i => if i = 0 then some stdin else none) (ascii "stdout") = .ok (some stdout, files₄) ∧
      fs.files = files₄ ∧ fs.listFile = Function.update (Function.update (fun _ => none) 0 (some ⟨stdin, ascii "stdin"⟩)) 1
        (some ⟨stdout, ascii "stdout"⟩) := by
  unfold new at h
  obtain ⟨⟨created, files₁⟩, h₁, h⟩ := of_bind_ok h
  obtain ⟨⟨created', files₂⟩, h₂, h⟩ := of_bind_ok h
  obtain ⟨fs₃, h₃, h⟩ := of_bind_ok h
  obtain ⟨stdin, files₃, hstdin, rfl⟩ := of_openListed h₃
  obtain ⟨stdout, files₄, hstdout, rfl⟩ := of_openListed h
  have htable : FileTable.files (C := C) (Function.update (fun _ => none) 0 (some ⟨stdin, ascii "stdin"⟩))
      = fun i => if i = 0 then some stdin else none := by
    funext i
    by_cases hi : i = 0
    · subst hi
      rfl
    · rw [if_neg hi]
      simp [FileTable.files, Function.update_of_ne hi]
  dsimp only at hstdout
  rw [htable] at hstdout
  exact ⟨stdin, stdout, files₁, files₂, files₃, files₄, created, created', h₁, h₂, hstdin, hstdout, rfl, rfl⟩

/-- Slots 0 and 1 are the console when the kernel starts. -/
theorem new_slots {files : C.Files} {junk : Nat → Nat → Buf} {fs : FileSystemObject C} (h : new C files junk = .ok fs)
    (i : Fin 20) : (fs.listFile i).isSome ↔ i.val < 2 := by
  obtain ⟨stdin, stdout, -, -, -, -, -, -, -, -, -, -, -, htable⟩ := of_new h
  rw [htable]
  by_cases h1 : i = 1
  · subst h1
    simp
  · by_cases h0 : i = 0
    · subst h0
      simp
    · rw [Function.update_of_ne h1, Function.update_of_ne h0]
      refine iff_of_false (by simp) ?_
      intro hlt
      have hi0 : i.val ≠ 0 := fun h => h0 (Fin.ext h)
      have hi1 : i.val ≠ 1 := fun h => h1 (Fin.ext h)
      omega

theorem new_openTable {files : C.Files} {junk : Nat → Nat → Buf} {fs : FileSystemObject C} (h : new C files junk = .ok fs) :
    OpenTable fs where
  console i hi := (new_slots h i).2 hi
  names i j name hi _ he _ := by
    obtain ⟨entry, he, -⟩ := Option.map_eq_some_iff.1 he
    have := (new_slots h i).1 (by rw [he]; rfl)
    omega

/-! ## Names and the console -/

/-- The invariant depends on the names only. -/
theorem OpenTable.of_names {fs fs' : FileSystemObject C} (ht : OpenTable fs) (h : fs'.names = fs.names) : OpenTable fs' where
  console i hi := by
    have hi' := congrFun h i
    unfold FileSystemObject.names at hi'
    rw [← Option.isSome_map (f := Listed.fileName), hi', Option.isSome_map]
    exact ht.console i hi
  names := by
    rw [h]
    exact ht.names

/-- Use of a file leaves the names alone. -/
theorem Use.names_eq {i : Fin 20} {fs fs' : FileSystemObject C} (h : Use i fs fs') : fs'.names = fs.names := by
  obtain ⟨hother, entry, entry', he, he', hname⟩ := h.frame
  funext j
  unfold names
  by_cases hj : j = i
  · rw [hj, he, he', Option.map_some, Option.map_some, hname]
  · rw [hother j hj]

/-- A change of one of the slots for user programs leaves the console alone. -/
theorem console_update {fs : FileSystemObject C} (ht : OpenTable fs) {i : Fin 20} (hi : 2 ≤ i.val) (entry : Option (Listed C))
    (j : Fin 20) (hj : j.val < 2) : (Function.update fs.listFile i entry j).isSome := by
  have hji : j ≠ i := by
    rintro rfl
    omega
  rw [Function.update_of_ne hji]
  exact ht.console j hj

/-- The invariant is kept by every step. -/
theorem Step.openTable {fs fs' : FileSystemObject C} (h : Step fs fs') (ht : OpenTable fs) : OpenTable fs' := by
  cases h with
  | created h | removed _ h => exact ht.of_names rfl
  | opened hname hi h =>
    obtain ⟨h2, hfree, -⟩ := findFreeSlot_eq_some.1 hi
    refine ⟨console_update ht h2 _, ?_⟩
    unfold names
    rw [Slots.map_update]
    refine ht.names.set _ ?_
    intro j hj heq
    obtain ⟨entry, he, hentry⟩ := Option.map_eq_some_iff.1 heq
    exact FileTable.findName_eq_none.1 hname j hj entry he hentry
  | closed hi he h =>
    refine ⟨console_update ht hi _, ?_⟩
    unfold names
    rw [Slots.map_update]
    exact ht.names.clear _
  | used h => exact ht.of_names h.names_eq

/-- In every run of system calls, the invariant holds. -/
theorem openTable_of_reachable {fs : FileSystemObject C} (h : (calls C).Reachable fs) : OpenTable fs :=
  Transition.System.Reachable.invariant (M := steps C) (fun _ ⟨_, _, _, h⟩ => new_openTable h)
    (fun _ _ _ ht h => Step.openTable h ht) ((calls_steps C).reachable h)

end FileSystemObject

/-! ## Descriptors -/

namespace Stub

open FileSystemObject

variable {Entry : Type} [DecidableEq Entry]

/-- The descriptors in the table. -/
def fds (fs : FileSystemObject (stub Entry)) : Fin 20 → Option Nat := fun i => (fs.listFile i).map fun entry => entry.file.file

/-- Every open file has an open descriptor of its own, and no file is too large. -/
structure Descriptors (fs : FileSystemObject (stub Entry)) : Prop where
  opened : ∀ i fd, fds fs i = some fd → (fs.files.descriptors fd).isSome
  distinct : Slots.Distinct (fun _ => True) (fds fs)
  fresh : ∀ fd, fs.files.nextDescriptor ≤ fd → fs.files.descriptors fd = none
  sized : Host.Sized fs.files

/-- The number of an open descriptor has been given out. -/
theorem Descriptors.lt {fs : FileSystemObject (stub Entry)} (hd : Descriptors fs) {i : Fin 20} {fd : Nat}
    (he : fds fs i = some fd) : fd < fs.files.nextDescriptor := by
  by_contra hlt
  have h := hd.opened i fd he
  rw [hd.fresh _ (by omega)] at h
  cases h

/-- The stub uses a file through its descriptor. -/
theorem use_keeps {i : Fin 20} {fs fs' : FileSystemObject (stub Entry)} (h : Use i fs fs') :
    fds fs' = fds fs ∧ ∃ fd, fds fs i = some fd ∧ Host.Keeps fd fs.files fs'.files := by
  have hupdate (entry entry' : Listed (stub Entry)) (he : fs.listFile i = some entry)
      (hfile : entry'.file.file = entry.file.file) (files : Host Entry) :
      fds (⟨Function.update fs.listFile i (some entry'), files⟩ : FileSystemObject (stub Entry)) = fds fs := by
    unfold fds
    rw [Slots.map_update, Option.map_some, hfile]
    exact Function.update_eq_iff.2 ⟨by rw [he]; rfl, fun _ _ => rfl⟩
  cases h with
  | read _ he h =>
    obtain ⟨hfile, hk⟩ := OpenFile.read_keeps h
    exact ⟨hupdate _ _ he hfile _, _, by unfold fds; rw [he]; rfl, hk⟩
  | written _ he h =>
    obtain ⟨hfile, hk⟩ := OpenFile.write_keeps h
    exact ⟨hupdate _ _ he hfile _, _, by unfold fds; rw [he]; rfl, hk⟩
  | measured _ he h => exact ⟨rfl, _, by unfold fds; rw [he]; rfl, OpenFile.length_keeps h⟩
  | sought _ he h =>
    obtain ⟨hfile, hk⟩ := OpenFile.seek_keeps h
    exact ⟨hupdate _ _ he hfile _, _, by unfold fds; rw [he]; rfl, hk⟩

/-- Nothing changes but which descriptors are in which state. -/
theorem Descriptors.of_isSome {fs fs' : FileSystemObject (stub Entry)} (hd : Descriptors fs) (hfds : fds fs' = fds fs)
    (hsome : ∀ fd, (fs'.files.descriptors fd).isSome = (fs.files.descriptors fd).isSome)
    (hnext : fs.files.nextDescriptor ≤ fs'.files.nextDescriptor) (hsized : Host.Sized fs.files → Host.Sized fs'.files) :
    Descriptors fs' where
  opened i fd he := by
    rw [hfds] at he
    rw [hsome]
    exact hd.opened i fd he
  distinct := by
    rw [hfds]
    exact hd.distinct
  fresh fd hfd := by
    have h := hsome fd
    rw [hd.fresh fd (by omega)] at h
    exact Option.not_isSome_iff_eq_none.1 (by rw [h]; simp)
  sized := hsized hd.sized

/-- A new file gets a descriptor that no other slot has. -/
theorem opened_descriptors {listFile : FileTable (stub Entry)} {files files' : Host Entry}
    (hd : Descriptors (⟨listFile, files⟩ : FileSystemObject (stub Entry))) (i : Fin 20) {file : OpenFile} (name : Name)
    (h : Added file.file files files') :
    Descriptors (⟨Function.update listFile i (some ⟨file, name⟩), files'⟩ : FileSystemObject (stub Entry)) := by
  have hnew := h.new
  have hfresh (j : Fin 20) : fds (⟨listFile, files⟩ : FileSystemObject (stub Entry)) j ≠ some file.file := by
    intro he
    have hlt := hd.lt he
    dsimp only at hlt
    omega
  have hfds : fds (⟨Function.update listFile i (some ⟨file, name⟩), files'⟩ : FileSystemObject (stub Entry))
      = Function.update (fds (⟨listFile, files⟩ : FileSystemObject (stub Entry))) i (some file.file) := Slots.map_update _ _ _ _
  refine ⟨?_, ?_, ?_, h.sized hd.sized⟩
  · intro j fd he
    rw [hfds] at he
    dsimp only
    by_cases hj : j = i
    · rw [hj, Function.update_self] at he
      cases he
      exact h.opened
    · rw [Function.update_of_ne hj] at he
      have hne : fd ≠ file.file := by
        rintro rfl
        exact hfresh j he
      rw [h.others fd hne]
      exact hd.opened j fd he
  · rw [hfds]
    exact hd.distinct.set i fun j _ => hfresh j
  · intro fd hfd
    have hnext := h.nextDescriptor
    dsimp only at hfd ⊢
    rw [h.others fd (by omega)]
    exact hd.fresh fd (show files.nextDescriptor ≤ fd by omega)

theorem create_isSome {h h' : Host Entry} {name : Name} {created : Bool} (hs : create h name = .ok (created, h'))
    (hfresh : h.descriptors h.nextDescriptor = none) :
    (∀ fd, (h'.descriptors fd).isSome = (h.descriptors fd).isSome) ∧ h.nextDescriptor ≤ h'.nextDescriptor ∧
      (h.Sized → h'.Sized) := by
  obtain ⟨hnext, hnone, hothers, hsized⟩ := create_descriptors hs
  refine ⟨?_, by omega, hsized⟩
  intro fd
  by_cases hfd : fd = h.nextDescriptor
  · rw [hfd, hnone, hfresh]
  · rw [hothers fd hfd]

/-- The invariant is kept by every step. -/
theorem step_descriptors {fs fs' : FileSystemObject (stub Entry)} (h : FileSystemObject.Step fs fs') (hd : Descriptors fs) :
    Descriptors fs' := by
  cases h with
  | created h =>
    obtain ⟨hsome, hnext, hsized⟩ := create_isSome h (hd.fresh _ (Nat.le_refl _))
    exact hd.of_isSome rfl hsome hnext hsized
  | @removed junk name removed files _ h =>
    obtain ⟨hsame, hnext, hcontents⟩ := remove_descriptors fs.files name
    have hfiles : files = (remove fs.files name).2 := congrArg Prod.snd (Except.ok.inj h).symm
    refine hd.of_isSome rfl ?_ ?_ ?_
    · intro fd
      dsimp only
      rw [hfiles, hsame]
    · dsimp only
      rw [hfiles, hnext]
    · intro hsized file
      rw [hfiles, hcontents]
      exact hsized file
  | opened _ _ h => exact opened_descriptors hd _ _ (open_added (Except.ok.inj h))
  | @closed i entry files hi he h =>
    have hfiles := close_ok h
    subst hfiles
    have hfd : fds fs i = some entry.file.file := by
      unfold fds
      rw [he]
      rfl
    have hfds : fds (⟨Function.update fs.listFile i none,
        { fs.files with descriptors := Function.update fs.files.descriptors entry.file.file none }⟩ : FileSystemObject (stub Entry))
        = Function.update (fds fs) i none := Slots.map_update _ _ _ _
    refine ⟨?_, ?_, ?_, hd.sized⟩
    · intro j fd hj
      rw [hfds] at hj
      dsimp only
      have hji : j ≠ i := by
        rintro rfl
        rw [Function.update_self] at hj
        cases hj
      rw [Function.update_of_ne hji] at hj
      have hne : fd ≠ entry.file.file := by
        rintro rfl
        exact hji (hd.distinct j i _ trivial trivial hj hfd)
      rw [Function.update_of_ne hne]
      exact hd.opened j fd hj
    · rw [hfds]
      exact hd.distinct.clear i
    · intro fd hfresh
      dsimp only at hfresh ⊢
      have := hd.lt hfd
      rw [Function.update_of_ne (by omega)]
      exact hd.fresh fd hfresh
  | used h =>
    obtain ⟨hfds, fd, -, hk⟩ := use_keeps h
    exact hd.of_isSome hfds hk.isSome (by rw [hk.nextDescriptor]) hk.sized

/-- The console is opened on descriptors of its own. -/
theorem new_descriptors {files : Host Entry} {junk : Nat → Nat → Buf} {fs : FileSystemObject (stub Entry)} (hvalid : files.Valid)
    (h : new (stub Entry) files junk = .ok fs) : Descriptors fs := by
  obtain ⟨stdin, stdout, files₁, files₂, files₃, files₄, _, _, h₁, h₂, h₃, h₄, hfiles, htable⟩ := of_new h
  have h0 : Descriptors (⟨fun _ => none, files⟩ : FileSystemObject (stub Entry)) := by
    refine ⟨?_, ?_, hvalid.descriptors, hvalid.sized⟩
    · intro i fd he
      cases he
    · intro i j fd _ _ he _
      cases he
  have hd₁ : Descriptors (⟨fun _ => none, files₁⟩ : FileSystemObject (stub Entry)) := step_descriptors (.created h₁) h0
  have hd₂ : Descriptors (⟨fun _ => none, files₂⟩ : FileSystemObject (stub Entry)) := step_descriptors (.created h₂) hd₁
  have hd₃ := opened_descriptors hd₂ 0 (ascii "stdin") (open_added (Except.ok.inj h₃))
  have hd₄ := opened_descriptors hd₃ 1 (ascii "stdout") (open_added (Except.ok.inj h₄))
  obtain ⟨listFile, files'⟩ := fs
  obtain rfl : files' = files₄ := hfiles
  obtain rfl := htable
  exact hd₄

/-- In every run of system calls, the files of the table have open descriptors of their own. -/
theorem descriptors_of_reachable {fs : FileSystemObject (stub Entry)} (h : (calls (stub Entry)).Reachable fs) : Descriptors fs :=
  Transition.System.Reachable.invariant (M := steps (stub Entry)) (fun _ ⟨_, _, hvalid, h⟩ => new_descriptors hvalid h)
    (fun _ _ _ hd h => step_descriptors h hd) ((calls_steps (stub Entry)).reachable h)

end Stub

end Nachos
