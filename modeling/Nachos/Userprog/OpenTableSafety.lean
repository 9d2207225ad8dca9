import Nachos.Userprog.OpenTable

/-!
# What system calls do to the files of others

In any run of system calls: the console stays open, names stay different, `Open` shares or takes the least free slot, and the calls on
an open file leave all the others alone.
-/

namespace Nachos

open Loop Relation Posix FileSystemObject

variable {C : FileSystemClass}

/-! ## Open -/

/-- What `Open` does with a name. -/
structure OpenCall (s s' : System C) (name : Name) : Prop where
  held : ∀ (i : Fin 20) (entry : Listed C), 2 ≤ i.val → s.fileSystem.listFile i = some entry → entry.fileName = name →
    s'.readRegister 2 = BitVec.ofNat 32 i ∧ s'.fileSystem = s.fileSystem
  full : (∀ (i : Fin 20) (entry : Listed C), 2 ≤ i.val → s.fileSystem.listFile i = some entry → entry.fileName ≠ name) →
    (s'.readRegister 2 = -1 ↔ ∀ i : Fin 20, 2 ≤ i.val → (s.fileSystem.listFile i).isSome) ∧
      (s'.readRegister 2 = -1 → s'.fileSystem = s.fileSystem)
  free : (∀ (i : Fin 20) (entry : Listed C), 2 ≤ i.val → s.fileSystem.listFile i = some entry → entry.fileName ≠ name) →
    ∀ i : Fin 20, 2 ≤ i.val → s.fileSystem.listFile i = none →
      (∀ j : Fin 20, 2 ≤ j.val → j < i → (s.fileSystem.listFile j).isSome) →
      s'.readRegister 2 = BitVec.ofNat 32 i ∧
        (∃ entry, s'.fileSystem.listFile i = some entry ∧ entry.fileName = name) ∧
        ∀ j, j ≠ i → s'.fileSystem.listFile j = s.fileSystem.listFile j

/-- The number of a slot, as a register holds it. -/
theorem toInt_slot (i : Fin 20) : (BitVec.ofNat 32 i.val).toInt = i.val := by revert i; decide

/-- In a table with different names, `Open` does this. -/
theorem fileOpen_openCall {s s' : System C} {fresh : Fresh} (ht : OpenTable s.fileSystem) (h : s.fileOpen fresh = .ok s') :
    ∃ name s₁, s.openName fresh = .ok (name, s₁) ∧ OpenCall s s' name := by
  obtain ⟨name, s₁, hname, hcases⟩ := System.fileOpen_cases h
  refine ⟨name, s₁, hname, ?_⟩
  obtain ⟨i, hfind, hfs, hr⟩ | ⟨hfind, hnew⟩ := hcases
  · obtain ⟨h2, entry, he, hentry⟩ := FileTable.of_findName hfind
    refine ⟨?_, fun hno => absurd hentry (hno i entry h2 he),
      fun hno => absurd hentry (hno i entry h2 he)⟩
    intro j entry' h2' he' hentry'
    have hnames (k : Fin 20) (e : Listed C) (hk : s.fileSystem.listFile k = some e) (heq : e.fileName = name) :
        s.fileSystem.names k = some name := by
      unfold FileSystemObject.names
      rw [hk, Option.map_some, heq]
    obtain rfl := ht.names j i name h2' h2 (hnames j entry' he' hentry') (hnames i entry he hentry)
    exact ⟨hr, hfs⟩
  · have hno := FileTable.findName_eq_none.1 hfind
    refine ⟨fun j entry' h2' he' hentry' => absurd hentry' (hno j h2' entry' he'), ?_, ?_⟩
    · intro _
      obtain ⟨hfull, hfs, hr⟩ | ⟨i, file, files, hi, -, -, hr⟩ := hnew
      · exact ⟨iff_of_true hr (findFreeSlot_eq_none.1 hfull), fun _ => hfs⟩
      · obtain ⟨h2, hfree, -⟩ := findFreeSlot_eq_some.1 hi
        have hne : s'.readRegister 2 ≠ -1 := by
          rw [hr]
          intro hneg
          have := toInt_slot i
          rw [hneg, show (-1 : BitVec 32).toInt = -1 by decide] at this
          omega
        refine ⟨iff_of_false hne ?_, fun h => absurd h hne⟩
        intro hall
        have := hall i h2
        rw [hfree] at this
        cases this
    · intro _ i h2 hfree hleast
      have hi := findFreeSlot_eq_some.2 ⟨h2, hfree, hleast⟩
      obtain ⟨hfull, -, -⟩ | ⟨i', file, files, hi', -, hfs, hr⟩ := hnew
      · rw [hi] at hfull
        cases hfull
      · rw [hi] at hi'
        cases hi'
        rw [hfs]
        exact ⟨hr, ⟨_, Function.update_self _ _ _, rfl⟩, fun j hj => Function.update_of_ne hj _ _⟩

/-! ## The other files -/

namespace Stub

variable {Entry : Type} [DecidableEq Entry]

/-- The files other than the one at a number are left alone: their slots and their descriptors. -/
def OthersKept (id : BitVec 32) (fs fs' : FileSystemObject (stub Entry)) : Prop :=
  ∀ j : Fin 20, (j.val : Int) ≠ id.toInt → fs'.listFile j = fs.listFile j ∧
    ∀ fd, fds fs j = some fd → fs'.files.descriptors fd = fs.files.descriptors fd

theorem OthersKept.refl (id : BitVec 32) (fs : FileSystemObject (stub Entry)) : OthersKept id fs fs := fun _ _ => ⟨rfl, fun _ _ => rfl⟩

/-- Use of the file at a number. -/
theorem uses_kept {id : BitVec 32} {fs fs' : FileSystemObject (stub Entry)} (hd : Descriptors fs) (h : System.Uses id fs fs') :
    OthersKept id fs fs' ∧ fs'.names = fs.names ∧ fds fs' = fds fs := by
  obtain rfl | ⟨i, hi, h⟩ := h
  · exact ⟨.refl id _, rfl, rfl⟩
  · induction h with
    | refl => exact ⟨.refl id _, rfl, rfl⟩
    | @tail fs₁ fs₂ _ hu ih =>
      obtain ⟨hkept, hnames, hfds⟩ := ih
      obtain ⟨hfds', fd, hfd, hk⟩ := use_keeps hu
      refine ⟨?_, hu.names_eq.trans hnames, hfds'.trans hfds⟩
      intro j hj
      obtain ⟨hslot, hdesc⟩ := hkept j hj
      have hji : j ≠ i := by
        rintro rfl
        exact hj hi
      refine ⟨(hu.frame.1 j hji).trans hslot, ?_⟩
      intro fd' hfd'
      have hne : fd' ≠ fd := by
        rintro rfl
        rw [hfds] at hfd
        exact hji (hd.distinct j i _ trivial trivial hfd' hfd)
      rw [hk.others fd' hne]
      exact hdesc fd' hfd'

/-- `Close` leaves the other files alone. -/
theorem close_kept {s s' : System (stub Entry)} (hd : Descriptors s.fileSystem) (h : s.fileClose = .ok s') :
    OthersKept (s.readRegister 4) s.fileSystem s'.fileSystem := by
  obtain ⟨-, hfs, -⟩ | ⟨i, hi, h2, ⟨-, hfs, -⟩ | ⟨entry, files, he, hclose, hfs, -⟩⟩ := System.fileClose_cases h
  · rw [hfs]
    exact .refl _ _
  · rw [hfs]
    exact .refl _ _
  · rw [hfs]
    intro j hj
    have hji : j ≠ i := by
      rintro rfl
      exact hj hi
    refine ⟨Function.update_of_ne hji _ _, ?_⟩
    intro fd hfd
    have hfdi : fds s.fileSystem i = some entry.file.file := by
      unfold fds
      rw [he]
      rfl
    have hne : fd ≠ entry.file.file := by
      rintro rfl
      exact hji (hd.distinct j i _ trivial trivial hfd hfdi)
    dsimp only
    rw [close_ok hclose]
    exact Function.update_of_ne hne _ _

/-- No step takes the console away. -/
theorem step_console {fs fs' : FileSystemObject (stub Entry)} (h : FileSystemObject.Step fs fs') {i : Fin 20} (hi : i.val < 2) :
    fds fs' i = fds fs i := by
  have hupdate (j : Fin 20) (hj : 2 ≤ j.val) (entry : Option (Listed (stub Entry))) (files : Host Entry) :
      fds (⟨Function.update fs.listFile j entry, files⟩ : FileSystemObject (stub Entry)) i = fds fs i := by
    have hij : i ≠ j := by
      rintro rfl
      omega
    unfold fds
    dsimp only
    rw [Function.update_of_ne hij]
  cases h with
  | created h | removed _ h => rfl
  | opened _ hfree h => exact hupdate _ (findFreeSlot_eq_some.1 hfree).1 _ _
  | closed h2 _ h => exact hupdate _ h2 _ _
  | used h => exact congrFun (use_keeps h).1 i

theorem steps_console {fs fs' : FileSystemObject (stub Entry)} (h : ReflTransGen FileSystemObject.Step fs fs') {i : Fin 20}
    (hi : i.val < 2) : fds fs' i = fds fs i := by
  induction h with
  | refl => rfl
  | tail _ hlast ih => exact (step_console hlast hi).trans ih

section

variable {fs : FileSystemObject (stub Entry)} (h : (calls (stub Entry)).Reachable fs)

include h

/-- The console is open. -/
theorem console_open {i : Fin 20} (hi : i.val < 2) : ∃ fd, fds fs i = some fd ∧ (fs.files.descriptors fd).isSome := by
  obtain ⟨entry, he⟩ := Option.isSome_iff_exists.1 ((openTable_of_reachable h).console i hi)
  have hfd : fds fs i = some entry.file.file := by
    unfold fds
    rw [he]
    rfl
  exact ⟨_, hfd, (descriptors_of_reachable h).opened i _ hfd⟩

/-- No two slots for user programs hold a file of the same name. -/
theorem names_distinct {i j : Fin 20} {entry entry' : Listed (stub Entry)} (hi : 2 ≤ i.val) (hj : 2 ≤ j.val)
    (he : fs.listFile i = some entry) (he' : fs.listFile j = some entry') (heq : entry.fileName = entry'.fileName) : i = j := by
  refine (openTable_of_reachable h).names i j entry.fileName hi hj ?_ ?_
  · unfold names
    rw [he, Option.map_some]
  · unfold names
    rw [he', Option.map_some, heq]

end

/-- What a call has done to the table when it returns. -/
structure TableCall (s s' : System (stub Entry)) (fresh : Fresh) : Prop where
  console : ∀ i : Fin 20, i.val < 2 → fds s'.fileSystem i = fds s.fileSystem i
  opened : s.readRegister 2 = SyscallCode.open.number → ∃ name s₁, s.openName fresh = .ok (name, s₁) ∧ OpenCall s s' name
  closed : s.readRegister 2 = SyscallCode.close.number → OthersKept (s.readRegister 4) s.fileSystem s'.fileSystem
  transferred : s.readRegister 2 = SyscallCode.read.number ∨ s.readRegister 2 = SyscallCode.write.number →
    OthersKept (s.readRegister 6) s.fileSystem s'.fileSystem ∧ s'.fileSystem.names = s.fileSystem.names ∧
      fds s'.fileSystem = fds s.fileSystem
  sought : s.readRegister 2 = SyscallCode.seek.number →
    OthersKept (s.readRegister 5) s.fileSystem s'.fileSystem ∧ s'.fileSystem.names = s.fileSystem.names ∧
      fds s'.fileSystem = fds s.fileSystem

/-- `Open` shares or takes the least free slot, and the calls on an open file leave all the others alone. -/
theorem tableCall_of_reachable {s s' : System (stub Entry)} {fresh : Fresh} (h : (calls (stub Entry)).Reachable s.fileSystem)
    (hcall : s.exceptionHandler .syscallException fresh = .ok s') : TableCall s s' fresh := by
  have ht := openTable_of_reachable h
  have hd := descriptors_of_reachable h
  have hstep : ReflTransGen Step s.fileSystem s'.fileSystem := (calls_steps (stub Entry)).step _ _ h ⟨s, s', fresh, rfl, rfl, hcall⟩
  -- a code with a case is answered by the handler of the case
  have hcase (code : SyscallCode) (hcode : code ∈ SyscallCode.cases) (hr : s.readRegister 2 = code.number) :
      ∃ s₁, s.systemCall fresh code = .ok s₁ ∧ s'.fileSystem = s₁.fileSystem ∧ s'.readRegister 2 = s₁.readRegister 2 := by
    have hsel := SyscallCode.select_eq_some.2 ⟨hcode, hr.symm⟩
    obtain ⟨-, hnone⟩ | ⟨code', s₁, hsome, hs₁, rfl⟩ := System.of_exceptionHandler hcall
    · rw [hsel] at hnone
      cases hnone
    · rw [hsel] at hsome
      cases hsome
      exact ⟨s₁, hs₁, rfl, rfl⟩
  refine ⟨fun i hi => steps_console hstep hi, ?_, ?_, ?_, ?_⟩
  · intro hr
    obtain ⟨s₁, hs₁, hfs, hr₁⟩ := hcase .open (by decide) hr
    obtain ⟨name, s₂, hname, ho⟩ := fileOpen_openCall ht hs₁
    exact ⟨name, s₂, hname, ⟨by rw [hfs, hr₁]; exact ho.held, by rw [hfs, hr₁]; exact ho.full, by rw [hfs, hr₁]; exact ho.free⟩⟩
  · intro hr
    obtain ⟨s₁, hs₁, hfs, -⟩ := hcase .close (by decide) hr
    rw [hfs]
    exact close_kept hd hs₁
  · rintro (hr | hr)
    · obtain ⟨s₁, hs₁, hfs, -⟩ := hcase .read (by decide) hr
      rw [hfs]
      exact uses_kept hd (System.fileRead_uses hs₁)
    · obtain ⟨s₁, hs₁, hfs, -⟩ := hcase .write (by decide) hr
      rw [hfs]
      exact uses_kept hd (System.fileWrite_uses hs₁)
  · intro hr
    obtain ⟨s₁, hs₁, hfs, -⟩ := hcase .seek (by decide) hr
    rw [hfs]
    exact uses_kept hd (System.fileSeek_uses hs₁)

/-- The kernel, started on a host without files. -/
def started : FileSystemObject (stub Name) :=
  (new (stub Name) Host.empty fun _ _ _ => 0).toOption.getD ⟨fun _ => none, Host.empty⟩

theorem reachable_started : (calls (stub Name)).Reachable started :=
  .init ⟨Host.empty, fun _ _ _ => 0, ⟨fun _ _ => rfl, fun _ => Int.le_of_lt (by decide : (0 : Int) < maxOffset)⟩, rfl⟩

/-- The kernel after its start, called by a program. -/
def calling (type arg1 arg2 arg3 : BitVec 32) (mainMemory : Bytes.Buf) : System (stub Name) where
  machine := Machine.ofProgram (Machine.callRegisters type arg1 arg2 arg3) mainMemory
  fileSystem := started
  consoleIn _ := 0
  consoleOut := []

end Stub

end Nachos
