import Nachos.Userprog.FileSafety
import Nachos.Userprog.Lines

/-!
# Which arguments the calls let through

An index outside `ListFile` and a negative size given to `new` are faults of their own. The calls check their arguments so that most
values lead to neither; the values that do are listed here.
-/

namespace Nachos

open Bytes Loop Posix Machine CString

/-- A fault that is neither an index outside an array nor a size that `new` cannot serve. -/
def Mild (f : Fault) : Prop := f ≠ .outOfBounds ∧ f ≠ .badAlloc

instance (f : Fault) : Decidable (Mild f) := inferInstanceAs (Decidable (_ ∧ _))

/-- Every index stays inside its array and every size is one that `new` can serve. -/
def InBounds {α : Type} (x : Except Fault α) : Prop := Ends (fun _ => True) Mild x

theorem InBounds.ok {α : Type} (a : α) : InBounds (.ok a) := Ends.ok trivial

theorem InBounds.bind {α β : Type} {x : Except Fault α} {f : α → Except Fault β} (h : InBounds x) (hf : ∀ a, InBounds (f a)) :
    InBounds (x >>= f) := Ends.bind h fun a _ => hf a

theorem inBounds_bind {α β : Type} {Q : α → Prop} {x : Except Fault α} {f : α → Except Fault β} (h : Ends Q Mild x)
    (hf : ∀ a, Q a → InBounds (f a)) : InBounds (x >>= f) := Ends.bind h hf

theorem inBounds_map {α β : Type} {x : Except Fault α} (f : α → β) : InBounds (x.map f) ↔ InBounds x := Ends.map_iff f

theorem not_inBounds {α : Type} {x : Except Fault α} {f : Fault} (hx : x = .error f) (hf : ¬Mild f) : ¬InBounds x :=
  Ends.not_of_error hx hf

theorem assert_mild (c : Prop) [Decidable c] : Ends (fun _ => c) Mild (assert c) := by
  by_cases h : c
  · rw [assert_of h]
    exact .ok h
  · rw [assert_not h]
    exact .error (by decide)

/-! ## The copies -/

theorem CopyFault.mild {m : Machine} (hl : (m.registers Reg.loadReg).toNat < 32) {f : Fault} (h : CopyFault m f) : Mild f := by
  obtain rfl | ⟨rfl, -⟩ := h hl <;> decide

theorem user2System_mild {m : Machine} (hl : (m.registers Reg.loadReg).toNat < 32) (virtAddr : BitVec 32) {limit : BitVec 32}
    (hlimit : ¬BadLimit limit) (junk : Buf) :
    Ends (fun r : KernelBuffer × Machine => Touched m r.2 ∧ r.1.size = (limit.toInt + 1).toNat ∧
      r.1.bytes = strncpy (fun _ => 0) (m.userBytes virtAddr) limit.toInt.toNat) Mild (m.user2System virtAddr limit junk) :=
  (user2System_ends m virtAddr limit junk).mono (fun _ h => h) fun _ h => h.elim (fun h => absurd h hlimit) (CopyFault.mild hl)

theorem system2User_mild {m : Machine} (hl : (m.registers Reg.loadReg).toNat < 32) (virtAddr : BitVec 32) {len : Int}
    {buffer : KernelBuffer} (hlen : len ≤ buffer.size) : InBounds (m.system2User virtAddr len buffer) :=
  (system2User_ends m virtAddr len buffer).mono (fun _ _ => trivial) fun _ h =>
    h.elim (fun h => absurd hlen (by omega)) (CopyFault.mild hl)

namespace KernelBuffer

theorem new_mild {size : Int} (h : 0 ≤ size) (junk : Buf) : InBounds (KernelBuffer.new size junk) := by
  unfold KernelBuffer.new
  rw [newChars_of h]
  exact .ok _

/-- A search for a byte that the buffer begins with. -/
theorem upTo_mild {b : KernelBuffer} {stop : UInt8 → Bool} (hsize : 0 < b.size) (h : stop (b.bytes 0) = true) : InBounds (b.upTo stop) := by
  obtain ⟨text, htext⟩ := upTo_of _ hsize h
  exact .of_eq htext trivial

end KernelBuffer

/-! ## The stub -/

namespace Stub

variable {Entry : Type}

theorem lseek_mild (h : Host Entry) (fd : Nat) (offset : Int) (whence : Whence) : InBounds (lseek h fd offset whence) := by
  unfold lseek
  generalize h.lseek fd offset whence = r
  exact inBounds_bind (assert_mild _) fun _ _ => .ok _

/-- A read gives at most what is asked for. -/
theorem read_mild (f : OpenFile) (h : Host Entry) (into : Buf) (numBytes : Int) :
    Ends (fun r : Int × Buf × OpenFile × Host Entry => r.1 ≤ max 0 numBytes) Mild (f.read h into numBytes) := by
  unfold OpenFile.read OpenFile.readAt
  refine Ends.bind (Q := fun r : Int × Buf × Host Entry => r.1 ≤ max 0 numBytes) ?_ fun r hr => .ok hr
  exact Ends.bind (lseek_mild h f.file f.currentOffset .set) fun h _ => .ok (h.read_le f.file numBytes)

/-- A write takes all that it is given, or the simulator stops. -/
theorem write_mild (f : OpenFile) (h : Host Entry) (src : Buf) (numBytes : Int) :
    Ends (fun r : Int × OpenFile × Host Entry => r.1 = numBytes) Mild (f.write h src numBytes) := by
  unfold OpenFile.write OpenFile.writeAt
  refine Ends.bind (Q := fun r : Int × Host Entry => r.1 = numBytes) ?_ fun r hr => .ok hr
  refine Ends.bind (lseek_mild h f.file f.currentOffset .set) ?_
  intro h _
  have hwrite : InBounds (writeFile h f.file src numBytes) := by
    unfold writeFile
    generalize h.write f.file src numBytes = r
    exact inBounds_bind (assert_mild _) fun _ _ => .ok _
  exact Ends.bind hwrite fun h _ => .ok rfl

theorem length_mild (f : OpenFile) (h : Host Entry) : InBounds (f.length h) :=
  (lseek_mild h f.file 0 .end).bind fun _ => .ok _

theorem seek_mild (f : OpenFile) (h : Host Entry) (pos : Int) : InBounds (f.seek h pos) :=
  (lseek_mild h f.file pos .set).bind fun _ => .ok _

theorem close_mild (h : Host Entry) (fd : Nat) : InBounds (close h fd) := by
  unfold close
  generalize h.close fd = r
  exact inBounds_bind (assert_mild _) fun _ _ => .ok _

end Stub

namespace FileTable

variable {C : FileSystemClass} {listFile : FileTable C}

theorem slot_mild {id : Int} (h0 : 0 ≤ id) (h20 : id < 20) :
    Ends (fun r : Fin 20 × Option (Listed C) => (r.1.val : Int) = id ∧ r.2 = listFile r.1) Mild (listFile.slot id) := by
  unfold slot
  rw [dif_pos ⟨h0, h20⟩]
  exact .ok ⟨by dsimp only; omega, rfl⟩

end FileTable

/-! ## The calls -/

namespace System

/-- The arguments that a call rejects or can work with. -/
def ArgumentsInRange {C : FileSystemClass} (s : System C) : SyscallCode → Prop
  | .close => (s.readRegister 4).toInt ≠ 20
  | .read => (s.readRegister 6).toInt ≠ 20 ∧
      ∀ i : Fin 20, 1 ≤ i.val → (i.val : Int) = (s.readRegister 6).toInt → (s.fileSystem.listFile i).isSome →
        ¬BadLimit (s.readRegister 5)
  | .write => 0 ≤ (s.readRegister 5).toInt ∧ (s.readRegister 6).toInt ≠ 20 ∧
      ∀ i : Fin 20, 1 ≤ i.val → (i.val : Int) = (s.readRegister 6).toInt → (s.fileSystem.listFile i).isSome →
        ¬BadLimit (s.readRegister 5)
  | .seek => (s.readRegister 5).toInt ≠ 20
  | .readString => ¬BadLimit (s.readRegister 5)
  | _ => True

section ReadString

variable {C : FileSystemClass} {s : System C} (fresh : Fresh)

/-- How `ReadString` can stop: there is no buffer, or a copy ends early. -/
theorem readString_ends :
    Ends (fun _ => True) (fun f => BadLimit (s.readRegister 5) ∧ f = .badAlloc ∨ CopyFault s.machine f) (s.readString fresh) := by
  unfold readString
  by_cases hbad : BadLimit (s.readRegister 5)
  · dsimp only
    rw [user2System_bad hbad]
    exact .error (.inl ⟨hbad, rfl⟩)
  refine ((s.machine.user2System_ends (s.readRegister 4) (s.readRegister 5) (fresh.junk 0)).mono (fun _ h => h) fun f hf =>
    .inr (hf.resolve_left hbad)).bind ?_
  rintro ⟨str, machine⟩ ⟨htouch, hsize, -⟩
  dsimp only at htouch hsize ⊢
  by_cases h0 : (s.readRegister 5).toInt ≤ 0
  · unfold readString2KeyBoard
    rw [if_pos h0]
    exact .ok trivial
  · have hfront : Input.front endsString ((s.readRegister 5).toInt - 1).toNat s.typed ≤ _ := Input.front_le
    rw [readString2KeyBoard_eq _ _ (by omega) (by omega)]
    refine ((machine.system2User_ends _ _ _).mono (fun _ _ => trivial) ?_).bind fun _ _ => .ok trivial
    rintro f (hlt | hf)
    · have hlt : (str.size : Int) < Input.front endsString ((s.readRegister 5).toInt - 1).toNat s.typed := hlt
      omega
    · exact .inr (htouch.copyFault hf)

/-- `ReadString` stays inside its buffer whenever there is one. -/
theorem readString_inBounds (hl : (s.machine.registers Reg.loadReg).toNat < 32) :
    InBounds (s.readString fresh) ↔ s.ArgumentsInRange .readString := by
  constructor
  · intro h hbad
    unfold readString at h
    dsimp only at h
    rw [user2System_bad hbad] at h
    exact not_inBounds rfl (by decide) h
  · intro hlimit
    refine (readString_ends fresh).mono (fun _ h => h) ?_
    rintro f (⟨hbad, -⟩ | hf)
    · exact absurd hbad hlimit
    · exact CopyFault.mild hl hf

end ReadString

variable {Entry : Type} [DecidableEq Entry] {s : System (stub Entry)}

theorem fileClose_inBounds : InBounds s.fileClose ↔ s.ArgumentsInRange .close := by
  unfold ArgumentsInRange fileClose
  dsimp only
  constructor
  · intro h heq
    rw [heq] at h
    exact not_inBounds rfl (by decide) h
  · intro hne
    split
    · exact .ok _
    · refine inBounds_bind (FileTable.slot_mild (by omega) (by omega)) ?_
      rintro ⟨i, _ | entry⟩ -
      · exact .ok _
      · exact (Stub.close_mild s.fileSystem.files entry.file.file).bind fun _ => .ok _

theorem fileSeek_inBounds : InBounds s.fileSeek ↔ s.ArgumentsInRange .seek := by
  unfold ArgumentsInRange fileSeek
  dsimp only
  constructor
  · intro h heq
    rw [heq] at h
    exact not_inBounds rfl (by decide) h
  · intro hne
    split
    · exact .ok _
    · refine inBounds_bind (FileTable.slot_mild (by omega) (by omega)) ?_
      rintro ⟨i, _ | entry⟩ -
      · exact .ok _
      · dsimp only
        split
        · exact .ok _
        · have hpos : InBounds (if (s.readRegister 4).toInt = -1 then (stub Entry).length s.fileSystem.files entry.file
              else .ok ((s.readRegister 4).toInt, s.fileSystem.files)) := by
            split
            · exact Stub.length_mild entry.file s.fileSystem.files
            · exact .ok _
          refine hpos.bind ?_
          rintro ⟨pos, files⟩
          refine InBounds.bind (Stub.length_mild entry.file files) ?_
          rintro ⟨length, files⟩
          dsimp only
          split
          · exact .ok _
          · exact (Stub.seek_mild entry.file files pos).bind fun _ => .ok _

section Entered

variable (hl : (s.machine.registers Reg.loadReg).toNat < 32) (fresh : Fresh)

include hl

theorem fileRead_inBounds : InBounds (s.fileRead fresh) ↔ s.ArgumentsInRange .read := by
  unfold ArgumentsInRange fileRead
  dsimp only
  constructor
  · intro h
    refine ⟨?_, ?_⟩
    · intro heq
      rw [heq] at h
      exact not_inBounds rfl (by decide) h
    · intro i hi heq hsome hbad
      obtain ⟨entry, he⟩ := Option.isSome_iff_exists.1 hsome
      rw [← heq, if_neg (by omega), FileTable.slot_of, ok_bind, he] at h
      dsimp only at h
      rw [if_neg (by omega), user2System_bad hbad] at h
      exact not_inBounds rfl (by decide) h
  · rintro ⟨hne, hsize⟩
    split
    · exact .ok _
    · refine inBounds_bind (FileTable.slot_mild (by omega) (by omega)) ?_
      rintro ⟨i, found⟩ ⟨hi, hfound⟩
      dsimp only at hi hfound
      cases found with
      | none => exact .ok _
      | some entry =>
        dsimp only
        split
        · exact .error (by decide)
        · have hlimit := hsize i (by omega) hi (by rw [← hfound]; rfl)
          refine inBounds_bind (user2System_mild hl _ hlimit _) ?_
          rintro ⟨buffer, machine⟩ ⟨htouch, hbuffer, -⟩
          refine inBounds_bind (Stub.read_mild entry.file s.fileSystem.files buffer.bytes _) ?_
          rintro ⟨n_buf, bytes, file, files⟩ hn
          dsimp only at htouch hbuffer hn ⊢
          unfold BadLimit at hlimit
          split
          · refine inBounds_bind (system2User_mild ?_ _ (by dsimp only; omega)) fun _ _ => .ok _
            change (machine.registers Reg.loadReg).toNat < 32
            rw [htouch.registers]
            exact hl
          · exact .ok _

theorem fileWrite_inBounds : InBounds (s.fileWrite fresh) ↔ s.ArgumentsInRange .write := by
  unfold ArgumentsInRange fileWrite
  dsimp only
  constructor
  · intro h
    have h0 : 0 ≤ (s.readRegister 5).toInt := by
      by_contra hneg
      unfold KernelBuffer.new newChars at h
      rw [if_pos (by omega)] at h
      exact not_inBounds rfl (by decide) h
    unfold KernelBuffer.new at h
    rw [newChars_of h0] at h
    refine ⟨h0, ?_, ?_⟩
    · intro heq
      rw [heq] at h
      exact not_inBounds rfl (by decide) h
    · intro i hi heq hsome hbad
      obtain ⟨entry, he⟩ := Option.isSome_iff_exists.1 hsome
      rw [← heq, ok_bind, if_neg (by omega), FileTable.slot_of, ok_bind, he] at h
      dsimp only at h
      rw [if_neg (by omega), user2System_bad hbad] at h
      exact not_inBounds rfl (by decide) h
  · rintro ⟨h0, hne, hsize⟩
    refine inBounds_bind (KernelBuffer.new_mild h0 _) ?_
    intro _ _
    split
    · exact .ok _
    · refine inBounds_bind (FileTable.slot_mild (by omega) (by omega)) ?_
      rintro ⟨i, found⟩ ⟨hi, hfound⟩
      dsimp only at hi hfound
      cases found with
      | none => exact .ok _
      | some entry =>
        dsimp only
        split
        · exact .ok _
        · have hlimit := hsize i (by omega) hi (by rw [← hfound]; rfl)
          refine inBounds_bind (user2System_mild hl _ hlimit _) ?_
          rintro ⟨buffer, machine⟩ ⟨-, hbuffer, hbytes⟩
          refine inBounds_bind (Stub.write_mild entry.file s.fileSystem.files buffer.bytes _) ?_
          rintro ⟨n_buf, file, files⟩ hn
          dsimp only at hbuffer hbytes hn ⊢
          split
          · exact .ok _
          · split
            · -- nothing was to be written, and the buffer holds the terminator only
              have hzero : (s.readRegister 5).toInt = 0 := by omega
              refine inBounds_bind (KernelBuffer.upTo_mild (by omega) ?_) fun _ _ => .ok _
              rw [hbytes, hzero]
              rfl
            · exact .ok _

end Entered

/-- With any table of open files, when the kernel is entered as after an exception, with no load pending, `Close`, `Read`, `Write`,
`Seek` and `ReadString` stay inside the table and ask for buffers of a possible size exactly for these arguments. -/
theorem arguments_checked (hload : s.readRegister Reg.loadReg = 0)
    {code : SyscallCode} (hcode : code ∈ [SyscallCode.close, .read, .write, .seek, .readString])
    (hr : s.readRegister 2 = code.number) (fresh : Fresh) :
    InBounds (s.exceptionHandler .syscallException fresh) ↔ s.ArgumentsInRange code := by
  have hl : (s.machine.registers Reg.loadReg).toNat < 32 := by
    change (s.readRegister Reg.loadReg).toNat < 32
    rw [hload]
    decide
  have hcases : ∀ code ∈ [SyscallCode.close, .read, .write, .seek, .readString], code ∈ SyscallCode.cases := by decide
  rw [exceptionHandler_of (hcases code hcode) hr, inBounds_map]
  simp only [List.mem_cons, List.not_mem_nil, or_false] at hcode
  rcases hcode with rfl | rfl | rfl | rfl | rfl
  · exact fileClose_inBounds
  · exact fileRead_inBounds hl fresh
  · exact fileWrite_inBounds hl fresh
  · exact fileSeek_inBounds
  · exact readString_inBounds fresh hl

/-- A program reads from the file that it has opened. -/
def readingStdin (bufferSize : BitVec 32) : System (stub Name) :=
  { Stub.calling 7 0 bufferSize 2 (fun _ => 0) with fileSystem := Stub.stdinOpened.fileSystem }

/-- `Read(0, 100, 19)` is in range, with nothing open there, and so is `Read(0, 100, 2)` with a file open; `Read(0, -2, 2)` is not. -/
theorem arguments_checked_read :
    InBounds ((Stub.calling 7 0 100 19 fun _ => 0).exceptionHandler .syscallException .zero) ∧
    (Stub.stdinOpened.fileSystem.listFile 2).isSome ∧ InBounds ((readingStdin 100).exceptionHandler .syscallException .zero) ∧
    ¬InBounds ((readingStdin (-2)).exceptionHandler .syscallException .zero) := by
  refine ⟨?_, rfl, ?_, ?_⟩
  · exact (arguments_checked rfl (by decide) (show _ = SyscallCode.read.number from rfl) .zero).2 ⟨by decide, fun _ _ _ _ => by decide⟩
  · exact (arguments_checked (s := readingStdin 100) rfl (show SyscallCode.read ∈ _ by decide) rfl .zero).2
      ⟨by decide, fun _ _ _ _ => by change ¬BadLimit 100; decide⟩
  · intro h
    have hrange := (arguments_checked (s := readingStdin (-2)) rfl (show SyscallCode.read ∈ _ by decide) rfl .zero).1 h
    exact hrange.2 2 (by decide) rfl rfl (show BadLimit (-2) by decide)

/-- `Close(20)` passes the check and reads behind the end of the table. -/
theorem arguments_unchecked : (calls (stub Name)).Reachable (Stub.calling 10 20 0 0 fun _ => 0).fileSystem ∧
    (Stub.calling 10 20 0 0 fun _ => 0).exceptionHandler .syscallException .zero = .error .outOfBounds :=
  ⟨Stub.reachable_started, rfl⟩

end System

end Nachos
