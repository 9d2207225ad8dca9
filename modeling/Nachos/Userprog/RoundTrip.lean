import Mathlib.Data.Fintype.Card
import Nachos.Filesys.StubFile
import Nachos.Userprog.FileSafety

/-!
# Writing to a file and reading it back

The bytes go through `User2System`, the file and `System2User`. Both copies stop at the first zero byte: the file gets zeros behind it,
and the user gets nothing.
-/

namespace Nachos

open Bytes Loop Posix CString FileSystemObject

namespace Machine

/-- Another state of the machine with the same user memory. -/
structure SameMemory (m m' : Machine) : Prop extends SameMapping m m' where
  mainMemory : m'.mainMemory = m.mainMemory

theorem SameMemory.trans {m₁ m₂ m₃ : Machine} (h : SameMemory m₁ m₂) (h' : SameMemory m₂ m₃) : SameMemory m₁ m₃ :=
  ⟨⟨h'.pageTableSize.trans h.pageTableSize, h'.pageTable.trans h.pageTable, h'.tlb.trans h.tlb⟩, h'.mainMemory.trans h.mainMemory⟩

/-- Registers are not memory. -/
theorem SameMemory.of_registers (m : Machine) (registers : Reg → BitVec 32) : SameMemory m { m with registers } :=
  ⟨⟨rfl, rfl, rfl⟩, rfl⟩

theorem Touched.sameMemory {m m' : Machine} (h : Touched m m') : SameMemory m m' := ⟨h.toSameMapping, h.mainMemory⟩

theorem SameMemory.userBytes_eq {m m' : Machine} (h : SameMemory m m') : m'.userBytes = m.userBytes := by
  funext virtAddr
  unfold userBytes
  rw [h.physical_eq, h.mainMemory]

/-- The page table of an address space maps no two pages to one frame. -/
def OneToOne (m : Machine) : Prop :=
  ∀ virtAddr virtAddr' p, m.physical virtAddr false = some p → m.physical virtAddr' false = some p → virtAddr = virtAddr'

/-- Bytes from an address on that can be read and written. -/
def Buffer (m : Machine) (virtAddr : BitVec 32) (n : Nat) : Prop := ∀ j < n, (m.physical (virtAddr + BitVec.ofNat 32 j) true).isSome

theorem Buffer.readable {m : Machine} {virtAddr : BitVec 32} {n : Nat} (h : m.Buffer virtAddr n) {j : Nat} (hj : j < n) :
    (m.physical (virtAddr + BitVec.ofNat 32 j) false).isSome := by
  obtain ⟨p, hp⟩ := Option.isSome_iff_exists.1 (h j hj)
  rw [physical_of_writing hp]
  rfl

theorem Buffer.of_le {m : Machine} {virtAddr : BitVec 32} {n k : Nat} (h : m.Buffer virtAddr n) (hk : k ≤ n) : m.Buffer virtAddr k :=
  fun j hj => h j (by omega)

theorem SameMapping.buffer {m m' : Machine} (h : SameMapping m m') {virtAddr : BitVec 32} {n : Nat} (hb : m.Buffer virtAddr n) :
    m'.Buffer virtAddr n := by
  unfold Buffer
  rw [h.physical_eq]
  exact hb

theorem SameMapping.oneToOne {m m' : Machine} (h : SameMapping m m') (hone : m.OneToOne) : m'.OneToOne := by
  unfold OneToOne
  rw [h.physical_eq]
  exact hone

/-- The address space of a program maps every page to the frame of the same number. -/
theorem Identity.oneToOne {m : Machine} (h : m.Identity) : m.OneToOne := by
  intro virtAddr virtAddr' p hp hp'
  exact BitVec.toNat_inj.1 ((h.eq_of_physical hp).symm.trans (h.eq_of_physical hp'))

theorem oneToOne_ofProgram (registers : Reg → BitVec 32) (mainMemory : Buf) : (ofProgram registers mainMemory).OneToOne :=
  (identity_ofProgram registers mainMemory).oneToOne

theorem buffer_ofProgram (registers : Reg → BitVec 32) (mainMemory : Buf) {a n : Nat} (h : a + n ≤ memorySize) :
    (ofProgram registers mainMemory).Buffer (BitVec.ofNat 32 a) n := by
  intro j hj
  rw [← BitVec.ofNat_add]
  exact Option.isSome_iff_exists.2 ⟨_, ofProgram_physical _ _ (by omega) _⟩

/-- Different bytes of a buffer have different addresses. -/
theorem add_ofNat_inj {virtAddr : BitVec 32} {j k : Nat} (hj : j < 2 ^ 32) (hk : k < 2 ^ 32)
    (h : virtAddr + BitVec.ofNat 32 j = virtAddr + BitVec.ofNat 32 k) : j = k := by
  have hjk := congrArg BitVec.toNat ((BitVec.add_right_inj virtAddr).1 h)
  rwa [BitVec.toNat_ofNat, BitVec.toNat_ofNat, Nat.mod_eq_of_lt hj, Nat.mod_eq_of_lt hk] at hjk

/-- A buffer is not larger than main memory. -/
theorem Buffer.le {m : Machine} (hone : m.OneToOne) {virtAddr : BitVec 32} {n : Nat} (h : m.Buffer virtAddr n) : n ≤ memorySize := by
  by_contra hn
  have hplace (j : Fin (memorySize + 1)) : ∃ p : Fin memorySize, m.physical (virtAddr + BitVec.ofNat 32 j) false = some p.val := by
    obtain ⟨p, hp⟩ := Option.isSome_iff_exists.1 (h.readable (show j.val < n by omega))
    exact ⟨⟨p, physical_lt hp⟩, hp⟩
  choose place hplace using hplace
  have hinj : Function.Injective place := by
    intro j k hjk
    have hk := hplace k
    rw [← hjk] at hk
    have hmem : memorySize < 2 ^ 32 := by decide
    exact Fin.ext (add_ofNat_inj (by omega) (by omega) (hone _ _ _ (hplace j) hk))
  have := Fintype.card_le_of_injective place hinj
  simp at this

/-- The kernel gets the string in a buffer. -/
theorem Buffer.user2System {m : Machine} (hone : m.OneToOne) {virtAddr n : BitVec 32} (hn : 1 ≤ n.toInt)
    (hb : m.Buffer virtAddr n.toInt.toNat) (junk : Buf) :
    ∃ r, m.user2System virtAddr n junk = .ok r ∧ Touched m r.2 ∧ r.1.size = (n.toInt + 1).toNat ∧
      r.1.bytes = strncpy (fun _ => 0) (m.userBytes virtAddr) n.toInt.toNat := by
  have hle : n.toInt.toNat ≤ 16384 := hb.le hone
  have hlimit : ¬BadLimit n := by
    unfold BadLimit
    omega
  obtain ⟨r, hr⟩ : ∃ r, m.user2System virtAddr n junk = .ok r := user2System_returns hlimit (fun j hj _ => hb.readable hj) junk
  exact ⟨r, hr, (user2System_ends m virtAddr n junk).of_ok hr⟩

/-- The user memory after a copy to a buffer. -/
theorem Copied.userBytes_there {m m' : Machine} {virtAddr : BitVec 32} {src : Buf} {n : Nat} (h : Copied m virtAddr src 0 n m')
    (hone : m.OneToOne) (hb : m.Buffer virtAddr n) {j : Nat} (hj : j < n) :
    m'.userBytes virtAddr j = if ∀ l < j, src l ≠ 0 then src j else m.userBytes virtAddr j := by
  have hle : n ≤ 16384 := hb.le hone
  obtain ⟨p, hp⟩ := Option.isSome_iff_exists.1 (hb j hj)
  have hthere := h.there (fun j k p _ hj _ hk hpj hpk =>
    add_ofNat_inj (by omega) (by omega) (hone _ _ _ (physical_of_writing hpj) (physical_of_writing hpk))) j p (by omega) (by omega) hp
  unfold userBytes
  rw [h.toSameMapping.physical_eq, physical_of_writing hp]
  exact hthere.trans (if_congr ⟨fun hall l hl => hall l (Nat.zero_le _) hl, fun hall l _ hl => hall l hl⟩ rfl rfl)

theorem Copied.userBytes_elsewhere {m m' : Machine} {virtAddr : BitVec 32} {src : Buf} {n : Nat} (h : Copied m virtAddr src 0 n m')
    (hone : m.OneToOne) {addr : BitVec 32} (haddr : ∀ j < n, addr ≠ virtAddr + BitVec.ofNat 32 j) :
    m'.userBytes addr 0 = m.userBytes addr 0 := by
  unfold userBytes
  rw [h.toSameMapping.physical_eq, BitVec.add_zero]
  cases hp : m.physical addr false with
  | none => rfl
  | some p => exact h.elsewhere p fun j _ hj hpj => haddr j (by omega) (hone _ _ _ hp (physical_of_writing hpj))

end Machine

namespace System

variable {C : FileSystemClass} {s : System C} {fresh : Fresh} {i : Fin 20} {entry : Listed C}

/-- `Write` to a file that is not the console, once the bytes of the user are in the kernel. -/
theorem fileWrite_eq (he : s.fileSystem.listFile i = some entry) (h2 : 2 ≤ i.val) (hi : (s.readRegister 6).toInt = i.val)
    (hn : 0 ≤ (s.readRegister 5).toInt) {buffer : KernelBuffer} {machine : Machine}
    (hcopy : s.machine.user2System (s.readRegister 4) (s.readRegister 5) (fresh.heap 1) = .ok (buffer, machine)) :
    s.fileWrite fresh =
      (C.write fresh.junk s.fileSystem.files entry.file buffer.bytes (s.readRegister 5).toInt).map fun (n_buf, file, files) =>
        let s := { s with machine }.setSlot i (some { entry with file }) files
        if n_buf > 0 then s.writeRegister 2 (BitVec.ofInt 32 n_buf) else s := by
  unfold fileWrite KernelBuffer.new
  simp only [hi]
  rw [newChars_of hn, if_neg (by omega), FileTable.slot_of, he, hcopy]
  have h0 : ¬(i.val : Int) = 0 := by omega
  have h1 : ¬(i.val : Int) = 1 := by omega
  simp only [if_neg h0, if_neg h1, ok_bind]
  cases C.write fresh.junk s.fileSystem.files entry.file buffer.bytes (s.readRegister 5).toInt with
  | error f => rfl
  | ok r =>
    obtain ⟨n_buf, file, files⟩ := r
    change (if n_buf > 0 then _ else _) = Except.ok (if n_buf > 0 then _ else _)
    split <;> rfl

/-- `Read` from a file that is not the console. -/
theorem fileRead_eq (he : s.fileSystem.listFile i = some entry) (h2 : 2 ≤ i.val) (hi : (s.readRegister 6).toInt = i.val)
    {buffer : KernelBuffer} {machine : Machine}
    (hcopy : s.machine.user2System (s.readRegister 4) (s.readRegister 5) (fresh.heap 0) = .ok (buffer, machine)) {n_buf : Int}
    {bytes : Buf} {file : C.OpenFile} {files : C.Files} (hpos : n_buf > 0)
    (hread : C.read s.fileSystem.files entry.file buffer.bytes (s.readRegister 5).toInt = .ok (n_buf, bytes, file, files)) :
    s.fileRead fresh = (machine.system2User (s.readRegister 4) n_buf { buffer with bytes }).map fun r =>
      ({ s with machine := r.2 }.setSlot i (some { entry with file }) files).writeRegister 2 (BitVec.ofInt 32 n_buf) := by
  unfold fileRead
  simp only [hi]
  rw [if_neg (by omega), FileTable.slot_of, he, hcopy]
  have h0 : ¬(i.val : Int) = 0 := by omega
  simp only [if_neg h0, ok_bind, hread]
  change (if n_buf > 0 then _ else _) = _
  rw [if_pos hpos]
  change (machine.system2User (s.readRegister 4) n_buf { buffer with bytes } >>= _) = _
  cases machine.system2User (s.readRegister 4) n_buf { buffer with bytes } with
  | error f => rfl
  | ok r => rfl

/-- `Seek` in a file that is not the console, to a position in it. -/
theorem fileSeek_eq (he : s.fileSystem.listFile i = some entry) (h2 : 2 ≤ i.val) (hi : (s.readRegister 5).toInt = i.val)
    {length : Int} {files files' : C.Files} {file : C.OpenFile} (h0 : 0 ≤ (s.readRegister 4).toInt)
    (hmax : (s.readRegister 4).toInt ≤ length) (hlength : C.length s.fileSystem.files entry.file = .ok (length, files))
    (hseek : C.seek files entry.file (s.readRegister 4).toInt = .ok (file, files')) :
    s.fileSeek = .ok ((s.setSlot i (some { entry with file }) files').writeRegister 2 (BitVec.ofInt 32 (s.readRegister 4).toInt)) := by
  unfold fileSeek
  simp only [hi]
  rw [if_neg (by omega), FileTable.slot_of, he]
  have h01 : ¬((i.val : Int) = 0 ∨ (i.val : Int) = 1) := by omega
  have hend : ¬(s.readRegister 4).toInt = -1 := by omega
  simp only [if_neg h01, if_neg hend, ok_bind, hlength]
  rw [if_neg (by omega), hseek]
  rfl

end System

namespace Stub

open Machine

variable {Entry : Type} [DecidableEq Entry]

/-- An open file: its slot, its descriptor and the file of the host. -/
structure OpenAt (fs : FileSystemObject (stub Entry)) (i : Fin 20) (entry : Listed (stub Entry)) (file : Nat) : Prop where
  listed : fs.listFile i = some entry
  opened : Host.Opened fs.files entry.file.file file
  sized : Host.Sized fs.files

/-- An entry with its cursor somewhere else. -/
def atOffset (entry : Listed (stub Entry)) (currentOffset : Int) : Listed (stub Entry) :=
  { entry with file := { file := entry.file.file, currentOffset } }

/-- What a call leaves at the slot of the file. -/
theorem OpenAt.setSlot (s : System (stub Entry)) (i : Fin 20) {entry : Listed (stub Entry)} {file : Nat} {files : Host Entry}
    (ho : Host.Opened files entry.file.file file) (hs : files.Sized) : OpenAt (s.setSlot i (some entry) files).fileSystem i entry file :=
  ⟨Function.update_self _ _ _, ho, hs⟩

variable {s : System (stub Entry)} {fresh : Fresh} {i : Fin 20} {entry : Listed (stub Entry)} {file : Nat}

/-- `Write` from a buffer of the user, with room in the file. -/
theorem fileWrite_of (ho : OpenAt s.fileSystem i entry file) (h2 : 2 ≤ i.val) (hi : (s.readRegister 6).toInt = i.val)
    (hone : s.machine.OneToOne) {n : BitVec 32} (hreg : s.readRegister 5 = n) (hn : 1 ≤ n.toInt)
    (ha : s.machine.Buffer (s.readRegister 4) n.toInt.toNat) (h0 : 0 ≤ entry.file.currentOffset)
    (hmax : entry.file.currentOffset + n.toInt ≤ maxOffset) :
    ∃ s', s.fileWrite fresh = .ok s' ∧ s.machine.SameMemory s'.machine ∧
      OpenAt s'.fileSystem i (atOffset entry (entry.file.currentOffset + n.toInt)) file ∧
      entry.file.currentOffset + n.toInt ≤ (s'.fileSystem.files.files file).size ∧
      ∀ j < n.toInt.toNat, (s'.fileSystem.files.files file).bytes (entry.file.currentOffset.toNat + j) =
        padded (s.machine.userBytes (s.readRegister 4)) j := by
  subst hreg
  obtain ⟨⟨buffer, machine⟩, hcopy, htouch, -, hbytes⟩ := ha.user2System hone hn (fresh.heap 1)
  have hwrite := OpenFile.write_of ho.opened buffer.bytes (show 0 < (s.readRegister 5).toInt by omega) h0 hmax
  have hkeeps := OpenFile.write_keeps hwrite
  refine ⟨_, (System.fileWrite_eq ho.listed h2 hi (by omega) hcopy).trans ((congrArg _ hwrite).trans rfl), ?_⟩
  dsimp only
  rw [if_pos (by omega)]
  refine ⟨htouch.sameMemory.trans (.of_registers _ _), .setSlot _ i (Host.opened_moved _ _ _ _) (hkeeps.2.sized ho.sized), ?_,
    ?_⟩
  · change _ ≤ (((Function.update s.fileSystem.files.files file _) file).size : Int)
    rw [Function.update_self]
    unfold File.write
    dsimp only
    omega
  · intro j hj
    change ((Function.update s.fileSystem.files.files file _) file).bytes _ = _
    rw [Function.update_self, File.write_bytes _ _ _ hj, hbytes]
    unfold strncpy
    rw [if_pos hj]

/-- `Write` with no room in the file stops the simulator. -/
theorem fileWrite_not (fresh : Fresh) (ho : OpenAt s.fileSystem i entry file) (h2 : 2 ≤ i.val) (hi : (s.readRegister 6).toInt = i.val)
    (hone : s.machine.OneToOne) {n : BitVec 32} (hreg : s.readRegister 5 = n) (hn : 1 ≤ n.toInt)
    (ha : s.machine.Buffer (s.readRegister 4) n.toInt.toNat)
    (hbad : ¬(0 ≤ entry.file.currentOffset ∧ entry.file.currentOffset + n.toInt ≤ maxOffset)) :
    s.fileWrite fresh = .error .assertFailed := by
  subst hreg
  obtain ⟨⟨buffer, machine⟩, hcopy, -⟩ := ha.user2System hone hn (fresh.heap 1)
  have hwrite := OpenFile.write_not entry.file s.fileSystem.files buffer.bytes (show 0 < (s.readRegister 5).toInt by omega) hbad
  exact (System.fileWrite_eq ho.listed h2 hi (by omega) hcopy).trans ((congrArg _ hwrite).trans rfl)

/-- `Seek` to a position in the file. -/
theorem fileSeek_of (ho : OpenAt s.fileSystem i entry file) (h2 : 2 ≤ i.val) (hi : (s.readRegister 5).toInt = i.val)
    (h0 : 0 ≤ (s.readRegister 4).toInt) (hmax : (s.readRegister 4).toInt ≤ (s.fileSystem.files.files file).size) :
    ∃ s', s.fileSeek = .ok s' ∧ s.machine.SameMemory s'.machine ∧
      OpenAt s'.fileSystem i (atOffset entry (s.readRegister 4).toInt) file ∧
      s'.fileSystem.files.files = s.fileSystem.files.files := by
  have hsized := ho.sized file
  have hopened := Host.opened_moved s.fileSystem.files entry.file.file file (s.fileSystem.files.files file).size
  refine ⟨_, System.fileSeek_eq ho.listed h2 hi h0 hmax (OpenFile.length_of ho.opened ho.sized)
    (OpenFile.seek_of hopened h0 (by omega)), .of_registers _ _, .setSlot _ i (Host.opened_moved _ _ _ _) ho.sized, rfl⟩

/-- `Read` of bytes that are in the file, to a buffer of the user. -/
theorem fileRead_of (ho : OpenAt s.fileSystem i entry file) (h2 : 2 ≤ i.val) (hi : (s.readRegister 6).toInt = i.val)
    (hone : s.machine.OneToOne) {n : BitVec 32} (hreg : s.readRegister 5 = n) (hn : 1 ≤ n.toInt)
    (hb : s.machine.Buffer (s.readRegister 4) n.toInt.toNat) (h0 : 0 ≤ entry.file.currentOffset)
    (hsize : entry.file.currentOffset + n.toInt ≤ (s.fileSystem.files.files file).size) :
    ∃ s' m m' src, s.fileRead fresh = .ok s' ∧ s.machine.SameMemory m ∧ Copied m (s.readRegister 4) src 0 n.toInt.toNat m' ∧
      m'.SameMemory s'.increasePC.machine ∧
      ∀ j < n.toInt.toNat, src j = (s.fileSystem.files.files file).bytes (entry.file.currentOffset.toNat + j) := by
  subst hreg
  have hsized := ho.sized file
  obtain ⟨⟨buffer, machine⟩, hcopy, htouch, hbuffer, -⟩ := hb.user2System hone hn (fresh.heap 0)
  have hread := OpenFile.read_of ho.opened buffer.bytes (show 0 ≤ (s.readRegister 5).toInt by omega) h0 (by omega) hsize
  have hcall := System.fileRead_eq ho.listed h2 hi hcopy (by omega) hread
  dsimp only at hbuffer
  obtain ⟨r, hr⟩ := system2User_returns machine (s.readRegister 4) (s.readRegister 5).toInt { buffer with bytes := _ }
    (by dsimp only; omega) (htouch.toSameMapping.buffer hb)
  have hcopied := (system2User_ends _ _ _ _).of_ok hr
  rw [hr] at hcall
  refine ⟨_, machine, r.2, _, hcall, htouch.sameMemory, hcopied, .of_registers _ _, ?_⟩
  intro j hj
  have := copy_inside (fun j => (s.fileSystem.files.files file).bytes (entry.file.currentOffset.toNat + j)) buffer.bytes 0 0 _ hj
  rwa [Nat.zero_add] at this

end Stub

/-! ## The calls -/

namespace System

variable {C : FileSystemClass}

/-- A program makes a call: it sets the registers of the call, whatever it has in the others. -/
def call (s : System C) (others : Reg → BitVec 32) (code : SyscallCode) (arg1 arg2 arg3 : BitVec 32) : System C :=
  { s with
    machine :=
      { s.machine with
        registers := fun r =>
          if r = 2 then code.number else if r = 4 then arg1 else if r = 5 then arg2 else if r = 6 then arg3 else others r } }

theorem call_sameMemory (s : System C) (others : Reg → BitVec 32) (code : SyscallCode) (arg1 arg2 arg3 : BitVec 32) :
    s.machine.SameMemory (s.call others code arg1 arg2 arg3).machine := .of_registers _ _

/-- The handler of the code answers. -/
theorem call_answer {s : System C} {others : Reg → BitVec 32} {fresh : Fresh} {arg1 arg2 arg3 : BitVec 32}
    {x : Except Fault (System C)} (code : SyscallCode) (hcode : code ∈ SyscallCode.cases)
    (h : (s.call others code arg1 arg2 arg3).systemCall fresh code = x) :
    (s.call others code arg1 arg2 arg3).exceptionHandler .syscallException fresh = x.map increasePC := by
  rw [exceptionHandler_of hcode rfl, h]

/-- `Write(a, n, id); Seek(c, id); Read(b, n, id)`. -/
def writeSeekRead (s : System C) (others : Fin 3 → Reg → BitVec 32) (fresh : Fin 3 → Fresh) (a n id c b : BitVec 32) :
    Except Fault (System C) := do
  let s ← (s.call (others 0) .write a n id).exceptionHandler .syscallException (fresh 0)
  let s ← (s.call (others 1) .seek c id (others 1 6)).exceptionHandler .syscallException (fresh 1)
  (s.call (others 2) .read b n id).exceptionHandler .syscallException (fresh 2)

/-- The bytes at `b` are those that were at `a`, and no other byte of user memory has changed. -/
structure RoundTrip (s : System C) (a n b : BitVec 32) (s' : System C) : Prop where
  there : ∀ j < n.toInt.toNat, s'.machine.userBytes b j = s.machine.userBytes a j
  elsewhere : ∀ addr, (∀ j < n.toInt.toNat, addr ≠ b + BitVec.ofNat 32 j) → s'.machine.userBytes addr 0 = s.machine.userBytes addr 0

end System

namespace Stub

open Machine

variable {Entry : Type} [DecidableEq Entry] {s : System (stub Entry)} {i : Fin 20} {entry : Listed (stub Entry)} {file : Nat}

/-- The calls, with room in the file. -/
theorem writeSeekRead_of (ho : OpenAt s.fileSystem i entry file) (h2 : 2 ≤ i.val) (hone : s.machine.OneToOne)
    {a n c b : BitVec 32} (hn : 1 ≤ n.toInt) (ha : s.machine.Buffer a n.toInt.toNat) (hb : s.machine.Buffer b n.toInt.toNat)
    (hc : c.toInt = entry.file.currentOffset) (h0 : 0 ≤ c.toInt) (hmax : c.toInt + n.toInt ≤ maxOffset)
    (others : Fin 3 → Reg → BitVec 32) (fresh : Fin 3 → Fresh) :
    ∃ s', s.writeSeekRead others fresh a n (BitVec.ofNat 32 i) c b = .ok s' ∧
      (∀ j < n.toInt.toNat, s'.machine.userBytes b j =
        if ∀ l < j, s.machine.userBytes a l ≠ 0 then s.machine.userBytes a j else s.machine.userBytes b j) ∧
      ∀ addr, (∀ j < n.toInt.toNat, addr ≠ b + BitVec.ofNat 32 j) → s'.machine.userBytes addr 0 = s.machine.userBytes addr 0 := by
  have hmem₀ := s.call_sameMemory (others 0) .write a n (BitVec.ofNat 32 i)
  obtain ⟨s₁, hw, hmem₁, ho₁, hsize, hbytes⟩ :=
    fileWrite_of (s := s.call (others 0) .write a n (BitVec.ofNat 32 i)) (n := n) ho h2 (toInt_slot i)
      (hmem₀.oneToOne hone) rfl hn (hmem₀.buffer ha) (hc ▸ h0) (hc ▸ hmax)
  have hmem₁ : s.machine.SameMemory (s₁.increasePC.call (others 1) .seek c (BitVec.ofNat 32 i) (others 1 6)).machine :=
    (hmem₀.trans hmem₁).trans (.of_registers _ _)
  obtain ⟨s₂, hs, hmem₂, ho₂, hfiles⟩ :=
    fileSeek_of (s := s₁.increasePC.call (others 1) .seek c (BitVec.ofNat 32 i) (others 1 6)) ho₁ h2 (toInt_slot i) h0 (by
      change c.toInt ≤ ((s₁.fileSystem.files.files file).size : Int)
      omega)
  have hmem₂ : s.machine.SameMemory (s₂.increasePC.call (others 2) .read b n (BitVec.ofNat 32 i)).machine :=
    (hmem₁.trans hmem₂).trans (.of_registers _ _)
  obtain ⟨s₃, m, m', src, hr, hm, hcopied, hm', hsrc⟩ :=
    fileRead_of (s := s₂.increasePC.call (others 2) .read b n (BitVec.ofNat 32 i)) (n := n) ho₂ h2 (toInt_slot i)
      (hmem₂.oneToOne hone) rfl hn (hmem₂.buffer hb) h0 (by
      change c.toInt + n.toInt ≤ ((s₂.fileSystem.files.files file).size : Int)
      rw [hfiles]
      change c.toInt + n.toInt ≤ ((s₁.fileSystem.files.files file).size : Int)
      omega)
  refine ⟨s₃.increasePC, ?_, ?_, ?_⟩
  · unfold System.writeSeekRead
    rw [System.call_answer .write (by decide) hw]
    change (do
      let s ← (s₁.increasePC.call (others 1) .seek c (BitVec.ofNat 32 i) (others 1 6)).exceptionHandler .syscallException (fresh 1)
      (s.call (others 2) .read b n (BitVec.ofNat 32 i)).exceptionHandler .syscallException (fresh 2)) = _
    rw [System.call_answer .seek (by decide) hs]
    change (s₂.increasePC.call (others 2) .read b n (BitVec.ofNat 32 i)).exceptionHandler .syscallException (fresh 2) = _
    rw [System.call_answer .read (by decide) hr]
    rfl
  · intro j hj
    have hthere := hcopied.userBytes_there ((hmem₂.trans hm).oneToOne hone) ((hmem₂.trans hm).buffer hb) hj
    have hsrc (l : Nat) (hl : l < n.toInt.toNat) : src l = padded (s.machine.userBytes a) l := by
      refine (hsrc l hl).trans ?_
      change (s₂.fileSystem.files.files file).bytes (c.toInt.toNat + l) = _
      rw [hfiles]
      change (s₁.fileSystem.files.files file).bytes (c.toInt.toNat + l) = _
      rw [hc, hbytes l hl, hmem₀.userBytes_eq]
      rfl
    rw [hm'.userBytes_eq]
    refine hthere.trans ?_
    rw [(hmem₂.trans hm).userBytes_eq]
    have hzeros : (∀ l < j, src l ≠ 0) ↔ ∀ l < j, s.machine.userBytes a l ≠ 0 := by
      rw [← forall_padded_ne_zero (s := s.machine.userBytes a)]
      exact forall₂_congr fun l hl => by rw [hsrc l (by omega)]
    refine ite_congr (propext hzeros) ?_ fun _ => rfl
    intro hall
    rw [hsrc j hj]
    exact if_pos hall
  · intro addr haddr
    rw [hm'.userBytes_eq, hcopied.userBytes_elsewhere ((hmem₂.trans hm).oneToOne hone) haddr, (hmem₂.trans hm).userBytes_eq]

/-- `Write(a, n, id); Seek(c, id); Read(b, n, id)` with `c` the cursor of an open file copies the bytes at `a` to `b`, and changes no
other, exactly if they fit in the file at the cursor, and those behind the first zero byte are at `b` already. -/
theorem write_seek_read {fs : FileSystemObject (stub Entry)} (h : (calls (stub Entry)).Reachable fs) {s : System (stub Entry)}
    (hs : s.fileSystem = fs) {i : Fin 20} (h2 : 2 ≤ i.val) {entry : Listed (stub Entry)} (he : fs.listFile i = some entry)
    {a n c b : BitVec 32} (hc : c.toInt = entry.file.currentOffset) (hn : 1 ≤ n.toInt) (hone : s.machine.OneToOne)
    (ha : s.machine.Buffer a n.toInt.toNat) (hb : s.machine.Buffer b n.toInt.toNat) (others : Fin 3 → Reg → BitVec 32)
    (fresh : Fin 3 → Fresh) :
    (∃ s', s.writeSeekRead others fresh a n (BitVec.ofNat 32 i) c b = .ok s' ∧ s.RoundTrip a n b s') ↔
      0 ≤ c.toInt ∧ c.toInt + n.toInt ≤ maxOffset ∧
        ∀ j < n.toInt.toNat, (∃ l < j, s.machine.userBytes a l = 0) → s.machine.userBytes b j = s.machine.userBytes a j := by
  subst hs
  have hd := descriptors_of_reachable h
  have hfd : fds s.fileSystem i = some entry.file.file := by
    unfold fds
    rw [he]
    rfl
  obtain ⟨d, hdesc⟩ := Option.isSome_iff_exists.1 (hd.opened i _ hfd)
  have ho : OpenAt s.fileSystem i entry d.file := ⟨he, ⟨d.offset, hdesc⟩, hd.sized⟩
  by_cases hroom : 0 ≤ c.toInt ∧ c.toInt + n.toInt ≤ maxOffset
  · obtain ⟨s', hrun, hthere, helsewhere⟩ := writeSeekRead_of ho h2 hone hn ha hb hc hroom.1 hroom.2 others fresh
    constructor
    · rintro ⟨_, hrun', htrip⟩
      cases hrun.symm.trans hrun'
      refine ⟨hroom.1, hroom.2, ?_⟩
      intro j hj hzero
      rw [← htrip.there j hj, hthere j hj, if_neg (by push Not; exact hzero)]
    · rintro ⟨-, -, hrest⟩
      refine ⟨s', hrun, ?_, helsewhere⟩
      intro j hj
      rw [hthere j hj]
      split
      · rfl
      · rename_i hzero
        exact hrest j hj (by push Not at hzero; exact hzero)
  · refine iff_of_false ?_ fun hcond => hroom ⟨hcond.1, hcond.2.1⟩
    rintro ⟨s', hrun, -⟩
    have hmem₀ := s.call_sameMemory (others 0) .write a n (BitVec.ofNat 32 i)
    have hw := fileWrite_not (s := s.call (others 0) .write a n (BitVec.ofNat 32 i)) (n := n) (fresh 0) ho h2 (toInt_slot i)
      (hmem₀.oneToOne hone) rfl hn (hmem₀.buffer ha) (hc ▸ hroom)
    unfold System.writeSeekRead at hrun
    rw [System.call_answer .write (by decide) hw] at hrun
    cases hrun

/-- A program that has opened a file, with these bytes in its memory. -/
def roundTripping (mainMemory : Buf) : System (stub Name) := { calling 0 0 0 0 mainMemory with fileSystem := stdinOpened.fileSystem }

theorem userBytes_roundTripping (mainMemory : Buf) {a j : Nat} (h : a + j < memorySize) :
    (roundTripping mainMemory).machine.userBytes (BitVec.ofNat 32 a) j = mainMemory (a + j) := by
  unfold roundTripping
  exact ofProgram_userBytes _ _ h

theorem listFile_stdinOpened : stdinOpened.fileSystem.listFile 2 = some ⟨⟨4, 0⟩, ascii "stdin"⟩ := rfl

/-- Two bytes of text go through. -/
theorem write_seek_read_text :
    let s := roundTripping fun p => if p < 2 then 65 else 0
    ∃ s', s.writeSeekRead (fun _ _ => 0) (fun _ => .zero) 0#32 2#32 2#32 0#32 8#32 = .ok s' ∧ s.RoundTrip 0#32 2#32 8#32 s' := by
  intro s
  refine (write_seek_read (s := s) (i := 2) (a := 0#32) (n := 2#32) (c := 0#32) (b := 8#32) reachable_stdinOpened rfl (by decide)
    listFile_stdinOpened rfl (by decide) (oneToOne_ofProgram _ _) (buffer_ofProgram _ _ (by decide))
    (buffer_ofProgram _ _ (by decide)) _ _).2 ⟨by decide, by decide, ?_⟩
  rintro j hj ⟨l, hl, hzero⟩
  rw [userBytes_roundTripping _ (by have := show j < 2 from hj; have : memorySize = 16384 := rfl; omega)] at hzero
  have hl2 : 0 + l < 2 := by
    have := show j < 2 from hj
    omega
  rw [if_pos hl2] at hzero
  exact absurd hzero (by decide)

/-- The byte behind a zero is lost. -/
theorem write_seek_read_zero : (calls (stub Name)).Reachable stdinOpened.fileSystem ∧
    let s := roundTripping fun p => if p = 1 then 65 else 0
    s.machine.OneToOne ∧ s.machine.Buffer 0#32 2 ∧ s.machine.Buffer 8#32 2 ∧
    ¬∃ s', s.writeSeekRead (fun _ _ => 0) (fun _ => .zero) 0#32 2#32 2#32 0#32 8#32 = .ok s' ∧ s.RoundTrip 0#32 2#32 8#32 s' := by
  refine ⟨reachable_stdinOpened, oneToOne_ofProgram _ _, buffer_ofProgram _ _ (by decide), buffer_ofProgram _ _ (by decide), ?_⟩
  rintro ⟨s', hrun, htrip⟩
  have hd := descriptors_of_reachable reachable_stdinOpened
  obtain ⟨s'', hrun', hthere, -⟩ := writeSeekRead_of (s := roundTripping fun p => if p = 1 then 65 else 0) (i := 2) (a := 0#32)
    (n := 2#32) (c := 0#32) (b := 8#32) ⟨listFile_stdinOpened, ⟨0, rfl⟩, hd.sized⟩ (by decide) (oneToOne_ofProgram _ _) (by decide)
    (buffer_ofProgram _ _ (by decide)) (buffer_ofProgram _ _ (by decide)) rfl (by decide) (by decide) (fun _ _ => 0)
    fun _ => .zero
  cases hrun.symm.trans hrun'
  have hzero : ¬∀ l < 1, (roundTripping fun p => if p = 1 then 65 else 0).machine.userBytes 0#32 l ≠ 0 :=
    fun hall => hall 0 (by decide) (userBytes_roundTripping _ (by decide))
  have hbyte := (htrip.there 1 (by decide)).symm.trans (hthere 1 (by decide))
  rw [if_neg hzero, userBytes_roundTripping _ (by decide), userBytes_roundTripping _ (by decide)] at hbyte
  exact absurd hbyte (by decide)

end Stub

end Nachos
