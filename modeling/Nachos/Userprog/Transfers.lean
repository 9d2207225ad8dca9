import Nachos.Filesys.ByteFile
import Nachos.Userprog.Cursors

/-!
# What Read and Write answer (threads/kernel.cc)

Both handlers answer the number of bytes when it is greater than 0. When no byte is transferred, `Read` answers `INT_MIN`, and `Write`
leaves in register 2 what was there, which is the number of the call. On descriptor 1 it turns to the console only then.
-/

namespace Nachos

open Bytes Loop Posix FileSystemObject

/-! ## How many bytes a transfer returns -/

namespace OpenFile

variable {f : OpenFile} {d d' : Disk} {bytes into src junk : Buf} {o : Nat} {n p k : Int}

/-- The bytes that a request transfers. -/
def requested (fileLength numBytes position : Int) : Int := ((request fileLength numBytes position).map Request.numBytes).getD 0

/-- The bytes there are, or all that was asked for if the computation overflows. -/
theorem requested_cases {L : Int} (hL : 0 ≤ L) (hmax : L ≤ maxFileSize) (hp : 0 ≤ p) (hn : InRange n) :
    requested L n p = clamp L n p ∧ (p + n ≤ 2147483647 ∨ L ≤ p) ∨ requested L n p = n ∧ 2147483647 < p + n ∧ p < L := by
  have hlarge := hmax
  simp only [maxFileSize] at hlarge
  unfold requested
  by_cases hnone : n ≤ 0 ∨ p ≥ L
  · have hclamp : clamp L n p = 0 := by
      unfold clamp
      omega
    have := hn.2
    rw [request_none hnone, hclamp]
    exact .inl ⟨rfl, by omega⟩
  · by_cases hfits : p + n ≤ 2147483647
    · obtain ⟨r, hr, hnum, -⟩ := request_some hmax ⟨hn, hp, hfits⟩ hnone
      rw [hr]
      exact .inl ⟨hnum, .inl hfits⟩
    · obtain ⟨r, hr, hnum⟩ := request_overflow hL hp (by omega) hmax hn (by omega)
      rw [hr]
      exact .inr ⟨hnum, by omega, by omega⟩

/-- What `ReadAt` returns. -/
theorem readAt_count (h : f.readAt d into o n p = .ok (k, bytes)) : k = requested f.hdr.numBytes n p := by
  unfold readAt at h
  unfold requested
  cases hreq : request f.hdr.numBytes n p with
  | none =>
    rw [hreq] at h
    cases h
    rfl
  | some r =>
    rw [hreq] at h
    obtain ⟨buf, -, h⟩ := of_bind_ok h
    obtain ⟨buf', -, h⟩ := of_bind_ok h
    split at h
    · cases h
    · cases h
      rfl

/-- What `WriteAt` returns. -/
theorem writeAt_count (h : f.writeAt d src n p junk = .ok (k, d')) : k = requested f.hdr.numBytes n p := by
  unfold writeAt at h
  unfold requested
  cases hreq : request f.hdr.numBytes n p with
  | none =>
    rw [hreq] at h
    cases h
    rfl
  | some r =>
    rw [hreq] at h
    obtain ⟨buf, -, h⟩ := of_bind_ok h
    obtain ⟨buf', -, h⟩ := of_bind_ok h
    obtain ⟨d₁, -, h⟩ := of_bind_ok h
    cases h
    rfl

end OpenFile

namespace Build

/-- A request of this size at this position can be computed with, in this build: the host can seek the position, or the sum is an `int`. -/
def Fits : Build → Int → Int → Prop
  | stub _ _, _, position => 0 ≤ position
  | real, size, position => position + size ≤ 2147483647

/-- A write of this size at this position transfers something: the files of the host grow to their greatest offset, and those of Nachos do
not. -/
def Accepts : Build → Int → Int → Int → Prop
  | stub _ _, size, _, position => 0 < size ∧ 0 ≤ position ∧ position + size ≤ maxOffset
  | real, size, length, position => 0 < size ∧ position < length ∧ position + size ≤ 2147483647

variable {b : Build} {files files' : b.fileSystemClass.Files} {f f' : b.fileSystemClass.OpenFile} {into bytes src : Buf} {n k : Int}

/-- What `Read` returns: the bytes there are, or all that was asked for if the computation overflows. -/
theorem Usable.read_count (hu : b.Usable files f) (hn : 0 ≤ n) (hr : InRange n)
    (h : b.fileSystemClass.read files f into n = .ok (k, bytes, f', files')) :
    k = min n (max 0 (b.length files f - b.position f)) ∧ (0 < k → b.Fits n (b.position f)) ∨
      k = n ∧ ¬b.Fits n (b.position f) ∧ min n (max 0 (b.length files f - b.position f)) < n := by
  cases b with
  | stub Entry dec =>
    obtain ⟨⟨file, ho⟩, -⟩ := hu
    have hlength : length (stub Entry dec) files f = _ := Stub.sizeOf_opened ho
    rw [hlength]
    exact Or.inl ⟨Stub.OpenFile.read_count ho hn h, fun _ => ((Stub.OpenFile.read_ok_iff ho into n).1 ⟨_, h⟩).1⟩
  | real =>
    obtain ⟨hv, hL, hp, -⟩ := hu
    have hmax := hv.le_max
    simp only [maxFileSize] at hmax
    obtain ⟨⟨k', bytes', f₁⟩, hread, h⟩ := of_bind_ok h
    obtain ⟨⟨k₁, into₁⟩, hat, hread⟩ := of_bind_ok hread
    cases hread
    cases h
    change k = min n (max 0 (f.hdr.numBytes - f.seekPosition)) ∧ (0 < k → f.seekPosition + n ≤ 2147483647) ∨
      k = n ∧ ¬f.seekPosition + n ≤ 2147483647 ∧ min n (max 0 (f.hdr.numBytes - f.seekPosition)) < n
    have hn' := hr.2
    have hcases := OpenFile.requested_cases hL hv.le_max hp hr
    rw [← OpenFile.readAt_count hat] at hcases
    unfold OpenFile.clamp at hcases
    omega

/-- What `Write` returns, and how far it moves the cursor. If the computation overflows, the cursor does not move as far as is returned. -/
theorem Usable.write_count (hu : b.Usable files f) (hn : 0 ≤ n) (hr : InRange n) {junk : Nat → Buf}
    (h : b.fileSystemClass.write junk files f src n = .ok (k, f', files')) :
    (b.Accepts n (b.length files f) (b.position f) ∧ 0 < k ∧ k ≤ n ∧ b.position f' = b.position f + k) ∨
      (¬b.Accepts n (b.length files f) (b.position f) ∧
        (k = 0 ∧ b.position f' = b.position f ∨ 0 < k ∧ k ≤ n ∧ b.position f' ≠ b.position f + k)) := by
  cases b with
  | stub Entry dec =>
    obtain ⟨⟨file, ho⟩, -⟩ := hu
    have hfits : 0 ≤ f.currentOffset ∧ f.currentOffset + n ≤ maxOffset := (Stub.OpenFile.write_ok_iff ho src hn).1 ⟨_, h⟩
    obtain ⟨rfl, hmoved⟩ := Stub.OpenFile.write_count h
    have hposition : position (stub Entry dec) f' = position (stub Entry dec) f + k := hmoved
    change ((0 < k ∧ 0 ≤ f.currentOffset ∧ f.currentOffset + k ≤ maxOffset) ∧ _) ∨
      (¬(0 < k ∧ 0 ≤ f.currentOffset ∧ f.currentOffset + k ≤ maxOffset) ∧ _)
    omega
  | real =>
    obtain ⟨hv, hL, hp, hpr⟩ := hu
    have hmax := hv.le_max
    simp only [maxFileSize] at hmax
    obtain ⟨⟨k', disk, f₁⟩, hwrite, h⟩ := of_bind_ok h
    obtain ⟨⟨k₁, disk₁⟩, hat, hwrite⟩ := of_bind_ok hwrite
    cases hwrite
    cases h
    change ((0 < n ∧ f.seekPosition < f.hdr.numBytes ∧ f.seekPosition + n ≤ 2147483647) ∧ 0 < k ∧ k ≤ n ∧
        int32 (f.seekPosition + k) = f.seekPosition + k) ∨
      (¬(0 < n ∧ f.seekPosition < f.hdr.numBytes ∧ f.seekPosition + n ≤ 2147483647) ∧
        (k = 0 ∧ int32 (f.seekPosition + k) = f.seekPosition ∨ 0 < k ∧ k ≤ n ∧ int32 (f.seekPosition + k) ≠ f.seekPosition + k))
    have hn' := hr.2
    have hp' := hpr.2
    have hcases := OpenFile.requested_cases hL hv.le_max hp hr
    rw [← OpenFile.writeAt_count hat] at hcases
    unfold OpenFile.clamp at hcases
    by_cases hsum : f.seekPosition + k ≤ 2147483647
    · rw [int32_of_inRange ⟨by omega, hsum⟩]
      omega
    · rw [int32_of_gt (by omega) (by omega)]
      omega

/-- A read of something that is there, which the build can compute with, returns. -/
theorem Usable.read_returns (hu : b.Usable files f) (hr : InRange n) (hlt : b.position f < b.length files f)
    (hfits : b.Fits n (b.position f)) (into : Buf) : ∃ r, b.fileSystemClass.read files f into n = .ok r := by
  cases b with
  | stub Entry dec =>
    obtain ⟨⟨file, ho⟩, hsized⟩ := hu
    have hlength : length (stub Entry dec) files f = _ := Stub.sizeOf_opened ho
    have hmax := hsized file
    rw [hlength] at hlt
    have hlt : f.currentOffset < (files.files file).size := hlt
    exact (Stub.OpenFile.read_ok_iff ho into n).2 ⟨hfits, by omega⟩
  | real =>
    obtain ⟨hv, -, hp, -⟩ := hu
    change ∃ r, (f.read files.disk into n >>= _) = .ok r
    unfold OpenFile.read
    rw [OpenFile.readAt_of hv ⟨hr, hp, hfits⟩]
    exact ⟨_, rfl⟩

theorem Accepts.pos {size length position : Int} (h : b.Accepts size length position) : 0 < size := by
  cases b <;> exact h.1

/-- A write of something that the file takes returns. -/
theorem Usable.write_returns (hu : b.Usable files f) (hr : InRange n) (haccepts : b.Accepts n (b.length files f) (b.position f))
    (junk : Nat → Buf) (src : Buf) : ∃ r, b.fileSystemClass.write junk files f src n = .ok r := by
  cases b with
  | stub Entry dec =>
    obtain ⟨⟨file, ho⟩, -⟩ := hu
    have haccepts : 0 < n ∧ 0 ≤ f.currentOffset ∧ f.currentOffset + n ≤ maxOffset := haccepts
    exact (Stub.OpenFile.write_ok_iff ho src (by omega)).2 haccepts.2
  | real =>
    obtain ⟨hv, -, hp, -⟩ := hu
    obtain ⟨d', hwrite, -⟩ := OpenFile.writeAt_of (d := files.disk) hv ⟨hr, hp, haccepts.2.2⟩ src (junk 0)
    change ∃ r, (f.write files.disk src n (junk 0) >>= _) = .ok r
    unfold OpenFile.write
    rw [hwrite]
    exact ⟨_, rfl⟩

end Build

/-! ## Register 2 -/

namespace System

variable {C : FileSystemClass} {s s' : System C} {fresh : Fresh} {i : Fin 20} {entry : Listed C}

/-- What `Read` has answered. -/
theorem fileRead_answer (he : s.fileSystem.listFile i = some entry) (hi : (s.readRegister 6).toInt = i.val)
    (h : s.fileRead fresh = .ok s') : ∃ into n_buf bytes file files,
      C.read s.fileSystem.files entry.file into (s.readRegister 5).toInt = .ok (n_buf, bytes, file, files) ∧
        s'.readRegister 2 = if n_buf > 0 then BitVec.ofInt 32 n_buf else intMin := by
  rcases fileRead_cases h with ⟨hnone, -⟩ | ⟨j, entry', into, n_buf, bytes, file, files, hj, -, he', hread, -, hanswer⟩
  · rw [hnone i hi.symm] at he
    cases he
  · obtain rfl : j = i := Fin.ext (by omega)
    obtain rfl : entry' = entry := Option.some.inj (he'.symm.trans he)
    exact ⟨into, n_buf, bytes, file, files, hread, hanswer⟩

/-- What `Write` has answered: nothing, if no byte was transferred. -/
theorem fileWrite_answer (he : s.fileSystem.listFile i = some entry) (h2 : 2 ≤ i.val) (hi : (s.readRegister 6).toInt = i.val)
    (h : s.fileWrite fresh = .ok s') : ∃ src n_buf file files,
      C.write fresh.junk s.fileSystem.files entry.file src (s.readRegister 5).toInt = .ok (n_buf, file, files) ∧
        s'.fileSystem.listFile i = some { entry with file } ∧
          s'.readRegister 2 = if n_buf > 0 then BitVec.ofInt 32 n_buf else s.readRegister 2 := by
  rcases fileWrite_cases h with ⟨hnone, -⟩ | ⟨j, entry', src, n_buf, file, files, hj, -, he', hwrite, hfs, hanswer⟩
  · rcases hnone i hi.symm with h0 | hnone
    · omega
    · rw [hnone] at he
      cases he
  · obtain rfl : j = i := Fin.ext (by omega)
    obtain rfl : entry' = entry := Option.some.inj (he'.symm.trans he)
    refine ⟨src, n_buf, file, files, hwrite, by rw [hfs]; exact Function.update_self _ _ _, ?_⟩
    rcases hanswer with ⟨hpos, -, hanswer⟩ | ⟨-, h1, -⟩ | ⟨hpos, -, -, hanswer⟩
    · rw [if_pos hpos, hanswer]
    · omega
    · rw [if_neg hpos, hanswer]

/-- Register 2 holds the number of bytes that there were to read. -/
def AnswersRead (s' : System C) (size length position : Int) : Prop :=
  (s'.readRegister 2).toInt = min size (max 0 (length - position))

/-- Register 2 holds how far the cursor of the file has moved. -/
def AnswersWrite {b : Build} (s s' : System b.fileSystemClass) (i : Fin 20) : Prop :=
  ∃ entry entry', s.fileSystem.listFile i = some entry ∧ s'.fileSystem.listFile i = some entry' ∧
    (s'.readRegister 2).toInt = b.position entry'.file - b.position entry.file

/-- `INT_MIN` is no number of bytes. -/
theorem not_answersRead {s' : System C} (h : s'.readRegister 2 = intMin) {size : Int} (h0 : 0 ≤ size) (length position : Int) :
    ¬AnswersRead s' size length position := by
  have hmin : intMin.toInt = -2147483648 := by decide
  unfold AnswersRead
  rw [h, hmin]
  omega

theorem toInt_ofInt {k : Int} (h0 : 0 ≤ k) (h : k ≤ 2147483647) : (BitVec.ofInt 32 k).toInt = k :=
  BitVec.toInt_ofInt_eq_self (by decide) (by omega) (by omega)

variable {b : Build} {s s' : System b.fileSystemClass} {entry : Listed b.fileSystemClass}

/-- When `Read` has returned, its answer is right exactly if a byte was read by a request that does not overflow. -/
theorem answersRead_iff (hu : b.Usable s.fileSystem.files entry.file) (he : s.fileSystem.listFile i = some entry)
    (hi : (s.readRegister 6).toInt = i.val) (hn : 0 ≤ (s.readRegister 5).toInt) (h : s.fileRead fresh = .ok s') :
    AnswersRead s' (s.readRegister 5).toInt (b.length s.fileSystem.files entry.file) (b.position entry.file) ↔
      0 < (s.readRegister 5).toInt ∧ b.position entry.file < b.length s.fileSystem.files entry.file ∧
        b.Fits (s.readRegister 5).toInt (b.position entry.file) := by
  have hr := inRange_toInt (s.readRegister 5)
  obtain ⟨into, n_buf, bytes, file, files, hread, hanswer⟩ := fileRead_answer he hi h
  have hcount := hu.read_count hn hr hread
  have hmax := hr.2
  rcases hcount with ⟨hk, hfits⟩ | ⟨hk, hfits, hlt⟩
  · by_cases hpos : n_buf > 0
    · unfold AnswersRead
      rw [hanswer, if_pos hpos, toInt_ofInt (by omega) (by omega)]
      exact iff_of_true hk ⟨by omega, by omega, hfits hpos⟩
    · rw [if_neg hpos] at hanswer
      exact iff_of_false (not_answersRead hanswer hn _ _) (by omega)
  · unfold AnswersRead
    rw [hanswer, if_pos (by omega), toInt_ofInt (by omega) (by omega)]
    exact iff_of_false (by omega) fun hcond => hfits hcond.2.2

/-- When `Write` has returned, its answer is right exactly if a byte was written by a request that does not overflow. -/
theorem answersWrite_iff (hu : b.Usable s.fileSystem.files entry.file) (he : s.fileSystem.listFile i = some entry) (h2 : 2 ≤ i.val)
    (hi : (s.readRegister 6).toInt = i.val) (hn : 0 ≤ (s.readRegister 5).toInt) (hr : s.readRegister 2 = SyscallCode.write.number)
    (h : s.fileWrite fresh = .ok s') :
    AnswersWrite s s' i ↔
      b.Accepts (s.readRegister 5).toInt (b.length s.fileSystem.files entry.file) (b.position entry.file) := by
  have hrange := inRange_toInt (s.readRegister 5)
  have hmax := hrange.2
  obtain ⟨src, n_buf, file, files, hwrite, hlisted, hanswer⟩ := fileWrite_answer he h2 hi h
  have hcount := hu.write_count hn hrange hwrite
  have hiff : AnswersWrite s s' i ↔ (s'.readRegister 2).toInt = b.position file - b.position entry.file := by
    constructor
    · rintro ⟨entry₁, entry', h₁, h', hset⟩
      rw [he] at h₁
      rw [hlisted] at h'
      cases h₁
      cases h'
      exact hset
    · exact fun hset => ⟨entry, _, he, hlisted, hset⟩
  rw [hiff, hanswer, hr]
  rcases hcount with ⟨haccepts, hpos, hle, hmoved⟩ | ⟨hrefuses, ⟨hzero, hmoved⟩ | ⟨hpos, hle, hmoved⟩⟩
  · rw [if_pos hpos, toInt_ofInt (by omega) (by omega)]
    exact iff_of_true (by omega) haccepts
  · have height : SyscallCode.write.number.toInt = 8 := rfl
    rw [if_neg (by omega), height]
    exact iff_of_false (by omega) hrefuses
  · rw [if_pos hpos, toInt_ofInt (by omega) (by omega)]
    exact iff_of_false (by omega) hrefuses

/-- `Read` of something that is there, to a buffer of the user, returns. -/
theorem fileRead_returns (fresh : Fresh) (hu : b.Usable s.fileSystem.files entry.file) (he : s.fileSystem.listFile i = some entry)
    (h2 : 2 ≤ i.val) (hi : (s.readRegister 6).toInt = i.val) (hone : s.machine.OneToOne)
    (hb : s.machine.Buffer (s.readRegister 4) (s.readRegister 5).toInt.toNat) (hpos : 0 < (s.readRegister 5).toInt)
    (hlt : b.position entry.file < b.length s.fileSystem.files entry.file)
    (hfits : b.Fits (s.readRegister 5).toInt (b.position entry.file)) : ∃ s', s.fileRead fresh = .ok s' := by
  have hr := inRange_toInt (s.readRegister 5)
  obtain ⟨⟨buffer, machine⟩, hcopy, htouch, hsize, -⟩ := hb.user2System hone (by omega) (fresh.heap 0)
  obtain ⟨⟨n_buf, bytes, file, files⟩, hread⟩ := hu.read_returns hr hlt hfits buffer.bytes
  have hcount := hu.read_count (by omega) hr hread
  dsimp only at htouch hsize
  obtain ⟨r, hr⟩ := machine.system2User_returns (s.readRegister 4) n_buf { buffer with bytes } (by dsimp only; omega)
    ((htouch.toSameMapping.buffer hb).of_le (by omega))
  rw [fileRead_eq he h2 hi hcopy (by omega) hread, hr]
  exact ⟨_, rfl⟩

/-- `Write` of something that the file takes, from a buffer of the user, returns. -/
theorem fileWrite_returns (fresh : Fresh) (hu : b.Usable s.fileSystem.files entry.file) (he : s.fileSystem.listFile i = some entry)
    (h2 : 2 ≤ i.val) (hi : (s.readRegister 6).toInt = i.val) (hone : s.machine.OneToOne)
    (hb : s.machine.Buffer (s.readRegister 4) (s.readRegister 5).toInt.toNat) (hpos : 0 < (s.readRegister 5).toInt)
    (haccepts : b.Accepts (s.readRegister 5).toInt (b.length s.fileSystem.files entry.file) (b.position entry.file)) :
    ∃ s', s.fileWrite fresh = .ok s' := by
  obtain ⟨⟨buffer, machine⟩, hcopy, -⟩ := hb.user2System hone (by omega) (fresh.heap 1)
  obtain ⟨r, hwrite⟩ := hu.write_returns (inRange_toInt _) haccepts fresh.junk buffer.bytes
  rw [fileWrite_eq he h2 hi (by omega) hcopy, hwrite]
  exact ⟨_, rfl⟩

/-- In both builds, for every open file of a table, every cursor and every size: `Read` and `Write` with a buffer of the user return with
the right answer in register 2 exactly if they transfer a byte, and the file system can compute with the request. Whatever the memory, an
answer that they return with is right exactly then. -/
theorem answers_iff (b : Build) {s : System b.fileSystemClass} (fresh : Fresh) {i : Fin 20} {entry : Listed b.fileSystemClass}
    (ht : b.Table s.fileSystem) (he : s.fileSystem.listFile i = some entry) (h2 : 2 ≤ i.val) (hi : (s.readRegister 6).toInt = i.val)
    (hn : 0 ≤ (s.readRegister 5).toInt) :
    (s.readRegister 2 = SyscallCode.read.number →
      (s.machine.OneToOne → s.machine.Buffer (s.readRegister 4) (s.readRegister 5).toInt.toNat →
        ((∃ s', s.exceptionHandler .syscallException fresh = .ok s' ∧
            AnswersRead s' (s.readRegister 5).toInt (b.length s.fileSystem.files entry.file) (b.position entry.file)) ↔
          0 < (s.readRegister 5).toInt ∧ b.position entry.file < b.length s.fileSystem.files entry.file ∧
            b.Fits (s.readRegister 5).toInt (b.position entry.file))) ∧
      ∀ s', s.exceptionHandler .syscallException fresh = .ok s' →
        (AnswersRead s' (s.readRegister 5).toInt (b.length s.fileSystem.files entry.file) (b.position entry.file) ↔
          0 < (s.readRegister 5).toInt ∧ b.position entry.file < b.length s.fileSystem.files entry.file ∧
            b.Fits (s.readRegister 5).toInt (b.position entry.file))) ∧
    (s.readRegister 2 = SyscallCode.write.number →
      (s.machine.OneToOne → s.machine.Buffer (s.readRegister 4) (s.readRegister 5).toInt.toNat →
        ((∃ s', s.exceptionHandler .syscallException fresh = .ok s' ∧ AnswersWrite s s' i) ↔
          b.Accepts (s.readRegister 5).toInt (b.length s.fileSystem.files entry.file) (b.position entry.file))) ∧
      ∀ s', s.exceptionHandler .syscallException fresh = .ok s' →
        (AnswersWrite s s' i ↔
          b.Accepts (s.readRegister 5).toInt (b.length s.fileSystem.files entry.file) (b.position entry.file))) := by
  have hu := ht.usable he
  constructor
  · intro hr
    rw [exceptionHandler_of (show SyscallCode.read ∈ SyscallCode.cases by decide) hr]
    have hanswer (s₁ : System b.fileSystemClass) (hcall : s.fileRead fresh = .ok s₁) := answersRead_iff hu he hi hn hcall
    constructor
    · intro hone hb
      constructor
      · rintro ⟨s', h, hright⟩
        obtain ⟨s₁, hcall, rfl⟩ := of_map_ok h
        exact (hanswer s₁ hcall).1 hright
      · rintro ⟨hpos, hlt, hfits⟩
        obtain ⟨s₁, hcall⟩ := fileRead_returns fresh hu he h2 hi hone hb hpos hlt hfits
        exact ⟨s₁.increasePC, congrArg (Except.map increasePC) hcall, (hanswer s₁ hcall).2 ⟨hpos, hlt, hfits⟩⟩
    · intro s' h
      obtain ⟨s₁, hcall, rfl⟩ := of_map_ok h
      exact hanswer s₁ hcall
  · intro hr
    rw [exceptionHandler_of (show SyscallCode.write ∈ SyscallCode.cases by decide) hr]
    have hanswer (s₁ : System b.fileSystemClass) (hcall : s.fileWrite fresh = .ok s₁) := answersWrite_iff hu he h2 hi hn hr hcall
    constructor
    · intro hone hb
      constructor
      · rintro ⟨s', h, hright⟩
        obtain ⟨s₁, hcall, rfl⟩ := of_map_ok h
        exact (hanswer s₁ hcall).1 hright
      · intro haccepts
        obtain ⟨s₁, hcall⟩ := fileWrite_returns fresh hu he h2 hi hone hb haccepts.pos haccepts
        exact ⟨s₁.increasePC, congrArg (Except.map increasePC) hcall, (hanswer s₁ hcall).2 haccepts⟩
    · intro s' h
      obtain ⟨s₁, hcall, rfl⟩ := of_map_ok h
      exact hanswer s₁ hcall

/-- At the end of a file `Read` answers `INT_MIN`, and `Write` of no bytes leaves the number of the call. -/
theorem not_answers : (calls (stub Name)).Reachable Stub.stdinOpened.fileSystem ∧
    (∃ s', (Stub.stdinOpened.call (fun _ => 0) .read 0 1 2).exceptionHandler .syscallException .zero = .ok s' ∧
      s'.readRegister 2 = intMin ∧ ¬AnswersRead s' 1 0 0) ∧
    ∃ s', (Stub.stdinOpened.call (fun _ => 0) .write 0 0 2).exceptionHandler .syscallException .zero = .ok s' ∧
      s'.readRegister 2 = SyscallCode.write.number ∧
        ¬AnswersWrite (b := .stub Name inferInstance) (Stub.stdinOpened.call (fun _ => 0) .write 0 0 2) s' 2 := by
  refine ⟨Stub.reachable_stdinOpened, ⟨_, rfl, rfl, not_answersRead rfl (by decide) 0 0⟩, _, rfl, rfl, ?_⟩
  rintro ⟨entry, entry', he, he', hset⟩
  cases he
  cases he'
  exact absurd hset (by decide)

/-- A program that reads from the file that is open with the real file system. -/
def realReading : System real :=
  ⟨Machine.ofProgram (Machine.callRegisters SyscallCode.read.number 0 50 2) fun _ => 0, realOpened, fun _ => 0, []⟩

/-- Three bytes written with the stub, and a read of 50 bytes at position 100 of a file of 200 bytes of the real file system. -/
theorem answers_iff_both :
    (∃ s', ((Stub.roundTripping fun _ => 65).call (fun _ => 0) .write 0 3 2).exceptionHandler .syscallException .zero = .ok s' ∧
      AnswersWrite (b := .stub Name inferInstance) ((Stub.roundTripping fun _ => 65).call (fun _ => 0) .write 0 3 2) s' 2) ∧
    ∃ s', realReading.exceptionHandler .syscallException .zero = .ok s' ∧ AnswersRead s' 50 200 100 := by
  constructor
  · have hwrite := (answers_iff (.stub Name inferInstance) (s := (Stub.roundTripping fun _ => 65).call (fun _ => 0) .write 0 3 2) .zero
      (i := 2) Stub.reachable_stdinOpened Stub.listFile_stdinOpened (by decide) rfl (by decide)).2 rfl
    exact (hwrite.1 (Machine.oneToOne_ofProgram _ _) (Machine.buffer_ofProgram _ _ (by decide))).2
      (show (0 : Int) < 3 ∧ (0 : Int) ≤ 0 ∧ (0 : Int) + 3 ≤ maxOffset by decide)
  · have hread := (answers_iff .real (s := realReading) .zero (i := 2) table_realOpened rfl (by decide) rfl (by decide)).1 rfl
    exact (hread.1 (Machine.oneToOne_ofProgram _ _) (Machine.buffer_ofProgram _ _ (by decide))).2
      (show (0 : Int) < 50 ∧ (100 : Int) < 200 ∧ (100 : Int) + 50 ≤ 2147483647 by decide)

/-! ## The console -/

/-- The bytes of the user buffer have been printed, nothing else has, and register 2 holds their number. -/
def WritesConsole {C : FileSystemClass} (s s' : System C) : Prop :=
  s'.consoleOut = s.consoleOut ++ slice (s.machine.userBytes (s.readRegister 4)) 0 (s.readRegister 5).toInt.toNat ∧
    s'.readRegister 2 = s.readRegister 5

section

variable {C : FileSystemClass} {s s' : System C} {fresh : Fresh}

/-- What `Write` prints when it returns: nothing, or, if the file takes no byte, a text with a newline, which it does not count. -/
theorem fileWrite_prints (h : s.fileWrite fresh = .ok s') :
    s'.consoleOut = s.consoleOut ∨ ∃ text : List UInt8, s'.consoleOut = s.consoleOut ++ (text ++ [newline]) ∧
      s'.readRegister 2 = BitVec.ofInt 32 (text.length - 1) := by
  rcases fileWrite_cases h with ⟨-, -, hout⟩ | ⟨_, _, _, _, _, _, -, -, -, -, -, ⟨-, hout, -⟩ | ⟨-, -, hprinted⟩ | ⟨-, -, hout, -⟩⟩
  · exact .inl hout
  · exact .inl hout
  · exact .inr hprinted
  · exact .inl hout

/-- A buffer of at least one byte is never printed and counted by `Write`, whatever the file system does: it is written to the file that
is open as `stdout`, or it is printed with one byte that is not counted. -/
theorem never_writesConsole (hr : s.readRegister 2 = SyscallCode.write.number) (hn : 1 ≤ (s.readRegister 5).toInt) :
    ¬∃ s', s.exceptionHandler .syscallException fresh = .ok s' ∧ s.WritesConsole s' := by
  rintro ⟨s', h, hout, hcount⟩
  rw [exceptionHandler_of (show SyscallCode.write ∈ SyscallCode.cases by decide) hr] at h
  obtain ⟨s₁, hcall, rfl⟩ := of_map_ok h
  have hout : s₁.consoleOut = s.consoleOut ++ slice (s.machine.userBytes (s.readRegister 4)) 0 (s.readRegister 5).toInt.toNat := hout
  have hcount : s₁.readRegister 2 = s.readRegister 5 := hcount
  have hlt := BitVec.toInt_lt (x := s.readRegister 5)
  rcases fileWrite_prints hcall with hsame | ⟨text, htext, hanswer⟩
  · have hlength := congrArg List.length (hsame.symm.trans hout)
    rw [List.length_append, length_slice] at hlength
    omega
  · have hlength := congrArg List.length (List.append_cancel_left (htext.symm.trans hout))
    rw [List.length_append, length_slice] at hlength
    have hvalue := congrArg BitVec.toInt (hanswer.symm.trans hcount)
    rw [BitVec.toInt_ofInt_eq_self (by decide) (by simp at hlength; omega) (by simp at hlength; omega)] at hvalue
    simp at hlength
    omega

end

/-- In the stub build five letters for the console go to the file named stdout. -/
theorem not_writesConsole : (calls (stub Name)).Reachable (Stub.calling 8 0 5 1 fun _ => 65).fileSystem ∧
    (∀ j < 5, (Stub.calling 8 0 5 1 fun _ => 65).machine.userBytes 0 j ≠ 0) ∧
    ∃ s', (Stub.calling 8 0 5 1 fun _ => 65).exceptionHandler .syscallException .zero = .ok s' ∧ s'.consoleOut = [] ∧
      s'.readRegister 2 = 5 ∧ ¬(Stub.calling 8 0 5 1 fun _ => 65).WritesConsole s' := by
  refine ⟨Stub.reachable_started, by decide, _, rfl, rfl, rfl, ?_⟩
  rintro ⟨hout, -⟩
  have hlength : 0 = (slice _ 0 5).length := congrArg List.length hout
  exact absurd (hlength.trans (length_slice _ _ _)) (by decide)

theorem never_writesConsole_five : ¬∃ s', (Stub.calling 8 0 5 1 fun _ => 65).exceptionHandler .syscallException .zero = .ok s' ∧
    (Stub.calling 8 0 5 1 fun _ => 65).WritesConsole s' :=
  never_writesConsole rfl (by decide)

end System

end Nachos
