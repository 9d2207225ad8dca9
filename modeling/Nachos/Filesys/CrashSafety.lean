import Nachos.Filesys.CreateOpen
import Nachos.Filesys.Reboot
import Nachos.Prelude.Transition

/-!
# Runs with interruptions (filesys/filesys.cc)

A machine may stop after any number of the sector writes of a call, and is then started again on the disk that is left. Whether the
directory and the free map of that disk agree depends on the call and on the entry of the directory alone: `Create` has a window
between the flag of the entry and the free map, `Remove` one between the free map and the flag, and `WriteAt` none.
-/

namespace Nachos

open Bytes Loop Transition

namespace FileSystem

variable {fs fs' : FileSystem} {d d' : Disk}

/-! ## Calls that are cut off -/

/-- The sector writes of a call, in order. -/
def log (fs : FileSystem) : Op → Except Fault (List SectorWrite)
  | .create name initialSize junk => (fs.createLog name initialSize junk).map Prod.snd
  | .remove name junk => (fs.removeLog name junk).map Prod.snd
  | .write i src numBytes position junk =>
    if (entry fs.disk i).inUse then do
      let file ← OpenFile.new fs.disk (entry fs.disk i).sector
      file.writeAtLog fs.disk src numBytes position junk
    else .ok []

/-- The machine stops after `n` sector writes of a call, and is started on the disk that is left. -/
def crash (fs : FileSystem) (op : Op) (n : Nat) : Except Fault FileSystem := do
  let ws ← fs.log op
  mount (fs.disk.apply (ws.take n))

/-- A call is its writes. -/
theorem step_log (fs : FileSystem) (op : Op) : fs.step op = (fs.log op).map fun ws => { fs with disk := fs.disk.apply ws } := by
  cases op with
  | create name size junk =>
    simp only [step, log, create_log]
    cases fs.createLog name size junk <;> rfl
  | remove name junk =>
    simp only [step, log, remove_log]
    cases fs.removeLog name junk <;> rfl
  | write i src n p junk =>
    simp only [step, log, write]
    split
    · rw [map_bind]
      refine bind_congr fun file => ?_
      have h := congrArg (fun x : Except Fault Disk => x.map fun d => ({ fs with disk := d } : FileSystem))
        (file.writeAt_log fs.disk src n p junk)
      cases hw : file.writeAt fs.disk src n p junk <;> cases hl : file.writeAtLog fs.disk src n p junk <;>
        simp_all [Except.map]
    · rfl

/-- The numbers of sector writes after which the directory and the free map disagree. -/
def Torn (d : Disk) (n : Nat) : Op → Prop
  | .create name initialSize _ => ∃ k, MakesEntry d name initialSize k ∧ flagWrite k 1 ≤ n ∧ n < 4
  | .remove name _ => ∃ k, (directory d).findIndex name = some k ∧ 0 < n ∧ n < flagWrite k 1
  | .write .. => False

/-- The file that a call is about. -/
def Concerns (d : Disk) (l : Fin numDirEntries) : Op → Prop
  | .create .. => False
  | .remove name _ => (directory d).findIndex name = some l
  | .write i .. => i = l

/-- The disk after `n` sector writes of a call. -/
structure Stopped (fs : FileSystem) (op : Op) (n : Nat) (d' : Disk) : Prop where
  map_eq : d'.sector freeMapSector = fs.disk.sector freeMapSector
  dir_eq : d'.sector directorySector = fs.disk.sector directorySector
  inv_iff : DiskInv d' ↔ ¬Torn fs.disk n op
  kept : ∀ l f, (entry fs.disk l).inUse = true → OpenFile.new fs.disk (entry fs.disk l).sector = .ok f → ¬Concerns fs.disk l op →
    Kept l f fs.disk d'

theorem Stopped.refl (hI : Inv fs) {op : Op} {n : Nat} (h : ¬Torn fs.disk n op) : Stopped fs op n fs.disk :=
  ⟨rfl, rfl, iff_of_true hI.toDiskInv h, fun l f _ _ _ => Kept.refl l f fs.disk⟩

theorem Replaced.directory_before {k : Fin numDirEntries} {e : DirectoryEntry} {m n : Nat} (h : Replaced d k e m n d')
    (hn : n < flagWrite k m) : directory d' = directory d := by
  refine Directory.ext_entry fun l => ?_
  unfold flagWrite at hn
  refine (h.entry_eq l).trans ?_
  split
  · rename_i hl
    subst hl
    have h1 : ¬20 * (l : Nat) / 128 < n - m := by omega
    have h2 : ¬(20 * (l : Nat) + 8) / 128 < n - m := by omega
    rw [DirectoryEntry.cut, if_neg h1, if_neg h1, if_neg h2]
    rfl
  · rfl

theorem Replaced.directory_after {k : Fin numDirEntries} {e : DirectoryEntry} {m n : Nat} (h : Replaced d k e m n d')
    (hn : flagWrite k m ≤ n) (hname : e.name = (entry d k).name ∨ 2 + m ≤ n) :
    directory d' = { table := (directory d).table.set k e k.isLt } := by
  refine Directory.ext_entry fun l => ?_
  unfold flagWrite at hn
  refine (h.entry_eq l).trans ?_
  rw [Directory.get_table_set]
  split
  · have h1 : 20 * (k : Nat) / 128 < n - m := by omega
    have hk : (k : Nat) < 10 := k.isLt
    rcases hname with hname | hname
    · simp [DirectoryEntry.cut, h1, ← hname]
    · have h2 : (20 * (k : Nat) + 8) / 128 < n - m := by omega
      simp [DirectoryEntry.cut, h1, h2]
  · rfl

/-! ## Each call -/

theorem Inv.headers_kept (hI : Inv fs) {d' : Disk}
    (hframe : ∀ x ∈ usedSectors fs.disk, x ∉ fileSectors fs.disk → d'.sector x = fs.disk.sector x) :
    d'.sector freeMapSector = fs.disk.sector freeMapSector ∧ d'.sector directorySector = fs.disk.sector directorySector := by
  obtain ⟨h0, h1⟩ := hI.system.headers_notMem
  exact ⟨hframe _ (List.mem_append_left _ (freeMapSector_mem _)) h0, hframe _ (List.mem_append_left _ (directorySector_mem _)) h1⟩

/-- The sectors of the files that are there. -/
theorem Inv.files_kept (hI : Inv fs) {d' : Disk}
    (hframe : ∀ x ∈ usedSectors fs.disk, x ∉ fileSectors fs.disk → d'.sector x = fs.disk.sector x) :
    ∀ e ∈ (directory fs.disk).table.toList, e.inUse = true → d'.sector e.sector = fs.disk.sector e.sector := by
  intro e he hu
  obtain ⟨h1, h2⟩ := hI.toConsistent.not_file he (header_mem hu)
  exact hframe _ (mem_used_of_entry he (header_mem hu)) (by simp [fileSectors, h1, h2])

/-- `Create` before, in and after its window. -/
theorem create_stopped (hI : Inv fs) {size : Int} (h0 : 0 ≤ size) (hmax : size ≤ maxFileSize) (name : Buf) (junk : Nat → Buf) :
    ∃ b ws, fs.createLog name size junk = .ok (b, ws) ∧
      ∀ n, Stopped fs (.create name size junk) n (fs.disk.apply (ws.take n)) := by
  rcases createLog_spec hI h0 hmax name junk with ⟨h, hno⟩ | ⟨k, s, ws, hk, h, hlen, hcr, hclear, -, hcut⟩
  · exact ⟨false, [], h, fun n => by rw [List.take_nil]; exact Stopped.refl hI fun ⟨k, hk, _⟩ => hno k hk⟩
  · refine ⟨true, ws, h, fun n => ?_⟩
    obtain ⟨hrep, hmap⟩ := hcut n
    obtain ⟨hz, ho⟩ := hI.headers_kept hrep.frame
    have htorn : Torn fs.disk n (.create name size junk) ↔ flagWrite k 1 ≤ n ∧ n < 4 := by
      refine ⟨fun ⟨k', hk', hn⟩ => ?_, fun hn => ⟨k, hk, hn⟩⟩
      obtain rfl := Option.some.inj (hk'.2.2.symm.trans hk.2.2)
      exact hn
    refine ⟨hz, ho, ?_, ?_⟩
    · rw [htorn]
      by_cases hn : n < flagWrite k 1
      · -- nothing in the directory yet
        have hlt : n < 4 := by have := k.isLt; simp only [flagWrite, numDirEntries] at hn this; omega
        refine iff_of_true ?_ (by omega)
        exact DiskInv.congr hI.toDiskInv hz ho (hrep.directory_before hn) (hmap hlt) (hI.files_kept hrep.frame)
      · by_cases hn' : n < 4
        · refine iff_of_false ?_ (by omega)
          have he := hrep.entry_eq k
          have hflag : 20 * (k : Nat) / 128 < n - 1 := by unfold flagWrite at hn; omega
          rw [if_pos rfl] at he
          refine not_diskInv_of_unmarked (k := k) ?_ ?_
          · rw [he]
            simp [DirectoryEntry.cut, hflag, Directory.newEntry]
          · rw [hmap hn', he]
            simpa [DirectoryEntry.cut, hflag, Directory.newEntry] using hclear
        · refine iff_of_true ?_ (by omega)
          rw [List.take_of_length_le (by omega)]
          exact (hcr.inv hI).toDiskInv
    · intro l f hu hf _
      have hlk : l ≠ k := by
        rintro rfl
        rw [hcr.unused] at hu
        cases hu
      exact hI.kept_of_frame hu hf (by rw [hrep.entry_eq, if_neg hlk]) hrep.frame

/-- `Remove` before, in and after its window. -/
theorem remove_stopped (hI : Inv fs) (name : Buf) (junk : Nat → Buf) :
    ∃ b ws, fs.removeLog name junk = .ok (b, ws) ∧ ∀ n, Stopped fs (.remove name junk) n (fs.disk.apply (ws.take n)) := by
  rcases removeLog_spec hI name junk with ⟨hnone, h⟩ | ⟨k, ws, b, hk, h, hlen, hu, hbits, hcut⟩
  · refine ⟨false, [], h, fun n => ?_⟩
    rw [List.take_nil]
    refine Stopped.refl hI fun ⟨k, hk, _⟩ => ?_
    rw [hnone] at hk
    cases hk
  · refine ⟨true, ws, h, fun n => ?_⟩
    obtain ⟨hrep, hmap, hframe⟩ := hcut n
    obtain ⟨hz, ho⟩ := hI.headers_kept hrep.frame
    have htorn : Torn fs.disk n (.remove name junk) ↔ 0 < n ∧ n < flagWrite k 1 := by
      refine ⟨fun ⟨k', hk', hn⟩ => ?_, fun hn => ⟨k, hk, hn⟩⟩
      obtain rfl := Option.some.inj (hk'.symm.trans hk)
      exact hn
    refine ⟨hz, ho, ?_, ?_⟩
    · rw [htorn]
      by_cases hn : n < flagWrite k 1
      · rcases Nat.eq_zero_or_pos n with rfl | hpos
        · exact iff_of_true hI.toDiskInv (by omega)
        · -- the entry is there, its sectors are clear
          refine iff_of_false ?_ (by omega)
          have he : entry (fs.disk.apply (ws.take n)) k = entry fs.disk k := by
            unfold entry
            rw [hrep.directory_before hn]
          refine not_diskInv_of_unmarked (k := k) (by rw [he]; exact hu) ?_
          obtain ⟨hs0, -, -⟩ := hI.marked (header_mem hu)
          have hmem : (entry fs.disk k).sector ∈ entrySectors fs.disk (entry fs.disk k) := header_mem hu
          rw [he, hmap hpos, hbits, Int.toNat_of_nonneg hs0]
          simp [hmem]
      · refine iff_of_true ?_ (by omega)
        have hpos : 0 < n := by unfold flagWrite at hn; omega
        have hr : Removed fs.disk k (fs.disk.apply (ws.take n)) :=
          ⟨hu, hrep.directory_after (by omega) (Or.inl rfl), fun i => by rw [hmap hpos, hbits],
            fun x hx hx' => hframe x (by simp [fileSectors, hx, hx'])⟩
        exact (hr.inv hI).toDiskInv
    · intro l f hu' hf hl
      have hlk : l ≠ k := by
        rintro rfl
        exact hl hk
      exact hI.kept_of_frame hu' hf (by rw [hrep.entry_eq, if_neg hlk]) hrep.frame

/-- The writes of `WriteAt` go to the data of its file. -/
theorem writeLog_of (hI : Inv fs) {i : Fin numDirEntries} (hu : (entry fs.disk i).inUse = true) {n p : Int} (hl : OpenFile.Legal n p)
    (src junk : Buf) : ∃ ws, fs.log (.write i src n p junk) = .ok ws ∧
      (∀ (j : Nat) x, x ∉ (header fs.disk (entry fs.disk i)).sectors → (fs.disk.apply (ws.take j)).sector x = fs.disk.sector x) ∧
      ∀ (j k : Nat), (k : Int) < (header fs.disk (entry fs.disk i)).numBytes →
        OpenFile.content (fs.disk.apply (ws.take j)) (header fs.disk (entry fs.disk i)) k =
          if p ≤ k ∧ k < p + OpenFile.clamp (header fs.disk (entry fs.disk i)).numBytes n p ∧ (k : Int) / 128 < p / 128 + j
            then src (k - p.toNat) else OpenFile.content fs.disk (header fs.disk (entry fs.disk i)) k := by
  obtain ⟨ws, hlog, hmem, -, hcont⟩ := OpenFile.writeAtLog_of (f := { hdr := header fs.disk (entry fs.disk i), seekPosition := 0 })
    (d := fs.disk) (hI.header_valid hu) hl src junk
  refine ⟨ws, ?_, fun j x hx => Disk.apply_take_notMem fs.disk hmem hx j, hcont⟩
  simp only [log, hu, if_true, hI.open_of hu, ok_bind, hlog]

/-- `WriteAt` may stop anywhere. -/
theorem write_stopped (hI : Inv fs) {i : Fin numDirEntries} (hu : (entry fs.disk i).inUse = true) {src junk : Buf} {n p : Int} {j : Nat}
    (hw : ∀ x, x ∉ (header fs.disk (entry fs.disk i)).sectors → d'.sector x = fs.disk.sector x) :
    Stopped fs (.write i src n p junk) j d' := by
  obtain ⟨hsys, -⟩ := write_frame hI hu hw
  refine ⟨hsys _ (freeMapSector_mem _), hsys _ (directorySector_mem _), iff_of_true (write_inv hI hu hw).toDiskInv not_false, ?_⟩
  intro l f hul hf hil
  refine hI.kept hul hf ?_ fun x hx => hw x fun hm => hI.toConsistent.disjoint hil (data_mem hu hm) hx
  unfold entry
  rw [directory_congr hI.system hsys]

/-- Every call with admissible arguments, stopped anywhere. -/
theorem log_spec (hI : Inv fs) {op : Op} (hv : op.Valid) :
    ∃ ws, fs.log op = .ok ws ∧ ∀ n, Stopped fs op n (fs.disk.apply (ws.take n)) := by
  cases op with
  | create name size junk =>
    obtain ⟨b, ws, h, hs⟩ := create_stopped hI hv.1 hv.2 name junk
    exact ⟨ws, by simp only [log, h]; rfl, hs⟩
  | remove name junk =>
    obtain ⟨b, ws, h, hs⟩ := remove_stopped hI name junk
    exact ⟨ws, by simp only [log, h]; rfl, hs⟩
  | write i src n p junk =>
    by_cases hu : (entry fs.disk i).inUse = true
    · obtain ⟨ws, h, hframe, -⟩ := writeLog_of hI hu hv src junk
      exact ⟨ws, h, fun j => write_stopped hI hu (hframe j)⟩
    · refine ⟨[], if_neg hu, fun j => ?_⟩
      rw [List.take_nil]
      exact Stopped.refl hI not_false

/-! ## Runs -/

/-- A formatted disk, calls with admissible arguments, and such calls cut off outside their windows, each followed by a start without
formatting. -/
def interrupted : System FileSystem where
  init fs := ∃ d junk, format d junk = .ok fs
  step fs fs' := (∃ op : Op, op.Valid ∧ fs.step op = .ok fs') ∨
    ∃ (op : Op) (n : Nat), op.Valid ∧ ¬Torn fs.disk n op ∧ fs.crash op n = .ok fs'

/-- Formatting leaves the two files at their beginnings. -/
theorem format_mounted {junk : Nat → Buf} (h : format d junk = .ok fs) : Mounted fs := by
  obtain ⟨fs', h', hI, -⟩ := format_spec d junk
  obtain rfl : fs' = fs := Except.ok.inj (h'.symm.trans h)
  unfold format OpenFile.new at h
  obtain ⟨m₀, -, h⟩ := of_bind_ok h
  obtain ⟨m₁, -, h⟩ := of_bind_ok h
  obtain ⟨m₂, -, h⟩ := of_bind_ok h
  obtain ⟨p, -, h⟩ := of_bind_ok h
  obtain ⟨-, h⟩ := of_assert_bind h
  obtain ⟨q, -, h⟩ := of_bind_ok h
  obtain ⟨-, h⟩ := of_assert_bind h
  obtain ⟨d₁, -, h⟩ := of_bind_ok h
  obtain ⟨d₂, -, h⟩ := of_bind_ok h
  rw [FileHeader.fetchFrom_of (by decide), ok_bind, pure_bind, FileHeader.fetchFrom_of (by decide), ok_bind, pure_bind] at h
  obtain ⟨d₃, -, h⟩ := of_bind_ok h
  obtain ⟨d₄, -, h⟩ := of_bind_ok h
  obtain rfl := Except.ok.inj h
  exact ⟨hI, rfl, rfl⟩

/-- A call that is cut off, and the start after it. -/
theorem Mounted.crash_of (hM : Mounted fs) {op : Op} (hv : op.Valid) (n : Nat) :
    ∃ d', fs.crash op n = .ok { fs with disk := d' } ∧ Stopped fs op n d' ∧ (Inv { fs with disk := d' } ↔ ¬Torn fs.disk n op) := by
  obtain ⟨ws, hlog, hstop⟩ := log_spec hM.toInv hv
  obtain ⟨hz, ho, hiff, -⟩ := hstop n
  refine ⟨_, ?_, hstop n, Iff.trans ⟨Inv.toDiskInv, fun h => ⟨h, ?_, ?_⟩⟩ hiff⟩
  · unfold crash
    rw [hlog, ok_bind]
    exact hM.mount_of hz ho
  · exact hM.mapHdr.trans (FileHeader.atSector_congr hz).symm
  · exact hM.dirHdr.trans (FileHeader.atSector_congr ho).symm

theorem Mounted.step_of (hM : Mounted fs) {op : Op} (hv : op.Valid) (h : fs.step op = .ok fs') : Mounted fs' := by
  obtain ⟨fs₁, h₁, hI⟩ := step_inv hM.toInv hv
  obtain rfl : fs₁ = fs' := Except.ok.inj (h₁.symm.trans h)
  rw [step_log] at h
  obtain ⟨ws, -, rfl⟩ := of_map_ok h
  exact ⟨hI, hM.mapStart, hM.dirStart⟩

theorem mounted_of_reachable (h : interrupted.Reachable fs) : Mounted fs := by
  refine h.invariant ?_ ?_
  · rintro fs ⟨d, junk, hf⟩
    exact format_mounted hf
  · intro fs fs' _ hM hs
    rcases hs with ⟨op, hv, hs⟩ | ⟨op, n, hv, ht, hs⟩
    · exact hM.step_of hv hs
    · obtain ⟨d', hc, -, hiff⟩ := hM.crash_of hv n
      obtain rfl := Except.ok.inj (hc.symm.trans hs)
      exact hM.withDisk (hiff.2 ht)

/-- Whatever calls and restarts came before, a call may stop after any number of its sector writes: the start after it goes through
with the same system files, every file but the one the call is about reads as before, and the directory and the free map agree if and
only if the call was not stopped in its window. -/
theorem crash_consistent_iff (h : interrupted.Reachable fs) {op : Op} (hv : op.Valid) (n : Nat) :
    ∃ fs', fs.crash op n = .ok fs' ∧ fs'.freeMapFile = fs.freeMapFile ∧ fs'.directoryFile = fs.directoryFile ∧
      (Inv fs' ↔ ¬Torn fs.disk n op) ∧
        ∀ l f, (entry fs.disk l).inUse = true → OpenFile.new fs.disk (entry fs.disk l).sector = .ok f → ¬Concerns fs.disk l op →
          Kept l f fs.disk fs'.disk := by
  obtain ⟨d', hc, hs, hiff⟩ := (mounted_of_reachable h).crash_of hv n
  exact ⟨_, hc, rfl, rfl, hiff, hs.kept⟩

/-- The disk of zeros, formatted. -/
theorem reachable_format : ∃ fs, interrupted.Reachable fs ∧ (∀ i, (entry fs.disk i).inUse = false) ∧
    (freeMap fs.disk).numClear = 1019 := by
  obtain ⟨fs, hf, -, hempty, hclear⟩ := format_spec zeroDisk fun _ _ => 0
  exact ⟨fs, .init ⟨_, _, hf⟩, hempty, hclear⟩

/-- On an empty disk `Create` of a file of ten bytes is in its window after three sector writes. -/
theorem torn_of_empty {d : Disk} (hempty : ∀ i, (entry d i).inUse = false) (hclear : (freeMap d).numClear = 1019) :
    Torn d 3 (.create (letter 97) 10 fun _ _ => 0) := by
  have e1 : divRoundUp 10 sectorSize = 1 := rfl
  obtain ⟨k, hfree⟩ := Option.ne_none_iff_exists'.1 (Directory.freeIndex_ne_none (i := 0) (hempty 0))
  have hfind : (directory d).findIndex (letter 97) = none :=
    Directory.findIndex_none fun i hi => absurd hi (by rw [show (directory d).table[i].inUse = false from hempty i]; decide)
  have hk : flagWrite k 1 ≤ 3 := by
    have hlt := k.isLt
    simp only [numDirEntries] at hlt
    unfold flagWrite
    omega
  exact ⟨k, ⟨hfind, by rw [hclear]; decide, hfree⟩, hk, by decide⟩

/-- A file of ten bytes: the machine stopped before the free map is written, and after it. -/
theorem crash_consistent_iff_ten : ∃ fs fs' fs'' : FileSystem, fs.crash (.create (letter 97) 10 fun _ _ => 0) 3 = .ok fs' ∧ ¬Inv fs' ∧
    fs.crash (.create (letter 97) 10 fun _ _ => 0) 4 = .ok fs'' ∧ Inv fs'' := by
  obtain ⟨fs, h, hempty, hclear⟩ := reachable_format
  have hv : Op.Valid (.create (letter 97) 10 fun _ _ => 0) := ⟨by decide, by decide⟩
  obtain ⟨fs', hc, -, -, hiff, -⟩ := crash_consistent_iff h hv 3
  obtain ⟨fs'', hc', -, -, hiff', -⟩ := crash_consistent_iff h hv 4
  have hdone : ¬Torn fs.disk 4 (.create (letter 97) 10 fun _ _ => 0) := by
    rintro ⟨k, -, -, hlt⟩
    omega
  exact ⟨fs, fs', fs'', hc, fun hI => hiff.1 hI (torn_of_empty hempty hclear), hc', hiff'.2 hdone⟩

/-- After `j` sector writes of `WriteAt`, the directory, the free map and the header of the file are as they were, and the file has the
bytes of the request in the sectors written so far and its old bytes everywhere else, those before and after the request in the same
sector included. -/
theorem write_crash (h : interrupted.Reachable fs) {i : Fin numDirEntries} (hu : (entry fs.disk i).inUse = true) {n p : Int}
    (hl : OpenFile.Legal n p) (src junk : Buf) (j : Nat) :
    ∃ fs', fs.crash (.write i src n p junk) j = .ok fs' ∧ Inv fs' ∧ directory fs'.disk = directory fs.disk ∧
      freeMap fs'.disk = freeMap fs.disk ∧ entry fs'.disk i = entry fs.disk i ∧
      header fs'.disk (entry fs'.disk i) = header fs.disk (entry fs.disk i) ∧
        ∀ k : Nat, (k : Int) < (header fs.disk (entry fs.disk i)).numBytes →
          OpenFile.content fs'.disk (header fs'.disk (entry fs'.disk i)) k =
            if p ≤ k ∧ k < p + OpenFile.clamp (header fs.disk (entry fs.disk i)).numBytes n p ∧ (k : Int) / 128 < p / 128 + j
              then src (k - p.toNat) else OpenFile.content fs.disk (header fs.disk (entry fs.disk i)) k := by
  have hM := mounted_of_reachable h
  obtain ⟨ws, hlog, hframe, hcont⟩ := writeLog_of hM.toInv hu hl src junk
  obtain ⟨hsys, hhdr⟩ := write_frame hM.toInv hu (hframe j)
  have hI := write_inv hM.toInv hu (hframe j)
  have hdir := directory_congr hM.system hsys
  have he : entry (fs.disk.apply (ws.take j)) i = entry fs.disk i := by
    unfold entry
    rw [hdir]
  have hh : header (fs.disk.apply (ws.take j)) (entry fs.disk i) = header fs.disk (entry fs.disk i) :=
    FileHeader.atSector_congr (hhdr _ (entry_mem fs.disk i) hu)
  refine ⟨{ fs with disk := fs.disk.apply (ws.take j) }, ?_, hI, hdir, freeMap_congr hM.system hsys, he, by rw [he, hh],
    fun k hk => ?_⟩
  · unfold crash
    rw [hlog, ok_bind]
    exact hM.mount_of (hsys _ (freeMapSector_mem _)) (hsys _ (directorySector_mem _))
  · rw [he, hh]
    exact hcont j k hk

/-- A file of any size there is room for, on the disk of zeros. -/
theorem reachable_create {size : Int} (h0 : 0 ≤ size) (hmax : size ≤ maxFileSize) (hroom : 1 + divRoundUp size sectorSize ≤ 1019) :
    ∃ fs i, interrupted.Reachable fs ∧ (entry fs.disk i).inUse = true ∧ (header fs.disk (entry fs.disk i)).numBytes = size := by
  obtain ⟨fs, h, hempty, hclear⟩ := reachable_format
  obtain ⟨i, s, d', hstep, hcr⟩ := create_of_room (mounted_of_reachable h).toInv (letter 97) h0 hmax (fun _ _ => 0)
    (fun i hi => by rw [hempty] at hi; cases hi) (hempty 0) (by rw [hclear]; exact hroom)
  have hop : fs.step (.create (letter 97) size fun _ _ => 0) = .ok { fs with disk := d' } := by
    simp only [step, hstep]
    rfl
  have hv : Op.Valid (.create (letter 97) size fun _ _ => 0) := ⟨h0, hmax⟩
  refine ⟨_, i, .step h (Or.inl ⟨_, hv, hop⟩), ?_, ?_⟩
  · rw [hcr.entry_eq]
    rfl
  · rw [hcr.entry_eq]
    exact hcr.numBytes

/-- 150 bytes are being written from position 40 on when the machine stops after the first sector. -/
theorem write_crash_torn : ∃ (fs : FileSystem) (i : Fin numDirEntries) (fs' : FileSystem),
    fs.crash (.write i (fun _ => 7) 150 40 fun _ => 0) 1 = .ok fs' ∧ Inv fs' ∧
      ∀ k < 200, OpenFile.content fs'.disk (header fs'.disk (entry fs'.disk i)) k =
        if 40 ≤ k ∧ k < 128 then 7 else OpenFile.content fs.disk (header fs.disk (entry fs.disk i)) k := by
  obtain ⟨fs, i, h, hu, hsize⟩ := reachable_create (show (0 : Int) ≤ 200 by decide) (by decide) (by decide)
  obtain ⟨fs', hc, hI, -, -, -, -, hbytes⟩ :=
    write_crash h hu (n := 150) (p := 40) ⟨by decide, by decide, by decide⟩ (fun _ => 7) (fun _ => 0) 1
  rw [hsize] at hbytes
  have hclamp : OpenFile.clamp 200 150 40 = 150 := rfl
  refine ⟨fs, i, fs', hc, hI, fun k hk => ?_⟩
  rw [hbytes k (by omega), hclamp]
  refine if_congr ?_ rfl rfl
  omega

/-! ## After the window of Create -/

/-- `Create` on a disk whose directory and free map need not agree: the system files must be in place, and the sector found must not be
one of theirs. -/
theorem create_of_opened (fs : FileSystem) (hS : SystemFiles fs.disk) (ho : Opened fs fs.disk) {name : Buf} {size : Int} (h0 : 0 ≤ size)
    (hmax : size ≤ maxFileSize) (hroom : Room fs.disk name size)
    (hnot : ∀ s map, (freeMap fs.disk).findAndSet = .ok (s, map) → s ∉ systemSectors fs.disk) (junk : Nat → Buf) :
    ∃ s map k d', (freeMap fs.disk).findAndSet = .ok (s, map) ∧ (directory fs.disk).freeIndex = some k ∧
      fs.create name size junk = .ok (true, { fs with disk := d' }) ∧
        directory d' = { table := (directory fs.disk).table.set k (Directory.newEntry (entry fs.disk k) name s) } := by
  have hround := (FileHeader.divRoundUp_bounds h0 hmax).1
  have hsectors := hroom.sectors
  have hfind := (Directory.findIndex_eq_none_iff (directory fs.disk) name).2 hroom.name
  obtain ⟨j, hj⟩ := hroom.entry
  obtain ⟨k, hfree⟩ := Option.ne_none_iff_exists'.1 (Directory.freeIndex_ne_none (i := j) hj)
  obtain ⟨s, hs, hclear, hset⟩ := Bitmap.findAndSet_of_pos (b := freeMap fs.disk) (by omega)
  have hleft := Bitmap.numClear_set hs hclear
  have hne : (s : Int) ≠ -1 := by omega
  have hon : (0 : Int) ≤ s ∧ (s : Int) < numSectors := by simp only [numSectors]; omega
  obtain ⟨hdr, b, hal, -⟩ := FileHeader.allocate_of_le (h := FileHeader.ofBuf (junk 1)) (m := (freeMap fs.disk).set s hs) hmax
    (by omega)
  have hput : ∀ x ∈ systemSectors fs.disk, (fs.disk.put s hdr.toBuf 0).sector x = fs.disk.sector x :=
    fun x hx => Disk.sector_put_other _ (fun e : x = s => hnot _ _ hset (e ▸ hx)) _ _
  have hz := hput _ (freeMapSector_mem fs.disk)
  have hd := hput _ (directorySector_mem fs.disk)
  have hr : Directory.InRange { table := (directory fs.disk).table.set k (Directory.newEntry (entry fs.disk k) name s) } :=
    (Directory.inRange_ofBuf _).set k (e := Directory.newEntry (entry fs.disk k) name s)
      (by unfold Directory.newEntry InRange; simp only; omega)
  obtain ⟨d₂, d₃, hw₂, hw₃, hf⟩ := flush_directory_map fs (hS.congr hz hd)
    ⟨by rw [FileHeader.atSector_congr hz, ho.mapHdr], by rw [FileHeader.atSector_congr hd, ho.dirHdr]⟩ hr b (junk 2) (junk 3)
  refine ⟨s, _, k, d₃, hset, hfree, ?_, hf.directory_eq⟩
  have hdir : (Directory.new numDirEntries (junk 0)).fetchFrom fs.directoryFile fs.disk = .ok (directory fs.disk) := by
    rw [Directory.fetchFrom_of (ho.dirHdr ▸ hS.dirValid) (by rw [ho.dirHdr]; exact hS.dirSize), ho.dirHdr]
    rfl
  have hmap : Bitmap.fromFile 1024 fs.freeMapFile fs.disk = .ok (freeMap fs.disk) := by
    rw [Bitmap.fromFile_of (by decide) (ho.mapHdr ▸ hS.mapValid) (by rw [ho.mapHdr]; exact hS.mapSize), ho.mapHdr]
    rfl
  unfold entry at hw₂
  unfold create
  rw [hdir, ok_bind, if_neg (not_not_intro (Directory.find_of_none hfind)), hmap, ok_bind, hset, ok_bind]
  simp only [if_neg hne, Directory.add_of hfind hfree, Bool.not_true, Bool.false_eq_true, if_false]
  rw [hal, ok_bind]
  simp only [Bool.not_true, Bool.false_eq_true, if_false, FileHeader.writeBack, Disk.writeSector_of fs.disk hon, hw₂, hw₃, ok_bind]
  rfl

/-- `Create` stopped in its window: the entry is in the directory, its header sector is still the first clear one. -/
theorem Mounted.torn_create (hM : Mounted fs) {name : Buf} {size : Int} {junk : Nat → Buf} {n : Nat} (h0 : 0 ≤ size)
    (hmax : size ≤ maxFileSize) (ht : Torn fs.disk n (.create name size junk)) :
    ∃ k s d', fs.crash (.create name size junk) n = .ok { fs with disk := d' } ∧ MakesEntry fs.disk name size k ∧ flagWrite k 1 ≤ n ∧
      Stopped fs (.create name size junk) n d' ∧ Replaced fs.disk k (Directory.newEntry (entry fs.disk k) name s) 1 n d' ∧
        freeMap d' = freeMap fs.disk ∧ (∃ map, (freeMap fs.disk).findAndSet = .ok (s, map)) ∧ s ∉ usedSectors fs.disk := by
  obtain ⟨k₀, hk₀, hlo, hhi⟩ := ht
  rcases createLog_spec hM.toInv h0 hmax name junk with ⟨-, hno⟩ | ⟨k, s, ws, hk, h, -, hcr, hclear, hset, hcut⟩
  · exact absurd hk₀ (hno k₀)
  · obtain rfl := Option.some.inj (hk₀.2.2.symm.trans hk.2.2)
    obtain ⟨b, ws', h', hstop⟩ := create_stopped hM.toInv h0 hmax name junk
    obtain ⟨rfl, rfl⟩ := Prod.mk.inj (Except.ok.inj (h.symm.trans h'))
    obtain ⟨hrep, hmap⟩ := hcut n
    refine ⟨k₀, s, _, ?_, hk₀, hlo, hstop n, hrep, hmap hhi, hset, ?_⟩
    · have hlog : fs.log (.create name size junk) = .ok ws := by
        simp only [log, h]
        rfl
      unfold crash
      rw [hlog, ok_bind]
      exact hM.mount_of (hstop n).map_eq (hstop n).dir_eq
    · exact hM.toConsistent.not_used (hcr.fresh s List.mem_cons_self).1 hclear

/-- After `Create` has been stopped in its window, the entry `k` that it was making is in use, and the next `Create` that has room gives its
own new entry `k'` the same header sector and leaves the entry `k` as it is: two names for one header. -/
theorem create_cross_links (h : interrupted.Reachable fs) {name : Buf} {size : Int} {junk : Nat → Buf} {n : Nat} (h0 : 0 ≤ size)
    (hmax : size ≤ maxFileSize) (ht : Torn fs.disk n (.create name size junk)) :
    ∃ fs' k, fs.crash (.create name size junk) n = .ok fs' ∧ MakesEntry fs.disk name size k ∧ (entry fs'.disk k).inUse = true ∧
      ∀ name' size' junk', 0 ≤ size' → size' ≤ maxFileSize → Room fs'.disk name' size' →
        ∃ fs'' k', fs'.create name' size' junk' = .ok (true, fs'') ∧ MakesEntry fs'.disk name' size' k' ∧ k ≠ k' ∧
          entry fs''.disk k = entry fs'.disk k ∧
            entry fs''.disk k' = Directory.newEntry (entry fs'.disk k') name' (entry fs'.disk k).sector := by
  have hM := mounted_of_reachable h
  obtain ⟨k, s, d', hc, hmakes, hflag, hstop, hrep, hmap, ⟨map, hset⟩, hnot⟩ := hM.torn_create h0 hmax ht
  -- the entry of the file that was being created
  have hk : 20 * (k : Nat) / 128 < n - 1 := by unfold flagWrite at hflag; omega
  have he := hrep.entry_eq k
  rw [if_pos rfl] at he
  have hused : (entry d' k).inUse = true := by
    rw [he]
    simp [DirectoryEntry.cut, hk, Directory.newEntry]
  have hsector : (entry d' k).sector = s := by
    rw [he]
    simp [DirectoryEntry.cut, hk, Directory.newEntry]
  refine ⟨_, k, hc, hmakes, hused, fun name' size' junk' h0' hmax' hroom => ?_⟩
  have hsys : systemSectors d' = systemSectors fs.disk := systemSectors_congr hstop.map_eq hstop.dir_eq
  obtain ⟨s', map', k', d'', hset', hfree, hcreate, hdir⟩ := create_of_opened { fs with disk := d' }
    (hM.system.congr hstop.map_eq hstop.dir_eq)
    ⟨hM.mapHdr.trans (FileHeader.atSector_congr hstop.map_eq).symm, hM.dirHdr.trans (FileHeader.atSector_congr hstop.dir_eq).symm⟩
    h0' hmax' hroom (by
      intro s' map' hset'
      rw [show freeMap d' = freeMap fs.disk from hmap] at hset'
      obtain ⟨rfl, -⟩ := Prod.mk.inj (Except.ok.inj (hset'.symm.trans hset))
      rw [hsys]
      exact fun hm => hnot (List.mem_append_left _ hm)) junk'
  rw [show freeMap d' = freeMap fs.disk from hmap] at hset'
  obtain ⟨rfl, -⟩ := Prod.mk.inj (Except.ok.inj (hset'.symm.trans hset))
  have hkk : k ≠ k' := by
    rintro rfl
    have hfalse : (entry d' k).inUse = false := Directory.freeIndex_some hfree
    rw [hused] at hfalse
    cases hfalse
  have hnone := (Directory.findIndex_eq_none_iff (directory d') name').2 hroom.name
  refine ⟨_, k', hcreate, ⟨hnone, hroom.sectors, hfree⟩, hkk, entry_of_set hkk hdir, ?_⟩
  rw [hsector]
  unfold entry
  rw [hdir]
  exact (Directory.getElem_table_set (directory d') k' k' _).trans (if_pos rfl)

/-- A file is being created on an empty disk when the machine stops; then another one is created. -/
theorem create_cross_links_two : ∃ (fs fs' fs'' : FileSystem) (k k' : Fin numDirEntries),
    fs.crash (.create (letter 97) 10 fun _ _ => 0) 3 = .ok fs' ∧ fs'.create (letter 98) 10 (fun _ _ => 0) = .ok (true, fs'') ∧
      k ≠ k' ∧ (entry fs''.disk k).inUse = true ∧ (entry fs''.disk k').inUse = true ∧
        (entry fs''.disk k).sector = (entry fs''.disk k').sector := by
  obtain ⟨fs, h, hempty, hclear⟩ := reachable_format
  have ht := torn_of_empty hempty hclear
  obtain ⟨k, s, d', hc, -, -, -, hrep, hmap, -⟩ := (mounted_of_reachable h).torn_create (by decide) (by decide) ht
  obtain ⟨fs', l, hc', -, hl, hall⟩ := create_cross_links h (by decide) (by decide) ht
  obtain rfl := Except.ok.inj (hc.symm.trans hc')
  have hdir := hrep.directory_after (by have := k.isLt; simp only [numDirEntries] at this; unfold flagWrite; omega)
    (Or.inr (by decide))
  have hroom : Room d' (letter 98) 10 := by
    refine ⟨fun i hi => strncmp_of_single hempty hdir hi, ?_, ?_⟩
    · obtain ⟨l, hl⟩ : ∃ l : Fin numDirEntries, l ≠ k := exists_ne k
      exact ⟨l, by rw [entry_of_set hl hdir]; exact hempty l⟩
    · rw [hmap, hclear]
      decide
  obtain ⟨fs'', l', hcreate, -, hne, hkept, hentry⟩ := hall (letter 98) 10 (fun _ _ => 0) (by decide) (by decide) hroom
  refine ⟨fs, _, fs'', l, l', hc, hcreate, hne, ?_, ?_, ?_⟩
  · rw [hkept]
    exact hl
  · rw [hentry]
    rfl
  · rw [hkept, hentry]
    rfl

/-! ## The whole constructor -/

/-- The end of the constructor: the standard files, and the table of open files, of which slots 0 and 1 are filled. -/
def constructTable (fs : FileSystem) (junk : Nat → Nat → Buf) : Except Fault (FileSystem × (Fin 20 → Option OpenFile)) := do
  let listFile : Fin 20 → Option OpenFile := fun _ => none
  let (_, fs) ← fs.create (Name.toBuf (ascii "stdin")) 0 (junk 1)
  let (_, fs) ← fs.create (Name.toBuf (ascii "stdout")) 0 (junk 2)
  let stdin ← fs.open (junk 3) listFile (Name.toBuf (ascii "stdin"))
  if stdin.isNone then .error .nullDereference -- ListFile[0]->fileName = "stdin"
  else
    let listFile := Function.update listFile 0 stdin
    let stdout ← fs.open (junk 4) listFile (Name.toBuf (ascii "stdout"))
    if stdout.isNone then .error .nullDereference -- ListFile[1]->fileName = "stdout"
    else return (fs, Function.update listFile 1 stdout)

/-- `FileSystem::FileSystem`. -/
def construct (formatDisk : Bool) (d : Disk) (junk : Nat → Nat → Buf) : Except Fault (FileSystem × (Fin 20 → Option OpenFile)) :=
  if formatDisk then do constructTable (← format d (junk 0)) junk
  else do constructTable (← mount d) junk

/-- Two calls of `Create`, then the null pointer that `Open` returns. -/
theorem Inv.constructTable_of (hI : Inv fs) (junk : Nat → Nat → Buf) : constructTable fs junk = .error .nullDereference := by
  have hcreate {fs : FileSystem} (hI : Inv fs) (name junk) : ∃ b fs', fs.create name 0 junk = .ok (b, fs') ∧ Inv fs' := by
    rcases create_spec hI (le_refl 0) (by decide) name junk with ⟨h, -⟩ | ⟨-, -, k, s, d', -, h, hcr⟩
    · exact ⟨_, _, h, hI⟩
    · exact ⟨_, _, h, hcr.inv hI⟩
  obtain ⟨b₁, fs₁, h₁, hI₁⟩ := hcreate hI (Name.toBuf (ascii "stdin")) (junk 1)
  obtain ⟨b₂, fs₂, h₂, hI₂⟩ := hcreate hI₁ (Name.toBuf (ascii "stdout")) (junk 2)
  have hopen : fs₂.open (junk 3) (fun _ => none) (Name.toBuf (ascii "stdin")) = .ok none := FileSystem.open_of hI₂ _ _ _
  unfold constructTable
  rw [h₁, ok_bind]
  simp only [h₂, ok_bind]
  rw [hopen]
  rfl

/-- The constructor never returns: on every disk when it formats, and otherwise on every disk that a run with interruptions outside their
windows leaves, it ends by following the null pointer that `Open("stdin")` has returned. -/
theorem construct_faults (formatDisk : Bool) (d : Disk) (junk : Nat → Nat → Buf)
    (hd : formatDisk = false → ∃ fs, interrupted.Reachable fs ∧ fs.disk = d) :
    construct formatDisk d junk = .error .nullDereference := by
  cases formatDisk with
  | true =>
    obtain ⟨fs, hf, hI, -⟩ := format_spec d (junk 0)
    unfold construct
    rw [if_pos rfl, hf, ok_bind]
    exact hI.constructTable_of junk
  | false =>
    obtain ⟨fs, h, rfl⟩ := hd rfl
    have hM := mounted_of_reachable h
    unfold construct
    rw [if_neg (by decide), hM.mount_of rfl rfl, ok_bind]
    exact hM.toInv.constructTable_of junk

/-- On a disk that holds a file. -/
theorem construct_faults_ten : ∃ d, construct false d (fun _ _ _ => 0) = .error .nullDereference := by
  obtain ⟨fs, -, h, -⟩ := reachable_create (show (0 : Int) ≤ 10 by decide) (by decide) (by decide)
  exact ⟨fs.disk, construct_faults false fs.disk _ fun _ => ⟨fs, h, rfl⟩⟩

end FileSystem

end Nachos
