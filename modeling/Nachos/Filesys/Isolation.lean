import Nachos.Filesys.FreeMap

/-!
# Files do not interfere

Two files in the directory own disjoint sets of sectors, and none of the sectors of the system. A `WriteAt` writes whole sectors,
but only data sectors of its own file, so nothing else can tell that it happened; `Create` takes sectors that nobody owns, and
`Remove` writes to the two system files alone.
-/

namespace Nachos

open Bytes Loop

namespace FileSystem

variable {fs : FileSystem} {d d' : Disk}

/-- Every `ReadAt` through `f`, whatever its arguments, gives on `d'` what it gives on `d`. -/
def SameReads (f : OpenFile) (d d' : Disk) : Prop :=
  ∀ into o n p, InRange n → InRange p → f.readAt d' into o n p = f.readAt d into o n p

/-- The file of entry `k`, open as `f`, is as it was: its entry, its header and all that can be read. -/
structure Kept (k : Fin numDirEntries) (f : OpenFile) (d d' : Disk) : Prop where
  entry_eq : entry d' k = entry d k
  header_eq : d'.sector (entry d k).sector = d.sector (entry d k).sector
  reads : SameReads f d d'

/-- What a write to one file leaves alone: the free map, the directory, the header sectors of the system and of every file. -/
structure SystemKept (d d' : Disk) : Prop where
  freeMap_eq : freeMap d' = freeMap d
  directory_eq : directory d' = directory d
  freeMapHeader_eq : d'.sector freeMapSector = d.sector freeMapSector
  directoryHeader_eq : d'.sector directorySector = d.sector directorySector
  headers_eq : ∀ k, (entry d k).inUse = true → d'.sector (entry d k).sector = d.sector (entry d k).sector

/-- Files `i` and `j`, open as `fi` and `fj`, do not interfere in `fs`: writes to the one do not show in the other nor in the
structures of the file system, and creating any file, or removing one with another name, leaves both as they were. -/
structure Isolated (fs : FileSystem) (i j : Fin numDirEntries) (fi fj : OpenFile) : Prop where
  writeAt : ∀ src n p junk, OpenFile.Legal n p → ∃ r d', fi.writeAt fs.disk src n p junk = .ok (r, d') ∧
    SameReads fj fs.disk d' ∧ SystemKept fs.disk d'
  create : ∀ name size junk, 0 ≤ size → size ≤ maxFileSize → ∃ r fs', fs.create name size junk = .ok (r, fs') ∧
    Kept i fi fs.disk fs'.disk ∧ Kept j fj fs.disk fs'.disk
  remove : ∀ name junk, CString.strncmp (entry fs.disk i).nameBuf name fileNameMaxLen ≠ 0 →
    CString.strncmp (entry fs.disk j).nameBuf name fileNameMaxLen ≠ 0 → ∃ r fs', fs.remove name junk = .ok (r, fs') ∧
    Kept i fi fs.disk fs'.disk ∧ Kept j fj fs.disk fs'.disk

/-! ## Frames -/

theorem SameReads.refl (f : OpenFile) (d : Disk) : SameReads f d d := fun _ _ _ _ _ _ => rfl

theorem Kept.refl (k : Fin numDirEntries) (f : OpenFile) (d : Disk) : Kept k f d d := ⟨rfl, rfl, SameReads.refl f d⟩

/-- An `OpenFile` made for an entry reads what it read before when the sectors of the entry are unchanged. -/
theorem Inv.sameReads (hI : Inv fs) {k : Fin numDirEntries} (hu : (entry fs.disk k).inUse = true) {f : OpenFile}
    (hf : OpenFile.new fs.disk (entry fs.disk k).sector = .ok f)
    (hs : ∀ x ∈ entrySectors fs.disk (entry fs.disk k), d'.sector x = fs.disk.sector x) : SameReads f fs.disk d' := by
  rw [hI.open_of hu] at hf
  obtain rfl := Except.ok.inj hf
  intro into o n p hn hp
  exact OpenFile.readAt_congr (hI.header_valid hu) (fun x hx => hs x (data_mem hu hx)) hn hp into o

/-- A call that neither changes the entry nor writes to its sectors keeps the file. -/
theorem Inv.kept (hI : Inv fs) {k : Fin numDirEntries} (hu : (entry fs.disk k).inUse = true) {f : OpenFile}
    (hf : OpenFile.new fs.disk (entry fs.disk k).sector = .ok f) (he : entry d' k = entry fs.disk k)
    (hs : ∀ x ∈ entrySectors fs.disk (entry fs.disk k), d'.sector x = fs.disk.sector x) : Kept k f fs.disk d' :=
  ⟨he, hs _ (header_mem hu), hI.sameReads hu hf hs⟩

/-- An entry other than the one replaced. -/
theorem entry_of_set {k l : Fin numDirEntries} (h : l ≠ k) {new : DirectoryEntry}
    (hdir : directory d' = { table := (directory d).table.set k new k.isLt }) : entry d' l = entry d l := by
  have hne : (k : Nat) ≠ l := fun e => h (Fin.ext e.symm)
  unfold entry
  rw [hdir]
  simp only [Fin.getElem_fin]
  exact Vector.getElem_set_ne k.isLt l.isLt hne

/-- A successful `Create` keeps every file that was there. -/
theorem Created.kept (hI : Inv fs) {name : Buf} {size : Int} {k : Fin numDirEntries} {s : Int}
    (hc : Created fs.disk name size k s d') {l : Fin numDirEntries} (hu : (entry fs.disk l).inUse = true) {f : OpenFile}
    (hf : OpenFile.new fs.disk (entry fs.disk l).sector = .ok f) : Kept l f fs.disk d' := by
  have hlk : l ≠ k := by
    rintro rfl
    rw [hc.unused] at hu
    cases hu
  obtain ⟨hs0, -, hsb⟩ := hc.fresh s List.mem_cons_self
  refine hI.kept hu hf (entry_of_set hlk hc.directory_eq) ?_
  intro x hx
  obtain ⟨h1, h2⟩ := hI.toConsistent.not_file (entry_mem fs.disk l) hx
  refine hc.frame x ?_ h1 h2
  intro e
  exact hI.toConsistent.not_used hs0 hsb (e ▸ mem_used_of_entry (entry_mem fs.disk l) hx)

/-- A successful `Remove` keeps every other file. -/
theorem Removed.kept (hI : Inv fs) {k : Fin numDirEntries} (hr : Removed fs.disk k d') {l : Fin numDirEntries} (hlk : l ≠ k)
    (hu : (entry fs.disk l).inUse = true) {f : OpenFile} (hf : OpenFile.new fs.disk (entry fs.disk l).sector = .ok f) :
    Kept l f fs.disk d' := by
  refine hI.kept hu hf (entry_of_set hlk hr.directory_eq) ?_
  intro x hx
  obtain ⟨h1, h2⟩ := hI.toConsistent.not_file (entry_mem fs.disk l) hx
  exact hr.frame x h1 h2

/-- A write to one file is not seen through another, nor by the file system. -/
theorem Inv.writeAt_isolated (hI : Inv fs) {i j : Fin numDirEntries} (hij : i ≠ j) (hi : (entry fs.disk i).inUse = true)
    (hj : (entry fs.disk j).inUse = true) {fi fj : OpenFile} (hfi : OpenFile.new fs.disk (entry fs.disk i).sector = .ok fi)
    (hfj : OpenFile.new fs.disk (entry fs.disk j).sector = .ok fj) {n p : Int} (hl : OpenFile.Legal n p) (src junk : Buf) :
    ∃ r d', fi.writeAt fs.disk src n p junk = .ok (r, d') ∧ SameReads fj fs.disk d' ∧ SystemKept fs.disk d' := by
  rw [hI.open_of hi] at hfi
  obtain rfl := Except.ok.inj hfi
  obtain ⟨d', hw, -, hout⟩ := OpenFile.writeAt_of (f := { hdr := header fs.disk (entry fs.disk i), seekPosition := 0 })
    (d := fs.disk) (hI.header_valid hi) hl src junk
  obtain ⟨hsys, hhdr⟩ := write_frame hI hi hout
  refine ⟨_, d', hw, hI.sameReads hj hfj ?_, ?_⟩
  · intro x hx
    exact hout x fun hm => hI.toConsistent.disjoint hij (data_mem hi hm) hx
  · exact ⟨freeMap_congr hI.system hsys, directory_congr hI.system hsys, hsys _ (freeMapSector_mem _),
      hsys _ (directorySector_mem _), fun k hk => hhdr _ (entry_mem fs.disk k) hk⟩

theorem Inv.isolated (hI : Inv fs) {i j : Fin numDirEntries} (hij : i ≠ j) (hi : (entry fs.disk i).inUse = true)
    (hj : (entry fs.disk j).inUse = true) {fi fj : OpenFile} (hfi : OpenFile.new fs.disk (entry fs.disk i).sector = .ok fi)
    (hfj : OpenFile.new fs.disk (entry fs.disk j).sector = .ok fj) : Isolated fs i j fi fj := by
  refine ⟨fun src n p junk hl => hI.writeAt_isolated hij hi hj hfi hfj hl src junk, ?_,
    ?_⟩
  · intro name size junk h0 hmax
    rcases create_spec hI h0 hmax name junk with ⟨h, -⟩ | ⟨-, -, k, s, d', -, h, hc⟩
    · exact ⟨false, fs, h, Kept.refl i fi _, Kept.refl j fj _⟩
    · exact ⟨true, _, h, hc.kept hI hi hfi, hc.kept hI hj hfj⟩
  · intro name junk hni hnj
    rcases remove_spec hI name junk with ⟨-, h⟩ | ⟨k, d', hk, h, hr⟩
    · exact ⟨false, fs, h, Kept.refl i fi _, Kept.refl j fj _⟩
    · -- the entry removed has the name given, so it is neither of the two
      have hname := (Directory.findIndex_some hk).2
      have hik : i ≠ k := fun e => hni (by rw [e]; exact hname)
      have hjk : j ≠ k := fun e => hnj (by rw [e]; exact hname)
      exact ⟨true, _, h, hr.kept hI hik hi hfi, hr.kept hI hjk hj hfj⟩

/-- In every state that a run of calls on a formatted disk reaches, two different files of the directory do not interfere. -/
theorem files_isolated (d : Disk) (junk : Nat → Buf) (ops : List Op) (hv : ∀ op ∈ ops, op.Valid) {fs : FileSystem}
    (hrun : run d junk ops = .ok fs) {i j : Fin numDirEntries} (hij : i ≠ j) (hi : (entry fs.disk i).inUse = true)
    (hj : (entry fs.disk j).inUse = true) {fi fj : OpenFile} (hfi : OpenFile.new fs.disk (entry fs.disk i).sector = .ok fi)
    (hfj : OpenFile.new fs.disk (entry fs.disk j).sector = .ok fj) : Isolated fs i j fi fj := by
  obtain ⟨fs', h', hI⟩ := run_inv d junk hv
  obtain rfl : fs' = fs := Except.ok.inj (h'.symm.trans hrun)
  exact hI.isolated hij hi hj hfi hfj

/-- The entry a file was created in is in use and has its name. -/
theorem Created.entry_eq {name : Buf} {size : Int} {k : Fin numDirEntries} {s : Int} (hc : Created d name size k s d') :
    entry d' k = Directory.newEntry (entry d k) name s := by
  unfold entry
  rw [hc.directory_eq]
  simp only [Fin.getElem_fin]
  exact Vector.getElem_set_self k.isLt

/-- The name `s`, one letter, as a C string. -/
def letter (c : UInt8) : Buf := fun i => if i = 0 then c else 0

/-- The first two files created on a formatted disk do not interfere. -/
theorem files_isolated_two : ∃ fs i j fi fj,
    run { sector := fun _ => Vector.replicate 128 0 } (fun _ _ => 0)
      [.create (letter 97) 10 (fun _ _ => 0), .create (letter 98) 300 (fun _ _ => 0)] = .ok fs ∧
    Isolated fs i j fi fj := by
  obtain ⟨fs₀, hrun₀, hI₀, hempty, hc₀⟩ := format_spec { sector := fun _ => Vector.replicate 128 0 } (fun _ _ => 0)
  have e1 : divRoundUp 10 sectorSize = 1 := rfl
  have e2 : divRoundUp 300 sectorSize = 3 := rfl
  obtain ⟨i, s, d₁, h₁, hcr₁⟩ := create_of_room hI₀ (letter 97) (by decide : (0 : Int) ≤ 10) (by decide) (fun _ _ => 0)
    (fun i hi => by rw [hempty] at hi; cases hi) (hempty 0) (by rw [hc₀]; decide)
  have hI₁ := hcr₁.inv hI₀
  have hc₁ := hcr₁.numClear
  rw [hc₀, e1] at hc₁
  have hold : ∀ l, l ≠ i → entry d₁ l = entry fs₀.disk l := fun l hl => entry_of_set hl hcr₁.directory_eq
  obtain ⟨l, hl⟩ : ∃ l : Fin numDirEntries, l ≠ i := exists_ne i
  obtain ⟨j, t, d₂, h₂, hcr₂⟩ := create_of_room hI₁ (letter 98) (by decide : (0 : Int) ≤ 300) (by decide) (fun _ _ => 0)
    (fun k hk => by
      by_cases hki : k = i
      · subst hki
        show CString.strncmp (entry d₁ k).nameBuf (letter 98) fileNameMaxLen ≠ 0
        rw [hcr₁.entry_eq]
        refine CString.strncmp_ne_zero ?_ 8
        rw [Directory.nameBuf_newEntry _ _ _ (by decide), CString.padded_zero]
        decide
      · have hk' : (entry d₁ k).inUse = true := hk
        rw [hold k hki, hempty] at hk'
        cases hk')
    (i := l) (by show (entry d₁ l).inUse = false; rw [hold l hl]; exact hempty l)
    (by show 1 + divRoundUp 300 sectorSize ≤ ((freeMap d₁).numClear : Int); rw [e2]; omega)
  have hij : i ≠ j := by
    rintro rfl
    have := hcr₂.unused
    rw [hcr₁.entry_eq] at this
    cases this
  have hi : (entry d₂ i).inUse = true := by
    rw [entry_of_set hij hcr₂.directory_eq, hcr₁.entry_eq]
    rfl
  have hj : (entry d₂ j).inUse = true := by
    rw [hcr₂.entry_eq]
    rfl
  have hrun : run { sector := fun _ => Vector.replicate 128 0 } (fun _ _ => 0)
      [.create (letter 97) 10 (fun _ _ => 0), .create (letter 98) 300 (fun _ _ => 0)] = .ok { fs₀ with disk := d₂ } := by
    unfold run
    rw [hrun₀, ok_bind, List.foldlM_cons, step, h₁]
    show ([_] : List Op).foldlM step _ = _
    rw [List.foldlM_cons, step, h₂]
    rfl
  have hI₂ := hcr₂.inv hI₁
  refine ⟨{ fs₀ with disk := d₂ }, i, j, _, _, hrun,
    files_isolated _ _ _ ?_ hrun hij hi hj (hI₂.open_of hi) (hI₂.open_of hj)⟩
  intro op hop
  rcases List.mem_cons.1 hop with rfl | hop
  · exact ⟨by decide, by decide⟩
  · rw [List.mem_singleton.1 hop]
    exact ⟨by decide, by decide⟩

end FileSystem

end Nachos
