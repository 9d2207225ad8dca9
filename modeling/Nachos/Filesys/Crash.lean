import Nachos.Filesys.Isolation
import Nachos.Filesys.WriteLog

/-!
# Writes that stop half way

What the disk holds when a machine stops after some of the sector writes of a call: first for one `WriteAt`, then for the directory,
whose entries may be cut in two by the end of a sector, then for `Create`, `Remove` and `WriteAt` on the file system.
-/

namespace Nachos

open Bytes Loop

namespace OpenFile

variable {f : OpenFile} {d : Disk}

/-- Sectors `a`, `a + 1`, ... of a file, written from the front of a buffer. -/
def sectorWrites (h : FileHeader) (a : Nat) (buf : Buf) (k : Nat) : List SectorWrite :=
  (List.range k).map fun i => .ofBuf (h.dataSectors (a + i)) buf (i * 128)

theorem length_sectorWrites (h : FileHeader) (a : Nat) (buf : Buf) (k : Nat) : (sectorWrites h a buf k).length = k := by
  simp [sectorWrites]

theorem take_sectorWrites (h : FileHeader) (a : Nat) (buf : Buf) (j k : Nat) :
    (sectorWrites h a buf k).take j = sectorWrites h a buf (min j k) := by
  rw [sectorWrites, ← List.map_take, List.take_range]
  rfl

/-- The writes of the write loop. -/
theorem writeLoopLog_of (hv : f.hdr.Valid) {r : Request} {a : Nat} (ha : r.firstSector = a) {k : Nat}
    (hk : k = 0 ∨ ((a + k - 1 : Nat) : Int) * 128 < f.hdr.numBytes) (buf : Buf) :
    forRange (f.writeRoundLog r buf) k [] = .ok (sectorWrites f.hdr a buf k) := by
  induction k with
  | zero => rfl
  | succ k ih =>
    obtain ⟨-, hmem, hb⟩ := sector_of_lt hv (i := a + k) (by omega)
    rw [forRange_succ, ih (by omega), ok_bind, sectorWrites, sectorWrites, List.range_succ, List.map_append]
    unfold writeRoundLog Disk.writeSectorLog
    rw [ha, show ((a : Int) + k) = ((a + k : Nat) : Int) by push_cast; rfl, hb, ok_bind, assert_of (hv.onDisk _ hmem)]
    rfl

/-- What these writes do. -/
theorem apply_sectorWrites (hv : f.hdr.Valid) {a k : Nat} (hk : k = 0 ∨ ((a + k - 1 : Nat) : Int) * 128 < f.hdr.numBytes) (buf : Buf) :
    (∀ i < k, ∀ t < 128, (d.apply (sectorWrites f.hdr a buf k)).bytes (f.hdr.dataSectors (a + i)) t = buf (i * 128 + t)) ∧
      ∀ s, (∀ i < k, s ≠ f.hdr.dataSectors (a + i)) → (d.apply (sectorWrites f.hdr a buf k)).sector s = d.sector s := by
  let r : Request := ⟨0, a, 0, 0⟩
  obtain ⟨d', hloop, h⟩ := writeLoop_of (d := d) hv (r := r) rfl hk buf
  rw [writeLoop_log, writeLoopLog_of hv (r := r) rfl hk] at hloop
  obtain rfl := Except.ok.inj hloop
  exact h

/-- Sectors `a`, `a + 1`, ... of a file after these writes, by bytes of the file. -/
theorem content_sectorWrites (hv : f.hdr.Valid) {a k : Nat} (hk : k = 0 ∨ ((a + k - 1 : Nat) : Int) * 128 < f.hdr.numBytes)
    (buf : Buf) {x : Nat} (hx : (x : Int) < f.hdr.numBytes) :
    content (d.apply (sectorWrites f.hdr a buf k)) f.hdr x =
      if a ≤ x / 128 ∧ x / 128 < a + k then buf (x - 128 * a) else content d f.hdr x := by
  obtain ⟨hsame, hother⟩ := apply_sectorWrites (d := d) hv hk buf
  unfold content
  by_cases hin : a ≤ x / 128 ∧ x / 128 < a + k
  · obtain ⟨i, hi⟩ : ∃ i, x / 128 = a + i := ⟨x / 128 - a, by omega⟩
    rw [if_pos hin, hi, hsame i (by omega) (x % 128) (by omega)]
    congr 1
    omega
  · rw [if_neg hin, Disk.bytes_congr (hother _ fun i hi e => ?_)]
    have := dataSectors_inj hv (by omega) (by omega) e
    omega

/-- `WriteAt` that stops after `j` sector writes: of the bytes of the request, those in the first `j` sectors it touches are the
bytes given, and nothing else in the file has changed. -/
theorem writeAtLog_of (hv : f.hdr.Valid) {n p : Int} (hl : Legal n p) (src junk : Buf) :
    ∃ ws, f.writeAtLog d src n p junk = .ok ws ∧ (∀ w ∈ ws, w.sector ∈ f.hdr.sectors) ∧
      (0 < clamp f.hdr.numBytes n p → (ws.length : Int) = (p + clamp f.hdr.numBytes n p - 1) / 128 + 1 - p / 128) ∧
      ∀ (j k : Nat), (k : Int) < f.hdr.numBytes → content (d.apply (ws.take j)) f.hdr k =
        if p ≤ k ∧ k < p + clamp f.hdr.numBytes n p ∧ (k : Int) / 128 < p / 128 + j then src (k - p.toNat) else content d f.hdr k := by
  have hL := hv.le_max
  by_cases hnone : n ≤ 0 ∨ p ≥ f.hdr.numBytes
  · have hc : clamp f.hdr.numBytes n p = 0 := by unfold clamp; omega
    refine ⟨[], ?_, nofun, by omega, ?_⟩
    · unfold writeAtLog
      rw [request_none hnone]
      rfl
    · intro j k hk
      rw [hc, if_neg (by omega), List.take_nil]
      rfl
  · obtain ⟨r, hr, hnum, h0, hle, hf, hla, hns⟩ := request_some hL hl hnone
    have hp := hl.position_nonneg
    obtain ⟨q, rfl⟩ : ∃ q : Nat, p = q := ⟨p.toNat, by omega⟩
    obtain ⟨m, hm⟩ : ∃ m : Nat, r.numBytes = m := ⟨r.numBytes.toNat, by omega⟩
    obtain ⟨a, ha⟩ : ∃ a, a = q / 128 := ⟨_, rfl⟩
    obtain ⟨b, hb⟩ : ∃ b, b = (q + m - 1) / 128 := ⟨_, rfl⟩
    have hfa : r.firstSector = a := by omega
    have hlb : r.lastSector = b := by omega
    obtain ⟨buf, hbuf, hcont⟩ := fillBuffer_of (d := d) hv hfa hlb hm (by omega) ha hb (by omega) src junk
    refine ⟨sectorWrites f.hdr a buf (b + 1 - a), ?_, ?_, ?_, ?_⟩
    · have hk : r.numSectors.toNat = b + 1 - a := by omega
      unfold writeAtLog
      rw [hr]
      simp only [newChars_of (bufSize_nonneg hL hp h0 hle hf hla hns), ok_bind, hbuf, hk]
      exact writeLoopLog_of hv hfa (Or.inr (by omega)) buf
    · intro w hw
      obtain ⟨i, hi, rfl⟩ := List.mem_map.mp hw
      have := List.mem_range.mp hi
      exact (sector_of_lt hv (i := a + i) (by omega)).2.1
    · rw [length_sectorWrites]
      omega
    · intro j k hk
      rw [take_sectorWrites, content_sectorWrites hv (by omega) buf hk, ← hnum, hm, Int.toNat_natCast]
      by_cases hin : a ≤ k / 128 ∧ k / 128 < a + min j (b + 1 - a)
      · -- the byte lies in a sector that is written: it comes from the buffer
        have hk' : 128 * a + (k - 128 * a) = k := by omega
        rw [if_pos hin, hcont _ (by omega) (by omega), hk']
        split <;> split <;> first | rfl | omega
      · rw [if_neg hin, if_neg (by omega)]

/-- A file that is written as a whole, up to a sector. -/
theorem writeWholeLog_of (hv : f.hdr.Valid) {n : Nat} (hb : f.hdr.numBytes = n) (h0 : 0 < n) (src junk : Buf) :
    ∃ ws, f.writeAtLog d src n 0 junk = .ok ws ∧ ws.length = (n + 127) / 128 ∧ (∀ w ∈ ws, w.sector ∈ f.hdr.sectors) ∧
      ∀ j, ∀ x < n, content (d.apply (ws.take j)) f.hdr x = if x / 128 < j then src x else content d f.hdr x := by
  have hmax := hv.le_max
  simp only [maxFileSize, hb] at hmax
  obtain ⟨ws, hlog, hmem, hlen, hcont⟩ := writeAtLog_of (d := d) hv (legal_whole (n := n) (by omega)) src junk
  rw [hb, clamp_whole] at hlen hcont
  refine ⟨ws, hlog, by omega, hmem, fun j x hx => ?_⟩
  rw [hcont j x (by omega)]
  have hiff : (0 : Int) ≤ x ∧ (x : Int) < 0 + n ∧ (x : Int) / 128 < 0 / 128 + j ↔ x / 128 < j := by omega
  simp only [hiff]
  rfl

end OpenFile

/-! ## A directory of which some sectors are written -/

namespace DirectoryEntry

/-- An entry at offset `o` of memory that is `new` before `128 * j` and `old` from there on: the flag and the sector lie in one
sector of the disk, and so does the name, but not always in the same. -/
def cut (old new : DirectoryEntry) (o j : Nat) : DirectoryEntry where
  inUse := if o / 128 < j then new.inUse else old.inUse
  sector := if o / 128 < j then new.sector else old.sector
  name := if (o + 8) / 128 < j then new.name else old.name

theorem cut_self (e : DirectoryEntry) (o j : Nat) : e.cut e o j = e := by
  simp [cut]

theorem ofBuf_cut {m m₁ m₂ : Buf} {o j : Nat} (ho : (o + 7) / 128 = o / 128) (ho' : (o + 17) / 128 = (o + 8) / 128)
    (h : ∀ x < o + 20, m x = if x / 128 < j then m₁ x else m₂ x) : ofBuf m o = (ofBuf m₂ o).cut (ofBuf m₁ o) o j := by
  have hword (w : Buf) (hw : ∀ k < 4, m (o + 4 + k) = w (o + 4 + k)) : intAt m (o + 4) = intAt w (o + 4) :=
    intAt_congr hw
  rw [ofBuf, cut, mk.injEq]
  refine ⟨?_, ?_, ?_⟩
  · rw [h o (by omega)]
    split <;> rfl
  · split
    · exact hword m₁ fun k hk => by rw [h _ (by omega), if_pos (by omega)]
    · exact hword m₂ fun k hk => by rw [h _ (by omega), if_neg (by omega)]
  · ext1 i hi
    simp only [fileNameMaxLen] at hi
    rw [Vector.getElem_ofFn]
    simp only
    rw [h _ (by omega)]
    split <;> rename_i hlt
    · rw [if_pos (by omega)]
      simp [ofBuf]
    · rw [if_neg (by omega)]
      simp [ofBuf]

end DirectoryEntry

namespace Directory

/-- A directory is its entries. -/
theorem ext_entry {n : Nat} {dir dir' : Directory n} (h : ∀ l, dir.table.get l = dir'.table.get l) : dir = dir' := by
  have hext : dir.table = dir'.table := Vector.ext fun i hi => h ⟨i, hi⟩
  cases dir
  cases dir'
  rw [mk.injEq]
  exact hext

/-- The directory a file holds after the first `j` sectors of it are written. -/
def cut {n : Nat} (old new : Directory n) (j : Nat) : Directory n where
  table := Vector.ofFn fun i => (old.table.get i).cut (new.table.get i) (20 * i) j

theorem get_cut {n : Nat} (old new : Directory n) (j : Nat) (l : Fin n) :
    (old.cut new j).table.get l = (old.table.get l).cut (new.table.get l) (20 * l) j :=
  Vector.getElem_ofFn l.isLt

theorem cut_zero {n : Nat} (old new : Directory n) : old.cut new 0 = old :=
  ext_entry fun l => by simp [get_cut, DirectoryEntry.cut]

/-- In which fields the end of a sector does not fall. -/
theorem entry_fields : ∀ i < 10, (20 * i + 7) / 128 = 20 * i / 128 ∧ (20 * i + 17) / 128 = (20 * i + 8) / 128 := by decide

theorem get_table_set {n : Nat} (dir : Directory n) (k l : Fin n) (e : DirectoryEntry) :
    (dir.table.set k e k.isLt).get l = if l = k then e else dir.table.get l := getElem_table_set dir k l e

/-- An entry that does not change is not cut. -/
theorem get_cut_set {n : Nat} (old : Directory n) (k l : Fin n) (e : DirectoryEntry) (j : Nat) :
    (old.cut { table := old.table.set k e k.isLt } j).table.get l =
      if l = k then (old.table.get k).cut e (20 * k) j else old.table.get l := by
  rw [get_cut, get_table_set]
  by_cases h : l = k
  · subst h
    simp
  · rw [if_neg h, if_neg h, DirectoryEntry.cut_self]

/-- `WriteBack` that stops after `j` sector writes. -/
theorem writeBackLog_of {f : OpenFile} {d : Disk} (hv : f.hdr.Valid) (hb : f.hdr.numBytes = directoryFileSize)
    {dir : Directory numDirEntries} (hr : dir.InRange) (junk : Buf) :
    ∃ ws, dir.writeBackLog f d junk = .ok ws ∧ ws.length = 2 ∧ (∀ w ∈ ws, w.sector ∈ f.hdr.sectors) ∧
      ∀ j, inFile numDirEntries (d.apply (ws.take j)) f.hdr = (inFile numDirEntries d f.hdr).cut dir j := by
  obtain ⟨ws, hlog, hlen, hmem, hcont⟩ := OpenFile.writeWholeLog_of (d := d) hv hb (by decide) dir.toBuf junk
  refine ⟨ws, hlog, hlen, hmem, fun j => ?_⟩
  have hdir : ofBuf numDirEntries dir.toBuf = dir := ofBuf_of_agree (fun _ _ => rfl) hr
  refine ext_entry fun i => ?_
  have hi' : (i : Nat) < 10 := i.isLt
  have hcut := DirectoryEntry.ofBuf_cut (m := OpenFile.content (d.apply (ws.take j)) f.hdr) (o := 20 * i) (entry_fields i hi').1
    (entry_fields i hi').2 fun x hx => hcont j x (show x < 200 by omega)
  have hget (m : Buf) : (ofBuf numDirEntries m).table.get i = DirectoryEntry.ofBuf m (20 * i) := Vector.getElem_ofFn i.isLt
  have hnew : dir.table.get i = DirectoryEntry.ofBuf dir.toBuf (20 * i) := by
    conv_lhs => rw [← hdir]
    exact hget _
  rw [get_cut, hnew]
  unfold inFile
  rw [hget, hget, hcut]

end Directory

/-- `WriteBack` of the free map, which fills one sector. -/
theorem Bitmap.writeBackLog_of {f : OpenFile} {d : Disk} (hv : f.hdr.Valid) (hb : f.hdr.numBytes = freeMapFileSize) (b : FreeMap)
    (junk : Buf) : ∃ w, b.writeBackLog f d junk = .ok [w] ∧ w.sector ∈ f.hdr.sectors ∧ inFile 1024 (d.apply [w]) f.hdr = b := by
  obtain ⟨ws, hlog, hlen, hmem, hcont⟩ := OpenFile.writeWholeLog_of (d := d) hv hb (by decide) b.toBuf junk
  obtain ⟨w, rfl⟩ := List.length_eq_one_iff.mp hlen
  refine ⟨w, hlog, hmem w List.mem_cons_self, ofBuf_of_agree fun x hx => ?_⟩
  have hx' : x < 128 := hx
  have h := hcont 1 x hx'
  rw [if_pos (by omega)] at h
  exact h

end Nachos
