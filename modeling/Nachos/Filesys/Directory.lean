import Mathlib.Data.List.FinRange
import Nachos.Filesys.OpenFile
import Nachos.Prelude.CString

/-!
# Directories (filesys/directory.cc)

A directory is a table of entries that is read and written as one file. An entry is 20 bytes in memory: the flag, the sector of
the header at offset 4, the name at offset 8; the padding between them is kept at zero here, and is never looked at.
-/

namespace Nachos

open Bytes

/-- `FileNameMaxLen`. -/
@[simp] abbrev fileNameMaxLen : Nat := 9

/-- `class DirectoryEntry`. -/
structure DirectoryEntry where
  inUse : Bool
  sector : Int
  name : Vector UInt8 (fileNameMaxLen + 1)

namespace DirectoryEntry

/-- The name as the pointer `table[i].name` shows it. -/
def nameBuf (e : DirectoryEntry) : Buf := fun j => e.name.toArray.getD j 0

/-- An entry as it lies in memory. -/
def toBuf (e : DirectoryEntry) : Buf := fun j =>
  if j = 0 then (if e.inUse then 1 else 0)
  else if 4 ≤ j ∧ j < 8 then byteOf e.sector (j - 4)
  else if 8 ≤ j ∧ j < 18 then e.nameBuf (j - 8)
  else 0

/-- The entry at offset `o` of memory. -/
def ofBuf (m : Buf) (o : Nat) : DirectoryEntry :=
  { inUse := m o != 0
    sector := intAt m (o + 4)
    name := Vector.ofFn fun j => m (o + 8 + j) }

/-- An entry read from where it was stored is the one stored. -/
theorem ofBuf_of_agree {e : DirectoryEntry} {m : Buf} {o : Nat} (h : ∀ j < 20, m (o + j) = e.toBuf j) (hs : InRange e.sector) :
    ofBuf m o = e := by
  obtain ⟨inUse, sector, name⟩ := e
  have h0 : m o = if inUse then 1 else 0 := h 0 (by decide)
  have hsector : intAt m (o + 4) = sector := by
    refine intAt_of_bytes ?_ hs
    intro k hk
    rw [Nat.add_assoc, h (4 + k) (by omega)]
    have h2 : 4 ≤ 4 + k ∧ 4 + k < 8 := by omega
    simp [toBuf, h2]
  unfold ofBuf
  rw [h0, hsector, mk.injEq]
  refine ⟨?_, rfl, ?_⟩
  · cases inUse <;> rfl
  · ext1 j hj
    rw [Vector.getElem_ofFn, Nat.add_assoc, h (8 + j) (by simp only [fileNameMaxLen] at hj; omega)]
    have h1 : ¬(8 + j = 0) := by omega
    have h2 : ¬(4 ≤ 8 + j ∧ 8 + j < 8) := by omega
    have h3 : 8 ≤ 8 + j ∧ 8 + j < 18 := by simp only [fileNameMaxLen] at hj; omega
    unfold toBuf nameBuf
    rw [if_neg h1, if_neg h2, if_pos h3, Nat.add_sub_cancel_left]
    simp [hj]

end DirectoryEntry

/-- `class Directory`: a table of `tableSize` entries. -/
structure Directory (tableSize : Nat) where
  table : Vector DirectoryEntry tableSize

namespace Directory

variable {n : Nat}

/-- The directory at a place in memory. -/
def ofBuf (n : Nat) (m : Buf) : Directory n := { table := Vector.ofFn fun i => DirectoryEntry.ofBuf m (20 * i) }

/-- A directory as it lies in memory. -/
def toBuf (dir : Directory n) : Buf := fun j => if h : j / 20 < n then (dir.table[j / 20]).toBuf (j % 20) else 0

/-- `Directory::Directory`: the entries are marked not in use, and hold what the memory held otherwise. -/
def new (n : Nat) (junk : Buf) : Directory n := { table := (ofBuf n junk).table.map fun e => { e with inUse := false } }

/-- `Directory::FetchFrom`. -/
def fetchFrom (dir : Directory n) (file : OpenFile) (d : Disk) : Except Fault (Directory n) := do
  let (_, m) ← file.readAt d dir.toBuf 0 (n * 20) 0
  return ofBuf n m

/-- `Directory::WriteBack`. -/
def writeBack (dir : Directory n) (file : OpenFile) (d : Disk) (junk : Buf) : Except Fault Disk := do
  let (_, d) ← file.writeAt d dir.toBuf (n * 20) 0 junk
  return d

/-- The test of `FindIndex` on one entry: it is in use, and its name is `name`, as far as `FileNameMaxLen` characters go. -/
def entryMatches (name : Buf) (e : DirectoryEntry) : Bool := e.inUse && CString.strncmp e.nameBuf name fileNameMaxLen == 0

/-- `Directory::FindIndex`; `none` stands for -1. -/
def findIndex (dir : Directory n) (name : Buf) : Option (Fin n) :=
  (List.finRange n).find? fun i => entryMatches name dir.table[i]

/-- `Directory::Find`. -/
def find (dir : Directory n) (name : Buf) : Int :=
  match dir.findIndex name with
  | some i => dir.table[i].sector
  | none => -1 -- name not in directory

/-- The entry that `Add` looks for: the first one not in use. -/
def freeIndex (dir : Directory n) : Option (Fin n) := (List.finRange n).find? fun i => !dir.table[i].inUse

/-- The entry `Add` makes out of an unused one: `strncpy` leaves the last byte of the name as it was. -/
def newEntry (e : DirectoryEntry) (name : Buf) (newSector : Int) : DirectoryEntry :=
  { inUse := true
    sector := newSector
    name := Vector.ofFn fun j => CString.strncpy e.nameBuf name fileNameMaxLen j }

/-- `Directory::Add`; the result is the value returned and the directory. -/
def add (dir : Directory n) (name : Buf) (newSector : Int) : Bool × Directory n :=
  match dir.findIndex name with
  | some _ => (false, dir)
  | none =>
    match dir.freeIndex with
    | some i => (true, { table := dir.table.set i (newEntry dir.table[i] name newSector) })
    | none => (false, dir) -- no space. Fix when we have extensible files.

/-- `Directory::Remove`; the result is the value returned and the directory. -/
def remove (dir : Directory n) (name : Buf) : Bool × Directory n :=
  match dir.findIndex name with
  | none => (false, dir) -- name not in directory
  | some i => (true, { table := dir.table.set i { dir.table[i] with inUse := false } })

/-! ## Searching -/

theorem findIndex_some {dir : Directory n} {name : Buf} {i : Fin n} (h : dir.findIndex name = some i) :
    dir.table[i].inUse = true ∧ CString.strncmp dir.table[i].nameBuf name fileNameMaxLen = 0 := by
  have := List.find?_some h
  simpa [entryMatches] using this

theorem freeIndex_some {dir : Directory n} {i : Fin n} (h : dir.freeIndex = some i) : dir.table[i].inUse = false := by
  have := List.find?_some h
  simpa using this

/-- A name is not found when no entry in use has it. -/
theorem findIndex_none {dir : Directory n} {name : Buf}
    (h : ∀ i : Fin n, dir.table[i].inUse = true → CString.strncmp dir.table[i].nameBuf name fileNameMaxLen ≠ 0) :
    dir.findIndex name = none := by
  refine List.find?_eq_none.2 fun i _ hm => ?_
  simp only [entryMatches, Bool.and_eq_true, beq_iff_eq] at hm
  exact h i hm.1 hm.2

theorem findIndex_eq_none_iff (dir : Directory n) (name : Buf) : dir.findIndex name = none ↔
    ∀ i : Fin n, dir.table[i].inUse = true → CString.strncmp dir.table[i].nameBuf name fileNameMaxLen ≠ 0 := by
  refine ⟨?_, findIndex_none⟩
  intro h i hu hname
  have := List.find?_eq_none.1 h i (List.mem_finRange i)
  rw [entryMatches, hu, hname] at this
  exact this rfl

theorem freeIndex_eq_none_iff (dir : Directory n) : dir.freeIndex = none ↔ ∀ i : Fin n, dir.table[i].inUse = true := by
  unfold freeIndex
  rw [List.find?_eq_none]
  refine ⟨fun h i => ?_, fun h i _ => by rw [h i]; decide⟩
  simpa using h i (List.mem_finRange i)

/-- There is room while an entry is not in use. -/
theorem freeIndex_ne_none {dir : Directory n} {i : Fin n} (h : dir.table[i].inUse = false) : dir.freeIndex ≠ none := by
  intro hn
  exact List.find?_eq_none.1 hn i (List.mem_finRange i) (by rw [h]; rfl)

/-- A new entry has the name given, as far as `FileNameMaxLen` characters go. -/
theorem nameBuf_newEntry (e : DirectoryEntry) (name : Buf) (s : Int) {j : Nat} (h : j < fileNameMaxLen) :
    (newEntry e name s).nameBuf j = CString.padded name j := by
  have hj : j < fileNameMaxLen + 1 := by omega
  unfold newEntry DirectoryEntry.nameBuf
  simp only [Vector.toArray_ofFn, Array.getD_eq_getD_getElem?, Array.getElem?_ofFn, dif_pos hj, Option.getD_some]
  exact if_pos h

theorem find_of_some {dir : Directory n} {name : Buf} {i : Fin n} (h : dir.findIndex name = some i) :
    dir.find name = dir.table[i].sector := by
  unfold find
  rw [h]

theorem find_of_none {dir : Directory n} {name : Buf} (h : dir.findIndex name = none) : dir.find name = -1 := by
  unfold find
  rw [h]

theorem add_of {dir : Directory n} {name : Buf} {i : Fin n} (h : dir.findIndex name = none) (hi : dir.freeIndex = some i)
    (s : Int) : dir.add name s = (true, { table := dir.table.set i (newEntry dir.table[i] name s) }) := by
  unfold add
  rw [h, hi]

theorem add_of_full {dir : Directory n} {name : Buf} (h : dir.findIndex name = none) (hi : dir.freeIndex = none) (s : Int) :
    dir.add name s = (false, dir) := by
  unfold add
  rw [h, hi]

theorem remove_of {dir : Directory n} {name : Buf} {i : Fin n} (h : dir.findIndex name = some i) :
    dir.remove name = (true, { table := dir.table.set i { dir.table[i] with inUse := false } }) := by
  unfold remove
  rw [h]

/-! ## A directory in memory and in a file -/

/-- All sectors of a directory are 32-bit integers. -/
def InRange (dir : Directory n) : Prop := ∀ i : Fin n, Bytes.InRange dir.table[i].sector

theorem inRange_ofBuf (m : Buf) : (ofBuf n m).InRange := by
  intro i
  have h := inRange_intAt m (20 * i + 4)
  simpa only [ofBuf, Fin.getElem_fin, Vector.getElem_ofFn, DirectoryEntry.ofBuf] using h

theorem inRange_new (junk : Buf) : (new n junk).InRange := by
  intro i
  have h := inRange_ofBuf (n := n) junk i
  simpa only [new, Fin.getElem_fin, Vector.getElem_map] using h

/-- Replacing an entry by one whose sector is a 32-bit integer. -/
theorem InRange.set {dir : Directory n} (h : dir.InRange) (i : Fin n) {e : DirectoryEntry} (he : Bytes.InRange e.sector) :
    InRange { table := dir.table.set i e } := by
  intro j
  simp only [Fin.getElem_fin, Vector.getElem_set]
  split
  · exact he
  · exact h j

/-- A directory read from where it was stored is the one stored. -/
theorem ofBuf_of_agree {dir : Directory n} {m : Buf} (h : ∀ j < 20 * n, m j = dir.toBuf j) (hr : dir.InRange) :
    ofBuf n m = dir := by
  obtain ⟨table⟩ := dir
  unfold ofBuf
  congr 1
  ext1 i hi
  rw [Vector.getElem_ofFn]
  refine DirectoryEntry.ofBuf_of_agree ?_ (hr ⟨i, hi⟩)
  intro j hj
  have h1 : (20 * i + j) / 20 = i := by omega
  have h2 : (20 * i + j) % 20 = j := by omega
  rw [h (20 * i + j) (by omega)]
  unfold toBuf
  rw [dif_pos (by omega)]
  simp only [h1, h2]

/-- Directories read from memory that agrees are equal. -/
theorem ofBuf_congr {m m' : Buf} (h : ∀ j < 20 * n, m j = m' j) : ofBuf n m = ofBuf n m' := by
  unfold ofBuf
  congr 1
  ext1 i hi
  rw [Vector.getElem_ofFn, Vector.getElem_ofFn]
  rw [DirectoryEntry.ofBuf, DirectoryEntry.ofBuf, DirectoryEntry.mk.injEq]
  refine ⟨by rw [h _ (by omega)], intAt_congr fun k hk => h _ (by omega), ?_⟩
  · ext1 j hj
    simp only [fileNameMaxLen] at hj
    rw [Vector.getElem_ofFn, Vector.getElem_ofFn]
    exact h _ (by simp only; omega)

/-- The directory a file holds. -/
def inFile (n : Nat) (d : Disk) (h : FileHeader) : Directory n := ofBuf n (OpenFile.content d h)

/-- `FetchFrom` a file of the right size reads the directory the file holds. -/
theorem fetchFrom_of {f : OpenFile} {d : Disk} (hv : f.hdr.Valid) (hb : f.hdr.numBytes = (n * 20 : Nat))
    (dir : Directory n) : dir.fetchFrom f d = .ok (inFile n d f.hdr) := by
  obtain ⟨m, hread, hm⟩ := OpenFile.readWhole_of (d := d) hv hb dir.toBuf
  unfold fetchFrom
  rw [show (n : Int) * 20 = ((n * 20 : Nat) : Int) by push_cast; rfl, hread]
  show Except.ok _ = Except.ok _
  congr 1
  exact ofBuf_congr fun j hj => hm j (by omega)

/-- `WriteBack` to a file of the right size stores the directory there, and changes no sector but those of the file. -/
theorem writeBack_of {f : OpenFile} {d : Disk} (hv : f.hdr.Valid) (hb : f.hdr.numBytes = (n * 20 : Nat))
    {dir : Directory n} (hr : dir.InRange) (junk : Buf) :
    ∃ d', dir.writeBack f d junk = .ok d' ∧ inFile n d' f.hdr = dir ∧
      ∀ s, s ∉ f.hdr.sectors → d'.sector s = d.sector s := by
  obtain ⟨d', hw, hin, hout⟩ := OpenFile.writeWhole_of (d := d) hv hb dir.toBuf junk
  refine ⟨d', ?_, ofBuf_of_agree (fun j hj => hin j (by omega)) hr, hout⟩
  unfold writeBack
  rw [show (n : Int) * 20 = ((n * 20 : Nat) : Int) by push_cast; rfl, hw]
  rfl

/-- The directory a file holds depends only on the sectors of the file. -/
theorem inFile_congr {h : FileHeader} (hv : h.Valid) (hb : h.numBytes = (n * 20 : Nat)) {d d' : Disk}
    (hs : ∀ s ∈ h.sectors, d'.sector s = d.sector s) : inFile n d' h = inFile n d h :=
  ofBuf_congr fun j hj => OpenFile.content_congr hv hs (by omega)

/-! ## A directory is a map from names to sectors

Two names are the same for a directory when their first `FileNameMaxLen` characters are: directory.h assumes that names are not longer.
Up to this, `Find` returns what the calls made so far have put into the directory and not taken out again. -/

section Map

variable {dir : Directory n} {name : Buf}

/-- A call that may change a directory. -/
inductive Op where
  | add (name : Buf) (newSector : Int)
  | remove (name : Buf)

/-- The call on a directory; the result is the value returned and the directory. -/
def step (dir : Directory n) : Op → Bool × Directory n
  | .add name newSector => dir.add name newSector
  | .remove name => dir.remove name

/-- The calls made so far, the latest one first, with the values they returned. -/
abbrev History := List (Op × Bool)

/-- The sector of the last successful `Add` of `name` if the name has not been removed since; names are compared by their first `len`
characters. -/
def lastAdded (len : Nat) (name : Buf) : History → Option Int
  | [] => none
  | (.add name' newSector, true) :: earlier => if CString.Same len name' name then some newSector else lastAdded len name earlier
  | (.remove name', true) :: earlier => if CString.Same len name' name then none else lastAdded len name earlier
  | (_, false) :: earlier => lastAdded len name earlier

/-- One more call. -/
def record (p : History × Directory n) (op : Op) : History × Directory n :=
  ((op, (p.2.step op).1) :: p.1, (p.2.step op).2)

/-- The calls on an empty directory, in order. -/
def run (n : Nat) (junk : Buf) (ops : List Op) : History × Directory n := ops.foldl record ([], new n junk)

/-! ### Entries and their names -/

/-- Entry `i` is in use and has this name. -/
def Named (dir : Directory n) (i : Fin n) (name : Buf) : Prop :=
  dir.table[i].inUse = true ∧ CString.Same fileNameMaxLen dir.table[i].nameBuf name

theorem named_of_findIndex {i : Fin n} (h : dir.findIndex name = some i) : Named dir i name :=
  ⟨(findIndex_some h).1, CString.strncmp_eq_zero_iff.1 (findIndex_some h).2⟩

/-- A name that is not found is the name of no entry. -/
theorem findIndex_eq_none_iff_named : dir.findIndex name = none ↔ ∀ i, ¬Named dir i name := by
  rw [findIndex_eq_none_iff]
  refine forall_congr' fun i => ?_
  rw [Named, not_and, Ne, CString.strncmp_eq_zero_iff]

/-- The entries after one of them has been replaced. -/
theorem getElem_table_set (dir : Directory n) (i j : Fin n) (e : DirectoryEntry) :
    (dir.table.set i e)[j] = if j = i then e else dir.table[j] := by
  simp only [Fin.getElem_fin, Vector.getElem_set, Fin.ext_iff, eq_comm]

/-- A new entry has the name it was made for. -/
theorem same_newEntry (e : DirectoryEntry) (name : Buf) (s : Int) : CString.Same fileNameMaxLen (newEntry e name s).nameBuf name := by
  intro j hj
  rw [CString.padded_congr fun l hl => nameBuf_newEntry e name s (Nat.lt_of_le_of_lt hl hj), CString.padded_padded]

/-- The names after `Add`: the new one, and the old ones. -/
theorem named_add {i j : Fin n} {name' : Buf} {s : Int} :
    Named { table := dir.table.set i (newEntry dir.table[i] name s) } j name' ↔
      if j = i then CString.Same fileNameMaxLen name name' else Named dir j name' := by
  have hnew := same_newEntry dir.table[i] name s
  unfold Named
  simp only [getElem_table_set]
  split
  · refine ⟨fun h => hnew.symm.trans h.2, fun h => ⟨rfl, hnew.trans h⟩⟩
  · exact Iff.rfl

/-- The names after `Remove`: all but the one of the entry that was freed. -/
theorem named_remove {i j : Fin n} {name' : Buf} :
    Named { table := dir.table.set i { dir.table[i] with inUse := false } } j name' ↔ j ≠ i ∧ Named dir j name' := by
  unfold Named
  simp only [getElem_table_set]
  split
  · rename_i hji
    exact iff_of_false (fun h => Bool.false_ne_true h.1) fun h => h.1 hji
  · rename_i hji
    exact (and_iff_right hji).symm

/-! ### The map -/

/-- The directory represents a map from names to sectors: no name belongs to two entries, and the map gives the sectors of the names. -/
structure Represents (dir : Directory n) (sectorOf : Buf → Option Int) : Prop where
  distinct : ∀ i j name, Named dir i name → Named dir j name → i = j
  sectors : ∀ name s, sectorOf name = some s ↔ ∃ i, Named dir i name ∧ dir.table[i].sector = s

section

variable {sectorOf : Buf → Option Int}

theorem Represents.of_named (h : Represents dir sectorOf) {i : Fin n} (hi : Named dir i name) :
    sectorOf name = some dir.table[i].sector := (h.sectors _ _).2 ⟨i, hi, rfl⟩

/-- The map knows exactly the names that are found. -/
theorem Represents.eq_none_iff (h : Represents dir sectorOf) : sectorOf name = none ↔ dir.findIndex name = none := by
  rw [findIndex_eq_none_iff_named]
  constructor
  · intro hnone i hi
    rw [h.of_named hi] at hnone
    cases hnone
  · intro hno
    by_contra hsome
    obtain ⟨s, hs⟩ := Option.ne_none_iff_exists'.1 hsome
    obtain ⟨i, hi, -⟩ := (h.sectors _ _).1 hs
    exact hno i hi

/-- `Find` returns the sector that the map gives, or -1. -/
theorem Represents.find (h : Represents dir sectorOf) (name : Buf) : dir.find name = (sectorOf name).getD (-1) := by
  cases hfind : dir.findIndex name with
  | none => rw [find_of_none hfind, h.eq_none_iff.2 hfind, Option.getD_none]
  | some i => rw [find_of_some hfind, h.of_named (named_of_findIndex hfind), Option.getD_some]

/-- `Add` fails exactly for a name that is there, and when all entries are in use. -/
theorem Represents.add_fails_iff (h : Represents dir sectorOf) (name : Buf) (s : Int) :
    (dir.add name s).1 = false ↔ sectorOf name ≠ none ∨ ∀ i : Fin n, dir.table[i].inUse = true := by
  rw [Ne, h.eq_none_iff, ← freeIndex_eq_none_iff]
  unfold add
  cases dir.findIndex name <;> cases dir.freeIndex <;> simp

/-- `Remove` frees the one entry with the name, if there is one, and changes nothing else. -/
def RemovesOnly (dir : Directory n) (name : Buf) : Prop :=
  (∃ i, Named dir i name ∧ (∀ j, Named dir j name → j = i) ∧
    dir.remove name = (true, { table := dir.table.set i { dir.table[i] with inUse := false } })) ∨
  (∀ i, ¬Named dir i name) ∧ dir.remove name = (false, dir)

theorem Represents.removesOnly (h : Represents dir sectorOf) (name : Buf) : RemovesOnly dir name := by
  cases hfind : dir.findIndex name with
  | none =>
    refine Or.inr ⟨findIndex_eq_none_iff_named.1 hfind, ?_⟩
    unfold remove
    rw [hfind]
  | some i =>
    have hi := named_of_findIndex hfind
    exact Or.inl ⟨i, hi, fun j hj => h.distinct j i name hj hi, remove_of hfind⟩

/-- A successful `Add` gives the name its sector, and leaves the other names alone. -/
theorem Represents.add (h : Represents dir sectorOf) {i : Fin n} (s : Int) (hfind : dir.findIndex name = none)
    (hfree : dir.freeIndex = some i) :
    Represents { table := dir.table.set i (newEntry dir.table[i] name s) }
      fun name' => if CString.Same fileNameMaxLen name name' then some s else sectorOf name' := by
  have hnew := findIndex_eq_none_iff_named.1 hfind
  have hunused (name' : Buf) : ¬Named dir i name' := by
    intro hi
    rw [Named, freeIndex_some hfree] at hi
    cases hi.1
  -- what has the new name is the new entry
  have hold {j : Fin n} {name' : Buf} (hsame : CString.Same fileNameMaxLen name name') : ¬Named dir j name' :=
    fun hj => hnew j ⟨hj.1, hj.2.trans hsame.symm⟩
  refine ⟨?_, ?_⟩
  · intro j k name' hj hk
    rw [named_add] at hj hk
    split at hj <;> split at hk
    · simp_all
    · exact absurd hk (hold hj)
    · exact absurd hj (hold hk)
    · exact h.distinct j k name' hj hk
  · intro name' s'
    simp only [named_add, getElem_table_set]
    by_cases hsame : CString.Same fileNameMaxLen name name'
    · rw [if_pos hsame, Option.some_inj]
      constructor
      · rintro rfl
        exact ⟨i, by rw [if_pos rfl]; exact hsame, by rw [if_pos rfl]; rfl⟩
      · rintro ⟨j, hj, hs⟩
        by_cases hji : j = i
        · rw [if_pos hji] at hs
          exact hs
        · rw [if_neg hji] at hj
          exact absurd hj (hold hsame)
    · rw [if_neg hsame, h.sectors]
      refine exists_congr fun j => ?_
      by_cases hji : j = i
      · subst hji
        rw [if_pos rfl]
        exact iff_of_false (fun hj => hunused name' hj.1) fun hj => hsame hj.1
      · rw [if_neg hji, if_neg hji]

/-- A successful `Remove` takes the name out of the map, and leaves the other names alone. -/
theorem Represents.remove (h : Represents dir sectorOf) {i : Fin n} (hfind : dir.findIndex name = some i) :
    Represents { table := dir.table.set i { dir.table[i] with inUse := false } }
      fun name' => if CString.Same fileNameMaxLen name name' then none else sectorOf name' := by
  have hi := named_of_findIndex hfind
  refine ⟨?_, ?_⟩
  · intro j k name' hj hk
    exact h.distinct j k name' (named_remove.1 hj).2 (named_remove.1 hk).2
  · intro name' s'
    simp only [named_remove, getElem_table_set]
    by_cases hsame : CString.Same fileNameMaxLen name name'
    · rw [if_pos hsame]
      refine iff_of_false nofun ?_
      rintro ⟨j, ⟨hji, hj⟩, -⟩
      exact hji (h.distinct j i name' hj ⟨hi.1, hi.2.trans hsame⟩)
    · rw [if_neg hsame, h.sectors]
      refine exists_congr fun j => ?_
      by_cases hji : j = i
      · subst hji
        refine iff_of_false (fun hj => hsame (hi.2.symm.trans hj.1.2)) fun hj => hj.1.1 rfl
      · rw [if_neg hji, and_iff_right hji]

end

/-! ### Runs -/

/-- An empty directory represents the empty map. -/
theorem represents_new (n : Nat) (junk : Buf) : Represents (new n junk) fun _ => none := by
  have hno (i : Fin n) (name : Buf) : ¬Named (new n junk) i name := by
    intro hi
    have := hi.1
    simp [new] at this
  refine ⟨fun i _ name hi => absurd hi (hno i name), ?_⟩
  intro name s
  exact iff_of_false nofun fun ⟨i, hi, _⟩ => hno i name hi

/-- Every call keeps the directory a representation of what its history says. -/
theorem represents_record {p : History × Directory n} (h : Represents p.2 fun name => lastAdded fileNameMaxLen name p.1) (op : Op) :
    Represents (record p op).2 fun name => lastAdded fileNameMaxLen name (record p op).1 := by
  obtain ⟨history, dir⟩ := p
  cases op with
  | add name s =>
    unfold record step
    cases hfind : dir.findIndex name with
    | some i =>
      have hadd : dir.add name s = (false, dir) := by
        unfold Directory.add
        rw [hfind]
      simp only [hadd, lastAdded]
      exact h
    | none =>
      cases hfree : dir.freeIndex with
      | none =>
        simp only [add_of_full hfind hfree, lastAdded]
        exact h
      | some i =>
        simp only [add_of hfind hfree, lastAdded]
        exact h.add s hfind hfree
  | remove name =>
    unfold record step
    cases hfind : dir.findIndex name with
    | none =>
      have hremove : dir.remove name = (false, dir) := by
        unfold Directory.remove
        rw [hfind]
      simp only [hremove, lastAdded]
      exact h
    | some i =>
      simp only [remove_of hfind, lastAdded]
      exact h.remove hfind

theorem represents_foldl {p : History × Directory n} (h : Represents p.2 fun name => lastAdded fileNameMaxLen name p.1)
    (ops : List Op) : Represents (ops.foldl record p).2 fun name => lastAdded fileNameMaxLen name (ops.foldl record p).1 := by
  induction ops generalizing p with
  | nil => exact h
  | cons op ops ih => exact ih (represents_record h op)

theorem represents_run (n : Nat) (junk : Buf) (ops : List Op) :
    Represents (run n junk ops).2 fun name => lastAdded fileNameMaxLen name (run n junk ops).1 :=
  represents_foldl (p := ([], new n junk)) (represents_new n junk) ops

/-- After every sequence of `Add` and `Remove` on an empty directory of any size, with names compared by their first `FileNameMaxLen`
characters: `Find` returns the sector of the last successful `Add` of the name that has not been removed since, or -1; `Add` fails exactly
when the name is there or all entries are in use; and `Remove` frees the entry with the name and no other. -/
theorem directory_is_map (n : Nat) (junk : Buf) (ops : List Op) :
    (∀ name, (run n junk ops).2.find name = (lastAdded fileNameMaxLen name (run n junk ops).1).getD (-1)) ∧
    (∀ name s, ((run n junk ops).2.add name s).1 = false ↔
      lastAdded fileNameMaxLen name (run n junk ops).1 ≠ none ∨ ∀ i : Fin n, (run n junk ops).2.table[i].inUse = true) ∧
    ∀ name, RemovesOnly (run n junk ops).2 name := by
  have h := represents_run n junk ops
  exact ⟨h.find, h.add_fails_iff, h.removesOnly⟩

/-- A name of nine letters `a` and one more letter. -/
def tenLetters (c : UInt8) : Buf := fun i => if i < 9 then 97 else if i = 9 then c else 0

/-- The first `Add` on an empty directory with a place succeeds. -/
theorem add_new (junk name : Buf) (s : Int) : ((new (n + 1) junk).add name s).1 = true := by
  have h := (represents_new (n + 1) junk).add_fails_iff name s
  have hunused : ¬∀ i : Fin (n + 1), (new (n + 1) junk).table[i].inUse = true := by
    intro hall
    have := hall 0
    simp [new] at this
  refine Bool.eq_true_of_not_eq_false ?_
  rw [h]
  simpa using hunused

/-- With names of up to 32 characters compared as a whole, a directory is no map: it finds a name that was never added. -/
theorem not_directory_is_map : ¬∀ (n : Nat) (junk : Buf) (ops : List Op) (name : Buf),
    (run n junk ops).2.find name = (lastAdded 32 name (run n junk ops).1).getD (-1) := by
  intro hall
  have hhistory : (run 10 (fun _ => 0) [.add (tenLetters 98) 5]).1 = [(.add (tenLetters 98) 5, true)] := by
    show [(_, ((new 10 _).add (tenLetters 98) 5).1)] = _
    rw [add_new]
  have hfind := (represents_run 10 (fun _ => 0) [.add (tenLetters 98) 5]).find (tenLetters 99)
  rw [hall, hhistory] at hfind
  revert hfind
  decide

end Map

end Directory

end Nachos
