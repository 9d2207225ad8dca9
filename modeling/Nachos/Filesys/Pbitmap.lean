import Nachos.Filesys.OpenFile
import Nachos.Lib.Bitmap

/-!
# Bitmaps kept in a file (filesys/pbitmap.cc)
-/

namespace Nachos

namespace Bitmap

variable {n : Nat}

/-- `PersistentBitmap(file, numItems)`: an empty map, overwritten with what the file holds. -/
def fromFile (n : Nat) (file : OpenFile) (d : Disk) : Except Fault (Bitmap n) := do
  let b ← Bitmap.new n
  let (_, m) ← file.readAt d b.toBuf 0 (numWords n * 4) 0
  return ofBuf n m

/-- `PersistentBitmap::WriteBack`. -/
def writeBack (b : Bitmap n) (file : OpenFile) (d : Disk) (junk : Bytes.Buf) : Except Fault Disk := do
  let (_, d) ← file.writeAt d b.toBuf (numWords n * 4) 0 junk
  return d

/-- The bitmap a file holds. -/
def inFile (n : Nat) (d : Disk) (h : FileHeader) : Bitmap n := ofBuf n (OpenFile.content d h)

/-- A bitmap read from a file of the right size is the one the file holds. -/
theorem fromFile_of {f : OpenFile} {d : Disk} (h0 : 0 < n) (hv : f.hdr.Valid)
    (hb : f.hdr.numBytes = (numWords n * 4 : Nat)) : fromFile n f d = .ok (inFile n d f.hdr) := by
  obtain ⟨b, hnew, -⟩ := new_of h0
  obtain ⟨m, hread, hm⟩ := OpenFile.readWhole_of (d := d) hv hb b.toBuf
  unfold fromFile
  rw [show ((numWords n : Nat) : Int) * 4 = ((numWords n * 4 : Nat) : Int) by push_cast; rfl, hnew]
  show (f.readAt d b.toBuf 0 _ 0 >>= _) = _
  rw [hread]
  show Except.ok _ = Except.ok _
  congr 1
  exact ofBuf_congr fun j hj => hm j (by omega)

/-- `WriteBack` to a file of the right size stores the bitmap there, and changes no sector but those of the file. -/
theorem writeBack_of {f : OpenFile} {d : Disk} (hv : f.hdr.Valid) (hb : f.hdr.numBytes = (numWords n * 4 : Nat))
    (b : Bitmap n) (junk : Bytes.Buf) :
    ∃ d', b.writeBack f d junk = .ok d' ∧ inFile n d' f.hdr = b ∧
      ∀ s, s ∉ f.hdr.sectors → d'.sector s = d.sector s := by
  obtain ⟨d', hw, hin, hout⟩ := OpenFile.writeWhole_of (d := d) hv hb b.toBuf junk
  refine ⟨d', ?_, ofBuf_of_agree (fun j hj => hin j (by omega)), hout⟩
  unfold writeBack
  rw [show ((numWords n : Nat) : Int) * 4 = ((numWords n * 4 : Nat) : Int) by push_cast; rfl, hw]
  rfl

/-- The bitmap a file holds depends only on the sectors of the file. -/
theorem inFile_congr {h : FileHeader} (hv : h.Valid) (hb : h.numBytes = (numWords n * 4 : Nat)) {d d' : Disk}
    (hs : ∀ s ∈ h.sectors, d'.sector s = d.sector s) : inFile n d' h = inFile n d h :=
  ofBuf_congr fun j hj => OpenFile.content_congr hv hs (by omega)

end Bitmap

end Nachos
