import Mathlib.Algebra.Order.Ring.Int
import MmsServer.Lib.ByteLayout

namespace MmsServer.Mp4.Base

open Lib.ByteReader Lib.ByteLayout Lib.ByteLayout.Layout

section NetBuffer

def write1 (v : BitVec 8) : Layout := .put (putBE 1 v.toNat)

def write2 (v : BitVec 16) : Layout := .put (putBE 2 v.toNat)

def write3 (v : BitVec 32) : Layout := .put (putBE 3 v.toNat)

def write4 (v : BitVec 32) : Layout := .put (putBE 4 v.toNat)

def write8 (v : BitVec 64) : Layout := .put (putBE 8 v.toNat)

def writeString (s : Bytes) : Layout := .put s

/-- A load on a little-endian host. -/
def hostLoad (k : ℕ) : Reader ℕ := fun bs ↦
  if bs.length < k then none else some (fromBE (bs.take k).reverse, bs.drop k)

def swapBytes (k v : ℕ) : ℕ := fromBE (putBE k v).reverse

def read1 : Reader (BitVec 8) := return BitVec.ofNat 8 (← hostLoad 1)

/-- The half word goes through `htonl`, and the low half of the result is taken. -/
def read2 : Reader (BitVec 16) := return BitVec.ofNat 16 (swapBytes 4 (← hostLoad 2))

def read3 : Reader (BitVec 32) := return BitVec.ofNat 32 (← readBE 3)

def read4 : Reader (BitVec 32) := return BitVec.ofNat 32 (swapBytes 4 (← hostLoad 4))

def read8 : Reader (BitVec 64) := return BitVec.ofNat 64 (swapBytes 8 (← hostLoad 8))

def readString (len : ℕ) : Reader Bytes := fun bs ↦
  if bs.length < len then none else some (bs.take len, bs.drop len)

def skipBytes (n : ℕ) : Reader Unit := fun bs ↦
  if bs.length < n then none else some ((), bs.drop n)

def counted {α : Type} (r : Reader α) : Reader (α × ℕ) := fun bs ↦
  (r bs).map fun p ↦ ((p.1, bs.length - p.2.length), p.2)

theorem hostLoad_yields {bs : Bytes} {k : ℕ} (h : bs.length = k) :
    Yields (hostLoad k) bs (fromBE bs.reverse) := by
  intro rest
  have hlen : ¬ (bs ++ rest).length < k := by rw [List.length_append]; omega
  rw [hostLoad, if_neg hlen, List.take_left' h, List.drop_left' h]

theorem swapBytes_reverse (bs : Bytes) : swapBytes bs.length (fromBE bs.reverse) = fromBE bs := by
  rw [swapBytes]
  have h := putBE_fromBE bs.reverse
  rw [List.length_reverse] at h
  rw [h, List.reverse_reverse]

theorem swapped_yields {k w v : ℕ} (hk : 256 ^ k = 2 ^ w) (hv : v < 2 ^ w) :
    Yields (do return BitVec.ofNat w (swapBytes k (← hostLoad k))) (putBE k v)
      (BitVec.ofNat w v) := by
  intro rest
  have hlen := putBE_length k v
  rw [bind_some (hostLoad_yields hlen rest)]
  have hs := swapBytes_reverse (putBE k v)
  rw [hlen, fromBE_putBE, hk, Nat.mod_eq_of_lt hv] at hs
  rw [hs]
  rfl

theorem reads4 (v : BitVec 32) : Reads read4 (write4 v) v := by
  intro old _
  have h := swapped_yields (k := 4) (w := 32) rfl v.isLt
  rwa [BitVec.ofNat_toNat, BitVec.setWidth_eq] at h

theorem reads8 (v : BitVec 64) : Reads read8 (write8 v) v := by
  intro old _
  have h := swapped_yields (k := 8) (w := 64) rfl v.isLt
  rwa [BitVec.ofNat_toNat, BitVec.setWidth_eq] at h

theorem reads1 (v : BitVec 8) : Reads read1 (write1 v) v := by
  intro old _ rest
  have hlen := putBE_length 1 v.toNat
  change (read1 (putBE 1 v.toNat ++ rest)) = _
  rw [read1, bind_some (hostLoad_yields hlen rest)]
  change (Pure.pure (BitVec.ofNat 8 (fromBE (putBE 1 v.toNat))) : Reader (BitVec 8)) rest = _
  rw [fromBE_putBE, Nat.mod_eq_of_lt (show v.toNat < 256 ^ 1 from v.isLt), BitVec.ofNat_toNat,
    BitVec.setWidth_eq]
  rfl

theorem reads3 {v : BitVec 32} (hv : v.toNat < 2 ^ 24) : Reads read3 (write3 v) v := by
  intro old _ rest
  change (read3 (putBE 3 v.toNat ++ rest)) = _
  rw [read3, bind_some (readBE_putBE_of_lt hv rest), BitVec.ofNat_toNat, BitVec.setWidth_eq]
  rfl

/-- A half word ends up in the high half. -/
theorem swapBytes_half {v : ℕ} (hv : v < 2 ^ 16) : swapBytes 4 v % 2 ^ 16 = 0 := by
  have h2 : v / 256 ^ 2 = 0 := Nat.div_eq_of_lt hv
  have h3 : v / 256 ^ 3 = 0 := Nat.div_eq_of_lt (by omega)
  simp only [swapBytes, putBE, h2, h3, List.reverse_cons, List.reverse_nil, List.nil_append,
    List.cons_append, fromBE, List.length_cons, List.length_nil]
  have hzero : (UInt8.ofNat 0).toNat = 0 := rfl
  rw [hzero]
  omega

/-- Whatever the two bytes are, the half word that is read is 0. -/
theorem read2_yields {bs : Bytes} (h : bs.length = 2) : Yields read2 bs 0 := by
  intro rest
  have hlt := fromBE_lt bs.reverse
  rw [List.length_reverse, h] at hlt
  have hz : BitVec.ofNat 16 (swapBytes 4 (fromBE bs.reverse)) = 0 := by
    apply BitVec.eq_of_toNat_eq
    rw [BitVec.toNat_ofNat]
    exact swapBytes_half hlt
  rw [read2, bind_some (hostLoad_yields h rest), hz]
  rfl

theorem reads2 (v : BitVec 16) : Reads read2 (write2 v) 0 := fun _ _ ↦ read2_yields (putBE_length 2 _)

theorem readsSkip (n : ℕ) : Reads (skipBytes n) (.skip n) () := by
  intro old hold rest
  have hlen : (old.take n).length = n := (List.length_take ..).trans (Nat.min_eq_left hold)
  have hroom : ¬ (old.take n ++ rest).length < n := by rw [List.length_append, hlen]; omega
  change skipBytes n (old.take n ++ rest) = _
  rw [skipBytes, if_neg hroom, List.drop_left' hlen]

/-- Bytes that are passed over may be any. -/
theorem readsSkipped {bs : Bytes} {n : ℕ} (h : bs.length = n) : Reads (skipBytes n) (.put bs) () := by
  intro old _ rest
  have hroom : ¬ (bs ++ rest).length < n := by rw [List.length_append]; omega
  change skipBytes n (bs ++ rest) = _
  rw [skipBytes, if_neg hroom, List.drop_left' h]

theorem hostLoad_takes (k : ℕ) : Takes (hostLoad k) k := by
  intro bs a rest h
  unfold hostLoad at h
  split at h
  · cases h
  · cases h
    rw [List.length_drop]
    omega

theorem takes2 : Takes read2 2 := (hostLoad_takes 2).map _

theorem takes4 : Takes read4 4 := (hostLoad_takes 4).map _

theorem takes8 : Takes read8 8 := (hostLoad_takes 8).map _

theorem takesSkip (n : ℕ) : Takes (skipBytes n) n := by
  intro bs a rest h
  unfold skipBytes at h
  split at h
  · cases h
  · cases h
    rw [List.length_drop]
    omega

end NetBuffer

section Base

def boxType (c1 c2 c3 c4 : Char) : BitVec 32 :=
  BitVec.ofNat 32 (c1.toNat * 2 ^ 24 + c2.toNat * 2 ^ 16 + c3.toNat * 2 ^ 8 + c4.toNat)

def typeUuid : BitVec 32 := boxType 'u' 'u' 'i' 'd'

structure Box where
  cachedSize : ℕ
  type : BitVec 32
  largeSize : BitVec 64
  userType : Vector (BitVec 8) 16
deriving Inhabited

def Box.size (b : Box) : ℤ :=
  8 + (if b.cachedSize = 1 then 8 else 0) + (if b.type = typeUuid then 16 else 0)

def Box.decodedSize (b : Box) : ℤ := if b.cachedSize = 1 then b.largeSize.toInt else b.cachedSize

def Box.updateSize (b : Box) (total : ℤ) : Box :=
  let size := (total % 2 ^ 64).toNat
  if 0xffffffff ≤ size then { b with largeSize := BitVec.ofNat 64 size, cachedSize := 1 }
  else { b with cachedSize := size }

def Box.encode (b : Box) : Layout := seqs [
  write4 (BitVec.ofNat 32 b.cachedSize),
  write4 b.type,
  writeIf (b.cachedSize = 1) (write8 b.largeSize),
  writeIf (b.type = typeUuid) (each write1 b.userType.toList)]

def Box.decode (b : Box) : Reader Box := do
  let size ← read4
  let type ← read4
  let largeSize ← readIf (size.toNat = 1) read8 b.largeSize
  let userType ← readIf (type = typeUuid) (readVector read1 16) b.userType
  return ⟨size.toNat, type, largeSize, userType⟩

/-- The constructor: the other members keep what was in the memory. -/
def Box.new (memory : Box) (type : BitVec 32) : Box := { memory with type := type }

structure FullBox extends Box where
  version : BitVec 8
  flags : BitVec 32
deriving Inhabited

def FullBox.new (memory : Box) (type : BitVec 32) (version : BitVec 8) (flags : BitVec 32) : FullBox :=
  ⟨.new memory type, version, flags⟩

def FullBox.size (b : FullBox) : ℤ := b.toBox.size + 4

def FullBox.updateSize (b : FullBox) (total : ℤ) : FullBox :=
  { b with toBox := b.toBox.updateSize total }

def FullBox.encode (b : FullBox) : Layout := seqs [b.toBox.encode, write1 b.version, write3 b.flags]

def FullBox.decode (b : FullBox) : Reader FullBox := do
  let box ← b.toBox.decode
  let version ← read1
  let flags ← read3
  return ⟨box, version, flags⟩

/-- The start of every `encode`: `update_size()`, the header, then the body. -/
def Box.emit (b : Box) (total : ℤ) (body : List Layout) : Layout :=
  block (seqs ((b.updateSize total).encode :: body))

def FullBox.emit (b : FullBox) (total : ℤ) (body : List Layout) : Layout :=
  block (seqs ((b.updateSize total).encode :: body))

/-- A size that is written as it is. -/
def maxSize : ℤ := 0xffffffff

theorem updateSize_of_lt {b : Box} {total : ℤ} (h0 : 0 ≤ total) (hlt : total < maxSize) :
    b.updateSize total = { b with cachedSize := total.toNat } := by
  simp only [maxSize] at hlt
  have hmod : total % 2 ^ 64 = total := Int.emod_eq_of_lt h0 (by omega)
  rw [Box.updateSize, hmod, if_neg (by omega)]

theorem size_of_fresh {b : Box} (hfresh : b.cachedSize ≠ 1) (htype : b.type ≠ typeUuid) : b.size = 8 := by
  rw [Box.size, if_neg hfresh, if_neg htype]
  rfl

/-- The header of a box whose size fits in its field. -/
theorem encode_updateSize {b : Box} {total : ℤ} (h8 : 8 ≤ total) (hlt : total < maxSize)
    (htype : b.type ≠ typeUuid) :
    (b.updateSize total).encode =
      seqs [.put (putBE 4 total.toNat), write4 b.type, done, done] := by
  have hsize : (BitVec.ofNat 32 total.toNat).toNat = total.toNat := by
    simp only [maxSize] at hlt
    rw [BitVec.toNat_ofNat, Nat.mod_eq_of_lt (by omega)]
  rw [updateSize_of_lt (by omega) hlt, Box.encode]
  dsimp only
  rw [writeIf, writeIf, if_neg (by omega), if_neg htype, write4, hsize]

theorem size_write1 (v : BitVec 8) : (write1 v).size = 1 := putBE_length 1 _

theorem size_write2 (v : BitVec 16) : (write2 v).size = 2 := putBE_length 2 _

theorem size_write3 (v : BitVec 32) : (write3 v).size = 3 := putBE_length 3 _

theorem size_write4 (v : BitVec 32) : (write4 v).size = 4 := putBE_length 4 _

theorem size_write8 (v : BitVec 64) : (write8 v).size = 8 := putBE_length 8 _

theorem size_writeString (s : Bytes) : (writeString s).size = s.length := rfl

attribute [simp] size_write1 size_write2 size_write3 size_write4 size_write8 size_writeString

theorem announces_write1 (v : BitVec 8) : (write1 v).Announces 4 := trivial

theorem announces_write2 (v : BitVec 16) : (write2 v).Announces 4 := trivial

theorem announces_write3 (v : BitVec 32) : (write3 v).Announces 4 := trivial

theorem announces_write4 (v : BitVec 32) : (write4 v).Announces 4 := trivial

theorem announces_write8 (v : BitVec 64) : (write8 v).Announces 4 := trivial

theorem announces_writeString (s : Bytes) : (writeString s).Announces 4 := trivial

attribute [simp] announces_write1 announces_write2 announces_write3 announces_write4
  announces_write8 announces_writeString

/-- `encode` writes a box of `total` bytes, and each box in them starts with its
size. -/
structure Exact (total : ℤ) (l : Layout) : Prop where
  size : (l.size : ℤ) = total
  announces : l.Announces 4
  whole : (0, l.size) ∈ l.blocks 0

/-- A header that starts with the size, and what is behind it. -/
theorem block_exact {total : ℤ} {header : Layout} {body : List Layout} (h0 : 0 ≤ total)
    (hstart : Starts (putBE 4 total.toNat) header) (hheader : header.Announces 4)
    (htotal : total = header.size + (seqs body).size) (hbody : (seqs body).Announces 4) :
    Exact total (block (seqs (header :: body))) := by
  have hsize : (seqs (header :: body)).size = total.toNat := by
    rw [seqs_cons, size_seq]
    omega
  refine ⟨by rw [size_block, hsize]; omega, ⟨?_, hheader, hbody⟩, ?_⟩
  · rw [hsize]
    exact hstart.seq _
  · rw [blocks, size_block, Nat.zero_add]
    exact List.mem_cons_self ..

theorem Box.emit_exact {b : Box} {total : ℤ} {body : List Layout} (hfresh : b.cachedSize ≠ 1)
    (htype : b.type ≠ typeUuid) (hlt : total < maxSize) (htotal : total = b.size + (seqs body).size)
    (hbody : (seqs body).Announces 4) : Exact total (b.emit total body) := by
  rw [size_of_fresh hfresh htype] at htotal
  have hheader : (b.updateSize total).encode =
      seqs [.put (putBE 4 total.toNat), write4 b.type, done, done] :=
    encode_updateSize (by omega) hlt htype
  have hsize : (b.updateSize total).encode.size = 8 := by simp [hheader, putBE_length]
  apply block_exact (by omega)
  · rw [hheader]
    exact (starts_put _).seq _
  · simp [hheader]
  · rw [hsize, htotal]
    rfl
  · exact hbody

theorem FullBox.emit_exact {b : FullBox} {total : ℤ} {body : List Layout} (hfresh : b.cachedSize ≠ 1)
    (htype : b.type ≠ typeUuid) (hlt : total < maxSize) (htotal : total = b.size + (seqs body).size)
    (hbody : (seqs body).Announces 4) : Exact total (b.emit total body) := by
  rw [FullBox.size, size_of_fresh hfresh htype] at htotal
  have hheader : (b.updateSize total).encode =
      seqs [seqs [.put (putBE 4 total.toNat), write4 b.type, done, done], write1 b.version,
        write3 b.flags] := by
    rw [← encode_updateSize (by omega) hlt htype]
    rfl
  have hsize : (b.updateSize total).encode.size = 12 := by simp [hheader, putBE_length]
  apply block_exact (by omega)
  · rw [hheader]
    exact ((starts_put _).seq _).seq _
  · simp [hheader]
  · rw [hsize, htotal]
    rfl
  · exact hbody

/-- The members that are written, as they are read into a box that had other
values before. -/
def Box.readInto (memory b : Box) : Box where
  cachedSize := b.cachedSize
  type := b.type
  largeSize := if b.cachedSize = 1 then b.largeSize else memory.largeSize
  userType := if b.type = typeUuid then b.userType else memory.userType

theorem Box.updateSize_lt (b : Box) (total : ℤ) : (b.updateSize total).cachedSize < 2 ^ 32 := by
  rw [Box.updateSize]
  split
  · exact (by decide : 1 < 2 ^ 32)
  · dsimp only
    omega

theorem Box.updateSize_type (b : Box) (total : ℤ) : (b.updateSize total).type = b.type := by
  rw [Box.updateSize]
  split <;> rfl

theorem Box.reads (memory b : Box) (hb : b.cachedSize < 2 ^ 32) :
    Reads memory.decode b.encode (memory.readInto b) := by
  have hsize : (BitVec.ofNat 32 b.cachedSize).toNat = b.cachedSize := by
    rw [BitVec.toNat_ofNat, Nat.mod_eq_of_lt hb]
  refine (reads4 _).bind ((reads4 _).bind ?_)
  rw [hsize]
  exact (Reads.readIf (fun _ ↦ reads8 _) _).bind ((Reads.readIf (fun _ ↦ .vector _ reads1) _).bind (.pure _))

def FullBox.readInto (memory b : FullBox) : FullBox where
  toBox := memory.toBox.readInto b.toBox
  version := b.version
  flags := b.flags

theorem FullBox.reads (memory : FullBox) {b : FullBox} (hb : b.cachedSize < 2 ^ 32)
    (hflags : b.flags.toNat < 2 ^ 24) : Reads memory.decode b.encode (memory.readInto b) :=
  (Box.reads memory.toBox b.toBox hb).bind ((reads1 _).bind ((reads3 hflags).bind (.pure _)))

end Base

section Container

/-- What a container sees of a box behind a pointer. -/
structure AnyBox where
  size : ℤ
  encode : Layout

/-- A box that announces its real size, if the size fits in its field. -/
structure AnyBox.Sound (b : AnyBox) : Prop where
  nonneg : 0 ≤ b.size
  exact : b.size < maxSize → Exact b.size b.encode

def sizes (boxes : List AnyBox) : ℤ := (boxes.map AnyBox.size).sum

def container (b : Box) (boxes : List AnyBox) : AnyBox where
  size := b.size + sizes boxes
  encode := b.emit (b.size + sizes boxes) [each AnyBox.encode boxes]

def countedBoxes (b : FullBox) (boxes : List AnyBox) : AnyBox where
  size := b.size + 4 + sizes boxes
  encode := b.emit (b.size + 4 + sizes boxes)
    [write4 (BitVec.ofNat 32 boxes.length), each AnyBox.encode boxes]

structure Box.Fresh (b : Box) : Prop where
  cachedSize : b.cachedSize ≠ 1
  type : b.type ≠ typeUuid

theorem Box.Fresh.new {memory : Box} {type : BitVec 32} (h : memory.cachedSize ≠ 1)
    (ht : type ≠ typeUuid) : (Box.new memory type).Fresh := ⟨h, ht⟩

theorem Box.Fresh.size_eq {b : Box} (h : b.Fresh) : b.size = 8 := size_of_fresh h.cachedSize h.type

theorem FullBox.size_eq {b : FullBox} (h : b.Fresh) : b.size = 12 := by
  rw [FullBox.size, h.size_eq]
  rfl

@[simp] theorem sizes_nil : sizes [] = 0 := rfl

@[simp] theorem sizes_cons (b : AnyBox) (boxes : List AnyBox) :
    sizes (b :: boxes) = b.size + sizes boxes := by
  rw [sizes, List.map_cons, List.sum_cons, sizes]

theorem sizes_nonneg {boxes : List AnyBox} (h : ∀ b ∈ boxes, b.Sound) : 0 ≤ sizes boxes := by
  induction boxes with
  | nil => exact le_refl 0
  | cons b boxes ih =>
    rw [List.forall_mem_cons] at h
    have hb := h.1.nonneg
    have hrest := ih h.2
    rw [sizes_cons]
    omega

theorem size_le_sizes {boxes : List AnyBox} (h : ∀ b ∈ boxes, b.Sound) {b : AnyBox} (hb : b ∈ boxes) :
    b.size ≤ sizes boxes := by
  induction boxes with
  | nil => cases hb
  | cons c boxes ih =>
    rw [List.forall_mem_cons] at h
    have hc := h.1.nonneg
    have hrest := sizes_nonneg h.2
    rw [sizes_cons]
    rcases List.mem_cons.mp hb with rfl | hb
    · omega
    · have := ih h.2 hb
      omega

theorem each_exact {boxes : List AnyBox} (h : ∀ b ∈ boxes, b.Sound) (hlt : sizes boxes < maxSize) :
    ((each AnyBox.encode boxes).size : ℤ) = sizes boxes ∧ (each AnyBox.encode boxes).Announces 4 := by
  induction boxes with
  | nil => exact ⟨rfl, trivial⟩
  | cons b boxes ih =>
    rw [List.forall_mem_cons] at h
    have hrest := sizes_nonneg h.2
    have hb := h.1.nonneg
    rw [sizes_cons] at hlt
    obtain ⟨hsize, hann, -⟩ := h.1.exact (by omega)
    obtain ⟨hsizes, hanns⟩ := ih h.2 (by omega)
    refine ⟨?_, hann, hanns⟩
    rw [sizes_cons, ← hsize, ← hsizes]
    exact Int.natCast_add ..

theorem container_sound {b : Box} {boxes : List AnyBox} (hb : b.Fresh)
    (h : ∀ c ∈ boxes, c.Sound) : (container b boxes).Sound := by
  have hnn := sizes_nonneg h
  have h8 := hb.size_eq
  refine ⟨by simp only [container]; omega, fun hlt ↦ ?_⟩
  simp only [container] at hlt
  obtain ⟨hsize, hann⟩ := each_exact h (by omega)
  apply Box.emit_exact hb.cachedSize hb.type hlt
  · simp only [seqs_cons, seqs_nil, size_seq, size_done, Nat.add_zero, hsize]
  · exact ⟨hann, trivial⟩

theorem countedBoxes_sound {b : FullBox} {boxes : List AnyBox} (hb : b.Fresh)
    (h : ∀ c ∈ boxes, c.Sound) : (countedBoxes b boxes).Sound := by
  have hnn := sizes_nonneg h
  have h12 := FullBox.size_eq hb
  refine ⟨by simp only [countedBoxes]; omega, fun hlt ↦ ?_⟩
  simp only [countedBoxes] at hlt
  obtain ⟨hsize, hann⟩ := each_exact h (by omega)
  apply FullBox.emit_exact hb.cachedSize hb.type hlt
  · simp only [seqs_cons, seqs_nil, size_seq, size_done, Nat.add_zero, size_write4]
    omega
  · exact ⟨trivial, hann, trivial⟩

/-- A box with no box in it. -/
theorem Box.leaf_sound {b : Box} {total : ℤ} {body : List Layout} (hb : b.Fresh)
    (htotal : total = b.size + (seqs body).size) (hbody : (seqs body).Announces 4) :
    AnyBox.Sound ⟨total, b.emit total body⟩ := by
  have h8 := hb.size_eq
  exact ⟨by simp only; omega,
    fun hlt ↦ Box.emit_exact hb.cachedSize hb.type hlt htotal hbody⟩

theorem FullBox.leaf_sound {b : FullBox} {total : ℤ} {body : List Layout} (hb : b.Fresh)
    (htotal : total = b.size + (seqs body).size) (hbody : (seqs body).Announces 4) :
    AnyBox.Sound ⟨total, b.emit total body⟩ := by
  have h12 := FullBox.size_eq hb
  exact ⟨by simp only; omega,
    fun hlt ↦ FullBox.emit_exact hb.cachedSize hb.type hlt htotal hbody⟩

/-- `encode` into a buffer of `size()` bytes fills it without a failed check, and
at the start of the box and of each box in it stands the number of its bytes. -/
def WritesExactly (b : AnyBox) : Prop :=
  ∀ old : Bytes, (old.length : ℤ) = b.size →
    ∃ bs, b.encode.write ⟨[], old⟩ = .ok ⟨bs, []⟩ ∧ (bs.length : ℤ) = b.size ∧
      (0, bs.length) ∈ b.encode.blocks 0 ∧
      ∀ s e, (s, e) ∈ b.encode.blocks 0 → e ≤ bs.length ∧ fromBE ((bs.drop s).take 4) = e - s

theorem AnyBox.Sound.writesExactly {b : AnyBox} (h : b.Sound) (hlt : b.size < maxSize) :
    WritesExactly b := by
  intro old hold
  obtain ⟨hsize, hann, hwhole⟩ := h.exact hlt
  have hroom : b.encode.size = old.length := by omega
  have hfill : (b.encode.fill old).length = b.encode.size := b.encode.fill_length (by omega)
  refine ⟨b.encode.fill old, ?_, by omega, by rwa [hfill], fun s e hse ↦ ?_⟩
  · rw [write_ok b.encode ⟨[], old⟩ (by simp only; omega), hroom, List.drop_length, List.nil_append]
  · have hb := b.encode.blocks_bounds hann hse
    have hread := b.encode.announces_blocks hann [] old (by omega) hse
    rw [List.nil_append] at hread
    simp only [maxSize] at hlt
    refine ⟨by omega, ?_⟩
    rw [hread, fromBE_putBE, Nat.mod_eq_of_lt (by omega)]

end Container

end MmsServer.Mp4.Base
