import OfxZeroMQ.Model.Convert
import OfxZeroMQ.Model.Copies

/-!
# What the decoders touch

Decoders again, each with the copies it makes out of the frame. `memcpy` and
`setFromPixels` know nothing of the length of the frame. The encoder of images is given with
the ranges it writes.
-/
namespace OfxZeroMQ

open Foundation.Buffer

/-- A value with the copies that were made for it. -/
structure Traced (α : Type) where
  copies : List Copy
  value : α

namespace Message

/-- The checked `copyTo(v, offset)` for an array or an object of some bytes. -/
def copyOutTraced (mem : Memory) (m : Message) (old : Bytes) (offset : Nat) :
    Traced (Nat × Bytes) :=
  if m.size < sizeT (offset + old.length) then ⟨[], 0, old⟩
  else ⟨[⟨offset, old.length, old.length⟩], old.length, mem.read m.data offset old.length⟩

theorem value_copyOutTraced (mem : Memory) (m : Message) (old : Bytes) (offset : Nat) :
    (m.copyOutTraced mem old offset).value = m.copyOut mem old offset := by
  simp only [copyOutTraced, copyOut]
  split <;> rfl

/-- The checked `copyTo(v, 0)` for an object of type `t`. -/
def copyTo (mem : Memory) (m : Message) (t : CppType) (v : t.Val) : t.Val :=
  if m.size < sizeT (0 + t.sizeof) then v else t.overwrite (mem.read m.data 0 t.sizeof) v

end Message

namespace ToZmqMessage

structure ImageWrites where
  -- the ranges of the message that the three copies write; `none` for a refused one
  ranges : List (Option Span)
  message : Message

def ofPixelsTraced (mem : Memory) (m : Message) (pix : Pixels) : ImageWrites :=
  let m := m.rebuildSize mem (4 * 2 + 4 + pix.samples.length)
  let size := m.copyFromArray [uint32 pix.width, uint32 pix.height] 0
  let pixelFormat := size.2.copyFrom pix.format size.1
  let offset := size.1 + pixelFormat.1
  ⟨[m.range (4 * 2) 0, size.2.range 4 size.1, pixelFormat.2.range pix.samples.length offset],
    (pixelFormat.2.memCopyFrom pix.samples offset).2⟩

end ToZmqMessage

namespace FromZmqMessage

/-- `memcpy(&data, m.data(), sizeof(type))` -/
def standardLayoutTraced (mem : Memory) (m : Message) (t : CppType) (data : t.Val) :
    Traced t.Val :=
  ⟨[⟨0, t.sizeof, t.sizeof⟩], t.overwrite (mem.read m.data 0 t.sizeof) data⟩

/-- `data.resize(size)`: new elements are zero. -/
def resize {n : Nat} (data : List (Object n)) (size : Nat) : List (Object n) :=
  (data ++ List.replicate size (Object.ofBytes n [])).take size

/-- `data.resize(m.size() / sizeof(type))`, then `memcpy(data.data(), m.data(), m.size())`.
Bytes that are written behind the storage are no part of the vector. -/
def vectorTraced (m : Message) (e : ElementType) (data : List (Object e.size)) :
    Traced (List (Object e.size)) :=
  let storage := ((resize data (m.size / e.size)).map Object.bytes).flatten
  ⟨[⟨0, m.size, storage.length⟩],
    (chunks e.size (patch storage 0 m.data)).map (Object.ofBytes e.size)⟩

/-- The arguments of `setFromPixels`: where the samples start, and how many there are to be. -/
structure PixelSource where
  offset : Nat
  width : Nat
  height : Nat
  format : Object 4

/-- The bytes that `setFromPixels` reads for these arguments. -/
def PixelSource.need (p : PixelType) (s : PixelSource) : Nat :=
  p.size * p.count s.width s.height s.format

/-- What `setFromPixels` reads. -/
def PixelSource.samples (p : PixelType) (s : PixelSource) : Copy :=
  ⟨s.offset, s.need p, s.need p⟩

structure ImageTrace where
  -- the copies of the header
  header : List Copy
  -- the arguments of `setFromPixels`
  source : PixelSource
  value : Pixels

def ofPixelsTraced (mem : Memory) (m : Message) (p : PixelType) : ImageTrace :=
  let size := m.copyOutTraced mem (mem.uninitialized 8) 0
  let offset := size.value.1
  let pixelFormat := m.copyOutTraced mem (mem.uninitialized 4) offset
  let source : PixelSource :=
    ⟨offset + pixelFormat.value.1, littleEndian (size.value.2.take 4),
      littleEndian (size.value.2.drop 4), Object.ofBytes 4 pixelFormat.value.2⟩
  ⟨size.copies ++ pixelFormat.copies, source,
    ⟨source.width, source.height, source.format,
      mem.read m.data source.offset (source.need p)⟩⟩

theorem value_standardLayoutTraced (mem : Memory) (m : Message) (t : CppType) (data : t.Val) :
    (standardLayoutTraced mem m t data).value = standardLayout mem m t data := rfl

theorem length_flatten_bytes {n : Nat} (data : List (Object n)) :
    (data.map Object.bytes).flatten.length = data.length * n := by
  induction data with
  | nil => simp
  | cons o data ih =>
    rw [List.map_cons, List.flatten_cons, List.length_append, ih, o.length_bytes,
      List.length_cons, Nat.succ_mul, Nat.add_comm]

theorem length_storage {n : Nat} (data : List (Object n)) (size : Nat) :
    ((resize data size).map Object.bytes).flatten.length = size * n := by
  rw [length_flatten_bytes, resize, List.length_take, List.length_append, List.length_replicate,
    Nat.min_eq_left (by omega)]

/-- Every byte of the storage is overwritten, whatever the vector held before. -/
theorem value_vectorTraced (m : Message) (e : ElementType) (data : List (Object e.size)) :
    (vectorTraced m e data).value = vector m e := by
  have room := length_storage data (m.size / e.size)
  have le : m.size / e.size * e.size ≤ m.data.length := Nat.div_mul_le_self m.size e.size
  simp only [vectorTraced, vector]
  rw [patch_zero _ _ (by rw [room]; exact le), room, Message.size, chunks_take]

theorem value_ofPixelsTraced (mem : Memory) (m : Message) (p : PixelType) :
    (ofPixelsTraced mem m p).value = ofPixels mem m p := by
  simp only [ofPixelsTraced, Message.value_copyOutTraced, PixelSource.need, ofPixels]

end FromZmqMessage

end OfxZeroMQ
