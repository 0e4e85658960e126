import OfxZeroMQ.Model.Types

/-!
# Conversion functions

The overloads of `detail::to_zmq_message` and `detail::from_zmq_message`. An encoder takes
the message it rebuilds, a decoder the received message and the destination it overwrites.
-/
namespace OfxZeroMQ

open Foundation.Buffer

/-! ### Object representations -/

def boolByte (b : Bool) : UInt8 := if b then 1 else 0

def SendFlag.representation (f : SendFlag) : Object 2 :=
  ⟨[boolByte f.nonblocking, boolByte f.more], rfl⟩

def SendFlag.ofObject (o : Object 2) : SendFlag :=
  ⟨o.bytes.getD 0 0 != 0, o.bytes.getD 1 0 != 0⟩

def ReceiveFlag.representation (f : ReceiveFlag) : Object 1 := ⟨[boolByte f.nonblocking], rfl⟩

def ReceiveFlag.ofObject (o : Object 1) : ReceiveFlag := ⟨o.bytes.getD 0 0 != 0⟩

/-- A number in the little-endian representation of `std::uint32_t`. -/
def uint32 (n : Nat) : Object 4 :=
  ⟨[UInt8.ofNat n, UInt8.ofNat (n / 256), UInt8.ofNat (n / 65536), UInt8.ofNat (n / 16777216)], rfl⟩

/-- The number that a little-endian representation stands for. -/
def littleEndian : Bytes → Nat
  | [] => 0
  | b :: rest => b.toNat + 256 * littleEndian rest

/-- `sizeof`, for the types whose objects are copied as bytes. -/
def CppType.sizeof : CppType → Nat
  | .sizeT | .pointer => 8
  | .fixed f => f.size
  | .sendFlag => 2
  | .receiveFlag => 1
  | .array e count => e.size * count
  | .ofJson c _ => c.size
  | .userClass c => c.size
  | _ => 0

/-- The object representation; `none` for the classes of the library and its dependencies,
which an encoder of their own serves better. -/
def CppType.representation : (t : CppType) → t.Val → Option Bytes
  | .sizeT, v => some v.bytes
  | .fixed _, v => some v.bytes
  | .sendFlag, v => some v.representation.bytes
  | .receiveFlag, v => some v.representation.bytes
  | .pointer, v => some v.address.bytes
  | .array _ _, v => some v.bytes
  | .ofJson c _, v => some (c.representation v).bytes
  | .userClass c, v => some (c.representation v).bytes
  | _, _ => none

/-- The object after `memcpy` of `sizeof` bytes into it. -/
def CppType.overwrite : (t : CppType) → Bytes → t.Val → t.Val
  | .sizeT, bytes, _ => Object.ofBytes 8 bytes
  | .fixed f, bytes, _ => Object.ofBytes f.size bytes
  | .sendFlag, bytes, _ => SendFlag.ofObject (Object.ofBytes 2 bytes)
  | .receiveFlag, bytes, _ => ReceiveFlag.ofObject (Object.ofBytes 1 bytes)
  | .pointer, bytes, old => { old with address := Object.ofBytes 8 bytes }
  | .array e count, bytes, _ => Object.ofBytes (e.size * count) bytes
  | .ofJson c _, bytes, old => c.overwrite (Object.ofBytes c.size bytes) old
  | .userClass c, bytes, old => c.overwrite (Object.ofBytes c.size bytes) old
  | _, _, old => old

/-! ### `to_zmq_message` -/

namespace ToZmqMessage

/-- `to_zmq_message(Message &, const zmq::message_t &)` -/
def zmqMessage (mem : Memory) (m : Message) (data : Bytes) : Message :=
  ((m.rebuildSize mem data.length).memCopyFrom data 0).2

def message (mem : Memory) (m : Message) (data : Bytes) : Message := zmqMessage mem m data

def string (m : Message) (data : Bytes) : Message := m.rebuild data

/-- The overload for standard-layout types: `m.rebuild(&data, sizeof(type))`. -/
def standardLayout (m : Message) (representation : Bytes) : Message := m.rebuild representation

def vector {n : Nat} (m : Message) (data : List (Object n)) : Message :=
  m.rebuild (data.map Object.bytes).flatten

def ofBuffer (m : Message) (data : Bytes) : Message := m.rebuild data

def ofRectangle (mem : Memory) (m : Message) (rect : Rectangle) : Message :=
  (m.set mem [rect.x.bytes, rect.y.bytes, rect.z.bytes, rect.width.bytes, rect.height.bytes]).2

def ofPixels (mem : Memory) (m : Message) (pix : Pixels) : Message :=
  let m := m.rebuildSize mem (4 * 2 + 4 + pix.samples.length)
  let (offset, m) := m.copyFromArray [uint32 pix.width, uint32 pix.height] 0
  let (s, m) := m.copyFrom pix.format offset
  (m.memCopyFrom pix.samples (offset + s)).2

def hasPixels (mem : Memory) (m : Message) (pix : Pixels) : Message := ofPixels mem m pix

end ToZmqMessage

/-! ### `from_zmq_message` -/

namespace FromZmqMessage

/-- `from_zmq_message(const Message &, zmq::message_t &)` -/
def zmqMessage (m : Message) : Bytes := m.data

def message (m : Message) : Bytes := zmqMessage m

def string (m : Message) : Bytes := m.data

/-- The overload for standard-layout types: `sizeof(type)` bytes are copied, whatever the
size of the message. -/
def standardLayout (mem : Memory) (m : Message) (t : CppType) (data : t.Val) : t.Val :=
  t.overwrite (mem.read m.data 0 t.sizeof) data

def vector (m : Message) (e : ElementType) : List (Object e.size) :=
  (chunks e.size m.data).map (Object.ofBytes e.size)

def ofBuffer (m : Message) : Bytes := m.data

def ofRectangle (mem : Memory) (m : Message) (rect : Rectangle) : Rectangle :=
  let fields := (m.setTo mem
    [rect.x.bytes, rect.y.bytes, rect.z.bytes, rect.width.bytes, rect.height.bytes]).2
  ⟨Object.ofBytes 4 (fields.getD 0 []), Object.ofBytes 4 (fields.getD 1 []),
    Object.ofBytes 4 (fields.getD 2 []), Object.ofBytes 4 (fields.getD 3 []),
    Object.ofBytes 4 (fields.getD 4 [])⟩

/-- `size` and `pixel_format` are uninitialized locals that a refused copy leaves alone. -/
def ofPixels (mem : Memory) (m : Message) (p : PixelType) : Pixels :=
  let (offset, size) := m.copyOut mem (mem.uninitialized 8) 0
  let (s, format) := m.copyOut mem (mem.uninitialized 4) offset
  let width := littleEndian (size.take 4)
  let height := littleEndian (size.drop 4)
  let pixelFormat := Object.ofBytes 4 format
  ⟨width, height, pixelFormat,
    mem.read m.data (offset + s) (p.size * p.count width height pixelFormat)⟩

def hasPixels (mem : Memory) (m : Message) (p : PixelType) : Pixels := ofPixels mem m p

end FromZmqMessage

/-! ### Encoding and decoding -/

theorem Rectangle.fields_ne_nil (rect : Rectangle) : ∀ v ∈ [rect.x.bytes, rect.y.bytes,
    rect.z.bytes, rect.width.bytes, rect.height.bytes], v ≠ [] := by
  intro v member
  apply List.ne_nil_of_length_pos
  simp only [List.mem_cons, List.not_mem_nil, or_false] at member
  rcases member with rfl | rfl | rfl | rfl | rfl <;> simp

namespace ToZmqMessage

@[simp] theorem zmqMessage_data (mem : Memory) (m : Message) (data : Bytes) :
    (zmqMessage mem m data).data = data := by
  rw [zmqMessage, Message.memCopyFrom_whole _ _ (by simp)]

@[simp] theorem message_data (mem : Memory) (m : Message) (data : Bytes) :
    (message mem m data).data = data := zmqMessage_data mem m data

@[simp] theorem ofRectangle_data (mem : Memory) (m : Message) (rect : Rectangle) :
    (ofRectangle mem m rect).data =
      rect.x.bytes ++ rect.y.bytes ++ rect.z.bytes ++ rect.width.bytes ++ rect.height.bytes := by
  rw [ofRectangle, Message.set_eq mem m _ (by simp) rect.fields_ne_nil]
  simp

/-- The header, then the samples: none of the three copies is refused. -/
@[simp] theorem ofPixels_data (mem : Memory) (m : Message) (pix : Pixels) :
    (ofPixels mem m pix).data =
      (uint32 pix.width).bytes ++ (uint32 pix.height).bytes ++ pix.format.bytes ++
        pix.samples := by
  obtain ⟨fresh, size⟩ : ∃ fresh, m.rebuildSize mem (4 * 2 + 4 + pix.samples.length) = ⟨fresh⟩ ∧
      fresh.length = 8 + (4 + pix.samples.length) :=
    ⟨_, rfl, by simp; omega⟩
  obtain ⟨header, rest, rfl, headerSize, restSize⟩ :
      ∃ header rest, fresh = header ++ rest ∧ header.length = 8 ∧
        rest.length = 4 + pix.samples.length :=
    ⟨fresh.take 8, fresh.drop 8, (List.take_append_drop 8 fresh).symm, by simp; omega,
      by simp; omega⟩
  obtain ⟨format, tail, rfl, formatSize, tailSize⟩ :
      ∃ format tail, rest = format ++ tail ∧ format.length = 4 ∧
        tail.length = pix.samples.length :=
    ⟨rest.take 4, rest.drop 4, (List.take_append_drop 4 rest).symm, by simp; omega,
      by simp; omega⟩
  -- each copy writes the part of the fresh buffer that starts where the last one ended
  let sizes := (uint32 pix.width).bytes ++ (uint32 pix.height).bytes
  have first := Message.copyIn_append [] header sizes (format ++ tail)
    (by simp [sizes, headerSize])
  have second := Message.copyIn_append sizes format pix.format.bytes tail (by simp [formatSize])
  have third := Message.copyIn_append (sizes ++ pix.format.bytes) tail pix.samples [] tailSize
  simp only [List.nil_append, List.length_nil, List.append_nil, List.append_assoc]
    at first second third
  simp only [ofPixels, size.1, Message.copyFromArray, Message.copyFrom, Message.memCopyFrom,
    List.map_cons, List.map_nil, List.flatten_cons, List.flatten_nil, List.append_nil]
  rw [show (uint32 pix.width).bytes ++ (uint32 pix.height).bytes = sizes from rfl, first]
  simp only [second]
  rw [show sizes.length + pix.format.bytes.length = (sizes ++ pix.format.bytes).length by simp,
    third]
  simp

end ToZmqMessage

end OfxZeroMQ
