import OfxZeroMQ.Model.Access
import OfxZeroMQ.Properties.Containers

/-!
# What the decoders touch

The frame comes from the peer, with any length and any contents. The decoders for images,
vectors and values of fixed size stay inside it only for frames of the right length.
-/
namespace OfxZeroMQ

open Foundation.Buffer

/-! ### Images -/

namespace FromZmqMessage

/-- The header of a frame that is long enough for one, and the place behind it. -/
def headerOf (frame : Bytes) : PixelSource :=
  ⟨12, littleEndian (slice frame 0 4), littleEndian (slice frame 4 4),
    Object.ofBytes 4 (slice frame 8 4)⟩

/-- The frame has a header and all the samples it announces. -/
def IsComplete (p : PixelType) (m : Message) : Prop :=
  12 ≤ m.size ∧ 12 + (headerOf m.data).need p ≤ m.size

instance (p : PixelType) (m : Message) : Decidable (IsComplete p m) :=
  inferInstanceAs (Decidable (_ ∧ _))

theorem copyOutTraced_inside (mem : Memory) (m : Message) (old : Bytes) (offset : Nat)
    (fits : offset + old.length ≤ m.size) :
    m.copyOutTraced mem old offset =
      ⟨[⟨offset, old.length, old.length⟩], old.length, slice m.data offset old.length⟩ := by
  have room : ¬ m.size < sizeT (offset + old.length) := by
    have bound := Message.sizeT_le (offset + old.length)
    omega
  rw [Message.copyOutTraced, if_neg room, mem.read_eq_slice _ _ _ fits]

/-- From a complete header the two copies take the width, the height and the format. -/
theorem ofPixelsTraced_header (mem : Memory) (m : Message) (p : PixelType) (long : 12 ≤ m.size) :
    (ofPixelsTraced mem m p).header = [⟨0, 8, 8⟩, ⟨8, 4, 4⟩] ∧
      (ofPixelsTraced mem m p).source = headerOf m.data := by
  have first := copyOutTraced_inside mem m (mem.uninitialized 8) 0
    (by simp [Memory.uninitialized]; omega)
  have second := copyOutTraced_inside mem m (mem.uninitialized 4) 8
    (by simp [Memory.uninitialized]; omega)
  simp only [Memory.uninitialized, List.length_map, List.length_range] at first second
  refine ⟨?_, ?_⟩
  · simp [ofPixelsTraced, Memory.uninitialized, first, second]
  · simp [ofPixelsTraced, Memory.uninitialized, first, second, headerOf, slice, List.take_take,
      List.drop_take]

end FromZmqMessage

namespace FromZmqMessage

structure VectorExact (m : Message) (e : ElementType) (data : List (Object e.size)) : Prop where
  size : (vectorTraced m e data).value.length = m.size / e.size
  elements : ∀ i < m.size / e.size, (vectorTraced m e data).value[i]?.map Object.bytes =
    some (slice m.data (i * e.size) e.size)
  reads_inside : ∀ c ∈ (vectorTraced m e data).copies, c.ReadsInside m.data
  writes_inside : ∀ c ∈ (vectorTraced m e data).copies, c.WritesInside
  reencoded : (ToZmqMessage.vector .empty (vectorTraced m e data).value).data =
    m.data.take (m.size / e.size * e.size)

theorem bytes_vector (m : Message) (e : ElementType) :
    (vector m e).map Object.bytes = chunks e.size m.data := by
  rw [vector, List.map_map]
  calc (chunks e.size m.data).map (Object.bytes ∘ Object.ofBytes e.size)
      = (chunks e.size m.data).map id := List.map_congr_left fun chunk member =>
          Object.bytes_ofBytes e.size chunk (length_of_mem_chunks e.size m.data chunk member)
    _ = chunks e.size m.data := List.map_id _

theorem copies_vectorTraced (m : Message) (e : ElementType) (data : List (Object e.size)) :
    (vectorTraced m e data).copies = [⟨0, m.size, m.size / e.size * e.size⟩] := by
  simp only [vectorTraced, length_storage]

theorem length_vector (m : Message) (e : ElementType) :
    (vector m e).length = m.size / e.size := by
  rw [← List.length_map Object.bytes, bytes_vector, length_chunks, Message.size]

theorem getElem?_vector (m : Message) (e : ElementType) (i : Nat) (inside : i < m.size / e.size) :
    (vector m e)[i]?.map Object.bytes = some (slice m.data (i * e.size) e.size) := by
  rw [← List.getElem?_map, bytes_vector]
  exact getElem?_chunks e.size m.data i inside

theorem reencode_vector (m : Message) (e : ElementType) :
    (ToZmqMessage.vector .empty (vector m e)).data = m.data.take (m.size / e.size * e.size) := by
  rw [ToZmqMessage.vector, Message.data_rebuild, bytes_vector]
  exact flatten_chunks e.size m.data

end FromZmqMessage

/-- A vector is decoded without writing past its storage exactly from a frame that is a whole
number of elements long. -/
theorem vector_decoding_iff (e : ElementType) (m : Message) (data : List (Object e.size)) :
    FromZmqMessage.VectorExact m e data ↔ e.size ∣ m.size := by
  constructor
  · intro exact'
    have le := Nat.div_mul_le_self m.size e.size
    have inside := exact'.writes_inside
    simp only [FromZmqMessage.copies_vectorTraced, List.mem_singleton, forall_eq,
      Copy.WritesInside] at inside
    exact ⟨m.size / e.size, by rw [Nat.mul_comm]; omega⟩
  · intro divides
    have whole := Nat.div_mul_cancel divides
    constructor
    · rw [FromZmqMessage.value_vectorTraced, FromZmqMessage.length_vector]
    · rw [FromZmqMessage.value_vectorTraced]
      exact FromZmqMessage.getElem?_vector m e
    · simp [FromZmqMessage.copies_vectorTraced, Copy.ReadsInside, Message.size]
    · simp [FromZmqMessage.copies_vectorTraced, Copy.WritesInside, whole]
    · rw [FromZmqMessage.value_vectorTraced, FromZmqMessage.reencode_vector]

/-- Three bytes for two-byte elements: there is room for one element, and three bytes are
written. -/
theorem oddVector_written :
    (FromZmqMessage.vectorTraced ⟨[1, 2, 3]⟩ ⟨2, Nat.two_pos⟩ []).copies = [⟨0, 3, 2⟩] ∧
      ¬ FromZmqMessage.VectorExact ⟨[1, 2, 3]⟩ ⟨2, Nat.two_pos⟩ [] := by
  have copies : (FromZmqMessage.vectorTraced ⟨[1, 2, 3]⟩ ⟨2, Nat.two_pos⟩ []).copies =
      [⟨0, 3, 2⟩] := by decide
  refine ⟨copies, fun exact' => ?_⟩
  have inside := exact'.writes_inside
  rw [copies] at inside
  exact absurd (inside ⟨0, 3, 2⟩ (by simp)) (by simp [Copy.WritesInside])

/-! ### Values of fixed size -/

/-- A variable that is decoded as bytes; what it holds is left over where it is the local
variable of `get`. -/
structure FixedVariable where
  type : CppType
  standard : FromOverload.selected type = some .standardLayout
  value : type.Val
  writes : Nat

namespace FixedVariable

def destination (v : FixedVariable) : Destination := ⟨v.type.unspecialized, v.value, v.writes⟩

/-- The variable after the checked `copyTo(v, 0)` on its frame, if there is one. -/
def checked (mem : Memory) (v : FixedVariable) : Option Bytes → Destination
  | some frame => ⟨v.type.unspecialized, Message.copyTo mem ⟨frame⟩ v.type v.value, v.writes + 1⟩
  | none => v.destination

/-- The variable after it has been decoded from its frame, if there is one. -/
def decoded (mem : Memory) (v : FixedVariable) : Option Bytes → Destination
  | some frame => v.destination.store mem frame
  | none => v.destination

/-- The copies that decoding from the frame makes. -/
def copies (mem : Memory) (v : FixedVariable) (frame : Bytes) : List Copy :=
  (FromZmqMessage.standardLayoutTraced mem ⟨frame⟩ v.type v.value).copies

theorem store_destination (mem : Memory) (v : FixedVariable) (frame : Bytes) :
    v.destination.store mem frame = ⟨v.type.unspecialized,
      (FromZmqMessage.standardLayoutTraced mem ⟨frame⟩ v.type v.value).value, v.writes + 1⟩ := by
  simp only [Destination.store, destination, decode, CppType.unspecialized, v.standard]
  rfl

/-- With all its bytes in the frame a variable is decoded as the checked copy does it. -/
theorem decoded_eq_checked (mem : Memory) (v : FixedVariable) (frame : Option Bytes)
    (long : ∀ bytes, frame = some bytes → v.type.sizeof ≤ bytes.length) :
    v.decoded mem frame = v.checked mem frame := by
  cases frame with
  | none => rfl
  | some frame =>
    have room : ¬ (Message.mk frame).size < sizeT (0 + v.type.sizeof) := by
      have bound := Message.sizeT_le (0 + v.type.sizeof)
      have enough := long frame rfl
      simp only [Message.size]
      omega
    rw [decoded, store_destination, checked, Message.copyTo, if_neg room]
    rfl

end FixedVariable

/-- The calls that decode fixed-size variables. -/
inductive DecodeCall where
  -- `m.to(v)` and `m.get<type>()`
  | messageTo (m : Message) (v : FixedVariable)
  -- `socket.receive(v)`
  | receive (i : Inbox) (flags : Flags) (v : FixedVariable)
  -- `message[index].to(v)` and `message[index].get<type>()`
  | argumentTo (message : MultipartMessage) (index : Nat) (v : FixedVariable)
  -- `message.convertTo(vs ...)`
  | convertTo (message : MultipartMessage) (vs : List FixedVariable)

namespace DecodeCall

/-- The variables after the call. -/
def run (mem : Memory) : DecodeCall → List Destination
  | messageTo m v => [v.destination.store mem m.data]
  | receive i flags v => [(i.receiveValue mem flags v.destination).2.1]
  | argumentTo message index v => [message.argumentTo mem index v.destination]
  | convertTo message vs =>
    (message.convertToFrom mem 0 (vs.map FixedVariable.destination)).2

/-- Each variable with the next frame, as long as there are frames. -/
def inOrder : List FixedVariable → List Bytes → List (FixedVariable × Option Bytes)
  | [], _ => []
  | v :: vs, frames => (v, frames.head?) :: inOrder vs frames.tail

/-- The frame that each variable is decoded from. -/
def pairs : DecodeCall → List (FixedVariable × Option Bytes)
  | messageTo m v => [(v, some m.data)]
  | receive i _ v => [(v, i.queue.head?.map Prod.fst)]
  | argumentTo message index v => [(v, message[index]?)]
  | convertTo message vs => inOrder vs message

/-- Every variable ends up as after the checked copy, and no copy leaves its frame. -/
def Agrees (mem : Memory) (call : DecodeCall) : Prop :=
  call.run mem = call.pairs.map (fun x => x.1.checked mem x.2) ∧
    ∀ x ∈ call.pairs, ∀ frame, x.2 = some frame →
      ∀ c ∈ x.1.copies mem frame, c.ReadsInside frame

theorem fill_inOrder (mem : Memory) (vs : List FixedVariable) (frames : List Bytes) :
    fill mem frames (vs.map FixedVariable.destination) =
      (inOrder vs frames).map fun x => x.1.decoded mem x.2 := by
  induction vs generalizing frames with
  | nil => simp [inOrder]
  | cons v vs ih =>
    cases frames with
    | nil =>
      have rest := ih []
      rw [fill_no_frames] at rest ⊢
      simp only [inOrder, List.map_cons, List.head?_nil, List.tail_nil, ← rest]
      rfl
    | cons frame frames => simp [fill, inOrder, ih, FixedVariable.decoded]

theorem run_eq (mem : Memory) (call : DecodeCall) :
    call.run mem = call.pairs.map fun x => x.1.decoded mem x.2 := by
  cases call with
  | messageTo m v => rfl
  | receive i flags v =>
    obtain ⟨queue, calls⟩ := i
    cases queue <;> rfl
  | argumentTo message index v =>
    cases found : message[index]? <;>
      simp [run, pairs, MultipartMessage.argumentTo, found, FixedVariable.decoded]
  | convertTo message vs =>
    cases vs with
    | nil => rfl
    | cons v vs =>
      rw [run, MultipartMessage.convertToFrom_eq mem message 0 _ (by simp)]
      exact fill_inOrder mem (v :: vs) message

end DecodeCall

/-- Decoding values of fixed size, by whatever call, agrees with the checked copy exactly when
every frame is as long as the variable it is decoded into. -/
theorem fixed_decoding_iff (call : DecodeCall) :
    (∀ mem, call.Agrees mem) ↔
      ∀ x ∈ call.pairs, ∀ frame, x.2 = some frame → x.1.type.sizeof ≤ frame.length := by
  constructor
  · intro agrees x member frame found
    have inside := (agrees default).2 x member frame found ⟨0, x.1.type.sizeof, x.1.type.sizeof⟩
      (by simp [FixedVariable.copies, FromZmqMessage.standardLayoutTraced])
    simpa [Copy.ReadsInside] using inside
  · intro long mem
    refine ⟨?_, fun x member frame found c copied => ?_⟩
    · rw [call.run_eq mem]
      apply List.map_congr_left
      intro x member
      exact x.1.decoded_eq_checked mem x.2 (long x member)
    · simp only [FixedVariable.copies, FromZmqMessage.standardLayoutTraced,
        List.mem_singleton] at copied
      subst copied
      simpa [Copy.ReadsInside] using long x member frame found

/-- A variable of four bytes. -/
def fourBytes : FixedVariable :=
  ⟨.fixed ⟨4, Nat.succ_pos 3, none, none_ne_exact, true⟩, rfl,
    ⟨[9, 9, 9, 9], rfl⟩, 0⟩

/-- By a frame of two bytes it is not left unchanged but takes on two bytes from behind the
frame. -/
theorem shortFrame_decoded :
    let call : DecodeCall := .receive ⟨[([1, 2], false)], []⟩ 0#32 fourBytes
    (decode .zero fourBytes.type.unspecialized [1, 2] fourBytes.value) =
        (⟨[1, 2, 0, 0], rfl⟩ : Object 4) ∧
      ¬ ∀ mem, call.Agrees mem := by
  intro call
  refine ⟨rfl, fun agrees => ?_⟩
  have inside := (agrees .zero).2 (fourBytes, some [1, 2]) (by simp [call, DecodeCall.pairs])
    [1, 2] rfl ⟨0, 4, 4⟩ (by simp [FixedVariable.copies, FromZmqMessage.standardLayoutTraced,
      fourBytes, CppType.sizeof])
  exact absurd inside (by simp [Copy.ReadsInside])

end OfxZeroMQ
