import OfxZeroMQ.Properties.Encoding

/-!
# Containers and images

Strings, vectors, buffers and images are ranges as well, so that the range constructor that
`Message` inherits competes with the encoder of the type. It copies the elements; an image
loses its header that way.
-/
namespace OfxZeroMQ

/-! ### The header of an image -/

theorem littleEndian_uint32 (n : Nat) : littleEndian (uint32 n).bytes = n % UInt32.size := by
  simp only [uint32, Object.bytes, littleEndian, UInt8.toNat_ofNat', UInt32.size]
  omega

/-- An image with the samples that its width, height and format demand. -/
def Pixels.IsAllocated (p : PixelType) (pix : Pixels) : Prop :=
  pix.samples.length = p.size * p.count pix.width pix.height pix.format

/-- The two `std::uint32_t` of the header hold the width and the height. -/
def Pixels.FitsHeader (pix : Pixels) : Prop :=
  pix.width < UInt32.size ∧ pix.height < UInt32.size

def Pixels.header (pix : Pixels) : Bytes :=
  (uint32 pix.width).bytes ++ (uint32 pix.height).bytes ++ pix.format.bytes

namespace FromZmqMessage

/-- The header is read from the frame, then as many samples as it announces. -/
theorem ofPixels_encoding (mem : Memory) (p : PixelType) (pix : Pixels) :
    ofPixels mem ⟨(CppType.ofPixels p).encoding pix⟩ p =
      ⟨pix.width % UInt32.size, pix.height % UInt32.size, pix.format,
        mem.read (pix.header ++ pix.samples) 12
          (p.size * p.count (pix.width % UInt32.size) (pix.height % UInt32.size) pix.format)⟩ := by
  let size := (uint32 pix.width).bytes ++ (uint32 pix.height).bytes
  have frame : (CppType.ofPixels p).encoding pix = size ++ (pix.format.bytes ++ pix.samples) := by
    simp [CppType.encoding, size]
  have first := Message.copyOut_append mem [] size (pix.format.bytes ++ pix.samples)
    (mem.uninitialized 8) (by simp [Memory.uninitialized, size])
  have second := Message.copyOut_append mem size pix.format.bytes pix.samples
    (mem.uninitialized 4) (by simp [Memory.uninitialized])
  have length : size.length = 8 := by simp [size]
  simp only [List.nil_append, List.length_nil, length] at first second
  have width : size.take 4 = (uint32 pix.width).bytes := by simp [size]
  have height : size.drop 4 = (uint32 pix.height).bytes := by simp [size]
  rw [frame]
  simp only [ofPixels, first, second, width, height, littleEndian_uint32, Object.ofBytes_bytes,
    Object.length_bytes]
  simp [Pixels.header, size]

/-- The header that was written is the one that is read exactly when it holds the numbers. -/
theorem ofPixels_encoding_eq_iff (mem : Memory) (p : PixelType) (pix : Pixels)
    (allocated : pix.IsAllocated p) :
    ofPixels mem ⟨(CppType.ofPixels p).encoding pix⟩ p = pix ↔ pix.FitsHeader := by
  rw [ofPixels_encoding]
  constructor
  · intro same
    have width := congrArg Pixels.width same
    have height := congrArg Pixels.height same
    simp only at width height
    exact ⟨Nat.mod_eq_iff_lt (by decide) |>.mp width, Nat.mod_eq_iff_lt (by decide) |>.mp height⟩
  · rintro ⟨width, height⟩
    have samples : mem.read (pix.header ++ pix.samples) 12 pix.samples.length = pix.samples := by
      have inside : 12 + pix.samples.length ≤ (pix.header ++ pix.samples).length := by
        simp only [Pixels.header, List.length_append, Object.length_bytes]
        omega
      have behind := Foundation.Buffer.slice_append pix.header pix.samples []
      have length : pix.header.length = 12 := by simp [Pixels.header]
      rw [List.append_nil, length] at behind
      rw [mem.read_eq_slice _ _ _ inside, behind]
    rw [Nat.mod_eq_of_lt width, Nat.mod_eq_of_lt height, ← allocated, samples]

end FromZmqMessage

/-! ### Containers -/

def CppType.IsContainer : CppType → Prop
  | .string | .vector _ | .ofBuffer | .ofPixels _ => True
  | _ => False

def CppType.IsImage (t : CppType) : Prop := ∃ p, t = .ofPixels p

/-- The values a container can have. -/
def CppType.IsAllocated : (t : CppType) → t.Val → Prop
  | .ofPixels p, pix => pix.IsAllocated p
  | _, _ => True

def CppType.FitsHeader : (t : CppType) → t.Val → Prop
  | .ofPixels _, pix => pix.FitsHeader
  | _, _ => True

/-- What the library's `to_zmq_message` for the type makes of a value. -/
def CppType.toZmqMessage (mem : Memory) : (t : CppType) → t.Val → Option Bytes
  | .string, v => some (ToZmqMessage.string .empty v).data
  | .vector _, v => some (ToZmqMessage.vector .empty v).data
  | .ofBuffer, v => some (ToZmqMessage.ofBuffer .empty v).data
  | .ofPixels _, v => some (ToZmqMessage.ofPixels mem .empty v).data
  | _, _ => none

namespace CppType.IsContainer

variable {t : CppType} (container : t.IsContainer)

include container

theorem toZmqMessage (mem : Memory) (v : t.Val) : t.toZmqMessage mem v = some (t.encoding v) := by
  cases t with
  | string | vector _ | ofBuffer => rfl
  | ofPixels p =>
    simp only [CppType.toZmqMessage, CppType.encoding, ToZmqMessage.ofPixels_data]
  | _ => exact container.elim

theorem decode_eq_iff (mem : Memory) (v old : t.Val) (allocated : t.IsAllocated v) :
    decode mem t.unspecialized (t.encoding v) old = v ↔ t.FitsHeader v := by
  cases t with
  | string | ofBuffer => exact iff_of_true rfl trivial
  | vector e => exact iff_of_true (FromZmqMessage.vector_flatten e v) trivial
  | ofPixels p => exact FromZmqMessage.ofPixels_encoding_eq_iff mem p v allocated
  | _ => exact container.elim

/-- The constructor for ranges copies what the encoder copies, but for the header. -/
theorem asRange (v : t.Val) (notImage : ¬ t.IsImage) : t.asRange v = some (t.encoding v) := by
  cases t with
  | string | vector _ | ofBuffer => rfl
  | ofPixels p => exact absurd ⟨p, rfl⟩ notImage
  | _ => exact container.elim

theorem frame_eq (mem : Memory) (v : t.Val) (c : Category) (e : EntryPoint)
    (keeps : t.IsImage → ¬ (e.call = .construct ∧ e.category c = .constLvalue)) :
    e.frame mem ⟨t.unspecialized, c, v⟩ = .ok (t.encoding v) := by
  have encodable : t.isEncodable = true := by
    cases t with
    | string | vector _ | ofBuffer | ofPixels _ => rfl
    | _ => exact container.elim
  have sizes : t.toSize = none := by
    cases t with
    | string | vector _ | ofBuffer | ofPixels _ => rfl
    | _ => exact container.elim
  refine EntryPoint.frame_eq mem t.unspecialized v c e encodable (Or.inl rfl) ?_ ?_
    (fun _ => by simp [sizes]) ?_
  · rintro (rfl : t = .zmqMessage)
    exact container.elim
  · rintro (rfl : t = .message)
    exact container.elim
  · intro construct const _
    exact container.asRange v fun image => keeps image ⟨construct, const⟩

end CppType.IsContainer

theorem frame_image_eq (mem : Memory) (p : PixelType) (pix : Pixels) (c : Category)
    (e : EntryPoint) (construct : e.call = .construct) (const : e.category c = .constLvalue) :
    e.frame mem ⟨(CppType.ofPixels p).unspecialized, c, pix⟩ = .ok pix.samples := by
  have ends := Call.ends_construct_ctor (CppType.ofPixels p).unspecialized .constLvalue .range
    (MessageCtor.selected_range _ rfl (by simp [CppType.toSize])) (by simp) (by simp)
  rw [EntryPoint.frame, construct, const]
  exact encode_eq_ok mem _ _ _ ⟨pix.samples⟩ ends rfl

/-- Whatever the entry point, the category and the contents, a container is sent as its
`to_zmq_message` encodes it and comes back from that frame, unless it is an image that is
constructed from a const lvalue, as `Socket::send` does, or that is too large for its header. -/
theorem container_frame_iff (t : CppType) (container : t.IsContainer) (v : t.Val)
    (allocated : t.IsAllocated v) (c : Category) (e : EntryPoint) :
    (∀ sender receiver, ∃ bytes, t.toZmqMessage sender v = some bytes ∧
        e.Makes sender ⟨t.unspecialized, c, v⟩ bytes ∧
        ∀ old, decode receiver t.unspecialized bytes old = v) ↔
      (t.IsImage → ¬ (e.call = .construct ∧ e.category c = .constLvalue)) ∧ t.FitsHeader v := by
  have notMultipart : t ≠ .multipart := by
    rintro rfl
    exact container.elim
  constructor
  · intro agrees
    obtain ⟨bytes, encoded, makes, recovers⟩ := agrees .zero .zero
    obtain rfl := Option.some.inj ((container.toZmqMessage .zero v).symm.trans encoded)
    refine ⟨?_, (container.decode_eq_iff .zero v v allocated).mp (recovers v)⟩
    rintro ⟨p, rfl⟩ ⟨construct, const⟩
    -- the header alone makes the two frames differ
    have frame := (frame_image_eq .zero p v c e construct const).symm.trans makes.1
    have length := congrArg List.length (Except.ok.inj frame)
    simp only [CppType.encoding, List.length_append, Object.length_bytes] at length
    omega
  · rintro ⟨keeps, fits⟩ sender receiver
    refine ⟨t.encoding v, container.toZmqMessage sender v, ?_, fun old => ?_⟩
    · exact (EntryPoint.makes_iff sender e _ _ fun _ => notMultipart).mpr
        (container.frame_eq sender v c e keeps)
    · exact (container.decode_eq_iff receiver v old allocated).mpr fits

/-- One-byte samples, one for each pixel. -/
def grayscale : PixelType := ⟨⟨1, Nat.one_pos⟩, fun width height _ => width * height⟩

def twoPixels : Pixels := ⟨2, 1, ⟨[0, 0, 0, 0], rfl⟩, [7, 8]⟩

/-- `Socket::send` drops the header of an image. -/
theorem twoPixels_sent :
    EntryPoint.send.frame .zero ⟨(CppType.ofPixels grayscale).unspecialized, .lvalue, twoPixels⟩ =
        .ok [7, 8] ∧
      (CppType.ofPixels grayscale).toZmqMessage .zero twoPixels =
        some [2, 0, 0, 0, 1, 0, 0, 0, 0, 0, 0, 0, 7, 8] ∧
      ¬ ∀ (e : EntryPoint) (c : Category) (sender receiver : Memory), ∃ bytes,
        (CppType.ofPixels grayscale).toZmqMessage sender twoPixels = some bytes ∧
          e.Makes sender ⟨(CppType.ofPixels grayscale).unspecialized, c, twoPixels⟩ bytes ∧
          ∀ old, decode receiver (CppType.ofPixels grayscale).unspecialized bytes old =
            twoPixels := by
  refine ⟨rfl, by decide, fun agrees => ?_⟩
  obtain ⟨bytes, encoded, makes, _⟩ := agrees .send .lvalue .zero .zero
  have sent : Except.ok [7, 8] = Except.ok (ε := Stuck) bytes := makes.1
  rw [← Except.ok.inj sent] at encoded
  exact absurd encoded (by decide)

theorem twoPixels_added :
    ∃ bytes, (CppType.ofPixels grayscale).toZmqMessage .zero twoPixels = some bytes ∧
      EntryPoint.addArgument.Makes .zero
        ⟨(CppType.ofPixels grayscale).unspecialized, .lvalue, twoPixels⟩ bytes ∧
      ∀ old, decode .zero (CppType.ofPixels grayscale).unspecialized bytes old = twoPixels :=
  (container_frame_iff (.ofPixels grayscale) trivial twoPixels rfl .lvalue .addArgument).mpr
    ⟨fun _ => by simp [EntryPoint.category], by decide, by decide⟩ .zero .zero

end OfxZeroMQ
