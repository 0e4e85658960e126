import OfxZeroMQ.Properties.Multipart
import OfxZeroMQ.Properties.Selection

/-!
# Round trips

The library's own encoders and decoders undo each other, value by value and over a whole
multipart message.
-/
namespace OfxZeroMQ

open Foundation.Framing

/-! ### One value -/

/-- The types that need no conversion function of the application: strings, values copied as
bytes, vectors of such values, `ofRectangle` and `Message`. -/
def CppType.IsPlain : CppType → Prop
  | .sizeT | .fixed _ | .sendFlag | .receiveFlag | .array _ _ | .string | .vector _
  | .ofRectangle | .message => True
  | .userClass k => k.standardLayout = true ∧ k.adl = none ∧
      ∀ v old, k.overwrite (k.representation v) old = v
  | _ => False

theorem CppType.IsPlain.isEncodable {t : CppType} (plain : t.IsPlain) : t.isEncodable = true := by
  cases t with
  | userClass k => simp [CppType.isEncodable, CppType.isStandardLayout, plain.1]
  | sizeT | fixed _ | sendFlag | receiveFlag | array _ _ | string | vector _ | ofRectangle
  | message => rfl
  | _ => exact plain.elim

theorem CppType.IsPlain.ne_zmqMessage {t : CppType} (plain : t.IsPlain) : t ≠ .zmqMessage := by
  rintro rfl
  exact plain.elim

/-- Copying an object's bytes out of its own frame gives the object back. -/
theorem ofBytes_read (mem : Memory) {n : Nat} (o : Object n) :
    Object.ofBytes n (mem.read o.bytes 0 n) = o := by
  rw [mem.read_object, Object.ofBytes_bytes]

theorem SendFlag.ofObject_representation (f : SendFlag) :
    SendFlag.ofObject f.representation = f := by
  obtain ⟨nonblocking, more⟩ := f
  cases nonblocking <;> cases more <;> rfl

theorem ReceiveFlag.ofObject_representation (f : ReceiveFlag) :
    ReceiveFlag.ofObject f.representation = f := by
  obtain ⟨nonblocking⟩ := f
  cases nonblocking <;> rfl

namespace FromZmqMessage

theorem vector_flatten (e : ElementType) (v : List (Object e.size)) :
    vector ⟨(v.map Object.bytes).flatten⟩ e = v := by
  have sizes : ∀ p ∈ v.map Object.bytes, p.length = e.size := by
    intro p member
    obtain ⟨o, _, rfl⟩ := List.mem_map.mp member
    exact o.length_bytes
  simp only [vector, Foundation.Buffer.chunks_flatten e.size _ e.positive sizes, List.map_map]
  calc v.map (Object.ofBytes e.size ∘ Object.bytes) = v.map id :=
        List.map_congr_left fun o _ => Object.ofBytes_bytes o
    _ = v := List.map_id v

theorem ofRectangle_set (mem : Memory) (rect old : Rectangle) :
    ofRectangle mem ⟨CppType.ofRectangle.encoding rect⟩ old = rect := by
  let fields (r : Rectangle) := [r.x.bytes, r.y.bytes, r.z.bytes, r.width.bytes, r.height.bytes]
  have read := Message.setTo_eq mem (fields rect) (fields old) (by simp [fields])
    rect.fields_ne_nil (by simp [fields])
  have whole : (fields rect).flatten = CppType.ofRectangle.encoding rect := by
    simp [fields, CppType.encoding]
  rw [whole] at read
  simp only [fields] at read
  simp [ofRectangle, read]

end FromZmqMessage

theorem decode_encoding (mem : Memory) (t : CppType) (plain : t.IsPlain) (v old : t.Val) :
    decode mem t.unspecialized (t.encoding v) old = v := by
  cases t with
  | string | message => rfl
  | vector e => exact FromZmqMessage.vector_flatten e v
  | ofRectangle => exact FromZmqMessage.ofRectangle_set mem v old
  | sizeT | fixed _ | array _ _ => exact ofBytes_read mem v
  | sendFlag =>
    show SendFlag.ofObject (Object.ofBytes 2 (mem.read v.representation.bytes 0 2)) = v
    rw [ofBytes_read, SendFlag.ofObject_representation]
  | receiveFlag =>
    show ReceiveFlag.ofObject (Object.ofBytes 1 (mem.read v.representation.bytes 0 1)) = v
    rw [ofBytes_read, ReceiveFlag.ofObject_representation]
  | userClass k =>
    obtain ⟨standard, noAdl, undoes⟩ := plain
    have selected : FromOverload.selected (.userClass k) = some .standardLayout := by
      have candidates : Foundation.Overload.viable FromOverload.all FromOverload.template
          (FromOverload.conversion (.userClass k)) =
            [⟨.standardLayout, some 0, ⟨.exact, some ⟨false, false⟩⟩⟩] := by
        simp [Foundation.Overload.viable, FromOverload.all, FromOverload.conversion,
          FromOverload.template, CppType.isStandardLayout, standard, noAdl]
      rw [FromOverload.selected, Foundation.Overload.select, candidates]
      rfl
    have copied : decode mem (CppType.userClass k).unspecialized
        ((CppType.userClass k).encoding v) old =
          k.overwrite (Object.ofBytes k.size (mem.read (k.representation v).bytes 0 k.size))
            old := by
      simp only [decode, CppType.unspecialized, selected, CppType.encoding, noAdl]
      rfl
    rw [copied, ofBytes_read, undoes]
  | pointer | ofBuffer | ofPixels _ | hasPixels _ | ofJson _ _ | zmqMessage | multipart =>
    exact plain.elim

/-! ### A whole message -/

/-- A plain value to send, and what a variable of its type holds before it is received. -/
structure Slot where
  type : CppType
  plain : type.IsPlain
  category : Category
  value : type.Val
  old : type.Val
  writes : Nat

namespace Slot

def argument (s : Slot) : Argument := ⟨s.type.unspecialized, s.category, s.value⟩

def frame (s : Slot) : Bytes := s.type.encoding s.value

def destination (s : Slot) : Destination := ⟨s.type.unspecialized, s.old, s.writes⟩

/-- The destination with the value in it, after one write. -/
def received (s : Slot) : Destination := ⟨s.type.unspecialized, s.value, s.writes + 1⟩

theorem store_frame (mem : Memory) (s : Slot) : s.destination.store mem s.frame = s.received := by
  simp only [Destination.store, destination, received, frame,
    decode_encoding mem s.type s.plain s.value s.old]

theorem fill_frames (mem : Memory) (slots : List Slot) :
    fill mem (slots.map frame) (slots.map destination) = slots.map received := by
  induction slots with
  | nil => rfl
  | cons s slots ih => simp only [List.map_cons, fill, store_frame, ih]

theorem addArguments_eq (mem : Memory) (parts : MultipartMessage) (slots : List Slot)
    (nonempty : slots ≠ []) :
    MultipartMessage.addArguments mem parts (slots.map argument) =
      .ok (parts ++ slots.map frame) := by
  have encoded (s : Slot) (c : Category) :
      encode mem ⟨s.type.unspecialized, c, s.value⟩ .function = .ok s.frame :=
    encode_function mem s.type.unspecialized c s.value s.plain.isEncodable
      fun moved => absurd moved s.plain.ne_zmqMessage
  rw [MultipartMessage.addArguments_eq_ok]
  refine ⟨by simpa using nonempty, slots.map frame, ?_, rfl⟩
  cases slots with
  | nil => rfl
  | cons s slots =>
    -- the first value is passed by name; for a plain value that makes no difference
    simp only [List.map_cons, passed, List.map_map, List.cons.injEq]
    refine ⟨encoded s s.category.named, ?_⟩
    apply List.map_congr_left
    intro s _
    exact encoded s s.category

/-- No plain value is a multipart message, so the forwarding constructor takes it. -/
theorem construct_eq (mem : Memory) (slots : List Slot) (nonempty : slots ≠ []) :
    MultipartMessage.construct mem (slots.map argument) = .ok (slots.map frame) := by
  rw [MultipartMessage.construct_eq_addArguments mem _ (by simpa using nonempty) ?_]
  · exact addArguments_eq mem [] slots nonempty
  · intro a single
    obtain ⟨s, _, rfl⟩ : ∃ s ∈ slots, argument s = a := by
      have member : a ∈ slots.map argument := by simp [single]
      exact List.mem_map.mp member
    intro multipart
    have plain : s.type.IsPlain := s.plain
    rw [show s.type = .multipart from multipart] at plain
    exact plain.elim

theorem get_frame (mem : Memory) (slots : List Slot) (i : Nat) (s : Slot)
    (member : slots[i]? = some s) (data : s.type.Val) :
    MultipartMessage.get mem (slots.map frame) i s.type.unspecialized data = s.value := by
  simp only [MultipartMessage.get, List.getElem?_map, member, Option.map_some]
  exact decode_encoding mem s.type s.plain s.value data

end Slot

/-- Whatever plain values are sent together arrive together: the sender completes exactly one
message, with one frame for each value in order, and the receiver gets every value back, both
in the destinations of `receiveMultipart` and through `m[i].get`. -/
theorem sendMultipart_receiveMultipart (sender receiver : Memory) (slots : List Slot)
    (nonempty : slots ≠ [])
    (sends : traitCompiles (argumentTypes (slots.map Slot.argument)) = true)
    (receives : receiveCompiles (slots.map Slot.destination) = true)
    (o : Outbox) (room : Nat → Bool) (accepts : ∀ i < slots.length, room i = true)
    (queue : List (Bytes × Bool)) (calls : List Flags) :
    let frames := slots.map Slot.frame
    let inbox : Inbox := ⟨mark frames ++ queue, calls⟩
    (∃ sent, o.sendMultipart sender room (slots.map Slot.argument) = .ok (some 1, sent) ∧
        sent.assembly = ⟨o.assembly.delivered ++ [o.assembly.pending ++ frames], []⟩ ∧
        sent.calls = o.calls ++ (mark frames).map (SendCall.ofMarked true)) ∧
      (∃ rest, inbox.receiveMultipart receiver (slots.map Slot.destination) =
          .ok (some true, slots.map Slot.received, rest) ∧ rest.queue = queue) ∧
      ∀ flags, (inbox.receiveMessage flags).returned = some true ∧
        ∀ i s, slots[i]? = some s → ∀ data,
          (inbox.receiveMessage flags).message.get receiver i s.type.unspecialized data =
            s.value := by
  intro frames inbox
  have some_frames : frames ≠ [] := by simpa [frames] using nonempty
  have received (flags : ReceiveFlag) :=
    Inbox.recv_mark frames queue calls flags.toFlags some_frames
  refine ⟨?_, ?_, ?_⟩
  · refine ⟨_, Outbox.sendMultipart_accepted sender o room _ frames sends
      (Slot.construct_eq sender slots nonempty) (by simpa [frames] using accepts), ?_, rfl⟩
    exact pushAll_mark o.assembly frames some_frames
  · have converted := Inbox.receiveMultipart_eq receiver inbox (slots.map Slot.destination) receives
    simp only [inbox, Inbox.receiveMessage, received, frames, Slot.fill_frames, List.length_map,
      Nat.le_refl, decide_true] at converted
    exact ⟨_, converted, rfl⟩
  · intro flags
    simp only [inbox, Inbox.receiveMessage, received]
    exact ⟨trivial, Slot.get_frame receiver slots⟩

/-- Memory in which every byte the program has not written is zero. -/
def Memory.zero : Memory := ⟨fun _ => 0, fun _ => 0, fun _ => 0⟩

/-- A topic and a vector of one 16-bit number, as in `sendMultipart(std::string{"mo"}, v)`. -/
theorem sendMultipart_receiveMultipart_pair :
    let slots : List Slot := [⟨.string, trivial, .rvalue, [109, 111], [], 0⟩,
      ⟨.vector ⟨2, by decide⟩, trivial, .lvalue, [⟨[1, 0], rfl⟩], [], 0⟩]
    ∃ sent, Outbox.idle.sendMultipart .zero (fun _ => true) (slots.map Slot.argument) =
        .ok (some 1, sent) ∧
      sent.assembly = ⟨[[[109, 111], [1, 0]]], []⟩ ∧
      ∃ rest, Inbox.receiveMultipart .zero ⟨[([109, 111], true), ([1, 0], false)], []⟩
        (slots.map Slot.destination) = .ok (some true, slots.map Slot.received, rest) := by
  intro slots
  obtain ⟨⟨sent, accepted, assembly, _⟩, ⟨rest, received, _⟩, _⟩ :=
    sendMultipart_receiveMultipart .zero .zero slots (by simp [slots]) rfl rfl .idle
      (fun _ => true) (by simp) [] []
  exact ⟨sent, accepted, assembly, rest, received⟩

end OfxZeroMQ
