import OfxZeroMQ.Model.Polling
import OfxZeroMQ.Properties.Decoding
import OfxZeroMQ.Properties.Receiving

/-!
# Uninitialized memory

Two local variables are never initialized: `data` of `get`, which keeps what it held when there
is no frame to decode, and `flags` of `receive`, which is what the socket is called with. The
decoders for bytes and for images read memory behind a frame that is too short for them.
-/
namespace OfxZeroMQ

open Foundation.Buffer

/-- The result does not depend on memory the program has not written. -/
def Memory.Independent {α : Type} (f : Memory → α) : Prop := ∀ mem other, f mem = f other

/-- The memory in which every byte is `b`. -/
def Memory.filled (b : UInt8) : Memory := ⟨fun _ => b, fun _ => b, fun _ => b⟩

/-! ### Reading behind a frame -/

/-- The decoder reads the memory behind a frame that is too short. -/
theorem Memory.read_independent_iff (data : Bytes) (offset count : Nat)
    (inside : offset ≤ data.length) :
    Memory.Independent (fun mem => mem.read data offset count) ↔
      offset + count ≤ data.length := by
  constructor
  · intro same
    by_contra short
    have behind := congrArg (fun l => l[data.length - offset]?) (same (filled 0) (filled 1))
    have reached : data.length - offset < count := by omega
    have place : offset + (data.length - offset) = data.length := by omega
    simp [Memory.read, reached, place, filled] at behind
  · intro enough mem other
    dsimp only
    rw [mem.read_eq_slice data offset count enough, other.read_eq_slice data offset count enough]

/-- What is read behind the frame is the memory there, byte by byte. -/
theorem Memory.read_eq_append (mem : Memory) (data : Bytes) (count : Nat) :
    mem.read data 0 count =
      (data ++ (List.range (count - data.length)).map mem.past).take count := by
  apply List.ext_getElem
  · simp [Memory.read]
    omega
  · intro i reached _
    have inside : i < count := by simpa [Memory.read] using reached
    rcases Nat.lt_or_ge i data.length with within | behind
    · simp [Memory.read, within, List.getD_eq_getElem?_getD]
    · simp [Memory.read, List.getElem_append, Nat.not_lt.mpr behind, List.getD_eq_getElem?_getD]

/-- Any bytes can lie behind a frame. -/
theorem Memory.exists_past (behind : Bytes) :
    ∃ mem : Memory, (List.range behind.length).map mem.past = behind :=
  ⟨⟨fun _ => 0, fun _ => 0, fun i => behind.getD i 0⟩, map_getD_range behind⟩

/-! ### Which frames settle what is decoded from them -/

/-- The bytes that the frame of an object lacks do not count for the value, as padding does
not. -/
def CppType.IsReachedBy (t : CppType) (frame : Bytes) (old : t.Val) : Prop :=
  ∀ behind other : Bytes, behind.length = t.sizeof - frame.length →
    other.length = t.sizeof - frame.length →
      t.overwrite ((frame ++ behind).take t.sizeof) old =
        t.overwrite ((frame ++ other).take t.sizeof) old

/-- Some other byte at any place makes another value of it. -/
def CppType.EveryByteCounts (t : CppType) (old : t.Val) : Prop :=
  ∀ v : Bytes, v.length = t.sizeof → ∀ i < t.sizeof, ∃ b,
    t.overwrite (v.set i b) old ≠ t.overwrite v old

/-- Without padding a frame has to have a byte for each byte of the object. -/
theorem CppType.isReachedBy_iff (t : CppType) (old : t.Val) (counts : t.EveryByteCounts old)
    (frame : Bytes) : t.IsReachedBy frame old ↔ t.sizeof ≤ frame.length := by
  constructor
  · intro reached
    by_contra short
    have lacking : 0 < t.sizeof - frame.length := by omega
    let behind : Bytes := List.replicate (t.sizeof - frame.length) 0
    have size : (frame ++ behind).length = t.sizeof := by
      simp only [behind, List.length_append, List.length_replicate]
      omega
    obtain ⟨b, differs⟩ := counts (frame ++ behind) size frame.length (by omega)
    have changed : (frame ++ behind).set frame.length b = frame ++ behind.set 0 b := by
      rw [List.set_append_right _ _ (Nat.le_refl _), Nat.sub_self]
    have same := reached (behind.set 0 b) behind (by simp [behind]) (by simp [behind])
    rw [List.take_of_length_le (by simp [behind]; omega), List.take_of_length_le (by omega)] at same
    rw [changed] at differs
    exact differs same
  · intro enough behind other first second
    rw [List.take_append_of_le_length enough, List.take_append_of_le_length enough]

namespace FromOverload

/-- The frame alone settles what the overload makes of a variable that holds `old`: the bytes of
an object are there as far as they count, an image is complete, and a function of the
application makes the same of whatever the variable holds. -/
def Settles (t : CppType) (frame : Bytes) (old : Memory → t.Val) (f : FromOverload) : Prop :=
  match f, t, old with
  | .standardLayout, t, old => ∀ mem, t.IsReachedBy frame (old mem)
  | .ofPixels, .ofPixels p, _ => FromZmqMessage.IsComplete p ⟨frame⟩
  | .hasPixels, .hasPixels p, _ => FromZmqMessage.IsComplete p ⟨frame⟩
  | .adl, .userClass k, old =>
    ∀ c, k.adl = some c → Memory.Independent fun mem => c.fromZmqMessage frame (old mem)
  | _, _, _ => True

/-- The overloads that take the whole frame, whatever its length. -/
def takesAnyLength : FromOverload → Bool
  | zmqMessage | message | string | vector | ofBuffer => true
  | _ => false

theorem settles_of_takesAnyLength (t : CppType) (frame : Bytes) (old : Memory → t.Val)
    (f : FromOverload) (any : f.takesAnyLength = true) : f.Settles t frame old := by
  cases f with
  | zmqMessage | message | string | vector | ofBuffer => trivial
  | _ => simp [takesAnyLength] at any

/-- Copying the bytes of an object out of a frame. -/
theorem standardLayout_independent_iff (t : CppType) (frame : Bytes) (old : Memory → t.Val)
    (whole : ∀ bytes mem other, t.overwrite bytes (old mem) = t.overwrite bytes (old other)) :
    Memory.Independent (fun mem => FromZmqMessage.standardLayout mem ⟨frame⟩ t (old mem)) ↔
      ∀ mem, t.IsReachedBy frame (old mem) := by
  simp only [FromZmqMessage.standardLayout, Memory.read_eq_append]
  constructor
  · intro same mem behind other first second
    obtain ⟨left, filled⟩ := Memory.exists_past behind
    obtain ⟨right, filled'⟩ := Memory.exists_past other
    have equal := same left right
    simp only [← first, filled] at equal
    rw [first, ← second, filled', whole _ left mem, whole _ right mem] at equal
    exact equal
  · intro reached mem other
    dsimp only
    rw [whole _ other mem]
    exact reached mem _ _ (by simp) (by simp)

/-- The header of an image is taken from the stack where the frame has none. -/
theorem ofPixels_width (mem : Memory) (m : Message) (p : PixelType) (short : m.size < 8) :
    (FromZmqMessage.ofPixels mem m p).width = littleEndian ((mem.uninitialized 8).take 4) := by
  have eight : sizeT (0 + (mem.uninitialized 8).length) = 8 := by
    simp [Memory.uninitialized, sizeT]
  have refused : m.copyOut mem (mem.uninitialized 8) 0 = (0, mem.uninitialized 8) := by
    rw [Message.copyOut, eight, if_pos short]
  simp only [FromZmqMessage.ofPixels, refused]

theorem ofPixels_format (mem : Memory) (m : Message) (p : PixelType) (long : 8 ≤ m.size)
    (short : m.size < 12) :
    (FromZmqMessage.ofPixels mem m p).format = Object.ofBytes 4 (mem.uninitialized 4) := by
  have eight : (mem.uninitialized 8).length = 8 := by simp [Memory.uninitialized]
  have four : (mem.uninitialized 4).length = 4 := by simp [Memory.uninitialized]
  have first : m.copyOut mem (mem.uninitialized 8) 0 = (8, mem.read m.data 0 8) := by
    rw [Message.copyOut, eight, if_neg (by simp [sizeT]; omega)]
  have second : m.copyOut mem (mem.uninitialized 4) 8 = (0, mem.uninitialized 4) := by
    rw [Message.copyOut, four, if_pos (by simp [sizeT]; omega)]
  simp only [FromZmqMessage.ofPixels, first, second]

/-- With the header in the frame, only the samples can come from elsewhere. -/
theorem ofPixels_eq (mem : Memory) (m : Message) (p : PixelType) (long : 12 ≤ m.size) :
    FromZmqMessage.ofPixels mem m p =
      let header := FromZmqMessage.headerOf m.data
      ⟨header.width, header.height, header.format, mem.read m.data 12 (header.need p)⟩ := by
  have source := (FromZmqMessage.ofPixelsTraced_header mem m p long).2
  calc FromZmqMessage.ofPixels mem m p
      = (FromZmqMessage.ofPixelsTraced mem m p).value :=
        (FromZmqMessage.value_ofPixelsTraced mem m p).symm
    _ = let header := (FromZmqMessage.ofPixelsTraced mem m p).source
        ⟨header.width, header.height, header.format,
          mem.read m.data header.offset (header.need p)⟩ := rfl
    _ = _ := by rw [source]; rfl

/-- An image without its header or its samples is made up of what lies in memory. -/
theorem ofPixels_independent_iff (p : PixelType) (m : Message) :
    Memory.Independent (fun mem => FromZmqMessage.ofPixels mem m p) ↔
      FromZmqMessage.IsComplete p m := by
  by_cases long : 12 ≤ m.size
  · simp only [Memory.Independent, ofPixels_eq _ m p long, Pixels.mk.injEq, true_and,
      FromZmqMessage.IsComplete, long]
    exact Memory.read_independent_iff m.data 12 _ long
  · refine iff_of_false (fun same => ?_) fun complete => long complete.1
    have equal := same (.filled 0) (.filled 1)
    rcases Nat.lt_or_ge m.size 8 with none | sizes
    · have width := congrArg Pixels.width equal
      simp only [ofPixels_width _ m p none] at width
      exact absurd width (by decide)
    · have format := congrArg Pixels.format equal
      simp only [ofPixels_format _ m p sizes (by omega)] at format
      exact absurd (congrArg Object.bytes format) (by decide)

/-- A checked copy reads inside the message or not at all. -/
theorem copyOut_eq (mem other : Memory) (m : Message) (old : Bytes) (offset : Nat)
    (addressable : offset + old.length < UInt64.size) :
    m.copyOut mem old offset = m.copyOut other old offset := by
  have exact' : sizeT (offset + old.length) = offset + old.length := Nat.mod_eq_of_lt addressable
  simp only [Message.copyOut, exact']
  split
  · rfl
  · rw [mem.read_eq_slice _ _ _ (by simp only [Message.size] at *; omega),
      other.read_eq_slice _ _ _ (by simp only [Message.size] at *; omega)]

theorem setToImpl_eq (mem other : Memory) (m : Message) (cursor : Nat) (vs : List Bytes)
    (addressable : cursor + Message.calcSize vs < UInt64.size) :
    m.setToImpl mem cursor vs = m.setToImpl other cursor vs := by
  induction vs generalizing cursor with
  | nil => rfl
  | cons v vs ih =>
    rw [Message.calcSize] at addressable
    have first := copyOut_eq mem other m v cursor (by omega)
    cases vs with
    | nil => simp only [Message.setToImpl, first]
    | cons w vs =>
      simp only [Message.setToImpl, first]
      have size : (m.copyOut other v cursor).1 ≤ v.length := by
        rw [Message.copyOut]
        split <;> simp
      rw [ih (cursor + (m.copyOut other v cursor).1) (by omega)]

theorem ofRectangle_independent (frame : Bytes) (rect : Rectangle) :
    Memory.Independent fun mem => FromZmqMessage.ofRectangle mem ⟨frame⟩ rect := by
  intro mem other
  have fields := setToImpl_eq mem other ⟨frame⟩ 0 [rect.x.bytes, rect.y.bytes, rect.z.bytes,
    rect.width.bytes, rect.height.bytes] (by simp [Message.calcSize, UInt64.size])
  simp only [FromZmqMessage.ofRectangle, Message.setTo, fields]

/-- What an overload stores depends on uninitialized memory exactly where the frame does not
settle it. -/
theorem store_independent_iff (t : CppType) (frame : Bytes) (old : Memory → t.Val)
    (whole : ∀ bytes mem other, t.overwrite bytes (old mem) = t.overwrite bytes (old other))
    (f : FromOverload) (selected : FromOverload.selected t = some f) :
    Memory.Independent (fun mem => f.store mem ⟨frame⟩ t (old mem)) ↔ f.Settles t frame old := by
  have viable := Foundation.Overload.conversion_of_select all template (conversion t) f selected
  have copied : Memory.Independent (fun mem => standardLayout.store mem ⟨frame⟩ t (old mem)) ↔
      standardLayout.Settles t frame old := standardLayout_independent_iff t frame old whole
  cases t with
  | sizeT | fixed _ | sendFlag | receiveFlag | pointer | array _ _ =>
    obtain rfl : standardLayout = f := Option.some.inj selected
    exact copied
  | string =>
    obtain rfl : string = f := Option.some.inj selected
    exact iff_of_true (fun _ _ => rfl) trivial
  | vector e =>
    obtain rfl : vector = f := Option.some.inj selected
    exact iff_of_true (fun _ _ => rfl) trivial
  | ofBuffer =>
    obtain rfl : ofBuffer = f := Option.some.inj selected
    exact iff_of_true (fun _ _ => rfl) trivial
  | zmqMessage =>
    obtain rfl : zmqMessage = f := Option.some.inj selected
    exact iff_of_true (fun _ _ => rfl) trivial
  | message =>
    obtain rfl : message = f := Option.some.inj selected
    exact iff_of_true (fun _ _ => rfl) trivial
  | ofRectangle =>
    obtain rfl : ofRectangle = f := Option.some.inj selected
    refine iff_of_true (fun mem other => ?_) trivial
    have kept : old mem = old other := whole [] mem other
    show FromZmqMessage.ofRectangle mem ⟨frame⟩ (old mem) =
      FromZmqMessage.ofRectangle other ⟨frame⟩ (old other)
    rw [kept]
    exact ofRectangle_independent frame (old other) mem other
  | ofPixels p =>
    obtain rfl : ofPixels = f := Option.some.inj selected
    exact ofPixels_independent_iff p ⟨frame⟩
  | hasPixels p =>
    obtain rfl : hasPixels = f := Option.some.inj selected
    exact ofPixels_independent_iff p ⟨frame⟩
  | multipart =>
    have undecodable : FromOverload.selected .multipart = none := rfl
    rw [undecodable] at selected
    cases selected
  | ofJson k text =>
    cases f with
    | standardLayout => exact copied
    | _ => simp [conversion] at viable
  | userClass k =>
    cases f with
    | standardLayout => exact copied
    | adl =>
      rw [conversion, Option.isSome_map] at viable
      obtain ⟨c, found⟩ := Option.isSome_iff_exists.mp viable
      simp [Settles, store, found]
    | _ => simp [conversion] at viable

end FromOverload

/-- The frame alone settles what is decoded from it into a variable that holds `old`. -/
def Convertible.Settles (t : Convertible) (frame : Bytes) (old : Memory → t.type.Val) : Prop :=
  match t.adlConverter with
  | some c => Memory.Independent fun mem => c.fromZmqMessage frame (old mem)
  | none => ∀ f, FromOverload.selected t.type = some f → f.Settles t.type frame old

/-- What is decoded depends on uninitialized memory exactly where the frame does not settle it. -/
theorem decode_independent_iff (t : Convertible) (decodable : t.isDecodable = true)
    (frame : Bytes) (old : Memory → t.type.Val)
    (whole : ∀ bytes mem other,
      t.type.overwrite bytes (old mem) = t.type.overwrite bytes (old other)) :
    Memory.Independent (fun mem => decode mem t frame (old mem)) ↔ t.Settles frame old := by
  rw [Convertible.Settles]
  cases specialized : t.adlConverter with
  | some c => simp only [decode, specialized]
  | none =>
    rw [Convertible.isDecodable, specialized, Option.isSome_none, Bool.false_or] at decodable
    obtain ⟨f, selected⟩ := Option.isSome_iff_exists.mp decodable
    simp only [decode, specialized, selected, Option.some.injEq, forall_eq']
    exact FromOverload.store_independent_iff t.type frame old whole f selected

/-! ### `get` -/

/-- A type that `get` compiles for, and what `type data;` leaves in a local variable of it: bytes
of the stack, unless the type initializes itself. -/
structure LocalType where
  type : Convertible
  decodable : type.isDecodable = true
  initial : Memory → type.type.Val
  -- copying all the bytes of an object leaves nothing of what it was
  whole : ∀ bytes mem other,
    type.type.overwrite bytes (initial mem) = type.type.overwrite bytes (initial other)

namespace LocalType

/-- The frame alone settles what `get` makes of the local variable. -/
def IsSettledBy (t : LocalType) (frame : Bytes) : Prop := t.type.Settles frame t.initial

theorem decode_independent_iff (t : LocalType) (frame : Bytes) :
    Memory.Independent (fun mem => decode mem t.type frame (t.initial mem)) ↔
      t.IsSettledBy frame :=
  OfxZeroMQ.decode_independent_iff t.type t.decodable frame t.initial t.whole

/-- A type that is copied as bytes, each of which counts, needs as many bytes of the frame. -/
theorem isSettledBy_iff (t : LocalType) (unspecialized : t.type.adlConverter = none)
    (copied : FromOverload.selected t.type.type = some .standardLayout)
    (counts : ∀ mem, t.type.type.EveryByteCounts (t.initial mem)) (frame : Bytes) :
    t.IsSettledBy frame ↔ t.type.type.sizeof ≤ frame.length := by
  have reached (mem : Memory) :=
    t.type.type.isReachedBy_iff (t.initial mem) (counts mem) frame
  simp only [IsSettledBy, Convertible.Settles, unspecialized, copied, Option.some.injEq,
    forall_eq', FromOverload.Settles, reached, forall_const]

theorem isSettledBy_of_takesAnyLength (t : LocalType) (unspecialized : t.type.adlConverter = none)
    (f : FromOverload) (selected : FromOverload.selected t.type.type = some f)
    (any : f.takesAnyLength = true) (frame : Bytes) : t.IsSettledBy frame := by
  simp only [IsSettledBy, Convertible.Settles, unspecialized, selected, Option.some.injEq,
    forall_eq']
  exact FromOverload.settles_of_takesAnyLength t.type.type frame t.initial f any

theorem get_independent_iff (t : LocalType) (parts : MultipartMessage) (i : Nat) :
    Memory.Independent (fun mem => parts.get mem i t.type (t.initial mem)) ↔
      (∃ frame, parts[i]? = some frame ∧ t.IsSettledBy frame) ∨
        (parts.length ≤ i ∧ Memory.Independent t.initial) := by
  cases found : parts[i]? with
  | none =>
    have short : parts.length ≤ i := List.getElem?_eq_none_iff.mp found
    -- nothing is decoded, and the local variable is returned as it was
    have kept : (fun mem => parts.get mem i t.type (t.initial mem)) = t.initial := by
      funext mem
      simp only [MultipartMessage.get, found]
    rw [kept]
    simp [short]
  | some frame =>
    have inside : i < parts.length := (List.getElem?_eq_some_iff.mp found).1
    have decoded : (fun mem => parts.get mem i t.type (t.initial mem)) =
        fun mem => decode mem t.type frame (t.initial mem) := by
      funext mem
      simp only [MultipartMessage.get, found]
    rw [decoded, t.decode_independent_iff frame]
    simp [Nat.not_le.mpr inside]

end LocalType

/-- What `get` and the implicit conversion return depends on the message only, exactly when the
frame settles it, or when there is no frame and the type initializes itself. Every frame settles
a `std::string`, a `std::vector`, an `ofBuffer` and a message; for a type that is copied as
bytes, each of which counts for its value, the frame has to have as many bytes. -/
theorem get_initialized_iff (t : LocalType) :
    (∀ (parts : MultipartMessage) (i : Nat),
      Memory.Independent (fun mem =>
          (parts.get mem i t.type (t.initial mem),
            parts.operatorType mem i t.type (t.initial mem))) ↔
        (∃ frame, parts[i]? = some frame ∧ t.IsSettledBy frame) ∨
          (parts.length ≤ i ∧ Memory.Independent t.initial)) ∧
      (∀ m : Message, Memory.Independent (fun mem => m.get mem t.type (t.initial mem)) ↔
        t.IsSettledBy m.data) ∧
      (t.type.adlConverter = none → ∀ f, FromOverload.selected t.type.type = some f →
        f.takesAnyLength = true → ∀ frame, t.IsSettledBy frame) ∧
      (t.type.adlConverter = none → FromOverload.selected t.type.type = some .standardLayout →
        (∀ mem, t.type.type.EveryByteCounts (t.initial mem)) →
          ∀ frame, t.IsSettledBy frame ↔ t.type.type.sizeof ≤ frame.length) := by
  refine ⟨fun parts i => ?_, fun m => t.decode_independent_iff m.data,
    t.isSettledBy_of_takesAnyLength, t.isSettledBy_iff⟩
  rw [← t.get_independent_iff parts i]
  constructor
  · intro same mem other
    exact (Prod.mk.inj (same mem other)).1
  · intro same mem other
    exact Prod.ext (same mem other) (same mem other)

/-- A fixed-size type that leaves its local variables uninitialized. -/
def LocalType.ofFixed (f : FixedType) : LocalType where
  type := (CppType.fixed f).unspecialized
  decodable := rfl
  initial mem := Object.ofBytes f.size (mem.uninitialized f.size)
  whole _ _ _ := rfl

/-- Objects of fixed size have no padding. -/
theorem everyByteCounts_fixed (f : FixedType) (old : Object f.size) :
    (CppType.fixed f).EveryByteCounts old := by
  intro v size i inside
  refine ⟨v.getD i 0 + 1, fun same => ?_⟩
  have bytes := congrArg Object.bytes same
  rw [CppType.overwrite, CppType.overwrite,
    Object.bytes_ofBytes f.size _ (by rwa [List.length_set]),
    Object.bytes_ofBytes f.size _ size] at bytes
  have inside' : i < v.length := by rwa [size]
  have differ := congrArg (·[i]?) bytes
  simp [inside', List.getD_eq_getElem?_getD] at differ

/-- Such an object needs a byte of the frame for each of its own. -/
theorem LocalType.isSettledBy_ofFixed (f : FixedType) (frame : Bytes) :
    (LocalType.ofFixed f).IsSettledBy frame ↔ f.size ≤ frame.length :=
  (LocalType.ofFixed f).isSettledBy_iff rfl rfl (fun _ => everyByteCounts_fixed f _) frame

/-- A 16-bit number. -/
def uninitializedShort : LocalType := .ofFixed ⟨2, Nat.two_pos, none, none_ne_exact, true⟩

/-- With no frame at the index, `get` returns what the stack held. -/
theorem get_out_of_range :
    ¬ Memory.Independent fun mem => MultipartMessage.get mem [[1, 0]] 1
      uninitializedShort.type (uninitializedShort.initial mem) := by
  intro same
  have bytes : Object.ofBytes 2 [0, 0] = Object.ofBytes 2 [1, 1] :=
    same (.filled 0) (.filled 1)
  exact absurd (congrArg Object.bytes bytes) (by decide)

/-! ### `receive` -/

/-- What `receive(data, f)` may have returned, with the destination and the socket afterwards. -/
structure HonoursFlag (i : Inbox) (f : ReceiveFlag) (data : Destination)
    (r : Option Bool × Destination × Inbox) : Prop where
  mode : ∃ flags : Flags, r.2.2.calls = i.calls ++ [flags] ∧
    flags.has ZMQ_DONTWAIT = f.nonblocking
  nonblocking : i.queue = [] → f.nonblocking = true → r.1 = some false ∧ r.2.1 = data
  blocking : i.queue = [] → f.nonblocking = false → r.1 = none

/-- `getNextMessage(data)` returns, whatever `item.revents` holds. -/
def GetNextReturns (mem : Memory) (flags : Flags) (i : Inbox) (data : Destination) : Prop :=
  ∀ revents r, Socket.getNextMessage mem ⟨i, revents⟩ flags data = .ok r → r.1 ≠ none

/-- Two calls that differ in uninitialized memory, and in the local variable `flags` there,
honour the flag and do the same. -/
structure ReceivesAlike (mem other : Memory) (flags others : Flags) (i : Inbox) (f : ReceiveFlag)
    (data : Destination) (r s : Option Bool × Destination × Inbox) : Prop where
  first : i.receiveWith mem flags f data = .ok r ∧ HonoursFlag i f data r
  second : i.receiveWith other others f data = .ok s ∧ HonoursFlag i f data s
  same : r.1 = s.1 ∧ r.2.1 = s.2.1 ∧ r.2.2.queue = s.2.2.queue
  next : f = .default → GetNextReturns mem flags i data ∧ GetNextReturns other others i data

/-- The first queued frame, if there is one, settles what is decoded from it. -/
def FirstFrameSettles (i : Inbox) (data : Destination) : Prop :=
  ∀ frame more rest, i.queue = (frame, more) :: rest →
    data.type.Settles frame fun _ => data.value

theorem Inbox.receiveWith_eq (mem : Memory) (flags : Flags) (i : Inbox) (f : ReceiveFlag)
    (data : Destination) (receivable : data.type.isReceivableWithFlag = true) :
    i.receiveWith mem flags f data = .ok (i.receiveValue mem flags data) := by
  simp only [receiveWith, receivable, if_true]

/-- The call honours the flag when what is in `flags` agrees with it. -/
theorem honoursFlag_iff (mem : Memory) (i : Inbox) (f : ReceiveFlag) (data : Destination)
    (flags : Flags) :
    HonoursFlag i f data (i.receiveValue mem flags data) ↔
      flags.has ZMQ_DONTWAIT = f.nonblocking := by
  have calls : (i.receiveValue mem flags data).2.2.calls = i.calls ++ [flags] := by
    cases queued : i.queue <;> simp [Inbox.receiveValue, queued]
  constructor
  · intro honours
    obtain ⟨passed, recorded, mode⟩ := honours.mode
    rw [calls] at recorded
    simp only [List.append_cancel_left_eq, List.cons.injEq, and_true] at recorded
    rw [recorded, mode]
  · intro agrees
    refine ⟨⟨flags, calls, agrees⟩, fun empty mode => ?_, fun empty mode => ?_⟩
    · rw [mode] at agrees
      simp [Inbox.receiveValue, empty, agrees]
    · rw [mode] at agrees
      simp [Inbox.receiveValue, empty, agrees]

theorem getNextReturns (mem : Memory) (flags : Flags) (i : Inbox) (data : Destination)
    (set : flags.has ZMQ_DONTWAIT = true) : GetNextReturns mem flags i data := by
  intro revents r called
  have returns : (i.receiveValue mem flags data).1 ≠ none := by
    cases queued : i.queue <;> simp [Inbox.receiveValue, queued, set]
  by_cases receivable : data.type.isReceivable = true
  · cases revents with
    | false =>
      simp only [Socket.getNextMessage, receivable, if_true, Bool.false_eq_true, if_false] at called
      cases called
      simp
    | true =>
      simp only [Socket.getNextMessage, Socket.receive, Inbox.receive, receivable, if_true]
        at called
      cases called
      exact returns
  · simp [Socket.getNextMessage, receivable] at called

/-- The destination is left with the same value in every memory, exactly when the frame that is
received settles it. -/
theorem receivedValue_independent_iff (i : Inbox) (data : Destination)
    (receivable : data.type.isReceivableWithFlag = true) :
    (∀ mem other flags others, (i.receiveValue mem flags data).2.1 =
        (i.receiveValue other others data).2.1) ↔ FirstFrameSettles i data := by
  have decodable : data.type.isDecodable = true := by
    rw [Convertible.isReceivableWithFlag, Bool.and_eq_true] at receivable
    exact receivable.1
  cases queued : i.queue with
  | nil => simp [Inbox.receiveValue, FirstFrameSettles, queued]
  | cons head rest =>
    obtain ⟨frame, more⟩ := head
    have settled := decode_independent_iff data.type decodable frame (fun _ => data.value)
      fun _ _ _ => rfl
    have first : FirstFrameSettles i data ↔ data.type.Settles frame fun _ => data.value := by
      simp [FirstFrameSettles, queued]
    rw [first, ← settled]
    simp [Inbox.receiveValue, queued, Destination.store, Memory.Independent]

/-- `receive(data, f)` honours its flag, and does the same whatever uninitialized memory holds,
only where the local variable that is passed instead of the flag happens to agree with it, and
the frame that is received settles the value. -/
theorem receive_honours_iff (flags others : Flags) (i : Inbox) (f : ReceiveFlag)
    (data : Destination) (receivable : data.type.isReceivableWithFlag = true) :
    (∀ mem other, ∃ r s, ReceivesAlike mem other flags others i f data r s) ↔
      flags.has ZMQ_DONTWAIT = f.nonblocking ∧ others.has ZMQ_DONTWAIT = f.nonblocking ∧
        FirstFrameSettles i data := by
  have called (mem : Memory) (flags : Flags) := i.receiveWith_eq mem flags f data receivable
  rw [← receivedValue_independent_iff i data receivable]
  constructor
  · intro alike
    have returned (mem other : Memory) : ReceivesAlike mem other flags others i f data
        (i.receiveValue mem flags data) (i.receiveValue other others data) := by
      obtain ⟨r, s, both⟩ := alike mem other
      obtain rfl := Except.ok.inj ((called mem flags).symm.trans both.first.1)
      obtain rfl := Except.ok.inj ((called other others).symm.trans both.second.1)
      exact both
    have one := returned default default
    refine ⟨(honoursFlag_iff default i f data _).mp one.first.2,
      (honoursFlag_iff default i f data _).mp one.second.2, fun mem other some any => ?_⟩
    -- what is stored does not depend on the flags of the socket call
    have stored (mem : Memory) (one two : Flags) : (i.receiveValue mem one data).2.1 =
        (i.receiveValue mem two data).2.1 := by
      cases queued : i.queue <;> simp [Inbox.receiveValue, queued]
    rw [stored mem some flags, stored other any others]
    exact (returned mem other).same.2.1
  · rintro ⟨agrees, othersAgree, alike⟩ mem other
    refine ⟨_, _, ⟨called mem flags, (honoursFlag_iff mem i f data _).mpr agrees⟩,
      ⟨called other others, (honoursFlag_iff other i f data _).mpr othersAgree⟩,
      ⟨?_, alike mem other flags others, ?_⟩, ?_⟩
    · cases queued : i.queue <;> simp [Inbox.receiveValue, queued, agrees, othersAgree]
    · cases queued : i.queue <;> simp [Inbox.receiveValue, queued]
    · rintro rfl
      exact ⟨getNextReturns mem flags i data agrees,
        getNextReturns other others i data othersAgree⟩

/-- A call with the default flag waits on an empty queue when `flags` happens to be zero. -/
theorem receive_ignores_flag :
    (Inbox.mk [] []).receiveWith .zero 0#32 .default freshString =
        .ok (none, freshString, ⟨[], [0#32]⟩) ∧
      ¬ ∃ r s, ReceivesAlike .zero .zero 0#32 0#32 ⟨[], []⟩ .default freshString r s := by
  refine ⟨rfl, ?_⟩
  rintro ⟨r, s, alike⟩
  have waits : Except.ok (ε := Stuck) (none, freshString, ⟨[], [0#32]⟩) = .ok r := alike.first.1
  cases waits
  exact absurd (alike.first.2.nonblocking rfl rfl).1 (by decide)

/-- A `Message` that is received with the default flag while `flags` holds `ZMQ_DONTWAIT`. -/
theorem receive_honours_default :
    ∃ r s, ReceivesAlike (.filled 0) (.filled 1) ZMQ_DONTWAIT ZMQ_DONTWAIT ⟨[([1], false)], []⟩
      .default ⟨CppType.message.unspecialized, [], 0⟩ r s := by
  refine (receive_honours_iff ZMQ_DONTWAIT ZMQ_DONTWAIT ⟨[([1], false)], []⟩ .default
    ⟨CppType.message.unspecialized, [], 0⟩ (by decide)).mpr ⟨by decide, by decide, ?_⟩ _ _
  intro frame more rest queued f selected
  obtain rfl : FromOverload.message = f := Option.some.inj selected
  exact FromOverload.settles_of_takesAnyLength _ _ _ _ rfl

end OfxZeroMQ
