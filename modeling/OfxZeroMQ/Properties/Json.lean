import OfxZeroMQ.Model.Json
import OfxZeroMQ.Properties.Encoding

/-!
# JSON does not travel as text

Nothing deduces the template parameter of the encoder and the decoder for `ofJson`, so that the
overloads for standard-layout types take it. They copy the tag and the word of the object: for
everything but booleans and numbers the word is an address.
-/
namespace OfxZeroMQ

theorem JsonKind.tag_lt (k : JsonKind) : k.tag < 32 := by
  cases k <;> decide

namespace BasicJson

variable (json : BasicJson)

/-! ### What the unselected overloads would do -/

/-- The text is read back as a value that is equal. -/
theorem ofJson_round_trip (m : Message) (v : JsonValue json) (d : json.Document)
    (holds : v.document = some d) :
    (ToZmqMessage.ofJson json.text m v).data = json.dump d ∧
      ∃ w, FromZmqMessage.ofJson json.text (ToZmqMessage.ofJson json.text m v) = some w ∧
        w.document = some d := by
  have written : (ToZmqMessage.ofJson json.text m v).data = json.dump d := by
    simp [ToZmqMessage.ofJson, ToZmqMessage.string, text, holds]
  refine ⟨written, .stored d (json.place d), ?_, by simp⟩
  rw [FromZmqMessage.ofJson, FromZmqMessage.string, written]
  simp [text, json.parse_dump]

/-! ### What the selected ones do -/

theorem frame_eq (mem : Memory) (e : EntryPoint) (c : Category) (v : JsonValue json) :
    e.frame mem (json.argument c v) = .ok v.object.bytes :=
  EntryPoint.frame_eq mem json.convertible v c e (Eq.refl _) (Or.inl (Eq.refl _))
    (by simp [convertible, type]) (by simp [convertible, type])
    (by simp [convertible, type, CppType.toSize, classType])
    (by simp [convertible, type, CppType.isRange, classType])

theorem decode_eq (mem : Memory) (frame : Bytes) (old : JsonValue json) :
    json.decode mem frame old =
      let o := Object.ofBytes 16 (mem.read frame 0 16)
      ⟨o, json.read o, json.read_tag o⟩ := rfl

/-- The frame of a value with parts depends on where they are stored. -/
theorem frame_stored_eq_iff (mem : Memory) (e : EntryPoint) (c : Category) (d : json.Document)
    (pointer : (json.kind d).isPointer = true) (address other : Object 8) :
    e.frame mem (json.argument c (.stored d address)) =
        e.frame mem (json.argument c (.stored d other)) ↔ address = other := by
  rw [frame_eq, frame_eq, Except.ok.injEq, JsonValue.bytes_stored, JsonValue.bytes_stored,
    if_pos pointer, if_pos pointer, List.append_cancel_left_eq]
  exact ⟨Object.ext, congrArg Object.bytes⟩

/-- A text does not start with a tag. -/
theorem head_dump_ne (d : json.Document) (k : JsonKind) :
    (json.dump d).head? ≠ some k.tag := by
  obtain ⟨first, rest, text, printable⟩ := json.dump_printable d
  rw [text, List.head?_cons, Ne, Option.some.injEq]
  rintro rfl
  exact UInt8.not_lt.mpr printable k.tag_lt

theorem bytes_ne_dump (v : JsonValue json) (d : json.Document) (holds : v.document = some d) :
    v.object.bytes ≠ json.dump d := by
  intro same
  have tagged := v.tagged d holds
  rw [same] at tagged
  exact json.head_dump_ne d (json.kind d) tagged

theorem document_decode_dump_ne (mem : Memory) (d : json.Document) (old : JsonValue json) :
    (json.decode mem (json.dump d) old).document ≠ some d := by
  intro holds
  rw [decode_eq] at holds
  have tagged := json.read_tag _ d holds
  -- the first byte of the object is the first byte of the text
  obtain ⟨first, rest, text, -⟩ := json.dump_printable d
  have copied : (Object.ofBytes 16 (mem.read (json.dump d) 0 16)).bytes.head? = some first := by
    rw [Object.bytes_ofBytes 16 _ (mem.length_read _ 0 16), text, mem.head?_read first rest 15]
  refine json.head_dump_ne d (json.kind d) ?_
  rw [← tagged, copied, text, List.head?_cons]

end BasicJson

/-- No entry point makes the text of a JSON value, and no decoder makes a value of its text. -/
theorem json_never_text (json : BasicJson) (mem : Memory) (e : EntryPoint) (c : Category)
    (v : JsonValue json) (d : json.Document) (holds : v.document = some d) :
    ¬ e.Makes mem (json.argument c v) (json.dump d) ∧
      ∀ old, (json.decode mem (json.dump d) old).document ≠ some d := by
  refine ⟨?_, json.document_decode_dump_ne mem d⟩
  rintro ⟨made, -⟩
  rw [json.frame_eq, Except.ok.injEq] at made
  exact json.bytes_ne_dump v d holds made

/-- JSON strings of characters that need no escape. -/
def jsonStrings : BasicJson where
  Document := Bytes
  kind _ := .string
  inline _ := ⟨List.replicate 8 0, rfl⟩
  dump d := 34 :: (d ++ [34])
  parse bytes := some bytes.tail.dropLast
  parse_dump d := by simp
  dump_printable d := ⟨34, d ++ [34], by simp, by decide⟩
  place _ := ⟨List.replicate 8 0, rfl⟩
  read _ := none
  read_tag _ _ absent := by simp at absent

/-- The JSON string `"hi"` is sent as a tag and an address, another one for each place where it
is stored. -/
theorem json_hi_frames :
    let address : Object 8 := ⟨[1, 0, 0, 0, 0, 0, 0, 0], rfl⟩
    let other : Object 8 := ⟨[2, 0, 0, 0, 0, 0, 0, 0], rfl⟩
    let hi (a : Object 8) : JsonValue jsonStrings := .stored [104, 105] a
    jsonStrings.dump [104, 105] = [34, 104, 105, 34] ∧
      EntryPoint.send.frame .zero (jsonStrings.argument .lvalue (hi address)) =
        .ok [3, 0, 0, 0, 0, 0, 0, 0, 1, 0, 0, 0, 0, 0, 0, 0] ∧
      EntryPoint.send.frame .zero (jsonStrings.argument .lvalue (hi other)) =
        .ok [3, 0, 0, 0, 0, 0, 0, 0, 2, 0, 0, 0, 0, 0, 0, 0] ∧
      ¬ EntryPoint.send.Makes .zero (jsonStrings.argument .lvalue (hi address))
        (jsonStrings.dump [104, 105]) := by
  intro address other hi
  have sent := jsonStrings.frame_eq .zero .send .lvalue
  refine ⟨rfl, sent (hi address), sent (hi other), ?_⟩
  rintro ⟨made, -⟩
  rw [sent, Except.ok.injEq] at made
  exact absurd made (by decide)

/-- The string `"hi"` in `addArgument`. -/
theorem json_hi_not_text :
    let hi : JsonValue jsonStrings :=
      .stored [104, 105] ⟨[1, 0, 0, 0, 0, 0, 0, 0], rfl⟩
    ¬ EntryPoint.addArgument.Makes .zero (jsonStrings.argument .rvalue hi)
        (jsonStrings.dump [104, 105]) ∧
      ∀ old, (jsonStrings.decode .zero (jsonStrings.dump [104, 105]) old).document ≠
        some ([104, 105] : Bytes) :=
  json_never_text jsonStrings .zero .addArgument .rvalue _ [104, 105] rfl

end OfxZeroMQ
