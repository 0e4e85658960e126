import OfxZeroMQ.Model.EntryPoint

/-!
# `ofJson`

`ofJson` is `nlohmann::basic_json`, of which only the documented behaviour is known: its objects
consist of a type tag and a word, and `dump` and `parse` convert between values and texts. The
library has an encoder and a decoder for it, in templates whose parameter nothing deduces.
-/
namespace OfxZeroMQ

/-- `nlohmann::json::value_t` -/
inductive JsonKind where
  | null
  | object
  | array
  | string
  | boolean
  | numberInteger
  | numberUnsigned
  | numberFloat
  | binary
  | discarded
deriving DecidableEq

namespace JsonKind

def tag : JsonKind → UInt8
  | null => 0
  | object => 1
  | array => 2
  | string => 3
  | boolean => 4
  | numberInteger => 5
  | numberUnsigned => 6
  | numberFloat => 7
  | binary => 8
  | discarded => 9

/-- Whether the word of the object is a pointer to the parts of the value. -/
def isPointer : JsonKind → Bool
  | object | array | string | binary => true
  | _ => false

end JsonKind

/-- `basic_json`: the values, apart from where their parts are stored, and what is known of the
objects that hold them. -/
structure BasicJson where
  Document : Type
  kind : Document → JsonKind
  -- the word of a boolean or of a number
  inline : Document → Object 8
  dump : Document → Bytes
  parse : Bytes → Option Document
  parse_dump : ∀ d, parse (dump d) = some d
  -- a text starts with a printable character
  dump_printable : ∀ d, ∃ first rest, dump d = first :: rest ∧ 32 ≤ first
  -- where `parse` stores the parts of a value
  place : Document → Object 8
  -- the value of an object with these bytes, if they are those of a value
  read : Object 16 → Option Document
  read_tag : ∀ o d, read o = some d → o.bytes.head? = some (kind d).tag

/-- An object of type `ofJson`: its bytes, and the value that it holds. Bytes that were copied
into it may hold no value. -/
structure JsonValue (json : BasicJson) where
  object : Object 16
  document : Option json.Document
  tagged : ∀ d, document = some d → object.bytes.head? = some (json.kind d).tag

/-- The object of a value whose parts are stored at `address`. -/
def JsonValue.stored {json : BasicJson} (d : json.Document) (address : Object 8) :
    JsonValue json where
  object :=
    let word := if (json.kind d).isPointer then address else json.inline d
    ⟨((json.kind d).tag :: List.replicate 7 0) ++ word.bytes, by simp⟩
  document := some d
  tagged := by
    rintro _ ⟨⟩
    simp [Object.bytes]

@[simp] theorem JsonValue.bytes_stored {json : BasicJson} (d : json.Document)
    (address : Object 8) : (JsonValue.stored d address).object.bytes =
      (json.kind d).tag :: List.replicate 7 0 ++
        (if (json.kind d).isPointer then address else json.inline d).bytes := rfl

@[simp] theorem JsonValue.document_stored {json : BasicJson} (d : json.Document)
    (address : Object 8) : (JsonValue.stored d address).document = some d := rfl

namespace BasicJson

variable (json : BasicJson)

def classType : ClassType where
  Val := JsonValue json
  size := 16
  representation v := v.object
  overwrite o _ := ⟨o, json.read o, json.read_tag o⟩
  standardLayout := true
  -- its elements are `basic_json` objects, and not trivially copyable
  elements := none
  toSize := some .userDefined
  notSizeT := by decide
  toString := true
  defaultConstructible := true
  adl := none

def text : JsonText (JsonValue json) where
  dump v := (v.document.map json.dump).getD []
  parse bytes := (json.parse bytes).map fun d => .stored d (json.place d)

def type : CppType := .ofJson json.classType json.text

/-- `ofJson` as the type of an argument or of a destination. -/
def convertible : Convertible := json.type.unspecialized

def argument (c : Category) (v : JsonValue json) : Argument := ⟨json.convertible, c, v⟩

/-- `adl_converter<ofJson>::from_zmq_message(frame, old)` -/
def decode (mem : Memory) (frame : Bytes) (old : JsonValue json) : JsonValue json :=
  OfxZeroMQ.decode mem json.convertible frame old

end BasicJson

/-- `to_zmq_message(Message &, const ofJson &)`: `to_zmq_message(m, data.dump())` -/
def ToZmqMessage.ofJson {α : Type} (text : JsonText α) (m : Message) (data : α) : Message :=
  string m (text.dump data)

/-- `from_zmq_message(const Message &, ofJson &)`: `data = ofJson::parse(json_str)` -/
def FromZmqMessage.ofJson {α : Type} (text : JsonText α) (m : Message) : Option α :=
  text.parse (string m)

end OfxZeroMQ
