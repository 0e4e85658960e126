import OfxZeroMQ.Model.Dispatch

/-!
# Multipart messages

`MultipartMessage` is a list of frames. Arguments are encoded into frames one by one;
destinations are decoded from frames by recursion on the list of destinations.
-/
namespace OfxZeroMQ

open Foundation.Overload

abbrev MultipartMessage := List Bytes

/-- A named parameter is an lvalue, also when it was declared `type &&`. -/
def Category.named : Category → Category
  | .rvalue => .lvalue
  | .constRvalue => .constLvalue
  | c => c

def Argument.named (a : Argument) : Argument := { a with category := a.category.named }

namespace MultipartMessage

/-- `add(std::move(Message{std::forward<type>(data)}))` -/
def addArgument (mem : Memory) (parts : MultipartMessage) (data : Argument) :
    Except Stuck MultipartMessage := do
  let m ← encode mem data .construct
  return parts ++ [m]

/-- `convert` calls the function object `to_zmq_message`, not `adl_converter`. -/
def convert (mem : Memory) (data : Argument) : Except Stuck Bytes := encode mem data .function

/-- The first argument is passed on by name, the others are forwarded. -/
def addArguments (mem : Memory) (parts : MultipartMessage) :
    List Argument → Except Stuck MultipartMessage
  | [] => .error .illFormed
  | datum :: data => do
    let first ← convert mem datum.named
    let others ← data.mapM (convert mem)
    return parts ++ first :: others

end MultipartMessage

/-! ### Construction -/

/-- The constructors of `MultipartMessage` that one argument can select. -/
inductive MultipartCtor where
  -- implicitly declared
  | move
  -- implicitly deleted
  | copy
  -- `template <typename type, typename ... types> MultipartMessage(type &&, types && ...)`
  | forward
deriving DecidableEq

namespace MultipartCtor

def all : List MultipartCtor := [move, copy, forward]

def template : MultipartCtor → Option Nat
  | forward => some 0
  | _ => none

def conversion (t : CppType) (c : Category) : MultipartCtor → Option Conversion
  | move => match t with
    | .multipart => c.rvalueRef .exact
    | _ => none
  | copy => match t with
    | .multipart => some (c.constRef .exact)
    | _ => none
  | forward => some c.forwardingRef

def selected (t : CppType) (c : Category) : Option MultipartCtor :=
  select all template (conversion t c)

end MultipartCtor

namespace MultipartMessage

/-- `MultipartMessage{data ...}` -/
def construct (mem : Memory) : List Argument → Except Stuck MultipartMessage
  | [] => .ok []
  | [a] => match MultipartCtor.selected a.type.type a.category, a.type.type, a.value with
    | some .move, .multipart, parts => .ok parts
    | some .forward, _, _ => addArguments mem [] [a]
    | _, _, _ => .error .illFormed
  | args => addArguments mem [] args

end MultipartMessage

/-! ### Decoding into destinations -/

/-- A variable a frame can be decoded into, with the number of times that has happened. -/
structure Destination where
  type : Convertible
  value : type.type.Val
  writes : Nat

def Destination.store (mem : Memory) (d : Destination) (frame : Bytes) : Destination :=
  { d with value := decode mem d.type frame d.value, writes := d.writes + 1 }

namespace MultipartMessage

/-- `convertTo(n, data, others ...)` -/
def convertToFrom (mem : Memory) (parts : MultipartMessage) (n : Nat) :
    List Destination → Bool × List Destination
  | [] => (false, [])
  | [data] => match parts[n]? with
    | some frame => (true, [data.store mem frame])
    | none => (false, [data])
  | data :: other :: others => match parts[n]? with
    | some frame =>
      if n + 1 < parts.length then
        let (result, rest) := parts.convertToFrom mem (n + 1) (other :: others)
        (result, data.store mem frame :: rest)
      else (false, data.store mem frame :: other :: others)
    | none => (false, data :: other :: others)

/-- `rangedConvertTo(n, from, to, data, others ...)`, where `to` is `stop`; the result is `none`
where the source returns without a value. Behind the first destination the unranged `convertTo`
takes over. -/
def rangedConvertToFrom (mem : Memory) (parts : MultipartMessage) (n stop : Nat) :
    List Destination → Option Bool × List Destination
  | [] => (some false, [])
  | [data] =>
    if stop = n then (some false, [data])
    else match parts[n]? with
      | some frame => (some true, [data.store mem frame])
      | none => (some false, [data])
  | data :: other :: others =>
    if stop = n then (none, data :: other :: others)
    else match parts[n]? with
      | some frame =>
        if n + 1 < parts.length then
          let (result, rest) := parts.convertToFrom mem (n + 1) (other :: others)
          (some result, data.store mem frame :: rest)
        else (some false, data.store mem frame :: other :: others)
      | none => (some false, data :: other :: others)

/-- `rangedConvertTo(from, to, data ...)`: a range that does not match is only logged. -/
def rangedConvertTo (mem : Memory) (parts : MultipartMessage) (first stop : Nat)
    (data : List Destination) : Option Bool × List Destination :=
  parts.rangedConvertToFrom mem first stop data

/-- `m[index].to(data)` -/
def argumentTo (mem : Memory) (parts : MultipartMessage) (index : Nat) (data : Destination) :
    Destination :=
  match parts[index]? with
  | some frame => data.store mem frame
  | none => data

/-- `m[index].get<type>()`; `data` is what the local variable held before. -/
def get (mem : Memory) (parts : MultipartMessage) (index : Nat) (t : Convertible)
    (data : t.type.Val) : t.type.Val :=
  match parts[index]? with
  | some frame => decode mem t frame data
  | none => data

/-- `type x = m[index]`, by `ArgumentConverter::operator type` -/
def operatorType (mem : Memory) (parts : MultipartMessage) (index : Nat) (t : Convertible)
    (data : t.type.Val) : t.type.Val :=
  parts.get mem index t data

end MultipartMessage

/-- `Message::get<type>()`; `v` is what the local variable held before. -/
def Message.get (mem : Memory) (m : Message) (t : Convertible) (v : t.type.Val) : t.type.Val :=
  decode mem t m.data v

/-- The `convertTo` templates a call from outside the class can select. -/
inductive ConvertTo where
  -- `convertTo(types & ...)`, public
  | variadic
  -- `convertTo(std::size_t, type &)`, protected
  | last
  -- `convertTo(std::size_t, type &, types & ...)`, protected
  | step
deriving DecidableEq

namespace ConvertTo

def all : List ConvertTo := [variadic, last, step]

def template : ConvertTo → Option Nat
  | variadic => some 0
  | step => some 1
  | last => some 2

/-- The overloads differ in their first parameter only. -/
def conversion (types : List CppType) : ConvertTo → Option Conversion
  | variadic => if types.isEmpty then none else some ⟨.exact, some ⟨false, false⟩⟩
  | last => match types with
    | [t, _] => t.toSize.map fun r => ⟨r, none⟩
    | _ => none
  | step => match types with
    | t :: _ :: _ => t.toSize.map fun r => ⟨r, none⟩
    | _ => none

/-- Whether `convertTo(data ...)` compiles outside the class: a first destination of type
`std::size_t` selects a protected overload. -/
def isAccessible (types : List CppType) : Bool :=
  select all template (conversion types) == some variadic

end ConvertTo

end OfxZeroMQ
