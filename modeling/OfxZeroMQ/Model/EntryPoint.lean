import OfxZeroMQ.Model.Socket

/-!
# Entry points

The expressions of the library that turn one value into a frame.
-/
namespace OfxZeroMQ

/-- An expression that encodes one value. A variadic call comes with the arguments before and
behind the value. -/
inductive EntryPoint where
  -- `m.from(v)`
  | fromValue
  -- `Message{v}`
  | construct
  -- `m = v`
  | assign
  -- `Socket::send(v)`
  | send
  | addArgument
  | addArguments (before after : List Argument)
  | sendMultipart (before after : List Argument)

namespace EntryPoint

/-- The frames the expression makes, that of the value among them. -/
def frames (mem : Memory) (a : Argument) : EntryPoint → Except Stuck (List Bytes)
  | fromValue => return [← encode mem a .fromValue]
  | construct => return [← encode mem a .construct]
  | assign => return [← encode mem a .assign]
  | send => match a.type.type, a.category, a.value with
    -- the overload for `MultipartMessage &`, which encodes nothing
    | .multipart, .lvalue, parts => return parts
    | _, _, _ => do
      let (_, o) ← Outbox.idle.sendValue mem true a.type a.value .default
      return o.calls.map SendCall.frame
  | addArgument => MultipartMessage.addArgument mem [] a
  | addArguments before after => MultipartMessage.addArguments mem [] (before ++ a :: after)
  | sendMultipart before after => do
    let (message, _) ← multipartToSend mem (before ++ a :: after)
    return message

def position : EntryPoint → Nat
  | addArguments before _ | sendMultipart before _ => before.length
  | _ => 0

/-- The encoding call that the value reaches. -/
def call : EntryPoint → Call
  | fromValue => .fromValue
  | construct | send | addArgument => .construct
  | assign => .assign
  | addArguments _ _ | sendMultipart _ _ => .function

/-- The category the value has in that call, where it was written with category `c`. -/
def category (c : Category) : EntryPoint → Category
  | send => .constLvalue
  | addArguments before _ | sendMultipart before _ => if before.isEmpty then c.named else c
  | _ => c

/-- What that call makes of the value. -/
def frame (mem : Memory) (e : EntryPoint) (a : Argument) : Except Stuck Bytes :=
  encode mem { a with category := e.category a.category } e.call

/-- The value's own call gives `bytes`, and they stand at the value's place in whatever the
whole expression makes. -/
def Makes (mem : Memory) (e : EntryPoint) (a : Argument) (bytes : Bytes) : Prop :=
  e.frame mem a = .ok bytes ∧ ∀ made, e.frames mem a = .ok made → made[e.position]? = some bytes

end EntryPoint

end OfxZeroMQ
