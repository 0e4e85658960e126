import OfxZeroMQ.Foundation.Chain
import OfxZeroMQ.Model.Convert

/-!
# Which encoder runs

The constructors of `Message`, the overloads of `to_zmq_message` and of `from_zmq_message`
are overload sets. An encoding call walks through `Message`'s constructor, `operator=`,
`from`, `adl_converter` and the function object until one of them fills the frame.
-/
namespace OfxZeroMQ

open Foundation.Overload

/-! ### Binding an argument to a parameter -/

def byValue (r : Rank) : Conversion := ⟨r, none⟩

/-- `const X &` -/
def Category.constRef (c : Category) (r : Rank) : Conversion :=
  ⟨r, some ⟨false, !c.isConst⟩⟩

/-- `X &&` with a fixed `X` binds rvalues that are not const only. -/
def Category.rvalueRef (c : Category) (r : Rank) : Option Conversion :=
  if c = .rvalue then some ⟨r, some ⟨true, false⟩⟩ else none

/-- `type &&` with a deduced `type`, which is const where the argument is. -/
def Category.forwardingRef (c : Category) : Conversion :=
  ⟨.exact, some ⟨c.isRvalue, false⟩⟩

/-! ### Constructors of `Message` -/

/-- The constructors that one argument can select. -/
inductive MessageCtor where
  -- `explicit zmq::message_t(size_t)`, inherited
  | size
  -- `explicit zmq::message_t(const Range &)`, inherited
  | range
  -- `Message(const zmq::message_t &)`
  | base
  -- `Message(zmq::message_t &&)`
  | baseRvalue
  -- `Message(Message &&) = default`
  | move
  -- `Message(const Message &)`, implicitly deleted
  | copy
  -- `template <typename type> Message(type &&)`
  | forward
deriving DecidableEq

namespace MessageCtor

def all : List MessageCtor := [size, range, base, baseRvalue, move, copy, forward]

def isExplicit : MessageCtor → Bool
  | size | range => true
  | _ => false

/-- `const Range &` is more specialized than the forwarding `type &&`. -/
def template : MessageCtor → Option Nat
  | range => some 1
  | forward => some 0
  | _ => none

def conversion (t : CppType) (c : Category) : MessageCtor → Option Conversion
  | size => t.toSize.map byValue
  | range => if t.isRange then some (c.constRef .exact) else none
  | base => match t with
    | .zmqMessage => some (c.constRef .exact)
    | .message => some (c.constRef .conversion)
    | _ => none
  | baseRvalue => match t with
    | .zmqMessage => c.rvalueRef .exact
    | .message => c.rvalueRef .conversion
    | _ => none
  | move => match t with
    | .message => c.rvalueRef .exact
    | _ => none
  | copy => match t with
    | .message => some (c.constRef .exact)
    | _ => none
  | forward => some c.forwardingRef

/-- The constructor that `Message{v}` selects (`direct`), or the implicit conversion of `v`
to `Message`, which leaves the explicit constructors out. -/
def selected (direct : Bool) (t : CppType) (c : Category) : Option MessageCtor :=
  select all template fun f => if f.isExplicit && !direct then none else f.conversion t c

end MessageCtor

/-! ### Overloads of `to_zmq_message` -/

inductive ToOverload where
  -- `const zmq::message_t &`
  | zmqMessage
  -- `zmq::message_t &&`
  | zmqMessageRvalue
  -- `const Message &`
  | message
  -- `const std::string &`
  | string
  -- `const type &` for standard-layout types
  | standardLayout
  -- `const std::vector<type> &`
  | vector
  -- `const ofJson &`, in a template whose parameter nothing deduces
  | ofJson
  | ofBuffer
  | ofRectangle
  | ofPixels
  | hasPixels
  -- the function in the namespace of the argument's class
  | adl
deriving DecidableEq

namespace ToOverload

def all : List ToOverload :=
  [zmqMessage, zmqMessageRvalue, message, string, standardLayout, vector, ofJson, ofBuffer,
    ofRectangle, ofPixels, hasPixels, adl]

def template : ToOverload → Option Nat
  | standardLayout => some 0
  | vector | ofJson | ofPixels | hasPixels => some 1
  | _ => none

def conversion (t : CppType) (c : Category) : ToOverload → Option Conversion
  | zmqMessage => match t with
    | .zmqMessage => some (c.constRef .exact)
    | .message => some (c.constRef .conversion)
    | _ => none
  | zmqMessageRvalue => match t with
    | .zmqMessage => c.rvalueRef .exact
    | .message => c.rvalueRef .conversion
    | _ => none
  -- the unconstrained constructor template converts every type to `Message`
  | message => match t with
    | .message => some (c.constRef .exact)
    | _ => some (c.constRef .userDefined)
  | string => match t with
    | .string => some (c.constRef .exact)
    -- an array of other elements than `char` does not convert, but never comes to it either
    | .pointer | .array _ _ | .ofJson _ _ | .message => some (c.constRef .userDefined)
    | .userClass k => if k.toString then some (c.constRef .userDefined) else none
    | _ => none
  | standardLayout => if t.isStandardLayout then some (c.constRef .exact) else none
  | vector => match t with
    | .vector _ => some (c.constRef .exact)
    | _ => none
  | ofJson => none
  | ofBuffer => match t with
    | .ofBuffer => some (c.constRef .exact)
    | .string | .message => some (c.constRef .userDefined)
    | _ => none
  | ofRectangle => match t with
    | .ofRectangle => some (c.constRef .exact)
    | .message => some (c.constRef .userDefined)
    | _ => none
  | ofPixels => match t with
    | .ofPixels _ => some (c.constRef .exact)
    | _ => none
  | hasPixels => match t with
    | .hasPixels _ => some (c.constRef .conversion)
    | _ => none
  | adl => match t with
    | .userClass k => k.adl.map fun _ => c.constRef .exact
    | _ => none

def selected (t : CppType) (c : Category) : Option ToOverload :=
  select all template (conversion t c)

end ToOverload

/-! ### The chain of calls -/

/-- The functions an encoding call goes through. -/
inductive Call where
  -- `Message{v}`
  | construct
  -- the implicit conversion of `v` to `Message`
  | convert
  -- `Message::operator=`
  | assign
  -- `Message::from`
  | fromValue
  -- `adl_converter<type>::to_zmq_message`
  | converter
  -- `detail::to_zmq_message_fun::operator()`
  | function
deriving DecidableEq

instance : Fintype Call where
  elems := {.construct, .convert, .assign, .fromValue, .converter, .function}
  complete := by intro call; cases call <;> decide

inductive Encoder where
  | ctor (f : MessageCtor)
  | user
  | overload (f : ToOverload)
deriving DecidableEq

inductive Resolution where
  | encoder (e : Encoder)
  -- the call does not compile
  | illFormed
deriving DecidableEq

namespace Call

/-- The forwarding constructor calls `from`; the copy constructor is deleted. -/
def ofCtor : Option MessageCtor → Resolution ⊕ Call
  | some .forward => .inr fromValue
  | some .copy | none => .inl .illFormed
  | some f => .inl (.encoder (.ctor f))

/-- The overload for `zmq::message_t &&` is written with `operator=`. The overload for
`const Message &` converts any other argument to a `Message` first. -/
def ofOverload (t : CppType) : Option ToOverload → Resolution ⊕ Call
  | some .zmqMessageRvalue => .inr assign
  | some .message => match t with
    | .message => .inl (.encoder (.overload .message))
    | _ => .inr convert
  | some f => .inl (.encoder (.overload f))
  | none => .inl .illFormed

/-- One call. The argument is forwarded with its category; `adl_converter<type>` is the
specialization only where `type` is deduced without a reference and without `const`, that is
for rvalues that are not const. -/
def next (t : Convertible) (c : Category) : Call → Resolution ⊕ Call
  | construct => ofCtor (MessageCtor.selected true t.type c)
  | convert => ofCtor (MessageCtor.selected false t.type c)
  -- the implicit copy assignment of `Message` is deleted, and takes const lvalues only: the
  -- template takes a const rvalue by `const Message &&`
  | assign => match t.type, c with
    | .message, .constLvalue => .inl .illFormed
    | _, _ => .inr fromValue
  | fromValue => .inr converter
  | converter => match c, t.adlConverter with
    | .rvalue, some _ => .inl (.encoder .user)
    | _, _ => .inr function
  | function => ofOverload t.type (ToOverload.selected t.type c)

/-- The encoder that `call` ends in; `none` when the calls go round in circles. -/
def resolve (t : Convertible) (c : Category) (call : Call) : Option Resolution :=
  Foundation.Chain.run (next t c) (Fintype.card Call) call

end Call

/-! ### The frame -/

inductive Stuck where
  | illFormed
  | diverges
deriving DecidableEq

/-- The number a `std::size_t` object holds. -/
def CppType.asSize : (t : CppType) → t.Val → Option Nat
  | .sizeT, v => some (littleEndian v.bytes)
  | _, _ => none

/-- The bytes of the elements from `begin()` to `end()`. -/
def CppType.asRange : (t : CppType) → t.Val → Option Bytes
  | .array _ _, v => some v.bytes
  | .string, v => some v
  | .vector _, v => some (v.map Object.bytes).flatten
  | .ofBuffer, v => some v
  | .ofPixels _, v => some v.samples
  | .ofJson c _, v => c.elements.map fun f => f v
  | .userClass c, v => c.elements.map fun f => f v
  | _, _ => none

def CppType.asMessage : (t : CppType) → t.Val → Option Bytes
  | .zmqMessage, v => some v
  | .message, v => some v
  | _, _ => none

/-- The message a constructor leaves. `Message(zmq::message_t &&mom)` calls
`mom.move(*this)`, which moves the other way round. -/
def MessageCtor.result (mem : Memory) (t : CppType) (v : t.Val) : MessageCtor → Option Message
  | .size => (t.asSize v).map (Message.empty.rebuildSize mem)
  | .range => (t.asRange v).map Message.mk
  | .base => (t.asMessage v).map Message.empty.rebuild
  | .baseRvalue => some Message.empty
  | .move => (t.asMessage v).map Message.mk
  | .copy | .forward => none

/-- The message an overload leaves in a default-constructed one. -/
def ToOverload.result (mem : Memory) (t : CppType) (v : t.Val) (f : ToOverload) :
    Option Message :=
  match f, t, v with
  | .zmqMessage, .zmqMessage, v => some (ToZmqMessage.zmqMessage mem .empty v)
  | .message, .message, v => some (ToZmqMessage.message mem .empty v)
  | .string, .string, v => some (ToZmqMessage.string .empty v)
  | .standardLayout, t, v => (t.representation v).map (ToZmqMessage.standardLayout .empty)
  | .vector, .vector _, v => some (ToZmqMessage.vector .empty v)
  | .ofBuffer, .ofBuffer, v => some (ToZmqMessage.ofBuffer .empty v)
  | .ofRectangle, .ofRectangle, v => some (ToZmqMessage.ofRectangle mem .empty v)
  | .ofPixels, .ofPixels _, v => some (ToZmqMessage.ofPixels mem .empty v)
  | .hasPixels, .hasPixels _, v => some (ToZmqMessage.hasPixels mem .empty v)
  | .adl, .userClass k, v => k.adl.map fun c => ⟨c.toZmqMessage v⟩
  | _, _, _ => none

def Encoder.result (mem : Memory) (t : Convertible) (v : t.type.Val) : Encoder → Option Message
  | .ctor f => f.result mem t.type v
  | .user => t.adlConverter.map fun c => ⟨c.toZmqMessage v⟩
  | .overload f => f.result mem t.type v

/-- The frame that a chain of calls starting at `call` makes of an argument. -/
def encode (mem : Memory) (a : Argument) (call : Call) : Except Stuck Bytes :=
  match call.resolve a.type a.category with
  | none => .error .diverges
  | some .illFormed => .error .illFormed
  | some (.encoder e) => match e.result mem a.type a.value with
    | some m => .ok m.data
    | none => .error .illFormed

/-! ### Decoding -/

inductive FromOverload where
  -- `zmq::message_t &`
  | zmqMessage
  | message
  | string
  | standardLayout
  | vector
  -- `ofJson &`, in a template whose parameter nothing deduces
  | ofJson
  | ofBuffer
  | ofRectangle
  | ofPixels
  | hasPixels
  | adl
deriving DecidableEq

namespace FromOverload

def all : List FromOverload :=
  [zmqMessage, message, string, standardLayout, vector, ofJson, ofBuffer, ofRectangle, ofPixels,
    hasPixels, adl]

def template : FromOverload → Option Nat
  | standardLayout => some 0
  | vector | ofJson | ofPixels | hasPixels => some 1
  | _ => none

/-- A destination is a non-const lvalue, and binds to a reference to its own type or to a
base class. -/
def conversion (t : CppType) (f : FromOverload) : Option Conversion :=
  let ref (r : Rank) : Conversion := ⟨r, some ⟨false, false⟩⟩
  match f, t with
  | .zmqMessage, .zmqMessage => some (ref .exact)
  | .zmqMessage, .message => some (ref .conversion)
  | .message, .message => some (ref .exact)
  | .string, .string => some (ref .exact)
  | .standardLayout, t => if t.isStandardLayout then some (ref .exact) else none
  | .vector, .vector _ => some (ref .exact)
  | .ofBuffer, .ofBuffer => some (ref .exact)
  | .ofRectangle, .ofRectangle => some (ref .exact)
  | .ofPixels, .ofPixels _ => some (ref .exact)
  | .hasPixels, .hasPixels _ => some (ref .conversion)
  | .adl, .userClass k => k.adl.map fun _ => ref .exact
  | _, _ => none

def selected (t : CppType) : Option FromOverload := select all template (conversion t)

/-- The destination after the overload has run. -/
def store (mem : Memory) (m : Message) (t : CppType) (old : t.Val) (f : FromOverload) : t.Val :=
  match f, t, old with
  | .zmqMessage, .zmqMessage, _ => FromZmqMessage.zmqMessage m
  | .message, .message, _ => FromZmqMessage.message m
  | .string, .string, _ => FromZmqMessage.string m
  | .standardLayout, t, old => FromZmqMessage.standardLayout mem m t old
  | .vector, .vector e, _ => FromZmqMessage.vector m e
  | .ofBuffer, .ofBuffer, _ => FromZmqMessage.ofBuffer m
  | .ofRectangle, .ofRectangle, old => FromZmqMessage.ofRectangle mem m old
  | .ofPixels, .ofPixels p, _ => FromZmqMessage.ofPixels mem m p
  | .hasPixels, .hasPixels p, _ => FromZmqMessage.hasPixels mem m p
  | .adl, .userClass k, old => match k.adl with
    | some c => c.fromZmqMessage m.data old
    | none => old
  | _, _, old => old

end FromOverload

/-- Whether `adl_converter<type>::from_zmq_message` has a definition for the type. -/
def Convertible.isDecodable (t : Convertible) : Bool :=
  t.adlConverter.isSome || (FromOverload.selected t.type).isSome

/-- `adl_converter<type>::from_zmq_message(frame, old)`; the decoding side names the plain
type, so a specialization is always found. -/
def decode (mem : Memory) (t : Convertible) (frame : Bytes) (old : t.type.Val) : t.type.Val :=
  match t.adlConverter with
  | some c => c.fromZmqMessage frame old
  | none => match FromOverload.selected t.type with
    | some f => f.store mem ⟨frame⟩ t.type old
    | none => old

end OfxZeroMQ
