import OfxZeroMQ.Foundation.Overload
import OfxZeroMQ.Model.Message

/-!
# C++ types

What overload resolution and the encoders can see of the type of an argument, and the
values of each type. A value of fixed size is its object representation.
-/
namespace OfxZeroMQ

open Foundation.Overload (Rank)

/-- How an argument expression reaches a forwarding parameter. -/
inductive Category where
  | lvalue
  | constLvalue
  | rvalue
  -- such as `std::move(x)` of a const object
  | constRvalue
deriving DecidableEq

/-- The argument is a const object. -/
def Category.isConst : Category → Bool
  | constLvalue | constRvalue => true
  | lvalue | rvalue => false

def Category.isRvalue : Category → Bool
  | rvalue | constRvalue => true
  | lvalue | constLvalue => false

/-- A pair of user-written conversion functions. -/
structure Converter (α : Type) where
  toZmqMessage : α → Bytes
  fromZmqMessage : Bytes → α → α

/-- Decoding undoes encoding, whatever the destination held before. -/
def Converter.Undoes {α : Type} (c : Converter α) : Prop :=
  ∀ v old, c.fromZmqMessage (c.toZmqMessage v) old = v

theorem none_ne_exact : none ≠ some Rank.exact := (Option.some_ne_none _).symm

/-- A trivially copyable, standard-layout type other than `std::size_t` that is no array,
pointer or range; `toSize` ranks its implicit conversion to `std::size_t`. -/
structure FixedType where
  size : Nat
  positive : 0 < size
  toSize : Option Rank
  notSizeT : toSize ≠ some .exact
  defaultConstructible : Bool

/-- A trivially copyable, standard-layout element of an array, a vector or an image. -/
structure ElementType where
  size : Nat
  positive : 0 < size

/-- The sample type of an image, with the number of samples openFrameworks allocates for a
width, a height and a pixel format. -/
structure PixelType extends ElementType where
  count : Nat → Nat → Object 4 → Nat

/-- A class of the application. -/
structure ClassType where
  Val : Type
  size : Nat
  representation : Val → Object size
  -- the object after `memcpy` into it
  overwrite : Object size → Val → Val
  standardLayout : Bool
  -- the bytes from `begin()` to `end()`, when these are trivially copyable elements
  elements : Option (Val → Bytes)
  toSize : Option Rank
  notSizeT : toSize ≠ some .exact
  -- whether a conversion function leads to `std::string` or another class an overload takes
  toString : Bool
  defaultConstructible : Bool
  -- `to_zmq_message` and `from_zmq_message` in the namespace of the class
  adl : Option (Converter Val)

/-- `dump()` and `parse` of `ofJson`. -/
structure JsonText (α : Type) where
  dump : α → Bytes
  parse : Bytes → Option α

/-- A `const char *` and the characters before the terminator it points to. -/
structure CString where
  address : Object 8
  text : Bytes

/-- `ofRectangle`: the three floats of its position, its width and its height. -/
structure Rectangle where
  x : Object 4
  y : Object 4
  z : Object 4
  width : Object 4
  height : Object 4

/-- `ofPixels_<pix_type>`: the samples are the bytes `getData()` points to. -/
structure Pixels where
  width : Nat
  height : Nat
  format : Object 4
  samples : Bytes

structure SendFlag where
  nonblocking : Bool
  more : Bool
deriving DecidableEq

structure ReceiveFlag where
  nonblocking : Bool
deriving DecidableEq

/-- The types an argument or a destination can have. -/
inductive CppType : Type 1 where
  | sizeT
  | fixed (f : FixedType)
  | sendFlag
  | receiveFlag
  | pointer
  | array (e : ElementType) (count : Nat)
  | string
  | vector (e : ElementType)
  | ofRectangle
  | ofBuffer
  | ofPixels (p : PixelType)
  -- a class derived from `ofBaseHasPixels_<pix_type>`, such as `ofImage`
  | hasPixels (p : PixelType)
  | ofJson (c : ClassType) (text : JsonText c.Val)
  | zmqMessage
  | message
  | multipart
  | userClass (c : ClassType)

namespace CppType

@[reducible] def Val : CppType → Type
  | sizeT => Object 8
  | fixed f => Object f.size
  | sendFlag => SendFlag
  | receiveFlag => ReceiveFlag
  | pointer => CString
  | array e count => Object (e.size * count)
  | string => Bytes
  | vector e => List (Object e.size)
  | ofRectangle => Rectangle
  | ofBuffer => Bytes
  | ofPixels _ => Pixels
  | hasPixels _ => Pixels
  | ofJson c _ => c.Val
  | zmqMessage => Bytes
  | message => Bytes
  | multipart => List Bytes
  | userClass c => c.Val

def isStandardLayout : CppType → Bool
  | ofRectangle | ofPixels _ | hasPixels _ | multipart => false
  | ofJson c _ => c.standardLayout
  | userClass c => c.standardLayout
  | _ => true

/-- Whether `zmq::detail::is_range` holds and the elements are trivially copyable. -/
def isRange : CppType → Bool
  | array _ _ | string | vector _ | ofBuffer | ofPixels _ => true
  | ofJson c _ => c.elements.isSome
  | userClass c => c.elements.isSome
  | _ => false

def isPointer : CppType → Bool
  | pointer => true
  | _ => false

/-- The rank of the implicit conversion to `std::size_t`. -/
def toSize : CppType → Option Rank
  | sizeT => some .exact
  | fixed f => f.toSize
  | sendFlag | receiveFlag => some .userDefined
  | ofJson c _ => c.toSize
  -- the conversion function template of `Message` converts to anything
  | message => some .userDefined
  | userClass c => c.toSize
  | _ => none

/-- Whether `std::decay` of the type can be value-initialized. -/
def isDefaultConstructible : CppType → Bool
  | fixed f => f.defaultConstructible
  | userClass c => c.defaultConstructible
  | _ => true

end CppType

/-- A type with its specialization of `adl_converter`, if the program has one. -/
structure Convertible where
  type : CppType
  adlConverter : Option (Converter type.Val)

/-- A type the program has not specialized `adl_converter` for. -/
def CppType.unspecialized (t : CppType) : Convertible := ⟨t, none⟩

@[simp] theorem CppType.type_unspecialized (t : CppType) : t.unspecialized.type = t := rfl

@[simp] theorem CppType.adlConverter_unspecialized (t : CppType) :
    t.unspecialized.adlConverter = none := rfl

/-- An argument of one of the encoding functions. -/
structure Argument where
  type : Convertible
  category : Category
  value : type.type.Val

end OfxZeroMQ
