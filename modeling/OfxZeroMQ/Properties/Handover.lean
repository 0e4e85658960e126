import OfxZeroMQ.Model.Handover
import OfxZeroMQ.Properties.Encoding

/-!
# Whole messages keep their bytes

Every way to hand over a message copies it, except for the constructors that take an rvalue
that is not const. `Message`'s own takes the content over; the one for `zmq::message_t` moves
the other way round and loses it. A const rvalue goes to the forwarding constructor and is
copied.
-/
namespace OfxZeroMQ

open Foundation.Buffer Foundation.Traverse

/-- `x` was copied. -/
def Transfer.copied (t : Transfer) : Transfer := ⟨t.given, t.given⟩

/-- `x` was moved from. -/
def Transfer.moved (t : Transfer) : Transfer := ⟨t.given, .empty⟩

/-- The content of `x` was replaced by that of the message it should have filled. -/
def Transfer.movedBack (t : Transfer) : Transfer := ⟨.empty, t.filled⟩

/-- What the constructor for an rvalue leaves. -/
def Transfer.takenOver (t : Transfer) : MessageType → Transfer
  | .zmqMessage => t.movedBack
  | .message => t.moved

namespace MessageCtor

theorem handOver_base (mem : Memory) (t : Transfer) :
    base.handOver mem t = some t.copied := by
  have size : (t.filled.rebuildSize mem t.given.size).data.length = t.given.data.length :=
    Message.size_rebuildSize mem t.filled _
  have written := patch_append [] _ t.given.data [] size
  simp only [List.append_nil, List.nil_append, List.length_nil] at written
  simp [handOver, Transfer.copied, written]

theorem handOver_baseRvalue (mem : Memory) (t : Transfer) :
    baseRvalue.handOver mem t = some t.movedBack := rfl

theorem handOver_move (mem : Memory) (t : Transfer) : move.handOver mem t = some t.moved := rfl

end MessageCtor

namespace ToOverload

theorem handOver_zmqMessage (mem : Memory) (t : Transfer) :
    zmqMessage.handOver mem t = some t.copied := by
  have data := ToZmqMessage.zmqMessage_data mem t.filled t.given.data
  simp only [handOver, Transfer.copied, Option.some.injEq, Transfer.mk.injEq, and_true]
  exact congrArg Message.mk data

theorem handOver_message (mem : Memory) (t : Transfer) :
    message.handOver mem t = some t.copied := handOver_zmqMessage mem t

end ToOverload

/-- What an encoder that takes messages leaves. -/
def Transfer.after (t : Transfer) : Encoder → Transfer
  | .ctor .baseRvalue => t.movedBack
  | .ctor .move => t.moved
  | _ => t.copied

theorem Encoder.after_of_handOver (mem : Memory) (t left : Transfer) (e : Encoder)
    (taken : e.handOver mem t = some left) : left = t.after e := by
  cases e with
  | user => cases taken
  | ctor f =>
    cases f with
    | base => exact Option.some.inj (taken.symm.trans (MessageCtor.handOver_base mem t))
    | baseRvalue => exact Option.some.inj (taken.symm.trans (MessageCtor.handOver_baseRvalue mem t))
    | move => exact Option.some.inj (taken.symm.trans (MessageCtor.handOver_move mem t))
    | _ => cases taken
  | overload f =>
    cases f with
    | zmqMessage => exact Option.some.inj (taken.symm.trans (ToOverload.handOver_zmqMessage mem t))
    | message => exact Option.some.inj (taken.symm.trans (ToOverload.handOver_message mem t))
    | _ => cases taken

/-! ### Where a message ends up -/

/-- What `Call.resolve` finds for a message. -/
def MessageType.resolution (c : Category) (call : Call) : MessageType → Option Resolution
  | zmqMessage => match c, call with
    | .rvalue, .construct | .rvalue, .convert => some (.encoder (.ctor .baseRvalue))
    -- the overload for `zmq::message_t &&` calls on
    | .rvalue, _ => none
    | .constLvalue, .construct | .constLvalue, .convert => some (.encoder (.ctor .base))
    | _, _ => some (.encoder (.overload .zmqMessage))
  | message => match c, call with
    | .rvalue, .construct | .rvalue, .convert => some (.encoder (.ctor .move))
    -- the copy constructor and the copy assignment are deleted
    | .constLvalue, .construct | .constLvalue, .convert | .constLvalue, .assign => some .illFormed
    | _, _ => some (.encoder (.overload .message))

theorem MessageType.resolve_eq (k : MessageType) (c : Category) (call : Call) :
    call.resolve k.type.unspecialized c = k.resolution c call := by
  cases k <;> cases c <;> cases call <;> rfl

/-- An encoding that copies, or takes over, a message with the constructor for an rvalue. -/
theorem MessageType.resolution_encoder (k : MessageType) (c : Category) (call : Call)
    (e : Encoder) (found : k.resolution c call = some (.encoder e)) :
    (∀ t : Transfer, t.after e = t.copied) ∨
      c = .rvalue ∧ (call = .construct ∨ call = .convert) ∧
        ∀ t : Transfer, t.after e = t.takenOver k := by
  cases k <;> cases c <;> cases call <;> cases found <;>
    simp [Transfer.after, Transfer.takenOver]

theorem handOver_ends (mem : Memory) (k : MessageType) (c : Category) (call : Call)
    (t left : Transfer) (returned : handOver mem k c call t = .ok left) :
    ∃ e, k.resolution c call = some (.encoder e) ∧ left = t.after e := by
  rw [handOver, k.resolve_eq] at returned
  cases resolved : k.resolution c call with
  | none => simp [resolved] at returned
  | some r =>
    cases r with
    | illFormed => simp [resolved] at returned
    | encoder e =>
      refine ⟨e, rfl, e.after_of_handOver mem t left ?_⟩
      cases taken : e.handOver mem t with
      | none => simp [resolved, taken] at returned
      | some t => simpa [resolved, taken] using returned

/-- Only an rvalue is not copied, and only by a constructor. -/
theorem handOver_eq_ok (mem : Memory) (k : MessageType) (c : Category) (call : Call)
    (t left : Transfer) (returned : handOver mem k c call t = .ok left) :
    left = t.copied ∨ c = .rvalue ∧ (call = .construct ∨ call = .convert) ∧
      left = t.takenOver k := by
  obtain ⟨e, found, rfl⟩ := handOver_ends mem k c call t left returned
  rcases k.resolution_encoder c call e found with copies | ⟨rvalue, constructed, takes⟩
  · exact Or.inl (copies t)
  · exact Or.inr ⟨rvalue, constructed, takes t⟩

theorem handOver_encode (mem : Memory) (k : MessageType) (c : Category) (call : Call)
    (bytes : Bytes) :
    encode mem (k.argument c bytes) call =
      (handOver mem k c call ⟨.empty, ⟨bytes⟩⟩).map fun t => t.filled.data := by
  -- only the copy constructor is written differently on the two sides
  have base := MessageCtor.handOver_base mem ⟨.empty, ⟨bytes⟩⟩
  have same : call.resolve (k.argument c bytes).type (k.argument c bytes).category =
      k.resolution c call := by
    rw [← k.resolve_eq]
    cases k <;> rfl
  rw [encode, same, handOver, k.resolve_eq]
  cases k <;> cases c <;> cases call <;> first
    | rfl
    | simp [MessageType.resolution, MessageType.argument, Encoder.result, MessageCtor.result,
        CppType.asMessage, Encoder.handOver, base, Transfer.copied, Except.map]

/-! ### The calls -/

namespace Handover

variable (mem : Memory) (k : MessageType) (c : Category) (bytes : Bytes) (h : Handover)

theorem category_rvalue (moved : h.entryPoint.category c = .rvalue) : c = .rvalue := by
  cases h with
  | addArguments parts before after =>
    cases c with
    | rvalue => rfl
    | lvalue | constLvalue | constRvalue => cases before <;> cases moved
  | _ => exact moved

/-- The frame that `x` alone would make is the message that is filled, if that is a new one. -/
theorem frame_transfer (new : h.target = .empty) (t : Transfer)
    (transferred : h.transfer mem k c bytes = .ok t) :
    h.entryPoint.frame mem (k.argument c bytes) = .ok t.filled.data := by
  have passed : h.entryPoint.frame mem (k.argument c bytes) =
      encode mem (k.argument (h.entryPoint.category c) bytes) h.entryPoint.call := by
    cases k <;> rfl
  rw [transfer, new] at transferred
  rw [passed, handOver_encode, transferred]
  rfl

theorem run_eq_ok (made : Option Bytes) (left : Bytes)
    (returned : h.run mem k c bytes = .ok (made, left)) :
    ∃ t, h.transfer mem k c bytes = .ok t ∧ made = some t.filled.data ∧ left = t.given.data := by
  cases transferred : h.transfer mem k c bytes with
  | error e => cases h <;> simp [run, transferred] at returned
  | ok t =>
    refine ⟨t, rfl, ?_⟩
    have frame := fun new => frame_transfer mem k c bytes h new t transferred
    cases h with
    | construct | assign m | fromValue m =>
      simp only [run, transferred, ok_bind, pure_eq_ok, Except.ok.injEq,
        Prod.mk.injEq] at returned
      exact ⟨returned.1.symm, returned.2.symm⟩
    | addArgument parts =>
      have encoded : encode mem (k.argument c bytes) .construct = .ok t.filled.data := frame rfl
      simp only [run, transferred, MultipartMessage.addArgument, encoded, ok_bind, pure_eq_ok,
        Except.ok.injEq, Prod.mk.injEq] at returned
      exact ⟨by simp [← returned.1], returned.2.symm⟩
    | addArguments parts before after =>
      cases added : MultipartMessage.addArguments mem parts
          (before ++ k.argument c bytes :: after) with
      | error e => simp [run, transferred, added] at returned
      | ok message =>
        have place := EntryPoint.addArguments_place mem parts before after _ message added _
          (frame rfl)
        simp only [run, transferred, added, place, ok_bind, pure_eq_ok, Except.ok.injEq,
          Prod.mk.injEq] at returned
        exact ⟨returned.1.symm, returned.2.symm⟩

/-- Whenever the call returns, the message or frame it makes holds the bytes of `x`, and so
does `x` where it was passed as an lvalue or as a const rvalue. -/
def Keeps : Prop :=
  ∀ made left, h.run mem k c bytes = .ok (made, left) →
    made = some bytes ∧ (c ≠ .rvalue → left = bytes)

/-- `Message{std::move(x)}` with a `zmq::message_t` returns an empty message. -/
theorem run_lost (constructed : h.entryPoint.call = .construct) :
    h.run mem .zmqMessage .rvalue bytes = .ok (some [], []) := by
  cases h with
  | construct => rfl
  | addArgument parts =>
    have encoded : encode mem (MessageType.zmqMessage.argument .rvalue bytes) .construct =
      .ok [] := rfl
    have transferred : (addArgument parts).transfer mem .zmqMessage .rvalue bytes =
      .ok ⟨.empty, .empty⟩ := rfl
    simp [run, transferred, MultipartMessage.addArgument, encoded, Message.empty]
  | _ => simp [entryPoint, EntryPoint.call] at constructed

end Handover

/-- A whole message keeps its bytes, unless it is a `zmq::message_t` with any that is passed as
an rvalue, and not as a const one, to `Message`'s constructor or `addArgument`. -/
theorem handover_keeps_iff (mem : Memory) (k : MessageType) (c : Category) (bytes : Bytes)
    (h : Handover) :
    h.Keeps mem k c bytes ↔
      ¬ (k = .zmqMessage ∧ c = .rvalue ∧ h.entryPoint.call = .construct ∧ bytes ≠ []) := by
  constructor
  · rintro keeps ⟨rfl, rfl, constructed, nonempty⟩
    have lost := (keeps (some []) [] (h.run_lost mem bytes constructed)).1
    exact nonempty (Option.some.inj lost).symm
  · intro kept made left returned
    obtain ⟨t, transferred, rfl, rfl⟩ := h.run_eq_ok mem k c bytes made left returned
    rcases handOver_eq_ok mem k _ _ _ t transferred with rfl | ⟨moved, constructed, rfl⟩
    · exact ⟨rfl, fun _ => rfl⟩
    · have rvalue := h.category_rvalue c moved
      have built : h.entryPoint.call = .construct := by
        cases h <;> simp_all [Handover.entryPoint, EntryPoint.call]
      refine ⟨?_, absurd rvalue⟩
      cases k with
      | message => rfl
      | zmqMessage =>
        have nothing : bytes = [] := by
          by_contra nonempty
          exact kept ⟨rfl, rvalue, built, nonempty⟩
        rw [nothing]
        rfl

/-- `addArgument(std::move(x))` with a `zmq::message_t` of one byte adds an empty frame. -/
theorem zmqMessage_lost :
    (Handover.addArgument []).run .zero .zmqMessage .rvalue [1] = .ok (some [], []) ∧
      ¬ ∀ (k : MessageType) (c : Category) (bytes : Bytes) (h : Handover),
        h.Keeps .zero k c bytes := by
  have lost : (Handover.addArgument []).run .zero .zmqMessage .rvalue [1] =
    .ok (some [], []) := rfl
  refine ⟨lost, fun keeps => ?_⟩
  have same := (keeps .zmqMessage .rvalue [1] (.addArgument []) (some []) [] lost).1
  exact absurd same (by decide)

end OfxZeroMQ
