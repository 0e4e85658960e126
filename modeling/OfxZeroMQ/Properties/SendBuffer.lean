import OfxZeroMQ.Model.SendBuffer
import OfxZeroMQ.Properties.Encoding

/-!
# How much of a buffer is sent

Only a pointer selects the overload for a buffer and a length. An array is a value for the
template, which sends all of it and takes the length for the flag `nonblocking`.
-/
namespace OfxZeroMQ

open Foundation.Traverse

/-! ### The overload -/

namespace SendOverload

theorem selected_pointer (address : Object 8) (bytes : Bytes) (length : Length) :
    selected (.pointer address bytes) length = some .bytes := by
  cases length <;> rfl

/-- The array is converted for the pointer but not for the template, and an `int` is converted
for both. -/
theorem selected_array_int (e : ElementType) (count : Nat) (v : Object (e.size * count))
    (n : Int32) : selected (.array e count v) (.int n) = some .value := rfl

/-- Each overload converts one argument better, so that the call does not compile. -/
theorem selected_array_sizeT (e : ElementType) (count : Nat) (v : Object (e.size * count))
    (n : UInt64) : selected (.array e count v) (.sizeT n) = none := rfl

end SendOverload

/-! ### The call -/

theorem Outbox.sendBuffer_pointer (mem : Memory) (o : Outbox) (room : Bool)
    (address : Object 8) (bytes : Bytes) (length : Length) :
    o.sendBuffer mem room (.pointer address bytes) length =
      .ok (o.send room (mem.read bytes 0 length.toSizeT) SendFlag.default.toFlags) := by
  rw [sendBuffer, SendOverload.selected_pointer]
  simp only [sendBytes, SendBuffer.bytes]

theorem Outbox.sendBuffer_array (mem : Memory) (o : Outbox) (room : Bool) (e : ElementType)
    (count : Nat) (v : Object (e.size * count)) (n : Int32) :
    o.sendBuffer mem room (.array e count v) (.int n) =
      .ok (o.send room v.bytes (SendFlag.toFlags ⟨n != 0, false⟩)) := by
  have whole : encode mem ⟨(CppType.array e count).unspecialized, .constLvalue, v⟩ .construct =
      .ok v.bytes :=
    EntryPoint.frame_eq mem (CppType.array e count).unspecialized v .constLvalue .construct rfl
      (Or.inl rfl) (by simp) (by simp) (by simp [CppType.toSize]) (fun _ _ _ => rfl)
  rw [sendBuffer, SendOverload.selected_array_int]
  simp only [SendBuffer.type, SendBuffer.value, sendValue, CppType.type_unspecialized,
    CppType.isPointer, Bool.false_eq_true, if_false, whole, ok_bind, pure_eq_ok, Length.toBool]

theorem Outbox.sendBuffer_room (mem : Memory) (o : Outbox) (b : SendBuffer) (n : Int32) :
    ∃ size sent, o.sendBuffer mem true b (.int n) = .ok (some size, sent) := by
  cases b with
  | pointer address bytes =>
    rw [sendBuffer_pointer, send_accepted o true _ .default (by simp)]
    exact ⟨_, _, Eq.refl _⟩
  | array e count v =>
    rw [sendBuffer_array, send_accepted o true _ ⟨n != 0, false⟩ (by simp)]
    exact ⟨_, _, Eq.refl _⟩

theorem Outbox.send_some (o sent : Outbox) (room : Bool) (frame : Bytes) (flag : SendFlag)
    (size : Nat) (accepted : o.send room frame flag.toFlags = (some size, sent)) :
    sent.calls = o.calls ++ [⟨frame, flag.toFlags⟩] ∧
      sent.assembly = o.assembly.push (frame, flag.more) := by
  rw [send] at accepted
  split at accepted
  · rw [Prod.mk.injEq] at accepted
    rw [← accepted.2]
    simp
  · simp at accepted

/-- One frame has gone to the socket, and completes its message: the first `n` bytes of the
buffer. -/
def SendBuffer.SentExactly (b : SendBuffer) (n : Nat) (o sent : Outbox) : Prop :=
  (∃ flags, sent.calls = o.calls ++ [⟨b.bytes.take n, flags⟩]) ∧
    sent.assembly = o.assembly.push (b.bytes.take n, false)

theorem SendBuffer.sentExactly_iff (b : SendBuffer) (n : Nat) (o sent : Outbox) (frame : Bytes)
    (flags : Flags) (calls : sent.calls = o.calls ++ [⟨frame, flags⟩])
    (assembly : sent.assembly = o.assembly.push (frame, false)) :
    b.SentExactly n o sent ↔ frame = b.bytes.take n := by
  constructor
  · rintro ⟨⟨others, same⟩, -⟩
    rw [calls, List.append_cancel_left_eq, List.cons.injEq, SendCall.mk.injEq] at same
    exact same.1.1
  · rintro rfl
    exact ⟨⟨flags, calls⟩, assembly⟩

/-- A length between zero and the size of a buffer is the same number as a `std::size_t`. -/
theorem Length.toSizeT_int (n : Int32) (nonneg : 0 ≤ n.toInt) :
    (Length.int n).toSizeT = n.toInt.toNat := by
  have small : n.toInt < 2 ^ 31 := n.toInt_lt
  rw [toSizeT, Int.emod_eq_of_lt nonneg (by simp only [UInt64.size]; omega)]

/-- An accepted `send(buffer, n)` has sent the first `n` bytes exactly when the buffer is given
by a pointer, or `n` is the size of the array. -/
theorem send_buffer_exact_iff (mem : Memory) (o sent : Outbox) (room : Bool) (b : SendBuffer)
    (n : Int32) (nonneg : 0 ≤ n.toInt) (inside : n.toInt ≤ b.bytes.length) (size : Nat)
    (accepted : o.sendBuffer mem room b (.int n) = .ok (some size, sent)) :
    b.SentExactly n.toInt.toNat o sent ↔
      b.type.isPointer = true ∨ n.toInt = b.bytes.length := by
  cases b with
  | pointer address bytes =>
    refine iff_of_true ?_ (Or.inl (by simp [SendBuffer.type, CppType.isPointer]))
    rw [Outbox.sendBuffer_pointer, Except.ok.injEq] at accepted
    obtain ⟨calls, assembly⟩ := Outbox.send_some o sent room _ .default size accepted
    refine (SendBuffer.sentExactly_iff _ _ o sent _ _ calls assembly).mpr ?_
    have fits : 0 + n.toInt.toNat ≤ bytes.length := by
      simp only [SendBuffer.bytes] at inside
      omega
    rw [Length.toSizeT_int n nonneg, mem.read_eq_slice _ _ _ fits]
    simp [Foundation.Buffer.slice, SendBuffer.bytes]
  | array e count v =>
    rw [Outbox.sendBuffer_array, Except.ok.injEq] at accepted
    obtain ⟨calls, assembly⟩ := Outbox.send_some o sent room _ ⟨n != 0, false⟩ size accepted
    rw [SendBuffer.sentExactly_iff _ _ o sent _ _ calls assembly]
    simp only [SendBuffer.type, CppType.isPointer, Bool.false_eq_true, false_or]
    simp only [SendBuffer.bytes] at inside ⊢
    -- the frame is the whole array, which is its own part only if the part is everything
    rw [eq_comm, List.take_eq_self_iff]
    omega

/-- `send("abc", 2)` sends the four bytes of the literal. -/
theorem send_literal_whole :
    let b : SendBuffer := .array ⟨1, Nat.one_pos⟩ 4 ⟨[97, 98, 99, 0], rfl⟩
    ∃ sent, Outbox.idle.sendBuffer .zero true b (.int 2) = .ok (some 4, sent) ∧
      sent.calls.map SendCall.frame = [[97, 98, 99, 0]] ∧ ¬ b.SentExactly 2 .idle sent := by
  intro b
  have called := Outbox.sendBuffer_array .zero .idle true ⟨1, Nat.one_pos⟩ 4
    ⟨[97, 98, 99, 0], rfl⟩ 2
  refine ⟨_, called, by decide, ?_⟩
  rintro ⟨-, assembly⟩
  exact absurd assembly (by decide)

/-- The same literal by a pointer. -/
theorem send_pointer_exact :
    let b : SendBuffer := .pointer ⟨[0, 1, 0, 0, 0, 0, 0, 0], rfl⟩ [97, 98, 99, 0]
    ∃ size sent, Outbox.idle.sendBuffer .zero true b (.int 2) = .ok (some size, sent) ∧
      b.SentExactly 2 .idle sent := by
  intro b
  obtain ⟨size, sent, accepted⟩ := Outbox.sendBuffer_room .zero .idle b 2
  exact ⟨size, sent, accepted, (send_buffer_exact_iff .zero .idle sent true b 2 (by decide)
    (by decide) size accepted).mpr (Or.inl (by decide))⟩

end OfxZeroMQ
