import OfxZeroMQ.Foundation.Simulation
import OfxZeroMQ.Model.Assignment
import OfxZeroMQ.Properties.Handover

/-!
# Assignment has value semantics between different messages

An assignment ends in the overload that rebuilds its target and copies the source. Between two
objects that is an assignment of byte strings. A message that is assigned to itself keeps its
bytes where they lie in the object, and is left with those of a fresh buffer where they do not.
-/
namespace OfxZeroMQ

open Foundation Foundation.Buffer

/-! ### One message object -/

namespace MessageObject

theorem length_take_vsm (data : Object maxVsmSize) (size : Fin (maxVsmSize + 1)) :
    (data.bytes.take size).length = size := by
  rw [List.length_take, data.length_bytes]
  exact Nat.min_eq_left (Nat.le_of_lt_succ size.isLt)

/-- A message that holds its bytes in the object has no more of them than fit. -/
theorem size_le_of_isVsm (m : MessageObject) (inside : m.isVsm = true) :
    m.data.length ≤ maxVsmSize := by
  cases m with
  | vsm buffer size =>
    rw [data, length_take_vsm]
    exact Nat.le_of_lt_succ size.isLt
  | pointed content => simp [isVsm] at inside

theorem size_rebuildSize (mem : Memory) (m : MessageObject) (size : Nat) :
    (m.rebuildSize mem size).data.length = size := by
  rw [rebuildSize]
  split
  · rw [data, length_take_vsm]
  · simp [data]

theorem isVsm_rebuildSize (mem : Memory) (m : MessageObject) (size : Nat) :
    (m.rebuildSize mem size).isVsm = decide (size ≤ maxVsmSize) := by
  rw [rebuildSize]
  split <;> simp_all [isVsm]

theorem isVsm_memCopyFrom (m : MessageObject) (v : Bytes) (offset : Nat) :
    (m.memCopyFrom v offset).isVsm = m.isVsm := by
  rw [memCopyFrom]
  split
  · rfl
  · cases m <;> rfl

/-- A copy that fills the whole message leaves exactly what was copied. -/
theorem data_memCopyFrom (m : MessageObject) (v : Bytes) (same : m.data.length = v.length) :
    (m.memCopyFrom v 0).data = v := by
  have fits : ¬ m.size < sizeT (0 + v.length) := by
    have bound := Message.sizeT_le (0 + v.length)
    rw [size, same]
    omega
  rw [memCopyFrom, if_neg fits]
  cases m with
  | pointed content =>
    have whole := patch_append [] content v [] same
    simpa [write, data] using whole
  | vsm buffer size =>
    rw [data, length_take_vsm] at same
    have written := patch_append [] (buffer.bytes.take size) v (buffer.bytes.drop size)
      (by rw [length_take_vsm, same])
    rw [List.nil_append, List.take_append_drop, List.length_nil, List.nil_append] at written
    rw [write, written, data, Object.bytes_ofBytes]
    · rw [same, List.take_left]
    · have length := length_patch buffer.bytes v 0
      rwa [written, buffer.length_bytes] at length

/-- Bytes in the object outlive `rebuild`. -/
theorem data_rebuildSize_vsm (mem : Memory) (m : MessageObject) (inside : m.isVsm = true) :
    (m.rebuildSize mem m.size).data = m.data := by
  have small : m.size ≤ maxVsmSize := m.size_le_of_isVsm inside
  rw [rebuildSize, dif_pos small]
  cases m with
  | vsm buffer size => simp only [MessageObject.size, data, vsmData, length_take_vsm]
  | pointed content => simp [isVsm] at inside

/-- Bytes that the object points to do not. -/
theorem data_rebuildSize_pointed (mem : Memory) (m : MessageObject) (outside : m.isVsm = false)
    (size : Nat) : (m.rebuildSize mem size).data = (List.range size).map mem.fresh := by
  cases m with
  | vsm buffer count => simp [isVsm] at outside
  | pointed content =>
    rw [rebuildSize]
    split
    · rename_i small
      rw [data, vsmData, Object.bytes_ofBytes _ _ (by simp), ← List.map_take, List.take_range,
        Nat.min_eq_left small]
    · rfl

end MessageObject

namespace Pool

variable {n : Nat}

/-- The byte strings that the messages hold. -/
def contents (pool : Pool n) : Fin n → Bytes := fun i => (pool i).data

theorem contents_update (pool : Pool n) (i : Fin n) (m : MessageObject) :
    contents (Function.update pool i m) = Function.update pool.contents i m.data :=
  Function.comp_update MessageObject.data pool i m

/-- The target ends up with the bytes that the source holds once the target is rebuilt. -/
theorem contents_message (mem : Memory) (pool : Pool n) (m data : Fin n) :
    (message mem pool m data).contents = Function.update pool.contents m
      (Function.update pool m ((pool m).rebuildSize mem (pool data).size) data).data := by
  have whole : ((pool m).rebuildSize mem (pool data).size).data.length =
      (Function.update pool m ((pool m).rebuildSize mem (pool data).size) data).data.length := by
    rw [MessageObject.size_rebuildSize]
    rcases eq_or_ne data m with rfl | different
    · rw [Function.update_self, MessageObject.size_rebuildSize]
    · rw [Function.update_of_ne different, MessageObject.size]
  rw [message, zmqMessage, Function.update_self, contents_update, contents_update,
    Function.update_idem, MessageObject.data_memCopyFrom _ _ whole]

theorem contents_message_of_ne (mem : Memory) (pool : Pool n) (m data : Fin n)
    (different : data ≠ m) :
    (message mem pool m data).contents = Function.update pool.contents m (pool.contents data) := by
  rw [contents_message, Function.update_of_ne different, contents]

theorem contents_message_self (mem : Memory) (pool : Pool n) (m : Fin n) :
    (message mem pool m m).contents =
      Function.update pool.contents m ((pool m).rebuildSize mem (pool m).size).data := by
  rw [contents_message, Function.update_self]

theorem assign_eq (mem : Memory) (pool : Pool n) (a : Assignment n) :
    pool.assign mem a = some (pool.message mem a.target a.source) := by
  have resolved : Call.assign.resolve CppType.message.unspecialized a.category =
      some (.encoder (.overload .message)) := by
    rw [show CppType.message = MessageType.message.type from rfl, MessageType.resolve_eq]
    cases moved : a.moved <;> simp [Assignment.category, MessageType.resolution, moved]
  rw [assign, resolved]

end Pool

/-! ### The same assignments on byte strings -/

/-- The bytes of a message, and whether they lie in the object itself. -/
structure Holding where
  bytes : Bytes
  inside : Bool

def MessageObject.holding (m : MessageObject) : Holding := ⟨m.data, m.isVsm⟩

namespace Pool

variable {n : Nat}

def holdings (pool : Pool n) : Fin n → Holding := fun i => (pool i).holding

end Pool

namespace Assignment

variable {n : Nat}

def onBytes (values : Fin n → Bytes) (a : Assignment n) : Fin n → Bytes :=
  Function.update values a.target (values a.source)

/-- The target takes the bytes of the source, and takes them into the object if they fit. -/
def onHoldings (held : Fin n → Holding) (a : Assignment n) : Fin n → Holding :=
  Function.update held a.target
    ⟨(held a.source).bytes, decide ((held a.source).bytes.length ≤ maxVsmSize)⟩

/-- A message is assigned to itself only while its bytes lie in the object, or it has none. -/
def SparesItself (held : Fin n → Holding) (a : Assignment n) : Prop :=
  a.target = a.source → (held a.target).inside = true ∨ (held a.target).bytes = []

/-- Such an assignment keeps the bytes of every message. -/
theorem contents_message_of_spares (mem : Memory) (pool : Pool n) (a : Assignment n)
    (spares : a.SparesItself pool.holdings) :
    (pool.message mem a.target a.source).contents = onBytes pool.contents a := by
  rcases eq_or_ne a.source a.target with same | different
  · have kept : ((pool a.target).rebuildSize mem (pool a.target).size).data =
        pool.contents a.target := by
      rcases spares same.symm with inside | empty
      · exact (pool a.target).data_rebuildSize_vsm mem inside
      · have nothing : (pool a.target).size = 0 := by
          rw [MessageObject.size, show (pool a.target).data = [] from empty, List.length_nil]
        have length := (pool a.target).size_rebuildSize mem (pool a.target).size
        rw [nothing] at length ⊢
        rw [List.eq_nil_of_length_eq_zero length, Pool.contents,
          show (pool a.target).data = [] from empty]
    rw [same, Pool.contents_message_self, kept, onBytes, same]
  · rw [Pool.contents_message_of_ne mem pool _ _ different, onBytes]

theorem stepRefines_iff (pool : Pool n) (a : Assignment n) :
    Simulation.StepRefines Pool.assign onBytes Pool.contents pool a ↔
      a.SparesItself pool.holdings := by
  constructor
  · intro refines same
    by_contra lost
    rw [not_or, Bool.not_eq_true] at lost
    obtain ⟨outside, nonempty⟩ := lost
    -- the fresh buffer holds something else than the message did
    obtain ⟨mem, other⟩ := Memory.exists_fresh_ne (pool.contents a.target) nonempty
      (pool a.target).size
    obtain ⟨t, assigned, holds⟩ := refines mem
    rw [Pool.assign_eq, Option.some.injEq] at assigned
    rw [← assigned, ← same, Pool.contents_message_self, onBytes, ← same,
      (pool a.target).data_rebuildSize_pointed mem outside] at holds
    have target := congrFun holds a.target
    rw [Function.update_self, Function.update_self] at target
    exact other target
  · intro spares mem
    exact ⟨_, Pool.assign_eq mem pool a, contents_message_of_spares mem pool a spares⟩

/-- Which messages hold their bytes in the object follows from the assignments alone. -/
theorem holdings_assign (mem : Memory) (pool t : Pool n) (a : Assignment n)
    (spares : a.SparesItself pool.holdings) (assigned : pool.assign mem a = some t) :
    t.holdings = onHoldings pool.holdings a := by
  rw [Pool.assign_eq, Option.some.injEq] at assigned
  have contents := contents_message_of_spares mem pool a spares
  rw [assigned] at contents
  funext i
  have bytes : (t i).data = onBytes pool.contents a i := congrFun contents i
  rcases eq_or_ne i a.target with rfl | other
  · have inside : (t a.target).isVsm =
        decide ((pool a.source).data.length ≤ maxVsmSize) := by
      rw [← assigned, Pool.message, Pool.zmqMessage, Function.update_self, Function.update_self,
        MessageObject.isVsm_memCopyFrom, MessageObject.isVsm_rebuildSize, MessageObject.size]
    rw [onBytes, Function.update_self] at bytes
    rw [onHoldings, Function.update_self, Pool.holdings, MessageObject.holding, bytes, inside]
    rfl
  · have untouched : t i = pool i := by
      rw [← assigned, Pool.message, Pool.zmqMessage, Function.update_idem,
        Function.update_of_ne other]
    rw [onHoldings, Function.update_of_ne other, Pool.holdings, Pool.holdings, untouched]

end Assignment

/-- Whatever the fresh buffers hold, the messages of a pool go through the same contents as byte
strings that are assigned in their place, exactly when no message is assigned to itself while it
has bytes outside of the object, as every message of more than 33 bytes has. -/
theorem assignments_keep_values_iff {n : Nat} (pool : Pool n) (as : List (Assignment n)) :
    Simulation.Refines Pool.assign Assignment.onBytes Pool.contents pool as ↔
      Transition.Meets (fun held a => some (Assignment.onHoldings held a))
        (fun held a => Assignment.SparesItself held a) pool.holdings as :=
  haveI : Nonempty Memory := ⟨default⟩
  Simulation.refines_iff Pool.assign Assignment.onBytes Pool.contents Pool.holdings
    Assignment.onHoldings (fun held a => a.SparesItself held) Assignment.stepRefines_iff
    (fun mem pool t a => Assignment.holdings_assign mem pool t a) pool as

/-- After `m = m` a message of 34 bytes holds those of its fresh buffer. -/
theorem assign_self :
    let pool : Pool 1 := fun _ => .pointed (List.replicate 34 1)
    let a : Assignment 1 := ⟨0, 0, false⟩
    (∃ t, pool.assign .zero a = some t ∧ t.contents 0 = List.replicate 34 0) ∧
      Assignment.onBytes pool.contents a 0 = List.replicate 34 1 ∧
      ¬ Simulation.Refines Pool.assign Assignment.onBytes Pool.contents pool [a] := by
  intro pool a
  have overwritten : (pool.message .zero 0 0).contents 0 = List.replicate 34 0 := by decide
  refine ⟨⟨_, Pool.assign_eq .zero pool a, overwritten⟩, by decide, fun refines => ?_⟩
  obtain ⟨t, ran, stands⟩ := refines (fun _ => .zero) [a] List.prefix_rfl
  rw [Simulation.run_cons _ _ _ _ _ _ (Pool.assign_eq .zero pool a), Simulation.run,
    Option.some.injEq] at ran
  subst ran
  exact absurd (overwritten.symm.trans (congrFun stands 0)) (by decide)

end OfxZeroMQ
