import OfxZeroMQ.Foundation.Traverse
import OfxZeroMQ.Model.Identity

/-!
# The identity cannot be read

`getIdentity` says that its buffer has no room, so that the socket refuses every identity but
the empty one, which no socket can be given.
-/
namespace OfxZeroMQ

open Foundation.Buffer

/-- A getter that is told how much room there is finds the whole value at the start of it. -/
theorem doGetsockopt_room (optval value : Bytes) (optvallen : Nat)
    (enough : value.length ≤ optvallen) (room : optvallen ≤ optval.length) :
    ∃ buf, doGetsockopt optval optvallen value = .ok (buf, value.length) ∧
      buf.take value.length = value := by
  -- the part of the buffer for the value, the part that is zeroed, and the rest
  obtain ⟨first, second, third, rfl, firstSize, secondSize⟩ :
      ∃ first second third : Bytes, optval = first ++ (second ++ third) ∧
        first.length = value.length ∧ second.length = optvallen - value.length := by
    refine ⟨optval.take value.length, (optval.drop value.length).take (optvallen - value.length),
      (optval.drop value.length).drop (optvallen - value.length), ?_, ?_, ?_⟩
    · rw [List.take_append_drop, List.take_append_drop]
    · rw [List.length_take]
      omega
    · rw [List.length_take, List.length_drop]
      omega
  let zeros : Bytes := List.replicate (optvallen - value.length) 0
  have copied := patch_append [] first value (second ++ third) firstSize
  have zeroed := patch_append value second zeros third (by simp [zeros, secondSize])
  simp only [List.nil_append, List.length_nil] at copied
  refine ⟨value ++ (zeros ++ third), ?_, List.take_left⟩
  rw [doGetsockopt, if_neg (by omega)]
  simp only [copied]
  rw [zeroed]

namespace Options

/-- The 256 bytes of `buf` have room for every identity. -/
theorem getsockopt_room (mem : Memory) (o : Options) :
    ∃ buf, o.getsockopt (mem.uninitialized 256) 256 = .ok (buf, o.routingId.length) ∧
      buf.take o.routingId.length = o.routingId := by
  have bounded : o.routingId.length ≤ 255 := o.bounded
  exact doGetsockopt_room (mem.uninitialized 256) o.routingId 256 (by omega)
    (by simp [Memory.uninitialized])

/-- Told that there is none, it returns the empty identity only. -/
theorem getIdentity_eq (mem : Memory) (o : Options) :
    o.getIdentity mem = if o.routingId = [] then .ok [] else .error .einval := by
  rcases List.eq_nil_or_concat o.routingId with empty | ⟨front, last, nonempty⟩
  · rw [if_pos empty, getIdentity, getsockopt, doGetsockopt, empty]
    simp
  · have some_bytes : o.routingId ≠ [] := by simp [nonempty]
    rw [if_neg some_bytes, getIdentity, getsockopt, doGetsockopt,
      if_pos (List.length_pos_iff.mpr some_bytes)]
    simp

theorem routingId_setIdentities (o : Options) (earlier : List Bytes) (s : Bytes)
    (nonempty : 0 < s.length) (fits : s.length ≤ ucharMax) :
    (o.setIdentities (earlier ++ [s])).routingId = s := by
  rw [setIdentities, List.foldl_append, List.foldl_cons, List.foldl_nil, setIdentity, setsockopt,
    dif_pos ⟨nonempty, fits⟩, Except.toOption, Option.getD_some]

end Options

/-- Whatever identities a socket was given, `getIdentity` throws instead of returning the last
one, which the socket has stored. -/
theorem getIdentity_throws (mem : Memory) (o : Options) (earlier : List Bytes) (s : Bytes)
    (nonempty : 0 < s.length) (fits : s.length ≤ 255) :
    let set := o.setIdentities (earlier ++ [s])
    set.routingId = s ∧ set.getIdentity mem = .error .einval ∧ set.getIdentity mem ≠ .ok s := by
  intro set
  have stored : set.routingId = s := o.routingId_setIdentities earlier s nonempty fits
  have threw : set.getIdentity mem = .error .einval := by
    rw [set.getIdentity_eq, stored, if_neg (List.length_pos_iff.mp nonempty)]
  exact ⟨stored, threw, by simp [threw]⟩

/-- The identity of one byte, with a zero byte in another that was set before. -/
theorem getIdentity_throws_a :
    let set := Options.initial.setIdentities ([[0, 1]] ++ [[97]])
    set.routingId = [97] ∧ set.getIdentity default = .error .einval ∧
      set.getIdentity default ≠ .ok [97] :=
  getIdentity_throws default .initial [[0, 1]] [97] (by decide) (by decide)

/-- `setIdentity("a")` succeeds, and `getIdentity()` does not return `"a"`. -/
theorem identity_a_lost :
    ∃ o, Options.initial.setIdentity [97] = .ok o ∧ o.routingId = [97] ∧
      o.getIdentity default ≠ .ok [97] := by
  refine ⟨⟨[97], by decide⟩, rfl, rfl, ?_⟩
  rw [Options.getIdentity_eq]
  simp

end OfxZeroMQ
