import Mathlib.Data.List.Basic

/-!
# Reading a stream in blocks

A machine that always knows how much it reads next. What it makes of a stream does not depend on the
pieces in which the stream comes.
-/
namespace Foundation

universe u v w

variable {σ : Type u} {α : Type v} {μ ε : Type w}

/-- What a machine makes of a block: it asks for the next one, and may have found a message. -/
inductive Turn (σ : Type u) (μ ε : Type w) where
  | more (next : σ) (size : Nat)
  | message (m : μ) (next : σ) (size : Nat) (positive : 0 < size)
  | error (e : ε)

/-- Blocks may be empty, but not forever. -/
structure BlockMachine (σ : Type u) (α : Type v) (μ ε : Type w) where
  turn : σ → List α → Turn σ μ ε
  rank : σ → Nat
  descends : ∀ s block t, turn s block = .more t 0 → rank t < rank s

/-- A machine that waits for the rest of a block. -/
structure Reader (σ : Type u) (α : Type v) where
  state : σ
  read : List α
  toRead : Nat
  positive : 0 < toRead

inductive Progress (σ : Type u) (α : Type v) (μ ε : Type w) where
  | waiting (r : Reader σ α)
  | message (m : μ) (r : Reader σ α)
  | error (e : ε)

namespace Reader

/-- A part of the block has come. -/
def extend (r : Reader σ α) (part : List α) (short : part.length < r.toRead) : Reader σ α :=
  ⟨r.state, r.read ++ part, r.toRead - part.length, Nat.sub_pos_of_lt short⟩

end Reader

namespace BlockMachine

variable (M : BlockMachine σ α μ ε)

/-- Turns are made until something is to be read. -/
def settle (s : σ) (block : List α) : Progress σ α μ ε :=
  match _turned : M.turn s block with
  | .more t 0 => settle t []
  | .more t (n + 1) => .waiting ⟨t, [], n + 1, Nat.succ_pos n⟩
  | .message m t n positive => .message m ⟨t, [], n, positive⟩
  | .error e => .error e
termination_by M.rank s
decreasing_by exact M.descends s block t _turned

/-- Read up to the end of a message; what was not read is left. -/
def decode (r : Reader σ α) (data : List α) : Progress σ α μ ε × List α :=
  if short : data.length < r.toRead then (.waiting (r.extend data short), [])
  else
    match M.settle r.state (r.read ++ data.take r.toRead) with
    | .waiting next => decode next (data.drop r.toRead)
    | .message m next => (.message m next, data.drop r.toRead)
    | .error e => (.error e, data.drop r.toRead)
termination_by data.length
decreasing_by
  have := r.positive
  rw [List.length_drop]
  omega

/-! ### One element at a time -/

def feed (r : Reader σ α) (a : α) : Progress σ α μ ε :=
  if short : [a].length < r.toRead then .waiting (r.extend [a] short)
  else M.settle r.state (r.read ++ [a])

/-- All messages of a stream. -/
def run : Reader σ α → List α → List μ × Except ε (Reader σ α)
  | r, [] => ([], .ok r)
  | r, a :: rest =>
    match M.feed r a with
    | .waiting next => run next rest
    | .message m next => (m :: (run next rest).1, (run next rest).2)
    | .error e => ([], .error e)

/-- Going on after a part of the stream. -/
def resume (before : List μ × Except ε (Reader σ α)) (rest : List α) :
    List μ × Except ε (Reader σ α) :=
  match before.2 with
  | .ok r => (before.1 ++ (M.run r rest).1, (M.run r rest).2)
  | .error e => (before.1, .error e)

theorem run_append (r : Reader σ α) (xs ys : List α) :
    M.run r (xs ++ ys) = M.resume (M.run r xs) ys := by
  induction xs generalizing r with
  | nil => rfl
  | cons a xs ih =>
    rw [List.cons_append, run, run]
    cases M.feed r a with
    | waiting next => exact ih next
    | message m next =>
      simp only [ih next, resume]
      cases (M.run next xs).2 <;> rfl
    | error e => rfl

/-- A part that does not fill the block only extends it. -/
theorem run_short (r : Reader σ α) (data : List α) (short : data.length < r.toRead) :
    M.run r data = ([], .ok (r.extend data short)) := by
  induction data generalizing r with
  | nil => simp [run, Reader.extend]
  | cons a data ih =>
    have first : [a].length < r.toRead := by
      simp only [List.length_cons, List.length_nil] at short ⊢
      omega
    have rest : data.length < (r.extend [a] first).toRead := by
      simp only [Reader.extend, List.length_cons, List.length_nil] at short ⊢
      omega
    rw [run, feed, dif_pos first]
    refine (ih (r.extend [a] first) rest).trans ?_
    simp [Reader.extend, Nat.sub_sub, Nat.add_comm]

/-- A block that is filled is turned. -/
theorem run_full (r : Reader σ α) (data : List α) (full : r.toRead ≤ data.length) :
    M.run r data =
      match M.settle r.state (r.read ++ data.take r.toRead) with
      | .waiting next => M.run next (data.drop r.toRead)
      | .message m next =>
        (m :: (M.run next (data.drop r.toRead)).1, (M.run next (data.drop r.toRead)).2)
      | .error e => ([], .error e) := by
  have positive := r.positive
  obtain ⟨front, a, rest, rfl, length⟩ : ∃ front a rest, data = front ++ a :: rest ∧
      front.length + 1 = r.toRead := by
    have tail : (data.drop (r.toRead - 1)).length ≠ 0 := by
      rw [List.length_drop]
      omega
    obtain ⟨a, rest, split⟩ := List.exists_cons_of_length_pos (Nat.pos_of_ne_zero tail)
    refine ⟨data.take (r.toRead - 1), a, rest, ?_, ?_⟩
    · rw [← split, List.take_append_drop]
    · rw [List.length_take]
      omega
  have short : front.length < r.toRead := by omega
  have taken : (front ++ a :: rest).take r.toRead = front ++ [a] := by
    rw [← length, List.take_length_add_append]
    rfl
  have dropped : (front ++ a :: rest).drop r.toRead = rest := by
    rw [← length, List.drop_length_add_append]
    rfl
  have last : ¬[a].length < (r.extend front short).toRead := by
    simp only [Reader.extend, List.length_singleton]
    omega
  rw [taken, dropped, run_append, run_short M r front short]
  simp only [resume, List.nil_append, run, feed, dif_neg last]
  rw [Reader.extend, List.append_assoc]

/-- A block is turned as soon as it is filled. -/
theorem run_block (r : Reader σ α) (data : List α) (full : r.toRead ≤ data.length) :
    M.run r (data.take r.toRead) =
      match M.settle r.state (r.read ++ data.take r.toRead) with
      | .waiting next => ([], .ok next)
      | .message m next => ([m], .ok next)
      | .error e => ([], .error e) := by
  have length : (data.take r.toRead).length = r.toRead := by
    rw [List.length_take]
    omega
  have nothing : (data.take r.toRead).drop r.toRead = [] :=
    List.drop_eq_nil_of_le (Nat.le_of_eq length)
  have turned := M.run_full r (data.take r.toRead) (Nat.le_of_eq length.symm)
  rw [nothing, List.take_take, Nat.min_self] at turned
  exact turned

/-- Reading up to the end of a message agrees with reading one element after the other. -/
theorem decode_run (r : Reader σ α) (data : List α) :
    match M.decode r data with
    | (.waiting next, rest) => rest = [] ∧ M.run r data = ([], .ok next)
    | (.message m next, rest) =>
      ∃ used, data = used ++ rest ∧ used ≠ [] ∧ M.run r used = ([m], .ok next)
    | (.error e, rest) => ∃ used, data = used ++ rest ∧ M.run r used = ([], .error e) := by
  have nonempty (r : Reader σ α) (data : List α) (full : ¬data.length < r.toRead) :
      data.take r.toRead ≠ [] := by
    have := r.positive
    intro nothing
    have := List.take_eq_nil_iff.mp nothing
    rcases this with zero | rfl
    · omega
    · simp only [List.length_nil] at full
      omega
  fun_induction M.decode r data with
  | case1 r data short => exact ⟨rfl, M.run_short r data short⟩
  | case2 r data full next settled ih =>
    -- One block is full and does not end the message; the rest is the induction hypothesis.
    have turned := M.run_block r data (Nat.le_of_not_lt full)
    rw [settled] at turned
    have later (used : List α) :
        M.run r (data.take r.toRead ++ used) = M.run next used := by
      rw [run_append, turned]
      rfl
    have split (used rest : List α) (tail : data.drop r.toRead = used ++ rest) :
        data = data.take r.toRead ++ used ++ rest := by
      rw [List.append_assoc, ← tail, List.take_append_drop]
    cases result : M.decode next (data.drop r.toRead) with
    | mk progress rest =>
      rw [result] at ih
      cases progress with
      | waiting last =>
        refine ⟨ih.1, ?_⟩
        rw [← ih.2, ← later, List.take_append_drop]
      | message m last =>
        obtain ⟨used, tail, -, ran⟩ := ih
        refine ⟨data.take r.toRead ++ used, split used rest tail, ?_, (later used).trans ran⟩
        exact List.append_ne_nil_of_left_ne_nil (nonempty r data full) used
      | error e =>
        obtain ⟨used, tail, ran⟩ := ih
        exact ⟨data.take r.toRead ++ used, split used rest tail, (later used).trans ran⟩
  | case3 r data full m next settled =>
    have turned := M.run_block r data (Nat.le_of_not_lt full)
    rw [settled] at turned
    exact ⟨_, (List.take_append_drop _ _).symm, nonempty r data full, turned⟩
  | case4 r data full e settled =>
    have turned := M.run_block r data (Nat.le_of_not_lt full)
    rw [settled] at turned
    exact ⟨_, (List.take_append_drop _ _).symm, turned⟩

theorem decode_shorter {r next : Reader σ α} {data rest : List α} {m : μ}
    (decoded : M.decode r data = (.message m next, rest)) : rest.length < data.length := by
  have agrees := M.decode_run r data
  rw [decoded] at agrees
  obtain ⟨used, rfl, nonempty, -⟩ := agrees
  have := List.length_pos_of_ne_nil nonempty
  rw [List.length_append]
  omega

/-! ### What holds of all messages -/

/-- What every turn keeps, of the state and the size of the block that is asked for. -/
structure Keeps (P : σ → Nat → Prop) (Q : μ → Prop) : Prop where
  more : ∀ s block t n, P s block.length → M.turn s block = .more t n → P t n
  message : ∀ s block m t n positive, P s block.length →
    M.turn s block = .message m t n positive → Q m ∧ P t n

section Keeps

variable {M} {P : σ → Nat → Prop} {Q : μ → Prop}

theorem Keeps.settle (keeps : M.Keeps P Q) (s : σ) (block : List α) (holds : P s block.length) :
    match M.settle s block with
    | .waiting r => P r.state (r.read.length + r.toRead)
    | .message m r => Q m ∧ P r.state (r.read.length + r.toRead)
    | .error _ => True := by
  fun_induction M.settle s block with
  | case1 s block t turned ih => exact ih (keeps.more s block t 0 holds turned)
  | case2 s block t n turned =>
    simpa using keeps.more s block t (n + 1) holds turned
  | case3 s block m t n positive turned =>
    simpa using keeps.message s block m t n positive holds turned
  | case4 => trivial

theorem Keeps.run (keeps : M.Keeps P Q) (r : Reader σ α) (stream : List α)
    (holds : P r.state (r.read.length + r.toRead)) :
    ∀ m ∈ (M.run r stream).1, Q m := by
  induction stream generalizing r with
  | nil => simp [BlockMachine.run]
  | cons a stream ih =>
    rw [BlockMachine.run, feed]
    by_cases short : [a].length < r.toRead
    · rw [dif_pos short]
      refine ih (r.extend [a] short) ?_
      have same : (r.read ++ [a]).length + (r.toRead - [a].length) =
          r.read.length + r.toRead := by
        rw [List.length_append]
        omega
      rw [Reader.extend, same]
      exact holds
    · rw [dif_neg short]
      have positive := r.positive
      have full : (r.read ++ [a]).length = r.read.length + r.toRead := by
        simp only [List.length_append, List.length_singleton] at short ⊢
        omega
      have settled := keeps.settle r.state (r.read ++ [a]) (full ▸ holds)
      cases result : M.settle r.state (r.read ++ [a]) with
      | waiting next =>
        rw [result] at settled
        exact ih next settled
      | message m next =>
        rw [result] at settled
        intro n member
        rcases List.mem_cons.mp member with rfl | later
        · exact settled.1
        · exact ih next settled.2 n later
      | error e => simp

end Keeps

/-! ### Streams of frames -/

theorem settle_more {s t : σ} {block : List α} {n : Nat} (positive : 0 < n)
    (turned : M.turn s block = .more t n) :
    M.settle s block = .waiting ⟨t, [], n, positive⟩ := by
  obtain ⟨n, rfl⟩ := Nat.exists_eq_succ_of_ne_zero (Nat.ne_of_gt positive)
  rw [settle]
  split
  · next other => simp [turned] at other
  · next other =>
    obtain ⟨rfl, same⟩ := Turn.more.inj (turned.symm.trans other)
    cases same
    rfl
  · next other => simp [turned] at other
  · next other => simp [turned] at other

theorem settle_message {s t : σ} {block : List α} {m : μ} {n : Nat} {positive : 0 < n}
    (turned : M.turn s block = .message m t n positive) :
    M.settle s block = .message m ⟨t, [], n, positive⟩ := by
  rw [settle]
  split
  all_goals next other => simp_all

theorem run_next {s t : σ} {block rest : List α} {size n : Nat} {some_block : 0 < size}
    (length : block.length = size) (positive : 0 < n) (turned : M.turn s block = .more t n) :
    M.run ⟨s, [], size, some_block⟩ (block ++ rest) = M.run ⟨t, [], n, positive⟩ rest := by
  subst length
  have full := M.run_full ⟨s, [], block.length, some_block⟩ (block ++ rest) (by simp)
  rw [full]
  simp only [List.nil_append, List.take_left, List.drop_left]
  rw [M.settle_more positive turned]

/-- A block that tells the size of what follows, and a message made of that. -/
theorem run_counted {s t u : σ} {block data : List α} {m : μ} {size n : Nat} {positive : 0 < n}
    {some_block : 0 < size} (length : block.length = size)
    (asked : M.turn s block = .more t data.length)
    (found : M.turn t data = .message m u n positive) :
    M.run ⟨s, [], size, some_block⟩ (block ++ data) = ([m], .ok ⟨u, [], n, positive⟩) := by
  cases data with
  | nil =>
    subst length
    have full := M.run_full ⟨s, [], block.length, some_block⟩ block (Nat.le_refl _)
    have settled : M.settle s block = .message m ⟨u, [], n, positive⟩ := by
      rw [← M.settle_message found, settle]
      split
      all_goals next other => simp_all
    rw [List.append_nil, full]
    simp [settled, run]
  | cons a data =>
    rw [M.run_next length (Nat.succ_pos _) asked]
    have full := M.run_full ⟨t, [], data.length + 1, Nat.succ_pos _⟩ (a :: data) (Nat.le_refl _)
    rw [full]
    have all : (a :: data).take (data.length + 1) = a :: data :=
      List.take_of_length_le (Nat.le_refl _)
    simp [all, M.settle_message found, run]

/-- A machine that comes back to where it was after every frame reads all messages. -/
theorem run_frames {β : Type*} (r : Reader σ α) (frame : β → List α) (found : β → μ) (bs : List β)
    (frames : ∀ b ∈ bs, M.run r (frame b) = ([found b], .ok r)) :
    M.run r (bs.flatMap frame) = (bs.map found, .ok r) := by
  induction bs with
  | nil => rfl
  | cons b bs ih =>
    simp only [List.flatMap_cons, run_append, frames b (by simp), resume,
      ih fun c member => frames c (by simp [member])]
    rfl

/-- What was read of a good stream is good, and its messages come first. -/
theorem run_ok_append {r : Reader σ α} {xs ys : List α} {ms : List μ} {last : Reader σ α}
    (ran : M.run r (xs ++ ys) = (ms, .ok last)) :
    ∃ next, M.run r xs = ((M.run r xs).1, .ok next) ∧
      ms = (M.run r xs).1 ++ (M.run next ys).1 ∧ (M.run next ys).2 = .ok last := by
  rw [run_append, resume] at ran
  cases result : (M.run r xs).2 with
  | error e =>
    rw [result] at ran
    cases (Prod.mk.inj ran).2
  | ok next =>
    rw [result] at ran
    obtain ⟨messages, final⟩ := Prod.mk.inj ran
    exact ⟨next, by rw [← result], messages.symm, final⟩

end BlockMachine

end Foundation
