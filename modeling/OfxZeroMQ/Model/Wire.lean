import OfxZeroMQ.Foundation.Blocks
import OfxZeroMQ.Model.Message

/-!
# Messages on the wire

`v1_encoder_t`, `v2_encoder_t` and the loop of `encoder_base_t` that fills buffers; `v1_decoder_t`,
`v2_decoder_t` and the loop of `decoder_base_t` that empties them; and what a `stream_engine_t` does
with both when the handshake is over. Memory can always be allocated.
-/
namespace OfxZeroMQ

open Foundation

/-- `msg_t`, as far as it goes over the wire. -/
structure WireMsg where
  data : Bytes
  more : Bool
  command : Bool
deriving DecidableEq

inductive WireError where
  | eproto
  | emsgsize
deriving DecidableEq

def putUint64 (value : Nat) : Bytes :=
  [56, 48, 40, 32, 24, 16, 8, 0].map fun shift => UInt8.ofNat (value >>> shift)

def getUint64 (buffer : Bytes) : Nat := buffer.foldl (fun value byte => value * 256 + byte.toNat) 0

/-- `_max_msg_size`, which is negative when there is none. -/
def exceeds (maxMsgSize : Option Nat) (size : Nat) : Bool :=
  match maxMsgSize with
  | none => false
  | some max => decide (max < size)

/-! ### Protocol versions -/

structure Protocol (σ : Type) where
  header : WireMsg → Bytes
  machine : BlockMachine σ UInt8 WireMsg WireError
  start : σ

namespace V1

/-- What `message_ready` of the encoder writes. -/
def header (m : WireMsg) : Bytes :=
  let size := m.data.length + 1
  let flags : UInt8 := if m.more then 1 else 0
  if size < 255 then [UInt8.ofNat size, flags] else 255 :: putUint64 size ++ [flags]

/-- The steps of the decoder, with what is known of the message in progress. -/
inductive Step where
  | oneByteSizeReady
  | eightByteSizeReady
  | flagsReady (size : Nat)
  | messageReady (more : Bool)

def turn (maxMsgSize : Option Nat) (s : Step) (tmpbuf : Bytes) : Turn Step WireMsg WireError :=
  match s with
  | .oneByteSizeReady =>
    let size := (tmpbuf.headD 0).toNat
    if size = 255 then .more .eightByteSizeReady 8
    else if size = 0 then .error .eproto
    else if exceeds maxMsgSize (size - 1) then .error .emsgsize
    else .more (.flagsReady (size - 1)) 1
  | .eightByteSizeReady =>
    let payload_length := getUint64 tmpbuf
    if payload_length = 0 then .error .eproto
    else if exceeds maxMsgSize (payload_length - 1) then .error .emsgsize
    else .more (.flagsReady (payload_length - 1)) 1
  | .flagsReady size => .more (.messageReady (tmpbuf.headD 0 &&& 1 != 0)) size
  | .messageReady more => .message ⟨tmpbuf, more, false⟩ .oneByteSizeReady 1 Nat.one_pos

def rank : Step → Nat
  | .messageReady _ => 0
  | _ => 1

theorem descends (maxMsgSize : Option Nat) (s : Step) (tmpbuf : Bytes) (t : Step)
    (turned : turn maxMsgSize s tmpbuf = .more t 0) : rank t < rank s := by
  cases s <;> grind [turn, rank]

def protocol (maxMsgSize : Option Nat) : Protocol Step where
  header := header
  machine := ⟨turn maxMsgSize, rank, descends maxMsgSize⟩
  start := .oneByteSizeReady

end V1

namespace V2

def header (m : WireMsg) : Bytes :=
  let large := 255 < m.data.length
  let protocolFlags : UInt8 :=
    (if m.more then 1 else 0) ||| (if large then 2 else 0) ||| (if m.command then 4 else 0)
  if large then protocolFlags :: putUint64 m.data.length
  else [protocolFlags, UInt8.ofNat m.data.length]

inductive Step where
  | flagsReady
  | oneByteSizeReady (more command : Bool)
  | eightByteSizeReady (more command : Bool)
  | messageReady (more command : Bool)

def sizeReady (maxMsgSize : Option Nat) (more command : Bool) (size : Nat) :
    Turn Step WireMsg WireError :=
  if exceeds maxMsgSize size then .error .emsgsize else .more (.messageReady more command) size

def turn (maxMsgSize : Option Nat) (s : Step) (tmpbuf : Bytes) : Turn Step WireMsg WireError :=
  match s with
  | .flagsReady =>
    let flags := tmpbuf.headD 0
    let more := flags &&& 1 != 0
    let command := flags &&& 4 != 0
    if flags &&& 2 != 0 then .more (.eightByteSizeReady more command) 8
    else .more (.oneByteSizeReady more command) 1
  | .oneByteSizeReady more command =>
    sizeReady maxMsgSize more command (tmpbuf.headD 0).toNat
  | .eightByteSizeReady more command =>
    sizeReady maxMsgSize more command (getUint64 tmpbuf)
  | .messageReady more command => .message ⟨tmpbuf, more, command⟩ .flagsReady 1 Nat.one_pos

def rank : Step → Nat
  | .messageReady _ _ => 0
  | _ => 1

theorem descends (maxMsgSize : Option Nat) (s : Step) (tmpbuf : Bytes) (t : Step)
    (turned : turn maxMsgSize s tmpbuf = .more t 0) : rank t < rank s := by
  cases s <;> grind [turn, sizeReady, rank]

def protocol (maxMsgSize : Option Nat) : Protocol Step where
  header := header
  machine := ⟨turn maxMsgSize, rank, descends maxMsgSize⟩
  start := .flagsReady

end V2

inductive Version where
  | v1
  | v2
deriving DecidableEq

def Version.Step : Version → Type
  | .v1 => V1.Step
  | .v2 => V2.Step

def Version.protocol (maxMsgSize : Option Nat) : (v : Version) → Protocol v.Step
  | .v1 => V1.protocol maxMsgSize
  | .v2 => V2.protocol maxMsgSize

/-! ### The encoder -/

inductive EncoderStep where
  | messageReady
  | sizeReady
deriving DecidableEq

/-- `_new_msg_flag` is set together with `message_ready`, and only then. -/
structure WireEncoder where
  write : Bytes
  next : EncoderStep
  inProgress : Option WireMsg
deriving DecidableEq

namespace WireEncoder

def initial : WireEncoder := ⟨[], .messageReady, none⟩

variable (header : WireMsg → Bytes)

def turn (e : WireEncoder) (m : WireMsg) : WireEncoder :=
  match e.next with
  | .messageReady => { e with write := header m, next := .sizeReady }
  | .sizeReady => { e with write := m.data, next := .messageReady }

def loadMsg (e : WireEncoder) (m : WireMsg) : Option WireEncoder :=
  match e.inProgress with
  | some _ => none
  | none => some (({ e with inProgress := some m } : WireEncoder).turn header m)

/-- The loop of `encode`, with what it has put into the buffer. Where the buffer is the encoder's
own it hands out large parts without copying. -/
def fill (own : Bool) (buffersize : Nat) (m : WireMsg) (e : WireEncoder) (out : Bytes) :
    Bytes × WireEncoder :=
  if out.length < buffersize then
    if e.write = [] ∧ e.next = .messageReady then (out, { e with inProgress := none })
    else
      let ready := if e.write = [] then e.turn header m else e
      if out = [] ∧ own ∧ buffersize ≤ ready.write.length then
        (ready.write, { ready with write := [] })
      else
        let toCopy := min ready.write.length (buffersize - out.length)
        fill own buffersize m { ready with write := ready.write.drop toCopy }
          (out ++ ready.write.take toCopy)
  else (out, e)
termination_by (buffersize - out.length, if e.next = .sizeReady then 1 else 0)
decreasing_by
  next room unfinished _ =>
  have grown : (out ++ ready.write.take toCopy).length = out.length + toCopy := by
    simp [toCopy]
  rw [grown]
  rcases Nat.eq_zero_or_pos toCopy with nothing | something
  · -- only a body can be empty
    have body : ready.write = [] := by
      have : ready.write.length = 0 := by
        simp only [toCopy] at nothing
        omega
      exact List.eq_nil_of_length_eq_zero this
    by_cases empty : e.write = []
    · cases step : e.next with
      | messageReady => exact absurd ⟨empty, step⟩ unfinished
      | sizeReady =>
        rw [nothing, Nat.add_zero]
        refine Prod.Lex.right _ ?_
        simp [empty, turn, step]
    · have : ready = e := by simp [ready, empty]
      exact absurd (this ▸ body) empty
  · exact Prod.Lex.left _ _ (by omega)

def encode (e : WireEncoder) (own : Bool) (buffersize : Nat) : Bytes × WireEncoder :=
  match e.inProgress with
  | none => ([], e)
  | some m => fill header own buffersize m e []

end WireEncoder

/-! ### What the engine sends -/

structure Output where
  encoder : WireEncoder
  -- what was encoded and is not yet written to the socket
  outbuf : Bytes
  /-- what the session has to send -/
  source : List WireMsg

namespace Output

variable (header : WireMsg → Bytes) (batch : Nat)

/-- The loop of `out_event` that takes messages from the session. The encoder's own buffer is used
as long as `_outpos` is null. -/
def pull (own : Bool) (e : WireEncoder) (out : Bytes) : List WireMsg → Option Output
  | [] => some ⟨e, out, []⟩
  | m :: source =>
    if out.length < batch then
      (e.loadMsg header m).bind fun e =>
        let (bytes, e) := e.encode header own (batch - out.length)
        if bytes = [] then none else pull false e (out ++ bytes) source
    else some ⟨e, out, m :: source⟩

/-- `out_event`, where the socket takes up to `nbytes`. -/
def outEvent (o : Output) (nbytes : Nat) : Option (Bytes × Output) :=
  (if o.outbuf = [] then
    let (bytes, e) := o.encoder.encode header true batch
    pull header batch o.encoder.inProgress.isNone e bytes o.source
  else some o).map fun o => (o.outbuf.take nbytes, { o with outbuf := o.outbuf.drop nbytes })

end Output

/-! ### What the engine receives -/

structure Input (σ : Type) where
  decoder : Reader σ UInt8
  -- what was read from the socket and is not yet decoded
  inbuf : Bytes
  /-- the message that the session has no room for; the engine does not poll for input then -/
  stopped : Option WireMsg
  /-- how many messages the session has room for -/
  room : Nat
  pushed : List WireMsg
  error : Option WireError

namespace Input

variable {σ : Type} (M : BlockMachine σ UInt8 WireMsg WireError)

def initial (P : Protocol σ) : Input σ := ⟨⟨P.start, [], 1, Nat.one_pos⟩, [], none, 0, [], none⟩

/-- `push_msg` of the session, which fails with `EAGAIN`. -/
def pushMsg (i : Input σ) (m : WireMsg) : Option (Input σ) :=
  if m.command then some i
  else if i.room = 0 then none
  else some { i with room := i.room - 1, pushed := i.pushed ++ [m] }

theorem push_inbuf (i next : Input σ) (m : WireMsg) (pushed : i.pushMsg m = some next) :
    next.inbuf = i.inbuf := by
  rw [pushMsg] at pushed
  split at pushed
  · exact Option.some.inj pushed ▸ rfl
  · rw [Option.ite_none_left_eq_some] at pushed
    exact Option.some.inj pushed.2 ▸ rfl

/-- The path of `decode` where the data is where it belongs already. -/
def decodeInPlace (r : Reader σ UInt8) (data : Bytes) :
    Option (Progress σ UInt8 WireMsg WireError × Bytes) :=
  if short : data.length < r.toRead then some (.waiting (r.extend data short), [])
  else if data.length = r.toRead then some (M.settle r.state (r.read ++ data), [])
  else none

/-- The loop of `in_event_internal` and of `restart_input`. -/
def process (i : Input σ) : Input σ :=
  if i.inbuf = [] then i
  else
    match _decoded : M.decode i.decoder i.inbuf with
    | (.waiting r, rest) => { i with decoder := r, inbuf := rest }
    | (.error e, rest) => { i with inbuf := rest, error := some e }
    | (.message m r, rest) =>
      match _pushed : ({ i with decoder := r, inbuf := rest } : Input σ).pushMsg m with
      | none => { i with decoder := r, inbuf := rest, stopped := some m }
      | some next => process next
termination_by i.inbuf.length
decreasing_by
  rw [push_inbuf _ _ _ _pushed]
  exact M.decode_shorter _decoded

/-- `in_event` with what the socket has for the buffer, and the size of the allocator's. A long rest
of a message is read to where it belongs. -/
def inEvent (i : Input σ) (size : Nat) (arrived : Bytes) : Option (Input σ) :=
  if i.stopped.isSome || i.error.isSome || arrived = [] then some i
  else if size ≤ i.decoder.toRead then
    (decodeInPlace M i.decoder arrived).map fun
      | (.waiting r, _) => { i with decoder := r }
      | (.error e, _) => { i with error := some e }
      | (.message m r, _) =>
        match ({ i with decoder := r } : Input σ).pushMsg m with
        | none => { i with decoder := r, stopped := some m }
        | some i => i
  else some (process M { i with inbuf := arrived })

/-- How much `in_event` reads at once. -/
def bufsize (i : Input σ) (size : Nat) : Nat :=
  if size ≤ i.decoder.toRead then i.decoder.toRead else size

/-- `restart_input`, when the session has room again. -/
def restartInput (i : Input σ) (room : Nat) : Input σ :=
  let i := { i with room := room }
  match i.stopped with
  | none => i
  | some m =>
    match i.pushMsg m with
    | none => i
    | some i => process M { i with stopped := none }

end Input

/-! ### Two engines and the connection between them -/

structure Connection (σ : Type) where
  output : Output
  wire : Bytes
  input : Input σ
  -- everything that the session was given to send
  sent : List WireMsg

inductive ConnectionEvent where
  | send (m : WireMsg)
  -- the socket takes up to so many bytes
  | outEvent (nbytes : Nat)
  -- up to so many bytes have come, and the allocator has a buffer of that size
  | inEvent (nbytes size : Nat)
  | restartInput (room : Nat)

namespace Connection

variable {σ : Type} (P : Protocol σ) (batch : Nat)

def initial : Connection σ := ⟨⟨.initial, [], []⟩, [], .initial P, []⟩

def step (s : Connection σ) : ConnectionEvent → Option (Connection σ)
  | .send m => some { s with
      output := { s.output with source := s.output.source ++ [m] }, sent := s.sent ++ [m] }
  | .outEvent nbytes =>
    (s.output.outEvent P.header batch nbytes).map fun (bytes, output) =>
      { s with output := output, wire := s.wire ++ bytes }
  | .inEvent nbytes size =>
    if s.input.stopped.isSome || s.input.error.isSome then some s
    else
      let rc := min nbytes (s.input.bufsize size)
      (s.input.inEvent P.machine size (s.wire.take rc)).map fun input =>
        { s with wire := s.wire.drop rc, input := input }
  | .restartInput room => some { s with input := s.input.restartInput P.machine room }

end Connection

end OfxZeroMQ
