import VeilNetwork.Lib.Bytes
import VeilNetwork.OnionStream.Seq

/-!
# The frames of the onion stream

One frame per circuit cell, as `wire.rs` lays it out: a version byte, a type byte,
the stream identifier, then the fields of the frame, every number big-endian. The
engine hands out encoded cells and is fed encoded cells, so that everything one
engine learns of the other passes through `Frame.encode` and `Frame.decode`; the
round trip `Frame.decode_encode` is what lets the later modules speak of frames.
-/

namespace VeilNetwork.OnionStream

open Bytes

/-! ### Constants -/

/-- Protocol version. -/
def protoVer : UInt8 := 1

/-- Largest payload the circuit carries in one cell. -/
def maxCell : ℕ := 16382

/-- Fixed overhead of a `DATA` frame. -/
def dataOverhead : ℕ := 16

/-- Largest stream payload of one `DATA` cell. -/
def wireMss : ℕ := maxCell - dataOverhead

/-- Most selective-ACK ranges in one `ACK` frame. -/
def maxSacks : ℕ := 8

namespace Ty

def syn : UInt8 := 1
def synAck : UInt8 := 2
def data : UInt8 := 3
def ack : UInt8 := 4
def fin : UInt8 := 5
def rst : UInt8 := 6

end Ty

namespace ResetReason

/-- Idle or dead circuit; the only reason the engine itself gives. -/
def timedOut : UInt8 := 1

end ResetReason

/-! ### Frames -/

/-- A half-open selective-ACK range `[start, end)`. -/
structure SackRange where
  start : UInt32
  stop : UInt32
deriving DecidableEq, Repr

/-- At most `maxSacks` ranges. -/
structure SackVec where
  ranges : List SackRange
  length_le : ranges.length ≤ maxSacks
deriving DecidableEq

namespace SackVec

/-- No range. -/
def new : SackVec := ⟨[], Nat.zero_le _⟩

/-- Append a range; `false`, and no change, if already full. -/
def push (v : SackVec) (r : SackRange) : SackVec × Bool :=
  if h : v.ranges.length < maxSacks then
    (⟨v.ranges ++ [r], by simpa using Nat.succ_le_of_lt h⟩, true)
  else (v, false)

theorem ranges_push {v : SackVec} {r : SackRange} (h : v.ranges.length < maxSacks) :
    (v.push r).1.ranges = v.ranges ++ [r] := by
  rw [push, dif_pos h]

end SackVec

/-- One protocol frame. -/
inductive Frame where
  | syn (streamId isn win : UInt32)
  | synAck (streamId isn win ack : UInt32)
  | data (streamId seq win : UInt32) (payload : List UInt8)
  | ack (streamId ack win : UInt32) (sacks : SackVec)
  | fin (streamId seq : UInt32)
  | rst (streamId : UInt32) (reason : UInt8)
deriving DecidableEq

namespace Frame

/-- The stream a frame targets. -/
def streamId : Frame → UInt32
  | syn i .. | synAck i .. | data i .. | ack i .. | fin i .. | rst i .. => i

/-- The type byte of a frame's cell. -/
def ty : Frame → UInt8
  | syn .. => Ty.syn
  | synAck .. => Ty.synAck
  | data .. => Ty.data
  | ack .. => Ty.ack
  | fin .. => Ty.fin
  | rst .. => Ty.rst

/-- DATA and FIN, the frames that ask for an acknowledgement. -/
def eliciting : Frame → Bool
  | data .. | fin .. => true
  | _ => false

/-! ### Encoding -/

/-- A 16-bit word, big-endian. -/
def putU16 (v : UInt16) : List UInt8 := toBe 2 v.toNat

/-- A 32-bit word, big-endian. -/
def putU32 (v : UInt32) : List UInt8 := toBe 4 v.toNat

/-- The ranges of an `ACK`, in order. -/
def putSacks (l : List SackRange) : List UInt8 :=
  l.flatMap fun r => putU32 r.start ++ putU32 r.stop

/-- The cell of a frame. -/
def encode : Frame → List UInt8
  | syn i isn win => [protoVer, Ty.syn] ++ putU32 i ++ putU32 isn ++ putU32 win
  | synAck i isn win a =>
    [protoVer, Ty.synAck] ++ putU32 i ++ putU32 isn ++ putU32 win ++ putU32 a
  | data i seq win payload =>
    [protoVer, Ty.data] ++ putU32 i ++ putU32 seq ++ putU32 win
      ++ putU16 (UInt16.ofNat payload.length) ++ payload
  | ack i a win sacks =>
    [protoVer, Ty.ack] ++ putU32 i ++ putU32 a ++ putU32 win
      ++ [UInt8.ofNat sacks.ranges.length] ++ putSacks sacks.ranges
  | fin i seq => [protoVer, Ty.fin] ++ putU32 i ++ putU32 seq
  | rst i reason => [protoVer, Ty.rst] ++ putU32 i ++ [reason]

/-- The second byte of a cell is its type. -/
theorem getElem?_encode_one (f : Frame) : f.encode[1]? = some f.ty := by
  cases f <;> rfl

/-! ### Decoding -/

/-- Read `n` ranges onto the end of `v`. -/
def takeSacks : ℕ → SackVec → List UInt8 → Option SackVec
  | 0, v, _ => some v
  | n + 1, v, b => do
    let (start, b) ← takeU32 b
    let (stop, b) ← takeU32 b
    takeSacks n (v.push ⟨start, stop⟩).1 b

/-- The fields after the stream identifier, by frame type. Bytes past the last
field are ignored. -/
def decodeBody (t : UInt8) (i : UInt32) (b : List UInt8) : Option Frame :=
  if t = Ty.syn then do
    let (isn, b) ← takeU32 b
    let (win, _) ← takeU32 b
    some (syn i isn win)
  else if t = Ty.synAck then do
    let (isn, b) ← takeU32 b
    let (win, b) ← takeU32 b
    let (a, _) ← takeU32 b
    some (synAck i isn win a)
  else if t = Ty.data then do
    let (seq, b) ← takeU32 b
    let (win, b) ← takeU32 b
    let (len, b) ← takeU16 b
    if len.toNat > wireMss then none else do
      let (payload, _) ← take len.toNat b
      some (data i seq win payload)
  else if t = Ty.ack then do
    let (a, b) ← takeU32 b
    let (win, b) ← takeU32 b
    let (n, b) ← takeU8 b
    if n.toNat > maxSacks then none else do
      let sacks ← takeSacks n.toNat SackVec.new b
      some (ack i a win sacks)
  else if t = Ty.fin then do
    let (seq, _) ← takeU32 b
    some (fin i seq)
  else if t = Ty.rst then do
    let (reason, _) ← takeU8 b
    some (rst i reason)
  else none

/-- One frame from a cell, or nothing if malformed or truncated. -/
def decode (buf : List UInt8) : Option Frame := do
  let (ver, b) ← takeU8 buf
  if ver ≠ protoVer then none else do
    let (t, b) ← takeU8 b
    let (i, b) ← takeU32 b
    decodeBody t i b

/-! ### Round trip -/

/-- What the length field of a frame can express. -/
def Fits : Frame → Prop
  | data _ _ _ payload => payload.length ≤ wireMss
  | _ => True

instance : DecidablePred Fits := fun f => by
  cases f <;> unfold Fits <;> infer_instance

@[simp] theorem takeU16_putU16 (v : UInt16) (r : List UInt8) :
    takeU16 (putU16 v ++ r) = some (v, r) := takeU16_toBe v r

@[simp] theorem takeU32_putU32 (v : UInt32) (r : List UInt8) :
    takeU32 (putU32 v ++ r) = some (v, r) := takeU32_toBe v r

/-- At the end of the cell. -/
@[simp] theorem takeU32_putU32_nil (v : UInt32) : takeU32 (putU32 v) = some (v, []) := by
  simpa using takeU32_putU32 v []

theorem takeSacks_putSacks (l : List SackRange) (v w : SackVec)
    (hw : w.ranges = v.ranges ++ l) : takeSacks l.length v (putSacks l) = some w := by
  induction l generalizing v with
  | nil =>
    simp only [List.length_nil, takeSacks]
    cases w
    simp_all
  | cons r l ih =>
    have hlt : v.ranges.length < maxSacks := by
      have := w.length_le
      simp only [hw, List.length_append, List.length_cons] at this
      omega
    have hstep : w.ranges = (v.push r).1.ranges ++ l := by
      rw [SackVec.ranges_push hlt, hw, List.append_assoc, List.singleton_append]
    simp only [List.length_cons, takeSacks, putSacks, List.flatMap_cons, List.append_assoc,
      takeU32_putU32, Option.bind_eq_bind, Option.bind_some]
    exact ih _ hstep

/-- **A cell decodes to the frame it was made from.** -/
theorem decode_encode {f : Frame} (hf : f.Fits) : decode f.encode = some f := by
  cases f with
  | data i seq win payload =>
    have hlen : payload.length ≤ 16366 := hf
    have hu : (UInt16.ofNat payload.length).toNat = payload.length :=
      UInt16.toNat_ofNat_of_lt' (by simp only [UInt16.size]; omega)
    have htake : take payload.length payload = some (payload, []) := by
      simpa using take_append payload []
    simp [encode, decode, decodeBody, Ty.syn, Ty.synAck, Ty.data, hu, htake, wireMss, maxCell,
      dataOverhead, hlen]
  | ack i a win sacks =>
    have hlen := sacks.length_le
    have hu : (UInt8.ofNat sacks.ranges.length).toNat = sacks.ranges.length :=
      UInt8.toNat_ofNat_of_lt' (by simp only [UInt8.size, maxSacks] at *; omega)
    have hs : takeSacks sacks.ranges.length SackVec.new (putSacks sacks.ranges) = some sacks :=
      takeSacks_putSacks _ _ _ rfl
    simp [encode, decode, decodeBody, Ty.syn, Ty.synAck, Ty.data, Ty.ack, hu, hs, hlen]
  | syn | synAck | fin | rst =>
    simp [encode, decode, decodeBody, Ty.syn, Ty.synAck, Ty.data, Ty.ack, Ty.fin, Ty.rst]

end Frame

end VeilNetwork.OnionStream
