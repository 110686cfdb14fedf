import VeilNetwork.OnionStream.State

/-!
# The receiving half

Reassembly as `engine.rs` computes it. In-order bytes go to `readBuf`; bytes beyond a gap are kept
in `oo`, keyed by their raw sequence number, so that every lookup that needs the stream's order
has to start half a range or a whole turn away from where the raw order would. The two loops that
consume stored intervals take as many rounds as there are intervals, plus one; that this is enough
is part of what `Reassembly` shows.
-/

namespace VeilNetwork.OnionStream.RxState

open Saturating

/-- The free buffer space. -/
def advertised (rx : RxState) : UInt32 :=
  sub32 rx.window (UInt32.ofNat (rx.readBuf.length + rx.ooBytes))

/-! ### Draining stored intervals -/

/-- The first stored interval in the order that starts half a range behind `rcvNxt`. -/
def drainCandidate (rx : RxState) : Option (UInt32 × List UInt8) :=
  let floor := rx.rcvNxt - 0x80000000
  (rx.oo.rangeFrom floor).head?.or (rx.oo.rangeTo floor).head?

/-- Move one stored interval, already taken out of the map, into the read buffer. -/
def absorb (rx : RxState) (k : UInt32) (v : List UInt8) : RxState :=
  if Seq.lt k rx.rcvNxt then
    let skip := (rx.rcvNxt - k).toNat
    if skip < v.length then
      { rx with
        readBuf := rx.readBuf ++ v.drop skip
        rcvNxt := rx.rcvNxt + UInt32.ofNat (v.length - skip) }
    else rx
  else
    { rx with readBuf := rx.readBuf ++ v, rcvNxt := rx.rcvNxt + UInt32.ofNat v.length }

/-- The loop of `drainOo`: while the candidate is at or behind `rcvNxt`, absorb it. -/
def drainLoop : ℕ → RxState → RxState
  | 0, rx => rx
  | fuel + 1, rx =>
    match rx.drainCandidate with
    | none => rx
    | some (k, v) =>
      if Seq.leq k rx.rcvNxt then
        drainLoop fuel
          ({ rx with oo := rx.oo.erase k, ooBytes := rx.ooBytes - v.length }.absorb k v)
      else rx

section

variable (rx : RxState)

/-- Deliver every stored interval that has become contiguous. -/
def drainOo : RxState := drainLoop (rx.oo.size + 1) rx

/-! ### The end of the peer's direction -/

/-- Consume the peer's FIN once everything before it has arrived. -/
def tryConsumeFin : RxState :=
  if rx.peerFinSeq = some rx.rcvNxt ∧ rx.eof = false then
    { rx with rcvNxt := rx.rcvNxt + 1, eof := true }
  else rx

/-! ### Storing beyond a gap -/

/-- Walk the stored intervals that meet the new one, collecting the gaps between
them, until `slots` gaps are found or the walk passes `stop`. -/
def gapScan (slots : ℕ) (stop : UInt32) :
    List (UInt32 × List UInt8) → UInt32 → List (UInt32 × ℕ) → UInt32 × List (UInt32 × ℕ)
  | [], cursor, gaps => (cursor, gaps)
  | (start, data) :: l, cursor, gaps =>
    let gaps := if Seq.gt start cursor then gaps ++ [(cursor, (start - cursor).toNat)] else gaps
    if Seq.gt start cursor ∧ gaps.length = slots then (cursor, gaps)
    else
      let cursor := Seq.max cursor (start + UInt32.ofNat data.length)
      if Seq.geq cursor stop then (cursor, gaps) else gapScan slots stop l cursor gaps

variable (seqNo : UInt32)

/-- The stored interval that may cover the start of the new one. -/
def preceding : Option (UInt32 × List UInt8) :=
  ((rx.oo.rangeTo seqNo).getLast?.or rx.oo.last?).filter fun e => Seq.lt e.1 seqNo

/-- The stored intervals that start inside `[seqNo, stop)`. -/
def startingIn (seqNo stop : UInt32) : List (UInt32 × List UInt8) :=
  if seqNo < stop then rx.oo.range seqNo stop
  else rx.oo.rangeFrom seqNo ++ rx.oo.rangeTo stop

/-- The gaps of `[seqNo, stop)` not yet stored, at most `slots` of them. -/
def gaps (rx : RxState) (slots : ℕ) (seqNo stop : UInt32) : List (UInt32 × ℕ) :=
  let (cursor, gaps) :=
    gapScan slots stop ((rx.preceding seqNo).toList ++ rx.startingIn seqNo stop) seqNo []
  if gaps.length < slots ∧ Seq.lt cursor stop then gaps ++ [(cursor, (stop - cursor).toNat)]
  else gaps

/-- Store one gap's bytes. -/
def storeGap (payload : List UInt8) (rx : RxState) (g : UInt32 × ℕ) : RxState :=
  let src := (g.1 - seqNo).toNat
  { rx with
    oo := rx.oo.insert g.1 ((payload.drop src).take g.2)
    ooBytes := rx.ooBytes + g.2 }

/-- Store a segment that lies beyond a gap. -/
def storeOo (payload : List UInt8) : RxState :=
  let slots := maxReorderedSegments - rx.oo.size
  if slots = 0 then rx
  else
    let stop := seqNo + UInt32.ofNat payload.length
    (rx.gaps slots seqNo stop).foldl (storeGap seqNo payload) rx

/-! ### Accepting a segment -/

/-- The next stored interval the in-order copy runs into, or the end of the segment. -/
def nextStored (stop : UInt32) : UInt32 :=
  ((((rx.oo.rangeFrom rx.rcvNxt).head?.or rx.oo.first?).map Prod.fst).filter fun start =>
    Seq.lt start stop).getD stop

end

/-- The loop of `accept` on an in-order segment: copy up to the next stored interval,
then drain. -/
def fillLoop (segSeq : UInt32) (payload : List UInt8) (stop : UInt32) : ℕ → RxState → RxState
  | 0, rx => rx
  | fuel + 1, rx =>
    if Seq.lt rx.rcvNxt stop then
      let next := rx.nextStored stop
      let src := (rx.rcvNxt - segSeq).toNat
      let count := (next - rx.rcvNxt).toNat
      fillLoop segSeq payload stop fuel
        ({ rx with readBuf := rx.readBuf ++ (payload.drop src).take count, rcvNxt := next }.drainOo)
    else rx

variable (rx : RxState)

/-- Accept the part of a segment at or above `rcvNxt`. -/
def acceptTail (segSeq : UInt32) (payload : List UInt8) : RxState × Bool :=
  let space := sub32 rx.window (UInt32.ofNat rx.readBuf.length)
  let offset := segSeq - rx.rcvNxt
  if space ≤ offset then (rx, false)
  else
    let payload := payload.take (space - offset).toNat
    if segSeq = rx.rcvNxt then
      let stop := segSeq + UInt32.ofNat payload.length
      ((fillLoop segSeq payload stop (rx.oo.size + 1) rx).tryConsumeFin, true)
    else (rx.storeOo segSeq payload, false)

/-- Accept a DATA segment; whether `rcvNxt` advanced. -/
def accept (segSeq : UInt32) (payload : List UInt8) : RxState × Bool :=
  if Seq.lt segSeq rx.rcvNxt then
    let skip := (rx.rcvNxt - segSeq).toNat
    if payload.length ≤ skip then (rx, false)
    else rx.acceptTail rx.rcvNxt (payload.drop skip)
  else rx.acceptTail segSeq payload

/-! ### Reporting -/

/-- The end of the stored interval that contains a byte. -/
def storedEnd (point : UInt32) : Option UInt32 :=
  ((rx.oo.rangeToIncl point).getLast?.or rx.oo.last?).bind fun (start, bytes) =>
    let stop := start + UInt32.ofNat bytes.length
    if Seq.geq point start && Seq.lt point stop then some stop else none

/-- Append a stored interval to the blocks reported so far, joining neighbours. -/
def pushBlock (blocks : List (UInt32 × UInt32)) (e : UInt32 × List UInt8) :
    List (UInt32 × UInt32) :=
  let stop := e.1 + UInt32.ofNat e.2.length
  match blocks.getLast? with
  | some last =>
    if last.2 = e.1 then blocks.dropLast ++ [(last.1, stop)] else blocks ++ [(e.1, stop)]
  | none => [(e.1, stop)]

/-- The contiguous out-of-order blocks above `rcvNxt`. -/
def sackBlocks : List (UInt32 × UInt32) :=
  (rx.oo.rangeFrom rx.rcvNxt ++ rx.oo.rangeTo rx.rcvNxt).foldl pushBlock []

/-- Hand out up to `n` delivered bytes. -/
def takeRead (n : ℕ) : RxState × List UInt8 :=
  ({ rx with readBuf := rx.readBuf.drop n }, rx.readBuf.take n)

end VeilNetwork.OnionStream.RxState
