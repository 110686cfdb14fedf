import VeilNetwork.App.Node

/-!
# Whole streams on carriers of their own

A session with a peer may put an application stream, as a whole, on a child channel instead of
its own connection. It pins each stream id that is opened through it, by either end, to a carrier
and to the endpoint the open names, for as long as the session lasts. A frame that comes by another
carrier, or names another endpoint, is refused; the frames of one stream never move from one
carrier to another.

When a child fails, and when the session ends, the streams on the child are aborted at the
dispatcher (`Node.abortAppStream`): the endpoint is told, unless it has been, and what the
dispatcher keeps of the stream is dropped. Streams on the connection itself are not.
-/

namespace VeilNetwork.App

/-! ### Frames -/

/-- The stream id of a frame. -/
def WireFrame.streamId {A : Type} : WireFrame A → ℕ
  | .appOpen k _ | .appData k _ _ | .appClose k _ | .appReceipt k _ _ => k

/-- The application and the endpoint that a frame names. -/
def WireFrame.scope {A : Type} : WireFrame A → EndpointKey A
  | .appOpen _ e | .appData _ e _ | .appClose _ e | .appReceipt _ e _ => e

/-- A frame that belongs to a stream. A window update names the stream in its payload, and may
name it in the header as well. -/
inductive StreamRecord (A : Type) where
  | frame (frame : WireFrame A)
  | window (headerId streamId increment : ℕ)
deriving DecidableEq

/-- The stream of a window update, unless the header names another. -/
def windowStream (headerId streamId : ℕ) : Option ℕ :=
  if headerId ≠ 0 ∧ headerId ≠ streamId then none else some streamId

/-! ### Pins -/

/-- Where the frames of a stream go: over the connection itself, over a child, or nowhere since
the child has failed. -/
inductive Route (B : Type) where
  | canonical
  | child (id : B)
  | failed
deriving DecidableEq

/-- The carrier that a frame came by: the connection or a child. -/
def Route.ofCarrier {B : Type} : Option B → Route B
  | none => .canonical
  | some id => .child id

/-- A stream's carrier and endpoint. The endpoint has yet to be told of the end of an active
stream. -/
structure Pin (A B : Type) where
  scope : EndpointKey A
  route : Route B
  active : Bool
  closing : Bool
deriving DecidableEq

/-- The most streams one session pins. -/
def maxPins : ℕ := 1024

/-- The streams of one session. -/
structure ReliableStreams (A B : Type) where
  enabled : Bool
  pins : Table ℕ (Pin A B)

namespace ReliableStreams

variable {A B : Type} [DecidableEq A] [DecidableEq B]

/-- No stream is pinned. -/
def new (enabled : Bool) : ReliableStreams A B := ⟨enabled, ∅⟩

variable (r : ReliableStreams A B)

/-- Change the pins. -/
def setPins (pins : Table ℕ (Pin A B)) : ReliableStreams A B :=
  { r with pins }

/-- The carrier of a frame to the peer, where `ready` is the child that can take new streams. -/
def route (r : ReliableStreams A B) (record : StreamRecord A) (ready : Option B) : Route B :=
  if r.enabled then
    match record with
    | .window headerId streamId _ =>
      match windowStream headerId streamId with
      | none => .failed
      | some k => (r.pins.lookup k).elim .canonical Pin.route
    | .frame frame =>
      match r.pins.lookup frame.streamId, frame with
      | some pin, _ => if pin.scope = frame.scope then pin.route else .failed
      | none, .appOpen _ _ => if r.pins.size < maxPins then .ofCarrier ready else .canonical
      | none, _ => .canonical
  else .canonical

/-- A frame to the peer has been taken: an open pins its stream, a close is remembered until the
peer acknowledges it. -/
def admitted (record : StreamRecord A) (route : Route B) : ReliableStreams A B :=
  if r.enabled then
    match record with
    | .frame (.appOpen k e) =>
      if r.pins.size < maxPins ∧ r.pins.lookup k = none then
        r.setPins (r.pins.insert k ⟨e, route, true, false⟩)
      else r
    | .frame (.appClose k _) => r.setPins (r.pins.modify k fun pin => { pin with closing := true })
    | _ => r
  else r

/-- The peer acknowledges a close. -/
def acknowledge : WireFrame A → ReliableStreams A B
  | .appReceipt k _ true =>
    r.setPins (r.pins.modify k fun pin => if pin.closing then { pin with active := false } else pin)
  | _ => r

/-- Check a frame from the peer against the pin of its stream. An open pins its stream. -/
def incomingParts (record : StreamRecord A) (route : Route B) :
    Except String (ReliableStreams A B) :=
  if ¬r.enabled ∧ route = .canonical then .ok r
  else match record with
  | .window headerId streamId _ =>
    match windowStream headerId streamId with
    | none => .error "bad App window stream identity"
    | some k =>
      match r.pins.lookup k with
      | some pin => if pin.route = route then .ok r else .error "App window carrier mismatch"
      | none => if route = .canonical then .ok r else .error "App window carrier mismatch"
  | .frame frame =>
    match r.pins.lookup frame.streamId, frame with
    | some pin, _ =>
      if pin.scope ≠ frame.scope ∨ pin.route ≠ route then
        .error "App stream carrier or scope mismatch"
      else .ok (r.acknowledge frame)
    | none, .appOpen k e =>
      -- past the limit a stream on the connection itself goes on without a pin
      if maxPins ≤ r.pins.size then
        if route = .canonical then .ok r else .error "reliable stream ownership capacity reached"
      else .ok (r.setPins (r.pins.insert k ⟨e, route, true, false⟩))
    | none, _ =>
      if route ≠ .canonical then .error "reliable child frame without AppOpen" else .ok r

/-- A frame from the peer has been dispatched: after a close the endpoint has been told. -/
def dispatched : StreamRecord A → ReliableStreams A B
  | .frame (.appClose k _) => r.setPins (r.pins.modify k fun pin => { pin with active := false })
  | _ => r

/-- The pins that a predicate on carriers picks, with their streams. -/
def pinned (on : Route B → Bool) : List (ℕ × Pin A B) :=
  (r.pins.entries.filter fun e => on e.2.route).map fun e => (e.1, e.2)

/-- Streams whose carrier is gone stay pinned, and go nowhere. -/
def fail (on : Route B → Bool) : ReliableStreams A B :=
  r.setPins <| (r.pinned on).foldl
    (fun pins e => pins.modify e.1 fun pin => { pin with active := false, route := .failed }) r.pins

end ReliableStreams

/-- The streams on one child. -/
def Route.onChild {B : Type} [DecidableEq B] (id : B) (route : Route B) : Bool :=
  decide (route = .child id)

/-- The streams on any child. -/
def Route.onAnyChild {B : Type} : Route B → Bool
  | .child _ => true
  | .canonical | .failed => false

namespace Node

variable {N A C : Type} [DecidableEq N] [DecidableEq A] [DecidableEq C] (host : Host N A C)

/-- End a stream whose carrier is gone. A waiting open is answered with a rejection. -/
def abortAppStream (s : Node N A C) (p : N) (k : ℕ) (e : EndpointKey A) (notify room : Bool) :
    Node N A C :=
  let s := if notify then s.sendTo host e ⟨.streamClose k, none⟩ room else s
  ((s.setTable (s.streamTable.close p k).2).dropRx (p, k)).appReceipt p k false

/-- What the dispatcher makes of a frame of a stream. -/
def dispatch (s : Node N A C) (p : N) (room : Bool) : StreamRecord A → DispatchResult A × Node N A C
  | .frame (.appOpen k e) => s.appOpen host p k e room
  | .frame (.appData k e data) => s.appData host p k e data room
  | .frame (.appClose k e) => s.appClose host p k e room
  | .frame (.appReceipt k _ accepted) => (.noResponse, s.appReceipt p k accepted)
  | .window _ k increment => (.noResponse, s.appWindowUpdate p k increment)

end Node

end VeilNetwork.App
