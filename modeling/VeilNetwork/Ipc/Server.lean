import VeilNetwork.App.Node

/-!
# Streams between IPC clients

The stream table of the IPC server, the queues its frames go through, and the tasks that use
them. A stream between two clients has an opener and an acceptor. What the opener writes goes into
the queue of the acceptor's endpoint, from there by a forwarder task into the delivery queue of the
acceptor's connection, and from there to the client. What the acceptor writes goes into the
delivery queue of the opener's connection. All these queues have a bound, and none of the sends
waits: a full queue refuses. A stream may also be bound to a remote node; then a bridge task brings
what comes in to the opener's delivery queue.

A step is what a task does from one lock of the table to the next, a turn of a forwarder, a
frame read by a client, or time going by. The sweep of idle streams picks its streams under one
lock and closes each under another.

Beside the state stands, for the statements about runs and read by none of the code, the time of
the last use of each stream. A frame to a client is marked with the end of the stream it is for,
which only matters for a client that holds both.
-/

namespace VeilNetwork.Ipc

open App (u32Max)

open App.Node (maxStreamInitialWindow)

/-! ### Frames and queues -/

/-- An end of a stream: the two ends of one between clients, and the local end of one that is
bound to a remote node. -/
inductive End where
  | opener
  | acceptor
  | remote
deriving DecidableEq

/-- A frame to a client. -/
inductive Frame where
  | streamOpenInbound (streamId window : ℕ)
  | streamData (side : End) (streamId : ℕ) (data : List UInt8)
  | streamClose (side : End) (streamId : ℕ)
  | other (len : ℕ)
deriving DecidableEq

/-- A message to an endpoint. Other traffic becomes a frame, or is skipped. -/
inductive Message where
  | streamOpen (streamId window : ℕ)
  | streamData (streamId : ℕ) (data : List UInt8)
  | streamClose (streamId : ℕ)
  | other (frame : Option ℕ)
deriving DecidableEq

/-- The bounds of the queues, the length of an encoded frame, the client whose endpoint a queue
belongs to, and how long a stream may be idle. -/
structure Limits (C Q : Type) where
  endpointCap : ℕ
  deliveryCap : ℕ
  maxBytes : ℕ
  frameLen : Frame → ℕ
  owner : Q → C
  idleTimeout : ℕ

/-- What the task of a connection does: it waits for a request, it is about to close a stream on
which a write was refused, it is closing the streams of a client that is leaving, or it is over. -/
inductive Phase where
  | serving
  | closing (streamId : ℕ)
  | departing
  | gone
deriving DecidableEq

/-- A connection. -/
structure Client where
  opener : Finset ℕ
  acceptor : Finset ℕ
  delivery : List Frame
  phase : Phase

/-- A client that has not done anything yet. -/
def Client.new : Client := ⟨∅, ∅, [], .serving⟩

/-- The client has not left. -/
def Client.connected (client : Client) : Bool :=
  match client.phase with
  | .serving | .closing _ => true
  | .departing | .gone => false

/-! ### The table -/

/-- A stream between two clients. -/
structure StreamEntry (C Q : Type) where
  aDelivery : C
  bEndpoint : Q
  windowAToB : ℕ
  lastActivity : ℕ
  /-- When the stream was last used. -/
  lastUse : ℕ

/-- A stream bound to a remote node. -/
structure RemoteStreamEntry (C T : Type) where
  opener : C
  target : T
  lastActivity : ℕ
  /-- When the stream was last used. -/
  lastUse : ℕ

/-- Result of routing data. -/
inductive RouteOutcome where
  | sent
  | unknownStream
  | windowExhausted
  | peerBackpressure
deriving DecidableEq

/-- The server. -/
structure Server (C Q T : Type) where
  clock : ℕ
  clients : C → Client
  queues : Q → List Message
  streams : Table ℕ (StreamEntry C Q)
  remoteStreams : Table ℕ (RemoteStreamEntry C T)
  nextId : ℕ
  /-- The streams the sweep has picked and not closed yet. -/
  stale : List ℕ

namespace Server

variable {C Q T : Type}

/-- A server that has just started. -/
def new : Server C Q T where
  clock := 0
  clients _ := .new
  queues _ := []
  streams := ∅
  remoteStreams := ∅
  nextId := 0
  stale := []

variable [DecidableEq C] [DecidableEq Q]

/-! ### Small changes -/

variable (s : Server C Q T)

/-- Change what is kept of a client. -/
def setClient (c : C) (f : Client → Client) : Server C Q T :=
  { s with clients := Function.update s.clients c (f (s.clients c)) }

/-- Change the queue of an endpoint. -/
def setQueue (q : Q) (queue : List Message) : Server C Q T :=
  { s with queues := Function.update s.queues q queue }

/-- Change the streams between clients. -/
def setStreams (streams : Table ℕ (StreamEntry C Q)) : Server C Q T :=
  { s with streams }

/-- Change the streams bound to remote nodes. -/
def setRemote (remoteStreams : Table ℕ (RemoteStreamEntry C T)) : Server C Q T :=
  { s with remoteStreams }

/-! ### Queues with a bound -/

variable (lim : Limits C Q)

/-- The delivery queue of a client takes a frame: it is there, it has room, and the bytes in it
stay within the budget. -/
def Accepts (c : C) (frame : Frame) : Prop :=
  (s.clients c).phase ≠ .gone ∧ (s.clients c).delivery.length < lim.deliveryCap ∧
    ((s.clients c).delivery.map lim.frameLen).sum + lim.frameLen frame ≤ lim.maxBytes

instance (s : Server C Q T) (c : C) (frame : Frame) : Decidable (s.Accepts lim c frame) :=
  inferInstanceAs (Decidable (_ ∧ _ ∧ _))

/-- Put a frame into the delivery queue of a client. -/
def deliver (c : C) (frame : Frame) : Server C Q T :=
  s.setClient c fun client => { client with delivery := client.delivery ++ [frame] }

/-- Send a frame to a client, unless its delivery queue refuses it. -/
def trySend (c : C) (frame : Frame) : Server C Q T :=
  if s.Accepts lim c frame then s.deliver c frame else s

/-- The queue of an endpoint takes a message. -/
def HasRoom (q : Q) : Prop :=
  (s.clients (lim.owner q)).phase ≠ .gone ∧ (s.queues q).length < lim.endpointCap

instance (s : Server C Q T) (q : Q) : Decidable (s.HasRoom lim q) :=
  inferInstanceAs (Decidable (_ ∧ _))

/-- Put a message into the queue of an endpoint. -/
def enqueue (q : Q) (message : Message) : Server C Q T :=
  s.setQueue q (s.queues q ++ [message])

/-- Send a message to an endpoint, unless its queue refuses it. -/
def trySendTo (q : Q) (message : Message) : Server C Q T :=
  if s.HasRoom lim q then s.enqueue q message else s

section Frame

variable (s : Server C Q T)

omit [DecidableEq Q] in
@[simp] theorem streams_trySend (c : C) (frame : Frame) :
    (s.trySend lim c frame).streams = s.streams := by
  rw [trySend]
  split_ifs <;> rfl

omit [DecidableEq Q] in
@[simp] theorem queues_trySend (c : C) (frame : Frame) :
    (s.trySend lim c frame).queues = s.queues := by
  rw [trySend]
  split_ifs <;> rfl

omit [DecidableEq C] in
@[simp] theorem streams_trySendTo (q : Q) (message : Message) :
    (s.trySendTo lim q message).streams = s.streams := by
  rw [trySendTo]
  split_ifs <;> rfl

omit [DecidableEq C] in
@[simp] theorem clients_trySendTo (q : Q) (message : Message) :
    (s.trySendTo lim q message).clients = s.clients := by
  rw [trySendTo]
  split_ifs <;> rfl

end Frame

/-! ### The calls of the table -/

/-- An id for one more stream. -/
def allocId (s : Server C Q T) : Option ℕ := App.allocId s.streams s.remoteStreams s.nextId

variable (s : Server C Q T)

/-- Open a stream to a local endpoint. An open that the acceptor is not told of is refused, and
its id is not used. -/
def openLocal (c : C) (q : Q) (window : ℕ) : Option ℕ × Server C Q T :=
  match s.allocId with
  | none => (none, s)
  | some i =>
    let window := min window maxStreamInitialWindow
    if s.HasRoom lim q then
      let s := { s with nextId := i }.enqueue q (.streamOpen i window)
      (some i, s.setStreams (s.streams.insert i ⟨c, q, window, s.clock, s.clock⟩))
    else (none, { s with nextId := i })

/-- Open a stream to a remote node. -/
def openRemote (c : C) (target : T) : Option ℕ × Server C Q T :=
  match s.allocId with
  | none => (none, s)
  | some i =>
    (some i, { s with nextId := i }.setRemote
      (s.remoteStreams.insert i ⟨c, target, s.clock, s.clock⟩))

section

variable (i : ℕ)

/-- The route of a stream to a remote node, for data that goes out. -/
def remoteRoute : Option T × Server C Q T :=
  match s.remoteStreams.lookup i with
  | none => (none, s)
  | some entry =>
    (some entry.target, s.setRemote (s.remoteStreams.insert i
      { entry with lastActivity := s.clock, lastUse := s.clock }))

/-- Remove a stream to a remote node. -/
def closeRemote : Option (RemoteStreamEntry C T) × Server C Q T :=
  match s.remoteStreams.lookup i with
  | none => (none, s)
  | some entry => (some entry, s.setRemote (s.remoteStreams.erase i))

/-- A stream between clients has been used. -/
def refresh (entry : StreamEntry C Q) (window : ℕ) : Server C Q T :=
  s.setStreams (s.streams.insert i
    { entry with windowAToB := window, lastActivity := s.clock, lastUse := s.clock })

/-- The opener writes. A refused message leaves the window as it was. -/
def routeDataFromA (data : List UInt8) : RouteOutcome × Server C Q T :=
  match s.streams.lookup i with
  | none => (.unknownStream, s)
  | some entry =>
    let len := min data.length u32Max
    if entry.windowAToB < len then (.windowExhausted, s)
    else if s.HasRoom lim entry.bEndpoint then
      (.sent, (s.refresh i entry (entry.windowAToB - len)).enqueue entry.bEndpoint
        (.streamData i data))
    else (.peerBackpressure, s.refresh i entry entry.windowAToB)

/-- The acceptor writes. -/
def routeDataFromB (data : List UInt8) : RouteOutcome × Server C Q T :=
  match s.streams.lookup i with
  | none => (.unknownStream, s)
  | some entry =>
    let s := s.refresh i entry entry.windowAToB
    if s.Accepts lim entry.aDelivery (.streamData .opener i data) then
      (.sent, s.deliver entry.aDelivery (.streamData .opener i data))
    else (.peerBackpressure, s)

/-- The acceptor grants credit. -/
def windowUpdateFromB (i increment : ℕ) : Server C Q T :=
  match s.streams.lookup i with
  | none => s
  | some entry =>
    s.refresh i entry (min (min (entry.windowAToB + increment) u32Max) maxStreamInitialWindow)

/-- Keep a stream that is quiet. The timer of a stream to a remote node is not set back. -/
def touch : Server C Q T :=
  match s.streams.lookup i, s.remoteStreams.lookup i with
  | some entry, _ => s.refresh i entry entry.windowAToB
  | none, some entry =>
    s.setRemote (s.remoteStreams.insert i { entry with lastUse := s.clock })
  | none, none => s

/-- Close a stream and tell both ends. -/
def close : Server C Q T :=
  match s.streams.lookup i with
  | none => s
  | some entry =>
    let s := s.setStreams (s.streams.erase i)
    (s.trySendTo lim entry.bEndpoint (.streamClose i)).trySend lim entry.aDelivery
      (.streamClose .opener i)

end

/-- Closing a stream removes it and no other. -/
theorem lookup_streams_close (i j : ℕ) :
    (s.close lim i).streams.lookup j = if j = i then none else s.streams.lookup j := by
  rw [close]
  split
  next hnone =>
    split_ifs with heq
    · rw [heq, hnone]
    · rfl
  · rw [streams_trySend, streams_trySendTo]
    exact Table.lookup_erase_eq_ite _ _ _

/-- Pick the streams that have been idle, by a clock read before the lock was taken. -/
def staleStreams (now : ℕ) : List ℕ :=
  (s.streams.entries.filter fun e => decide (lim.idleTimeout ≤ now - e.2.lastActivity)).map
    Sigma.fst

/-- Remove the streams to remote nodes that have been idle. Their openers are not told. -/
def reapStaleRemote (now : ℕ) : Server C Q T :=
  s.setRemote (s.remoteStreams.retain fun _ entry =>
    decide (¬lim.idleTimeout ≤ now - entry.lastActivity))

/-! ### The tasks -/

/-- A client gives up a stream. -/
def release (c : C) (i : ℕ) : Server C Q T :=
  s.setClient c fun client =>
    { client with opener := client.opener.erase i, acceptor := client.acceptor.erase i }

/-- The task of a connection goes on to something else. -/
def setPhase (c : C) (phase : Phase) : Server C Q T :=
  s.setClient c fun client => { client with phase }

/-- A client owns a stream it has opened. -/
def claimOpener (c : C) (i : ℕ) : Server C Q T :=
  s.setClient c fun client => { client with opener := insert i client.opener }

/-- After a write: one that was refused is followed by a close of the stream. -/
def settle (c : C) (i : ℕ) : RouteOutcome → Server C Q T
  | .sent | .unknownStream => s
  | .windowExhausted | .peerBackpressure => s.setPhase c (.closing i)

/-- A client writes on a stream it owns. -/
def streamData (c : C) (i : ℕ) (data : List UInt8) (sent : Bool) : Server C Q T :=
  if i ∈ (s.clients c).opener then
    match s.remoteRoute i with
    | (some _, s) => if sent then s else s.release c i
    | (none, _) =>
      let out := s.routeDataFromA lim i data
      out.2.settle c i out.1
  else if i ∈ (s.clients c).acceptor then
    let out := s.routeDataFromB lim i data
    out.2.settle c i out.1
  else s

/-- A client closes a stream it owns. -/
def closeOwned (c : C) (i : ℕ) : Server C Q T :=
  if i ∈ (s.clients c).opener ∨ i ∈ (s.clients c).acceptor then
    ((s.closeRemote i).2.close lim i).release c i
  else s

/-- The forwarder of an endpoint takes a message. A frame that the delivery queue refuses is
gone. -/
def forward (q : Q) : Server C Q T :=
  match s.queues q with
  | [] => s
  | message :: rest =>
    let c := lim.owner q
    let s := s.setQueue q rest
    match message with
    | .streamOpen i window =>
      (s.setClient c fun client => { client with acceptor := insert i client.acceptor }).trySend lim
        c (.streamOpenInbound i window)
    | .streamData i data => s.trySend lim c (.streamData .acceptor i data)
    | .streamClose i =>
      (s.setClient c fun client => { client with acceptor := client.acceptor.erase i }).trySend lim
        c (.streamClose .acceptor i)
    | .other none => s
    | .other (some len) => s.trySend lim c (.other len)

/-- A client reads a frame. -/
def drain (c : C) : Server C Q T :=
  match (s.clients c).delivery with
  | [] => s
  | _ :: rest => s.setClient c fun client => { client with delivery := rest }

/-- The bridge of a stream to a remote node ends, and tells the opener if it is the first to
remove the stream. -/
def bridgeEnd (i : ℕ) : Server C Q T :=
  match s.closeRemote i with
  | (none, s) => s
  | (some entry, s) => s.trySend lim entry.opener (.streamClose .remote i)

/-- Data comes in from a remote node. The bridge does not go through the table, and ends when the
opener's queue is full. -/
def bridgeData (i : ℕ) (data : List UInt8) : Server C Q T :=
  match s.remoteStreams.lookup i with
  | none => s
  | some entry =>
    let s := s.setRemote (s.remoteStreams.insert i { entry with lastUse := s.clock })
    if s.Accepts lim entry.opener (.streamData .remote i data) then
      s.deliver entry.opener (.streamData .remote i data)
    else s.bridgeEnd lim i

end Server

/-! ### Steps -/

/-- What happens at a server. -/
inductive Event (C Q T : Type) where
  | tick (elapsed : ℕ)
  | openLocal (c : C) (q : Q) (window : ℕ)
  | openRemote (c : C) (target : T)
  | streamData (c : C) (i : ℕ) (data : List UInt8) (sent : Bool)
  | streamClose (c : C) (i : ℕ)
  | streamWindow (c : C) (i increment : ℕ)
  | finish (c : C)
  | touch (i : ℕ)
  | bridgeData (i : ℕ) (data : List UInt8)
  | bridgeEnd (i : ℕ)
  | reapSelect (now : ℕ)
  | reapClose
  | reapStaleRemote (now : ℕ)
  | forward (q : Q)
  | drain (c : C)
  | otherMessage (q : Q) (frame : Option ℕ)
  | otherFrame (c : C) (len : ℕ)
  | depart (c : C)
  | departClose (c : C) (i : ℕ)
  | departEnd (c : C)

namespace Server

variable {C Q T : Type} [DecidableEq C] [DecidableEq Q] (lim : Limits C Q)

/-- One step. A client is served while its connection waits for a request; the sweep reads the
clock before it takes the lock. -/
def step (s : Server C Q T) : Event C Q T → Server C Q T
  | .tick elapsed => { s with clock := s.clock + elapsed }
  | .openLocal c q window =>
    if (s.clients c).phase = .serving then
      match s.openLocal lim c q window with
      | (some i, s) => s.claimOpener c i
      | (none, s) => s
    else s
  | .openRemote c target =>
    if (s.clients c).phase = .serving then
      match s.openRemote c target with
      | (some i, s) => s.claimOpener c i
      | (none, s) => s
    else s
  | .streamData c i data sent =>
    if (s.clients c).phase = .serving then s.streamData lim c i data sent else s
  | .streamClose c i => if (s.clients c).phase = .serving then s.closeOwned lim c i else s
  | .streamWindow c i increment =>
    if (s.clients c).phase = .serving ∧ i ∈ (s.clients c).acceptor then
      s.windowUpdateFromB i increment
    else s
  | .finish c =>
    match (s.clients c).phase with
    | .closing i => ((s.close lim i).release c i).setPhase c .serving
    | _ => s
  | .touch i => s.touch i
  | .bridgeData i data => s.bridgeData lim i data
  | .bridgeEnd i => s.bridgeEnd lim i
  | .reapSelect now =>
    if now ≤ s.clock ∧ s.stale = [] then { s with stale := s.staleStreams lim now } else s
  | .reapClose =>
    match s.stale with
    | [] => s
    | i :: rest => { s with stale := rest }.close lim i
  | .reapStaleRemote now =>
    if now ≤ s.clock ∧ s.stale = [] then s.reapStaleRemote lim now else s
  | .forward q => if (s.clients (lim.owner q)).phase ≠ .gone then s.forward lim q else s
  | .drain c => if (s.clients c).connected then s.drain c else s
  | .otherMessage q frame => s.trySendTo lim q (.other frame)
  | .otherFrame c len => s.trySend lim c (.other len)
  | .depart c => if (s.clients c).phase = .serving then s.setPhase c .departing else s
  | .departClose c i => if (s.clients c).phase = .departing then s.closeOwned lim c i else s
  | .departEnd c =>
    if (s.clients c).phase = .departing ∧ (s.clients c).opener = ∅ ∧ (s.clients c).acceptor = ∅ then
      s.setPhase c .gone
    else s

end Server

end VeilNetwork.Ipc
