import Mathlib.Data.Finset.Basic
import VeilNetwork.App.Streams

/-!
# Application streams at one node

What a node keeps of application streams: the table of the streams that peers have opened
(`AppStreamTable`), the channels of the streams it has opened itself, the queues of the
local endpoints, the streams its IPC clients hold, and the streams of its proxy. A call of
`step` is a frame from a peer, one turn of a forwarder or of the task of a stream, or a
request of a client or of the proxy. Whether a bounded queue takes a message and whether a
frame finds a session are given with the call, as the rest of the node decides them.

Frames that the node sends to its peers change nothing here and are not kept. One thing is
written beside the state, for the statements about runs, and read by none of the code:
every debit of a receive window, with what has been handed over of it.
-/

namespace VeilNetwork.App

variable {N A C : Type}

/-! ### Streams and messages -/

/-- What the endpoint registry hands to an endpoint. -/
inductive AppMessage (N : Type) where
  | streamOpen (streamId : ℕ) (srcNodeId : N) (initialWindow : ℕ)
  | streamData (streamId : ℕ) (data : List UInt8)
  | streamClose (streamId : ℕ)
deriving DecidableEq

/-- A message in the queue of an endpoint, with the number of the debit it stands for. -/
structure Queued (N : Type) where
  message : AppMessage N
  debit : Option ℕ
deriving DecidableEq

/-- What an IPC client is told of streams. -/
inductive IpcEvent (N A : Type) where
  | streamOpenOk (streamId : ℕ)
  | streamOpenInbound (streamId : ℕ) (endpoint : EndpointKey A) (srcNodeId : N)
      (initialWindow : ℕ)
  | streamData (streamId : ℕ) (data : List UInt8)
  | streamClose (streamId : ℕ)
deriving DecidableEq

/-- A frame of the application family. -/
inductive WireFrame (A : Type) where
  | appOpen (streamId : ℕ) (endpoint : EndpointKey A)
  | appData (streamId : ℕ) (endpoint : EndpointKey A) (data : List UInt8)
  | appClose (streamId : ℕ) (endpoint : EndpointKey A)
  | appReceipt (streamId : ℕ) (endpoint : EndpointKey A) (accepted : Bool)
deriving DecidableEq

/-- What the dispatcher makes of a frame. -/
inductive DispatchResult (A : Type) where
  | noResponse
  | response (frame : WireFrame A)
  | violation (reason : String)
deriving DecidableEq

/-- A debit of the receive window of a peer's stream. -/
structure Debit (N : Type) where
  number : ℕ
  stream : N × ℕ
  bytes : ℕ
deriving DecidableEq

/-! ### The state of a node -/

/-- The wire route of an accepted stream whose opener is on a remote node. -/
structure AcceptorRemoteRoute (N A : Type) where
  openerNodeId : N
  endpoint : EndpointKey A
deriving DecidableEq

/-- One IPC client. -/
structure IpcClientState (N A : Type) where
  ownedStreamsOpener : Finset ℕ
  ownedStreamsAcceptor : Finset ℕ
  ownedStreamsAcceptorRoutes : Table ℕ (AcceptorRemoteRoute N A)
  /-- Everything the client was told, the last first. -/
  inbox : List (IpcEvent N A)

/-- A stream between two clients of this node: the opener, the endpoint of the acceptor, and
the bytes the opener may still send. -/
structure StreamEntry (A C : Type) where
  opener : C
  endpoint : EndpointKey A
  windowAToB : ℕ

/-- The wire route of a stream whose acceptor is on a remote node. -/
structure RemoteStreamEntry (N A : Type) where
  dstNodeId : N
  wireStreamId : ℕ
  endpoint : EndpointKey A

/-- The streams the IPC clients have opened, in one space of ids. -/
structure IpcStreamTable (N A C : Type) where
  streams : Table ℕ (StreamEntry A C)
  remoteStreams : Table ℕ (RemoteStreamEntry N A)
  nextId : ℕ

/-- Who opens a stream to a peer. -/
inductive Opener (C : Type) where
  | ipc (client : C)
  | proxy
deriving DecidableEq

/-- How far the task of a stream to a peer is. -/
inductive Phase (C : Type) where
  | opening (receipt : Option Bool)
  | bridged (client : C) (ipcId : ℕ)
  | proxied
  | over
deriving DecidableEq

/-- The task of a stream to a peer, with the receiving end of its channel. -/
structure LocalStream (N A C : Type) where
  opener : Opener C
  dst : N
  wireId : ℕ
  endpoint : EndpointKey A
  queue : List (List UInt8)
  senderDropped : Bool
  phase : Phase C

/-- What the node keeps of application streams. -/
structure Node (N A C : Type) where
  streamTable : AppStreamTable N A
  queues : EndpointKey A → List (Queued N)
  veilStreamRx : Table (N × ℕ) ℕ
  pendingReceipts : Table (N × ℕ) ℕ
  wireStreamCounter : ℕ
  locals : Table ℕ (LocalStream N A C)
  nextLocal : ℕ
  ipc : IpcStreamTable N A C
  clients : C → IpcClientState N A
  debits : List (Debit N)
  nextDebit : ℕ
  handed : List ℕ

/-- What does not change: the node's own id, which client has bound which endpoint, and the
well-known endpoint of exit proxies. -/
structure Host (N A C : Type) where
  localNodeId : N
  binding : EndpointKey A → Option C
  exitProxy : EndpointKey A

namespace Node

/-- A node that has just started. -/
def new : Node N A C where
  streamTable := .new
  queues _ := []
  veilStreamRx := ∅
  pendingReceipts := ∅
  wireStreamCounter := 1
  locals := ∅
  nextLocal := 0
  ipc := ⟨∅, ∅, 0⟩
  clients _ := ⟨∅, ∅, ∅, []⟩
  debits := []
  nextDebit := 0
  handed := []

variable [DecidableEq N] [DecidableEq A] [DecidableEq C] (host : Host N A C)

/-! ### Small changes -/

variable (s : Node N A C)

/-- Change what is kept of a client. -/
def setClient (c : C) (f : IpcClientState N A → IpcClientState N A) : Node N A C :=
  { s with clients := Function.update s.clients c (f (s.clients c)) }

/-- Tell a client something, unless its delivery queue is full. -/
def deliver (c : C) (event : IpcEvent N A) (room : Bool) : Node N A C :=
  if room then s.setClient c fun state => { state with inbox := event :: state.inbox }
  else s

variable (key : N × ℕ)

/-- Take the sending end of a channel out of the map, which drops it. -/
def dropRx : Node N A C :=
  match s.veilStreamRx.lookup key with
  | none => s
  | some h =>
    { s with
      veilStreamRx := s.veilStreamRx.erase key
      locals := s.locals.modify h fun l => { l with senderDropped := true } }

/-- Drop the receipt waiter of a stream. -/
def dropReceipt : Node N A C :=
  { s with pendingReceipts := s.pendingReceipts.erase key }

/-- Change the tasks of streams. -/
def setLocals (locals : Table ℕ (LocalStream N A C)) : Node N A C :=
  { s with locals }

/-- Change the task of a stream. -/
def setLocal (h : ℕ) (l : LocalStream N A C) : Node N A C :=
  s.setLocals (s.locals.insert h l)

/-- Change the streams of the IPC clients. -/
def setIpc (ipc : IpcStreamTable N A C) : Node N A C := { s with ipc }

variable (e : EndpointKey A)

/-- Change the queue of an endpoint. -/
def setQueue (queue : List (Queued N)) : Node N A C :=
  { s with queues := Function.update s.queues e queue }

/-- Route a message to an endpoint: it is dropped when the endpoint is not bound or its
queue is full. -/
def sendTo (message : Queued N) (room : Bool) : Node N A C :=
  if (host.binding e).isSome ∧ room then s.setQueue e (s.queues e ++ [message]) else s

/-! ### Frames from peers -/

/-- Change the streams that peers have opened. -/
def setTable (streamTable : AppStreamTable N A) : Node N A C :=
  { s with streamTable }

/-- Record a debit. -/
def noteDebit (stream : N × ℕ) (bytes : ℕ) : Node N A C :=
  { s with debits := ⟨s.nextDebit, stream, bytes⟩ :: s.debits, nextDebit := s.nextDebit + 1 }

/-- Forget the debits of a stream that was under the same peer and id. -/
def forgetDebits (stream : N × ℕ) : Node N A C :=
  { s with debits := s.debits.filter fun d => decide (d.stream ≠ stream) }

variable (p : N)

/-- A peer opens a stream. The receipt says accepted whether or not the endpoint is told. -/
def appOpen (k : ℕ) (e : EndpointKey A) (room : Bool) : DispatchResult A × Node N A C :=
  match s.streamTable.openStream p k e with
  | (.opened, table) =>
    (.response (.appReceipt k e true),
      ((s.setTable table).forgetDebits (p, k)).sendTo host e
        ⟨.streamOpen k p appStreamInitialWindow, none⟩ room)
  | _ => (.response (.appReceipt k e false), s)

/-- A peer sends data. A stream this node opened takes it first, by the peer and the id
alone; otherwise the receive window of the peer's stream is debited and the data goes to
the endpoint that the frame names. -/
def appData (k : ℕ) (e : EndpointKey A) (data : List UInt8) (room : Bool) :
    DispatchResult A × Node N A C :=
  match s.veilStreamRx.lookup (p, k) with
  | some h =>
    match s.locals.lookup h with
    | some l =>
      -- the channel is full, or its task is over
      if room ∧ l.phase ≠ .over then
        (.noResponse, s.setLocal h { l with queue := l.queue ++ [data] })
      else (.response (.appClose k e), s.dropRx (p, k))
    | none => (.response (.appClose k e), s.dropRx (p, k))
  | none =>
    match s.streamTable.receiveData p k data.length with
    | (.unknownStream, _) => (.response (.appClose k e), s)
    | (.windowExceeded, _) => (.violation "APP_DATA exceeds receive window", s)
    | (.accepted, table) =>
      (.noResponse,
        ((s.setTable table).noteDebit (p, k) data.length).sendTo host e
          ⟨.streamData k data, some s.nextDebit⟩ room)

/-- A peer closes a stream: the endpoint that the frame names is told, then whatever is open
under the peer and the id is closed. -/
def appClose (k : ℕ) (e : EndpointKey A) (room : Bool) : DispatchResult A × Node N A C :=
  let s := s.sendTo host e ⟨.streamClose k, none⟩ room
  (.response (.appReceipt k e true), (s.setTable (s.streamTable.close p k).2).dropRx (p, k))

/-- A peer answers an open. -/
def appReceipt (k : ℕ) (accepted : Bool) : Node N A C :=
  match s.pendingReceipts.lookup (p, k) with
  | none => s
  | some h =>
    let settle (l : LocalStream N A C) := match l.phase with
      | .opening _ => { l with phase := .opening (some accepted) }
      | _ => l
    (s.dropReceipt (p, k)).setLocals (s.locals.modify h settle)

/-- A peer grants send credit. -/
def appWindowUpdate (k increment : ℕ) : Node N A C :=
  s.setTable (s.streamTable.applyWindowUpdate p k increment)

/-! ### The forwarder of an endpoint -/

/-- Record that the data of a debit was handed over. -/
def handOver (debit : Option ℕ) : Node N A C :=
  { s with handed := debit.toList ++ s.handed }

/-- Take the next message of an endpoint and tell its client. -/
def forward (room : Bool) : Node N A C :=
  match host.binding e, s.queues e with
  | some c, q :: rest =>
    let s := s.setQueue e rest
    match q.message with
    | .streamOpen k src window =>
      -- ownership is claimed before the client can see the id
      let s := s.setClient c fun state =>
        { state with
          ownedStreamsAcceptor := insert k state.ownedStreamsAcceptor
          ownedStreamsAcceptorRoutes :=
            if src ≠ host.localNodeId then state.ownedStreamsAcceptorRoutes.insert k ⟨src, e⟩
            else state.ownedStreamsAcceptorRoutes }
      s.deliver c (.streamOpenInbound k e src window) room
    | .streamData k data =>
      (if room then s.handOver q.debit else s).deliver c (.streamData k data) room
    | .streamClose k =>
      let s := s.setClient c fun state =>
        { state with
          ownedStreamsAcceptor := state.ownedStreamsAcceptor.erase k
          ownedStreamsAcceptorRoutes := state.ownedStreamsAcceptorRoutes.erase k }
      s.deliver c (.streamClose k) room
  | _, _ => s

/-! ### Streams to peers -/

/-- How many wire ids an open tries. -/
def wireIdProbes : ℕ := 64

/-- Take a wire id that is free for a destination, from a counter that wraps. -/
def probeWire (s : Node N A C) (dst : N) : ℕ → ℕ → Option ℕ × ℕ
  | 0, counter => (none, counter)
  | fuel + 1, counter =>
    if (s.pendingReceipts.lookup (dst, counter)).isSome ∨
        (s.veilStreamRx.lookup (dst, counter)).isSome then
      s.probeWire dst fuel ((counter + 1) % 2 ^ 32)
    else (some counter, (counter + 1) % 2 ^ 32)

/-- Register the receipt waiter and the inbound channel of a new stream. -/
def addLocal (l : LocalStream N A C) : Node N A C :=
  { s with
    pendingReceipts := s.pendingReceipts.insert (l.dst, l.wireId) s.nextLocal
    veilStreamRx := s.veilStreamRx.insert (l.dst, l.wireId) s.nextLocal
    locals := s.locals.insert s.nextLocal l
    nextLocal := s.nextLocal + 1 }

/-- Register a new stream, whose open is sent; what was registered under its key is dropped. -/
def register (opener : Opener C) (dst : N) (w : ℕ) (e : EndpointKey A) : Node N A C :=
  (s.dropRx (dst, w)).addLocal ⟨opener, dst, w, e, [], false, .opening none⟩

/-- Drop the registrations of a stream that is not opened. -/
def deregister : Node N A C := (s.dropReceipt key).dropRx key

/-- Move the counter of wire ids. -/
def setCounter (counter : ℕ) : Node N A C :=
  { s with wireStreamCounter := counter }

/-- A client opens a stream to a peer; nothing is left of it when there is no session. -/
def openRemote (c : C) (dst : N) (e : EndpointKey A) (sent : Bool) : Node N A C :=
  match s.probeWire dst wireIdProbes s.wireStreamCounter with
  | (none, counter) => s.setCounter counter
  | (some w, counter) =>
    if sent then (s.setCounter counter).register (.ipc c) dst w e else s.setCounter counter

/-- The proxy opens a stream to an exit, without a look at which ids are free. -/
def connect (dst : N) : Node N A C :=
  (s.setCounter ((s.wireStreamCounter + 1) % 2 ^ 32)).register .proxy dst s.wireStreamCounter
    host.exitProxy

end Node

namespace IpcStreamTable

/-- An id for one more stream. -/
def allocId (t : IpcStreamTable N A C) : Option ℕ := App.allocId t.streams t.remoteStreams t.nextId

end IpcStreamTable

namespace Node

variable [DecidableEq N] [DecidableEq A] [DecidableEq C] (host : Host N A C) (s : Node N A C)

/-- A client owns a stream it has opened, and is told its id. -/
def claimOpener (c : C) (j : ℕ) : Node N A C :=
  (s.setClient c fun state =>
    { state with ownedStreamsOpener := insert j state.ownedStreamsOpener }).deliver c
      (.streamOpenOk j) true

/-- The task that opened a stream goes on, with the receipt or because time is up. -/
def openResult (h : ℕ) (expired : Bool) : Node N A C :=
  match s.locals.lookup h with
  | none => s
  | some l =>
    match l.phase with
    | .opening receipt =>
      if receipt = some true ∧ ¬expired then
        match l.opener with
        | .proxy => s.setLocal h { l with phase := .proxied }
        | .ipc c =>
          match s.ipc.allocId with
          | none =>
            -- the peer has accepted and is told to release its half
            (s.deregister (l.dst, l.wireId)).setLocal h { l with phase := .over }
          | some j =>
            let s := s.setIpc { s.ipc with
              remoteStreams := s.ipc.remoteStreams.insert j ⟨l.dst, l.wireId, l.endpoint⟩
              nextId := j }
            (s.setLocal h { l with phase := .bridged c j }).claimOpener c j
      else (s.deregister (l.dst, l.wireId)).setLocal h { l with phase := .over }
    | _ => s

/-- The bridge of a client's stream ends. -/
def endBridge (h : ℕ) (l : LocalStream N A C) (c : C) (j : ℕ) (room : Bool) : Node N A C :=
  let s := s.dropRx (l.dst, l.wireId)
  let s := s.setLocal h { l with phase := .over, queue := [], senderDropped := true }
  match s.ipc.remoteStreams.lookup j with
  | none => s
  | some _ =>
    (s.setIpc { s.ipc with remoteStreams := s.ipc.remoteStreams.erase j }).deliver c
      (.streamClose j) room

/-- One turn of the task that takes a stream's data to its opener. -/
def pump (h : ℕ) (room : Bool) : Node N A C :=
  match s.locals.lookup h with
  | none => s
  | some l =>
    match l.phase, l.queue with
    | .bridged c j, data :: rest =>
      if room then (s.setLocal h { l with queue := rest }).deliver c (.streamData j data) true
      else s.endBridge h l c j room
    | .bridged c j, [] => if l.senderDropped then s.endBridge h l c j room else s
    | .proxied, _ :: rest => s.setLocal h { l with queue := rest }
    | _, _ => s

/-- A connection of the proxy ends. -/
def proxyClose (h : ℕ) : Node N A C :=
  match s.locals.lookup h with
  | none => s
  | some l =>
    if l.phase = .proxied then
      (s.dropRx (l.dst, l.wireId)).setLocal h
        { l with phase := .over, queue := [], senderDropped := true }
    else s

/-- A connection of the proxy writes; it ends when the write fails. -/
def proxyWrite (h : ℕ) (sent : Bool) : Node N A C :=
  if sent then s else s.proxyClose h

/-! ### Requests of IPC clients -/

/-- The ceiling of the window of a stream between two clients. -/
def maxStreamInitialWindow : ℕ := 16 * 1024 * 1024

variable (c : C) (i : ℕ)

/-- A client gives up a stream. -/
def releaseStream : Node N A C :=
  s.setClient c fun state =>
    { state with
      ownedStreamsOpener := state.ownedStreamsOpener.erase i
      ownedStreamsAcceptor := state.ownedStreamsAcceptor.erase i
      ownedStreamsAcceptorRoutes := state.ownedStreamsAcceptorRoutes.erase i }

/-- A client opens a stream to an endpoint of this node. -/
def openLocal (e : EndpointKey A) (window : ℕ) (room : Bool) : Node N A C :=
  match host.binding e, s.ipc.allocId with
  | some _, some j =>
    let window := min window maxStreamInitialWindow
    -- an open that the acceptor is not told of is refused
    if room then
      let streams := s.ipc.streams.insert j ⟨c, e, window⟩
      let s := s.sendTo host e ⟨.streamOpen j host.localNodeId window, none⟩ room
      (s.setIpc { s.ipc with streams, nextId := j }).claimOpener c j
    else s.setIpc { s.ipc with nextId := j }
  | _, _ => s

/-- Close a stream between two clients and tell both. -/
def closePair (roomA roomB : Bool) : Node N A C :=
  match s.ipc.streams.lookup i with
  | none => s
  | some entry =>
    let s := s.setIpc { s.ipc with streams := s.ipc.streams.erase i }
    (s.sendTo host entry.endpoint ⟨.streamClose i, none⟩ roomB).deliver entry.opener
      (.streamClose i) roomA

variable (data : List UInt8)

/-- The opener of a stream between two clients writes. -/
def routeDataFromA (room roomA roomB : Bool) : Node N A C :=
  match s.ipc.streams.lookup i with
  | none => s
  | some entry =>
    -- a write past the window or to a full queue ends the stream
    if entry.windowAToB < data.length ∨ ¬room then
      (s.closePair host i roomA roomB).releaseStream c i
    else
      let entry' := { entry with windowAToB := entry.windowAToB - data.length }
      (s.setIpc { s.ipc with streams := s.ipc.streams.insert i entry' }).sendTo host
        entry.endpoint ⟨.streamData i data, none⟩ room

/-- The acceptor of a stream between two clients writes. -/
def routeDataFromB (room roomA roomB : Bool) : Node N A C :=
  match s.ipc.streams.lookup i with
  | none => s
  | some entry =>
    if room then s.deliver entry.opener (.streamData i data) room
    else (s.closePair host i roomA roomB).releaseStream c i

/-- A client writes on a stream it owns. The id decides the role: what the client has opened
goes before what it has accepted. -/
def streamData (sent room roomA roomB : Bool) : Node N A C :=
  let state := s.clients c
  if i ∈ state.ownedStreamsOpener then
    match s.ipc.remoteStreams.lookup i with
    | some target =>
      if sent then s
      else (s.dropRx (target.dstNodeId, target.wireStreamId)).releaseStream c i
    | none => s.routeDataFromA host c i data room roomA roomB
  else if i ∈ state.ownedStreamsAcceptor then
    match state.ownedStreamsAcceptorRoutes.lookup i with
    | some _ =>
      if sent then s
      else ((s.closePair host i roomA roomB).releaseStream c i).deliver c (.streamClose i) true
    | none => s.routeDataFromB host c i data room roomA roomB
  else s

/-- Close a stream to a peer. -/
def closeRemote : Node N A C :=
  match s.ipc.remoteStreams.lookup i with
  | some target =>
    (s.setIpc { s.ipc with remoteStreams := s.ipc.remoteStreams.erase i }).dropRx
      (target.dstNodeId, target.wireStreamId)
  | none => s

/-- A client closes a stream it owns, in whatever table it is. -/
def streamClose (roomA roomB : Bool) : Node N A C :=
  let state := s.clients c
  if i ∈ state.ownedStreamsOpener ∨ i ∈ state.ownedStreamsAcceptor then
    ((s.closeRemote i).closePair host i roomA roomB).releaseStream c i
  else s

/-- The acceptor of a stream between two clients grants credit. -/
def streamWindow (i increment : ℕ) : Node N A C :=
  if i ∈ (s.clients c).ownedStreamsAcceptor then
    let credit (window : ℕ) := min (min (window + increment) u32Max) maxStreamInitialWindow
    let streams := s.ipc.streams.modify i fun entry =>
      { entry with windowAToB := credit entry.windowAToB }
    s.setIpc { s.ipc with streams }
  else s

end Node

/-! ### Runs -/

/-- A call into the node. -/
inductive Call (N A C : Type) where
  | appOpen (p : N) (k : ℕ) (e : EndpointKey A) (room : Bool)
  | appData (p : N) (k : ℕ) (e : EndpointKey A) (data : List UInt8) (room : Bool)
  | appClose (p : N) (k : ℕ) (e : EndpointKey A) (room : Bool)
  | appReceipt (p : N) (k : ℕ) (accepted : Bool)
  | appWindowUpdate (p : N) (k increment : ℕ)
  | forward (e : EndpointKey A) (room : Bool)
  | openRemote (c : C) (dst : N) (e : EndpointKey A) (sent : Bool)
  | connect (dst : N)
  | openResult (h : ℕ) (expired : Bool)
  | pump (h : ℕ) (room : Bool)
  | proxyWrite (h : ℕ) (sent : Bool)
  | proxyClose (h : ℕ)
  | openLocal (c : C) (e : EndpointKey A) (window : ℕ) (room : Bool)
  | streamData (c : C) (i : ℕ) (data : List UInt8) (sent room roomA roomB : Bool)
  | streamClose (c : C) (i : ℕ) (roomA roomB : Bool)
  | streamWindow (c : C) (i increment : ℕ)

/-- One call. -/
def Node.step {N A C : Type} [DecidableEq N] [DecidableEq A] [DecidableEq C] (host : Host N A C)
    (s : Node N A C) : Call N A C → Node N A C
  | .appOpen p k e room => (s.appOpen host p k e room).2
  | .appData p k e data room => (s.appData host p k e data room).2
  | .appClose p k e room => (s.appClose host p k e room).2
  | .appReceipt p k accepted => s.appReceipt p k accepted
  | .appWindowUpdate p k increment => s.appWindowUpdate p k increment
  | .forward e room => s.forward host e room
  | .openRemote c dst e sent => s.openRemote c dst e sent
  | .connect dst => s.connect host dst
  | .openResult h expired => s.openResult h expired
  | .pump h room => s.pump h room
  | .proxyWrite h sent => s.proxyWrite h sent
  | .proxyClose h => s.proxyClose h
  | .openLocal c e window room => s.openLocal host c e window room
  | .streamData c i data sent room roomA roomB => s.streamData host c i data sent room roomA roomB
  | .streamClose c i roomA roomB => s.streamClose host c i roomA roomB
  | .streamWindow c i increment => s.streamWindow c i increment

end VeilNetwork.App
