import VeilNetwork.App.Slots

/-!
# The ends of a stream

The node of `Node` with the sessions its peers' frames come by, and with the ends that no frame
and no request brings about: a carrier fails, a session ends, a client disconnects. Beside the
state stands the set of the streams that peers have opened and that neither end has closed, which
none of the code reads. A step is an event of a session, of a client or of a task.
-/

namespace VeilNetwork.App

open Finset Node AppStreamTable

variable {N A C B : Type}

namespace Node

variable {N A C : Type} [DecidableEq N] [DecidableEq A] [DecidableEq C] (host : Host N A C)
  (s : Node N A C)

/-- Close a stream that a client owns: a stream to a peer, or one between two clients. -/
def closeOwnedStream (i : ℕ) (roomA roomB : Bool) : Node N A C :=
  match s.ipc.remoteStreams.lookup i with
  | some _ => s.closeRemote i
  | none => s.closePair host i roomA roomB

/-- The streams a client owns, as opener or as acceptor. -/
def ownedStreamIds (c : C) : List ℕ :=
  ((s.clients c).ownedStreamsOpener ∪ (s.clients c).ownedStreamsAcceptor).sort (· ≤ ·)

/-- Close every stream a departing client still owns. -/
def clientStreamCleanup (c : C) (roomA roomB : ℕ → Bool) : Node N A C :=
  (s.ownedStreamIds c).foldl (fun s i => s.closeOwnedStream host i (roomA i) (roomB i)) s

/-- The stream a peer has opened that a client has accepted under an id. -/
def accepted (c : C) (i : ℕ) : Option (N × ℕ) :=
  ((s.clients c).ownedStreamsAcceptorRoutes.lookup i).map fun route => (route.openerNodeId, i)

/-- The accepted stream that a request of its client ends: by a close, or by a write that does
not reach the peer. -/
def ends : Call N A C → Option (N × ℕ)
  | .streamClose c i _ _ =>
    if i ∈ (s.clients c).ownedStreamsOpener ∨ i ∈ (s.clients c).ownedStreamsAcceptor then
      s.accepted c i
    else none
  | .streamData c i _ sent _ _ _ =>
    if sent = false ∧ i ∉ (s.clients c).ownedStreamsOpener ∧
        i ∈ (s.clients c).ownedStreamsAcceptor then
      s.accepted c i
    else none
  | _ => none

end Node

/-! ### The state -/

/-- Who opened a stream between this node and a peer. -/
inductive Side where
  | theirs
  | ours
deriving DecidableEq

/-- A node, its sessions, and the streams of its peers that are open. -/
structure Daemon (N A C B : Type) where
  host : Host N A C
  node : Node N A C
  sessions : Table N (ReliableStreams A B)
  openStreams : Finset (N × ℕ)

namespace Daemon

/-- A node that has just started. -/
def new (localNodeId : N) (exitProxy : EndpointKey A) : Daemon N A C B where
  host := ⟨localNodeId, fun _ => none, exitProxy⟩
  node := .new
  sessions := ∅
  openStreams := ∅

variable [DecidableEq N] [DecidableEq A] [DecidableEq C] [DecidableEq B] (d : Daemon N A C B)
  (p : N)

/-- Change the streams of a session. -/
def setSession (r : ReliableStreams A B) : Daemon N A C B :=
  { d with sessions := d.sessions.insert p r }

/-- Change the node. -/
def setNode (node : Node N A C) : Daemon N A C B := { d with node }

/-- Some streams are over. -/
def finish (ended : N × ℕ → Bool) : Daemon N A C B :=
  { d with openStreams := d.openStreams.filter fun key => ended key = false }

/-! ### Steps -/

/-- Abort the streams of a session on some carriers. -/
def abort (r : ReliableStreams A B) (on : Route B → Bool) (room : ℕ → Bool) : Daemon N A C B :=
  let node := (r.pinned on).foldl (fun s e =>
    s.abortAppStream d.host p e.1 e.2.scope e.2.active (room e.1)) d.node
  ((d.setNode node).setSession p (r.fail on)).finish fun key =>
    decide (key.1 = p ∧ key.2 ∈ (r.pinned on).map Prod.fst)

/-- The record of what a frame of a peer opens and closes. -/
def note (side : Side) (record : StreamRecord A) (result : DispatchResult A) : Daemon N A C B :=
  match record with
  | .frame (.appOpen k e) =>
    if result = .response (.appReceipt k e true) then
      { d with openStreams := insert (p, k) d.openStreams }
    else d
  | .frame (.appClose k _) =>
    if side = .theirs then d.finish fun key => decide (key = (p, k)) else d
  | _ => d

/-- What becomes of a child after a frame that came by it: a reply waits in a queue with a bound,
and the child does not outlive a violation. -/
def settle (child : B) (r : ReliableStreams A B) (record : StreamRecord A) (pushed : Bool)
    (roomAbort : ℕ → Bool) :
    DispatchResult A → Daemon N A C B
  | .violation _ => d.abort p r (Route.onChild child) roomAbort
  | .noResponse => d.setSession p (r.dispatched record)
  | .response reply =>
    let r := r.admitted (.frame reply) (.child child)
    if pushed then d.setSession p (r.dispatched record)
    else d.abort p r (Route.onChild child) roomAbort

/-- A frame of a peer comes by a carrier of the session. -/
def receive (carrier : Option B) (side : Side) (record : StreamRecord A) (room pushed : Bool)
    (roomAbort : ℕ → Bool) : Daemon N A C B :=
  match d.sessions.lookup p with
  | none => d
  | some r =>
    match r.incomingParts record (.ofCarrier carrier), carrier with
    | .error _, none => d
    | .error _, some child => d.abort p r (Route.onChild child) roomAbort
    | .ok r, carrier =>
      let out := d.node.dispatch d.host p room record
      let d := ((d.setNode out.2).setSession p r).note p side record out.1
      match carrier with
      | none => d
      | some child => d.settle p child r record pushed roomAbort out.1

/-- A frame leaves for a peer by the carrier of its stream. -/
def transmit (record : StreamRecord A) (ready : Option B) (committed : Bool)
    (roomAbort : ℕ → Bool) : Daemon N A C B :=
  match d.sessions.lookup p with
  | none => d
  | some r =>
    match r.route record ready with
    | .failed => d
    | .canonical => d.setSession p (r.admitted record .canonical)
    | .child id =>
      let r := r.admitted record (.child id)
      if committed then d.setSession p r else d.abort p r (Route.onChild id) roomAbort

/-- A session starts. -/
def startSession (enabled : Bool) : Daemon N A C B :=
  match d.sessions.lookup p with
  | none => d.setSession p (.new enabled)
  | some _ => d

/-- A child of a session fails. -/
def failChild (child : B) (room : ℕ → Bool) : Daemon N A C B :=
  match d.sessions.lookup p with
  | none => d
  | some r => d.abort p r (Route.onChild child) room

/-- A session ends, and with it every stream of the peer. The streams on its children are
aborted. -/
def endSession (room : ℕ → Bool) : Daemon N A C B :=
  match d.sessions.lookup p with
  | none => d
  | some r =>
    let d := d.abort p r Route.onAnyChild room
    { d with sessions := d.sessions.erase p }.finish fun key => decide (key.1 = p)

/-- A client binds an endpoint. -/
def bind (c : C) (e : EndpointKey A) : Daemon N A C B :=
  match d.host.binding e with
  | none => { d with host := { d.host with binding := Function.update d.host.binding e (some c) } }
  | some _ => d

/-- A client is gone: its streams are closed, then its endpoints are unbound and their queues
with them. -/
def disconnect (c : C) (roomA roomB : ℕ → Bool) : Daemon N A C B :=
  let node := d.node.clientStreamCleanup d.host c roomA roomB
  { host := { d.host with
      binding := fun e => if d.host.binding e = some c then none else d.host.binding e }
    node := { (node.setClient c fun _ => ⟨∅, ∅, ∅, []⟩) with
      queues := fun e => if d.host.binding e = some c then [] else node.queues e }
    sessions := d.sessions
    openStreams := d.openStreams.filter fun key =>
      ∀ i ∈ d.node.ownedStreamIds c, d.node.accepted c i ≠ some key }

/-- A request of a client, or a turn of a task. -/
def call (d : Daemon N A C B) (call : Call N A C) : Daemon N A C B :=
  if call.ofPeer then d
  else (d.setNode (d.node.step d.host call)).finish fun key => decide (d.node.ends call = some key)

end Daemon

/-- What happens at a daemon. -/
inductive DaemonEvent (N A C B : Type) where
  | startSession (p : N) (enabled : Bool)
  | receive (p : N) (carrier : Option B) (side : Side) (record : StreamRecord A)
      (room pushed : Bool) (roomAbort : ℕ → Bool)
  | transmit (p : N) (record : StreamRecord A) (ready : Option B) (committed : Bool)
      (roomAbort : ℕ → Bool)
  | failChild (p : N) (child : B) (room : ℕ → Bool)
  | endSession (p : N) (room : ℕ → Bool)
  | bind (c : C) (e : EndpointKey A)
  | disconnect (c : C) (roomA roomB : ℕ → Bool)
  | call (call : Call N A C)

namespace Daemon

/-! ### What each step does to the table -/

section Kept

theorem finish_openStreams_subset (d : Daemon N A C B) (ended : N × ℕ → Bool) :
    (d.finish ended).openStreams ⊆ d.openStreams := filter_subset _ _

variable [DecidableEq N] {d d' d'' : Daemon N A C B}

/-- A step that keeps the counts right, and the entries among the open streams. -/
structure Kept (d d' : Daemon N A C B) : Prop where
  counted : d.node.streamTable.Counted → d'.node.streamTable.Counted
  within : d.node.streamTable.Within d.openStreams → d'.node.streamTable.Within d'.openStreams

theorem Kept.refl (d : Daemon N A C B) : Kept d d := ⟨id, id⟩

theorem Kept.trans (h : Kept d d') (h' : Kept d' d'') : Kept d d'' :=
  ⟨h'.counted ∘ h.counted, h'.within ∘ h.within⟩

theorem Kept.setSession (h : Kept d d') (p : N) (r : ReliableStreams A B) :
    Kept d (d'.setSession p r) := ⟨h.counted, h.within⟩

variable [DecidableEq A]

theorem streamTable_abortAppStream (host : Host N A C) (s : Node N A C) (p : N) (k : ℕ)
    (e : EndpointKey A) (notify room : Bool) :
    (s.abortAppStream host p k e notify room).streamTable = (s.streamTable.close p k).2 := by
  refine (((Node.Aside.refl _).dropRx (p, k)).appReceipt p k false).table.trans ?_
  cases notify with
  | false => rfl
  | true => exact congrArg (fun t => (t.close p k).2) (books_sendTo s e _ room).1

variable (d : Daemon N A C B)

/-- Aborting streams closes them one after the other. -/
theorem kept_abort (p : N) (r : ReliableStreams A B) (on : Route B → Bool) (room : ℕ → Bool) :
    Kept d (d.abort p r on room) := by
  rw [abort]
  generalize r.pinned on = pins
  suffices h : ∀ (s : Node N A C) (streams : Finset (N × ℕ)),
      let s' := pins.foldl (fun s e =>
        s.abortAppStream d.host p e.1 e.2.scope e.2.active (room e.1)) s
      (s.streamTable.Counted → s'.streamTable.Counted) ∧
        (s.streamTable.Within streams → s'.streamTable.Within (streams.filter fun key =>
          decide (key.1 = p ∧ key.2 ∈ pins.map Prod.fst) = false)) from
    ⟨(h d.node d.openStreams).1, (h d.node d.openStreams).2⟩
  induction pins with
  | nil =>
    intro s streams
    refine ⟨id, fun hwithin => hwithin.mono fun key hkey => ?_⟩
    exact mem_filter.mpr ⟨hkey, by simp⟩
  | cons e pins ih =>
    intro s streams
    obtain ⟨hcount, hwithin⟩ := ih (s.abortAppStream d.host p e.1 e.2.scope e.2.active (room e.1))
      (streams.erase (p, e.1))
    rw [streamTable_abortAppStream] at hcount hwithin
    refine ⟨fun h => hcount (h.close p e.1), fun h => (hwithin (h.close p e.1)).mono ?_⟩
    intro key hkey
    obtain ⟨hkey, hrest⟩ := mem_filter.mp hkey
    obtain ⟨hne, hkey⟩ := mem_erase.mp hkey
    refine mem_filter.mpr ⟨hkey, decide_eq_false ?_⟩
    rintro ⟨hp, hmem⟩
    rcases List.mem_cons.mp hmem with heq | hmem
    · exact hne (Prod.ext hp heq)
    · exact of_decide_eq_false hrest ⟨hp, hmem⟩

/-- The receipt says whether a peer's open takes a slot. -/
theorem streamTable_appOpen (host : Host N A C) (s : Node N A C) (p : N) (k : ℕ)
    (e : EndpointKey A) (room : Bool) :
    (s.appOpen host p k e room).2.streamTable = (s.streamTable.openStream p k e).2 ∧
      ((s.appOpen host p k e room).1 = .response (.appReceipt k e true) ↔
        (s.streamTable.openStream p k e).1 = .opened) := by
  rw [appOpen]
  rcases hopen : s.streamTable.openStream p k e with ⟨result, table⟩
  cases result with
  | opened => exact ⟨(books_sendTo _ e _ room).1, iff_of_true rfl rfl⟩
  | alreadyOpen | capacityReached =>
    obtain rfl := openStream_refused hopen (by simp)
    exact ⟨rfl, by simp⟩

variable [DecidableEq B]

theorem kept_settle (p : N) (child : B) (r : ReliableStreams A B) (record : StreamRecord A)
    (pushed : Bool) (roomAbort : ℕ → Bool) (result : DispatchResult A) :
    Kept d (d.settle p child r record pushed roomAbort result) ∧
      (d.settle p child r record pushed roomAbort result).openStreams ⊆ d.openStreams := by
  cases result with
  | violation reason => exact ⟨kept_abort d p r _ roomAbort, finish_openStreams_subset _ _⟩
  | noResponse => exact ⟨(Kept.refl d).setSession p _, Finset.Subset.refl _⟩
  | response reply =>
    rw [settle]
    split_ifs
    · exact ⟨(Kept.refl d).setSession p _, Finset.Subset.refl _⟩
    · exact ⟨kept_abort d p _ _ roomAbort, finish_openStreams_subset _ _⟩

theorem kept_transmit (p : N) (record : StreamRecord A) (ready : Option B) (committed : Bool)
    (roomAbort : ℕ → Bool) : Kept d (d.transmit p record ready committed roomAbort) := by
  rw [transmit]
  split
  · exact .refl d
  · split
    · exact .refl d
    · exact (Kept.refl d).setSession p _
    · split_ifs
      · exact (Kept.refl d).setSession p _
      · exact kept_abort d p _ _ _

end Kept

variable [DecidableEq N] [DecidableEq A] [DecidableEq C] [DecidableEq B]

/-- One event. -/
def step (d : Daemon N A C B) : DaemonEvent N A C B → Daemon N A C B
  | .startSession p enabled => d.startSession p enabled
  | .receive p carrier side record room pushed roomAbort =>
    d.receive p carrier side record room pushed roomAbort
  | .transmit p record ready committed roomAbort => d.transmit p record ready committed roomAbort
  | .failChild p child room => d.failChild p child room
  | .endSession p room => d.endSession p room
  | .bind c e => d.bind c e
  | .disconnect c roomA roomB => d.disconnect c roomA roomB
  | .call call => d.call call

variable {d : Daemon N A C B} {p : N} {k : ℕ}

theorem sameKeys_appData (host : Host N A C) (s : Node N A C) (p : N) (k : ℕ) (e : EndpointKey A)
    (data : List UInt8) (room : Bool) :
    s.streamTable.SameKeys (s.appData host p k e data room).2.streamTable ∧
      (s.appData host p k e data room).2.streamTable.perPeer = s.streamTable.perPeer := by
  have hsame := s.streamTable.sameKeys_receiveData p k data.length
  have haside {s' : Node N A C} (h : Node.Aside s s') :
      s.streamTable.SameKeys s'.streamTable ∧ s'.streamTable.perPeer = s.streamTable.perPeer :=
    h.table ▸ ⟨fun _ => rfl, rfl⟩
  rw [appData]
  split
  · split
    · split
      · exact haside ((Node.Aside.refl s).setLocal _ _)
      · exact haside ((Node.Aside.refl s).dropRx _)
    · exact haside ((Node.Aside.refl s).dropRx _)
  · split
    · exact ⟨fun _ => rfl, rfl⟩
    · exact ⟨fun _ => rfl, rfl⟩
    next table heq =>
      rw [heq] at hsame
      rwa [(books_sendTo _ e _ room).1]

section

variable (d : Daemon N A C B)

omit [DecidableEq B] in
/-- **A dispatched frame keeps the table**: the record of the open streams follows it. -/
theorem kept_dispatch (p : N) (side : Side) (record : StreamRecord A) (room : Bool)
    (r : ReliableStreams A B) :
    Kept d (((d.setNode (d.node.dispatch d.host p room record).2).setSession p r).note p side
      record (d.node.dispatch d.host p room record).1) := by
  rcases record with frame | ⟨headerId, k, increment⟩
  · cases frame with
    | appOpen k e =>
      obtain ⟨htable, hopened⟩ := streamTable_appOpen d.host d.node p k e room
      rw [note]
      constructor
      · intro h
        split_ifs <;> exact htable ▸ h.openStream p k e
      · intro h
        have hwithin := h.openStream p k e
        split_ifs with hres
        · rw [if_pos (hopened.mp hres), ← htable] at hwithin
          exact hwithin
        · rw [if_neg (hres ∘ hopened.mpr), ← htable] at hwithin
          exact hwithin
    | appData k e data =>
      obtain ⟨hkeys, hper⟩ := sameKeys_appData d.host d.node p k e data room
      exact ⟨fun h => h.sameKeys hkeys hper, fun h => h.sameKeys hkeys⟩
    | appClose k e =>
      have htable : (d.node.appClose d.host p k e room).2.streamTable =
          (d.node.streamTable.close p k).2 :=
        ((Node.Aside.refl _).dropRx (p, k)).table.trans
          (congrArg (fun t => (t.close p k).2) (books_sendTo d.node e _ room).1)
      rw [note]
      constructor
      · intro h
        split_ifs <;> exact htable ▸ h.close p k
      · intro h
        have hwithin := h.close p k
        rw [← htable] at hwithin
        split_ifs
        · refine hwithin.mono fun key hkey => ?_
          obtain ⟨hne, hkey⟩ := mem_erase.mp hkey
          exact mem_filter.mpr ⟨hkey, decide_eq_false hne⟩
        · exact hwithin.mono (erase_subset _ _)
    | appReceipt k e accepted =>
      have htable := ((Node.Aside.refl d.node).appReceipt p k accepted).table
      exact ⟨fun h => htable ▸ h, fun h => htable ▸ h⟩
  · have hkeys := d.node.streamTable.sameKeys_applyWindowUpdate p k increment
    exact ⟨fun h => h.sameKeys hkeys rfl, fun h => h.sameKeys hkeys⟩

theorem kept_receive (p : N) (carrier : Option B) (side : Side) (record : StreamRecord A)
    (room pushed : Bool) (roomAbort : ℕ → Bool) :
    Kept d (d.receive p carrier side record room pushed roomAbort) := by
  rw [receive]
  split
  · exact .refl d
  · split
    · exact .refl d
    · exact kept_abort d p _ _ _
    · split
      · exact kept_dispatch d p side record room _
      · exact (kept_dispatch d p side record room _).trans (kept_settle _ _ _ _ _ _ _ _).1

theorem streamTable_clientStreamCleanup (host : Host N A C) (s : Node N A C) (c : C)
    (roomA roomB : ℕ → Bool) :
    (s.clientStreamCleanup host c roomA roomB).streamTable = s.streamTable := by
  rw [clientStreamCleanup]
  generalize s.ownedStreamIds c = ids
  induction ids generalizing s with
  | nil => rfl
  | cons i ids ih =>
    rw [List.foldl_cons, ih, closeOwnedStream]
    split
    · exact ((Node.Aside.refl s).closeRemote i).table
    · exact ((Node.Aside.refl s).closePair host i _ _).table

/-! ### The slots of a run -/

/-- The event brings a stream of a peer to an end: the peer closes it, the application that has
accepted it closes it or is gone, or the session with the peer ends. -/
def Ends (p : N) (k : ℕ) : DaemonEvent N A C B → Prop
  | .receive q carrier .theirs (.frame (.appClose j e)) _ _ _ =>
    (q, j) = (p, k) ∧ ∃ r r', d.sessions.lookup q = some r ∧
      r.incomingParts (.frame (.appClose j e)) (.ofCarrier carrier) = .ok r'
  | .call call => call.ofPeer = false ∧ d.node.ends call = some (p, k)
  | .disconnect c _ _ => ∃ i ∈ d.node.ownedStreamIds c, d.node.accepted c i = some (p, k)
  | .endSession q _ => q = p ∧ (d.sessions.lookup q).isSome
  | _ => False

/-- The application's closes, disconnects and ends of sessions meet no entry that they would leave
behind: the peer has closed the stream before its application does, and the entries of the peer
whose session ends are all of streams on children. -/
def FreesSlot : DaemonEvent N A C B → Prop
  | .call call => ∀ key ∈ d.node.ends call, d.node.streamTable.get key.1 key.2 = none
  | .disconnect c _ _ => ∀ i ∈ d.node.ownedStreamIds c, ∀ key ∈ d.node.accepted c i,
      d.node.streamTable.get key.1 key.2 = none
  | .endSession p _ => ∀ r ∈ d.sessions.lookup p, ∀ key ∈ d.node.streamTable.streams.keys,
      key.1 = p → key.2 ∈ (r.pinned Route.onAnyChild).map Prod.fst
  | _ => True

/-- **A step keeps the counts right**, and, if it frees what it closes, the entries among the open
streams. -/
theorem counted_within_step (event : DaemonEvent N A C B) :
    (d.node.streamTable.Counted → (d.step event).node.streamTable.Counted) ∧
      (d.FreesSlot event → d.node.streamTable.Within d.openStreams →
        (d.step event).node.streamTable.Within (d.step event).openStreams) := by
  cases event with
  | startSession p enabled =>
    rw [step, startSession]
    split <;> exact ⟨id, fun _ => id⟩
  | receive =>
    exact ⟨(kept_receive d _ _ _ _ _ _ _).counted, fun _ => (kept_receive d _ _ _ _ _ _ _).within⟩
  | transmit =>
    exact ⟨(kept_transmit d _ _ _ _ _).counted, fun _ => (kept_transmit d _ _ _ _ _).within⟩
  | failChild p child room =>
    rw [step, failChild]
    split
    · exact ⟨id, fun _ => id⟩
    · exact ⟨(kept_abort d p _ _ _).counted, fun _ => (kept_abort d p _ _ _).within⟩
  | endSession p room =>
    rw [step, endSession]
    split
    · exact ⟨id, fun _ => id⟩
    next r hr =>
      have hkept := kept_abort d p r Route.onAnyChild room
      refine ⟨hkept.counted, fun hfree h q k hget => ?_⟩
      refine mem_filter.mpr ⟨hkept.within h q k hget, decide_eq_false ?_⟩
      rintro rfl
      -- an entry of the peer was there before, of a stream on a child, and that one is aborted
      have hold := (kept_abort { d with openStreams := d.node.streamTable.streams.keys.toFinset }
        q r Route.onAnyChild room).within d.node.streamTable.within_keys q k hget
      obtain ⟨hkey, hnot⟩ := mem_filter.mp hold
      exact of_decide_eq_false hnot ⟨rfl, hfree r hr (q, k) (List.mem_toFinset.mp hkey) rfl⟩
  | bind c e =>
    rw [step, bind]
    split <;> exact ⟨id, fun _ => id⟩
  | disconnect c roomA roomB =>
    have htable := streamTable_clientStreamCleanup d.host d.node c roomA roomB
    refine ⟨fun h => htable ▸ h, fun hfree h q k hget => ?_⟩
    change (d.node.clientStreamCleanup d.host c roomA roomB).streamTable.get q k ≠ none at hget
    rw [htable] at hget
    refine mem_filter.mpr ⟨h q k hget, fun i hi hkey => hget ?_⟩
    exact hfree i hi (q, k) hkey
  | call call =>
    rw [step, Daemon.call]
    split_ifs with hcall
    · exact ⟨id, fun _ => id⟩
    · have htable := d.node.streamTable_step d.host (Bool.eq_false_iff.mpr hcall)
      refine ⟨fun h => htable ▸ h, fun hfree h q k hget => ?_⟩
      change (d.node.step d.host call).streamTable.get q k ≠ none at hget
      rw [htable] at hget
      refine mem_filter.mpr ⟨h q k hget, decide_eq_false fun hkey => hget ?_⟩
      exact hfree (q, k) hkey

end

/-- **The record forgets a stream with its end.** -/
theorem notMem_openStreams_of_ends {event : DaemonEvent N A C B} (hends : d.Ends p k event) :
    (p, k) ∉ (d.step event).openStreams := by
  cases event with
  | startSession | transmit | failChild | bind => exact hends.elim
  | receive q carrier side record room pushed roomAbort =>
    match side, record, hends with
    | .theirs, .frame (.appClose j e), ⟨hkey, r, r', hr, hok⟩ =>
      cases hkey
      intro hmem
      rw [step, receive, hr] at hmem
      dsimp only at hmem
      rw [hok] at hmem
      have hnot : (p, k) ∉ (d.finish fun key => decide (key = (p, k))).openStreams := fun h =>
        of_decide_eq_false (mem_filter.mp h).2 rfl
      cases carrier with
      | none => exact hnot hmem
      | some child =>
        have hnoted := (kept_settle _ _ _ _ _ _ _ _).2 hmem
        exact hnot hnoted
  | endSession q room =>
    obtain ⟨rfl, hsome⟩ := hends
    obtain ⟨r, hr⟩ := Option.isSome_iff_exists.mp hsome
    intro hmem
    rw [step, endSession, hr] at hmem
    exact of_decide_eq_false (mem_filter.mp hmem).2 rfl
  | disconnect c roomA roomB =>
    obtain ⟨i, hi, hkey⟩ := hends
    exact fun hmem => (mem_filter.mp hmem).2 i hi hkey
  | call call =>
    obtain ⟨hpeer, hkey⟩ := hends
    intro hmem
    rw [step, Daemon.call, hpeer] at hmem
    exact of_decide_eq_false (mem_filter.mp hmem).2 hkey

/-- **Slots**: in every run the count kept of each peer is the number of its entries, and none is
kept at zero. In every run whose closes, disconnects and ends of sessions leave no entry behind,
an entry stands for an open stream only, an end of a stream leaves no entry of it, and an open is
refused for capacity only if that many streams are really open. -/
theorem slots_of_open_streams (localNodeId : N) (exitProxy : EndpointKey A)
    (events : List (DaemonEvent N A C B)) :
    let start : Daemon N A C B := new localNodeId exitProxy
    let d := events.foldl step start
    (∀ p, d.node.streamTable.perPeer.lookup p =
      if d.node.streamTable.count p = 0 then none else some (d.node.streamTable.count p)) ∧
    (Run.Along step FreesSlot start events →
      (∀ p k, d.node.streamTable.get p k ≠ none → (p, k) ∈ d.openStreams) ∧
      (∀ event, d.FreesSlot event → ∀ p k, d.Ends p k event →
        (d.step event).node.streamTable.get p k = none) ∧
      ∀ p k e, (d.node.streamTable.openStream p k e).1 = .capacityReached →
        maxStreamsPerPeer ≤ (d.openStreams.filter fun key => key.1 = p).card ∨
          maxTotalStreams ≤ d.openStreams.card) := by
  intro start d
  have hcount : d.node.streamTable.Counted :=
    Run.invariant (P := fun d : Daemon N A C B => d.node.streamTable.Counted)
      (fun d event => (counted_within_step d event).1) counted_new events
  refine ⟨hcount, fun halong => ?_⟩
  have hwithin : d.node.streamTable.Within d.openStreams :=
    Run.invariant_along (P := fun d : Daemon N A C B => d.node.streamTable.Within d.openStreams)
      (fun d event => (counted_within_step d event).2) (fun _ _ hget => absurd rfl hget) halong
  refine ⟨hwithin, fun event hfree p k hends => ?_, fun p k e hfull => hwithin.full hcount hfull⟩
  by_contra hget
  exact notMem_openStreams_of_ends hends ((counted_within_step d event).2 hfree hwithin p k hget)

instance decidableFreesSlot (d : Daemon N A C B) (event : DaemonEvent N A C B) :
    Decidable (d.FreesSlot event) := by
  cases event <;> unfold FreesSlot <;> infer_instance

/-- Peer 1 opens a stream to the only client, over the connection of its session. -/
def sampleOpen (k : ℕ) : List (DaemonEvent ℕ ℕ Unit ℕ) :=
  [.receive 1 none .theirs (.frame (.appOpen k ⟨7, 1⟩)) true true fun _ => true,
    .call (.forward ⟨7, 1⟩ true)]

/-- The client has bound the endpoint, and there is a session with peer 1. -/
def sampleStart : List (DaemonEvent ℕ ℕ Unit ℕ) := [.bind () ⟨7, 1⟩, .startSession 1 true]

/-- A stream that the peer closes itself, then one on a child, which goes with the session. -/
def sampleEvents : List (DaemonEvent ℕ ℕ Unit ℕ) :=
  sampleStart ++ sampleOpen 5 ++
    [.receive 1 none .theirs (.frame (.appClose 5 ⟨7, 1⟩)) true true fun _ => true,
      .call (.streamClose () 5 true true),
      .receive 1 (some 3) .theirs (.frame (.appOpen 6 ⟨7, 1⟩)) true true fun _ => true]

theorem slots_of_open_streams_sample :
    Run.Along step FreesSlot (new 0 ⟨238, 0⟩) sampleEvents ∧
    let d := sampleEvents.foldl step (new 0 ⟨238, 0⟩)
    d.node.streamTable.get 1 6 ≠ none ∧
    (d.step (.endSession 1 fun _ => true)).node.streamTable.get 1 6 = none := by
  have halong : Run.Along step FreesSlot (new 0 ⟨238, 0⟩) sampleEvents := by decide +kernel
  refine ⟨halong, by decide +kernel, ?_⟩
  obtain ⟨-, hslots⟩ := slots_of_open_streams 0 ⟨238, 0⟩ sampleEvents
  exact (hslots halong).2.1 (.endSession 1 fun _ => true) (by decide +kernel) 1 6
    ⟨rfl, by decide +kernel⟩

/-- The streams open after an event that follows the open, whether there is an entry for its
stream, and the count kept of the peer. -/
def slotsAfter (last : DaemonEvent ℕ ℕ Unit ℕ) : ℕ × Bool × Option ℕ :=
  let d := (sampleStart ++ sampleOpen 5 ++ [last]).foldl step (new 0 ⟨238, 0⟩)
  (d.openStreams.card, (d.node.streamTable.get 1 5).isSome, d.node.streamTable.perPeer.lookup 1)

/-- **An end of a stream that leaves its slot taken**: the application closes the stream, the
application disconnects, or the session ends. -/
theorem closed_stream_keeps_slot :
    slotsAfter (.call (.streamClose () 5 true true)) = (0, true, some 1) ∧
    slotsAfter (.disconnect () (fun _ => true) fun _ => true) = (0, true, some 1) ∧
    slotsAfter (.endSession 1 fun _ => true) = (0, true, some 1) := by
  decide +kernel

end Daemon

end VeilNetwork.App
