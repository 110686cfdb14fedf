import VeilNetwork.Session.Frame
import VeilNetwork.Session.HandoffRegistry

/-!
# Sockets for running sessions

`peek_and_dispatch` of `handoff.rs`, for any number of sockets at a time. A run of it reads the
first header on its socket and passes the socket on to the handshake, bytes and all, unless the
header announces a handoff. Then it looks the session up, sends a challenge, reads the answer,
checks it against the key that was looked up, takes the pending handoff out of the registry and
sends the socket to the channel of the session. Between any two of these steps other runs and the
owners of the two registries act.

Every phase of a run carries what the run found so far, and the invariant says phase by phase
where it is from (`Socket.Sound`).
-/

namespace VeilNetwork.Session

open List Table HandoffRegistry

variable {pending : HandoffRegistry} {blake3 : FixedBytes 32 → Octets → FixedBytes 32}

/-! ### The messages -/

/-- `FrameFamily::Session`. -/
def sessionFamily : UInt8 := 0

def handoffAttach : UInt16 := 18
def handoffChallenge : UInt16 := 24
def handoffResponse : UInt16 := 25

/-- `WIRE_SIZE` of each of the three payloads. -/
def handoffWireSize : ℕ := 32

/-- `compute_hmac`: the keyed hash of the session and the challenge. -/
def computeHmac (blake3 : FixedBytes 32 → Octets → FixedBytes 32) (key : FixedBytes 32)
    (id : SessionId) (challenge : FixedBytes 32) : FixedBytes 32 :=
  blake3 key (id.1 ++ challenge.1)

def handoffFrame (msgType : UInt16) (body : FixedBytes 32) : Octets :=
  encodeHeader ⟨version, sessionFamily, msgType, 0, UInt16.ofNat headerSize,
    UInt32.ofNat body.1.length, 0, 0⟩ ++ body.1

def challengeFrame (challenge : FixedBytes 32) : Octets := handoffFrame handoffChallenge challenge

/-! ### A run -/

/-- What the look-up of a session gave, and when. -/
structure Found where
  sessionId : SessionId
  pending : PendingHandoff
  readAt : ℕ

/-- The answer to a challenge. -/
structure Answer where
  found : Found
  challenge : FixedBytes 32
  hmac : FixedBytes 32

/-- Where a run is: what it does next, or how it ended. The number with an answer is the serial
number of the pending handoff that was consumed for it. -/
inductive Phase where
  | readHeader
  | readBody
  | lookUp (id : SessionId)
  | challenge (found : Found)
  | readResponse (found : Found) (challenge : FixedBytes 32)
  | readAnswer (found : Found) (challenge : FixedBytes 32)
  | consume (answer : Answer)
  | getChannel (answer : Answer) (serial : ℕ)
  | send (answer : Answer) (serial : ℕ) (swapTx : ℕ)
  | bound (answer : Answer) (serial : ℕ) (swapTx : ℕ)
  | handshake (head : Octets)
  | dropped (reason : String)

/-- A socket with its run: all the bytes that came in, those the run has read and those it has
not, and the bytes it wrote. -/
structure Socket where
  received : Octets
  taken : Octets
  buffer : Octets
  written : Octets
  phase : Phase

namespace Socket

def accepted : Socket := ⟨[], [], [], [], .readHeader⟩

variable (k : Socket)

/-- `read_exact`, and what follows; a run waits until there are enough bytes. -/
def reading (n : ℕ) (next : FixedBytes n → Phase) : Socket :=
  match FixedBytes.read n k.buffer with
  | none => k
  | some (b, rest) => { k with taken := k.taken ++ b.1, buffer := rest, phase := next b }

def goto (phase : Phase) : Socket := { k with phase }

def deliver (bytes : Octets) : Socket :=
  { k with received := k.received ++ bytes, buffer := k.buffer ++ bytes }

/-- A run that has ended is not aborted. -/
def abort (reason : String) : Socket :=
  match k.phase with
  | .bound .. | .handshake _ | .dropped _ => k
  | _ => k.goto (.dropped reason)

/-- What is no handoff is a handshake. -/
def afterHeader (hdr : Octets) : Phase :=
  match decodeHeader hdr with
  | .error _ => .handshake hdr
  | .ok h =>
    if h.family ≠ sessionFamily ∨ h.msgType ≠ handoffAttach then .handshake hdr
    else if h.bodyLen.toNat ≠ handoffWireSize then
      .dropped ("HandoffAttach body_len=" ++ toString h.bodyLen.toNat ++ " expected " ++
        toString handoffWireSize)
    else .readBody

def afterResponseHeader (found : Found) (challenge : FixedBytes 32) (hdr : Octets) : Phase :=
  match decodeHeader hdr with
  | .error _ => .dropped "bad HandoffResponse header"
  | .ok h =>
    if h.family ≠ sessionFamily ∨ h.msgType ≠ handoffResponse ∨
        h.bodyLen.toNat ≠ handoffWireSize then
      .dropped "HandoffResponse: wrong frame type/size"
    else .readAnswer found challenge

section Advance

variable (blake3 : FixedBytes 32 → Octets → FixedBytes 32)

/-- Check the answer. -/
def verify (a : Answer) : Phase :=
  if computeHmac blake3 a.found.pending.rxKey a.found.sessionId a.challenge = a.hmac then
    .consume a
  else .dropped "HandoffResponse: HMAC mismatch"

/-- One step of a run, with the time, the challenge that is drawn and whether the channel takes
the socket where the step needs them. -/
def advance (pending : HandoffRegistry) (swap : SessionSwapRegistry) (now : ℕ)
    (drawn : FixedBytes 32) (takes : Bool) (k : Socket) : HandoffRegistry × Socket :=
  match k.phase with
  | .readHeader => (pending, k.reading headerSize fun hdr => afterHeader hdr.1)
  | .readBody => (pending, k.reading handoffWireSize .lookUp)
  | .lookUp id =>
    match pending.peek now id with
    | (pending, none) =>
      (pending, k.goto (.dropped "HandoffAttach: no pending handoff for session_id"))
    | (pending, some e) => (pending, k.goto (.challenge ⟨id, e, now⟩))
  | .challenge f =>
    (pending, { k with written := k.written ++ challengeFrame drawn,
                       phase := .readResponse f drawn })
  | .readResponse f c => (pending, k.reading headerSize fun hdr => afterResponseHeader f c hdr.1)
  | .readAnswer f c => (pending, k.reading handoffWireSize fun hmac => verify blake3 ⟨f, c, hmac⟩)
  | .consume a =>
    match pending.consume now a.found.sessionId with
    | (pending, none) =>
      (pending, k.goto (.dropped "HandoffAttach: pending handoff already consumed (raced)"))
    | (pending, some e) => (pending, k.goto (.getChannel a e.serial))
  | .getChannel a n =>
    match swap.get a.found.sessionId with
    | none =>
      (pending, k.goto (.dropped "HandoffAttach: matching session has no live swap channel"))
    | some tx => (pending, k.goto (.send a n tx))
  | .send a n tx =>
    (pending, k.goto (if takes then .bound a n tx
      else .dropped "HandoffAttach: swap_rx receiver dropped between lookup and send"))
  | .bound .. | .handshake _ | .dropped _ => (pending, k)

end Advance

end Socket

/-! ### Sockets and registries together -/

/-- The node: its registries, the guards of its sessions, its sockets, and what was inserted, each
under its serial number. -/
structure WarmNode where
  pending : HandoffRegistry
  swap : SessionSwapRegistry
  guards : Table ℕ SwapRegistryGuard
  sockets : Table ℕ Socket
  inserted : List (SessionId × PendingHandoff)

namespace WarmNode

/-- What happens next: to the registries, or on a socket. -/
inductive Event where
  | insert (now : ℕ) (id : SessionId) (peer : NodeId) (nonce rxKey : FixedBytes 32)
  | pruneExpired (now : ℕ)
  | register (g : ℕ) (guard : SwapRegistryGuard)
  | rekey (g : ℕ) (newId : SessionId)
  | dropGuard (g : ℕ)
  | accept (s : ℕ)
  | deliver (s : ℕ) (bytes : Octets)
  | advance (s : ℕ) (now : ℕ) (drawn : FixedBytes 32) (takes : Bool)
  /-- An error or a timeout of the socket, or the end of the task. -/
  | abort (s : ℕ) (reason : String)

def start (ttl maxEntries : ℕ) : WarmNode :=
  ⟨.withConfig ttl maxEntries, .new, ∅, ∅, []⟩

/-- A guard or a socket whose number is taken is not made. -/
def step (blake3 : FixedBytes 32 → Octets → FixedBytes 32) (w : WarmNode) : Event → WarmNode
  | .insert now id peer nonce rxKey =>
    { w with
      pending := w.pending.insert now id peer nonce rxKey w.inserted.length
      inserted := w.inserted ++
        [(id, ⟨peer, nonce, rxKey, now + w.pending.ttl, w.inserted.length⟩)] }
  | .pruneExpired now => { w with pending := w.pending.pruneLocked now }
  | .register g guard =>
    match w.guards.lookup g with
    | some _ => w
    | none =>
      { w with
        swap := w.swap.register guard.sessionId guard.peerNodeId guard.handles
        guards := w.guards.insert g guard }
  | .rekey g newId =>
    match w.guards.lookup g with
    | none => w
    | some gd =>
      { w with
        swap := w.swap.rekey gd.sessionId newId gd.peerNodeId
        guards := w.guards.insert g { gd with sessionId := newId } }
  | .dropGuard g =>
    match w.guards.lookup g with
    | none => w
    | some gd =>
      { w with
        swap := w.swap.remove gd.sessionId gd.peerNodeId
        guards := w.guards.erase g }
  | .accept s =>
    match w.sockets.lookup s with
    | some _ => w
    | none => { w with sockets := w.sockets.insert s .accepted }
  | .deliver s bytes =>
    match w.sockets.lookup s with
    | none => w
    | some k => { w with sockets := w.sockets.insert s (k.deliver bytes) }
  | .advance s now drawn takes =>
    match w.sockets.lookup s with
    | none => w
    | some k =>
      { w with
        pending := (k.advance blake3 w.pending w.swap now drawn takes).1
        sockets := w.sockets.insert s (k.advance blake3 w.pending w.swap now drawn takes).2 }
  | .abort s reason =>
    match w.sockets.lookup s with
    | none => w
    | some k => { w with sockets := w.sockets.insert s (k.abort reason) }

end WarmNode

/-! ### What a run knows -/

/-- The entry was inserted for the session, and it had not expired when it was read. -/
def Found.Live (inserted : List (SessionId × PendingHandoff)) (f : Found) : Prop :=
  inserted[f.pending.serial]? = some (f.sessionId, f.pending) ∧ f.readAt < f.pending.expiresAt

/-- **The proof was made for the socket**: the answer was read on it, it is the keyed hash of the
challenge that was written on it, and the key is that of an entry which was inserted for the
session the socket announced and which had not expired when it was read. -/
structure Answer.Made (blake3 : FixedBytes 32 → Octets → FixedBytes 32)
    (inserted : List (SessionId × PendingHandoff)) (written taken : Octets) (a : Answer) :
    Prop where
  live : a.found.Live inserted
  hash : a.hmac = computeHmac blake3 a.found.pending.rxKey a.found.sessionId a.challenge
  written : written = challengeFrame a.challenge
  taken : ∃ hdr hdr', hdr.length = headerSize ∧ hdr'.length = headerSize ∧
    taken = hdr ++ a.found.sessionId.1 ++ hdr' ++ a.hmac.1

/-- A header was read and the session it is for. -/
def Announced (taken : Octets) (id : SessionId) : Prop :=
  ∃ hdr, hdr.length = headerSize ∧ taken = hdr ++ id.1

namespace Phase

/-- Where what a phase carries is from, with the bytes written and taken so far. -/
def Sound (blake3 : FixedBytes 32 → Octets → FixedBytes 32)
    (inserted : List (SessionId × PendingHandoff)) (written taken : Octets) : Phase → Prop
  | .readHeader => written = [] ∧ taken = []
  | .readBody => written = [] ∧ taken.length = headerSize
  | .lookUp id => written = [] ∧ Announced taken id
  | .challenge f => written = [] ∧ Announced taken f.sessionId ∧ f.Live inserted
  | .readResponse f c =>
    written = challengeFrame c ∧ Announced taken f.sessionId ∧ f.Live inserted
  | .readAnswer f c => written = challengeFrame c ∧ f.Live inserted ∧
    ∃ hdr hdr', hdr.length = headerSize ∧ hdr'.length = headerSize ∧
      taken = hdr ++ f.sessionId.1 ++ hdr'
  | .consume a => a.Made blake3 inserted written taken
  | .getChannel a n | .send a n _ | .bound a n _ => a.Made blake3 inserted written taken ∧
    ∃ e, inserted[n]? = some (a.found.sessionId, e)
  | .handshake head => taken = head
  | .dropped _ => True

/-- The pending handoff that was consumed. -/
def spent : Phase → Option ℕ
  | .getChannel _ n | .send _ n _ | .bound _ n _ => some n
  | _ => none

variable {inserted : List (SessionId × PendingHandoff)} {written taken : Octets} {phase : Phase}
  {n : ℕ}

theorem getElem?_append {x : SessionId × PendingHandoff} (h : inserted[n]? = some x)
    (more : List (SessionId × PendingHandoff)) : (inserted ++ more)[n]? = some x := by
  rw [List.getElem?_append_left (List.getElem?_eq_some_iff.mp h).1, h]

/-- More inserts do not matter. -/
theorem Sound.mono (h : phase.Sound blake3 inserted written taken)
    (more : List (SessionId × PendingHandoff)) :
    phase.Sound blake3 (inserted ++ more) written taken := by
  have hlive {f : Found} (hf : f.Live inserted) : f.Live (inserted ++ more) :=
    ⟨getElem?_append hf.1 more, hf.2⟩
  have hmade {a : Answer} (ha : a.Made blake3 inserted written taken) :
      a.Made blake3 (inserted ++ more) written taken := { ha with live := hlive ha.live }
  have hspent {a : Answer} {n : ℕ} (ha : a.Made blake3 inserted written taken ∧
      ∃ e, inserted[n]? = some (a.found.sessionId, e)) :
      a.Made blake3 (inserted ++ more) written taken ∧
        ∃ e, (inserted ++ more)[n]? = some (a.found.sessionId, e) :=
    ⟨hmade ha.1, ha.2.imp fun _ he => getElem?_append he more⟩
  cases phase with
  | readHeader | readBody | lookUp | handshake => exact h
  | challenge | readResponse => exact ⟨h.1, h.2.1, hlive h.2.2⟩
  | readAnswer => exact ⟨h.1, hlive h.2.1, h.2.2⟩
  | consume => exact hmade h
  | getChannel | send | bound => exact hspent h
  | dropped => trivial

/-- What was spent was inserted. -/
theorem Sound.spent_lt (h : phase.Sound blake3 inserted written taken)
    (hn : phase.spent = some n) : n < inserted.length := by
  have hlt {a : Answer} {n' : ℕ} (heq : some n' = some n)
      (he : ∃ e, inserted[n']? = some (a.found.sessionId, e)) : n < inserted.length := by
    obtain ⟨e, he⟩ := he
    exact Option.some.inj heq ▸ (List.getElem?_eq_some_iff.mp he).1
  cases phase with
  | getChannel | send | bound => exact hlt hn h.2
  | _ => cases hn

end Phase

namespace Socket

variable {inserted : List (SessionId × PendingHandoff)} {swap : SessionSwapRegistry} {now : ℕ}
  {drawn : FixedBytes 32} {takes : Bool} {k : Socket}

variable (blake3 inserted k) in
/-- Nothing that came in is lost, and the phase says where its data is from. -/
structure Sound : Prop where
  received : k.received = k.taken ++ k.buffer
  phase : k.phase.Sound blake3 inserted k.written k.taken

theorem sound_accepted : Sound blake3 inserted accepted := ⟨rfl, rfl, rfl⟩

section

variable (h : k.Sound blake3 inserted)

include h

theorem Sound.deliver (bytes : Octets) : (k.deliver bytes).Sound blake3 inserted := by
  refine ⟨?_, h.phase⟩
  rw [Socket.deliver, h.received, append_assoc]

theorem Sound.goto {phase : Phase} (hphase : phase.Sound blake3 inserted k.written k.taken) :
    (k.goto phase).Sound blake3 inserted := ⟨h.received, hphase⟩

theorem Sound.abort (reason : String) : (k.abort reason).Sound blake3 inserted := by
  rw [Socket.abort]
  split
  all_goals first | exact h | exact h.goto trivial

/-- Reading moves bytes from the buffer to those taken. -/
theorem Sound.reading {n : ℕ} {next : FixedBytes n → Phase}
    (hnext : ∀ b rest, FixedBytes.read n k.buffer = some (b, rest) →
      (next b).Sound blake3 inserted k.written (k.taken ++ b.1)) :
    (k.reading n next).Sound blake3 inserted := by
  rw [Socket.reading]
  split
  · exact h
  next b rest hread =>
    refine ⟨?_, hnext b rest hread⟩
    rw [h.received, append_assoc, ← FixedBytes.append_of_read hread]

end

theorem sound_afterHeader (hdr : FixedBytes headerSize) :
    (afterHeader hdr.1).Sound blake3 inserted [] hdr.1 := by
  rw [afterHeader]
  split
  · exact rfl
  · split
    · exact rfl
    · split
      · trivial
      · exact ⟨rfl, hdr.2⟩

/-- A registry whose entries are all recorded among the inserts. -/
def Logged (pending : HandoffRegistry) (inserted : List (SessionId × PendingHandoff)) : Prop :=
  ∀ id e, pending.bySession.lookup id = some e → inserted[e.serial]? = some (id, e)

/-- **A step of a run keeps the invariant of its phase.** -/
theorem Sound.advance (h : k.Sound blake3 inserted) (hind : pending.Indexed)
    (hlog : Logged pending inserted) :
    (k.advance blake3 pending swap now drawn takes).2.Sound blake3 inserted := by
  have hphase := h.phase
  rw [Socket.advance]
  generalize k.phase = phase at hphase
  cases phase with
  | readHeader =>
    obtain ⟨hwritten, htaken⟩ := hphase
    refine h.reading fun hdr rest _ => ?_
    rw [hwritten, htaken]
    exact sound_afterHeader hdr
  | readBody => exact h.reading fun id rest _ => ⟨hphase.1, k.taken, hphase.2, rfl⟩
  | lookUp id =>
    dsimp only [peek]
    cases he : (pending.pruneLocked now).bySession.lookup id with
    | none => exact h.goto trivial
    | some e =>
      rw [hind.lookup_pruneLocked, Option.filter_eq_some_iff, decide_eq_true_eq] at he
      exact h.goto ⟨hphase.1, hphase.2, hlog id e he.1, he.2⟩
  | challenge f =>
    obtain ⟨hwritten, hrest⟩ := hphase
    refine ⟨h.received, ?_, hrest⟩
    rw [hwritten, nil_append]
  | readResponse f c =>
    obtain ⟨hwritten, ⟨hdr, hlen, htaken⟩, hlive⟩ := hphase
    refine h.reading fun hdr' rest _ => ?_
    rw [afterResponseHeader]
    split
    · trivial
    · split
      · trivial
      · exact ⟨hwritten, hlive, hdr, hdr'.1, hlen, hdr'.2, by rw [htaken]⟩
  | readAnswer f c =>
    obtain ⟨hwritten, hlive, hdr, hdr', hlen, hlen', htaken⟩ := hphase
    refine h.reading fun hmac rest _ => ?_
    rw [verify]
    split
    next heq => exact ⟨hlive, heq.symm, hwritten, hdr, hdr', hlen, hlen', by rw [htaken]⟩
    · trivial
  | consume a =>
    dsimp only
    cases hc : pending.consume now a.found.sessionId with
    | mk pending' entry =>
      cases entry with
      | none => exact h.goto trivial
      | some e => exact h.goto ⟨hphase, e, hlog _ _ (hind.consume_eq_some hc).1⟩
  | getChannel a n =>
    dsimp only
    cases swap.get a.found.sessionId with
    | none => exact h.goto trivial
    | some tx => exact h.goto hphase
  | send a n tx =>
    cases takes with
    | true => exact h.goto hphase
    | false => exact h.goto trivial
  | bound | handshake | dropped => exact h

/-! ### What a step does to the registry -/

theorem spent_reading {n : ℕ} {next : FixedBytes n → Phase} (hk : k.phase.spent = none)
    (hnext : ∀ b, (next b).spent = none) : (k.reading n next).phase.spent = none := by
  rw [reading]
  split
  · exact hk
  · exact hnext _

theorem spent_afterHeader (hdr : Octets) : (afterHeader hdr).spent = none := by
  rw [afterHeader]
  repeat' split
  all_goals rfl

theorem spent_afterResponseHeader (f : Found) (c : FixedBytes 32) (hdr : Octets) :
    (afterResponseHeader f c hdr).spent = none := by
  rw [afterResponseHeader]
  split
  · rfl
  · split <;> rfl

theorem spent_verify (a : Answer) : (verify blake3 a).spent = none := by
  rw [verify]
  split <;> rfl

theorem spent_abort (k : Socket) (reason : String) :
    (k.abort reason).phase.spent = k.phase.spent ∨ (k.abort reason).phase.spent = none := by
  rw [abort]
  split
  all_goals first | exact .inl rfl | exact .inr rfl

variable (blake3 swap now drawn takes k) in
/-- **A step takes an entry out only for an answer that was checked**: else the registry is as
before or pruned, and no more is spent. -/
theorem advance_cases (hind : pending.Indexed) :
    let out := k.advance blake3 pending swap now drawn takes
    ((out.1 = pending ∨ out.1 = pending.pruneLocked now) ∧
      ∀ n, out.2.phase.spent = some n → k.phase.spent = some n) ∨
    ∃ a e, k.phase = .consume a ∧ pending.bySession.lookup a.found.sessionId = some e ∧
      now < e.expiresAt ∧ out.1 = (pending.pruneLocked now).evict e.expiresAt a.found.sessionId ∧
      out.2.phase = .getChannel a e.serial := by
  have hnone {k' : Socket} {o : Option ℕ} (h : k'.phase.spent = none) (n : ℕ)
      (hn : k'.phase.spent = some n) : o = some n := by
    rw [h] at hn
    cases hn
  rw [advance]
  cases hk : k.phase with
  | readHeader =>
    exact .inl ⟨.inl rfl, hnone (spent_reading (by rw [hk]; rfl) fun _ => spent_afterHeader _)⟩
  | readBody => exact .inl ⟨.inl rfl, hnone (spent_reading (by rw [hk]; rfl) fun _ => rfl)⟩
  | lookUp id =>
    dsimp only [peek]
    refine .inl ⟨.inr ?_, hnone ?_⟩
    · split <;> next heq => exact (Prod.mk.inj heq).1.symm
    · split <;> rfl
  | challenge f => exact .inl ⟨.inl rfl, hnone rfl⟩
  | readResponse f c =>
    exact .inl ⟨.inl rfl, hnone
      (spent_reading (by rw [hk]; rfl) fun _ => spent_afterResponseHeader f c _)⟩
  | readAnswer f c =>
    exact .inl ⟨.inl rfl, hnone (spent_reading (by rw [hk]; rfl) fun _ => spent_verify _)⟩
  | consume a =>
    dsimp only
    cases hc : pending.consume now a.found.sessionId with
    | mk pending' entry =>
      cases entry with
      | none =>
        refine .inl ⟨.inr ?_, hnone rfl⟩
        rw [consume] at hc
        split at hc
        · exact (Prod.mk.inj hc).1.symm
        · cases hc
      | some e =>
        obtain ⟨he, hlive, hpending⟩ := hind.consume_eq_some hc
        exact .inr ⟨a, e, rfl, he, hlive, hpending, rfl⟩
  | getChannel a n =>
    dsimp only
    cases swap.get a.found.sessionId with
    | none => exact .inl ⟨.inl rfl, hnone rfl⟩
    | some tx => exact .inl ⟨.inl rfl, fun _ hn => hn⟩
  | send a n tx =>
    refine .inl ⟨.inl rfl, ?_⟩
    cases takes with
    | true => exact fun _ hn => hn
    | false => exact hnone rfl
  | bound | handshake | dropped => exact .inl ⟨.inl rfl, fun _ hn => hk ▸ hn⟩

end Socket

/-! ### Every interleaving -/

namespace WarmNode

variable {w : WarmNode}

variable (blake3 w) in
/-- The invariant: the runs know what they should, and what one of them spent is neither in the
registry nor spent by another. -/
structure Sound : Prop where
  indexed : w.pending.Indexed
  logged : Socket.Logged w.pending w.inserted
  sockets : ∀ s k, w.sockets.lookup s = some k → k.Sound blake3 w.inserted
  gone : ∀ s k n, w.sockets.lookup s = some k → k.phase.spent = some n →
    ∀ id e, w.pending.bySession.lookup id = some e → e.serial ≠ n
  once : ∀ s s' k k' n, w.sockets.lookup s = some k → w.sockets.lookup s' = some k' →
    k.phase.spent = some n → k'.phase.spent = some n → s = s'

theorem sound_start (ttl maxEntries : ℕ) : (start ttl maxEntries).Sound blake3 where
  indexed := indexed_withConfig ttl maxEntries
  logged id e h := by cases h
  sockets s k h := by cases h
  gone s k n h := by cases h
  once s s' k k' n h := by cases h

variable {k : Socket} {s : ℕ}

/-- **One socket goes on**: the registry may lose entries, and what the socket has spent is in the
registry no more and not spent by another one. -/
theorem Sound.set (h : w.Sound blake3) (hind : pending.Indexed)
    (hwithin : pending.Within w.pending) (hk : k.Sound blake3 w.inserted)
    (hgone : ∀ n, k.phase.spent = some n →
      ∀ id e, pending.bySession.lookup id = some e → e.serial ≠ n)
    (honce : ∀ n, k.phase.spent = some n →
      ∀ s' k', s' ≠ s → w.sockets.lookup s' = some k' → k'.phase.spent ≠ some n) :
    Sound blake3 { w with pending, sockets := w.sockets.insert s k } where
  indexed := hind
  logged id e he := h.logged id e (hwithin id e he)
  sockets s' k' hk' := by
    rcases lookup_insert_eq_some hk' with ⟨-, rfl⟩ | ⟨-, hk'⟩
    · exact hk
    · exact h.sockets s' k' hk'
  gone s' k' n hk' hn id e he := by
    rcases lookup_insert_eq_some hk' with ⟨-, rfl⟩ | ⟨-, hk'⟩
    · exact hgone n hn id e he
    · exact h.gone s' k' n hk' hn id e (hwithin id e he)
  once s₁ s₂ k₁ k₂ n hk₁ hk₂ hn₁ hn₂ := by
    rcases lookup_insert_eq_some hk₁ with ⟨rfl, rfl⟩ | ⟨hne₁, hold₁⟩
    · rcases lookup_insert_eq_some hk₂ with ⟨rfl, -⟩ | ⟨hne₂, hold₂⟩
      · rfl
      · exact absurd hn₂ (honce n hn₁ s₂ k₂ hne₂ hold₂)
    · rcases lookup_insert_eq_some hk₂ with ⟨rfl, rfl⟩ | ⟨-, hold₂⟩
      · exact absurd hn₁ (honce n hn₂ s₁ k₁ hne₁ hold₁)
      · exact h.once s₁ s₂ k₁ k₂ n hold₁ hold₂ hn₁ hn₂

/-- A socket that spends no more than before. -/
theorem Sound.set_of_spent (h : w.Sound blake3) {k' : Socket} (hs : w.sockets.lookup s = some k)
    (hind : pending.Indexed) (hwithin : pending.Within w.pending)
    (hk' : k'.Sound blake3 w.inserted)
    (hspent : ∀ n, k'.phase.spent = some n → k.phase.spent = some n) :
    Sound blake3 { w with pending, sockets := w.sockets.insert s k' } := by
  refine h.set hind hwithin hk' ?_ ?_
  · intro n hn id e he
    exact h.gone s k n hs (hspent n hn) id e (hwithin id e he)
  · intro n hn s' k'' hne hk'' hn'
    exact hne (h.once s' s k'' k n hk'' hs hn' (hspent n hn))

variable {now : ℕ}

theorem Sound.insert (h : w.Sound blake3) {id : SessionId} {peer : NodeId}
    {nonce rxKey : FixedBytes 32} :
    (w.step blake3 (.insert now id peer nonce rxKey)).Sound blake3 where
  indexed := h.indexed.insert
  logged id' e he := by
    rcases h.indexed.lookup_insert_eq_some he with ⟨rfl, rfl⟩ | he
    · exact getElem?_concat_length
    · exact Phase.getElem?_append (h.logged id' e he) _
  sockets s k hk := ⟨(h.sockets s k hk).received, (h.sockets s k hk).phase.mono _⟩
  gone s k n hk hn id' e he := by
    rcases h.indexed.lookup_insert_eq_some he with ⟨-, rfl⟩ | he
    · exact ((h.sockets s k hk).phase.spent_lt hn).ne'
    · exact h.gone s k n hk hn id' e he
  once := h.once

variable {drawn : FixedBytes 32} {takes : Bool}

/-- The entry a run consumes was spent by no other run, and it is in the registry no more. -/
theorem Sound.advance (h : w.Sound blake3) :
    (w.step blake3 (.advance s now drawn takes)).Sound blake3 := by
  rw [step]
  cases hs : w.sockets.lookup s with
  | none => exact h
  | some k =>
    dsimp only
    have hprune := h.indexed.within_pruneLocked now
    have hk : (k.advance blake3 w.pending w.swap now drawn takes).2.Sound blake3 w.inserted :=
      (h.sockets s k hs).advance h.indexed h.logged
    rcases Socket.advance_cases blake3 w.swap now drawn takes k h.indexed with
      ⟨hsame | hpruned, hspent⟩ | ⟨a, e, -, he, hlive, hevict, hphase⟩
    · rw [hsame]
      exact h.set_of_spent hs h.indexed (fun _ _ he => he) hk hspent
    · rw [hpruned]
      exact h.set_of_spent hs (h.indexed.pruneLocked now) hprune hk hspent
    · rw [hevict]
      refine h.set (h.indexed.consumed he hlive) ?_ hk ?_ ?_
      · exact fun id' e' he' => hprune id' e' (within_evict _ _ _ id' e' he')
      · intro n hn id' e' he' heq
        rw [hphase] at hn
        obtain ⟨hne, hold⟩ := lookup_erase_eq_some he'
        -- a serial number belongs to one session
        have hlog := h.logged id' e' (hprune id' e' hold)
        rw [heq, ← Option.some.inj hn, h.logged _ e he] at hlog
        exact hne (Prod.mk.inj (Option.some.inj hlog)).1.symm
      · rintro n hn s' k' - hs' hn'
        rw [hphase] at hn
        exact h.gone s' k' n hs' hn' _ e he (Option.some.inj hn)

/-- **Every step keeps the invariant.** -/
theorem Sound.step (h : w.Sound blake3) (ev : Event) : (w.step blake3 ev).Sound blake3 := by
  cases ev with
  | insert now id peer nonce rxKey => exact h.insert
  | pruneExpired now =>
    have hprune := h.indexed.within_pruneLocked now
    exact ⟨h.indexed.pruneLocked now, fun id e he => h.logged id e (hprune id e he), h.sockets,
      fun s k n hk hn id e he => h.gone s k n hk hn id e (hprune id e he), h.once⟩
  | register | rekey | dropGuard =>
    rw [WarmNode.step]
    split
    · exact h
    · exact { h with }
  | accept s =>
    rw [WarmNode.step]
    split
    · exact h
    · exact h.set h.indexed (fun _ _ he => he) Socket.sound_accepted
        (nofun) (nofun)
  | deliver s bytes =>
    rw [WarmNode.step]
    split
    · exact h
    next k hs =>
      exact h.set_of_spent hs h.indexed (fun _ _ he => he) ((h.sockets s k hs).deliver bytes)
        fun _ hn => hn
  | advance s now drawn takes => exact h.advance
  | abort s reason =>
    rw [WarmNode.step]
    split
    · exact h
    next k hs =>
      refine h.set_of_spent hs h.indexed (fun _ _ he => he) ((h.sockets s k hs).abort reason)
        fun n hn => ?_
      rcases Socket.spent_abort k reason with heq | heq
      · rwa [heq] at hn
      · rw [heq] at hn
        cases hn

/-! ### The number of entries -/

variable (blake3) in
/-- Only an insert brings entries. -/
theorem pending_step (hind : w.pending.Indexed) (ev : Event) :
    (∃ now id peer nonce rxKey, (w.step blake3 ev).pending =
      w.pending.insert now id peer nonce rxKey w.inserted.length) ∨
    ((w.step blake3 ev).pending.Within w.pending ∧
      (w.step blake3 ev).pending.maxEntries = w.pending.maxEntries) := by
  have hsame : w.pending.Within w.pending ∧ w.pending.maxEntries = w.pending.maxEntries :=
    ⟨fun _ _ he => he, rfl⟩
  have hprune (now : ℕ) : (w.pending.pruneLocked now).Within w.pending ∧
      (w.pending.pruneLocked now).maxEntries = w.pending.maxEntries :=
    ⟨hind.within_pruneLocked now, maxEntries_pruneLocked w.pending now⟩
  cases ev with
  | insert now id peer nonce rxKey => exact .inl ⟨now, id, peer, nonce, rxKey, rfl⟩
  | pruneExpired now => exact .inr (hprune now)
  | advance s now drawn takes =>
    refine .inr ?_
    rw [step]
    split
    · exact hsame
    next k _ =>
      rcases Socket.advance_cases blake3 w.swap now drawn takes k hind with
        ⟨heq | heq, -⟩ | ⟨a, e, -, -, -, heq, -⟩
      · rwa [heq]
      · rw [heq]
        exact hprune now
      · rw [heq]
        obtain ⟨hwithin, hmax⟩ := hprune now
        exact ⟨fun id' e' he' => hwithin id' e' (within_evict _ _ _ id' e' he'),
          hmax⟩
  | _ =>
    refine .inr ?_
    rw [step]
    split <;> exact hsame

/-- The registry has room for no more than a number of entries, and it has no more. -/
def Capped (cap : ℕ) (w : WarmNode) : Prop :=
  w.pending.maxEntries = cap ∧ w.pending.bySession.size ≤ cap

theorem Capped.step {cap : ℕ} (h : w.Capped cap) (hcap : 0 < cap) (hind : w.pending.Indexed)
    (ev : Event) : (w.step blake3 ev).Capped cap := by
  obtain ⟨hmax, hsize⟩ := h
  rcases pending_step blake3 hind ev with ⟨now, id, peer, nonce, rxKey, heq⟩ |
    ⟨hwithin, heq⟩
  · rw [Capped, heq, maxEntries_insert]
    exact ⟨hmax, hmax ▸ hind.size_insert (hmax ▸ hcap) (hmax ▸ hsize)⟩
  · exact ⟨heq.trans hmax, hwithin.size_le.trans hsize⟩

/-! ### The guards -/

namespace Sound

variable (h : w.Sound blake3)

include h

section

variable (hs : w.sockets.lookup s = some k)

include hs

theorem bound {n tx : ℕ} {a : Answer}
    (hk : k.phase = .bound a n tx) : a.Made blake3 w.inserted k.written k.taken ∧
      ∃ e, w.inserted[n]? = some (a.found.sessionId, e) := by
  have hphase := (h.sockets s k hs).phase
  rwa [hk] at hphase

theorem handshake {head : Octets}
    (hk : k.phase = .handshake head) : head ++ k.buffer = k.received := by
  have hsound := h.sockets s k hs
  have hphase := hsound.phase
  rw [hk] at hphase
  rw [hsound.received, hphase]

end

end Sound

/-- A session waits for a socket; the socket comes, answers the challenge and is sent to it. -/
def handoff : List Event :=
  [.insert 0 (.replicate 32 1) (.replicate 32 2) (.replicate 32 3) (.replicate 32 4),
    .register 0 ⟨.replicate 32 1, .replicate 32 2, 7, .replicate 32 4⟩, .accept 0,
    .deliver 0 (handoffFrame handoffAttach (.replicate 32 1)),
    .advance 0 5 (.replicate 32 0) true, .advance 0 5 (.replicate 32 0) true,
    .advance 0 5 (.replicate 32 0) true, .advance 0 5 (.replicate 32 9) true,
    .deliver 0 (handoffFrame handoffResponse (.replicate 32 4)),
    .advance 0 6 (.replicate 32 0) true, .advance 0 6 (.replicate 32 0) true,
    .advance 0 6 (.replicate 32 0) true, .advance 0 6 (.replicate 32 0) true,
    .advance 0 6 (.replicate 32 0) true]

end WarmNode

end VeilNetwork.Session
