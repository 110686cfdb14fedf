import VeilNetwork.Lib.Table

/-!
# The stream table of the application plane

Streams that remote peers have opened to local endpoints, keyed by the peer and the stream
id it chose, with the two flow-control windows of each. The send window is debited by what
is forwarded and credited by the peer's window updates; the receive window is debited by
what the peer sends.

A debit refuses what the window does not cover, and both windows stay under their ceiling.
-/

namespace VeilNetwork.App

/-! ### Limits -/

/-- Default initial window: 256 KiB. -/
def appStreamInitialWindow : ℕ := 256 * 1024

/-- The most streams open at once. -/
def maxTotalStreams : ℕ := 65536

/-- The most streams one peer has open at once. -/
def maxStreamsPerPeer : ℕ := 256

/-- The ceiling of a send window. -/
def maxStreamSendWindow : ℕ := 16 * 1024 * 1024

/-- The ceiling of a receive window. -/
def maxStreamRecvWindow : ℕ := maxStreamSendWindow

/-- The largest value of a window field. -/
def u32Max : ℕ := 2 ^ 32 - 1

/-- The first id from `id` on, in the 32-bit order, that is not in use. -/
def probe (taken : ℕ → Bool) : ℕ → ℕ → Option ℕ
  | 0, id => if taken id then none else some id
  | fuel + 1, id => if taken id then probe taken fuel ((id + 1) % 2 ^ 32) else some id

/-- An id for one more stream of an IPC client, after the last one given. The streams between
clients and those to remote nodes share one space of ids and one limit. -/
def allocId {α β : Type} (streams : Table ℕ α) (remoteStreams : Table ℕ β) (nextId : ℕ) :
    Option ℕ :=
  if maxTotalStreams ≤ streams.size + remoteStreams.size then none
  else probe (fun id => (streams.lookup id).isSome || (remoteStreams.lookup id).isSome)
    (maxTotalStreams + 1) ((nextId + 1) % 2 ^ 32)

/-! ### Streams -/

/-- An application endpoint. -/
structure EndpointKey (A : Type) where
  appId : A
  endpointId : ℕ
deriving DecidableEq

/-- State of an open stream. -/
structure AppStreamState (A : Type) where
  endpoint : EndpointKey A
  sendWindow : ℕ
  recvWindow : ℕ
deriving DecidableEq

/-- Result of attempting to open a stream. -/
inductive OpenResult where
  | opened
  | alreadyOpen
  | capacityReached
deriving DecidableEq

/-- Result of a debit. An absent stream may have been closed locally while peer bytes were
in flight, which is not the same as overrunning the credit of an open one. -/
inductive DataReceiveResult where
  | accepted
  | unknownStream
  | windowExceeded
deriving DecidableEq

/-- The open streams, and how many of them each peer has. -/
structure AppStreamTable (N A : Type) where
  streams : Table (N × ℕ) (AppStreamState A)
  perPeer : Table N ℕ

namespace AppStreamTable

variable {N A : Type}

/-- No stream is open. -/
def new : AppStreamTable N A := ⟨∅, ∅⟩

variable [DecidableEq N] (t : AppStreamTable N A) (peerId : N) (streamId : ℕ)

/-- Open a stream with explicit initial windows. -/
def openWithWindow (endpoint : EndpointKey A) (initialSendWindow initialRecvWindow : ℕ) :
    OpenResult × AppStreamTable N A :=
  if (t.streams.lookup (peerId, streamId)).isSome then (.alreadyOpen, t)
  else if maxTotalStreams ≤ t.streams.size then (.capacityReached, t)
  else if maxStreamsPerPeer ≤ (t.perPeer.lookup peerId).getD 0 then (.capacityReached, t)
  else (.opened,
    { streams := t.streams.insert (peerId, streamId)
        { endpoint
          sendWindow := min initialSendWindow maxStreamSendWindow
          recvWindow := min initialRecvWindow maxStreamRecvWindow }
      perPeer := t.perPeer.insert peerId ((t.perPeer.lookup peerId).getD 0 + 1) })

/-- Open a stream with default initial windows. -/
def openStream (endpoint : EndpointKey A) : OpenResult × AppStreamTable N A :=
  t.openWithWindow peerId streamId endpoint appStreamInitialWindow appStreamInitialWindow

/-- Debit receive credit. -/
def receiveData (streamId byteCount : ℕ) : DataReceiveResult × AppStreamTable N A :=
  match t.streams.lookup (peerId, streamId) with
  | none => (.unknownStream, t)
  | some state =>
    if state.recvWindow < byteCount then (.windowExceeded, t)
    else
      let debited := { state with recvWindow := state.recvWindow - byteCount }
      (.accepted, { t with streams := t.streams.insert (peerId, streamId) debited })

/-- Apply a window update of the peer. -/
def applyWindowUpdate (streamId increment : ℕ) : AppStreamTable N A :=
  { t with streams := t.streams.modify (peerId, streamId) fun state =>
      { state with
        sendWindow := min (min (state.sendWindow + increment) u32Max) maxStreamSendWindow } }

/-- Close a stream. -/
def close : Bool × AppStreamTable N A :=
  match t.streams.lookup (peerId, streamId) with
  | none => (false, t)
  | some _ => (true,
    { streams := t.streams.erase (peerId, streamId)
      perPeer := match t.perPeer.lookup peerId with
        | none => t.perPeer
        | some n => if n ≤ 1 then t.perPeer.erase peerId else t.perPeer.insert peerId (n - 1) })

/-- The state of a stream. -/
def get : Option (AppStreamState A) :=
  t.streams.lookup (peerId, streamId)

/-! ### What each call does to a stream -/

variable {t t' : AppStreamTable N A} {p : N} {k n : ℕ} {e : EndpointKey A}

/-- A stream that is opened was not open, and its windows start at the default. -/
theorem openStream_opened (h : t.openStream p k e = (.opened, t')) :
    t.get p k = none ∧ t'.streams = t.streams.insert (p, k)
      ⟨e, appStreamInitialWindow, appStreamInitialWindow⟩ := by
  rw [openStream, openWithWindow] at h
  split_ifs at h with hopen
  · cases h
  · cases h
  · cases h
  · refine ⟨Option.not_isSome_iff_eq_none.mp hopen, ?_⟩
    rw [← (Prod.mk.inj h).2]
    rfl

/-- A refused open changes nothing. -/
theorem openStream_refused {r : OpenResult} (h : t.openStream p k e = (r, t'))
    (hr : r ≠ .opened) : t' = t := by
  rw [openStream, openWithWindow] at h
  split_ifs at h
  · exact (Prod.mk.inj h).2.symm
  · exact (Prod.mk.inj h).2.symm
  · exact (Prod.mk.inj h).2.symm
  · exact absurd (Prod.mk.inj h).1.symm hr

variable (t p k n) in
/-- **A debit is taken from an open stream whose window covers it, and from nothing else.** -/
theorem receiveData_cases :
    (t.get p k = none ∧ t.receiveData p k n = (.unknownStream, t)) ∨
    ∃ state, t.get p k = some state ∧
      ((state.recvWindow < n ∧ t.receiveData p k n = (.windowExceeded, t)) ∨
        (n ≤ state.recvWindow ∧ t.receiveData p k n = (.accepted, { t with
          streams := t.streams.insert (p, k)
            ⟨state.endpoint, state.sendWindow, state.recvWindow - n⟩ }))) := by
  rw [get, receiveData]
  cases hk : t.streams.lookup (p, k) with
  | none => exact .inl ⟨rfl, rfl⟩
  | some state =>
    refine .inr ⟨state, rfl, ?_⟩
    dsimp only
    split_ifs with hlt
    · exact .inl ⟨hlt, rfl⟩
    · exact .inr ⟨Nat.le_of_not_lt hlt, rfl⟩

variable (t p k) in
theorem close_streams :
    (t.close p k).2.streams = t.streams ∧ t.get p k = none ∨
      (t.close p k).2.streams = t.streams.erase (p, k) := by
  rw [close, get]
  cases t.streams.lookup (p, k) with
  | none => exact .inl ⟨rfl, rfl⟩
  | some state => exact .inr rfl

variable (t p k) in
/-- After a close the stream is not open, and the others are as they were. -/
theorem get_close (p' : N) (k' : ℕ) :
    (t.close p k).2.get p' k' = if (p', k') = (p, k) then none else t.get p' k' := by
  rcases t.close_streams p k with ⟨hs, hnone⟩ | hs
  · split_ifs with heq
    · cases heq
      rwa [get, hs]
    · rw [get, hs, get]
  · rw [get, hs]
    split_ifs with heq
    · rw [heq, AList.lookup_erase]
    · rw [AList.lookup_erase_ne heq, get]

end AppStreamTable

end VeilNetwork.App
