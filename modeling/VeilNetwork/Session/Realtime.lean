import Mathlib.Data.List.MinMax
import Mathlib.Data.Prod.Lex
import VeilNetwork.Lib.Bytes
import VeilNetwork.Lib.Chunks
import VeilNetwork.Lib.ReplayWindow
import VeilNetwork.Lib.Saturating
import VeilNetwork.Lib.Table

/-!
# The realtime datagram lane

The loss-tolerant codec of `realtime_datagram.rs`: a frame is cut into fragments that fit a
datagram, each sealed on its own with an explicit sequence number as the nonce; the receiver
opens a fragment under its current key or, for a while after a rekey, under the one before,
refuses what its replay window has seen, and puts frames together in assemblies that expire
and are evicted under two budgets.

The AEAD and the key derivation are parameters. `HashMap` iteration has no fixed order, so a
call that has to evict is given a ranking of the message ids that decides between assemblies
of the same age.
-/

namespace VeilNetwork.Session.Realtime

/-! ### Datagrams -/

/-- `b"VRT1"`. -/
def magic : List UInt8 := [0x56, 0x52, 0x54, 0x31]

def headerLen : ℕ := 24
def tagLen : ℕ := 16

/-- `MAX_REALTIME_FRAME`: a maximum-size circuit cell with its two outer headers. -/
def maxRealtimeFrame : ℕ := 16384 + 10 + 24

def maxFragments : ℕ := 32
def maxAssemblies : ℕ := 64
def maxAssemblyBytes : ℕ := 512 * 1024

/-- `ASSEMBLY_TTL`, in milliseconds. -/
def assemblyTtl : ℕ := 2000

/-- `REALTIME_REKEY_GRACE`, in milliseconds. -/
def realtimeRekeyGrace : ℕ := 5000

/-- A datagram or a frame. -/
abbrev Octets : Type := List UInt8

inductive RealtimeDatagramError where
  | datagramTooSmall (size : ℕ)
  | frameSize (size : ℕ)
  | tooManyFragments (count : ℕ)
  | malformed
  | authentication
  | replay
  | sequenceExhausted
  | assemblyConflict
  | assemblyOverflow
  | flowCapacity
deriving DecidableEq

/-- The AEAD of the lane with its key derivation, from a session key and a session id. -/
structure LaneAead (K : Type) where
  deriveKey : FixedBytes 32 → FixedBytes 32 → K
  encrypt : K → Octets → Octets → Octets → Octets
  decrypt : K → Octets → Octets → Octets → Option Octets
  /-- What was sealed opens. -/
  decrypt_encrypt : ∀ k nonce aad msg, decrypt k nonce aad (encrypt k nonce aad msg) = some msg
  /-- The tag follows the message. -/
  length_encrypt : ∀ k nonce aad msg, (encrypt k nonce aad msg).length = msg.length + tagLen

/-- The nonce of a sequence number. -/
def nonceFor (sequence : ℕ) : Octets := [0, 0, 0, 0] ++ Bytes.toBe 8 sequence

structure FragmentHeader where
  messageId : ℕ
  fragmentIndex : ℕ
  fragmentCount : ℕ
  totalLen : ℕ
  sequence : ℕ
deriving DecidableEq

namespace FragmentHeader

def encode (h : FragmentHeader) : Octets :=
  magic ++ (Bytes.toBe 4 h.messageId ++ (Bytes.toBe 2 h.fragmentIndex ++
    (Bytes.toBe 2 h.fragmentCount ++ (Bytes.toBe 4 h.totalLen ++ Bytes.toBe 8 h.sequence))))

/-- The fields after the magic, where the datagram is long enough. -/
def fields (d : Octets) : Option FragmentHeader := do
  let (messageId, d) ← Bytes.takeBe 4 d
  let (fragmentIndex, d) ← Bytes.takeBe 2 d
  let (fragmentCount, d) ← Bytes.takeBe 2 d
  let (totalLen, d) ← Bytes.takeBe 4 d
  let (sequence, _) ← Bytes.takeBe 8 d
  return ⟨messageId, fragmentIndex, fragmentCount, totalLen, sequence⟩

/-- What the decoder asks of a header. -/
def Valid (h : FragmentHeader) : Prop :=
  h.messageId ≠ 0 ∧ h.sequence ≠ 0 ∧ h.totalLen ≠ 0 ∧ h.totalLen ≤ maxRealtimeFrame ∧
    h.fragmentCount ≠ 0 ∧ h.fragmentCount ≤ maxFragments ∧ h.fragmentIndex < h.fragmentCount

instance (h : FragmentHeader) : Decidable h.Valid := inferInstanceAs (Decidable (_ ∧ _))

def decode (d : Octets) : Except RealtimeDatagramError FragmentHeader :=
  if d.length < headerLen + tagLen + 1 ∨ d.take 4 ≠ magic then .error .malformed
  else
    match fields (d.drop 4) with
    | none => .error .malformed
    | some h => if h.Valid then .ok h else .error .malformed

end FragmentHeader

/-- The associated data and the sealed part of a datagram. -/
def decryptDatagram {K : Type} (A : LaneAead K) (k : K) (sequence : ℕ) (d : Octets) :
    Option Octets :=
  A.decrypt k (nonceFor sequence) (d.take headerLen) (d.drop headerLen)

/-! ### Sending -/

/-- `RealtimeDatagramTx`. -/
structure Tx (K : Type) where
  cipher : K
  nextSequence : ℕ
  nextMessageId : ℕ

namespace Tx

variable {K : Type} (A : LaneAead K)

def new (rawTxKey sessionId : FixedBytes 32) : Tx K := ⟨A.deriveKey rawTxKey sessionId, 1, 1⟩

/-- The sequence runs on across a rekey. -/
def rekey (tx : Tx K) (rawTxKey sessionId : FixedBytes 32) : Tx K :=
  { tx with cipher := A.deriveKey rawTxKey sessionId }

/-- One datagram: the header, then the chunk sealed with the header as associated data. -/
def sealFragment (k : K) (h : FragmentHeader) (chunk : Octets) : Octets :=
  h.encode ++ A.encrypt k (nonceFor h.sequence) h.encode chunk

/-- Seal the chunks of a frame, the next one being number `index`. -/
def sealChunks (messageId count total : ℕ) :
    ℕ → List Octets → Tx K → Except RealtimeDatagramError (List Octets) × Tx K
  | _, [], tx => (.ok [], tx)
  | index, chunk :: rest, tx =>
    let sequence := tx.nextSequence
    if sequence = Saturating.u64Max then (.error .sequenceExhausted, tx)
    else
      let datagram := sealFragment A tx.cipher ⟨messageId, index, count, total, sequence⟩ chunk
      match sealChunks messageId count total (index + 1) rest
        { tx with nextSequence := sequence + 1 } with
      | (.ok encoded, tx) => (.ok (datagram :: encoded), tx)
      | (.error e, tx) => (.error e, tx)

/-- `next_message_id.wrapping_add(1)`, skipping zero. -/
def bumpMessageId (tx : Tx K) : Tx K :=
  let next := (tx.nextMessageId + 1) % 2 ^ 32
  { tx with nextMessageId := if next = 0 then 1 else next }

/-- A frame as sealed packets. -/
def encodeFrame (tx : Tx K) (frame : Octets) (maxDatagramSize : ℕ) :
    Except RealtimeDatagramError (List Octets) × Tx K :=
  if frame = [] ∨ maxRealtimeFrame < frame.length then (.error (.frameSize frame.length), tx)
  else if maxDatagramSize ≤ headerLen + tagLen then
    (.error (.datagramTooSmall maxDatagramSize), tx)
  else
    let maxPlaintext := maxDatagramSize - (headerLen + tagLen)
    let fragmentCount := Chunks.count maxPlaintext frame
    if maxFragments < fragmentCount then (.error (.tooManyFragments fragmentCount), tx)
    else
      sealChunks A tx.nextMessageId fragmentCount frame.length 0
        (Chunks.chunks maxPlaintext frame) tx.bumpMessageId

end Tx

/-! ### Receiving -/

/-- The packets of a frame so far. -/
structure Assembly where
  createdAt : ℕ
  totalLen : ℕ
  fragments : List (Option Octets)
  storedBytes : ℕ
deriving DecidableEq

/-- The assembly has outlived its time. -/
def Assembly.expired (assembly : Assembly) (now : ℕ) : Bool :=
  decide (assemblyTtl ≤ now - assembly.createdAt)

/-- The assembly with one more fragment. -/
def Assembly.fill (assembly : Assembly) (index : ℕ) (plaintext : Octets) : Assembly :=
  { assembly with
    storedBytes := assembly.storedBytes + plaintext.length
    fragments := assembly.fragments.set index (some plaintext) }

/-- `ReplayWindow::precheck`. -/
def precheck (W : ReplayWindow 128) (sequence : ℕ) : Except RealtimeDatagramError Unit :=
  if sequence = 0 then .error .malformed
  else if W.refuses sequence then .error .replay
  else .ok ()

/-- `RealtimeDatagramRx`. -/
structure Rx (K : Type) where
  cipher : K
  /-- The key from before the last rekey and the end of its grace. -/
  previous : Option (K × ℕ)
  replay : ReplayWindow 128
  assemblies : Table ℕ Assembly
  assemblyBytes : ℕ
  maxAssemblies : ℕ
  maxAssemblyBytes : ℕ

namespace Rx

variable {K : Type} (A : LaneAead K)

def withLimits (rawRxKey sessionId : FixedBytes 32) (assemblies bytes : ℕ) : Rx K where
  cipher := A.deriveKey rawRxKey sessionId
  previous := none
  replay := .empty
  assemblies := ∅
  assemblyBytes := 0
  maxAssemblies := max 1 (min assemblies Realtime.maxAssemblies)
  maxAssemblyBytes := max maxRealtimeFrame (min bytes Realtime.maxAssemblyBytes)

section

variable (rx : Rx K)

/-- The old key stays for a while. -/
def rekey (rawRxKey sessionId : FixedBytes 32) (now : ℕ) : Rx K :=
  { rx with
    cipher := A.deriveKey rawRxKey sessionId
    previous := some (rx.cipher, now + realtimeRekeyGrace) }

/-- Try the current key, then the one before while its grace lasts. -/
def openDatagram (h : FragmentHeader) (d : Octets) (now : ℕ) : Option Octets × Rx K :=
  match decryptDatagram A rx.cipher h.sequence d with
  | some plaintext => (some plaintext, rx)
  | none =>
    match rx.previous with
    | none => (none, rx)
    | some (previous, deadline) =>
      if deadline ≤ now then (none, { rx with previous := none })
      else (decryptDatagram A previous h.sequence d, rx)

def removeAssembly (messageId : ℕ) : Rx K :=
  match rx.assemblies.lookup messageId with
  | none => rx
  | some assembly =>
    { rx with
      assemblies := rx.assemblies.erase messageId
      assemblyBytes := rx.assemblyBytes - assembly.storedBytes }

/-- Drop the frames that took too long. -/
def prune (now : ℕ) : Rx K :=
  let expired := (rx.assemblies.entries.filter fun e => e.2.expired now).map (·.1)
  expired.foldl removeAssembly rx

/-- The oldest assembly but the protected one. -/
def oldest (tie : ℕ → ℕ) (protectedId : Option ℕ) : Option ℕ :=
  ((rx.assemblies.entries.filter fun e => some e.1 ≠ protectedId).argmin fun e =>
    toLex (e.2.createdAt, tie e.1)).map (·.1)

/-- A budget is exhausted. -/
def crowded (incoming : ℕ) (isNew : Bool) : Bool :=
  (isNew && decide (rx.maxAssemblies ≤ rx.assemblies.size)) ||
    decide (rx.maxAssemblyBytes < rx.assemblyBytes + incoming)

end

/-- The assemblies `make_room` removes, one after the other. -/
def victims (tie : ℕ → ℕ) (protectedId : Option ℕ) (incoming : ℕ) (isNew : Bool) :
    ℕ → Rx K → List ℕ
  | 0, _ => []
  | n + 1, rx =>
    if rx.crowded incoming isNew then
      match rx.oldest tie protectedId with
      | none => []
      | some id => id :: victims tie protectedId incoming isNew n (rx.removeAssembly id)
    else []

variable (rx : Rx K) (tie : ℕ → ℕ)

def makeRoom (protectedId : Option ℕ) (incoming : ℕ) (isNew : Bool) : Rx K :=
  (victims tie protectedId incoming isNew rx.assemblies.size rx).foldl removeAssembly rx

/-- An assembly with `added` more bytes stored. -/
def putAssembly (messageId : ℕ) (assembly : Assembly) (added : ℕ) : Rx K :=
  { rx with
    assemblies := rx.assemblies.insert messageId assembly
    assemblyBytes := rx.assemblyBytes + added }

/-- A new assembly, after room was made for it. -/
def startAssembly (h : FragmentHeader) (incoming now : ℕ) : Rx K :=
  (rx.makeRoom tie none incoming true).putAssembly h.messageId
    ⟨now, h.totalLen, List.replicate h.fragmentCount none, 0⟩ 0

/-- File a fragment in its assembly. -/
def storeFragment (h : FragmentHeader) (plaintext : Octets) :
    Except RealtimeDatagramError (Option Octets) × Rx K :=
  match rx.assemblies.lookup h.messageId with
  | none => (.ok none, rx)
  | some present =>
    if present.fragments[h.fragmentIndex]? ≠ some none then
      -- the same fragment under a fresh sequence: its sequence is consumed, one copy kept
      (.ok none, rx)
    else
      let rx := rx.makeRoom tie (some h.messageId) plaintext.length false
      match rx.assemblies.lookup h.messageId with
      | none => (.ok none, rx)
      | some assembly =>
        if assembly.totalLen < assembly.storedBytes + plaintext.length then
          (.error .assemblyOverflow, rx.removeAssembly h.messageId)
        else
          let assembly := assembly.fill h.fragmentIndex plaintext
          let rx := rx.putAssembly h.messageId assembly plaintext.length
          if assembly.fragments.any (·.isNone) then (.ok none, rx)
          else if assembly.storedBytes ≠ assembly.totalLen then
            (.error .assemblyOverflow, rx.removeAssembly h.messageId)
          else
            (.ok (some (assembly.fragments.map fun o => o.getD []).flatten),
              rx.removeAssembly h.messageId)

/-- What `decode_datagram` does with an authenticated fragment. -/
def acceptFragment (h : FragmentHeader) (plaintext : Octets) (now : ℕ) :
    Except RealtimeDatagramError (Option Octets) × Rx K :=
  if plaintext = [] ∨ h.totalLen < plaintext.length then (.error .assemblyOverflow, rx)
  else
    match rx.assemblies.lookup h.messageId with
    | some existing =>
      if existing.totalLen ≠ h.totalLen ∨ existing.fragments.length ≠ h.fragmentCount then
        (.error .assemblyConflict, rx.removeAssembly h.messageId)
      else rx.storeFragment tie h plaintext
    | none => (rx.startAssembly tie h plaintext.length now).storeFragment tie h plaintext

/-- The first half of `decode_datagram`: expiry, the header, the window and the tag; the
window moves only once the tag verified. -/
def authenticate (d : Octets) (now : ℕ) :
    Except RealtimeDatagramError (FragmentHeader × Octets) × Rx K :=
  let rx := rx.prune now
  match FragmentHeader.decode d with
  | .error e => (.error e, rx)
  | .ok h =>
    match precheck rx.replay h.sequence with
    | .error e => (.error e, rx)
    | .ok () =>
      match rx.openDatagram A h d now with
      | (none, rx) => (.error .authentication, rx)
      | (some plaintext, rx) =>
        (.ok (h, plaintext), { rx with replay := rx.replay.commit h.sequence })

/-- Open a packet and add it to its frame. -/
def decodeDatagram (d : Octets) (now : ℕ) (tie : ℕ → ℕ) :
    Except RealtimeDatagramError (Option Octets) × Rx K :=
  match rx.authenticate A d now with
  | (.error e, rx) => (.error e, rx)
  | (.ok (h, plaintext), rx) => rx.acceptFragment tie h plaintext now

end Rx

end VeilNetwork.Session.Realtime
