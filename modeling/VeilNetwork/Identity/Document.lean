import VeilNetwork.Lib.Text
import VeilNetwork.Session.Frame

/-!
# The identity document

The document that binds an identity to its master key, to the keys of its devices and to the
devices that were revoked, and its encoding. The decoder asks among other things that the lists of
keys and of revoked devices are not too long, that the document is not valid for more than thirty
days from its date of issue, and that no device is both named and revoked.
-/

namespace VeilNetwork.Identity

open Session (ProtoError)

open Cursor (refuse readU8 readU16 readU64 readArray readBytes readTag times)

/-! ### Constants -/

def identityDocumentMagic : List UInt8 := [73, 68]

def identityDocumentV1 : UInt8 := 1

def identityDocumentV2 : UInt8 := 2

def maxRevokedDeviceIds : ℕ := 64

def maxIdentityKeys : ℕ := 8

def maxIdentityDocumentBytes : ℕ := 16 * 1024

def maxPubkeyBytes : ℕ := 2048

def maxSigBytes : ℕ := 2048

def maxFreshnessWindowSecs : ℕ := 30 * 24 * 3600

def algoEd25519 : UInt8 := 0

def certifyContext : List UInt8 := Text.bytes "veil.certify.v1"

def revokeContext : List UInt8 := Text.bytes "veil.identity.revoke.v1"

def docSigContext : List UInt8 := Text.bytes "veil.identity_doc.v1"

/-! ### Strings with their length -/

def truncated (field : String) : ProtoError := .malformed ("truncated: " ++ field)

/-- A string of at least one byte and at most `cap`, with its length in front. -/
def readSized (lenField : String) (cap : ℕ) (what field : String) :
    Cursor ProtoError (List UInt8) :=
  Cursor.readSized (do let len ← readU16 (truncated lenField); pure len.toNat)
    (fun len => len = 0 ∨ cap < len)
    (fun len => .malformed (what ++ " out of range (" ++ toString len ++ ")"))
    fun len => readBytes len (truncated field)

/-! ### The keys of the devices -/

/-- The key of a device, with the certificate of the master. -/
structure IdentityKey where
  algo : UInt8
  pubkey : List UInt8
  deviceId : NodeId
  validFromUnix : UInt64
  validUntilUnix : UInt64
  masterSig : List UInt8
  deriving DecidableEq

namespace IdentityKey

def encode (k : IdentityKey) : List UInt8 :=
  [k.algo] ++ (Bytes.sized 2 k.pubkey ++ (k.deviceId.1 ++ (Bytes.toBe 8 k.validFromUnix.toNat ++
    (Bytes.toBe 8 k.validUntilUnix.toNat ++ Bytes.sized 2 k.masterSig))))

def decode : Cursor ProtoError IdentityKey := do
  let algo ← readU8 (truncated "identity_key.algo")
  let pubkey ← readSized "identity_key.pubkey_len" maxPubkeyBytes "identity_key: pubkey_len"
    "identity_key.pubkey"
  let deviceId ← readArray 32 (truncated "identity_key.device_id")
  let validFromUnix ← readU64 (truncated "identity_key.valid_from")
  let validUntilUnix ← readU64 (truncated "identity_key.valid_until")
  refuse (validUntilUnix < validFromUnix) (.malformed "identity_key: valid_until < valid_from")
  let masterSig ← readSized "identity_key.master_sig_len" maxSigBytes
    "identity_key: master_sig_len" "identity_key.master_sig"
  pure ⟨algo, pubkey, deviceId, validFromUnix, validUntilUnix, masterSig⟩

/-- What the master signs. -/
def certifyMessage (k : IdentityKey) (nodeId : NodeId) : List UInt8 :=
  certifyContext ++ (nodeId.1 ++ ([k.algo] ++ (Bytes.sized 2 k.pubkey ++ (k.deviceId.1 ++
    (Bytes.toBe 8 k.validFromUnix.toNat ++ Bytes.toBe 8 k.validUntilUnix.toNat)))))

end IdentityKey

/-! ### Revoked devices -/

/-- A device that may never be named again, with the signature of the master. -/
structure RevokedDevice where
  deviceId : NodeId
  masterSig : List UInt8
  deriving DecidableEq

namespace RevokedDevice

/-- What the master signs. -/
def signingMessage (nodeId deviceId : NodeId) : List UInt8 :=
  revokeContext ++ (nodeId.1 ++ deviceId.1)

def encode (r : RevokedDevice) : List UInt8 := r.deviceId.1 ++ Bytes.sized 2 r.masterSig

def decode : Cursor ProtoError RevokedDevice := do
  let deviceId ← readArray 32 (truncated "revoked_device.device_id")
  let masterSig ← readSized "revoked_device.sig_len" maxSigBytes "revoked_device: sig_len"
    "revoked_device.master_sig"
  pure ⟨deviceId, masterSig⟩

/-- The devices of a document, in strictly ascending order and none of them among the keys. -/
def decodeAscending (keys : List IdentityKey) :
    ℕ → Option NodeId → Cursor ProtoError (List RevokedDevice)
  | 0, _ => pure []
  | n + 1, prev => do
    let r ← decode
    refuse (prev.any fun p => decide (r.deviceId.1 ≤ p.1))
      (.malformed "identity_document: revoked_devices not strictly ascending")
    refuse (keys.any fun k => decide (k.deviceId = r.deviceId))
      (.malformed "identity_document: revoked device_id still among identity_keys")
    let l ← decodeAscending keys n (some r.deviceId)
    pure (r :: l)

end RevokedDevice

/-! ### The document -/

/-- The keys of an identity and its revoked devices. -/
structure IdentityDocument where
  nodeId : NodeId
  masterAlgo : UInt8
  masterPubkey : List UInt8
  issuedAtUnix : UInt64
  validUntilUnix : UInt64
  sigKeyIdx : UInt16
  identityKeys : List IdentityKey
  revokedDevices : List RevokedDevice
  documentSig : List UInt8
  deriving DecidableEq

namespace IdentityDocument

section

variable (d : IdentityDocument)

/-- The first version while nothing is revoked. -/
def version : UInt8 :=
  if d.revokedDevices = [] then identityDocumentV1 else identityDocumentV2

def encodeRevoked (revoked : List RevokedDevice) : List UInt8 :=
  if revoked = [] then []
  else [UInt8.ofNat revoked.length] ++ revoked.flatMap RevokedDevice.encode

/-- Everything before the signature. -/
def encodeBody : List UInt8 :=
  identityDocumentMagic ++ ([d.version] ++ (d.nodeId.1 ++ ([d.masterAlgo] ++
    (Bytes.sized 2 d.masterPubkey ++ (Bytes.toBe 8 d.issuedAtUnix.toNat ++
      (Bytes.toBe 8 d.validUntilUnix.toNat ++ (Bytes.toBe 2 d.sigKeyIdx.toNat ++
        ([UInt8.ofNat d.identityKeys.length] ++ (d.identityKeys.flatMap IdentityKey.encode ++
          encodeRevoked d.revokedDevices)))))))))

def encode : List UInt8 := d.encodeBody ++ Bytes.sized 2 d.documentSig

/-- What is signed: the encoding without its trailer. -/
def canonicalSigningBytes : List UInt8 :=
  d.encode.take (d.encode.length - (2 + d.documentSig.length))

end

/-- The revoked devices, in the second version only. -/
def decodeRevoked (version : UInt8) (keys : List IdentityKey) :
    Cursor ProtoError (List RevokedDevice) :=
  if version = identityDocumentV2 then do
    let count ← readU8 (truncated "identity_document.revoked_count")
    refuse (count = 0) (.malformed "identity_document: v2 with empty revocation list")
    refuse (maxRevokedDeviceIds < count.toNat)
      (.malformed ("identity_document: revoked_count > " ++ toString maxRevokedDeviceIds))
    RevokedDevice.decodeAscending keys count.toNat none
  else pure []

/-- The fields, in their order. -/
def decodeFields : Cursor ProtoError IdentityDocument := do
  readTag identityDocumentMagic (.malformed "identity_document: bad magic")
  let version ← readU8 (truncated "identity_document.version")
  refuse (version ≠ identityDocumentV1 ∧ version ≠ identityDocumentV2)
    (.malformed ("identity_document: unsupported version " ++ toString version.toNat))
  let nodeId ← readArray 32 (truncated "identity_document.id")
  let masterAlgo ← readU8 (truncated "identity_document.master_algo")
  let masterPubkey ← readSized "identity_document.master_pubkey_len" maxPubkeyBytes
    "identity_document: master_pubkey_len" "identity_document.master_pubkey"
  let issuedAtUnix ← readU64 (truncated "identity_document.issued_at")
  let validUntilUnix ← readU64 (truncated "identity_document.valid_until")
  refuse (validUntilUnix < issuedAtUnix)
    (.malformed "identity_document: valid_until < issued_at")
  refuse (maxFreshnessWindowSecs < validUntilUnix.toNat - issuedAtUnix.toNat)
    (.malformed ("identity_document: freshness window > " ++ toString maxFreshnessWindowSecs ++
      "s"))
  let sigKeyIdx ← readU16 (truncated "identity_document.sig_key_idx")
  let count ← readU8 (truncated "identity_document.keys_count")
  refuse (maxIdentityKeys < count.toNat)
    (.malformed ("identity_document: identity_keys_count > " ++ toString maxIdentityKeys))
  let identityKeys ← times IdentityKey.decode count.toNat
  refuse (identityKeys.length ≤ sigKeyIdx.toNat)
    (.malformed ("identity_document: sig_key_idx " ++ toString sigKeyIdx.toNat ++
      " out of bounds (" ++ toString identityKeys.length ++ " keys)"))
  let revokedDevices ← decodeRevoked version identityKeys
  let documentSig ← readSized "identity_document.doc_sig_len" maxSigBytes
    "identity_document: document_sig_len" "identity_document.document_sig"
  pure ⟨nodeId, masterAlgo, masterPubkey, issuedAtUnix, validUntilUnix, sigKeyIdx, identityKeys,
    revokedDevices, documentSig⟩

/-- A document, and nothing behind it. -/
def decode (buf : List UInt8) : Except ProtoError IdentityDocument :=
  if maxIdentityDocumentBytes < buf.length then
    .error (.malformed ("identity_document: oversized (" ++ toString buf.length ++ " > " ++
      toString maxIdentityDocumentBytes ++ ")"))
  else
    match decodeFields buf with
    | .error e => .error e
    | .ok (d, rest) =>
      if rest ≠ [] then
        .error (.malformed ("identity_document: trailing " ++ toString rest.length ++
          " bytes after decode"))
      else .ok d

/-! ### Revocations -/

/-- The document lists a device as revoked. -/
def Revokes (d : IdentityDocument) (device : NodeId) : Prop :=
  ∃ r ∈ d.revokedDevices, r.deviceId = device

instance (d : IdentityDocument) (device : NodeId) : Decidable (d.Revokes device) :=
  inferInstanceAs (Decidable (∃ r ∈ d.revokedDevices, r.deviceId = device))

variable (old new : IdentityDocument)

/-- A revocation of the old document that the new one does not have. -/
def forgets : Bool :=
  old.revokedDevices.any fun revoked =>
    !new.revokedDevices.any fun r => decide (r.deviceId = revoked.deviceId)

/-- The old document speaks against the new one. -/
def vetoes : Bool :=
  decide (new.issuedAtUnix < old.issuedAtUnix) || forgets old new

theorem of_vetoes_eq_false {old new : IdentityDocument} (h : old.vetoes new = false) :
    old.issuedAtUnix ≤ new.issuedAtUnix ∧ ∀ device, old.Revokes device → new.Revokes device := by
  rw [vetoes, Bool.or_eq_false_iff, decide_eq_false_iff_not, UInt64.not_lt] at h
  refine ⟨h.1, ?_⟩
  rintro device ⟨revoked, hmem, rfl⟩
  have hany := List.any_eq_false.mp h.2 revoked hmem
  rw [Bool.not_eq_true, Bool.not_eq_false', List.any_eq_true] at hany
  obtain ⟨r, hr, heq⟩ := hany
  exact ⟨r, hr, of_decide_eq_true heq⟩

end IdentityDocument

end VeilNetwork.Identity
