import VeilNetwork.Identity.Document

/-!
# The verification of an identity document

The ladder of checks a document goes through: its id is that of its master key, each key has the
id of its device and a certificate of the master, each revoked device is signed for by the master,
and the document is signed by one of its keys. Two of the checks look at the clock, the window of
the document and the window of the key that signed it. `exists_verify_eq_ok` takes the ladder
apart into these two, `InWindow`, and the rest, `Bound`, which no clock can change.

The hash and the signatures are parameters; nothing is assumed of them here.
-/

namespace VeilNetwork.Identity

open Option

/-- The secret of an Ed25519 key. -/
abbrev Seed : Type := FixedBytes 32

/-- The primitives: a hash, how a key signs, and the check of a signature. -/
structure Crypto where
  hash : List UInt8 → NodeId
  verifySigRaw (algo : UInt8) (publicKey message signature : List UInt8) : Bool
  sign : Seed → List UInt8 → List UInt8

def Crypto.computeNodeId (c : Crypto) (publicKey : List UInt8) : NodeId := c.hash publicKey

/-- Where the document of an identity is stored. -/
def Crypto.dhtKey (c : Crypto) (nodeId : NodeId) : NodeId :=
  c.hash (Text.bytes "veil.identity_dht.v1" ++ nodeId.1)

def timeValiditySkewSecs : UInt64 := 60

inductive VerifyError where
  | nodeIdMismatch (computed doc : NodeId)
  | expired (now validUntil : UInt64)
  | notYetValid (now issuedAt skew : UInt64)
  | deviceIdMismatch (idx : ℕ) (computed key : NodeId)
  | keyExpired (idx : ℕ) (now validUntil : UInt64)
  | keyNotYetValid (idx : ℕ) (now validFrom skew : UInt64)
  | certSigInvalid (idx : ℕ)
  | revocationSigInvalid (idx : ℕ)
  | sigKeyIdxOutOfBounds (sigKeyIdx : UInt16) (nKeys : ℕ)
  | documentSigInvalid
  deriving DecidableEq

/-- What a document proves. -/
structure ValidatedIdentity where
  nodeId : NodeId
  masterAlgo : UInt8
  masterPubkey : List UInt8
  activeIdentityPubkey : List UInt8
  activeIdentityAlgo : UInt8
  activeKeyIdx : UInt16
  activeDeviceId : NodeId
  activeInstanceId : List UInt8

/-- Refuse with an error where a condition holds. -/
def refuseIf (c : Prop) [Decidable c] (e : VerifyError) : Except VerifyError Unit :=
  if c then .error e else .ok ()

section Ladder

variable (c : Crypto) (d : IdentityDocument)

def certVerifies (k : IdentityKey) : Bool :=
  c.verifySigRaw d.masterAlgo d.masterPubkey (k.certifyMessage d.nodeId) k.masterSig

def revocationVerifies (r : RevokedDevice) : Bool :=
  c.verifySigRaw d.masterAlgo d.masterPubkey (RevokedDevice.signingMessage d.nodeId r.deviceId)
    r.masterSig

def documentSigVerifies (active : IdentityKey) : Bool :=
  c.verifySigRaw active.algo active.pubkey (docSigContext ++ d.canonicalSigningBytes) d.documentSig

/-- The window of the document. A date of issue of zero is no lower bound. -/
def checkFreshness : Option UInt64 → Except VerifyError Unit
  | none => .ok ()
  | some now => do
    refuseIf (d.validUntilUnix < now) (.expired now d.validUntilUnix)
    refuseIf (0 < d.issuedAtUnix ∧ now + timeValiditySkewSecs < d.issuedAtUnix)
      (.notYetValid now d.issuedAtUnix timeValiditySkewSecs)

variable (now : Option UInt64)

/-- The window of a key, where it is the one that signed. -/
def checkKeyWindow (idx : ℕ) (k : IdentityKey) : Except VerifyError Unit :=
  match now with
  | none => .ok ()
  | some now =>
    if idx = d.sigKeyIdx.toNat then do
      refuseIf (k.validUntilUnix < now) (.keyExpired idx now k.validUntilUnix)
      refuseIf (0 < k.validFromUnix ∧ now + timeValiditySkewSecs < k.validFromUnix)
        (.keyNotYetValid idx now k.validFromUnix timeValiditySkewSecs)
    else .ok ()

/-- The checks of one key. -/
def checkKey (idx : ℕ) (k : IdentityKey) : Except VerifyError Unit := do
  refuseIf (c.computeNodeId k.pubkey ≠ k.deviceId)
    (.deviceIdMismatch idx (c.computeNodeId k.pubkey) k.deviceId)
  checkKeyWindow d now idx k
  refuseIf (certVerifies c d k = false) (.certSigInvalid idx)

/-- The keys, from an index on. -/
def checkKeys (now : Option UInt64) : ℕ → List IdentityKey → Except VerifyError Unit
  | _, [] => .ok ()
  | idx, k :: keys => do
    checkKey c d now idx k
    checkKeys now (idx + 1) keys

def checkRevoked : ℕ → List RevokedDevice → Except VerifyError Unit
  | _, [] => .ok ()
  | idx, r :: revoked => do
    refuseIf (revocationVerifies c d r = false) (.revocationSigInvalid idx)
    checkRevoked (idx + 1) revoked

/-- The key that signed, and its signature. -/
def checkActive : Except VerifyError ValidatedIdentity :=
  match d.identityKeys[d.sigKeyIdx.toNat]? with
  | none => .error (.sigKeyIdxOutOfBounds d.sigKeyIdx d.identityKeys.length)
  | some active =>
    if documentSigVerifies c d active = false then .error .documentSigInvalid
    else .ok
      { nodeId := d.nodeId
        masterAlgo := d.masterAlgo
        masterPubkey := d.masterPubkey
        activeIdentityPubkey := active.pubkey
        activeIdentityAlgo := active.algo
        activeKeyIdx := d.sigKeyIdx
        activeDeviceId := active.deviceId
        activeInstanceId := active.deviceId.1.take 16 }

/-- All checks, in their order. -/
def verifyDocumentInner : Except VerifyError ValidatedIdentity := do
  refuseIf (c.computeNodeId d.masterPubkey ≠ d.nodeId)
    (.nodeIdMismatch (c.computeNodeId d.masterPubkey) d.nodeId)
  checkFreshness d now
  checkKeys c d now 0 d.identityKeys
  checkRevoked c d 0 d.revokedDevices
  checkActive c d

def verifyIdentityDocument (now : UInt64) : Except VerifyError ValidatedIdentity :=
  verifyDocumentInner c d (some now)

def verifyIdentityDocumentBindings : Except VerifyError ValidatedIdentity :=
  verifyDocumentInner c d none

end Ladder

/-! ### What the ladder asks for -/

/-- **The bindings of a document**, which no clock can change. -/
structure Bound (c : Crypto) (d : IdentityDocument) : Prop where
  nodeId : c.computeNodeId d.masterPubkey = d.nodeId
  deviceId : ∀ k ∈ d.identityKeys, c.computeNodeId k.pubkey = k.deviceId
  cert : ∀ k ∈ d.identityKeys, certVerifies c d k = true
  revoked : ∀ r ∈ d.revokedDevices, revocationVerifies c d r = true
  active : ∃ k, d.identityKeys[d.sigKeyIdx.toNat]? = some k ∧ documentSigVerifies c d k = true

/-- A time in a window, where a start of zero is none. -/
def Since (start now : UInt64) : Prop := start = 0 ∨ start ≤ now + timeValiditySkewSecs

instance (start now : UInt64) : Decidable (Since start now) :=
  inferInstanceAs (Decidable (_ ∨ _))

/-- **The windows of a document** and of the key that signed it. -/
structure InWindow (d : IdentityDocument) (now : UInt64) : Prop where
  until_le : now ≤ d.validUntilUnix
  since : Since d.issuedAtUnix now
  key_until_le : ∀ k, d.identityKeys[d.sigKeyIdx.toNat]? = some k → now ≤ k.validUntilUnix
  key_since : ∀ k, d.identityKeys[d.sigKeyIdx.toNat]? = some k → Since k.validFromUnix now

instance (d : IdentityDocument) (now : UInt64) : Decidable (InWindow d now) :=
  decidable_of_iff
    (now ≤ d.validUntilUnix ∧ Since d.issuedAtUnix now ∧
      ∀ k ∈ d.identityKeys[d.sigKeyIdx.toNat]?, now ≤ k.validUntilUnix ∧ Since k.validFromUnix now)
    ⟨fun ⟨huntil, hsince, hkey⟩ => ⟨huntil, hsince, fun k hk => (hkey k hk).1,
      fun k hk => (hkey k hk).2⟩,
    fun h => ⟨h.until_le, h.since, fun k hk => ⟨h.key_until_le k hk, h.key_since k hk⟩⟩⟩

section Taking

variable {c : Crypto} {d : IdentityDocument} {now : Option UInt64}

theorem refuseIf_eq_ok {p : Prop} [Decidable p] {e : VerifyError} :
    refuseIf p e = .ok () ↔ ¬p := by
  rw [refuseIf]
  split
  next h => exact iff_of_false (nofun) (not_not_intro h)
  next h => exact iff_of_true rfl h

/-- Two checks in a row. -/
theorem bind_eq_ok {α : Type} {s : Except VerifyError Unit} {t : Except VerifyError α} {v : α} :
    (s >>= fun _ => t) = .ok v ↔ s = .ok () ∧ t = .ok v := by
  cases s with
  | error e => exact iff_of_false (nofun) (fun h => by cases h.1)
  | ok u => exact ⟨fun h => ⟨rfl, h⟩, fun h => h.2⟩

theorem not_late_iff {start now : UInt64} :
    ¬(0 < start ∧ now + timeValiditySkewSecs < start) ↔ Since start now := by
  rw [not_and_or, UInt64.not_lt, UInt64.not_lt, Since, ← UInt64.toNat_inj]
  exact or_congr_left Nat.le_zero

theorem checkFreshness_eq_ok :
    checkFreshness d now = .ok () ↔
      ∀ t ∈ now, t ≤ d.validUntilUnix ∧ Since d.issuedAtUnix t := by
  cases now with
  | none => exact iff_of_true rfl (nofun)
  | some now =>
    rw [checkFreshness, bind_eq_ok, refuseIf_eq_ok, refuseIf_eq_ok, not_late_iff, UInt64.not_lt]
    exact ⟨fun h t ht => mem_some_iff.mp ht ▸ h, fun h => h now rfl⟩

variable {idx : ℕ}

theorem checkKeyWindow_eq_ok {k : IdentityKey} :
    checkKeyWindow d now idx k = .ok () ↔
      ∀ t ∈ now, idx = d.sigKeyIdx.toNat → t ≤ k.validUntilUnix ∧ Since k.validFromUnix t := by
  cases now with
  | none => exact iff_of_true rfl (nofun)
  | some now =>
    rw [checkKeyWindow]
    split
    next hidx =>
      rw [bind_eq_ok, refuseIf_eq_ok, refuseIf_eq_ok, not_late_iff, UInt64.not_lt]
      exact ⟨fun h t ht _ => mem_some_iff.mp ht ▸ h, fun h => h now rfl hidx⟩
    next hidx => exact iff_of_true rfl (fun t _ h => absurd h hidx)

variable (c d now idx) in
/-- What is asked of a key at an index. -/
structure KeyOk (k : IdentityKey) : Prop where
  deviceId : c.computeNodeId k.pubkey = k.deviceId
  window : ∀ t ∈ now, idx = d.sigKeyIdx.toNat → t ≤ k.validUntilUnix ∧ Since k.validFromUnix t
  cert : certVerifies c d k = true

theorem checkKey_eq_ok {k : IdentityKey} :
    checkKey c d now idx k = .ok () ↔ KeyOk c d now idx k := by
  rw [checkKey, bind_eq_ok, bind_eq_ok, refuseIf_eq_ok, checkKeyWindow_eq_ok, refuseIf_eq_ok,
    not_not, Bool.not_eq_false]
  exact ⟨fun h => ⟨h.1, h.2.1, h.2.2⟩, fun h => ⟨h.deviceId, h.window, h.cert⟩⟩

theorem checkKeys_eq_ok {keys : List IdentityKey} :
    checkKeys c d now idx keys = .ok () ↔
      ∀ (i : ℕ) k, keys[i]? = some k → KeyOk c d now (idx + i) k := by
  induction keys generalizing idx with
  | nil => exact iff_of_true rfl (nofun)
  | cons k keys ih =>
    rw [checkKeys, bind_eq_ok, checkKey_eq_ok, ih]
    refine ⟨fun h i k' hk' => ?_, fun h => ⟨h 0 k rfl, fun i k' hk' => ?_⟩⟩
    · cases i with
      | zero => exact some.inj hk' ▸ h.1
      | succ i => exact Nat.add_right_comm idx 1 i ▸ h.2 i k' hk'
    · exact (Nat.add_right_comm idx 1 i).symm ▸ h (i + 1) k' hk'

theorem checkRevoked_eq_ok {revoked : List RevokedDevice} :
    checkRevoked c d idx revoked = .ok () ↔
      ∀ r ∈ revoked, revocationVerifies c d r = true := by
  induction revoked generalizing idx with
  | nil => exact iff_of_true rfl (nofun)
  | cons r revoked ih =>
    rw [checkRevoked, bind_eq_ok, refuseIf_eq_ok, ih, List.forall_mem_cons, Bool.not_eq_false]

theorem exists_checkActive_eq_ok :
    (∃ v, checkActive c d = .ok v) ↔
      ∃ k, d.identityKeys[d.sigKeyIdx.toNat]? = some k ∧ documentSigVerifies c d k = true := by
  rw [checkActive]
  generalize d.identityKeys[d.sigKeyIdx.toNat]? = active
  cases active with
  | none => exact iff_of_false (fun ⟨_, h⟩ => by cases h) (fun ⟨_, h, _⟩ => by cases h)
  | some k =>
    dsimp only
    split
    next h =>
      refine iff_of_false (fun ⟨_, h⟩ => by cases h) ?_
      rintro ⟨k', hk', hverifies⟩
      rw [← some.inj hk', h] at hverifies
      cases hverifies
    next h => exact iff_of_true ⟨_, rfl⟩ ⟨k, rfl, Bool.not_eq_false _ |>.mp h⟩

/-- **The ladder, taken apart**: the bindings, and the windows where there is a clock. -/
theorem exists_verify_eq_ok :
    (∃ v, verifyDocumentInner c d now = .ok v) ↔ Bound c d ∧ ∀ t ∈ now, InWindow d t := by
  have hsplit : (∃ v, verifyDocumentInner c d now = .ok v) ↔
      c.computeNodeId d.masterPubkey = d.nodeId ∧
      (∀ t ∈ now, t ≤ d.validUntilUnix ∧ Since d.issuedAtUnix t) ∧
      (∀ (i : ℕ) k, d.identityKeys[i]? = some k → KeyOk c d now (0 + i) k) ∧
      (∀ r ∈ d.revokedDevices, revocationVerifies c d r = true) ∧
      ∃ v, checkActive c d = .ok v := by
    simp only [verifyDocumentInner, bind_eq_ok, refuseIf_eq_ok, not_not, checkFreshness_eq_ok,
      checkKeys_eq_ok, checkRevoked_eq_ok, exists_and_left]
  rw [hsplit, exists_checkActive_eq_ok]
  refine ⟨fun ⟨hnode, hfresh, hkeys, hrevoked, hactive⟩ => ⟨?_, fun t ht => ?_⟩,
    fun ⟨hbound, hwindow⟩ => ⟨hbound.nodeId, fun t ht => ?_, fun i k hk => ?_, hbound.revoked,
      hbound.active⟩⟩
  · refine ⟨hnode, fun k hk => ?_, fun k hk => ?_, hrevoked, hactive⟩
    all_goals obtain ⟨i, hi⟩ := List.mem_iff_getElem?.mp hk
    · exact (hkeys i k hi).deviceId
    · exact (hkeys i k hi).cert
  · refine ⟨(hfresh t ht).1, (hfresh t ht).2, fun k hk => ?_, fun k hk => ?_⟩
    · exact ((hkeys _ k hk).window t ht (zero_add _)).1
    · exact ((hkeys _ k hk).window t ht (zero_add _)).2
  · exact ⟨(hwindow t ht).until_le, (hwindow t ht).since⟩
  · have hmem : k ∈ d.identityKeys := List.mem_of_getElem? hk
    refine ⟨hbound.deviceId k hmem, fun t ht hidx => ?_, hbound.cert k hmem⟩
    have hactive : d.identityKeys[d.sigKeyIdx.toNat]? = some k := by
      rwa [← hidx, zero_add]
    exact ⟨(hwindow t ht).key_until_le k hactive, (hwindow t ht).key_since k hactive⟩

theorem isOk_iff {ε α : Type} {x : Except ε α} : x.isOk = true ↔ ∃ v, x = .ok v := by
  cases x with
  | error e => exact iff_of_false (nofun) (fun ⟨_, h⟩ => by cases h)
  | ok v => exact iff_of_true rfl ⟨v, rfl⟩

theorem isOk_verifyIdentityDocument {t : UInt64} :
    (verifyIdentityDocument c d t).isOk = true ↔ Bound c d ∧ InWindow d t := by
  rw [isOk_iff, verifyIdentityDocument, exists_verify_eq_ok]
  exact and_congr_right fun _ => ⟨fun h => h t rfl, fun h t' ht' => mem_some_iff.mp ht' ▸ h⟩

theorem isOk_verifyIdentityDocumentBindings :
    (verifyIdentityDocumentBindings c d).isOk = true ↔ Bound c d := by
  rw [isOk_iff, verifyIdentityDocumentBindings, exists_verify_eq_ok]
  exact and_iff_left nofun

end Taking

/-! ### An example -/

/-- Signatures that show who signed what, for examples: the key, and the end of the message. -/
def sampleCrypto : Crypto where
  hash l := ⟨(l.reverse ++ List.replicate 32 0).take 32, by simp⟩
  verifySigRaw algo publicKey message signature :=
    decide (algo = algoEd25519 ∧ publicKey.length = 32 ∧
      signature = publicKey ++ (message.reverse ++ List.replicate 32 0).take 32)
  sign seed message := seed.1 ++ (message.reverse ++ List.replicate 32 0).take 32

def sampleMaster : Seed := .replicate 32 1

def sampleNodeId : NodeId := sampleCrypto.computeNodeId sampleMaster.1

def sampleDevice (n : UInt8) : NodeId := sampleCrypto.computeNodeId (FixedBytes.replicate 32 n).1

/-- The key of a device, certified by the master. -/
def sampleKey (n : UInt8) (validUntil : UInt64) : IdentityKey :=
  let bare : IdentityKey :=
    ⟨algoEd25519, (FixedBytes.replicate 32 n).1, sampleDevice n, 1, validUntil, []⟩
  { bare with masterSig := sampleCrypto.sign sampleMaster (bare.certifyMessage sampleNodeId) }

/-- A device that the master revoked. -/
def sampleTombstone (n : UInt8) : RevokedDevice :=
  ⟨sampleDevice n, sampleCrypto.sign sampleMaster
    (RevokedDevice.signingMessage sampleNodeId (sampleDevice n))⟩

/-- A document of the master, signed by its first device. -/
def sampleDocument (issued validUntil : UInt64) (n : UInt8) (keys : List IdentityKey)
    (revoked : List RevokedDevice) : IdentityDocument :=
  let bare : IdentityDocument :=
    ⟨sampleNodeId, algoEd25519, sampleMaster.1, issued, validUntil, 0, keys, revoked, []⟩
  let message := docSigContext ++ bare.canonicalSigningBytes
  { bare with documentSig := sampleCrypto.sign (.replicate 32 n) message }

end VeilNetwork.Identity
