import VeilNetwork.Identity.Document

/-!
# The encoding of identity documents

The decoder accepts the encodings of the documents within its limits and nothing else
(`IdentityDocument.decode_eq_ok_iff`), so that a document has one encoding. The signature covers a
document up to its trailer and a certificate covers a key up to its signature; both can be read in
one way only, which is `IdentityDocument.encoding_unambiguous`.
-/

namespace VeilNetwork.Identity

open Cursor List Bytes Bytes

/-- A string of at least one byte and at most `cap`. -/
def Sized (cap : ℕ) (v : List UInt8) : Prop := v ≠ [] ∧ v.length ≤ cap

theorem exact_readSized {cap : ℕ} (hcap : cap < 65536) (lenField what field : String) :
    Exact (readSized lenField cap what field) (Bytes.sized 2) (Sized cap) := by
  intro buf v rest
  have hcap' n (hok : ¬(n = 0 ∨ cap < n)) : n < 256 ^ 2 := by omega
  rw [readSized, (Cursor.exact_readSized exact_toNat_readU16 (fun _ => exact_readBytes) hcap').iff,
    Sized, not_or, length_eq_zero_iff, not_lt]

/-! ### Keys and revoked devices -/

structure IdentityKey.InLimits (k : IdentityKey) : Prop where
  pubkey : Sized maxPubkeyBytes k.pubkey
  window : k.validFromUnix ≤ k.validUntilUnix
  masterSig : Sized maxSigBytes k.masterSig

theorem IdentityKey.exact_decode :
    Exact IdentityKey.decode IdentityKey.encode IdentityKey.InLimits := by
  intro buf k rest
  simp only [IdentityKey.decode, bind_eq_ok_iff, exact_readU8.iff,
    (exact_readSized (show maxPubkeyBytes < 65536 by decide) _ _ _).iff, exact_readArray.iff,
    exact_readU64.iff, refuse_eq_ok_iff,
    (exact_readSized (show maxSigBytes < 65536 by decide) _ _ _).iff, pure_eq_ok_iff, and_true,
    UInt64.not_lt]
  constructor
  · rintro ⟨_, _, rfl, _, _, ⟨rfl, hpubkey⟩, _, _, rfl, _, _, rfl, _, _, rfl, _, _, ⟨hwindow, rfl⟩,
      _, _, ⟨rfl, hsig⟩, rfl, rfl⟩
    exact ⟨by simp only [encode, append_assoc], hpubkey, hwindow, hsig⟩
  · rintro ⟨rfl, hk⟩
    simp only [encode, append_assoc]
    exact ⟨_, _, rfl, _, _, ⟨rfl, hk.pubkey⟩, _, _, rfl, _, _, rfl, _, _, rfl, _, (),
      ⟨hk.window, rfl⟩, _, _, ⟨rfl, hk.masterSig⟩, rfl, rfl⟩

namespace RevokedDevice

theorem exact_decode : Exact decode encode fun r => Sized maxSigBytes r.masterSig := by
  intro buf r rest
  simp only [decode, bind_eq_ok_iff, exact_readArray.iff,
    (exact_readSized (show maxSigBytes < 65536 by decide) _ _ _).iff, pure_eq_ok_iff, and_true]
  constructor
  · rintro ⟨_, _, rfl, _, _, ⟨rfl, hsig⟩, rfl, rfl⟩
    exact ⟨by simp only [encode, append_assoc], hsig⟩
  · rintro ⟨rfl, hsig⟩
    simp only [encode, append_assoc]
    exact ⟨_, _, rfl, _, _, ⟨rfl, hsig⟩, rfl, rfl⟩

/-- Devices in strictly ascending order, above one if it is given, none of them among the keys. -/
def Ascending (keys : List IdentityKey) : Option NodeId → List RevokedDevice → Prop
  | _, [] => True
  | prev, r :: l => Sized maxSigBytes r.masterSig ∧ (∀ p ∈ prev, p.1 < r.deviceId.1) ∧
    (∀ k ∈ keys, k.deviceId ≠ r.deviceId) ∧ Ascending keys (some r.deviceId) l

theorem exact_decodeAscending (keys : List IdentityKey) (n : ℕ) (prev : Option NodeId) :
    Exact (decodeAscending keys n prev) (flatMap encode)
      fun l => l.length = n ∧ Ascending keys prev l := by
  induction n generalizing prev with
  | zero =>
    intro buf l rest
    simp only [decodeAscending, pure_eq_ok_iff]
    constructor
    · rintro ⟨rfl, rfl⟩
      exact ⟨rfl, rfl, trivial⟩
    · rintro ⟨rfl, hlen, -⟩
      obtain rfl := length_eq_zero_iff.mp hlen
      exact ⟨rfl, rfl⟩
  | succ n ih =>
    intro buf l rest
    simp only [decodeAscending, bind_eq_ok_iff, exact_decode.iff, refuse_eq_ok_iff, (ih _).iff,
      pure_eq_ok_iff, Bool.not_eq_true, Option.any_eq_false, any_eq_false, decide_eq_false_iff_not,
      List.not_le]
    constructor
    · rintro ⟨_, r, ⟨rfl, hsig⟩, _, _, ⟨hprev, rfl⟩, _, _, ⟨hkeys, rfl⟩, _, l, ⟨rfl, rfl, hl⟩, rfl,
        rfl⟩
      exact ⟨by rw [flatMap_cons, append_assoc], rfl, hsig, hprev, hkeys, hl⟩
    · rintro ⟨rfl, hlen, hl⟩
      cases l with
      | nil => cases hlen
      | cons r l =>
        rw [flatMap_cons, append_assoc]
        exact ⟨_, r, ⟨rfl, hl.1⟩, _, (), ⟨hl.2.1, rfl⟩, _, (), ⟨hl.2.2.1, rfl⟩, _, l,
          ⟨rfl, Nat.succ.inj hlen, hl.2.2.2⟩, rfl, rfl⟩

end RevokedDevice

/-! ### Documents -/

def IdentityKey.encodedLen (k : IdentityKey) : ℕ :=
  1 + 2 + k.pubkey.length + 32 + 8 + 8 + 2 + k.masterSig.length

namespace IdentityDocument

def encodedLen (d : IdentityDocument) : ℕ :=
  2 + 1 + 32 + 1 + 2 + d.masterPubkey.length + 8 + 8 + 2 + 1 +
    (d.identityKeys.map IdentityKey.encodedLen).sum +
    (if d.revokedDevices = [] then 0
      else 1 + (d.revokedDevices.map fun r => 32 + 2 + r.masterSig.length).sum) +
    2 + d.documentSig.length

/-- The limits of the decoder on the fields of a document. -/
structure InLimits (d : IdentityDocument) : Prop where
  masterPubkey : Sized maxPubkeyBytes d.masterPubkey
  window : d.issuedAtUnix ≤ d.validUntilUnix
  fresh : d.validUntilUnix.toNat - d.issuedAtUnix.toNat ≤ maxFreshnessWindowSecs
  identityKeys : d.identityKeys.length ≤ maxIdentityKeys ∧ ∀ k ∈ d.identityKeys, k.InLimits
  sigKeyIdx : d.sigKeyIdx.toNat < d.identityKeys.length
  revokedDevices : d.revokedDevices.length ≤ maxRevokedDeviceIds ∧
    RevokedDevice.Ascending d.identityKeys none d.revokedDevices
  documentSig : Sized maxSigBytes d.documentSig

variable {d d' : IdentityDocument} {buf rest : List UInt8}

theorem toNat_ofNat_count {n cap : ℕ} (hn : n ≤ cap) (hcap : cap < 256) :
    (UInt8.ofNat n).toNat = n :=
  UInt8.toNat_ofNat_of_lt' (lt_of_le_of_lt hn hcap)

/-- The revoked devices and the version that goes with them. -/
theorem decodeRevoked_eq_ok_iff {version : UInt8} {keys : List IdentityKey}
    {l : List RevokedDevice} :
    (version = identityDocumentV1 ∨ version = identityDocumentV2) ∧
        decodeRevoked version keys buf = .ok (l, rest) ↔
      version = (if l = [] then identityDocumentV1 else identityDocumentV2) ∧
        buf = encodeRevoked l ++ rest ∧ l.length ≤ maxRevokedDeviceIds ∧
        RevokedDevice.Ascending keys none l := by
  rw [decodeRevoked, encodeRevoked]
  by_cases hversion : version = identityDocumentV2
  · rw [if_pos hversion]
    simp only [bind_eq_ok_iff, exact_readU8.iff, refuse_eq_ok_iff,
      (RevokedDevice.exact_decodeAscending _ _ _).iff, and_true, not_lt]
    constructor
    · rintro ⟨-, _, count, rfl, _, _, ⟨hne, rfl⟩, _, _, ⟨hle, rfl⟩, rfl, hlen, hl⟩
      have hl0 : l ≠ [] := fun hnil =>
        hne (UInt8.toNat.inj (hlen.symm.trans (congrArg length hnil)))
      rw [if_neg hl0, if_neg hl0, hlen, UInt8.ofNat_toNat]
      exact ⟨hversion, rfl, hle, hl⟩
    · rintro ⟨hv, rfl, hle, hl⟩
      have hl0 : l ≠ [] := fun hnil => by
        rw [if_pos hnil, hversion] at hv
        cases hv
      have hnat := toNat_ofNat_count hle (by decide)
      rw [if_neg hl0]
      refine ⟨Or.inr hversion, _, _, rfl, _, (), ⟨fun hzero => hl0 ?_, rfl⟩, _, (),
        ⟨hnat.trans_le hle, rfl⟩, rfl, hnat.symm, hl⟩
      rw [hzero] at hnat
      exact length_eq_zero_iff.mp hnat.symm
  · rw [if_neg hversion, or_iff_left hversion, pure_eq_ok_iff]
    constructor
    · rintro ⟨hv, rfl, rfl⟩
      exact ⟨hv, rfl, Nat.zero_le _, trivial⟩
    · rintro ⟨hv, rfl, -, -⟩
      split at hv
      next hnil => exact ⟨hv, hnil.symm, by rw [if_pos hnil]; rfl⟩
      · exact absurd hv hversion

theorem exact_decodeFields : Exact decodeFields encode InLimits := by
  intro buf d rest
  simp only [decodeFields, bind_eq_ok_iff, readTag_eq_ok_iff, exact_readU8.iff, refuse_eq_ok_iff,
    exact_readArray.iff, exact_readU16.iff, exact_readU64.iff,
    (exact_readSized (show maxPubkeyBytes < 65536 by decide) _ _ _).iff,
    (exact_readSized (show maxSigBytes < 65536 by decide) _ _ _).iff,
    (exact_times IdentityKey.exact_decode _).iff, pure_eq_ok_iff, and_true, UInt64.not_lt,
    not_lt, not_le, not_and_or, not_not]
  constructor
  · rintro ⟨_, _, rfl, _, _, rfl, _, _, ⟨hversion, rfl⟩, _, _, rfl, _, _, rfl, _, _, ⟨rfl, hpubkey⟩,
      _, _, rfl, _, _, rfl, _, _, ⟨hwindow, rfl⟩, _, _, ⟨hfresh, rfl⟩, _, _, rfl, _, _, rfl, _, _,
      ⟨hcount, rfl⟩, _, _, ⟨rfl, hlen, hkeys⟩, _, _, ⟨hidx, rfl⟩, _, _, hrevoked, _, _,
      ⟨rfl, hsig⟩, rfl, rfl⟩
    obtain ⟨rfl, rfl, hfew, hasc⟩ := decodeRevoked_eq_ok_iff.mp ⟨hversion, hrevoked⟩
    refine ⟨?_, hpubkey, hwindow, hfresh, ⟨hlen.trans_le hcount, hkeys⟩, hidx, ⟨hfew, hasc⟩, hsig⟩
    simp only [encode, encodeBody, version, hlen, UInt8.ofNat_toNat, append_assoc]
  · rintro ⟨rfl, hd⟩
    obtain ⟨hversion, hrevoked⟩ := decodeRevoked_eq_ok_iff.mpr
      ⟨rfl, rfl, hd.revokedDevices.1, hd.revokedDevices.2⟩
    have hnat := toNat_ofNat_count hd.identityKeys.1 (by decide)
    simp only [encode, encodeBody, append_assoc]
    exact ⟨_, (), rfl, _, _, rfl, _, (), ⟨hversion, rfl⟩, _, _, rfl, _, _, rfl, _, _,
      ⟨rfl, hd.masterPubkey⟩, _, _, rfl, _, _, rfl, _, (), ⟨hd.window, rfl⟩, _, (), ⟨hd.fresh, rfl⟩,
      _, _, rfl, _, _, rfl, _, (), ⟨hnat.trans_le hd.identityKeys.1, rfl⟩, _, _,
      ⟨rfl, hnat.symm, hd.identityKeys.2⟩, _, (), ⟨hd.sigKeyIdx, rfl⟩, _, _, hrevoked, _, _,
      ⟨rfl, hd.documentSig⟩, rfl, rfl⟩

theorem decode_eq_ok_iff : decode buf = .ok d ↔
    buf = d.encode ∧ d.InLimits ∧ buf.length ≤ maxIdentityDocumentBytes := by
  have hread (rest : List UInt8) := exact_decodeFields buf d rest
  rw [decode]
  constructor
  · intro h
    split at h
    · cases h
    next hlen =>
    split at h
    · cases h
    next hfields =>
    split at h
    · cases h
    next hrest =>
      cases h
      obtain ⟨hbuf, hd⟩ := (hread _).mp hfields
      rw [not_not.mp hrest, append_nil] at hbuf
      exact ⟨hbuf, hd, not_lt.mp hlen⟩
  · rintro ⟨hbuf, hd, hlen⟩
    rw [if_neg (not_lt.mpr hlen), (hread []).mpr ⟨by rw [append_nil, hbuf], hd⟩]
    rfl

theorem length_encode : d.encode.length = d.encodedLen := by
  have hkey : (fun k => (IdentityKey.encode k).length) = IdentityKey.encodedLen := by
    funext k
    simp [IdentityKey.encode, IdentityKey.encodedLen, sized, k.deviceId.2]
    omega
  have hdevice : (fun r => (RevokedDevice.encode r).length) =
      fun r => 32 + 2 + r.masterSig.length := by
    funext r
    simp [RevokedDevice.encode, sized, r.deviceId.2]
    omega
  rw [encode, encodeBody, encodeRevoked, encodedLen]
  split
  all_goals
    simp only [length_append, length_flatMap, hkey, hdevice, sized, d.nodeId.2,
      identityDocumentMagic]
    simp
    omega

theorem canonicalSigningBytes_eq : d.canonicalSigningBytes = d.encodeBody := by
  have hlen : (sized 2 d.documentSig).length = 2 + d.documentSig.length := by
    rw [sized, length_append, length_toBe]
  rw [canonicalSigningBytes, encode, length_append, hlen, Nat.add_sub_cancel, take_left]

/-- A certificate stands for one key of one identity. -/
theorem certifyMessage_inj {k k' : IdentityKey} {nodeId nodeId' : NodeId}
    (h : k.certifyMessage nodeId = k'.certifyMessage nodeId') :
    nodeId = nodeId' ∧ { k with masterSig := k'.masterSig } = k' := by
  have hword {v v' : UInt64} (hv : toBe 8 v.toNat = toBe 8 v'.toNat) : v = v' := by
    have hread := takeU64_toBe v []
    rw [hv, takeU64_toBe] at hread
    exact (Prod.mk.inj (Option.some.inj hread)).1.symm
  obtain ⟨hnode, h⟩ := append_inj (append_cancel_left h) (nodeId.2.trans nodeId'.2.symm)
  obtain ⟨halgo, h⟩ := append_inj h rfl
  rw [sized, sized, append_assoc, append_assoc] at h
  obtain ⟨-, h⟩ := append_inj h (by rw [length_toBe, length_toBe])
  -- what follows the public key has one length
  obtain ⟨hpubkey, h⟩ := append_inj' h (by simp [k.deviceId.2, k'.deviceId.2])
  obtain ⟨hdevice, h⟩ := append_inj h (k.deviceId.2.trans k'.deviceId.2.symm)
  obtain ⟨hfrom, huntil⟩ := append_inj h (by rw [length_toBe, length_toBe])
  refine ⟨Subtype.ext hnode, ?_⟩
  rw [(cons.inj halgo).1, hpubkey, Subtype.ext hdevice, hword hfrom, hword huntil]

/-- **One encoding, and no doubt about what is signed**: what is decoded is encoded to the same
bytes, a document within the limits is decoded from its encoding, and the signed bytes of a
document or of a certificate tell all its fields but the signature. -/
theorem encoding_unambiguous :
    (∀ b d, decode b = .ok d → d.encode = b ∧ d.encodedLen = b.length) ∧
    (∀ d : IdentityDocument, d.InLimits → d.encode.length ≤ maxIdentityDocumentBytes →
      decode d.encode = .ok d) ∧
    (∀ d d' : IdentityDocument, d.InLimits → d'.InLimits →
      d.canonicalSigningBytes = d'.canonicalSigningBytes →
      { d with documentSig := d'.documentSig } = d') ∧
    ∀ nodeId nodeId' (k k' : IdentityKey),
      k.certifyMessage nodeId = k'.certifyMessage nodeId' →
      nodeId = nodeId' ∧ { k with masterSig := k'.masterSig } = k' := by
  refine ⟨fun b d h => ?_, fun d hd hlen => ?_, fun d d' hd hd' h => ?_, fun _ _ _ _ h => ?_⟩
  · obtain ⟨rfl, -, -⟩ := decode_eq_ok_iff.mp h
    exact ⟨rfl, length_encode.symm⟩
  · exact decode_eq_ok_iff.mpr ⟨rfl, hd, hlen⟩
  · rw [canonicalSigningBytes_eq, canonicalSigningBytes_eq] at h
    have hsame : encode { d with documentSig := d'.documentSig } = d'.encode :=
      congrArg (· ++ sized 2 d'.documentSig) h
    have hread := exact_decodeFields.read (a := { d with documentSig := d'.documentSig })
      { hd with documentSig := hd'.documentSig } []
    rw [hsame, exact_decodeFields.read hd'] at hread
    exact (Prod.mk.inj (Except.ok.inj hread)).1.symm
  · exact certifyMessage_inj h

end IdentityDocument

end VeilNetwork.Identity
