import VeilNetwork.Lib.Cursor
import VeilNetwork.Session.Frame

/-!
# Anycast records

The advertisement of a provider of a service, and its encoding. There are four forms on the wire:
without a signature, with an Ed25519 signature, with any other, and with a signature and the time
of publication. The providers of a service share one value, the concatenation of their records;
what is encoded from decoded records is decoded to the same records (`AnycastList.decode_encode`).
-/

namespace VeilNetwork.Anycast

open List Option Cursor Bytes Bytes

open Session (ProtoError)

open Cursor (refuse readU8 readU16 readU32 readU64 readArray readBytes remaining)

def anycastMagic : List UInt8 := [0x41, 0x43]

def anycastMagicV2 : List UInt8 := [0x41, 0x44]

def anycastMagicV3 : List UInt8 := [0x41, 0x45]

def anycastMagicV4 : List UInt8 := [0x41, 0x46]

def anycastRecordSize : ℕ := 44

def anycastRecordV2Size : ℕ := 141

def maxAnycastPubkeyLen : ℕ := 4096

def maxAnycastSigLen : ℕ := 4096

def anycastV3PrefixLen : ℕ := 47

def anycastV4PrefixLen : ℕ := anycastV3PrefixLen + 8

def maxAnycastCandidates : ℕ := 32

/-- The owner's signature. -/
structure AnycastRecordSig where
  sigAlgo : UInt8
  ownerPubkey : List UInt8
  sigKeyIdx : UInt8
  signature : List UInt8
  deriving DecidableEq

/-- A provider of a service. -/
structure AnycastRecord where
  serviceTag : FixedBytes 4
  nodeId : FixedBytes 32
  score : UInt16
  ttl : UInt32
  signature : Option AnycastRecordSig
  issuedAt : Option UInt64
  deriving DecidableEq

def isEd25519WireAlgo (sigAlgo : UInt8) : Bool := decide (sigAlgo = 0 ∨ sigAlgo = 1)

namespace AnycastRecord

/-! ### The encoding -/

variable (r : AnycastRecord)

/-- The fields that every form has. -/
def encodeCommon : List UInt8 :=
  r.serviceTag.1 ++ (r.nodeId.1 ++ (Bytes.toBe 2 r.score.toNat ++ Bytes.toBe 4 r.ttl.toNat))

section

variable (sig : AnycastRecordSig)

/-- The key and its index, with the algorithm in front. -/
def encodeKey : List UInt8 :=
  [sig.sigAlgo] ++ (Bytes.sized 2 sig.ownerPubkey ++ [sig.sigKeyIdx])

def encodeCanonicalV4 : List UInt8 :=
  anycastMagicV4 ++ (r.encodeCommon ++
    (Bytes.toBe 8 (r.issuedAt.getD 0).toNat ++ encodeKey sig))

def encodeCanonicalV3 : List UInt8 :=
  anycastMagicV3 ++ (r.encodeCommon ++ encodeKey sig)

def encodeCanonicalV2 : List UInt8 :=
  anycastMagicV2 ++ (r.encodeCommon ++ (sig.ownerPubkey ++ [sig.sigKeyIdx]))

end

/-- A record on the wire. -/
def encode : List UInt8 :=
  match r.signature with
  | some sig =>
    if r.issuedAt.isSome then r.encodeCanonicalV4 sig ++ Bytes.sized 2 sig.signature
    else if isEd25519WireAlgo sig.sigAlgo then r.encodeCanonicalV2 sig ++ sig.signature
    else r.encodeCanonicalV3 sig ++ Bytes.sized 2 sig.signature
  | none => anycastMagic ++ r.encodeCommon

/-! ### The decoders -/

/-- For reads that a check of the length has made safe. -/
def unread : ProtoError := .bufferTooShort 0 0

/-- The fields that all forms have. -/
def readCommon : Cursor ProtoError (FixedBytes 4 × FixedBytes 32 × UInt16 × UInt32) := do
  let _ ← readArray 2 unread
  let serviceTag ← readArray 4 unread
  let nodeId ← readArray 32 unread
  let score ← readU16 unread
  let ttl ← readU32 unread
  pure (serviceTag, nodeId, score, ttl)

def decodeV1 : Cursor ProtoError AnycastRecord := do
  let got ← remaining
  refuse (got < anycastRecordSize) (.bufferTooShort anycastRecordSize got)
  let (serviceTag, nodeId, score, ttl) ← readCommon
  pure ⟨serviceTag, nodeId, score, ttl, none, none⟩

def decodeV2 : Cursor ProtoError AnycastRecord := do
  let got ← remaining
  refuse (got < anycastRecordV2Size) (.bufferTooShort anycastRecordV2Size got)
  let (serviceTag, nodeId, score, ttl) ← readCommon
  let ownerPubkey ← readArray 32 unread
  let sigKeyIdx ← readU8 unread
  let signature ← readArray 64 unread
  pure ⟨serviceTag, nodeId, score, ttl, some ⟨1, ownerPubkey.1, sigKeyIdx, signature.1⟩, none⟩

/-- The time of publication, in the form that has it. -/
def readIssuedAt (timed : Bool) : Cursor ProtoError (Option UInt64) :=
  if timed then do
    let issuedAt ← readU64 unread
    pure (some issuedAt)
  else pure none

/-- The forms with lengths. -/
def decodeSized (form : String) (prefixLen : ℕ) (timed : Bool) :
    Cursor ProtoError AnycastRecord := do
  let got ← remaining
  refuse (got < prefixLen) (.bufferTooShort prefixLen got)
  let (serviceTag, nodeId, score, ttl) ← readCommon
  let issuedAt ← readIssuedAt timed
  let sigAlgo ← readU8 unread
  refuse (timed = false ∧ isEd25519WireAlgo sigAlgo = true)
    (.malformed "anycast v3 record must not carry an Ed25519 algo (use v2)")
  let pubkeyLen ← readU16 unread
  refuse (maxAnycastPubkeyLen < pubkeyLen.toNat)
    (.malformed ("anycast " ++ form ++ " owner_pubkey too long: " ++ toString pubkeyLen.toNat ++
      " > " ++ toString maxAnycastPubkeyLen))
  let pubkeyEnd := prefixLen + pubkeyLen.toNat
  refuse (got < pubkeyEnd + 3) (.bufferTooShort (pubkeyEnd + 3) got)
  let ownerPubkey ← readBytes pubkeyLen.toNat unread
  let sigKeyIdx ← readU8 unread
  let sigLen ← readU16 unread
  refuse (maxAnycastSigLen < sigLen.toNat)
    (.malformed ("anycast " ++ form ++ " signature too long: " ++ toString sigLen.toNat ++
      " > " ++ toString maxAnycastSigLen))
  let sigEnd := pubkeyEnd + 3 + sigLen.toNat
  refuse (got ≠ sigEnd)
    (.malformed ("anycast " ++ form ++ " wrong length: have " ++ toString got ++
      ", expected exactly " ++ toString sigEnd))
  let signature ← readBytes sigLen.toNat unread
  pure ⟨serviceTag, nodeId, score, ttl, some ⟨sigAlgo, ownerPubkey, sigKeyIdx, signature⟩,
    issuedAt⟩

def decodeV3 : Cursor ProtoError AnycastRecord := decodeSized "v3" anycastV3PrefixLen false

def decodeV4 : Cursor ProtoError AnycastRecord := decodeSized "v4" anycastV4PrefixLen true

/-- The first two bytes name the form. -/
def decode (buf : List UInt8) : Except ProtoError AnycastRecord :=
  if buf.length < 2 then .error (.bufferTooShort 2 buf.length)
  else
    let magic := buf.take 2
    if magic = anycastMagic then Prod.fst <$> decodeV1 buf
    else if magic = anycastMagicV2 then Prod.fst <$> decodeV2 buf
    else if magic = anycastMagicV3 then Prod.fst <$> decodeV3 buf
    else if magic = anycastMagicV4 then Prod.fst <$> decodeV4 buf
    else .error (.invalidMagic (magic ++ [0, 0]))

/-- The length of a form with lengths, read off its fields. -/
def sizedWireLen (prefixLen : ℕ) (buf : List UInt8) : Option ℕ := do
  let (pubkeyLen, _) ← Bytes.takeU16 (buf.drop (prefixLen - 2))
  if maxAnycastPubkeyLen < pubkeyLen.toNat then none
  let sigLenOff := prefixLen + pubkeyLen.toNat + 1
  let (sigLen, _) ← Bytes.takeU16 (buf.drop sigLenOff)
  if maxAnycastSigLen < sigLen.toNat then none
  some (sigLenOff + 2 + sigLen.toNat)

/-- The length of the first record. -/
def wireLen (buf : List UInt8) : Option ℕ :=
  if buf.length < 2 then none
  else
    let magic := buf.take 2
    if magic = anycastMagic then some anycastRecordSize
    else if magic = anycastMagicV2 then some anycastRecordV2Size
    else if magic = anycastMagicV3 then sizedWireLen anycastV3PrefixLen buf
    else if magic = anycastMagicV4 then sizedWireLen anycastV4PrefixLen buf
    else none

/-! ### Decoding what was encoded -/

variable {r : AnycastRecord} {sig : AnycastRecordSig} {buf rest : List UInt8} {timed : Bool}

theorem readCommon_eq_ok_iff {v : FixedBytes 4 × FixedBytes 32 × UInt16 × UInt32} :
    readCommon buf = .ok (v, rest) ↔ ∃ magic : FixedBytes 2, buf = magic.1 ++ (v.1.1 ++ (v.2.1.1 ++
      (Bytes.toBe 2 v.2.2.1.toNat ++ (Bytes.toBe 4 v.2.2.2.toNat ++ rest)))) := by
  obtain ⟨tag, node, score, ttl⟩ := v
  simp only [readCommon, bind_eq_ok_iff, exact_readArray.iff,
    exact_readU16.iff, exact_readU32.iff, pure_eq_ok_iff, Prod.mk.injEq,
    and_true]
  constructor
  · rintro ⟨_, magic, rfl, _, _, rfl, _, _, rfl, _, _, rfl, _, _, rfl, ⟨rfl, rfl, rfl, rfl⟩, rfl⟩
    exact ⟨magic, rfl⟩
  · rintro ⟨magic, rfl⟩
    exact ⟨_, magic, rfl, _, _, rfl, _, _, rfl, _, _, rfl, _, _, rfl, ⟨rfl, rfl, rfl, rfl⟩, rfl⟩

/-- The time of publication on the wire. -/
def encodeIssuedAt (issuedAt : Option UInt64) : List UInt8 :=
  issuedAt.elim [] fun t => Bytes.toBe 8 t.toNat

theorem readIssuedAt_eq_ok_iff {v : Option UInt64} :
    readIssuedAt timed buf = .ok (v, rest) ↔
      v.isSome = timed ∧ buf = encodeIssuedAt v ++ rest := by
  cases timed with
  | false =>
    rw [readIssuedAt, if_neg Bool.false_ne_true, pure_eq_ok_iff]
    cases v with
    | none => simp [encodeIssuedAt]
    | some t => simp
  | true =>
    simp only [readIssuedAt, if_true, bind_eq_ok_iff, exact_readU64.iff,
      pure_eq_ok_iff]
    cases v with
    | none => simp
    | some t => simp [encodeIssuedAt]

/-- A record that a decoder may return. -/
def Wf (r : AnycastRecord) : Prop :=
  match r.signature with
  | none => r.issuedAt = none
  | some sig =>
    if r.issuedAt = none ∧ isEd25519WireAlgo sig.sigAlgo = true then
      sig.sigAlgo = 1 ∧ sig.ownerPubkey.length = 32 ∧ sig.signature.length = 64
    else sig.ownerPubkey.length ≤ maxAnycastPubkeyLen ∧ sig.signature.length ≤ maxAnycastSigLen

theorem wf_of_decodeSized {form : String} {prefixLen : ℕ}
    (h : decodeSized form prefixLen timed buf = .ok (r, rest)) : r.Wf := by
  simp only [decodeSized, bind_eq_ok_iff, refuse_eq_ok_iff, readIssuedAt_eq_ok_iff,
    exact_readBytes.iff] at h
  obtain ⟨_, _, -, _, _, -, _, _, -, _, issuedAt, ⟨htimed, -⟩, _, algo, -, _, _, ⟨halgo, -⟩, _, _,
    -, _, _, ⟨hplen, -⟩, _, _, -, _, pubkey, ⟨-, hpubkey⟩, _, _, -, _, _, -, _, _, ⟨hslen, -⟩, _, _,
    -, _, signature, ⟨-, hsig⟩, rfl, -⟩ := h
  have hform : ¬(issuedAt = none ∧ isEd25519WireAlgo algo = true) := by
    rintro ⟨rfl, hed⟩
    exact halgo ⟨htimed.symm, hed⟩
  rw [Wf]
  dsimp only
  rw [if_neg hform, hpubkey, hsig]
  exact ⟨not_lt.mp hplen, not_lt.mp hslen⟩

theorem wf_of_decode (h : decode buf = .ok r) : r.Wf := by
  have hmap : ∀ {p : Cursor ProtoError AnycastRecord}, Prod.fst <$> p buf = .ok r →
      ∃ rest, p buf = .ok (r, rest) := by
    intro p hp
    rcases hout : p buf with _ | ⟨r', rest⟩
    · rw [hout] at hp
      cases hp
    · rw [hout] at hp
      obtain rfl : r' = r := Except.ok.inj hp
      exact ⟨rest, rfl⟩
  rw [decode] at h
  split at h
  · cases h
  dsimp only at h
  split at h
  · obtain ⟨rest, h⟩ := hmap h
    simp only [decodeV1, bind_eq_ok_iff] at h
    obtain ⟨_, _, -, _, _, -, _, _, -, rfl, -⟩ := h
    rfl
  split at h
  · obtain ⟨rest, h⟩ := hmap h
    simp only [decodeV2, bind_eq_ok_iff] at h
    obtain ⟨_, _, -, _, _, -, _, _, -, _, pubkey, -, _, _, -, _, signature, -, rfl, -⟩ := h
    exact ⟨rfl, pubkey.2, signature.2⟩
  split at h
  · obtain ⟨rest, h⟩ := hmap h
    exact wf_of_decodeSized h
  split at h
  · obtain ⟨rest, h⟩ := hmap h
    exact wf_of_decodeSized h
  · cases h

theorem length_encodeCommon (r : AnycastRecord) : r.encodeCommon.length = 42 := by
  simp [encodeCommon, r.serviceTag.2, r.nodeId.2]

theorem length_encodeIssuedAt (issuedAt : Option UInt64) :
    (encodeIssuedAt issuedAt).length = if issuedAt.isSome then 8 else 0 := by
  cases issuedAt with
  | none => rfl
  | some => exact length_toBe 8 ..

theorem encode_length_pos (r : AnycastRecord) : 0 < r.encode.length := by
  have hcommon := r.length_encodeCommon
  rw [encode]
  split
  · split
    · simp only [encodeCanonicalV4, length_append]
      omega
    split
    · simp only [encodeCanonicalV2, length_append]
      omega
    · simp only [encodeCanonicalV3, length_append]
      omega
  · rw [length_append]
    omega

/-- A length that fits is read back. -/
theorem toNat_ofNat_length {v : List UInt8} (h : v.length ≤ 4096) :
    (UInt16.ofNat v.length).toNat = v.length :=
  UInt16.toNat_ofNat_of_lt' (h.trans_lt (by decide))

/-- A record in a form with lengths. -/
def sizedForm (magic : FixedBytes 2) (r : AnycastRecord) (sig : AnycastRecordSig) : List UInt8 :=
  magic.1 ++ (r.encodeCommon ++ (encodeIssuedAt r.issuedAt ++ ([sig.sigAlgo] ++
    (Bytes.sized 2 sig.ownerPubkey ++ ([sig.sigKeyIdx] ++ Bytes.sized 2 sig.signature)))))

section Sized

variable {magic : FixedBytes 2} {prefixLen : ℕ}
  (hlead : prefixLen = 47 + if r.issuedAt.isSome then 8 else 0)
  (hpubkey : sig.ownerPubkey.length ≤ maxAnycastPubkeyLen)
  (hsig : sig.signature.length ≤ maxAnycastSigLen)

include hlead

variable (sig magic) in
theorem length_sizedForm : (sizedForm magic r sig).length =
    prefixLen + sig.ownerPubkey.length + 3 + sig.signature.length := by
  simp only [sizedForm, sized, length_append, length_encodeCommon,
    length_encodeIssuedAt, magic.2, length_toBe, length_singleton]
  omega

include hpubkey hsig

variable (magic) in
theorem decodeSized_sizedForm (form : String) (hr : r.signature = some sig)
    (hform : ¬(r.issuedAt.isSome = false ∧ isEd25519WireAlgo sig.sigAlgo = true)) :
    decodeSized form prefixLen r.issuedAt.isSome (sizedForm magic r sig) = .ok (r, []) := by
  have hlen := length_sizedForm sig magic hlead
  have hp := toNat_ofNat_length hpubkey
  have hs := toNat_ofNat_length hsig
  simp only [decodeSized, bind_eq_ok_iff, remaining_eq_ok_iff,
    refuse_eq_ok_iff, readCommon_eq_ok_iff, readIssuedAt_eq_ok_iff, exact_readU8.iff,
    exact_readU16.iff, exact_readBytes.iff, pure_eq_ok_iff, and_true]
  refine ⟨_, _, ⟨rfl, rfl⟩, _, (), ⟨by omega, rfl⟩, _,
    (r.serviceTag, r.nodeId, r.score, r.ttl), ⟨magic, ?_⟩, _, r.issuedAt, ⟨rfl, rfl⟩,
    sized 2 sig.ownerPubkey ++ ([sig.sigKeyIdx] ++ sized 2 sig.signature), sig.sigAlgo, rfl,
    _, (), ⟨hform, rfl⟩, sig.ownerPubkey ++ ([sig.sigKeyIdx] ++ sized 2 sig.signature),
    UInt16.ofNat sig.ownerPubkey.length, ?_, _, (), ⟨?_, rfl⟩, _, (), ⟨?_, rfl⟩, _, sig.ownerPubkey,
    ⟨rfl, hp.symm⟩, _, sig.sigKeyIdx, rfl, sig.signature, UInt16.ofNat sig.signature.length, ?_, _,
    (), ⟨?_, rfl⟩, _, (), ⟨?_, rfl⟩, [], sig.signature, ⟨(append_nil _).symm, hs.symm⟩, ?_, rfl⟩
  · simp only [sizedForm, encodeCommon, append_assoc]
  · rw [hp, sized, append_assoc]
  · omega
  · omega
  · rw [hs, sized]
  · omega
  · omega
  · rw [← hr]

theorem sizedWireLen_sizedForm (rest : List UInt8) :
    sizedWireLen prefixLen (sizedForm magic r sig ++ rest) =
      some (sizedForm magic r sig).length := by
  have hp := toNat_ofNat_length hpubkey
  have hs := toNat_ofNat_length hsig
  -- the two lengths stand where they are looked for
  have hdrop : ∀ {n : ℕ} {a v b : List UInt8}, v.length ≤ 4096 → a.length = n →
      takeU16 ((a ++ (sized 2 v ++ b)).drop n) =
        some (UInt16.ofNat v.length, v ++ b) := by
    intro n a v b hv ha
    have hread := takeU16_toBe (UInt16.ofNat v.length) (v ++ b)
    rw [toNat_ofNat_length hv] at hread
    rw [drop_left' ha, sized, append_assoc, hread]
  have hfirst := hdrop (n := prefixLen - 2)
    (a := magic.1 ++ (r.encodeCommon ++ (encodeIssuedAt r.issuedAt ++ [sig.sigAlgo])))
    (b := [sig.sigKeyIdx] ++ (sized 2 sig.signature ++ rest)) hpubkey (by
      simp only [length_append, length_encodeCommon, length_encodeIssuedAt, magic.2,
        length_singleton]
      omega)
  have hsecond := hdrop (n := prefixLen + sig.ownerPubkey.length + 1)
    (a := magic.1 ++ (r.encodeCommon ++ (encodeIssuedAt r.issuedAt ++ ([sig.sigAlgo] ++
      (sized 2 sig.ownerPubkey ++ [sig.sigKeyIdx]))))) (b := rest) hsig (by
      simp only [sized, length_append, length_encodeCommon, length_encodeIssuedAt,
        magic.2, length_toBe, length_singleton]
      omega)
  simp only [append_assoc] at hfirst hsecond
  rw [length_sizedForm sig magic hlead]
  simp only [sizedWireLen, sizedForm, append_assoc, hfirst, bind_eq_bind,
    bind_some, hp, if_neg (not_lt.mpr hpubkey), hsecond, hs,
    if_neg (not_lt.mpr hsig)]

end Sized

/-- A record whose first two bytes name a form is decoded and measured by the functions of it. -/
theorem decode_encode_of_magic {magic tail : List UInt8} (p : Cursor ProtoError AnycastRecord)
    (size : List UInt8 → Option ℕ) (henc : r.encode = magic ++ tail) (hmagic : magic.length = 2)
    (hform : ∀ buf, ¬buf.length < 2 → buf.take 2 = magic →
      decode buf = Prod.fst <$> p buf ∧ wireLen buf = size buf)
    (hp : p r.encode = .ok (r, []))
    (hsize : ∀ rest, size (r.encode ++ rest) = some r.encode.length) :
    decode r.encode = .ok r ∧ ∀ rest, wireLen (r.encode ++ rest) = some r.encode.length := by
  have htwo : ∀ rest, ¬(r.encode ++ rest).length < 2 ∧ (r.encode ++ rest).take 2 = magic := by
    intro rest
    rw [henc, append_assoc]
    refine ⟨?_, take_left' hmagic⟩
    rw [length_append]
    omega
  constructor
  · obtain ⟨hshort, htake⟩ := htwo []
    rw [append_nil] at hshort htake
    rw [(hform _ hshort htake).1, hp]
    rfl
  · intro rest
    obtain ⟨hshort, htake⟩ := htwo rest
    rw [(hform _ hshort htake).2, hsize]

/-- **What was encoded is decoded and measured right.** -/
theorem decode_encode (h : r.Wf) :
    decode r.encode = .ok r ∧ ∀ rest, wireLen (r.encode ++ rest) = some r.encode.length := by
  have hmagics : anycastMagicV2 ≠ anycastMagic ∧ anycastMagicV3 ≠ anycastMagic ∧
      anycastMagicV3 ≠ anycastMagicV2 ∧ anycastMagicV4 ≠ anycastMagic ∧
      anycastMagicV4 ≠ anycastMagicV2 ∧ anycastMagicV4 ≠ anycastMagicV3 := by decide
  rcases hr : r.signature with _ | sig
  · rw [Wf, hr] at h
    have henc : r.encode = anycastMagic ++ r.encodeCommon := by rw [encode, hr]
    have hlength : r.encode.length = 44 := by
      rw [henc, length_append, length_encodeCommon]
      rfl
    refine decode_encode_of_magic decodeV1 (fun _ => some anycastRecordSize) henc rfl
      (fun buf hshort hmagic => by simp [decode, wireLen, hshort, hmagic]) ?_ fun _ => hlength ▸ rfl
    simp only [decodeV1, bind_eq_ok_iff, remaining_eq_ok_iff,
      refuse_eq_ok_iff, readCommon_eq_ok_iff, pure_eq_ok_iff]
    refine ⟨_, _, ⟨rfl, rfl⟩, _, (), ⟨?_, rfl⟩, _, (r.serviceTag, r.nodeId, r.score, r.ttl),
      ⟨⟨anycastMagic, rfl⟩, ?_⟩, ?_, rfl⟩
    · exact not_lt.mpr hlength.ge
    · simp only [henc, encodeCommon, append_nil]
    · rw [← hr, ← h]
  rw [Wf, hr] at h
  dsimp only at h
  split at h
  next hform =>
    obtain ⟨halgo, hpubkey, hsig⟩ := h
    have henc : r.encode = anycastMagicV2 ++
        (r.encodeCommon ++ (sig.ownerPubkey ++ ([sig.sigKeyIdx] ++ sig.signature))) := by
      simp only [encode, hr, hform.1, isSome_none, Bool.false_eq_true, if_false, hform.2,
        if_true, encodeCanonicalV2, append_assoc]
    have hlength : r.encode.length = 141 := by
      simp only [henc, length_append, length_encodeCommon, hpubkey, hsig]
      rfl
    refine decode_encode_of_magic decodeV2 (fun _ => some anycastRecordV2Size) henc
      rfl (fun buf hshort hmagic => by simp [decode, wireLen, hshort, hmagic, hmagics]) ?_
      fun _ => hlength ▸ rfl
    simp only [decodeV2, bind_eq_ok_iff, remaining_eq_ok_iff,
      refuse_eq_ok_iff, readCommon_eq_ok_iff, exact_readArray.iff,
      exact_readU8.iff, pure_eq_ok_iff, and_true]
    refine ⟨_, _, ⟨rfl, rfl⟩, _, (), ⟨?_, rfl⟩, _, (r.serviceTag, r.nodeId, r.score, r.ttl),
      ⟨⟨anycastMagicV2, rfl⟩, ?_⟩, _, ⟨sig.ownerPubkey, hpubkey⟩, rfl, _, sig.sigKeyIdx, rfl, [],
      ⟨sig.signature, hsig⟩, rfl, ?_, rfl⟩
    · exact not_lt.mpr hlength.ge
    · simp only [henc, encodeCommon, append_assoc, append_nil]
    · rw [← halgo, ← hform.1, ← hr]
  next hform =>
    obtain ⟨hpubkey, hsig⟩ := h
    have hform' : ¬(r.issuedAt.isSome = false ∧ isEd25519WireAlgo sig.sigAlgo = true) := by
      rwa [isSome_eq_false_iff, isNone_iff_eq_none]
    rcases hissued : r.issuedAt with _ | t
    · have henc : r.encode = sizedForm ⟨anycastMagicV3, rfl⟩ r sig := by
        have halgo : ¬isEd25519WireAlgo sig.sigAlgo = true := fun hed => hform ⟨hissued, hed⟩
        simp only [encode, hr, hissued, isSome_none, Bool.false_eq_true, if_false, halgo,
          sizedForm, encodeCanonicalV3, encodeKey, encodeIssuedAt, elim_none,
          append_assoc, nil_append]
      have hlead : anycastV3PrefixLen = 47 + if r.issuedAt.isSome then 8 else 0 := by
        rw [hissued]
        rfl
      have hdecode := decodeSized_sizedForm ⟨anycastMagicV3, rfl⟩ hlead hpubkey hsig
        "v3" hr hform'
      rw [← henc, hissued] at hdecode
      exact decode_encode_of_magic decodeV3 _ henc rfl
        (fun buf hshort hmagic => by simp [decode, wireLen, hshort, hmagic, hmagics]) hdecode
        fun rest => henc ▸ sizedWireLen_sizedForm hlead hpubkey hsig rest
    · have henc : r.encode = sizedForm ⟨anycastMagicV4, rfl⟩ r sig := by
        simp only [encode, hr, hissued, isSome_some, if_true, sizedForm, encodeCanonicalV4,
          encodeKey, encodeIssuedAt, elim_some, getD_some, append_assoc]
      have hlead : anycastV4PrefixLen = 47 + if r.issuedAt.isSome then 8 else 0 := by
        rw [hissued]
        rfl
      have hdecode := decodeSized_sizedForm ⟨anycastMagicV4, rfl⟩ hlead hpubkey hsig
        "v4" hr hform'
      rw [← henc, hissued] at hdecode
      exact decode_encode_of_magic decodeV4 _ henc rfl
        (fun buf hshort hmagic => by simp [decode, wireLen, hshort, hmagic, hmagics]) hdecode
        fun rest => henc ▸ sizedWireLen_sizedForm hlead hpubkey hsig rest

end AnycastRecord

/-! ### Lists -/

namespace AnycastList

/-- The records of a value, with at most so many of them looked at. -/
def decodeFrom : ℕ → List UInt8 → List AnycastRecord
  | 0, _ => []
  | fuel + 1, blob =>
    match AnycastRecord.wireLen blob with
    | none => []
    | some recSize =>
      if blob.length < recSize then []
      else
        (AnycastRecord.decode (blob.take recSize)).toOption.toList ++
          decodeFrom fuel (blob.drop recSize)

/-- Every record takes at least a byte, so that the length of the value is enough. -/
def decode (blob : List UInt8) : List AnycastRecord := decodeFrom blob.length blob

def encode (l : List AnycastRecord) : List UInt8 := l.flatMap AnycastRecord.encode

theorem wf_of_mem_decodeFrom {r : AnycastRecord} {fuel : ℕ} {blob : List UInt8}
    (h : r ∈ decodeFrom fuel blob) : r.Wf := by
  induction fuel generalizing blob with
  | zero => cases h
  | succ fuel ih =>
    rw [decodeFrom] at h
    split at h
    · cases h
    next recSize _ =>
    split at h
    · cases h
    rcases mem_append.mp h with h | h
    · generalize hout : AnycastRecord.decode (blob.take recSize) = out at h
      cases out with
      | error e => cases h
      | ok r' =>
        obtain rfl : r = r' := mem_singleton.mp h
        exact AnycastRecord.wf_of_decode hout
    · exact ih h

/-- **A list that is stored is read back.** -/
theorem decode_encode {l : List AnycastRecord} (h : ∀ r ∈ l, r.Wf) : decode (encode l) = l := by
  have hfuel : ∀ fuel, (encode l).length ≤ fuel → decodeFrom fuel (encode l) = l := by
    intro fuel hle
    induction l generalizing fuel with
    | nil =>
      cases fuel with
      | zero | succ => rfl
    | cons r l ih =>
      obtain ⟨hr, hl⟩ := forall_mem_cons.mp h
      obtain ⟨hdecode, hsize⟩ := AnycastRecord.decode_encode hr
      have hpos := AnycastRecord.encode_length_pos r
      have henc : encode (r :: l) = r.encode ++ encode l := flatMap_cons
      rw [henc, length_append] at hle
      obtain ⟨fuel, rfl⟩ : ∃ n, fuel = n + 1 := ⟨fuel - 1, by omega⟩
      rw [henc, decodeFrom, hsize]
      dsimp only
      rw [if_neg (by rw [length_append]; omega), take_left' rfl, drop_left' rfl,
        hdecode, ih hl fuel (by omega)]
      rfl
  exact hfuel _ le_rfl

/-- **A list of whatever bytes is stable once read**: every record in it can be written down, and
what is written, with the lists of others before or after it, reads as the records that were
read. -/
theorem decode_encode_decode (blob blob' : List UInt8) :
    (∀ r ∈ decode blob, AnycastRecord.decode r.encode = .ok r) ∧
      decode (encode (decode blob) ++ encode (decode blob')) = decode blob ++ decode blob' := by
  have hwf (blob : List UInt8) : ∀ r ∈ decode blob, r.Wf := fun r hr => wf_of_mem_decodeFrom hr
  refine ⟨fun r hr => (AnycastRecord.decode_encode (hwf blob r hr)).1, ?_⟩
  rw [encode, encode, ← flatMap_append]
  exact decode_encode (forall_mem_append.mpr ⟨hwf blob, hwf blob'⟩)

end AnycastList

end VeilNetwork.Anycast
