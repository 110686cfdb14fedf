import VeilNetwork.Lib.Fallible
import VeilNetwork.Lib.Text

/-!
# Update manifests

The description of a release that its issuer signs. On the wire every text has its length in
front, and the decoder accepts exactly what the encoder writes (`decodeManifest_eq_ok_iff`). The
signed message has no lengths: it puts a zero byte after each text. A zero byte is valid UTF-8 and
no check refuses it, so one signature can stand for two manifests (`one_message_two_manifests`).
Two that share one are the same exactly if their texts have the zeros in common
(`manifest_of_message`).
-/

namespace VeilNetwork.Update

open List Bytes Cursor

open Cursor (refuse readU8 readU16 readU64 readArray readBytes remaining times text)

def magic : List UInt8 := [0x55, 0x4D]

def version : UInt8 := 1

/-- The bytes of `veil-update-manifest:v1` and a zero. -/
def sigDomain : List UInt8 := Text.bytes "veil-update-manifest:v1\x00"

def maxManifestBytes : ℕ := 8 * 1024

def maxVersionStrLen : ℕ := 64

def maxPlatformTargetLen : ℕ := 64

def maxBinaryUrlLen : ℕ := 512

def maxBinaryUrls : ℕ := 8

def binarySha256Len : ℕ := 32

inductive SignatureAlgorithm
  | ed25519
  | falcon512
  | ed25519Falcon512Hybrid
  | ed25519Falcon1024Hybrid
  deriving DecidableEq

namespace SignatureAlgorithm

def maxIssuerPkLen : SignatureAlgorithm → ℕ
  | ed25519 => 128
  | falcon512 => 1280
  | ed25519Falcon512Hybrid => 1408
  | ed25519Falcon1024Hybrid => 2560

def toByte : SignatureAlgorithm → UInt8
  | ed25519 => 0
  | falcon512 => 1
  | ed25519Falcon512Hybrid => 2
  | ed25519Falcon1024Hybrid => 3

def ofByte (b : UInt8) : Option SignatureAlgorithm :=
  if b = 0 then some ed25519
  else if b = 1 then some falcon512
  else if b = 2 then some ed25519Falcon512Hybrid
  else if b = 3 then some ed25519Falcon1024Hybrid
  else none

theorem ofByte_eq_some_iff {b : UInt8} {algo : SignatureAlgorithm} :
    ofByte b = some algo ↔ b = algo.toByte := by
  constructor
  · intro h
    rw [ofByte] at h
    split_ifs at h with hb hb hb hb <;>
    · rw [hb, ← Option.some.inj h]
      rfl
  · rintro rfl
    cases algo <;> rfl

end SignatureAlgorithm

inductive ManifestError
  | sign (e : String)
  | malformed (text : String)
  | badSigAlgo (b : UInt8)
  | tooLarge (got : ℕ)
  | fieldTooLong (field : String) (got max : ℕ)
  | badUrlCount (got : UInt8)

/-- The fields that the signature covers. -/
structure Release where
  releaseUnix : UInt64
  version : String
  minCompatibleVersion : String
  platformTarget : String
  binarySha256 : FixedBytes 32
  binaryUrls : List String
  deriving DecidableEq

/-- A signed release. -/
structure UpdateManifest extends Release where
  issuerPk : String
  issuerAlgo : SignatureAlgorithm
  signature : List UInt8
  deriving DecidableEq

/-! ### The signed message and the encoding -/

/-- What is signed. -/
def canonicalMessage (r : Release) : List UInt8 :=
  sigDomain ++ (Bytes.toBe 8 r.releaseUnix.toNat ++ (Text.bytes r.version ++ 0x00 ::
    (Text.bytes r.minCompatibleVersion ++ 0x00 :: (Text.bytes r.platformTarget ++ 0x00 ::
      (r.binarySha256.1 ++ Text.terminated r.binaryUrls)))))

def writeStringU16 (s : String) : List UInt8 := Bytes.sized 2 (Text.bytes s)

def writeStringU8 (s : String) : List UInt8 := Bytes.sized 1 (Text.bytes s)

/-- The bytes of a manifest. -/
def UpdateManifest.body (m : UpdateManifest) : List UInt8 :=
  magic ++ ([Update.version] ++ ([m.issuerAlgo.toByte] ++ (Bytes.toBe 8 m.releaseUnix.toNat ++
    (writeStringU16 m.version ++ (writeStringU8 m.minCompatibleVersion ++
      (writeStringU8 m.platformTarget ++ (m.binarySha256.1 ++
        (Bytes.toBe 1 m.binaryUrls.length ++ (m.binaryUrls.flatMap writeStringU16 ++
          (writeStringU16 m.issuerPk ++ Bytes.sized 2 m.signature))))))))))

def encodeBody (m : UpdateManifest) : Except ManifestError (List UInt8) :=
  if 65535 < (Text.bytes m.issuerPk).length then .error (.malformed "issuer_pk too long")
  else if 65535 < m.signature.length then .error (.malformed "signature too long")
  else .ok m.body

/-- The check of a length against its cap. -/
def checkLen (field : String) (max : ℕ) (s : String) : Except ManifestError Unit :=
  if max < (Text.bytes s).length then .error (.fieldTooLong field (Text.bytes s).length max)
  else .ok ()

/-- Check, sign and encode. -/
def signManifest (signMessage : SignatureAlgorithm → String → String → List UInt8 →
      Except String (List UInt8)) (r : Release) (issuerPk issuerSk : String)
    (issuerAlgo : SignatureAlgorithm) : Except ManifestError (List UInt8) := do
  checkLen "version" maxVersionStrLen r.version
  checkLen "min_compatible_version" maxVersionStrLen r.minCompatibleVersion
  checkLen "platform_target" maxPlatformTargetLen r.platformTarget
  if r.binaryUrls = [] ∨ maxBinaryUrls < r.binaryUrls.length then
    .error (.badUrlCount (UInt8.ofNat r.binaryUrls.length))
  forM r.binaryUrls (checkLen "binary_url" maxBinaryUrlLen)
  checkLen "issuer_pk" issuerAlgo.maxIssuerPkLen issuerPk
  let signature ← (signMessage issuerAlgo issuerPk issuerSk (canonicalMessage r)).mapError .sign
  let bytes ← encodeBody ⟨r, issuerPk, issuerAlgo, signature⟩
  if maxManifestBytes < bytes.length then .error (.tooLarge bytes.length)
  .ok bytes

/-! ### The decoder -/

section Decoder

/- `total` is the length of the blob, `utf8Error` the text of the error for bytes that are not
UTF-8. -/
variable (total : ℕ) (utf8Error : List UInt8 → String)

/-- A read of `n` bytes, with the error for a blob that ends before. -/
def read {α : Type} (n : ℕ) (p : ManifestError → Cursor ManifestError α) :
    Cursor ManifestError α := do
  let left ← remaining
  p (.malformed ("truncated " ++ toString n ++ "B at " ++ toString (total - left)))

/-- The number in the next `w` bytes. -/
def readLen (w : ℕ) : Cursor ManifestError ℕ := do
  let bytes ← read total w (readBytes w)
  pure (Bytes.ofBe bytes)

/-- A string with its length in `w` bytes in front. -/
def readSized (w : ℕ) (field : String) (max : ℕ) : Cursor ManifestError (List UInt8) :=
  Cursor.readSized (readLen total w) (max < ·) (.fieldTooLong field · max)
    fun len => read total len (readBytes len)

variable (field : String)

def readStringU16Raw (max : ℕ) : Cursor ManifestError (List UInt8) :=
  readSized total 2 field max

def fromUtf8 (bytes : List UInt8) : Cursor ManifestError String :=
  text bytes (.malformed (field ++ " utf8: " ++ utf8Error bytes))

def readStringU16 (max : ℕ) : Cursor ManifestError String := do
  let bytes ← readSized total 2 field max
  fromUtf8 utf8Error field bytes

def readStringU8 (max : ℕ) : Cursor ManifestError String := do
  let bytes ← readSized total 1 field max
  fromUtf8 utf8Error field bytes

def readAlgo : Cursor ManifestError SignatureAlgorithm := do
  let b ← read total 1 readU8
  match SignatureAlgorithm.ofByte b with
  | some algo => pure algo
  | none => fun _ => .error (.badSigAlgo b)

/-- The fields, in their order. -/
def readManifest : Cursor ManifestError UpdateManifest := do
  let got ← read total 2 (readBytes 2)
  refuse (got ≠ magic) (.malformed ("bad magic: " ++ toString got))
  let versionByte ← read total 1 readU8
  refuse (versionByte ≠ Update.version)
    (.malformed ("unsupported version " ++ toString versionByte))
  let issuerAlgo ← readAlgo total
  let releaseUnix ← read total 8 readU64
  let version ← readStringU16 total utf8Error "version" maxVersionStrLen
  let minCompatibleVersion ← readStringU8 total utf8Error "min_compatible_version" maxVersionStrLen
  let platformTarget ← readStringU8 total utf8Error "platform_target" maxPlatformTargetLen
  let binarySha256 ← read total binarySha256Len (readArray 32)
  let urlCount ← readLen total 1
  refuse (urlCount = 0 ∨ maxBinaryUrls < urlCount) (.badUrlCount (UInt8.ofNat urlCount))
  let binaryUrls ← times (readStringU16 total utf8Error "binary_url" maxBinaryUrlLen) urlCount
  let issuerPkBytes ← readStringU16Raw total "issuer_pk" issuerAlgo.maxIssuerPkLen
  let issuerPk ← fromUtf8 utf8Error "issuer_pk" issuerPkBytes
  let sigLen ← readLen total 2
  let signature ← read total sigLen (readBytes sigLen)
  pure ⟨⟨releaseUnix, version, minCompatibleVersion, platformTarget, binarySha256, binaryUrls⟩,
    issuerPk, issuerAlgo, signature⟩

/-- A manifest, and nothing behind it. -/
def decodeManifest (blob : List UInt8) : Except ManifestError UpdateManifest :=
  if maxManifestBytes < blob.length then .error (.tooLarge blob.length)
  else match readManifest blob.length utf8Error blob with
    | .error e => .error e
    | .ok (m, []) => .ok m
    | .ok (_, rest) => .error (.malformed (toString rest.length ++ " trailing byte(s)"))

end Decoder

/-! ### What the decoder accepts -/

/-- The fields are in the ranges that the format has. -/
structure UpdateManifest.Wf (m : UpdateManifest) : Prop where
  version : (Text.bytes m.version).length ≤ maxVersionStrLen
  minCompatibleVersion : (Text.bytes m.minCompatibleVersion).length ≤ maxVersionStrLen
  platformTarget : (Text.bytes m.platformTarget).length ≤ maxPlatformTargetLen
  urls : m.binaryUrls ≠ [] ∧ m.binaryUrls.length ≤ maxBinaryUrls
  url : ∀ url ∈ m.binaryUrls, (Text.bytes url).length ≤ maxBinaryUrlLen
  issuerPk : (Text.bytes m.issuerPk).length ≤ m.issuerAlgo.maxIssuerPkLen
  signature : m.signature.length ≤ 65535

section Exact

open Cursor (Exact)

variable {total : ℕ} {utf8Error : List UInt8 → String} {buf rest : List UInt8}
  {field : String} {max : ℕ}

theorem exact_read {α : Type} {n : ℕ} {p : ManifestError → Cursor ManifestError α}
    {encode : α → List UInt8} {Wf : α → Prop} (h : ∀ e, Exact (p e) encode Wf) :
    Exact (read total n p) encode Wf := by
  intro buf a rest
  simp only [read, bind_eq_ok_iff, remaining_eq_ok_iff, (h _).iff]
  constructor
  · rintro ⟨_, _, ⟨-, rfl⟩, hbuf⟩
    exact hbuf
  · intro hbuf
    exact ⟨buf, _, ⟨rfl, rfl⟩, hbuf⟩

theorem exact_readLen (w : ℕ) : Exact (readLen total w) (Bytes.toBe w) fun n => n < 256 ^ w := by
  intro buf n rest
  simp only [readLen, bind_eq_ok_iff, (exact_read fun _ => exact_readBytes).iff,
    pure_eq_ok_iff]
  constructor
  · rintro ⟨_, bytes, ⟨rfl, rfl⟩, rfl, rfl⟩
    exact ⟨by rw [toBe_ofBe], ofBe_lt bytes⟩
  · rintro ⟨rfl, hn⟩
    exact ⟨rest, _, ⟨rfl, length_toBe w n⟩,
      by rw [ofBe_toBe, Nat.mod_eq_of_lt hn], rfl⟩

/-- A string is read with its length, which its cap bounds. -/
theorem exact_readSized {w : ℕ} (hmax : max < 256 ^ w) :
    Exact (readSized total w field max) (Bytes.sized w) fun v => v.length ≤ max := by
  intro buf v rest
  have hcap n (hok : ¬max < n) : n < 256 ^ w :=
    Nat.lt_of_le_of_lt (Nat.not_lt.mp hok) hmax
  rw [readSized, (Cursor.exact_readSized (exact_readLen w)
    (fun _ => exact_read fun _ => exact_readBytes) hcap).iff, Nat.not_lt]

theorem exact_readString {w : ℕ} (hmax : max < 256 ^ w) :
    Exact (do let bytes ← readSized total w field max; fromUtf8 utf8Error field bytes)
      (fun s => Bytes.sized w (Text.bytes s))
      fun s => (Text.bytes s).length ≤ max := by
  intro buf s rest
  simp only [fromUtf8, bind_eq_ok_iff, (exact_readSized hmax).iff, text_eq_ok_iff]
  constructor
  · rintro ⟨_, _, hbuf, rfl, rfl⟩
    exact hbuf
  · intro hbuf
    exact ⟨rest, _, hbuf, rfl, rfl⟩

theorem exact_readStringU16 (hmax : max < 65536) : Exact (readStringU16 total utf8Error field max)
    writeStringU16 fun s => (Text.bytes s).length ≤ max := exact_readString hmax

theorem exact_readStringU8 (hmax : max < 256) : Exact (readStringU8 total utf8Error field max)
    writeStringU8 fun s => (Text.bytes s).length ≤ max := exact_readString hmax

theorem exact_readAlgo : Exact (readAlgo total) (fun algo => [algo.toByte]) fun _ => True := by
  intro buf algo rest
  simp only [readAlgo, bind_eq_ok_iff, (exact_read fun _ => exact_readU8).iff,
    and_true]
  constructor
  · rintro ⟨mid, b, rfl, h⟩
    cases halgo : SignatureAlgorithm.ofByte b with
    | none =>
      rw [halgo] at h
      cases h
    | some algo' =>
      rw [halgo] at h
      obtain ⟨rfl, rfl⟩ := pure_eq_ok_iff.mp h
      rw [SignatureAlgorithm.ofByte_eq_some_iff.mp halgo]
  · rintro rfl
    refine ⟨rest, _, rfl, ?_⟩
    rw [SignatureAlgorithm.ofByte_eq_some_iff.mpr rfl]
    rfl

theorem SignatureAlgorithm.maxIssuerPkLen_lt (algo : SignatureAlgorithm) :
    algo.maxIssuerPkLen < 256 ^ 2 := by
  cases algo <;> decide

variable (total utf8Error) in
/-- **The decoder accepts what the encoder writes**, and nothing else. -/
theorem exact_readManifest : Exact (readManifest total utf8Error) UpdateManifest.body
    UpdateManifest.Wf := by
  intro buf m rest
  simp only [readManifest, readStringU16Raw, fromUtf8, bind_eq_ok_iff,
    (exact_read fun _ => exact_readBytes).iff, (exact_read fun _ => exact_readU8).iff,
    (exact_read fun _ => exact_readU64).iff,
    (exact_read fun _ => exact_readArray).iff, exact_readAlgo.iff, (exact_readLen _).iff,
    (exact_readStringU16 (show maxVersionStrLen < 65536 by decide)).iff,
    (exact_readStringU8 (show maxVersionStrLen < 256 by decide)).iff,
    (exact_readStringU8 (show maxPlatformTargetLen < 256 by decide)).iff,
    (exact_times (exact_readStringU16 (show maxBinaryUrlLen < 65536 by decide)) _).iff,
    (exact_readSized (SignatureAlgorithm.maxIssuerPkLen_lt _)).iff,
    refuse_eq_ok_iff, text_eq_ok_iff, pure_eq_ok_iff, and_true, not_or,
    Nat.not_lt, not_not]
  constructor
  · rintro ⟨_, _, ⟨rfl, -⟩, _, _, ⟨rfl, rfl⟩, _, _, rfl, _, _, ⟨rfl, rfl⟩, _, _, rfl, _, _, rfl,
      _, _, ⟨rfl, hversion⟩, _, _, ⟨rfl, hmin⟩, _, _, ⟨rfl, hplatform⟩, _, _, rfl, _, _, ⟨rfl, -⟩,
      _, _, ⟨⟨hnone, hmany⟩, rfl⟩, _, _, ⟨rfl, rfl, hurl⟩, _, _, ⟨rfl, hpk⟩, _, _, ⟨rfl, rfl⟩, _, _,
      ⟨rfl, hsig⟩, _, _, ⟨rfl, rfl⟩, rfl, rfl⟩
    refine ⟨?_, hversion, hmin, hplatform, ⟨mt (congrArg length) hnone, hmany⟩, hurl, hpk,
      Nat.le_of_lt_succ hsig⟩
    simp only [UpdateManifest.body, writeStringU16, Bytes.sized, append_assoc]
  · rintro ⟨rfl, hm⟩
    have hurls : m.binaryUrls.length < 256 ^ 1 := Nat.lt_of_le_of_lt hm.urls.2 (by decide)
    have hnone : ¬m.binaryUrls.length = 0 := mt length_eq_zero_iff.mp hm.urls.1
    simp only [UpdateManifest.body, Bytes.sized, append_assoc]
    exact ⟨_, _, ⟨rfl, rfl⟩, _, (), ⟨rfl, rfl⟩, _, _, rfl, _, (), ⟨rfl, rfl⟩, _, _, rfl, _, _, rfl,
      _, _, ⟨rfl, hm.version⟩, _, _, ⟨rfl, hm.minCompatibleVersion⟩, _, _, ⟨rfl, hm.platformTarget⟩,
      _, _, rfl, _, _, ⟨rfl, hurls⟩, _, (), ⟨⟨hnone, hm.urls.2⟩, rfl⟩, _, _, ⟨rfl, rfl, hm.url⟩, _,
      _, ⟨rfl, hm.issuerPk⟩, _, _, ⟨rfl, rfl⟩, _, _, ⟨rfl, Nat.lt_succ_of_le hm.signature⟩, _, _,
      ⟨rfl, rfl⟩, rfl, rfl⟩

/-- A manifest is decoded from its encoding only. -/
theorem decodeManifest_eq_ok_iff {m : UpdateManifest} : decodeManifest utf8Error buf = .ok m ↔
    buf = m.body ∧ m.Wf ∧ buf.length ≤ maxManifestBytes := by
  have hread := fun rest => exact_readManifest buf.length utf8Error buf m rest
  constructor
  · intro h
    rw [decodeManifest] at h
    split at h
    · cases h
    next hlen =>
    split at h
    · cases h
    next m' hok =>
      cases h
      obtain ⟨hbuf, hm⟩ := (hread []).mp hok
      exact ⟨by rwa [append_nil] at hbuf, hm, Nat.not_lt.mp hlen⟩
    · cases h
  · rintro ⟨hbuf, hm, hlen⟩
    rw [decodeManifest, if_neg (Nat.not_lt.mpr hlen),
      (hread []).mpr ⟨by rw [append_nil, hbuf], hm⟩]

end Exact

/-! ### What a signature stands for -/

theorem of_checkLen {field : String} {max : ℕ} {s : String} {u : Unit}
    (h : checkLen field max s = .ok u) : (Text.bytes s).length ≤ max := by
  rw [checkLen] at h
  split at h
  · cases h
  next hlen => exact Nat.not_lt.mp hlen

section Sign

variable {signMessage : SignatureAlgorithm → String → String → List UInt8 →
    Except String (List UInt8)} {r : Release} {issuerPk issuerSk : String}
  {issuerAlgo : SignatureAlgorithm} {bytes : List UInt8}

/-- What is signed is a manifest in range. -/
theorem of_signManifest (h : signManifest signMessage r issuerPk issuerSk issuerAlgo = .ok bytes) :
    ∃ signature, signMessage issuerAlgo issuerPk issuerSk (canonicalMessage r) = .ok signature ∧
      bytes = UpdateManifest.body ⟨r, issuerPk, issuerAlgo, signature⟩ ∧
      UpdateManifest.Wf ⟨r, issuerPk, issuerAlgo, signature⟩ ∧
      bytes.length ≤ maxManifestBytes := by
  simp only [signManifest, Fallible.bind_eq_ok_iff] at h
  obtain ⟨_, hversion, _, hmin, _, hplatform, h⟩ := h
  split at h
  · cases h
  next hurls =>
  simp only [Fallible.bind_eq_ok_iff] at h
  obtain ⟨_, hurl, _, hpk, signature, hsign, _, hbody, h⟩ := h
  rw [encodeBody] at hbody
  iterate 2 (split at hbody; · cases hbody)
  next hsig =>
  cases hbody
  split at h
  · cases h
  next hlen =>
  cases h
  rw [not_or, Nat.not_lt] at hurls
  exact ⟨signature, Fallible.eq_ok_of_mapError hsign, rfl,
    ⟨of_checkLen hversion, of_checkLen hmin, of_checkLen hplatform, hurls,
      fun url hmem => of_checkLen (Fallible.forM_eq_ok_iff.mp hurl url hmem), of_checkLen hpk,
      Nat.not_lt.mp hsig⟩, Nat.not_lt.mp hlen⟩

end Sign

/-- How many zero bytes the texts of a release have, one after the other. -/
def Release.zeros (r : Release) : List ℕ :=
  (r.version :: r.minCompatibleVersion :: r.platformTarget :: r.binaryUrls).map Text.zeros

/-- The message is read back from the left: parts of fixed length, and texts up to the zero that
ends them. -/
theorem canonicalMessage_inj {r r' : Release} (hzeros : r.zeros = r'.zeros)
    (h : canonicalMessage r = canonicalMessage r') : r = r' := by
  obtain ⟨hzversion, hzeros⟩ := cons.inj hzeros
  obtain ⟨hzmin, hzeros⟩ := cons.inj hzeros
  obtain ⟨hzplatform, hzurls⟩ := cons.inj hzeros
  obtain ⟨hrelease, h⟩ := append_inj (append_cancel_left h)
    (by rw [length_toBe, length_toBe])
  obtain ⟨hversion, h⟩ := Text.append_zero_inj hzversion h
  obtain ⟨hmin, h⟩ := Text.append_zero_inj hzmin h
  obtain ⟨hplatform, h⟩ := Text.append_zero_inj hzplatform h
  obtain ⟨hsha, hurls⟩ := append_inj h (r.binarySha256.2.trans r'.binarySha256.2.symm)
  have hunix : r.releaseUnix = r'.releaseUnix := by
    have hof := congrArg ofBe hrelease
    rw [ofBe_toBe, ofBe_toBe, show 256 ^ 8 = 2 ^ 64 from rfl,
      Nat.mod_eq_of_lt r.releaseUnix.toNat_lt, Nat.mod_eq_of_lt r'.releaseUnix.toNat_lt] at hof
    exact UInt64.toNat_inj.mp hof
  cases r
  obtain rfl := hunix
  obtain rfl := Text.bytes_inj hversion
  obtain rfl := Text.bytes_inj hmin
  obtain rfl := Text.bytes_inj hplatform
  obtain rfl := Subtype.ext hsha
  obtain rfl := Text.terminated_inj hzurls hurls
  rfl

/-- **What a signature stands for.** Two accepted manifests with one signed message are the same
release exactly if each text of the one has as many zero bytes as that of the other. What is signed
is decoded to the fields it was signed with, and what is decoded is encoded to the bytes it was
decoded from. -/
theorem manifest_of_message (utf8Error : List UInt8 → String) :
    (∀ b b' m m', decodeManifest utf8Error b = .ok m → decodeManifest utf8Error b' = .ok m' →
      canonicalMessage m.toRelease = canonicalMessage m'.toRelease →
      (m.toRelease = m'.toRelease ↔ m.zeros = m'.zeros)) ∧
    (∀ signMessage r issuerPk issuerSk issuerAlgo bytes,
      signManifest signMessage r issuerPk issuerSk issuerAlgo = .ok bytes →
      ∃ signature, signMessage issuerAlgo issuerPk issuerSk (canonicalMessage r) = .ok signature ∧
        decodeManifest utf8Error bytes = .ok ⟨r, issuerPk, issuerAlgo, signature⟩) ∧
    ∀ b m, decodeManifest utf8Error b = .ok m → encodeBody m = .ok b := by
  refine ⟨fun b b' m m' _ _ h => ⟨congrArg Release.zeros, fun hz => canonicalMessage_inj hz h⟩,
    ?_, ?_⟩
  · intro signMessage r issuerPk issuerSk issuerAlgo bytes h
    obtain ⟨signature, hsign, hbytes, hwf, hlen⟩ := of_signManifest h
    exact ⟨signature, hsign, decodeManifest_eq_ok_iff.mpr ⟨hbytes, hwf, hlen⟩⟩
  · intro b m h
    obtain ⟨rfl, hm, -⟩ := decodeManifest_eq_ok_iff.mp h
    have hpk := Nat.lt_of_le_of_lt hm.issuerPk m.issuerAlgo.maxIssuerPkLen_lt
    rw [encodeBody, if_neg (Nat.not_lt.mpr (Nat.le_of_lt_succ hpk)),
      if_neg (Nat.not_lt.mpr hm.signature)]

/-- A release with no hash, at one place. -/
def sampleManifest (version minCompatibleVersion platformTarget : String) : UpdateManifest :=
  ⟨⟨1, version, minCompatibleVersion, platformTarget, FixedBytes.replicate 32 0, ["u"]⟩, "",
    .ed25519, []⟩

/-- A manifest that was signed is decoded, and no other without zeros has its message. -/
theorem manifest_of_message_sample :
    (sampleManifest "1" "0" "linux").zeros = [0, 0, 0, 0] ∧
    (∀ b m, decodeManifest (fun _ => "") b = .ok m →
      canonicalMessage (sampleManifest "1" "0" "linux").toRelease = canonicalMessage m.toRelease →
      m.zeros = [0, 0, 0, 0] → m.toRelease = (sampleManifest "1" "0" "linux").toRelease) := by
  have hzeros : (sampleManifest "1" "0" "linux").zeros = [0, 0, 0, 0] := by decide
  have hsign : signManifest (fun _ _ _ _ => .ok []) (sampleManifest "1" "0" "linux").toRelease ""
      "" .ed25519 = .ok (sampleManifest "1" "0" "linux").body := rfl
  obtain ⟨hunique, hsigned, -⟩ := manifest_of_message fun _ => ""
  obtain ⟨signature, hok, hdecode⟩ := hsigned _ _ _ _ _ _ hsign
  exact ⟨hzeros, fun b m hb h hm =>
    ((hunique _ b _ m hdecode hb h).mpr (hzeros.trans hm.symm)).symm⟩

/-- **One message, two manifests**: a zero in a text moves the boundary between two of them. -/
theorem one_message_two_manifests :
    decodeManifest (fun _ => "") (sampleManifest "1\x002" "0" "linux").body =
      .ok (sampleManifest "1\x002" "0" "linux") ∧
    decodeManifest (fun _ => "") (sampleManifest "1" "2" "0\x00linux").body =
      .ok (sampleManifest "1" "2" "0\x00linux") ∧
    canonicalMessage (sampleManifest "1\x002" "0" "linux").toRelease =
      canonicalMessage (sampleManifest "1" "2" "0\x00linux").toRelease ∧
    "1\x002" ≠ "1" := by
  have hdecode : ∀ {m : UpdateManifest}, m.Wf → m.body.length ≤ maxManifestBytes →
      decodeManifest (fun _ => "") m.body = .ok m :=
    fun hm hlen => decodeManifest_eq_ok_iff.mpr ⟨rfl, hm, hlen⟩
  refine ⟨hdecode ?_ (by decide), hdecode ?_ (by decide), by decide, by decide⟩
  · exact ⟨by decide, by decide, by decide, by decide, by decide, by decide, by decide⟩
  · exact ⟨by decide, by decide, by decide, by decide, by decide, by decide, by decide⟩

end VeilNetwork.Update
