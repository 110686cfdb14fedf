import Mathlib.Algebra.Ring.Nat
import Mathlib.Order.Lattice
import Mathlib.Order.Nat
import VeilNetwork.Lib.Bytes

/-!
# Frame headers

The fixed header of a frame and its codec, as `header.rs` and `codec.rs` have them. The
encoder writes the magic and the version whatever the header says; the decoder refuses any
other magic, version or header length, and a body above a limit.

The two are inverse to each other on what the decoder accepts: a header is read back as it was
written (`decodeHeaderInner_encodeHeader`), and re-encoding an accepted header gives the bytes it
was read from (`encodeHeader_of_decodeHeaderInner`).
-/

namespace VeilNetwork.Session

open Bytes Option

/-- Bytes on the wire. -/
abbrev Octets : Type := List UInt8

/-- `b"OVL1"`. -/
def magic : Octets := [0x4f, 0x56, 0x4c, 0x31]

def version : UInt8 := 2

def headerSize : ℕ := 24

/-- `MAX_FRAME_BODY`: the ceiling on every frame body. -/
def maxFrameBody : UInt32 := 16 * 1024 * 1024

/-- The head of a frame. -/
structure FrameHeader where
  version : UInt8
  family : UInt8
  msgType : UInt16
  flags : UInt16
  headerLen : UInt16
  bodyLen : UInt32
  streamId : UInt32
  requestId : UInt32
deriving DecidableEq

inductive ProtoError where
  | bufferTooShort (need got : ℕ)
  | invalidMagic (magic : Octets)
  | unsupportedVersion (version : UInt8)
  | malformed (reason : String)
  | bodyTooLarge (bodyLen max : UInt32)
deriving DecidableEq

/-! ### The codec -/

/-- A head on the wire. -/
def encodeHeader (h : FrameHeader) : Octets :=
  magic ++ (Session.version :: h.family :: (Bytes.toBe 2 h.msgType.toNat ++
    (Bytes.toBe 2 h.flags.toNat ++ (Bytes.toBe 2 h.headerLen.toNat ++
      (Bytes.toBe 4 h.bodyLen.toNat ++ (Bytes.toBe 4 h.streamId.toNat ++
        Bytes.toBe 4 h.requestId.toNat))))))

variable (buf : Octets)

/-- The magic and the fields of a header, where the buffer holds a header. -/
def headerFields : Option (Octets × FrameHeader) := do
  let (magic, buf) ← Bytes.take 4 buf
  let (version, buf) ← Bytes.takeU8 buf
  let (family, buf) ← Bytes.takeU8 buf
  let (msgType, buf) ← Bytes.takeU16 buf
  let (flags, buf) ← Bytes.takeU16 buf
  let (headerLen, buf) ← Bytes.takeU16 buf
  let (bodyLen, buf) ← Bytes.takeU32 buf
  let (streamId, buf) ← Bytes.takeU32 buf
  let (requestId, _) ← Bytes.takeU32 buf
  return (magic, ⟨version, family, msgType, flags, headerLen, bodyLen, streamId, requestId⟩)

/-- A head, with a limit on the body. -/
def decodeHeaderInner (maxBody : UInt32) : Except ProtoError FrameHeader :=
  match headerFields buf with
  | none => .error (.bufferTooShort headerSize buf.length)
  | some (m, h) =>
    if m ≠ magic then .error (.invalidMagic m)
    else if h.version ≠ Session.version then .error (.unsupportedVersion h.version)
    else if h.headerLen.toNat ≠ headerSize then
      .error (.malformed ("header_len=" ++ toString h.headerLen.toNat ++ " but expected " ++
        toString headerSize ++ " (OVL1 v1 has no TLV header extensions)"))
    else if maxBody < h.bodyLen then .error (.bodyTooLarge h.bodyLen maxBody)
    else .ok h

def decodeHeader : Except ProtoError FrameHeader :=
  decodeHeaderInner buf maxFrameBody

/-! ### Writing and reading back -/

/-- What the decoder asks of a header besides its body length. -/
structure FrameHeader.Canonical (h : FrameHeader) : Prop where
  version : h.version = Session.version
  headerLen : h.headerLen.toNat = headerSize

variable {h : FrameHeader}

theorem FrameHeader.Canonical.with_version (hcan : h.Canonical) :
    { h with version := Session.version } = h := by
  rw [← hcan.version]

@[simp] theorem length_encodeHeader (h : FrameHeader) : (encodeHeader h).length = headerSize := by
  simp [encodeHeader, magic, headerSize]

theorem headerFields_encodeHeader (h : FrameHeader) (r : Octets) :
    headerFields (encodeHeader h ++ r) = some (magic, { h with version := Session.version }) := by
  have htake : ∀ l : Octets, take 4 (magic ++ l) = some (magic, l) := take_append magic
  simp only [encodeHeader, List.append_assoc, List.cons_append, headerFields, htake,
    bind_eq_bind, bind_some, takeU8_cons, takeU16_toBe,
    takeU32_toBe]
  rfl

variable {maxBody : UInt32}

/-- **A header is read back as it was written**, whatever follows it. -/
theorem decodeHeaderInner_encodeHeader (hcan : h.Canonical)
    (hbody : h.bodyLen ≤ maxBody) (r : Octets) :
    decodeHeaderInner (encodeHeader h ++ r) maxBody = .ok h := by
  rw [decodeHeaderInner, headerFields_encodeHeader, hcan.with_version]
  simp [hcan.version, hcan.headerLen, UInt32.not_lt.mpr hbody]

variable {buf : Octets}

theorem append_of_headerFields {m : Octets} (hfields : headerFields buf = some (m, h)) :
    ∃ r, buf = m ++ (h.version :: (encodeHeader h).drop 5 ++ r) ∧ m.length = 4 := by
  simp only [headerFields, bind_eq_bind, bind_eq_some_iff] at hfields
  obtain ⟨⟨m', b⟩, hm, ⟨v, b1⟩, hv, ⟨f, b2⟩, hf, ⟨t, b3⟩, ht, ⟨fl, b4⟩, hfl, ⟨hl, b5⟩, hhl,
    ⟨bl, b6⟩, hbl, ⟨si, b7⟩, hsi, ⟨ri, b8⟩, hri, heq⟩ := hfields
  cases heq
  obtain ⟨rfl, hlen⟩ := append_of_take hm
  obtain rfl := append_of_takeU8 hv
  obtain rfl := append_of_takeU8 hf
  obtain rfl := append_of_takeU16 ht
  obtain rfl := append_of_takeU16 hfl
  obtain rfl := append_of_takeU16 hhl
  obtain rfl := append_of_takeU32 hbl
  obtain rfl := append_of_takeU32 hsi
  obtain rfl := append_of_takeU32 hri
  exact ⟨b8, by simp [encodeHeader, magic], hlen⟩

/-- What an accepted header satisfies. -/
theorem canonical_of_decodeHeaderInner (hok : decodeHeaderInner buf maxBody = .ok h) :
    headerFields buf = some (magic, h) ∧ h.Canonical ∧ h.bodyLen ≤ maxBody := by
  rw [decodeHeaderInner] at hok
  split at hok
  · cases hok
  next m h' hfields =>
    split_ifs at hok with hmagic hversion hlen hbody
    cases hok
    rw [not_not] at hmagic hversion hlen
    exact ⟨hmagic ▸ hfields, ⟨hversion, hlen⟩, UInt32.not_lt.mp hbody⟩

/-- **An accepted header encodes to the bytes it was read from.** -/
theorem encodeHeader_of_decodeHeaderInner
    (hok : decodeHeaderInner buf maxBody = .ok h) : ∃ r, buf = encodeHeader h ++ r := by
  obtain ⟨hfields, hcan, -⟩ := canonical_of_decodeHeaderInner hok
  obtain ⟨r, hbuf, -⟩ := append_of_headerFields hfields
  rw [hbuf, hcan.version]
  simp [encodeHeader, magic]

/-- **The decoder accepts the encodings of canonical headers within the body limit and nothing
else**: an accepted header leads the buffer in the one way it is written. -/
theorem decodeHeaderInner_eq_ok_iff (buf : Octets) (maxBody : UInt32) (h : FrameHeader) :
    decodeHeaderInner buf maxBody = .ok h ↔
      h.Canonical ∧ h.bodyLen ≤ maxBody ∧ encodeHeader h <+: buf := by
  constructor
  · intro hok
    obtain ⟨-, hcan, hbody⟩ := canonical_of_decodeHeaderInner hok
    obtain ⟨r, hbuf⟩ := encodeHeader_of_decodeHeaderInner hok
    exact ⟨hcan, hbody, r, hbuf.symm⟩
  · rintro ⟨hcan, hbody, r, rfl⟩
    exact decodeHeaderInner_encodeHeader hcan hbody r

end VeilNetwork.Session
