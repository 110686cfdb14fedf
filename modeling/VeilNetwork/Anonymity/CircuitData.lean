import VeilNetwork.Lib.Bytes
import VeilNetwork.Lib.Keystream

/-!
# Data cells of a circuit

The fixed-size cells of `circuit_data.rs`: a payload with its length in front and random bytes
behind it, under one layer of keystream for each hop. The stream cipher is a parameter, a
keystream for every key and nonce.
-/

namespace VeilNetwork.Anonymity

open List

inductive OnionError where
  | envelopeTooSmall (got min : ℕ)
  | aead
deriving DecidableEq

inductive CircuitError where
  | onion (error : OnionError)
  | plaintextTooShort (got min : ℕ)
  | noHops
  | ttlExhausted
  | ttlExceedsCap (got max : UInt8)
  | circuitTooLongForTtl (hops : ℕ) (required max : UInt8)
  | malformed (reason : String)
deriving DecidableEq

/-- `CIRCUIT_PAYLOAD_BYTES`. -/
def circuitPayloadBytes : ℕ := 16384

/-- `LEN_PREFIX`. -/
def lenPrefix : ℕ := 2

/-- `MIN_CIRCUIT_CELL_BYTES`. -/
def minCircuitCellBytes : ℕ := 1024

/-- The size of every data cell on one circuit. -/
structure CircuitCellBytes where
  bytes : ℕ
  le_bytes : minCircuitCellBytes ≤ bytes
  bytes_le : bytes ≤ circuitPayloadBytes
deriving DecidableEq

namespace CircuitCellBytes

def new (bytes : ℕ) : Except CircuitError CircuitCellBytes :=
  if h : minCircuitCellBytes ≤ bytes ∧ bytes ≤ circuitPayloadBytes then .ok ⟨bytes, h.1, h.2⟩
  else .error (.malformed ("circuit cell " ++ toString bytes ++ " outside " ++
    toString minCircuitCellBytes ++ "..=" ++ toString circuitPayloadBytes))

def legacy : CircuitCellBytes := ⟨circuitPayloadBytes, by decide, Nat.le_refl _⟩

variable (cell : CircuitCellBytes)

/-- The largest payload that a cell of this size carries. -/
def maxInner : ℕ := cell.bytes - lenPrefix

theorem new_bytes : new cell.bytes = .ok cell :=
  dif_pos ⟨cell.le_bytes, cell.bytes_le⟩

theorem bytes_lt : cell.bytes < 2 ^ 16 :=
  Nat.lt_of_le_of_lt cell.bytes_le (by decide)

theorem lenPrefix_le : lenPrefix ≤ cell.bytes :=
  Nat.le_trans (by decide) cell.le_bytes

end CircuitCellBytes

/-! ### Layers -/

/-- The way of a cell along a circuit. -/
inductive Direction where
  | forward
  | back
deriving DecidableEq

def Direction.tag : Direction → UInt8
  | .forward => 0x01
  | .back => 0x02

/-- The nonce of a layer. -/
def layerNonce (dir : Direction) (seq : UInt32) : List UInt8 :=
  dir.tag :: Bytes.toBe 4 seq.toNat ++ List.replicate 7 0

/-- A symmetric key of a circuit. -/
abbrev CircuitKey : Type := FixedBytes 32

/-- A stream cipher: a keystream for every key and nonce. -/
abbrev StreamCipher : Type := CircuitKey → List UInt8 → Keystream

section Layers

variable (C : StreamCipher)

/-- Put a layer on a cell, or take it off. -/
def applyLayer (key : CircuitKey) (dir : Direction) (seq : UInt32) (buf : List UInt8) :
    List UInt8 :=
  Keystream.layer (C key (layerNonce dir seq)) buf

/-- Every key's layer. -/
def applyLayers (keys : List CircuitKey) (dir : Direction) (seq : UInt32) (buf : List UInt8) :
    Except CircuitError (List UInt8) :=
  if keys.isEmpty then .error .noHops
  else .ok (keys.foldl (fun buf key => applyLayer C key dir seq buf) buf)

/-- The layers of some keys are those of their keystreams. -/
theorem foldl_applyLayer (keys : List CircuitKey) (dir : Direction) (seq : UInt32)
    (buf : List UInt8) :
    keys.foldl (fun buf key => applyLayer C key dir seq buf) buf =
      Keystream.layers (keys.map fun key => C key (layerNonce dir seq)) buf := by
  rw [Keystream.layers, foldl_map]
  rfl

/-- **What some keys' layers hide, the same keys' layers uncover**, in any order. -/
theorem foldl_applyLayer_cancel {keys keys' : List CircuitKey} (h : keys.Perm keys')
    (dir : Direction) (seq : UInt32) (buf : List UInt8) :
    keys'.foldl (fun buf key => applyLayer C key dir seq buf)
      (keys.foldl (fun buf key => applyLayer C key dir seq buf) buf) = buf := by
  rw [foldl_applyLayer, foldl_applyLayer]
  exact Keystream.layers_cancel buf (h.map _)

end Layers

/-! ### Framing -/

/-- Frame a payload into a cell; `pad` are the random bytes. -/
def wrapPayload (pad : ℕ → UInt8) (payload : List UInt8) (cell : CircuitCellBytes) :
    Except CircuitError (List UInt8) :=
  if cell.maxInner < payload.length then
    .error (.malformed ("circuit payload " ++ toString payload.length ++ " > MAX " ++
      toString cell.maxInner))
  else .ok (Bytes.toBe 2 payload.length ++ (payload ++
    (List.range (cell.maxInner - payload.length)).map pad))

def readPayload (buf : List UInt8) : Option (List UInt8) :=
  match Bytes.takeU16 buf with
  | none => none
  | some (len, rest) => if rest.length < len.toNat then none else some (rest.take len.toNat)

theorem wrapPayload_eq_ok {payload : List UInt8} {cell : CircuitCellBytes}
    (h : payload.length ≤ cell.maxInner) (pad : ℕ → UInt8) :
    ∃ buf, wrapPayload pad payload cell = .ok buf ∧ buf.length = cell.bytes ∧
      readPayload buf = some payload := by
  have hlt : payload.length < 2 ^ 16 :=
    Nat.lt_of_le_of_lt (Nat.le_trans h (Nat.sub_le _ _)) cell.bytes_lt
  refine ⟨_, if_neg (Nat.not_lt.mpr h), ?_, ?_⟩
  · have := cell.lenPrefix_le
    simp only [length_append, Bytes.length_toBe, length_map, length_range,
      CircuitCellBytes.maxInner, lenPrefix] at *
    omega
  · have hlen : (UInt16.ofNat payload.length).toNat = payload.length := Nat.mod_eq_of_lt hlt
    have htake := Bytes.takeU16_toBe (UInt16.ofNat payload.length) (payload ++
      (range (cell.maxInner - payload.length)).map pad)
    rw [hlen] at htake
    rw [readPayload, htake]
    dsimp only
    rw [hlen, if_neg (by simp), take_left]

end VeilNetwork.Anonymity
