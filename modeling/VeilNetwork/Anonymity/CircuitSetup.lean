import VeilNetwork.Anonymity.CircuitData

/-!
# Circuit setup

The setup envelope of `circuit_setup.rs`: one onion layer for each hop, with the install
instruction of that hop in front of the layer of the next. The onion primitive is a parameter
(`Onion`): what is wrapped for a public key is unwrapped with its secret key.

Peeling an envelope hop by hop gives back what went into it (`peelAlong_wrapSetup`): at every hop
its own install, with the next hop's name, and at the last one the payload.
-/

namespace VeilNetwork.Anonymity

open List

/-- The per-hop seal: ephemeral keys are drawn by the sender. -/
structure Onion where
  SecretKey : Type
  Ephemeral : Type
  publicKey : SecretKey → FixedBytes 32
  wrapForHop : Ephemeral → List UInt8 → FixedBytes 32 → List UInt8
  unwrapAtHop : List UInt8 → SecretKey → Except OnionError (List UInt8)
  unwrap_wrap : ∀ e payload sk, unwrapAtHop (wrapForHop e payload (publicKey sk)) sk = .ok payload

/-- `FINAL_HOP_SENTINEL`. -/
def finalHopSentinel : NodeId := .replicate 32 0

/-- `MAX_CIRCUIT_TTL`. -/
def maxCircuitTtl : UInt8 := 16

/-- One hop of a setup, with what it is to install. -/
structure CircuitSetupHop where
  nodeId : NodeId
  pubkey : FixedBytes 32
  circuitIdIn : UInt32
  circuitIdOut : UInt32
  circuitKey : CircuitKey

/-- What a hop installs. -/
structure CircuitInstall where
  circuitIdIn : UInt32
  circuitIdOut : UInt32
  circuitKey : CircuitKey
  cellBytes : CircuitCellBytes
deriving DecidableEq

inductive SetupPeelResult where
  | forward (install : CircuitInstall) (nextHop : NodeId) (inner : List UInt8)
  | terminus (install : CircuitInstall) (payload : List UInt8)
deriving DecidableEq

def SetupPeelResult.install : SetupPeelResult → CircuitInstall
  | .forward install _ _ => install
  | .terminus install _ => install

/-! ### Building -/

/-- `SETUP_PREFIX_LEN`. -/
def setupPrefixLen : ℕ := 1 + 32 + 4 + 4 + 32 + 2

/-- One setup layer. -/
def buildLayer (nextHopId : NodeId) (hop : CircuitSetupHop) (cell : CircuitCellBytes)
    (inner : List UInt8) : List UInt8 :=
  maxCircuitTtl :: (nextHopId.1 ++ (Bytes.toBe 4 hop.circuitIdIn.toNat ++
    (Bytes.toBe 4 hop.circuitIdOut.toNat ++ (hop.circuitKey.1 ++
      (Bytes.toBe 2 (cell.bytes % 2 ^ 16) ++ inner)))))

section Model

variable (O : Onion)

/-- Wrap the layers, the last hop's first. The hop numbered `i` uses the ephemeral key `eph i`. -/
def wrapSetup (eph : ℕ → O.Ephemeral) (cell : CircuitCellBytes) (terminusPayload : List UInt8) :
    ℕ → CircuitSetupHop → List CircuitSetupHop → List UInt8
  | i, last, [] =>
    O.wrapForHop (eph i) (buildLayer finalHopSentinel last cell terminusPayload) last.pubkey
  | i, hop, next :: rest =>
    O.wrapForHop (eph i)
      (buildLayer next.nodeId hop cell (wrapSetup eph cell terminusPayload (i + 1) next rest))
      hop.pubkey

/-- One more than the number of hops, in eight bits: the number is cut, the sum saturates. -/
def outermostTtl (hops : ℕ) : UInt8 := UInt8.ofNat (min (hops % 2 ^ 8 + 1) 255)

/-- A layer for each hop. -/
def buildCircuitSetup (eph : ℕ → O.Ephemeral) (hops : List CircuitSetupHop)
    (cell : CircuitCellBytes) (terminusPayload : List UInt8) : Except CircuitError (List UInt8) :=
  match hops with
  | [] => .error .noHops
  | first :: rest =>
    if maxCircuitTtl < outermostTtl (first :: rest).length then
      .error (.circuitTooLongForTtl (first :: rest).length (outermostTtl (first :: rest).length)
        maxCircuitTtl)
    else .ok (wrapSetup O eph cell terminusPayload 0 first rest)

/-! ### Peeling -/

/-- The fields of a setup layer, and what is inside. -/
def layerFields (plaintext : List UInt8) :
    Option (UInt8 × NodeId × UInt32 × UInt32 × CircuitKey × UInt16 × List UInt8) := do
  let (ttl, b) ← Bytes.takeU8 plaintext
  let (nextHop, b) ← FixedBytes.read 32 b
  let (circuitIdIn, b) ← Bytes.takeU32 b
  let (circuitIdOut, b) ← Bytes.takeU32 b
  let (circuitKey, b) ← FixedBytes.read 32 b
  let (cellBytes, inner) ← Bytes.takeU16 b
  return (ttl, nextHop, circuitIdIn, circuitIdOut, circuitKey, cellBytes, inner)

/-- Open the outermost layer. -/
def peelCircuitSetup (envelope : List UInt8) (mySk : O.SecretKey) :
    Except CircuitError SetupPeelResult :=
  match O.unwrapAtHop envelope mySk with
  | .error e => .error (.onion e)
  | .ok plaintext =>
    match layerFields plaintext with
    | none => .error (.plaintextTooShort plaintext.length setupPrefixLen)
    | some (ttl, nextHop, circuitIdIn, circuitIdOut, circuitKey, cellBytes, inner) =>
      if ttl = 0 then .error .ttlExhausted
      else if maxCircuitTtl < ttl then .error (.ttlExceedsCap ttl maxCircuitTtl)
      else
        match CircuitCellBytes.new cellBytes.toNat with
        | .error e => .error e
        | .ok cell =>
          if nextHop = finalHopSentinel then
            .ok (.terminus ⟨circuitIdIn, circuitIdOut, circuitKey, cell⟩ inner)
          else .ok (.forward ⟨circuitIdIn, circuitIdOut, circuitKey, cell⟩ nextHop inner)

/-- Peel an envelope hop by hop: each hop passes on what is inside, the last one keeps it. -/
def peelAlong : List O.SecretKey → List UInt8 → Except CircuitError (List SetupPeelResult)
  | [], _ => .ok []
  | sk :: sks, envelope =>
    match peelCircuitSetup O envelope sk with
    | .error e => .error e
    | .ok (.terminus install payload) => .ok [.terminus install payload]
    | .ok (.forward install nextHop inner) =>
      match peelAlong sks inner with
      | .error e => .error e
      | .ok l => .ok (.forward install nextHop inner :: l)

end Model

/-! ### Peeling what was built -/

/-- What a hop of a setup installs. -/
def CircuitSetupHop.install (hop : CircuitSetupHop) (cell : CircuitCellBytes) : CircuitInstall :=
  ⟨hop.circuitIdIn, hop.circuitIdOut, hop.circuitKey, cell⟩

variable {O : Onion}

theorem layerFields_buildLayer (nextHopId : NodeId) (hop : CircuitSetupHop)
    (cell : CircuitCellBytes) (inner : List UInt8) :
    layerFields (buildLayer nextHopId hop cell inner) = some (maxCircuitTtl, nextHopId,
      hop.circuitIdIn, hop.circuitIdOut, hop.circuitKey, UInt16.ofNat cell.bytes, inner) := by
  have hcell : cell.bytes % 2 ^ 16 = (UInt16.ofNat cell.bytes).toNat := rfl
  rw [buildLayer, hcell]
  simp only [layerFields, Bytes.takeU8_cons, FixedBytes.read_append, Bytes.takeU32_toBe,
    Bytes.takeU16_toBe, Option.bind_eq_bind, Option.bind_some]
  rfl

/-- A hop reads its own layer. -/
theorem peelCircuitSetup_wrapForHop (e : O.Ephemeral) (nextHopId : NodeId)
    (hop : CircuitSetupHop) (cell : CircuitCellBytes) (inner : List UInt8) {sk : O.SecretKey}
    (hsk : hop.pubkey = O.publicKey sk) :
    peelCircuitSetup O (O.wrapForHop e (buildLayer nextHopId hop cell inner) hop.pubkey) sk =
      if nextHopId = finalHopSentinel then .ok (.terminus (hop.install cell) inner)
      else .ok (.forward (hop.install cell) nextHopId inner) := by
  have hcell : (UInt16.ofNat cell.bytes).toNat = cell.bytes := Nat.mod_eq_of_lt cell.bytes_lt
  rw [peelCircuitSetup, hsk, O.unwrap_wrap]
  dsimp only
  rw [layerFields_buildLayer]
  dsimp only
  rw [hcell, cell.new_bytes]
  rfl

/-- What the hops of a setup peel. -/
def peeled (eph : ℕ → O.Ephemeral) (cell : CircuitCellBytes) (terminusPayload : List UInt8) :
    ℕ → CircuitSetupHop → List CircuitSetupHop → List SetupPeelResult
  | _, last, [] => [.terminus (last.install cell) terminusPayload]
  | i, hop, next :: rest =>
    .forward (hop.install cell) next.nodeId (wrapSetup O eph cell terminusPayload (i + 1) next rest)
      :: peeled eph cell terminusPayload (i + 1) next rest

/-- **Peeling a setup hop by hop** gives each hop its install and the next hop's name, and the
last one the payload. -/
theorem peelAlong_wrapSetup (eph : ℕ → O.Ephemeral) (cell : CircuitCellBytes)
    (terminusPayload : List UInt8) (i : ℕ) (first : CircuitSetupHop) (rest : List CircuitSetupHop)
    (hids : ∀ hop ∈ rest, hop.nodeId ≠ finalHopSentinel) {sks : List O.SecretKey}
    (hsks : (first :: rest).map CircuitSetupHop.pubkey = sks.map O.publicKey) :
    peelAlong O sks (wrapSetup O eph cell terminusPayload i first rest) =
      .ok (peeled eph cell terminusPayload i first rest) := by
  induction rest generalizing i first sks with
  | nil =>
    cases sks with
    | nil => cases hsks
    | cons sk sks =>
      have hsk : first.pubkey = O.publicKey sk := (cons.inj hsks).1
      rw [peelAlong, wrapSetup, peelCircuitSetup_wrapForHop _ _ _ _ _ hsk]
      rfl
  | cons next rest ih =>
    cases sks with
    | nil => cases hsks
    | cons sk sks =>
      obtain ⟨hsk, hsks⟩ := cons.inj hsks
      have hinner := ih (i + 1) next (fun hop hhop => hids hop (mem_cons_of_mem _ hhop)) hsks
      rw [peelAlong, wrapSetup, peelCircuitSetup_wrapForHop _ _ _ _ _ hsk,
        if_neg (hids next mem_cons_self)]
      dsimp only
      rw [hinner]
      rfl

/-! ### What was peeled -/

section Peeled

variable {eph : ℕ → O.Ephemeral} {cell : CircuitCellBytes} {terminusPayload : List UInt8}

section

variable (i : ℕ) (first : CircuitSetupHop) (rest : List CircuitSetupHop)

theorem map_install_peeled :
    (peeled eph cell terminusPayload i first rest).map SetupPeelResult.install =
      (first :: rest).map fun hop => hop.install cell := by
  induction rest generalizing i first with
  | nil => rfl
  | cons next rest ih => exact congrArg (first.install cell :: ·) (ih (i + 1) next)

/-- Every hop but the last passes on, to the next hop. -/
theorem peeled_forward {j : ℕ} {next : CircuitSetupHop} (hnext : rest[j]? = some next) :
    ∃ install inner,
    (peeled eph cell terminusPayload i first rest)[j]? =
      some (.forward install next.nodeId inner) := by
  induction rest generalizing i first j with
  | nil => cases hnext
  | cons hop rest ih =>
    cases j with
    | zero =>
      cases hnext
      exact ⟨_, _, rfl⟩
    | succ j => exact ih (i + 1) hop hnext

/-- The last hop keeps the payload. -/
theorem peeled_getLast :
    ∃ install, (peeled eph cell terminusPayload i first rest)[rest.length]? =
      some (.terminus install terminusPayload) := by
  induction rest generalizing i first with
  | nil => exact ⟨_, rfl⟩
  | cons _ _ ih => exact ih (i + 1) ..

end

end Peeled

end VeilNetwork.Anonymity
