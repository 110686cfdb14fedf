import VeilNetwork.Anonymity.CircuitSetup

/-!
# The originator's side of a circuit

The node that builds a circuit (`circuit_origin.rs`) draws the identifier of every link and the
key of every hop, sends the setup envelope along the hops, and keeps the keys. Random draws are a
parameter.

The main result, `circuit_end_to_end`, follows a circuit from its setup to its cells: the hops
install what the originator keeps, so that the layers which the hops put on a returning cell are
the ones the originator takes off, and the other way round. Its length check is made in eight
bits: the number of hops is cut before it is compared, so a list of 256 hops passes
(`long_circuit_is_built`), and the result says for which lists all is well.
-/

namespace VeilNetwork.Anonymity

open List Option

variable {cell : CircuitCellBytes}

/-- One hop of the originator's route. -/
structure OriginHop where
  nodeId : NodeId
  pubkey : FixedBytes 32

/-- The originator's record of a circuit. -/
structure OriginCircuit where
  circuitKeys : List CircuitKey
  firstHop : NodeId
  originCircuitId : UInt32
  createdUnix : ℕ
  cellBytes : CircuitCellBytes

/-- Open a cell that came down the circuit. -/
def OriginCircuit.openReturn (C : StreamCipher) (origin : OriginCircuit) (seq : UInt32)
    (cell : List UInt8) : Except CircuitError (List UInt8) :=
  match applyLayers C origin.circuitKeys .back seq cell with
  | .error e => .error e
  | .ok buf =>
    match readPayload buf with
    | none => .error (.malformed "circuit return payload framing")
    | some payload => .ok payload

/-- What is drawn for a circuit, for the hop of each number. -/
structure Draws (O : Onion) where
  word : ℕ → UInt32
  key : ℕ → CircuitKey
  ephemeral : ℕ → O.Ephemeral

variable {O : Onion}

section

variable (draws : Draws O)

/-- The identifier of the link to the hop numbered `i`, never zero. -/
def Draws.cid (i : ℕ) : UInt32 :=
  if draws.word i = 0 then 1 else draws.word i

/-- The hops with what they are to install, out of `n`. -/
def Draws.setupHop (n i : ℕ) (hop : OriginHop) : CircuitSetupHop where
  nodeId := hop.nodeId
  pubkey := hop.pubkey
  circuitIdIn := draws.cid i
  circuitIdOut := if i + 1 < n then draws.cid (i + 1) else 0
  circuitKey := draws.key i

def Draws.setupHops (hops : List OriginHop) : List CircuitSetupHop :=
  hops.mapIdx (draws.setupHop hops.length)

/-- What the originator keeps of a circuit of `n` hops. -/
def Draws.originCircuit (n : ℕ) (first : OriginHop) (cell : CircuitCellBytes) (nowUnix : ℕ) :
    OriginCircuit where
  circuitKeys := (List.range n).map draws.key
  firstHop := first.nodeId
  originCircuitId := draws.cid 0
  createdUnix := nowUnix
  cellBytes := cell

/-- A setup, and the sender's side of the circuit. -/
def buildOriginCircuit (hops : List OriginHop) (cell : CircuitCellBytes)
    (terminusPayload : List UInt8) (nowUnix : ℕ) :
    Except CircuitError (List UInt8 × OriginCircuit) :=
  match hops with
  | [] => .error .noHops
  | first :: rest =>
    match buildCircuitSetup O draws.ephemeral (draws.setupHops (first :: rest)) cell
        terminusPayload with
    | .error e => .error e
    | .ok setup => .ok (setup, draws.originCircuit (first :: rest).length first cell nowUnix)

end

/-! ### The length check -/

theorem outermostTtl_le_iff {n : ℕ} : outermostTtl n ≤ maxCircuitTtl ↔ n % 2 ^ 8 ≤ 15 := by
  rw [UInt8.le_iff_toNat_le]
  change min (n % 2 ^ 8 + 1) 255 % 2 ^ 8 ≤ 16 ↔ n % 2 ^ 8 ≤ 15
  omega

section Build

variable (draws : Draws O) (cell : CircuitCellBytes) (terminusPayload : List UInt8) (nowUnix : ℕ)

theorem length_setupHops (hops : List OriginHop) :
    (draws.setupHops hops).length = hops.length := length_mapIdx

variable {hops : List OriginHop}

/-- A hop list that passes the check: the record and the envelope. -/
theorem buildOriginCircuit_eq_ok {first : CircuitSetupHop} {rest : List CircuitSetupHop}
    (hsetup : draws.setupHops hops = first :: rest) (hlen : hops.length % 2 ^ 8 ≤ 15) : ∃ origin,
    buildOriginCircuit draws hops cell terminusPayload nowUnix =
      .ok (wrapSetup O draws.ephemeral cell terminusPayload 0 first rest, origin) ∧
    origin.circuitKeys = (List.range hops.length).map draws.key := by
  cases hops with
  | nil => cases hsetup
  | cons hop hops =>
    have hcheck : ¬maxCircuitTtl < outermostTtl (first :: rest).length := by
      rw [← hsetup, length_setupHops]
      exact UInt8.not_lt.mpr (outermostTtl_le_iff.mpr hlen)
    refine ⟨draws.originCircuit (hop :: hops).length hop cell nowUnix, ?_, rfl⟩
    rw [buildOriginCircuit, hsetup, buildCircuitSetup, if_neg hcheck]

/-- A hop list that does not pass it. -/
theorem buildOriginCircuit_eq_error (hlen : 15 < hops.length % 2 ^ 8) :
    buildOriginCircuit draws hops cell terminusPayload nowUnix =
      .error (.circuitTooLongForTtl hops.length (outermostTtl hops.length) maxCircuitTtl) := by
  cases hops with
  | nil => cases hlen
  | cons hop hops =>
    have hsetup := length_setupHops draws (hop :: hops)
    rcases hs : draws.setupHops (hop :: hops) with _ | ⟨first, rest⟩
    · rw [hs] at hsetup
      cases hsetup
    · rw [hs] at hsetup
      have hcheck : maxCircuitTtl < outermostTtl (first :: rest).length := by
        rw [hsetup]
        exact UInt8.not_le.mp fun h => absurd (outermostTtl_le_iff.mp h) (Nat.not_le.mpr hlen)
      rw [buildOriginCircuit, hs, buildCircuitSetup, if_pos hcheck, hsetup]

theorem exists_setupHops_eq_cons (h : hops ≠ []) :
    ∃ first rest, draws.setupHops hops = first :: rest := by
  refine exists_cons_of_length_pos ?_
  rw [length_setupHops]
  exact length_pos_iff.mpr h

end Build

/-! ### The layers of both ways -/

section Layers

variable (C : StreamCipher)

/-- What the hops do to a returning cell, the last hop first. -/
def returnLayers (keys : List CircuitKey) (seq : UInt32) (cell : List UInt8) : List UInt8 :=
  keys.reverse.foldl (fun buf key => applyLayer C key .back seq buf) cell

/-- What the hops do to a cell on its way out, the first hop first. -/
def forwardLayers (keys : List CircuitKey) (seq : UInt32) (cell : List UInt8) : List UInt8 :=
  keys.foldl (fun buf key => applyLayer C key .forward seq buf) cell

theorem applyLayers_eq_ok {keys : List CircuitKey} (hkeys : keys ≠ []) (dir : Direction)
    (seq : UInt32) (buf : List UInt8) : applyLayers C keys dir seq buf =
      .ok (keys.foldl (fun buf key => applyLayer C key dir seq buf) buf) :=
  if_neg (by rwa [List.isEmpty_iff])

variable {buf payload : List UInt8}

theorem openReturn_returnLayers {origin : OriginCircuit} (hkeys : origin.circuitKeys ≠ [])
    (hread : readPayload buf = some payload) (seq : UInt32) :
    origin.openReturn C seq (returnLayers C origin.circuitKeys seq buf) = .ok payload := by
  rw [OriginCircuit.openReturn, applyLayers_eq_ok C hkeys, returnLayers,
    foldl_applyLayer_cancel C (reverse_perm _)]
  dsimp only
  rw [hread]

theorem readPayload_forwardLayers {keys : List CircuitKey} (hkeys : keys ≠ [])
    (hread : readPayload buf = some payload) (seq : UInt32) :
    ∃ sent, applyLayers C keys .forward seq buf = .ok sent ∧
      readPayload (forwardLayers C keys seq sent) = some payload := by
  refine ⟨_, applyLayers_eq_ok C hkeys .forward seq buf, ?_⟩
  rw [forwardLayers, foldl_applyLayer_cancel C (List.Perm.refl _), hread]

end Layers

/-! ### What the hops install -/

section Installs

variable {draws : Draws O} {hops : List OriginHop}

/-- The hops' installs, by their numbers. -/
def Installed (draws : Draws O) (hops : List OriginHop) (cell : CircuitCellBytes)
    (results : List SetupPeelResult) : Prop :=
  results.map SetupPeelResult.install =
    (draws.setupHops hops).map fun hop => hop.install cell

variable {results : List SetupPeelResult}

theorem Installed.length_eq
    (h : Installed draws hops cell results) : results.length = hops.length := by
  have hlen := congrArg length h
  rwa [length_map, length_map, length_setupHops] at hlen

variable {r : SetupPeelResult}

section

variable (h : Installed draws hops cell results)

include h

theorem Installed.install_eq {i : ℕ} (hr : results[i]? = some r) :
    r.install = ⟨draws.cid i, if i + 1 < hops.length then draws.cid (i + 1) else 0,
      draws.key i, cell⟩ := by
  have hi := congrArg (·[i]?) h
  simp only [getElem?_map, hr, Draws.setupHops, getElem?_mapIdx,
    Option.map_map] at hi
  obtain ⟨hop, -, hop_eq⟩ := map_eq_some_iff.mp hi.symm
  exact hop_eq.symm

/-- The links' identifiers are chained. -/
theorem Installed.chained {i : ℕ} {r' : SetupPeelResult}
    (hr : results[i]? = some r) (hr' : results[i + 1]? = some r') :
    r.install.circuitIdOut = r'.install.circuitIdIn := by
  have hi : i + 1 < hops.length := by
    rw [← h.length_eq]
    exact (List.getElem?_eq_some_iff.mp hr').1
  rw [h.install_eq hr, h.install_eq hr']
  exact if_pos hi

theorem Installed.cellBytes_eq (hr : r ∈ results) :
    r.install.cellBytes = cell := by
  obtain ⟨i, hi⟩ := mem_iff_getElem?.mp hr
  rw [h.install_eq hi]

/-- The hops hold the keys the originator keeps. -/
theorem Installed.map_circuitKey :
    results.map (fun r => r.install.circuitKey) = (List.range hops.length).map draws.key := by
  refine ext_getElem? fun i => ?_
  rcases hr : results[i]? with _ | r
  · have hi : hops.length ≤ i := h.length_eq ▸ getElem?_eq_none_iff.mp hr
    rw [getElem?_map, hr, getElem?_eq_none (by simpa using hi)]
    rfl
  · have hi : i < hops.length := h.length_eq ▸ (List.getElem?_eq_some_iff.mp hr).1
    rw [getElem?_map, hr, getElem?_map, getElem?_range hi, map_some,
      h.install_eq hr, map_some]

end

end Installs

/-! ### End to end -/

/-- What the hops of a route peel out of its setup: every hop but the last the next hop's name,
the last one the payload, with chained identifiers and one size of cell. -/
structure Peeled (hops : List OriginHop) (cell : CircuitCellBytes) (terminusPayload : List UInt8)
    (results : List SetupPeelResult) : Prop where
  length_eq : results.length = hops.length
  forward : ∀ i next, hops[i + 1]? = some next → ∃ install inner,
    results[i]? = some (.forward install next.nodeId inner)
  terminus : ∃ install, results[hops.length - 1]? = some (.terminus install terminusPayload)
  chained : ∀ i r r', results[i]? = some r → results[i + 1]? = some r' →
    r.install.circuitIdOut = r'.install.circuitIdIn
  cellBytes_eq : ∀ r ∈ results, r.install.cellBytes = cell

/-- Every payload that fits passes through the circuit, both ways: the originator opens what the
hops with these keys layered, and the last hop reads what the originator layered. -/
structure Carries (C : StreamCipher) (origin : OriginCircuit) (keys : List CircuitKey)
    (cell : CircuitCellBytes) : Prop where
  back : ∀ seq pad payload, payload.length ≤ cell.maxInner → ∃ buf,
    wrapPayload pad payload cell = .ok buf ∧
      origin.openReturn C seq (returnLayers C keys seq buf) = .ok payload
  forward : ∀ seq pad payload, payload.length ≤ cell.maxInner → ∃ buf sent,
    wrapPayload pad payload cell = .ok buf ∧
      applyLayers C origin.circuitKeys .forward seq buf = .ok sent ∧
      readPayload (forwardLayers C keys seq sent) = some payload

theorem carries_circuitKeys (C : StreamCipher) {origin : OriginCircuit}
    (hkeys : origin.circuitKeys ≠ []) (cell : CircuitCellBytes) :
    Carries C origin origin.circuitKeys cell where
  back seq pad payload hfit := by
    obtain ⟨buf, hwrap, -, hread⟩ := wrapPayload_eq_ok hfit pad
    exact ⟨buf, hwrap, openReturn_returnLayers C hkeys hread seq⟩
  forward seq pad payload hfit := by
    obtain ⟨buf, hwrap, -, hread⟩ := wrapPayload_eq_ok hfit pad
    obtain ⟨sent, hsent, hback⟩ := readPayload_forwardLayers C hkeys hread seq
    exact ⟨buf, sent, hwrap, hsent, hback⟩

section EndToEnd

variable {draws : Draws O} {hops : List OriginHop} {terminusPayload : List UInt8}
  {first : CircuitSetupHop} {rest : List CircuitSetupHop}

variable (draws hops) in
theorem setupHops_getElem? (i : ℕ) :
    (draws.setupHops hops)[i]? = hops[i]?.map (draws.setupHop hops.length i) :=
  getElem?_mapIdx

theorem installed_peeled (hsetup : draws.setupHops hops = first :: rest) :
    Installed draws hops cell (peeled draws.ephemeral cell terminusPayload 0 first rest) := by
  rw [Installed, hsetup]
  exact map_install_peeled 0 first rest

/-- What the setup of a route is peeled to. -/
theorem peeled_setupHops (hsetup : draws.setupHops hops = first :: rest) :
    Peeled hops cell terminusPayload
      (peeled draws.ephemeral cell terminusPayload 0 first rest) where
  length_eq := (installed_peeled hsetup).length_eq
  forward i next hnext := by
    have hrest : rest[i]? = some (draws.setupHop hops.length (i + 1) next) := by
      have hi := setupHops_getElem? draws hops (i + 1)
      rwa [hsetup, hnext] at hi
    exact peeled_forward 0 first rest hrest
  terminus := by
    have hlen : hops.length - 1 = rest.length := by
      rw [← length_setupHops draws hops, hsetup, length_cons, Nat.add_sub_cancel]
    rw [hlen]
    exact peeled_getLast 0 first rest
  chained _ _ _ := (installed_peeled hsetup).chained
  cellBytes_eq _ := (installed_peeled hsetup).cellBytes_eq

theorem map_pubkey_setupHops : (draws.setupHops hops).map CircuitSetupHop.pubkey =
    hops.map OriginHop.pubkey := by
  refine ext_getElem? fun i => ?_
  rw [getElem?_map, getElem?_map, setupHops_getElem?, Option.map_map]
  rfl

theorem nodeId_ne_of_mem_setupHops (draws : Draws O)
    (hids : ∀ hop ∈ hops, hop.nodeId ≠ finalHopSentinel)
    {hop : CircuitSetupHop} (hhop : hop ∈ draws.setupHops hops) :
    hop.nodeId ≠ finalHopSentinel := by
  obtain ⟨i, hi⟩ := mem_iff_getElem?.mp hhop
  rw [setupHops_getElem?] at hi
  obtain ⟨origin, horigin, rfl⟩ := map_eq_some_iff.mp hi
  exact hids origin (mem_of_getElem? horigin)

end EndToEnd

variable (C : StreamCipher) (draws : Draws O) (hops : List OriginHop) (cell : CircuitCellBytes)
  (terminusPayload : List UInt8) (nowUnix : ℕ)

/-- All is well with a route: its circuit is built exactly for 1 to 15 hops and refused as too long
for more, the hops peel its setup to chained installs and the payload, and every payload that fits
passes through it both ways. -/
structure EndToEnd : Prop where
  built_iff : (∃ built, buildOriginCircuit draws hops cell terminusPayload nowUnix = .ok built) ↔
    1 ≤ hops.length ∧ hops.length ≤ maxCircuitTtl.toNat - 1
  refused : maxCircuitTtl.toNat - 1 < hops.length → ∃ required,
    buildOriginCircuit draws hops cell terminusPayload nowUnix =
      .error (.circuitTooLongForTtl hops.length required maxCircuitTtl)
  carries : ∀ setup origin, buildOriginCircuit draws hops cell terminusPayload nowUnix =
      .ok (setup, origin) →
    ∀ sks : List O.SecretKey, hops.map OriginHop.pubkey = sks.map O.publicKey →
      ∃ results, peelAlong O sks setup = .ok results ∧
        Peeled hops cell terminusPayload results ∧
        Carries C origin (results.map fun r => r.install.circuitKey) cell

/-- The length check as it is made: it looks at the number of hops modulo 256. -/
theorem exists_built_iff :
    (∃ built, buildOriginCircuit draws hops cell terminusPayload nowUnix = .ok built) ↔
      hops ≠ [] ∧ hops.length % 2 ^ 8 ≤ 15 := by
  constructor
  · rintro ⟨built, hbuilt⟩
    refine ⟨?_, Nat.not_lt.mp fun hlong => ?_⟩
    · rintro rfl
      cases hbuilt
    · rw [buildOriginCircuit_eq_error draws cell terminusPayload nowUnix hlong] at hbuilt
      cases hbuilt
  · rintro ⟨hne, hshort⟩
    obtain ⟨first, rest, hsetup⟩ := exists_setupHops_eq_cons draws hne
    obtain ⟨origin, hbuilt, -⟩ := buildOriginCircuit_eq_ok draws cell terminusPayload nowUnix
      hsetup hshort
    exact ⟨_, hbuilt⟩

variable {draws hops cell terminusPayload nowUnix} in
/-- **A circuit that is built carries**, of whatever length it is. -/
theorem peeled_and_carries {setup : List UInt8} {origin : OriginCircuit}
    (hids : ∀ hop ∈ hops, hop.nodeId ≠ finalHopSentinel)
    (hbuilt : buildOriginCircuit draws hops cell terminusPayload nowUnix = .ok (setup, origin))
    {sks : List O.SecretKey} (hsks : hops.map OriginHop.pubkey = sks.map O.publicKey) :
    ∃ results, peelAlong O sks setup = .ok results ∧ Peeled hops cell terminusPayload results ∧
      Carries C origin (results.map fun r => r.install.circuitKey) cell := by
  obtain ⟨hne, hshort⟩ := (exists_built_iff draws hops cell terminusPayload nowUnix).mp ⟨_, hbuilt⟩
  obtain ⟨first, rest, hsetup⟩ := exists_setupHops_eq_cons draws hne
  obtain ⟨origin', hbuilt', hkeys⟩ := buildOriginCircuit_eq_ok draws cell terminusPayload
    nowUnix hsetup hshort
  obtain ⟨rfl, rfl⟩ := Prod.mk.inj (Except.ok.inj (hbuilt'.symm.trans hbuilt))
  refine ⟨_, peelAlong_wrapSetup draws.ephemeral cell terminusPayload 0 first rest ?_ ?_,
    peeled_setupHops hsetup, ?_⟩
  · intro hop hhop
    refine nodeId_ne_of_mem_setupHops draws hids ?_
    exact hsetup ▸ mem_cons_of_mem _ hhop
  · rw [← hsetup, map_pubkey_setupHops, hsks]
  · rw [(installed_peeled hsetup).map_circuitKey, ← hkeys]
    refine carries_circuitKeys C ?_ cell
    rw [hkeys]
    exact fun h => hne (length_eq_zero_iff.mp (by simpa using h))

/-- **A circuit end to end**: all is well with a route exactly if it has fewer than 256 hops, or so
many more that the check still sees more than 15. -/
theorem circuit_end_to_end (hids : ∀ hop ∈ hops, hop.nodeId ≠ finalHopSentinel) :
    EndToEnd C draws hops cell terminusPayload nowUnix ↔
      hops.length < 256 ∨ 15 < hops.length % 256 := by
  have hbuilt := exists_built_iff draws hops cell terminusPayload nowUnix
  have hne : hops ≠ [] ↔ 1 ≤ hops.length := length_pos_iff.symm
  have hmax : maxCircuitTtl.toNat - 1 = 15 := rfl
  constructor
  · intro h
    have hiff := hbuilt.symm.trans h.built_iff
    rw [hne, hmax] at hiff
    by_contra hlong
    have := hiff.mp (by omega)
    omega
  · refine fun hlen => ⟨?_, fun hlong => ⟨outermostTtl hops.length, ?_⟩,
      fun setup origin hok sks hsks => peeled_and_carries C hids hok hsks⟩
    · rw [hbuilt, hne, hmax]
      omega
    · rw [hmax] at hlong
      exact buildOriginCircuit_eq_error draws cell terminusPayload nowUnix (by omega)

/-! ### A route of two hops, and one of 256 -/

/-- An onion that only names the key it is for. -/
def labelOnion : Onion where
  SecretKey := FixedBytes 32
  Ephemeral := Unit
  publicKey sk := sk
  wrapForHop _ payload pk := pk.1 ++ payload
  unwrapAtHop envelope sk :=
    if envelope.take 32 = sk.1 then .ok (envelope.drop 32) else .error .aead
  unwrap_wrap _ payload sk := by
    have hlen : sk.1.length = 32 := sk.2
    rw [List.take_left' hlen, List.drop_left' hlen, if_pos rfl]

def sampleHop (n : UInt8) : OriginHop := ⟨.replicate 32 n, .replicate 32 n⟩

def sampleDraws : Draws labelOnion where
  word i := UInt32.ofNat i
  key i := .replicate 32 (UInt8.ofNat i)
  ephemeral _ := ()

def sampleCell : CircuitCellBytes := ⟨2048, by decide, by decide⟩

/-- A keystream that depends on the key and on the nonce. -/
def sampleCipher : StreamCipher := fun key nonce i =>
  key.1.headD 0 + nonce.headD 0 + UInt8.ofNat i

theorem circuit_end_to_end_two_hops : ∃ setup origin results,
    buildOriginCircuit sampleDraws [sampleHop 1, sampleHop 2] sampleCell [7] 0 =
      .ok (setup, origin) ∧
    peelAlong labelOnion [.replicate 32 1, .replicate 32 2] setup = .ok results ∧
    Peeled [sampleHop 1, sampleHop 2] sampleCell [7] results ∧
    Carries sampleCipher origin (results.map fun r => r.install.circuitKey) sampleCell := by
  obtain ⟨hbuild, -, hpeel⟩ := (circuit_end_to_end sampleCipher sampleDraws
    [sampleHop 1, sampleHop 2] sampleCell [7] 0 (by decide)).mpr (by decide)
  obtain ⟨⟨setup, origin⟩, hbuilt⟩ := hbuild.mpr (by decide)
  obtain ⟨results, hresults⟩ :=
    hpeel setup origin hbuilt [.replicate 32 1, .replicate 32 2] rfl
  exact ⟨setup, origin, results, hbuilt, hresults⟩

/-- **A circuit of 256 hops is built**: the check sees none of them. -/
theorem long_circuit_is_built :
    maxCircuitTtl.toNat - 1 < (List.replicate 256 (sampleHop 1)).length ∧
    (∀ hop ∈ List.replicate 256 (sampleHop 1), hop.nodeId ≠ finalHopSentinel) ∧
    ∃ built, buildOriginCircuit sampleDraws (List.replicate 256 (sampleHop 1)) sampleCell [7] 0 =
      .ok built := by
  have hlen : (replicate 256 (sampleHop 1)).length = 256 := length_replicate
  refine ⟨by rw [hlen]; decide, ?_, ?_⟩
  · intro hop hhop
    rw [eq_of_mem_replicate hhop]
    decide
  · refine (exists_built_iff sampleDraws _ sampleCell [7] 0).mpr ⟨cons_ne_nil _ _, ?_⟩
    rw [hlen]
    decide

end VeilNetwork.Anonymity
