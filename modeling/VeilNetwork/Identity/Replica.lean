import VeilNetwork.Identity.Verify
import VeilNetwork.Lib.Run
import VeilNetwork.Lib.Table

/-!
# A replica of an identity document

A node of the DHT that holds the document of an identity under its key, and is asked to store
another one. The call verifies the new document, then up to three times reads what is held, lets
the old document speak against the new one, and stores if what is held is still what was read. The
steps of several calls interleave.

The old document has a say only where it still verifies, at the reading of the clock of the call
or at its own end, whichever is earlier. So the revocations survive where the windows of the old
document allow that (`Replica.revocations_survive`). But the key that signed it may have run out
before the document: from then on it has no say, and an older document without its revocations
takes its place (`Replica.stale_document_erases_revocation`).
-/

namespace VeilNetwork.Identity

open List Option IdentityDocument

/-- The mark of records of another kind, which are gathered in samples. -/
def spaceDiscoveryDhtMagic : List UInt8 := [88, 83]

/-- The earlier of two times. -/
def earlier (a b : UInt64) : UInt64 := if a ≤ b then a else b

namespace Replica

/-! ### The steps -/

/-- Where a call stands, with the rounds it has left. -/
inductive Phase where
  | reading (left : ℕ)
  | storing (current : Option (List UInt8)) (left : ℕ)
  | checking (current : Option (List UInt8)) (left : ℕ)

/-- A call with a verified document, at its reading of the clock. -/
structure Pending where
  value : List UInt8
  incoming : IdentityDocument
  now : UInt64
  phase : Phase

/-- What is held under the key, and the calls that are under way. -/
structure World where
  held : Option (List UInt8)
  pending : Table ℕ Pending

/-- The two ways to store. -/
inductive Via where
  | store
  | mirror

/-- What happens at a replica. -/
inductive Event where
  /-- A call begins, with its reading of the clock; a record of another kind is stored at once,
  where the store accepts it. -/
  | call (id : ℕ) (via : Via) (value : List UInt8) (now : UInt64) (accepts : Bool)
  /-- Read what is held and let the old document speak. -/
  | read (id : ℕ)
  /-- Store, if what is held is what was read and the store accepts it. -/
  | store (id : ℕ) (accepts : Bool)
  /-- Look again whether another call was faster. -/
  | recheck (id : ℕ)

section Steps

variable (c : Crypto) (sample : Option (List UInt8) → List UInt8 → Option (List UInt8))
  (key : NodeId)

/-- The document that is held, where it still verifies. -/
def previous (current : Option (List UInt8)) (incoming : IdentityDocument) (now : UInt64) :
    Option IdentityDocument :=
  match current with
  | none => none
  | some bytes =>
    match IdentityDocument.decode bytes with
    | .error _ => none
    | .ok doc =>
      if doc.nodeId = incoming.nodeId ∧
          (verifyIdentityDocument c doc (earlier now doc.validUntilUnix)).isOk = true then
        some doc
      else none

variable (w : World)

/-- A record of another kind. -/
def storeOther (via : Via) (value : List UInt8) (accepts : Bool) : World :=
  if !accepts then w
  else
    match via with
    | .store => { w with held := some value }
    | .mirror =>
      if value.take 2 = spaceDiscoveryDhtMagic then { w with held := sample w.held value }
      else { w with held := some value }

section

variable (id : ℕ)

/-- Only a verified document begins a call. -/
def beginCall (value : List UInt8) (now : UInt64) : World :=
  match IdentityDocument.decode value with
  | .error _ => w
  | .ok incoming =>
    if c.dhtKey incoming.nodeId ≠ key ∨ (verifyIdentityDocument c incoming now).isOk = false then w
    else { w with pending := w.pending.insert id ⟨value, incoming, now, .reading 3⟩ }

/-- Go on with a call. -/
def goOn (p : Pending) (phase : Phase) : World :=
  { w with pending := w.pending.insert id { p with phase := phase } }

/-- A call is over. -/
def finish : World := { w with pending := w.pending.erase id }

def read : World :=
  match w.pending.lookup id with
  | some ⟨value, incoming, now, .reading left⟩ =>
    if (previous c w.held incoming now).any fun doc => doc.vetoes incoming then finish w id
    else goOn w id ⟨value, incoming, now, .reading left⟩ (.storing w.held left)
  | _ => w

def store (accepts : Bool) : World :=
  match w.pending.lookup id with
  | some ⟨value, incoming, now, .storing current left⟩ =>
    if w.held = current ∧ accepts = true then { finish w id with held := some value }
    else goOn w id ⟨value, incoming, now, .storing current left⟩ (.checking current left)
  | _ => w

def recheck : World :=
  match w.pending.lookup id with
  | some ⟨value, incoming, now, .checking current left⟩ =>
    if w.held = current ∨ left ≤ 1 then finish w id
    else goOn w id ⟨value, incoming, now, .checking current left⟩ (.reading (left - 1))
  | _ => w

end

/-- One event. -/
def step : Event → World
  | .call id via value now accepts =>
    if value.take 2 = identityDocumentMagic then beginCall c key w id value now
    else storeOther sample w via value accepts
  | .read id => read c w id
  | .store id accepts => store w id accepts
  | .recheck id => recheck w id

end Steps

/-! ### What is known of the calls under way -/

variable {c : Crypto} {sample : Option (List UInt8) → List UInt8 → Option (List UInt8)}
  {key : NodeId} {w : World} {id : ℕ} {p : Pending}

/-- **A call that is going to store has let the old document speak.** -/
structure Pending.Sound (c : Crypto) (key : NodeId) (p : Pending) : Prop where
  decodes : IdentityDocument.decode p.value = .ok p.incoming
  place : c.dhtKey p.incoming.nodeId = key
  verifies : (verifyIdentityDocument c p.incoming p.now).isOk = true
  heard : ∀ current left, p.phase = .storing current left →
    ∀ doc, previous c current p.incoming p.now = some doc → doc.vetoes p.incoming = false

/-- Every call under way. -/
def Sound (c : Crypto) (key : NodeId) (w : World) : Prop :=
  w.pending.All fun _ p => p.Sound c key

theorem sound_idle (held : Option (List UInt8)) : Sound c key ⟨held, ∅⟩ := Table.All.empty

section

variable (h : Sound c key w)

include h

theorem Sound.finish (id : ℕ) : Sound c key (finish w id) :=
  Table.All.erase h id

theorem Sound.goOn (hp : p.Sound c key) {phase : Phase}
    (hphase : ∀ current left, phase = .storing current left →
      ∀ doc, previous c current p.incoming p.now = some doc → doc.vetoes p.incoming = false) :
    Sound c key (goOn w id p phase) :=
  Table.All.insert h ⟨hp.decodes, hp.place, hp.verifies, hphase⟩

theorem Sound.beginCall {value : List UInt8} {now : UInt64} :
    Sound c key (beginCall c key w id value now) := by
  rw [Replica.beginCall]
  split
  · exact h
  next incoming hdecode =>
  split
  · exact h
  next hok =>
  obtain ⟨hplace, hverifies⟩ := not_or.mp hok
  exact Table.All.insert h ⟨hdecode, not_not.mp hplace, Bool.not_eq_false _ |>.mp hverifies,
    nofun⟩

theorem Sound.read : Sound c key (read c w id) := by
  rw [Replica.read]
  split
  next value incoming now left hp =>
    split
    · exact h.finish id
    next hveto =>
      refine h.goOn (h id _ hp) fun current left' hphase doc hdoc => ?_
      cases hphase
      rw [hdoc, Bool.not_eq_true] at hveto
      exact hveto
  · exact h

theorem Sound.store {accepts : Bool} : Sound c key (store w id accepts) := by
  rw [Replica.store]
  split
  next value incoming now current left hp =>
    split
    · exact Table.All.erase h id
    · exact h.goOn (h id _ hp) nofun
  · exact h

theorem Sound.recheck : Sound c key (recheck w id) := by
  rw [Replica.recheck]
  split
  next value incoming now current left hp =>
    split
    · exact h.finish id
    · exact h.goOn (h id _ hp) nofun
  · exact h

end

theorem pending_storeOther {via : Via} {value : List UInt8} {accepts : Bool} :
    (storeOther sample w via value accepts).pending = w.pending := by
  unfold storeOther
  split
  · rfl
  · cases via with
    | store => rfl
    | mirror => dsimp only; split <;> rfl

theorem Sound.step (h : Sound c key w) (e : Event) : Sound c key (step c sample key w e) := by
  cases e with
  | call id via value now accepts =>
    rw [Replica.step]
    split
    · exact h.beginCall
    · rwa [Sound, pending_storeOther]
  | read id => exact h.read
  | store id accepts => exact h.store
  | recheck id => exact h.recheck

/-! ### Replacing a document -/

/-- A document that belongs under the key, with its bindings in order. -/
structure Verified (c : Crypto) (key : NodeId) (bytes : List UInt8) (d : IdentityDocument) :
    Prop where
  decodes : IdentityDocument.decode bytes = .ok d
  place : c.dhtKey d.nodeId = key
  bound : Bound c d

/-- The windows of the document that is held contain the time at which a call would look at it. -/
def Heard (c : Crypto) (w : World) (p : Pending) : Prop :=
  ∀ bytes ∈ w.held, ∀ d ∈ (IdentityDocument.decode bytes).toOption,
    (verifyIdentityDocumentBindings c d).isOk = true →
      InWindow d (earlier p.now d.validUntilUnix)

instance (w : World) (p : Pending) : Decidable (Heard c w p) :=
  inferInstanceAs (Decidable (∀ bytes ∈ w.held, _))

/-- **The condition**: only identity documents are stored under the key, and where a call stores,
the windows of the document that is held let it speak. -/
def Covered (c : Crypto) (w : World) : Event → Prop
  | .call _ _ value _ _ => value.take 2 = identityDocumentMagic
  | .store id _ => ∀ p ∈ w.pending.lookup id, Heard c w p
  | _ => True

instance (w : World) (e : Event) : Decidable (Covered c w e) := by
  cases e <;> unfold Covered <;> infer_instance

/-- What is held changes only where a call stores what it let the old document speak about. -/
theorem stored_of_held_ne {e : Event} (hcovered : Covered c w e)
    (hne : (step c sample key w e).held ≠ w.held) :
    ∃ id accepts p left, e = .store id accepts ∧ w.pending.lookup id = some p ∧
      p.phase = .storing w.held left ∧ (step c sample key w e).held = some p.value := by
  cases e with
  | call id via value now accepts =>
    refine absurd ?_ hne
    have hmagic : value.take 2 = identityDocumentMagic := hcovered
    rw [step, if_pos hmagic, beginCall]
    split
    · rfl
    · split <;> rfl
  | read id =>
    refine absurd ?_ hne
    rw [step, read]
    split
    · split <;> rfl
    · rfl
  | store id accepts =>
    rw [step, store] at hne ⊢
    split at hne
    next value incoming now current left hp =>
      split at hne
      next hsame =>
        refine ⟨id, accepts, _, left, rfl, hp, ?_, ?_⟩
        · rw [hsame.1]
        · rw [if_pos hsame]
      · exact absurd rfl hne
    · exact absurd rfl hne
  | recheck id =>
    refine absurd ?_ hne
    rw [step, recheck]
    split
    · split <;> rfl
    · rfl

/-- The document that is held is the one that has a say. -/
theorem previous_eq_some (hinjective : ∀ a b, c.dhtKey a = c.dhtKey b → a = b)
    (hp : p.Sound c key) (hheard : Heard c w p) {bytes : List UInt8} {d : IdentityDocument}
    (hheld : w.held = some bytes) (hverified : Verified c key bytes d) :
    previous c w.held p.incoming p.now = some d := by
  have hid : d.nodeId = p.incoming.nodeId :=
    hinjective _ _ (hverified.place.trans hp.place.symm)
  have hok : (verifyIdentityDocument c d (earlier p.now d.validUntilUnix)).isOk = true :=
    isOk_verifyIdentityDocument.mpr
      ⟨hverified.bound, hheard bytes hheld d (by rw [hverified.decodes]; rfl)
        (isOk_verifyIdentityDocumentBindings.mpr hverified.bound)⟩
  rw [hheld, previous, hverified.decodes]
  dsimp only
  rw [if_pos ⟨hid, hok⟩]

/-- **A stale document does not erase a revocation**, in every run whose steps all meet the
condition: a document that takes the place of another revokes at least as much and is not older, and
what is stored verified at the reading of the clock of its call. -/
theorem revocations_survive (c : Crypto)
    (sample : Option (List UInt8) → List UInt8 → Option (List UInt8)) (key : NodeId)
    (hinjective : ∀ a b, c.dhtKey a = c.dhtKey b → a = b) (held : Option (List UInt8))
    (events : List Event) (e : Event)
    (halong : Run.Along (step c sample key) (Covered c) ⟨held, ∅⟩ (events ++ [e])) :
    let w := events.foldl (step c sample key) ⟨held, ∅⟩
    let w' := step c sample key w e
    (∀ old new d, w.held = some old → Verified c key old d → w'.held = some new → new ≠ old →
      ∃ d', Verified c key new d' ∧ (∀ device, d.Revokes device → d'.Revokes device) ∧
        d.issuedAtUnix ≤ d'.issuedAtUnix) ∧
    (w'.held ≠ w.held → ∃ id p, w.pending.lookup id = some p ∧ w'.held = some p.value ∧
      decode p.value = .ok p.incoming ∧
      (verifyIdentityDocument c p.incoming p.now).isOk = true) := by
  obtain ⟨hrun, hlast⟩ := Run.along_append.mp halong
  have hcovered := hlast.1
  have hsound : Sound c key (events.foldl (step c sample key) ⟨held, ∅⟩) :=
    Run.invariant (P := Sound c key) (fun _ e h => h.step e) (sound_idle held) events
  intro w₁ w'
  refine ⟨fun old new d hold hverified hnew hne => ?_, fun hne => ?_⟩
  · have hchange : w'.held ≠ w₁.held := by
      rw [hold, hnew]
      exact fun h => hne (some.inj h)
    obtain ⟨id, accepts, p, left, rfl, hp, hphase, hstored⟩ := stored_of_held_ne hcovered hchange
    have hpsound := hsound id p hp
    have hprevious := previous_eq_some hinjective hpsound (hcovered p hp) hold hverified
    obtain ⟨hissued, hrevokes⟩ :=
      of_vetoes_eq_false (hpsound.heard _ left hphase d hprevious)
    obtain rfl := some.inj (hnew.symm.trans hstored)
    have hbound := (isOk_verifyIdentityDocument.mp hpsound.verifies).1
    exact ⟨p.incoming, ⟨hpsound.decodes, hpsound.place, hbound⟩, hrevokes, hissued⟩
  · obtain ⟨id, accepts, p, left, -, hp, -, hstored⟩ := stored_of_held_ne hcovered hne
    have hpsound := hsound id p hp
    exact ⟨id, p, hp, hstored, hpsound.decodes, hpsound.verifies⟩

/-! ### The key that ran out -/

/-- A day, in seconds. -/
def day : UInt64 := 86400

/-- The document of the second device, valid for twenty days; its key is for seven, and the third
device is revoked. -/
def revokingDocument : IdentityDocument :=
  sampleDocument (100 * day) (120 * day) 2 [sampleKey 2 (107 * day)] [sampleTombstone 3]

/-- The same a day later. -/
def refreshedDocument : IdentityDocument :=
  sampleDocument (101 * day) (120 * day) 2 [sampleKey 2 (107 * day)] [sampleTombstone 3]

/-- An older document, of the third device. -/
def staleDocument : IdentityDocument :=
  sampleDocument (99 * day) (119 * day) 3 [sampleKey 3 (119 * day)] []

def sampleKeyPlace : NodeId := sampleCrypto.dhtKey sampleNodeId

/-- A document is stored, and another is about to be, within the hour that a value is kept. -/
def storeBoth (first second : IdentityDocument) (before later : UInt64) : List Event :=
  [.call 0 .store first.encode before true, .read 0, .store 0 true,
    .call 1 .store second.encode later true, .read 1]

def sampleStep : World → Event → World := step sampleCrypto (fun held _ => held) sampleKeyPlace

theorem dhtKey_sampleCrypto_injective (a b : NodeId)
    (h : sampleCrypto.dhtKey a = sampleCrypto.dhtKey b) : a = b := by
  have hhead : ∀ id : NodeId, (sampleCrypto.dhtKey id).1 = id.1.reverse := fun id => by
    change ((Text.bytes "veil.identity_dht.v1" ++ id.1).reverse ++ replicate 32 0).take 32 = _
    rw [reverse_append, append_assoc, take_left' (by rw [length_reverse, id.2])]
  refine Subtype.ext (reverse_injective ?_)
  rw [← hhead a, ← hhead b, h]

theorem revocations_survive_sample :
    ∃ d', Verified sampleCrypto sampleKeyPlace refreshedDocument.encode d' ∧
      ∀ device, revokingDocument.Revokes device → d'.Revokes device := by
  have hrun : Run.Along sampleStep (Covered sampleCrypto) ⟨none, ∅⟩
      (storeBoth revokingDocument refreshedDocument (101 * day - 600) (101 * day) ++
        [.store 1 true]) := by
    decide +kernel
  obtain ⟨hreplace, -⟩ := revocations_survive sampleCrypto (fun held _ => held) sampleKeyPlace
    dhtKey_sampleCrypto_injective none _ _ hrun
  have hold : decode revokingDocument.encode = .ok revokingDocument := by
    decide +kernel
  have hbound : (verifyIdentityDocumentBindings sampleCrypto revokingDocument).isOk = true := by
    decide +kernel
  obtain ⟨d', hverified, hrevokes, -⟩ := hreplace revokingDocument.encode
    refreshedDocument.encode revokingDocument (by decide +kernel)
    ⟨hold, rfl, isOk_verifyIdentityDocumentBindings.mp hbound⟩ (by decide +kernel)
    (by decide +kernel)
  exact ⟨d', hverified, hrevokes⟩

/-- **An older document erases a revocation**: on the seventh day, ten minutes after the document
was stored anew, the key that signed it is past its window, and the revoked device stores its own
document again. -/
theorem stale_document_erases_revocation :
    let w := (storeBoth revokingDocument staleDocument (107 * day - 300)
      (107 * day + 300)).foldl sampleStep ⟨none, ∅⟩
    w.held = some revokingDocument.encode ∧
      decode revokingDocument.encode = .ok revokingDocument ∧
      (verifyIdentityDocument sampleCrypto revokingDocument (107 * day - 300)).isOk = true ∧
      revokingDocument.Revokes (sampleDevice 3) ∧
      (sampleStep w (.store 1 true)).held = some staleDocument.encode ∧
      decode staleDocument.encode = .ok staleDocument ∧
      ¬staleDocument.Revokes (sampleDevice 3) ∧
      staleDocument.issuedAtUnix < revokingDocument.issuedAtUnix := by
  decide +kernel

end Replica

end VeilNetwork.Identity
