import VeilNetwork.Identity.Floor

/-!
# Revocations are kept

The rows of the floor over whole runs. An observation either leaves the rows, or touches one, or
installs a document that the old row of its identity does not veto, after giving up a row that
revokes nothing where the table is full. So the revocations are kept and no row goes back in time.
A restore builds a new table, but it is refused where a revocation would be lost.
-/

namespace VeilNetwork.Identity

open Option Table Bool

namespace FloorState

variable {c : Crypto} {path durable : Bool} {s s' s'' : FloorState} {doc : IdentityDocument}
  {digest peer : NodeId} {now : UInt64} {floor : Floor}

/-! ### Relations of tables -/

/-- **The revocations are kept.** -/
def Keeps (s s' : FloorState) : Prop :=
  ∀ peer floor, s.rows.lookup peer = some floor → ∀ device, floor.document.Revokes device →
    ∃ floor', s'.rows.lookup peer = some floor' ∧ floor'.document.Revokes device

/-- **No row goes back in time.** -/
def Forward (s s' : FloorState) : Prop :=
  ∀ peer floor floor', s.rows.lookup peer = some floor → s'.rows.lookup peer = some floor' →
    floor.document.issuedAtUnix ≤ floor'.document.issuedAtUnix

/-- The rows are under their own keys, and not too many. -/
structure Sound (s : FloorState) : Prop where
  size : s.rows.size ≤ maxPeerMlkemCache
  keyed : s.rows.All fun peer floor => floor.document.nodeId = peer

theorem Keeps.refl (s : FloorState) : Keeps s s :=
  fun _ floor hfloor _ hdevice => ⟨floor, hfloor, hdevice⟩

theorem Keeps.trans (h : Keeps s s') (h' : Keeps s' s'') : Keeps s s'' := by
  intro peer floor hfloor device hdevice
  obtain ⟨floor', hfloor', hdevice'⟩ := h peer floor hfloor device hdevice
  exact h' peer floor' hfloor' device hdevice'

theorem Forward.refl (s : FloorState) : Forward s s := by
  intro peer floor floor' hfloor hfloor'
  obtain rfl := some.inj (hfloor.symm.trans hfloor')
  exact UInt64.le_refl _

/-! ### One observation -/

@[simp] theorem rows_flush : (s.flush path durable).rows = s.rows := by
  rw [flush]
  split <;> rfl

/-- What is given up revokes nothing. -/
theorem lookup_victim (h : s.victim = some peer) :
    ∃ floor, s.rows.lookup peer = some floor ∧ floor.document.revokedDevices = [] := by
  obtain ⟨e, he, rfl⟩ := map_eq_some_iff.mp h
  obtain ⟨hmem, hspare⟩ := List.mem_filter.mp (List.minOn?_mem he)
  rw [spare, and_eq_true, decide_eq_true_iff] at hspare
  exact ⟨e.2, lookup_eq_some_iff.mpr hmem, hspare.1⟩

theorem makeRoom_cases (h : s.makeRoom peer = some s') :
    s' = s ∧ (s.rows.lookup peer = none → s.rows.size < maxPeerMlkemCache) ∨
    ∃ victim floor, s.rows.lookup peer = none ∧ s.rows.lookup victim = some floor ∧
      floor.document.revokedDevices = [] ∧ s' = { s with rows := s.rows.erase victim } := by
  rw [makeRoom] at h
  split at h
  next hfull =>
    obtain ⟨victim, hvictim, rfl⟩ := map_eq_some_iff.mp h
    obtain ⟨floor, hfloor, hempty⟩ := lookup_victim hvictim
    exact .inr ⟨victim, floor, hfull.1, hfloor, hempty, rfl⟩
  next hroom =>
    refine .inl ⟨(some.inj h).symm, fun hnone => ?_⟩
    exact not_le.mp fun hle => hroom ⟨hnone, hle⟩

variable (c path durable s doc now) in
/-- **What an observation does** to the table. -/
theorem observeLocked_cases :
    (s.observeLocked c path durable doc now).2 = s ∨
    (s.observeLocked c path durable doc now).2 = (s.touch doc.nodeId).flush path durable ∨
    ∃ s' digest, s.makeRoom doc.nodeId = some s' ∧
      (∀ floor, s.rows.lookup doc.nodeId = some floor → floor.document.vetoes doc = false) ∧
      (s.observeLocked c path durable doc now).2 = (s'.install doc digest).flush path durable := by
  rw [observeLocked]
  split
  · exact .inl rfl
  dsimp only
  split
  · exact .inl rfl
  next hveto =>
  split
  · exact .inr (.inl rfl)
  split
  · exact .inl rfl
  generalize hroom : s.makeRoom doc.nodeId = out
  rcases out with _ | s'
  · exact .inl rfl
  · refine .inr (.inr ⟨s', c.hash doc.encode, rfl, fun floor hfloor => ?_, rfl⟩)
    rw [hfloor, not_eq_true] at hveto
    exact hveto

/-! ### Touching a row -/

/-- The two tables hold the same documents. -/
def SameDocuments (s s' : FloorState) : Prop :=
  ∀ peer, (s'.rows.lookup peer).map Floor.document = (s.rows.lookup peer).map Floor.document

section

variable (h : SameDocuments s s')

include h

theorem SameDocuments.exists (hfloor : s.rows.lookup peer = some floor) :
    ∃ floor', s'.rows.lookup peer = some floor' ∧ floor'.document = floor.document := by
  have hsame := h peer
  rw [hfloor] at hsame
  exact map_eq_some_iff.mp hsame

theorem SameDocuments.symm : SameDocuments s' s :=
  fun peer => (h peer).symm

theorem SameDocuments.keeps : Keeps s s' := by
  intro peer floor hfloor device hdevice
  obtain ⟨floor', hfloor', heq⟩ := h.exists hfloor
  exact ⟨floor', hfloor', heq ▸ hdevice⟩

theorem SameDocuments.forward : Forward s s' := by
  intro peer floor floor' hfloor hfloor'
  obtain ⟨floor'', hfloor'', heq⟩ := h.exists hfloor
  obtain rfl := some.inj (hfloor'.symm.trans hfloor'')
  rw [heq]
  exact UInt64.le_refl _

theorem SameDocuments.sound (hsound : Sound s) : Sound s' := by
  refine ⟨(size_le_of_isSome fun peer hpeer => ?_).trans hsound.size,
    fun peer floor hfloor => ?_⟩
  · obtain ⟨floor, hfloor⟩ := isSome_iff_exists.mp hpeer
    obtain ⟨floor', hfloor', -⟩ := h.symm.exists hfloor
    exact isSome_iff_exists.mpr ⟨floor', hfloor'⟩
  · obtain ⟨floor', hfloor', heq⟩ := h.symm.exists hfloor
    rw [← heq]
    exact hsound.keyed peer floor' hfloor'

end

theorem sameDocuments_touch (peer : NodeId) : SameDocuments s (s.touch peer) := by
  intro k
  rw [touch]
  rw [lookup_modify]
  split
  next hk => rw [hk, map_map]; rfl
  · rfl

/-! ### Installing a document -/

theorem Sound.makeRoom (h : Sound s) (hroom : s.makeRoom peer = some s') :
    Sound s' ∧ (s'.rows.lookup peer = none → s'.rows.size < maxPeerMlkemCache) := by
  rcases makeRoom_cases hroom with ⟨rfl, hsize⟩ | ⟨victim, floor, hnone, hvictim, -, rfl⟩
  · exact ⟨h, hsize⟩
  · have herase := size_erase_of_lookup_eq_some hvictim
    have hsize := h.size
    refine ⟨⟨?_, h.keyed.erase victim⟩, fun _ => ?_⟩
    all_goals dsimp only; omega

/-- Making room takes nothing from the identity it is made for, and no revocation. -/
theorem lookup_makeRoom (hroom : s.makeRoom peer = some s') {k : NodeId}
    (hfloor : s.rows.lookup k = some floor) :
    s'.rows.lookup k = some floor ∨ k ≠ peer ∧ floor.document.revokedDevices = [] := by
  rcases makeRoom_cases hroom with ⟨rfl, -⟩ | ⟨victim, floor', hnone, hvictim, hempty, rfl⟩
  · exact .inl hfloor
  by_cases hk : k = victim
  · obtain rfl := hk
    obtain rfl := some.inj (hfloor.symm.trans hvictim)
    refine .inr ⟨?_, hempty⟩
    rintro rfl
    rw [hnone] at hfloor
    cases hfloor
  · refine .inl ?_
    rw [AList.lookup_erase_ne hk, hfloor]

theorem lookup_of_makeRoom (hroom : s.makeRoom peer = some s') {k : NodeId}
    (hfloor : s'.rows.lookup k = some floor) : s.rows.lookup k = some floor := by
  rcases makeRoom_cases hroom with ⟨rfl, -⟩ | ⟨victim, floor', -, -, -, rfl⟩
  · exact hfloor
  · exact (lookup_erase_eq_some hfloor).2

variable (s doc) in
theorem lookup_install (digest k : NodeId) :
    ((s.install doc digest).rows.lookup k).map Floor.document =
      if k = doc.nodeId then some doc else (s.rows.lookup k).map Floor.document := by
  rw [install]
  rw [lookup_insert_eq_ite]
  split <;> rfl

variable (hroom : s.makeRoom doc.nodeId = some s')
  (hveto : ∀ floor, s.rows.lookup doc.nodeId = some floor → floor.document.vetoes doc = false)

include hroom hveto

theorem keeps_install : Keeps s (s'.install doc digest) := by
  intro peer floor hfloor device hdevice
  have hlookup := lookup_install s' doc digest peer
  by_cases hpeer : peer = doc.nodeId
  · rw [if_pos hpeer] at hlookup
    obtain ⟨floor', hfloor', heq⟩ := map_eq_some_iff.mp hlookup
    refine ⟨floor', hfloor', heq ▸ ?_⟩
    exact (IdentityDocument.of_vetoes_eq_false (hveto floor (hpeer ▸ hfloor))).2 device hdevice
  · rw [if_neg hpeer] at hlookup
    rcases lookup_makeRoom hroom hfloor with hkept | ⟨-, hempty⟩
    · rw [hkept] at hlookup
      obtain ⟨floor', hfloor', heq⟩ := map_eq_some_iff.mp hlookup
      exact ⟨floor', hfloor', heq ▸ hdevice⟩
    · obtain ⟨r, hr, -⟩ := hdevice
      rw [hempty] at hr
      cases hr

theorem forward_install : Forward s (s'.install doc digest) := by
  intro peer floor floor' hfloor hfloor'
  have hlookup := lookup_install s' doc digest peer
  rw [hfloor'] at hlookup
  by_cases hpeer : peer = doc.nodeId
  · rw [if_pos hpeer] at hlookup
    rw [some.inj hlookup]
    exact (IdentityDocument.of_vetoes_eq_false (hveto floor (hpeer ▸ hfloor))).1
  · rw [if_neg hpeer] at hlookup
    obtain ⟨old, hold, heq⟩ := map_eq_some_iff.mp hlookup.symm
    obtain rfl := some.inj (hfloor.symm.trans (lookup_of_makeRoom hroom hold))
    rw [heq]
    exact UInt64.le_refl _

omit hveto in
theorem Sound.install (h : Sound s) : Sound (s'.install doc digest) := by
  obtain ⟨hsound, hsize⟩ := h.makeRoom hroom
  refine ⟨?_, fun peer floor hfloor => ?_⟩
  · rw [FloorState.install]
    cases hlookup : s'.rows.lookup doc.nodeId with
    | none =>
      rw [size_insert_of_lookup_eq_none hlookup]
      exact hsize hlookup
    | some old =>
      rw [size_insert_of_lookup_eq_some hlookup]
      exact hsound.size
  · change floor.document.nodeId = peer
    have hlookup := lookup_install s' doc digest peer
    rw [hfloor] at hlookup
    split at hlookup
    next hpeer => rw [some.inj hlookup, hpeer]
    · obtain ⟨old, hold, heq⟩ := map_eq_some_iff.mp hlookup.symm
      rw [← heq]
      exact hsound.keyed peer old hold

omit hroom hveto

/-! ### An observation, as a whole -/

theorem keeps_flush : Keeps s (s.flush path durable) := by
  intro peer floor hfloor device hdevice
  exact ⟨floor, by rwa [rows_flush], hdevice⟩

theorem Keeps.flush (h : Keeps s s') : Keeps s (s'.flush path durable) := h.trans keeps_flush

theorem Forward.flush (h : Forward s s') : Forward s (s'.flush path durable) := by
  intro peer floor floor' hfloor hfloor'
  rw [rows_flush] at hfloor'
  exact h peer floor floor' hfloor hfloor'

theorem Sound.flush (h : Sound s) : Sound (s.flush path durable) := by
  refine ⟨?_, ?_⟩
  · rw [rows_flush]
    exact h.size
  · rw [rows_flush]
    exact h.keyed

variable (c path durable s doc now) in
/-- **An observation keeps the revocations**, takes no row back in time and keeps the table in
order. -/
theorem observeLocked_spec :
    Keeps s (s.observeLocked c path durable doc now).2 ∧
      Forward s (s.observeLocked c path durable doc now).2 ∧
      (Sound s → Sound (s.observeLocked c path durable doc now).2) := by
  rcases observeLocked_cases c path durable s doc now with
    heq | heq | ⟨s', digest, hroom, hveto, heq⟩
  · rw [heq]
    exact ⟨.refl s, Forward.refl s, id⟩
  · have hsame : SameDocuments s (s.touch doc.nodeId) := sameDocuments_touch doc.nodeId
    rw [heq]
    exact ⟨hsame.keeps.flush, hsame.forward.flush, fun h => (hsame.sound h).flush⟩
  · rw [heq]
    exact ⟨(keeps_install hroom hveto).flush, (forward_install hroom hveto).flush,
      fun h => (h.install hroom).flush⟩

end FloorState

namespace IdentityDocumentFloor

open FloorState (Keeps Forward Sound)

variable {c : Crypto} {fmt : HostFormat} {s s' : FloorState} {f f' : IdentityDocumentFloor}
  {now : UInt64}

/-! ### Rows from a snapshot -/

/-- The table has room for so many rows more. -/
structure Filling (n : ℕ) (s : FloorState) : Prop where
  size : s.rows.size + n ≤ maxPeerMlkemCache
  keyed : s.rows.All fun peer floor => floor.document.nodeId = peer

variable {n : ℕ}

theorem Filling.sound (h : Filling n s) : Sound s :=
  ⟨(Nat.le_add_right _ _).trans h.size, h.keyed⟩

theorem filling_default (hn : n ≤ maxPeerMlkemCache) : Filling n .default :=
  ⟨by rwa [show FloorState.default.rows.size = 0 from rfl, zero_add], Table.All.empty⟩

theorem Filling.restoreRow (h : Filling (n + 1) s) {document : IdentityDocument}
    (hnew : ¬(s.rows.lookup document.nodeId).isSome = true) (bytes : List UInt8) :
    Filling n (restoreRow c s document bytes) := by
  rw [not_eq_true, isSome_eq_false_iff, isNone_iff_eq_none] at hnew
  have hsize := h.size
  refine ⟨?_, h.keyed.insert rfl⟩
  rw [IdentityDocumentFloor.restoreRow]
  rw [size_insert_of_lookup_eq_none hnew]
  omega

theorem Filling.restoreEntry (h : Filling (n + 1) s) {entry : HostEntry}
    (hok : restoreEntry c fmt s entry = .ok s') : Filling n s' := by
  rw [IdentityDocumentFloor.restoreEntry] at hok
  iterate 5 (split at hok; · cases hok)
  next hnew =>
  cases hok
  exact h.restoreRow hnew _

theorem Filling.restoreEntries {entries : List HostEntry} (h : Filling entries.length s)
    (hok : restoreEntries c fmt s entries = .ok s') : Sound s' := by
  induction entries generalizing s with
  | nil =>
    cases hok
    exact h.sound
  | cons entry entries ih =>
    rw [IdentityDocumentFloor.restoreEntries] at hok
    split at hok
    · cases hok
    next hentry => exact ih (h.restoreEntry hentry) hok

theorem Filling.loadRow (h : Filling (n + 1) s) {encoded : String}
    (hok : loadRow c fmt s encoded = some s') : Filling n s' := by
  rw [IdentityDocumentFloor.loadRow] at hok
  iterate 5 (split at hok; · cases hok)
  next hnew =>
  cases hok
  exact h.restoreRow hnew _

theorem Filling.loadRows {rows : List String} (h : Filling rows.length s) :
    Sound (loadRows c fmt s rows) := by
  induction rows generalizing s with
  | nil => exact h.sound
  | cons encoded rows ih =>
    rw [IdentityDocumentFloor.loadRows]
    split
    · exact ⟨h.sound.size, h.sound.keyed⟩
    next hrow => exact ih (h.loadRow hrow)

theorem sound_default : Sound .default := (filling_default (Nat.zero_le _)).sound

theorem sound_loadFile (file : RowsFile) : Sound (loadFile c fmt file) := by
  cases file with
  | missing => exact sound_default
  | unreadable => exact ⟨sound_default.size, sound_default.keyed⟩
  | rows encoded =>
    rw [loadFile]
    split
    · exact ⟨sound_default.size, sound_default.keyed⟩
    next hle => exact (filling_default (not_lt.mp hle)).loadRows

/-! ### A restore -/

theorem sound_replay (h : Sound s) (docs : List IdentityDocument) : Sound (replay c s docs now) :=
  Run.invariant (fun s doc h => (FloorState.observeLocked_spec c false false s doc now).2.2 h)
    h docs

variable {floor : Floor} {peer : NodeId}

theorem mem_transient (h : s.rows.lookup peer = some floor) :
    floor.document ∈ transient s :=
  List.mem_map.mpr ⟨⟨peer, floor⟩, lookup_eq_some_iff.mp h, rfl⟩

/-- A table that no known document speaks against has all known revocations. -/
theorem keeps_of_forgetsRow (hsound : Sound s)
    (h : ¬(transient s).any (forgetsRow s') = true) : Keeps s s' := by
  intro peer floor hfloor device hdevice
  obtain ⟨revoked, hmem, rfl⟩ := hdevice
  rw [not_eq_true, List.any_eq_false] at h
  have hrow := h floor.document (mem_transient hfloor)
  rw [not_eq_true, forgetsRow, List.any_eq_false] at hrow
  have hany := hrow revoked hmem
  rw [not_eq_true, not_eq_false', hsound.keyed peer floor hfloor] at hany
  cases hlookup : s'.rows.lookup peer with
  | none =>
    rw [hlookup] at hany
    cases hany
  | some floor' =>
    rw [hlookup, any_some, List.any_eq_true] at hany
    obtain ⟨r, hr, heq⟩ := hany
    exact ⟨floor', rfl, r, hr, of_decide_eq_true heq⟩

/-- **A restore keeps the revocations.** -/
theorem importHost_spec {bytes : List UInt8} (hsound : Sound f.state)
    (h : importHost c fmt f bytes now = .ok f') : Keeps f.state f'.state ∧ Sound f'.state := by
  rw [importHost] at h
  iterate 3 (split at h; · cases h)
  next snapshot _ =>
  split at h
  · cases h
  next hcount =>
  split at h
  · cases h
  next baseline hbaseline =>
  iterate 2 (split at h; · cases h)
  next hforgets =>
  cases h
  have hsmall : snapshot.entries.length ≤ maxPeerMlkemCache :=
    not_lt.mp (not_or.mp hcount).2
  have hbase := (filling_default hsmall).restoreEntries hbaseline
  refine ⟨keeps_of_forgetsRow hsound hforgets, sound_replay ⟨?_, ?_⟩ _⟩
  · exact hbase.size
  · exact hbase.keyed

/-! ### Runs -/

/-- How a floor is made. -/
inductive Start where
  | ephemeral
  | load (file : RowsFile)

variable (c fmt) in
def Start.make : Start → IdentityDocumentFloor
  | .ephemeral => IdentityDocumentFloor.ephemeral
  | .load file => IdentityDocumentFloor.load c fmt file

/-- The calls that change the table, with the time of those that read the clock. An export only
reads it. -/
inductive Call where
  | observe (doc : IdentityDocument) (now : UInt64) (durable : Bool)
  | importHost (bytes : List UInt8) (now : UInt64)
  | acknowledgeHost (revision : ℕ)

/-- A call that is refused changes nothing. -/
def orElse (f : IdentityDocumentFloor) :
    Except String IdentityDocumentFloor → IdentityDocumentFloor
  | .ok f' => f'
  | .error _ => f

variable (c fmt) in
/-- One call. -/
def step (f : IdentityDocumentFloor) : Call → IdentityDocumentFloor
  | .observe doc now durable => (f.observe c doc now durable).2
  | .importHost bytes now => f.orElse (f.importHost c fmt bytes now)
  | .acknowledgeHost revision => f.orElse (f.acknowledgeHost revision)

/-- The call is no restore. -/
def Call.Ordinary : Call → Prop
  | .importHost _ _ => False
  | _ => True

theorem rows_acknowledgeHost (revision : ℕ) :
    (f.orElse (f.acknowledgeHost revision)).state.rows = f.state.rows := by
  rw [acknowledgeHost]
  split <;> rfl

theorem keeps_of_rows_eq (h : s'.rows = s.rows) : Keeps s s' :=
  fun _ floor hfloor _ hdevice => ⟨floor, h ▸ hfloor, hdevice⟩

variable (c fmt) in
/-- **What one call preserves.** -/
theorem step_spec (hsound : Sound f.state) (call : Call) :
    Keeps f.state (step c fmt f call).state ∧
      (call.Ordinary → Forward f.state (step c fmt f call).state) ∧
      Sound (step c fmt f call).state := by
  cases call with
  | observe doc now durable =>
    obtain ⟨hkeeps, hforward, hafter⟩ :=
      FloorState.observeLocked_spec c f.path durable f.state doc now
    exact ⟨hkeeps, fun _ => hforward, hafter hsound⟩
  | importHost bytes now =>
    rw [step]
    cases h : f.importHost c fmt bytes now with
    | error e => exact ⟨.refl _, fun h => h.elim, hsound⟩
    | ok f' =>
      obtain ⟨hkeeps, hafter⟩ := importHost_spec hsound h
      exact ⟨hkeeps, fun h => h.elim, hafter⟩
  | acknowledgeHost revision =>
    have hrows := rows_acknowledgeHost (f := f) revision
    rw [step]
    refine ⟨keeps_of_rows_eq hrows, fun _ => ?_, ?_, ?_⟩
    · intro peer floor floor' hfloor hfloor'
      rw [hrows] at hfloor'
      exact Forward.refl f.state peer floor floor' hfloor hfloor'
    · rw [hrows]
      exact hsound.size
    · rw [hrows]
      exact hsound.keyed

theorem sound_start (start : Start) : Sound (start.make c fmt).state := by
  cases start with
  | ephemeral => exact sound_default
  | load file => exact ⟨(sound_loadFile file).size, (sound_loadFile file).keyed⟩

variable (c fmt) in
theorem sound_of_run (start : Start) (calls : List Call) :
    Sound (calls.foldl (step c fmt) (start.make c fmt)).state :=
  Run.invariant (P := fun f : IdentityDocumentFloor => Sound f.state)
    (fun _ call h => (step_spec c fmt h call).2.2) (sound_start start) calls

theorem keeps_of_run (hsound : Sound f.state) (calls : List Call) :
    Keeps f.state (calls.foldl (step c fmt) f).state := by
  induction calls generalizing f with
  | nil => exact .refl _
  | cons call calls ih =>
    obtain ⟨hkeeps, -, hafter⟩ := step_spec c fmt hsound call
    exact hkeeps.trans (ih hafter)

/-! ### What is refused -/

variable {device : NodeId}

theorem rowAllows_of_revokes
    (h : floor.document.Revokes device) : rowAllows s floor device now = false := by
  have hany : (floor.document.revokedDevices.any fun r => decide (r.deviceId = device)) = true := by
    obtain ⟨r, hr, heq⟩ := h
    exact List.any_eq_true.mpr ⟨r, hr, decide_eq_true heq⟩
  rw [rowAllows, hany, Bool.not_true, Bool.false_and, Bool.and_false]

theorem not_allowsCert
    (hfloor : f.state.rows.lookup peer = some floor) (h : floor.document.Revokes device) :
    f.allowsCert peer (some device) now = false := by
  rw [allowsCert, hfloor]
  split
  · rfl
  · exact rowAllows_of_revokes h

theorem not_allowsDeviceProof
    (hfloor : f.state.rows.lookup peer = some floor) (h : floor.document.Revokes device) :
    f.allowsDeviceProof peer device now = false := by
  rw [allowsDeviceProof, hfloor]
  split
  · rfl
  · exact rowAllows_of_revokes h

/-- **A node never forgets a revocation it has accepted**, whatever is observed, restored or
acknowledged later, and whatever the clock; and its rows do not go back in time and stay within
their bound. -/
theorem revocations_kept (c : Crypto) (fmt : HostFormat) (start : Start) (calls : List Call) :
    let before := calls.foldl (step c fmt) (start.make c fmt)
    (∀ peer floor device, before.state.rows.lookup peer = some floor →
      floor.document.Revokes device → ∀ more : List Call,
        let after := more.foldl (step c fmt) before
        (∃ floor', after.state.rows.lookup peer = some floor' ∧
          floor'.document.Revokes device) ∧
        ∀ now, after.allowsCert peer (some device) now = false ∧
          after.allowsDeviceProof peer device now = false) ∧
    (∀ call : Call, call.Ordinary → ∀ peer floor floor',
      before.state.rows.lookup peer = some floor →
      (step c fmt before call).state.rows.lookup peer = some floor' →
      floor.document.issuedAtUnix ≤ floor'.document.issuedAtUnix) ∧
    before.state.rows.size ≤ maxPeerMlkemCache := by
  have hsound := sound_of_run c fmt start calls
  refine ⟨?_, fun call hordinary => ?_, hsound.size⟩
  · intro peer floor device hfloor hdevice more
    obtain ⟨floor', hfloor', hdevice'⟩ :=
      keeps_of_run hsound more peer floor hfloor device hdevice
    exact ⟨⟨floor', hfloor', hdevice'⟩, fun now =>
      ⟨not_allowsCert hfloor' hdevice', not_allowsDeviceProof hfloor' hdevice'⟩⟩
  · exact (step_spec c fmt hsound call).2.1 hordinary

end IdentityDocumentFloor

end VeilNetwork.Identity
