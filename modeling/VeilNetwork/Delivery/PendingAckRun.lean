import VeilNetwork.Delivery.PendingAck
import VeilNetwork.Lib.Run

/-!
# Acknowledged deliveries over a run

The books of the tracker are exact and within their limits after any sequence of calls, and every
registration has the life it should: it is sent again a bounded number of times, with consecutive
attempt numbers, and ends once, by an acknowledgement, by a registration that replaces it, or by
being given up after its last attempt (`PendingAckTracker.tracking_exact`).

What happens to the entries is noted as it happens (`Note`). The notes about one id are a run of a
small automaton whose state is the attempt the entry is at (`Note.Allowed`), and the lives are
read off that run.
-/

namespace VeilNetwork.Delivery

open List Option Table Nat Ledger

variable {entry : PendingEntry} {t : PendingAckTracker}

/-! ### What is noted about an id -/

/-- What can happen to an id. -/
inductive Note where
  | registered
  | retransmitted (attempt : ℕ)
  | acknowledged
  | failed
deriving DecidableEq

/-- The attempt the entry of an id is at, after a note. -/
def Note.next : Option ℕ → Note → Option ℕ
  | _, .registered => some 1
  | _, .retransmitted attempt => some attempt
  | _, .acknowledged => none
  | _, .failed => none

/-- What may be noted about an id whose entry is at an attempt, or that has no entry. -/
def Note.Allowed : Option ℕ → Note → Prop
  | _, .registered => True
  | some attempt, .retransmitted attempt' =>
    attempt' = attempt + 1 ∧ attempt < maxDeliveryAttempts
  | some _, .acknowledged => True
  | some attempt, .failed => attempt = maxDeliveryAttempts
  | none, _ => False

/-- Nothing happens to the id before it is registered. -/
def Idle (notes : List Note) : Prop := notes = [] ∨ ∃ later, notes = .registered :: later

/-- **The life of a registration** from an attempt on: it is sent again with consecutive attempt
numbers up to `maxDeliveryAttempts`, and then goes on, is replaced, is acknowledged, or fails, the
last only after the last attempt. After its end the id is idle. -/
def LifeFrom (attempt : ℕ) (after : List Note) : Prop :=
  ∃ n rest, after = (List.range' (attempt + 1) n).map .retransmitted ++ rest ∧
    attempt + n ≤ maxDeliveryAttempts ∧
    (Idle rest ∨ (∃ later, rest = .acknowledged :: later ∧ Idle later) ∨
      (∃ later, rest = .failed :: later ∧ Idle later ∧ attempt + n = maxDeliveryAttempts))

/-- The life of a registration, after it was entered with its first attempt. -/
def Life (after : List Note) : Prop := LifeFrom 1 after

section Notes

variable {notes : List Note} {attempt : ℕ}

theorem idle_of_along (h : Run.Along Note.next Note.Allowed none notes) : Idle notes := by
  match notes with
  | [] => exact .inl rfl
  | .registered :: later => exact .inr ⟨later, rfl⟩
  | .retransmitted _ :: _ | .acknowledged :: _ | .failed :: _ => exact h.1.elim

/-- What follows an attempt, by induction on the notes. -/
theorem lifeFrom_of_along (hattempt : attempt ≤ maxDeliveryAttempts)
    (h : Run.Along Note.next Note.Allowed (some attempt) notes) : LifeFrom attempt notes := by
  induction notes generalizing attempt with
  | nil => exact ⟨0, [], rfl, hattempt, .inl (.inl rfl)⟩
  | cons note later ih =>
    obtain ⟨hallowed, hlater⟩ := h
    cases note with
    | registered => exact ⟨0, _, rfl, hattempt, .inl (.inr ⟨later, rfl⟩)⟩
    | retransmitted attempt' =>
      obtain ⟨rfl, hmore⟩ := hallowed
      obtain ⟨n, rest, rfl, hn, hend⟩ := ih hmore hlater
      have hsum : attempt + (n + 1) = attempt + 1 + n := by omega
      refine ⟨n + 1, rest, ?_, hsum ▸ hn, hsum ▸ hend⟩
      rw [range'_succ, map_cons, cons_append]
    | acknowledged => exact ⟨0, _, rfl, hattempt, .inr (.inl ⟨later, rfl, idle_of_along hlater⟩)⟩
    | failed =>
      have hlast : attempt = maxDeliveryAttempts := hallowed
      exact ⟨0, _, rfl, hattempt, .inr (.inr ⟨later, rfl, idle_of_along hlater, hlast⟩)⟩

/-- **Every registration in a run of notes has its life.** -/
theorem life_of_along {before after : List Note}
    (h : Run.Along Note.next Note.Allowed none (before ++ .registered :: after)) : Life after :=
  lifeFrom_of_along (by decide) (Run.along_append.mp h).2.2

end Notes

namespace PendingAckTracker

variable {r : Registration} {id : Id32} {len total now : ℕ}

/-! ### The books -/

/-- **The books are exact**, and an entry is at one of the attempts allowed. -/
structure Exact (t : PendingAckTracker) : Prop where
  count : Ledger.Balanced (fun _ entry => some entry.dstNodeId) (fun _ _ => 1) t.perPeer t.pending
  bytes : Ledger.Balanced (fun _ entry => some entry.dstNodeId)
    (fun _ entry => entry.frameBytesLen) t.perPeerBytes t.pending
  total : t.totalBytes = t.pending.sum fun _ entry => entry.frameBytesLen
  entries : t.pending.All fun _ entry =>
    entry.frameBytesLen = (entry.frames.map List.length).sum ∧
      1 ≤ entry.attempts ∧ entry.attempts ≤ maxDeliveryAttempts

/-- **The limits are kept.** -/
structure Within (t : PendingAckTracker) : Prop where
  entries : t.pending.size ≤ t.limits.entries
  count : ∀ peer, t.perPeer.balance peer ≤ t.limits.entriesPerPeer
  total : t.totalBytes ≤ t.limits.bytes
  bytes : ∀ peer, t.perPeerBytes.balance peer ≤ t.limits.bytesPerPeer

theorem exact_new (limits : TrackerLimits) : (new limits).Exact where
  count := Ledger.Balanced.empty
  bytes := Ledger.Balanced.empty
  total := rfl
  entries := Table.All.empty

theorem within_new (limits : TrackerLimits) : (new limits).Within where
  entries := zero_le _
  count := fun _ => (balance_empty).trans_le (zero_le _)
  total := zero_le _
  bytes := fun _ => (balance_empty).trans_le (zero_le _)

section

variable (hid : t.pending.lookup id = some entry)

include hid

/-- An entry leaves the tracker. -/
theorem Exact.release (h : t.Exact) :
    (t.release id entry).Exact where
  count := h.count.erase hid rfl
  bytes := h.bytes.erase hid rfl
  total := by
    have hsum := sum_erase_of_lookup_eq_some
      (fun (_ : Id32) (entry : PendingEntry) => entry.frameBytesLen) hid
    rw [PendingAckTracker.release, h.total]
    dsimp only at hsum ⊢
    omega
  entries := h.entries.erase id

theorem Within.release (h : t.Within) :
    (t.release id entry).Within where
  entries := (le_of_lt (size_lt_of_lookup
    (fun _ _ hk => (lookup_erase_eq_some hk).2) hid (AList.lookup_erase id _))).trans h.entries
  count := refund_le h.count
  total := (sub_le _ _).trans h.total
  bytes := refund_le h.bytes

/-- An entry changes, but neither its recipient nor its frames. -/
theorem Exact.replace {entry' : PendingEntry} (h : t.Exact)
    (hdst : entry'.dstNodeId = entry.dstNodeId) (hlen : entry'.frameBytesLen = entry.frameBytesLen)
    (hframes : entry'.frames = entry.frames)
    (hattempts : 1 ≤ entry'.attempts ∧ entry'.attempts ≤ maxDeliveryAttempts) :
    Exact { t with pending := t.pending.insert id entry' } where
  count := h.count.replace hid (congrArg some hdst) rfl
  bytes := h.bytes.replace hid (congrArg some hdst) hlen
  total := by
    have hsum := sum_insert_of_lookup_eq_some
      (fun (_ : Id32) (entry : PendingEntry) => entry.frameBytesLen) hid entry'
    dsimp only at hsum ⊢
    rw [h.total]
    omega
  entries := h.entries.insert ⟨by rw [hlen, hframes, (h.entries id entry hid).1], hattempts⟩

theorem Within.replace {entry' : PendingEntry} (h : t.Within) :
    Within { t with pending := t.pending.insert id entry' } where
  entries := (size_insert_of_lookup_eq_some hid _).trans_le h.entries
  count := h.count
  total := h.total
  bytes := h.bytes

end

/-! ### Admission -/

theorem guard_eq_some {p : Prop} [Decidable p] {u : Unit} :
    (guard p : Option Unit) = some u ↔ p := by
  by_cases hp : p
  · simp [hp]
  · simp [hp]

theorem checkedAdd_eq_some {a b c : ℕ} (h : checkedAdd a b = some c) : c = a + b := by
  rw [checkedAdd] at h
  split at h
  · exact (some.inj h).symm
  · cases h

theorem sum_of_framesLen {frames : List (List UInt8)} (h : framesLen frames = some len) :
    len = (frames.map List.length).sum := by
  have hfold : ∀ (frames : List (List UInt8)) (start : ℕ),
      frames.foldlM (fun sum frame => checkedAdd sum frame.length) start = some len →
      len = start + (frames.map length).sum := by
    intro frames
    induction frames with
    | nil =>
      intro start h
      exact (some.inj h).symm
    | cons frame frames ih =>
      intro start h
      obtain ⟨sum, hsum, h⟩ := bind_eq_some_iff.mp h
      rw [ih sum h, checkedAdd_eq_some hsum, map_cons, sum_cons, add_assoc]
  rw [hfold frames 0 h, zero_add]

/-- The bytes an admitted registration sets free at its own recipient. -/
def replacedHere (t : PendingAckTracker) (r : Registration) : ℕ :=
  if (t.pending.lookup r.contentId).map (·.dstNodeId) = some r.dstNodeId then
    ((t.pending.lookup r.contentId).map (·.frameBytesLen)).getD 0
  else 0

variable (t r len total) in
/-- **What an admitted registration has passed.** -/
structure Admitted : Prop where
  lenEq : len = (r.frames.map List.length).sum
  entries : t.pending.lookup r.contentId = none → t.pending.size < t.limits.entries
  count : (t.pending.lookup r.contentId).map (·.dstNodeId) ≠ some r.dstNodeId →
    t.perPeer.balance r.dstNodeId < t.limits.entriesPerPeer
  totalEq : total =
    t.totalBytes - ((t.pending.lookup r.contentId).map (·.frameBytesLen)).getD 0 + len
  totalFits : total ≤ t.limits.bytes
  bytes : t.perPeerBytes.balance r.dstNodeId - t.replacedHere r + len ≤ t.limits.bytesPerPeer

theorem admitted_of_admission (h : t.admission r = some (len, total)) : t.Admitted r len total := by
  obtain ⟨len', hlen, h⟩ := bind_eq_some_iff.mp h
  obtain ⟨_, hentries, h⟩ := bind_eq_some_iff.mp h
  obtain ⟨_, hcount, h⟩ := bind_eq_some_iff.mp h
  obtain ⟨total', htotal, h⟩ := bind_eq_some_iff.mp h
  obtain ⟨_, hfits, h⟩ := bind_eq_some_iff.mp h
  obtain ⟨peerBytes, hpeer, h⟩ := bind_eq_some_iff.mp h
  obtain ⟨_, hpeerFits, h⟩ := bind_eq_some_iff.mp h
  cases h
  have hentries := guard_eq_some.mp hentries
  have hcount := guard_eq_some.mp hcount
  exact
    { lenEq := sum_of_framesLen hlen
      entries := fun hnone => not_le.mp fun hle => hentries ⟨by rw [hnone]; rfl, hle⟩
      count := fun hne => not_le.mp fun hle => hcount ⟨hne, hle⟩
      totalEq := checkedAdd_eq_some htotal
      totalFits := guard_eq_some.mp hfits
      bytes := (checkedAdd_eq_some hpeer).symm.trans_le (guard_eq_some.mp hpeerFits) }

/-! ### Registration -/

theorem Exact.enter (h : t.Exact) (ha : t.Admitted r len total) (now : ℕ) :
    (t.enter r len total now).Exact where
  count := by
    rw [PendingAckTracker.enter]
    rcases hprior : t.pending.lookup r.contentId with _ | prev
    · exact h.count.insert hprior rfl
    · dsimp only [recount]
      split
      · exact h.count.supersede (b := r.entry len now) hprior rfl rfl
      next hsame => exact h.count.replace hprior (congrArg some (not_not.mp hsame).symm) rfl
  bytes := by
    rw [PendingAckTracker.enter]
    rcases hprior : t.pending.lookup r.contentId with _ | prev
    · exact h.bytes.insert (a := r.entry len now) hprior rfl
    · exact h.bytes.supersede (b := r.entry len now) hprior rfl rfl
  total := by
    have htotal := ha.totalEq
    have hnow := h.total
    rw [PendingAckTracker.enter]
    rcases hprior : t.pending.lookup r.contentId with _ | prev
    · rw [hprior] at htotal
      rw [sum_insert_of_lookup_eq_none _ hprior, Registration.entry]
      simp only [map_none, getD_none] at htotal ⊢
      omega
    · rw [hprior] at htotal
      have hsum := sum_insert_of_lookup_eq_some
        (fun (_ : Id32) (entry : PendingEntry) => entry.frameBytesLen) hprior (r.entry len now)
      have hle := le_sum_of_lookup
        (fun (_ : Id32) (entry : PendingEntry) => entry.frameBytesLen) hprior
      simp only [map_some, getD_some, Registration.entry] at htotal hsum hle ⊢
      omega
  entries := h.entries.insert ⟨ha.lenEq, le_refl 1, (by decide : 1 ≤ maxDeliveryAttempts)⟩

theorem Within.enter (h : t.Within) (ha : t.Admitted r len total) (now : ℕ) :
    (t.enter r len total now).Within where
  entries := by
    rcases hprior : t.pending.lookup r.contentId with _ | prev
    · exact (size_insert_of_lookup_eq_none hprior _).trans_le (ha.entries hprior)
    · exact (size_insert_of_lookup_eq_some hprior _).trans_le h.entries
  count := fun peer => by
    have hcount := ha.count
    rw [PendingAckTracker.enter]
    rcases hprior : t.pending.lookup r.contentId with _ | prev
    · rw [hprior] at hcount
      exact charge_le h.count (hcount (by simp)) peer
    · rw [recount]
      split
      next hmoved =>
        rw [hprior] at hcount
        have hroom := hcount fun heq => hmoved (some.inj heq)
        refine charge_le (refund_le h.count) ?_ peer
        rwa [balance_refund, if_neg (Ne.symm hmoved)]
      · exact h.count peer
  total := ha.totalFits
  bytes := fun peer => by
    have hbytes := ha.bytes
    rw [PendingAckTracker.enter]
    rw [replacedHere] at hbytes
    rcases hprior : t.pending.lookup r.contentId with _ | prev
    · rw [hprior] at hbytes
      exact charge_le h.bytes (by simpa using hbytes) peer
    · rw [hprior, map_some] at hbytes
      refine charge_le (refund_le h.bytes) ?_ peer
      rw [balance_refund]
      by_cases hsame : r.dstNodeId = prev.dstNodeId
      · rw [if_pos (congrArg some hsame.symm), hsame] at hbytes
        rwa [if_pos hsame]
      · rw [if_neg fun heq => hsame (some.inj heq).symm] at hbytes
        rwa [if_neg hsame]

/-! ### Calls -/

/-- The calls of the tracker, with the clock where it is read. -/
inductive Call where
  | register (contentId nextHop dstNodeId srcAppId ackKey : Id32) (frame : List UInt8) (now : ℕ)
  | registerBatch (r : Registration) (now : ℕ)
  | ack (contentId : Id32)
  | ackAndGetInfo (contentId : Id32)
  | tick (now : ℕ) (inFlight : Finset Id32) (batchSlots : ℕ) (order : List Id32)
  | finishRetryAdmission (contentId : Id32) (attempt : ℕ) (acceptedHop : Option Id32) (now : ℕ)
  | updateNextHop (contentId newHop : Id32)

/-- One call. -/
def step (t : PendingAckTracker) : Call → PendingAckTracker
  | .register contentId nextHop dstNodeId srcAppId ackKey frame now =>
    (t.register contentId nextHop dstNodeId srcAppId ackKey frame now).2
  | .registerBatch r now => (t.registerBatch r now).2
  | .ack contentId => t.ack contentId
  | .ackAndGetInfo contentId => (t.ackAndGetInfo contentId).2
  | .tick now inFlight batchSlots order =>
    (t.tickWithBatchAdmission now inFlight batchSlots order).2
  | .finishRetryAdmission contentId attempt acceptedHop now =>
    t.finishRetryAdmission contentId attempt acceptedHop now
  | .updateNextHop contentId newHop => t.updateNextHop contentId newHop

end PendingAckTracker

/-- The id an outcome is about, and what it is. -/
def AckTickOutcome.note : AckTickOutcome → Id32 × Note
  | .retransmit contentId _ _ _ attempt => (contentId, .retransmitted attempt)
  | .failed contentId _ _ _ => (contentId, .failed)

namespace PendingAckTracker

variable {r : Registration} {id id' : Id32} {len total now : ℕ} {log : List (Id32 × Note)}

/-- What is noted of a registration. -/
def noteRegister (contentId : Id32) (accepted : Bool) : List (Id32 × Note) :=
  if accepted then [(contentId, .registered)] else []

section

variable (t : PendingAckTracker)

/-- What is noted of an acknowledgement: nothing, where the id is not tracked. -/
def noteAck (contentId : Id32) : List (Id32 × Note) :=
  if (t.pending.lookup contentId).isSome then [(contentId, .acknowledged)] else []

/-- What is noted of a call. -/
def noted : Call → List (Id32 × Note)
  | .register contentId nextHop dstNodeId srcAppId ackKey frame now => noteRegister contentId
      (t.register contentId nextHop dstNodeId srcAppId ackKey frame now).1
  | .registerBatch r now => noteRegister r.contentId (t.registerBatch r now).1
  | .ack contentId | .ackAndGetInfo contentId => t.noteAck contentId
  | .tick now inFlight batchSlots order =>
    (t.tickWithBatchAdmission now inFlight batchSlots order).1.map AckTickOutcome.note
  | .finishRetryAdmission _ _ _ _ | .updateNextHop _ _ => []

/-- The notes about one id. -/
def notesOf (id : Id32) (log : List (Id32 × Note)) : List Note :=
  (log.filter fun e => decide (e.1 = id)).map Prod.snd

theorem notesOf_append (id : Id32) (log log' : List (Id32 × Note)) :
    notesOf id (log ++ log') = notesOf id log ++ notesOf id log' := by
  rw [notesOf, filter_append, map_append, notesOf, notesOf]

theorem notesOf_singleton (id id' : Id32) (note : Note) :
    notesOf id [(id', note)] = if id' = id then [note] else [] := by
  rw [notesOf]
  split
  next h => simp [h]
  next h => simp [h]

/-- The attempt the entry of an id is at. -/
def attemptOf (id : Id32) : Option ℕ :=
  (t.pending.lookup id).map (·.attempts)

end

/-- **The tracker after a run**, with all that was noted: the books are exact and within the limits,
and the notes about each id are allowed and lead to the attempt its entry is at. -/
structure Follows (limits : TrackerLimits) (t : PendingAckTracker) (log : List (Id32 × Note)) :
    Prop where
  exact : t.Exact
  within : t.Within
  limits : t.limits = limits
  allowed : ∀ id, Run.Along Note.next Note.Allowed none (notesOf id log)
  reached : ∀ id, (notesOf id log).foldl Note.next none = t.attemptOf id

variable {limits : TrackerLimits} {t' : PendingAckTracker}

theorem follows_new (limits : TrackerLimits) : Follows limits (new limits) [] where
  exact := exact_new limits
  within := within_new limits
  limits := rfl
  allowed := fun _ => trivial
  reached := fun _ => rfl

/-- A call that notes nothing leaves every entry at its attempt. -/
theorem Follows.quiet (h : Follows limits t log) (hexact : t'.Exact) (hwithin : t'.Within)
    (hlimits : t'.limits = t.limits) (hsame : ∀ id, t'.attemptOf id = t.attemptOf id) :
    Follows limits t' log where
  exact := hexact
  within := hwithin
  limits := hlimits.trans h.limits
  allowed := h.allowed
  reached := fun id => (h.reached id).trans (hsame id).symm

/-- A note about one id. -/
theorem Follows.note {note : Note} (h : Follows limits t log) (hexact : t'.Exact)
    (hwithin : t'.Within) (hlimits : t'.limits = t.limits)
    (hallowed : Note.Allowed (t.attemptOf id) note)
    (hnext : t'.attemptOf id = Note.next (t.attemptOf id) note)
    (hsame : ∀ id', id' ≠ id → t'.attemptOf id' = t.attemptOf id') :
    Follows limits t' (log ++ [(id, note)]) where
  exact := hexact
  within := hwithin
  limits := hlimits.trans h.limits
  allowed := fun id' => by
    rw [notesOf_append, notesOf_singleton]
    split
    next heq =>
      subst heq
      refine Run.along_append.mpr ⟨h.allowed id, ?_, trivial⟩
      rwa [h.reached id]
    · rw [append_nil]
      exact h.allowed id'
  reached := fun id' => by
    rw [notesOf_append, notesOf_singleton, foldl_append, h.reached id']
    split
    next heq =>
      subst heq
      exact hnext.symm
    next hne => exact (hsame id' (.symm hne)).symm

theorem attemptOf_insert (id id' : Id32) (entry : PendingEntry) :
    attemptOf { t with pending := t.pending.insert id entry } id' =
      if id' = id then some entry.attempts else t.attemptOf id' := by
  rw [attemptOf, lookup_insert_eq_ite]
  split <;> rfl

theorem attemptOf_release (id id' : Id32) (entry : PendingEntry) :
    (t.release id entry).attemptOf id' = if id' = id then none else t.attemptOf id' := by
  rw [attemptOf, release, lookup_erase_eq_ite]
  split <;> rfl

theorem attemptOf_of_lookup (hid : t.pending.lookup id = some entry) :
    t.attemptOf id = some entry.attempts := by
  rw [attemptOf, hid, map_some]

section

variable (h : Follows limits t log)

include h

/-- An entry is released with a note that ends its life. -/
theorem Follows.release {note : Note} (hid : t.pending.lookup id = some entry)
    (hallowed : Note.Allowed (some entry.attempts) note)
    (hend : Note.next (some entry.attempts) note = none) :
    Follows limits (t.release id entry) (log ++ [(id, note)]) := by
  have hattempt := attemptOf_of_lookup hid
  refine h.note (h.exact.release hid) (h.within.release hid) rfl ?_ ?_ fun id' hne => ?_
  · rwa [hattempt]
  · rw [attemptOf_release, if_pos rfl, hattempt, hend]
  · rw [attemptOf_release, if_neg hne]

/-! ### Each call -/

theorem Follows.registerFrames (r : Registration) (now : ℕ) :
    Follows limits (t.registerFrames r now).2
      (log ++ noteRegister r.contentId (t.registerFrames r now).1) := by
  rw [PendingAckTracker.registerFrames]
  rcases hadmission : t.admission r with _ | ⟨len, total⟩
  · rwa [noteRegister, if_neg Bool.false_ne_true, append_nil]
  · have ha := admitted_of_admission hadmission
    have hattempt : ∀ id', (t.enter r len total now).attemptOf id' =
        if id' = r.contentId then some 1 else t.attemptOf id' :=
      fun id' => attemptOf_insert (t := t) r.contentId id' (r.entry len now)
    refine h.note (h.exact.enter ha now) (h.within.enter ha now) rfl ?_ ?_ fun id' hne => ?_
    · trivial
    · exact (hattempt r.contentId).trans (if_pos rfl)
    · exact (hattempt id').trans (if_neg hne)

theorem Follows.registerBatch (r : Registration) (now : ℕ) :
    Follows limits (t.registerBatch r now).2
      (log ++ noteRegister r.contentId (t.registerBatch r now).1) := by
  rw [PendingAckTracker.registerBatch]
  split
  · rwa [noteRegister, if_neg Bool.false_ne_true, append_nil]
  · exact h.registerFrames r now

theorem Follows.ack (id : Id32) : Follows limits (t.ack id) (log ++ t.noteAck id) := by
  rw [PendingAckTracker.ack, noteAck]
  rcases hid : t.pending.lookup id with _ | entry
  · rwa [isSome_none, if_neg Bool.false_ne_true, append_nil]
  · exact h.release hid trivial rfl

end

variable (t id) in
theorem ackAndGetInfo_eq : (t.ackAndGetInfo id).2 = t.ack id := by
  rw [ackAndGetInfo, PendingAckTracker.ack]
  cases t.pending.lookup id with
  | none | some => rfl

/-- An entry changes, but not its attempt. -/
theorem Follows.change {entry' : PendingEntry} (h : Follows limits t log)
    (hid : t.pending.lookup id = some entry) (hdst : entry'.dstNodeId = entry.dstNodeId)
    (hlen : entry'.frameBytesLen = entry.frameBytesLen) (hframes : entry'.frames = entry.frames)
    (hattempts : entry'.attempts = entry.attempts) :
    Follows limits { t with pending := t.pending.insert id entry' } log := by
  have hbounds := (h.exact.entries id entry hid).2
  refine h.quiet (h.exact.replace hid hdst hlen hframes (hattempts ▸ hbounds))
    (h.within.replace hid) rfl fun id' => ?_
  rw [attemptOf_insert]
  split
  next heq => rw [heq, attemptOf_of_lookup hid, hattempts]
  · rfl

theorem Follows.finishRetryAdmission (h : Follows limits t log) (id : Id32) (attempt : ℕ)
    (acceptedHop : Option Id32) (now : ℕ) :
    Follows limits (t.finishRetryAdmission id attempt acceptedHop now) log := by
  rw [PendingAckTracker.finishRetryAdmission]
  rcases hid : t.pending.lookup id with _ | entry
  · exact h
  · dsimp only
    split
    · exact h.change hid rfl rfl rfl rfl
    · exact h

theorem Follows.updateNextHop (h : Follows limits t log) (id newHop : Id32) :
    Follows limits (t.updateNextHop id newHop) log := by
  rw [PendingAckTracker.updateNextHop]
  rcases hid : t.pending.lookup id with _ | entry
  · exact h
  · exact h.change hid rfl rfl rfl rfl

/-! ### Ticks -/

section Tick

variable {inFlight : Finset Id32} {acc : Sweep} {slots : ℕ}

/-- The sweep after an entry was given up. -/
def Sweep.fail (acc : Sweep) (id : Id32) (entry : PendingEntry) : Sweep :=
  { acc with
    tracker := acc.tracker.release id entry
    outcomes := acc.outcomes ++ [.failed id entry.srcAppId entry.nextHop entry.dstNodeId] }

/-- The sweep after an entry was sent again. -/
def Sweep.retransmit (acc : Sweep) (id : Id32) (entry : PendingEntry) (now : ℕ) : Sweep where
  tracker := { acc.tracker with pending := acc.tracker.pending.insert id (entry.again now) }
  batchSlots := if 1 < entry.frames.length then acc.batchSlots - 1 else acc.batchSlots
  outcomes := acc.outcomes ++ [.retransmit id entry.nextHop entry.dstNodeId entry.frames
    (entry.attempts + 1)]

/-- **What a visit does**: nothing, or an entry that is due and not in flight is given up or sent
again. -/
theorem visit_cases (now : ℕ) (inFlight : Finset Id32) (acc : Sweep) (id : Id32) :
    visit now inFlight acc id = acc ∨
    ∃ entry, acc.tracker.pending.lookup id = some entry ∧ entry.deadline ≤ now ∧ id ∉ inFlight ∧
      ((maxDeliveryAttempts ≤ entry.attempts ∧ visit now inFlight acc id = acc.fail id entry) ∨
        (entry.attempts < maxDeliveryAttempts ∧ (1 < entry.frames.length → 0 < acc.batchSlots) ∧
          visit now inFlight acc id = acc.retransmit id entry now)) := by
  rw [visit]
  rcases hid : acc.tracker.pending.lookup id with _ | entry
  · exact .inl rfl
  dsimp only
  by_cases hskip : now < entry.deadline ∨ id ∈ inFlight
  · exact .inl (if_pos hskip)
  rw [if_neg hskip]
  rw [not_or, not_lt] at hskip
  by_cases hlast : maxDeliveryAttempts ≤ entry.attempts
  · exact .inr ⟨entry, rfl, hskip.1, hskip.2, .inl ⟨hlast, if_pos hlast⟩⟩
  rw [if_neg hlast]
  by_cases hfull : 1 < entry.frames.length ∧ acc.batchSlots = 0
  · exact .inl (if_pos hfull)
  · refine .inr ⟨entry, rfl, hskip.1, hskip.2, .inr ⟨not_le.mp hlast, fun hmany => ?_,
      if_neg hfull⟩⟩
    exact Nat.pos_of_ne_zero fun hzero => hfull ⟨hmany, hzero⟩

theorem Follows.visit (h : Follows limits acc.tracker (log ++ acc.outcomes.map AckTickOutcome.note))
    (now : ℕ) (inFlight : Finset Id32) (id : Id32) :
    Follows limits (visit now inFlight acc id).tracker
      (log ++ (visit now inFlight acc id).outcomes.map AckTickOutcome.note) := by
  rcases visit_cases now inFlight acc id with
    heq | ⟨entry, hid, -, -, ⟨hlast, heq⟩ | ⟨hmore, -, heq⟩⟩
  · rwa [heq]
  · have hbound := (h.exact.entries id entry hid).2.2
    rw [heq, Sweep.fail, map_append, ← append_assoc]
    exact h.release hid (le_antisymm hbound hlast) rfl
  · have hattempt := attemptOf_of_lookup hid
    rw [heq, Sweep.retransmit, map_append, ← append_assoc]
    refine h.note (h.exact.replace hid rfl rfl rfl ⟨le_add_left 1 _, hmore⟩)
      (h.within.replace hid) rfl ?_ ?_ fun id' hne => ?_
    · rw [hattempt]
      exact ⟨rfl, hmore⟩
    · rw [attemptOf_insert, if_pos rfl]
      rfl
    · rw [attemptOf_insert, if_neg hne]

theorem Follows.visits (now : ℕ) (inFlight : Finset Id32) (ids : List Id32)
    (h : Follows limits acc.tracker (log ++ acc.outcomes.map AckTickOutcome.note)) :
    Follows limits (ids.foldl (PendingAckTracker.visit now inFlight) acc).tracker
      (log ++ (ids.foldl (PendingAckTracker.visit now inFlight) acc).outcomes.map
        AckTickOutcome.note) :=
  Run.invariant (P := fun acc : Sweep => Follows limits acc.tracker
    (log ++ acc.outcomes.map AckTickOutcome.note)) (fun _ id h => h.visit now inFlight id) h ids

/-- A batch that is sent again. -/
def isBatch : AckTickOutcome → Bool
  | .retransmit _ _ _ frames _ => decide (1 < frames.length)
  | .failed _ _ _ _ => false

/-- The outcome is one of an entry whose deadline has passed and that is not in flight: its next
attempt, or its failure after the last one. -/
def Due (t : PendingAckTracker) (now : ℕ) (inFlight : Finset Id32) (o : AckTickOutcome) : Prop :=
  ∃ entry, t.pending.lookup o.note.1 = some entry ∧ entry.deadline ≤ now ∧ o.note.1 ∉ inFlight ∧
    ((o = .failed o.note.1 entry.srcAppId entry.nextHop entry.dstNodeId ∧
        entry.attempts = maxDeliveryAttempts) ∨
      (o = .retransmit o.note.1 entry.nextHop entry.dstNodeId entry.frames (entry.attempts + 1) ∧
        entry.attempts < maxDeliveryAttempts))

/-- A sweep of a tracker. An entry that is still due has not been touched. -/
structure Sweeps (t : PendingAckTracker) (now : ℕ) (inFlight : Finset Id32) (slots : ℕ)
    (acc : Sweep) : Prop where
  untouched : ∀ id entry, acc.tracker.pending.lookup id = some entry → entry.deadline ≤ now →
    t.pending.lookup id = some entry
  due : ∀ o ∈ acc.outcomes, t.Due now inFlight o
  batches : (acc.outcomes.filter isBatch).length + acc.batchSlots ≤ slots

theorem Sweeps.visit (hexact : t.Exact) (h : t.Sweeps now inFlight slots acc) (id : Id32) :
    t.Sweeps now inFlight slots (visit now inFlight acc id) := by
  rcases visit_cases now inFlight acc id with
    heq | ⟨entry, hid, hdeadline, hflight, ⟨hlast, heq⟩ | ⟨hmore, hslots, heq⟩⟩
  · rwa [heq]
  · have hfirst := h.untouched id entry hid hdeadline
    rw [heq]
    refine ⟨fun id' entry' hid' hdue => ?_, fun o ho => ?_, ?_⟩
    · exact h.untouched id' entry' (lookup_erase_eq_some hid').2 hdue
    · rcases mem_append.mp ho with ho | ho
      · exact h.due o ho
      · obtain rfl := mem_singleton.mp ho
        have hbound := (hexact.entries id entry hfirst).2.2
        exact ⟨entry, hfirst, hdeadline, hflight, .inl ⟨rfl, le_antisymm hbound hlast⟩⟩
    · rw [Sweep.fail, filter_append, length_append]
      exact h.batches
  · have hfirst := h.untouched id entry hid hdeadline
    rw [heq]
    refine ⟨fun id' entry' hid' hdue => ?_, fun o ho => ?_, ?_⟩
    · rcases lookup_insert_eq_some hid' with ⟨-, rfl⟩ | ⟨-, hid'⟩
      · -- the new deadline lies ahead
        have hlater : now + deliveryAckTimeout ≤ now := hdue
        exact absurd hlater (not_le.mpr (Nat.lt_add_of_pos_right (by decide)))
      · exact h.untouched id' entry' hid' hdue
    · rcases mem_append.mp ho with ho | ho
      · exact h.due o ho
      · obtain rfl := mem_singleton.mp ho
        exact ⟨entry, hfirst, hdeadline, hflight, .inr ⟨rfl, hmore⟩⟩
    · have hbatches := h.batches
      rw [Sweep.retransmit, filter_append, length_append]
      have hone : ([.retransmit id entry.nextHop entry.dstNodeId entry.frames
          (entry.attempts + 1)].filter isBatch).length =
            if 1 < entry.frames.length then 1 else 0 := by
        split <;> simp [isBatch, *]
      rw [hone]
      dsimp only
      split
      next hmany => omega
      · exact hbatches

theorem Sweeps.visits (hexact : t.Exact) (h : t.Sweeps now inFlight slots acc) (ids : List Id32) :
    t.Sweeps now inFlight slots (ids.foldl (PendingAckTracker.visit now inFlight) acc) :=
  Run.invariant (fun _ id h => h.visit hexact id) h ids

end Tick

/-! ### Whole runs -/

theorem Follows.step (h : Follows limits t log) (call : Call) :
    Follows limits (t.step call) (log ++ t.noted call) := by
  cases call with
  | register contentId nextHop dstNodeId srcAppId ackKey frame now =>
    exact h.registerFrames ⟨contentId, nextHop, dstNodeId, srcAppId, ackKey, [frame]⟩ now
  | registerBatch => exact h.registerBatch ..
  | ack => exact h.ack ..
  | ackAndGetInfo id =>
    rw [PendingAckTracker.step, ackAndGetInfo_eq]
    exact h.ack id
  | tick now inFlight slots order =>
    have hstart : Follows limits t (log ++ [].map AckTickOutcome.note) := by
      rwa [map_nil, append_nil]
    exact .visits now inFlight _ hstart
  | finishRetryAdmission id attempt acceptedHop now =>
    rw [noted, append_nil]
    exact h.finishRetryAdmission id attempt acceptedHop now
  | updateNextHop id newHop =>
    rw [noted, append_nil]
    exact h.updateNextHop id newHop

/-- What a call promises in the state it is made in: a registration that is refused changes nothing;
a tick yields due outcomes only, with no more batches than there are slots; a late admission of
another attempt than the current one changes nothing. -/
def Promises (t : PendingAckTracker) : Call → Prop
  | .register contentId nextHop dstNodeId srcAppId ackKey frame now =>
    (t.register contentId nextHop dstNodeId srcAppId ackKey frame now).1 = false →
      (t.register contentId nextHop dstNodeId srcAppId ackKey frame now).2 = t
  | .registerBatch r now => (t.registerBatch r now).1 = false → (t.registerBatch r now).2 = t
  | .tick now inFlight slots order =>
    (∀ o ∈ (t.tickWithBatchAdmission now inFlight slots order).1, t.Due now inFlight o) ∧
      ((t.tickWithBatchAdmission now inFlight slots order).1.filter isBatch).length ≤ slots
  | .finishRetryAdmission contentId attempt acceptedHop now =>
    t.attemptOf contentId ≠ some attempt →
      t.finishRetryAdmission contentId attempt acceptedHop now = t
  | .ack _ | .ackAndGetInfo _ | .updateNextHop _ _ => True

theorem registerFrames_refused (h : (t.registerFrames r now).1 = false) :
    (t.registerFrames r now).2 = t := by
  rw [registerFrames] at h ⊢
  rcases hadmission : t.admission r with _ | ⟨len, total⟩
  · rfl
  · rw [hadmission] at h
    cases h

theorem promises (h : t.Exact) (call : Call) : t.Promises call := by
  cases call with
  | register contentId nextHop dstNodeId srcAppId ackKey frame now => exact registerFrames_refused
  | registerBatch r now =>
    intro hrefused
    rw [registerBatch] at hrefused ⊢
    split at hrefused
    · rw [if_pos (by assumption)]
    · rw [if_neg (by assumption)]
      exact registerFrames_refused hrefused
  | ack | ackAndGetInfo | updateNextHop => trivial
  | tick now inFlight slots order =>
    have hstart : t.Sweeps now inFlight slots ⟨t, slots, []⟩ :=
      ⟨fun _ _ hid _ => hid, nofun, le_of_eq (zero_add _)⟩
    have hsweep := hstart.visits h (order ++ t.pending.keys).eraseDups
    exact ⟨hsweep.due, (le_add_right _ _).trans hsweep.batches⟩
  | finishRetryAdmission id attempt acceptedHop now =>
    intro hstale
    rw [finishRetryAdmission]
    rcases hid : t.pending.lookup id with _ | entry
    · rfl
    · rw [attemptOf_of_lookup hid] at hstale
      exact if_neg fun heq => hstale (congrArg some heq)

/-- **Acknowledged deliveries are tracked exactly and within bounds**, after any sequence of calls.
The books are exact and the limits kept; nothing happens to an id that is not registered, and every
registration has its life; and the next call, whatever it is, keeps its promise. -/
theorem tracking_exact (limits : TrackerLimits) (calls : List Call) :
    let t := calls.foldl step (new limits)
    let notes := fun id => notesOf id (Run.outputs step noted (new limits) calls)
    t.Exact ∧ t.Within ∧ t.limits = limits ∧
      (∀ id, Idle (notes id) ∧
        ∀ before after, notes id = before ++ .registered :: after → Life after) ∧
      ∀ call, t.Promises call := by
  intro t notes
  have h : Follows limits t (Run.outputs step noted (new limits) calls) :=
    Run.invariant_outputs (R := fun t log => Follows limits t log)
      (fun t call log h => h.step call) (follows_new limits) calls
  refine ⟨h.exact, h.within, h.limits, fun id => ⟨idle_of_along (h.allowed id), ?_⟩, ?_⟩
  · intro before after heq
    have halong := h.allowed id
    rw [show notesOf id (Run.outputs step noted (new limits) calls) = _ from heq] at halong
    exact life_of_along halong
  · exact fun call => promises h.exact call

end PendingAckTracker

end VeilNetwork.Delivery
