import VeilNetwork.Ipc.Server
import VeilNetwork.Lib.Run

/-!
# The sweep of idle streams

A stream that nobody has used for `idleTimeout` is removed by the sweep. What counts as a use is
data in either direction, a window update, and a call of `touch`; the record of the last use stands
in the entry beside the timer that the sweep reads.

The timer falls behind the record in two places: data that comes in from a remote node does not go
through the table, and `touch` only knows streams between clients. Besides, a stream picked by the
sweep is closed under a later lock without another look at its timer, the notices of a close are
lost when their queue is full, and the opener of a stream to a remote node is not told at all. In
runs without these, the sweep removes idle streams only and tells every client that is there.
-/

namespace VeilNetwork.Ipc.Server

open Option List Table

variable {C Q T : Type} [DecidableEq C] [DecidableEq Q] {lim : Limits C Q} {s : Server C Q T}

/-! ### The sweep's own condition -/

/-- Data comes in on no stream to a remote node, and none is touched; nobody uses a stream that
the sweep has picked, or is given its id; the queues of the ends of a stream that the sweep closes
have room for the notice; and the openers of the streams to remote nodes that the sweep removes
have left. -/
def Undisturbed (lim : Limits C Q) (s : Server C Q T) : Event C Q T → Prop
  | .openLocal _ _ _ => ∀ i ∈ s.allocId, i ∉ s.stale
  | .streamData _ i _ _ | .streamWindow _ i _ => i ∉ s.stale
  | .touch i => i ∉ s.stale ∧ (s.remoteStreams.lookup i).isNone
  | .bridgeData i _ => (s.remoteStreams.lookup i).isNone
  | .reapClose => ∀ i ∈ s.stale.head?, ∀ entry ∈ s.streams.lookup i,
      ((s.clients entry.aDelivery).connected →
        s.Accepts lim entry.aDelivery (.streamClose .opener i)) ∧
      ((s.clients (lim.owner entry.bEndpoint)).connected → s.HasRoom lim entry.bEndpoint)
  | .reapStaleRemote now => ∀ e ∈ s.remoteStreams.entries,
      lim.idleTimeout ≤ now - e.2.lastActivity → (s.clients e.2.opener).connected = false
  | _ => True

/-! ### Timers -/

/-- The timer of a stream is the time of its last use. -/
def Timed (clock lastActivity lastUse : ℕ) : Prop := lastActivity = lastUse ∧ lastUse ≤ clock

/-- The timers are right, and the streams that the sweep has picked are idle. -/
structure Swept (timeout clock : ℕ) (streams : Table ℕ (StreamEntry C Q))
    (remoteStreams : Table ℕ (RemoteStreamEntry C T)) (stale : List ℕ) : Prop where
  timed : streams.All fun _ e => Timed clock e.lastActivity e.lastUse
  remote : remoteStreams.All fun _ e => Timed clock e.lastActivity e.lastUse
  idle : streams.All fun i e => i ∈ stale → e.lastUse + timeout ≤ clock

namespace Swept

omit [DecidableEq C] [DecidableEq Q]

variable {timeout clock : ℕ} {streams : Table ℕ (StreamEntry C Q)}
  {remoteStreams : Table ℕ (RemoteStreamEntry C T)} {stale : List ℕ}
  (h : Swept timeout clock streams remoteStreams stale)
include h

theorem insert {i : ℕ} {entry : StreamEntry C Q} (hi : i ∉ stale)
    (htimed : Timed clock entry.lastActivity entry.lastUse) :
    Swept timeout clock (streams.insert i entry) remoteStreams stale where
  timed := h.timed.insert htimed
  remote := h.remote
  idle := h.idle.insert fun hmem => absurd hmem hi

theorem erase (i : ℕ) : Swept timeout clock (streams.erase i) remoteStreams stale where
  timed := h.timed.erase i
  remote := h.remote
  idle := h.idle.erase i

theorem insertRemote {i : ℕ} {entry : RemoteStreamEntry C T}
    (htimed : Timed clock entry.lastActivity entry.lastUse) :
    Swept timeout clock streams (remoteStreams.insert i entry) stale :=
  ⟨h.timed, h.remote.insert htimed, h.idle⟩

theorem eraseRemote (i : ℕ) : Swept timeout clock streams (remoteStreams.erase i) stale :=
  ⟨h.timed, h.remote.erase i, h.idle⟩

theorem retainRemote (keep : ℕ → RemoteStreamEntry C T → Bool) :
    Swept timeout clock streams (remoteStreams.retain keep) stale := by
  refine ⟨h.timed, fun i e he => ?_, h.idle⟩
  rw [lookup_retain] at he
  exact h.remote i e (filter_eq_some_iff.mp he).1

theorem tick (elapsed : ℕ) : Swept timeout (clock + elapsed) streams remoteStreams stale where
  timed := h.timed.imp fun _ _ he => ⟨he.1, he.2.trans (Nat.le_add_right _ _)⟩
  remote := h.remote.imp fun _ _ he => ⟨he.1, he.2.trans (Nat.le_add_right _ _)⟩
  idle := h.idle.imp fun _ _ he hmem => (he hmem).trans (Nat.le_add_right _ _)

theorem sublist {stale' : List ℕ} (hsub : stale' ⊆ stale) :
    Swept timeout clock streams remoteStreams stale' :=
  ⟨h.timed, h.remote, h.idle.imp fun _ _ he hmem => he (hsub hmem)⟩

end Swept

/-- The timers of a server. -/
def SweptAt (lim : Limits C Q) (s : Server C Q T) : Prop :=
  Swept lim.idleTimeout s.clock s.streams s.remoteStreams s.stale

/-! ### Each call keeps the timers -/

section Calls

variable (h : s.SweptAt lim)
include h

omit [DecidableEq C] [DecidableEq Q]

variable {i : ℕ}

/-- A use of a stream that the sweep has not picked sets its timer. -/
theorem SweptAt.refresh (hi : i ∉ s.stale) (entry : StreamEntry C Q) (window : ℕ) :
    (s.refresh i entry window).SweptAt lim :=
  Swept.insert h hi ⟨rfl, le_rfl⟩

theorem SweptAt.closeRemote (i : ℕ) : (s.closeRemote i).2.SweptAt lim := by
  rw [Server.closeRemote]
  split
  · exact h
  · exact .eraseRemote h i

theorem SweptAt.remoteRoute (i : ℕ) : (s.remoteRoute i).2.SweptAt lim := by
  rw [Server.remoteRoute]
  split
  · exact h
  · exact .insertRemote h ⟨rfl, le_rfl⟩

theorem SweptAt.openRemote (c : C) (target : T) : (s.openRemote c target).2.SweptAt lim := by
  rw [Server.openRemote]
  split
  · exact h
  · exact .insertRemote h ⟨rfl, le_rfl⟩

/-- The streams that the sweep picks are idle. -/
theorem SweptAt.staleStreams {now : ℕ} (hnow : now ≤ s.clock) :
    Swept lim.idleTimeout s.clock s.streams s.remoteStreams (s.staleStreams lim now) := by
  refine ⟨h.timed, h.remote, fun i e he hmem => ?_⟩
  obtain ⟨⟨j, e'⟩, hfilter, rfl⟩ := mem_map.mp hmem
  obtain ⟨hentry, hidle⟩ := mem_filter.mp hfilter
  have hsame : e' = e := some.inj
    ((lookup_eq_some_iff.mpr hentry).symm.trans he)
  have hidle := of_decide_eq_true hidle
  obtain ⟨hlast, hle⟩ := h.timed j e he
  subst hsame
  dsimp only at hidle
  omega

section

variable [DecidableEq C]

theorem SweptAt.trySend (c : C) (frame : Frame) : (s.trySend lim c frame).SweptAt lim := by
  rw [Server.trySend]
  split_ifs <;> exact h

theorem SweptAt.routeDataFromB (hi : i ∉ s.stale) (data : List UInt8) :
    (s.routeDataFromB lim i data).2.SweptAt lim := by
  rw [Server.routeDataFromB]
  split
  · exact h
  · dsimp only
    split_ifs
    · exact h.refresh hi _ _
    · exact h.refresh hi _ _

theorem SweptAt.settle (c : C) (i : ℕ) (outcome : RouteOutcome) :
    (s.settle c i outcome).SweptAt lim := by
  cases outcome <;> exact h

theorem SweptAt.bridgeEnd (i : ℕ) : (s.bridgeEnd lim i).SweptAt lim := by
  have hclose := h.closeRemote i
  rw [Server.bridgeEnd]
  rcases hc : s.closeRemote i with ⟨_ | entry, s'⟩
  · rw [hc] at hclose
    exact hclose
  · rw [hc] at hclose
    exact hclose.trySend _ _

theorem SweptAt.claimOpener (c : C) (i : ℕ) : (s.claimOpener c i).SweptAt lim := h

end

variable [DecidableEq Q]

theorem SweptAt.trySendTo (q : Q) (message : Message) :
    (s.trySendTo lim q message).SweptAt lim := by
  rw [Server.trySendTo]
  split_ifs <;> exact h

theorem SweptAt.routeDataFromA (hi : i ∉ s.stale) (data : List UInt8) :
    (s.routeDataFromA lim i data).2.SweptAt lim := by
  rw [Server.routeDataFromA]
  split
  · exact h
  · dsimp only
    split_ifs
    · exact h
    · exact h.refresh hi _ _
    · exact h.refresh hi _ _

theorem SweptAt.openLocal (c : C) (q : Q) (window : ℕ) (hi : ∀ i ∈ s.allocId, i ∉ s.stale) :
    (s.openLocal lim c q window).2.SweptAt lim := by
  rw [Server.openLocal]
  split
  · exact h
  next i halloc =>
    split_ifs
    · exact .insert h (hi i halloc) ⟨rfl, le_rfl⟩
    · exact h

variable [DecidableEq C]

theorem SweptAt.close (i : ℕ) : (s.close lim i).SweptAt lim := by
  rw [Server.close]
  split
  · exact h
  · refine .trySend (.trySendTo ?_ _ _) _ _
    exact .erase h i

theorem SweptAt.closeOwned (c : C) (i : ℕ) : (s.closeOwned lim c i).SweptAt lim := by
  rw [Server.closeOwned]
  split_ifs
  · exact (h.closeRemote i).close i
  · exact h

theorem SweptAt.streamData (hi : i ∉ s.stale) (c : C) (data : List UInt8) (sent : Bool) :
    (s.streamData lim c i data sent).SweptAt lim := by
  rw [Server.streamData]
  by_cases hopener : i ∈ (s.clients c).opener
  · rw [if_pos hopener]
    have hroute := h.remoteRoute i
    generalize s.remoteRoute i = out at hroute
    rcases out with ⟨_ | target, s'⟩
    · exact (h.routeDataFromA hi data).settle c i _
    · cases sent <;> exact hroute
  · split_ifs
    · exact (h.routeDataFromB hi data).settle c i _
    · exact h

theorem SweptAt.forward (q : Q) : (s.forward lim q).SweptAt lim := by
  rw [Server.forward]
  split
  · exact h
  next message rest _ =>
    have hpop : (s.setQueue q rest).SweptAt lim := h
    split
    · exact .trySend (by exact hpop) _ _
    · exact hpop.trySend _ _
    · exact .trySend (by exact hpop) _ _
    · exact hpop
    · exact hpop.trySend _ _

end Calls

variable (lim s) in
/-- **A step that does not disturb the sweep keeps the timers.** -/
theorem sweptAt_step (event : Event C Q T) (hevent : s.Undisturbed lim event)
    (h : s.SweptAt lim) : (s.step lim event).SweptAt lim := by
  cases event with
  | tick => exact .tick h ..
  | openLocal c q window =>
    rw [step]
    split_ifs
    · have hopen := h.openLocal c q window hevent
      generalize s.openLocal lim c q window = out at hopen
      rcases out with ⟨_ | i, s'⟩
      · exact hopen
      · exact hopen.claimOpener c i
    · exact h
  | openRemote c target =>
    rw [step]
    split_ifs
    · have hopen := h.openRemote c target
      generalize s.openRemote c target = out at hopen
      rcases out with ⟨_ | i, s'⟩
      · exact hopen
      · exact hopen.claimOpener c i
    · exact h
  | streamData c i data sent =>
    rw [step]
    split_ifs
    · exact h.streamData hevent c data sent
    · exact h
  | streamClose c i =>
    rw [step]
    split_ifs
    · exact h.closeOwned c i
    · exact h
  | streamWindow c i increment =>
    rw [step]
    split_ifs
    · rw [windowUpdateFromB]
      split
      · exact h
      · exact h.refresh hevent _ _
    · exact h
  | finish c =>
    rw [step]
    split
    · exact h.close _
    · exact h
  | touch i =>
    rw [step, touch, isNone_iff_eq_none.mp hevent.2]
    split
    · exact h.refresh hevent.1 _ _
    · contradiction
    · exact h
  | bridgeData i data =>
    rwa [step, bridgeData, isNone_iff_eq_none.mp hevent]
  | bridgeEnd => exact h.bridgeEnd ..
  | reapSelect now =>
    rw [step]
    split_ifs with hnow
    · exact h.staleStreams hnow.1
    · exact h
  | reapClose =>
    rw [step]
    split
    · exact h
    next i rest hstale =>
      have hrest : ({ s with stale := rest } : Server C Q T).SweptAt lim :=
        Swept.sublist h (hstale ▸ subset_cons_self i rest)
      exact hrest.close i
  | reapStaleRemote now =>
    rw [step]
    split_ifs
    · exact .retainRemote h fun _ entry =>
        decide (¬lim.idleTimeout ≤ now - entry.lastActivity)
    · exact h
  | forward q =>
    rw [step]
    split_ifs
    · exact h.forward q
    · exact h
  | drain c =>
    rw [step, drain]
    split_ifs
    · split <;> exact h
    · exact h
  | otherMessage => exact h.trySendTo ..
  | otherFrame => exact h.trySend ..
  | depart | departEnd =>
    rw [step]
    split_ifs <;> exact h
  | departClose c i =>
    rw [step]
    split_ifs
    · exact h.closeOwned c i
    · exact h

/-! ### What the sweep removes -/

/-- A step of the sweep removes a stream between clients. -/
def Reaps (lim : Limits C Q) (s : Server C Q T) (event : Event C Q T) (i : ℕ)
    (entry : StreamEntry C Q) : Prop :=
  event = .reapClose ∧ s.streams.lookup i = some entry ∧
    (s.step lim event).streams.lookup i = none

/-- A step of the sweep removes a stream to a remote node. -/
def ReapsRemote (lim : Limits C Q) (s : Server C Q T) (event : Event C Q T) (i : ℕ)
    (entry : RemoteStreamEntry C T) : Prop :=
  (∃ now, event = .reapStaleRemote now) ∧ s.remoteStreams.lookup i = some entry ∧
    (s.step lim event).remoteStreams.lookup i = none

omit [DecidableEq Q] in
theorem mem_delivery_deliver (s : Server C Q T) (c : C) (frame : Frame) :
    frame ∈ ((s.deliver c frame).clients c).delivery := by
  rw [deliver, setClient]
  dsimp only
  rw [Function.update_self]
  exact mem_append_right _ (mem_singleton_self _)

omit [DecidableEq C] in
theorem mem_queues_enqueue (s : Server C Q T) (q : Q) (message : Message) :
    message ∈ (s.enqueue q message).queues q := by
  rw [enqueue, setQueue]
  dsimp only
  rw [Function.update_self]
  exact mem_append_right _ (mem_singleton_self _)

variable {entry : StreamEntry C Q}

/-- What the sweep closes is the stream it has picked first. -/
theorem Reaps.head {event : Event C Q T} {i : ℕ} (h : s.Reaps lim event i entry) :
    ∃ rest, s.stale = i :: rest := by
  obtain ⟨rfl, hentry, hgone⟩ := h
  rw [step] at hgone
  split at hgone
  · rw [hentry] at hgone
    cases hgone
  next j rest hstale =>
    rw [lookup_streams_close] at hgone
    split_ifs at hgone with heq
    · exact ⟨rest, heq ▸ hstale⟩
    · cases hentry.symm.trans hgone

/-- The notices of a close reach the queues that have room for them. -/
theorem close_notices (lim : Limits C Q) {i : ℕ} (hentry : s.streams.lookup i = some entry) :
    (s.Accepts lim entry.aDelivery (.streamClose .opener i) → .streamClose .opener i ∈
      ((s.close lim i).clients entry.aDelivery).delivery) ∧
    (s.HasRoom lim entry.bEndpoint →
      .streamClose i ∈ (s.close lim i).queues entry.bEndpoint) := by
  rw [close, hentry]
  dsimp only
  generalize hs₁ : s.setStreams (s.streams.erase i) = s₁
  have hclients : s₁.clients = s.clients := hs₁ ▸ rfl
  have hqueues : s₁.queues = s.queues := hs₁ ▸ rfl
  constructor
  · intro haccepts
    have haccepts' : (s₁.trySendTo lim entry.bEndpoint (.streamClose i)).Accepts lim entry.aDelivery
        (.streamClose .opener i) := by
      rwa [Accepts, clients_trySendTo, hclients]
    rw [trySend, if_pos haccepts']
    exact mem_delivery_deliver _ _ _
  · intro hroom
    have hroom' : s₁.HasRoom lim entry.bEndpoint := by
      rwa [HasRoom, hclients, hqueues]
    rw [queues_trySend, trySendTo, if_pos hroom']
    exact mem_queues_enqueue _ _ _

/-- **The sweep**: in every run that does not disturb it, and at every further such step, it removes
a stream only after nobody has used it for `idleTimeout`, and a client of that stream that has not
left has a close of it in its queue. -/
theorem reaped_only_when_idle (lim : Limits C Q) (events : List (Event C Q T)) (event : Event C Q T)
    (hrun : Run.Along (step lim) (Undisturbed lim) new (events ++ [event])) :
    let s : Server C Q T := events.foldl (step lim) new
    (∀ i entry, s.Reaps lim event i entry →
      entry.lastUse + lim.idleTimeout ≤ s.clock ∧
      ((s.clients entry.aDelivery).connected →
        .streamClose .opener i ∈ ((s.step lim event).clients entry.aDelivery).delivery) ∧
      ((s.clients (lim.owner entry.bEndpoint)).connected →
        .streamClose i ∈ (s.step lim event).queues entry.bEndpoint)) ∧
    ∀ i entry, s.ReapsRemote lim event i entry →
      entry.lastUse + lim.idleTimeout ≤ s.clock ∧
      ((s.clients entry.opener).connected →
        .streamClose .remote i ∈ ((s.step lim event).clients entry.opener).delivery) := by
  intro s
  obtain ⟨hevents, hevent⟩ := Run.along_append.mp hrun
  have hevent : s.Undisturbed lim event := hevent.1
  have hswept : s.SweptAt lim := Run.invariant_along (P := SweptAt lim)
    (fun s event hevent h => sweptAt_step lim s event hevent h)
    ⟨Table.All.empty, Table.All.empty, Table.All.empty⟩ hevents
  constructor
  · intro i entry hreaps
    obtain ⟨rest, hstale⟩ := hreaps.head
    obtain ⟨rfl, hentry, -⟩ := hreaps
    obtain ⟨hopener, hacceptor⟩ := hevent i (by rw [hstale]; rfl) entry hentry
    have hentry' : ({ s with stale := rest } : Server C Q T).streams.lookup i = some entry := hentry
    obtain ⟨hdelivery, hqueue⟩ := close_notices lim hentry'
    refine ⟨hswept.idle i entry hentry (hstale ▸ mem_cons_self), fun hc => ?_, fun hc => ?_⟩
    · rw [step, hstale]
      exact hdelivery (hopener hc)
    · rw [step, hstale]
      exact hqueue (hacceptor hc)
  · rintro i entry ⟨⟨now, rfl⟩, hentry, hgone⟩
    obtain ⟨hlast, hle⟩ := hswept.remote i entry hentry
    rw [step] at hgone
    split_ifs at hgone with hnow
    · -- what the sweep does not keep has been idle
      have hidle : lim.idleTimeout ≤ now - entry.lastActivity := by
        by_contra hbusy
        have hkept : (s.remoteStreams.retain fun _ entry =>
            decide (¬lim.idleTimeout ≤ now - entry.lastActivity)).lookup i = some entry := by
          rw [lookup_retain, hentry]
          exact filter_some_pos (decide_eq_true hbusy)
        exact some_ne_none entry (hkept.symm.trans hgone)
      refine ⟨by omega, fun hc => ?_⟩
      rw [hevent ⟨i, entry⟩ (lookup_eq_some_iff.mp hentry) hidle] at hc
      cases hc
    · cases hentry.symm.trans hgone

instance decidableUndisturbed (lim : Limits C Q) (s : Server C Q T) (event : Event C Q T) :
    Decidable (s.Undisturbed lim event) := by
  cases event <;> unfold Undisturbed <;> infer_instance

/-- Two clients, `false` and `true`; the only endpoint is of `true`. Queues of four, frames of ten
bytes, and five minutes. -/
def sampleLimits : Limits Bool Unit := ⟨4, 4, 1000, fun _ => 10, fun _ => true, 300⟩

/-- A stream that is used once and then left. -/
def sampleEvents : List (Event Bool Unit Unit) :=
  [.openLocal false () 1024, .forward (), .streamData false 1 [7] true, .tick 300, .reapSelect 300]

theorem reaped_only_when_idle_sample :
    let s := sampleEvents.foldl (step sampleLimits) new
    ∃ entry, s.Reaps sampleLimits .reapClose 1 entry ∧
      entry.lastUse + sampleLimits.idleTimeout ≤ s.clock ∧
      .streamClose .opener 1 ∈ ((s.step sampleLimits .reapClose).clients false).delivery ∧
      .streamClose 1 ∈ (s.step sampleLimits .reapClose).queues () := by
  intro s
  have hreaps : s.Reaps sampleLimits .reapClose 1 ⟨false, (), 1023, 0, 0⟩ := ⟨rfl, rfl, rfl⟩
  obtain ⟨hidle, hopener, hacceptor⟩ :=
    (reaped_only_when_idle sampleLimits sampleEvents .reapClose (by decide +kernel)).1 1 _ hreaps
  exact ⟨_, hreaps, hidle, hopener rfl, hacceptor rfl⟩

/-- **Streams reaped in use.** Data has come in on a stream to a remote node a second before it is
removed, and its opener, which is there, is not told. A client has written on a stream between the
lock under which the sweep picks it and the lock under which it is closed. -/
theorem stream_reaped_in_use :
    (let s : Server Bool Unit Unit := [.openRemote false (), .tick 299, .bridgeData 1 [7],
        .drain false, .tick 1].foldl (step sampleLimits) new
      ∃ entry, s.ReapsRemote sampleLimits (.reapStaleRemote 300) 1 entry ∧
        entry.lastUse + 1 = s.clock ∧ (s.clients entry.opener).connected ∧
        ((s.step sampleLimits (.reapStaleRemote 300)).clients entry.opener).delivery = []) ∧
    (let s : Server Bool Unit Unit := [.openLocal false () 1024, .forward (), .tick 300,
        .reapSelect 300, .streamData false 1 [7] true].foldl (step sampleLimits) new
      ∃ entry, s.Reaps sampleLimits .reapClose 1 entry ∧ entry.lastUse = s.clock) :=
  ⟨⟨⟨false, (), 0, 299⟩, ⟨⟨300, rfl⟩, rfl, rfl⟩, rfl, rfl, rfl⟩,
    ⟨⟨false, (), 1023, 300, 300⟩, ⟨rfl, rfl, rfl⟩, rfl⟩⟩

end VeilNetwork.Ipc.Server
