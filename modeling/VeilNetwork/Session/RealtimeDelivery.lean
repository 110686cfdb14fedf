import VeilNetwork.Session.RealtimeLink

/-!
# What a realtime link delivers

A frame all of whose datagrams are received in time is returned on the last of them. Until
then its assembly, once started, stays: it is not old enough to expire, and no other frame
evicts it. What the assembly lacks at any moment is exactly what was not received yet, and a
datagram that can be received and was not is let through, since a mark in the window stands
for a datagram received before.
-/

namespace VeilNetwork.Session.Realtime.Link

open List Option

variable {K : Type} [DecidableEq K] {A : LaneAead K} {s : Link K}

/-! ### Letting datagrams through -/

variable {d : Octets} {now : ℕ}

/-- **A datagram that can be received and was not is let through.** -/
theorem Inv.authenticates (h : Inv A s) (hunforged : s.Unforged A d now)
    (hreceivable : s.Receivable d now) (hnew : d ∉ s.received) :
    ∃ hp rx, s.rx.authenticate A d now = (.ok hp, rx) := by
  obtain ⟨m, hm, hd, hk, hwindow⟩ := hreceivable
  have hwf := h.numbered.wf m hm
  obtain ⟨i, hi, rfl⟩ := hwf.mem_datagrams.mp hd
  have hdecode := hwf.decode_packet (A := A) hi
  have hfresh : s.rx.replay.refuses (m.header i).sequence = false := by
    rw [Bool.eq_false_iff, ne_eq, ReplayWindow.refuses_iff, not_or]
    refine ⟨?_, fun hmarked => ?_⟩
    · simp only [Rx.inWindow, hdecode, decide_eq_true_eq] at hwindow
      exact not_le.mpr hwindow
    · obtain ⟨m', hm', j, hj, hseq, hmem⟩ := h.marked _ hmarked
      obtain ⟨rfl, rfl⟩ := h.numbered.eq_of_sequence hm' hm hj hi hseq
      exact hnew hmem
  have hunique : ∀ k p, s.rx.Holds now k →
      decryptDatagram A k (m.header i).sequence (m.packet A i) = some p → p = m.chunk i := by
    intro k p hk hopen
    obtain ⟨m', hm', rfl, hd'⟩ := hunforged _ k p hdecode hk hopen
    obtain ⟨j, hj, heq⟩ := (h.numbered.wf m' hm').mem_datagrams.mp hd'
    obtain ⟨rfl, -⟩ := h.numbered.eq_of_packet hm' hm hj hi heq
    rw [Sent.decrypt_packet] at hopen
    exact (some.inj hopen).symm
  have hvalid := hwf.header_valid hi
  obtain ⟨rx, hrx⟩ := Rx.authenticate_of_holds hdecode hvalid.2.1 hfresh hk
    (Sent.decrypt_packet i) hunique
  exact ⟨_, rx, hrx⟩

/-! ### A frame on its way -/

/-- What the assembly of a frame lacks is what was not received of it yet. -/
structure Progress (A : LaneAead K) (m : Sent K) (since : ℕ) (s : Link K) : Prop where
  sent : m ∈ s.sent
  started : ∀ a, s.rx.assemblies.lookup m.messageId = some a → since ≤ a.createdAt ∧
    ∀ i < m.count, a.fragments[i]? = some none ↔ m.packet A i ∉ s.received
  absent : s.rx.assemblies.lookup m.messageId = none → ∀ i < m.count, m.packet A i ∉ s.received

/-- A step does not make the frame late: what is received of it is received within
`ASSEMBLY_TTL` from `since`, and the step evicts no assembly of it. -/
def Timely (A : LaneAead K) (m : Sent K) (since : ℕ) (s : Link K) : LinkOp → Prop
  | .decode d now tie =>
    (d ∈ m.datagrams → s.Receivable d now → since ≤ now ∧ now < since + assemblyTtl) ∧
    ∀ h p rx, s.rx.authenticate A d now = (.ok (h, p), rx) →
      m.messageId ∉ rx.evicted tie h p now
  | _ => True

variable {m : Sent K}

omit [DecidableEq K] in
/-- Nothing received of a frame yet. -/
theorem Inv.progress (h : Inv A s) (hm : m ∈ s.sent)
    (hnone : ∀ d ∈ m.datagrams, d ∉ s.received) (since : ℕ) : Progress A m since s := by
  have hpacket : ∀ i < m.count, m.packet A i ∉ s.received := fun i hi =>
    hnone _ ((h.numbered.wf m hm).mem_datagrams.mpr ⟨i, hi, rfl⟩)
  refine ⟨hm, fun a ha => ?_, fun _ => hpacket⟩
  obtain ⟨m', hm', hid, hmatch, ⟨i, c, hc⟩, hspent⟩ := h.assemblies _ a ha
  obtain rfl := h.numbered.eq_of_messageId hm' hm hid
  have hi : i < m'.count := by
    rw [← hmatch.length_fragments]
    exact (List.getElem?_eq_some_iff.mp hc).1
  exact absurd (hspent i c hc).1 (hpacket i hi)

variable {since : ℕ}

section

variable (h : Progress A m since s)

include h

omit [DecidableEq K] in
/-- The assembly of a frame on its way does not expire. -/
theorem Progress.lookup_prune (hnow : now < since + assemblyTtl) :
    (s.rx.prune now).assemblies.lookup m.messageId = s.rx.assemblies.lookup m.messageId := by
  rw [Rx.lookup_prune]
  cases ha : s.rx.assemblies.lookup m.messageId with
  | none => rfl
  | some a =>
    have hsince := (h.started a ha).1
    have hlive : a.expired now = false := by
      have : 0 < assemblyTtl := by decide
      simp only [Assembly.expired, decide_eq_false_iff_not]
      omega
    rw [filter_some, hlive]
    rfl

omit [DecidableEq K] in
/-- What the assembly a fragment is filed in lacks. -/
theorem Progress.lacks {i : ℕ} {a : Assembly} {rx : Rx K} (hlets : Lets A s d now m i a rx)
    (hnow : now < since + assemblyTtl) {j : ℕ} (hj : j < m.count) :
    a.fragments[j]? = some none ↔ m.packet A j ∉ s.received := by
  have ha := hlets.assembly
  rw [hlets.assemblies, h.lookup_prune hnow] at ha
  cases hlookup : s.rx.assemblies.lookup m.messageId with
  | none =>
    obtain rfl : Rx.fresh m now = a := by simpa [hlookup] using ha
    simp [Rx.fresh, hj, h.absent hlookup j hj]
  | some b =>
    obtain rfl : b = a := by simpa [hlookup] using ha
    exact (h.started b hlookup).2 j hj

/-- What it lacks once the fragment is filed. -/
theorem Progress.lacks_fill {i : ℕ} {a : Assembly} {rx : Rx K} (hinv : Inv A s)
    (hlets : Lets A s d now m i a rx) (hnow : now < since + assemblyTtl) {j : ℕ}
    (hj : j < m.count) :
    (a.fill i (m.chunk i)).fragments[j]? = some none ↔ m.packet A j ∉ d :: s.received := by
  have hlt : i < a.fragments.length := by
    rw [hlets.collected.length_fragments]
    exact hlets.index
  rw [mem_cons, not_or, ← h.lacks hlets hnow hj, Assembly.fill, ← hlets.packet]
  by_cases hij : j = i
  · subst hij
    simp [hlt]
  · have hne : m.packet A j ≠ m.packet A i := fun heq =>
      hij (hinv.numbered.eq_of_packet hlets.sent hlets.sent hj hlets.index heq).2
    simp [getElem?_set_ne (.symm hij), hne]

omit [DecidableEq K] in
/-- Neither the assembly of the frame changes nor what was received of it. -/
theorem Progress.congr {s' : Link K} (hsent : m ∈ s'.sent)
    (hlookup : s'.rx.assemblies.lookup m.messageId = s.rx.assemblies.lookup m.messageId)
    (hreceived : ∀ i < m.count, m.packet A i ∉ s'.received ↔ m.packet A i ∉ s.received) :
    Progress A m since s' := by
  refine ⟨hsent, fun b hb => ?_, fun hnone i hi => ?_⟩
  · rw [hlookup] at hb
    refine ⟨(h.started b hb).1, fun i hi => ?_⟩
    rw [hreceived i hi]
    exact (h.started b hb).2 i hi
  · rw [hlookup] at hnone
    exact (hreceived i hi).mpr (h.absent hnone i hi)

/-- A datagram handed over, while one of the frame is still to come. -/
theorem Progress.decode {tie : ℕ → ℕ} (hinv : Inv A s) (hunforged : s.Unforged A d now)
    (htimely : Timely A m since s (.decode d now tie)) (hnow : now < since + assemblyTtl)
    (hmissing : ∃ d' ∈ m.datagrams, d' ∉ (s.decode A d now tie).received) :
    Progress A m since (s.decode A d now tie) := by
  obtain ⟨htime, hevict⟩ := htimely
  have hwf := hinv.numbered.wf m h.sent
  rcases hinv.decode_cases hunforged with ⟨e, rx, hauth, -, hassemblies⟩ | ⟨m', i, a, rx, hlets⟩
  · -- a datagram that is refused was received before or cannot be received
    have hdecode : s.rx.decodeDatagram A d now tie = (.error e, rx) := by
      rw [Rx.decodeDatagram, hauth]
    have hreceived : ∀ x, x ∈ (s.decode A d now tie).received ↔ x ∈ s.received := by
      intro x
      simp only [Link.decode]
      split
      next hreceivable =>
        have hold : d ∈ s.received := by
          by_contra hnew
          obtain ⟨hp, rx', hok⟩ := hinv.authenticates hunforged hreceivable hnew
          cases hauth.symm.trans hok
        rw [mem_cons]
        exact ⟨fun hx => hx.elim (fun heq => heq ▸ hold) id, .inr⟩
      · exact Iff.rfl
    have hlookup : (s.decode A d now tie).rx.assemblies.lookup m.messageId =
        s.rx.assemblies.lookup m.messageId := by
      simp only [Link.decode, hdecode, hassemblies, h.lookup_prune hnow]
    exact h.congr h.sent hlookup fun i _ => not_congr (hreceived _)
  · have hdecode : s.rx.decodeDatagram A d now tie =
        rx.acceptFragment tie (m'.header i) (m'.chunk i) now := by
      rw [Rx.decodeDatagram, hlets.authenticated]
    have hreceived : (s.decode A d now tie).received = d :: s.received := by
      simp [Link.decode, hlets.receivable]
    obtain ⟨hothers, -, hown⟩ := Rx.acceptFragment_genuine tie (hinv.numbered.wf m' hlets.sent)
      hlets.index hlets.assembly hlets.collected hlets.empty
    rw [← hdecode] at hothers hown
    rw [hreceived] at hmissing
    by_cases hm : m' = m
    · subst hm
      have hd : d ∈ m'.datagrams := hwf.mem_datagrams.mpr ⟨i, hlets.index, hlets.packet⟩
      -- one datagram is missing, so its place is empty and the frame is not complete
      have hgap : (a.fill i (m'.chunk i)).fragments.any (·.isNone) = true := by
        obtain ⟨d', hd', hnew⟩ := hmissing
        obtain ⟨j, hj, rfl⟩ := hwf.mem_datagrams.mp hd'
        have hnone := (h.lacks_fill hinv hlets hnow hj).mpr hnew
        exact any_eq_true.mpr ⟨none, mem_of_getElem? hnone, rfl⟩
      rw [if_pos hgap] at hown
      have hlookup : (s.decode A d now tie).rx.assemblies.lookup m'.messageId =
          some (a.fill i (m'.chunk i)) := hown.2
      refine ⟨h.sent, fun b hb => ?_, fun hnone => ?_⟩
      · obtain rfl : a.fill i (m'.chunk i) = b := some.inj (hlookup.symm.trans hb)
        refine ⟨?_, fun j hj => ?_⟩
        · have ha := hlets.assembly
          rw [hlets.assemblies, h.lookup_prune hnow] at ha
          cases hb' : s.rx.assemblies.lookup m'.messageId with
          | none =>
            obtain rfl : Rx.fresh m' now = a := by simpa [hb'] using ha
            exact (htime hd hlets.receivable).1
          | some b =>
            obtain rfl : b = a := by simpa [hb'] using ha
            exact (h.started b hb').1
        · rw [hreceived]
          exact h.lacks_fill hinv hlets hnow hj
      · cases hlookup.symm.trans hnone
    · have hid : m.messageId ≠ m'.messageId := fun hid =>
        hm (hinv.numbered.eq_of_messageId h.sent hlets.sent hid).symm
      have hlookup : (s.decode A d now tie).rx.assemblies.lookup m.messageId =
          s.rx.assemblies.lookup m.messageId := by
        change (s.rx.decodeDatagram A d now tie).2.assemblies.lookup _ = _
        rw [hothers _ hid, if_neg (hevict _ _ _ hlets.authenticated), hlets.assemblies,
          h.lookup_prune hnow]
      refine h.congr h.sent hlookup fun j hj => ?_
      have hne : m.packet A j ≠ d := fun heq => hm
        (hinv.numbered.eq_of_packet h.sent hlets.sent hj hlets.index
          (heq.trans hlets.packet.symm)).1.symm
      simp [hreceived, hne]

/-- **The last datagram of a frame returns it.** -/
theorem Progress.delivers (hinv : Inv A s) (hunforged : s.Unforged A d now)
    (hnow : now < since + assemblyTtl) (hd : d ∈ m.datagrams) (hreceivable : s.Receivable d now)
    (hnew : d ∉ s.received) (hrest : ∀ d' ∈ m.datagrams, d' ≠ d → d' ∈ s.received) (tie : ℕ → ℕ) :
    (s.rx.decodeDatagram A d now tie).1 = .ok (some m.frame) := by
  have hwf := hinv.numbered.wf m h.sent
  rcases hinv.decode_cases hunforged with ⟨e, rx, hauth, -⟩ | ⟨m', i, a, rx, hlets⟩
  · obtain ⟨hp, rx', hok⟩ := hinv.authenticates hunforged hreceivable hnew
    cases hauth.symm.trans hok
  · obtain ⟨j, hj, hpacket⟩ := hwf.mem_datagrams.mp hd
    obtain ⟨rfl, rfl⟩ := hinv.numbered.eq_of_packet h.sent hlets.sent hj hlets.index
      (hpacket.trans hlets.packet.symm)
    obtain ⟨-, -, hown⟩ := Rx.acceptFragment_genuine tie hwf hlets.index hlets.assembly
      hlets.collected hlets.empty
    have hfull : (a.fill j (m.chunk j)).fragments.any (·.isNone) = false := by
      rw [List.any_eq_false]
      intro o ho hnone
      obtain ⟨k, hk, rfl⟩ := getElem_of_mem ho
      have hlt : k < m.count := by
        rwa [(hlets.collected.fill hlets.index hlets.empty).length_fragments] at hk
      have hgap := (h.lacks_fill hinv hlets hnow hlt).mp (by
        rw [getElem?_eq_getElem hk, isNone_iff_eq_none.mp hnone])
      rw [mem_cons, not_or] at hgap
      exact hgap.2 (hrest _ (hwf.mem_datagrams.mpr ⟨k, hlt, rfl⟩) hgap.1)
    rw [hfull] at hown
    rw [Rx.decodeDatagram, hlets.authenticated]
    exact hown.1

end

/-! ### Whole runs -/

theorem step_now_le {op : LinkOp} (h : s.Valid A op) : s.now ≤ (s.step A op).now := by
  cases op with
  | encode | txRekey => exact le_rfl
  | rxRekey => exact h
  | decode => exact h.1

theorem run_now_le {ops : List LinkOp} (h : Run.Along (step A) (Valid A) s ops) :
    s.now ≤ (ops.foldl (step A) s).now := by
  induction ops generalizing s with
  | nil => exact le_rfl
  | cons op ops ih => exact (step_now_le h.1).trans (ih h.2)

theorem run_received_subset (ops : List LinkOp) (s : Link K) :
    s.received ⊆ (ops.foldl (step A) s).received := by
  induction ops generalizing s with
  | nil => exact List.Subset.refl _
  | cons op ops ih =>
    refine List.Subset.trans ?_ (ih (s.step A op))
    cases op with
    | encode | txRekey | rxRekey => exact List.Subset.refl _
    | decode => exact received_subset s ..

/-- A frame on its way stays so while one of its datagrams is still to come. -/
theorem Progress.run {ops : List LinkOp} (h : Progress A m since s)
    (hinv : Inv A s) (hvalid : Run.Along (step A) (Valid A) s ops)
    (htimely : Run.Along (step A) (Timely A m since) s ops)
    (hnow : (ops.foldl (step A) s).now < since + assemblyTtl)
    (hmissing : ∃ d ∈ m.datagrams, d ∉ (ops.foldl (step A) s).received) :
    Progress A m since (ops.foldl (step A) s) := by
  induction ops generalizing s with
  | nil => exact h
  | cons op ops ih =>
    refine ih ?_ (hinv.step hvalid.1) hvalid.2 htimely.2 hnow hmissing
    cases op with
    | encode frame size =>
      refine ⟨?_, h.started, h.absent⟩
      change m ∈ (s.encode A frame size).sent
      simp only [Link.encode]
      split
      · exact mem_append_left _ h.sent
      · exact h.sent
    | txRekey | rxRekey => exact ⟨h.sent, h.started, h.absent⟩
    | decode d now tie =>
      have hle : now ≤ (ops.foldl (step A) (s.decode A d now tie)).now := run_now_le hvalid.2
      obtain ⟨d', hd', hnew⟩ := hmissing
      exact h.decode hinv hvalid.1.2 htimely.1 (hle.trans_lt hnow)
        ⟨d', hd', fun hmem => hnew (run_received_subset ops _ hmem)⟩

/-- **The realtime lane delivers whole genuine frames at most once**, and those whose datagrams
all arrive in time. In every run of a link with fewer than `2^32 - 1` frames, any rekeys,
times that do not go back and any byte strings handed over, as long as none is a forgery:

* the frames returned are frames sealed, none more often than it was sealed;
* a datagram that fails authentication changes neither the window nor an assembly that has
  not expired;
* a frame of which nothing was received yet is returned on the last of its datagrams, if
  they all arrive under a key the receiver holds, within the window, within `ASSEMBLY_TTL` of
  one another, and its assembly is not evicted. -/
theorem realtime_lane_delivers_once (A : LaneAead K) (rawKey sessionId : FixedBytes 32)
    (assemblies bytes now : ℕ) (ops : List LinkOp)
    (hvalid : Run.Along (step A) (Valid A) (start A rawKey sessionId assemblies bytes now) ops) :
    let s := ops.foldl (step A) (start A rawKey sessionId assemblies bytes now)
    s.returned.Subperm (s.sent.map (·.frame)) ∧
    (∀ d now tie, (s.rx.decodeDatagram A d now tie).1 = .error .authentication →
      (s.rx.decodeDatagram A d now tie).2.replay = s.rx.replay ∧
      ∀ id, (s.rx.decodeDatagram A d now tie).2.assemblies.lookup id =
        (s.rx.assemblies.lookup id).filter fun a => !a.expired now) ∧
    ∀ m ∈ s.sent, (∀ d ∈ m.datagrams, d ∉ s.received) →
      ∀ mid d now tie since,
        Run.Along (step A) (Valid A) s (mid ++ [.decode d now tie]) →
        Run.Along (step A) (Timely A m since) s (mid ++ [.decode d now tie]) →
        let s' := mid.foldl (step A) s
        d ∈ m.datagrams → s'.Receivable d now → d ∉ s'.received →
        (∀ d' ∈ m.datagrams, d' ≠ d → d' ∈ s'.received) →
        (s'.rx.decodeDatagram A d now tie).1 = .ok (some m.frame) := by
  intro s
  have hinv : Inv A s := Run.invariant_along (P := Inv A) (fun _ _ hop h => h.step hop)
    (start_inv ..) hvalid
  refine ⟨?_, fun d now tie h => s.rx.refused_without_trace h, ?_⟩
  · obtain ⟨done, hnodup, hsub, hreturned, -⟩ := hinv.returned
    obtain ⟨l, hperm, hsublist⟩ := subperm_of_subset hnodup hsub
    rw [hreturned]
    exact ⟨l.map (·.frame), hperm.map _, hsublist.map _⟩
  · intro m hm hnone mid d now tie since hvalid' htimely s' hd hreceivable hnew hrest
    obtain ⟨hvalidMid, hlast, -⟩ := Run.along_append.mp hvalid'
    obtain ⟨htimelyMid, ⟨htime, -⟩, -⟩ := Run.along_append.mp htimely
    have hnow := (htime hd hreceivable).2
    have hinv' : Inv A s' := Run.invariant_along (P := Inv A) (fun _ _ hop h => h.step hop) hinv
      hvalidMid
    have hprogress := (hinv.progress hm hnone since).run hinv hvalidMid htimelyMid
      (hlast.1.trans_lt hnow) ⟨d, hd, hnew⟩
    exact hprogress.delivers hinv' hlast.2 hnow hd hreceivable hnew hrest tie

/-! ### A sample -/

/-- An AEAD that spells the key in the tag. -/
def plainAead : LaneAead UInt8 where
  deriveKey rawKey _ := rawKey.1.headD 0
  encrypt k _ _ msg := msg ++ List.replicate tagLen k
  decrypt k _ _ c :=
    if c.drop (c.length - tagLen) = List.replicate tagLen k then some (c.take (c.length - tagLen))
    else none
  decrypt_encrypt k _ _ msg := by simp
  length_encrypt k _ _ msg := by simp

/-- It is not forged by handing over what was sealed. -/
theorem plainAead_unforged {s : Link UInt8} (h : Inv plainAead s) {m : Sent UInt8}
    (hm : m ∈ s.sent) (hd : d ∈ m.datagrams) (now : ℕ) : s.Unforged plainAead d now := by
  intro header k p hdecode _ hopen
  refine ⟨m, hm, ?_, hd⟩
  obtain ⟨i, -, rfl⟩ := (h.numbered.wf m hm).mem_datagrams.mp hd
  have hdrop : (m.packet plainAead i).drop headerLen =
      m.chunk i ++ replicate tagLen m.key := by
    rfl
  have hne := isSome_iff_ne_none.mp (isSome_iff_exists.mpr ⟨p, hopen⟩)
  rw [decryptDatagram, hdrop] at hne
  by_contra hkey
  refine hne (if_neg fun htag => hkey ?_)
  have hlen : (m.chunk i ++ replicate tagLen m.key).length - tagLen =
      (m.chunk i).length := by simp
  rw [hlen, drop_left] at htag
  exact (replicate_right_inj (by decide)).mp htag

/-- A frame of 30 bytes. -/
def sampleFrame : Octets := (List.range 30).map UInt8.ofNat

/-- A link after the frame was sealed in two datagrams. -/
def sampleLink : Link UInt8 :=
  [LinkOp.encode sampleFrame 60].foldl (step plainAead)
    (start plainAead (.replicate 32 7) (.replicate 32 1) maxAssemblies maxAssemblyBytes 0)

/-- Its two datagrams. -/
def sampleDatagram (i : ℕ) : Octets := ((sampleLink.sent.flatMap (·.datagrams))[i]?).getD []

/-- The call that sealed them. -/
def sampleSent : Sent UInt8 :=
  .ofCall (.new plainAead (.replicate 32 7) (.replicate 32 1)) sampleFrame 60
    [sampleDatagram 0, sampleDatagram 1]

/-- The receiver is rekeyed, and the second datagram arrives. -/
def sampleMid : List LinkOp :=
  [.rxRekey (.replicate 32 9) (.replicate 32 1) 1, .decode (sampleDatagram 1) 2 id]

/-- The check that a fragment let through by the first half evicts no assembly of a frame. -/
def spares (id : ℕ) (tie : ℕ → ℕ) (now : ℕ) :
    Except RealtimeDatagramError (FragmentHeader × Octets) × Rx UInt8 → Bool
  | (.ok (h, p), rx) => id ∉ rx.evicted tie h p now
  | (.error _, _) => true

theorem not_mem_evicted_of_spares {id : ℕ} {tie : ℕ → ℕ}
    {r : Except RealtimeDatagramError (FragmentHeader × Octets) × Rx UInt8}
    (hspares : spares id tie now r) {h : FragmentHeader} {p : Octets} {rx : Rx UInt8}
    (hr : r = (.ok (h, p), rx)) : id ∉ rx.evicted tie h p now := by
  subst hr
  exact of_decide_eq_true hspares

/-- The second datagram arrives after a rekey of the receiver, then the first. -/
theorem realtime_lane_delivers_once_sample :
    ((sampleMid.foldl (step plainAead) sampleLink).rx.decodeDatagram plainAead (sampleDatagram 0) 5
      id).1 = .ok (some sampleFrame) := by
  have hvalid : Run.Along (step plainAead) (Valid plainAead)
      (start plainAead (.replicate 32 7) (.replicate 32 1) maxAssemblies maxAssemblyBytes 0)
      [.encode sampleFrame 60] := ⟨show 0 + 1 < 2 ^ 32 - 1 by decide, trivial⟩
  have hinv : Inv plainAead sampleLink := (start_inv ..).step hvalid.1
  have hinv' : Inv plainAead (sampleLink.step plainAead
      (.rxRekey (.replicate 32 9) (.replicate 32 1) 1)) := hinv.step (show 0 ≤ 1 by decide)
  have hsent : sampleSent ∈ sampleLink.sent := by decide +kernel
  have hunforged : (sampleLink.step plainAead
      (.rxRekey (.replicate 32 9) (.replicate 32 1) 1)).Valid plainAead
        (.decode (sampleDatagram 1) 2 id) :=
    ⟨show 1 ≤ 2 by decide, plainAead_unforged hinv' hsent (mem_cons_of_mem _
      mem_cons_self) 2⟩
  have hinv'' := hinv'.step hunforged
  refine (realtime_lane_delivers_once plainAead _ _ _ _ _ _ hvalid).2.2 sampleSent hsent
    (by decide +kernel) sampleMid (sampleDatagram 0) 5 id 2 ?_ ?_ mem_cons_self
    (by decide +kernel) (by decide +kernel) (by decide +kernel)
  · exact ⟨show 0 ≤ 1 by decide, hunforged, ⟨show 2 ≤ 5 by decide, plainAead_unforged hinv''
      (m := sampleSent) hsent mem_cons_self 5⟩, trivial⟩
  · refine ⟨trivial, ⟨fun _ _ => ⟨le_rfl, by decide⟩, ?_⟩, ⟨fun _ _ => ⟨by decide, by decide⟩, ?_⟩,
      trivial⟩
    all_goals exact fun _ _ _ => not_mem_evicted_of_spares (by decide +kernel)

end VeilNetwork.Session.Realtime.Link
