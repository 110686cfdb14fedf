import VeilNetwork.Session.Realtime

/-!
# Fragments of the realtime lane

What each half of the codec does, stated so that the runs of the lane never unfold it: a
sealed frame is the list of its fragments, a genuine fragment decodes to the header and the
chunk it was sealed with, expiry and eviction only remove assemblies, and a genuine fragment
that passes the window extends its assembly, or completes it and yields the frame.
-/

namespace VeilNetwork.Session.Realtime

open List Option AList Bytes Chunks Saturating

/-! ### Headers -/

namespace FragmentHeader

/-- The fields fit their places. -/
structure Fits (h : FragmentHeader) : Prop where
  messageId : h.messageId < 2 ^ 32
  sequence : h.sequence < 2 ^ 64

@[simp] theorem length_encode (h : FragmentHeader) : h.encode.length = headerLen := by
  simp [encode, magic, headerLen]

theorem fields_encode {h : FragmentHeader} (hfits : h.Fits) (hvalid : h.Valid) (r : Octets) :
    fields ((h.encode ++ r).drop 4) = some h := by
  obtain ⟨-, -, -, htotal, -, hcount, hindex⟩ := hvalid
  have hdrop : (h.encode ++ r).drop 4 = toBe 4 h.messageId ++
      (toBe 2 h.fragmentIndex ++ (toBe 2 h.fragmentCount ++
        (toBe 4 h.totalLen ++ (toBe 8 h.sequence ++ r)))) := by
    simp [encode, magic]
  have hid := hfits.messageId
  have hseq := hfits.sequence
  have h1 : h.messageId % 256 ^ 4 = h.messageId := Nat.mod_eq_of_lt (by omega)
  have h2 : h.fragmentIndex % 256 ^ 2 = h.fragmentIndex :=
    Nat.mod_eq_of_lt (by simp only [maxFragments] at hcount; omega)
  have h3 : h.fragmentCount % 256 ^ 2 = h.fragmentCount :=
    Nat.mod_eq_of_lt (by simp only [maxFragments] at hcount; omega)
  have h4 : h.totalLen % 256 ^ 4 = h.totalLen :=
    Nat.mod_eq_of_lt (by simp only [maxRealtimeFrame] at htotal; omega)
  have h5 : h.sequence % 256 ^ 8 = h.sequence := Nat.mod_eq_of_lt (by omega)
  rw [hdrop]
  simp only [fields, takeBe_toBe, bind_eq_bind, bind_some, h1, h2, h3, h4, h5]
  rfl

/-- **A header is read back as it was written**, whatever is sealed after it. -/
theorem decode_encode {h : FragmentHeader} (hfits : h.Fits) (hvalid : h.Valid) {r : Octets}
    (hr : tagLen < r.length) : decode (h.encode ++ r) = .ok h := by
  have hlen : ¬ (h.encode ++ r).length < headerLen + tagLen + 1 := by
    rw [length_append, length_encode]
    omega
  have hmagic : (h.encode ++ r).take 4 = magic := by simp [encode, magic]
  rw [decode, if_neg (not_or.mpr ⟨hlen, not_not.mpr hmagic⟩)]
  simp [fields_encode hfits hvalid, hvalid]

end FragmentHeader

section Sealing

variable {K : Type} (A : LaneAead K)

theorem decryptDatagram_sealFragment (k : K) (h : FragmentHeader) (chunk : Octets) :
    decryptDatagram A k h.sequence (Tx.sealFragment A k h chunk) = some chunk := by
  have htake : (Tx.sealFragment A k h chunk).take headerLen = h.encode := by
    rw [Tx.sealFragment, ← h.length_encode, take_left]
  have hdrop : (Tx.sealFragment A k h chunk).drop headerLen =
      A.encrypt k (nonceFor h.sequence) h.encode chunk := by
    rw [Tx.sealFragment, ← h.length_encode, drop_left]
  rw [decryptDatagram, htake, hdrop, A.decrypt_encrypt]

theorem decode_sealFragment {k : K} {h : FragmentHeader} {chunk : Octets} (hfits : h.Fits)
    (hvalid : h.Valid) (hchunk : chunk ≠ []) :
    FragmentHeader.decode (Tx.sealFragment A k h chunk) = .ok h := by
  refine FragmentHeader.decode_encode hfits hvalid ?_
  have := length_pos_iff.mpr hchunk
  rw [A.length_encrypt]
  omega

/-! ### Sealed frames -/

/-- A frame that was sealed: the key, the message id, the first sequence number, the size of
its chunks, and the datagrams that were returned for it. -/
structure Sent (K : Type) where
  key : K
  messageId : ℕ
  firstSequence : ℕ
  chunkLen : ℕ
  frame : Octets
  datagrams : List Octets
deriving DecidableEq

namespace Sent

variable (m : Sent K)

/-- The number of fragments. -/
def count : ℕ := Chunks.count m.chunkLen m.frame

def chunk (i : ℕ) : Octets := Chunks.chunk m.chunkLen m.frame i

def header (i : ℕ) : FragmentHeader :=
  ⟨m.messageId, i, m.count, m.frame.length, m.firstSequence + i⟩

def packet (i : ℕ) : Octets := Tx.sealFragment A m.key (m.header i) (m.chunk i)

/-- The datagrams of the frame. -/
def packets : List Octets := (List.range m.count).map (m.packet A)

/-- What is known of every sealed frame. -/
structure WellFormed : Prop where
  sealed : m.datagrams = m.packets A
  frame_ne : m.frame ≠ []
  frame_le : m.frame.length ≤ maxRealtimeFrame
  chunkLen_pos : 0 < m.chunkLen
  count_le : m.count ≤ maxFragments
  id_pos : 0 < m.messageId
  id_lt : m.messageId < 2 ^ 32
  sequence_pos : 0 < m.firstSequence
  sequence_le : m.firstSequence + m.count < 2 ^ 64

variable {A m}

theorem WellFormed.mem_datagrams (h : m.WellFormed A) {d : Octets} :
    d ∈ m.datagrams ↔ ∃ i < m.count, m.packet A i = d := by
  simp [h.sealed, packets]

variable {i : ℕ}

theorem WellFormed.chunk_ne (h : m.WellFormed A) (hi : i < m.count) : m.chunk i ≠ [] :=
  chunk_ne_nil h.chunkLen_pos hi

theorem WellFormed.header_valid (h : m.WellFormed A) (hi : i < m.count) :
    (m.header i).Valid := by
  have hpos := length_pos_iff.mpr h.frame_ne
  have := h.id_pos
  have := h.sequence_pos
  refine ⟨?_, ?_, ?_, h.frame_le, ?_, h.count_le, hi⟩ <;> simp only [header] <;> omega

theorem WellFormed.decode_packet (h : m.WellFormed A) (hi : i < m.count) :
    FragmentHeader.decode (m.packet A i) = .ok (m.header i) := by
  have := h.sequence_le
  exact decode_sealFragment A ⟨h.id_lt, by simp only [header]; omega⟩ (h.header_valid hi)
    (h.chunk_ne hi)

theorem decrypt_packet (i : ℕ) :
    decryptDatagram A m.key (m.header i).sequence (m.packet A i) = some (m.chunk i) :=
  decryptDatagram_sealFragment A ..

end Sent

/-- Sealing moves the sequence forward and nothing else. -/
theorem sealChunks_frame (messageId count total : ℕ) (chunks : List Octets) (index : ℕ)
    (tx : Tx K) :
    let r := Tx.sealChunks A messageId count total index chunks tx
    r.2.cipher = tx.cipher ∧ r.2.nextMessageId = tx.nextMessageId ∧
      tx.nextSequence ≤ r.2.nextSequence ∧
      (tx.nextSequence ≤ u64Max → r.2.nextSequence ≤ u64Max) := by
  induction chunks generalizing index tx with
  | nil => exact ⟨rfl, rfl, le_rfl, id⟩
  | cons c chunks ih =>
    rw [Tx.sealChunks]
    split
    · exact ⟨rfl, rfl, le_rfl, id⟩
    next hne =>
      obtain ⟨hcipher, hid, hmono, hmax⟩ :=
        ih (index + 1) { tx with nextSequence := tx.nextSequence + 1 }
      dsimp only at hcipher hid hmono hmax
      split <;> rename_i heq <;> rw [heq] at hcipher hid hmono hmax <;>
        exact ⟨hcipher, hid, (Nat.le_succ _).trans hmono, fun hle => hmax (by omega)⟩

/-- Sealing the chunks of a frame from number `index` on. -/
theorem sealChunks_ok {m : Sent K} {k index : ℕ} {tx tx' : Tx K} {encoded : List Octets}
    (hkey : m.key = tx.cipher) (hseq : tx.nextSequence = m.firstSequence + index)
    (hmax : tx.nextSequence ≤ Saturating.u64Max)
    (h : Tx.sealChunks A m.messageId m.count m.frame.length index
      ((List.range' index k).map m.chunk) tx = (.ok encoded, tx')) :
    encoded = (List.range' index k).map (m.packet A) ∧
      tx'.nextSequence = tx.nextSequence + k ∧ tx.nextSequence + k ≤ Saturating.u64Max := by
  induction k generalizing index tx encoded with
  | zero =>
    obtain ⟨rfl, rfl⟩ : encoded = [] ∧ tx' = tx := by
      simpa [Tx.sealChunks, eq_comm] using h
    exact ⟨rfl, rfl, hmax⟩
  | succ k ih =>
    rw [range'_succ, map_cons, Tx.sealChunks] at h
    split at h
    · cases h
    next hne =>
      split at h
      next rest tx'' heq =>
        obtain ⟨rfl, rfl⟩ : encoded = _ ∧ tx' = tx'' := by simpa [eq_comm] using h
        have hseq' : tx.nextSequence + 1 = m.firstSequence + (index + 1) := by omega
        have hmax' : tx.nextSequence + 1 ≤ u64Max := by omega
        have hkey' : m.key = Tx.cipher { tx with nextSequence := tx.nextSequence + 1 } := hkey
        obtain ⟨rfl, hnext, hle⟩ := ih hkey' hseq' hmax' heq
        refine ⟨?_, by simp only at hnext; omega, by simp only at hle; omega⟩
        rw [range'_succ, map_cons, Sent.packet, Sent.header, ← hseq, hkey]
      · cases h

/-- The frame a call of `encode_frame` is given, as it is sealed. -/
def Sent.ofCall (tx : Tx K) (frame : Octets) (maxDatagramSize : ℕ) (datagrams : List Octets) :
    Sent K :=
  ⟨tx.cipher, tx.nextMessageId, tx.nextSequence, maxDatagramSize - (headerLen + tagLen), frame,
    datagrams⟩

/-- **What `encode_frame` returns** are the datagrams of the frame under the current key, with
the next message id and the next sequence numbers. -/
theorem encodeFrame_ok {tx tx' : Tx K} {frame : Octets} {maxDatagramSize : ℕ}
    {encoded : List Octets} (hmax : tx.nextSequence ≤ Saturating.u64Max)
    (h : tx.encodeFrame A frame maxDatagramSize = (.ok encoded, tx')) :
    let m := Sent.ofCall tx frame maxDatagramSize encoded
    encoded = m.packets A ∧ frame ≠ [] ∧ frame.length ≤ maxRealtimeFrame ∧ 0 < m.chunkLen ∧
      m.count ≤ maxFragments ∧ tx'.nextMessageId = tx.bumpMessageId.nextMessageId ∧
      tx'.nextSequence = tx.nextSequence + m.count ∧
      tx.nextSequence + m.count ≤ u64Max := by
  intro m
  unfold Tx.encodeFrame at h
  split at h
  · cases h
  next hframe =>
  split at h
  · cases h
  next hsize =>
  dsimp only at h
  split at h
  · cases h
  next hcount =>
  rw [not_or] at hframe
  have hchunks : chunks m.chunkLen frame = (range' 0 m.count).map m.chunk := by
    rw [← range_eq_range']
    rfl
  have hframe' := sealChunks_frame A tx.nextMessageId m.count frame.length
    (chunks m.chunkLen frame) 0 tx.bumpMessageId
  have hseal := h
  change Tx.sealChunks A m.messageId m.count m.frame.length 0 (chunks m.chunkLen frame)
    tx.bumpMessageId = _ at hseal
  rw [show Tx.sealChunks A tx.nextMessageId m.count frame.length 0
    (chunks m.chunkLen frame) tx.bumpMessageId = (.ok encoded, tx') from h] at hframe'
  rw [hchunks] at hseal
  obtain ⟨hencoded, hnext, hle⟩ := sealChunks_ok A
    (show m.key = tx.bumpMessageId.cipher from rfl) rfl hmax hseal
  refine ⟨?_, hframe.1, not_lt.mp hframe.2, ?_, not_lt.mp hcount, hframe'.2.1, hnext, hle⟩
  · rw [hencoded, ← range_eq_range']
    rfl
  · simp only [m, Sent.ofCall]
    omega

/-- What a call of `encode_frame` does to the sender, whatever it returns. -/
theorem encodeFrame_frame (tx : Tx K) (frame : Octets) (maxDatagramSize : ℕ) :
    let r := tx.encodeFrame A frame maxDatagramSize
    tx.nextSequence ≤ r.2.nextSequence ∧
      (tx.nextSequence ≤ u64Max → r.2.nextSequence ≤ u64Max) ∧
      (r.2.nextMessageId = tx.nextMessageId ∨
        r.2.nextMessageId = tx.bumpMessageId.nextMessageId) := by
  unfold Tx.encodeFrame
  split
  · exact ⟨le_rfl, id, .inl rfl⟩
  split
  · exact ⟨le_rfl, id, .inl rfl⟩
  dsimp only
  split
  · exact ⟨le_rfl, id, .inl rfl⟩
  · obtain ⟨-, hid, hmono, hmax⟩ := sealChunks_frame A tx.nextMessageId
      (count (maxDatagramSize - (headerLen + tagLen)) frame) frame.length
      (chunks (maxDatagramSize - (headerLen + tagLen)) frame) 0 tx.bumpMessageId
    exact ⟨hmono, hmax, .inr hid⟩

end Sealing

/-! ### Assemblies that go -/

namespace Rx

variable {K : Type} {A : LaneAead K} (rx : Rx K)

theorem lookup_removeAssembly (messageId id : ℕ) :
    (rx.removeAssembly messageId).assemblies.lookup id =
      if id = messageId then none else rx.assemblies.lookup id := by
  unfold removeAssembly
  split
  next hnone =>
    split
    next heq => rw [heq, hnone]
    · rfl
  · split
    next heq => rw [heq, lookup_erase]
    next hne => rw [lookup_erase_ne hne]

/-- Removing assemblies leaves the keys and the window alone. -/
theorem removeAssembly_frame (messageId : ℕ) :
    (rx.removeAssembly messageId).cipher = rx.cipher ∧
      (rx.removeAssembly messageId).previous = rx.previous ∧
      (rx.removeAssembly messageId).replay = rx.replay := by
  unfold removeAssembly
  split <;> exact ⟨rfl, rfl, rfl⟩

theorem lookup_foldl_removeAssembly (ids : List ℕ) (rx : Rx K) (id : ℕ) :
    (ids.foldl removeAssembly rx).assemblies.lookup id =
      if id ∈ ids then none else rx.assemblies.lookup id := by
  induction ids generalizing rx with
  | nil => simp
  | cons j ids ih =>
    rw [foldl_cons, ih, lookup_removeAssembly]
    by_cases hid : id ∈ ids
    · simp [hid]
    · by_cases hj : id = j <;> simp [hid, hj]

theorem foldl_removeAssembly_frame (ids : List ℕ) (rx : Rx K) :
    (ids.foldl removeAssembly rx).cipher = rx.cipher ∧
      (ids.foldl removeAssembly rx).previous = rx.previous ∧
      (ids.foldl removeAssembly rx).replay = rx.replay := by
  induction ids generalizing rx with
  | nil => exact ⟨rfl, rfl, rfl⟩
  | cons j ids ih =>
    obtain ⟨h1, h2, h3⟩ := ih (rx.removeAssembly j)
    obtain ⟨g1, g2, g3⟩ := rx.removeAssembly_frame j
    exact ⟨h1.trans g1, h2.trans g2, h3.trans g3⟩

/-- **Expiry removes exactly the expired assemblies.** -/
theorem lookup_prune (now id : ℕ) :
    (rx.prune now).assemblies.lookup id =
      (rx.assemblies.lookup id).filter fun a => !a.expired now := by
  rw [prune, lookup_foldl_removeAssembly]
  have hmem : id ∈ (rx.assemblies.entries.filter fun e => e.2.expired now).map (·.1) ↔
      ∃ a, rx.assemblies.lookup id = some a ∧ a.expired now := by
    simp only [List.mem_map, mem_filter]
    constructor
    · rintro ⟨⟨j, a⟩, ⟨hin, hexp⟩, rfl⟩
      exact ⟨a, mem_lookup_iff.mpr hin, hexp⟩
    · rintro ⟨a, ha, hexp⟩
      exact ⟨⟨id, a⟩, ⟨mem_lookup_iff.mp ha, hexp⟩, rfl⟩
  split
  next hin =>
    obtain ⟨a, ha, hexp⟩ := hmem.mp hin
    rw [ha, filter_some, hexp]
    rfl
  next hnot =>
    cases ha : rx.assemblies.lookup id with
    | none => rfl
    | some a =>
      have : a.expired now = false := by
        by_contra hexp
        exact hnot (hmem.mpr ⟨a, ha, by simpa using hexp⟩)
      rw [filter_some, this]
      rfl

theorem prune_frame (now : ℕ) :
    (rx.prune now).cipher = rx.cipher ∧ (rx.prune now).previous = rx.previous ∧
      (rx.prune now).replay = rx.replay :=
  foldl_removeAssembly_frame _ _

variable {tie : ℕ → ℕ}

theorem oldest_ne_protected {rx : Rx K} {protectedId : Option ℕ} {id : ℕ}
    (h : rx.oldest tie protectedId = some id) : some id ≠ protectedId := by
  obtain ⟨e, he, rfl⟩ := map_eq_some_iff.mp h
  have := argmin_mem he
  simpa using (mem_filter.mp this).2

/-- The protected assembly is never a victim. -/
theorem protected_notMem_victims {id incoming : ℕ} {isNew : Bool} (n : ℕ)
    (rx : Rx K) : id ∉ victims tie (some id) incoming isNew n rx := by
  induction n generalizing rx with
  | zero => simp [victims]
  | succ n ih =>
    rw [victims]
    split
    · split
      · simp
      next j hj =>
        have := oldest_ne_protected hj
        simp only [mem_cons, not_or]
        exact ⟨fun heq => this (congrArg some heq.symm), ih _⟩
    · simp

/-! ### The first half of `decode_datagram` -/

/-- A key the receiver opens datagrams with at a given time. -/
def Holds (now : ℕ) (k : K) : Prop :=
  k = rx.cipher ∨ ∃ deadline, rx.previous = some (k, deadline) ∧ now < deadline

variable {e : RealtimeDatagramError} {d : Octets}

theorem precheck_eq_ok {W : ReplayWindow 128} {sequence : ℕ} :
    precheck W sequence = .ok () ↔ sequence ≠ 0 ∧ W.refuses sequence = false := by
  rw [precheck]
  split
  next hzero => simp [hzero]
  next hpos => cases W.refuses sequence <;> simp [hpos]

/-- What the first half leaves alone when it refuses a datagram. -/
theorem authenticate_error {rx rx' : Rx K} {now : ℕ}
    (h : rx.authenticate A d now = (.error e, rx')) :
    rx'.replay = rx.replay ∧ rx'.assemblies = (rx.prune now).assemblies := by
  obtain ⟨-, -, hreplay⟩ := rx.prune_frame now
  unfold authenticate at h
  dsimp only at h
  split at h
  · cases h
    exact ⟨hreplay, rfl⟩
  split at h
  · cases h
    exact ⟨hreplay, rfl⟩
  split at h
  next rx'' hopen =>
    cases h
    unfold openDatagram at hopen
    split at hopen
    · cases hopen
    split at hopen
    · cases hopen
      exact ⟨hreplay, rfl⟩
    split at hopen
    all_goals
      obtain ⟨-, rfl⟩ := Prod.mk.inj hopen
      exact ⟨hreplay, rfl⟩
  · cases h

variable {h : FragmentHeader}

/-- What is known of a datagram that the first half lets through. -/
theorem authenticate_ok {rx rx' : Rx K} {plaintext : Octets} {now : ℕ}
    (hok : rx.authenticate A d now = (.ok (h, plaintext), rx')) :
    FragmentHeader.decode d = .ok h ∧ rx.replay.refuses h.sequence = false ∧
      (∃ k, rx.Holds now k ∧ decryptDatagram A k h.sequence d = some plaintext) ∧
      rx'.replay = rx.replay.commit h.sequence ∧ rx'.assemblies = (rx.prune now).assemblies := by
  obtain ⟨hcipher, hprevious, hreplay⟩ := rx.prune_frame now
  unfold authenticate at hok
  dsimp only at hok
  split at hok
  · cases hok
  next h' hdecode =>
  split at hok
  · cases hok
  next hpasses =>
  split at hok
  · cases hok
  next p rx'' hopen =>
  obtain ⟨hpair, rfl⟩ := Prod.mk.inj hok
  obtain ⟨rfl, rfl⟩ : h' = h ∧ p = plaintext := by simpa using hpair
  have hkey : (∃ k, rx.Holds now k ∧ decryptDatagram A k h'.sequence d = some p) ∧
      rx'' = rx.prune now := by
    unfold openDatagram at hopen
    split at hopen
    next p' hp =>
      obtain ⟨heq, rfl⟩ := Prod.mk.inj hopen
      exact ⟨⟨_, .inl hcipher, heq ▸ hp⟩, rfl⟩
    split at hopen
    · cases hopen
    next k deadline hprev =>
    split at hopen
    · cases hopen
    next hdeadline =>
      obtain ⟨heq, rfl⟩ := Prod.mk.inj hopen
      exact ⟨⟨k, .inr ⟨deadline, hprevious ▸ hprev, not_le.mp hdeadline⟩, heq⟩, rfl⟩
  obtain ⟨hkey, rfl⟩ := hkey
  rw [hreplay] at hpasses
  exact ⟨hdecode, (precheck_eq_ok.mp hpasses).2, hkey, by simp only [hreplay], rfl⟩

/-- **A fresh datagram under a held key is let through**, if it opens to only one plaintext
under the keys held. -/
theorem authenticate_of_holds {rx : Rx K} {plaintext : Octets} {now : ℕ}
    {k : K} (hdecode : FragmentHeader.decode d = .ok h) (hseq : h.sequence ≠ 0)
    (hfresh : rx.replay.refuses h.sequence = false) (hk : rx.Holds now k)
    (hopen : decryptDatagram A k h.sequence d = some plaintext)
    (hunique : ∀ k' p, rx.Holds now k' → decryptDatagram A k' h.sequence d = some p →
      p = plaintext) :
    ∃ rx', rx.authenticate A d now = (.ok (h, plaintext), rx') := by
  obtain ⟨hcipher, hprevious, hreplay⟩ := rx.prune_frame now
  have hopened : (rx.prune now).openDatagram A h d now = (some plaintext, rx.prune now) := by
    unfold openDatagram
    rw [hcipher, hprevious]
    split
    next p hp => rw [hunique _ p (.inl rfl) hp]
    next hnone =>
      rcases hk with rfl | ⟨deadline, hprev, hlt⟩
      · exact absurd hopen (by simp [hnone])
      · rw [hprev]
        simp only [not_le.mpr hlt, if_false, hopen]
  simp [authenticate, hdecode, hreplay, precheck_eq_ok.mpr ⟨hseq, hfresh⟩, hopened]

/-! ### Genuine fragments -/

/-- What is collected in an assembly is of the frame `m`. -/
structure Matches (m : Sent K) (a : Assembly) : Prop where
  total : a.totalLen = m.frame.length
  fills : Chunks.Fills a.fragments (Chunks.chunks m.chunkLen m.frame)
  stored : a.storedBytes = Chunks.held a.fragments

variable {m : Sent K} {a : Assembly} {i now : ℕ} {rx : Rx K}

theorem Matches.length_fragments (h : Matches m a) : a.fragments.length = m.count := by
  rw [h.fills.length_eq, length_chunks]
  rfl

/-- The assembly a frame starts with. -/
def fresh (m : Sent K) (now : ℕ) : Assembly :=
  ⟨now, m.frame.length, List.replicate m.count none, 0⟩

theorem matches_fresh (m : Sent K) (now : ℕ) : Matches m (fresh m now) := by
  have := fills_replicate (chunks m.chunkLen m.frame)
  rw [length_chunks] at this
  exact ⟨rfl, this, (held_replicate _).symm⟩

theorem Matches.fill (h : Matches m a) (hi : i < m.count) (hempty : a.fragments[i]? = some none) :
    Matches m (a.fill i (m.chunk i)) := by
  refine ⟨h.total, h.fills.set (getElem?_chunks hi), ?_⟩
  rw [Assembly.fill, held_set hempty, h.stored]

/-- What is stored fits the frame. -/
theorem Matches.stored_le (h : Matches m a) (hm : m.WellFormed A) :
    a.storedBytes ≤ m.frame.length := by
  rw [h.stored, ← congrArg length (flatten_chunks hm.chunkLen_pos m.frame)]
  exact h.fills.held_le

/-- **Without a gap the assembly holds the frame.** -/
theorem Matches.complete (h : Matches m a) (hm : m.WellFormed A)
    (hall : a.fragments.any (·.isNone) = false) :
    a.storedBytes = a.totalLen ∧ (a.fragments.map fun o => o.getD []).flatten = m.frame := by
  have hne : ∀ o ∈ a.fragments, o ≠ none := by
    intro o ho hnone
    rw [List.any_eq_false] at hall
    exact hall o ho (by simp [hnone])
  have hflat := flatten_chunks hm.chunkLen_pos m.frame
  refine ⟨?_, ?_⟩
  · rw [h.stored, h.fills.held_eq hne, hflat, h.total]
  · rw [h.fills.complete hne, hflat]

theorem lookup_makeRoom (rx : Rx K) (tie : ℕ → ℕ) (protectedId : Option ℕ) (incoming : ℕ)
    (isNew : Bool) (id : ℕ) :
    (rx.makeRoom tie protectedId incoming isNew).assemblies.lookup id =
      if id ∈ victims tie protectedId incoming isNew rx.assemblies.size rx then none
      else rx.assemblies.lookup id :=
  lookup_foldl_removeAssembly _ _ _

theorem lookup_putAssembly (rx : Rx K) (messageId id added : ℕ) (a : Assembly) :
    (rx.putAssembly messageId a added).assemblies.lookup id =
      if id = messageId then some a else rx.assemblies.lookup id := by
  unfold putAssembly
  split
  next heq => rw [heq, lookup_insert]
  next hne => rw [lookup_insert_ne hne]

/-- **A genuine fragment for an empty place** is filed there, or completes its frame. Other
assemblies change only by eviction. -/
theorem storeFragment_genuine (tie : ℕ → ℕ) (hm : m.WellFormed A) (hi : i < m.count)
    (ha : rx.assemblies.lookup m.messageId = some a) (hmatch : Matches m a)
    (hempty : a.fragments[i]? = some none) :
    let r := rx.storeFragment tie (m.header i) (m.chunk i)
    let gone := victims tie (some m.messageId) (m.chunk i).length false rx.assemblies.size rx
    (∀ id, id ≠ m.messageId → r.2.assemblies.lookup id =
      if id ∈ gone then none else rx.assemblies.lookup id) ∧ r.2.replay = rx.replay ∧
    if (a.fill i (m.chunk i)).fragments.any (·.isNone) then
      r.1 = .ok none ∧ r.2.assemblies.lookup m.messageId = some (a.fill i (m.chunk i))
    else r.1 = .ok (some m.frame) ∧ r.2.assemblies.lookup m.messageId = none := by
  intro r gone
  obtain ⟨room, hroom⟩ : ∃ room, room =
      rx.makeRoom tie (some m.messageId) (m.chunk i).length false := ⟨_, rfl⟩
  have hlookup : ∀ id, room.assemblies.lookup id =
      if id ∈ gone then none else rx.assemblies.lookup id := fun id => by
    rw [hroom, lookup_makeRoom]
  have hown : room.assemblies.lookup m.messageId = some a := by
    rw [hlookup, if_neg (protected_notMem_victims _ _), ha]
  have hreplay : room.replay = rx.replay := hroom ▸ (foldl_removeAssembly_frame _ _).2.2
  have hmatch' := hmatch.fill hi hempty
  have hfits : ¬ a.totalLen < a.storedBytes + (m.chunk i).length := by
    have := hmatch'.stored_le hm
    rw [hmatch.total]
    simpa [Assembly.fill] using this
  have hr : r = if (a.fill i (m.chunk i)).fragments.any (·.isNone) then
        (.ok none, room.putAssembly m.messageId (a.fill i (m.chunk i)) (m.chunk i).length)
      else (.ok (some m.frame), (room.putAssembly m.messageId (a.fill i (m.chunk i))
        (m.chunk i).length).removeAssembly m.messageId) := by
    change rx.storeFragment tie (m.header i) (m.chunk i) = _
    simp only [storeFragment, Sent.header, ha, hempty, ne_eq, not_true, if_false, ← hroom, hown,
      hfits]
    split
    · rfl
    next hall =>
      obtain ⟨hstored, hframe⟩ := hmatch'.complete hm (Bool.eq_false_iff.mpr hall)
      rw [if_neg (not_not.mpr hstored), hframe]
  rw [hr]
  split
  · refine ⟨fun id hne => ?_, hreplay, rfl, ?_⟩
    · rw [lookup_putAssembly, if_neg hne, hlookup]
    · rw [lookup_putAssembly, if_pos rfl]
  · refine ⟨fun id hne => ?_, (removeAssembly_frame _ _).2.2.trans hreplay, rfl, ?_⟩
    · rw [lookup_removeAssembly, if_neg hne, lookup_putAssembly, if_neg hne, hlookup]
    · rw [lookup_removeAssembly, if_pos rfl]

/-- The assemblies that a fragment let through by the first half evicts. -/
def evicted (rx : Rx K) (tie : ℕ → ℕ) (h : FragmentHeader) (plaintext : Octets) (now : ℕ) :
    List ℕ :=
  match rx.assemblies.lookup h.messageId with
  | some _ =>
    victims tie (some h.messageId) plaintext.length false rx.assemblies.size rx
  | none =>
    let started := rx.startAssembly tie h plaintext.length now
    victims tie none plaintext.length true rx.assemblies.size rx ++
      victims tie (some h.messageId) plaintext.length false started.assemblies.size started

/-- **What a genuine fragment does**, be it the first of its frame or a later one. -/
theorem acceptFragment_genuine (tie : ℕ → ℕ) (hm : m.WellFormed A) (hi : i < m.count)
    (ha : (rx.assemblies.lookup m.messageId).getD (fresh m now) = a) (hmatch : Matches m a)
    (hempty : a.fragments[i]? = some none) :
    let r := rx.acceptFragment tie (m.header i) (m.chunk i) now
    (∀ id, id ≠ m.messageId → r.2.assemblies.lookup id =
      if id ∈ rx.evicted tie (m.header i) (m.chunk i) now then none
      else rx.assemblies.lookup id) ∧ r.2.replay = rx.replay ∧
    if (a.fill i (m.chunk i)).fragments.any (·.isNone) then
      r.1 = .ok none ∧ r.2.assemblies.lookup m.messageId = some (a.fill i (m.chunk i))
    else r.1 = .ok (some m.frame) ∧ r.2.assemblies.lookup m.messageId = none := by
  have hguard : ¬ (m.chunk i = [] ∨ (m.header i).totalLen < (m.chunk i).length) := by
    rw [not_or]
    exact ⟨hm.chunk_ne hi, not_lt.mpr (length_chunk_le_length _ _ _)⟩
  cases hlookup : rx.assemblies.lookup m.messageId with
  | some b =>
    obtain rfl : b = a := by simpa [hlookup] using ha
    have hsame : ¬ (b.totalLen ≠ (m.header i).totalLen ∨
        b.fragments.length ≠ (m.header i).fragmentCount) := by
      rw [not_or, not_not, not_not]
      exact ⟨hmatch.total, hmatch.length_fragments⟩
    have hspec := storeFragment_genuine tie hm hi hlookup hmatch hempty
    have hevicted : rx.evicted tie (m.header i) (m.chunk i) now =
        victims tie (some m.messageId) (m.chunk i).length false rx.assemblies.size rx := by
      simp only [evicted, Sent.header, hlookup]
    have hr : rx.acceptFragment tie (m.header i) (m.chunk i) now =
        rx.storeFragment tie (m.header i) (m.chunk i) := by
      rw [acceptFragment, if_neg hguard, show (m.header i).messageId = m.messageId from rfl,
        hlookup]
      exact if_neg hsame
    rwa [hr, hevicted]
  | none =>
    obtain rfl : fresh m now = a := by simpa [hlookup] using ha
    obtain ⟨started, hstarted⟩ : ∃ started, started =
        rx.startAssembly tie (m.header i) (m.chunk i).length now := ⟨_, rfl⟩
    have hput : ∀ id, started.assemblies.lookup id = if id = m.messageId then some (fresh m now)
        else (rx.makeRoom tie none (m.chunk i).length true).assemblies.lookup id := fun id => by
      rw [hstarted, startAssembly, lookup_putAssembly]
      rfl
    have hreplay : started.replay = rx.replay := by
      rw [hstarted]
      exact (foldl_removeAssembly_frame _ rx).2.2
    obtain ⟨hothers, hwindow, hresult⟩ := storeFragment_genuine tie hm hi
      ((hput m.messageId).trans (if_pos rfl)) hmatch hempty
    have hr : rx.acceptFragment tie (m.header i) (m.chunk i) now =
        started.storeFragment tie (m.header i) (m.chunk i) := by
      rw [acceptFragment, if_neg hguard, hstarted]
      simp only [Sent.header, hlookup]
    rw [hr]
    refine ⟨fun id hne => ?_, hwindow.trans hreplay, hresult⟩
    rw [hothers id hne, hput, lookup_makeRoom]
    have hevicted : rx.evicted tie (m.header i) (m.chunk i) now =
        victims tie none (m.chunk i).length true rx.assemblies.size rx ++
          victims tie (some m.messageId) (m.chunk i).length false started.assemblies.size
            started := by
      rw [hstarted]
      simp only [evicted, Sent.header, hlookup]
    rw [hevicted]
    split
    next hsecond => rw [if_pos (mem_append_right _ hsecond)]
    next hsecond =>
      split
      next hfirst => rw [if_pos (mem_append_left _ hfirst)]
      next hfirst => rw [if_neg (by simp [hfirst, hsecond])]

/-! ### What is refused -/

theorem storeFragment_error {rx : Rx K} {p : Octets}
    (he : (rx.storeFragment tie h p).1 = .error e) :
    e = .assemblyOverflow := by
  unfold storeFragment at he
  iterate 2 (split at he; · cases he)
  dsimp only at he
  split at he
  · cases he
  split at he
  · exact (Except.error.inj he).symm
  split at he
  · cases he
  split at he
  · exact (Except.error.inj he).symm
  · cases he

theorem acceptFragment_error {rx : Rx K} {p : Octets} {now : ℕ}
    (he : (rx.acceptFragment tie h p now).1 = .error e) :
    e = .assemblyOverflow ∨ e = .assemblyConflict := by
  unfold acceptFragment at he
  split at he
  · exact .inl (Except.error.inj he).symm
  split at he
  · split at he
    · exact .inr (Except.error.inj he).symm
    · exact .inl (storeFragment_error he)
  · exact .inl (storeFragment_error he)

/-- **A datagram that fails authentication leaves no trace**: the window is as it was, and the
assemblies are those that have not expired. -/
theorem refused_without_trace (rx : Rx K) {now : ℕ}
    (h : (rx.decodeDatagram A d now tie).1 = .error .authentication) :
    (rx.decodeDatagram A d now tie).2.replay = rx.replay ∧
      ∀ id, (rx.decodeDatagram A d now tie).2.assemblies.lookup id =
        (rx.assemblies.lookup id).filter fun a => !a.expired now := by
  unfold decodeDatagram at h ⊢
  split at h
  next e rx' hauth =>
    obtain ⟨hreplay, hassemblies⟩ := authenticate_error hauth
    exact ⟨hreplay, fun id => by simp only [hassemblies, lookup_prune]⟩
  · rcases acceptFragment_error h with he | he <;> cases he

end Rx

end VeilNetwork.Session.Realtime
