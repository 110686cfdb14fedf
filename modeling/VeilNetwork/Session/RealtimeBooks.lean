import VeilNetwork.Lib.Run
import VeilNetwork.Session.RealtimeFragments

/-!
# The books of the realtime receiver

What a receiver remembers of the datagrams it has opened. Its window lets a sequence number pass
exactly if it is not zero, was not let pass before and is not too far behind
(`precheck_eq_ok_iff`). Its assemblies are counted to the byte: a datagram may evict, start an
assembly, evict again around it, let it grow and remove it, and whichever way the call ends, both
totals are those of the assemblies that are left and both limits are kept
(`Rx.assemblies_accounted`).
-/

namespace VeilNetwork.Session.Realtime

open List Table Nat Option Bool ReplayWindow

/-! ### The replay window -/

/-- The window after numbers were committed one after the other. -/
def windowAfter (committed : List ℕ) : ReplayWindow 128 :=
  committed.foldl ReplayWindow.commit .empty

/-- **Exactly what was committed is marked**, as far as the window reaches: the highest number
is the largest committed, and a number inside the window is refused if it was committed. -/
theorem refuses_foldl_commit (l : List ℕ) (q : ℕ) :
    (windowAfter l).highest = l.foldl max 0 ∧
      ((windowAfter l).refuses q ↔ q ∈ l ∨ q + 128 ≤ l.foldl max 0) := by
  induction l using reverseRecOn with
  | nil =>
    refine ⟨rfl, ?_⟩
    rw [refuses_iff]
    constructor
    · rintro (hout | hmarked)
      · exact .inr hout
      · exact absurd hmarked (not_marked_empty q)
    · rintro (hmem | hout)
      · cases hmem
      · exact .inl hout
  | append_singleton l r ih =>
    have hstep : windowAfter (l ++ [r]) = (windowAfter l).commit r := foldl_concat ..
    rw [hstep, foldl_concat]
    generalize windowAfter l = W at ih
    obtain ⟨hhigh, hrefuses⟩ := ih
    refine ⟨by rw [highest_commit, hhigh], ?_⟩
    constructor
    · intro h
      rcases (W.commit r).refuses_iff.mp h with hout | hmarked
      · rw [highest_commit, hhigh] at hout
        exact .inr hout
      · rcases W.marked_of_commit hmarked with rfl | hold
        · exact .inl (by simp)
        · rcases hrefuses.mp (W.refuses_iff.mpr (.inr hold)) with hmem | hout
          · exact .inl (mem_append_left _ hmem)
          · exact .inr (by omega)
    · rintro (hmem | hout)
      · rcases mem_append.mp hmem with hmem | hmem
        · exact W.refuses_commit (hrefuses.mpr (.inl hmem))
        · rw [mem_singleton.mp hmem]
          exact W.refuses_commit_self (by decide)
      · rw [refuses_iff, highest_commit, hhigh]
        exact .inl hout

/-- **The window is exact**: after any numbers were committed, one passes the check exactly if
it is at least one, was not committed, and is above the highest or less than 128 below it. -/
theorem precheck_eq_ok_iff (committed : List ℕ) (sequence : ℕ) :
    (windowAfter committed).highest = committed.foldl max 0 ∧
      (precheck (windowAfter committed) sequence = .ok () ↔
        1 ≤ sequence ∧ sequence ∉ committed ∧ ((windowAfter committed).highest < sequence ∨
          (windowAfter committed).highest - sequence < 128)) := by
  obtain ⟨hhigh, hrefuses⟩ := refuses_foldl_commit committed sequence
  refine ⟨hhigh, ?_⟩
  rw [hhigh, precheck]
  split
  next hzero => simp [hzero]
  next hpos =>
    split
    next hrefused =>
      refine iff_of_false (by simp) ?_
      rintro ⟨-, hnew, hwindow⟩
      rcases hrefuses.mp hrefused with hmem | hout
      · exact hnew hmem
      · omega
    next hpasses =>
      refine iff_of_true rfl ⟨by omega, fun hmem => ?_, ?_⟩
      · exact hpasses (hrefuses.mpr (.inl hmem))
      · by_contra hwindow
        exact hpasses (hrefuses.mpr (.inr (by omega)))

namespace Rx

variable {K : Type}

/-! ### The ledger of the assemblies -/

/-- The totals are those of the assemblies, and the limits are kept. -/
structure Booked (rx : Rx K) : Prop where
  bytes : rx.assemblyBytes = rx.assemblies.sum fun _ a => a.storedBytes
  stored : rx.assemblies.All fun _ a =>
    a.storedBytes = Chunks.held a.fragments ∧ a.storedBytes ≤ a.totalLen
  total : rx.assemblies.All fun _ a => a.totalLen ≤ maxRealtimeFrame
  size : rx.assemblies.size ≤ rx.maxAssemblies
  room : rx.assemblyBytes ≤ rx.maxAssemblyBytes
  /-- The limits leave room for one frame. -/
  limits : 1 ≤ rx.maxAssemblies ∧ maxRealtimeFrame ≤ rx.maxAssemblyBytes

variable {rx : Rx K} {tie : ℕ → ℕ} {h : FragmentHeader} {plaintext : Octets} {now : ℕ}

/-- Keys and window do not enter the books. -/
theorem Booked.congr {rx' : Rx K} (hb : rx.Booked) (hassemblies : rx'.assemblies = rx.assemblies)
    (hbytes : rx'.assemblyBytes = rx.assemblyBytes)
    (hlimits : (rx'.maxAssemblies, rx'.maxAssemblyBytes) =
      (rx.maxAssemblies, rx.maxAssemblyBytes)) : rx'.Booked := by
  obtain ⟨hcount, hroom⟩ := Prod.mk.inj hlimits
  constructor
  · rw [hbytes, hassemblies, hb.bytes]
  · rw [hassemblies]
    exact hb.stored
  · rw [hassemblies]
    exact hb.total
  · rw [hassemblies, hcount]
    exact hb.size
  · rw [hbytes, hroom]
    exact hb.room
  · rw [hcount, hroom]
    exact hb.limits

theorem booked_withLimits (A : LaneAead K) (rawRxKey sessionId : FixedBytes 32)
    (assemblies bytes : ℕ) : (withLimits A rawRxKey sessionId assemblies bytes).Booked where
  bytes := rfl
  stored := Table.All.empty
  total := Table.All.empty
  size := zero_le _
  room := zero_le _
  limits := ⟨le_max_left _ _, le_max_left _ _⟩

theorem Booked.removeAssembly (hb : rx.Booked) (messageId : ℕ) :
    (rx.removeAssembly messageId).Booked := by
  rw [Rx.removeAssembly]
  split
  · exact hb
  next a ha =>
    have hsum := sum_erase_of_lookup_eq_some (fun _ a => a.storedBytes) ha
    have hsize := size_erase_of_lookup_eq_some ha
    have hbytes := hb.bytes
    have hcount := hb.size
    have hroom := hb.room
    refine ⟨?_, hb.stored.erase _, hb.total.erase _, ?_, ?_, hb.limits⟩
    · dsimp only
      omega
    · dsimp only
      omega
    · dsimp only
      omega

theorem Booked.removeAll (hb : rx.Booked) (ids : List ℕ) :
    (ids.foldl Rx.removeAssembly rx).Booked :=
  Run.invariant (fun _ id hb => hb.removeAssembly id) hb ids

/-- **Room was made**, or nothing is left that may go. -/
theorem crowded_victims (tie : ℕ → ℕ) (protectedId : Option ℕ) (incoming : ℕ) (isNew : Bool)
    {n : ℕ} (rx : Rx K) (hn : rx.assemblies.size ≤ n) :
    let rx' := (victims tie protectedId incoming isNew n rx).foldl Rx.removeAssembly rx
    rx'.crowded incoming isNew = false ∨
      rx'.assemblies.All fun id _ => some id = protectedId := by
  induction n generalizing rx with
  | zero =>
    right
    intro id a ha
    have hnil : rx.assemblies.entries = [] := eq_nil_of_length_eq_zero (le_zero.mp hn)
    exact absurd (lookup_eq_some_iff.mp ha) (by simp [victims, hnil])
  | succ n ih =>
    rw [victims]
    split
    next hcrowded =>
      split
      next hnone =>
        right
        intro id a ha
        by_contra hne
        rw [oldest, map_eq_none_iff, argmin_eq_none] at hnone
        have hmem : (⟨id, a⟩ : Sigma fun _ : ℕ => Assembly) ∈
            rx.assemblies.entries.filter fun e => some e.1 ≠ protectedId :=
          mem_filter.mpr ⟨lookup_eq_some_iff.mp ha, decide_eq_true hne⟩
        rw [hnone] at hmem
        cases hmem
      next id hid =>
        obtain ⟨e, he, rfl⟩ := map_eq_some_iff.mp hid
        have hin := mem_of_mem_filter (argmin_mem he)
        have hlookup := lookup_eq_some_iff.mpr hin
        have hsize := size_erase_of_lookup_eq_some hlookup
        refine ih _ ?_
        rw [Rx.removeAssembly, hlookup]
        dsimp only
        omega
    next hroom =>
      left
      exact eq_false_iff.mpr hroom

/-! ### Filing a fragment -/

/-- **A new assembly**: room was made for it, so both limits are kept. -/
theorem Booked.startAssembly (hb : rx.Booked) (hvalid : h.Valid)
    (hnew : rx.assemblies.lookup h.messageId = none) (incoming now : ℕ) :
    (rx.startAssembly tie h incoming now).Booked := by
  have hroom := crowded_victims tie none incoming true rx le_rfl
  have hmade := hb.removeAll (victims tie none incoming true rx.assemblies.size rx)
  have hnone : (rx.makeRoom tie none incoming true).assemblies.lookup h.messageId = none := by
    rw [lookup_makeRoom, hnew, ite_self]
  rw [Rx.startAssembly]
  rw [← makeRoom] at hroom hmade
  generalize rx.makeRoom tie none incoming true = rx₁ at hroom hmade hnone
  have hcount : rx₁.assemblies.size < rx₁.maxAssemblies := by
    rcases hroom with hcrowded | hall
    · rw [crowded, Bool.or_eq_false_iff, Bool.true_and, decide_eq_false_iff_not] at hcrowded
      exact not_le.mp hcrowded.1
    · have hempty : rx₁.assemblies.size ≤ (∅ : Table ℕ Assembly).size :=
        size_le_of_lookup fun id a ha => absurd (hall id a ha) (by simp)
      exact lt_of_le_of_lt hempty (lt_of_lt_of_le zero_lt_one hmade.limits.1)
  refine ⟨?_, hmade.stored.insert ⟨(Chunks.held_replicate _).symm, zero_le _⟩,
    hmade.total.insert hvalid.2.2.2.1, ?_, hmade.room, hmade.limits⟩
  · rw [putAssembly, sum_insert_of_lookup_eq_none _ hnone, zero_add]
    exact hmade.bytes
  · rwa [putAssembly, size_insert_of_lookup_eq_none hnone]

/-- Once room was made around an assembly, what it may still take fits the budget. -/
theorem Booked.fits (hb : rx.Booked) {id incoming : ℕ} {a : Assembly}
    (ha : rx.assemblies.lookup id = some a) (hfits : a.storedBytes + incoming ≤ a.totalLen)
    (hroom : rx.crowded incoming false = false ∨
      rx.assemblies.All fun id' _ => some id' = some id) :
    rx.assemblyBytes + incoming ≤ rx.maxAssemblyBytes := by
  rcases hroom with hcrowded | hall
  · rw [crowded, or_eq_false_iff, decide_eq_false_iff_not] at hcrowded
    exact not_lt.mp hcrowded.2
  · -- it is the only one, so the total is its own
    have hsum := sum_erase_of_lookup_eq_some (fun _ a => a.storedBytes) ha
    have hrest : sum (fun _ a => a.storedBytes) (rx.assemblies.erase id) =
        sum (fun _ a => a.storedBytes) (∅ : Table ℕ Assembly) := by
      refine sum_eq_of_lookup _ fun id' => ?_
      rw [lookup_erase_eq_ite]
      split
      · rfl
      next hne =>
        cases hid : rx.assemblies.lookup id' with
        | none => rfl
        | some a' => exact absurd (some.inj (hall id' a' hid)) hne
    have htotal := hb.total id a ha
    have hlimit := hb.limits.2
    have hzero : sum (fun _ a => a.storedBytes) (∅ : Table ℕ Assembly) = 0 := rfl
    rw [hb.bytes]
    omega

/-- **A fragment filed** in an assembly that grows within its length. -/
theorem Booked.putAssembly (hb : rx.Booked) {index : ℕ} {a : Assembly}
    (ha : rx.assemblies.lookup h.messageId = some a) (hslot : a.fragments[index]? = some none)
    (hfits : a.storedBytes + plaintext.length ≤ a.totalLen)
    (hroom : rx.assemblyBytes + plaintext.length ≤ rx.maxAssemblyBytes) :
    (rx.putAssembly h.messageId (a.fill index plaintext) plaintext.length).Booked := by
  have hsum := sum_insert_of_lookup_eq_some (fun _ a => a.storedBytes) ha
    (a.fill index plaintext)
  have hbytes := hb.bytes
  have hstored := hb.stored _ a ha
  refine ⟨?_, hb.stored.insert ⟨?_, hfits⟩, hb.total.insert (hb.total _ a ha), ?_, hroom,
    hb.limits⟩
  · rw [Rx.putAssembly]
    dsimp only [Assembly.fill] at hsum ⊢
    omega
  · rw [Assembly.fill, Chunks.held_set hslot, ← hstored.1]
  · rw [Rx.putAssembly, size_insert_of_lookup_eq_some ha]
    exact hb.size

theorem lookup_makeRoom_protected (rx : Rx K) (tie : ℕ → ℕ) (id incoming : ℕ) :
    (rx.makeRoom tie (some id) incoming false).assemblies.lookup id = rx.assemblies.lookup id := by
  rw [lookup_makeRoom, if_neg (protected_notMem_victims _ rx)]

theorem Booked.storeFragment (hb : rx.Booked) (tie : ℕ → ℕ) (h : FragmentHeader)
    (plaintext : Octets) : (rx.storeFragment tie h plaintext).2.Booked := by
  have hroom := crowded_victims tie (some h.messageId) plaintext.length false rx le_rfl
  have hmade := hb.removeAll
    (victims tie (some h.messageId) plaintext.length false rx.assemblies.size rx)
  have hkept := lookup_makeRoom_protected rx tie h.messageId plaintext.length
  rw [Rx.storeFragment]
  split
  · exact hb
  next present hpresent =>
    split
    · exact hb
    next hslot =>
      dsimp only
      rw [hkept, hpresent]
      dsimp only
      split
      · exact hmade.removeAssembly _
      next hfits =>
        have hlookup := hkept.trans hpresent
        have hput := hmade.putAssembly hlookup (not_not.mp hslot) (not_lt.mp hfits)
          (hmade.fits hlookup (not_lt.mp hfits) hroom)
        split
        · exact hput
        · split <;> exact hput.removeAssembly _

theorem Booked.acceptFragment (hb : rx.Booked) (hvalid : h.Valid) (tie : ℕ → ℕ)
    (plaintext : Octets) (now : ℕ) : (rx.acceptFragment tie h plaintext now).2.Booked := by
  rw [Rx.acceptFragment]
  split
  · exact hb
  · split
    · split
      · exact hb.removeAssembly _
      · exact hb.storeFragment tie h plaintext
    next hnew => exact (hb.startAssembly hvalid hnew _ _).storeFragment tie h plaintext

/-! ### Whole calls -/

variable {A : LaneAead K} {d : Octets}

theorem valid_of_decode (hdecode : FragmentHeader.decode d = .ok h) : h.Valid := by
  rw [FragmentHeader.decode] at hdecode
  split at hdecode
  · cases hdecode
  · split at hdecode
    · cases hdecode
    · split at hdecode
      next hvalid =>
        cases hdecode
        exact hvalid
      · cases hdecode

theorem Booked.openDatagram (hb : rx.Booked) (h : FragmentHeader) (d : Octets) (now : ℕ) :
    (rx.openDatagram A h d now).2.Booked := by
  rw [Rx.openDatagram]
  split
  · exact hb
  · split
    · exact hb
    · split
      · exact hb.congr rfl rfl rfl
      · exact hb

theorem Booked.authenticate (hb : rx.Booked) (d : Octets) (now : ℕ) :
    (rx.authenticate A d now).2.Booked := by
  have hpruned : (rx.prune now).Booked := hb.removeAll _
  rw [Rx.authenticate]
  split
  · exact hpruned
  next h hdecode =>
    have hopened := hpruned.openDatagram (A := A) h d now
    split
    · exact hpruned
    · split
      next rx₂ hopen =>
        rw [hopen] at hopened
        exact hopened
      next p rx₂ hopen =>
        rw [hopen] at hopened
        exact hopened.congr rfl rfl rfl

theorem Booked.decodeDatagram (hb : rx.Booked) (d : Octets) (now : ℕ) (tie : ℕ → ℕ) :
    (rx.decodeDatagram A d now tie).2.Booked := by
  have hauth := hb.authenticate (A := A) d now
  rw [Rx.decodeDatagram]
  split
  next e rx₁ hrefused =>
    rw [hrefused] at hauth
    exact hauth
  next h p rx₁ hok =>
    rw [hok] at hauth
    exact hauth.acceptFragment (valid_of_decode (authenticate_ok hok).1) tie p now

/-! ### What the code takes for granted -/

/-- What `decode_datagram` expects to find while it files a fragment: the assembly with the
fragment's place, the assembly again after room was made around it, and, in a frame without a
gap, every fragment. -/
def FindsAssembly (rx : Rx K) (tie : ℕ → ℕ) (h : FragmentHeader) (plaintext : Octets) : Prop :=
  ∃ present, rx.assemblies.lookup h.messageId = some present ∧
    h.fragmentIndex < present.fragments.length ∧
    (present.fragments[h.fragmentIndex]? = some none →
      ∃ assembly, (rx.makeRoom tie (some h.messageId) plaintext.length false).assemblies.lookup
          h.messageId = some assembly ∧ h.fragmentIndex < assembly.fragments.length ∧
        (¬(assembly.fill h.fragmentIndex plaintext).fragments.any (·.isNone) →
          ∀ o ∈ (assembly.fill h.fragmentIndex plaintext).fragments, o.isSome))

/-- A call of `decode_datagram` finds what it expects. -/
def FindsAll (A : LaneAead K) (rx : Rx K) (d : Octets) (now : ℕ) (tie : ℕ → ℕ) : Prop :=
  ∀ h plaintext rx₁, rx.authenticate A d now = (.ok (h, plaintext), rx₁) →
    match rx₁.assemblies.lookup h.messageId with
    | some existing =>
      existing.totalLen = h.totalLen → existing.fragments.length = h.fragmentCount →
        rx₁.FindsAssembly tie h plaintext
    | none => (rx₁.startAssembly tie h plaintext.length now).FindsAssembly tie h plaintext

theorem findsAssembly_of_lookup {present : Assembly}
    (hpresent : rx.assemblies.lookup h.messageId = some present)
    (hindex : h.fragmentIndex < present.fragments.length) :
    rx.FindsAssembly tie h plaintext := by
  refine ⟨present, hpresent, hindex, fun _ => ⟨present, ?_, hindex, fun hgapless o ho => ?_⟩⟩
  · rw [lookup_makeRoom_protected, hpresent]
  · rw [not_eq_true, List.any_eq_false] at hgapless
    exact isSome_iff_ne_none.mpr fun hnone => hgapless o ho (by rw [hnone]; rfl)

theorem findsAll (A : LaneAead K) (rx : Rx K) (d : Octets) (now : ℕ) (tie : ℕ → ℕ) :
    FindsAll A rx d now tie := by
  intro h plaintext rx₁ hok
  have hindex := (valid_of_decode (authenticate_ok hok).1).2.2.2.2.2.2
  split
  next existing hexisting =>
    intro _ hcount
    exact findsAssembly_of_lookup hexisting (by omega)
  · have hstarted : (rx₁.startAssembly tie h plaintext.length now).assemblies.lookup h.messageId =
        some ⟨now, h.totalLen, replicate h.fragmentCount none, 0⟩ := by
      rw [startAssembly, lookup_putAssembly, if_pos rfl]
    refine findsAssembly_of_lookup hstarted ?_
    rwa [length_replicate]

/-! ### Every run -/

/-- The calls on a receiver. -/
inductive Call where
  | decodeDatagram (datagram : Octets) (now : ℕ) (tie : ℕ → ℕ)
  | prune (now : ℕ)
  | rekey (rawRxKey sessionId : FixedBytes 32) (now : ℕ)

/-- One call. -/
def step (A : LaneAead K) (rx : Rx K) : Call → Rx K
  | .decodeDatagram d now tie => (rx.decodeDatagram A d now tie).2
  | .prune now => rx.prune now
  | .rekey rawRxKey sessionId now => rx.rekey A rawRxKey sessionId now

theorem Booked.step (hb : rx.Booked) (c : Call) : (rx.step A c).Booked := by
  cases c with
  | decodeDatagram => exact hb.decodeDatagram ..
  | prune => exact hb.removeAll ..
  | rekey rawRxKey sessionId now => exact hb.congr rfl rfl rfl

/-- **Reassembly is accounted for exactly and stays within its limits**, along every run of a
receiver and whatever the authentic packets say in their headers: the bytes counted are those
of the assemblies, an assembly counts the bytes of its fragments and no more than its length,
both limits are kept, and a call finds whatever it expects to find. -/
theorem assemblies_accounted (A : LaneAead K) (rawRxKey sessionId : FixedBytes 32)
    (assemblies bytes : ℕ) (calls : List Call) :
    let rx := calls.foldl (step A) (withLimits A rawRxKey sessionId assemblies bytes)
    rx.assemblyBytes = (rx.assemblies.sum fun _ a => a.storedBytes) ∧
      (∀ id a, rx.assemblies.lookup id = some a →
        a.storedBytes = (a.fragments.map fun o => (o.getD []).length).sum ∧
          a.storedBytes ≤ a.totalLen) ∧
      rx.assemblies.size ≤ rx.maxAssemblies ∧ rx.assemblyBytes ≤ rx.maxAssemblyBytes ∧
      ∀ d now tie, FindsAll A rx d now tie := by
  intro rx
  have hbooked : rx.Booked :=
    Run.invariant (fun _ c hb => hb.step c) (booked_withLimits A rawRxKey sessionId _ _) calls
  exact ⟨hbooked.bytes, hbooked.stored, hbooked.size, hbooked.room, findsAll A rx⟩

end Rx

end VeilNetwork.Session.Realtime
