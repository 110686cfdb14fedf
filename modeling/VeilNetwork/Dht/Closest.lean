import VeilNetwork.Dht.Routing
import VeilNetwork.Lib.Nearest

/-!
# The closest contacts

`find_closest_filtered`: one pass over the eligible contacts of all buckets, with a max-heap of
bounded size. Distances are arrays of bytes and compare from their first byte on; entries of the
heap are distances with the positions of their contacts.

A table names every node once, so the distances to a target are all different, and the pass finds
exactly the nearest ones: `RoutingTable.routing_table_exact`.
-/

namespace VeilNetwork.Dht

open List Option Bytes

/-! ### Distances -/

theorem zipWith_xor_left_cancel {t a b : List UInt8} (ha : t.length = a.length)
    (hb : t.length = b.length)
    (h : List.zipWith (· ^^^ ·) t a = List.zipWith (· ^^^ ·) t b) : a = b := by
  induction t generalizing a b with
  | nil => rw [length_eq_zero_iff.mp ha.symm, length_eq_zero_iff.mp hb.symm]
  | cons x t ih =>
    cases a with
    | nil => cases ha
    | cons y a =>
      cases b with
      | nil => cases hb
      | cons z b =>
        obtain ⟨hhead, htail⟩ := cons.inj h
        rw [ih (Nat.succ.inj ha) (Nat.succ.inj hb) htail, UInt8.xor_right_inj x |>.mp hhead]

/-- Different nodes have different distances. -/
theorem xorDistance_inj {target a b : NodeId} (h : xorDistance target a = xorDistance target b) :
    a = b :=
  Subtype.ext (zipWith_xor_left_cancel (target.2.trans a.2.symm) (target.2.trans b.2.symm)
    (congrArg Subtype.val h))

/-- The order of the heap's entries: by distance, then by position. -/
def RankedLe (a b : NodeId × ℕ) : Prop := a.1.1 < b.1.1 ∨ (a.1 = b.1 ∧ a.2 ≤ b.2)

instance decidableRelRankedLe : DecidableRel RankedLe :=
  fun _ _ => inferInstanceAs (Decidable (_ ∨ _))

theorem rankedLe_iff (a b : NodeId × ℕ) : RankedLe a b ↔
    Bytes.ofBe a.1.1 < Bytes.ofBe b.1.1 ∨ (Bytes.ofBe a.1.1 = Bytes.ofBe b.1.1 ∧ a.2 ≤ b.2) := by
  have hlen : a.1.1.length = b.1.1.length := a.1.2.trans b.1.2.symm
  have heq : a.1 = b.1 ↔ ofBe a.1.1 = ofBe b.1.1 := by
    refine ⟨fun h => by rw [h], fun h => Subtype.ext ?_⟩
    rw [← toBe_ofBe a.1.1, ← toBe_ofBe b.1.1, h, hlen]
  rw [RankedLe, heq, ofBe_lt_ofBe_iff hlen]

instance totalRankedLe : Std.Total RankedLe where
  total a b := by
    rw [rankedLe_iff, rankedLe_iff]
    omega

instance isTransRankedLe : IsTrans (NodeId × ℕ) RankedLe where
  trans a b c := by
    rw [rankedLe_iff, rankedLe_iff, rankedLe_iff]
    omega

namespace RoutingTable

/-! ### The search -/

/-- The distances of some contacts, with their positions. -/
def ranked (target : NodeId) (contacts : List Contact) : List (NodeId × ℕ) :=
  contacts.zipIdx.map fun p => (xorDistance target p.1.nodeId, p.2)

/-- The comparison with the greatest entry: by distance only. -/
def closer (a top : NodeId × ℕ) : Bool := a.1.1 < top.1.1

/-- The nearest of the eligible contacts. -/
def findClosestFiltered (t : RoutingTable) (target : NodeId) (n : ℕ)
    (eligible : Contact → Bool) : List Contact :=
  if n = 0 then []
  else
    ((ranked target (t.allContacts.filter eligible)).foldl
      (Nearest.offer RankedLe closer n) []).filterMap
        fun p => (t.allContacts.filter eligible)[p.2]?

def findClosest (t : RoutingTable) (target : NodeId) (n : ℕ) : List Contact :=
  t.findClosestFiltered target n fun _ => true

section Search

variable {target : NodeId} {contacts : List Contact} {p : NodeId × ℕ}

theorem mem_ranked : p ∈ ranked target contacts ↔
    ∃ c, contacts[p.2]? = some c ∧ p.1 = xorDistance target c.nodeId := by
  rw [ranked, List.mem_map]
  constructor
  · rintro ⟨⟨c, i⟩, hmem, rfl⟩
    exact ⟨c, mem_zipIdx_iff_getElem?.mp hmem, rfl⟩
  · rintro ⟨c, hc, hdist⟩
    exact ⟨(c, p.2), mem_zipIdx_iff_getElem?.mpr hc, Prod.ext hdist.symm rfl⟩

variable {q : NodeId × ℕ}

/-- Entries with one distance are one entry, if every node is named once. -/
theorem eq_of_mem_ranked (hnodup : (contacts.map Contact.nodeId).Nodup)
    (hp : p ∈ ranked target contacts) (hq : q ∈ ranked target contacts) (h : p.1 = q.1) :
    p = q := by
  obtain ⟨c, hc, hpd⟩ := mem_ranked.mp hp
  obtain ⟨c', hc', hqd⟩ := mem_ranked.mp hq
  have hid : c.nodeId = c'.nodeId := xorDistance_inj (hpd.symm.trans (h.trans hqd))
  obtain ⟨hlt, -⟩ := List.getElem?_eq_some_iff.mp hc
  refine Prod.ext h ?_
  refine (getElem?_inj (by rwa [length_map]) hnodup).mp ?_
  rw [getElem?_map, hc, getElem?_map, hc', map_some, map_some, hid]

theorem nodup_ranked (target : NodeId) (contacts : List Contact) :
    (ranked target contacts).Nodup := by
  refine List.Nodup.of_map Prod.snd ?_
  rw [ranked, List.map_map]
  change (contacts.zipIdx.map Prod.snd).Nodup
  rw [zipIdx_map_snd]
  exact nodup_range'

/-- **The answer of a search**: eligible contacts, in strictly increasing distance, as many as
were asked for or all of them, and none left out that is nearer. -/
structure IsClosest (target : NodeId) (n : ℕ) (contacts result : List Contact) : Prop where
  subset : result ⊆ contacts
  sorted : result.Pairwise fun c c' =>
    (xorDistance target c.nodeId).1 < (xorDistance target c'.nodeId).1
  length_eq : result.length = min n contacts.length
  nearest : ∀ c ∈ contacts, c ∉ result → ∀ c' ∈ result,
    (xorDistance target c'.nodeId).1 < (xorDistance target c.nodeId).1

variable {n : ℕ} {heap : List (NodeId × ℕ)}

section

variable (hnodup : (contacts.map Contact.nodeId).Nodup)

include hnodup

theorem lt_of_rankedLe (hp : p ∈ ranked target contacts) (hq : q ∈ ranked target contacts)
    (hle : RankedLe p q) (hne : p ≠ q) : p.1.1 < q.1.1 :=
  hle.resolve_right fun h => hne (eq_of_mem_ranked hnodup hp hq h.1)

/-- What the heap holds is the answer. -/
theorem isClosest_of_kept (h : Nearest.Kept RankedLe n (ranked target contacts) heap) :
    IsClosest target n contacts (heap.filterMap fun p => contacts[p.2]?) where
  subset c hc := by
    obtain ⟨p, -, hp⟩ := mem_filterMap.mp hc
    exact mem_of_getElem? hp
  sorted := by
    have hstrict : heap.Pairwise fun p q => p.1.1 < q.1.1 ∧
        p ∈ ranked target contacts ∧ q ∈ ranked target contacts :=
      (h.sorted.and h.nodup).imp_of_mem fun hp hq hpq => ⟨lt_of_rankedLe hnodup (h.subset hp)
        (h.subset hq) hpq.1 hpq.2, h.subset hp, h.subset hq⟩
    refine hstrict.filterMap _ ?_
    rintro p q ⟨hlt, hp, hq⟩ c hc c' hc'
    obtain ⟨d, hd, hpd⟩ := mem_ranked.mp hp
    obtain ⟨d', hd', hqd⟩ := mem_ranked.mp hq
    obtain rfl := some.inj (hd.symm.trans hc)
    obtain rfl := some.inj (hd'.symm.trans hc')
    rwa [hpd, hqd] at hlt
  length_eq := by
    have hlen : (heap.filterMap fun p => contacts[p.2]?).length = heap.length := by
      refine filterMap_length_eq_length.mpr fun p hp => ?_
      obtain ⟨c, hc, -⟩ := mem_ranked.mp (h.subset hp)
      exact hc ▸ rfl
    rw [hlen, h.length_eq, ranked, length_map, length_zipIdx]
  nearest c hc hout c' hc' := by
    obtain ⟨p', hp', hpc'⟩ := mem_filterMap.mp hc'
    obtain ⟨d', hd', hdist'⟩ := mem_ranked.mp (h.subset hp')
    obtain rfl := some.inj (hd'.symm.trans hpc')
    obtain ⟨i, hi⟩ := mem_iff_getElem?.mp hc
    have hp : (xorDistance target c.nodeId, i) ∈ ranked target contacts :=
      mem_ranked.mpr ⟨c, hi, rfl⟩
    have hnot : (xorDistance target c.nodeId, i) ∉ heap :=
      fun hmem => hout (mem_filterMap.mpr ⟨_, hmem, hi⟩)
    have hlt := lt_of_rankedLe hnodup (h.subset hp') hp (h.least _ hp hnot p' hp')
      fun heq => hnot (heq ▸ hp')
    rwa [hdist'] at hlt

theorem closer_iff (hp : p ∈ ranked target contacts) (hq : q ∈ ranked target contacts)
    (hne : p ≠ q) : closer p q = true ↔ ¬RankedLe q p := by
  rw [closer, decide_eq_true_eq]
  constructor
  · intro hlt hle
    exact List.lt_asymm hlt (lt_of_rankedLe hnodup hq hp hle hne.symm)
  · intro hnot
    exact lt_of_rankedLe hnodup hp hq ((Std.Total.total p q).resolve_right hnot) hne

end

end Search

/-- **The search is exact** in a table that names every node once. -/
theorem isClosest_findClosestFiltered {t : RoutingTable} (h : t.Good) (target : NodeId) (n : ℕ)
    (eligible : Contact → Bool) : IsClosest target n (t.allContacts.filter eligible)
      (t.findClosestFiltered target n eligible) := by
  have hnodup : ((t.allContacts.filter eligible).map Contact.nodeId).Nodup :=
    h.nodup_allContacts.sublist (filter_sublist.map _)
  rw [findClosestFiltered]
  split
  next hn =>
    exact ⟨nil_subset _, List.Pairwise.nil, by rw [hn, Nat.zero_min, length_nil],
      nofun⟩
  · exact isClosest_of_kept hnodup (Nearest.kept_foldl (nodup_ranked target _)
      fun p hp q hq hne => closer_iff hnodup hp hq hne)

/-! ### The main result -/

variable (parseIp : String → Option IpAddr)

/-- **A correct k-bucket table with exact search**, after every run: no contact is the local node,
every node is named at most once and stands in the bucket of its distance, no bucket holds more
than `k`, and a search returns the nearest eligible contacts in increasing distance. -/
theorem routing_table_exact (localId : NodeId) (k : ℕ) (ops : List Op) :
    ∃ t, t = ops.foldl (RoutingTable.step parseIp) (withK localId k) ∧
      (∀ c ∈ t.allContacts, c.nodeId ≠ localId) ∧
      (t.allContacts.map Contact.nodeId).Nodup ∧
      (∀ i, ∀ c ∈ t.buckets i, bucketIndex (xorDistance localId c.nodeId) = i) ∧
      (1 ≤ t.k → ∀ i, (t.buckets i).length ≤ t.k) ∧
      ∀ target n eligible, IsClosest target n (t.allContacts.filter eligible)
        (t.findClosestFiltered target n eligible) := by
  refine ⟨_, rfl, ?_⟩
  have hgood := good_run parseIp localId k ops
  have hlocal := localId_run parseIp localId k ops
  generalize ops.foldl (.step parseIp) (withK localId k) = t at hgood hlocal
  refine ⟨fun c hc => ?_, hgood.nodup_allContacts, fun i c hc => ?_, fun hk i => ?_,
    isClosest_findClosestFiltered hgood⟩
  · obtain ⟨i, -, hmem⟩ := mem_flatMap.mp hc
    exact hlocal ▸ (hgood.placed i c hmem).1
  · rw [← hlocal]
    exact (hgood.placed i c hc).2
  · have hle := hgood.length_le i
    omega

/-! ### A node that is listed -/

/-- No distance is below that of a node to itself. -/
theorem not_zipWith_xor_lt {t a : List UInt8} (h : t.length = a.length) :
    ¬zipWith (· ^^^ ·) t a < zipWith (· ^^^ ·) t t := by
  induction t generalizing a with
  | nil => simp
  | cons x t ih =>
    cases a with
    | nil => cases h
    | cons y a =>
      rw [zipWith_cons_cons, zipWith_cons_cons, cons_lt_cons_iff, UInt8.xor_self]
      rintro (hlt | ⟨-, hlt⟩)
      · exact UInt8.not_lt_zero hlt
      · exact ih (Nat.succ.inj h) hlt

/-- **A search for a node that is listed finds it, and finds it first**, after every run. -/
theorem listed_found_first (localId : NodeId) (k : ℕ) (ops : List Op) :
    ∃ t, t = ops.foldl (RoutingTable.step parseIp) (withK localId k) ∧
      ∀ c ∈ t.allContacts, ∀ n, (t.findClosest c.nodeId (n + 1)).head? = some c := by
  refine ⟨_, rfl, fun c hc n => ?_⟩
  have hclosest := isClosest_findClosestFiltered (good_run parseIp localId k ops) c.nodeId (n + 1)
    fun _ => true
  rw [filter_true] at hclosest
  rw [findClosest]
  generalize findClosestFiltered _ c.nodeId (n + 1) _ = l at hclosest
  have hlength := hclosest.length_eq
  cases l with
  | nil =>
    have hpos := length_pos_of_mem hc
    rw [length_nil] at hlength
    omega
  | cons c' l =>
    -- a first contact other than the node would be nearer to the node than itself
    by_contra hne
    rw [head?_cons, Option.some_inj] at hne
    refine not_zipWith_xor_lt (c.nodeId.2.trans c'.nodeId.2.symm) ?_
    by_cases hmem : c ∈ l
    · exact (pairwise_cons.mp hclosest.sorted).1 c hmem
    · exact hclosest.nearest c hc (by simp [hmem, Ne.symm hne]) c' mem_cons_self

end RoutingTable

end VeilNetwork.Dht
