import Mathlib.Algebra.Order.Ring.Nat
import Mathlib.Data.List.Induction
import VeilNetwork.Lib.Run
import VeilNetwork.Lib.Saturating

/-!
# The ring of mailbox keys

A node publishes a mailbox key that it derives from its identity and from the epoch its clock is
in. Mail sealed to a key may arrive long after the key was replaced, so the seeds of replaced keys
stay in a ring until a deadline. Rotations are an epoch apart, so the cap on the ring never takes
a seed that is still in use, and while the process runs no published key is lost
(`published_keys_open`).

The ring is in memory only. A node that is started again derives the key of the epoch it is in and
has none of the seeds before it (`restart_loses_key`).
-/

namespace VeilNetwork.E2e

open List Option Nat

open Saturating (add64 u64Max)

def mlkemSeedMinOverlapSecs : ℕ := 7 * 24 * 3600 + 3600 + 6 * 3600

def maxRetiredSeeds : ℕ := 4

inductive RotateRejected
  | overlapTooShort (requested minimum : ℕ)
  | epochNotAdvancing (requested current : ℕ)

/-- An old seed, usable for a while. -/
structure RetiredSeed (S : Type) where
  seed : S
  usableUntil : ℕ

/-- The current key and the seeds of its predecessors, newest first. -/
structure MlKemSeedRing (S K : Type) where
  epoch : ℕ
  seed : S
  ek : K
  retired : List (RetiredSeed S)

variable {S K R : Type}

def RetiredSeed.usable (now : ℕ) (r : RetiredSeed S) : Bool := decide (now ≤ r.usableUntil)

namespace MlKemSeedRing

def new (epoch : ℕ) (seed : S) (ek : K) : MlKemSeedRing S K := ⟨epoch, seed, ek, []⟩

variable (ring : MlKemSeedRing S K)

def decryptSeeds (nowUnix : ℕ) : List S :=
  ring.seed :: (ring.retired.filter (RetiredSeed.usable nowUnix)).map fun r => r.seed

def ratchetSecrets (deriveRatchetX25519Sk : S → R) (ring : MlKemSeedRing S K) (nowUnix : ℕ) :
    List R :=
  deriveRatchetX25519Sk ring.seed ::
    (ring.retired.filter (RetiredSeed.usable nowUnix)).map fun r => deriveRatchetX25519Sk r.seed

/-- A new seed; the old one retires. -/
def rotate (nowUnix epoch : ℕ) (seed : S) (ek : K) (overlapSecs : ℕ) :
    Except RotateRejected (MlKemSeedRing S K) :=
  if overlapSecs < mlkemSeedMinOverlapSecs then
    .error (.overlapTooShort overlapSecs mlkemSeedMinOverlapSecs)
  else if epoch ≤ ring.epoch then .error (.epochNotAdvancing epoch ring.epoch)
  else
    let retired := ⟨ring.seed, add64 nowUnix overlapSecs⟩ :: ring.retired
    .ok ⟨epoch, seed, ek, (retired.filter (RetiredSeed.usable nowUnix)).take maxRetiredSeeds⟩

def prune (nowUnix : ℕ) : MlKemSeedRing S K :=
  { ring with retired := ring.retired.filter (RetiredSeed.usable nowUnix) }

end MlKemSeedRing

def rotationEpoch (nowUnix rotationSecs : ℕ) : ℕ :=
  if rotationSecs = 0 then 0 else nowUnix / rotationSecs

/-! ### The node -/

/-- What happens to a node. -/
inductive NodeEvent
  | start
  | tick
  | prune
  | stop
  deriving DecidableEq

section Node

variable (deriveForEpoch : ℕ → K × S) (rotationSecs : ℕ)

/-- A turn of the rotation task, which does not run when the interval is too short. -/
def rotationTick (ring : MlKemSeedRing S K) (now : ℕ) : MlKemSeedRing S K :=
  if rotationSecs < mlkemSeedMinOverlapSecs then ring
  else
    let want := rotationEpoch now rotationSecs
    if want ≤ ring.epoch then ring.prune now
    else
      match ring.rotate now want (deriveForEpoch want).2 (deriveForEpoch want).1 rotationSecs with
      | .ok ring => ring
      | .error _ => ring

/-- A node that does not run has no ring. -/
def step (node : Option (MlKemSeedRing S K)) (ev : ℕ × NodeEvent) : Option (MlKemSeedRing S K) :=
  match ev.2 with
  | .start =>
    let epoch := rotationEpoch ev.1 rotationSecs
    some (.new epoch (deriveForEpoch epoch).2 (deriveForEpoch epoch).1)
  | .tick => node.map fun ring => rotationTick deriveForEpoch rotationSecs ring ev.1
  | .prune => node.map fun ring => ring.prune ev.1
  | .stop => none

variable (events : List (ℕ × NodeEvent))

/-- The seed of the key that is current at a time of a run. -/
def CurrentAt (t : ℕ) (s : S) : Prop :=
  ∃ before after, events = before ++ after ∧ (∀ ev ∈ before, ev.1 ≤ t) ∧ (∀ ev ∈ after, t ≤ ev.1) ∧
    (before.foldl (step deriveForEpoch rotationSecs) none).map MlKemSeedRing.seed = some s

/-- The node is not started again while another key than the one it then derives may be in use. -/
def RestartsInEpoch : Prop :=
  ∀ before start after, events = before ++ (start, .start) :: after →
    ∀ t s, CurrentAt deriveForEpoch rotationSecs before t s → t ≤ start →
      start ≤ t + mlkemSeedMinOverlapSecs →
      s = (deriveForEpoch (rotationEpoch start rotationSecs)).2

/-- The seeds were retired an epoch apart. -/
structure Spaced (ring : MlKemSeedRing S K) : Prop where
  all : ∀ r ∈ ring.retired, r.usableUntil < (ring.epoch + 2) * rotationSecs
  tail : ∀ r ∈ ring.retired.tail, r.usableUntil < (ring.epoch + 1) * rotationSecs

/-- The ring opens a seed up to a time. -/
def Opens (ring : MlKemSeedRing S K) (s : S) (u : ℕ) : Prop :=
  ring.seed = s ∨ ∃ r ∈ ring.retired, r.seed = s ∧ u ≤ r.usableUntil

variable {deriveForEpoch rotationSecs} {ring : MlKemSeedRing S K} {now u : ℕ} {s : S}

theorem Opens.mem_decryptSeeds (h : Opens ring s u) : s ∈ ring.decryptSeeds u := by
  rcases h with rfl | ⟨r, hr, rfl, hu⟩
  · exact mem_cons_self
  · refine mem_cons_of_mem _ (mem_map.mpr ⟨r, ?_, rfl⟩)
    exact mem_filter.mpr ⟨hr, decide_eq_true hu⟩

theorem Opens.prune (h : Opens ring s u) (hnow : now ≤ u) : Opens (ring.prune now) s u := by
  rcases h with rfl | ⟨r, hr, rfl, hu⟩
  · exact .inl rfl
  · refine .inr ⟨r, mem_filter.mpr ⟨hr, ?_⟩, rfl, hu⟩
    exact decide_eq_true (hnow.trans hu)

theorem Spaced.prune (h : Spaced rotationSecs ring) (now : ℕ) :
    Spaced rotationSecs (ring.prune now) where
  all := fun r hr => h.all r (mem_of_mem_filter hr)
  tail := by
    intro r hr
    have hsub : (ring.retired.filter (RetiredSeed.usable now)).tail.Sublist ring.retired.tail :=
      filter_sublist.tail
    exact h.tail r (hsub.subset hr)

/-- **What a rotation keeps**: at the start of an epoch every seed but the newest is past its
deadline, so that two are left and the cap takes none. -/
theorem Spaced.retired_rotate (h : Spaced rotationSecs ring)
    (hepoch : (ring.epoch + 1) * rotationSecs ≤ now) (new : RetiredSeed S) :
    ((new :: ring.retired).filter (RetiredSeed.usable now)).take maxRetiredSeeds =
      (new :: ring.retired.take 1).filter (RetiredSeed.usable now) := by
  have htail : ring.retired.tail.filter (RetiredSeed.usable now) = [] := by
    refine filter_eq_nil_iff.mpr fun r hr husable => ?_
    exact absurd (h.tail r hr) (not_lt.mpr (hepoch.trans (of_decide_eq_true husable)))
  have hsplit : ring.retired = ring.retired.take 1 ++ ring.retired.tail := by
    rw [← drop_one, take_append_drop]
  have hfilter : (new :: ring.retired).filter (RetiredSeed.usable now) =
      (new :: ring.retired.take 1).filter (RetiredSeed.usable now) := by
    conv_lhs => rw [hsplit]
    rw [← cons_append, filter_append, htail, append_nil]
  rw [hfilter, take_of_length_le]
  refine (length_filter_le _ _).trans ?_
  rw [length_cons, length_take]
  exact succ_le_succ ((min_le_left _ _).trans (by decide))

section

variable (hR : mlkemSeedMinOverlapSecs ≤ rotationSecs)

include hR

variable (deriveForEpoch) in
/-- **A turn of the task**: it removes what is past its deadline, or it retires the current seed. -/
theorem rotationTick_cases (h : Spaced rotationSecs ring) (now : ℕ) :
    rotationTick deriveForEpoch rotationSecs ring now = ring.prune now ∨
    (ring.epoch < now / rotationSecs ∧ rotationTick deriveForEpoch rotationSecs ring now =
      ⟨now / rotationSecs, (deriveForEpoch (now / rotationSecs)).2,
        (deriveForEpoch (now / rotationSecs)).1, (⟨ring.seed, add64 now rotationSecs⟩ ::
          ring.retired.take 1).filter (RetiredSeed.usable now)⟩) := by
  have hpos : 0 < rotationSecs := lt_of_lt_of_le (by decide) hR
  have hwant : rotationEpoch now rotationSecs = now / rotationSecs := if_neg hpos.ne'
  rw [rotationTick, if_neg (not_lt.mpr hR), hwant]
  dsimp only
  split
  · exact .inl rfl
  next hlt =>
    have hlt := not_le.mp hlt
    refine .inr ⟨hlt, ?_⟩
    rw [MlKemSeedRing.rotate, if_neg (not_lt.mpr hR), if_neg (not_le.mpr hlt)]
    dsimp only
    rw [h.retired_rotate ((le_div_iff_mul_le hpos).mp hlt)]

theorem Spaced.tick (h : Spaced rotationSecs ring) (now : ℕ) :
    Spaced rotationSecs (rotationTick deriveForEpoch rotationSecs ring now) := by
  have hpos : 0 < rotationSecs := lt_of_lt_of_le (by decide) hR
  rcases rotationTick_cases deriveForEpoch hR h now with heq | ⟨hlt, heq⟩
  · rw [heq]
    exact h.prune now
  · rw [heq]
    have hold : ∀ r ∈ ring.retired.take 1,
        r.usableUntil < (now / rotationSecs + 1) * rotationSecs := by
      intro r hr
      refine (h.all r (mem_of_mem_take hr)).trans_le (mul_le_mul_right _ ?_)
      omega
    constructor
    · intro r hr
      rcases mem_cons.mp (mem_of_mem_filter hr) with rfl | hr
      · have hnow := lt_div_mul_add (a := now) hpos
        dsimp only
        rw [add64, add_mul]
        omega
      · exact (hold r hr).trans_le (mul_le_mul_right _ (by dsimp only; omega))
    · intro r hr
      have hsub : ((⟨ring.seed, add64 now rotationSecs⟩ :: ring.retired.take 1).filter
          (RetiredSeed.usable now)).tail.Sublist (ring.retired.take 1) :=
        (filter_sublist (p := RetiredSeed.usable now)).tail
      exact hold r (hsub.subset hr)

/-- A turn of the task retires the current seed for long enough. -/
theorem Opens.tick (h : Opens ring s u) (hspaced : Spaced rotationSecs ring) (hnow : now ≤ u)
    (hmax : u ≤ u64Max) (hu : u ≤ now + mlkemSeedMinOverlapSecs) :
    Opens (rotationTick deriveForEpoch rotationSecs ring now) s u := by
  rcases rotationTick_cases deriveForEpoch hR hspaced now with
    heq | ⟨hlt, heq⟩
  · rw [heq]
    exact h.prune hnow
  · rw [heq]
    right
    rcases h with rfl | ⟨r, hr, rfl, hr'⟩
    · have hlong : u ≤ add64 now rotationSecs := Nat.le_min.mpr ⟨by omega, hmax⟩
      exact ⟨⟨ring.seed, add64 now rotationSecs⟩, mem_filter.mpr
        ⟨mem_cons_self, decide_eq_true (hnow.trans hlong)⟩, rfl, hlong⟩
    · refine ⟨r, mem_filter.mpr ⟨mem_cons_of_mem _ ?_, decide_eq_true (hnow.trans hr')⟩,
        rfl, hr'⟩
      -- an older seed would be past its deadline
      have hpos : 0 < rotationSecs := lt_of_lt_of_le (by decide) hR
      have hepoch : (ring.epoch + 1) * rotationSecs ≤ now := (le_div_iff_mul_le hpos).mp hlt
      rcases hretired : ring.retired with _ | ⟨first, rest⟩
      · rw [hretired] at hr
        cases hr
      · rw [hretired] at hr
        rcases mem_cons.mp hr with rfl | hr
        · exact mem_cons_self
        · have hold := hspaced.tail r (by rw [hretired]; exact hr)
          omega

theorem Spaced.step {node : Option (MlKemSeedRing S K)}
    (h : ∀ ring ∈ node, Spaced rotationSecs ring) (ev : ℕ × NodeEvent) :
    ∀ ring ∈ E2e.step deriveForEpoch rotationSecs node ev, Spaced rotationSecs ring := by
  rcases ev with ⟨now, event⟩
  intro ring hring
  cases event with
  | start =>
    cases hring
    exact ⟨nofun, nofun⟩
  | tick =>
    obtain ⟨old, hold, rfl⟩ := map_eq_some_iff.mp hring
    exact (h old hold).tick hR now
  | prune =>
    obtain ⟨old, hold, rfl⟩ := map_eq_some_iff.mp hring
    exact (h old hold).prune now
  | stop => cases hring

/-- **A key that was current stays open** up to a time within the overlap. -/
theorem opens_of_currentAt {events : List (ℕ × NodeEvent)}
    (hrestarts : RestartsInEpoch deriveForEpoch rotationSecs events)
    (hlast : ∀ ev ∈ events, ev.1 ≤ u) (hmax : u ≤ u64Max) {t : ℕ}
    (hcurrent : CurrentAt deriveForEpoch rotationSecs events t s)
    (hu : u ≤ t + mlkemSeedMinOverlapSecs) :
    ∀ ring ∈ events.foldl (step deriveForEpoch rotationSecs) none, Opens ring s u := by
  obtain ⟨before, after, rfl, hbefore, hafter, hseed⟩ := hcurrent
  -- by induction on what happened since: an initial part of it at a time
  have hall : ∀ part rest, after = part ++ rest →
      ∀ ring ∈ (before ++ part).foldl (step deriveForEpoch rotationSecs) none, Opens ring s u := by
    intro part
    induction part using reverseRecOn with
    | nil =>
      intro rest _ ring hring
      rw [append_nil] at hring
      rw [hring] at hseed
      exact .inl (some.inj hseed)
    | append_singleton part ev ih =>
      intro rest hsplit ring hring
      have ih := ih (ev :: rest) (by rw [hsplit, append_assoc]; rfl)
      have hmem : ev ∈ after := by
        rw [hsplit]
        exact mem_append_left _ (mem_append_right _ mem_cons_self)
      have ht := hafter ev hmem
      have hev := hlast ev (mem_append_right _ hmem)
      have hspaced : ∀ ring ∈ (before ++ part).foldl (step deriveForEpoch rotationSecs) none,
          Spaced rotationSecs ring :=
        Run.invariant (P := fun node => ∀ ring ∈ node, Spaced rotationSecs ring)
          (fun _ ev h => Spaced.step hR h ev) (fun _ h => by cases h) _
      rw [← append_assoc, foldl_append] at hring
      rcases ev with ⟨now, event⟩
      cases event with
      | start =>
        cases hring
        refine .inl (hrestarts (before ++ part) now rest ?_ t s
          ⟨before, part, rfl, hbefore, ?_, hseed⟩ ht (hev.trans hu)).symm
        · rw [hsplit]
          simp only [append_assoc, singleton_append]
        · intro ev' hev'
          refine hafter ev' ?_
          rw [hsplit]
          exact mem_append_left _ (mem_append_left _ hev')
      | tick =>
        obtain ⟨old, hold, rfl⟩ := map_eq_some_iff.mp hring
        exact (ih old hold).tick hR (hspaced old hold) hev hmax
          (hu.trans (Nat.add_le_add_right ht _))
      | prune =>
        obtain ⟨old, hold, rfl⟩ := map_eq_some_iff.mp hring
        exact (ih old hold).prune hev
      | stop => cases hring
  exact hall after [] (append_nil _).symm

end

/-- **Mail to a published key opens.** In every run in which the node is not started again while
another key than the one it then derives may still be in use, the ring offers at any later time of
the run the current seed first, and the seed of every key that was current within the overlap; it
offers no seed past its deadline, and the ratchet secrets are those of the same seeds. -/
theorem published_keys_open (hR : mlkemSeedMinOverlapSecs ≤ rotationSecs)
    (events : List (ℕ × NodeEvent)) (hrestarts : RestartsInEpoch deriveForEpoch rotationSecs events)
    (hlast : ∀ ev ∈ events, ev.1 ≤ u) (hmax : u ≤ u64Max)
    (hring : events.foldl (step deriveForEpoch rotationSecs) none = some ring) :
    (ring.decryptSeeds u).head? = some ring.seed ∧
    (∀ t s, CurrentAt deriveForEpoch rotationSecs events t s → t ≤ u →
      u ≤ t + mlkemSeedMinOverlapSecs → s ∈ ring.decryptSeeds u) ∧
    (∀ s ∈ ring.decryptSeeds u, s = ring.seed ∨
      ∃ r ∈ ring.retired, r.seed = s ∧ u ≤ r.usableUntil) ∧
    ∀ deriveRatchetX25519Sk : S → R, ring.ratchetSecrets deriveRatchetX25519Sk u =
      (ring.decryptSeeds u).map deriveRatchetX25519Sk := by
  refine ⟨rfl, fun t s hcurrent _ hu => ?_, fun s hs => ?_, fun f => ?_⟩
  · exact (opens_of_currentAt hR hrestarts hlast hmax hcurrent hu ring hring).mem_decryptSeeds
  · rcases mem_cons.mp hs with rfl | hs
    · exact .inl rfl
    · obtain ⟨r, hr, rfl⟩ := mem_map.mp hs
      obtain ⟨hmem, husable⟩ := mem_filter.mp hr
      exact .inr ⟨r, hmem, rfl, of_decide_eq_true husable⟩
  · rw [MlKemSeedRing.decryptSeeds, map_cons, List.map_map]
    rfl

end Node

/-- Keys that are their epochs. -/
def sampleKeys (epoch : ℕ) : ℕ × ℕ := (epoch, epoch)

/-- A key that is replaced at the start of the next epoch stays open after it. -/
theorem published_keys_open_sample :
    ∃ ring : MlKemSeedRing ℕ ℕ,
      [(10, .start), (630000, .tick)].foldl (step sampleKeys 630000) none = some ring ∧
      0 ∈ ring.decryptSeeds 700000 := by
  have hrun : [(10, .start), (630000, .tick)].foldl (step sampleKeys 630000) none =
      some (⟨1, 1, 1, [⟨0, 1260000⟩]⟩ : MlKemSeedRing ℕ ℕ) := by rfl
  have hrestarts : RestartsInEpoch sampleKeys 630000 [(10, .start), (630000, .tick)] := by
    rintro (_ | ⟨ev, _ | ⟨ev', before⟩⟩) start after heq t s ⟨before', after', hsplit, -, -, hseed⟩
    · obtain ⟨rfl, rfl⟩ := append_eq_nil_iff.mp hsplit.symm
      cases hseed
    · cases heq
    · simp at heq
  refine ⟨_, hrun, ?_⟩
  refine (published_keys_open (R := ℕ) (by decide) _ hrestarts (by decide) (by decide) hrun).2.1
    630000 0 ⟨[(10, .start)], [(630000, .tick)], rfl, by decide, by decide, rfl⟩ (by decide)
    (by decide)

/-- **A restart loses a key**: the key of epoch 0 is current until the node is started again, two
seconds later and in the next epoch. Mail to it does not open. -/
theorem restart_loses_key :
    CurrentAt sampleKeys 630000 [(629999, .start), (630001, .start)] 630000 0 ∧
    ([(629999, .start), (630001, .start)].foldl (step sampleKeys 630000) none).map
      (fun ring => ring.decryptSeeds 630001) = some [1] :=
  ⟨⟨[(629999, .start)], [(630001, .start)], rfl, by decide, by decide, rfl⟩, rfl⟩

end VeilNetwork.E2e
