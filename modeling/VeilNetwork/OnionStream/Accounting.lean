import VeilNetwork.Lib.Blocks
import VeilNetwork.OnionStream.Transitions

/-!
# The sender's books

What a sending half has taken from the application, has in flight and has had
acknowledged always adds up. Offsets are counted from the first byte of the stream;
`Accounts` says that the segments in flight tile a stretch that starts at or before
the cumulative point and ends at `sndNxt`, that each carries the bytes the
application wrote at its offsets, and that the queue holds the rest. The invariant
survives every move: a rewind puts the flight back where it came from, a late
acknowledgement of a rewound flight takes it out of the queue again, and a hostile
acknowledgement never passes the ceiling of what was sent.
-/

namespace VeilNetwork.OnionStream

open OnionStream.Core

open List Option Bool Nat UInt32

variable {high : Option ℕ} {W : List UInt8}

/-! ### Tilings -/

/-- The sequence space of a segment. -/
def Body.len (b : Body) : ℕ := if b.isFin then 1 else b.data.length

/-- A segment that starts at offset `a` of the stream `W`: it carries the bytes found
there, or it is a FIN past the end. -/
structure Tile (base : ℕ) (W : List UInt8) (a : ℕ) (b : Body) : Prop where
  seq : b.seq = pos base a
  len_pos : 0 < b.len
  len_lt : b.len < 2 ^ 31
  data : b.isFin = false → Blocks.SegmentOf W a b.data
  fin : b.isFin = true → W.length ≤ a

/-- Segments that follow each other from offset `a` to offset `z`. -/
def Tiles (base : ℕ) (W : List UInt8) : ℕ → List Body → ℕ → Prop
  | a, [], z => a = z
  | a, b :: l, z => Tile base W a b ∧ Tiles base W (a + b.len) l z

section Tilings

variable {base : ℕ} {a z k : ℕ} {b : Body} {l : List Body}

theorem Body.len_eq (hfin : b.isFin = false) : b.len = b.data.length := by
  rw [Body.len, hfin, if_neg Bool.false_ne_true]

/-- Data lies within the stream. -/
theorem Tile.le_length (h : Tile base W a b) (hfin : b.isFin = false) : a + b.len ≤ W.length := by
  rw [Body.len_eq hfin]
  exact (h.data hfin).2

theorem Tile.stop (h : Tile base W a b) : b.stop = pos base (a + b.len) := by
  rw [Body.stop, Body.span, Body.len, h.seq]
  split
  · exact pos_add base a 1
  · exact pos_add base a b.data.length

/-- Bytes appended to a stream do not disturb the segments of its data. -/
theorem Tile.append (h : Tile base W a b) (hfin : b.isFin = false) (data : List UInt8) :
    Tile base (W ++ data) a b := by
  refine ⟨h.seq, h.len_pos, h.len_lt, fun hf => (h.data hf).append data, fun hf => ?_⟩
  rw [hfin] at hf
  cases hf

namespace Tiles

section

variable (h : Tiles base W a l z)

include h

theorem le : a ≤ z := by
  induction l generalizing a with
  | nil => exact h.le
  | cons b l ih => exact (le_add_right _ _).trans (ih h.2)

/-- A point inside the first segment is less than half a range from its start. -/
theorem near (hk : k ≤ z) (hlive : ∀ b ∈ l.head?, k < a + b.len) :
    k < a + 2 ^ 31 := by
  cases l with
  | nil =>
    obtain rfl : a = z := h
    omega
  | cons b l =>
    have := hlive b rfl
    have := h.1.len_lt
    omega

/-- Where a segment of the tiling lies. -/
theorem exists_of_mem (hb : b ∈ l) :
    ∃ o, a ≤ o ∧ Tile base W o b ∧ o + b.len ≤ z := by
  induction l generalizing a with
  | nil => cases hb
  | cons c l ih =>
    obtain ⟨hc, hl⟩ := h
    rcases mem_cons.mp hb with rfl | hb
    · exact ⟨a, le_rfl, hc, hl.le⟩
    · obtain ⟨o, ho, htile, hle⟩ := ih hl hb
      exact ⟨o, (le_add_right _ _).trans ho, htile, hle⟩

/-- A flight of data alone ends within the stream. -/
theorem le_length (hne : l ≠ []) (hfin : ∀ b ∈ l, b.isFin = false) :
    z ≤ W.length := by
  induction l generalizing a with
  | nil => exact absurd rfl hne
  | cons b l ih =>
    obtain ⟨hb, hl⟩ := h
    have hbfin := hfin b mem_cons_self
    cases l with
    | nil =>
      obtain rfl : a + b.len = z := hl
      exact hb.le_length hbfin
    | cons d l => exact ih hl (cons_ne_nil _ _) fun c hc => hfin c (mem_cons_of_mem _ hc)

theorem snoc (hb : Tile base W z b) :
    Tiles base W a (l ++ [b]) (z + b.len) := by
  induction l generalizing a with
  | nil =>
    obtain rfl : a = z := h
    exact ⟨hb, rfl⟩
  | cons c l ih => exact ⟨h.1, ih h.2⟩

theorem append (hfin : ∀ b ∈ l, b.isFin = false) (data : List UInt8) :
    Tiles base (W ++ data) a l z := by
  induction l generalizing a with
  | nil => exact h
  | cons b l ih =>
    exact ⟨h.1.append (hfin b mem_cons_self) data,
      ih h.2 fun c hc => hfin c (mem_cons_of_mem _ hc)⟩

/-- **Retiring**: the segments up to `k` leave, and the rest tiles what is left. -/
theorem retire (ha : a ≤ k) (hz : z < k + 2 ^ 31) (hk : ∀ b ∈ l.head?, k ≤ a + b.len + 2 ^ 31) :
    ∃ a' ≤ k, Tiles base W a' (l.dropWhile fun b => Seq.leq b.stop (pos base k)) (max z k) ∧
      ∀ b ∈ (l.dropWhile fun b => Seq.leq b.stop (pos base k)).head?, k < a' + b.len := by
  induction l generalizing a with
  | nil =>
    obtain rfl : a = z := h
    exact ⟨k, le_rfl, (max_eq_right ha).symm, nofun⟩
  | cons b l ih =>
    obtain ⟨hb, hl⟩ := h
    have hle := hl.le
    have hkb := hk b rfl
    have hcmp : Seq.leq b.stop (pos base k) = decide (a + b.len ≤ k) := by
      rw [hb.stop, leq_pos (by omega) (by omega)]
    rw [dropWhile_cons, hcmp]
    by_cases hstop : a + b.len ≤ k
    · rw [if_pos (decide_eq_true hstop)]
      refine ih hl hstop fun c hc => ?_
      omega
    · rw [if_neg (by simpa using hstop)]
      refine ⟨a, ha, ⟨hb, ?_⟩, fun c hc => ?_⟩
      · rwa [max_eq_left (by omega)]
      · cases hc
        omega

/-- **Rewinding**: the bytes of the flight above `k`, with the rest of the stream
after them, are the stream from `k` on. -/
theorem requeued (hk : k ≤ z) (hz : z ≤ k + 2 ^ 31) (hnear : k < a + 2 ^ 31) :
    Core.requeued (pos base k) l ++ W.drop z = W.drop (max a k) := by
  induction l generalizing a with
  | nil =>
    obtain rfl : a = z := h
    rw [max_eq_left hk]
    rfl
  | cons b l ih =>
    obtain ⟨hb, hl⟩ := h
    have hle := hl.le
    have hpos := hb.len_pos
    have htail := ih hl (by omega)
    have hcons : requeued (pos base k) (b :: l) =
        (if b.isFin then []
          else b.data.drop (if Seq.lt b.seq (pos base k) then (pos base k - b.seq).toNat else 0)) ++
        requeued (pos base k) l := flatMap_cons
    rw [hcons, append_assoc, htail]
    cases hfin : b.isFin with
    | true =>
      have hend := hb.fin hfin
      rw [if_pos rfl, drop_eq_nil_of_le (by omega), drop_eq_nil_of_le (by omega)]
      rfl
    | false =>
      obtain ⟨hdata, -⟩ := hb.data hfin
      have hlen := Body.len_eq hfin
      have hskip : (if Seq.lt b.seq (pos base k) then (pos base k - b.seq).toNat else 0) =
          k - a := by
        rw [hb.seq, lt_pos (by omega) (by omega)]
        split
        next hlt => exact pos_sub (of_decide_eq_true hlt).le (by omega)
        next hge =>
          have := of_decide_eq_false (eq_false_iff.mpr hge)
          omega
      have hend : max (a + b.len) k = a + (k - a) + (b.data.length - (k - a)) := by omega
      rw [hskip, hend, ← drop_drop,
        show max a k = a + (k - a) by omega, ← drop_drop]
      nth_rewrite 1 [hdata]
      rw [drop_take]
      exact take_append_drop _ _

end

end Tiles

end Tilings

/-! ### The invariant -/

/-- **The books of a sending half** on the stream `W`, with the cumulative point at
offset `una`, the next new byte at offset `nxt` and the ceiling of a rewound flight,
if there is one, at offset `high`. -/
structure Accounts (base : ℕ) (W : List UInt8) (una nxt : ℕ) (high : Option ℕ) (c : Core) :
    Prop where
  sndUna : c.sndUna = pos base una
  sndNxt : c.sndNxt = pos base nxt
  rewindHigh : c.rewindHigh = high.map (pos base)
  una_le : una ≤ nxt
  nxt_lt : nxt < una + 2 ^ 31
  /-- The flight starts at or before the cumulative point, inside its first segment. -/
  flight : ∃ a ≤ una, Tiles base W a c.segs nxt ∧ ∀ b ∈ c.segs.head?, una < a + b.len
  pending : c.pending = W.drop nxt
  high_lt : ∀ k ∈ high, una < k ∧ k < una + 2 ^ 31
  /-- A FIN in the rewound flight was past the end of the stream. -/
  rewindFin : c.rewindFin = true → ∃ k ∈ high, W.length < k
  /-- Before the half-close there is no FIN anywhere. -/
  unfinished : c.finRequested = false → nxt ≤ W.length ∧ (∀ k ∈ high, k ≤ W.length) ∧
    c.rewindFin = false ∧ ∀ b ∈ c.segs, b.isFin = false

theorem pos_zero (first : UInt32) : pos first.toNat 0 = first := UInt32.ofNat_toNat

theorem pos_toNat (first : UInt32) (i : ℕ) : pos first.toNat i = first + UInt32.ofNat i := by
  have h := pos_add first.toNat 0 i
  rw [pos_zero, zero_add] at h
  exact h.symm

/-- The end of the offsets ever sent. -/
def topOffset (nxt : ℕ) (high : Option ℕ) : ℕ := high.elim nxt (max nxt)

theorem topOffset_le_iff {nxt m : ℕ} : topOffset nxt high ≤ m ↔ nxt ≤ m ∧ ∀ j ∈ high, j ≤ m := by
  cases high <;> simp [topOffset]

namespace Accounts

variable {base : ℕ} {una nxt k : ℕ} {c : Core} {b : Body}

/-- The books of a sending half that has sent nothing. -/
theorem opened {first : UInt32} (hund : c.sndUna = first) (hnxt : c.sndNxt = first)
    (hpending : c.pending = W) (hsegs : c.segs = []) (hhigh : c.rewindHigh = none)
    (hfin : c.rewindFin = false) : Accounts first.toNat W 0 0 none c := by
  refine ⟨hund.trans (pos_zero first).symm, hnxt.trans (pos_zero first).symm, hhigh, le_rfl,
    show 0 < 0 + 2 ^ 31 by decide, ⟨0, le_rfl, ?_, ?_⟩, hpending, nofun,
    fun hf => ?_, fun _ => ⟨zero_le _, nofun, hfin, ?_⟩⟩
  · rw [hsegs]
    rfl
  · rw [hsegs]
    exact nofun
  · rw [hfin] at hf
    cases hf
  · rw [hsegs]
    exact nofun

section

variable (h : Accounts base W una nxt high c)

include h

/-- Where a segment in flight lies. -/
theorem tile_of_mem (hb : b ∈ c.segs) :
    ∃ o, Tile base W o b ∧ una < o + b.len ∧ o + b.len ≤ nxt := by
  obtain ⟨a, -, htiles, hlive⟩ := h.flight
  cases hsegs : c.segs with
  | nil => rw [hsegs] at hb; cases hb
  | cons d l =>
    rw [hsegs] at hb htiles hlive
    obtain ⟨hd, hl⟩ := htiles
    have hlive := hlive d rfl
    rcases mem_cons.mp hb with rfl | hb
    · exact ⟨a, hd, hlive, hl.le⟩
    · obtain ⟨o, ho, htile, hle⟩ := hl.exists_of_mem hb
      exact ⟨o, htile, by omega, hle⟩

theorem topOffset_lt :
    nxt ≤ topOffset nxt high ∧ topOffset nxt high < una + 2 ^ 31 := by
  cases high with
  | none => exact ⟨le_rfl, h.nxt_lt⟩
  | some k => exact ⟨le_max_left _ _, max_lt h.nxt_lt (h.high_lt k rfl).2⟩

theorem ceiling_eq :
    c.ceiling = pos base (topOffset nxt high) := by
  have hle := h.una_le
  have hlt := h.nxt_lt
  rw [ceiling, h.rewindHigh, h.sndNxt]
  cases high with
  | none => rfl
  | some k =>
    have hk := h.high_lt k rfl
    exact max_pos (by omega) (by omega)

/-- What one segment allows: its start, or how far it lies below the ceiling of a rewound
flight. -/
theorem allowed_pos {o : ℕ} (htile : Tile base W o b)
    (hlive : una < o + b.len) (hend : o + b.len ≤ nxt) :
    c.allowed b = pos base (min (topOffset nxt high)
      (high.elim (max o una) fun j => max (max o una) (min j (o + b.len)))) := by
  have hlen := htile.len_lt
  have htop := h.topOffset_lt
  have hknown : Seq.max b.seq c.sndUna = pos base (max o una) := by
    rw [htile.seq, h.sndUna, max_pos (by omega) (by omega)]
  rw [allowed, hknown, h.ceiling_eq, h.rewindHigh]
  cases high with
  | none => exact min_pos (by omega) (by omega)
  | some k =>
    have hk := h.high_lt k rfl
    simp only [map_some, elim_some]
    rw [htile.stop, min_pos (by omega) (by omega), max_pos (by omega) (by omega)]
    exact min_pos (by omega) (by omega)

/-- What one segment allows is an offset between the cumulative point and the end. -/
theorem allowed_eq (hb : b ∈ c.segs) :
    ∃ l, c.allowed b = pos base l ∧ una ≤ l ∧ l ≤ topOffset nxt high := by
  obtain ⟨o, htile, hlive, hend⟩ := h.tile_of_mem hb
  have htop := h.topOffset_lt
  refine ⟨_, h.allowed_pos htile hlive hend, ?_, min_le_left _ _⟩
  cases high with
  | none =>
    simp only [elim_none]
    omega
  | some k =>
    simp only [elim_some]
    omega

/-- **No acknowledgement passes what was sent**: one that the ceilings let through and
that is above the cumulative point names an offset that was sent. -/
theorem ack_eq {ack : UInt32}
    (hlimit : ∃ limit ∈ c.ceiling :: c.segs.map c.allowed, Seq.gt ack limit = false)
    (hack : Seq.gt ack c.sndUna = true) :
    ∃ k, ack = pos base k ∧ una < k ∧ k ≤ topOffset nxt high := by
  have htop := h.topOffset_lt
  have hle := h.una_le
  obtain ⟨l, hl, hul, hlt⟩ : ∃ l, Seq.gt ack (pos base l) = false ∧ una ≤ l ∧
      l ≤ topOffset nxt high := by
    obtain ⟨limit, hmem, hgt⟩ := hlimit
    rcases mem_cons.mp hmem with rfl | hmem
    · exact ⟨_, h.ceiling_eq ▸ hgt, by omega, le_rfl⟩
    · obtain ⟨b, hb, rfl⟩ := mem_map.mp hmem
      obtain ⟨l, hl, h₁, h₂⟩ := h.allowed_eq hb
      exact ⟨l, hl ▸ hgt, h₁, h₂⟩
  have hname := eq_pos_add ack base una
  generalize hd : (ack - pos base una).toNat = d at hname
  rw [h.sndUna] at hack
  -- above the cumulative point in the modular order: at most half a range away
  have hhalf : 0 < d ∧ d ≤ 2 ^ 31 := hd ▸ Seq.gt_iff.mp hack
  refine ⟨una + d, hname, by omega, ?_⟩
  rw [hname, gt_pos (by omega) (by omega)] at hl
  have := of_decide_eq_false hl
  omega

/-- Nothing in flight: the cumulative point has caught up. -/
theorem nxt_eq_una (hsegs : c.segs = []) : nxt = una := by
  obtain ⟨a, ha, htiles, -⟩ := h.flight
  rw [hsegs] at htiles
  obtain rfl : a = nxt := htiles
  exact le_antisymm ha h.una_le

theorem una_lt_nxt (hsegs : c.segs ≠ []) : una < nxt := by
  obtain ⟨b, l, hcons⟩ := exists_cons_of_ne_nil hsegs
  obtain ⟨o, -, hlive, hend⟩ := h.tile_of_mem (hcons ▸ mem_cons_self : b ∈ c.segs)
  exact hlive.trans_le hend

/-- The flight after an acknowledgement of the offsets below `k`. -/
theorem flight_retire (hk : una < k) (htop : k ≤ topOffset nxt high) :
    ∃ a ≤ k, Tiles base W a (c.retire (pos base k)).segs (max nxt k) ∧
      ∀ b ∈ (c.retire (pos base k)).segs.head?, k < a + b.len := by
  obtain ⟨a, ha, htiles, hlive⟩ := h.flight
  have hlt := h.topOffset_lt
  refine htiles.retire (ha.trans hk.le) (by omega) fun b hb => ?_
  have := hlive b hb
  omega

end

theorem mem_segs_of_retire {ack : UInt32} (hb : b ∈ (c.retire ack).segs) : b ∈ c.segs :=
  (dropWhile_sublist _).subset hb

/-- What a late acknowledgement leaves of the queue is the stream above the new
cumulative point: a FIN of the rewound flight took a sequence number but no byte. -/
theorem pending_trim {j : ℕ} (h : Accounts base W una nxt (some j) c) (hlate : nxt < k)
    (htop : k ≤ max nxt j) :
    c.pending.drop (if c.rewindFin && decide (j ≤ k) then
        (pos base k - c.sndNxt).toNat - 1 else (pos base k - c.sndNxt).toNat) = W.drop k := by
  have hj := h.high_lt j rfl
  have hle := h.una_le
  rw [h.sndNxt, pos_sub hlate.le (by omega), h.pending, drop_drop]
  split
  next hfin =>
    obtain ⟨hfin, hjk⟩ := and_eq_true_iff.mp hfin
    obtain ⟨i, hi, hend⟩ := h.rewindFin hfin
    cases hi
    have hjk := of_decide_eq_true hjk
    rw [drop_eq_nil_of_le (by omega), drop_eq_nil_of_le (by omega)]
  · rw [show nxt + (k - nxt) = k by omega]

/-- The books of a sending half whose rewound flight was acknowledged up to `k`. -/
theorem of_trim {j : ℕ} (h : Accounts base W una nxt (some j) c) (hk : una < k)
    (htop : k ≤ max nxt j) (c' : Core) (hund : c'.sndUna = pos base k)
    (hnxt : c'.sndNxt = pos base (max nxt k)) (hsegs : c'.segs = (c.retire (pos base k)).segs)
    (hpending : c'.pending = W.drop (max nxt k)) (hreq : c'.finRequested = c.finRequested)
    (hhigh : c'.rewindHigh = none ∧ j ≤ k ∧ c'.rewindFin = false ∨
      c'.rewindHigh = some (pos base j) ∧ k < j ∧ c'.rewindFin = c.rewindFin) :
    Accounts base W k (max nxt k) ((some j).filter fun j => decide (k < j)) c' := by
  have hlt := h.topOffset_lt
  have hj := h.high_lt j rfl
  have hfilter : ∀ i ∈ (some j).filter fun j => decide (k < j), i = j ∧ k < j := by
    intro i hi
    obtain ⟨hi, hlt⟩ := filter_eq_some_iff.mp hi
    cases hi
    exact ⟨rfl, of_decide_eq_true hlt⟩
  refine ⟨hund, hnxt, ?_, le_max_right _ _, by omega, ?_, hpending, ?_, ?_, ?_⟩
  · rcases hhigh with ⟨hnone, hjk, -⟩ | ⟨hsome, hjk, -⟩
    · rw [hnone, filter_some, if_neg (by simpa using hjk)]
      rfl
    · rw [hsome, filter_some, if_pos (by simpa using hjk)]
      rfl
  · rw [hsegs]
    exact h.flight_retire hk htop
  · intro i hi
    obtain ⟨rfl, hki⟩ := hfilter i hi
    exact ⟨hki, by omega⟩
  · intro hfin
    rcases hhigh with ⟨-, -, hno⟩ | ⟨-, hkj, hsame⟩
    · rw [hno] at hfin
      cases hfin
    · obtain ⟨i, hi, hend⟩ := h.rewindFin (hsame ▸ hfin)
      cases hi
      exact ⟨j, by rw [filter_some, if_pos (decide_eq_true hkj)]; rfl, hend⟩
  · intro hopen
    obtain ⟨hu₁, hu₂, hu₃, hu₄⟩ := h.unfinished (hreq ▸ hopen)
    have hjW := hu₂ j rfl
    refine ⟨by omega, fun i hi => (hfilter i hi).1 ▸ hjW, ?_,
      fun b hb => hu₄ b (mem_segs_of_retire (hsegs ▸ hb))⟩
    rcases hhigh with ⟨-, -, hno⟩ | ⟨-, -, hsame⟩
    · exact hno
    · rw [hsame, hu₃]

section

variable (h : Accounts base W una nxt high c)

include h

/-- **An acknowledgement** of the offsets below `k`. -/
theorem advance (hk : una < k) (htop : k ≤ topOffset nxt high) :
    Accounts base W k (max nxt k) (high.filter fun j => decide (k < j))
      (c.advance (pos base k)) := by
  have hnxt := h.nxt_lt
  rw [Core.advance, Core.trim,
    show (c.retire (pos base k)).rewindHigh = high.map (pos base) from h.rewindHigh]
  cases high with
  | none =>
    have hmax : max nxt k = nxt := max_eq_left htop
    have hflight := h.flight_retire hk htop
    rw [hmax] at hflight ⊢
    refine ⟨rfl, h.sndNxt, h.rewindHigh, htop, by omega, hflight, h.pending,
      fun j hj => absurd hj (by simp), fun hfin => ?_, fun hopen => ?_⟩
    · obtain ⟨j, hj, -⟩ := h.rewindFin hfin
      cases hj
    obtain ⟨hu₁, -, hu₃, hu₄⟩ := h.unfinished hopen
    exact ⟨hu₁, fun j hj => absurd hj (by simp), hu₃, fun b hb => hu₄ b (mem_segs_of_retire hb)⟩
  | some j =>
    have hj := h.high_lt j rfl
    have hle := h.una_le
    have htop' : k ≤ max nxt j := htop
    have hnxt' : (c.retire (pos base k)).sndNxt = pos base nxt := h.sndNxt
    have hgt : Seq.gt (pos base k) (c.retire (pos base k)).sndNxt = decide (nxt < k) := by
      rw [hnxt', gt_pos (by omega) (by omega)]
    have hgeq : Seq.geq (pos base k) (pos base j) = decide (j ≤ k) :=
      geq_pos (by omega) (by omega)
    simp only [map_some, hgt, hgeq]
    have hbooks := h.of_trim hk htop'
    -- whether the acknowledgement is past `sndNxt`, and whether it reaches the ceiling
    rcases lt_or_ge nxt k with hlate | hcovered
    · rw [max_eq_right hlate.le] at hbooks ⊢
      rw [if_pos (decide_eq_true hlate)]
      have hpending := h.pending_trim hlate htop'
      rcases lt_or_ge k j with hkj | hjk
      · rw [if_neg (by simpa using hkj)]
        exact hbooks _ rfl rfl rfl hpending rfl (.inr ⟨rfl, hkj, rfl⟩)
      · rw [if_pos (decide_eq_true hjk)]
        exact hbooks _ rfl rfl rfl hpending rfl (.inl ⟨rfl, hjk, rfl⟩)
    · rw [max_eq_left hcovered] at hbooks ⊢
      rw [if_neg (c := decide (nxt < k) = true) (by simpa using hcovered)]
      rcases lt_or_ge k j with hkj | hjk
      · rw [if_neg (by simpa using hkj)]
        exact hbooks _ rfl hnxt' rfl h.pending rfl (.inr ⟨h.rewindHigh, hkj, rfl⟩)
      · rw [if_pos (decide_eq_true hjk)]
        exact hbooks _ rfl hnxt' rfl h.pending rfl (.inl ⟨rfl, hjk, rfl⟩)

/-- **A rewind**: the whole flight goes back in front of the queue. -/
theorem rewound (hsegs : c.segs ≠ []) :
    Accounts base W una una (some (topOffset nxt high)) c.rewound := by
  have hlt := h.topOffset_lt
  have hpos := h.una_lt_nxt hsegs
  obtain ⟨a, ha, htiles, hlive⟩ := h.flight
  have hnear := htiles.near h.una_le hlive
  have hfin : c.segs.any Body.isFin = true → W.length < nxt := by
    intro hany
    obtain ⟨b, hb, hbfin⟩ := any_eq_true.mp hany
    obtain ⟨o, htile, -, hend⟩ := h.tile_of_mem hb
    have := htile.fin hbfin
    have := htile.len_pos
    omega
  refine ⟨h.sndUna, h.sndUna, ?_, le_rfl, by omega, ⟨una, le_rfl, rfl, fun b hb => absurd hb (by
    rw [Core.rewound]; simp)⟩, ?_, ?_, ?_, ?_⟩
  · rw [Core.rewound, h.rewindHigh, h.sndNxt]
    cases high with
    | none => rfl
    | some j =>
      have hj := h.high_lt j rfl
      exact congrArg some ((max_pos (by omega) (by omega)).trans (by rw [max_comm]; rfl))
  · rw [Core.rewound, h.sndUna, h.pending]
    rw [htiles.requeued h.una_le (by omega) hnear, max_eq_right ha]
  · intro k hk
    cases hk
    exact ⟨by omega, hlt.2⟩
  · intro hre
    refine ⟨_, rfl, ?_⟩
    rcases or_eq_true_iff.mp hre with hre | hany
    · obtain ⟨j, rfl, hj⟩ := h.rewindFin hre
      exact hj.trans_le (le_max_right _ _)
    · exact (hfin hany).trans_le hlt.1
  · intro hopen
    obtain ⟨hu₁, hu₂, hu₃, hu₄⟩ := h.unfinished hopen
    refine ⟨by omega, ?_, ?_, fun b hb => absurd hb (by rw [Core.rewound]; simp)⟩
    · intro k hk
      cases hk
      cases high with
      | none => exact hu₁
      | some j => exact max_le hu₁ (hu₂ j rfl)
    · rw [Core.rewound, hu₃, Bool.false_or, List.any_eq_false]
      exact fun b hb => by simp [hu₄ b hb]

/-- The flight with one more segment. -/
theorem flight_snoc (hb : Tile base W nxt b) :
    ∃ a ≤ una, Tiles base W a (c.segs ++ [b]) (nxt + b.len) ∧
      ∀ d ∈ (c.segs ++ [b]).head?, una < a + d.len := by
  obtain ⟨a, ha, htiles, hlive⟩ := h.flight
  refine ⟨a, ha, htiles.snoc hb, ?_⟩
  cases hsegs : c.segs with
  | nil =>
    intro d hd
    cases hd
    rw [hsegs] at htiles
    obtain rfl : a = nxt := htiles
    have := hb.len_pos
    have := h.una_le
    omega
  | cons e l =>
    intro d hd
    exact hlive d (hsegs ▸ hd)

/-- **New data** leaves the queue. -/
theorem sendData {n : ℕ} (hpos : 0 < n)
    (hle : n ≤ c.pending.length) (hroom : nxt + n < una + 2 ^ 31) :
    Accounts base W una (nxt + n) high (c.sendData n) := by
  have hW : nxt + n ≤ W.length := by
    rw [h.pending, length_drop] at hle
    omega
  have hlen : (c.pending.take n).length = n := length_take_of_le hle
  have htile : Tile base W nxt ⟨c.sndNxt, c.pending.take n, false⟩ := by
    have hblen : Body.len ⟨c.sndNxt, c.pending.take n, false⟩ = n := hlen
    have := h.una_le
    refine ⟨h.sndNxt, by rw [hblen]; exact hpos, by rw [hblen]; omega, fun _ => ⟨?_, ?_⟩,
      nofun⟩
    · rw [hlen, h.pending]
    · rwa [hlen]
  have hsnoc := h.flight_snoc htile
  rw [show Body.len ⟨c.sndNxt, c.pending.take n, false⟩ = n from hlen] at hsnoc
  refine ⟨h.sndUna, ?_, h.rewindHigh, h.una_le.trans (le_add_right _ _), hroom, hsnoc, ?_,
    h.high_lt, h.rewindFin, fun hopen => ?_⟩
  · rw [Core.sendData, h.sndNxt, pos_add]
  · rw [Core.sendData, h.pending, drop_drop]
  · obtain ⟨-, hu₂, hu₃, hu₄⟩ := h.unfinished hopen
    refine ⟨hW, hu₂, hu₃, fun b hb => ?_⟩
    rcases mem_append.mp hb with hb | hb
    · exact hu₄ b hb
    · rw [mem_singleton.mp hb]

/-- **The FIN** follows the last byte. -/
theorem sendFin (hpending : c.pending = [])
    (hreq : c.finRequested = true) (hroom : nxt + 1 < una + 2 ^ 31) :
    Accounts base W una (nxt + 1) high c.sendFin := by
  have hW : W.length ≤ nxt := by
    rw [h.pending, drop_eq_nil_iff] at hpending
    exact hpending
  have htile : Tile base W nxt ⟨c.sndNxt, [], true⟩ :=
    ⟨h.sndNxt, Nat.one_pos, show 1 < 2 ^ 31 by decide, nofun, fun _ => hW⟩
  refine ⟨h.sndUna, ?_, h.rewindHigh, h.una_le.trans (le_succ _), hroom,
    h.flight_snoc htile, ?_, h.high_lt, h.rewindFin, fun hopen => ?_⟩
  · rw [Core.sendFin, h.sndNxt]
    exact pos_add base nxt 1
  · rw [Core.sendFin, hpending, drop_eq_nil_of_le (hW.trans (le_succ _))]
  · rw [show c.sendFin.finRequested = c.finRequested from rfl, hreq] at hopen
    cases hopen

/-- **A write** before the half-close extends the stream and the queue. -/
theorem write (hopen : c.finRequested = false) (data : List UInt8) :
    Accounts base (W ++ data) una nxt high { c with pending := c.pending ++ data } := by
  obtain ⟨hu₁, hu₂, hu₃, hu₄⟩ := h.unfinished hopen
  obtain ⟨a, ha, htiles, hlive⟩ := h.flight
  have hle : W.length ≤ (W ++ data).length := by
    rw [length_append]
    exact le_add_right _ _
  refine ⟨h.sndUna, h.sndNxt, h.rewindHigh, h.una_le, h.nxt_lt,
    ⟨a, ha, htiles.append hu₄ data, hlive⟩, ?_, h.high_lt, fun hfin => ?_, fun _ =>
    ⟨hu₁.trans hle, fun k hk => (hu₂ k hk).trans hle, hu₃, hu₄⟩⟩
  · rw [drop_append_of_le_length hu₁, ← h.pending]
  · rw [show c.rewindFin = false from hu₃] at hfin
    cases hfin

/-- The half-close changes nothing of the books. -/
theorem finish :
    Accounts base W una nxt high { c with finRequested := true } :=
  ⟨h.sndUna, h.sndNxt, h.rewindHigh, h.una_le, h.nxt_lt, h.flight, h.pending, h.high_lt,
    h.rewindFin, nofun⟩

end

end Accounts

/-! ### Every run -/

/-- An initiator before the handshake: only the SYN has a sequence number. -/
structure Opening (W : List UInt8) (v : View) : Prop where
  sndUna : v.core.sndUna = v.iss
  sndNxt : v.core.sndNxt = v.iss + 1
  pending : v.core.pending = W
  segs : v.core.segs = []
  rewindHigh : v.core.rewindHigh = none
  rewindFin : v.core.rewindFin = false
  finSent : v.core.finSent = false
  finAcked : v.core.finAcked = false
  forceProbe : v.forceProbe = false

/-- What else is kept of a running endpoint, by the bytes written and the offsets. -/
abbrev Ledger := List UInt8 → ℕ → ℕ → Option ℕ → Core → Prop

/-- The books of an endpoint whose first data byte has the name `first`, before and
after its handshake, with a ledger of one's own. -/
inductive Books (Q : Ledger) (first : UInt32) (W : List UInt8) (v : View) : Prop
  | opening (hphase : v.phase = .synSent ∨ v.phase = .closed) (hfirst : v.iss + 1 = first)
      (h : Opening W v)
  | running (una nxt : ℕ) (high : Option ℕ) (hphase : v.phase ≠ .synSent)
      (h : Accounts first.toNat W una nxt high v.core)
      (hprobe : v.forceProbe = true → v.phase ≠ .listen ∧ v.rwnd = 0 ∧ v.core.segs = [])
      (hledger : Q W una nxt high v.core)

/-- The room the window leaves keeps the flight below half the range. -/
theorem Accounts.room {base : ℕ} {W : List UInt8} {una nxt : ℕ} {v : View}
    (h : Accounts base W una nxt high v.core)
    (hprobe : v.forceProbe = true → v.rwnd = 0 ∧ v.core.segs = []) {room : UInt32}
    (hroom : v.Room room) {n : ℕ} (hn : n ≤ room.toNat) : nxt + n < una + 2 ^ 31 := by
  have hle := h.una_le
  have hlt := h.nxt_lt
  have hflight : (v.core.sndNxt - v.core.sndUna).toNat = nxt - una := by
    rw [h.sndNxt, h.sndUna]
    exact pos_sub hle (by omega)
  rcases hroom with ⟨window, hwin, hflt, hroom⟩ | ⟨hforce, window, hwin, hroom⟩
  · have h₁ := le_iff_toNat_le.mp hwin
    have h₂ := lt_iff_toNat_lt.mp hflt
    have h₃ := le_iff_toNat_le.mp hroom
    rw [UInt32.toNat_sub_of_le _ _ (UInt32.le_iff_toNat_le.mpr h₂.le)] at h₃
    have h₄ : maxInflightBytes.toNat = 2 ^ 31 - 1 := rfl
    omega
  · obtain ⟨hrwnd, hsegs⟩ := hprobe hforce
    have heq := h.nxt_eq_una hsegs
    have hzero : window = 0 := UInt32.le_antisymm (hrwnd ▸ hwin) UInt32.zero_le
    have hnone : v.core.sndNxt - v.core.sndUna = 0 := by
      rw [h.sndNxt, h.sndUna, heq, UInt32.sub_self]
    rw [hzero, hnone] at hroom
    have := le_iff_toNat_le.mp hroom
    have h₅ : (max (0 - 0 : UInt32) 1).toNat = 1 := rfl
    omega

/-- What a move can do to the books of a running endpoint. -/
inductive Entry (base : ℕ) (f : Option Frame) (una nxt : ℕ) (high : Option ℕ) (c : Core) :
    ℕ → ℕ → Option ℕ → Core → Prop
  | same : Entry base f una nxt high c una nxt high c
  | finish : Entry base f una nxt high c una nxt high { c with finRequested := true }
  | rewound (hsegs : c.segs ≠ []) :
      Entry base f una nxt high c una una (some (topOffset nxt high)) c.rewound
  | sendData (n : ℕ) (hpos : 0 < n) (hle : n ≤ c.pending.length) :
      Entry base f una nxt high c una (nxt + n) high (c.sendData n)
  | sendFin (hpending : c.pending = []) (hreq : c.finRequested = true)
      (hsent : c.finSent = false) : Entry base f una nxt high c una (nxt + 1) high c.sendFin
  | advance (k : ℕ) (i win : UInt32) (sacks : SackVec)
      (hframe : f = some (.ack i (pos base k) win sacks)) (hk : una < k)
      (htop : k ≤ topOffset nxt high) (hack : Seq.gt (pos base k) c.sndUna = true) :
      Entry base f una nxt high c k (max nxt k) (high.filter fun j => decide (k < j))
        (c.advance (pos base k))

namespace Books

variable {Q : Ledger} {first : UInt32} {v v' : View} {f : Option Frame}

/-- Before the handshake only the handshake, the half-close and the receiving half
move; the handshake opens the books. -/
theorem move_opening (hmove : Move f v v') (hphase : v.phase = .synSent ∨ v.phase = .closed)
    (hfirst : v.iss + 1 = first) (h : Opening W v) :
    ((v'.phase = .synSent ∨ v'.phase = .closed) ∧ v'.iss + 1 = first ∧ Opening W v') ∨
      (Accounts first.toNat W 0 0 none v'.core ∧ v'.phase ≠ .synSent ∧
        (v'.forceProbe = true → v'.phase ≠ .listen ∧ v'.rwnd = 0 ∧ v'.core.segs = []) ∧
        v'.core.finSent = false ∧ v'.core.finAcked = false) := by
  have hest : v.phase ≠ .established := by rcases hphase with h | h <;> rw [h] <;> decide
  have hlis : v.phase ≠ .listen := by rcases hphase with h | h <;> rw [h] <;> decide
  cases hmove with
  | close => exact .inl ⟨.inr rfl, hfirst, { h with }⟩
  | finish | owe | settle | greet | greeted | data | fin => exact .inl ⟨hphase, hfirst, { h with }⟩
  | synAck _ isn win =>
    -- both ends of the sending half are at the first byte
    have hnxt : Seq.max v.core.sndNxt (v.iss + 1) = first := by
      rw [h.sndNxt, hfirst, Seq.max, ite_self]
    refine .inr ⟨.opened hfirst hnxt h.pending h.segs h.rewindHigh h.rewindFin,
      Phase.noConfusion, fun hforce => ?_, h.finSent, h.finAcked⟩
    rw [show v.forceProbe = false from h.forceProbe] at hforce
    cases hforce
  | probe _ _ hph => exact absurd hph hest
  | rewind _ hph hsegs => exact absurd h.segs hsegs
  | sendData _ n room hph | sendFin _ room hph => exact absurd hph hest
  | syn _ isn win hph => exact absurd hph hlis
  | window _ ack win sacks probe hph | advance _ ack win sacks hph =>
    exact absurd hph (not_or.mpr ⟨hlis, hest⟩)

/-- **Every move of a running endpoint is an entry in its books**, and keeps them. -/
theorem move_running {una nxt : ℕ} (hmove : Move f v v') (hphase : v.phase ≠ .synSent)
    (h : Accounts first.toNat W una nxt high v.core)
    (hprobe : v.forceProbe = true → v.phase ≠ .listen ∧ v.rwnd = 0 ∧ v.core.segs = []) :
    ∃ una' nxt' high', Entry first.toNat f una nxt high v.core una' nxt' high' v'.core ∧
      v'.phase ≠ .synSent ∧ Accounts first.toNat W una' nxt' high' v'.core ∧
      (v'.forceProbe = true → v'.phase ≠ .listen ∧ v'.rwnd = 0 ∧ v'.core.segs = []) := by
  have hroom {room : UInt32} (hroom : v.Room room) {n : ℕ} (hn : n ≤ room.toNat) :=
    h.room (fun hforce => (hprobe hforce).2) hroom hn
  have hquiet {v₁ : View} (hforce : v₁.forceProbe = false) :
      v₁.forceProbe = true → v₁.phase ≠ .listen ∧ v₁.rwnd = 0 ∧ v₁.core.segs = [] := by
    intro htrue
    rw [hforce] at htrue
    exact absurd htrue false_ne_true
  cases hmove with
  | close =>
    exact ⟨una, nxt, high, .same, Phase.noConfusion, h, fun hforce =>
      ⟨Phase.noConfusion, (hprobe hforce).2⟩⟩
  | finish => exact ⟨una, nxt, high, .finish, hphase, h.finish, hprobe⟩
  | owe | settle | greet | greeted | data | fin => exact ⟨una, nxt, high, .same, hphase, h, hprobe⟩
  | synAck _ isn win hph => exact absurd hph hphase
  | probe _ _ hph hsegs hrwnd =>
    exact ⟨una, nxt, high, .same, hphase, h, fun _ => ⟨by rw [hph]; decide, hrwnd, hsegs⟩⟩
  | rewind _ hph hsegs =>
    refine ⟨una, una, _, .rewound hsegs, hphase, h.rewound hsegs, fun hforce => ?_⟩
    exact absurd (hprobe hforce).2.2 hsegs
  | sendData _ n room hph hr hpos hle hmss hn =>
    exact ⟨una, nxt + n, high, .sendData n hpos hle, hphase, h.sendData hpos hle (hroom hr hn),
      hquiet rfl⟩
  | sendFin _ room hph hr hpos hpending hreq hsent =>
    have hone : 1 ≤ room.toNat := le_iff_toNat_le.mp hpos
    exact ⟨una, nxt + 1, high, .sendFin hpending hreq hsent, hphase,
      h.sendFin hpending hreq (hroom hr hone), hquiet rfl⟩
  | syn _ isn win hph =>
    refine ⟨una, nxt, high, .same, Phase.noConfusion, h, fun hforce => ?_⟩
    exact absurd hph (hprobe hforce).1
  | window _ ack win sacks probe hph hwin =>
    refine ⟨una, nxt, high, .same, hphase, h, fun hforce => ?_⟩
    obtain ⟨hold, rfl⟩ := hwin hforce
    exact ⟨(hprobe hold).1, rfl, (hprobe hold).2.2⟩
  | advance _ ack win sacks hph hlimit hack =>
    obtain ⟨k, rfl, hk, htop⟩ := h.ack_eq hlimit hack
    refine ⟨k, max nxt k, _, .advance k v.streamId win sacks rfl hk htop hack, hphase,
      h.advance hk htop, fun hforce => ?_⟩
    obtain ⟨h₁, h₂, h₃⟩ := hprobe hforce
    refine ⟨h₁, h₂, (segs_advance _ _).trans ?_⟩
    rw [h₃]
    rfl

/-- **Every move keeps the books**, if every entry takes one ledger to the other. -/
theorem move {Q' : Ledger} (hopened : ∀ c, c.finSent = false → c.finAcked = false → Q' W 0 0 none c)
    (hentry : ∀ {una nxt high una' nxt' high'},
      Entry first.toNat f una nxt high v.core una' nxt' high' v'.core →
      Accounts first.toNat W una nxt high v.core → Q W una nxt high v.core →
      Q' W una' nxt' high' v'.core)
    (hmove : Move f v v') (h : Books Q first W v) : Books Q' first W v' := by
  rcases h with ⟨hphase, hfirst, h⟩ | ⟨una, nxt, high, hphase, h, hprobe, hq⟩
  · rcases move_opening hmove hphase hfirst h with ⟨hph, hopen⟩ | ⟨hacc, hph, hquiet, hflags⟩
    · exact .opening hph hopen.1 hopen.2
    · exact .running 0 0 none hph hacc hquiet (hopened _ hflags.1 hflags.2)
  · obtain ⟨una', nxt', high', he, hph, hacc, hpr⟩ := move_running hmove hphase h hprobe
    exact .running una' nxt' high' hph hacc hpr (hentry he h hq)

/-- The same books with a weaker ledger. -/
theorem imp {Q' : Ledger} (himp : ∀ {una nxt high}, Accounts first.toNat W una nxt high v.core →
      Q W una nxt high v.core → Q' W una nxt high v.core)
    (h : Books Q first W v) : Books Q' first W v := by
  rcases h with ⟨hphase, hfirst, h⟩ | ⟨una, nxt, high, hphase, h, hprobe, hq⟩
  · exact .opening hphase hfirst h
  · exact .running una nxt high hphase h hprobe (himp h hq)

/-- **Every accepted write keeps the books** of the longer stream. -/
theorem write {data : List UInt8}
    (hwrite : ∀ {una nxt high}, Accounts first.toNat W una nxt high v.core →
      Q W una nxt high v.core →
      Q (W ++ data) una nxt high { v.core with pending := v.core.pending ++ data })
    (hopen : v.core.finRequested = false) (h : Books Q first W v) :
    Books Q first (W ++ data) { v with core.pending := v.core.pending ++ data } := by
  rcases h with ⟨hphase, hfirst, h⟩ | ⟨una, nxt, high, hphase, h, hprobe, hq⟩
  · refine .opening hphase hfirst ⟨h.1, h.2, ?_, h.4, h.5, h.6, h.7, h.8, h.9⟩
    rw [← h.pending]
  · exact .running una nxt high hphase (h.write hopen data) hprobe (hwrite h hq)

/-- Reading concerns the receiving half only. -/
theorem read (h : Books Q first W v) (n : ℕ) :
    Books Q first W { v with rx := (v.rx.takeRead n).1 } := by
  rcases h with ⟨hphase, hfirst, h⟩ | ⟨una, nxt, high, hphase, h, hprobe, hq⟩
  · exact .opening hphase hfirst { h with }
  · exact .running una nxt high hphase h hprobe hq

/-- The books of a fresh endpoint are empty. -/
theorem start (role : Role) (streamId : UInt32) (cfg : Config) (now : ℕ) (iss : UInt32)
    (hopened : ∀ c, c.finSent = false → c.finAcked = false → Q [] 0 0 none c) :
    Books Q (role.firstSeq iss) [] (role.engine streamId cfg now iss).view := by
  cases role with
  | initiator => exact .opening (.inl rfl) rfl ⟨rfl, rfl, rfl, rfl, rfl, rfl, rfl, rfl, rfl⟩
  | responder =>
    exact .running 0 0 none Phase.noConfusion (.opened rfl rfl rfl rfl rfl rfl)
      (nofun) (hopened _ rfl rfl)

end Books

/-! ### The books in the code's own terms -/

/-- Segments that follow each other, the last one up to `stop`. -/
def Contiguous : List Seg → UInt32 → Prop
  | [], _ => True
  | [s], stop => s.stop = stop
  | s :: s' :: l, stop => s.stop = s'.seq ∧ Contiguous (s' :: l) stop

theorem Tiles.contiguous {base : ℕ} {W : List UInt8} {a z : ℕ} {l : List Seg}
    (h : Tiles base W a (l.map Seg.body) z) : Contiguous l (pos base z) := by
  induction l generalizing a with
  | nil => trivial
  | cons s l ih =>
    obtain ⟨hs, hl⟩ := h
    have hstop : s.stop = pos base (a + s.body.len) := hs.stop
    cases l with
    | nil => exact hstop.trans (congrArg (pos base) hl)
    | cons s' l => exact ⟨hstop.trans hl.1.seq.symm, ih hl⟩

theorem requeued_map (una : UInt32) (l : List Seg) :
    TxState.requeued una l = Core.requeued una (l.map Seg.body) := by
  rw [requeued, flatMap_map]
  rfl

end VeilNetwork.OnionStream
