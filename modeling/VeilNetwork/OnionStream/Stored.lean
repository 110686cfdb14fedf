import VeilNetwork.Lib.Blocks
import VeilNetwork.Lib.Cyclic
import VeilNetwork.OnionStream.Receive

/-!
# What the receiving half holds

The receiving half read as a stretch of the peer's byte stream: a prefix `P`,
handed out or waiting in the read buffer, and blocks `B` beyond it, kept in the map
under the 32-bit names of their offsets. `RxState.Stored` says that a receiving half
holds exactly these, and the specifications of the loops of `accept` are stated in
terms of it: draining moves blocks into the prefix without changing what is known
(`RxState.Stored.drainOo`), filling adds the bytes of an in-order segment
(`RxState.Stored.fillLoop`), storing adds the bytes of one beyond a gap
(`RxState.Stored.storeOo`).

Offsets are counted from the first byte of the stream, whose name is
`UInt32.ofNat base`; taking `base` large keeps the search of `drainOo`, which starts
half a range behind, among the natural numbers.
-/

namespace VeilNetwork.OnionStream.RxState

open RxState Serial

open Blocks Option OrdMap Nat Bool UInt32
open List hiding lookup

/-- A block under the name of its offset. -/
def place (base : ℕ) (b : ℕ × List UInt8) : UInt32 × List UInt8 := (pos base b.1, b.2)

/-! ### The prefix and the blocks -/

/-- The byte at an offset, as far as it is known. -/
def content (P : List UInt8) (B : List (ℕ × List UInt8)) (i : ℕ) : Option UInt8 :=
  if i < P.length then P[i]? else lookup B i

/-- The receiving half holds the prefix `P`, of which `taken` has been handed out, and
the blocks `B`, all of them from `lo` on and below the end of its buffer. -/
structure Stored (base : ℕ) (taken P : List UInt8) (B : List (ℕ × List UInt8)) (lo : ℕ)
    (rx : RxState) : Prop where
  prefix_eq : P = taken ++ rx.readBuf
  rcvNxt : rx.rcvNxt = pos base P.length
  perm : (B.map (place base)).Perm rx.oo.entries
  spaced : Spaced lo (taken.length + rx.window.toNat) B
  ooBytes : rx.ooBytes = (B.map fun b => b.2.length).sum
  reach : P.length ≤ taken.length + rx.window.toNat

/-- The fields that reassembly leaves alone. -/
structure SameRest (rx rx' : RxState) : Prop where
  window : rx'.window = rx.window
  lastAckWindow : rx'.lastAckWindow = rx.lastAckWindow
  peerFinSeq : rx'.peerFinSeq = rx.peerFinSeq
  eof : rx'.eof = rx.eof

theorem SameRest.refl (rx : RxState) : SameRest rx rx := ⟨rfl, rfl, rfl, rfl⟩

theorem SameRest.trans {rx rx' rx'' : RxState} (h : SameRest rx rx') (h' : SameRest rx' rx'') :
    SameRest rx rx'' :=
  ⟨h'.window.trans h.window, h'.lastAckWindow.trans h.lastAckWindow,
    h'.peerFinSeq.trans h.peerFinSeq, h'.eof.trans h.eof⟩

section Content

variable {P : List UInt8} {B : List (ℕ × List UInt8)} {i : ℕ}

theorem content_of_lt (h : i < P.length) : content P B i = P[i]? := if_pos h

theorem content_of_ge (h : P.length ≤ i) : content P B i = lookup B i := if_neg (by omega)

/-- A block right after the prefix may as well be part of it. -/
theorem content_append {v : List UInt8} :
    content (P ++ v) B i = content P ((P.length, v) :: B) i := by
  have hstop : stop (P.length, v) = P.length + v.length := rfl
  rcases lt_or_ge i P.length with h | h
  · rw [content_of_lt (by rw [length_append]; omega), content_of_lt h,
      getElem?_append_left h]
  · rw [content_of_ge h, lookup]
    by_cases hv : i < P.length + v.length
    · rw [if_pos ⟨h, by omega⟩, content_of_lt (by rw [length_append]; omega),
        getElem?_append_right h]
    · rw [if_neg (by omega), content_of_ge (by rw [length_append]; omega)]

end Content

section Storage

variable {base : ℕ} {taken P : List UInt8} {B : List (ℕ × List UInt8)} {lo : ℕ} {rx : RxState}

namespace Stored

section

variable (h : Stored base taken P B lo rx)

include h

theorem length_eq : P.length = taken.length + rx.readBuf.length := by
  rw [h.prefix_eq, length_append]

/-- The size of the map is the number of blocks. -/
theorem size_eq : rx.oo.size = B.length := by
  rw [OrdMap.size, ← h.perm.length_eq, length_map]

/-- Buffered and stored bytes together fit the window. -/
theorem bytes_le (hlo : P.length ≤ lo) : rx.readBuf.length + rx.ooBytes ≤ rx.window.toNat := by
  have hlen := h.length_eq
  have hspaced : Spaced P.length _ B := h.spaced.mono hlo le_rfl
  have := hspaced.total_le h.reach
  rw [h.ooBytes]
  omega

/-- **The map listed from a point before all blocks** is the blocks in order. -/
theorem cyclic_eq {p : ℕ} (hp : p ≤ base + lo)
    (hp' : base + (taken.length + rx.window.toNat) ≤ p + 2 ^ 32) :
    rx.oo.cyclic (UInt32.ofNat p) = B.map (place base) := by
  refine OrdMap.cyclic_eq h.perm (pairwise_map.mpr ?_)
  refine h.spaced.sorted.imp_of_mem fun {a b} ha hb hab => ?_
  obtain ⟨ha1, ha2, ha3⟩ := h.spaced.of_mem ha
  obtain ⟨hb1, hb2, hb3⟩ := h.spaced.of_mem hb
  have := lt_stop hb2
  simp only [place, pos]
  rw [toNat_ofNat_sub (by omega) (by omega), toNat_ofNat_sub (by omega) (by omega)]
  omega

end

end Stored

/-! ### Draining -/

/-- The candidate of the drain loop is the first block. -/
theorem Stored.drainCandidate_eq (h : Stored base taken P B P.length rx) (hbase : 2 ^ 31 ≤ base)
    (hw : rx.window.toNat < 2 ^ 31) :
    rx.drainCandidate = (B.map (place base)).head? := by
  have hlen : taken.length ≤ P.length := by
    rw [h.prefix_eq, length_append]
    omega
  have hfloor : rx.rcvNxt - 0x80000000 = UInt32.ofNat (base + P.length - 2 ^ 31) := by
    have hsum : base + P.length = (base + P.length - 2 ^ 31) + 2 ^ 31 := by omega
    rw [h.rcvNxt, pos]
    nth_rewrite 1 [hsum]
    rw [ofNat_add]
    exact UInt32.add_sub_cancel _ _
  rw [drainCandidate, hfloor, ← head?_append]
  exact congrArg head? (h.cyclic_eq (by omega) (by omega))

/-- Absorbing the first block, when it starts where the prefix ends. -/
theorem Stored.absorb_head {v : List UInt8}
    (h : Stored base taken P ((P.length, v) :: B) P.length rx) (hw : rx.window.toNat < 2 ^ 31) :
    Stored base taken (P ++ v) B (P ++ v).length
      (absorb { rx with oo := rx.oo.erase (pos base P.length), ooBytes := rx.ooBytes - v.length }
        (pos base P.length) v) := by
  obtain ⟨-, -, h3, h4⟩ := h.spaced
  have hstop : stop (P.length, v) = (P ++ v).length := length_append.symm
  have hnot : Seq.lt (pos base P.length) rx.rcvNxt = false := by
    rw [h.rcvNxt, lt_pos (by omega) (by omega)]
    simp
  have hlen := h.length_eq
  rw [absorb]
  simp only [hnot, false_eq_true, if_false]
  refine ⟨by rw [h.prefix_eq]; simp only [append_assoc], ?_, ?_, ?_, ?_, ?_⟩
  · rw [h.rcvNxt, pos_add, length_append]
  · -- erasing the head's name leaves the other blocks: their names differ from it
    have hsplit : (B.map (place base)).filter (fun e => decide (e.1 ≠ pos base P.length)) =
        B.map (place base) := by
      refine filter_eq_self.mpr fun e he => ?_
      obtain ⟨b, hb, rfl⟩ := mem_map.mp he
      obtain ⟨hb1, hb2, hb3⟩ := h4.of_mem hb
      have hlt := lt_stop hb2
      rw [hstop] at hb1
      have hv := lt_stop (h.spaced.2.1)
      rw [hstop] at hv
      simp only at hv
      rw [decide_eq_true_eq, place, ne_eq, pos_inj (by omega) (by omega)]
      omega
    have hper := h.perm.filter fun e => decide (e.1 ≠ pos base P.length)
    rw [map_cons, filter_cons_of_neg (by simp [place]), hsplit] at hper
    exact hper
  · rwa [← hstop]
  · rw [h.ooBytes, map_cons, sum_cons, Nat.add_sub_cancel_left]
  · rwa [← hstop]

/-- The drain loop moves the blocks that have become contiguous into the prefix; what
is known stays the same. -/
theorem Stored.drainLoop (h : Stored base taken P B P.length rx) (hbase : 2 ^ 31 ≤ base)
    (hw : rx.window.toNat < 2 ^ 31) {fuel : ℕ} (hfuel : B.length < fuel) :
    ∃ P' B', Stored base taken P' B' (P'.length + 1) (drainLoop fuel rx) ∧
      (∀ i, content P' B' i = content P B i) ∧ P.length ≤ P'.length ∧ B'.length ≤ B.length ∧
      (∀ b ∈ B.head?, b.1 = P.length → B'.length < B.length) ∧
      SameRest rx (drainLoop fuel rx) := by
  induction fuel generalizing P B rx with
  | zero => cases hfuel
  | succ fuel ih =>
    have hlen := h.length_eq
    rw [drainLoop, h.drainCandidate_eq hbase hw]
    cases B with
    | nil =>
      refine ⟨P, [], ⟨h.prefix_eq, h.rcvNxt, h.perm, trivial, h.ooBytes, h.reach⟩, fun _ => rfl,
        le_rfl, le_rfl, by simp, SameRest.refl rx⟩
    | cons b B =>
      obtain ⟨h1, h2, h3, h4⟩ := h.spaced
      have hlt := lt_stop h2
      have hleq : Seq.leq (pos base b.1) rx.rcvNxt = decide (b.1 ≤ P.length) := by
        rw [h.rcvNxt, leq_pos (by omega) (by omega)]
      simp only [map_cons, head?_cons, place, hleq, decide_eq_true_eq]
      by_cases hb : b.1 ≤ P.length
      · rw [if_pos hb]
        obtain ⟨a, v⟩ := b
        obtain rfl : a = P.length := by
          simp only at h1 hb
          omega
        have habs := h.absorb_head hw
        have hrest : SameRest rx
            (absorb { rx with
              oo := rx.oo.erase (pos base P.length), ooBytes := rx.ooBytes - v.length }
              (pos base P.length) v) := by
          rw [absorb]
          dsimp only
          repeat' split
          all_goals exact ⟨rfl, rfl, rfl, rfl⟩
        obtain ⟨P', B', hst, hcont, hle, hlen, -, hsame⟩ :=
          ih habs (by rw [hrest.window]; exact hw)
            (by simp only [length_cons] at hfuel; omega)
        refine ⟨P', B', hst, fun i => ?_, ?_, ?_, ?_, hrest.trans hsame⟩
        · rw [hcont, content_append]
        · rw [length_append] at hle
          omega
        · rw [length_cons]
          omega
        · rw [length_cons]
          omega
      · rw [if_neg hb]
        refine ⟨P, b :: B, ⟨h.prefix_eq, h.rcvNxt, h.perm, ⟨by omega, h2, h3, h4⟩, h.ooBytes,
          h.reach⟩, fun _ => rfl, le_rfl, le_rfl, ?_, SameRest.refl rx⟩
        intro c hc hce
        simp only [mem_def, some.injEq] at hc
        subst hc
        omega

/-- **Draining** keeps what is known and leaves no block that touches the prefix. -/
theorem Stored.drainOo (h : Stored base taken P B P.length rx) (hbase : 2 ^ 31 ≤ base)
    (hw : rx.window.toNat < 2 ^ 31) :
    ∃ P' B', Stored base taken P' B' (P'.length + 1) rx.drainOo ∧
      (∀ i, content P' B' i = content P B i) ∧ P.length ≤ P'.length ∧ B'.length ≤ B.length ∧
      (∀ b ∈ B.head?, b.1 = P.length → B'.length < B.length) ∧ SameRest rx rx.drainOo :=
  h.drainLoop hbase hw (by rw [h.size_eq]; omega)

/-! ### Filling -/

/-- Where the copy of an in-order segment ending at `e` next stops. -/
def nextStop (B : List (ℕ × List UInt8)) (e : ℕ) : ℕ := (B.head?.map Prod.fst).elim e (min e)

variable {e : ℕ}

theorem Stored.nextStored_eq (h : Stored base taken P B (P.length + 1) rx)
    (hw : rx.window.toNat < 2 ^ 31) (he : P.length ≤ e) (he' : e ≤ taken.length + rx.window.toNat) :
    rx.nextStored (pos base e) = pos base (nextStop B e) := by
  have hlen := h.length_eq
  have hhead : (rx.oo.rangeFrom rx.rcvNxt).head?.or rx.oo.first? = (B.map (place base)).head? := by
    rw [head?_rangeFrom_or_first?, h.rcvNxt, pos, h.cyclic_eq (by omega) (by omega)]
  rw [nextStored, hhead, nextStop]
  cases B with
  | nil => rfl
  | cons b B =>
    obtain ⟨h1, h2, h3, -⟩ := h.spaced
    have hlt := lt_stop h2
    simp only [map_cons, head?_cons, map_some, place, elim_some]
    rw [filter_some, lt_pos (by omega) (by omega)]
    by_cases hbe : b.1 < e
    · rw [decide_eq_true hbe, if_pos rfl, getD_some, min_eq_right hbe.le]
    · rw [decide_eq_false hbe, if_neg Bool.false_ne_true, getD_none,
        min_eq_left (by omega)]

variable (B e) in
theorem nextStop_le : nextStop B e ≤ e := by
  cases B with
  | nil => exact le_rfl
  | cons b B => exact min_le_left e b.1

variable {payload : List UInt8} {o : ℕ}

/-- Copying up to the next stored block: the copied bytes are the segment's, and the
blocks start no earlier than the copy stops. -/
theorem Stored.copy (h : Stored base taken P B (P.length + 1) rx) (hn : P.length < e)
    (he' : e ≤ taken.length + rx.window.toNat) (ho : o ≤ P.length) (hlen : e = o + payload.length) :
    ∃ v, (payload.drop (P.length - o)).take (nextStop B e - P.length) = v ∧
      (P ++ v).length = nextStop B e ∧ P.length < nextStop B e ∧
      (∀ i, content (P ++ v) B i = (content P B i).or
        (if P.length ≤ i ∧ i < nextStop B e then payload[i - o]? else none)) ∧
      Stored base taken (P ++ v) B (P ++ v).length
        { rx with readBuf := rx.readBuf ++ v, rcvNxt := pos base (nextStop B e) } := by
  have hlt : P.length < nextStop B e := by
    rw [nextStop]
    cases B with
    | nil => exact hn
    | cons b B =>
      obtain ⟨h1, -⟩ := h.spaced
      simp only [head?_cons, map_some, elim_some]
      omega
  have hle := nextStop_le B e
  refine ⟨_, rfl, ?_, hlt, ?_, ?_⟩
  · rw [length_append, length_take, length_drop]
    omega
  · intro i
    rw [content_append]
    rcases lt_or_ge i P.length with hi | hi
    · rw [content_of_lt hi, content_of_lt hi, if_neg (by omega), or_none]
    · rw [content_of_ge hi, content_of_ge hi, lookup]
      have hstop : stop (P.length, (payload.drop (P.length - o)).take (nextStop B e - P.length)) =
          nextStop B e := by
        simp only [stop, length_take, length_drop]
        omega
      rw [hstop]
      by_cases hin : i < nextStop B e
      · have hnone : lookup B i = none := by
          rw [nextStop] at hin
          cases B with
          | nil => rfl
          | cons b B =>
            obtain ⟨-, h2, h3, h4⟩ := h.spaced
            have hfst : i < b.1 := by
              simp only [head?_cons, map_some, elim_some] at hin
              omega
            have hsp : Spaced b.1 _ (b :: B) := ⟨le_rfl, h2, h3, h4⟩
            exact lookup_eq_none_of_lt hsp hfst
        rw [if_pos ⟨hi, hin⟩, if_pos ⟨hi, hin⟩, hnone]
        simp only
        rw [getElem?_take_of_lt (by omega), getElem?_drop]
        congr 1
        omega
      · rw [if_neg (by omega), if_neg (by omega), or_none]
  · have hP : (P ++ (payload.drop (P.length - o)).take (nextStop B e - P.length)).length =
        nextStop B e := by
      rw [length_append, length_take, length_drop]
      omega
    refine ⟨by rw [h.prefix_eq]; simp only [append_assoc], by rw [hP], h.perm, ?_, h.ooBytes,
      by rw [hP]; exact hle.trans he'⟩
    rw [hP]
    cases B with
    | nil => trivial
    | cons b B =>
      obtain ⟨-, h2, h3, h4⟩ := h.spaced
      exact ⟨min_le_right e b.1, h2, h3, h4⟩

/-- **Filling** with an in-order segment `[o, e)`: the prefix reaches `e`, its new bytes
are the segment's where nothing was known, and nothing known has changed. -/
theorem Stored.fillLoop (hbase : 2 ^ 31 ≤ base)
    (hlen : e = o + payload.length) {fuel : ℕ} (h : Stored base taken P B (P.length + 1) rx)
    (hw : rx.window.toNat < 2 ^ 31) (he : e ≤ taken.length + rx.window.toNat)
    (ho : o ≤ P.length) (hto : taken.length ≤ o) (hfuel : P.length < e → B.length < fuel) :
    ∃ P' B', Stored base taken P' B' (P'.length + 1)
        (fillLoop (pos base o) payload (pos base e) fuel rx) ∧
      e ≤ P'.length ∧ P.length ≤ P'.length ∧ B'.length ≤ B.length ∧
      (∀ i, content P' B' i = (content P B i).or
        (if P.length ≤ i ∧ i < e then payload[i - o]? else none)) ∧
      SameRest rx (RxState.fillLoop (pos base o) payload (pos base e) fuel rx) := by
  induction fuel generalizing P B rx with
  | zero =>
    have hn : ¬P.length < e := fun hn => absurd (hfuel hn) (not_lt_zero _)
    refine ⟨P, B, h, by omega, le_rfl, le_rfl, fun i => ?_, SameRest.refl rx⟩
    rw [if_neg (by omega), or_none]
  | succ fuel ih =>
    have hreach := h.reach
    have hlt : Seq.lt rx.rcvNxt (pos base e) = decide (P.length < e) := by
      rw [h.rcvNxt, lt_pos (by omega) (by omega)]
    rw [fillLoop, hlt]
    by_cases hn : P.length < e
    · have hstep := nextStop_le B e
      obtain ⟨v, hv, hvlen, hvlt, hcopy, hstored⟩ := h.copy hn he ho hlen
      have hsrc : (rx.rcvNxt - pos base o).toNat = P.length - o := by
        rw [h.rcvNxt, pos_sub ho (by omega)]
      have hcount : (pos base (nextStop B e) - rx.rcvNxt).toNat = nextStop B e - P.length := by
        rw [h.rcvNxt, pos_sub hvlt.le (by omega)]
      rw [if_pos (decide_eq_true hn)]
      simp only [h.nextStored_eq hw hn.le he, hsrc, hcount, hv]
      obtain ⟨P₁, B₁, hst, hcont, hle, hlenB, hhead, hsame⟩ := hstored.drainOo hbase hw
      have hnext : P₁.length < e → B₁.length < fuel := by
        intro hP
        -- the copy stopped short of `e`, so at a block, which the drain consumed
        have hB : B₁.length < B.length := by
          cases B with
          | nil =>
            rw [hvlen] at hle
            simp only [nextStop, head?_nil, map_none, elim_none] at hle
            omega
          | cons b B =>
            refine hhead b rfl ?_
            rw [hvlen] at hle ⊢
            simp only [nextStop, head?_cons, map_some, elim_some] at hle ⊢
            omega
        omega
      rw [hvlen] at hle
      obtain ⟨P', B', hst', h1, h2, h3, h4, h5⟩ :=
        ih hst (by rw [hsame.window]; exact hw) (by rw [hsame.window]; exact he) (by omega) hnext
      refine ⟨P', B', hst', h1, by omega, by omega, fun i => ?_,
        SameRest.trans { hsame with } h5⟩
      rw [h4, hcont, hcopy, Option.or_assoc]
      by_cases hi : nextStop B e ≤ i ∧ i < P₁.length
      · -- drained from a block: known before
        have hsome : (content P B i).isSome := by
          have := hcont i
          rw [hcopy, if_neg (by omega), or_none, content_of_lt hi.2,
            getElem?_eq_getElem hi.2] at this
          rw [← this]
          rfl
        obtain ⟨x, hx⟩ := isSome_iff_exists.mp hsome
        rw [hx, some_or, some_or]
      · by_cases hi' : P.length ≤ i ∧ i < nextStop B e
        · rw [if_pos hi', if_neg (by omega), or_none, if_pos (by omega)]
        · rw [if_neg hi', none_or]
          by_cases hie : P.length ≤ i ∧ i < e
          · rw [if_pos hie, if_pos (by omega)]
          · rw [if_neg hie, if_neg (by omega)]
    · rw [if_neg (by simpa using hn)]
      refine ⟨P, B, h, by omega, le_rfl, le_rfl, fun i => ?_, SameRest.refl rx⟩
      rw [if_neg (by omega), or_none]

/-! ### Storing beyond a gap -/

/-- A gap under the name of its offset. -/
def placeGap (base : ℕ) (g : ℕ × ℕ) : UInt32 × ℕ := (pos base g.1, g.2)

/-- The walk over named blocks is the walk over blocks, while everything lies within
half a range. -/
theorem gapScan_place (base slots : ℕ) {lo hi : ℕ} (hr : hi < lo + 2 ^ 31) (he : lo ≤ e)
    (he' : e ≤ hi)
    {A : List (ℕ × List UInt8)} (hA : ∀ b ∈ A, lo ≤ b.1 ∧ stop b ≤ hi) {c : ℕ} (hc : lo ≤ c)
    (hc' : c ≤ hi) (gs : List (ℕ × ℕ)) :
    gapScan slots (pos base e) (A.map (place base)) (pos base c) (gs.map (placeGap base)) =
      (pos base (Blocks.gapScan slots e A c gs).1,
        (Blocks.gapScan slots e A c gs).2.map (placeGap base)) := by
  induction A generalizing c gs with
  | nil => rfl
  | cons b A ih =>
    obtain ⟨h1, h2⟩ := hA b mem_cons_self
    have hb : b.1 ≤ stop b := le_add_right _ _
    have hgt : Seq.gt (pos base b.1) (pos base c) = decide (c < b.1) :=
      gt_pos (by omega) (by omega)
    have hend : pos base b.1 + UInt32.ofNat b.2.length = pos base (stop b) := pos_add base b.1 _
    have hmax : Seq.max (pos base c) (pos base (stop b)) = pos base (max c (stop b)) :=
      max_pos (by omega) (by omega)
    have hgeq : Seq.geq (pos base (max c (stop b))) (pos base e) =
        decide (e ≤ max c (stop b)) := geq_pos (by omega) (by omega)
    have hgaps : (if c < b.1 then gs.map (placeGap base) ++
          [(pos base c, (pos base b.1 - pos base c).toNat)] else gs.map (placeGap base)) =
        (if c < b.1 then gs ++ [(c, b.1 - c)] else gs).map (placeGap base) := by
      split
      · rw [pos_sub (by omega) (by omega), map_append]
        rfl
      · rfl
    rw [map_cons, gapScan, Blocks.gapScan]
    simp only [place, hgt, hend, hmax, hgeq, decide_eq_true_eq, hgaps, length_map]
    generalize (if c < b.1 then gs ++ [(c, b.1 - c)] else gs) = gs'
    split
    · rfl
    · split
      · rfl
      · exact ih (fun d hd => hA d (mem_cons_of_mem b hd)) (by omega) (by omega) _

/-- The blocks the walk of a segment `[o, e)` visits: the last one that starts before
it and the ones that start inside. -/
def visited (B : List (ℕ × List UInt8)) (o e : ℕ) : List (ℕ × List UInt8) :=
  (B.filter fun b => decide (b.1 < o)).getLast?.toList ++
    B.filter fun b => decide (o ≤ b.1) && decide (b.1 < e)

theorem Stored.inside (h : Stored base taken P B lo rx) {b : ℕ × List UInt8} (hb : b ∈ B) :
    lo ≤ b.1 ∧ b.1 < taken.length + rx.window.toNat := by
  obtain ⟨h1, h2, h3⟩ := h.spaced.of_mem hb
  exact ⟨h1, (lt_stop h2).trans_le h3⟩

section

variable (h : Stored base taken P B lo rx) (hlo : taken.length ≤ lo) (hw : rx.window.toNat < 2 ^ 31)
  (ho : lo ≤ o)

include h hlo hw ho

theorem Stored.dist_eq (ho' : o ≤ taken.length + rx.window.toNat) {b : ℕ × List UInt8}
    (hb : b ∈ B) :
    (pos base b.1 - pos base o).toNat = if o ≤ b.1 then b.1 - o else b.1 + 2 ^ 32 - o := by
  have := h.inside hb
  split
  · rw [pos_sub (by omega) (by omega)]
  · rw [pos, pos, toNat_ofNat_sub_of_lt (by omega) (by omega)]
    omega

/-- The map listed from inside its range: the later blocks, then the earlier ones. -/
theorem Stored.cyclic_inside (ho' : o ≤ taken.length + rx.window.toNat) :
    rx.oo.cyclic (pos base o) =
      ((B.filter fun b => decide (o ≤ b.1)) ++ B.filter fun b => decide (b.1 < o)).map
        (place base) := by
  have hsplit : (B.filter fun b => decide (b.1 < o)) = B.filter fun b => !decide (o ≤ b.1) := by
    refine filter_congr fun b _ => ?_
    rw [← decide_not, decide_eq_decide]
    omega
  refine OrdMap.cyclic_eq (((?_ : List.Perm _ B).map _).trans h.perm) (pairwise_map.mpr ?_)
  · rw [hsplit]
    exact filter_append_perm _ _
  · have hdist {b : ℕ × List UInt8} (hb : b ∈ B) := h.dist_eq hlo hw ho ho' hb
    refine pairwise_append.mpr ⟨?_, ?_, ?_⟩
    · refine (h.spaced.sorted.filter _).imp_of_mem fun {a b} ha hb hab => ?_
      obtain ⟨haB, hao⟩ := mem_filter.mp ha
      obtain ⟨hbB, hbo⟩ := mem_filter.mp hb
      simp only [decide_eq_true_eq] at hao hbo
      rw [place, place, hdist haB, hdist hbB, if_pos hao, if_pos hbo]
      omega
    · refine (h.spaced.sorted.filter _).imp_of_mem fun {a b} ha hb hab => ?_
      obtain ⟨haB, hao⟩ := mem_filter.mp ha
      obtain ⟨hbB, hbo⟩ := mem_filter.mp hb
      simp only [decide_eq_true_eq] at hao hbo
      have := h.inside hbB
      rw [place, place, hdist haB, hdist hbB, if_neg (by omega), if_neg (by omega)]
      omega
    · intro a ha b hb
      obtain ⟨haB, hao⟩ := mem_filter.mp ha
      obtain ⟨hbB, hbo⟩ := mem_filter.mp hb
      simp only [decide_eq_true_eq] at hao hbo
      have := h.inside haB
      have := h.inside hbB
      rw [place, place, hdist haB, hdist hbB, if_pos hao, if_neg (by omega)]
      omega

/-- The blocks a segment meets, as the code looks them up. -/
theorem Stored.visited_eq (hoe : o < e) (he : e ≤ taken.length + rx.window.toNat) :
    (rx.preceding (pos base o)).toList ++ rx.startingIn (pos base o) (pos base e) =
      (visited B o e).map (place base) := by
  have hcyc := h.cyclic_inside hlo hw ho (by omega)
  have hlt : ∀ b ∈ B, Seq.lt (pos base b.1) (pos base o) = decide (b.1 < o) := by
    intro b hb
    have := h.inside hb
    exact lt_pos (by omega) (by omega)
  rw [visited, map_append]
  congr 1
  · rw [preceding, getLast?_rangeTo_or_last?, hcyc, map_append, getLast?_append]
    cases hlast : (B.filter fun b => decide (b.1 < o)).getLast? with
    | some b =>
      obtain ⟨hbB, hbo⟩ := mem_filter.mp (mem_of_getLast? hlast)
      rw [getLast?_map, hlast, map_some, some_or, filter_some]
      simp only [place, hlt b hbB, hbo]
      rfl
    | none =>
      rw [getLast?_map, hlast, map_none, none_or, getLast?_map]
      cases hlast' : (B.filter fun b => decide (o ≤ b.1)).getLast? with
      | none => rfl
      | some b =>
        obtain ⟨hbB, hbo⟩ := mem_filter.mp (mem_of_getLast? hlast')
        simp only [decide_eq_true_eq] at hbo
        rw [map_some, filter_some]
        simp only [place, hlt b hbB, decide_eq_true_eq]
        rw [if_neg (by omega)]
        rfl
  · have hstop : pos base e = pos base o + UInt32.ofNat (e - o) := by
      rw [pos_add]
      congr 1
      omega
    have hdist : ∀ b ∈ B, decide ((pos base b.1 - pos base o).toNat < e - o) =
        decide (o ≤ b.1 ∧ b.1 < e) := by
      intro b hb
      have := h.inside hb
      rw [decide_eq_decide, h.dist_eq hlo hw ho (by omega) hb]
      split <;> omega
    rw [startingIn, hstop, arc_eq_filter (by omega) (by omega), hcyc, List.filter_map,
      List.filter_append, List.filter_filter, List.filter_filter]
    have hnil : B.filter (fun b => ((fun e' => decide ((e'.1 - pos base o).toNat < e - o)) ∘
        place base) b && decide (b.1 < o)) = [] := by
      refine filter_eq_nil_iff.mpr fun b hb hcon => ?_
      rw [Function.comp_apply, place, hdist b hb] at hcon
      simp only [and_eq_true, decide_eq_true_eq] at hcon
      omega
    rw [hnil, append_nil]
    congr 1
    refine filter_congr fun b hb => ?_
    rw [Function.comp_apply, place, hdist b hb, ← decide_and, ← decide_and,
      decide_eq_decide]
    omega

end

/-- The visited blocks are those ahead of the segment's start. -/
theorem ahead_visited {hi : ℕ} (h : Spaced lo hi B) (hoe : o < e) :
    Ahead B o e (visited B o e) where
  mem := by
    intro b hb
    rcases mem_append.mp hb with hb | hb
    · obtain ⟨hbB, hbo⟩ := mem_filter.mp (mem_of_getLast? (mem_toList.mp hb))
      simp only [decide_eq_true_eq] at hbo
      exact ⟨hbB, by omega⟩
    · obtain ⟨hbB, hbo⟩ := mem_filter.mp hb
      simp only [and_eq_true, decide_eq_true_eq] at hbo
      exact ⟨hbB, hbo.2⟩
  sorted := by
    refine pairwise_append.mpr ⟨?_, h.sorted.filter _, ?_⟩
    · cases (B.filter fun b => decide (b.1 < o)).getLast? with
      | none => exact List.Pairwise.nil
      | some => exact pairwise_singleton ..
    · intro b hb c hc
      obtain ⟨-, hbo⟩ := mem_filter.mp (mem_of_getLast? (mem_toList.mp hb))
      obtain ⟨-, hco⟩ := mem_filter.mp hc
      simp only [and_eq_true, decide_eq_true_eq] at hbo hco
      omega
  complete := by
    intro b hb hbe hstop
    rcases lt_or_ge b.1 o with hbo | hbo
    · refine mem_append_left _ (mem_toList.mpr ?_)
      -- of the blocks before `o`, all but the last end before the last starts
      have hmem : b ∈ B.filter fun b => decide (b.1 < o) :=
        mem_filter.mpr ⟨hb, by simpa using hbo⟩
      obtain ⟨l, c, hl⟩ := (eq_nil_or_concat _).resolve_left (ne_nil_of_mem hmem)
      rw [concat_eq_append] at hl
      rw [hl, getLast?_append, getLast?_singleton, some_or]
      rw [hl] at hmem
      rcases mem_append.mp hmem with hbl | hbc
      · have hpair := h.pairwise.filter fun b => decide (b.1 < o)
        rw [hl] at hpair
        have hbc := (pairwise_append.mp hpair).2.2 b hbl c (mem_singleton_self c)
        have hco : c ∈ B.filter fun b => decide (b.1 < o) := by
          rw [hl]
          exact mem_append_right l (mem_singleton_self c)
        have := (mem_filter.mp hco).2
        simp only [decide_eq_true_eq] at this
        omega
      · rw [mem_singleton.mp hbc]
    · exact mem_append_right _ (mem_filter.mpr ⟨hb, by simp [hbo, hbe]⟩)

/-- Storing one free gap. -/
theorem Stored.storeGap (h : Stored base taken P B lo rx) (hlo : taken.length ≤ lo)
    (hw : rx.window.toNat < 2 ^ 31) {g : ℕ × ℕ} (hg : lo ≤ g.1) (hpos : 0 < g.2)
    (hg' : g.1 + g.2 ≤ taken.length + rx.window.toNat) (ho : o ≤ g.1) (hlo' : taken.length ≤ o)
    (hend : g.1 + g.2 ≤ o + payload.length) (hfree : ∀ b ∈ B, g.1 + g.2 ≤ b.1 ∨ stop b ≤ g.1) :
    Stored base taken P (put (slice o payload g) B) lo
      (storeGap (pos base o) payload rx (placeGap base g)) := by
  have hlen : (slice o payload g).2.length = g.2 := by
    simp only [slice, length_take, length_drop]
    omega
  have hstop : stop (slice o payload g) = g.1 + g.2 := by rw [stop, hlen, slice]
  have hne : (slice o payload g).2 ≠ [] := by
    rw [← length_pos_iff]
    omega
  have hsrc : (pos base g.1 - pos base o).toNat = g.1 - o := pos_sub ho (by omega)
  have hfresh : rx.oo.get? (pos base g.1) = none := by
    rw [get?_eq_none]
    intro v hv
    obtain ⟨b, hb, hbe⟩ := mem_map.mp (h.perm.mem_iff.mpr hv)
    obtain ⟨hb1, hb2, hb3⟩ := h.spaced.of_mem hb
    have hlt := lt_stop hb2
    have := hfree b hb
    have hname := congrArg Prod.fst hbe
    simp only [place] at hname
    rw [pos_inj (by omega) (by omega)] at hname
    omega
  refine ⟨h.prefix_eq, h.rcvNxt, ?_, ?_, ?_, h.reach⟩
  · have hins := insert_perm rx.oo (pos base g.1) (slice o payload g).2
    rw [erase_of_get?_eq_none hfresh] at hins
    simp only [RxState.storeGap, placeGap, hsrc]
    exact ((put_perm _ B).map _).trans ((h.perm.cons _).trans hins.symm)
  · exact h.spaced.put hg hne (by rw [hstop]; exact hg') (by rw [hstop]; exact hfree)
  · have hsum := ((put_perm (slice o payload g) B).map fun b => b.2.length).sum_nat
    simp only [RxState.storeGap, placeGap, h.ooBytes]
    rw [hsum, map_cons, sum_cons, hlen, add_comm]

/-- Storing the gaps one after the other. -/
theorem Stored.storeGaps (hto : taken.length ≤ o)
    (hend : e ≤ o + payload.length) (hlo : taken.length ≤ lo) {gs : List (ℕ × ℕ)}
    (hord : gs.Pairwise fun g h => g.1 + g.2 ≤ h.1) (h : Stored base taken P B lo rx)
    (hw : rx.window.toNat < 2 ^ 31) (he : e ≤ taken.length + rx.window.toNat)
    (hin : ∀ g ∈ gs, lo ≤ g.1 ∧ o ≤ g.1 ∧ 0 < g.2 ∧ g.1 + g.2 ≤ e)
    (hfree : ∀ g ∈ gs, ∀ b ∈ B, g.1 + g.2 ≤ b.1 ∨ stop b ≤ g.1) :
    Stored base taken P (putAll (gs.map (slice o payload)) B) lo
        ((gs.map (placeGap base)).foldl (RxState.storeGap (pos base o) payload) rx) ∧
      SameRest rx ((gs.map (placeGap base)).foldl (RxState.storeGap (pos base o) payload) rx) := by
  induction gs generalizing B rx with
  | nil => exact ⟨h, SameRest.refl rx⟩
  | cons g gs ih =>
    obtain ⟨hg, hgs⟩ := pairwise_cons.mp hord
    obtain ⟨h1, h2, h3, h4⟩ := hin g mem_cons_self
    have hst := h.storeGap hlo hw h1 h3 (by omega) h2 hto (h4.trans hend)
      (hfree g mem_cons_self)
    have hstop : stop (slice o payload g) = g.1 + g.2 := by
      simp only [stop, slice, length_take, length_drop]
      omega
    obtain ⟨h5, h6⟩ := ih hgs hst hw he (fun g' hg' => hin g' (mem_cons_of_mem g hg')) <| by
      intro g' hg' b hb
      rcases mem_put.mp hb with rfl | hb
      · rw [hstop]
        exact .inr (hg g' hg')
      · exact hfree g' (mem_cons_of_mem g hg') b hb
    have hrest : SameRest rx (.storeGap (pos base o) payload rx (placeGap base g)) :=
      ⟨rfl, rfl, rfl, rfl⟩
    exact ⟨h5, hrest.trans h6⟩

/-- **Storing** a segment `[o, e)` beyond a gap: nothing known changes, and up to some
point `f` what was not known is taken from the segment; only when the map is full
does it stop short of `e`. -/
theorem Stored.storeOo (h : Stored base taken P B lo rx) (hlo : taken.length ≤ lo)
    (hPlo : P.length ≤ lo) (hw : rx.window.toNat < 2 ^ 31) (hsize : B.length ≤ maxReorderedSegments)
    (hlen : e = o + payload.length) (hne : payload ≠ []) (ho : lo ≤ o)
    (he : e ≤ taken.length + rx.window.toNat) :
    ∃ B' f, Stored base taken P B' lo (rx.storeOo (pos base o) payload) ∧
      B'.length ≤ maxReorderedSegments ∧ o ≤ f ∧ f ≤ e ∧
      (f = e ∨ B'.length = maxReorderedSegments) ∧
      (∀ i, content P B' i = (content P B i).or
        (if o ≤ i ∧ i < f then payload[i - o]? else none)) ∧
      SameRest rx (rx.storeOo (pos base o) payload) := by
  have hpos := length_pos_iff.mpr hne
  have hoe : o < e := by omega
  rw [RxState.storeOo, h.size_eq]
  by_cases hslots : maxReorderedSegments - B.length = 0
  · simp only [if_pos hslots]
    refine ⟨B, o, h, hsize, le_rfl, hoe.le, .inr (by omega), fun i => ?_, SameRest.refl rx⟩
    rw [if_neg (by omega), or_none]
  · simp only [if_neg hslots]
    have hA := ahead_visited h.spaced hoe
    obtain ⟨hle, f, hS, hf⟩ := gaps_spec hA (Nat.pos_of_ne_zero hslots)
    have hA' : ∀ b ∈ visited B o e, lo ≤ b.1 ∧ stop b ≤ taken.length + rx.window.toNat := by
      intro b hb
      obtain ⟨h1, -, h3⟩ := h.spaced.of_mem (hA.mem b hb).1
      exact ⟨h1, h3⟩
    have hscan := gapScan_place base (maxReorderedSegments - B.length)
      (show taken.length + rx.window.toNat < lo + 2 ^ 31 by omega) (by omega) he hA' ho
      (by omega) []
    have hgaps : rx.gaps (maxReorderedSegments - B.length) (pos base o) (pos base e) =
        (Blocks.gaps (maxReorderedSegments - B.length) o e (visited B o e)).map
          (placeGap base) := by
      obtain ⟨hc1, hc2⟩ := gapScan_cursor (maxReorderedSegments - B.length) e
        (fun b hb => (hA' b hb).2) (show o ≤ taken.length + rx.window.toNat by omega) []
      rw [gaps, h.visited_eq hlo hw ho hoe he, Blocks.gaps]
      simp only [map_nil] at hscan
      simp only [hscan, length_map]
      rw [lt_pos (by omega) (by omega)]
      simp only [decide_eq_true_eq]
      split
      next hlt =>
        rw [pos_sub hlt.2.le (by omega), map_append]
        rfl
      · rfl
    have hstop : pos base o + UInt32.ofNat payload.length = pos base e := by
      rw [pos_add, hlen]
    rw [hstop, hgaps]
    generalize hgs : Blocks.gaps (maxReorderedSegments - B.length) o e (visited B o e) = gs at *
    have hin : ∀ g ∈ gs, lo ≤ g.1 ∧ o ≤ g.1 ∧ 0 < g.2 ∧ g.1 + g.2 ≤ e := by
      intro g hg
      obtain ⟨h1, h2, -, h4⟩ := hS.inside g hg
      exact ⟨by omega, h1, h2, h4⟩
    obtain ⟨hst, hsame⟩ := h.storeGaps (by omega) hlen.le hlo hS.ordered hw he hin hS.free
    have hslices := hS.spaced_slices (p := payload) hlen.le
    have hapart : ∀ b ∈ gs.map (slice o payload), ∀ c ∈ B, stop b ≤ c.1 ∨ stop c ≤ b.1 := by
      intro b hb c hc
      obtain ⟨g, hg, rfl⟩ := mem_map.mp hb
      obtain ⟨h1, -, -, h4⟩ := hS.inside g hg
      have := hS.free g hg c hc
      simp only [stop, slice, length_take, length_drop] at this ⊢
      omega
    obtain ⟨-, hlook⟩ := h.spaced.putAll (hslices.mono le_rfl he) ho hapart
    refine ⟨_, max o (min f e), hst, ?_, le_max_left o _, by omega, ?_, fun i => ?_, hsame⟩
    · rw [length_putAll, length_map]
      omega
    · rw [length_putAll, length_map]
      omega
    · rcases lt_or_ge i P.length with hi | hi
      · rw [content_of_lt hi, content_of_lt hi, if_neg (by omega), or_none]
      · rw [content_of_ge hi, content_of_ge hi, hlook, lookup_slices hS hlen.le]
        cases hBi : lookup B i with
        | some x => rfl
        | none =>
          refine if_congr ⟨?_, ?_⟩ rfl rfl
          · rintro ⟨g, hg, h1, h2⟩
            obtain ⟨h3, -, h5, h6⟩ := hS.inside g hg
            omega
          · rintro ⟨h1, h2⟩
            refine (hS.cover i h1 (by omega)).resolve_right ?_
            rintro ⟨b, hb, hbi⟩
            have := lookup_isSome_of_mem h.spaced hb hbi.1 hbi.2
            rw [hBi] at this
            cases this

/-! ### Accepting a segment -/

/-- The byte for offset `i` of a segment that starts `d` bytes from offset `n`. -/
def carried (n : ℕ) (d : ℤ) (payload : List UInt8) (i : ℕ) : Option UInt8 :=
  if (n : ℤ) + d ≤ i then payload[((i : ℤ) - (n + d)).toNat]? else none

variable {off n i : ℕ}

theorem carried_of_le (h : n + off ≤ i) :
    carried n off payload i = payload[i - (n + off)]? := by
  rw [carried, if_pos (by omega)]
  congr 1
  omega

theorem carried_of_lt (h : i < n + off) :
    carried n off payload i = none := by
  rw [carried, if_neg (by omega)]

/-- The part of a segment behind `n` is not looked at. -/
theorem carried_drop {skip : ℕ} (h : n ≤ i) :
    carried n (-(skip : ℤ)) payload i = carried n 0 (payload.drop skip) i := by
  rw [carried, carried, if_pos (by omega), if_pos (by omega), getElem?_drop]
  congr 1
  omega

variable (taken P B) in
/-- What one segment does to the bytes known: those it carries inside the buffer are
taken where nothing was known, up to a cut that only a full map makes. -/
structure Accepted (d : ℤ) (payload P' : List UInt8) (B' : List (ℕ × List UInt8)) (window cut : ℕ) :
    Prop where
  content_eq : ∀ i, content P' B' i = (content P B i).or
    (if P.length ≤ i ∧ i < cut ∧ i < taken.length + window then carried P.length d payload i
      else none)
  uncut : taken.length + window ≤ cut ∨ 0 < d ∧ B'.length = maxReorderedSegments
  length_le : P.length ≤ P'.length
  size_le : B'.length ≤ maxReorderedSegments

/-- A segment of which nothing is taken. -/
theorem Accepted.none {d : ℤ} {window : ℕ} (hsize : B.length ≤ maxReorderedSegments)
    (h : ∀ i, P.length ≤ i → i < taken.length + window → carried P.length d payload i = none) :
    Accepted taken P B d payload P B window (taken.length + window) where
  content_eq i := by
    by_cases hi : P.length ≤ i ∧ i < taken.length + window ∧ i < taken.length + window
    · rw [if_pos hi, h i hi.1 hi.2.1, or_none]
    · rw [if_neg hi, or_none]
  uncut := .inl le_rfl
  length_le := le_rfl
  size_le := hsize

/-- The free space up to the edge of the buffer. -/
theorem Stored.space_eq (h : Stored base taken P B lo rx) (hw : rx.window.toNat < 2 ^ 31) :
    (Saturating.sub32 rx.window (UInt32.ofNat rx.readBuf.length)).toNat =
      taken.length + rx.window.toNat - P.length := by
  have hlen := h.length_eq
  have hreach := h.reach
  rw [Saturating.toNat_sub32, UInt32.toNat_ofNat_of_lt' (by simp only [UInt32.size]; omega)]
  omega

theorem Stored.acceptTail (h : Stored base taken P B (P.length + 1) rx) (hbase : 2 ^ 31 ≤ base)
    (hw : rx.window.toNat < 2 ^ 31) (hsize : B.length ≤ maxReorderedSegments) (hne : payload ≠ [])
    (hoff : off < 2 ^ 32) :
    ∃ P' B' cut rx', Stored base taken P' B' (P'.length + 1) rx' ∧
      Accepted taken P B off payload P' B' rx.window.toNat cut ∧ SameRest rx rx' ∧
      (P' = P ∧ (rx.acceptTail (pos base (P.length + off)) payload).1 = rx' ∨
        (rx.acceptTail (pos base (P.length + off)) payload).1 = rx'.tryConsumeFin) := by
  have hlen := h.length_eq
  have hspace := h.space_eq hw
  have hoffset : (pos base (P.length + off) - rx.rcvNxt).toNat = off := by
    rw [h.rcvNxt, pos_sub (by omega) (by omega)]
    omega
  rw [RxState.acceptTail]
  generalize hedge : taken.length + rx.window.toNat = edge at *
  by_cases hfit : Saturating.sub32 rx.window (ofNat rx.readBuf.length) ≤
      pos base (P.length + off) - rx.rcvNxt
  · rw [if_pos hfit]
    rw [le_iff_toNat_le, hspace, hoffset] at hfit
    refine ⟨P, B, _, rx, h, Accepted.none hsize fun i h1 h2 => ?_, SameRest.refl rx,
      .inl ⟨rfl, rfl⟩⟩
    exact carried_of_lt (by omega)
  · rw [if_neg hfit]
    rw [le_iff_toNat_le, hspace, hoffset] at hfit
    have hroom : (Saturating.sub32 rx.window (ofNat rx.readBuf.length) -
        (pos base (P.length + off) - rx.rcvNxt)).toNat = edge - (P.length + off) := by
      rw [UInt32.toNat_sub_of_le _ _ (UInt32.le_iff_toNat_le.mpr (by omega)), hspace, hoffset]
      omega
    rw [hroom]
    generalize htrim : payload.take (edge - (P.length + off)) = trimmed
    have hpos := length_pos_iff.mpr hne
    have htlen : trimmed.length = min (edge - (P.length + off)) payload.length := by
      rw [← htrim, length_take]
    have hcar : ∀ i, i < edge → carried P.length off payload i =
        if P.length + off ≤ i then trimmed[i - (P.length + off)]? else none := by
      intro i hi
      split
      next ho => rw [carried_of_le ho, ← htrim, getElem?_take_of_lt (by omega)]
      · exact carried_of_lt (by omega)
    have hcut (f cut : ℕ) (hf : f ≤ cut) (hc : cut ≤ edge)
        (hnone : f = cut ∨ f = P.length + off + trimmed.length) (i : ℕ) :
        (if P.length + off ≤ i ∧ i < f then trimmed[i - (P.length + off)]? else none) =
          if P.length ≤ i ∧ i < cut ∧ i < edge then carried P.length off payload i else none := by
      by_cases hi : P.length ≤ i ∧ i < cut
      · rw [if_pos (c := P.length ≤ i ∧ i < cut ∧ i < edge) (by omega), hcar i (by omega)]
        split
        · rw [if_pos (by omega)]
        · split
          · rw [getElem?_eq_none (by omega)]
          · rfl
      · rw [if_neg (by omega), if_neg (by omega)]
    by_cases hin : pos base (P.length + off) = rx.rcvNxt
    · -- in order
      have hoff0 : off = 0 := by
        rw [h.rcvNxt, pos_inj (by omega) (by omega)] at hin
        omega
      subst hoff0
      rw [if_pos hin, pos_add]
      obtain ⟨P', B', hst, h1, h2, h3, h4, h5⟩ := Stored.fillLoop hbase rfl h hw
        (show P.length + 0 + trimmed.length ≤ _ by rw [hedge]; omega) (by omega) (by omega)
        (fun _ => show B.length < rx.oo.size + 1 by rw [h.size_eq]; omega)
      refine ⟨P', B', edge, _, hst, ⟨fun i => ?_, by rw [hedge]; exact .inl le_rfl, h2,
        h3.trans hsize⟩, h5, .inr rfl⟩
      rw [h4, hedge]
      exact congrArg _ (hcut _ edge (by omega) le_rfl (.inr rfl) i)
    · -- beyond a gap
      have hoff0 : 0 < off := by
        rw [h.rcvNxt, pos_inj (by omega) (by omega)] at hin
        omega
      rw [if_neg hin]
      obtain ⟨B', f, hst, h1, h2, h3, h4, h5, h6⟩ := h.storeOo (by omega) (by omega) hw hsize
        (rfl : P.length + off + trimmed.length = _)
        (by rw [← length_pos_iff]; omega) (by omega) (by rw [hedge]; omega)
      rcases h4 with h4 | h4
      · refine ⟨P, B', edge, _, hst, ⟨fun i => ?_, by rw [hedge]; exact .inl le_rfl, le_rfl, h1⟩,
          h6, .inl ⟨rfl, rfl⟩⟩
        rw [h5, hedge]
        exact congrArg _ (hcut f edge (by omega) le_rfl (.inr h4) i)
      · refine ⟨P, B', f, _, hst, ⟨fun i => ?_, .inr ⟨by omega, h4⟩, le_rfl, h1⟩, h6,
          .inl ⟨rfl, rfl⟩⟩
        rw [h5, hedge]
        exact congrArg _ (hcut f f le_rfl (by omega) (.inl rfl) i)

/-- **Accepting a segment**, wherever it starts relative to what has arrived. -/
theorem Stored.accept (h : Stored base taken P B (P.length + 1) rx) (hbase : 2 ^ 31 ≤ base)
    (hw : rx.window.toNat < 2 ^ 31) (hsize : B.length ≤ maxReorderedSegments) (hne : payload ≠ [])
    (seq : UInt32) :
    ∃ P' B' cut rx', Stored base taken P' B' (P'.length + 1) rx' ∧
      Accepted taken P B (seq - rx.rcvNxt).toInt32.toInt payload P' B' rx.window.toNat cut ∧
      SameRest rx rx' ∧
      (P' = P ∧ (rx.accept seq payload).1 = rx' ∨
        (rx.accept seq payload).1 = rx'.tryConsumeFin) := by
  have hseq := eq_pos_add seq base P.length
  rw [← h.rcvNxt] at hseq
  have hlt32 := (seq - rx.rcvNxt).toNat_lt
  rw [RxState.accept]
  by_cases hbehind : Seq.lt seq rx.rcvNxt = true
  · have hneg := (toInt32_neg_iff _).mp (of_decide_eq_true hbehind)
    have hskip : (rx.rcvNxt - seq).toNat = 2 ^ 32 - (seq - rx.rcvNxt).toNat := by
      have h1 := seq.toNat_lt
      have h2 := rx.rcvNxt.toNat_lt
      rw [UInt32.toNat_sub] at hneg ⊢
      rw [UInt32.toNat_sub]
      omega
    have hd : (seq - rx.rcvNxt).toInt32.toInt = -((rx.rcvNxt - seq).toNat : ℤ) := by
      rw [toInt_toInt32, hskip]
      simp only [Int.bmod]
      split <;> omega
    rw [if_pos hbehind, hd]
    by_cases hall : payload.length ≤ (rx.rcvNxt - seq).toNat
    · rw [if_pos hall]
      refine ⟨P, B, _, rx, h, Accepted.none hsize fun i h1 _ => ?_, SameRest.refl rx,
        .inl ⟨rfl, rfl⟩⟩
      rw [carried_drop h1, drop_eq_nil_of_le hall, carried]
      simp
    · rw [if_neg hall]
      have hne' : payload.drop (rx.rcvNxt - seq).toNat ≠ [] := by
        rwa [ne_eq, drop_eq_nil_iff]
      obtain ⟨P', B', cut, rx', hst, hacc, hsame, hres⟩ :=
        h.acceptTail hbase hw hsize hne' (show 0 < 2 ^ 32 by decide)
      rw [add_zero, ← h.rcvNxt] at hres
      refine ⟨P', B', cut, rx', hst, ⟨fun i => ?_, ?_, hacc.length_le, hacc.size_le⟩, hsame, hres⟩
      · rw [hacc.content_eq]
        congr 1
        split
        next hi => exact (carried_drop hi.1).symm
        · rfl
      · exact .inl (hacc.uncut.resolve_right fun hcon => absurd hcon.1 (by simp))
  · have hnn := mt (fun hn => (decide_eq_true ((toInt32_neg_iff _).mpr hn))) hbehind
    have hd : (seq - rx.rcvNxt).toInt32.toInt = ((seq - rx.rcvNxt).toNat : ℤ) := by
      rw [toInt_toInt32]
      simp only [Int.bmod]
      split <;> omega
    have htail := h.acceptTail hbase hw hsize hne hlt32
    rw [← hseq] at htail
    rwa [if_neg hbehind, hd]

/-- **Handing out** delivered bytes moves only the edge of the buffer. -/
theorem Stored.takeRead (h : Stored base taken P B lo rx) (n : ℕ) :
    Stored base (taken ++ rx.readBuf.take n) P B lo (rx.takeRead n).1 := by
  have hreach := h.reach
  refine ⟨?_, h.rcvNxt, h.perm, h.spaced.mono le_rfl ?_, h.ooBytes, ?_⟩
  · rw [RxState.takeRead, append_assoc, take_append_drop]
    exact h.prefix_eq
  · rw [length_append]
    exact Nat.add_le_add_right (Nat.le_add_right _ _) _
  · show P.length ≤ (taken ++ rx.readBuf.take n).length + rx.window.toNat
    rw [length_append]
    omega

end Storage

end VeilNetwork.OnionStream.RxState
