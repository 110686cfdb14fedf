import Mathlib.Algebra.Ring.Nat
import Mathlib.Data.List.Perm.Basic
import Mathlib.Order.Nat

/-!
# Disjoint blocks of a sequence

A sequence of which only some stretches are known, held as blocks: an offset and the elements from
there on. The blocks are listed in order, are not empty and do not overlap (`Blocks.Spaced`), so
that every offset belongs to at most one of them and `Blocks.lookup` reads the sequence off.

The second half is about adding a stretch of which parts may be known already without touching
what is known: `Blocks.gapScan` walks the blocks that meet the stretch and collects the gaps
between them, and `Blocks.gaps_spec` says what it has collected when it stops, be it because the
stretch is exhausted or because it may collect no more.
-/

namespace VeilNetwork.Blocks

open List Option

variable {gs : List (ℕ × ℕ)} {α : Type*}

/-- The offset just past a block. -/
def stop (b : ℕ × List α) : ℕ := b.1 + b.2.length

/-- The block that holds the elements `from` an offset of a stretch starting at `o`. -/
def slice (o : ℕ) (l : List α) (g : ℕ × ℕ) : ℕ × List α := (g.1, (l.drop (g.1 - o)).take g.2)

/-- Blocks in order, not empty, without overlap, inside `[lo, hi)`. -/
def Spaced : ℕ → ℕ → List (ℕ × List α) → Prop
  | _, _, [] => True
  | lo, hi, b :: l => lo ≤ b.1 ∧ b.2 ≠ [] ∧ stop b ≤ hi ∧ Spaced (stop b) hi l

/-- The element at an offset, if known. -/
def lookup : List (ℕ × List α) → ℕ → Option α
  | [], _ => none
  | b :: l, i => if b.1 ≤ i ∧ i < stop b then b.2[i - b.1]? else lookup l i

/-- Add a block in its place. -/
def put (b : ℕ × List α) : List (ℕ × List α) → List (ℕ × List α)
  | [] => [b]
  | c :: l => if b.1 < c.1 then b :: c :: l else c :: put b l

/-! ### Reading -/

section Reading

variable {lo hi i : ℕ} {b : ℕ × List α} {l : List (ℕ × List α)} {x : α}

theorem lt_stop (h : b.2 ≠ []) : b.1 < stop b := by
  have := length_pos_iff.mpr h
  simp only [stop]
  omega

section

variable (h : Spaced lo hi l)

include h

theorem Spaced.mono {lo' hi' : ℕ} (hlo : lo' ≤ lo) (hhi : hi ≤ hi') : Spaced lo' hi' l := by
  induction l generalizing lo lo' with
  | nil => trivial
  | cons b l ih =>
    obtain ⟨h1, h2, h3, h4⟩ := h
    exact ⟨hlo.trans h1, h2, h3.trans hhi, ih h4 le_rfl⟩

theorem Spaced.of_mem (hb : b ∈ l) : lo ≤ b.1 ∧ b.2 ≠ [] ∧ stop b ≤ hi := by
  induction l generalizing lo with
  | nil => cases hb
  | cons c l ih =>
    obtain ⟨h1, h2, h3, h4⟩ := h
    rcases mem_cons.mp hb with rfl | hb
    · exact ⟨h1, h2, h3⟩
    · obtain ⟨h5, h6, h7⟩ := ih h4 hb
      exact ⟨(h1.trans (lt_stop h2).le).trans h5, h6, h7⟩

/-- Of two blocks the earlier ends before the later starts. -/
theorem Spaced.pairwise : l.Pairwise fun b c => stop b ≤ c.1 := by
  induction l generalizing lo with
  | nil => exact List.Pairwise.nil
  | cons b l ih =>
    obtain ⟨-, -, -, h4⟩ := h
    exact pairwise_cons.mpr ⟨fun c hc => (h4.of_mem hc).1, ih h4⟩

/-- The offsets increase strictly. -/
theorem Spaced.sorted : l.Pairwise fun b c => b.1 < c.1 := by
  have hne : ∀ b ∈ l, b.2 ≠ [] := fun b hb => (h.of_mem hb).2.1
  exact h.pairwise.imp_of_mem fun {b c} hb _ hbc => (lt_stop (hne b hb)).trans_le hbc

theorem lookup_eq_none_of_lt (hi' : i < lo) : lookup l i = none := by
  induction l generalizing lo with
  | nil => rfl
  | cons b l ih =>
    obtain ⟨h1, h2, -, h4⟩ := h
    have := lt_stop h2
    rw [lookup, if_neg (by omega)]
    exact ih h4 (by omega)

end

/-- What is known lies in a block. -/
theorem exists_of_lookup (h : lookup l i = some x) :
    ∃ b ∈ l, b.1 ≤ i ∧ i < stop b ∧ b.2[i - b.1]? = some x := by
  induction l with
  | nil => cases h
  | cons b l ih =>
    rw [lookup] at h
    split at h
    next hb => exact ⟨b, mem_cons_self, hb.1, hb.2, h⟩
    · obtain ⟨c, hc, h'⟩ := ih h
      exact ⟨c, mem_cons_of_mem b hc, h'⟩

/-- **What a block holds is what is known there.** -/
theorem lookup_of_mem (h : Spaced lo hi l) (hb : b ∈ l) (h1 : b.1 ≤ i) (h2 : i < stop b) :
    lookup l i = b.2[i - b.1]? := by
  induction l generalizing lo with
  | nil => cases hb
  | cons c l ih =>
    obtain ⟨-, -, -, h4⟩ := h
    rcases mem_cons.mp hb with rfl | hb
    · rw [lookup, if_pos ⟨h1, h2⟩]
    · have := (h4.of_mem hb).1
      rw [lookup, if_neg (by omega)]
      exact ih h4 hb

theorem lookup_isSome_of_mem (h : Spaced lo hi l) (hb : b ∈ l) (h1 : b.1 ≤ i) (h2 : i < stop b) :
    (lookup l i).isSome := by
  rw [lookup_of_mem h hb h1 h2]
  simp only [stop] at h2
  rw [getElem?_eq_getElem (by omega)]
  rfl

/-- Together the blocks are no longer than the range they lie in. -/
theorem Spaced.total_le (h : Spaced lo hi l) (hlo : lo ≤ hi) :
    lo + (l.map fun b => b.2.length).sum ≤ hi := by
  induction l generalizing lo with
  | nil => simpa using hlo
  | cons b l ih =>
    obtain ⟨h1, -, h3, h4⟩ := h
    have := ih h4 h3
    simp only [map_cons, sum_cons, stop] at this ⊢
    omega

end Reading

/-! ### Adding a block -/

section Putting

variable {lo hi i : ℕ} {b c : ℕ × List α} {l : List (ℕ × List α)}

variable (b l) in
theorem put_perm : (put b l).Perm (b :: l) := by
  induction l with
  | nil => exact List.Perm.refl _
  | cons c l ih =>
    rw [put]
    split
    · exact List.Perm.refl _
    · exact (ih.cons c).trans (List.Perm.swap b c l)

theorem mem_put : c ∈ put b l ↔ c = b ∨ c ∈ l := by
  rw [(put_perm b l).mem_iff, mem_cons]

/-- A block that meets none of the others keeps them apart. -/
theorem Spaced.put (h : Spaced lo hi l) (h1 : lo ≤ b.1) (h2 : b.2 ≠ []) (h3 : stop b ≤ hi)
    (hfree : ∀ c ∈ l, stop b ≤ c.1 ∨ stop c ≤ b.1) : Spaced lo hi (put b l) := by
  induction l generalizing lo with
  | nil => exact ⟨h1, h2, h3, trivial⟩
  | cons c l ih =>
    obtain ⟨h4, h5, h6, h7⟩ := h
    have hc := hfree c mem_cons_self
    have hlt := lt_stop h2
    have hlt' := lt_stop h5
    rw [Blocks.put]
    split
    · exact ⟨h1, h2, h3, by omega, h5, h6, h7⟩
    · exact ⟨h4, h5, h6, ih h7 (by omega) fun d hd => hfree d (mem_cons_of_mem c hd)⟩

/-- **After adding a block** its elements are known, and nothing else has changed. -/
theorem lookup_put (hfree : ∀ c ∈ l, stop b ≤ c.1 ∨ stop c ≤ b.1) :
    lookup (put b l) i = if b.1 ≤ i ∧ i < stop b then b.2[i - b.1]? else lookup l i := by
  induction l with
  | nil => rfl
  | cons c l ih =>
    have hc := hfree c mem_cons_self
    rw [put]
    split
    · rfl
    · rw [lookup, ih fun d hd => hfree d (mem_cons_of_mem c hd)]
      by_cases hi' : b.1 ≤ i ∧ i < stop b
      · rw [if_neg (by omega), if_pos hi', if_pos hi']
      · rw [if_neg hi', if_neg hi', lookup]

/-- Several blocks, first the first. -/
def putAll (bs l : List (ℕ × List α)) : List (ℕ × List α) := bs.foldl (fun l b => put b l) l

theorem length_putAll (bs l : List (ℕ × List α)) : (putAll bs l).length = bs.length + l.length := by
  induction bs generalizing l with
  | nil => simp [putAll]
  | cons b bs ih =>
    have := ih (put b l)
    simp only [putAll, foldl_cons, length_cons] at this ⊢
    rw [this, (put_perm b l).length_eq, length_cons]
    omega

/-- Several blocks that meet neither the known ones nor each other. -/
theorem Spaced.putAll {bs : List (ℕ × List α)} {lo' : ℕ} (h : Spaced lo hi l)
    (hbs : Spaced lo' hi bs) (hlo : lo ≤ lo')
    (hfree : ∀ b ∈ bs, ∀ c ∈ l, stop b ≤ c.1 ∨ stop c ≤ b.1) :
    Spaced lo hi (putAll bs l) ∧
      ∀ i, lookup (putAll bs l) i = (lookup l i).or (lookup bs i) := by
  induction bs generalizing l lo' with
  | nil => exact ⟨h, fun i => by simp [Blocks.putAll, lookup]⟩
  | cons b bs ih =>
    obtain ⟨h1, h2, h3, h4⟩ := hbs
    have hb := hfree b mem_cons_self
    have hspaced := h.put (hlo.trans h1) h2 h3 hb
    have hrest : ∀ d ∈ bs, ∀ c ∈ Blocks.put b l, stop d ≤ c.1 ∨ stop c ≤ d.1 := by
      intro d hd c hc
      rcases mem_put.mp hc with rfl | hc
      · exact .inr (h4.of_mem hd).1
      · exact hfree d (mem_cons_of_mem b hd) c hc
    obtain ⟨h5, h6⟩ := ih hspaced h4 ((hlo.trans h1).trans (lt_stop h2).le) hrest
    refine ⟨h5, fun i => ?_⟩
    refine (h6 i).trans ?_
    rw [lookup_put hb, lookup]
    by_cases hi' : b.1 ≤ i ∧ i < stop b
    · have hnone : lookup l i = none := by
        rw [eq_none_iff_forall_ne_some]
        intro x hx
        obtain ⟨c, hc, h7, h8, -⟩ := exists_of_lookup hx
        have := hb c hc
        omega
      rw [hnone, lookup_eq_none_of_lt h4 hi'.2, or_none, none_or]
    · rw [if_neg hi', if_neg hi']

end Putting

/-! ### The gaps of a stretch -/

/-- Walk blocks from `cursor`, collecting the gaps before each of them, until `slots`
gaps are found or the walk passes `e`. -/
def gapScan (slots e : ℕ) : List (ℕ × List α) → ℕ → List (ℕ × ℕ) → ℕ × List (ℕ × ℕ)
  | [], cursor, gaps => (cursor, gaps)
  | b :: l, cursor, gaps =>
    let gaps := if cursor < b.1 then gaps ++ [(cursor, b.1 - cursor)] else gaps
    if cursor < b.1 ∧ gaps.length = slots then (cursor, gaps)
    else if e ≤ max cursor (stop b) then (max cursor (stop b), gaps)
    else gapScan slots e l (max cursor (stop b)) gaps

/-- The gaps of `[o, e)`, at most `slots` of them; `l` are the blocks that meet it. -/
def gaps (slots o e : ℕ) (l : List (ℕ × List α)) : List (ℕ × ℕ) :=
  let (cursor, gaps) := gapScan slots e l o []
  if gaps.length < slots ∧ cursor < e then gaps ++ [(cursor, e - cursor)] else gaps

/-- What has been collected of `[o, e)` when everything below `c` is settled: gaps in
order, each free, which with the blocks of `l` cover `[o, c)`. -/
structure Scanned (l : List (ℕ × List α)) (o e c : ℕ) (gaps : List (ℕ × ℕ)) : Prop where
  ordered : gaps.Pairwise fun g h => g.1 + g.2 ≤ h.1
  inside : ∀ g ∈ gaps, o ≤ g.1 ∧ 0 < g.2 ∧ g.1 + g.2 ≤ c ∧ g.1 + g.2 ≤ e
  free : ∀ g ∈ gaps, ∀ b ∈ l, g.1 + g.2 ≤ b.1 ∨ stop b ≤ g.1
  cover : ∀ i, o ≤ i → i < c →
    (∃ g ∈ gaps, g.1 ≤ i ∧ i < g.1 + g.2) ∨ ∃ b ∈ l, b.1 ≤ i ∧ i < stop b

/-- `ahead` lists, in order, the blocks of `l` that meet `[c, e)`, and perhaps others
that end before. -/
structure Ahead (l : List (ℕ × List α)) (c e : ℕ) (ahead : List (ℕ × List α)) : Prop where
  mem : ∀ b ∈ ahead, b ∈ l ∧ b.1 < e
  sorted : ahead.Pairwise fun b c => b.1 < c.1
  complete : ∀ b ∈ l, b.1 < e → c < stop b → b ∈ ahead

section Gaps

variable {l ahead : List (ℕ × List α)} {o e c : ℕ} {b : ℕ × List α}

theorem Scanned.start : Scanned l o e o [] :=
  ⟨List.Pairwise.nil, by simp, by simp, fun i h h' => absurd h' (by omega)⟩

/-- A free stretch up to `d` becomes the next gap. -/
theorem Scanned.push (h : Scanned l o e c gs) {d : ℕ} (hc : o ≤ c) (hd : c < d) (hde : d ≤ e)
    (hfree : ∀ b ∈ l, d ≤ b.1 ∨ stop b ≤ c) : Scanned l o e d (gs ++ [(c, d - c)]) where
  ordered := by
    refine pairwise_append.mpr ⟨h.ordered, pairwise_singleton _ _, ?_⟩
    intro g hg g' hg'
    rw [mem_singleton] at hg'
    subst hg'
    exact (h.inside g hg).2.2.1
  inside := by
    intro g hg
    rcases mem_append.mp hg with hg | hg
    · obtain ⟨h1, h2, h3, h4⟩ := h.inside g hg
      exact ⟨h1, h2, by omega, h4⟩
    · rw [mem_singleton] at hg
      subst hg
      exact ⟨hc, by simp only; omega, by simp only; omega, by simp only; omega⟩
  free := by
    intro g hg b hb
    rcases mem_append.mp hg with hg | hg
    · exact h.free g hg b hb
    · rw [mem_singleton] at hg
      subst hg
      have := hfree b hb
      simp only
      omega
  cover := by
    intro i h1 h2
    rcases lt_or_ge i c with hi | hi
    · obtain ⟨g, hg, hgi⟩ | hb := h.cover i h1 hi
      · exact .inl ⟨g, mem_append_left _ hg, hgi⟩
      · exact .inr hb
    · exact .inl ⟨(c, d - c), mem_append_right _ (mem_singleton_self _),
        by omega, by simp only; omega⟩

/-- A block settles what it covers. -/
theorem Scanned.skip (h : Scanned l o e c gs) (hb : b ∈ l) (hbc : b.1 ≤ c) :
    Scanned l o e (max c (stop b)) gs where
  ordered := h.ordered
  inside := by
    intro g hg
    obtain ⟨h1, h2, h3, h4⟩ := h.inside g hg
    exact ⟨h1, h2, by omega, h4⟩
  free := h.free
  cover := by
    intro i h1 h2
    rcases lt_or_ge i c with hi | hi
    · exact h.cover i h1 hi
    · exact .inr ⟨b, hb, by omega, by omega⟩

/-- Before the first block ahead nothing is known. -/
theorem Ahead.free (h : Ahead l c e (b :: ahead)) : ∀ d ∈ l, b.1 ≤ d.1 ∨ stop d ≤ c := by
  intro d hd
  rcases lt_or_ge d.1 b.1 with hlt | hge
  · right
    by_contra hstop
    have hbe := (h.mem b mem_cons_self).2
    rcases mem_cons.mp (h.complete d hd (by omega) (by omega)) with rfl | hmem
    · omega
    · have := (pairwise_cons.mp h.sorted).1 d hmem
      omega
  · exact .inl hge

/-- Past a block, the others are ahead. -/
theorem Ahead.tail (h : Ahead l c e (b :: ahead)) : Ahead l (max c (stop b)) e ahead where
  mem d hd := h.mem d (mem_cons_of_mem b hd)
  sorted := (pairwise_cons.mp h.sorted).2
  complete := by
    intro d hd hde hstop
    rcases mem_cons.mp (h.complete d hd hde (by omega)) with rfl | hmem
    · omega
    · exact hmem

/-- The cursor only advances, and no further than the blocks reach. -/
theorem gapScan_cursor (slots e : ℕ) {hi : ℕ} (hA : ∀ b ∈ ahead, stop b ≤ hi) (hc : c ≤ hi)
    (gs : List (ℕ × ℕ)) :
    c ≤ (gapScan slots e ahead c gs).1 ∧ (gapScan slots e ahead c gs).1 ≤ hi := by
  induction ahead generalizing c gs with
  | nil => exact ⟨le_rfl, hc⟩
  | cons b ahead ih =>
    have hb := hA b mem_cons_self
    rw [gapScan]
    generalize (if c < b.1 then gs ++ [(c, b.1 - c)] else gs) = gs'
    split
    · exact ⟨le_rfl, hc⟩
    · split
      · exact ⟨by simp only; omega, by simp only; omega⟩
      · obtain ⟨h1, h2⟩ := ih (fun d hd => hA d (mem_cons_of_mem b hd))
          (show max c (stop b) ≤ hi by omega) gs'
        exact ⟨by omega, h2⟩

/-- The walk stops with every slot used, or with everything up to its cursor settled
and nothing ahead of it. -/
theorem gapScan_spec {slots : ℕ} (hS : Scanned l o e c gs) (hA : Ahead l c e ahead) (ho : o ≤ c)
    (hlen : gs.length < slots) :
    ((gapScan slots e ahead c gs).2.length = slots ∧
      ∃ f, Scanned l o e f (gapScan slots e ahead c gs).2) ∨
    ((gapScan slots e ahead c gs).2.length < slots ∧ o ≤ (gapScan slots e ahead c gs).1 ∧
      Scanned l o e (gapScan slots e ahead c gs).1 (gapScan slots e ahead c gs).2 ∧
      (e ≤ (gapScan slots e ahead c gs).1 ∨
        Ahead l (gapScan slots e ahead c gs).1 e ([] : List (ℕ × List α)))) := by
  induction ahead generalizing c gs with
  | nil => exact .inr ⟨hlen, ho, hS, .inr hA⟩
  | cons b ahead ih =>
    obtain ⟨hb, hbe⟩ := hA.mem b mem_cons_self
    rw [gapScan]
    by_cases hcb : c < b.1
    · have hpush := hS.push ho hcb hbe.le hA.free
      have hskip := hpush.skip hb le_rfl
      have hmax : max b.1 (stop b) = max c (stop b) := by
        simp only [stop]
        omega
      rw [hmax] at hskip
      simp only [if_pos hcb]
      by_cases hfull : (gs ++ [(c, b.1 - c)]).length = slots
      · rw [if_pos ⟨hcb, hfull⟩]
        exact .inl ⟨hfull, b.1, hpush⟩
      · have hlen' : (gs ++ [(c, b.1 - c)]).length < slots := by
          simp only [length_append, length_singleton] at hfull ⊢
          omega
        rw [if_neg fun h => hfull h.2]
        split
        next he => exact .inr ⟨hlen', by simp only; omega, hskip, .inl he⟩
        · exact ih hskip hA.tail (by omega) hlen'
    · have hskip := hS.skip hb (by omega)
      rw [if_neg fun h => hcb h.1]
      split
      next he => exact .inr ⟨hlen, by simp only; omega, hskip, .inl he⟩
      · exact ih hskip hA.tail (by omega) hlen

/-- **The gaps of a stretch**: in order, inside it and free; they cover, with what is
known, everything up to some point, which is past the stretch unless the slots ran out. -/
theorem gaps_spec {slots : ℕ} (hA : Ahead l o e ahead) (hslots : 0 < slots) :
    (gaps slots o e ahead).length ≤ slots ∧
      ∃ f, Scanned l o e f (gaps slots o e ahead) ∧
        (e ≤ f ∨ (gaps slots o e ahead).length = slots) := by
  have h := gapScan_spec Scanned.start hA le_rfl hslots
  rw [gaps]
  rcases h with ⟨hlen, f, hf⟩ | ⟨hlen, ho, hS, hend⟩
  · simp only [hlen, lt_irrefl, false_and, if_false]
    exact ⟨le_rfl, f, hf, .inr trivial⟩
  · simp only
    by_cases hce : (gapScan slots e ahead o []).1 < e
    · rw [if_pos ⟨hlen, hce⟩]
      have hfree := (hend.resolve_left (by omega)).complete
      refine ⟨by simpa using Nat.succ_le_of_lt hlen, e, hS.push ho hce le_rfl fun b hb => ?_,
        .inl le_rfl⟩
      rcases lt_or_ge b.1 e with hbe | hbe
      · right
        by_contra hstop
        exact absurd (hfree b hb hbe (by omega)) not_mem_nil
      · exact .inl hbe
    · rw [if_neg fun h => hce h.2]
      exact ⟨hlen.le, _, hS, .inl (by omega)⟩

end Gaps

/-! ### Filling the gaps -/

section Filling

variable {lo o c e : ℕ} {l : List (ℕ × List α)} {p : List α}

/-- The elements for the gaps of a stretch, as blocks of their own. -/
theorem Scanned.spaced_slices (h : Scanned l o e c gs) (he : e ≤ o + p.length) :
    Spaced o e (gs.map (slice o p)) := by
  suffices hgen : ∀ (lo : ℕ) (gs : List (ℕ × ℕ)), gs.Pairwise (fun g h => g.1 + g.2 ≤ h.1) →
      (∀ g ∈ gs, lo ≤ g.1 ∧ o ≤ g.1 ∧ 0 < g.2 ∧ g.1 + g.2 ≤ e) →
      Spaced lo e (gs.map (slice o p)) by
    refine hgen o gs h.ordered fun g hg => ?_
    obtain ⟨h1, h2, -, h4⟩ := h.inside g hg
    exact ⟨h1, h1, h2, h4⟩
  intro lo gs
  induction gs generalizing lo with
  | nil => exact fun _ _ => trivial
  | cons g gs ih =>
    intro hord hin
    obtain ⟨hg, hgs⟩ := pairwise_cons.mp hord
    obtain ⟨h1, h2, h3, h4⟩ := hin g mem_cons_self
    have hlen : ((p.drop (g.1 - o)).take g.2).length = g.2 := by
      simp only [length_take, length_drop]
      omega
    have hstop : stop (slice o p g) = g.1 + g.2 := by rw [stop, slice, hlen]
    refine ⟨h1, ?_, by rw [hstop]; exact h4, ?_⟩
    · rw [← length_pos_iff]
      simp only [slice]
      omega
    · rw [hstop]
      refine ih _ hgs fun g' hg' => ?_
      obtain ⟨-, h5⟩ := hin g' (mem_cons_of_mem g hg')
      exact ⟨hg g' hg', h5⟩

/-- A slice reads like the stretch it was cut from. -/
theorem lookup_slices (h : Scanned l o e c gs) (he : e ≤ o + p.length) {i : ℕ} :
    lookup (gs.map (slice o p)) i =
      if ∃ g ∈ gs, g.1 ≤ i ∧ i < g.1 + g.2 then p[i - o]? else none := by
  have hspaced := h.spaced_slices he
  have hlen : ∀ g ∈ gs, stop (slice o p g) = g.1 + g.2 := by
    intro g hg
    obtain ⟨h1, -, -, h4⟩ := h.inside g hg
    simp only [stop, slice, length_take, length_drop]
    omega
  split
  next hex =>
    obtain ⟨g, hg, h1, h2⟩ := hex
    rw [lookup_of_mem hspaced (mem_map_of_mem hg) h1 (by rw [hlen g hg]; exact h2)]
    have ho := (h.inside g hg).1
    simp only [slice]
    rw [getElem?_take_of_lt (by omega), getElem?_drop]
    congr 1
    omega
  next hex =>
    rw [eq_none_iff_forall_ne_some]
    intro x hx
    obtain ⟨b, hb, h1, h2, -⟩ := exists_of_lookup hx
    obtain ⟨g, hg, rfl⟩ := mem_map.mp hb
    rw [hlen g hg] at h2
    exact hex ⟨g, hg, h1, h2⟩

end Filling

/-! ### Segments of one sequence -/

/-- The elements of `W` from offset `o` on, as many as the segment has. -/
def SegmentOf (W : List α) (o : ℕ) (l : List α) : Prop :=
  l = (W.drop o).take l.length ∧ o + l.length ≤ W.length

namespace SegmentOf

variable {W l : List α} {o : ℕ}

theorem getElem? (h : SegmentOf W o l) {j : ℕ} {x : α} (hx : l[j]? = some x) :
    W[o + j]? = some x := by
  rw [h.1, getElem?_take] at hx
  split at hx
  · rwa [← getElem?_drop]
  · cases hx

/-- What is appended to a sequence leaves its segments alone. -/
theorem append (h : SegmentOf W o l) (W' : List α) : SegmentOf (W ++ W') o l := by
  obtain ⟨hslice, hle⟩ := h
  refine ⟨?_, by rw [length_append]; omega⟩
  rw [drop_append_of_le_length (by omega), take_append_of_le_length]
  · exact hslice
  · rw [length_drop]
    omega

end SegmentOf

end VeilNetwork.Blocks
