import Mathlib.Tactic.FinCases
import VeilNetwork.Lib.Rounds
import VeilNetwork.Lib.Run
import VeilNetwork.Session.PriorityQueue

/-!
# Weights of the outgoing queue

What the weights of the classes decide: which frame goes when there is no room, and how often
each class is served.

When the queue is full, the victim is looked for from the last queue to that of the incoming
frame. As long as there were four classes, and with the fifth, that was the order of the weights.
The two queues for locally authored signaling and network control come after them but have the
weight of `INTERACTIVE`, so that they are the first to lose a frame
(`PriorityQueue.signaling_shed_for_bulk`).

The rounds are those of `Rounds`: a pop takes a slot, and a round is reset when a pass over the
queues has found nothing to return.
-/

namespace VeilNetwork.Session.PriorityQueue

open List Option Bool

variable {F : Type}

/-! ### Overflow -/

section

variable (s : PriorityQueue F)

/-- The queue in which a victim is looked for: without the entries of rejected work, if there
are too many. -/
def pruned : PriorityQueue F :=
  if s.maxDepth ≤ s.len then (List.finRange 7).foldl pruneRejectedWork s else s

/-- **The victim** is the oldest entry without a credit of the first queue that has one. -/
theorem shedFrom_cases (lanes : List Lane) :
    (s.shedFrom lanes = none ∧ ∀ q ∈ lanes, ∀ e ∈ s.queues q, e.reliableCredit ≠ none) ∨
      ∃ before d after i e, lanes = before ++ d :: after ∧
        (∀ q ∈ before, ∀ e ∈ s.queues q, e.reliableCredit ≠ none) ∧
        (s.queues d)[i]? = some e ∧ e.reliableCredit = none ∧
        s.shedFrom lanes = some (s.shedAt d i e) := by
  induction lanes with
  | nil => exact .inl ⟨rfl, nofun⟩
  | cons p lanes ih =>
    rw [shedFrom]
    split
    next hnone =>
      have hp : ∀ e ∈ s.queues p, e.reliableCredit ≠ none := fun e he hcredit => by
        have := findIdx?_eq_none_iff.mp hnone e he
        rw [hcredit] at this
        cases this
      rcases ih with ⟨hshed, hlanes⟩ | ⟨before, d, after, i, e, hlanes, hbefore, he, hcredit, hshed⟩
      · exact .inl ⟨hshed, forall_mem_cons.mpr ⟨hp, hlanes⟩⟩
      · refine .inr ⟨p :: before, d, after, i, e, ?_, ?_, he, hcredit, hshed⟩
        · rw [hlanes, cons_append]
        · exact forall_mem_cons.mpr ⟨hp, hbefore⟩
    next i hi =>
      obtain ⟨e, he, hcredit⟩ := exists_of_findIdx? hi
      refine .inr ⟨[], p, lanes, i, e, rfl, nofun, he,
        isNone_iff_eq_none.mp hcredit, ?_⟩
      rw [he]

theorem pairwise_lanesBelow (p : Lane) : (lanesBelow p).Pairwise (· > ·) := by
  revert p
  decide

variable {p : Lane}

theorem mem_lanesBelow {q : Lane} : q ∈ lanesBelow p ↔ p ≤ q := by
  rw [lanesBelow, mem_reverse, mem_filter, decide_eq_true_eq]
  exact and_iff_right (mem_finRange q)

variable {w : Fin 4 → ℕ}

/-- Of the first five queues, a later one weighs no more. -/
theorem laneWeights_le (hw : Antitone w) {d q : Lane} (hd : d ≤ 4) (hqd : q ≤ d) :
    laneWeights w d ≤ laneWeights w q := by
  have hclass (q : Lane) (hq : q ≤ 4) :
      laneWeights w q = w ⟨min q.1 3, Nat.lt_succ_of_le (min_le_right _ _)⟩ := by
    fin_cases q
    · rfl
    · rfl
    · rfl
    · rfl
    · rfl
    · exact absurd hq (by decide)
    · exact absurd hq (by decide)
  rw [hclass d hd, hclass q (hqd.trans hd)]
  exact hw (Fin.mk_le_mk.mpr (min_le_min_right 3 hqd))

/-- The other two weigh what `INTERACTIVE` does. -/
theorem laneWeights_of_gt (w : Fin 4 → ℕ) {d : Lane} (hd : ¬d ≤ 4) : laneWeights w d = w 1 := by
  fin_cases d
  all_goals first | rfl | exact absurd (by decide) hd

/-- A queue holds a frame that may be dropped: one without a credit. -/
def Droppable (q : Lane) : Prop := ∃ e ∈ s.queues q, e.reliableCredit = none

instance (s : PriorityQueue F) (q : Lane) : Decidable (s.Droppable q) :=
  inferInstanceAs (Decidable (∃ e ∈ s.queues q, e.reliableCredit = none))

/-- The last of the queues concerned is one of least weight if it is one of the first five,
and otherwise only if the others weigh what it does. -/
theorem laneWeights_last_iff (hw : Antitone w) {D : Lane → Prop} {p d : Lane} (hpd : p ≤ d)
    (hlast : ∀ q, D q → q ≤ d) (hd : d = p ∨ D d) :
    (laneWeights w d ≤ laneWeights w p ∧ ∀ q, D q → laneWeights w d ≤ laneWeights w q) ↔
      (p ≤ 4 ∧ ∀ q, D q → q ≤ 4) ∨
        (w 1 ≤ laneWeights w p ∧ ∀ q, D q → w 1 ≤ laneWeights w q) := by
  by_cases hd4 : d ≤ 4
  · refine iff_of_true ⟨laneWeights_le hw hd4 hpd, fun q hq => laneWeights_le hw hd4 (hlast q hq)⟩
      (.inl ⟨hpd.trans hd4, fun q hq => (hlast q hq).trans hd4⟩)
  · rw [laneWeights_of_gt w hd4]
    refine (or_iff_right fun hfirst => hd4 ?_).symm
    rcases hd with rfl | hd
    · exact hfirst.1
    · exact hfirst.2 d hd

/-- **When overflow inverts no weights**: what is dropped weighs no more than the incoming
frame and no more than anything else that may be dropped exactly if none of these is in one
of the last two queues, or none of them weighs less than `INTERACTIVE`. -/
theorem overflow_keeps_weights (hw : Antitone w) (s : PriorityQueue F)
    (hweights : s.weights = laneWeights w) (env : FrameEnvelope F) (enqueuedAt : Option ℕ)
    (hadmitted : s.rejected env.localWork = false) (hcredit : env.reliableCredit = none)
    (hfull : s.pruned.full = true) :
    ∃ d, ((∃ i e, (s.pruned.queues d)[i]? = some e ∧ e.reliableCredit = none ∧
          s.pushEntry env enqueuedAt = (s.pruned.shedAt d i e).enter env enqueuedAt) ∨
        (d = queueIndex env.priority ∧
          s.pushEntry env enqueuedAt = (s.pruned.reject env.localWork).countDrop)) ∧
      ((s.weights d ≤ s.weights (queueIndex env.priority) ∧
          ∀ q, s.pruned.Droppable q → s.weights d ≤ s.weights q) ↔
        (queueIndex env.priority ≤ 4 ∧ ∀ q, s.pruned.Droppable q → q ≤ 4) ∨
        (w 1 ≤ s.weights (queueIndex env.priority) ∧
          ∀ q, s.pruned.Droppable q → w 1 ≤ s.weights q)) := by
  have hpush : s.pushEntry env enqueuedAt =
      (s.pruned.shedFrom (lanesBelow (queueIndex env.priority))).elim
        (s.pruned.reject env.localWork).countDrop fun s => s.enter env enqueuedAt := by
    rw [pushEntry, hadmitted, hcredit]
    change (if s.pruned.full = true then _ else _) = _
    have hpruned : (if s.maxDepth ≤ s.len then (finRange 7).foldl pruneRejectedWork s else s) =
      s.pruned := rfl
    rw [if_pos hfull, hpruned]
    cases s.pruned.shedFrom (lanesBelow (queueIndex env.priority)) with
    | none | some => rfl
  rw [hpush, hweights]
  rcases s.pruned.shedFrom_cases (lanesBelow (queueIndex env.priority)) with ⟨hshed, hlanes⟩ |
    ⟨before, d, after, i, e, hlanes, hbefore, he, hnone, hshed⟩
  · -- everything that may be dropped is in a queue before the incoming frame's
    refine ⟨queueIndex env.priority, .inr ⟨rfl, by rw [hshed, elim_none]⟩,
      laneWeights_last_iff hw le_rfl (fun q ⟨e, he, hnone⟩ => not_lt.mp fun hlt => ?_) (.inl rfl)⟩
    exact hlanes q (mem_lanesBelow.mpr hlt.le) e he hnone
  · have hd : queueIndex env.priority ≤ d := mem_lanesBelow.mp (hlanes ▸ by simp)
    refine ⟨d, .inl ⟨i, e, he, hnone, by rw [hshed, elim_some]⟩,
      laneWeights_last_iff hw hd (fun q ⟨e', he', hnone'⟩ => not_lt.mp fun hlt => ?_)
        (.inr ⟨e, mem_of_getElem? he, hnone⟩)⟩
    -- a later queue would have been searched first
    have hq : q ∈ before ++ d :: after := hlanes ▸ mem_lanesBelow.mpr (hd.trans hlt.le)
    have hsorted := pairwise_lanesBelow (queueIndex env.priority)
    rw [hlanes, pairwise_append, pairwise_cons] at hsorted
    rcases mem_append.mp hq with hq | hq
    · exact hbefore q hq e' he' hnone'
    · rcases mem_cons.mp hq with rfl | hq
      · exact lt_irrefl _ hlt
      · exact lt_asymm hlt (hsorted.2.1.1 q hq)

/-- A queue with one place, and what is in it. -/
def onePlace (priority : UInt8) : PriorityQueue ℕ :=
  (withCapacityAndDropCounter ![8, 4, 2, 1] 1 0 0 fun _ => none).push priority 0

/-- `BACKGROUND` goes for `BULK`, and signaling for `REALTIME`. -/
theorem overflow_keeps_weights_bulk :
    (∃ d, (onePlace 3).weights d ≤ (onePlace 3).weights 2 ∧
      ∀ q, (onePlace 3).pruned.Droppable q → (onePlace 3).weights d ≤ (onePlace 3).weights q) ∧
    ∃ d, (onePlace 6).weights d ≤ (onePlace 6).weights 0 ∧
      ∀ q, (onePlace 6).pruned.Droppable q → (onePlace 6).weights d ≤ (onePlace 6).weights q := by
  have hw : Antitone ![8, 4, 2, 1] := by decide
  obtain ⟨d, -, hd⟩ := overflow_keeps_weights hw (onePlace 3) rfl (.ofFrame 0 2 1) none rfl rfl
    (by decide)
  obtain ⟨d', -, hd'⟩ := overflow_keeps_weights hw (onePlace 6) rfl (.ofFrame 0 0 1) none rfl rfl
    (by decide)
  exact ⟨⟨d, hd.mpr (.inl (by decide))⟩, d', hd'.mpr (.inr (by decide))⟩

/-- **A frame of local signaling goes for one of `BULK`**, although it weighs twice as much. -/
theorem signaling_shed_for_bulk :
    ((onePlace 6).queues 6).map (·.frame) = [0] ∧
      ((onePlace 6).push 2 1).queues 6 = [] ∧
      (((onePlace 6).push 2 1).queues 2).map (·.frame) = [1] ∧
      (onePlace 6).weights (queueIndex 2) < (onePlace 6).weights 6 := by
  decide

/-! ### Rounds -/

/-- A pop begins a new round: its first pass has found nothing, in a queue that is not empty. -/
def popResets : Bool :=
  match tryPopWithCurrentSlots (List.finRange 7) s with
  | (some _, _) => false
  | (none, s) => !s.isEmpty

/-- The same with a predicate. -/
def admittedResets (predicate : HeadPredicate F) : Bool :=
  match scanAdmitted predicate (List.finRange 7) 0 s with
  | (.passed _, s) => !s.isEmpty
  | _ => false

/-- What a pop means for the rounds: whether it began one, and the class it served. -/
def popEvents (resets : Bool) (result : Option (Popped F)) : List (Rounds.Event Lane) :=
  (if resets then [.reset] else []) ++ (result.map fun x => .served x.lane).toList

/-- The calls between which classes wait to be served. -/
inductive RoundOp (F : Type) where
  | push (env : FrameEnvelope F) (lossy : Bool)
  | refuse (works : List ℕ)
  | wait (time : ℕ)
  | pop
  | popAdmitted (predicate : HeadPredicate F)

def roundStep : RoundOp F → PriorityQueue F
  | .push env lossy => s.pushEnvelope env lossy
  | .refuse works => s.refuse works
  | .wait time => { s with now := s.now + time }
  | .pop => s.pop.2
  | .popAdmitted predicate => (s.popAdmittedEnvelope predicate).2

def roundEvents : RoundOp F → List (Rounds.Event Lane)
  | .pop => popEvents s.popResets s.pop.1
  | .popAdmitted predicate =>
    popEvents (s.admittedResets predicate) (s.popAdmittedEnvelope predicate).1
  | _ => []

/-- A queue holds a head that a pop can take: it has not expired, even after all the call may
have rejected, and the predicate does not defer it. -/
def Holding (p : Lane) (s : PriorityQueue F) : RoundOp F → Prop
  | .pop => ∃ e rest, s.queues p = e :: rest ∧ s.pop.2.expired p e = false
  | .popAdmitted predicate => ∃ e rest, s.queues p = e :: rest ∧
      (s.popAdmittedEnvelope predicate).2.expired p e = false ∧
      ∀ calls, (predicate calls p e.frame (e.reliableCredit.isSome && e.carrier.isNone)
        e.localWork).1 ≠ .deferSource
  | _ => True

/-- The predicate of a pop without one. -/
def admitAll : HeadPredicate F := fun _ _ _ _ _ => (.allow, [])

theorem scanAdmitted_admitAll (lanes : List Lane) (calls : ℕ) (s : PriorityQueue F) :
    scanAdmitted admitAll lanes calls s =
      ((tryPopWithCurrentSlots lanes s).1.elim (.passed calls) .taken,
        (tryPopWithCurrentSlots lanes s).2) := by
  induction lanes generalizing s with
  | nil => rfl
  | cons p lanes ih =>
    rw [scanAdmitted, tryPopWithCurrentSlots]
    split
    · exact ih s
    · dsimp only
      split
      · exact ih _
      · rfl

/-- Nothing is found in a queue that is empty. -/
theorem tryPopWithCurrentSlots_of_isEmpty {s : PriorityQueue F} (h : s.isEmpty = true)
    (lanes : List Lane) : tryPopWithCurrentSlots lanes s = (none, s) := by
  have hempty : ∀ p, s.queues p = [] := of_decide_eq_true h
  induction lanes with
  | nil => rfl
  | cons p lanes ih =>
    rw [tryPopWithCurrentSlots, hempty p]
    split
    · exact ih
    · dsimp only [length_nil, dropExpired]
      rw [hempty p]
      exact ih

/-- **A plain pop** is one that admits every head. -/
theorem pop_eq_popAdmittedEnvelope :
    s.pop = s.popAdmittedEnvelope admitAll ∧ s.popResets = s.admittedResets admitAll := by
  rw [pop, popAdmittedEnvelope, popResets, admittedResets, scanAdmitted_admitAll]
  rcases tryPopWithCurrentSlots (finRange 7) s with ⟨x | x, t⟩
  · dsimp only [Option.elim]
    rw [scanAdmitted_admitAll]
    refine ⟨?_, rfl⟩
    split
    next hempty =>
      rw [tryPopWithCurrentSlots_of_isEmpty hempty]
      rfl
    · rcases tryPopWithCurrentSlots (finRange 7) t.resetRound with ⟨y | y, u⟩
      · rfl
      · rfl
  · exact ⟨rfl, rfl⟩

end

/-! ### One pass over the queues -/

/-- What a pass leaves alone: the clock, the deadlines of the works, the weights; and what was
rejected stays rejected. -/
structure Passes (s t : PriorityQueue F) : Prop where
  now : t.now = s.now
  pacing : t.pacing = s.pacing
  weights : t.weights = s.weights
  refused : s.refused ⊆ t.refused

namespace Passes

variable {s t u : PriorityQueue F}

theorem refl (s : PriorityQueue F) : Passes s s := ⟨rfl, rfl, rfl, fun _ hw => hw⟩

theorem trans (h : Passes s t) (h' : Passes t u) : Passes s u where
  now := h'.now.trans h.now
  pacing := h'.pacing.trans h.pacing
  weights := h'.weights.trans h.weights
  refused := fun _ hw => h'.refused (h.refused hw)

/-- **What is still alive afterwards was alive before.** -/
theorem alive (h : Passes s t) {e : QueuedFrame F} (halive : t.expired p e = false) :
    s.expired p e = false := by
  rw [expired, or_eq_false_iff, h.now] at halive
  rw [expired, or_eq_false_iff]
  refine ⟨halive.1, ?_⟩
  have hwork := halive.2
  rw [rejected, h.now, h.pacing] at hwork
  rw [rejected]
  cases hcell : e.localWork with
  | none => rfl
  | some c =>
    rw [hcell] at hwork
    rw [any_some, or_eq_false_iff] at hwork ⊢
    refine ⟨hwork.1, eq_false_iff.mpr fun hrefused => ?_⟩
    have hmem := h.refused (contains_iff_mem.mp hrefused)
    exact eq_false_iff.mp hwork.2 (contains_iff_mem.mpr hmem)

theorem refuse (s : PriorityQueue F) (works : List ℕ) : Passes s (s.refuse works) :=
  ⟨rfl, rfl, rfl, fun _ hw => mem_append_right _ hw⟩

theorem shedAt (s : PriorityQueue F) (p : Lane) (i : ℕ) (e : QueuedFrame F) :
    Passes s (s.shedAt p i e) := by
  rw [PriorityQueue.shedAt, expel]
  cases e.localWork with
  | none => exact ⟨rfl, rfl, rfl, fun _ hw => hw⟩
  | some c => exact ⟨rfl, rfl, rfl, fun _ hw => mem_cons_of_mem _ hw⟩

end Passes

theorem slots_shedAt (s : PriorityQueue F) (p : Lane) (i : ℕ) (e : QueuedFrame F) :
    (s.shedAt p i e).slots = s.slots := by
  rw [shedAt, expel]
  cases e.localWork with
  | none | some => rfl

/-- Dropping the expired head of a queue takes no slot and nothing of another queue. -/
theorem dropExpired_frame (p : Lane) (n : ℕ) (s : PriorityQueue F) :
    Passes s (dropExpired p n s) ∧ (dropExpired p n s).slots = s.slots ∧
      ∀ q ≠ p, (dropExpired p n s).queues q = s.queues q := by
  induction n generalizing s with
  | zero => exact ⟨.refl s, rfl, fun _ _ => rfl⟩
  | succ n ih =>
    rw [dropExpired]
    split
    · exact ⟨.refl s, rfl, fun _ _ => rfl⟩
    next e rest _ =>
    split
    · obtain ⟨hpasses, hslots, hqueues⟩ := ih (s.shedAt p 0 e)
      refine ⟨(Passes.shedAt s p 0 e).trans hpasses, hslots.trans (slots_shedAt s p 0 e),
        fun q hq => (hqueues q hq).trans ?_⟩
      rw [shedAt_toStock]
      exact Function.update_of_ne hq _ _
    · exact ⟨.refl s, rfl, fun _ _ => rfl⟩

variable {s : PriorityQueue F} {rest : List (QueuedFrame F)}

theorem dropExpired_of_alive {e : QueuedFrame F} (hq : s.queues p = e :: rest)
    (halive : s.expired p e = false) (n : ℕ) : dropExpired p n s = s := by
  cases n with
  | zero => rfl
  | succ n =>
    rw [dropExpired, hq]
    exact if_neg (eq_false_iff.mp halive)

/-- **What a pass does with the slots**: the class it takes a frame from had one, and now has
one less. -/
theorem scanAdmitted_slots (predicate : HeadPredicate F) (lanes : List Lane) (calls : ℕ)
    (s : PriorityQueue F) :
    Passes s (scanAdmitted predicate lanes calls s).2 ∧
      (match (scanAdmitted predicate lanes calls s).1.result with
        | none => (scanAdmitted predicate lanes calls s).2.slots = s.slots
        | some x => 0 < s.slots x.lane ∧ (scanAdmitted predicate lanes calls s).2.slots =
            Function.update s.slots x.lane (s.slots x.lane - 1)) := by
  induction lanes generalizing s calls with
  | nil => exact ⟨.refl s, rfl⟩
  | cons p lanes ih =>
    rw [scanAdmitted]
    split
    · exact ih calls s
    next hslot =>
    obtain ⟨hdrop, hslots, -⟩ := dropExpired_frame p (s.queues p).length s
    dsimp only
    split
    · obtain ⟨hpasses, hresult⟩ := ih calls (dropExpired p (s.queues p).length s)
      rw [hslots] at hresult
      exact ⟨hdrop.trans hpasses, hresult⟩
    next e rest _ =>
    have hrefuse := hdrop.trans (.refuse _
      (predicate calls p e.frame (e.reliableCredit.isSome && e.carrier.isNone) e.localWork).2)
    split
    · refine ⟨⟨hrefuse.now, hrefuse.pacing, hrefuse.weights, hrefuse.refused⟩,
        pos_of_ne_zero hslot, ?_⟩
      exact congrArg (fun slots => Function.update slots p (slots p - 1)) hslots
    · obtain ⟨hpasses, hresult⟩ := ih (calls + 1)
        ((dropExpired p (s.queues p).length s).refuse _)
      have hslots' : ((dropExpired p (s.queues p).length s).refuse
          (predicate calls p e.frame (e.reliableCredit.isSome && e.carrier.isNone)
            e.localWork).2).slots = s.slots := hslots
      rw [hslots'] at hresult
      exact ⟨hrefuse.trans hpasses, hresult⟩
    · exact ⟨hrefuse, hslots⟩

variable {predicate : HeadPredicate F}

/-- **A pass does not go past a class** that has a slot and a head that can be taken. -/
theorem scanAdmitted_ne_passed {e : QueuedFrame F} {lanes : List Lane} {calls : ℕ} (hp : p ∈ lanes)
    (hslot : s.slots p ≠ 0) (hq : s.queues p = e :: rest)
    (halive : (scanAdmitted predicate lanes calls s).2.expired p e = false)
    (hdefer : ∀ calls, (predicate calls p e.frame (e.reliableCredit.isSome && e.carrier.isNone)
      e.localWork).1 ≠ .deferSource)
    (n : ℕ) : (scanAdmitted predicate lanes calls s).1 ≠ .passed n := by
  induction lanes generalizing s calls with
  | nil => cases hp
  | cons q lanes ih =>
    rcases eq_or_ne q p with rfl | hne
    · -- its turn: the head has not expired, so it is the one that is looked at
      have hnow := (scanAdmitted_slots predicate (q :: lanes) calls s).1.alive halive
      rw [scanAdmitted, if_neg hslot]
      dsimp only
      rw [dropExpired_of_alive hq hnow, hq]
      dsimp only
      split
      · nofun
      next hverdict => exact absurd hverdict (hdefer calls)
      · nofun
    · have hp' : p ∈ lanes := (mem_cons.mp hp).resolve_left hne.symm
      rw [scanAdmitted] at halive ⊢
      split
      next hzero =>
        rw [if_pos hzero] at halive
        exact ih hp' hslot hq halive
      next hzero =>
      rw [if_neg hzero] at halive
      obtain ⟨-, hslots, hqueues⟩ := dropExpired_frame q (s.queues q).length s
      have hslot' := hslot
      rw [← hslots] at hslot'
      have hq' := (hqueues p hne.symm).trans hq
      dsimp only at halive ⊢
      split
      next hnil =>
        rw [hnil] at halive
        exact ih hp' hslot' hq' halive
      next e' rest' hhead =>
      rw [hhead] at halive
      dsimp only at halive
      split
      · nofun
      next hverdict =>
        rw [hverdict] at halive
        exact ih hp' hslot' hq' halive
      · nofun

/-! ### Runs of pops -/

variable {C : (Lane → ℕ) → Prop}

/-- The events of a pass. -/
theorem spends_scanAdmitted {w : Lane → ℕ} (predicate : HeadPredicate F)
    (lanes : List Lane) (calls : ℕ) (s : PriorityQueue F) :
    Rounds.Spends w C s.slots
      (popEvents false (scanAdmitted predicate lanes calls s).1.result)
      (scanAdmitted predicate lanes calls s).2.slots := by
  have hslots := (scanAdmitted_slots predicate lanes calls s).2
  cases hresult : (scanAdmitted predicate lanes calls s).1.result with
  | none =>
    rw [hresult] at hslots
    rw [hslots]
    exact .nil _
  | some x =>
    rw [hresult] at hslots
    obtain ⟨hslot, hslots⟩ := hslots
    rw [hslots]
    exact .serve hslot (.nil _)

/-- The second pass of a pop. -/
theorem popAdmittedEnvelope_of_passed {s t : PriorityQueue F}
    {calls : ℕ} (hfirst : scanAdmitted predicate (List.finRange 7) 0 s = (.passed calls, t)) :
    s.popAdmittedEnvelope predicate =
      ((scanAdmitted predicate (List.finRange 7) calls
          (if t.isEmpty then t else t.resetRound)).1.result,
        (scanAdmitted predicate (List.finRange 7) calls
          (if t.isEmpty then t else t.resetRound)).2) := by
  rw [popAdmittedEnvelope, hfirst]
  dsimp only
  rcases scanAdmitted predicate (finRange 7) calls
    (if t.isEmpty then t else t.resetRound) with ⟨x | _ | _, u⟩
  · rfl
  · rfl
  · rfl

/-- **The events of a pop** account for its slots. -/
theorem spends_popAdmittedEnvelope (s : PriorityQueue F)
    (predicate : HeadPredicate F) (hreset : s.admittedResets predicate = true → C s.slots) :
    Rounds.Spends s.weights C s.slots
      (popEvents (s.admittedResets predicate) (s.popAdmittedEnvelope predicate).1)
      (s.popAdmittedEnvelope predicate).2.slots ∧
    Passes s (s.popAdmittedEnvelope predicate).2 := by
  have hevents := spends_scanAdmitted (w := s.weights) (C := C) predicate (finRange 7) 0 s
  obtain ⟨hpasses, hslots⟩ := scanAdmitted_slots predicate (finRange 7) 0 s
  rw [admittedResets] at hreset ⊢
  cases hscan : scanAdmitted predicate (finRange 7) 0 s with
  | mk r t =>
  rw [hscan] at hevents hpasses hslots hreset
  cases r with
  | taken | flushed =>
    rw [popAdmittedEnvelope, hscan]
    exact ⟨hevents, hpasses⟩
  | passed calls =>
    rw [popAdmittedEnvelope_of_passed hscan]
    dsimp only at hreset hpasses ⊢
    split
    next hempty =>
      rw [hempty, ← hslots]
      exact ⟨spends_scanAdmitted predicate _ calls t,
        hpasses.trans (scanAdmitted_slots predicate _ calls t).1⟩
    next hmore =>
      have hround : Passes t t.resetRound := ⟨rfl, rfl, rfl, fun _ hw => hw⟩
      rw [not_eq_true] at hmore
      rw [hmore] at hreset ⊢
      refine ⟨.reset (hreset rfl) ?_,
        hpasses.trans (hround.trans (scanAdmitted_slots predicate _ calls t.resetRound).1)⟩
      have hsecond := spends_scanAdmitted (w := s.weights) (C := C) predicate (finRange 7)
        calls t.resetRound
      have hall : t.resetRound.slots = s.weights := hpasses.weights
      rwa [hall] at hsecond

/-- **No round is begun while a class that can be served has slots.** -/
theorem slots_eq_zero_of_resets (hholding : Holding p s (.popAdmitted predicate))
    (hreset : s.admittedResets predicate = true) : s.slots p = 0 := by
  obtain ⟨e, rest, hq, halive, hdefer⟩ := hholding
  by_contra hslot
  rw [admittedResets] at hreset
  split at hreset
  next calls t hscan =>
    refine scanAdmitted_ne_passed (mem_finRange p) hslot hq ?_ hdefer calls
      (congrArg Prod.fst hscan)
    rw [popAdmittedEnvelope_of_passed hscan] at halive
    have halive := (scanAdmitted_slots predicate _ calls _).1.alive halive
    rw [hscan]
    split at halive
    · exact halive
    · exact halive
  · cases hreset

/-- A push changes neither weights nor slots. -/
structure SameRounds (s t : PriorityQueue F) : Prop where
  weights : t.weights = s.weights
  slots : t.slots = s.slots

namespace SameRounds

variable {s t u : PriorityQueue F}

theorem trans (h : SameRounds s t) (h' : SameRounds t u) : SameRounds s u :=
  ⟨h'.1.trans h.1, h'.2.trans h.2⟩

section

variable (s : PriorityQueue F)

theorem reject (c : Option LocalLossyCell) : SameRounds s (s.reject c) := by
  cases c with
  | none | some => exact ⟨rfl, rfl⟩

theorem expel (p : Lane) (i : ℕ) (e : QueuedFrame F) : SameRounds s (s.expel p i e) := by
  have hreject := reject (s.withStock (s.setQueue p ((s.queues p).eraseIdx i))) e.localWork
  exact ⟨hreject.weights, hreject.slots⟩

theorem prune (lanes : List Lane) : SameRounds s (lanes.foldl pruneRejectedWork s) := by
  induction lanes generalizing s with
  | nil => exact ⟨rfl, rfl⟩
  | cons p lanes ih => exact (⟨rfl, rfl⟩ : SameRounds s (s.pruneRejectedWork p)).trans (ih _)

theorem shedOldestLossy (p : Lane) : SameRounds s (s.shedOldestLossy p) := by
  rw [PriorityQueue.shedOldestLossy]
  split
  · exact ⟨rfl, rfl⟩
  split
  · exact ⟨rfl, rfl⟩
  · exact ⟨(expel s p _ _).weights, (expel s p _ _).slots⟩

end

theorem shedFrom {lanes : List Lane} (h : s.shedFrom lanes = some t) : SameRounds s t := by
  rcases s.shedFrom_cases lanes with ⟨hnone, -⟩ | ⟨_, d, _, i, e, -, -, -, -, hshed⟩
  · rw [hnone] at h
    cases h
  · rw [hshed] at h
    cases h
    exact ⟨(expel s d i e).weights, (expel s d i e).slots⟩

section

variable (s : PriorityQueue F) (env : FrameEnvelope F)

theorem enter (enqueuedAt : Option ℕ) : SameRounds s (s.enter env enqueuedAt) := by
  rw [PriorityQueue.enter]
  split <;> exact ⟨rfl, rfl⟩

theorem pushEntry (enqueuedAt : Option ℕ) : SameRounds s (s.pushEntry env enqueuedAt) := by
  have hpruned : SameRounds s s.pruned := by
    rw [pruned]
    split
    · exact prune s _
    · exact ⟨rfl, rfl⟩
  rw [PriorityQueue.pushEntry, ← pruned]
  split
  · exact ⟨rfl, rfl⟩
  dsimp only
  split
  · split
    next t hshed => exact hpruned.trans ((shedFrom hshed).trans (enter t env enqueuedAt))
    · have hreject := hpruned.trans (reject s.pruned env.localWork)
      exact ⟨hreject.weights, hreject.slots⟩
  · exact hpruned.trans (enter _ env enqueuedAt)

theorem makeLossyRoom (p : Lane) : SameRounds s (s.makeLossyRoom p) := by
  obtain ⟨t, ht, hpruned⟩ : ∃ t, (if lossyRealtimeMaxDepth ≤ s.lossyRealtimeLen p then
      s.pruneRejectedWork p else s) = t ∧ SameRounds s t := by
    split <;> exact ⟨_, rfl, rfl, rfl⟩
  simp only [PriorityQueue.makeLossyRoom, ht]
  split
  · exact hpruned.trans (shedOldestLossy t p)
  · exact hpruned

theorem pushEnvelope (lossy : Bool) : SameRounds s (s.pushEnvelope env lossy) := by
  rw [PriorityQueue.pushEnvelope]
  split
  · rw [pushLossyWithCarrier]
    split
    · exact ⟨rfl, rfl⟩
    split
    · have hreject := reject s env.localWork
      exact ⟨hreject.weights, hreject.slots⟩
    · exact (makeLossyRoom s _).trans (pushEntry _ env _)
  · exact pushEntry s env none

end

end SameRounds

section

variable (s : PriorityQueue F)

/-- **One call**: its events account for the slots, and where a class holds a head that can be
taken, no round is begun while it has slots. -/
theorem spends_roundStep (op : RoundOp F)
    (hC : (∀ a, C a) ∨ ∃ p, Holding p s op ∧ C = fun a => a p = 0) :
    Rounds.Spends s.weights C s.slots (s.roundEvents op) (s.roundStep op).slots ∧
      (s.roundStep op).weights = s.weights := by
  have hpop (predicate : HeadPredicate F)
      (hholding : ∀ p, Holding p s op → Holding p s (.popAdmitted predicate)) :
      Rounds.Spends s.weights C s.slots
        (popEvents (s.admittedResets predicate) (s.popAdmittedEnvelope predicate).1)
        (s.popAdmittedEnvelope predicate).2.slots ∧
      (s.popAdmittedEnvelope predicate).2.weights = s.weights := by
    obtain ⟨hspends, hpasses⟩ := s.spends_popAdmittedEnvelope (C := C) predicate fun hreset => by
      rcases hC with hall | ⟨p, hp, rfl⟩
      · exact hall _
      · exact slots_eq_zero_of_resets (hholding p hp) hreset
    exact ⟨hspends, hpasses.weights⟩
  cases op with
  | push env lossy =>
    obtain ⟨hweights, hslots⟩ := SameRounds.pushEnvelope s env lossy
    refine ⟨?_, hweights⟩
    rw [roundStep, hslots]
    exact .nil _
  | refuse | wait => exact ⟨.nil _, rfl⟩
  | pop =>
    obtain ⟨heq, hresets⟩ := s.pop_eq_popAdmittedEnvelope
    rw [roundStep, roundEvents, heq, hresets]
    refine hpop admitAll fun p hp => ?_
    obtain ⟨e, rest, hq, halive⟩ := hp
    rw [heq] at halive
    exact ⟨e, rest, hq, halive, fun _ => nofun⟩
  | popAdmitted predicate => exact hpop predicate fun _ hp => hp

/-- The events of a run. -/
def runEvents (ops : List (RoundOp F)) : List (Rounds.Event Lane) :=
  Run.outputs roundStep roundEvents s ops

theorem spends_run (ops : List (RoundOp F))
    (hC : (∀ a, C a) ∨ ∃ p, Run.Along roundStep (Holding p) s ops ∧ C = fun a => a p = 0) :
    Rounds.Spends s.weights C s.slots (s.runEvents ops) (ops.foldl roundStep s).slots ∧
      (ops.foldl roundStep s).weights = s.weights := by
  induction ops generalizing s with
  | nil => exact ⟨.nil _, rfl⟩
  | cons op ops ih =>
    obtain ⟨hone, hweights⟩ := s.spends_roundStep (C := C) op
      (hC.imp_right fun ⟨p, hp, heq⟩ => ⟨p, hp.1, heq⟩)
    obtain ⟨hrest, hweights'⟩ := ih (s.roundStep op)
      (hC.imp_right fun ⟨p, hp, heq⟩ => ⟨p, hp.2, heq⟩)
    rw [hweights] at hrest
    exact ⟨hone.append hrest, hweights'.trans hweights⟩

end

/-- **Every class is served.** In any run of pops and pushes, after whatever else,
* while a class with slots holds a head that can be taken and none of its frames is returned,
  at most twice the others' weights of other frames are;
* from one reset to the next no class is served more often than its weight. -/
theorem served_in_rounds (weights : Fin 4 → ℕ) (maxDepth : ℕ) (drops : UInt64) (now : ℕ)
    (pacing : ℕ → Option ℕ) (ops : List (RoundOp F)) :
    let start : PriorityQueue F := withCapacityAndDropCounter weights maxDepth drops now pacing
    let s := ops.foldl roundStep start
    (∀ p, 0 < laneWeights weights p → ∀ mid : List (RoundOp F),
      Run.Along roundStep (Holding p) s mid → .served p ∉ s.runEvents mid →
      (s.runEvents mid).countP (· ≠ .reset) ≤
        2 * (∑ q, laneWeights weights q - laneWeights weights p)) ∧
    ∀ before mid after, start.runEvents ops = before ++ .reset :: (mid ++ .reset :: after) →
      .reset ∉ mid → ∀ q, mid.count (.served q) ≤ laneWeights weights q := by
  intro start s
  obtain ⟨hspends, hweights⟩ := start.spends_run (C := fun _ => True) ops (.inl fun _ => trivial)
  have hslots : s.slots ≤ laneWeights weights := hspends.le le_rfl
  constructor
  · intro p hp mid hholding hwaits
    obtain ⟨hmid, -⟩ := s.spends_run mid (.inr ⟨p, hholding, rfl⟩)
    rw [hweights] at hmid
    exact hmid.served_le hslots hp hwaits
  · intro before mid after hevents hround q
    rw [hevents] at hspends
    exact hspends.count_le_weight hround q

/-- Two frames of `REALTIME` and one of `BULK`. -/
def bulkWaits : List (RoundOp ℕ) :=
  [0, 0, 2].map fun priority => .push (.ofFrame 0 priority 1) false

/-- While the frame of `BULK` waits, a pop of each kind returns one of `REALTIME`. -/
theorem served_in_rounds_bulk_waits :
    let s := bulkWaits.foldl roundStep
      (withCapacityAndDropCounter ![8, 4, 2, 1] 9 0 0 fun _ => none)
    let mid : List (RoundOp ℕ) := [.pop, .popAdmitted admitAll]
    Run.Along roundStep (Holding 2) s mid ∧ s.runEvents mid = [.served 0, .served 0] ∧
      (s.runEvents mid).countP (· ≠ .reset) ≤
        2 * (∑ q, laneWeights ![8, 4, 2, 1] q - laneWeights ![8, 4, 2, 1] 2) := by
  intro s mid
  have hholding : Run.Along roundStep (Holding 2) s mid :=
    ⟨⟨_, _, rfl, by decide⟩, ⟨_, _, rfl, by decide, fun _ => nofun⟩, trivial⟩
  have hevents : s.runEvents mid = [.served 0, .served 0] := by decide
  refine ⟨hholding, hevents, ?_⟩
  exact (served_in_rounds ![8, 4, 2, 1] 9 0 0 (fun _ => none) bulkWaits).1 2
    (by decide) mid hholding
    (by rw [hevents]; decide)

end VeilNetwork.Session.PriorityQueue
