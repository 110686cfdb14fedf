import Mathlib.Data.List.Basic

/-!
# Runs of a machine

A machine is a state type with a step function; a run is a list of steps, taken by
`List.foldl`. `Along` says that every step of a run meets a condition on the state it
is taken in, and the two invariant rules carry a property from each step to the whole
run, without and with such a condition. A third rule is for steps that put something out.
-/

namespace VeilNetwork.Run

open List

variable {σ α : Type*}

/-- Every step of a run meets a condition on the state before it. -/
def Along (step : σ → α → σ) (C : σ → α → Prop) : σ → List α → Prop
  | _, [] => True
  | s, a :: l => C s a ∧ Along step C (step s a) l

instance Along.decidable {step : σ → α → σ} {C : σ → α → Prop} [∀ s a, Decidable (C s a)] :
    ∀ s l, Decidable (Along step C s l)
  | _, [] => inferInstanceAs (Decidable True)
  | s, a :: l =>
    have : Decidable (Along step C (step s a) l) := Along.decidable (step s a) l
    inferInstanceAs (Decidable (C s a ∧ Along step C (step s a) l))

variable {step : σ → α → σ} {C : σ → α → Prop} {P : σ → Prop} {s : σ} {l l' : List α}

theorem along_append :
    Along step C s (l ++ l') ↔ Along step C s l ∧ Along step C (l.foldl step s) l' := by
  induction l generalizing s with
  | nil => exact (true_and _).symm ▸ Iff.rfl
  | cons a l ih => rw [cons_append, Along, Along, ih, foldl_cons, and_assoc]

theorem Along.and {C' : σ → α → Prop} (h : Along step C s l) (h' : Along step C' s l) :
    Along step (fun s a => C s a ∧ C' s a) s l := by
  induction l generalizing s with
  | nil => trivial
  | cons a l ih => exact ⟨⟨h.1, h'.1⟩, ih h.2 h'.2⟩

/-- A condition on the steps alone. -/
theorem Along.of_forall {D : α → Prop} (h : ∀ a ∈ l, D a) : Along step (fun _ a => D a) s l := by
  induction l generalizing s with
  | nil => trivial
  | cons a l ih =>
    obtain ⟨ha, hl⟩ := forall_mem_cons.mp h
    exact ⟨ha, ih hl⟩

/-- **Invariant rule**: what every step preserves holds along every run. -/
theorem invariant (hstep : ∀ s a, P s → P (step s a)) (h : P s) (l : List α) :
    P (l.foldl step s) := by
  induction l generalizing s with
  | nil => exact h
  | cons a l ih => exact ih (hstep s a h)

/-- **Invariant rule under a condition**: what every step that meets the condition
preserves holds along every run whose steps all meet it. -/
theorem invariant_along (hstep : ∀ s a, C s a → P s → P (step s a)) (h : P s)
    (halong : Along step C s l) : P (l.foldl step s) := by
  induction l generalizing s with
  | nil => exact h
  | cons a l ih => exact ih (hstep s a halong.1 h) halong.2

/-! ### What a run puts out -/

variable {β : Type*}

/-- What the steps of a run put out, in order. -/
def outputs (step : σ → α → σ) (out : σ → α → List β) : σ → List α → List β
  | _, [] => []
  | s, a :: l => out s a ++ outputs step out (step s a) l

/-- Outputs that depend on the steps alone. -/
theorem outputs_of_steps (f : α → List β) (l : List α) :
    outputs step (fun _ a => f a) s l = l.flatMap f := by
  induction l generalizing s with
  | nil => rfl
  | cons a l ih => rw [outputs, flatMap_cons, ih]

variable {out : σ → α → List β} {R : σ → List β → Prop}

/-- **Invariant rule with outputs**: a relation between the state and what was put out so
far, along a run whose steps all meet a condition. -/
theorem invariant_outputs_along
    (hstep : ∀ s a log, C s a → R s log → R (step s a) (log ++ out s a)) {log : List β}
    (h : R s log) (halong : Along step C s l) :
    R (l.foldl step s) (log ++ outputs step out s l) := by
  induction l generalizing s log with
  | nil => rwa [outputs, append_nil]
  | cons a l ih =>
    rw [outputs, ← append_assoc]
    exact ih (hstep s a log halong.1 h) halong.2

theorem invariant_outputs (hstep : ∀ s a log, R s log → R (step s a) (log ++ out s a))
    {log : List β} (h : R s log) (l : List α) : R (l.foldl step s) (log ++ outputs step out s l) :=
  invariant_outputs_along (C := fun _ _ => True) (fun s a log _ => hstep s a log) h
    (.of_forall fun _ _ => trivial)

end VeilNetwork.Run
