import Mathlib.Algebra.BigOperators.Group.List.Basic
import Mathlib.Tactic

/-!
# Runs of a labelled step relation

`Run step s es t`: from `s`, the events `es` happened in this order and led to `t`. A property of
every run is proved from what one step does, through one of the rules below: `Run.invariant` for a
property of states, `Run.total` for a quantity that every event moves by a known amount.
Restricting the events is restricting `step`, so a statement about the runs whose steps all meet a
condition is a statement about `Run` of a smaller relation.
-/

namespace Aseman

variable {σ ε : Type}

/-- The runs of `step`, newest event last. -/
inductive Run (step : σ → ε → σ → Prop) (s : σ) : List ε → σ → Prop
  | nil : Run step s [] s
  | snoc {t u : σ} {es : List ε} {e : ε} : Run step s es t → step t e u → Run step s (es ++ [e]) u

namespace Run

variable {step step' : σ → ε → σ → Prop} {s t u : σ} {es fs : List ε} {e : ε}

theorem single (h : step s e t) : Run step s [e] t := snoc nil h

theorem append (h : Run step s es t) (h' : Run step t fs u) : Run step s (es ++ fs) u := by
  induction h' with
  | nil => simpa using h
  | snoc _ hstep ih => rw [← List.append_assoc]; exact snoc ih hstep

theorem mono (hle : ∀ s e t, step s e t → step' s e t) (h : Run step s es t) :
    Run step' s es t := by
  induction h with
  | nil => exact nil
  | snoc _ hstep ih => exact snoc ih (hle _ _ _ hstep)

/-- The run of a function that gives the next state. -/
theorem of_foldlM {f} (hf : ∀ s e t, f s e = some t → step s e t) (h : es.foldlM f s = some t) :
    Run step s es t := by
  induction es generalizing s with
  | nil =>
    obtain rfl := Option.some.inj h
    exact nil
  | cons e es ih =>
    obtain ⟨u, hstep, hrest⟩ := Option.bind_eq_some_iff.mp (List.foldlM_cons.symm.trans h)
    exact (single (hf _ _ _ hstep)).append (ih hrest)

variable {I : σ → Prop}

/-- A property of states that every step keeps holds at the end of every run. -/
theorem invariant (hkeep : ∀ s e t, step s e t → I s → I t)
    (h : Run step s es t) (hs : I s) : I t := by
  induction h with
  | nil => exact hs
  | snoc _ hstep ih => exact hkeep _ _ _ hstep ih

/-- As `invariant`, where a step may use another property known to hold along the run. -/
theorem invariant_of {I J : σ → Prop} (hJ : ∀ s e t, step s e t → J s → J t)
    (hkeep : ∀ s e t, step s e t → J s → I s → I t)
    (h : Run step s es t) (hJs : J s) (hs : I s) : I t := by
  have h' : J t ∧ I t :=
    invariant (I := fun s => J s ∧ I s)
      (fun s e t hst hs => ⟨hJ s e t hst hs.1, hkeep s e t hst hs.1 hs.2⟩) h ⟨hJs, hs⟩
  exact h'.2

/-- A quantity that each event moves by `g` has moved by the sum of `g` over the run. -/
theorem total {M : Type*} [AddCommMonoid M] {f : σ → M} {g : ε → M}
    (hmove : ∀ s e t, step s e t → f t = f s + g e) (h : Run step s es t) :
    f t = f s + (es.map g).sum := by
  induction h with
  | nil => simp
  | snoc _ hstep ih =>
    rw [hmove _ _ _ hstep, ih, add_assoc]
    simp

/-- As `total`, on runs that keep an invariant. -/
theorem total_of {M : Type*} [AddCommMonoid M] {I : σ → Prop} {f : σ → M} {g : ε → M}
    (hkeep : ∀ s e t, step s e t → I s → I t)
    (hmove : ∀ s e t, step s e t → I s → f t = f s + g e) (h : Run step s es t) (hs : I s) :
    f t = f s + (es.map g).sum := by
  have h' : I t ∧ f t = f s + (es.map g).sum := by
    induction h with
    | nil => simpa using hs
    | snoc _ hstep ih =>
      obtain ⟨hI, hf⟩ := ih
      refine ⟨hkeep _ _ _ hstep hI, ?_⟩
      rw [hmove _ _ _ hstep hI, hf, add_assoc]
      simp
  exact h'.2

/-- As `total_of`, for a number that counts the events which meet a test. -/
theorem count_of {f : σ → ℕ} {p : ε → Bool} (hkeep : ∀ s e t, step s e t → I s → I t)
    (hmove : ∀ s e t, step s e t → I s → f t = f s + if p e then 1 else 0)
    (h : Run step s es t) (hs : I s) : f t = f s + es.countP p := by
  rw [h.total_of hkeep hmove hs]
  congr 1
  clear h
  induction es with
  | nil => rfl
  | cons e es ih => simp [List.countP_cons, ih, add_comm]

/-- A number that an event of the one kind lowers, and only an event of the other kind raises, bounds
how often the first kind occurs. -/
theorem countP_le_of {f : σ → ℕ} {p q : ε → Bool} (hkeep : ∀ s e t, step s e t → I s → I t)
    (hmove : ∀ s e t, step s e t → I s → (f t + if p e then 1 else 0) ≤ f s + if q e then 1 else 0)
    (h : Run step s es t) (hs : I s) : f t + es.countP p ≤ f s + es.countP q := by
  have h' : I t ∧ f t + es.countP p ≤ f s + es.countP q := by
    induction h with
    | nil => simpa using hs
    | @snoc t u es e _ hstep ih =>
      obtain ⟨hI, hle⟩ := ih
      refine ⟨hkeep _ _ _ hstep hI, ?_⟩
      have hone := hmove _ _ _ hstep hI
      simp only [List.countP_append, List.countP_cons, List.countP_nil, zero_add]
      omega
  exact h'.2

end Run

end Aseman
