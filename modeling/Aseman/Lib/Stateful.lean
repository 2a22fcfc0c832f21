import Mathlib.Tactic

/-!
# Steps on a state

A method that changes an object and may fail is an `EStateM`: what it changed before it failed stays
changed. These lemmas take such methods apart, statement by statement.
-/

namespace Aseman

variable {ε σ α β : Type}

/-- The state after a step, whether it failed or not. -/
def endState : EStateM.Result ε σ α → σ
  | .ok _ s => s
  | .error _ s => s

/-- A fallible function that reads nothing and changes nothing. -/
def ofExcept {ε' : Type} (f : ε' → ε) : Except ε' α → EStateM ε σ α
  | .ok a => pure a
  | .error e => throw (f e)

/-! ## Inversion -/

variable {f : α → EStateM ε σ β} {s s' : σ}

theorem bind_apply_ok {x b} :
    (x >>= f) s = .ok b s' ↔ ∃ a s₁, x s = .ok a s₁ ∧ f a s₁ = .ok b s' := by
  simp only [bind, EStateM.bind]
  cases x s <;> simp

theorem bind_apply_error {x e} : (x >>= f) s = .error e s' ↔
      x s = .error e s' ∨ ∃ a s₁, x s = .ok a s₁ ∧ f a s₁ = .error e s' := by
  simp only [bind, EStateM.bind]
  cases x s <;> simp

/-- A bind stops at the failure of its first step or goes on from its result. -/
theorem bind_apply_cases (x : EStateM ε σ α) (f : α → EStateM ε σ β) (s : σ) :
    (∃ e s₁, x s = .error e s₁ ∧ (x >>= f) s = .error e s₁) ∨
      ∃ a s₁, x s = .ok a s₁ ∧ (x >>= f) s = f a s₁ := by
  simp only [bind, EStateM.bind]
  cases x s <;> simp

theorem ofExcept_apply_ok {ε' : Type} {f : ε' → ε} {r : Except ε' α} {a : α} :
    ofExcept f r s = .ok a s' ↔ r = .ok a ∧ s' = s := by
  constructor
  · intro h
    cases r <;> cases h
    exact ⟨rfl, rfl⟩
  · rintro ⟨rfl, rfl⟩
    rfl

theorem ofExcept_bind_ok {ε' : Type} {g : ε' → ε} {r : Except ε' α} {b : β} :
    (ofExcept g r >>= f) s = .ok b s' ↔ ∃ a, r = .ok a ∧ f a s = .ok b s' := by
  simp only [bind_apply_ok, ofExcept_apply_ok]
  constructor
  · rintro ⟨a, _, ⟨hr, rfl⟩, hf⟩
    exact ⟨a, hr, hf⟩
  · rintro ⟨a, hr, hf⟩
    exact ⟨a, s, ⟨hr, rfl⟩, hf⟩

theorem pure_apply_ok {a b} : (pure a : EStateM ε σ α) s = .ok b s' ↔ a = b ∧ s = s' := by
  simp [pure, EStateM.pure]

end Aseman
