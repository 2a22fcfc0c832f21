import Mathlib.Logic.Function.Basic
import Mathlib.Tactic

/-!
# Batches of writes

A key/value store is a function that says what stands at each key, and a batch is a list of writes made
in order. Only the last write of a key counts (`applyAll_apply`). So a suffix of a history that is written
again, over a state that the history has already reached, leads back to that state
(`applyAll_again`).
-/

namespace Aseman

/-- One change of a key/value store. -/
inductive Write (κ α : Type) where
  | put (key : κ) (value : α)
  | delete (key : κ)
  deriving DecidableEq

namespace Write

variable {κ α : Type} [DecidableEq κ]

def key : Write κ α → κ
  | put k _ => k
  | delete k => k

/-- What stands at the key afterwards. -/
def value : Write κ α → Option α
  | put _ v => some v
  | delete _ => none

def apply (m : κ → Option α) (w : Write κ α) : κ → Option α := Function.update m w.key w.value

/-- Make the writes in order. -/
def applyAll (ws : List (Write κ α)) (m : κ → Option α) : κ → Option α := ws.foldl apply m

def last : List (Write κ α) → κ → Option (Option α)
  | [], _ => none
  | w :: ws, k => (last ws k).or (if w.key = k then some w.value else none)

@[simp] theorem applyAll_nil (m : κ → Option α) : applyAll [] m = m := rfl

theorem applyAll_append (ws vs : List (Write κ α)) (m : κ → Option α) :
    applyAll (ws ++ vs) m = applyAll vs (applyAll ws m) :=
  List.foldl_append

theorem applyAll_apply (ws : List (Write κ α)) (m : κ → Option α) (k : κ) :
    applyAll ws m k = (last ws k).getD (m k) := by
  induction ws generalizing m with
  | nil => rfl
  | cons w ws ih =>
    show applyAll ws (w.apply m) k = _
    rw [ih, last, apply]
    by_cases hk : w.key = k
    · cases last ws k <;> simp [hk]
    · cases last ws k <;> simp [hk, Ne.symm hk]

theorem last_append (ws vs : List (Write κ α)) (k : κ) :
    last (ws ++ vs) k = (last vs k).or (last ws k) := by
  induction ws with
  | nil => simp [last]
  | cons w ws ih => rw [List.cons_append, last, last, ih, Option.or_assoc]

/-- If `ws` followed by `vs` leads from `m` to `m'`, and `vs` alone leads from `n` to `m'`, then so do
both from `n`. -/
theorem applyAll_again {ws vs : List (Write κ α)} {m m' n : κ → Option α}
    (hall : applyAll (ws ++ vs) m = m') (hlast : applyAll vs n = m') :
    applyAll (ws ++ vs) n = m' := by
  funext k
  have hall := congrFun hall k
  have hlast := congrFun hlast k
  rw [applyAll_apply] at hall hlast ⊢
  rw [last_append] at hall ⊢
  -- a key that neither list writes stands in `n` as in `m'`
  cases hv : last vs k <;> cases hw : last ws k <;> simp_all

end Write

end Aseman
