import Mathlib.Data.List.Pairwise
import Mathlib.Order.Basic
import Mathlib.Tactic

/-!
# The steps of a list

The pairs of neighbours of a list. Those of an increasing list are spans that do not overlap and that
leave no gap between the first and the last of its elements.
-/

namespace Aseman

/-- The pairs of neighbours. -/
def steps {α : Type*} : List α → List (α × α)
  | a :: b :: l => (a, b) :: steps (b :: l)
  | _ => []

section

variable {α β : Type*}

@[simp] theorem steps_nil : steps ([] : List α) = [] := rfl

@[simp] theorem steps_singleton (a : α) : steps [a] = [] := rfl

@[simp] theorem steps_cons_cons (a b : α) (l : List α) : steps (a :: b :: l) = (a, b) :: steps (b :: l) :=
  rfl

/-- One more element is one more step. -/
theorem steps_append_pair (l : List α) (a b : α) :
    steps (l ++ [a, b]) = steps (l ++ [a]) ++ [(a, b)] := by
  induction l with
  | nil => rfl
  | cons c l ih =>
    cases l with
    | nil => rfl
    | cons d l => simpa using ih

theorem mem_of_mem_steps {l : List α} {p : α × α} (h : p ∈ steps l) : p.1 ∈ l ∧ p.2 ∈ l := by
  induction l with
  | nil => cases h
  | cons a l ih =>
    cases l with
    | nil => cases h
    | cons b l =>
      rcases List.mem_cons.mp h with rfl | h
      · simp
      · exact ⟨List.mem_cons_of_mem _ (ih h).1, List.mem_cons_of_mem _ (ih h).2⟩

end

section

variable {α : Type*} {κ : Type*} [LinearOrder κ] {time : α → κ}

/-- The steps of an increasing list follow each other. -/
theorem pairwise_steps {l : List α} (h : l.Pairwise fun a b => time a < time b) :
    (steps l).Pairwise fun p q => time p.2 ≤ time q.1 := by
  induction l with
  | nil => exact .nil
  | cons a l ih =>
    cases l with
    | nil => exact .nil
    | cons b l =>
      obtain ⟨-, hb⟩ := List.pairwise_cons.mp h
      refine List.pairwise_cons.mpr ⟨fun q hq => ?_, ih hb⟩
      -- what comes after the first step starts at `b` or later
      rcases List.mem_cons.mp (mem_of_mem_steps hq).1 with heq | hmem
      · rw [heq]
      · exact ((List.pairwise_cons.mp hb).1 _ hmem).le

/-- The steps of a list cover the time between any two of its elements. -/
theorem exists_step_of_between {l} (h : l.Pairwise fun a b => time a < time b) {a b} (ha : a ∈ l)
    (hb : b ∈ l) {x} (hax : time a ≤ x) (hxb : x < time b) :
    ∃ p ∈ steps l, time p.1 ≤ x ∧ x < time p.2 := by
  induction l generalizing a with
  | nil => cases ha
  | cons c l ih =>
    obtain ⟨hc, hl⟩ := List.pairwise_cons.mp h
    have hfirst : time c ≤ x := by
      rcases List.mem_cons.mp ha with rfl | ha
      · exact hax
      · exact (hc a ha).le.trans hax
    cases l with
    | nil =>
      -- both are `c`
      rw [List.mem_singleton] at hb
      rw [hb] at hxb
      exact absurd hxb (not_lt.mpr hfirst)
    | cons d l =>
      by_cases hd : x < time d
      · exact ⟨(c, d), List.mem_cons_self, hfirst, hd⟩
      · -- the span lies in the rest of the list
        have hb' : b ∈ d :: l := by
          rcases List.mem_cons.mp hb with rfl | hb
          · exact absurd hxb (not_lt.mpr hfirst)
          · exact hb
        obtain ⟨p, hp, hspan⟩ := ih hl List.mem_cons_self hb' (not_lt.mp hd)
        exact ⟨p, List.mem_cons_of_mem _ hp, hspan⟩

end

end Aseman
