import Aseman.Lib.Run

/-!
# Runs of calls

A call that takes a state to a reply and a new state gives a run for every list of calls, so that a run
can be computed. `CallsMeet` says of a list of calls that each of them meets a condition in the state that the
ones before it leave.
-/

namespace Aseman

variable {σ κ ρ ε : Type} (exec : σ → κ → ρ × σ) (event : κ → ρ → ε)

/-- The events of the calls, and the state after them. -/
def callsFrom (s : σ) : List κ → List ε × σ
  | [] => ([], s)
  | call :: calls =>
    let (reply, s) := exec s call
    let (es, s) := callsFrom s calls
    (event call reply :: es, s)

def CallsMeet (condition : σ → κ → Prop) : σ → List κ → Prop
  | _, [] => True
  | s, call :: calls => condition s call ∧ CallsMeet condition (exec s call).2 calls

instance {condition : σ → κ → Prop} [∀ s call, Decidable (condition s call)] (s : σ)
    (calls : List κ) : Decidable (CallsMeet exec condition s calls) :=
  go s calls
where
  /-- Decide it call by call. -/
  go : (s : σ) → (calls : List κ) → Decidable (CallsMeet exec condition s calls)
    | _, [] => inferInstanceAs (Decidable True)
    | s, call :: calls =>
      have := go (exec s call).2 calls
      inferInstanceAs (Decidable (condition s call ∧ CallsMeet exec condition (exec s call).2 calls))

variable {exec event}

theorem run_callsFrom_of_meet {step condition}
    (hstep : ∀ s call, condition s call → step s (event call (exec s call).1) (exec s call).2)
    {s calls} (h : CallsMeet exec condition s calls) :
    Run step s (callsFrom exec event s calls).1 (callsFrom exec event s calls).2 := by
  induction calls generalizing s with
  | nil => exact .nil
  | cons call calls ih =>
    have hone : Run step s [event call (exec s call).1] (exec s call).2 :=
      .single (hstep s call h.1)
    exact hone.append (ih h.2)

theorem run_callsFrom {step} (hstep : ∀ s call, step s (event call (exec s call).1) (exec s call).2)
    (s : σ) (calls : List κ) :
    Run step s (callsFrom exec event s calls).1 (callsFrom exec event s calls).2 := by
  refine run_callsFrom_of_meet (fun s call (_ : True) => hstep s call) ?_
  induction calls generalizing s with
  | nil => trivial
  | cons call calls ih => exact ⟨trivial, ih _⟩

end Aseman
