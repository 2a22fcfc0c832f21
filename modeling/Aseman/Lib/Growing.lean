import Aseman.Lib.Interleaving

/-!
# Threads over a state that grows

Threads without a state of their own share a state that only moves forward: whatever one of them does,
the state after is `Later` than the state before. What a thread has once seen it can use from then on,
through what `Later` keeps. `Ensures` is what is proved of a program, by the rules of its statements, and
`Growth.step` says what a step of the whole system does.
-/

namespace Aseman

variable {ι σ Call Op Env : Type} {Ans : Op → Type} {ε ε' ε'' ρ α β : Type}

/-- What holds of the shared state at all times, and how it grows. -/
structure Growth (m : Machine σ Unit Call Op Ans ε ρ Env) where
  Inv : σ → Prop
  Later : σ → σ → Prop
  /-- Which operations the run lets a thread make, and where. -/
  May : Op → σ → Prop := fun _ _ => True
  refl : ∀ s, Later s s
  trans : ∀ s t u, Later s t → Later t u → Later s u

namespace Growth

variable {m : Machine σ Unit Call Op Ans ε ρ Env} (G : Growth m)

/-- The threads rely on each other to let the state grow. -/
def protocol : Protocol m where
  Inv := G.Inv
  Rely _ := G.Later
  May _ := G.May
  Guar _ _ _ := G.Later
  refl _ := G.refl
  trans _ := G.trans

/-- From `s` the program keeps the invariant, the state grows, and what is returned meets `Q`. -/
def Ensures (Q : α → σ → Prop) (p : Prog Op Ans ε' α) (s : σ) : Prop :=
  G.Inv s → ∀ b, Safe G.protocol
    (fun r _ t _ => G.Inv t ∧ G.Later s t ∧ ∀ a, r = .ok a → Q a t) p b s ()

namespace Ensures

variable {G} {Q Q' : α → σ → Prop} {R : β → σ → Prop} {p : Prog Op Ans ε' α} {s : σ}
  {r : Except ε' α}

theorem done (h : G.Inv s → ∀ a, r = .ok a → Q a s) : G.Ensures Q (.done r) s :=
  fun hinv _ => ⟨hinv, G.refl s, h hinv⟩

theorem pure {a : α} (h : G.Inv s → Q a s) : G.Ensures Q (Pure.pure a : Prog Op Ans ε' α) s :=
  done fun hinv a' ha' => by cases ha'; exact h hinv

theorem ret {a} : G.Ensures (fun _ _ => True) (Pure.pure a : Prog Op Ans ε' α) s :=
  pure fun _ => trivial

theorem fail {e : ε'} : G.Ensures Q (Prog.fail e : Prog Op Ans ε' α) s :=
  done nofun

theorem mono (h : G.Ensures Q p s) (hQ : ∀ a t, G.Inv t → G.Later s t → Q a t → Q' a t) :
    G.Ensures Q' p s :=
  fun hinv b => (h hinv b).mono fun _ _ _ _ hr =>
    ⟨hr.1, hr.2.1, fun a ha => hQ a _ hr.1 hr.2.1 (hr.2.2 a ha)⟩

/-- The invariant holds where a program starts. -/
theorem given (h : G.Inv s → G.Ensures Q p s) : G.Ensures Q p s := fun hinv => h hinv hinv

theorem bind {f} (h : G.Ensures Q p s) (hf : ∀ a t, G.Later s t → Q a t → G.Ensures R (f a) t) :
    G.Ensures R (p >>= f) s := by
  intro hinv b
  refine (h hinv b).bind ?_ ?_
  · rintro a b t l ⟨ht, hlater, hQ⟩
    exact (hf a t hlater (hQ a rfl) ht b).mono fun r _ u _ hr =>
      ⟨hr.1, G.trans _ _ _ hlater hr.2.1, hr.2.2⟩
  · rintro e b t l ⟨ht, hlater, -⟩
    exact ⟨ht, hlater, nofun⟩

theorem attempt {f : Except ε' α → Prog Op Ans ε'' β} (h : G.Ensures Q p s)
    (hf : ∀ r t, G.Later s t → (∀ a, r = .ok a → Q a t) → G.Ensures R (f r) t) :
    G.Ensures R (p.attempt >>= f) s := by
  intro hinv b
  refine (h hinv b).attempt ?_
  rintro r b t l ⟨ht, hlater, hQ⟩
  exact (hf r t hlater hQ ht b).mono fun r _ u _ hr =>
    ⟨hr.1, G.trans _ _ _ hlater hr.2.1, hr.2.2⟩

/-- A fallible function that makes no operation, and then the rest. -/
theorem check {f : α → Prog Op Ans ε' β}
    (hok : ∀ a, r = .ok a → G.Ensures R (f a) s) : G.Ensures R (Prog.ofExcept r >>= f) s := by
  cases r with
  | ok a => exact hok a rfl
  | error e => exact fail

/-- One operation, at whatever state the others have left. -/
theorem perform {o Q} (h : ∀ t, G.Inv t → G.Later s t → G.May o t →
      G.Inv (m.exec o t ()).2.1 ∧ G.Later t (m.exec o t ()).2.1 ∧
        Q (m.exec o t ()).1 (m.exec o t ()).2.1) :
    G.Ensures Q (Prog.perform o : Prog Op Ans ε' (Ans o)) s := by
  intro _ b
  refine Safe.perform fun t ht hlater hmay => ?_
  obtain ⟨hinv, hlater', hQ⟩ := h t ht hlater hmay
  exact ⟨⟨hinv, hlater'⟩, hinv, G.trans _ _ _ hlater hlater', fun a ha => by cases ha; exact hQ⟩

/-- **A loop** with an accumulator. -/
theorem foldlM {f : β → α → Prog Op Ans ε' β} {as : List α}
    (h : ∀ a ∈ as, ∀ acc t, G.Later s t → G.Ensures (fun _ _ => True) (f acc a) t) (acc : β) {t : σ}
    (ht : G.Later s t) : G.Ensures (fun _ _ => True) (as.foldlM f acc) t := by
  induction as generalizing acc t with
  | nil => exact pure fun _ => trivial
  | cons a as ih =>
    rw [List.foldlM_cons]
    exact (h a List.mem_cons_self acc t ht).bind fun acc u hu _ =>
      ih (fun a ha => h a (List.mem_cons_of_mem _ ha)) acc (G.trans _ _ _ ht hu)

end Ensures

variable {G} [DecidableEq ι]

/-- **A step of the system** keeps the invariant and lets the state grow. -/
theorem step {s t : Sys ι σ Unit Call Op Ans ε ρ} {e : Event ι Call Env}
    (hs : Good G.protocol (fun _ _ _ _ => True) s) (hstep : m.Step s e t)
    (hprog : ∀ c s, G.Ensures (fun _ _ => True) (m.prog c) s)
    (henv : ∀ e', e = .environment e' → G.Inv s.shared →
      G.Inv (m.environment e' s.shared) ∧ G.Later s.shared (m.environment e' s.shared))
    (hmay : ∀ i call o next, e = .step i → s.threads i = some ⟨call, (), .step o next⟩ →
      G.May o s.shared) :
    Good G.protocol (fun _ _ _ _ => True) t ∧ G.Later s.shared t.shared := by
  obtain ⟨ht, hdid⟩ := hs.step hstep
    (fun i c _ => (hprog c _ hs.inv _).mono fun _ _ _ _ _ => trivial)
    (fun e' he hinv => (henv e' he hinv).1)
    (fun i call own o next he hthread => hmay i call o next he hthread)
    (fun i call own o next j th _ _ _ _ hguar => hguar)
    (fun e' j th he _ => by
      subst he
      cases hstep
      exact (henv e' rfl hs.inv).2)
  refine ⟨ht, ?_⟩
  cases hdid with
  | operation _ _ hguar _ => exact hguar
  | started hshared _ => exact hshared ▸ G.refl _
  | environment hshared _ => exact hshared ▸ (henv _ rfl hs.inv).2

end Growth

end Aseman
