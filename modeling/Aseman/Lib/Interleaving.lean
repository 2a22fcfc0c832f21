import Aseman.Lib.Run
import Mathlib.Logic.Function.Basic

/-!
# Interleaved programs

A program makes atomic operations one after the other and goes on with their answers; several threads
run programs over a state they share, each with a state of its own, and their operations interleave in
any way. `Safe` is what is proved of one program, by the rules of its statements: whatever steps the
relation `Rely` allows the others to make in between, each of its own steps that it `May` make is one
that `Guar` allows, and its last step meets the postcondition. `Good.step` puts the threads together:
as long as what one guarantees is what the others rely on, every step of the whole system is as its
thread promised.
-/

namespace Aseman

/-! ## Programs -/

inductive Prog (Op : Type) (Ans : Op → Type) (ε α : Type) : Type
  | done (result : Except ε α)
  | step (o : Op) (next : Ans o → Prog Op Ans ε α)

namespace Prog

variable {Op : Type} {Ans : Op → Type} {ε ε' α β : Type}

/-- Goes on with what a program returns; a failure ends both. -/
def bind : Prog Op Ans ε α → (α → Prog Op Ans ε β) → Prog Op Ans ε β
  | done (.ok a), f => f a
  | done (.error e), _ => done (.error e)
  | step o next, f => step o fun a => (next a).bind f

instance : Monad (Prog Op Ans ε) where
  pure a := done (.ok a)
  bind := bind

def fail (e : ε) : Prog Op Ans ε α := done (.error e)

/-- One operation. -/
def perform (o : Op) : Prog Op Ans ε (Ans o) := step o fun a => done (.ok a)

/-- A fallible function that makes no operation. -/
def ofExcept (r : Except ε α) : Prog Op Ans ε α := done r

/-- A program whose failure is handed to the caller as a value. -/
def attempt : Prog Op Ans ε α → Prog Op Ans ε' (Except ε α)
  | done r => done (.ok r)
  | step o next => step o fun a => (next a).attempt

def each (f : α → Prog Op Ans ε Unit) : List α → Prog Op Ans ε Unit
  | [] => pure ()
  | a :: as => do
      f a
      each f as

/-- One program after the other, each with what the one before it returned. -/
def fold (f : β → α → Prog Op Ans ε β) : List α → β → Prog Op Ans ε β
  | [], b => pure b
  | a :: as, b => do
      let b ← f b a
      fold f as b

end Prog

/-! ## Threads -/

section

variable (ι σ τ Call Op : Type) (Ans : Op → Type) (ε ρ : Type)

/-- A call that is running: the state of its own and what is left of its program. -/
structure Thread where
  call : Call
  own : τ
  rest : Prog Op Ans ε ρ

/-- The threads and what they share. A call that has ended is kept with its result. -/
structure Sys where
  shared : σ
  threads : ι → Option (Thread τ Call Op Ans ε ρ)
  finished : List (Call × Except ε ρ)

/-- What the operations do and which program a call runs; `Env` are the changes of the shared state
that no thread makes. -/
structure Machine (Env : Type) where
  exec : (o : Op) → σ → τ → Ans o × σ × τ
  environment : Env → σ → σ
  prog : Call → Prog Op Ans ε ρ
  own : Call → τ

/-- A step of the system. -/
inductive Event (Env : Type)
  | start (i : ι) (call : Call)
  | step (i : ι)
  | environment (e : Env)

end

section

variable {ι σ τ Call Op Env : Type} {Ans : Op → Type} {ε ρ : Type} [DecidableEq ι]

/-- A thread makes the given number of steps. -/
def Event.steps (i : ι) (n : ℕ) : List (Event ι Call Env) := List.replicate n (.step i)

/-- A thread starts a call and makes the given number of steps. -/
def Event.call (i : ι) (c : Call) (n : ℕ) : List (Event ι Call Env) := .start i c :: Event.steps i n

/-- The system after a thread has come to `rest`: a call that has nothing left to do has ended. -/
def Sys.resume (s : Sys ι σ τ Call Op Ans ε ρ) (i : ι) (call : Call) (own : τ) :
    Prog Op Ans ε ρ → Sys ι σ τ Call Op Ans ε ρ
  | .done r => { s with
      threads := Function.update s.threads i none, finished := s.finished ++ [(call, r)] }
  | .step o next => { s with
      threads := Function.update s.threads i (some ⟨call, own, .step o next⟩) }

/-- The next state, if the step is possible. -/
def Machine.next (m : Machine σ τ Call Op Ans ε ρ Env) (s : Sys ι σ τ Call Op Ans ε ρ) :
    Event ι Call Env → Option (Sys ι σ τ Call Op Ans ε ρ)
  | .start i call =>
    match s.threads i with
    | none => some (s.resume i call (m.own call) (m.prog call))
    | some _ => none
  | .step i =>
    match s.threads i with
    | some ⟨call, own, .step o next⟩ =>
      let (a, shared, own) := m.exec o s.shared own
      some (({ s with shared := shared } : Sys ι σ τ Call Op Ans ε ρ).resume i call own (next a))
    | _ => none
  | .environment e => some { s with shared := m.environment e s.shared }

/-- The next states, as a relation to run. -/
def Machine.Step (m : Machine σ τ Call Op Ans ε ρ Env) (s : Sys ι σ τ Call Op Ans ε ρ)
    (e : Event ι Call Env) (t : Sys ι σ τ Call Op Ans ε ρ) : Prop :=
  m.next s e = some t

variable {m : Machine σ τ Call Op Ans ε ρ Env} {s t : Sys ι σ τ Call Op Ans ε ρ} {e : Event ι Call Env}
  {i j : ι} {call : Call} {own : τ} {rest : Prog Op Ans ε ρ}

@[simp] theorem Sys.shared_resume : (s.resume i call own rest).shared = s.shared := by
  cases rest <;> rfl

/-- A thread that has come to `rest` still runs, unless it has ended. -/
theorem Sys.threads_resume {th} (h : (s.resume i call own rest).threads j = some th) :
    (j = i ∧ th = ⟨call, own, rest⟩ ∧ ∃ o next, rest = .step o next) ∨
      (j ≠ i ∧ s.threads j = some th) := by
  cases rest <;> simp only [Sys.resume, Function.update_apply] at h <;> split at h
  · cases h
  · next hne => exact .inr ⟨hne, h⟩
  · next heq => cases h; exact .inl ⟨heq, rfl, _, _, rfl⟩
  · next hne => exact .inr ⟨hne, h⟩

theorem Sys.threads_resume_of_ne (hne : j ≠ i) :
    (s.resume i call own rest).threads j = s.threads j := by
  cases rest <;> exact Function.update_of_ne hne _ _

theorem Machine.Step.of_start (h : m.Step s (.start i call) t) :
    t = s.resume i call (m.own call) (m.prog call) := by
  simp only [Machine.Step, Machine.next] at h
  split at h <;> cases h
  rfl

theorem Machine.Step.start_free (h : m.Step s (.start i call) t) : s.threads i = none := by
  simp only [Machine.Step, Machine.next] at h
  split at h
  · assumption
  · cases h

/-- One operation of a thread. -/
theorem Machine.Step.of_step (h : m.Step s (.step i) t) :
    ∃ call own o next, s.threads i = some ⟨call, own, .step o next⟩ ∧
      t = ({ s with shared := (m.exec o s.shared own).2.1 } : Sys ι σ τ Call Op Ans ε ρ).resume i call
        (m.exec o s.shared own).2.2 (next (m.exec o s.shared own).1) := by
  simp only [Machine.Step, Machine.next] at h
  split at h
  · next call own o next hthread =>
    cases h
    exact ⟨call, own, o, next, hthread, rfl⟩
  · cases h

theorem Machine.Step.start (h : s.threads i = none) :
    m.Step s (.start i call) (s.resume i call (m.own call) (m.prog call)) := by
  simp only [Machine.Step, Machine.next, h]

theorem Machine.Step.operation {o next} (h : s.threads i = some ⟨call, own, .step o next⟩) :
    m.Step s (.step i)
      (({ s with shared := (m.exec o s.shared own).2.1 } : Sys ι σ τ Call Op Ans ε ρ).resume i call
        (m.exec o s.shared own).2.2 (next (m.exec o s.shared own).1)) := by
  simp only [Machine.Step, Machine.next, h]

theorem Machine.Step.shared_start (h : m.Step s (.start i call) t) : t.shared = s.shared := by
  rw [h.of_start, Sys.shared_resume]

/-- A property of the threads, of what each calls and keeps of itself, that every operation keeps. -/
theorem Machine.Step.threads {T : ι → Call → τ → Prop} (h : m.Step s e t)
    (hs : ∀ i th, s.threads i = some th → T i th.call th.own)
    (hstart : ∀ i call, e = .start i call → T i call (m.own call))
    (hexec : ∀ i call own o shared, T i call own → T i call (m.exec o shared own).2.2) :
    ∀ i th, t.threads i = some th → T i th.call th.own := by
  intro j th hth
  cases e with
  | start i call =>
    rw [h.of_start] at hth
    rcases Sys.threads_resume hth with ⟨rfl, rfl, -⟩ | ⟨-, hth⟩
    · exact hstart j call rfl
    · exact hs j th hth
  | step i =>
    obtain ⟨call, own, o, next, hthread, rfl⟩ := h.of_step
    rcases Sys.threads_resume hth with ⟨rfl, rfl, -⟩ | ⟨-, hth⟩
    · exact hexec j call own o _ (hs j _ hthread)
    · exact hs j th hth
  | environment e =>
    cases h
    exact hs j th hth

/-- A step of one thread, or its start, leaves the others where they are. -/
theorem Machine.Step.threads_of_ne (h : m.Step s e t)
    (hstart : ∀ i call, e = .start i call → j ≠ i) (hstep : ∀ i, e = .step i → j ≠ i) :
    t.threads j = s.threads j := by
  cases e with
  | start i call => rw [h.of_start, Sys.threads_resume_of_ne (hstart i call rfl)]
  | step i =>
    obtain ⟨call, own, o, next, -, rfl⟩ := h.of_step
    exact Sys.threads_resume_of_ne (hstep i rfl)
  | environment e =>
    cases h
    rfl

/-- The system after the events, if each is possible and passes the test. -/
def Machine.after (m : Machine σ τ Call Op Ans ε ρ Env)
    (test : Sys ι σ τ Call Op Ans ε ρ → Event ι Call Env → Bool) :
    Sys ι σ τ Call Op Ans ε ρ → List (Event ι Call Env) → Option (Sys ι σ τ Call Op Ans ε ρ)
  | s, [] => some s
  | s, e :: es => if test s e then (m.next s e).bind fun t => m.after test t es else none

theorem Machine.run_after {test R} (hR : ∀ s e t, m.Step s e t → test s e → R s e t) {es}
    (h : m.after test s es = some t) : Run R s es t := by
  induction es generalizing s with
  | nil =>
    cases h
    exact Run.nil
  | cons e es ih =>
    rw [Machine.after] at h
    split at h
    · next htest =>
      obtain ⟨u, hstep, hrest⟩ := Option.bind_eq_some_iff.mp h
      exact Run.append (Run.single (hR s e u hstep htest)) (ih hrest)
    · cases h

/-- A run by evaluation, with what is observed of its end. -/
theorem Machine.exists_run (p) {R} (hR : ∀ s e t, m.Step s e t → p s e → R s e t) {l} {β : Type}
    {f : Sys ι σ τ Call Op Ans ε ρ → β} {v : β} (h : (m.after p s l).map f = some v) :
    ∃ t, Run R s l t ∧ f t = v := by
  obtain ⟨t, ht, hv⟩ := Option.map_eq_some_iff.mp h
  exact ⟨t, run_after hR ht, hv⟩

end

/-! ## One program among others -/

section

variable {ι σ τ Call Op Env : Type} {Ans : Op → Type} {ε ε' ε'' ρ α β : Type}

/-- What the threads promise each other. -/
structure Protocol (m : Machine σ τ Call Op Ans ε ρ Env) where
  /-- Holds of the shared state at all times. -/
  Inv : σ → Prop
  /-- What a thread, with the state of its own, relies on the others to do to the shared state. -/
  Rely : τ → σ → σ → Prop
  /-- Which operations the run lets a thread make, and where. -/
  May : τ → Op → σ → Prop := fun _ _ _ => True
  /-- What a thread's operation, with its answer, does to the shared state. -/
  Guar : τ → (o : Op) → Ans o → σ → σ → Prop
  refl : ∀ l s, Rely l s s
  trans : ∀ l s t u, Rely l s t → Rely l t u → Rely l s u

variable {m : Machine σ τ Call Op Ans ε ρ Env} (P : Protocol m)

/-- From the shared state `s` and its own state `l`, the program makes only steps that it may, and
its result meets `Q`, which also sees the shared state before the last step. -/
def Safe (Q : Except ε' α → σ → σ → τ → Prop) : Prog Op Ans ε' α → σ → σ → τ → Prop
  | .done r, before, s, l => Q r before s l
  | .step o next, _, s, l => ∀ t, P.Inv t → P.Rely l s t → P.May l o t →
      (P.Inv (m.exec o t l).2.1 ∧ P.Guar l o (m.exec o t l).1 t (m.exec o t l).2.1) ∧
        Safe Q (next (m.exec o t l).1) t (m.exec o t l).2.1 (m.exec o t l).2.2

namespace Safe

variable {P} {Q Q' : Except ε' α → σ → σ → τ → Prop} {p : Prog Op Ans ε' α} {before s t : σ} {l : τ}

theorem mono (h : Safe P Q p before s l) (hQ : ∀ r b s l, Q r b s l → Q' r b s l) :
    Safe P Q' p before s l := by
  induction p generalizing before s l with
  | done r => exact hQ _ _ _ _ h
  | step o next ih =>
    intro t ht hrely hmay
    exact ⟨(h t ht hrely hmay).1, ih _ (h t ht hrely hmay).2⟩

variable {f : α → Prog Op Ans ε' β} {R : Except ε' β → σ → σ → τ → Prop}

/-- **Sequencing**: the second program is safe after whatever the first returns. -/
theorem bind (h : Safe P Q p before s l) (hok : ∀ a b s l, Q (.ok a) b s l → Safe P R (f a) b s l)
    (herror : ∀ e b s l, Q (.error e) b s l → R (.error e) b s l) :
    Safe P R (p >>= f) before s l := by
  induction p generalizing before s l with
  | done r =>
    cases r with
    | ok a => exact hok a _ _ _ h
    | error e => exact herror e _ _ _ h
  | step o next ih =>
    intro t ht hrely hmay
    exact ⟨(h t ht hrely hmay).1, ih _ (h t ht hrely hmay).2⟩

/-- Going on with the result of a program, whether it has failed or not. -/
theorem attempt {f : Except ε' α → Prog Op Ans ε'' β} {R : Except ε'' β → σ → σ → τ → Prop}
    (h : Safe P Q p before s l) (hf : ∀ r b s l, Q r b s l → Safe P R (f r) b s l) :
    Safe P R (p.attempt >>= f) before s l := by
  induction p generalizing before s l with
  | done r => exact hf r _ _ _ h
  | step o next ih =>
    intro t ht hrely hmay
    exact ⟨(h t ht hrely hmay).1, ih _ (h t ht hrely hmay).2⟩

/-- A test that makes no operation, and then the rest. -/
theorem test (hp : ∃ r, p = .done r) (herror : ∀ e, R (.error e) before s l)
    (hok : ∀ a, p = .done (.ok a) → Safe P R (f a) before s l) : Safe P R (p >>= f) before s l := by
  obtain ⟨r, rfl⟩ := hp
  cases r with
  | ok a => exact hok a rfl
  | error e => exact herror e

/-- A fallible function that makes no operation, and then the rest. -/
theorem check {r} (herror : ∀ e, r = .error e → R (.error e) before s l)
    (hok : ∀ a, r = .ok a → Safe P R (f a) before s l) :
    Safe P R (Prog.ofExcept r >>= f) before s l := by
  cases r with
  | ok a => exact hok a rfl
  | error e => exact herror e rfl

variable {o : Op}

/-- One operation, at whatever state the others have left. -/
theorem perform {Q} (h : ∀ t, P.Inv t → P.Rely l s t → P.May l o t →
      (P.Inv (m.exec o t l).2.1 ∧ P.Guar l o (m.exec o t l).1 t (m.exec o t l).2.1) ∧
        Q (.ok (m.exec o t l).1) t (m.exec o t l).2.1 (m.exec o t l).2.2) :
    Safe P Q (Prog.perform o : Prog Op Ans ε' (Ans o)) before s l :=
  h

/-- One operation, and then the rest. -/
theorem step {f} (h : ∀ t, P.Inv t → P.Rely l s t → P.May l o t →
      (P.Inv (m.exec o t l).2.1 ∧ P.Guar l o (m.exec o t l).1 t (m.exec o t l).2.1) ∧
        Safe P R (f (m.exec o t l).1) t (m.exec o t l).2.1 (m.exec o t l).2.2) :
    Safe P R (Prog.perform o >>= f) before s l :=
  h

/-- One operation that ends in a known way, and then the rest. -/
theorem step_of {f}
    (h : ∀ t, P.Inv t → P.Rely l s t → P.May l o t → ∃ a t' l', m.exec o t l = (a, t', l') ∧
      (P.Inv t' ∧ P.Guar l o a t t') ∧ Safe P R (f a) t t' l') :
    Safe P R (Prog.perform o >>= f) before s l := by
  refine step fun t hinv hrely hmay => ?_
  obtain ⟨a, t', l', heq, hkept, hrest⟩ := h t hinv hrely hmay
  rw [heq]
  exact ⟨hkept, hrest⟩

/-- **A loop** keeps what each round keeps. -/
theorem each {J : σ → τ → Prop} {f : α → Prog Op Ans ε' Unit} {as : List α}
    (h : ∀ a ∈ as, ∀ b s l, J s l → Safe P (fun _ _ s l => J s l) (f a) b s l) (hs : J s l) :
    Safe P (fun _ _ s l => J s l) (Prog.each f as) before s l := by
  induction as generalizing before s l with
  | nil => exact hs
  | cons a as ih =>
    exact (h a List.mem_cons_self before s l hs).bind
      (fun _ _ _ _ hs => ih (fun a ha => h a (List.mem_cons_of_mem _ ha)) hs) fun _ _ _ _ hs => hs

/-- **A loop** that hands a value on keeps what each round keeps. -/
theorem fold {J : σ → τ → Prop} {f : β → α → Prog Op Ans ε' β} {as : List α} {b : β}
    (h : ∀ a ∈ as, ∀ b before s l, J s l → Safe P (fun _ _ s l => J s l) (f b a) before s l)
    (hs : J s l) : Safe P (fun _ _ s l => J s l) (Prog.fold f as b) before s l := by
  induction as generalizing before s l b with
  | nil => exact hs
  | cons a as ih =>
    exact (h a List.mem_cons_self b before s l hs).bind
      (fun _ _ _ _ hs => ih (fun a ha => h a (List.mem_cons_of_mem _ ha)) hs) fun _ _ _ _ hs => hs

/-- What the others did in between is taken into account already. -/
theorem absorb {next} (h : Safe P Q (.step o next) before s l) (hrely : P.Rely l s t) (b : σ) :
    Safe P Q (.step o next) b t l :=
  fun u hu hrely' => h u hu (P.trans l s t u hrely hrely')

end Safe

/-! ## The whole system -/

variable [DecidableEq ι] (Post : Call → Except ε ρ → σ → σ → Prop)

/-- Every thread is safe from where the system is. -/
structure Good (s : Sys ι σ τ Call Op Ans ε ρ) : Prop where
  inv : P.Inv s.shared
  safe : ∀ i th, s.threads i = some th → (∃ o next, th.rest = .step o next) ∧
      Safe P (fun r b s _ => Post th.call r b s) th.rest s.shared s.shared th.own

/-- What a step did: one operation of one thread, as it promised, or no operation at all. -/
inductive Did : Sys ι σ τ Call Op Ans ε ρ → Event ι Call Env → Sys ι σ τ Call Op Ans ε ρ → Prop
  | operation {s t : Sys ι σ τ Call Op Ans ε ρ} {i : ι} {call : Call} {own : τ} {o : Op}
      {next : Ans o → Prog Op Ans ε ρ} (hthread : s.threads i = some ⟨call, own, .step o next⟩)
      (hshared : t.shared = (m.exec o s.shared own).2.1)
      (hguar : P.Guar own o (m.exec o s.shared own).1 s.shared t.shared)
      (hfinished : (t.finished = s.finished ∧
          ∃ rest, t.threads i = some ⟨call, (m.exec o s.shared own).2.2, rest⟩) ∨
        ∃ r, t.finished = s.finished ++ [(call, r)] ∧ Post call r s.shared t.shared) :
      Did s (.step i) t
  | started {s t : Sys ι σ τ Call Op Ans ε ρ} {i : ι} {call : Call} (hshared : t.shared = s.shared)
      (hfinished : t.finished = s.finished ∨
        ∃ r, t.finished = s.finished ++ [(call, r)] ∧ Post call r s.shared t.shared) :
      Did s (.start i call) t
  | environment {s t : Sys ι σ τ Call Op Ans ε ρ} {e : Env}
      (hshared : t.shared = m.environment e s.shared) (hfinished : t.finished = s.finished) :
      Did s (.environment e) t

variable {P Post} {s t : Sys ι σ τ Call Op Ans ε ρ} {e : Event ι Call Env} {i : ι} {call : Call} {own : τ}
  {rest : Prog Op Ans ε ρ}

/-- A thread that has come to `rest` safely, among others that are safe. -/
theorem Good.resume {before} (hinv : P.Inv s.shared)
    (hothers : ∀ j th, j ≠ i → s.threads j = some th → (∃ o next, th.rest = .step o next) ∧
      Safe P (fun r b s _ => Post th.call r b s) th.rest s.shared s.shared th.own)
    (hsafe : Safe P (fun r b s _ => Post call r b s) rest before s.shared own) :
    Good P Post (s.resume i call own rest) := by
  refine ⟨by rwa [Sys.shared_resume], fun j th hth => ?_⟩
  rw [Sys.shared_resume]
  rcases Sys.threads_resume hth with ⟨-, rfl, o, next, rfl⟩ | ⟨hne, hth⟩
  · exact ⟨⟨o, next, rfl⟩, hsafe.absorb (P.refl _ _) _⟩
  · exact hothers j th hne hth

/-- How a thread that has come to `rest` safely has ended, if it has. -/
theorem finished_resume {before}
    (hsafe : Safe P (fun r b s _ => Post call r b s) rest before s.shared own) :
    ((s.resume i call own rest).finished = s.finished ∧
        ∃ rest', (s.resume i call own rest).threads i = some ⟨call, own, rest'⟩) ∨
      ∃ r, (s.resume i call own rest).finished = s.finished ++ [(call, r)] ∧
        Post call r before (s.resume i call own rest).shared := by
  cases rest with
  | done r => exact .inr ⟨r, rfl, hsafe⟩
  | step o next => exact .inl ⟨rfl, _, Function.update_self ..⟩

omit [DecidableEq ι] in
/-- What the others did to a thread that is safe. -/
theorem Good.settled (hs : Good P Post s) {th} (hth : s.threads i = some th) {u}
    (hrely : P.Rely th.own s.shared u) : (∃ o next, th.rest = .step o next) ∧
      Safe P (fun r b s _ => Post th.call r b s) th.rest u u th.own := by
  obtain ⟨⟨o, next, heq⟩, hsafe⟩ := hs.safe i th hth
  refine ⟨⟨o, next, heq⟩, ?_⟩
  rw [heq] at hsafe ⊢
  exact hsafe.absorb hrely _

/-- **A step of the system.** It is as its thread promised and leaves every thread safe, if every
program is safe where it starts and what the step did is what the other threads rely on. -/
theorem Good.step (hs : Good P Post s) (hstep : m.Step s e t) (hprog : ∀ i c, e = .start i c →
      Safe P (fun r b s _ => Post c r b s) (m.prog c) s.shared s.shared (m.own c))
    (henv : ∀ e', e = .environment e' → P.Inv s.shared → P.Inv (m.environment e' s.shared))
    (hmay : ∀ i call own o next, e = .step i → s.threads i = some ⟨call, own, .step o next⟩ →
      P.May own o s.shared)
    (hrely : ∀ i call own o next j th, e = .step i →
      s.threads i = some ⟨call, own, .step o next⟩ → s.threads j = some th → j ≠ i →
      P.Guar own o (m.exec o s.shared own).1 s.shared t.shared → P.Rely th.own s.shared t.shared)
    (hsettled : ∀ e' j th, e = .environment e' → s.threads j = some th →
      P.Rely th.own s.shared t.shared) :
    Good P Post t ∧ Did P Post s e t := by
  cases e with
  | start i call =>
    obtain rfl := hstep.of_start
    have hsafe := hprog i call rfl
    exact ⟨Good.resume hs.inv (fun j th _ hth => hs.safe j th hth) hsafe,
      .started Sys.shared_resume ((finished_resume hsafe).imp_left And.left)⟩
  | step i =>
    obtain ⟨call, own, o, next, hthread, rfl⟩ := hstep.of_step
    simp only [Sys.shared_resume] at hrely
    obtain ⟨-, hsafe⟩ := hs.safe i _ hthread
    obtain ⟨⟨hinv, hguar⟩, hrest⟩ := hsafe s.shared hs.inv (P.refl _ _) (hmay i call own o next rfl hthread)
    refine ⟨Good.resume hinv (fun j th hne hth => hs.settled hth
        (hrely i call own o next j th rfl hthread hth hne hguar)) hrest,
      .operation hthread Sys.shared_resume (by rwa [Sys.shared_resume]) (finished_resume hrest)⟩
  | environment e =>
    cases hstep
    exact ⟨⟨henv e rfl hs.inv, fun j th hth => hs.settled hth (hsettled e j th rfl hth)⟩,
      .environment rfl rfl⟩

omit [DecidableEq ι] in
/-- What holds of the calls that had ended holds of those that have ended now, if it stays so and a call
that ends promises it. -/
theorem Did.finished {R : Call → Except ε ρ → Prop} (h : Did P Post s e t)
    (hold : ∀ c r, (c, r) ∈ s.finished → R c r) (hends : ∀ c r, Post c r s.shared t.shared → R c r) :
    ∀ c r, (c, r) ∈ t.finished → R c r := by
  have hmore : ∀ {c r}, t.finished = s.finished ++ [(c, r)] → Post c r s.shared t.shared →
      ∀ c' r', (c', r') ∈ t.finished → R c' r' := by
    intro c r heq hr c' r' hmem
    rw [heq] at hmem
    rcases List.mem_append.mp hmem with hmem | hmem
    · exact hold c' r' hmem
    · cases List.mem_singleton.mp hmem
      exact hends _ _ hr
  cases h with
  | operation _ _ _ hfinished =>
    rcases hfinished with ⟨heq, -⟩ | ⟨r, heq, hr⟩
    · rwa [heq]
    · exact hmore heq hr
  | started _ hfinished =>
    rcases hfinished with heq | ⟨r, heq, hr⟩
    · rwa [heq]
    · exact hmore heq hr
  | environment _ heq => rwa [heq]

end

end Aseman
