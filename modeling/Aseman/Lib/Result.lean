import Mathlib.Data.List.ReduceOption
import Mathlib.Tactic

/-!
# Fallible steps

The inversion lemmas for a fallible function written as a `do` block over `Except`: from
"the block returned `r`" they give what every statement of the block returned. `ensure` is the
early `return Err(..)` of a failed check and `okOr` is `Option::ok_or`.
-/

namespace Aseman

variable {ε α β : Type}

/-- Go on if `p` holds, else fail with `e`. -/
def ensure (p : Prop) [Decidable p] (e : ε) : Except ε Unit :=
  if p then .ok () else .error e

/-- `Option::ok_or`. -/
def okOr (o : Option α) (e : ε) : Except ε α :=
  match o with
  | some a => .ok a
  | none => .error e

variable {x : Except ε α} {f : α → Except ε β}

@[simp] theorem bind_eq_ok {b} : (x >>= f) = .ok b ↔ ∃ a, x = .ok a ∧ f a = .ok b := by
  cases x <;> simp [bind, Except.bind]

variable {a : α}

@[simp] theorem pure_eq_ok {b} : (pure a : Except ε α) = .ok b ↔ a = b := by
  simp [pure, Except.pure]

variable {p : Prop} {e : ε}

@[simp] theorem ensure_eq_ok [Decidable p] {u} : ensure p e = .ok u ↔ p := by
  unfold ensure
  split <;> simp_all

variable {o : Option α}

@[simp] theorem okOr_eq_ok : okOr o e = .ok a ↔ o = some a := by
  cases o <;> simp [okOr]

/-! ## Errors

The same for a block that failed: the error is that of one of its statements. -/

theorem bind_eq_error : (x >>= f) = .error e ↔ x = .error e ∨ ∃ a, x = .ok a ∧ f a = .error e := by
  cases x <;> simp [bind, Except.bind]

theorem pure_eq_error : (pure a : Except ε α) = .error e ↔ False := by
  simp [pure, Except.pure]

theorem ensure_eq_error [Decidable p] {e'} : ensure p e = .error e' ↔ ¬ p ∧ e = e' := by
  unfold ensure
  split <;> simp_all

theorem okOr_eq_error {e'} : okOr o e = .error e' ↔ o = none ∧ e = e' := by
  cases o <;> simp [okOr]

def errorOf : Except ε α → Option ε
  | .error e => some e
  | .ok _ => none

theorem errorOf_eq_some : errorOf x = some e ↔ x = .error e := by
  cases x <;> simp [errorOf]

theorem toOption_eq_some {a} : x.toOption = some a ↔ x = .ok a := by
  cases x <;> simp [Except.toOption]

/-- What a test of the result says. -/
theorem exists_of_any_toOption {p} (h : x.toOption.any p = true) : ∃ a, x = .ok a ∧ p a = true := by
  obtain ⟨a, ha, hp⟩ := (Option.any_eq_true _ _).mp h
  exact ⟨a, toOption_eq_some.mp ha, hp⟩

variable {σ : Type} {l : List α} {s : σ}

/-- The error of a loop is that of one of its rounds. -/
theorem exists_of_foldlM_eq_error {f : σ → α → Except ε σ} (h : l.foldlM f s = .error e) :
    ∃ t a, f t a = .error e := by
  induction l generalizing s with
  | nil => exact absurd h (by simp [pure, Except.pure])
  | cons a l ih =>
    rw [List.foldlM_cons, bind_eq_error] at h
    rcases h with h | ⟨u, -, h⟩
    · exact ⟨s, a, h⟩
    · exact ih h

/-! ## Loops that collect -/

theorem mapM_eq_ok {out} : l.mapM f = .ok out ↔ List.Forall₂ (fun a b => f a = .ok b) l out := by
  induction l generalizing out with
  | nil => rw [List.mapM_nil, pure_eq_ok, List.forall₂_nil_left_iff, eq_comm]
  | cons a l ih =>
    simp only [List.mapM_cons, bind_eq_ok, pure_eq_ok, ih, List.forall₂_cons_left_iff]
    grind

theorem exists_of_mapM {out} (h : l.mapM f = .ok out) (ha : a ∈ l) : ∃ b, f a = .ok b := by
  rw [mapM_eq_ok] at h
  induction h with
  | nil => cases ha
  | cons hhead _ ih =>
    rcases List.mem_cons.mp ha with rfl | ha
    · exact ⟨_, hhead⟩
    · exact ih ha

/-- What a loop has collected, where a round may collect nothing. -/
theorem mem_reduceOption_of_mapM {f : α → Except ε (Option β)} {out : List (Option β)}
    (h : l.mapM f = .ok out) {b : β} : b ∈ out.reduceOption ↔ ∃ a ∈ l, f a = .ok (some b) := by
  rw [mapM_eq_ok] at h
  rw [List.reduceOption_mem_iff]
  induction h with
  | nil => simp
  | cons hhead _ ih =>
    rw [List.mem_cons, List.exists_mem_cons_iff, ih, hhead, Except.ok.injEq, eq_comm]

/-- Where a round collects something of its own key, the keys of what is collected stand in the order
of the rounds. -/
theorem sublist_of_mapM {κ : Type} {f : α → Except ε (Option β)} {out : List (Option β)}
    (h : l.mapM f = .ok out) {key : α → κ} {key' : β → κ}
    (hkey : ∀ a ∈ l, ∀ b, f a = .ok (some b) → key' b = key a) :
    (out.reduceOption.map key').Sublist (l.map key) := by
  rw [mapM_eq_ok] at h
  induction h with
  | nil => exact .slnil
  | @cons a o l out hhead _ ih =>
    have ih := ih fun a ha => hkey a (List.mem_cons_of_mem _ ha)
    cases o with
    | none => exact ih.cons _
    | some b =>
      rw [List.reduceOption_cons_of_some, List.map_cons, hkey a List.mem_cons_self b hhead]
      exact ih.cons_cons _

/-- A loop whose rounds all collect nothing. -/
theorem mapM_eq_none {f : α → Except ε (Option β)} (h : ∀ a ∈ l, f a = .ok none) :
    ∃ out, l.mapM f = .ok out ∧ out.reduceOption = [] := by
  refine ⟨List.replicate l.length none, mapM_eq_ok.mpr ?_, by simp⟩
  induction l with
  | nil => exact .nil
  | cons a l ih =>
    exact .cons (h a List.mem_cons_self) (ih fun b hb => h b (List.mem_cons_of_mem _ hb))

theorem mapError_eq_ok {ε' : Type} {g : ε → ε'} : x.mapError g = .ok a ↔ x = .ok a := by
  cases x <;> simp [Except.mapError]

/-! ## Success

That a block succeeds, and with what: the weakest precondition of a postcondition, statement by
statement. -/

/-- The step returns, with a value that meets `P`. -/
def Returns (x : Except ε α) (P : α → Prop) : Prop := ∃ a, x = .ok a ∧ P a

variable {P : α → Prop}

theorem Returns.mono {Q} (h : Returns x P) (hPQ : ∀ a, P a → Q a) : Returns x Q :=
  let ⟨a, ha, hP⟩ := h
  ⟨a, ha, hPQ a hP⟩

theorem returns_of_eq (h : x = .ok a) : Returns x P ↔ P a := by
  simp [Returns, h]

theorem returns_bind {P} : Returns (x >>= f) P ↔ Returns x fun a => Returns (f a) P := by
  cases x <;> simp [Returns, bind, Except.bind]

theorem returns_pure : Returns (pure a : Except ε α) P ↔ P a :=
  returns_of_eq rfl

theorem returns_ensure [Decidable p] {P} : Returns (ensure p e) P ↔ p ∧ P () := by
  constructor
  · rintro ⟨_, h, hP⟩
    exact ⟨ensure_eq_ok.mp h, hP⟩
  · rintro ⟨h, hP⟩
    exact ⟨(), ensure_eq_ok.mpr h, hP⟩

theorem returns_okOr : Returns (okOr o e) P ↔ ∃ a, o = some a ∧ P a := by
  simp [Returns]

/-! ## Stateful steps -/

/-- The step takes the state `s` to `t` and returns `a`. -/
def Yields {σ : Type} (f : StateT σ (Except ε) α) (s : σ) (a : α) (t : σ) : Prop := f s = .ok (a, t)

namespace Yields

variable {σ : Type} {s t u : σ}

theorem pure (a : α) : Yields (Pure.pure a : StateT σ (Except ε) α) s a s := rfl

theorem bind {f : StateT σ (Except ε) α} {g : α → StateT σ (Except ε) β} {a : α} {b : β}
    (h : Yields f s a t) (hg : Yields (g a) t b u) : Yields (f >>= g) s b u := by
  change (f s >>= fun p => g p.1 p.2) = _
  rw [h]
  exact hg

/-- A step that reads no state leaves it. -/
theorem lift {x : Except ε α} {a : α} (h : x = .ok a) :
    Yields (liftM x : StateT σ (Except ε) α) s a s := by
  subst h
  rfl

theorem ensure {p : Prop} [Decidable p] {e : ε} (h : p) :
    Yields (liftM (Aseman.ensure p e) : StateT σ (Except ε) Unit) s () s :=
  lift (ensure_eq_ok.mpr h)

end Yields

/-! ## Loops -/

variable {t : σ}

/-- What a loop that may stop early returns, one element at a time. -/
theorem foldlM_cons_eq_ok {f : σ → α → Except ε σ} :
    (a :: l).foldlM f s = .ok t ↔ ∃ u, f s a = .ok u ∧ l.foldlM f u = .ok t := by
  rw [List.foldlM_cons, bind_eq_ok]

/-- An invariant kept by the body of a loop holds when the loop returns. -/
theorem foldlM_invariant {f : σ → α → Except ε σ} (I : σ → Prop)
    (hstep : ∀ s a t, a ∈ l → I s → f s a = .ok t → I t) (hs : I s) (h : l.foldlM f s = .ok t) :
    I t := by
  induction l generalizing s with
  | nil => simp_all
  | cons a l ih =>
    obtain ⟨u, hu, ht⟩ := foldlM_cons_eq_ok.mp h
    exact ih (fun s b t hb => hstep s b t (List.mem_cons_of_mem _ hb))
      (hstep s a u List.mem_cons_self hs hu) ht

/-- As `foldlM_invariant`, where the invariant speaks of the elements the loop has met. -/
theorem foldlM_induct {f : σ → α → Except ε σ} (I : σ → List α → Prop)
    (hstep : ∀ s done a t, I s done → f s a = .ok t → I t (done ++ [a])) (hs : I s [])
    (h : l.foldlM f s = .ok t) : I t l := by
  suffices ∀ done, I s done → I t (done ++ l) from this [] hs
  clear hs
  induction l generalizing s with
  | nil =>
    rw [List.foldlM_nil, pure_eq_ok] at h
    simpa [h] using hs
  | cons a l ih =>
    intro done hs
    obtain ⟨u, hu, ht⟩ := foldlM_cons_eq_ok.mp h
    simpa using ih ht (done ++ [a]) (hstep s done a u hs hu)

end Aseman
