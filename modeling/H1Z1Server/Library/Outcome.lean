import Mathlib.Tactic

/-! Outcomes of programs with a state and errors: what holds of a run, value or error, and how it
follows from the parts of the program. -/
namespace Outcome
variable {ε σ α β : Type} {Q Q' : α → σ → Prop} {E E' : ε → σ → Prop} {s : σ}

/-- The outcome meets `Q` if it is a value, and `E` if it is an error. -/
def Ends (r : EStateM.Result ε σ α) (Q : α → σ → Prop) (E : ε → σ → Prop) : Prop :=
  match r with
  | .ok a s => Q a s
  | .error e s => E e s

@[simp] theorem ends_ok {a : α} : Ends (.ok a s : EStateM.Result ε σ α) Q E ↔ Q a s := Iff.rfl

@[simp] theorem ends_error {e : ε} : Ends (.error e s : EStateM.Result ε σ α) Q E ↔ E e s := Iff.rfl

theorem Ends.mono {r : EStateM.Result ε σ α} (h : Ends r Q E) (hQ : ∀ a s, Q a s → Q' a s)
    (hE : ∀ e s, E e s → E' e s) : Ends r Q' E' := by
  cases r with
  | ok a s => exact hQ a s h
  | error e s => exact hE e s h

/-- Nothing is said of an outcome. -/
theorem ends_any (r : EStateM.Result ε σ α) : Ends r (fun _ _ => True) fun _ _ => True := by
  cases r <;> trivial

theorem Ends.and {r : EStateM.Result ε σ α} (h : Ends r Q E) (h' : Ends r Q' E') :
    Ends r (fun a s => Q a s ∧ Q' a s) fun e s => E e s ∧ E' e s := by
  cases r with
  | ok a s => exact ⟨h, h'⟩
  | error e s => exact ⟨h, h'⟩

/-- A sequence ends well when its first part leaves the rest in a state from which it does. -/
theorem Ends.bind {x : EStateM ε σ α} {f : α → EStateM ε σ β} {Q : β → σ → Prop}
    (h : Ends (x.run s) (fun a s' => Ends ((f a).run s') Q E) E) : Ends ((x >>= f).run s) Q E := by
  rw [EStateM.run_bind]
  cases hx : x.run s with
  | ok a s' => simpa [hx] using h
  | error e s' => simpa [hx] using h

theorem Ends.mono_ok {r : EStateM.Result ε σ α} (h : Ends r Q E) (hQ : ∀ a s, Q a s → Q' a s) :
    Ends r Q' E := h.mono hQ fun _ _ he => he

/-- The rule for a sequence whose first part is known. -/
theorem Ends.seq {x : EStateM ε σ α} {f : α → EStateM ε σ β} {R : α → σ → Prop} {Q : β → σ → Prop}
    (hx : Ends (x.run s) R E) (hf : ∀ a s', R a s' → Ends ((f a).run s') Q E) :
    Ends ((x >>= f).run s) Q E := Ends.bind (hx.mono_ok hf)

/-- Two sequences with the same first part do the same if they go on alike from wherever it leads to. -/
theorem Ends.run_congr {x : EStateM ε σ α} {f g : α → EStateM ε σ β} (h : Ends (x.run s) Q E)
    (hfg : ∀ a s', Q a s' → (f a).run s' = (g a).run s') : (x >>= f).run s = (x >>= g).run s := by
  rw [EStateM.run_bind, EStateM.run_bind]
  cases hx : x.run s with
  | ok a s' =>
    rw [hx] at h
    exact hfg a s' h
  | error e s' => rfl

/-- The same for a first part that cannot fail. -/
theorem Ends.after {x : EStateM ε σ α} {f : α → EStateM ε σ β} {R : α → σ → Prop} {Q : β → σ → Prop}
    (hx : Ends (x.run s) R fun _ _ => False) (hf : ∀ a s', R a s' → Ends ((f a).run s') Q E) :
    Ends ((x >>= f).run s) Q E := Ends.bind (hx.mono hf fun _ _ => False.elim)

/-- What is said of the state alone holds whether or not the value is thrown away. -/
theorem Ends.discard {x : EStateM ε σ α} {R : σ → Prop} (h : Ends (x.run s) (fun _ => R) E) :
    Ends ((Functor.discard x).run s) (fun _ => R) E := by
  have hrun : (Functor.discard x).run s = (x >>= fun _ => pure ()).run s := rfl
  rw [hrun]
  exact Ends.bind h

theorem ends_pure {a : α} (h : Q a s) : Ends ((pure a : EStateM ε σ α).run s) Q E := h

theorem ends_throw {e : ε} (h : E e s) : Ends ((throw e : EStateM ε σ α).run s) Q E := h

theorem ends_get {Q : σ → σ → Prop} (h : Q s s) : Ends ((get : EStateM ε σ σ).run s) Q E := h

theorem ends_ite {c : Prop} [Decidable c] {x y : EStateM ε σ α} (hx : c → Ends (x.run s) Q E)
    (hy : ¬c → Ends (y.run s) Q E) : Ends ((if c then x else y).run s) Q E := by
  split
  · exact hx ‹c›
  · exact hy ‹¬c›

/-- A test that throws guards what comes behind it. -/
theorem ends_guard {c : Prop} [Decidable c] {e : ε} {x : EStateM ε σ α} (he : c → E e s)
    (hx : ¬c → Ends (x.run s) Q E) :
    Ends ((if c then (throw e : EStateM ε σ α) else x).run s) Q E :=
  ends_ite (fun hc => ends_throw (he hc)) hx

section Mirrors
variable {x y : EStateM ε σ α} {f g : α → EStateM ε σ β} {t : σ} {R : α → σ → σ → Prop}
  {R' : β → σ → σ → Prop}

/-- Whenever `x` returns from `s`, `y` returns the same value from `t`, and the states that they leave are
related. The errors of `x` meet `E`. -/
def Mirrors (x y : EStateM ε σ α) (s t : σ) (R : α → σ → σ → Prop) (E : ε → σ → Prop) : Prop :=
  Ends (x.run s) (fun a s' => ∃ t', y.run t = .ok a t' ∧ R a s' t') E

/-- The rule for two sequences. -/
theorem Mirrors.seq (h : Mirrors x y s t R E)
    (hf : ∀ a s' t', R a s' t' → Mirrors (f a) (g a) s' t' R' E) :
    Mirrors (x >>= f) (y >>= g) s t R' E := by
  apply Ends.seq h
  rintro a s' ⟨t', hy, hR⟩
  apply (hf a s' t' hR).mono_ok
  rintro b s'' ⟨t'', hg, hR'⟩
  refine ⟨t'', ?_, hR'⟩
  rw [EStateM.run_bind, hy]
  exact hg

theorem mirrors_pure {a : α} (h : R a s t) : Mirrors (pure a : EStateM ε σ α) (pure a) s t R E :=
  ⟨t, rfl, h⟩

theorem mirrors_get_iff {f g : σ → EStateM ε σ α} :
    Mirrors (get >>= f) (get >>= g) s t R E ↔ Mirrors (f s) (g t) s t R E := Iff.rfl

/-- A test that throws guards both. -/
theorem mirrors_guard {c : Prop} [Decidable c] {e : ε} (he : c → E e s) (h : ¬c → Mirrors x y s t R E) :
    Mirrors (if c then (throw e : EStateM ε σ α) else x) (if c then throw e else y) s t R E := by
  by_cases hc : c
  · simp only [hc, if_true]
    exact he hc
  · simp only [hc, if_false]
    exact h hc

end Mirrors

end Outcome
