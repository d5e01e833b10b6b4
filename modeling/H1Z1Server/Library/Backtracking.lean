import Mathlib.Tactic

/-! Search with backtracking over a state that is changed in place: where nothing has been found, the state is as
before, so that the search finds the first of the ways there are. -/
namespace Backtracking
variable {σ ε α β : Type}

/-- The search finds the first of these ways, and the state that goes with it. -/
def Finds (x : StateT σ (Except ε) (Option α)) (st : σ) (ways : List (α × σ)) : Prop :=
  x.run st = .ok (ways.head?.map Prod.fst, (ways.head?.map Prod.snd).getD st)

variable {x y : StateT σ (Except ε) (Option α)} {st : σ} {ways ways' : List (α × σ)}

theorem finds_none (st : σ) : Finds (pure none : StateT σ (Except ε) (Option α)) st [] := rfl

theorem finds_some (a : α) (st : σ) : Finds (pure (some a) : StateT σ (Except ε) (Option α)) st [(a, st)] := rfl

theorem Finds.run_nil (h : Finds x st []) : x.run st = .ok (none, st) := h

theorem Finds.run_cons {a : α} {t : σ} (h : Finds x st ((a, t) :: ways)) : x.run st = .ok (some a, t) := h

/-- What is done first leaves the state as it is. -/
theorem Finds.after {step : StateT σ (Except ε) β} {f : β → StateT σ (Except ε) (Option α)} {b : β}
    (h : step.run st = .ok (b, st)) (h' : Finds (f b) st ways) : Finds (step >>= f) st ways := by
  unfold Finds
  rw [StateT.run_bind, h]
  exact h'

/-- Where the one search finds nothing, the other one goes on. -/
theorem Finds.orElse (h : Finds x st ways) (h' : Finds y st ways') :
    Finds (do let res ← x; if res.isSome then return res else y) st (ways ++ ways') := by
  unfold Finds
  rw [StateT.run_bind]
  cases ways with
  | nil =>
    rw [h.run_nil]
    exact h'
  | cons way rest =>
    rw [h.run_cons]
    rfl

/-- A change is undone where it leads to nothing. -/
theorem Finds.undo {change undo : σ → σ} (h : Finds x (change st) ways) (hundo : undo (change st) = st) :
    Finds (do
      modify change
      let res ← x
      if res.isNone then modify undo
      return res) st ways := by
  have hchange (f : σ → σ) (t : σ) : (modify f : StateT σ (Except ε) PUnit).run t = .ok ((), f t) := rfl
  unfold Finds
  simp only [StateT.run_bind, hchange]
  cases ways with
  | nil =>
    change (do let p ← x.run (change st); _) = _
    rw [h.run_nil]
    change Except.ok (none, undo (change st)) = _
    rw [hundo]
    rfl
  | cons way rest =>
    change (do let p ← x.run (change st); _) = _
    rw [h.run_cons]
    rfl

/-- The program never ends with this error. -/
def Avoids (e : ε) (x : StateT σ (Except ε) α) : Prop := ∀ st, x.run st ≠ .error e

section Avoiding
variable {e : ε} {x : StateT σ (Except ε) α} {f : α → StateT σ (Except ε) β}

theorem avoids_pure (a : α) : Avoids e (pure a : StateT σ (Except ε) α) := by
  intro st h
  cases h

theorem avoids_throw {e' : ε} (h : e' ≠ e) : Avoids e (throw e' : StateT σ (Except ε) α) := by
  intro st hrun
  cases hrun
  exact h rfl

theorem avoids_get : Avoids e (get : StateT σ (Except ε) σ) := by
  intro st h
  cases h

theorem avoids_modify (g : σ → σ) : Avoids e (modify g : StateT σ (Except ε) PUnit) := by
  intro st h
  cases h

theorem Avoids.bind (h : Avoids e x) (h' : ∀ a, Avoids e (f a)) : Avoids e (x >>= f) := by
  intro st hrun
  rw [StateT.run_bind] at hrun
  cases hx : x.run st with
  | error e' =>
    rw [hx] at hrun
    cases hrun
    exact h st hx
  | ok p =>
    rw [hx] at hrun
    exact h' p.1 p.2 hrun

/-- The same for a part that is not about the state, of which the value is known. -/
theorem avoids_lift {r : Except ε α} (h : r ≠ .error e) (h' : ∀ a, r = .ok a → Avoids e (f a)) :
    Avoids e ((liftM r : StateT σ (Except ε) α) >>= f) := by
  cases r with
  | error e' =>
    intro st hrun
    cases hrun
    exact h rfl
  | ok a => exact h' a rfl

end Avoiding

end Backtracking
