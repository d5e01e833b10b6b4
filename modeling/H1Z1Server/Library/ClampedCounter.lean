import Mathlib.Tactic

/-! A counter that some steps raise and others lower, but not below zero. The steps are in a list with the
latest first. -/
namespace ClampedCounter

inductive Effect where
  | raise
  | lower
  | keep
  deriving DecidableEq, Repr

variable {α β : Type}

def count (effect : α → Effect) : List α → ℕ
  | [] => 0
  | a :: steps =>
    match effect a with
    | .raise => count effect steps + 1
    | .lower => count effect steps - 1
    | .keep => count effect steps

/-- How many of the steps have an effect. -/
def times (effect : α → Effect) (e : Effect) (steps : List α) : ℕ := steps.countP fun a => effect a = e

variable {effect : α → Effect} {a : α} {steps : List α}

@[simp] theorem count_nil : count effect [] = 0 := rfl

theorem count_raise (h : effect a = .raise) : count effect (a :: steps) = count effect steps + 1 := by
  rw [count, h]

theorem count_lower (h : effect a = .lower) : count effect (a :: steps) = count effect steps - 1 := by
  rw [count, h]

theorem count_keep (h : effect a = .keep) : count effect (a :: steps) = count effect steps := by
  rw [count, h]

theorem count_map (f : β → α) (steps : List β) : count effect (steps.map f) = count (effect ∘ f) steps := by
  induction steps with
  | nil => rfl
  | cons b steps ih => rw [List.map_cons, count, count, ih, Function.comp_apply]

/-- Early steps that keep the counter may be left out. -/
theorem count_append_of_keep {old : List α} (h : ∀ a ∈ old, effect a = .keep) (new : List α) :
    count effect (new ++ old) = count effect new := by
  induction new with
  | nil =>
    induction old with
    | nil => rfl
    | cons a old ih =>
      rw [List.nil_append, count_keep (h a List.mem_cons_self)]
      exact ih fun b hb => h b (List.mem_cons_of_mem _ hb)
  | cons a new ih => rw [List.cons_append, count, count, ih]

@[simp] theorem times_nil (e : Effect) : times effect e [] = 0 := rfl

theorem times_cons (e : Effect) (a : α) (steps : List α) :
    times effect e (a :: steps) = times effect e steps + if effect a = e then 1 else 0 := by
  rw [times, List.countP_cons, times]
  simp only [decide_eq_true_eq]

/-- The counter exceeds a bound exactly when, among some of the latest steps, those that raise it exceed
those that lower it by more than the bound. -/
theorem lt_count_iff {k : ℕ} : k < count effect steps ↔
    ∃ n, times effect .lower (steps.take n) + k < times effect .raise (steps.take n) := by
  induction steps generalizing k with
  | nil => simp
  | cons a steps ih =>
    -- none of the latest steps decides nothing, so one more step is in view on the right
    have hview : (∃ n, times effect .lower ((a :: steps).take n) + k < times effect .raise ((a :: steps).take n)) ↔
        ∃ n, times effect .lower (steps.take n) + (if effect a = .lower then 1 else 0) + k <
          times effect .raise (steps.take n) + if effect a = .raise then 1 else 0 := by
      constructor
      · rintro ⟨n, hn⟩
        cases n with
        | zero => simp at hn
        | succ n => exact ⟨n, by simpa only [List.take_succ_cons, times_cons] using hn⟩
      · rintro ⟨n, hn⟩
        exact ⟨n + 1, by simpa only [List.take_succ_cons, times_cons] using hn⟩
    rw [hview]
    cases heffect : effect a with
    | raise =>
      rw [count_raise heffect]
      simp only [reduceCtorEq, if_false, if_true, Nat.add_zero]
      cases k with
      | zero => exact ⟨fun _ => ⟨0, by simp⟩, fun _ => Nat.succ_pos _⟩
      | succ k =>
        rw [Nat.succ_lt_succ_iff, ih]
        simp only [← Nat.add_assoc, Nat.succ_lt_succ_iff]
    | lower =>
      rw [count_lower heffect, Nat.lt_sub_iff_add_lt, ih]
      simp only [reduceCtorEq, if_false, if_true, Nat.add_zero, Nat.add_assoc, Nat.add_comm 1 k]
    | keep =>
      rw [count_keep heffect, ih]
      simp only [reduceCtorEq, if_false, Nat.add_zero]

theorem times_reverse (e : Effect) (steps : List α) : times effect e steps.reverse = times effect e steps := by
  rw [times, List.countP_reverse, times]

/-- With the steps in their order, what decides is an ending in which more steps raise than lower. -/
theorem count_reverse_pos_iff : 0 < count effect steps.reverse ↔
    ∃ ending, ending <:+ steps ∧ times effect .lower ending < times effect .raise ending := by
  rw [lt_count_iff]
  constructor
  · rintro ⟨n, hn⟩
    refine ⟨(steps.reverse.take n).reverse, ?_, ?_⟩
    · rw [← List.reverse_prefix, List.reverse_reverse]
      exact List.take_prefix n _
    · rw [times_reverse, times_reverse]
      exact hn
  · rintro ⟨ending, hending, hmore⟩
    refine ⟨ending.length, ?_⟩
    have htake : steps.reverse.take ending.length = ending.reverse := by
      rw [← List.length_reverse]
      exact (List.prefix_iff_eq_take.mp (List.reverse_prefix.mpr hending)).symm
    rw [htake, times_reverse, times_reverse]
    exact hmore

/-- When no two steps in a row raise it, the counter is a switch that the latest step has set. -/
theorem count_of_alternating (hkeep : ∀ a ∈ steps, effect a ≠ .keep)
    (halternate : steps.IsChain fun a b => effect a = .raise → effect b = .lower) :
    count effect steps = if steps.head?.map effect = some .raise then 1 else 0 := by
  induction steps with
  | nil => rfl
  | cons a steps ih =>
    have hrest := ih (fun b hb => hkeep b (List.mem_cons_of_mem _ hb)) halternate.tail
    rw [List.head?_cons, Option.map_some]
    cases heffect : effect a with
    | raise =>
      rw [count_raise heffect, hrest, if_pos rfl]
      cases steps with
      | nil => rfl
      | cons b steps =>
        have hlower := (List.isChain_cons_cons.mp halternate).1 heffect
        rw [List.head?_cons, Option.map_some, hlower, if_neg (by decide)]
    | lower =>
      have hnot : ¬some Effect.lower = some Effect.raise := nofun
      rw [count_lower heffect, hrest, if_neg hnot]
      split
      · rfl
      · rfl
    | keep => exact absurd heffect (hkeep a List.mem_cons_self)

end ClampedCounter
