import Mathlib.Logic.Basic

/-! Incremental marking. A marker leaves an object white until it finds it, and keeps the objects it
still has to traverse in a worklist. Whoever whitens an object meanwhile is safe while a chain of
white objects leads to it from the worklist. -/

/-- What matters of a half-marked heap. -/
structure Colouring (α : Type) where
  white : α → Prop
  waiting : α → Prop
  refs : α → α → Prop

namespace Colouring
variable {α : Type}

/-- A chain of references through white objects leads here from an object that waits. -/
inductive GreyProtected (c : Colouring α) : α → Prop where
  | held {k a : α} (hk : c.waiting k) (href : c.refs k a) : GreyProtected c a
  | through {b a : α} (hb : GreyProtected c b) (hwhite : c.white b) (href : c.refs b a) :
      GreyProtected c a

/-- The marker has found the object, or is going to. -/
def Accounted (c : Colouring α) (a : α) : Prop := ¬ c.white a ∨ c.GreyProtected a

/-- Marking went on from `c` to `c'`: nothing was whitened, and what left the worklist or turned
from white without joining it refers to no white object. -/
structure Advances (c c' : Colouring α) : Prop where
  refs : c'.refs = c.refs
  marked : ∀ a, ¬ c.white a → ¬ c'.white a
  waiting : ∀ k, c.waiting k → c'.waiting k ∨ ∀ a, c.refs k a → ¬ c'.white a
  settled : ∀ b, c.white b → ¬ c'.white b → c'.waiting b ∨ ∀ a, c.refs b a → ¬ c'.white a

theorem Advances.refl (c : Colouring α) : Advances c c where
  refs := rfl
  marked _ h := h
  waiting _ h := .inl h
  settled _ h h' := absurd h h'

theorem Advances.trans {c c' c'' : Colouring α} (h : Advances c c') (h' : Advances c' c'') :
    Advances c c'' where
  refs := h'.refs.trans h.refs
  marked a ha := h'.marked a (h.marked a ha)
  waiting k hk := by
    rcases h.waiting k hk with hk' | hk'
    · rw [← h.refs]
      exact h'.waiting k hk'
    · exact .inr fun a ha => h'.marked a (hk' a ha)
  settled b hb hb'' := by
    by_cases hb' : c'.white b
    · rw [← h.refs]
      exact h'.settled b hb' hb''
    · rcases h.settled b hb hb' with hw | hw
      · rw [← h.refs]
        exact h'.waiting b hw
      · exact .inr fun a ha => h'.marked a (hw a ha)

/-- What leads to an object is found, or still leads to it. -/
theorem Advances.greyProtected {c c' : Colouring α} (h : Advances c c') {a : α}
    (ha : c.GreyProtected a) : c'.Accounted a := by
  induction ha with
  | held hk href =>
    rcases h.waiting _ hk with hk' | hk'
    · right
      exact .held hk' (h.refs ▸ href)
    · exact .inl (hk' _ href)
  | @through b a hb hwhite href ih =>
    by_cases hb' : c'.white b
    · rcases ih with hn | hp
      · exact absurd hb' hn
      · right
        exact .through hp hb' (h.refs ▸ href)
    · rcases h.settled b hwhite hb' with hw | hw
      · right
        exact .held hw (h.refs ▸ href)
      · exact .inl (hw _ href)

theorem Advances.accounted {c c' : Colouring α} (h : Advances c c') {a : α}
    (ha : c.Accounted a) : c'.Accounted a := by
  rcases ha with hn | hp
  · exact .inl (h.marked a hn)
  · exact h.greyProtected hp

/-- With an empty worklist every accounted object has been found. -/
theorem Accounted.found {c : Colouring α} {a : α} (ha : c.Accounted a)
    (hdone : ∀ k, ¬ c.waiting k) : ¬ c.white a := by
  have hnone : ∀ b, ¬ c.GreyProtected b := by
    intro b hb
    induction hb with
    | held hk _ => exact hdone _ hk
    | through _ _ _ ih => exact ih
  rcases ha with hn | hp
  · exact hn
  · exact absurd hp (hnone a)

/-- Whitening objects and adding to the worklist breaks no chain. -/
theorem GreyProtected.mono {c c' : Colouring α} {a : α} (ha : c.GreyProtected a)
    (hrefs : c'.refs = c.refs) (hwhite : ∀ b, c.white b → c'.white b)
    (hwait : ∀ k, c.waiting k → c'.waiting k) : c'.GreyProtected a := by
  induction ha with
  | held hk href => exact .held (hwait _ hk) (hrefs ▸ href)
  | through _ hb href ih => exact .through ih (hwhite _ hb) (hrefs ▸ href)

theorem Accounted.mono {c c' : Colouring α} {a : α} (ha : c.Accounted a)
    (hrefs : c'.refs = c.refs) (hwhite : c'.white = c.white)
    (hwait : ∀ k, c.waiting k → c'.waiting k) : c'.Accounted a := by
  rcases ha with hn | hp
  · exact .inl (hwhite ▸ hn)
  · exact .inr (hp.mono hrefs (fun _ hb => hwhite ▸ hb) hwait)

/-- The object taken from the worklist has all that it refers to marked before the next is taken. -/
theorem Advances.of_traversed {c d c' : Colouring α} {o : α} (hrefs : d.refs = c.refs)
    (hwhite : d.white = c.white) (hwait : ∀ k, c.waiting k → k = o ∨ d.waiting k)
    (h : Advances d c') (ho : ∀ a, c.refs o a → ¬ c'.white a) : Advances c c' where
  refs := h.refs.trans hrefs
  marked a ha := h.marked a (hwhite ▸ ha)
  waiting k hk := by
    rcases hwait k hk with rfl | hk'
    · exact .inr ho
    · rw [← hrefs]
      exact h.waiting k hk'
  settled b hb hb' := by
    rw [← hrefs]
    exact h.settled b (hwhite ▸ hb) hb'

/-- An object is marked: it joins the worklist, or all that it refers to is marked with it. -/
theorem Advances.of_marked {c d c' : Colouring α} {o : α} (hrefs : d.refs = c.refs)
    (hwhite : ∀ a, d.white a ↔ c.white a ∧ a ≠ o) (hwait : ∀ k, c.waiting k → d.waiting k)
    (h : Advances d c') (ho : c'.waiting o ∨ ∀ a, c.refs o a → ¬ c'.white a) :
    Advances c c' where
  refs := h.refs.trans hrefs
  marked a ha := h.marked a fun hw => ha ((hwhite a).mp hw).1
  waiting k hk := by
    rw [← hrefs]
    exact h.waiting k (hwait k hk)
  settled b hb hb' := by
    by_cases hbo : b = o
    · subst hbo
      exact ho
    · rw [← hrefs]
      exact h.settled b ((hwhite b).mpr ⟨hb, hbo⟩) hb'

/-- A second worklist that only grows may be counted in. -/
theorem Advances.with_waiting {c c' : Colouring α} (h : Advances c c') {more more' : α → Prop}
    (hmore : ∀ k, more k → more' k) :
    Advances { c with waiting := fun k => c.waiting k ∨ more k }
      { c' with waiting := fun k => c'.waiting k ∨ more' k } where
  refs := h.refs
  marked := h.marked
  waiting k hk := by
    rcases hk with hk | hk
    · exact (h.waiting k hk).imp .inl id
    · exact .inl (.inr (hmore k hk))
  settled b hb hb' := (h.settled b hb hb').imp .inl id

end Colouring
