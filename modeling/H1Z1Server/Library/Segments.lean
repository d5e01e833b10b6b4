import Mathlib.Logic.Equiv.Basic
import Mathlib.Tactic

/-! Segments of a row of cells: permutations of the cells of one, and how sorted segments join. -/
namespace Segments
variable {α : Type} {a b c : ℤ → α} {l u l' u' i j : ℤ}

/-- The cells from `l` to `u` are permuted, and no others. -/
def Permutes (l u : ℤ) (a b : ℤ → α) : Prop :=
  ∃ σ : Equiv.Perm ℤ, (∀ k, k < l ∨ u < k → σ k = k) ∧ b = a ∘ σ

@[refl] theorem Permutes.refl (l u : ℤ) (a : ℤ → α) : Permutes l u a a := ⟨1, fun _ _ => rfl, rfl⟩

theorem Permutes.trans (h : Permutes l u a b) (h' : Permutes l u b c) : Permutes l u a c := by
  obtain ⟨σ, hσ, rfl⟩ := h
  obtain ⟨τ, hτ, rfl⟩ := h'
  refine ⟨τ.trans σ, ?_, rfl⟩
  intro k hk
  simp [hτ k hk, hσ k hk]

theorem Permutes.mono (h : Permutes l u a b) (hl : l' ≤ l) (hu : u ≤ u') : Permutes l' u' a b := by
  obtain ⟨σ, hσ, rfl⟩ := h
  refine ⟨σ, ?_, rfl⟩
  intro k hk
  apply hσ
  omega

/-- The writes that swap two cells. -/
def swap (a : ℤ → α) (i j : ℤ) : ℤ → α := Function.update (Function.update a i (a j)) j (a i)

theorem swap_of_ne {k : ℤ} (hi : k ≠ i) (hj : k ≠ j) : swap a i j k = a k := by simp [swap, hi, hj]

@[simp] theorem swap_right : swap a i j j = a i := by simp [swap]

@[simp] theorem swap_left : swap a i j i = a j := by
  by_cases hij : i = j
  · simp [hij]
  · simp [swap, hij]

theorem permutes_swap (hi : l ≤ i) (hiu : i ≤ u) (hj : l ≤ j) (hju : j ≤ u) : Permutes l u a (swap a i j) := by
  refine ⟨Equiv.swap i j, ?_, ?_⟩
  · intro k hk
    apply Equiv.swap_apply_of_ne_of_ne <;> omega
  · funext k
    by_cases hkj : k = j
    · simp [hkj]
    by_cases hki : k = i
    · simp [hki]
    · simp [swap_of_ne hki hkj, Equiv.swap_apply_of_ne_of_ne hki hkj]

theorem Permutes.outside (h : Permutes l u a b) {k : ℤ} (hk : k < l ∨ u < k) : b k = a k := by
  obtain ⟨σ, hσ, rfl⟩ := h
  simp [hσ k hk]

/-- What leaves all other cells in place leaves the cells of a segment in it. -/
theorem image_mem {σ : Equiv.Perm ℤ} (hσ : ∀ k, k < l ∨ u < k → σ k = k) {k : ℤ} (hl : l ≤ k) (hu : k ≤ u) :
    l ≤ σ k ∧ σ k ≤ u := by
  by_contra hout
  have hfix : σ (σ k) = σ k := hσ (σ k) (by omega)
  have hk := σ.injective hfix
  omega

/-- What holds of all cells of a segment does so after a permutation of cells in it. -/
theorem Permutes.forall_mem (h : Permutes l u a b) (hl : l' ≤ l) (hu : u ≤ u') {P : α → Prop}
    (ha : ∀ k, l' ≤ k → k ≤ u' → P (a k)) : ∀ k, l' ≤ k → k ≤ u' → P (b k) := by
  intro k hk hku
  obtain ⟨σ, hσ, rfl⟩ := h.mono hl hu
  obtain ⟨hlo, hhi⟩ := image_mem hσ hk hku
  exact ha (σ k) hlo hhi

/-- A strict order of values for which being in no order is transitive. -/
structure WeakOrder (D : α → Prop) (r : α → α → Bool) : Prop where
  asymm : ∀ x y, D x → D y → r x y = true → r y x = false
  trans : ∀ x y z, D x → D y → D z → r x y = false → r y z = false → r x z = false

theorem WeakOrder.irrefl {D : α → Prop} {r : α → α → Bool} (h : WeakOrder D r) {x : α} (hx : D x) :
    r x x = false := by
  cases hr : r x x with
  | false => rfl
  | true => exact hr ▸ h.asymm x x hx hx hr

/-- No cell is before one in front of it. -/
def Sorted (r : α → α → Bool) (l u : ℤ) (a : ℤ → α) : Prop :=
  ∀ j k, l ≤ j → j < k → k ≤ u → r (a k) (a j) = false

variable {r : α → α → Bool} {D : α → Prop}

theorem sorted_of_le (h : u ≤ l) : Sorted r l u a := fun _ _ _ _ _ => by omega

theorem Sorted.congr (h : Sorted r l u a) (hab : ∀ k, l ≤ k → k ≤ u → b k = a k) : Sorted r l u b := by
  intro j k hj hjk hk
  rw [hab j hj (by omega), hab k (by omega) hk]
  exact h j k hj hjk hk

/-- The cells around `i` are on its right sides. -/
structure Splits (r : α → α → Bool) (l i u : ℤ) (a : ℤ → α) : Prop where
  below : ∀ k, l ≤ k → k < i → r (a i) (a k) = false
  above : ∀ k, i < k → k ≤ u → r (a k) (a i) = false

/-- A split stays one when what is on the left is permuted. -/
theorem Splits.permute_left (h : Splits r l i u a) (hp : Permutes l (i - 1) a b) : Splits r l i u b := by
  have hi : b i = a i := hp.outside (by omega)
  constructor
  · intro k hk hki
    rw [hi]
    exact hp.forall_mem le_rfl le_rfl (P := fun x => r (a i) x = false)
      (fun k hk hki => h.below k hk (by omega)) k hk (by omega)
  · intro k hik hk
    rw [hi, hp.outside (by omega)]
    exact h.above k hik hk

theorem Splits.permute_right (h : Splits r l i u a) (hp : Permutes (i + 1) u a b) : Splits r l i u b := by
  have hi : b i = a i := hp.outside (by omega)
  constructor
  · intro k hk hki
    rw [hi, hp.outside (by omega)]
    exact h.below k hk hki
  · intro k hik hk
    rw [hi]
    exact hp.forall_mem le_rfl le_rfl (P := fun x => r x (a i) = false)
      (fun k hk hku => h.above k (by omega) hku) k (by omega) hk

/-- Both sides of a split are sorted, and so is the whole. -/
theorem Splits.sorted (h : Splits r l i u a) (hr : WeakOrder D r) (hD : ∀ k, l ≤ k → k ≤ u → D (a k))
    (hl : l ≤ i) (hu : i ≤ u) (hleft : Sorted r l (i - 1) a) (hright : Sorted r (i + 1) u a) : Sorted r l u a := by
  intro j k hj hjk hk
  rcases lt_trichotomy k i with hki | rfl | hik
  · exact hleft j k hj hjk (by omega)
  · exact h.below j hj hjk
  rcases lt_trichotomy j i with hji | rfl | hij
  · exact hr.trans _ (a i) _ (hD k (by omega) hk) (hD i hl hu) (hD j hj (by omega)) (h.above k hik hk)
      (h.below j hj hji)
  · exact h.above k hik hk
  · exact hright j k (by omega) hjk hk

/-- The side on the left is sorted first. -/
theorem Splits.left_right (h : Splits r l i u a) (hr : WeakOrder D r) (hD : ∀ k, l ≤ k → k ≤ u → D (a k))
    (hl : l ≤ i) (hu : i ≤ u) (hab : Permutes l (i - 1) a b) (hleft : Sorted r l (i - 1) b)
    (hbc : Permutes (i + 1) u b c) (hright : Sorted r (i + 1) u c) : Permutes l u a c ∧ Sorted r l u c := by
  have hac : Permutes l u a c := (hab.mono le_rfl (by omega)).trans (hbc.mono (by omega) le_rfl)
  have hkept : Sorted r l (i - 1) c := hleft.congr fun k _ hk => hbc.outside (by omega)
  exact ⟨hac, ((h.permute_left hab).permute_right hbc).sorted hr (hac.forall_mem le_rfl le_rfl hD) hl hu hkept hright⟩

/-- The side on the right is sorted first. -/
theorem Splits.right_left (h : Splits r l i u a) (hr : WeakOrder D r) (hD : ∀ k, l ≤ k → k ≤ u → D (a k))
    (hl : l ≤ i) (hu : i ≤ u) (hab : Permutes (i + 1) u a b) (hright : Sorted r (i + 1) u b)
    (hbc : Permutes l (i - 1) b c) (hleft : Sorted r l (i - 1) c) : Permutes l u a c ∧ Sorted r l u c := by
  have hac : Permutes l u a c := (hab.mono (by omega) le_rfl).trans (hbc.mono le_rfl (by omega))
  have hkept : Sorted r (i + 1) u c := hright.congr fun k hk _ => hbc.outside (by omega)
  exact ⟨hac, ((h.permute_right hab).permute_left hbc).sorted hr (hac.forall_mem le_rfl le_rfl hD) hl hu hleft hkept⟩

end Segments
