import H1Z1Server.Lua.Rearranging

/-! Sorts whose order function is an order. -/
namespace H1Z1Server.LuaSort
open Outcome Segments

variable {S V : Type}

namespace Ground.Represents
variable {g : Ground S V} {R : (ℤ → V) → S → Prop} {lo hi l u i j m : ℤ} {a : ℤ → V} {s : S} {P : V} {D : V → Prop}
  {r : V → V → Bool}

theorem scanUp_spec (h : g.Represents R lo hi) (hf : g.Follows R D r) (hR : R a s) (hl : lo ≤ i + 1) (him : i < m)
    (hmu : m ≤ u) (hm : m ≤ hi) (hP : D P) (hD : ∀ k, i < k → k ≤ m → D (a k)) (hstop : r (a m) P = false) :
    Ends ((g.scanUp P u i).run s) (fun p s' => p.1.1 ≤ m ∧ p.2 = a p.1 ∧ r (a p.1) P = false ∧
      (∀ k, i < k → k < p.1.1 → r (a k) P = true) ∧ R a s') fun _ _ => False := by
  induction hn : (m - i).toNat using Nat.strong_induction_on generalizing i s with
  | _ n ih =>
    rw [scanUp]
    apply Ends.after (h.rawgeti a s (i + 1) hR (by omega) (by omega))
    rintro ai s₁ ⟨rfl, hR₁⟩
    apply Ends.after (hf a s₁ (a (i + 1)) P hR₁ (hD (i + 1) (by omega) (by omega)) hP)
    rintro b s₂ ⟨hb, hR₂⟩
    apply ends_ite
    · intro hless
      have hbefore : r (a (i + 1)) P = true := hb ▸ hless
      have hnext : i + 1 ≠ m := by
        rintro rfl
        simp [hstop] at hbefore
      apply ends_ite
      · exact fun hlt => by omega
      intro hle
      apply Ends.after (ih (m - (i + 1)).toNat (by omega) hR₂ (by omega) (by omega)
        (fun k hk => hD k (by omega)) rfl)
      rintro ⟨k, ak⟩ s₃ ⟨hkm, hak, hk, hall, hR₃⟩
      refine ⟨hkm, hak, hk, ?_, hR₃⟩
      intro k' hik' hk'
      by_cases heq : k' = i + 1
      · exact heq ▸ hbefore
      · exact hall k' (by omega) hk'
    · intro hless
      refine ⟨by dsimp only; omega, rfl, ?_, fun k hk hki => ?_, hR₂⟩
      · simpa [← hb] using hless
      · dsimp only at hki
        omega

theorem scanDown_spec (h : g.Represents R lo hi) (hf : g.Follows R D r) (hR : R a s) (hj : j - 1 ≤ hi) (hmj : m < j)
    (hlm : l ≤ m) (hm : lo ≤ m) (hP : D P) (hD : ∀ k, m ≤ k → k < j → D (a k)) (hstop : r P (a m) = false) :
    Ends ((g.scanDown P l j).run s) (fun p s' => m ≤ p.1.1 ∧ p.2 = a p.1 ∧ r P (a p.1) = false ∧
      (∀ k, p.1.1 < k → k < j → r P (a k) = true) ∧ R a s') fun _ _ => False := by
  induction hn : (j - m).toNat using Nat.strong_induction_on generalizing j s with
  | _ n ih =>
    rw [scanDown]
    apply Ends.after (h.rawgeti a s (j - 1) hR (by omega) hj)
    rintro aj s₁ ⟨rfl, hR₁⟩
    apply Ends.after (hf a s₁ P (a (j - 1)) hR₁ hP (hD (j - 1) (by omega) (by omega)))
    rintro b s₂ ⟨hb, hR₂⟩
    apply ends_ite
    · intro hless
      have hbefore : r P (a (j - 1)) = true := hb ▸ hless
      have hnext : j - 1 ≠ m := by
        intro heq
        simp [heq, hstop] at hbefore
      apply ends_ite
      · exact fun hlt => by omega
      intro hle
      apply Ends.after (ih (j - 1 - m).toNat (by omega) hR₂ (by omega) (by omega)
        (fun k hk hkj => hD k hk (by omega)) rfl)
      rintro ⟨k, ak⟩ s₃ ⟨hkm, hak, hk, hall, hR₃⟩
      refine ⟨hkm, hak, hk, ?_, hR₃⟩
      intro k' hkk' hk'
      by_cases heq : k' = j - 1
      · exact heq ▸ hbefore
      · exact hall k' hkk' (by omega)
    · intro hless
      refine ⟨by dsimp only; omega, rfl, ?_, fun k hk hkj => ?_, hR₂⟩
      · simpa [← hb] using hless
      · dsimp only at hk
        omega

/-- What holds between two rounds of the loop: what has been scanned is on its side of the pivot, which is
in the last place but one. -/
structure Scanned (D : V → Prop) (r : V → V → Bool) (P : V) (l u i j : ℤ) (a : ℤ → V) : Prop where
  li : l ≤ i
  iu : i < u - 1
  lj : l < j
  ju : j ≤ u - 1
  pivot : a (u - 1) = P
  known : ∀ k, l ≤ k → k ≤ u → D (a k)
  below : ∀ k, l ≤ k → k ≤ i → r P (a k) = false
  above : ∀ k, j ≤ k → k ≤ u → r (a k) P = false

/-- A swap of two values that are on the wrong sides. -/
theorem Scanned.swap {i' j' : ℤ} (hs : Scanned D r P l u i j a) (hr : WeakOrder D r) (hi : i < i') (hij : i' ≤ j')
    (hj : j' < j) (hi' : r (a i') P = false) (hj' : r P (a j') = false)
    (hbelow : ∀ k, i < k → k < i' → r (a k) P = true) (habove : ∀ k, j' < k → k < j → r P (a k) = true) :
    Scanned D r P l u i' j' (swap a i' j') := by
  have hli := hs.li
  have hju := hs.ju
  have hperm : Permutes l u a (Segments.swap a i' j') :=
    permutes_swap (by omega) (by omega) (by omega) (by omega)
  have hP : D P := hs.pivot ▸ hs.known (u - 1) (by omega) (by omega)
  refine ⟨by omega, by omega, by omega, by omega, ?_, hperm.forall_mem le_rfl le_rfl hs.known, ?_, ?_⟩
  · rw [swap_of_ne (by omega) (by omega), hs.pivot]
  · intro k hk hki
    by_cases heq : k = i'
    · rw [heq, swap_left]
      exact hj'
    rw [swap_of_ne heq (by omega)]
    by_cases hle : k ≤ i
    · exact hs.below k hk hle
    · exact hr.asymm _ _ (hs.known k hk (by omega)) hP (hbelow k (by omega) (by omega))
  · intro k hk hku
    by_cases heq : k = j'
    · rw [heq, swap_right]
      exact hi'
    rw [swap_of_ne (by omega) heq]
    by_cases hle : j ≤ k
    · exact hs.above k hle hku
    · exact hr.asymm _ _ hP (hs.known k (by omega) hku) (habove k (by omega) (by omega))

/-- The cells are on their sides of the pivot when the loop ends. -/
theorem partition_spec (h : g.Represents R lo hi) (hf : g.Follows R D r) (hr : WeakOrder D r) (hR : R a s)
    (hl : lo ≤ l) (hu : u ≤ hi) (hs : Scanned D r P l u i j a) : Ends ((g.partition P l u i j).run s)
      (fun k s' => l < k ∧ k ≤ u - 1 ∧ ∃ b, Permutes l (u - 2) a b ∧ R b s' ∧
        (∀ m, l ≤ m → m < k → r P (b m) = false) ∧ ∀ m, k ≤ m → m ≤ u → r (b m) P = false) fun _ _ => False := by
  induction hn : (j - i).toNat using Nat.strong_induction_on generalizing a i j s with
  | _ n ih =>
    obtain ⟨hli, hiu, hlj, hju, hpivot, hknown, hbelow, habove⟩ := hs
    have hP : D P := hpivot ▸ hknown (u - 1) (by omega) (by omega)
    rw [partition]
    apply Ends.after (h.scanUp_spec hf hR (by omega) hiu (by omega) (by omega) hP
      (fun k hk hku => hknown k (by omega) (by omega)) (hpivot.symm ▸ hr.irrefl hP))
    rintro ⟨⟨i', hi'⟩, ai⟩ s₁ ⟨hiu', hai, hstop, hup, hR₁⟩
    apply Ends.after (h.scanDown_spec hf hR₁ (by omega) hlj le_rfl hl hP
      (fun k hk hkj => hknown k hk (by omega)) (hbelow l le_rfl hli))
    rintro ⟨⟨j', hj'⟩, aj⟩ s₂ ⟨hlj', haj, hstop', hdown, hR₂⟩
    dsimp only at hiu' hlj' hai haj hstop hstop' hup hdown ⊢
    subst hai haj
    apply ends_ite
    · intro hlt
      refine ⟨by omega, hiu', a, .refl l _ a, hR₂, ?_, ?_⟩
      · intro k hk hki
        by_cases hle : k ≤ i
        · exact hbelow k hk hle
        · exact hr.asymm _ _ (hknown k hk (by omega)) hP (hup k (by omega) hki)
      · intro k hk hku
        by_cases hle : j ≤ k
        · exact habove k hle hku
        · exact hr.asymm _ _ hP (hknown k (by omega) hku) (hdown k (by omega) (by omega))
    intro hle
    apply Ends.after (h.set2_spec hR₂ (by omega) (by omega))
    intro _ s₃ hR₃
    have hscanned : Scanned D r P l u i j a := ⟨hli, hiu, hlj, hju, hpivot, hknown, hbelow, habove⟩
    have hswap : Permutes l (u - 2) a (swap a i' j') := permutes_swap (by omega) (by omega) (by omega) (by omega)
    apply (ih (j' - i').toNat (by omega) hR₃
      (hscanned.swap hr hi' (by omega) hj' hstop hstop' hup hdown) rfl).mono_ok
    rintro k s₄ ⟨hlk, hku, b, hb, hR₄, hsides⟩
    exact ⟨hlk, hku, b, hswap.trans hb, hR₄, hsides⟩

theorem setIfLess_spec (h : g.Represents R lo hi) (hf : g.Follows R D r) (hR : R a s) (hli : lo ≤ i ∧ i ≤ hi)
    (hlj : lo ≤ j ∧ j ≤ hi) {x y : V} (hx : D x) (hy : D y) {otherwise : EStateM Halt S Unit} {Q : S → Prop}
    (hthen : r x y = true → ∀ s', R (swap a i j) s' → Q s')
    (hother : r x y = false → ∀ s', R a s' → Ends (otherwise.run s') (fun _ => Q) fun _ _ => False) :
    Ends ((g.setIfLess x y i j (a j) (a i) otherwise).run s) (fun _ => Q) fun _ _ => False := by
  unfold setIfLess
  apply Ends.after (hf a s x y hR hx hy)
  rintro b s' ⟨hb, hR'⟩
  apply ends_ite
  · intro hless
    exact (h.set2_spec hR' hli hlj).mono_ok fun _ => hthen (hb ▸ hless)
  · intro hless
    exact hother (by simpa [← hb] using hless) s' hR'

/-- Two elements are sorted; of more, three are in order. -/
def Arranged (r : V → V → Bool) (l u : ℤ) (a : ℤ → V) : Option ℤ → Prop
  | none => Sorted r l u a
  | some i => l < i ∧ i < u ∧ r (a i) (a l) = false ∧ r (a u) (a i) = false

/-- The second half of `sortThree`: what is in the middle is put in order. -/
theorem sortMiddle_spec (h : g.Represents R lo hi) (hf : g.Follows R D r) (hr : WeakOrder D r) (hR : R a s)
    (hl : lo ≤ l) (hu : u ≤ hi) (hli : l < i) (hiu : i < u) (hD : ∀ k, l ≤ k → k ≤ u → D (a k))
    (hends : r (a u) (a l) = false) : Ends ((g.setIfLess (a i) (a l) i l (a l) (a i) do
      let au ← g.rawgeti u
      g.setIfLess au (a i) i u au (a i) (pure ())).run s)
      (fun _ s' => ∃ b, Permutes l u a b ∧ R b s' ∧ Arranged r l u b (some i)) fun _ _ => False := by
  have hDl := hD l le_rfl (by omega)
  have hDi := hD i hli.le hiu.le
  have hDu := hD u (by omega) le_rfl
  apply h.setIfLess_spec hf hR (by omega) (by omega) hDi hDl
  · intro hless s' hR'
    refine ⟨_, permutes_swap hli.le hiu.le le_rfl (by omega), hR', hli, hiu, ?_, ?_⟩
    · rw [swap_left, swap_right]
      exact hr.asymm _ _ hDi hDl hless
    · rwa [swap_left, swap_of_ne (by omega) (by omega)]
  intro hil s₁ hR₁
  apply Ends.after (h.rawgeti a s₁ u hR₁ (by omega) hu)
  rintro au s₂ ⟨rfl, hR₂⟩
  apply h.setIfLess_spec hf hR₂ (by omega) (by omega) hDu hDi
  · intro hless s' hR'
    refine ⟨_, permutes_swap hli.le hiu.le (by omega) le_rfl, hR', hli, hiu, ?_, ?_⟩
    · rwa [swap_left, swap_of_ne (by omega) (by omega)]
    · rw [swap_left, swap_right]
      exact hr.asymm _ _ hDu hDi hless
  · exact fun hui s' hR' => ⟨a, .refl l u a, hR', hli, hiu, hil, hui⟩

theorem sortThree_spec (h : g.Represents R lo hi) (hf : g.Follows R D r) (hr : WeakOrder D r) (hR : R a s)
    (hl : lo ≤ l) (hu : u ≤ hi) (hlu : l < u) (hsmall : l + u < 2 ^ 31) (hD : ∀ k, l ≤ k → k ≤ u → D (a k)) :
    Ends ((g.sortThree l u).run s) (fun i s' => ∃ b, Permutes l u a b ∧ R b s' ∧ Arranged r l u b i)
      fun _ _ => False := by
  have hDl := hD l le_rfl hlu.le
  have hDu := hD u hlu.le le_rfl
  unfold sortThree
  apply Ends.after (h.rawgeti a s l hR (by omega) (by omega))
  rintro al s₁ ⟨rfl, hR₁⟩
  apply Ends.after (h.rawgeti a s₁ u hR₁ (by omega) hu)
  rintro au s₂ ⟨rfl, hR₂⟩
  have hends : Ends ((g.setIfLess (a u) (a l) l u (a u) (a l) (pure ())).run s₂)
      (fun _ s' => ∃ b, Permutes l u a b ∧ R b s' ∧ r (b u) (b l) = false) fun _ _ => False := by
    apply h.setIfLess_spec hf hR₂ (by omega) (by omega) hDu hDl
    · intro hless s' hR'
      refine ⟨_, permutes_swap le_rfl hlu.le hlu.le le_rfl, hR', ?_⟩
      rw [swap_left, swap_right]
      exact hr.asymm _ _ hDu hDl hless
    · exact fun hless s' hR' => ⟨a, .refl l u a, hR', hless⟩
  apply Ends.after hends
  rintro _ s₃ ⟨b, hab, hR₃, hub⟩
  apply ends_ite
  · intro htwo
    refine ⟨b, hab, hR₃, ?_⟩
    intro j k hj hjk hk
    rw [show j = l by omega, show k = u by omega]
    exact hub
  intro hmore
  apply ends_ite
  · exact fun hlarge => by omega
  intro _
  apply Ends.after (h.rawgeti b s₃ ((l + u) / 2) hR₃ (by omega) (by omega))
  rintro ai s₄ ⟨rfl, hR₄⟩
  apply Ends.after (h.rawgeti b s₄ l hR₄ (by omega) (by omega))
  rintro al s₅ ⟨rfl, hR₅⟩
  apply Ends.after (h.sortMiddle_spec hf hr hR₅ hl hu (by omega) (by omega) (hab.forall_mem le_rfl le_rfl hD) hub)
  rintro _ s₆ ⟨c, hbc, hR₆, harranged⟩
  exact ⟨c, hab.trans hbc, hR₆, harranged⟩

theorem split_spec (h : g.Represents R lo hi) (hf : g.Follows R D r) (hr : WeakOrder D r) (hR : R a s)
    (hl : lo ≤ l) (hu : u ≤ hi) (hlu : 3 ≤ u - l) (hD : ∀ k, l ≤ k → k ≤ u → D (a k))
    (harranged : Arranged r l u a (some i)) : Ends ((g.split l u i).run s)
      (fun k s' => l < k ∧ k < u ∧ ∃ b, Permutes l u a b ∧ R b s' ∧ Splits r l k u b) fun _ _ => False := by
  obtain ⟨hli, hiu, hil, hui⟩ := harranged
  unfold split
  apply Ends.after (h.rawgeti a s i hR (by omega) (by omega))
  rintro P s₁ ⟨rfl, hR₁⟩
  apply Ends.after (h.rawgeti a s₁ (u - 1) hR₁ (by omega) (by omega))
  rintro x s₂ ⟨rfl, hR₂⟩
  apply Ends.after (h.set2_spec hR₂ (by omega) (by omega))
  intro _ s₃ hR₃
  have hswap : Permutes l u a (swap a i (u - 1)) := permutes_swap (by omega) (by omega) (by omega) (by omega)
  have hirrefl := hr.irrefl (hD i (by omega) (by omega))
  have hscanned : Scanned D r (a i) l u l (u - 1) (swap a i (u - 1)) := by
    refine ⟨le_rfl, by omega, by omega, le_rfl, swap_right, hswap.forall_mem le_rfl le_rfl hD, ?_, ?_⟩
    · intro k hk hkl
      rw [show k = l by omega, swap_of_ne (by omega) (by omega)]
      exact hil
    · intro k hk hku
      by_cases heq : k = u - 1
      · rw [heq, swap_right]
        exact hirrefl
      · rw [show k = u by omega, swap_of_ne (by omega) (by omega)]
        exact hui
  apply Ends.after (h.partition_spec hf hr hR₃ hl hu hscanned)
  rintro k s₄ ⟨hlk, hku, b, hb, hR₄, hbelow, habove⟩
  have hac : Permutes l u a b := hswap.trans (hb.mono le_rfl (by omega))
  have hpivot : b (u - 1) = a i := (hb.outside (by omega)).trans swap_right
  apply Ends.after (h.rawgeti b s₄ (u - 1) hR₄ (by omega) (by omega))
  rintro x s₅ ⟨rfl, hR₅⟩
  apply Ends.after (h.rawgeti b s₅ k hR₅ (by omega) (by omega))
  rintro y s₆ ⟨rfl, hR₆⟩
  apply Ends.after (h.set2_spec hR₆ (by omega) (by omega))
  intro _ s₇ hR₇
  refine ⟨hlk, by omega, _, hac.trans (permutes_swap (by omega) (by omega) (by omega) (by omega)), hR₇, ?_, ?_⟩
  · intro m hm hmk
    rw [swap_right, swap_of_ne (by omega) (by omega), hpivot]
    exact hbelow m hm hmk
  · intro m hkm hm
    rw [swap_right, hpivot]
    by_cases heq : m = u - 1
    · rw [heq, swap_left]
      exact habove k le_rfl (by omega)
    · rw [swap_of_ne heq (by omega)]
      exact habove m hkm.le hm

/-- A round sorts a few elements, or leaves two parts around an element that is in its place. -/
theorem round_spec (h : g.Represents R lo hi) (hf : g.Follows R D r) (hr : WeakOrder D r) (hR : R a s)
    (hl : lo ≤ l) (hu : u ≤ hi) (hlu : l < u) (hsmall : l + u < 2 ^ 31) (hD : ∀ k, l ≤ k → k ≤ u → D (a k)) :
    Ends ((g.round l u).run s) (fun parts s' => ∃ b, Permutes l u a b ∧ R b s' ∧
      (parts = none → Sorted r l u b) ∧ ∀ p ∈ parts, ∃ k, l < k ∧ k < u ∧ Splits r l k u b ∧
        (p = ((l, k - 1), (k + 1, u)) ∨ p = ((k + 1, u), (l, k - 1)))) fun _ _ => False := by
  unfold round
  apply Ends.after (h.sortThree_spec hf hr hR hl hu hlu hsmall hD)
  rintro (_ | i) s₁ ⟨b, hab, hR₁, harranged⟩
  · exact ⟨b, hab, hR₁, fun _ => harranged, nofun⟩
  have hDb := hab.forall_mem le_rfl le_rfl hD
  dsimp only
  apply ends_ite
  · intro hthree
    refine ⟨b, hab, hR₁, ?_, nofun⟩
    obtain ⟨hli, hiu, hil, hui⟩ := harranged
    have hsplits : Splits r l i u b := by
      refine ⟨fun k hk hki => ?_, fun k hik hk => ?_⟩
      · rwa [show k = l by omega]
      · rwa [show k = u by omega]
    exact fun _ => hsplits.sorted hr hDb hli.le hiu.le (sorted_of_le (by omega)) (sorted_of_le (by omega))
  intro hmore
  have hwide : 3 ≤ u - l := by
    obtain ⟨hli, hiu, -⟩ := harranged
    omega
  apply Ends.after (h.split_spec hf hr hR₁ hl hu hwide hDb harranged)
  rintro k s₂ ⟨hlk, hku, c, hbc, hR₂, hsplits⟩
  apply ends_ite
  · intro _
    refine ⟨c, hab.trans hbc, hR₂, nofun, ?_⟩
    rintro _ ⟨⟩
    exact ⟨k, hlk, hku, hsplits, .inl rfl⟩
  · intro _
    refine ⟨c, hab.trans hbc, hR₂, nofun, ?_⟩
    rintro _ ⟨⟩
    exact ⟨k, hlk, hku, hsplits, .inr rfl⟩

/-- With an order, a sort comes to its end and leaves the cells sorted, and no other cell is read or written. -/
theorem auxsort_spec (h : g.Represents R lo hi) (hf : g.Follows R D r) (hr : WeakOrder D r) {fuel depth : ℕ}
    (hfuel : u - l < fuel) (hpos : 0 < fuel) (hdepth : u - l + 1 < 2 ^ (depth + 1)) (hR : R a s) (hl : lo ≤ l)
    (hu : u ≤ hi) (hsmall : u < 2 ^ 30) (hD : ∀ k, l ≤ k → k ≤ u → D (a k)) :
    Ends ((g.auxsort fuel depth l u).run s) (fun _ s' => ∃ b, Permutes l u a b ∧ R b s' ∧ Sorted r l u b)
      fun _ _ => False := by
  induction fuel generalizing depth a s l u with
  | zero => omega
  | succ fuel ih =>
    rw [auxsort]
    apply ends_ite
    case hy => exact fun hle => ⟨a, .refl l u a, hR, sorted_of_le (by omega)⟩
    intro hlu
    apply Ends.after (((g.round_halves l u s hlu).and (h.round_spec hf hr hR hl hu hlu (by omega) hD)).mono
      (fun _ _ hp => hp) fun _ _ hs => hs.2)
    rintro (_ | ⟨smaller, larger⟩) s₁ ⟨hhalves, b, hab, hR₁, hsorted, hparts⟩
    · exact ⟨b, hab, hR₁, hsorted rfl⟩
    obtain ⟨hsmaller, -⟩ := (show Halves l u smaller larger from hhalves _ rfl).sizes
    cases depth with
    | zero => omega
    | succ depth =>
      have hpow : (2 : ℤ) ^ (depth + 1 + 1) = 2 * 2 ^ (depth + 1) := pow_succ' 2 (depth + 1)
      have hDb := hab.forall_mem le_rfl le_rfl hD
      obtain ⟨k, hlk, hku, hsplits, hcase⟩ := hparts _ rfl
      -- the smaller half comes first, on whichever side it is
      rcases hcase with hcase | hcase
      · cases hcase
        dsimp only at hsmaller ⊢
        apply Ends.after (ih (by omega) (by omega) (by omega) hR₁ hl (by omega) (by omega)
          fun m hm hmk => hDb m hm (by omega))
        rintro _ s₂ ⟨c, hbc, hR₂, hleft⟩
        have hDc := hbc.forall_mem le_rfl (by omega) hDb
        apply (ih (by omega) (by omega) (by omega) hR₂ (by omega) hu hsmall
          fun m hm hmu => hDc m (by omega) hmu).mono_ok
        rintro _ s₃ ⟨d, hcd, hR₃, hright⟩
        obtain ⟨hbd, hd⟩ := hsplits.left_right hr hDb hlk.le hku.le hbc hleft hcd hright
        exact ⟨d, hab.trans hbd, hR₃, hd⟩
      · cases hcase
        dsimp only at hsmaller ⊢
        apply Ends.after (ih (by omega) (by omega) (by omega) hR₁ (by omega) hu hsmall
          fun m hm hmu => hDb m (by omega) hmu)
        rintro _ s₂ ⟨c, hbc, hR₂, hright⟩
        have hDc := hbc.forall_mem (by omega) le_rfl hDb
        apply (ih (by omega) (by omega) (by omega) hR₂ hl (by omega) (by omega)
          fun m hm hmk => hDc m hm (by omega)).mono_ok
        rintro _ s₃ ⟨d, hcd, hR₃, hleft⟩
        obtain ⟨hbd, hd⟩ := hsplits.right_left hr hDb hlk.le hku.le hbc hright hcd hleft
        exact ⟨d, hab.trans hbd, hR₃, hd⟩

end Ground.Represents
end H1Z1Server.LuaSort
