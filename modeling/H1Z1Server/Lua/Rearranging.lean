import H1Z1Server.Lua.Sorting

/-! What a sort does to the cells with any order function that leaves them alone. -/
namespace H1Z1Server.LuaSort
open Outcome Segments

variable {S V : Type}

namespace Ground
variable (g : Ground S V)

/-- States that stand for the cells: those from `lo` to `hi` can be written, and one more can be read. -/
structure Represents (R : (ℤ → V) → S → Prop) (lo hi : ℤ) : Prop where
  rawgeti : ∀ a s i, R a s → lo - 1 ≤ i → i ≤ hi →
    Ends ((g.rawgeti i).run s) (fun v s' => v = a i ∧ R a s') fun _ _ => False
  rawseti : ∀ a s i v, R a s → lo ≤ i → i ≤ hi →
    Ends ((g.rawseti i v).run s) (fun _ => R (Function.update a i v)) fun _ _ => False

/-- The order function assigns to no cell. -/
def Quiet (R : (ℤ → V) → S → Prop) : Prop :=
  ∀ a s x y, R a s → Ends ((g.sort_comp x y).run s) (fun _ => R a) fun _ => R a

/-- The order function says of these values in which order they are, and assigns to no cell. -/
def Follows (R : (ℤ → V) → S → Prop) (D : V → Prop) (r : V → V → Bool) : Prop :=
  ∀ a s x y, R a s → D x → D y →
    Ends ((g.sort_comp x y).run s) (fun b s' => b = r x y ∧ R a s') fun _ _ => False

end Ground

/-- The cells are those of `a`, with some from `l` to `u` permuted. -/
def Permuted (R : (ℤ → V) → S → Prop) (l u : ℤ) (a : ℤ → V) (s : S) : Prop := ∃ b, Permutes l u a b ∧ R b s

section Permuting
variable {R : (ℤ → V) → S → Prop} {l u l' u' : ℤ} {a b : ℤ → V} {s : S}

theorem Permuted.same (hR : R a s) : Permuted R l u a s := ⟨a, .refl l u a, hR⟩

theorem Permuted.after (h : Permuted R l' u' b s) (hab : Permutes l u a b) (hl : l ≤ l') (hu : u' ≤ u) :
    Permuted R l u a s := by
  obtain ⟨c, hbc, hR⟩ := h
  exact ⟨c, hab.trans (hbc.mono hl hu), hR⟩

end Permuting

namespace Ground.Represents
variable {g : Ground S V} {R : (ℤ → V) → S → Prop} {lo hi l u i j : ℤ} {a : ℤ → V} {s : S} {P : V}

theorem set2_spec (h : g.Represents R lo hi) (hR : R a s) (hli : lo ≤ i ∧ i ≤ hi) (hlj : lo ≤ j ∧ j ≤ hi) :
    Ends ((g.set2 i j (a j) (a i)).run s) (fun _ => R (swap a i j)) fun _ _ => False := by
  unfold set2
  apply Ends.after (h.rawseti a s i (a j) hR hli.1 hli.2)
  intro _ s' hR'
  exact h.rawseti _ s' j (a i) hR' hlj.1 hlj.2

/-! Any order function -/

theorem scanUp_quiet (h : g.Represents R lo hi) (hquiet : g.Quiet R) (hR : R a s) (hl : lo ≤ i + 1) (hiu : i ≤ u)
    (hu : u + 1 ≤ hi) : Ends ((g.scanUp P u i).run s) (fun p s' => p.2 = a p.1 ∧ R a s') fun _ => R a := by
  induction hn : (u - i).toNat using Nat.strong_induction_on generalizing i s with
  | _ n ih =>
    rw [scanUp]
    apply Ends.after (h.rawgeti a s (i + 1) hR (by omega) (by omega))
    rintro ai s₁ ⟨rfl, hR₁⟩
    apply Ends.seq (hquiet a s₁ (a (i + 1)) P hR₁)
    intro b s₂ hR₂
    apply ends_ite
    · intro _
      apply ends_ite
      · exact fun _ => hR₂
      intro hle
      exact Ends.seq (ih (u - (i + 1)).toNat (by omega) hR₂ (by omega) (by omega) rfl) fun _ _ hk => hk
    · exact fun _ => ⟨rfl, hR₂⟩

theorem scanDown_quiet (h : g.Represents R lo hi) (hquiet : g.Quiet R) (hR : R a s) (hl : lo ≤ l) (hlj : l ≤ j)
    (hj : j - 1 ≤ hi) : Ends ((g.scanDown P l j).run s) (fun p s' => p.2 = a p.1 ∧ R a s') fun _ => R a := by
  induction hn : (j - l).toNat using Nat.strong_induction_on generalizing j s with
  | _ n ih =>
    rw [scanDown]
    apply Ends.after (h.rawgeti a s (j - 1) hR (by omega) hj)
    rintro aj s₁ ⟨rfl, hR₁⟩
    apply Ends.seq (hquiet a s₁ P (a (j - 1)) hR₁)
    intro b s₂ hR₂
    apply ends_ite
    · intro _
      apply ends_ite
      · exact fun _ => hR₂
      intro hle
      exact Ends.seq (ih (j - 1 - l).toNat (by omega) hR₂ (by omega) (by omega) rfl) fun _ _ hk => hk
    · exact fun _ => ⟨rfl, hR₂⟩

theorem partition_quiet (h : g.Represents R lo hi) (hquiet : g.Quiet R) (hR : R a s) (hl : lo ≤ l) (hu : u + 1 ≤ hi)
    (hli : l ≤ i) (hiu : i ≤ u) (hlj : l ≤ j) (hju : j ≤ u) :
    Ends ((g.partition P l u i j).run s) (fun _ => Permuted R l u a) fun _ => Permuted R l u a := by
  induction hn : (j - i).toNat using Nat.strong_induction_on generalizing a i j s with
  | _ n ih =>
    have hsame : ∀ e : Halt, ∀ s', True ∧ R a s' → Permuted R l u a s' := fun _ _ hs => .same hs.2
    rw [partition]
    apply Ends.seq (((g.scanUp_le P u i s hiu).and (h.scanUp_quiet hquiet hR (by omega) hiu hu)).mono
      (fun _ _ hk => hk) hsame)
    rintro ⟨⟨i', hi'⟩, ai⟩ s₁ ⟨hiu', hai, hR₁⟩
    apply Ends.seq (((g.scanDown_ge P l j s₁ hlj).and (h.scanDown_quiet hquiet hR₁ hl hlj (by omega))).mono
      (fun _ _ hk => hk) hsame)
    rintro ⟨⟨j', hj'⟩, aj⟩ s₂ ⟨hlj', haj, hR₂⟩
    dsimp only at hiu' hlj' hai haj ⊢
    subst hai haj
    apply ends_ite
    · exact fun _ => .same hR₂
    intro hle
    apply Ends.after (h.set2_spec hR₂ (by omega) (by omega))
    intro _ s₃ hR₃
    have hafter : ∀ s', Permuted R l u (swap a i' j') s' → Permuted R l u a s' := fun _ hs =>
      hs.after (permutes_swap (by omega) (by omega) (by omega) (by omega)) le_rfl le_rfl
    exact (ih (j' - i').toNat (by omega) hR₃ (by omega) (by omega) (by omega) (by omega) rfl).mono
      (fun _ => hafter) fun _ => hafter

/-- A swap that happens or not, as the order function says. -/
theorem setIfLess_quiet (h : g.Represents R lo hi) (hquiet : g.Quiet R) (hR : R a s) (hl : lo ≤ l) (hu : u ≤ hi)
    (hli : l ≤ i ∧ i ≤ u) (hlj : l ≤ j ∧ j ≤ u) (x y : V) {otherwise : EStateM Halt S Unit}
    (hother : ∀ s, R a s → Ends (otherwise.run s) (fun _ => Permuted R l u a) fun _ => Permuted R l u a) :
    Ends ((g.setIfLess x y i j (a j) (a i) otherwise).run s) (fun _ => Permuted R l u a)
      fun _ => Permuted R l u a := by
  unfold setIfLess
  apply Ends.seq ((hquiet a s x y hR).mono (fun _ _ hR => hR) fun _ _ => .same)
  intro b s' hR'
  apply ends_ite
  · intro _
    apply (h.set2_spec hR' (by omega) (by omega)).mono
    · exact fun _ s' hR' => ⟨_, permutes_swap hli.1 hli.2 hlj.1 hlj.2, hR'⟩
    · exact fun _ _ => False.elim
  · exact fun _ => hother s' hR'

theorem sortThree_quiet (h : g.Represents R lo hi) (hquiet : g.Quiet R) (hR : R a s) (hl : lo ≤ l) (hu : u ≤ hi)
    (hlu : l < u) : Ends ((g.sortThree l u).run s)
      (fun i s' => (∀ k ∈ i, l < k ∧ k < u) ∧ Permuted R l u a s') fun _ => Permuted R l u a := by
  unfold sortThree
  apply Ends.after (h.rawgeti a s l hR (by omega) (by omega))
  rintro al s₁ ⟨rfl, hR₁⟩
  apply Ends.after (h.rawgeti a s₁ u hR₁ (by omega) hu)
  rintro au s₂ ⟨rfl, hR₂⟩
  have hskip : ∀ s, R a s → Ends ((pure () : EStateM Halt S Unit).run s) (fun _ => Permuted R l u a)
      fun _ => Permuted R l u a := fun _ hR => Permuted.same hR
  apply Ends.seq (h.setIfLess_quiet hquiet hR₂ hl hu (by omega) (by omega) _ _ hskip)
  rintro _ s₃ ⟨b, hab, hR₃⟩
  have hb : Permuted R l u a s₃ := ⟨b, hab, hR₃⟩
  apply ends_ite
  · exact fun _ => ⟨nofun, hb⟩
  intro hmore
  apply ends_ite
  · exact fun _ => hb
  intro _
  apply Ends.after (h.rawgeti b s₃ ((l + u) / 2) hR₃ (by omega) (by omega))
  rintro ai s₄ ⟨rfl, hR₄⟩
  apply Ends.after (h.rawgeti b s₄ l hR₄ (by omega) (by omega))
  rintro al s₅ ⟨rfl, hR₅⟩
  have hafter : ∀ s', Permuted R l u b s' → Permuted R l u a s' := fun _ hs => hs.after hab le_rfl le_rfl
  apply Ends.seq ((h.setIfLess_quiet hquiet hR₅ hl hu (by omega) (by omega) _ _ _).mono (fun _ => hafter) fun _ => hafter)
  · exact fun _ s₆ hs => ⟨by simp; omega, hs⟩
  intro s₆ hR₆
  apply Ends.after (h.rawgeti b s₆ u hR₆ (by omega) hu)
  rintro au s₇ ⟨rfl, hR₇⟩
  exact h.setIfLess_quiet hquiet hR₇ hl hu (by omega) (by omega) _ _ fun _ hR => Permuted.same hR

theorem split_quiet (h : g.Represents R lo hi) (hquiet : g.Quiet R) (hR : R a s) (hl : lo ≤ l) (hu : u + 1 ≤ hi)
    (hli : l < i) (hiu : i < u) :
    Ends ((g.split l u i).run s) (fun _ => Permuted R l (u + 1) a) fun _ => Permuted R l (u + 1) a := by
  unfold split
  apply Ends.after (h.rawgeti a s i hR (by omega) (by omega))
  rintro P s₁ ⟨rfl, hR₁⟩
  apply Ends.after (h.rawgeti a s₁ (u - 1) hR₁ (by omega) (by omega))
  rintro x s₂ ⟨rfl, hR₂⟩
  apply Ends.after (h.set2_spec hR₂ (by omega) (by omega))
  intro _ s₃ hR₃
  have hab : Permutes l (u + 1) a (swap a i (u - 1)) :=
    permutes_swap (by omega) (by omega) (by omega) (by omega)
  apply Ends.seq (((g.partition_bounds (a i) l u l (u - 1) s₃ (by omega) (by omega)).and
    (h.partition_quiet hquiet hR₃ hl hu le_rfl (by omega) (by omega) (by omega))).mono
      (fun _ _ hk => hk) fun _ _ hs => hs.2.after hab le_rfl (by omega))
  rintro k s₄ ⟨⟨hlk, hku⟩, b, hb, hR₄⟩
  have hac : Permutes l (u + 1) a b := hab.trans (hb.mono le_rfl (by omega))
  apply Ends.after (h.rawgeti b s₄ (u - 1) hR₄ (by omega) (by omega))
  rintro x s₅ ⟨rfl, hR₅⟩
  apply Ends.after (h.rawgeti b s₅ k hR₅ (by omega) (by omega))
  rintro y s₆ ⟨rfl, hR₆⟩
  apply Ends.after (h.set2_spec hR₆ (by omega) (by omega))
  intro _ s₇ hR₇
  exact ⟨_, hac.trans (permutes_swap (by omega) (by omega) (by omega) (by omega)), hR₇⟩

theorem round_quiet (h : g.Represents R lo hi) (hquiet : g.Quiet R) (hR : R a s) (hl : lo ≤ l) (hu : u + 1 ≤ hi)
    (hlu : l < u) :
    Ends ((g.round l u).run s) (fun _ => Permuted R l (u + 1) a) fun _ => Permuted R l (u + 1) a := by
  have hwider : ∀ s', Permuted R l u a s' → Permuted R l (u + 1) a s' := fun _ hs =>
    hs.after (.refl l (u + 1) a) le_rfl (by omega)
  unfold round
  apply Ends.seq ((h.sortThree_quiet hquiet hR (by omega) (by omega) hlu).mono (fun _ _ hi => hi) fun _ => hwider)
  intro i s₁ hs
  obtain ⟨hi, b, hab, hR₁⟩ := hs
  have hab' : Permutes l (u + 1) a b := hab.mono le_rfl (by omega)
  cases i with
  | none => exact ⟨b, hab', hR₁⟩
  | some i =>
    obtain ⟨hli, hiu⟩ := hi i rfl
    dsimp only
    apply ends_ite
    · exact fun _ => ⟨b, hab', hR₁⟩
    intro _
    have hafter : ∀ s', Permuted R l (u + 1) b s' → Permuted R l (u + 1) a s' := fun _ hs =>
      hs.after hab' le_rfl le_rfl
    apply Ends.seq ((h.split_quiet hquiet hR₁ hl hu hli hiu).mono (fun _ => hafter) fun _ => hafter)
    intro k s₂ hs
    apply ends_ite
    · exact fun _ => hs
    · exact fun _ => hs

/-- Whatever the order function answers: if it assigns to no cell, a sort moves values between the cells from
`l` to `u + 1` and does nothing else, however it ends. -/
theorem auxsort_quiet (h : g.Represents R lo hi) (hquiet : g.Quiet R) (fuel depth : ℕ) (hR : R a s)
    (hl : lo ≤ l) (hu : u + 1 ≤ hi) : Ends ((g.auxsort fuel depth l u).run s)
      (fun _ => Permuted R l (u + 1) a) fun _ => Permuted R l (u + 1) a := by
  induction fuel generalizing depth a s l u with
  | zero => exact .same hR
  | succ fuel ih =>
    rw [auxsort]
    apply ends_ite
    case hy => exact fun _ => .same hR
    intro hlu
    apply Ends.seq (((g.round_halves l u s hlu).and (h.round_quiet hquiet hR hl hu hlu)).mono (fun _ _ hp => hp)
      fun _ _ hs => hs.2)
    rintro (_ | ⟨smaller, larger⟩) s₁ ⟨hparts, hs⟩
    · exact hs
    cases depth with
    | zero => exact hs
    | succ depth =>
      have hhalves : Halves l u smaller larger := hparts _ rfl
      obtain ⟨⟨hls, hsu⟩, hll, hlu'⟩ := hhalves.within hlu
      obtain ⟨b, hab, hR₁⟩ := hs
      have hafter : ∀ s', Permuted R smaller.1 (smaller.2 + 1) b s' → Permuted R l (u + 1) a s' :=
        fun _ hs => hs.after hab hls (by omega)
      apply Ends.seq ((ih depth hR₁ (by omega) (by omega)).mono (fun _ _ hs => hs) fun _ => hafter)
      rintro _ s₂ hs
      obtain ⟨c, hac, hR₂⟩ := hafter s₂ hs
      have hafter : ∀ s', Permuted R larger.1 (larger.2 + 1) c s' → Permuted R l (u + 1) a s' :=
        fun _ hs => hs.after hac hll (by omega)
      exact (ih (depth + 1) hR₂ (by omega) (by omega)).mono (fun _ => hafter) fun _ => hafter

end Ground.Represents
end H1Z1Server.LuaSort
