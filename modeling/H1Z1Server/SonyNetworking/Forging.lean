import H1Z1Server.SonyNetworking.Overrun
import Mathlib.Data.Finset.Card

/-! The bytes behind a `CRC4` object decide what it generates: for every key there are two
choices of them with different first bytes. -/
namespace H1Z1Server.CRC4
open RC4 (SBox)

/-- A condition `g x ≠ c` with an injective `g` excludes at most one element. -/
theorem card_le_card_sieve {α β : Type} [DecidableEq β] (s : Finset α) (conds : List ((α → β) × β))
    (hconds : ∀ p ∈ conds, ∀ x ∈ s, ∀ y ∈ s, p.1 x = p.1 y → x = y) :
    s.card ≤ (s.filter fun x => ∀ p ∈ conds, p.1 x ≠ p.2).card + conds.length := by
  induction conds with
  | nil => simp
  | cons q conds ih =>
    have hrest := ih fun p hp => hconds p (List.mem_cons_of_mem _ hp)
    set kept := s.filter fun x => ∀ p ∈ conds, p.1 x ≠ p.2 with hkept
    have hsplit := Finset.card_filter_add_card_filter_not (s := kept) (fun x => q.1 x ≠ q.2)
    have hone : (kept.filter fun x => ¬ q.1 x ≠ q.2).card ≤ 1 := by
      rw [Finset.card_le_one]
      intro x hx y hy
      rw [Finset.mem_filter, not_not] at hx hy
      exact hconds q List.mem_cons_self x (Finset.mem_filter.mp hx.1).1 y
        (Finset.mem_filter.mp hy.1).1 (hx.2.trans hy.2.symm)
    have hboth : (kept.filter fun x => q.1 x ≠ q.2) =
        s.filter fun x => ∀ p ∈ q :: conds, p.1 x ≠ p.2 := by
      ext x
      simp only [hkept, Finset.mem_filter, List.forall_mem_cons]
      tauto
    rw [← hboth, List.length_cons]
    omega

/-- The values that the choices below are made from: doubling and tripling keep them apart. -/
def candidates : Finset UInt8 := {0, 1, 2, 3, 4, 5, 6}

theorem exists_two_candidates (c₁ c₂ c₃ c₄ c₅ : UInt8) :
    ∃ v w : UInt8, v + v ≠ w + w ∧ ∀ x, x = v ∨ x = w →
      x ≠ c₁ ∧ x ≠ c₂ ∧ x + x ≠ c₃ ∧ x + x ≠ c₄ ∧ x + x + x ≠ c₅ := by
  have hdouble : ∀ x ∈ candidates, ∀ y ∈ candidates, x + x = y + y → x = y := by
    decide +kernel
  have htriple : ∀ x ∈ candidates, ∀ y ∈ candidates, x + x + x = y + y + y → x = y := by
    decide +kernel
  have hsieve := card_le_card_sieve candidates
    [(id, c₁), (id, c₂), (fun x => x + x, c₃), (fun x => x + x, c₄), (fun x => x + x + x, c₅)] (by
      simp only [List.forall_mem_cons, List.not_mem_nil, false_imp_iff, implies_true, and_true]
      exact ⟨fun _ _ _ _ h => h, fun _ _ _ _ h => h, hdouble, hdouble, htriple⟩)
  rw [show candidates.card = 7 from by decide] at hsieve
  simp only [List.forall_mem_cons, List.not_mem_nil, false_imp_iff, implies_true, and_true,
    List.length_cons, List.length_nil, id] at hsieve
  have hmany : 1 < (candidates.filter fun x =>
      x ≠ c₁ ∧ x ≠ c₂ ∧ x + x ≠ c₃ ∧ x + x ≠ c₄ ∧ x + x + x ≠ c₅).card := by omega
  obtain ⟨v, hv, w, hw, hne⟩ := Finset.one_lt_card.mp hmany
  rw [Finset.mem_filter] at hv hw
  refine ⟨v, w, fun heq => hne (hdouble v hv.1 w hw.1 heq), ?_⟩
  rintro x (rfl | rfl)
  · exact hv.2
  · exact hw.2

/-- Bytes behind the object that write `v` to the entry 1 of the table, and then to the entry `v`. -/
def forgedBehind (key : List UInt8) (u v : UInt8) : Memory
  | 0 => 1 - RC4.keyByte key 258 - v - overrunIndex key u - RC4.keyByte key 257
  | 1 => v
  | _ => v - 1 - RC4.keyByte key 259

/-- They make the first byte of the generator an entry of RC4's table that depends on `v`. -/
theorem firstByte_overrun (key : List UInt8) (u v : UInt8)
    (h₁ : v ≠ 1) (h₂ : v ≠ 1 + RC4.keyByte key 259) (h₃ : v + v ≠ 2 + RC4.keyByte key 259)
    (h₄ : v + v ≠ 1 + RC4.keyByte key 259 + overrunIndex key u)
    (h₅ : v + v + v ≠ 2 + RC4.keyByte key 259 - RC4.keyByte key 258) :
    RC4.firstByte (overrun key u (forgedBehind key u v)) =
      (RC4.schedule key).1 (v + v - 1 - RC4.keyByte key 259) := by
  unfold overrun forgedBehind
  generalize RC4.keyByte key 257 = k₁
  generalize RC4.keyByte key 258 = k₂ at *
  generalize RC4.keyByte key 259 = k₃ at *
  generalize overrunIndex key u = j at *
  have hj₁ : j + k₁ + (1 - k₂ - v - j - k₁) = 1 - k₂ - v := by grind
  have hj₂ : 1 - k₂ - v + k₂ + v = 1 := by grind
  have hj₃ : 1 + k₃ + (v - 1 - k₃) = v := by grind
  simp only [hj₁, hj₂, hj₃]
  set S := Function.update (Function.update (Function.update (Function.update (RC4.schedule key).1
    j u) (1 - k₂ - v) (1 - k₂ - v - j - k₁)) 1 v) v (v - 1 - k₃) with hS
  have hone : S 1 = v := by
    rw [hS, Function.update_of_ne h₁.symm, Function.update_self]
  have hv : S v = v - 1 - k₃ := by rw [hS, Function.update_self]
  have ht : v - 1 - k₃ + v = v + v - 1 - k₃ := by grind
  have ht₁ : v + v - 1 - k₃ ≠ 1 := by grind
  have htv : v + v - 1 - k₃ ≠ v := by grind
  have hta : v + v - 1 - k₃ ≠ 1 - k₂ - v := by grind
  have htj : v + v - 1 - k₃ ≠ j := by grind
  rw [RC4.firstByte, hone, hv, ht, RC4.exchange, Function.comp_apply,
    Equiv.swap_apply_of_ne_of_ne ht₁ htv, hS, Function.update_of_ne htv, Function.update_of_ne ht₁,
    Function.update_of_ne hta, Function.update_of_ne htj]

/-- The first byte of the generator depends on what lies behind the object. -/
theorem exists_firstByte_ne (key : List UInt8) (u : UInt8) :
    ∃ b c : Memory, RC4.firstByte (overrun key u b) ≠ RC4.firstByte (overrun key u c) := by
  obtain ⟨v, w, hne, hgood⟩ := exists_two_candidates 1 (1 + RC4.keyByte key 259)
    (2 + RC4.keyByte key 259) (1 + RC4.keyByte key 259 + overrunIndex key u)
    (2 + RC4.keyByte key 259 - RC4.keyByte key 258)
  obtain ⟨v₁, v₂, v₃, v₄, v₅⟩ := hgood v (Or.inl rfl)
  obtain ⟨w₁, w₂, w₃, w₄, w₅⟩ := hgood w (Or.inr rfl)
  refine ⟨forgedBehind key u v, forgedBehind key u w, ?_⟩
  rw [firstByte_overrun key u v v₁ v₂ v₃ v₄ v₅, firstByte_overrun key u w w₁ w₂ w₃ w₄ w₅]
  intro heq
  have hentry := RC4.schedule_injective key heq
  exact hne (by grind)

end H1Z1Server.CRC4
