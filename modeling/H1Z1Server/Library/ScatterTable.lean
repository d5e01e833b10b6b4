import H1Z1Server.Library.Chains

/-! Chained scatter tables with Brent's variation. A key that is not in its main position is chained behind
one that is in the same main position, and makes room for a key that the position is the main one of. -/

/-- The cells: their keys, none for those never used, and which keys no search is to find any more. -/
@[ext] structure Scatter (κ : Type) where
  key : ℕ → Option κ
  killed : ℕ → Bool
  next : Chains.Links

namespace Scatter
open Chains
variable {κ : Type}

def empty : Scatter κ := ⟨fun _ => none, fun _ => false, fun _ => none⟩

/-- A key that a search may find and that is the same as this one. -/
def hit (same : κ → κ → Bool) (s : Scatter κ) (k : κ) (i : ℕ) : Bool :=
  !s.killed i && (s.key i).any fun l => same l k

/-- What the cells keep: every key is on the chain of its main position, which is held by a key that it
is the main position of, and no search can find two keys that are the same, or comes to a killed key before
the same key alive. -/
structure Sound (size : ℕ) (main : κ → ℕ) (same : κ → κ → Bool) (s : Scatter κ) : Prop where
  chains : Chains.Sound s.next
  bounded : ∀ i j, s.next i = some j → j < size
  fresh : ∀ i, s.key i = none → Fresh s.next i
  within : ∀ i k, s.key i = some k → i < size
  home : ∀ i k, s.key i = some k → Reaches s.next (main k) i
  brent : ∀ i k, s.key i = some k → ∃ u, s.key (main k) = some u ∧ main u = main k
  unique : ∀ i j k l, s.key i = some k → s.key j = some l → s.killed i = false → s.killed j = false →
    same k l = true → i = j
  first : ∀ i j k l, s.key i = some k → s.key j = some l → s.killed i = false → s.killed j = true →
    same k l = true → Reaches s.next i j

/-- A cell gets a new key; what is chained behind it stays. -/
def reuse (s : Scatter κ) (m : ℕ) (k : κ) : Scatter κ :=
  { s with key := Function.update s.key m (some k), killed := Function.update s.killed m false }

/-- The key in `m` makes room, and goes to `n`; `prev` is in front of it. -/
def move (s : Scatter κ) (prev m n : ℕ) (k : κ) : Scatter κ where
  key := Function.update (Function.update s.key n (s.key m)) m (some k)
  killed := Function.update (Function.update s.killed n (s.killed m)) m false
  next := replace s.next prev m n

/-- A key goes to `n`, behind `m`. -/
def chain (s : Scatter κ) (m n : ℕ) (k : κ) : Scatter κ where
  key := Function.update s.key n (some k)
  killed := Function.update s.killed n false
  next := insertAfter s.next m n

def kill (s : Scatter κ) (i : ℕ) : Scatter κ := { s with killed := Function.update s.killed i true }

variable {size : ℕ} {main : κ → ℕ} {same : κ → κ → Bool} {s : Scatter κ} {k l c : κ} {i m n prev : ℕ}

theorem hit_iff : s.hit same k i = true ↔ s.killed i = false ∧ ∃ l, s.key i = some l ∧ same l k = true := by
  unfold hit
  cases s.key i with
  | none => simp
  | some l => simp

theorem sound_empty : (empty : Scatter κ).Sound size main same where
  chains := ⟨(fun _ _ _ h => by cases h), fun a => ⟨[a], .last rfl⟩⟩
  bounded _ _ h := by cases h
  fresh _ _ := ⟨rfl, (fun _ h => by cases h)⟩
  within _ _ h := by cases h
  home _ _ h := by cases h
  brent _ _ h := by cases h
  unique _ _ _ _ h := by cases h
  first _ _ _ _ h := by cases h

theorem Sound.kill (h : s.Sound size main same) (i : ℕ) : (s.kill i).Sound size main same where
  chains := h.chains
  bounded := h.bounded
  fresh := h.fresh
  within := h.within
  home := h.home
  brent := h.brent
  unique a b k l ha hb hka hkb hsame := by
    have hlives : ∀ j, Function.update s.killed i true j = false → s.killed j = false := by
      intro j hj
      by_cases hji : j = i
      · subst hji
        rw [Function.update_self] at hj
        cases hj
      · rwa [Function.update_of_ne hji] at hj
    exact h.unique a b k l ha hb (hlives a hka) (hlives b hkb) hsame
  first a b k l ha hb hka hkb hsame := by
    have hfirst := h.first a b k l ha hb
    have hunique := h.unique a b k l ha hb
    simp only [Scatter.kill, Function.update_apply] at hka hkb ⊢
    grind

section Search
variable (hmain : ∀ k l, same k l = true → main k = main l)
include hmain

/-- A search from the main position finds a key wherever it is. -/
theorem Sound.find_eq_some (h : s.Sound size main same) (hlt : main k < size) (hi : s.hit same k i = true)
    (hsame : ∀ a b, s.key a = some b → same b k = true → ∀ c d, s.key c = some d → same d k = true →
      same b d = true) : Chains.find (s.hit same k) s.next size (main k) = some i := by
  obtain ⟨halive, l, hkey, hl⟩ := hit_iff.mp hi
  cases hfind : Chains.find (s.hit same k) s.next size (main k) with
  | none =>
    rw [Chains.find_eq_none_iff h.bounded h.chains hlt] at hfind
    have hmiss := hfind i (hmain l k hl ▸ h.home i l hkey)
    rw [hi] at hmiss
    cases hmiss
  | some j =>
    obtain ⟨-, hj⟩ := Chains.reaches_of_find h.bounded h.chains hlt hfind
    obtain ⟨halive', l', hkey', hl'⟩ := hit_iff.mp hj
    rw [h.unique j i l' l hkey' hkey halive' halive (hsame j l' hkey' hl' i l hkey hl)]

theorem Sound.find_eq_none (h : s.Sound size main same) (hlt : main k < size) :
    Chains.find (s.hit same k) s.next size (main k) = none ↔ ∀ i, s.hit same k i = false := by
  rw [Chains.find_eq_none_iff h.bounded h.chains hlt]
  constructor
  · intro hnone i
    rw [Bool.eq_false_iff]
    intro hi
    obtain ⟨-, l, hkey, hl⟩ := hit_iff.mp hi
    have hmiss := hnone i (hmain l k hl ▸ h.home i l hkey)
    rw [hi] at hmiss
    cases hmiss
  · exact fun hnone i _ => hnone i

end Search

section Insert
variable (hsymm : ∀ k l, same k l = true → same l k = true) (hnew : ∀ i, s.hit same k i = false)
include hsymm hnew

omit hsymm in
theorem not_same (hi : s.key i = some l) (halive : s.killed i = false) : same l k = false := by
  rw [Bool.eq_false_iff]
  intro hsame
  have hmiss := hnew i
  rw [hit_iff.mpr ⟨halive, l, hi, hsame⟩] at hmiss
  cases hmiss

omit hsymm hnew in
/-- The main position of a key that is there is in use. -/
theorem Sound.main_ne (h : s.Sound size main same) (hi : s.key i = some l) (hn : s.key n = none) :
    main l ≠ n := by
  rintro rfl
  obtain ⟨u, hu, -⟩ := h.brent i l hi
  rw [hn] at hu
  cases hu

variable (hmain : ∀ k l, same k l = true → main k = main l)
include hmain

theorem Sound.reuse (h : s.Sound size main same) (hm : main k = m) (hlt : m < size) :
    (s.reuse m k).Sound size main same where
  chains := h.chains
  bounded := h.bounded
  fresh i hi := by
    by_cases him : i = m
    · subst him
      simp [Scatter.reuse] at hi
    · exact h.fresh i (by simpa [Scatter.reuse, him] using hi)
  within i l hi := by
    by_cases him : i = m
    · exact him ▸ hlt
    · exact h.within i l (by simpa [Scatter.reuse, him] using hi)
  home i l hi := by
    by_cases him : i = m
    · subst him
      obtain rfl : k = l := by simpa [Scatter.reuse] using hi
      exact hm ▸ .refl _
    · exact h.home i l (by simpa [Scatter.reuse, him] using hi)
  brent i l hi := by
    by_cases hl : main l = m
    · exact ⟨k, by simp [Scatter.reuse, hl], hm.trans hl.symm⟩
    · have him : i ≠ m := by
        rintro rfl
        obtain rfl : k = l := by simpa [Scatter.reuse] using hi
        exact hl hm
      obtain ⟨u, hu, hmain⟩ := h.brent i l (by simpa [Scatter.reuse, him] using hi)
      exact ⟨u, by simpa [Scatter.reuse, hl] using hu, hmain⟩
  unique i j a b hi hj hai haj hsame := by
    have hout := fun i l => not_same (i := i) (l := l) hnew
    have hunique := h.unique
    simp only [Scatter.reuse, Function.update_apply] at hi hj hai haj
    grind
  first i j a b hi hj hai haj hsame := by
    have hjm : j ≠ m := by
      rintro rfl
      simp [Scatter.reuse] at haj
    replace hj : s.key j = some b := by simpa [Scatter.reuse, hjm] using hj
    by_cases him : i = m
    · subst him
      obtain rfl : k = a := by simpa [Scatter.reuse] using hi
      exact (hm.symm.trans (hmain k b hsame)) ▸ h.home j b hj
    · exact h.first i j a b (by simpa [Scatter.reuse, him] using hi) hj (by simpa [Scatter.reuse, him] using hai)
        (by simpa [Scatter.reuse, hjm] using haj) hsame

/-- The key that made room is chained behind its own main position as before. -/
theorem Sound.move (h : s.Sound size main same) (hm : main k = m) (hc : s.key m = some c) (hcm : main c ≠ m)
    (hn : s.key n = none) (hlt : n < size) (hprev : s.next prev = some m) :
    (s.move prev m n k).Sound size main same := by
  have hne : n ≠ m := by
    rintro rfl
    rw [hn] at hc
    cases hc
  have hfresh := h.fresh n hn
  -- no key but the new one has `m` as its main position
  have hnotm : ∀ i l, s.key i = some l → main l ≠ m := by
    intro i l hi hl
    obtain ⟨u, hu, hmu⟩ := h.brent i l hi
    rw [hl, hc, Option.some.injEq] at hu
    subst hu
    exact hcm (hmu.trans hl)
  have hkey : ∀ i l, (s.move prev m n k).key i = some l →
      i = m ∧ l = k ∨ i = n ∧ l = c ∨ i ≠ m ∧ i ≠ n ∧ s.key i = some l := by
    intro i l hi
    simp only [Scatter.move, Function.update_apply] at hi
    grind
  refine ⟨h.chains.replace hfresh hprev hne, ?_, ?_, ?_, ?_, ?_, ?_, ?_⟩
  · intro i j hij
    have hbounded := h.bounded
    simp only [Scatter.move, replace, Function.update_apply] at hij
    grind
  · intro i hi
    have him : i ≠ m := by
      rintro rfl
      simp [Scatter.move] at hi
    have hin : i ≠ n := by
      rintro rfl
      simp [Scatter.move, hne, hc] at hi
    have hfree := h.fresh i (by simpa [Scatter.move, him, hin] using hi)
    have hip : i ≠ prev := by
      rintro rfl
      rw [hfree.last] at hprev
      cases hprev
    refine ⟨(replace_of_ne him hin hip).trans hfree.last, ?_⟩
    intro a ha
    have hunlinked := hfree.unlinked
    simp only [Scatter.move, replace, Function.update_apply] at ha
    grind
  · intro i l hi
    rcases hkey i l hi with ⟨rfl, -⟩ | ⟨rfl, -⟩ | ⟨-, -, hi⟩
    · exact h.within i c hc
    · exact hlt
    · exact h.within i l hi
  · intro i l hi
    rcases hkey i l hi with ⟨rfl, rfl⟩ | ⟨rfl, rfl⟩ | ⟨him, hin, hi⟩
    · exact hm ▸ .refl _
    · have hreach := (h.home m l hc).replace h.chains hfresh hprev hne hcm
      rwa [if_pos rfl] at hreach
    · have hreach := (h.home i l hi).replace h.chains hfresh hprev hne (hnotm i l hi)
      rwa [if_neg him] at hreach
  · intro i l hi
    have hold : ∀ i l, s.key i = some l → ∃ u, (s.move prev m n k).key (main l) = some u ∧ main u = main l := by
      intro i l hi
      obtain ⟨u, hu, hmain⟩ := h.brent i l hi
      exact ⟨u, by simpa [Scatter.move, hnotm i l hi, h.main_ne hi hn] using hu, hmain⟩
    rcases hkey i l hi with ⟨rfl, rfl⟩ | ⟨rfl, rfl⟩ | ⟨-, -, hi⟩
    · exact ⟨l, by simp [Scatter.move, hm], rfl⟩
    · exact hold m l hc
    · exact hold i l hi
  · intro i j a b hi hj hai haj hsame
    have hout := fun i l => not_same (i := i) (l := l) hnew
    have hunique := h.unique
    simp only [Scatter.move, Function.update_apply] at hi hj hai haj
    grind
  · intro i j a b hi hj hai haj hsame
    have hjm : j ≠ m := by
      rintro rfl
      simp [Scatter.move] at haj
    rcases hkey i a hi with ⟨rfl, rfl⟩ | ⟨rfl, rfl⟩ | ⟨him, hin, hi'⟩
    · -- no killed key has the main position of the new one
      have hmb : main b = i := (hmain a b hsame).symm.trans hm
      rcases hkey j b hj with ⟨rfl, -⟩ | ⟨rfl, rfl⟩ | ⟨-, -, hj⟩
      · exact absurd rfl hjm
      · exact absurd hmb hcm
      · exact absurd hmb (hnotm j b hj)
    · have hin : j ≠ i := by
        rintro rfl
        rw [hai] at haj
        cases haj
      have hj : s.key j = some b := by simpa [Scatter.move, hjm, hin] using hj
      have hreach := h.first m j a b hc hj (by simpa [Scatter.move, hne] using hai)
        (by simpa [Scatter.move, hjm, hin] using haj) hsame
      exact hreach.replace_self h.chains hfresh hprev hne hjm
    · replace hai : s.killed i = false := by simpa [Scatter.move, him, hin] using hai
      rcases hkey j b hj with ⟨rfl, -⟩ | ⟨rfl, rfl⟩ | ⟨-, hjn, hj'⟩
      · exact absurd rfl hjm
      · have hreach := (h.first i m a b hi' hc hai (by simpa [Scatter.move, hne] using haj) hsame).replace
          h.chains hfresh hprev hne him
        rwa [if_pos rfl] at hreach
      · have hreach := (h.first i j a b hi' hj' hai (by simpa [Scatter.move, hjm, hjn] using haj) hsame).replace
          h.chains hfresh hprev hne him
        rwa [if_neg hjm] at hreach

theorem Sound.chain (h : s.Sound size main same) (hm : main k = m) (hc : s.key m = some c) (hcm : main c = m)
    (halive : s.killed m = false) (hn : s.key n = none) (hlt : n < size) :
    (s.chain m n k).Sound size main same := by
  have hne : n ≠ m := by
    rintro rfl
    rw [hn] at hc
    cases hc
  have hfresh := h.fresh n hn
  have hkey : ∀ i l, (s.chain m n k).key i = some l → i = n ∧ l = k ∨ i ≠ n ∧ s.key i = some l := by
    intro i l hi
    simp only [Scatter.chain, Function.update_apply] at hi
    grind
  refine ⟨h.chains.insertAfter hfresh hne, ?_, ?_, ?_, ?_, ?_, ?_, ?_⟩
  · intro i j hij
    have hbounded := h.bounded
    simp only [Scatter.chain, insertAfter, Function.update_apply] at hij
    grind
  · intro i hi
    have hin : i ≠ n := by
      rintro rfl
      simp [Scatter.chain] at hi
    have hfree := h.fresh i (by simpa [Scatter.chain, hin] using hi)
    have him : i ≠ m := by
      rintro rfl
      simp [Scatter.chain, hin, hc] at hi
    refine ⟨(insertAfter_of_ne him hin).trans hfree.last, ?_⟩
    intro a ha
    have hunlinked := hfree.unlinked
    simp only [Scatter.chain, insertAfter, Function.update_apply] at ha
    grind
  · intro i l hi
    rcases hkey i l hi with ⟨rfl, -⟩ | ⟨-, hi⟩
    · exact hlt
    · exact h.within i l hi
  · intro i l hi
    rcases hkey i l hi with ⟨rfl, rfl⟩ | ⟨-, hi⟩
    · exact hm ▸ reaches_inserted
    · exact (h.home i l hi).insertAfter hfresh hne
  · intro i l hi
    have hold : ∀ i l, s.key i = some l → ∃ u, (s.chain m n k).key (main l) = some u ∧ main u = main l := by
      intro i l hi
      obtain ⟨u, hu, hmain⟩ := h.brent i l hi
      exact ⟨u, by simpa [Scatter.chain, h.main_ne hi hn] using hu, hmain⟩
    rcases hkey i l hi with ⟨rfl, rfl⟩ | ⟨-, hi⟩
    · exact ⟨c, by simpa [Scatter.chain, hm, Ne.symm hne] using hc, hcm.trans hm.symm⟩
    · exact hold i l hi
  · intro i j a b hi hj hai haj hsame
    have hout := fun i l => not_same (i := i) (l := l) hnew
    have hunique := h.unique
    simp only [Scatter.chain, Function.update_apply] at hi hj hai haj
    grind
  · intro i j a b hi hj hai haj hsame
    rcases hkey j b hj with ⟨rfl, -⟩ | ⟨hjn, hj'⟩
    · simp [Scatter.chain] at haj
    replace haj : s.killed j = true := by simpa [Scatter.chain, hjn] using haj
    rcases hkey i a hi with ⟨rfl, rfl⟩ | ⟨hin, hi'⟩
    · have hjm : j ≠ m := by
        rintro rfl
        rw [halive] at haj
        cases haj
      have hreach : Reaches s.next m j := (hm.symm.trans (hmain a b hsame)) ▸ h.home j b hj'
      exact hreach.insertAfter_new hfresh hne hjm
    · exact (h.first i j a b hi' hj' (by simpa [Scatter.chain, hin] using hai) haj hsame).insertAfter hfresh hne

end Insert

/-- A key that is not in its main position can be found behind it. -/
theorem Sound.exists_previous (h : s.Sound size main same) (hlt : main c < size) (hc : s.key m = some c)
    (hcm : main c ≠ m) : ∃ prev, Chains.find (fun i => s.next i = some m) s.next size (main c) = some prev ∧
      s.next prev = some m := by
  obtain ⟨p, hp, hnext⟩ := (h.home m c hc).exists_previous hcm
  cases hfind : Chains.find (fun i => s.next i = some m) s.next size (main c) with
  | none =>
    rw [Chains.find_eq_none_iff h.bounded h.chains hlt] at hfind
    have hmiss := hfind p hp
    rw [hnext] at hmiss
    simp at hmiss
  | some j =>
    obtain ⟨-, hj⟩ := Chains.reaches_of_find h.bounded h.chains hlt hfind
    exact ⟨j, rfl, of_decide_eq_true hj⟩

end Scatter
