import Mathlib.Logic.Function.Basic
import Mathlib.Logic.Relation
import Mathlib.Tactic

/-! Chains threaded through numbered cells, each of which names the cell behind it. -/
namespace Chains

/-- The cell behind a cell, if there is one. -/
abbrev Links := ℕ → Option ℕ

/-- The chain from a cell on ends with the last cell of this list. -/
inductive Path (next : Links) : ℕ → List ℕ → Prop where
  | last {a : ℕ} (h : next a = none) : Path next a [a]
  | cons {a b : ℕ} {l : List ℕ} (h : next a = some b) (hrest : Path next b l) : Path next a (a :: l)

/-- The chain from `a` on comes to `b`. -/
inductive Reaches (next : Links) : ℕ → ℕ → Prop where
  | refl (a : ℕ) : Reaches next a a
  | step {a b c : ℕ} (h : next a = some b) (hrest : Reaches next b c) : Reaches next a c

/-- No cell is behind two others, and every chain ends. -/
structure Sound (next : Links) : Prop where
  apart : ∀ a b c, next a = some c → next b = some c → a = b
  ends : ∀ a, ∃ l, Path next a l

/-- The first cell that passes a test, among so many from `a` on. -/
def find (p : ℕ → Bool) (next : Links) : ℕ → ℕ → Option ℕ
  | 0, _ => none
  | n + 1, a =>
    if p a then some a
    else match next a with
      | none => none
      | some b => find p next n b

variable {next : Links} {a b c m n : ℕ} {l : List ℕ} {p : ℕ → Bool}

theorem Reaches.trans (h : Reaches next a b) (h' : Reaches next b c) : Reaches next a c := by
  induction h with
  | refl a => exact h'
  | step hlink _ ih => exact .step hlink (ih h')

theorem Reaches.tail (h : Reaches next a b) (hlink : next b = some c) : Reaches next a c :=
  h.trans (.step hlink (.refl c))

theorem Reaches.eq_of_last (h : Reaches next a b) (hlast : next a = none) : b = a := by
  cases h with
  | refl => rfl
  | step hlink _ =>
    rw [hlast] at hlink
    cases hlink

/-- A cell that is not the first of the way to it is behind another one. -/
theorem Reaches.exists_previous (h : Reaches next a b) (hne : a ≠ b) :
    ∃ c, Reaches next a c ∧ next c = some b := by
  induction h with
  | refl a => exact absurd rfl hne
  | @step a c b hlink hrest ih =>
    by_cases hcb : c = b
    · subst hcb
      exact ⟨a, .refl a, hlink⟩
    · obtain ⟨d, hd, hlast⟩ := ih hcb
      exact ⟨d, .step hlink hd, hlast⟩

/-- Nothing that holds of a cell and of what is behind it is lost on the way. -/
theorem Reaches.induct {P : ℕ → Prop} (h : Reaches next a b) (hstep : ∀ c d, P c → next c = some d → P d)
    (ha : P a) : P b := by
  induction h with
  | refl => exact ha
  | step hlink _ ih => exact ih (hstep _ _ ha hlink)

theorem Path.mem_iff (h : Path next a l) : b ∈ l ↔ Reaches next a b := by
  induction h with
  | @last a hlast =>
    rw [List.mem_singleton]
    constructor
    · rintro rfl
      exact .refl b
    · exact fun hb => hb.eq_of_last hlast
  | @cons a c l hlink hrest ih =>
    rw [List.mem_cons, ih]
    constructor
    · rintro (rfl | hb)
      · exact .refl b
      · exact .step hlink hb
    · intro hb
      cases hb with
      | refl => exact .inl rfl
      | step hlink' hb =>
        rw [hlink] at hlink'
        cases hlink'
        exact .inr hb

theorem Path.unique {l' : List ℕ} (h : Path next a l) (h' : Path next a l') : l = l' := by
  induction h generalizing l' with
  | last hlast =>
    cases h' with
    | last => rfl
    | cons hlink =>
      rw [hlast] at hlink
      cases hlink
  | cons hlink _ ih =>
    cases h' with
    | last hlast =>
      rw [hlast] at hlink
      cases hlink
    | cons hlink' hrest' =>
      rw [hlink] at hlink'
      cases hlink'
      rw [ih hrest']

/-- From a cell of a path on, what is left of it is the path of that cell. -/
theorem Path.suffix (h : Path next a l) (hb : Reaches next a b) : ∃ l', Path next b l' ∧ l' <:+ l := by
  induction hb generalizing l with
  | refl => exact ⟨l, h, List.suffix_refl l⟩
  | step hlink _ ih =>
    cases h with
    | last hlast =>
      rw [hlast] at hlink
      cases hlink
    | cons hlink' hrest =>
      rw [hlink] at hlink'
      cases hlink'
      obtain ⟨l', hl', hsuffix⟩ := ih hrest
      exact ⟨l', hl', hsuffix.trans (List.suffix_cons _ _)⟩

/-- A chain that ends does not come back. -/
theorem Path.not_reaches (h : Path next a l) (hlink : next a = some b) : ¬Reaches next b a := by
  intro hback
  cases h with
  | last hlast =>
    rw [hlast] at hlink
    cases hlink
  | @cons _ c l hlink' hrest =>
    rw [hlink] at hlink'
    cases hlink'
    obtain ⟨l', hl', hsuffix⟩ := hrest.suffix hback
    have hsame := hl'.unique (.cons hlink hrest)
    have hle := hsuffix.length_le
    rw [hsame, List.length_cons] at hle
    omega

theorem Path.nodup (h : Path next a l) : l.Nodup := by
  induction h with
  | last => exact List.nodup_singleton _
  | cons hlink hrest ih =>
    refine List.nodup_cons.mpr ⟨?_, ih⟩
    rw [hrest.mem_iff]
    exact (Path.cons hlink hrest).not_reaches hlink

theorem Reaches.antisymm (h : Reaches next a b) (h' : Reaches next b a) (hpath : Path next a l) : a = b := by
  cases h with
  | refl => rfl
  | step hlink hrest => exact absurd (hrest.trans h') (hpath.not_reaches hlink)

theorem find_eq (h : Path next a l) (hle : l.length ≤ n) : find p next n a = l.find? p := by
  induction h generalizing n with
  | last hlast =>
    cases n with
    | zero => simp at hle
    | succ n =>
      rw [find, hlast, List.find?_cons, List.find?_nil]
      split
      · simp only [*]
      · simp only [*]
  | cons hlink _ ih =>
    cases n with
    | zero => simp at hle
    | succ n =>
      rw [find, hlink, List.find?_cons]
      rw [List.length_cons, Nat.succ_le_succ_iff] at hle
      split
      · simp only [*]
      · simp only [*, ih hle]

/-- Nothing that passes the test is in front of what a search finds. -/
theorem Path.find_first (h : Path next a l) (hfind : l.find? p = some b) (hc : Reaches next a c)
    (hpc : p c = true) : Reaches next b c := by
  induction h with
  | @last a hlast =>
    obtain rfl := hc.eq_of_last hlast
    obtain rfl := List.mem_singleton.mp (List.mem_of_find?_eq_some hfind)
    exact .refl b
  | @cons a d l hlink _ ih =>
    rw [List.find?_cons] at hfind
    split at hfind
    · cases hfind
      exact hc
    · cases hc with
      | refl => simp_all
      | step hlink' hrest =>
        rw [hlink] at hlink'
        cases hlink'
        exact ih hfind hrest

section Bounded
variable {size : ℕ} (hbound : ∀ a b, next a = some b → b < size)
include hbound

theorem Reaches.lt (h : Reaches next a b) (ha : a < size) : b < size :=
  h.induct (fun c d _ hlink => hbound c d hlink) ha

theorem Path.length_le (h : Path next a l) (ha : a < size) : l.length ≤ size := by
  have hsub : l ⊆ List.range size := by
    intro b hb
    rw [List.mem_range]
    exact (h.mem_iff.mp hb).lt hbound ha
  calc l.length ≤ (List.range size).length := (h.nodup.subperm hsub).length_le
    _ = size := List.length_range

/-- As many steps as there are cells are enough for a search. -/
theorem find_eq_none_iff (hsound : Sound next) (ha : a < size) :
    find p next size a = none ↔ ∀ b, Reaches next a b → p b = false := by
  obtain ⟨l, hl⟩ := hsound.ends a
  rw [find_eq hl (hl.length_le hbound ha), List.find?_eq_none]
  simp only [hl.mem_iff, Bool.not_eq_true]

theorem reaches_of_find (hsound : Sound next) (ha : a < size) (h : find p next size a = some b) :
    Reaches next a b ∧ p b = true := by
  obtain ⟨l, hl⟩ := hsound.ends a
  rw [find_eq hl (hl.length_le hbound ha)] at h
  exact ⟨hl.mem_iff.mp (List.mem_of_find?_eq_some h), List.find?_some h⟩

theorem find_first (hsound : Sound next) (ha : a < size) (h : find p next size a = some b)
    (hc : Reaches next a c) (hpc : p c = true) : Reaches next b c := by
  obtain ⟨l, hl⟩ := hsound.ends a
  rw [find_eq hl (hl.length_le hbound ha)] at h
  exact hl.find_first h hc hpc

end Bounded

/-- A cell that is in no chain but its own. -/
structure Fresh (next : Links) (n : ℕ) : Prop where
  last : next n = none
  unlinked : ∀ a, next a ≠ some n

/-- `n` is put behind `m`. -/
def insertAfter (next : Links) (m n : ℕ) : Links :=
  Function.update (Function.update next n (next m)) m (some n)

/-- `n` takes the place of `m` behind `prev`, and `m` is left alone. -/
def replace (next : Links) (prev m n : ℕ) : Links :=
  Function.update (Function.update (Function.update next prev (some n)) n (next m)) m none

theorem insertAfter_new (hne : n ≠ m) : insertAfter next m n n = next m := by
  rw [insertAfter, Function.update_of_ne hne, Function.update_self]

theorem insertAfter_self : insertAfter next m n m = some n := Function.update_self ..

theorem insertAfter_of_ne (ham : a ≠ m) (han : a ≠ n) : insertAfter next m n a = next a := by
  rw [insertAfter, Function.update_of_ne ham, Function.update_of_ne han]

theorem reaches_inserted : Reaches (insertAfter next m n) m n := .step insertAfter_self (.refl n)

section InsertAfter
variable (hfresh : Fresh next n) (hne : n ≠ m)
include hfresh hne

theorem Reaches.insertAfter (h : Reaches next a b) : Reaches (insertAfter next m n) a b := by
  apply h.induct (P := fun b => Reaches (Chains.insertAfter next m n) a b) _ (.refl a)
  intro c d hc hlink
  by_cases hcm : c = m
  · subst hcm
    exact (hc.tail insertAfter_self).tail ((insertAfter_new hne).trans hlink)
  · have hcn : c ≠ n := by
      rintro rfl
      rw [hfresh.last] at hlink
      cases hlink
    exact hc.tail ((insertAfter_of_ne hcm hcn).trans hlink)

/-- What is behind `m` is behind `n`. -/
theorem Reaches.insertAfter_new (h : Reaches next m b) (hb : b ≠ m) : Reaches (Chains.insertAfter next m n) n b := by
  cases h with
  | refl => exact absurd rfl hb
  | step hlink hrest => exact .step ((Chains.insertAfter_new hne).trans hlink) (hrest.insertAfter hfresh hne)

theorem Path.insertAfter (h : Path next a l) (hn : a ≠ n) : ∃ l', Path (insertAfter next m n) a l' := by
  induction h with
  | @last a hlast =>
    by_cases ham : a = m
    · subst ham
      exact ⟨_, .cons insertAfter_self (.last ((insertAfter_new hne).trans hlast))⟩
    · exact ⟨_, .last ((insertAfter_of_ne ham hn).trans hlast)⟩
  | @cons a b l hlink hrest ih =>
    have hbn : b ≠ n := fun heq => hfresh.unlinked a (heq ▸ hlink)
    obtain ⟨l', hl'⟩ := ih hbn
    by_cases ham : a = m
    · subst ham
      exact ⟨_, .cons insertAfter_self (.cons ((insertAfter_new hne).trans hlink) hl')⟩
    · exact ⟨_, .cons ((insertAfter_of_ne ham hn).trans hlink) hl'⟩

theorem Sound.insertAfter (h : Sound next) : Sound (insertAfter next m n) where
  apart a b c ha hb := by
    have hfirst := h.apart
    have hunlinked := hfresh.unlinked
    simp only [Chains.insertAfter, Function.update_apply] at ha hb
    grind
  ends a := by
    by_cases hn : a = n
    · subst hn
      cases hlink : next m with
      | none => exact ⟨_, .last ((insertAfter_new hne).trans hlink)⟩
      | some b =>
        have hbn : b ≠ a := fun heq => hfresh.unlinked m (heq ▸ hlink)
        obtain ⟨l, hl⟩ := h.ends b
        obtain ⟨l', hl'⟩ := hl.insertAfter hfresh hne hbn
        exact ⟨_, .cons ((insertAfter_new hne).trans hlink) hl'⟩
    · obtain ⟨l, hl⟩ := h.ends a
      exact hl.insertAfter hfresh hne hn

end InsertAfter

theorem replace_self {prev : ℕ} : replace next prev m n m = none := Function.update_self ..

theorem replace_new {prev : ℕ} (hne : n ≠ m) : replace next prev m n n = next m := by
  rw [replace, Function.update_of_ne hne, Function.update_self]

theorem replace_of_ne {prev : ℕ} (ham : a ≠ m) (han : a ≠ n) (hap : a ≠ prev) :
    replace next prev m n a = next a := by
  rw [replace, Function.update_of_ne ham, Function.update_of_ne han, Function.update_of_ne hap]

section Replace
variable {prev : ℕ} (hsound : Sound next) (hfresh : Fresh next n) (hprev : next prev = some m) (hne : n ≠ m)
include hsound hfresh hprev hne

theorem replace_prev : replace next prev m n prev = some n := by
  have hpm : prev ≠ m := by
    rintro rfl
    obtain ⟨l, hl⟩ := hsound.ends prev
    exact hl.not_reaches hprev (.refl prev)
  have hpn : prev ≠ n := by
    rintro rfl
    rw [hfresh.last] at hprev
    cases hprev
  rw [replace, Function.update_of_ne hpm, Function.update_of_ne hpn, Function.update_self]

/-- What is reached from another cell still is, `n` in place of `m`. -/
theorem Reaches.replace (h : Reaches next a b) (ha : a ≠ m) :
    Reaches (replace next prev m n) a (if b = m then n else b) := by
  apply h.induct (P := fun b => Reaches (Chains.replace next prev m n) a (if b = m then n else b))
  · intro c d hc hlink
    by_cases hdm : d = m
    · subst hdm
      obtain rfl := hsound.apart _ _ _ hlink hprev
      have hcd : c ≠ d := by
        rintro rfl
        obtain ⟨l, hl⟩ := hsound.ends c
        exact hl.not_reaches hlink (.refl c)
      rw [if_neg hcd] at hc
      rw [if_pos rfl]
      exact hc.tail (replace_prev hsound hfresh hprev hne)
    · rw [if_neg hdm]
      by_cases hcm : c = m
      · subst hcm
        rw [if_pos rfl] at hc
        exact hc.tail ((replace_new hne).trans hlink)
      · rw [if_neg hcm] at hc
        have hcn : c ≠ n := by
          rintro rfl
          rw [hfresh.last] at hlink
          cases hlink
        have hcp : c ≠ prev := by
          rintro rfl
          rw [hprev] at hlink
          exact hdm (Option.some.inj hlink).symm
        exact hc.tail ((replace_of_ne hcm hcn hcp).trans hlink)
  · rw [if_neg ha]
    exact .refl a

/-- What is behind `m` is behind `n`. -/
theorem Reaches.replace_self (h : Reaches next m b) (hb : b ≠ m) : Reaches (Chains.replace next prev m n) n b := by
  cases h with
  | refl => exact absurd rfl hb
  | @step _ d _ hlink hrest =>
    have hdm : d ≠ m := by
      rintro rfl
      obtain ⟨l, hl⟩ := hsound.ends d
      exact hl.not_reaches hlink (.refl d)
    have hreach := hrest.replace hsound hfresh hprev hne hdm
    rw [if_neg hb] at hreach
    exact .step ((replace_new hne).trans hlink) hreach

theorem Path.replace (h : Path next a l) (hn : a ≠ n) : (∃ l', Path (replace next prev m n) a l') ∧
    ∀ b, next a = some b → ∃ l', Path (replace next prev m n) b l' := by
  have hpath : ∀ {a}, a ≠ n → (∀ b, next a = some b → ∃ l', Path (Chains.replace next prev m n) b l') →
      a ≠ prev → ∃ l', Path (Chains.replace next prev m n) a l' := by
    intro a hn hrest hap
    by_cases ham : a = m
    · exact ⟨_, .last (ham ▸ replace_self)⟩
    · have hsame : Chains.replace next prev m n a = next a := replace_of_ne ham hn hap
      cases hlink : next a with
      | none => exact ⟨_, .last (hsame.trans hlink)⟩
      | some b =>
        obtain ⟨l', hl'⟩ := hrest b hlink
        exact ⟨_, .cons (hsame.trans hlink) hl'⟩
  induction h with
  | @last a hlast =>
    have hnone : ∀ b, next a = some b → ∃ l', Path (Chains.replace next prev m n) b l' := by
      intro b hlink
      rw [hlast] at hlink
      cases hlink
    refine ⟨hpath hn hnone ?_, hnone⟩
    rintro rfl
    rw [hlast] at hprev
    cases hprev
  | @cons a b l hlink hrest ih =>
    have hbn : b ≠ n := fun heq => hfresh.unlinked a (heq ▸ hlink)
    obtain ⟨⟨l', hl'⟩, hbehind⟩ := ih hbn
    have hnext : ∀ c, next a = some c → ∃ l', Path (Chains.replace next prev m n) c l' := by
      intro c hc
      rw [hlink] at hc
      cases hc
      exact ⟨l', hl'⟩
    refine ⟨?_, hnext⟩
    by_cases hap : a = prev
    · subst hap
      rw [hprev] at hlink
      cases hlink
      have hnew : Chains.replace next a m n n = next m := replace_new hne
      cases hm : next m with
      | none => exact ⟨_, .cons (replace_prev hsound hfresh hprev hne) (.last (hnew.trans hm))⟩
      | some c =>
        obtain ⟨k, hk⟩ := hbehind c hm
        exact ⟨_, .cons (replace_prev hsound hfresh hprev hne) (.cons (hnew.trans hm) hk)⟩
    · exact hpath hn hnext hap

theorem Sound.replace : Sound (replace next prev m n) where
  apart a b c ha hb := by
    have hfirst := hsound.apart
    have hunlinked := hfresh.unlinked
    simp only [Chains.replace, Function.update_apply] at ha hb
    grind
  ends a := by
    by_cases hn : a = n
    · subst hn
      cases hlink : next m with
      | none => exact ⟨_, .last ((replace_new hne).trans hlink)⟩
      | some b =>
        have hbn : b ≠ a := fun heq => hfresh.unlinked m (heq ▸ hlink)
        obtain ⟨l, hl⟩ := hsound.ends b
        obtain ⟨⟨l', hl'⟩, -⟩ := hl.replace hsound hfresh hprev hne hbn
        exact ⟨_, .cons ((replace_new hne).trans hlink) hl'⟩
    · obtain ⟨l, hl⟩ := hsound.ends a
      exact (hl.replace hsound hfresh hprev hne hn).1

end Replace

end Chains
