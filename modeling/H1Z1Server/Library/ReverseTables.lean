import Mathlib.Tactic

/-! A table of names by codes, and its reverse, which are written pair by pair. Codes are compared by a
relation that need not be reflexive. -/
namespace ReverseTables
variable {ν κ : Type}

@[ext] structure Tables (ν κ : Type) where
  nameOf : κ → Option ν
  codeOf : ν → Option κ

def empty : Tables ν κ := ⟨fun _ => none, fun _ => none⟩

variable [DecidableEq ν] (same : κ → κ → Bool)

/-- A pair is written into both tables, in place of what either of them has there. -/
def Tables.write (t : Tables ν κ) (p : ν × κ) : Tables ν κ where
  nameOf c := if same c p.2 then some p.1 else t.nameOf c
  codeOf := Function.update t.codeOf p.1 (some p.2)

def writeAll (pairs : List (ν × κ)) : Tables ν κ := pairs.foldl (Tables.write same) empty

/-- No name has two codes. -/
def Functional (pairs : List (ν × κ)) : Prop := ∀ p ∈ pairs, ∀ q ∈ pairs, p.1 = q.1 → p.2 = q.2

/-- No code has two names. -/
def Unambiguous (pairs : List (ν × κ)) : Prop := ∀ p ∈ pairs, ∀ q ∈ pairs, same p.2 q.2 = true → p.1 = q.1

variable {same} {t : Tables ν κ} {p : ν × κ} {pairs pairs' : List (ν × κ)} {v : ν} {c : κ}

theorem codeOf_write_self (t : Tables ν κ) (p : ν × κ) : (t.write same p).codeOf p.1 = some p.2 :=
  Function.update_self ..

theorem codeOf_write_of_ne (h : v ≠ p.1) : (t.write same p).codeOf v = t.codeOf v :=
  Function.update_of_ne h ..

theorem nameOf_write_of_same (h : same c p.2 = true) : (t.write same p).nameOf c = some p.1 := if_pos h

theorem nameOf_write_of_not (h : ¬same c p.2 = true) : (t.write same p).nameOf c = t.nameOf c := if_neg h

theorem writeAll_concat (pairs : List (ν × κ)) (p : ν × κ) :
    writeAll same (pairs ++ [p]) = (writeAll same pairs).write same p := by
  rw [writeAll, List.foldl_append, List.foldl_cons, List.foldl_nil, writeAll]

theorem mem_of_codeOf (h : (writeAll same pairs).codeOf v = some c) : (v, c) ∈ pairs := by
  induction pairs using List.reverseRecOn with
  | nil => cases h
  | append_singleton pairs p ih =>
    rw [writeAll_concat] at h
    rw [List.mem_append, List.mem_singleton]
    by_cases hv : v = p.1
    · subst hv
      rw [codeOf_write_self] at h
      exact .inr (by rw [← Option.some.inj h])
    · rw [codeOf_write_of_ne hv] at h
      exact .inl (ih h)

theorem exists_codeOf (h : (v, c) ∈ pairs) : ∃ d, (writeAll same pairs).codeOf v = some d := by
  induction pairs using List.reverseRecOn with
  | nil => cases h
  | append_singleton pairs p ih =>
    rw [writeAll_concat]
    by_cases hv : v = p.1
    · exact ⟨p.2, by rw [hv, codeOf_write_self]⟩
    · rw [List.mem_append, List.mem_singleton] at h
      rw [codeOf_write_of_ne hv]
      exact ih (h.resolve_right fun heq => hv (congrArg Prod.fst heq))

theorem codeOf_iff (hfun : Functional pairs) :
    (writeAll same pairs).codeOf v = some c ↔ (v, c) ∈ pairs := by
  constructor
  · exact mem_of_codeOf
  · intro h
    obtain ⟨d, hd⟩ : ∃ d, (writeAll same pairs).codeOf v = some d := exists_codeOf h
    have hcode : c = d := hfun (v, c) h (v, d) (mem_of_codeOf hd) rfl
    rw [hd, hcode]

theorem mem_of_nameOf (h : (writeAll same pairs).nameOf c = some v) :
    ∃ d, (v, d) ∈ pairs ∧ same c d = true := by
  induction pairs using List.reverseRecOn with
  | nil => cases h
  | append_singleton pairs p ih =>
    rw [writeAll_concat] at h
    by_cases hsame : same c p.2 = true
    · rw [nameOf_write_of_same hsame] at h
      obtain rfl := Option.some.inj h
      exact ⟨p.2, List.mem_append_right pairs List.mem_cons_self, hsame⟩
    · rw [nameOf_write_of_not hsame] at h
      obtain ⟨d, hd, hsame⟩ := ih h
      exact ⟨d, List.mem_append_left _ hd, hsame⟩

theorem exists_nameOf {d : κ} (h : (v, d) ∈ pairs) (hsame : same c d = true) :
    ∃ w, (writeAll same pairs).nameOf c = some w := by
  induction pairs using List.reverseRecOn with
  | nil => cases h
  | append_singleton pairs p ih =>
    rw [writeAll_concat]
    by_cases hlast : same c p.2 = true
    · exact ⟨p.1, nameOf_write_of_same hlast⟩
    · rw [List.mem_append, List.mem_singleton] at h
      rw [nameOf_write_of_not hlast]
      apply ih
      apply h.resolve_right
      rintro rfl
      exact hlast hsame

section Equality
variable (hsymm : ∀ c d, same c d = true → same d c = true)
  (htrans : ∀ c d e, same c d = true → same d e = true → same c e = true)
include hsymm htrans

/-- Codes that are the same have the same name. -/
theorem nameOf_congr {d : κ} (h : same c d = true) :
    (writeAll same pairs).nameOf c = (writeAll same pairs).nameOf d := by
  induction pairs using List.reverseRecOn with
  | nil => rfl
  | append_singleton pairs p ih =>
    rw [writeAll_concat]
    by_cases hc : same c p.2 = true
    · rw [nameOf_write_of_same hc, nameOf_write_of_same (htrans d c p.2 (hsymm c d h) hc)]
    · rw [nameOf_write_of_not hc, nameOf_write_of_not fun hd => hc (htrans c d p.2 h hd), ih]

theorem nameOf_iff (hcodes : Unambiguous same pairs) :
    (writeAll same pairs).nameOf c = some v ↔ ∃ d, (v, d) ∈ pairs ∧ same c d = true := by
  constructor
  · exact mem_of_nameOf
  · rintro ⟨d, hd, hsame⟩
    obtain ⟨w, hw⟩ := exists_nameOf hd hsame
    obtain ⟨e, he, hsame'⟩ := mem_of_nameOf hw
    have hname : w = v := hcodes (w, e) he (v, d) hd (htrans e c d (hsymm c e hsame') hsame)
    rw [hw, hname]

/-- The order in which the pairs are written does not matter. -/
theorem writeAll_perm (hfun : Functional pairs) (hcodes : Unambiguous same pairs) (h : pairs'.Perm pairs) :
    writeAll same pairs' = writeAll same pairs := by
  have hfun' : Functional pairs' := fun p hp q hq => hfun p (h.mem_iff.mp hp) q (h.mem_iff.mp hq)
  have hcodes' : Unambiguous same pairs' :=
    fun p hp q hq => hcodes p (h.mem_iff.mp hp) q (h.mem_iff.mp hq)
  ext c v
  · rw [nameOf_iff hsymm htrans hcodes', nameOf_iff hsymm htrans hcodes]
    simp only [h.mem_iff]
  · rw [codeOf_iff hfun', codeOf_iff hfun, h.mem_iff]

end Equality

end ReverseTables
