import Mathlib.Tactic

/-! Traces of a resource that is closed at some point: no use of it may follow. -/
namespace Lifecycle
variable {ε : Type} {closes uses : ε → Prop} {l l' : List ε}

/-- Nothing uses the resource once it has been closed. -/
def Orderly (closes uses : ε → Prop) (l : List ε) : Prop :=
  ∀ before after, l = before ++ after → (∃ e ∈ before, closes e) → ∀ e ∈ after, ¬uses e

/-- A resource that is never closed may be used at any time. -/
theorem orderly_of_open (h : ∀ e ∈ l, ¬closes e) : Orderly closes uses l := by
  rintro before after rfl ⟨e, hbefore, hcloses⟩
  exact absurd hcloses (h e (List.mem_append_left after hbefore))

/-- It may be closed when it is used no more. -/
theorem Orderly.append (h : Orderly closes uses l) (hunused : ∀ e ∈ l', ¬uses e) :
    Orderly closes uses (l ++ l') := by
  intro before after hsplit hclosed e hafter
  rcases List.append_eq_append_iff.mp hsplit with ⟨between, rfl, rfl⟩ | ⟨between, rfl, rfl⟩
  · exact hunused e (List.mem_append_right between hafter)
  · rcases List.mem_append.mp hafter with hbetween | hlast
    · exact h before between rfl hclosed e hbetween
    · exact hunused e hlast

/-- A use behind the closing breaks the order, whatever else happens. -/
theorem not_orderly {before between after : List ε} {c u : ε} (hc : closes c) (hu : uses u) :
    ¬Orderly closes uses (before ++ c :: between ++ u :: after) := by
  intro h
  have hclosed : ∃ e ∈ before ++ c :: between, closes e :=
    ⟨c, List.mem_append_right before List.mem_cons_self, hc⟩
  exact h _ _ rfl hclosed u List.mem_cons_self hu

end Lifecycle
