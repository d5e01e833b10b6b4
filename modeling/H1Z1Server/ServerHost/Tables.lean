import H1Z1Server.ServerHost.Main

/-! The tables of a server: what the loop over one gathers, and which elements stop it. -/
namespace H1Z1Server
open ServerHost

variable {fields : List Field} {elements rest : Elements} {e : Element × Element}
  {info info' : LuaServerData}

/-- What the loop over a table stores up to an unknown key, if no ill-typed element comes before it. -/
def gather (fields : List Field) : Elements → LuaServerData → Option LuaServerData
  | [], info => some info
  | (.string k, value) :: rest, info =>
    match fields.find? (·.key = k) with
    | some field => (field.store value info).bind (gather fields rest)
    | none => some info
  | _ :: _, _ => none

/-- The field that an element is for. -/
def fieldOf (fields : List Field) (e : Element × Element) : Option Field :=
  match e.1 with
  | .string k => fields.find? (·.key = k)
  | _ => none

/-- Well-typed: the key is a string, and the value has the type that goes with it. -/
def fits (fields : List Field) (e : Element × Element) : Bool :=
  e.1.typename = "string" && (fieldOf fields e).all (e.2.typename = ·.expects)

theorem typename_of_fits {field : Field} (hfits : fits fields e = true) (hfield : fieldOf fields e = some field) :
    e.2.typename = field.expects := by
  simp only [fits, hfield, Option.all_some, Bool.and_eq_true, decide_eq_true_eq] at hfits
  exact hfits.2

/-- An ill-typed element that no unknown key stands before. -/
def MeetsIllTyped (fields : List Field) (elements : Elements) : Prop :=
  ∃ before e after, elements = before ++ e :: after ∧ (∀ d ∈ before, fieldOf fields d ≠ none) ∧
    fits fields e = false

theorem meetsIllTyped_cons : MeetsIllTyped fields (e :: rest) ↔
    fits fields e = false ∨ (fieldOf fields e ≠ none ∧ MeetsIllTyped fields rest) := by
  constructor
  · rintro ⟨before, d, after, heq, hknown, hbad⟩
    cases before with
    | nil =>
      obtain ⟨rfl, rfl⟩ := List.cons.inj heq
      exact .inl hbad
    | cons b before =>
      obtain ⟨rfl, rfl⟩ := List.cons.inj heq
      exact .inr ⟨hknown e List.mem_cons_self, before, d, after, rfl,
        fun c hc => hknown c (List.mem_cons_of_mem e hc), hbad⟩
  · rintro (hbad | ⟨hknown, before, d, after, rfl, hrest, hbad⟩)
    · exact ⟨[], e, rest, rfl, fun d hd => absurd hd List.not_mem_nil, hbad⟩
    · exact ⟨e :: before, d, after, rfl, List.forall_mem_cons.mpr ⟨hknown, hrest⟩, hbad⟩

/-- What the loop does with one element. -/
theorem gather_cons (e : Element × Element) (rest : Elements) (info : LuaServerData) :
    gather fields (e :: rest) info =
      if e.1.typename = "string" then
        match fieldOf fields e with
        | some field => (field.store e.2 info).bind (gather fields rest)
        | none => some info
      else none := by
  obtain ⟨key, value⟩ := e
  cases key <;> rfl

/-- There is no data exactly if the loop meets an ill-typed element. -/
theorem gather_eq_none_iff : gather fields elements info = none ↔ MeetsIllTyped fields elements := by
  induction elements generalizing info with
  | nil =>
    refine ⟨fun h => (Option.some_ne_none _ h).elim, ?_⟩
    rintro ⟨before, e, after, heq, -⟩
    simp at heq
  | cons e rest ih =>
    rw [gather_cons, meetsIllTyped_cons]
    by_cases hkey : e.1.typename = "string"
    · cases hfield : fieldOf fields e with
      | none => simp [hkey, fits, hfield]
      | some field =>
        cases hstore : field.store e.2 info with
        | none =>
          have htype : e.2.typename ≠ field.expects := by simp [← field.typed e.2 info, hstore]
          simp [hkey, fits, hfield, hstore, htype]
        | some info' =>
          have htype : e.2.typename = field.expects := by simp [← field.typed e.2 info, hstore]
          simp [hkey, fits, hfield, hstore, htype, ih]
    · simp [hkey, fits]

theorem not_meets_of_all {fields : List Field} {elements : Elements} (h : elements.all (fits fields) = true) :
    ¬MeetsIllTyped fields elements := by
  rintro ⟨before, e, after, rfl, -, hbad⟩
  have hfits := List.all_eq_true.mp h e (by simp)
  simp [hbad] at hfits

theorem gather_of_all {fields : List Field} {elements : Elements} (h : elements.all (fits fields) = true)
    (info : LuaServerData) : ∃ info', gather fields elements info = some info' := by
  apply Option.ne_none_iff_exists'.mp
  intro hnone
  exact not_meets_of_all h (gather_eq_none_iff.mp hnone)

theorem fieldOf_mem {field : Field} (h : fieldOf fields e = some field) : field ∈ fields := by
  unfold fieldOf at h
  split at h
  · exact List.mem_of_find?_eq_some h
  · cases h

/-- What the stores of a table leave alone, the loop over it leaves alone. -/
theorem gather_preserves {P : LuaServerData → Prop}
    (hstore : ∀ e ∈ elements, ∀ field, fieldOf fields e = some field →
      ∀ info info', field.store e.2 info = some info' → P info → P info')
    (hgather : gather fields elements info = some info') (h : P info) : P info' := by
  induction elements generalizing info with
  | nil =>
    cases hgather
    exact h
  | cons e rest ih =>
    rw [gather_cons] at hgather
    split at hgather
    next hkey =>
      cases hfield : fieldOf fields e with
      | none =>
        simp only [hfield, Option.some.injEq] at hgather
        exact hgather ▸ h
      | some field =>
        simp only [hfield, Option.bind_eq_some_iff] at hgather
        obtain ⟨next, hnext, hrest⟩ := hgather
        have hafter := hstore e List.mem_cons_self field hfield info next hnext h
        exact ih (fun d hd => hstore d (List.mem_cons_of_mem e hd)) hrest hafter
    next => cases hgather

end H1Z1Server
