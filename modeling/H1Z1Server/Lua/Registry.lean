import H1Z1Server.Lua.Sweeping

/-! What the registry refers to, and what finalizers do to it. -/
namespace H1Z1Server.Lua
namespace GlobalState

/-- The objects that a table refers to, weak references included. -/
def valueRefs (g : GlobalState) (t : Value) : List ℕ :=
  match t with
  | .obj o => match g.body o with
    | some (.table _ array node) => tableRefs array node
    | _ => []
  | _ => []

def registryRefs (g : GlobalState) : List ℕ := g.valueRefs g.registry

variable {g g' : GlobalState} {r : ℕ}

theorem valueRefs_sub (ht : g.isTable r) (h : Shrinks g g' r) :
    ∀ a ∈ g'.valueRefs (.obj r), a ∈ g.valueRefs (.obj r) := by
  obtain ⟨array, node, hr⟩ := ht
  obtain ⟨array', node', hr', hsub⟩ := h array node hr
  simp only [valueRefs, hr, hr']
  exact hsub

theorem registryRefs_sub (hreg : g.registry = .obj r) (hreg' : g'.registry = g.registry)
    (ht : g.isTable r) (h : Shrinks g g' r) : ∀ a ∈ g'.registryRefs, a ∈ g.registryRefs := by
  unfold registryRefs
  rw [hreg', hreg]
  exact valueRefs_sub ht h

/-- References of a table without a metatable are strong. -/
theorem strong_table (ht : g.isTable r) : Heap.strong g.body r = g.valueRefs (.obj r) := by
  obtain ⟨array, node, hr⟩ := ht
  simp [Heap.strong, valueRefs, hr, tableRefs, Heap.mode, Heap.fasttm]

theorem nodeRefs_of_value {n : Value × Value} : ∀ a ∈ n.2.refs, a ∈ nodeRefs false false n := by
  obtain ⟨k, v⟩ := n
  intro a ha
  cases v with
  | nil => cases ha
  | _ => exact List.mem_append_right _ ha

theorem rawgeti_refs (g : GlobalState) (t : Value) (n : ℤ) :
    ∀ a ∈ (g.rawgeti t n).refs, a ∈ g.valueRefs t := by
  intro a ha
  cases t with
  | obj o =>
    cases hb : g.body o with
    | none =>
      simp only [rawgeti, hb] at ha
      cases ha
    | some b =>
      cases b with
      | table metatable array node =>
        simp only [rawgeti, hb] at ha
        simp only [valueRefs, hb]
        split_ifs at ha
        · apply List.mem_append_left
          apply List.mem_flatMap.mpr
          rw [List.getD_eq_getElem?_getD] at ha
          cases hv : array[(n - 1).toNat]? with
          | none =>
            rw [hv] at ha
            cases ha
          | some v =>
            rw [hv] at ha
            exact ⟨v, List.mem_of_getElem? hv, ha⟩
        · apply List.mem_append_right
          apply List.mem_flatMap.mpr
          cases hn : node.find? fun e => e.1 = .number n with
          | none => simp [hn, Value.refs] at ha
          | some e =>
            rw [hn] at ha
            exact ⟨e, List.mem_of_find?_eq_some hn, nodeRefs_of_value a ha⟩
      | _ =>
        simp only [rawgeti, hb] at ha
        cases ha
  | _ => cases ha

theorem nodeRefs_number (n : ℤ) (v : Value) : nodeRefs false false (.number n, v) = v.refs := by
  cases v <;> rfl

/-- Tables lose references, and nothing else changes. -/
structure Releases (g g' : GlobalState) : Prop where
  spares : Spares g g'
  white : g'.iswhite = g.iswhite
  rootgc : g'.rootgc = g.rootgc
  tmudata : g'.tmudata = g.tmudata
  gcstate : g'.gcstate = g.gcstate
  refs : ∀ t, ∀ a ∈ g'.valueRefs t, a ∈ g.valueRefs t

theorem Releases.refl (g : GlobalState) : Releases g g :=
  ⟨.refl g, rfl, rfl, rfl, rfl, fun _ _ ha => ha⟩

theorem Releases.trans {g'' : GlobalState} (h : Releases g g') (h' : Releases g' g'') :
    Releases g g'' where
  spares := h.spares.trans h'.spares
  white := h'.white.trans h.white
  rootgc := h'.rootgc.trans h.rootgc
  tmudata := h'.tmudata.trans h.tmudata
  gcstate := h'.gcstate.trans h.gcstate
  refs t a ha := h.refs t a (h'.refs t a ha)

theorem releases_setBody {o : ℕ} {metatable : Option ℕ} {array array' : List Value}
    {node node' : List (Value × Value)} (hb : g.body o = some (.table metatable array node))
    (hsub : ∀ a ∈ tableRefs array' node', a ∈ tableRefs array node) :
    Releases g (g.setBody o (.table metatable array' node')) where
  spares := (Marks.refl g).spares_setBody hb hsub
  white := test_setBody g o _ _
  rootgc := rfl
  tmudata := rfl
  gcstate := rfl
  refs t a ha := by
    unfold valueRefs at ha ⊢
    cases t with
    | obj x =>
      simp only [body_setBody] at ha ⊢
      split_ifs at ha with hx
      · subst hx
        rw [hb] at ha ⊢
        exact hsub a ha
      · exact ha
    | _ => exact ha

/-- A value that the table refers to already is put under a number. -/
theorem releases_rawseti (g : GlobalState) (t : Value) (n : ℤ) {v : Value}
    (hv : ∀ a ∈ v.refs, a ∈ g.valueRefs t) : Releases g (g.rawseti t n v) := by
  unfold rawseti
  split
  · rename_i o
    split
    · rename_i metatable array node hb
      have hv' : ∀ a ∈ v.refs, a ∈ tableRefs array node := by
        simpa only [valueRefs, hb] using hv
      split_ifs
      · apply releases_setBody hb
        intro a ha
        rcases List.mem_append.mp ha with ha | ha
        · obtain ⟨x, hx, hax⟩ := List.mem_flatMap.mp ha
          rcases List.mem_or_eq_of_mem_set hx with hx | rfl
          · exact List.mem_append_left _ (List.mem_flatMap.mpr ⟨x, hx, hax⟩)
          · exact hv' a hax
        · exact List.mem_append_right _ ha
      · apply releases_setBody hb
        intro a ha
        rcases List.mem_append.mp ha with ha | ha
        · exact List.mem_append_left _ ha
        · obtain ⟨e, he, hae⟩ := List.mem_flatMap.mp ha
          obtain ⟨e', he', rfl⟩ := List.mem_map.mp he
          split_ifs at hae with hkey
          · rw [hkey, nodeRefs_number] at hae
            exact hv' a hae
          · exact List.mem_append_right _ (List.mem_flatMap.mpr ⟨e', he', hae⟩)
      · apply releases_setBody hb
        intro a ha
        rcases List.mem_append.mp ha with ha | ha
        · exact List.mem_append_left _ ha
        · rw [List.flatMap_append, List.mem_append] at ha
          rcases ha with ha | ha
          · exact List.mem_append_right _ ha
          · apply hv'
            simpa [nodeRefs_number] using ha
    · exact .refl g
  · exact .refl g

theorem releases_unref (g : GlobalState) (ref : ℤ) : Releases g (g.unref ref) := by
  unfold unref
  split_ifs
  · have hfirst := g.releases_rawseti g.registry ref (g.rawgeti_refs g.registry 0)
    exact hfirst.trans (releases_rawseti _ _ 0 (by simp [Value.refs]))
  · exact .refl g

theorem releases_unrefs (l : List ℤ) (g : GlobalState) : Releases g (l.foldl unref g) := by
  induction l generalizing g with
  | nil => exact .refl g
  | cons ref rest ih => exact (g.releases_unref ref).trans (ih _)

/-- What white objects can count on while finalizers run. -/
structure Finalizes (g g' : GlobalState) : Prop where
  registry : g'.registry = g.registry
  gcstate : g'.gcstate = g.gcstate
  white : ∀ o, g.iswhite o = true → g'.iswhite o = true
  present : ∀ o, (g.body o).isSome → (g'.body o).isSome
  shrinks : ∀ r, Shrinks g g' r
  rootgc : ∀ o ∈ g.rootgc, o ∈ g'.rootgc
  tmudata : ∀ o ∈ g'.tmudata, o ∈ g.tmudata

theorem Finalizes.refl (g : GlobalState) : Finalizes g g :=
  ⟨rfl, rfl, fun _ h => h, fun _ h => h, .refl g, fun _ h => h, fun _ h => h⟩

theorem Finalizes.of_releases {g'' : GlobalState} (h : Finalizes g g') (h' : Releases g' g'') :
    Finalizes g g'' where
  registry := h'.spares.registry.trans h.registry
  gcstate := h'.gcstate.trans h.gcstate
  white o ho := by
    rw [h'.white]
    exact h.white o ho
  present o ho := h'.spares.present o (h.present o ho)
  shrinks r := (h.shrinks r).trans (h'.spares.shrinks r)
  rootgc o ho := by
    rw [h'.rootgc]
    exact h.rootgc o ho
  tmudata o ho := h.tmudata o (h'.tmudata ▸ ho)

theorem GCTM_spec (g : GlobalState) (released : List ℤ) : Finalizes g (g.GCTM released) := by
  unfold GCTM
  cases htmu : g.tmudata with
  | nil => exact .refl g
  | cons o rest =>
    have hlink : Finalizes g ({ g with
        tmudata := rest, rootgc := g.splitRoot.1 ++ o :: g.splitRoot.2 }.makewhite o) := {
      registry := rfl
      gcstate := rfl
      white := fun a ha => iswhite_makewhite_of_white ha o
      present := fun a ha => by
        rw [body_makewhite]
        exact ha
      shrinks := fun r => .of_body_eq (by
        rw [body_makewhite]
        rfl)
      rootgc := by
        intro a ha
        rw [← g.splitRoot_append] at ha
        rcases List.mem_append.mp ha with ha | ha
        · exact List.mem_append_left _ ha
        · exact List.mem_append_right _ (List.mem_cons_of_mem o ha)
      tmudata := by
        intro a ha
        rw [htmu]
        exact List.mem_cons_of_mem o ha }
    simp only
    split_ifs
    · exact hlink.of_releases (releases_unrefs released _)
    · exact hlink

end GlobalState
end H1Z1Server.Lua
