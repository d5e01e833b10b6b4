import H1Z1Server.Lua.Registry

/-! The steps of the collector, and the packets that arrive between them. What the registry refers
to is guarded in every phase of a collection. -/
namespace H1Z1Server.Lua
open GlobalState Colouring

inductive Action where
  | collect (L : ℕ) (released : List ℤ)
  | packet (socketRef eventRef : ℤ)

namespace GlobalState

def step (g : GlobalState) : Action → GlobalState
  | .collect L released => g.singlestep L released
  | .packet socketRef eventRef => g.eventHandlerMarks socketRef eventRef

/-- A property of every step of a run. -/
def Along (P : GlobalState → Action → Prop) (g : GlobalState) : List Action → Prop
  | [] => True
  | act :: acts => P g act ∧ (g.step act).Along P acts

def IsUserdata (g : GlobalState) : Value → Prop
  | .lightuserdata _ => True
  | .obj a => ∃ metatable env, g.body a = some (.userdata metatable env)
  | _ => False

/-- A packet comes with references to userdata. -/
def Lawful (g : GlobalState) : Action → Prop
  | .collect _ _ => True
  | .packet socketRef eventRef => g.IsUserdata (g.rawgeti g.registry socketRef) ∧
      g.IsUserdata (g.rawgeti g.registry eventRef)

/-- While the collector propagates marks, userdata are whitened only if a chain of white objects
still leads to them from an object that waits to be traversed. -/
def Calm (g : GlobalState) : Action → Prop
  | .collect _ _ => True
  | .packet socketRef eventRef => g.gcstate = .propagate →
      ∀ a ∈ (g.rawgeti g.registry socketRef).refs ++ (g.rawgeti g.registry eventRef).refs,
        g.pending.GreyProtected a

/-- Nothing that the registry refers to is separated for finalization, or freed. -/
def Harmless (g : GlobalState) (act : Action) : Prop :=
  ∀ a ∈ g.registryRefs, (a ∈ (g.step act).tmudata → a ∈ g.tmudata) ∧
    ((g.body a).isSome → ((g.step act).body a).isSome)

/-- The invariant of incremental collection. Marking leaves no reference from black to white, and
keeps what is gray on its worklists. Sweeping leaves no reference from what lives to what is dead,
and whitens what it passes. -/
structure TriColour (g : GlobalState) : Prop where
  registry : ∃ r, g.registry = .obj r ∧ g.isTable r ∧ r ∈ g.rootgc
  colours : match g.gcstate with
    | .pause | .finalize => ∀ o ∈ g.rootgc, g.iswhite o = true
    | .propagate => (∀ r ∈ g.registry.refs, g.iswhite r = false) ∧
        ∀ o < g.objects.length,
          (g.isblack o = true → ∀ a ∈ Heap.strong g.body o, g.iswhite a = false) ∧
          (g.isgray o = true ∧ Heap.listed g.body o = true →
            o ∈ g.gray ∨ o ∈ g.grayagain ∨ o ∈ g.weak)
    | .sweepstring | .sweep => (∀ r ∈ g.registry.refs, g.isdead r = false) ∧
        (∀ o < g.objects.length, g.isdead o = false →
          ∀ a ∈ Heap.strong g.body o, g.isdead a = false) ∧
        ∀ o ∈ g.rootgc.take g.sweepgc, g.iswhite o = true

/-- What a run keeps of the registry, the table `r`. -/
structure Guarded (r : ℕ) (g : GlobalState) : Prop where
  registry : g.registry = .obj r
  table : g.isTable r
  rooted : r ∈ g.rootgc
  phase : match g.gcstate with
    | .pause | .finalize => g.iswhite r = true
    | .propagate => g.iswhite r = false ∧ ∀ a ∈ g.registryRefs, g.pending.Accounted a
    | .sweepstring | .sweep => Swept r g.sweepgc g ∧ ∀ a ∈ g.registryRefs, g.isdead a = false

variable {g g' : GlobalState} {r : ℕ}

theorem registryRefs_eq_strong (hreg : g.registry = .obj r) (ht : g.isTable r) :
    g.registryRefs = Heap.strong g.body r := by
  unfold registryRefs
  rw [hreg, strong_table ht]

theorem lt_length_of_body {o : ℕ} (h : (g.body o).isSome) : o < g.objects.length := by
  by_contra hge
  simp [body, get, List.getElem?_eq_none (not_lt.mp hge)] at h

theorem isTable.isSome (h : g.isTable r) : (g.body r).isSome := by
  obtain ⟨array, node, hr⟩ := h
  rw [hr]
  rfl

theorem isTable.listed (h : g.isTable r) : Heap.listed g.body r = true := by
  obtain ⟨array, node, hr⟩ := h
  simp [Heap.listed, hr, Body.isListed]

/-- An object is white, gray or black. -/
theorem isblack_or_isgray (hs : (g.body r).isSome) (hw : g.iswhite r = false) :
    g.isblack r = true ∨ g.isgray r = true := by
  unfold body at hs
  unfold iswhite test at hw
  unfold isblack isgray test
  cases hg : g.get r with
  | none => simp [hg] at hs
  | some x =>
    simp only [hg, Option.any_some] at hw ⊢
    cases x.marked.black <;> simp [hw]

theorem TriColour.guarded (h : TriColour g) : ∃ r, Guarded r g := by
  obtain ⟨r, hreg, ht, hroot⟩ := h.registry
  have hcolours := h.colours
  have hlt := lt_length_of_body ht.isSome
  have hrefs := registryRefs_eq_strong hreg ht
  refine ⟨r, hreg, ht, hroot, ?_⟩
  cases hstate : g.gcstate with
  | pause | finalize =>
    rw [hstate] at hcolours
    exact hcolours r hroot
  | propagate =>
    rw [hstate] at hcolours
    obtain ⟨hnonwhite, hobjects⟩ := hcolours
    have hw := hnonwhite r (by simp [hreg, Value.refs])
    obtain ⟨hblack, hgray⟩ := hobjects r hlt
    refine ⟨hw, ?_⟩
    intro a ha
    rw [hrefs] at ha
    rcases isblack_or_isgray ht.isSome hw with hb | hg
    · left
      simpa [pending] using hblack hb a ha
    · right
      have hl := ht.listed
      apply GreyProtected.held (k := r) _ ha
      rcases hgray ⟨hg, hl⟩ with hin | hin
      · exact .inl ⟨hin, hl⟩
      · exact .inr ⟨hin, hl⟩
  | sweepstring | sweep =>
    rw [hstate] at hcolours
    obtain ⟨hregistry, hobjects, hpassed⟩ := hcolours
    have halive := hregistry r (by simp [hreg, Value.refs])
    refine ⟨⟨ht, halive, hroot, hpassed r⟩, ?_⟩
    intro a ha
    rw [hrefs] at ha
    exact hobjects r hlt halive a ha

/-! Steps of the collector -/

/-- The registry is still there after a step that spares it, and refers to no more than before. -/
theorem Guarded.of_shrinks (h : Guarded r g) (hreg : g'.registry = g.registry)
    (hshrinks : Shrinks g g' r) : g'.registry = .obj r ∧ g'.isTable r ∧
      ∀ a ∈ g'.registryRefs, a ∈ g.registryRefs :=
  ⟨hreg.trans h.registry, hshrinks.isTable h.table,
    registryRefs_sub h.registry hreg h.table hshrinks⟩

theorem Marks.mem_rootgc {T : List ℕ} (h : Marks T g g') (hr : r ∈ g.rootgc) : r ∈ g'.rootgc := by
  have hroot : g'.rootgc = g.rootgc := congrArg (·.rootgc) h.frame
  rw [hroot]
  exact hr

theorem Marks.tmudata_eq {T : List ℕ} (h : Marks T g g') : g'.tmudata = g.tmudata :=
  congrArg (·.tmudata) h.frame

theorem marks_markgt (g : GlobalState) : ∃ T, Marks T g g.markgt := by
  unfold markgt
  split
  · exact ⟨_, marks_markvalue g _⟩
  · exact ⟨[], .refl g⟩

/-- `markroot` marks the registry, among other things. -/
theorem markroot_marks (g : GlobalState) : ∃ g₁,
    Marks g.registry.refs { g with gray := [], grayagain := [], weak := [] } g₁ ∧
      g.markroot = { g₁ with gcstate := .propagate } := by
  have hmain := marks_markobject { g with gray := [], grayagain := [], weak := [] } g.mainthread
  obtain ⟨T, hgt⟩ := marks_markgt
    (markobject { g with gray := [], grayagain := [], weak := [] } g.mainthread)
  have hroot := hmain.trans hgt
  unfold markroot
  simp only
  generalize (markobject { g with gray := [], grayagain := [], weak := [] } g.mainthread).markgt = g₁
    at hroot ⊢
  have hreg : g₁.registry = g.registry := congrArg (·.registry) hroot.frame
  rw [hreg]
  refine ⟨_, ((hroot.trans (marks_markvalue g₁ g.registry)).trans (marks_markmt _)).mono ?_, rfl⟩
  intro a ha
  simp [ha]

theorem markroot_guarded (h : Guarded r g) (hw : g.iswhite r = true) :
    Guarded r g.markroot ∧ g.markroot.tmudata = g.tmudata ∧
      ∀ a, (g.body a).isSome → (g.markroot.body a).isSome := by
  obtain ⟨g₁, hmarks, heq⟩ := g.markroot_marks
  have hspares := hmarks.spares
  have hregistry : g.markroot.registry = g.registry := by
    rw [heq]
    exact hspares.registry
  have hshrinks : Shrinks g g.markroot r := by
    rw [heq]
    exact hspares.shrinks r
  obtain ⟨hreg, ht, hsub⟩ := h.of_shrinks hregistry hshrinks
  have hmarked : g₁.iswhite r = false := hmarks.targets r (by simp [h.registry, Value.refs])
  have hsettled := hmarks.advances.settled r hw (by simp [colouring, hmarked])
  have hrefs := registryRefs_eq_strong hreg ht
  refine ⟨⟨hreg, ht, ?_, ?_⟩, ?_, ?_⟩
  · rw [heq]
    exact hmarks.mem_rootgc h.rooted
  · rw [heq] at hrefs hsub ⊢
    refine ⟨hmarked, ?_⟩
    intro a ha
    rcases hsettled with hwait | hchildren
    · right
      apply GreyProtected.held (k := r)
      · exact Or.inl hwait
      · rw [hrefs] at ha
        exact ha
    · left
      apply hchildren
      change a ∈ Heap.strong g.body r
      rw [← registryRefs_eq_strong h.registry h.table]
      exact hsub a ha
  · rw [heq]
    exact hmarks.tmudata_eq
  · rw [heq]
    exact hspares.present

theorem propagatemark_guarded (h : Guarded r g) (hstate : g.gcstate = .propagate)
    (hgray : g.gray ≠ []) : Guarded r g.propagatemark ∧ g.propagatemark.tmudata = g.tmudata ∧
      ∀ a, (g.body a).isSome → (g.propagatemark.body a).isSome := by
  obtain ⟨hmarks, -⟩ := marks_propagatemark hgray
  have hspares := hmarks.spares
  have hstate' : g.propagatemark.gcstate = .propagate := by
    rw [← hstate]
    exact congrArg (·.gcstate) hmarks.frame
  obtain ⟨hreg, ht, hsub⟩ := h.of_shrinks hspares.registry (hspares.shrinks r)
  have hphase := h.phase
  rw [hstate] at hphase
  obtain ⟨hnonwhite, haccounted⟩ := hphase
  refine ⟨⟨hreg, ht, hmarks.mem_rootgc h.rooted, ?_⟩, hmarks.tmudata_eq, hspares.present⟩
  rw [hstate']
  exact ⟨hmarks.marked hnonwhite, fun a ha => hmarks.pending.accounted (haccounted a (hsub a ha))⟩

theorem atomic_guarded (h : Guarded r g) (hstate : g.gcstate = .propagate) (L : ℕ) :
    Guarded r (g.atomic L) ∧
      (∀ a ∈ g.registryRefs, a ∈ (g.atomic L).tmudata → a ∈ g.tmudata) ∧
      ∀ a, (g.body a).isSome → ((g.atomic L).body a).isSome := by
  obtain ⟨hspares, hfound⟩ := g.atomic_spec L
  obtain ⟨hreg, ht, hsub⟩ := h.of_shrinks hspares.registry (hspares.shrinks r)
  have hphase := h.phase
  rw [hstate] at hphase
  obtain ⟨hnonwhite, haccounted⟩ := hphase
  have hroot := hspares.rooted r h.rooted hnonwhite
  refine ⟨⟨hreg, ht, hroot, ?_⟩, fun a ha => (hfound a (haccounted a ha)).2, hspares.present⟩
  have hphase : Swept r 0 (g.atomic L) ∧ ∀ a ∈ (g.atomic L).registryRefs, (g.atomic L).isdead a = false := by
    refine ⟨⟨ht, isdead_of_not_white (hspares.marked r hnonwhite), hroot, by simp⟩, ?_⟩
    intro a ha
    exact isdead_of_not_white (hfound a (haccounted a (hsub a ha))).1
  exact hphase

/-- A sweep keeps alive what the registry refers to, whichever phase `st` comes next. -/
theorem guarded_of_sweeps {act : Action} {p q i : ℕ} {st : GCState} {strt : List (List ℕ)}
    (h : Guarded r g) (hold : Swept r p g) (halive : ∀ a ∈ g.registryRefs, g.isdead a = false)
    (hs : Sweeps g g') (hswept : Swept r q g')
    (hnext : st = .sweepstring ∨ st = .sweep ∨ st = .finalize ∧ g'.iswhite r = true)
    (hstep : g.step act = { g' with gcstate := st, strt := strt, sweepstrgc := i, sweepgc := q }) :
    Guarded r (g.step act) ∧ Harmless g act := by
  have hsub := registryRefs_sub h.registry hs.registry h.table (hs.shrinks r hold.alive)
  have hrow : Swept r q g' ∧ ∀ a ∈ g'.registryRefs, g'.isdead a = false :=
    ⟨hswept, fun a ha => hs.alive a (halive a (hsub a ha))⟩
  rw [Harmless, hstep]
  constructor
  · refine ⟨hs.registry.trans h.registry, hswept.table, hswept.rooted, ?_⟩
    rcases hnext with rfl | rfl | ⟨rfl, hw⟩
    · exact ⟨⟨hswept.table, hswept.alive, hswept.rooted, hswept.passed⟩, hrow.2⟩
    · exact ⟨⟨hswept.table, hswept.alive, hswept.rooted, hswept.passed⟩, hrow.2⟩
    · exact hw
  · intro a ha
    refine ⟨fun hin => ?_, hs.present a (halive a ha)⟩
    rw [← hs.tmudata]
    exact hin

theorem sweepstring_guarded {L : ℕ} {released : List ℤ} (h : Guarded r g)
    (hstate : g.gcstate = .sweepstring) :
    Guarded r (g.step (.collect L released)) ∧ Harmless g (.collect L released) := by
  have hphase := h.phase
  rw [hstate] at hphase
  obtain ⟨hold, halive⟩ := hphase
  obtain ⟨hs, hlists, -⟩ := sweepwholelist_spec (g.strt.getD g.sweepstrgc []) g
  have hplace : (g.sweepwholelist (g.strt.getD g.sweepstrgc [])).1.sweepgc = g.sweepgc :=
    congrArg (·.sweepgc) hlists
  have hswept := hold.of_sweeps hs hlists.rootgc
  have hkeep := hs.gcstate.trans hstate
  have hstep : g.step (.collect L released) = g.singlestep L released := rfl
  unfold singlestep at hstep
  simp only [hstate] at hstep
  generalize g.sweepwholelist (g.strt.getD g.sweepstrgc []) = swept at *
  split_ifs at hstep
  · apply guarded_of_sweeps h hold halive hs hswept (.inr (.inl rfl))
    rw [hstep, ← hplace]
  · apply guarded_of_sweeps h hold halive hs hswept (.inl hkeep)
    rw [hstep, ← hplace]

theorem sweep_guarded {L : ℕ} {released : List ℤ} (h : Guarded r g) (hstate : g.gcstate = .sweep) :
    Guarded r (g.step (.collect L released)) ∧ Harmless g (.collect L released) := by
  have hphase := h.phase
  rw [hstate] at hphase
  obtain ⟨hold, halive⟩ := hphase
  obtain ⟨hs, hswept⟩ := sweeplist_spec 40 hold
  have hkeep := hs.gcstate.trans hstate
  have hstep : g.step (.collect L released) = g.singlestep L released := rfl
  unfold singlestep at hstep
  simp only [hstate] at hstep
  generalize g.sweeplist g.sweepgc 40 = swept at *
  split_ifs at hstep with hend
  · have hw : swept.1.iswhite r = true := by
      apply hswept.passed
      rw [List.take_of_length_le hend]
      exact hswept.rooted
    exact guarded_of_sweeps h hold halive hs hswept (.inr (.inr ⟨rfl, hw⟩)) hstep
  · exact guarded_of_sweeps h hold halive hs hswept (.inr (.inl hkeep)) hstep

theorem finalize_guarded {L : ℕ} {released : List ℤ} (h : Guarded r g)
    (hstate : g.gcstate = .finalize) :
    Guarded r (g.step (.collect L released)) ∧ Harmless g (.collect L released) := by
  have hphase := h.phase
  rw [hstate] at hphase
  have hstep : g.step (.collect L released) = g.singlestep L released := rfl
  unfold singlestep at hstep
  simp only [hstate] at hstep
  rw [Harmless, hstep]
  split_ifs
  · exact ⟨⟨h.registry, h.table, h.rooted, hphase⟩, fun _ _ => ⟨id, id⟩⟩
  · have hfinal := g.GCTM_spec released
    obtain ⟨hreg, ht, -⟩ := h.of_shrinks hfinal.registry (hfinal.shrinks r)
    have hphase' := hfinal.white r hphase
    refine ⟨⟨hreg, ht, hfinal.rootgc r h.rooted, ?_⟩, fun a _ => ⟨hfinal.tmudata a, hfinal.present a⟩⟩
    rw [hfinal.gcstate, hstate]
    exact hphase'

theorem collect_guarded {L : ℕ} {released : List ℤ} (h : Guarded r g) :
    Guarded r (g.step (.collect L released)) ∧ Harmless g (.collect L released) := by
  cases hstate : g.gcstate with
  | pause =>
    have hphase := h.phase
    rw [hstate] at hphase
    have hstep : g.step (.collect L released) = g.markroot := by
      simp only [step, singlestep, hstate]
    obtain ⟨hguarded, htmu, hpresent⟩ := markroot_guarded h hphase
    rw [Harmless, hstep, htmu]
    exact ⟨hguarded, fun a _ => ⟨id, hpresent a⟩⟩
  | propagate =>
    by_cases hgray : g.gray = []
    · have hstep : g.step (.collect L released) = g.atomic L := by
        simp only [step, singlestep, hstate, hgray, if_true]
      obtain ⟨hguarded, htmu, hpresent⟩ := atomic_guarded h hstate L
      rw [Harmless, hstep]
      exact ⟨hguarded, fun a ha => ⟨htmu a ha, hpresent a⟩⟩
    · have hstep : g.step (.collect L released) = g.propagatemark := by
        simp only [step, singlestep, hstate, hgray, if_false]
      obtain ⟨hguarded, htmu, hpresent⟩ := propagatemark_guarded h hstate hgray
      rw [Harmless, hstep, htmu]
      exact ⟨hguarded, fun a _ => ⟨id, hpresent a⟩⟩
  | sweepstring => exact sweepstring_guarded h hstate
  | sweep => exact sweep_guarded h hstate
  | finalize => exact finalize_guarded h hstate

end GlobalState
end H1Z1Server.Lua
