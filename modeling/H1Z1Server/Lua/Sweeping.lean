import H1Z1Server.Lua.Atomic

/-! The sweep phases free dead objects only, and whiten what they pass. -/
namespace H1Z1Server.Lua
namespace GlobalState

/-- What is not dead in `g` stays so, stays white if it is, and is not freed. -/
structure Sweeps (g g' : GlobalState) : Prop where
  registry : g'.registry = g.registry
  tmudata : g'.tmudata = g.tmudata
  gcstate : g'.gcstate = g.gcstate
  alive : ∀ o, g.isdead o = false → g'.isdead o = false
  white : ∀ o, g.isdead o = false → g.iswhite o = true → g'.iswhite o = true
  present : ∀ o, g.isdead o = false → (g.body o).isSome → (g'.body o).isSome
  shrinks : ∀ r, g.isdead r = false → Shrinks g g' r

/-- The table `r` is not dead, and white if the sweep of `rootgc` is past it. -/
structure Swept (r p : ℕ) (g : GlobalState) : Prop where
  table : g.isTable r
  alive : g.isdead r = false
  rooted : r ∈ g.rootgc
  passed : r ∈ g.rootgc.take p → g.iswhite r = true

variable {g g' g'' : GlobalState} {o : ℕ}

theorem Sweeps.trans (h : Sweeps g g') (h' : Sweeps g' g'') : Sweeps g g'' where
  registry := h'.registry.trans h.registry
  tmudata := h'.tmudata.trans h.tmudata
  gcstate := h'.gcstate.trans h.gcstate
  alive o ho := h'.alive o (h.alive o ho)
  white o ho hw := h'.white o (h.alive o ho) (h.white o ho hw)
  present o ho hs := h'.present o (h.alive o ho) (h.present o ho hs)
  shrinks r hr := (h.shrinks r hr).trans (h'.shrinks r (h.alive r hr))

/-- A change of the collector's own lists. -/
theorem Sweeps.of_lists (hobjects : g'.objects = g.objects) (hregistry : g'.registry = g.registry)
    (htmudata : g'.tmudata = g.tmudata) (hgcstate : g'.gcstate = g.gcstate)
    (hwhite : g'.currentwhite = g.currentwhite) : Sweeps g g' := by
  have hbody := body_congr hobjects
  have htest := test_congr hobjects
  exact {
    registry := hregistry
    tmudata := htmudata
    gcstate := hgcstate
    alive := fun o ho => by
      unfold isdead
      rw [htest, hwhite]
      exact ho
    white := fun o _ hw => by
      unfold iswhite
      rw [htest]
      exact hw
    present := fun o _ hs => by rw [hbody]; exact hs
    shrinks := fun r _ => .of_body_eq (by rw [hbody]) }

theorem Sweeps.refl (g : GlobalState) : Sweeps g g := .of_lists rfl rfl rfl rfl rfl

theorem sweeps_makewhite (g : GlobalState) (o : ℕ) : Sweeps g (g.makewhite o) where
  registry := rfl
  tmudata := rfl
  gcstate := rfl
  alive a ha := by
    change (g.makewhite o).test (Marked.isdead g.currentwhite) a = false
    unfold makewhite
    rw [test_setMarked]
    split_ifs
    · simp only [Marked.isdead_makewhite]
      unfold test
      cases g.get a <;> rfl
    · exact ha
  white a _ hw := iswhite_makewhite_of_white hw o
  present a _ hs := by rw [body_makewhite]; exact hs
  shrinks r _ := .of_body_eq (by rw [body_makewhite])

theorem get_free (g : GlobalState) (o a : ℕ) :
    (g.free o).get a = if o = a then none else g.get a := by
  unfold get free
  rw [List.getElem?_set]
  split_ifs <;> simp

/-- Dead objects may be freed. -/
theorem Sweeps.free (h : Sweeps g g') (hdead : g.isdead o = true) : Sweeps g (g'.free o) := by
  have hother : ∀ a, g.isdead a = false → (g'.free o).get a = g'.get a := by
    intro a ha
    rw [get_free, if_neg]
    rintro rfl
    rw [hdead] at ha
    cases ha
  exact {
    registry := h.registry
    tmudata := h.tmudata
    gcstate := h.gcstate
    alive := fun a ha => by
      have hg' := h.alive a ha
      unfold isdead test at hg' ⊢
      rw [hother a ha]
      exact hg'
    white := fun a ha hw => by
      have hg' := h.white a ha hw
      unfold iswhite test at hg' ⊢
      rw [hother a ha]
      exact hg'
    present := fun a ha hs => by
      unfold body
      rw [hother a ha]
      exact h.present a ha hs
    shrinks := fun r hr => (h.shrinks r hr).trans (.of_body_eq (by
      unfold body
      rw [hother r hr])) }

theorem sweeps_freeupval (hdead : g.isdead o = true) : Sweeps g (g.freeupval o) :=
  ((Sweeps.refl g).free hdead).trans (.of_lists rfl rfl rfl rfl rfl)

theorem sweeps_freeflat (hdead : g.isdead o = true) : Sweeps g (g.freeflat o) := by
  unfold freeflat
  split
  · exact sweeps_freeupval hdead
  · exact (Sweeps.refl g).free hdead

/-- The fields of an object that is no table may change. -/
theorem Sweeps.setBody {b : Body} (h : Sweeps g g') (ho : ¬ g'.isTable o) :
    Sweeps g (g'.setBody o b) := by
  have hset : Sweeps g' (g'.setBody o b) := {
    registry := rfl
    tmudata := rfl
    gcstate := rfl
    alive := fun a ha => by
      change (g'.setBody o b).test (Marked.isdead g'.currentwhite) a = false
      rw [test_setBody]
      exact ha
    white := fun a _ hw => by
      unfold iswhite
      rw [test_setBody]
      exact hw
    present := fun a _ hs => by
      rw [body_setBody]
      split_ifs
      · rw [Option.isSome_map]
        exact hs
      · exact hs
    shrinks := fun r _ => by
      by_cases hr : o = r
      · subst hr
        exact fun array node hb => absurd ⟨array, node, hb⟩ ho
      · apply Shrinks.of_body_eq
        rw [body_setBody, if_neg hr] }
  exact h.trans hset

theorem not_survives (h : g.survives o = false) : g.isdead o = true := by
  simp only [survives, Bool.or_eq_false_iff] at h
  simpa using h.1

theorem body_free {b : Body} {a : ℕ} (h : (g.free o).body a = some b) : g.body a = some b := by
  unfold body at h ⊢
  rw [get_free] at h
  split_ifs at h
  · cases h
  · exact h

theorem body_freeflat {b : Body} {a : ℕ} (h : (g.freeflat o).body a = some b) :
    g.body a = some b := by
  unfold freeflat at h
  split at h <;> exact body_free h

/-- Nothing but the objects and the list of open upvalues differs. -/
def SameLists (g g' : GlobalState) : Prop :=
  { g' with objects := g.objects, uvhead := g.uvhead } = g

theorem SameLists.trans (h : SameLists g g') (h' : SameLists g' g'') : SameLists g g'' := by
  have hobjects := congrArg (fun x => { x with objects := g.objects, uvhead := g.uvhead }) h'
  exact hobjects.trans h

theorem SameLists.rootgc (h : SameLists g g') : g'.rootgc = g.rootgc := congrArg (·.rootgc) h

theorem sameLists_freeflat (g : GlobalState) (o : ℕ) : SameLists g (g.freeflat o) := by
  unfold freeflat
  split <;> rfl

theorem sweepwholelist_spec (l : List ℕ) (g : GlobalState) :
    Sweeps g (g.sweepwholelist l).1 ∧ SameLists g (g.sweepwholelist l).1 ∧
      ∀ a b, (g.sweepwholelist l).1.body a = some b → g.body a = some b := by
  induction l generalizing g with
  | nil => exact ⟨.refl g, rfl, fun _ _ h => h⟩
  | cons curr rest ih =>
    unfold sweepwholelist
    split_ifs with hs
    · obtain ⟨hsweeps, hlists, hbody⟩ := ih (g.makewhite curr)
      have hwhite : SameLists g (g.makewhite curr) := rfl
      rw [body_makewhite] at hbody
      exact ⟨(sweeps_makewhite g curr).trans hsweeps, hwhite.trans hlists, hbody⟩
    · obtain ⟨hsweeps, hlists, hbody⟩ := ih (g.freeflat curr)
      have hfree := sweeps_freeflat (not_survives (by simpa using hs))
      exact ⟨hfree.trans hsweeps, (g.sameLists_freeflat curr).trans hlists,
        fun a b hb => body_freeflat (hbody a b hb)⟩

theorem sweepthread_spec (g : GlobalState) (th : ℕ) :
    Sweeps g (g.sweepthread th) ∧ (g.sweepthread th).rootgc = g.rootgc := by
  unfold sweepthread
  split
  · rename_i gt stack top ci openupval hb
    obtain ⟨hsweeps, hlists, hbody⟩ := sweepwholelist_spec openupval g
    refine ⟨?_, hlists.rootgc⟩
    apply hsweeps.setBody
    rintro ⟨array, node, hb'⟩
    rw [hbody th _ hb'] at hb
    cases hb
  · exact ⟨.refl g, rfl⟩

/-- What is put in front of `rootgc` is no living table. -/
def Links (g g' : GlobalState) : Prop :=
  ∃ front, g'.rootgc = front ++ g.rootgc ∧ ∀ r ∈ front, g.isTable r → g.isdead r = true

theorem Links.of_eq (h : g'.rootgc = g.rootgc) : Links g g' := ⟨[], h, by simp⟩

theorem Links.trans (h : Links g g') (hs : Sweeps g g') (h' : Links g' g'') : Links g g'' := by
  obtain ⟨front, hroot, hfront⟩ := h
  obtain ⟨front', hroot', hfront'⟩ := h'
  refine ⟨front' ++ front, by rw [hroot', hroot, List.append_assoc], ?_⟩
  intro r hr ht
  rcases List.mem_append.mp hr with hr | hr
  · by_contra halive
    have halive : g.isdead r = false := by simpa using halive
    have hdead := hfront' r hr ((hs.shrinks r halive).isTable ht)
    rw [hs.alive r halive] at hdead
    cases hdead
  · exact hfront r hr ht

theorem closeupval_spec (g : GlobalState) (uv : ℕ) :
    Sweeps g (g.closeupval uv) ∧ Links g (g.closeupval uv) := by
  unfold closeupval
  split_ifs with hdead
  · exact ⟨sweeps_freeupval hdead, .of_eq rfl⟩
  · split
    · rename_i v closed hb
      have hno : ¬ g.isTable uv := by
        rintro ⟨array, node, hb'⟩
        rw [hb'] at hb
        cases hb
      have hset : Sweeps g { g.setBody uv (.upval v true) with
          uvhead := g.uvhead.filter (· ≠ uv), rootgc := uv :: g.rootgc } :=
        ((Sweeps.refl g).setBody hno).trans (.of_lists rfl rfl rfl rfl rfl)
      have hlinks : ∀ r ∈ [uv], g.isTable r → g.isdead r = true := by
        intro r hr ht
        obtain rfl : r = uv := by simpa using hr
        exact absurd ht hno
      simp only
      split_ifs
      · exact ⟨hset.trans (sweeps_makewhite _ uv), [uv], rfl, hlinks⟩
      · exact ⟨hset, [uv], rfl, hlinks⟩
    · exact ⟨.refl g, .of_eq rfl⟩

theorem closeupvals_spec (l : List ℕ) (g : GlobalState) :
    Sweeps g (l.foldl closeupval g) ∧ Links g (l.foldl closeupval g) := by
  induction l generalizing g with
  | nil => exact ⟨.refl g, .of_eq rfl⟩
  | cons uv rest ih =>
    obtain ⟨hsweeps, hlinks⟩ := g.closeupval_spec uv
    obtain ⟨hsweeps', hlinks'⟩ := ih (g.closeupval uv)
    exact ⟨hsweeps.trans hsweeps', hlinks.trans hsweeps hlinks'⟩

theorem freeobj_spec (hdead : g.isdead o = true) :
    Sweeps g (g.freeobj o) ∧ Links g (g.freeobj o) := by
  unfold freeobj
  split
  · rename_i openupval _
    obtain ⟨hsweeps, hlinks⟩ := closeupvals_spec openupval g
    exact ⟨hsweeps.free hdead, hlinks⟩
  · exact ⟨sweeps_freeflat hdead, .of_eq (g.sameLists_freeflat o).rootgc⟩

/-! The sweep of `rootgc` -/

variable {r p curr : ℕ}

theorem Swept.of_sweeps (h : Swept r p g) (hs : Sweeps g g') (hroot : g'.rootgc = g.rootgc) :
    Swept r p g' where
  table := (hs.shrinks r h.alive).isTable h.table
  alive := hs.alive r h.alive
  rooted := hroot ▸ h.rooted
  passed hr := hs.white r h.alive (h.passed (hroot ▸ hr))

/-- An object that lives is whitened. -/
theorem Swept.whitened (h : Swept r p g) (hcurr : g.rootgc[p]? = some curr) :
    Swept r (p + 1) (g.makewhite curr) := by
  have hkept := h.of_sweeps (sweeps_makewhite g curr) rfl
  refine { hkept with passed := ?_ }
  intro hr
  have htake : g.rootgc.take (p + 1) = g.rootgc.take p ++ [curr] := by
    rw [List.take_add_one, hcurr]
    rfl
  have hr' : r ∈ g.rootgc.take p ++ [curr] := htake ▸ hr
  rcases List.mem_append.mp hr' with hr' | hr'
  · exact hkept.passed hr'
  · obtain rfl : r = curr := by simpa using hr'
    obtain ⟨array, node, hb⟩ := h.table
    rw [iswhite_makewhite, hb]
    rfl

/-- Another object may be taken off the list. -/
theorem Swept.mem_eraseIdx (h : Swept r p g) (hcurr : g.rootgc[p]? = some curr) (hdead : g.isdead curr = true) :
    r ∈ g.rootgc.eraseIdx p := by
  obtain ⟨i, hi⟩ := List.mem_iff_getElem?.mp h.rooted
  apply List.mem_eraseIdx_iff_getElem?.mpr
  refine ⟨i, ?_, hi⟩
  rintro rfl
  obtain rfl : curr = r := by simpa [hcurr] using hi
  rw [h.alive] at hdead
  cases hdead

theorem sweepobject_spec (h : Swept r p g) (hcurr : g.rootgc[p]? = some curr) :
    Sweeps g (g.sweepobject p curr).1 ∧
      Swept r (g.sweepobject p curr).2 (g.sweepobject p curr).1 := by
  unfold sweepobject
  by_cases hs : g.survives curr = true
  · rw [if_pos hs]
    exact ⟨sweeps_makewhite g curr, h.whitened hcurr⟩
  · rw [if_neg hs]
    have hdead := not_survives (by simpa using hs)
    have hr := h.mem_eraseIdx hcurr hdead
    have herase : Sweeps g { g with rootgc := g.rootgc.eraseIdx p } := .of_lists rfl rfl rfl rfl rfl
    obtain ⟨hfree, front, hroot, hfront⟩ :=
      freeobj_spec (g := { g with rootgc := g.rootgc.eraseIdx p }) hdead
    simp only at hroot ⊢
    generalize freeobj { g with rootgc := g.rootgc.eraseIdx p } curr = g' at hfree hroot ⊢
    have hsweeps := herase.trans hfree
    refine ⟨hsweeps, ?_⟩
    exact {
      table := (hsweeps.shrinks r h.alive).isTable h.table
      alive := hsweeps.alive r h.alive
      rooted := by
        rw [hroot]
        exact List.mem_append_right _ hr
      passed := by
        intro hpassed
        split_ifs at hpassed with hp
        · simp at hpassed
        · have hlength : p + (g'.rootgc.length - (g.rootgc.eraseIdx p).length) = front.length + p := by
            rw [hroot, List.length_append]
            omega
          rw [hlength, hroot, List.take_length_add_append,
            List.take_eraseIdx_eq_take_of_le _ _ _ le_rfl] at hpassed
          rcases List.mem_append.mp hpassed with hin | hin
          · have hgone := hfront r hin h.table
            have halive : g.isdead r = true := hgone
            rw [h.alive] at halive
            cases halive
          · exact hsweeps.white r h.alive (h.passed hin) }

theorem sweeplist_spec (count : ℕ) (h : Swept r p g) :
    Sweeps g (g.sweeplist p count).1 ∧ Swept r (g.sweeplist p count).2 (g.sweeplist p count).1 := by
  induction count generalizing g p with
  | zero => exact ⟨.refl g, h⟩
  | succ count ih =>
    unfold sweeplist
    split
    · exact ⟨.refl g, h⟩
    · rename_i curr hcurr
      obtain ⟨hthread, hroot⟩ := g.sweepthread_spec curr
      have hcurr' : (g.sweepthread curr).rootgc[p]? = some curr := by rw [hroot, hcurr]
      obtain ⟨hobject, hswept⟩ := sweepobject_spec (h.of_sweeps hthread hroot) hcurr'
      obtain ⟨hrest, hlast⟩ := ih hswept
      exact ⟨(hthread.trans hobject).trans hrest, hlast⟩

end GlobalState
end H1Z1Server.Lua
