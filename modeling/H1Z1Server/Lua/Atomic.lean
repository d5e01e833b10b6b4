import H1Z1Server.Lua.Collector
import H1Z1Server.Lua.Advancing

/-! The atomic phase finds every object that the marking accounts for, and moves and clears only
white ones. -/
namespace H1Z1Server.Lua
open Colouring

/-- What a table without a metatable refers to. -/
def tableRefs (array : List Value) (node : List (Value × Value)) : List ℕ :=
  array.flatMap Value.refs ++ node.flatMap (nodeRefs false false)

namespace GlobalState

def isTable (g : GlobalState) (r : ℕ) : Prop :=
  ∃ array node, g.body r = some (.table none array node)

/-- A table without a metatable loses entries at most. -/
def Shrinks (g g' : GlobalState) (r : ℕ) : Prop :=
  ∀ array node, g.body r = some (.table none array node) → ∃ array' node',
    g'.body r = some (.table none array' node') ∧ ∀ a ∈ tableRefs array' node', a ∈ tableRefs array node

/-- The heap as the marker sees it, with all its worklists. -/
def pending (g : GlobalState) : Colouring ℕ where
  white a := g.iswhite a
  waiting k := g.colouring.waiting k ∨
    (k ∈ g.grayagain ∨ k ∈ g.weak) ∧ Heap.listed g.body k = true
  refs o a := a ∈ Heap.strong g.body o

/-- What is not white in `g` stays so, and is neither separated from the others nor freed. -/
structure Spares (g g' : GlobalState) : Prop where
  registry : g'.registry = g.registry
  marked : ∀ o, g.iswhite o = false → g'.iswhite o = false
  present : ∀ o, (g.body o).isSome → (g'.body o).isSome
  shrinks : ∀ r, Shrinks g g' r
  rooted : ∀ r ∈ g.rootgc, g.iswhite r = false → r ∈ g'.rootgc
  separated : ∀ u ∈ g'.tmudata, u ∈ g.tmudata ∨ g.iswhite u = true

variable {g g' g'' : GlobalState} {T : List ℕ} {o : ℕ}

theorem Shrinks.refl (g : GlobalState) (r : ℕ) : Shrinks g g r :=
  fun array node h => ⟨array, node, h, fun _ ha => ha⟩

theorem Shrinks.trans {r : ℕ} (h : Shrinks g g' r) (h' : Shrinks g' g'' r) : Shrinks g g'' r := by
  intro array node hr
  obtain ⟨array', node', hr', hsub⟩ := h array node hr
  obtain ⟨array'', node'', hr'', hsub'⟩ := h' array' node' hr'
  exact ⟨array'', node'', hr'', fun a ha => hsub a (hsub' a ha)⟩

theorem Shrinks.of_body_eq {r : ℕ} (h : g'.body r = g.body r) : Shrinks g g' r :=
  fun array node hr => ⟨array, node, h.trans hr, fun _ ha => ha⟩

theorem Shrinks.isTable {r : ℕ} (h : Shrinks g g' r) (ht : g.isTable r) : g'.isTable r := by
  obtain ⟨array, node, hr⟩ := ht
  obtain ⟨array', node', hr', -⟩ := h array node hr
  exact ⟨array', node', hr'⟩

theorem Spares.trans (h : Spares g g') (h' : Spares g' g'') : Spares g g'' where
  registry := h'.registry.trans h.registry
  marked o ho := h'.marked o (h.marked o ho)
  present o ho := h'.present o (h.present o ho)
  shrinks r := (h.shrinks r).trans (h'.shrinks r)
  rooted r hr hm := h'.rooted r (h.rooted r hr hm) (h.marked r hm)
  separated u hu := by
    rcases h'.separated u hu with hu' | hu'
    · exact h.separated u hu'
    · right
      by_contra hw
      rw [h.marked u (by simpa using hw)] at hu'
      simp at hu'

/-- A change of the collector's own lists. -/
theorem Spares.of_lists (hobjects : g'.objects = g.objects) (hregistry : g'.registry = g.registry)
    (hrootgc : g'.rootgc = g.rootgc) (htmudata : g'.tmudata = g.tmudata) : Spares g g' := by
  have hbody := body_congr hobjects
  have hwhite : g'.iswhite = g.iswhite := by
    unfold iswhite
    rw [test_congr hobjects]
  exact {
    registry := hregistry
    marked := fun o ho => by rw [hwhite, ho]
    present := fun o ho => by rw [hbody]; exact ho
    shrinks := fun r => .of_body_eq (by rw [hbody])
    rooted := fun r hr _ => hrootgc ▸ hr
    separated := fun u hu => .inl (htmudata ▸ hu) }

theorem Spares.refl (g : GlobalState) : Spares g g := .of_lists rfl rfl rfl rfl

theorem spares_foldl {β : Type} {f : GlobalState → β → GlobalState} (h : ∀ g x, Spares g (f g x))
    (l : List β) (g : GlobalState) : Spares g (l.foldl f g) := by
  induction l generalizing g with
  | nil => exact .refl g
  | cons x rest ih => exact (h g x).trans (ih _)

theorem shrinks_of_live (h : Heap.live g'.body = Heap.live g.body) (r : ℕ) : Shrinks g g' r := by
  intro array node hr
  have hlive := congrFun h r
  simp only [Heap.live, hr, Option.map_some, Body.live] at hlive
  cases hr' : g'.body r with
  | none => simp [hr'] at hlive
  | some b =>
    rw [hr'] at hlive
    cases b with
    | table metatable array' node' =>
      simp only [Option.map_some, Body.live, Option.some.injEq, Body.table.injEq] at hlive
      obtain ⟨rfl, rfl, hnode⟩ := hlive
      refine ⟨array', node', rfl, ?_⟩
      intro a ha
      rw [tableRefs, ← Heap.flatMap_nodeRefs_filter, hnode, Heap.flatMap_nodeRefs_filter] at ha
      exact ha
    | _ => simp [Body.live] at hlive

theorem Marks.spares (h : Marks T g g') : Spares g g' where
  registry := congrArg (·.registry) h.frame
  marked _ := h.marked
  present o ho := by
    have hlive := congrFun h.live o
    simp only [Heap.live] at hlive
    rw [← Option.isSome_map (f := Body.live), hlive, Option.isSome_map]
    exact ho
  shrinks := shrinks_of_live h.live
  rooted r hr _ := by
    have hroot : g'.rootgc = g.rootgc := congrArg (·.rootgc) h.frame
    rw [hroot]
    exact hr
  separated u hu := by
    have htmu : g'.tmudata = g.tmudata := congrArg (·.tmudata) h.frame
    rw [htmu] at hu
    exact .inl hu

theorem Marks.pending (h : Marks T g g') : g.pending.Advances g'.pending := by
  apply h.advances.with_waiting
  rintro k ⟨hk, hl⟩
  rw [Heap.listed_congr h.live]
  exact ⟨hk.imp (h.again k) (h.weak k), hl⟩

/-! Marking -/

theorem marks_markmt (g : GlobalState) : Marks [] g g.markmt := by
  apply (marks_foldl marks_marksome g.mt g).mono
  simp

theorem marks_remarkupval (g : GlobalState) (uv : ℕ) : Marks [] g (g.remarkupval uv) := by
  unfold remarkupval
  split
  · split_ifs
    · exact (marks_markvalue g _).mono (by simp)
    · exact .refl g
  · exact .refl g

theorem marks_remarkupvals (g : GlobalState) : Marks [] g g.remarkupvals := by
  apply (marks_foldl marks_remarkupval g.uvhead g).mono
  simp

/-- The three rounds of marking empty one worklist after another. -/
theorem remark_spec (g : GlobalState) (L : ℕ) : Spares g (g.remark L) ∧
    (g.remark L).tmudata = g.tmudata ∧
    ∀ a, g.pending.Accounted a → (g.remark L).iswhite a = false := by
  obtain ⟨hall₁, hgray₁⟩ := marks_propagateall g.remarkupvals
  have h₁ := (marks_remarkupvals g).trans hall₁
  unfold remark
  simp only
  generalize g.remarkupvals.propagateall = g₁ at h₁ hgray₁ ⊢
  obtain ⟨hall₂, hgray₂⟩ := marks_propagateall (({ g₁ with gray := g₁.weak, weak := [] }.markobject L).markmt)
  have h₂ := ((marks_markobject { g₁ with gray := g₁.weak, weak := [] } L).trans (marks_markmt _)).trans hall₂
  generalize (({ g₁ with gray := g₁.weak, weak := [] }.markobject L).markmt).propagateall = g₂
    at h₂ hgray₂ ⊢
  obtain ⟨h₃, hgray₃⟩ := marks_propagateall { g₂ with gray := g₂.grayagain, grayagain := [] }
  refine ⟨?_, ?_, ?_⟩
  · have hweak : Spares g₁ { g₁ with gray := g₁.weak, weak := [] } := .of_lists rfl rfl rfl rfl
    have hagain : Spares g₂ { g₂ with gray := g₂.grayagain, grayagain := [] } :=
      .of_lists rfl rfl rfl rfl
    exact ((h₁.spares.trans hweak).trans h₂.spares).trans (hagain.trans h₃.spares)
  · have htmu₁ : g₁.tmudata = g.tmudata := congrArg (·.tmudata) h₁.frame
    have htmu₂ : g₂.tmudata = g₁.tmudata := congrArg (·.tmudata) h₂.frame
    have htmu₃ : _ = g₂.tmudata := congrArg (·.tmudata) h₃.frame
    exact (htmu₃.trans htmu₂).trans htmu₁
  · intro a ha
    -- the weak tables are traversed first, while `grayagain` waits
    have hweak : Accounted { colouring { g₁ with gray := g₁.weak, weak := [] } with
        waiting := fun k => (k ∈ g₁.weak ∧ Heap.listed g₁.body k = true) ∨
          (k ∈ g₁.grayagain ∧ Heap.listed g₁.body k = true) } a := by
      apply Accounted.mono (h₁.pending.accounted ha)
      · rfl
      · rfl
      · rintro k (⟨hk, -⟩ | ⟨hk | hk, hl⟩)
        · rw [hgray₁] at hk
          cases hk
        · exact .inr ⟨hk, hl⟩
        · exact .inl ⟨hk, hl⟩
    have hagain : Accounted { colouring g₂ with
        waiting := fun k => g₂.colouring.waiting k ∨
          (k ∈ g₂.grayagain ∧ Heap.listed g₂.body k = true) } a := by
      apply (h₂.advances.with_waiting _).accounted hweak
      rintro k ⟨hk, hl⟩
      rw [Heap.listed_congr h₂.live]
      exact ⟨h₂.again k hk, hl⟩
    have hlast : Accounted (colouring { g₂ with gray := g₂.grayagain, grayagain := [] }) a := by
      apply Accounted.mono hagain
      · rfl
      · rfl
      · rintro k (⟨hk, -⟩ | hk)
        · rw [hgray₂] at hk
          cases hk
        · exact hk
    have hfound := (h₃.advances.accounted hlast).found (by
      rintro k ⟨hk, -⟩
      rw [hgray₃] at hk
      cases hk)
    simpa [colouring] using hfound

/-! Separating userdata -/

theorem splitRoot_append (g : GlobalState) : g.splitRoot.1 ++ g.splitRoot.2 = g.rootgc := by
  have hprefix := List.prefix_iff_eq_append.mp (List.takeWhile_prefix (l := g.rootgc) (· ≠ g.mainthread))
  unfold splitRoot
  simp only
  generalize g.rootgc.takeWhile (· ≠ g.mainthread) = before at hprefix ⊢
  have hrest := List.take_append_drop 1 (g.rootgc.drop before.length)
  rw [List.drop_drop] at hrest
  rw [List.append_assoc, hrest, hprefix]

/-- The loop takes white userdata only, and changes no colour. -/
theorem separate_spec (l : List ℕ) (g : GlobalState) :
    Spares g (g.separate false l).1 ∧ (g.separate false l).1.rootgc = g.rootgc ∧
      ∀ u ∈ l, g.iswhite u = false → u ∈ (g.separate false l).2 := by
  induction l generalizing g with
  | nil => exact ⟨.refl g, rfl, by simp⟩
  | cons curr rest ih =>
    have hfin : Marks [] g (g.markfinalized curr) := marks_setMarked fun _ => rfl
    have hwhite : (g.markfinalized curr).iswhite = g.iswhite :=
      test_setMarked_of_eq g curr fun _ => rfl
    unfold separate
    split_ifs with hskip hneeds
    · obtain ⟨hspares, hroot, hkept⟩ := ih g
      refine ⟨hspares, hroot, ?_⟩
      intro u hu hw
      rcases List.mem_cons.mp hu with rfl | hu
      · exact List.mem_cons_self
      · exact List.mem_cons_of_mem _ (hkept u hu hw)
    · obtain ⟨hspares, hroot, hkept⟩ := ih (g.markfinalized curr)
      refine ⟨hfin.spares.trans hspares, hroot, ?_⟩
      intro u hu hw
      rcases List.mem_cons.mp hu with rfl | hu
      · exact List.mem_cons_self
      · exact List.mem_cons_of_mem _ (hkept u hu (by rw [hwhite, hw]))
    · have hcurr : g.iswhite curr = true := by
        by_contra hn
        simp [hn] at hskip
      have hmove : Spares g
          { g.markfinalized curr with tmudata := (g.markfinalized curr).tmudata ++ [curr] } :=
        { hfin.spares with
          separated := by
            intro u hu
            rcases List.mem_append.mp hu with hu | hu
            · exact .inl hu
            · obtain rfl : u = curr := by simpa using hu
              exact .inr hcurr }
      obtain ⟨hspares, hroot, hkept⟩ := ih
        { g.markfinalized curr with tmudata := (g.markfinalized curr).tmudata ++ [curr] }
      refine ⟨hmove.trans hspares, hroot, ?_⟩
      intro u hu hw
      rcases List.mem_cons.mp hu with rfl | hu
      · rw [hw] at hcurr
        cases hcurr
      · exact hkept u hu (by rw [← hw]; exact congrFun hwhite u)

theorem spares_separateudata (g : GlobalState) : Spares g (g.luaC_separateudata false) := by
  obtain ⟨hspares, -, hkept⟩ := separate_spec g.splitRoot.2 g
  exact { hspares with
    rooted := by
      intro r hr hw
      rw [← g.splitRoot_append] at hr
      rcases List.mem_append.mp hr with hr | hr
      · exact List.mem_append_left _ hr
      · exact List.mem_append_right _ (hkept r hr hw) }

theorem iswhite_makewhite (g : GlobalState) (u : ℕ) :
    (g.makewhite u).iswhite u = (g.body u).isSome := by
  unfold makewhite iswhite
  rw [test_setMarked, if_pos rfl, test_of_forall (Marked.iswhite_makewhite g.currentwhite)]

theorem iswhite_makewhite_ne (g : GlobalState) {u : ℕ} (h : o ≠ u) :
    (g.makewhite u).iswhite o = g.iswhite o := by
  unfold makewhite iswhite
  rw [test_setMarked, if_neg h.symm]

theorem iswhite_makewhite_of_white {a : ℕ} (h : g.iswhite a = true) (o : ℕ) :
    (g.makewhite o).iswhite a = true := by
  by_cases hao : a = o
  · subst hao
    rw [iswhite_makewhite]
    unfold iswhite test at h
    unfold body
    cases hg : g.get a with
    | none => simp [hg] at h
    | some x => rfl
  · rw [iswhite_makewhite_ne g hao, h]

theorem body_makewhite (g : GlobalState) (u : ℕ) : (g.makewhite u).body = g.body :=
  body_setMarked g u _

/-- Whitened userdata are marked at once. -/
theorem marktm_spec (g : GlobalState) (u : ℕ) :
    Marks [] (g.makewhite u) (g.marktm u) ∧ (g.marktm u).iswhite u = false := by
  unfold marktm
  have hwhite := g.iswhite_makewhite u
  cases hb : g.body u with
  | none =>
    have hsame : (g.makewhite u).reallymarkobject u = g.makewhite u := by
      unfold reallymarkobject reallymark
      simp only [body_makewhite, hb]
    rw [hsame, hwhite, hb]
    exact ⟨.refl _, rfl⟩
  | some b =>
    rw [hb] at hwhite
    have hmark := marks_reallymark _ _ u (Nat.lt_succ_of_le (g.makewhite u).whites_le) hwhite
    exact ⟨hmark.mono (by simp), hmark.targets u (by simp)⟩

theorem spares_marktm (g : GlobalState) (u : ℕ) : Spares g (g.marktm u) := by
  obtain ⟨hmark, hu⟩ := g.marktm_spec u
  have hspares := hmark.spares
  exact {
    registry := hspares.registry
    marked := by
      intro o ho
      by_cases hou : o = u
      · subst hou
        exact hu
      · exact hmark.marked (by rw [g.iswhite_makewhite_ne hou, ho])
    present := fun o ho => hspares.present o (by rw [body_makewhite]; exact ho)
    shrinks := fun r => (Shrinks.of_body_eq (by rw [body_makewhite])).trans (hspares.shrinks r)
    rooted := by
      have hroot : (g.marktm u).rootgc = g.rootgc := congrArg (·.rootgc) hmark.frame
      intro r hr _
      rw [hroot]
      exact hr
    separated := by
      have htmu : (g.marktm u).tmudata = g.tmudata := congrArg (·.tmudata) hmark.frame
      intro r hr
      rw [htmu] at hr
      exact .inl hr }

/-! Weak tables -/

theorem marks_white2gray_string {s : String} (hb : g.body o = some (.string s)) :
    Marks [] g (g.white2gray o) := by
  have hmark := marks_stringmark g o
  unfold stringmark at hmark
  simpa only [hb] using hmark

theorem marks_iscleared (g : GlobalState) (v : Value) (iskey : Bool) :
    Marks [] g (g.iscleared v iskey).1 := by
  unfold iscleared
  split
  · split
    · exact marks_white2gray_string ‹_›
    · exact .refl g
    · exact .refl g
  · exact .refl g

theorem cleararray_spec (l : List Value) (g : GlobalState) : Marks [] g (g.cleararray l).1 ∧
    ∀ a ∈ (g.cleararray l).2.flatMap Value.refs, a ∈ l.flatMap Value.refs := by
  induction l with
  | nil => exact ⟨.refl g, by simp [cleararray]⟩
  | cons v rest ih =>
    obtain ⟨hmark, hsub⟩ := ih
    have hclear := hmark.trans (marks_iscleared (g.cleararray rest).1 v false)
    refine ⟨hclear, ?_⟩
    intro a ha
    simp only [cleararray, List.flatMap_cons, List.mem_append] at ha ⊢
    rcases ha with ha | ha
    · left
      split_ifs at ha
      · simp [Value.refs] at ha
      · exact ha
    · exact .inr (hsub a ha)

theorem nodeRefs_removeentry (k : Value) : nodeRefs false false (removeentry (k, .nil)) = [] := by
  cases k <;> rfl

theorem clearnode_spec (g : GlobalState) (n : Value × Value) : Marks [] g (g.clearnode n).1 ∧
    ∀ a ∈ nodeRefs false false (g.clearnode n).2, a ∈ nodeRefs false false n := by
  have hkey := marks_iscleared g n.1 true
  have hvalue := hkey.trans (marks_iscleared _ n.2 false)
  unfold clearnode
  split_ifs
  · exact ⟨.refl g, fun _ ha => ha⟩
  · simp only
    split_ifs
    · exact ⟨hkey, by simp [nodeRefs_removeentry]⟩
    · exact ⟨hvalue, by simp [nodeRefs_removeentry]⟩
    · exact ⟨hvalue, fun _ ha => ha⟩

theorem clearnodes_spec (l : List (Value × Value)) (g : GlobalState) :
    Marks [] g (g.clearnodes l).1 ∧ ∀ a ∈ (g.clearnodes l).2.flatMap (nodeRefs false false),
      a ∈ l.flatMap (nodeRefs false false) := by
  induction l with
  | nil => exact ⟨.refl g, by simp [clearnodes]⟩
  | cons n rest ih =>
    obtain ⟨hmark, hsub⟩ := ih
    obtain ⟨hnode, hrefs⟩ := clearnode_spec (g.clearnodes rest).1 n
    refine ⟨hmark.trans hnode, ?_⟩
    intro a ha
    simp only [clearnodes, List.flatMap_cons, List.mem_append] at ha ⊢
    exact ha.imp (hrefs a) (hsub a)

/-- A table loses entries while others are marked. -/
theorem Marks.spares_setBody {metatable : Option ℕ} {array array' : List Value}
    {node node' : List (Value × Value)} (h : Marks T g g')
    (hb : g.body o = some (.table metatable array node))
    (hsub : ∀ a ∈ tableRefs array' node', a ∈ tableRefs array node) :
    Spares g (g'.setBody o (.table metatable array' node')) := by
  have hspares := h.spares
  have hwhite : (g'.setBody o (.table metatable array' node')).iswhite = g'.iswhite :=
    test_setBody g' o _ _
  exact { hspares with
    marked := fun a ha => by rw [hwhite, h.marked ha]
    present := by
      intro a ha
      rw [body_setBody]
      split_ifs
      · rw [Option.isSome_map]
        exact hspares.present a ha
      · exact hspares.present a ha
    shrinks := by
      intro r
      by_cases hr : o = r
      · subst hr
        intro array₀ node₀ hr
        rw [hb] at hr
        obtain ⟨rfl, rfl, rfl⟩ : metatable = none ∧ array = array₀ ∧ node = node₀ := by
          simpa using hr
        refine ⟨array', node', ?_, hsub⟩
        have hsome := hspares.present o (by rw [hb]; rfl)
        obtain ⟨b, hb'⟩ := Option.isSome_iff_exists.mp hsome
        rw [body_setBody, if_pos rfl, hb']
        rfl
      · apply (hspares.shrinks r).trans
        apply Shrinks.of_body_eq
        rw [body_setBody, if_neg hr] }

theorem spares_cleartable (g : GlobalState) (h : ℕ) : Spares g (g.cleartable h) := by
  unfold cleartable
  split
  · rename_i metatable array node hb
    by_cases hweak : g.test (·.valueWeak) h = true
    · obtain ⟨harray, hsub⟩ := cleararray_spec array g
      obtain ⟨hnode, hrefs⟩ := clearnodes_spec node (g.cleararray array).1
      simp only [hweak, if_true]
      apply (harray.trans hnode).spares_setBody hb
      intro a ha
      exact List.mem_append.mpr ((List.mem_append.mp ha).imp (hsub a) (hrefs a))
    · obtain ⟨hnode, hrefs⟩ := clearnodes_spec node g
      simp only [hweak]
      apply hnode.spares_setBody hb
      intro a ha
      exact List.mem_append.mpr ((List.mem_append.mp ha).imp id (hrefs a))
  · exact .refl g

theorem spares_marktmu (g : GlobalState) : Spares g g.marktmu := spares_foldl spares_marktm g.tmudata g

/-- All that the marking accounts for is found by the end of the phase, and is not separated. -/
theorem atomic_spec (g : GlobalState) (L : ℕ) : Spares g (g.atomic L) ∧
    ∀ a, g.pending.Accounted a → (g.atomic L).iswhite a = false ∧
      (a ∈ (g.atomic L).tmudata → a ∈ g.tmudata) := by
  obtain ⟨hremark, htmu, hfound⟩ := g.remark_spec L
  unfold atomic
  simp only
  generalize g.remark L = g₁ at hremark htmu hfound ⊢
  have hseparate := (spares_separateudata g₁).trans (spares_marktmu _)
  generalize (g₁.luaC_separateudata false).marktmu = g₂ at hseparate ⊢
  have hall := hseparate.trans (marks_propagateall g₂).1.spares
  generalize g₂.propagateall = g₃ at hall ⊢
  have hclear := hall.trans (spares_foldl spares_cleartable g₃.weak g₃)
  generalize g₃.weak.foldl cleartable g₃ = g₄ at hclear ⊢
  have hflip : Spares g₄ { g₄ with
      currentwhite := !g₄.currentwhite, sweepstrgc := 0, sweepgc := 0, gcstate := .sweepstring } :=
    .of_lists rfl rfl rfl rfl
  have hlast := hclear.trans hflip
  refine ⟨hremark.trans hlast, ?_⟩
  intro a ha
  refine ⟨hlast.marked a (hfound a ha), ?_⟩
  intro hin
  rcases hlast.separated a hin with hin | hw
  · rw [← htmu]
    exact hin
  · rw [hfound a ha] at hw
    cases hw

end GlobalState
end H1Z1Server.Lua
