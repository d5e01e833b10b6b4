import H1Z1Server.Lua.References

/-! Every function of the mark phase advances the marking, and `propagateall` empties the gray
list. -/
namespace H1Z1Server.Lua
open Colouring

theorem countP_modify {α : Type} {p : α → Bool} {f : α → α} (h : ∀ x, p (f x) = p x) (l : List α)
    (i : ℕ) : (l.modify i f).countP p = l.countP p := by
  induction l generalizing i with
  | nil => simp
  | cons x rest ih =>
    cases i with
    | zero => simp [List.countP_cons, h]
    | succ i => simp [List.countP_cons, ih]

theorem countP_modify_lt {α : Type} {p : α → Bool} {f : α → α} (h : ∀ x, p (f x) = false)
    {l : List α} {i : ℕ} {x : α} (hx : l[i]? = some x) (hp : p x = true) :
    (l.modify i f).countP p + 1 = l.countP p := by
  induction l generalizing i with
  | nil => simp at hx
  | cons y rest ih =>
    cases i with
    | zero =>
      obtain rfl : y = x := by simpa using hx
      simp [h, hp]
    | succ i =>
      have hrest := ih (i := i) (by simpa using hx)
      simp only [List.modify_succ_cons, List.countP_cons]
      omega

namespace GlobalState

def whites (g : GlobalState) : ℕ := g.objects.countP fun x => x.any fun y => y.marked.iswhite

/-- The length of the gray list, with all that may still join it. -/
def workload (g : GlobalState) : ℕ := g.gray.length + g.whites

/-- The heap as the marker sees it, with the gray list as the worklist. -/
def colouring (g : GlobalState) : Colouring ℕ where
  white a := g.iswhite a
  waiting k := k ∈ g.gray ∧ Heap.listed g.body k
  refs o a := a ∈ Heap.strong g.body o

/-- Marking leads from `g` to `g'`, and to all of `T`. -/
structure Marks (T : List ℕ) (g g' : GlobalState) : Prop where
  frame : { g' with
    objects := g.objects, gray := g.gray, grayagain := g.grayagain, weak := g.weak } = g
  live : Heap.live g'.body = Heap.live g.body
  advances : g.colouring.Advances g'.colouring
  again : ∀ k ∈ g.grayagain, k ∈ g'.grayagain
  weak : ∀ k ∈ g.weak, k ∈ g'.weak
  length : g'.objects.length = g.objects.length
  whites : g'.whites ≤ g.whites
  workload : g'.workload ≤ g.workload
  targets : ∀ a ∈ T, g'.iswhite a = false

variable {g g' g'' : GlobalState} {T U : List ℕ} {o : ℕ}

theorem Marks.refl (g : GlobalState) : Marks [] g g where
  frame := rfl
  live := rfl
  advances := .refl _
  again _ h := h
  weak _ h := h
  length := rfl
  whites := le_refl _
  workload := le_refl _
  targets := by simp

theorem Marks.marked (h : Marks T g g') {a : ℕ} (ha : g.iswhite a = false) :
    g'.iswhite a = false := by
  have hm := h.advances.marked a
  simp only [colouring, Bool.not_eq_true] at hm
  exact hm ha

theorem Marks.trans (h : Marks T g g') (h' : Marks U g' g'') : Marks (T ++ U) g g'' where
  frame := by
    conv_rhs => rw [← h.frame, ← h'.frame]
  live := h'.live.trans h.live
  advances := h.advances.trans h'.advances
  again k hk := h'.again k (h.again k hk)
  weak k hk := h'.weak k (h.weak k hk)
  length := h'.length.trans h.length
  whites := h'.whites.trans h.whites
  workload := h'.workload.trans h.workload
  targets a ha := by
    rcases List.mem_append.mp ha with ha | ha
    · exact h'.marked (h.targets a ha)
    · exact h'.targets a ha

theorem Marks.mono (h : Marks T g g') (hsub : ∀ a ∈ U, a ∈ T) : Marks U g g' :=
  { h with targets := fun a ha => h.targets a (hsub a ha) }

theorem marks_of_not_white (h : g.iswhite o = false) : Marks [o] g g :=
  { Marks.refl g with targets := by simpa using h }

theorem marks_foldl {β : Type} {f : GlobalState → β → GlobalState} {T : β → List ℕ}
    (h : ∀ g x, Marks (T x) g (f g x)) (l : List β) (g : GlobalState) :
    Marks (l.flatMap T) g (l.foldl f g) := by
  induction l generalizing g with
  | nil => exact .refl g
  | cons x rest ih => exact (h g x).trans (ih _)

theorem marks_foldr {β : Type} {f : β → GlobalState → GlobalState} {T : β → List ℕ}
    (h : ∀ g x, Marks (T x) g (f x g)) (l : List β) (g : GlobalState) :
    Marks (l.flatMap T) g (l.foldr f g) := by
  induction l with
  | nil => exact .refl g
  | cons x rest ih =>
    apply (ih.trans (h _ x)).mono
    intro a ha
    simpa [or_comm] using ha

/-! Changes of one object -/

theorem whites_setMarked {f : Marked → Marked} (hf : ∀ m, (f m).iswhite = m.iswhite) :
    (g.setMarked o f).whites = g.whites := by
  unfold whites setMarked modifyObject
  apply countP_modify
  intro x
  cases x <;> simp [hf]

theorem whites_setBody (b : Body) : (g.setBody o b).whites = g.whites := by
  unfold whites setBody modifyObject
  apply countP_modify
  intro x
  cases x <;> simp

theorem whites_setMarked_lt {f : Marked → Marked} (hf : ∀ m, (f m).iswhite = false)
    (hw : g.iswhite o = true) : (g.setMarked o f).whites + 1 = g.whites := by
  simp only [iswhite, test, get] at hw
  unfold whites setMarked modifyObject
  cases hx : g.objects[o]? with
  | none => simp [hx] at hw
  | some x =>
    apply countP_modify_lt _ hx
    · simpa [hx] using hw
    · intro y
      cases y <;> simp [hf]

theorem colouring_setMarked {f : Marked → Marked} (hf : ∀ m, (f m).iswhite = m.iswhite) :
    (g.setMarked o f).colouring = g.colouring := by
  unfold colouring iswhite
  rw [test_setMarked_of_eq g o hf, body_setMarked]
  rfl

theorem marks_setMarked {f : Marked → Marked} (hf : ∀ m, (f m).iswhite = m.iswhite) :
    Marks [] g (g.setMarked o f) where
  frame := rfl
  live := by rw [body_setMarked]
  advances := colouring_setMarked (o := o) hf ▸ .refl _
  again _ h := h
  weak _ h := h
  length := by simp [setMarked, modifyObject]
  whites := (whites_setMarked hf).le
  workload := (congrArg _ (whites_setMarked hf)).le
  targets := by simp

theorem marks_setBody {b : Body} (hb : Heap.live g.body o = some b.live) :
    Marks [] g (g.setBody o b) := by
  have hlive : Heap.live (g.setBody o b).body = Heap.live g.body := by
    funext a
    simp only [Heap.live, body_setBody]
    split_ifs with ha
    · subst ha
      simp only [Heap.live] at hb
      rw [hb]
      cases hg : g.body o with
      | none => simp [hg] at hb
      | some b' => rfl
    · rfl
  have hcol : (g.setBody o b).colouring = g.colouring := by
    unfold colouring iswhite
    rw [test_setBody, Heap.strong_congr hlive, Heap.listed_congr hlive]
    rfl
  exact {
    frame := rfl
    live := hlive
    advances := hcol ▸ .refl _
    again := fun _ h => h
    weak := fun _ h => h
    length := by simp [setBody, modifyObject]
    whites := (whites_setBody b).le
    workload := (congrArg _ (whites_setBody b)).le
    targets := by simp }

theorem Marks.setBody {b : Body} (h : Marks T g g') (hb : Heap.live g.body o = some b.live) :
    Marks T g (g'.setBody o b) := by
  have hb' : Heap.live g'.body o = some b.live := by rw [h.live, hb]
  simpa using h.trans (marks_setBody hb')

theorem marks_weak (o : ℕ) : Marks [] g { g with weak := o :: g.weak } where
  frame := rfl
  live := rfl
  advances := .refl _
  again _ h := h
  weak k h := List.mem_cons_of_mem o h
  length := rfl
  whites := le_refl _
  workload := le_refl _
  targets := by simp

theorem marks_again (o : ℕ) : Marks [] g { g with grayagain := o :: g.grayagain } where
  frame := rfl
  live := rfl
  advances := .refl _
  again k h := List.mem_cons_of_mem o h
  weak _ h := h
  length := rfl
  whites := le_refl _
  workload := le_refl _
  targets := by simp

theorem white_setMarked {f : Marked → Marked} (hf : ∀ m, (f m).iswhite = false) (a : ℕ) :
    (g.setMarked o f).iswhite a = true ↔ g.iswhite a = true ∧ a ≠ o := by
  unfold iswhite
  rw [test_setMarked]
  split_ifs with ha
  · subst ha
    simp [test, hf]
  · simp [Ne.symm ha]

/-- An object is marked first, and then all that it refers to. -/
theorem Marks.of_marked {f : Marked → Marked} (hf : ∀ m, (f m).iswhite = false)
    (hw : g.iswhite o = true) (h : Marks T (g.setMarked o f) g')
    (ho : ∀ a ∈ Heap.strong g.body o, a ∈ T) : Marks [o] g g' := by
  have hlt := whites_setMarked_lt hf hw
  have hworkload : g'.workload ≤ g.gray.length + (g.setMarked o f).whites := h.workload
  have hwhites := h.whites
  have hgray : (g.setMarked o f).gray = g.gray := rfl
  exact {
    frame := congrArg (fun x => { x with objects := g.objects }) h.frame
    live := by rw [h.live, body_setMarked]
    advances := by
      apply Advances.of_marked (o := o) _ _ _ h.advances
      · right
        intro a ha
        simpa [colouring] using h.targets a (ho a ha)
      · unfold colouring
        rw [body_setMarked]
      · exact white_setMarked hf
      · intro k hk
        simpa only [colouring, body_setMarked, hgray] using hk
    again := h.again
    weak := h.weak
    length := by
      rw [h.length]
      simp [setMarked, modifyObject]
    whites := by omega
    workload := by
      unfold GlobalState.workload at hworkload ⊢
      omega
    targets := by
      have ho' : (g.setMarked o f).iswhite o = false := by
        rw [Bool.eq_false_iff]
        intro hwhite
        exact ((white_setMarked hf o).mp hwhite).2 rfl
      simpa using h.marked ho' }

theorem marks_enlist (hw : g.iswhite o = true) (hl : Heap.listed g.body o = true) :
    Marks [o] g { g.white2gray o with gray := o :: g.gray } := by
  have hf : ∀ m : Marked, m.white2gray.iswhite = false := Marked.iswhite_white2gray
  have hbody := body_setMarked g o Marked.white2gray
  have hlt : (g.white2gray o).whites + 1 = g.whites := whites_setMarked_lt hf hw
  exact {
    frame := rfl
    live := congrArg Heap.live hbody
    advances := by
      apply Advances.of_marked (d := (g.white2gray o).colouring) (o := o)
      · unfold colouring white2gray
        rw [hbody]
      · exact white_setMarked hf
      · intro k hk
        change k ∈ g.gray ∧ Heap.listed (g.setMarked o Marked.white2gray).body k = true
        rw [hbody]
        exact hk
      · exact {
          refs := rfl
          marked := fun _ ha => ha
          waiting := fun k hk => .inl ⟨List.mem_cons_of_mem o hk.1, hk.2⟩
          settled := fun _ ha ha' => absurd ha ha' }
      · left
        change o ∈ o :: g.gray ∧ Heap.listed (g.setMarked o Marked.white2gray).body o = true
        rw [hbody]
        exact ⟨List.mem_cons_self, hl⟩
    again := fun _ h => h
    weak := fun _ h => h
    length := by simp [white2gray, setMarked, modifyObject]
    whites := by
      change (g.white2gray o).whites ≤ g.whites
      omega
    workload := by
      change g.gray.length + 1 + (g.white2gray o).whites ≤ g.gray.length + g.whites
      omega
    targets := by
      intro a ha
      obtain rfl : a = o := by simpa using ha
      rw [Bool.eq_false_iff]
      intro hwhite
      exact ((white_setMarked hf a).mp hwhite).2 rfl }

/-! The functions that mark -/

theorem setMarked_setMarked (g : GlobalState) (o : ℕ) (f f' : Marked → Marked) :
    (g.setMarked o f).setMarked o f' = g.setMarked o fun m => f' (f m) := by
  simp [setMarked, modifyObject, List.modify_modify_eq, Function.comp_def]

theorem marks_reallymark (depth : ℕ) : ∀ (g : GlobalState) (o : ℕ), g.whites < depth →
    g.iswhite o = true → Marks [o] g (reallymark depth g o) := by
  induction depth with
  | zero =>
    intro g o hlt
    omega
  | succ depth ih =>
    intro g o hlt hw
    have hstep : ∀ (g' : GlobalState) (t : ℕ), g'.whites < depth →
        Marks [t] g' (if g'.iswhite t then reallymark depth g' t else g') := by
      intro g' t hlt'
      split_ifs with ht
      · exact ih g' t hlt' ht
      · exact marks_of_not_white (by simpa using ht)
    have hfold : ∀ (l : List ℕ) (g' : GlobalState), g'.whites < depth →
        Marks l g' (l.foldl (fun g t => if g.iswhite t then reallymark depth g t else g) g') := by
      intro l
      induction l with
      | nil => exact fun g' _ => .refl g'
      | cons t rest ihl =>
        intro g' hlt'
        have ht := hstep g' t hlt'
        exact ht.trans (ihl _ (ht.whites.trans_lt hlt'))
    have hf : ∀ m : Marked, m.white2gray.iswhite = false := Marked.iswhite_white2gray
    have hf' : ∀ m : Marked, m.white2gray.gray2black.iswhite = false := Marked.iswhite_white2gray
    cases hb : g.body o with
    | none =>
      unfold iswhite test at hw
      unfold body at hb
      simp only [Option.map_eq_none_iff] at hb
      simp [hb] at hw
    | some b =>
      cases b with
      | string s =>
        simp only [reallymark, hb]
        apply Marks.of_marked hf hw (.refl _)
        simp [Heap.strong, hb]
      | userdata metatable env =>
        have hlt' := whites_setMarked_lt hf' hw
        simp only [reallymark, hb, gray2black, white2gray, setMarked_setMarked]
        have hmt := hfold metatable.toList (g.setMarked o fun m => m.white2gray.gray2black) (by omega)
        have henv := hstep _ env (hmt.whites.trans_lt (by omega))
        apply Marks.of_marked hf' hw (hmt.trans henv)
        simp [Heap.strong, hb]
      | upval v closed =>
        have hlt' := whites_setMarked_lt hf hw
        have hv := hfold v.refs (g.white2gray o) (by
          unfold white2gray
          omega)
        simp only [reallymark, hb]
        split_ifs
        · apply Marks.of_marked hf hw (hv.trans (marks_setMarked Marked.iswhite_gray2black))
          simp [Heap.strong, hb]
        · apply Marks.of_marked hf hw hv
          simp [Heap.strong, hb]
      | _ =>
        simp only [reallymark, hb]
        apply marks_enlist hw
        simp [Heap.listed, hb, Body.isListed]

theorem whites_le (g : GlobalState) : g.whites ≤ g.objects.length := List.countP_le_length

theorem marks_markobject (g : GlobalState) (t : ℕ) : Marks [t] g (g.markobject t) := by
  unfold markobject
  split_ifs with ht
  · exact marks_reallymark _ g t (Nat.lt_succ_of_le g.whites_le) ht
  · exact marks_of_not_white (by simpa using ht)

theorem marks_markobjects (l : List ℕ) (g : GlobalState) : Marks l g (l.foldl markobject g) := by
  simpa using marks_foldl marks_markobject l g

theorem marks_markvalue (g : GlobalState) (v : Value) : Marks v.refs g (g.markvalue v) :=
  marks_markobjects v.refs g

theorem marks_marksome (g : GlobalState) (t : Option ℕ) : Marks t.toList g (g.marksome t) :=
  marks_markobjects t.toList g

theorem white2gray_of_not_white (h : g.iswhite o = false) : g.white2gray o = g := by
  have hobjects : g.objects.modify o (Option.map fun x => { x with marked := x.marked.white2gray }) =
      g.objects := by
    apply List.ext_getElem?
    intro a
    rw [List.getElem?_modify]
    split_ifs with ha
    · subst ha
      simp only [iswhite, test, get] at h
      rcases hx : g.objects[o]? with _ | _ | x
      · simp
      · simp
      · simp only [hx, Option.join_some, Option.any_some] at h
        simp [Marked.white2gray_of_not_white h]
    · simp
  unfold white2gray setMarked modifyObject
  rw [hobjects]

theorem marks_stringmark (g : GlobalState) (s : ℕ) : Marks [] g (g.stringmark s) := by
  unfold stringmark
  split
  · rename_i content hb
    by_cases hw : g.iswhite s
    · apply (Marks.of_marked Marked.iswhite_white2gray hw (.refl _) _).mono
      · simp
      · simp [Heap.strong, hb]
    · rw [white2gray_of_not_white (by simpa using hw)]
      exact .refl g
  · exact .refl g

theorem marks_stringmarks (l : List ℕ) (g : GlobalState) :
    Marks [] g (l.foldl stringmark g) := by
  apply (marks_foldl marks_stringmark l g).mono
  simp

theorem marks_marknode (weakkey weakvalue : Bool) (g : GlobalState) (n : Value × Value) :
    Marks (nodeRefs weakkey weakvalue n) g (marknode weakkey weakvalue n g) := by
  unfold nodeRefs marknode
  split_ifs
  · exact .refl g
  · exact .refl g
  · exact marks_markvalue g n.2
  · simpa using marks_markvalue g n.1
  · exact (marks_markvalue g n.1).trans (marks_markvalue _ n.2)

theorem marks_weaklist (g : GlobalState) (h : ℕ) (weakkey weakvalue : Bool) :
    Marks [] g (if weakkey || weakvalue then
        { g.setMarked h fun m => { m with bit3 := weakkey, valueWeak := weakvalue } with
          weak := h :: g.weak }
      else g) := by
  split_ifs
  · have hbits : Marks [] g (g.setMarked h fun m => { m with bit3 := weakkey, valueWeak := weakvalue }) :=
      marks_setMarked fun _ => rfl
    exact hbits.trans (marks_weak h)
  · exact .refl g

theorem marks_traversetable {h : ℕ} {metatable : Option ℕ} {array : List Value}
    {node : List (Value × Value)} (hb : Heap.live g.body h =
      some (Body.table metatable array node).live) :
    Marks (Heap.strong g.body h) g (g.traversetable h metatable array node).1 := by
  have hstrong : Heap.strong g.body h = metatable.toList ++
      (if (Heap.mode g.body metatable).2 then [] else array.flatMap Value.refs) ++
      node.flatMap (nodeRefs (Heap.mode g.body metatable).1 (Heap.mode g.body metatable).2) := by
    rw [← Heap.strong_live]
    simp only [Heap.strong, hb, Body.live, Heap.mode_live, Heap.flatMap_nodeRefs_filter]
  have hmt := marks_marksome g metatable
  have hmode := congrFun (Heap.mode_congr hmt.live) metatable
  unfold traversetable
  simp only [hmode]
  rw [hstrong]
  obtain ⟨weakkey, weakvalue⟩ := Heap.mode g.body metatable
  have hlisted := hmt.trans (marks_weaklist _ h weakkey weakvalue)
  simp only at hlisted ⊢
  generalize (if (weakkey || weakvalue) = true then _ else g.marksome metatable) = g₁ at hlisted ⊢
  have hlive : Heap.live g.body h = some (Body.table metatable array (node.map removeentry)).live := by
    rw [hb]
    simp only [Body.live, filter_removeentry]
  by_cases hboth : (weakkey && weakvalue) = true
  · rw [if_pos hboth]
    simp only [Bool.and_eq_true] at hboth
    apply hlisted.mono
    simp [hboth, nodeRefs]
  · rw [if_neg hboth]
    have harray : Marks (if weakvalue then [] else array.flatMap Value.refs) g₁
        (if weakvalue then g₁ else array.foldr (fun v g => g.markvalue v) g₁) := by
      split_ifs
      · exact .refl g₁
      · exact marks_foldr marks_markvalue array g₁
    have hnode := (hlisted.trans harray).trans (marks_foldr (marks_marknode weakkey weakvalue) node _)
    apply (hnode.setBody hlive).mono
    simp

theorem marks_traverseproto (g : GlobalState) (source : Option ℕ) (k : List Value)
    (upvalues p locvars : List (Option ℕ)) :
    Marks (k.flatMap Value.refs ++ p.reduceOption) g
      (g.traverseproto source k upvalues p locvars) := by
  have hsource := marks_stringmarks source.toList g
  have hk := hsource.trans (marks_foldl marks_markvalue k _)
  have hup := hk.trans (marks_stringmarks upvalues.reduceOption _)
  have hp := hup.trans (marks_markobjects p.reduceOption _)
  apply (hp.trans (marks_stringmarks locvars.reduceOption _)).mono
  simp

theorem marks_traversestack {l : ℕ} {gt : Value} {stack : List Value} {top : ℕ} {ci : List ℕ}
    {openupval : List ℕ} (hb : Heap.live g.body l =
      some (Body.thread gt stack top ci openupval).live) :
    Marks (Heap.strong g.body l) g (g.traversestack l gt stack top ci openupval) := by
  have hstrong : Heap.strong g.body l = gt.refs ++ (stack.take top).flatMap Value.refs := by
    rw [← Heap.strong_live]
    simp [Heap.strong, hb, Body.live, List.take_take]
  rw [hstrong]
  apply ((marks_markvalue g gt).trans (marks_foldl marks_markvalue (stack.take top) _)).setBody
  rw [hb]
  simp only [Body.live]
  rw [mapIdx_take_eq]
  intro i v hi
  rw [if_neg (by omega)]

/-- The first gray object is taken from the list, and all that it refers to is marked. -/
theorem Marks.of_traversed {rest : List ℕ} (hgray : g.gray = o :: rest)
    (h : Marks T { g with gray := rest } g')
    (ho : Heap.listed g.body o = true → ∀ a ∈ Heap.strong g.body o, a ∈ T) :
    Marks [] g g' ∧ g'.workload < g.workload := by
  have hlt : g'.workload < g.workload := by
    have hworkload : g'.workload ≤ rest.length + g.whites := h.workload
    have hlength : g.gray.length = rest.length + 1 := by simp [hgray]
    unfold GlobalState.workload at hworkload ⊢
    omega
  have hwait : ∀ k, g.colouring.waiting k →
      k ∈ rest ∧ Heap.listed g.body k = true ∨ k = o ∧ Heap.listed g.body o = true := by
    rintro k ⟨hk, hl⟩
    rw [hgray] at hk
    rcases List.mem_cons.mp hk with rfl | hk
    · exact .inr ⟨rfl, hl⟩
    · exact .inl ⟨hk, hl⟩
  refine ⟨?_, hlt⟩
  exact {
    frame := congrArg (fun x => { x with gray := g.gray }) h.frame
    live := h.live
    advances := by
      by_cases hl : Heap.listed g.body o = true
      · apply Advances.of_traversed (c := g.colouring) (d := { g with gray := rest }.colouring) (o := o)
          rfl rfl _ h.advances
        · intro a ha
          simpa [colouring] using h.targets a (ho hl a ha)
        · intro k hk
          rcases hwait k hk with hk | hk
          · exact .inr hk
          · exact .inl hk.1
      · exact {
          refs := h.advances.refs
          marked := h.advances.marked
          waiting := fun k hk => by
            rcases hwait k hk with hk | hk
            · exact h.advances.waiting k hk
            · exact absurd hk.2 hl
          settled := h.advances.settled }
    again := h.again
    weak := h.weak
    length := h.length
    whites := h.whites
    workload := hlt.le
    targets := by simp }

theorem marks_propagatemark (h : g.gray ≠ []) :
    Marks [] g g.propagatemark ∧ g.propagatemark.workload < g.workload := by
  obtain ⟨o, rest, hgray⟩ := List.exists_cons_of_ne_nil h
  have hpop : Marks [] { g with gray := rest } { g.gray2black o with gray := rest } :=
    marks_setMarked (o := o) Marked.iswhite_gray2black
  have hbody : { g.gray2black o with gray := rest }.body = g.body :=
    body_setMarked g o Marked.gray2black
  unfold propagatemark
  simp only [hgray]
  rw [hbody]
  cases hb : g.body o with
  | none =>
    apply Marks.of_traversed hgray hpop
    simp [Heap.listed, hb]
  | some b =>
    have hlive : Heap.live { g.gray2black o with gray := rest }.body o = some b.live := by
      rw [hbody]
      simp [Heap.live, hb]
    cases b with
    | table metatable array node =>
      have htable := hpop.trans (marks_traversetable hlive)
      simp only
      split_ifs
      · apply Marks.of_traversed hgray (htable.trans (marks_setMarked Marked.iswhite_black2gray))
        simp [hbody]
      · apply Marks.of_traversed hgray htable
        simp [hbody]
    | cclosure env upvalue =>
      apply Marks.of_traversed hgray
        ((hpop.trans (marks_markobject _ env)).trans (marks_foldl marks_markvalue upvalue _))
      simp [Heap.strong, hb]
    | lclosure env p upvals =>
      apply Marks.of_traversed hgray
        (((hpop.trans (marks_markobject _ env)).trans (marks_markobject _ p)).trans
          (marks_markobjects upvals _))
      simp [Heap.strong, hb]
    | thread gt stack top ci openupval =>
      have hmoved := (hpop.trans (marks_again o)).trans
        (marks_setMarked (o := o) Marked.iswhite_black2gray)
      have hlive' := hlive
      rw [hpop.live, ← hmoved.live] at hlive'
      have hstack := hmoved.trans (marks_traversestack hlive')
      apply Marks.of_traversed hgray hstack
      intro _ a ha
      rw [Heap.strong_congr hmoved.live]
      exact List.mem_append_right _ ha
    | proto source k upvalues p locvars =>
      apply Marks.of_traversed hgray
        (hpop.trans (marks_traverseproto _ source k upvalues p locvars))
      simp [Heap.strong, hb]
    | _ =>
      apply Marks.of_traversed hgray hpop
      simp [Heap.listed, hb, Body.isListed]

theorem marks_propagateFuel (n : ℕ) (g : GlobalState) (hn : g.workload ≤ n) :
    Marks [] g (g.propagateFuel n) ∧ (g.propagateFuel n).gray = [] := by
  induction n generalizing g with
  | zero =>
    have hgray : g.gray = [] := by
      unfold workload at hn
      exact List.eq_nil_of_length_eq_zero (by omega)
    exact ⟨.refl g, hgray⟩
  | succ n ih =>
    unfold propagateFuel
    split_ifs with hgray
    · exact ⟨.refl g, hgray⟩
    · obtain ⟨hstep, hlt⟩ := marks_propagatemark hgray
      obtain ⟨hrest, hempty⟩ := ih g.propagatemark (by omega)
      exact ⟨hstep.trans hrest, hempty⟩

theorem marks_propagateall (g : GlobalState) :
    Marks [] g g.propagateall ∧ g.propagateall.gray = [] := by
  apply marks_propagateFuel
  have hle := g.whites_le
  unfold workload
  omega

end GlobalState
end H1Z1Server.Lua
