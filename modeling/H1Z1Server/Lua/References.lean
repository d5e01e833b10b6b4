import H1Z1Server.Lua.Marking

/-! What an object keeps alive, and what the mark phase leaves as it is of a heap. -/
namespace H1Z1Server.Lua

/-- What the loop of `traversetable` over the nodes marks of one. -/
def nodeRefs (weakkey weakvalue : Bool) (n : Value × Value) : List ℕ :=
  if n.2 = .nil then []
  else (if weakkey then [] else n.1.refs) ++ (if weakvalue then [] else n.2.refs)

/-- The fields without the entries that are empty and the slots that are out of use. -/
def Body.live : Body → Body
  | .table metatable array node => .table metatable array (node.filter (·.2 ≠ .nil))
  | .thread gt stack top ci openupval => .thread gt (stack.take top) top ci openupval
  | b => b

/-- Objects that are put on the gray list. -/
def Body.isListed : Body → Bool
  | .string _ | .userdata _ _ | .upval _ _ => false
  | _ => true

@[simp] theorem Body.isListed_live (b : Body) : b.live.isListed = b.isListed := by
  cases b <;> rfl

theorem mapIdx_take_eq (f : ℕ → Value → Value) (top : ℕ) (stack : List Value)
    (h : ∀ i v, i < top → f i v = v) : (stack.mapIdx f).take top = stack.take top := by
  apply List.ext_getElem?
  intro i
  by_cases hi : i < top
  · simp only [List.getElem?_take_of_lt hi, List.getElem?_mapIdx]
    cases stack[i]? <;> simp [h, hi]
  · simp [List.getElem?_take_eq_none (not_lt.mp hi)]

namespace Heap

/-- The objects that `o` refers to, weak references left out. -/
def strong (h : Heap) (o : ℕ) : List ℕ :=
  match h o with
  | none | some (.string _) => []
  | some (.userdata metatable env) => metatable.toList ++ [env]
  | some (.upval v _) => v.refs
  | some (.cclosure env upvalue) => env :: upvalue.flatMap Value.refs
  | some (.lclosure env p upvals) => env :: p :: upvals
  | some (.table metatable array node) =>
    metatable.toList ++ (if (h.mode metatable).2 then [] else array.flatMap Value.refs) ++
      node.flatMap (nodeRefs (h.mode metatable).1 (h.mode metatable).2)
  | some (.thread gt stack top _ _) => gt.refs ++ (stack.take top).flatMap Value.refs
  | some (.proto _ k _ p _) => k.flatMap Value.refs ++ p.reduceOption

def listed (h : Heap) (o : ℕ) : Bool := (h o).any Body.isListed

def live (h : Heap) : Heap := fun o => (h o).map Body.live

theorem isString_live (h : Heap) (content : String) (v : Value) :
    h.live.isString content v = h.isString content v := by
  cases v with
  | obj o =>
    simp only [isString, live]
    cases h o with
    | none => rfl
    | some b => cases b <;> rfl
  | _ => rfl

theorem gettm_live (h : Heap) (events : ℕ) (ename : String) :
    h.live.gettm events ename = h.gettm events ename := by
  unfold gettm
  simp only [isString_live]
  unfold live
  cases h events with
  | none => rfl
  | some b =>
    cases b with
    | table metatable array node =>
      simp only [Option.map_some, Body.live, List.find?_filter]
      congr 3
      funext n
      by_cases hn : n.2 = .nil <;> simp [hn]
    | _ => rfl

theorem mode_live (h : Heap) (metatable : Option ℕ) : h.live.mode metatable = h.mode metatable := by
  have htm : h.live.fasttm metatable "__mode" = h.fasttm metatable "__mode" := by
    cases metatable with
    | none => rfl
    | some events => exact h.gettm_live events "__mode"
  unfold mode
  rw [htm]
  cases h.fasttm metatable "__mode" with
  | obj o =>
    simp only [live]
    cases h o with
    | none => rfl
    | some b => cases b <;> rfl
  | _ => rfl

theorem flatMap_nodeRefs_filter (weakkey weakvalue : Bool) (node : List (Value × Value)) :
    (node.filter (·.2 ≠ .nil)).flatMap (nodeRefs weakkey weakvalue) =
      node.flatMap (nodeRefs weakkey weakvalue) := by
  induction node with
  | nil => rfl
  | cons n rest ih =>
    by_cases hn : n.2 = .nil
    · simpa [hn, nodeRefs] using ih
    · simpa [hn] using ih

theorem strong_live (h : Heap) (o : ℕ) : h.live.strong o = h.strong o := by
  unfold strong
  simp only [mode_live]
  unfold live
  cases h o with
  | none => rfl
  | some b =>
    cases b with
    | table metatable array node => simp only [Option.map_some, Body.live, flatMap_nodeRefs_filter]
    | thread gt stack top ci openupval => simp [Body.live, List.take_take]
    | _ => rfl

theorem listed_live (h : Heap) (o : ℕ) : h.live.listed o = h.listed o := by
  unfold listed live
  cases h o <;> simp

theorem strong_congr {h h' : Heap} (heq : h'.live = h.live) : h'.strong = h.strong := by
  funext o
  rw [← strong_live, heq, strong_live]

theorem mode_congr {h h' : Heap} (heq : h'.live = h.live) : h'.mode = h.mode := by
  funext metatable
  rw [← mode_live, heq, mode_live]

theorem listed_congr {h h' : Heap} (heq : h'.live = h.live) : h'.listed = h.listed := by
  funext o
  rw [← listed_live, heq, listed_live]

end Heap

/-- Removing the keys of empty entries changes nothing that counts. -/
theorem filter_removeentry (node : List (Value × Value)) :
    (node.map removeentry).filter (·.2 ≠ .nil) = node.filter (·.2 ≠ .nil) := by
  induction node with
  | nil => rfl
  | cons n rest ih =>
    obtain ⟨k, v⟩ := n
    by_cases hv : v = .nil
    · subst hv
      cases k <;> simpa [removeentry] using ih
    · have hn : removeentry (k, v) = (k, v) := by
        unfold removeentry
        split <;> simp_all
      simpa [hn, hv] using ih

end H1Z1Server.Lua
