import H1Z1Server.Library.Outcome
import H1Z1Server.Library.Segments
import H1Z1Server.Lua.TableRuns

/-! The quicksort of `table.sort`. -/
namespace H1Z1Server.LuaSort
open LuaApi (Value LuaNumber)
open LuaTable Outcome Segments

/-- Why a sort does not come to its end: an error, no room on the C stack for another call, or no end so far. -/
inductive Halt where
  | abort (a : Abort)
  | stackOverflow
  | running
  deriving DecidableEq

/-- What a sort works with: the cells of the table at index 1, and the order. -/
structure Ground (S V : Type) where
  rawgeti : ℤ → EStateM Halt S V
  rawseti : ℤ → V → EStateM Halt S Unit
  sort_comp : V → V → EStateM Halt S Bool

variable {S V : Type}

namespace Ground
variable (g : Ground S V)

/-- The value on top of the stack goes to `i`, the one under it to `j`. -/
def set2 (i j : ℤ) (top under : V) : EStateM Halt S Unit := do
  g.rawseti i top
  g.rawseti j under

def invalidOrder : Halt := .abort (.luaError "invalid order function for sorting")

/-- Repeats `++i` until `a[i] >= P`. -/
def scanUp (P : V) (u i : ℤ) : EStateM Halt S ({ k : ℤ // i < k } × V) := do
  let ai ← g.rawgeti (i + 1)
  if ← g.sort_comp ai P then
    if u < i + 1 then throw invalidOrder
    else do
      let (k, ak) ← scanUp P u (i + 1)
      return (⟨k, (lt_add_one i).trans k.2⟩, ak)
  else return (⟨i + 1, lt_add_one i⟩, ai)
termination_by (u + 1 - i).toNat

/-- Repeats `--j` until `a[j] <= P`. -/
def scanDown (P : V) (l j : ℤ) : EStateM Halt S ({ k : ℤ // k < j } × V) := do
  let aj ← g.rawgeti (j - 1)
  if ← g.sort_comp P aj then
    if j - 1 < l then throw invalidOrder
    else do
      let (k, ak) ← scanDown P l (j - 1)
      return (⟨k, k.2.trans (sub_one_lt j)⟩, ak)
  else return (⟨j - 1, sub_one_lt j⟩, aj)
termination_by (j + 1 - l).toNat

/-- The loop around the scans, and the `i` at its end. -/
def partition (P : V) (l u i j : ℤ) : EStateM Halt S ℤ := do
  let (i', ai) ← g.scanUp P u i
  let (j', aj) ← g.scanDown P l j
  if j'.1 < i'.1 then return i'
  else do
    g.set2 i' j' aj ai
    partition P l u i' j'
termination_by (j - i).toNat
decreasing_by
  have := i'.2
  have := j'.2
  omega

/-- What `auxsort` does when `x` is before `y`, and otherwise. -/
def setIfLess (x y : V) (i j : ℤ) (top under : V) (otherwise : EStateM Halt S Unit) : EStateM Halt S Unit := do
  if ← g.sort_comp x y then g.set2 i j top under else otherwise

/-- Sorts `a[l]`, `a[(l+u)/2]` and `a[u]`, and gives the index in the middle. Two elements have none. -/
def sortThree (l u : ℤ) : EStateM Halt S (Option ℤ) := do
  let al ← g.rawgeti l
  let au ← g.rawgeti u
  g.setIfLess au al l u au al (pure ())
  if u - l = 1 then return none
  else if 2 ^ 31 ≤ l + u then throw (.abort .undefinedBehaviour)
  else do
    let i := (l + u) / 2
    let ai ← g.rawgeti i
    let al ← g.rawgeti l
    g.setIfLess ai al i l al ai do
      let au ← g.rawgeti u
      g.setIfLess au ai i u au ai (pure ())
    return some i

/-- Puts the pivot behind what is to be partitioned and, at the end, where the parts meet. -/
def split (l u i : ℤ) : EStateM Halt S ℤ := do
  let P ← g.rawgeti i
  let a ← g.rawgeti (u - 1)
  g.set2 i (u - 1) a P
  let i ← g.partition P l u l (u - 1)
  let a ← g.rawgeti (u - 1)
  let ai ← g.rawgeti i
  g.set2 (u - 1) i ai a
  return i

/-- The body of the loop. The smaller half comes first. -/
def round (l u : ℤ) : EStateM Halt S (Option ((ℤ × ℤ) × (ℤ × ℤ))) := do
  match ← g.sortThree l u with
  | none => return none
  | some i =>
    if u - l = 2 then return none
    else do
      let i ← g.split l u i
      if i - l < u - i then return some ((l, i - 1), (i + 1, u))
      else return some ((i + 1, u), (l, i - 1))

/-- The loop runs `fuel` times at most, and `depth` is how many calls may be nested. -/
def auxsort : ℕ → ℕ → ℤ → ℤ → EStateM Halt S Unit
  | 0, _, _, _ => throw .running
  | fuel + 1, depth, l, u =>
    if l < u then do
      match ← g.round l u with
      | none => return
      | some (smaller, larger) =>
        match depth with
        | 0 => throw .stackOverflow
        | depth + 1 => do
          auxsort fuel depth smaller.1 smaller.2
          auxsort fuel (depth + 1) larger.1 larger.2
    else return

end Ground

section Tables
variable {N W : Type} [LuaNumber N] [LuaMemory N]

def lua_rawgeti (t : Table N) (n : ℤ) : Value N := t.value (t.luaH_getnum n)

def lua_rawseti (t : Table N) (n : ℤ) (v : Value N) : Except Abort (Table N) := do
  let (t, p) ← t.luaH_setnum n
  return t.write p v

/-- The table at index 1 with what else there is. The order is the function at index 2, or `lua_lessthan`. -/
def tableGround (sort_comp : Value N → Value N → EStateM Halt (Table N × W) Bool) :
    Ground (Table N × W) (Value N) where
  rawgeti i := do
    let (t, _) ← get
    return lua_rawgeti t i
  rawseti i v := do
    let (t, w) ← get
    match lua_rawseti t i v with
    | .ok t => set (t, w)
    | .error a => throw (.abort a)
  sort_comp := sort_comp

/-- `sort`, behind the checks of its arguments. -/
def sort (sort_comp : Value N → Value N → EStateM Halt (Table N × W) Bool) (fuel depth : ℕ) :
    EStateM Halt (Table N × W) Unit := do
  let (t, _) ← get
  (tableGround sort_comp).auxsort fuel depth 1 t.luaH_getn

end Tables

/-- The parts that a round leaves to be sorted, around an `i`, the smaller one first. -/
inductive Halves (l u : ℤ) : ℤ × ℤ → ℤ × ℤ → Prop where
  | leftFirst (i : ℤ) (hl : l < i) (hlt : i - l < u - i) : Halves l u (l, i - 1) (i + 1, u)
  | rightFirst (i : ℤ) (hu : i ≤ u + 1) (hle : u - i ≤ i - l) : Halves l u (i + 1, u) (l, i - 1)

section Halving
variable {l u : ℤ} {smaller larger : ℤ × ℤ}

theorem Halves.within (hlu : l < u) (h : Halves l u smaller larger) :
    (l ≤ smaller.1 ∧ smaller.2 ≤ u) ∧ l ≤ larger.1 ∧ larger.2 ≤ u := by
  cases h <;> dsimp only <;> omega

theorem Halves.sizes (h : Halves l u smaller larger) :
    2 * (smaller.2 - smaller.1 + 1) ≤ u - l ∧ larger.2 - larger.1 ≤ u - l := by
  cases h <;> dsimp only <;> omega

end Halving

/-! How far the indices go, whatever the table and the order function do -/

namespace Ground
variable (g : Ground S V) (P : V) (l u i j : ℤ) (s : S)

theorem scanUp_le (hiu : i ≤ u) : Ends ((g.scanUp P u i).run s) (fun p _ => p.1.1 ≤ u + 1) fun _ _ => True := by
  induction hn : (u - i).toNat using Nat.strong_induction_on generalizing i s with
  | _ n ih =>
    rw [scanUp]
    apply Ends.seq (ends_any _)
    intro ai s₁ _
    apply Ends.seq (ends_any _)
    intro b s₂ _
    apply ends_ite
    · intro _
      apply ends_ite
      · exact fun _ => trivial
      intro hle
      exact Ends.seq (ih (u - (i + 1)).toNat (by omega) (i + 1) s₂ (by omega) rfl) fun _ _ hk => hk
    · intro _
      exact (by omega : i + 1 ≤ u + 1)

theorem scanDown_ge (hlj : l ≤ j) : Ends ((g.scanDown P l j).run s) (fun p _ => l - 1 ≤ p.1.1) fun _ _ => True := by
  induction hn : (j - l).toNat using Nat.strong_induction_on generalizing j s with
  | _ n ih =>
    rw [scanDown]
    apply Ends.seq (ends_any _)
    intro aj s₁ _
    apply Ends.seq (ends_any _)
    intro b s₂ _
    apply ends_ite
    · intro _
      apply ends_ite
      · exact fun _ => trivial
      intro hle
      exact Ends.seq (ih (j - 1 - l).toNat (by omega) (j - 1) s₂ (by omega) rfl) fun _ _ hk => hk
    · intro _
      exact (by omega : l - 1 ≤ j - 1)

theorem partition_bounds (hiu : i ≤ u) (hju : j ≤ u) :
    Ends ((g.partition P l u i j).run s) (fun k _ => i < k ∧ k ≤ u + 1) fun _ _ => True := by
  induction hn : (j - i).toNat using Nat.strong_induction_on generalizing i j s with
  | _ n ih =>
    rw [partition]
    apply Ends.seq (g.scanUp_le P u i s hiu)
    intro i' s₁ hiu'
    apply Ends.seq (ends_any _)
    intro j' s₂ _
    have hi := i'.1.2
    have hj := j'.1.2
    apply ends_ite
    · exact fun _ => ⟨hi, hiu'⟩
    intro hle
    apply Ends.seq (ends_any _)
    intro _ s₃ _
    apply (ih (j'.1.1 - i'.1.1).toNat (by omega) _ _ s₃ (by omega) (by omega) rfl).mono_ok
    exact fun k _ hk => ⟨by omega, hk.2⟩

theorem split_bounds (hlu : l ≤ u) :
    Ends ((g.split l u i).run s) (fun k _ => l < k ∧ k ≤ u + 1) fun _ _ => True := by
  unfold split
  apply Ends.seq (ends_any _)
  intro P s₁ _
  apply Ends.seq (ends_any _)
  intro a s₂ _
  apply Ends.seq (ends_any _)
  intro _ s₃ _
  apply Ends.seq (g.partition_bounds P l u l (u - 1) s₃ hlu (by omega))
  intro k s₄ hk
  apply Ends.seq (ends_any _)
  intro a s₅ _
  apply Ends.seq (ends_any _)
  intro ai s₆ _
  apply Ends.seq (ends_any _)
  exact fun _ s₇ _ => hk

theorem round_halves (hlu : l < u) :
    Ends ((g.round l u).run s) (fun parts _ => ∀ p ∈ parts, Halves l u p.1 p.2) fun _ _ => True := by
  unfold round
  apply Ends.seq (ends_any _)
  intro i s₁ _
  cases i with
  | none => exact nofun
  | some i =>
    dsimp only
    apply ends_ite
    · exact fun _ => nofun
    intro _
    apply Ends.seq (g.split_bounds l u i s₁ hlu.le)
    intro k s₂ hk
    apply ends_ite
    · intro hlt _ hp
      cases hp
      exact .leftFirst k hk.1 hlt
    · intro hle _ hp
      cases hp
      exact .rightFirst k hk.2 (by omega)

/-- Whatever the order function answers, calls are nested no deeper than the logarithm of the number of elements:
where there is room for that many, more room makes no difference. -/
theorem auxsort_depth (fuel : ℕ) {depth depth' : ℕ} (hdepth : u - l + 1 < 2 ^ (depth + 1)) (hle : depth ≤ depth') :
    (g.auxsort fuel depth' l u).run s = (g.auxsort fuel depth l u).run s := by
  induction fuel generalizing depth depth' l u s with
  | zero => rfl
  | succ fuel ih =>
    rw [auxsort, auxsort]
    split
    case isFalse => rfl
    case isTrue hlu =>
      apply (g.round_halves l u s hlu).run_congr
      intro parts s₁ hparts
      cases parts with
      | none => rfl
      | some parts =>
        obtain ⟨hsmaller, hlarger⟩ := (hparts parts rfl).sizes
        cases depth with
        | zero => omega
        | succ depth =>
          obtain ⟨depth', rfl⟩ : ∃ d, depth' = d + 1 := ⟨depth' - 1, by omega⟩
          have hpow : (2 : ℤ) ^ (depth + 1 + 1) = 2 * 2 ^ (depth + 1) := pow_succ' 2 (depth + 1)
          have hnested := ih parts.1.1 parts.1.2 s₁ (by omega) (show depth ≤ depth' by omega)
          dsimp only
          rw [EStateM.run_bind, EStateM.run_bind, hnested]
          cases (g.auxsort fuel depth parts.1.1 parts.1.2).run s₁ with
          | ok _ s₂ => exact ih _ _ s₂ (by omega) hle
          | error e s₂ => rfl

end Ground
end H1Z1Server.LuaSort
