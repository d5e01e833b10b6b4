import H1Z1Server.Lua.Interning

/-! The table of strings: `luaS_newlstr` gives one object for each content, whatever the collector does in between. -/
namespace H1Z1Server.LuaString

/-- A string of the table. It is dead if it has the white of the cycle before. -/
structure TString where
  address : ℕ
  hash : UInt32
  str : List UInt8
  dead : Bool
  deriving DecidableEq

/-- Chains of strings, of which the first `size` are there. `sweepstring` says that they are being swept. -/
structure StringTable where
  hash : ℕ → List TString
  size : ℕ
  nuse : ℕ
  sweepstring : Bool

def MINSTRTABSIZE : ℕ := 32

def MAX_INT : ℕ := 2 ^ 31 - 1 - 2

/-- `lmod(s, size)`, for a power of two. -/
def lmod (h : UInt32) (size : ℕ) : ℕ := (h &&& UInt32.ofNat (size - 1)).toNat

/-- The string becomes the first of its chain. -/
def chain (size : ℕ) (hash : ℕ → List TString) (ts : TString) : ℕ → List TString :=
  Function.update hash (lmod ts.hash size) (ts :: hash (lmod ts.hash size))

namespace StringTable

def luaS_resize (t : StringTable) (newsize : ℕ) : StringTable :=
  if t.sweepstring then t -- cannot resize during GC traverse
  else
    { t with
      hash := ((List.range t.size).flatMap t.hash).foldl (chain newsize) fun _ => []
      size := newsize }

/-- A new string, at the address that has been allocated for it. -/
def newlstr (t : StringTable) (address : ℕ) (str : List UInt8) (h : UInt32) : StringTable :=
  let t := { t with hash := chain t.size t.hash ⟨address, h, str, false⟩, nuse := t.nuse + 1 }
  if t.size < t.nuse ∧ t.size ≤ MAX_INT / 2 then t.luaS_resize (t.size * 2) else t

/-- `changewhite` for the string at an address, if it is dead. -/
def revive (address : ℕ) (ts : TString) : TString := if ts.address = address then { ts with dead := false } else ts

/-- The table and the string that is found or made, by its address. -/
def luaS_newlstr (t : StringTable) (address : ℕ) (str : List UInt8) : StringTable × ℕ :=
  let h := LuaString.hash str
  let i := lmod h t.size
  match (t.hash i).find? (·.str = str) with
  | some ts => ({ t with hash := Function.update t.hash i ((t.hash i).map (revive ts.address)) }, ts.address)
  | none => (t.newlstr address str h, address)

/-- `sweepwholelist` for a chain. -/
def sweep (t : StringTable) (i : ℕ) : StringTable :=
  { t with
    hash := Function.update t.hash i ((t.hash i).filter fun ts => !ts.dead)
    nuse := t.nuse - (t.hash i).countP (·.dead) }

def checkSizes (t : StringTable) : StringTable :=
  if t.nuse < t.size / 4 ∧ MINSTRTABSIZE * 2 < t.size then t.luaS_resize (t.size / 2) else t

/-- The table that a state begins with. -/
def new : StringTable := luaS_resize ⟨fun _ => [], 0, 0, false⟩ MINSTRTABSIZE

/-- What is done to the table. Which strings are dead, and when they are swept, is up to the collector. -/
inductive Operation where
  | newlstr (address : ℕ) (str : List UInt8)
  | colour (dead : ℕ → Bool)
  | phase (sweepstring : Bool)
  | sweep (i : ℕ)
  | checkSizes

def apply (t : StringTable) : Operation → StringTable
  | .newlstr address str => (t.luaS_newlstr address str).1
  | .colour dead => { t with hash := fun i => (t.hash i).map fun ts => { ts with dead := dead ts.address } }
  | .phase sweepstring => { t with sweepstring }
  | .sweep i => t.sweep i
  | .checkSizes => t.checkSizes

def Has (t : StringTable) (ts : TString) : Prop := ∃ i < t.size, ts ∈ t.hash i

/-- Memory is allocated where no string of the table is. -/
def Fresh (t : StringTable) (address : ℕ) : Prop := ∀ ts, t.Has ts → ts.address ≠ address

def Admissible (t : StringTable) : Operation → Prop
  | .newlstr address _ => t.Fresh address
  | _ => True

inductive Reachable : StringTable → Prop where
  | new : Reachable new
  | step {t : StringTable} {o : Operation} (h : Reachable t) (ho : t.Admissible o) : Reachable (t.apply o)

/-! The invariant -/

structure Interned (t : StringTable) : Prop where
  pos : 0 < t.size
  placed : ∀ i < t.size, ∀ ts ∈ t.hash i, ts.hash = LuaString.hash ts.str ∧ lmod ts.hash t.size = i
  same : ∀ ts ts', t.Has ts → t.Has ts' → (ts.address = ts'.address ↔ ts.str = ts'.str)

variable {t t' : StringTable}

theorem lmod_lt (h : UInt32) {size : ℕ} (hpos : 0 < size) : lmod h size < size := by
  have hle : lmod h size ≤ (size - 1) % 2 ^ 32 := by
    rw [lmod, UInt32.toNat_and, UInt32.toNat_ofNat']
    exact Nat.and_le_right
  have hmod := Nat.mod_le (size - 1) (2 ^ 32)
  omega

theorem mem_chain {size : ℕ} {hash : ℕ → List TString} {ts ts' : TString} {i : ℕ} :
    ts' ∈ chain size hash ts i ↔ ts' ∈ hash i ∨ ts' = ts ∧ lmod ts.hash size = i := by
  by_cases hi : i = lmod ts.hash size
  · subst hi
    simp [chain, or_comm]
  · simp [chain, Function.update_of_ne hi, Ne.symm hi]

theorem mem_foldl_chain {size : ℕ} {l : List TString} {hash : ℕ → List TString} {ts : TString} {i : ℕ} :
    ts ∈ l.foldl (chain size) hash i ↔ ts ∈ hash i ∨ ts ∈ l ∧ lmod ts.hash size = i := by
  induction l generalizing hash with
  | nil => simp
  | cons first l ih =>
    rw [List.foldl_cons, ih, mem_chain, List.mem_cons]
    constructor
    · rintro ((h | ⟨rfl, h⟩) | ⟨h, hi⟩)
      · exact .inl h
      · exact .inr ⟨.inl rfl, h⟩
      · exact .inr ⟨.inr h, hi⟩
    · rintro (h | ⟨rfl | h, hi⟩)
      · exact .inl (.inl h)
      · exact .inl (.inr ⟨rfl, hi⟩)
      · exact .inr ⟨h, hi⟩

theorem mem_resize {newsize : ℕ} (hsweep : t.sweepstring = false) {ts : TString} {i : ℕ} :
    ts ∈ (t.luaS_resize newsize).hash i ↔ t.Has ts ∧ lmod ts.hash newsize = i := by
  simp [luaS_resize, hsweep, mem_foldl_chain, Has]

theorem resize_of_sweeping {newsize : ℕ} (hsweep : t.sweepstring = true) : t.luaS_resize newsize = t := by
  simp [luaS_resize, hsweep]

theorem size_resize {newsize : ℕ} (hsweep : t.sweepstring = false) : (t.luaS_resize newsize).size = newsize := by
  simp [luaS_resize, hsweep]

theorem has_resize {newsize : ℕ} (hpos : 0 < newsize) {ts : TString} : (t.luaS_resize newsize).Has ts ↔ t.Has ts := by
  cases hsweep : t.sweepstring with
  | true => rw [resize_of_sweeping hsweep]
  | false =>
    constructor
    · rintro ⟨i, -, hmem⟩
      exact ((mem_resize hsweep).mp hmem).1
    · intro h
      refine ⟨lmod ts.hash newsize, ?_, (mem_resize hsweep).mpr ⟨h, rfl⟩⟩
      rw [size_resize hsweep]
      exact lmod_lt _ hpos

theorem Interned.resize (h : t.Interned) {newsize : ℕ} (hpos : 0 < newsize) : (t.luaS_resize newsize).Interned := by
  cases hsweep : t.sweepstring with
  | true => rwa [resize_of_sweeping hsweep]
  | false =>
    refine ⟨by rwa [size_resize hsweep], fun i _ ts hmem => ?_, fun ts ts' hts hts' => ?_⟩
    · obtain ⟨⟨j, hj, hold⟩, hi⟩ := (mem_resize hsweep).mp hmem
      rw [size_resize hsweep]
      exact ⟨(h.placed j hj ts hold).1, hi⟩
    · exact h.same ts ts' ((has_resize hpos).mp hts) ((has_resize hpos).mp hts')

/-- Strings may go, and change between dead and alive. -/
theorem Interned.subtable (h : t.Interned) (hsize : t'.size = t.size)
    (hmem : ∀ i, ∀ ts' ∈ t'.hash i, ∃ ts ∈ t.hash i, ts.address = ts'.address ∧ ts.str = ts'.str ∧ ts.hash = ts'.hash) :
    t'.Interned := by
  refine ⟨hsize ▸ h.pos, fun i hi ts' hts' => ?_, ?_⟩
  · obtain ⟨ts, hts, -, hstr, hhash⟩ := hmem i ts' hts'
    rw [hsize] at hi ⊢
    rw [← hhash, ← hstr]
    exact h.placed i hi ts hts
  · rintro ts₁ ts₂ ⟨i, hi, h₁⟩ ⟨j, hj, h₂⟩
    rw [hsize] at hi hj
    obtain ⟨old₁, hold₁, haddress₁, hstr₁, -⟩ := hmem i ts₁ h₁
    obtain ⟨old₂, hold₂, haddress₂, hstr₂, -⟩ := hmem j ts₂ h₂
    rw [← haddress₁, ← haddress₂, ← hstr₁, ← hstr₂]
    exact h.same old₁ old₂ ⟨i, hi, hold₁⟩ ⟨j, hj, hold₂⟩

theorem has_chained (hpos : 0 < t.size) {ts x : TString} {nuse : ℕ} :
    Has { t with hash := chain t.size t.hash ts, nuse := nuse } x ↔ t.Has x ∨ x = ts := by
  constructor
  · rintro ⟨i, hi, hmem⟩
    rcases mem_chain.mp hmem with hold | ⟨rfl, -⟩
    · exact .inl ⟨i, hi, hold⟩
    · exact .inr rfl
  · rintro (⟨i, hi, hold⟩ | rfl)
    · exact ⟨i, hi, mem_chain.mpr (.inl hold)⟩
    · exact ⟨_, lmod_lt _ hpos, mem_chain.mpr (.inr ⟨rfl, rfl⟩)⟩

theorem Interned.chained (h : t.Interned) {ts : TString} (hhash : ts.hash = LuaString.hash ts.str)
    (hfresh : t.Fresh ts.address) (hnew : ∀ x, t.Has x → x.str ≠ ts.str) (nuse : ℕ) :
    Interned { t with hash := chain t.size t.hash ts, nuse := nuse } := by
  refine ⟨h.pos, fun i hi x hmem => ?_, fun x y hx hy => ?_⟩
  · rcases mem_chain.mp hmem with hold | ⟨rfl, hplace⟩
    · exact h.placed i hi x hold
    · exact ⟨hhash, hplace⟩
  · rcases (has_chained h.pos).mp hx with hold | rfl
    · rcases (has_chained h.pos).mp hy with hold' | rfl
      · exact h.same x y hold hold'
      · exact iff_of_false (hfresh x hold) (hnew x hold)
    · rcases (has_chained h.pos).mp hy with hold | rfl
      · exact iff_of_false (hfresh y hold).symm (hnew y hold).symm
      · exact iff_of_true rfl rfl

theorem has_newlstr (hpos : 0 < t.size) {address : ℕ} {str : List UInt8} {h : UInt32} {x : TString} :
    (t.newlstr address str h).Has x ↔ t.Has x ∨ x = ⟨address, h, str, false⟩ := by
  unfold newlstr
  dsimp only
  split
  · rw [has_resize (by omega)]
    exact has_chained hpos
  · exact has_chained hpos

theorem Interned.newlstr (h : t.Interned) {address : ℕ} {str : List UInt8} (hfresh : t.Fresh address)
    (hnew : ∀ x, t.Has x → x.str ≠ str) : (t.newlstr address str (LuaString.hash str)).Interned := by
  let ts : TString := ⟨address, LuaString.hash str, str, false⟩
  have hchained : Interned { t with hash := chain t.size t.hash ts, nuse := t.nuse + 1 } :=
    h.chained rfl hfresh hnew (t.nuse + 1)
  unfold StringTable.newlstr
  dsimp only
  split
  · exact hchained.resize (Nat.mul_pos h.pos two_pos)
  · exact hchained

theorem revive_cases (address : ℕ) (ts : TString) :
    (revive address ts).address = ts.address ∧ (revive address ts).str = ts.str ∧
      (revive address ts).hash = ts.hash := by
  unfold revive
  split
  · exact ⟨rfl, rfl, rfl⟩
  · exact ⟨rfl, rfl, rfl⟩

theorem mem_update_map {hash : ℕ → List TString} {f : TString → TString} {i j : ℕ} {x : TString} :
    x ∈ Function.update hash i ((hash i).map f) j ↔ ∃ y ∈ hash j, x = if j = i then f y else y := by
  by_cases hj : j = i
  · subst hj
    simp [eq_comm]
  · simp [hj]

/-- A string with these bytes is on the chain of their hash, or nowhere. -/
theorem Interned.find (h : t.Interned) {str : List UInt8}
    (hfind : (t.hash (lmod (LuaString.hash str) t.size)).find? (·.str = str) = none) (x : TString) (hx : t.Has x) :
    x.str ≠ str := by
  obtain ⟨i, hi, hmem⟩ := hx
  obtain ⟨hhash, rfl⟩ := h.placed i hi x hmem
  rintro rfl
  rw [hhash] at hmem
  simpa using List.find?_eq_none.mp hfind x hmem

/-- What `luaS_newlstr` does to an interned table. -/
theorem Interned.luaS_newlstr (h : t.Interned) {address : ℕ} (hfresh : t.Fresh address) (str : List UInt8) :
    (t.luaS_newlstr address str).1.Interned ∧
      (∃ x, (t.luaS_newlstr address str).1.Has x ∧ x.address = (t.luaS_newlstr address str).2 ∧ x.str = str ∧
        x.dead = false) ∧
      ∀ x, t.Has x → ∃ y, (t.luaS_newlstr address str).1.Has y ∧ y.address = x.address ∧ y.str = x.str := by
  unfold StringTable.luaS_newlstr
  dsimp only
  cases hfind : (t.hash (lmod (LuaString.hash str) t.size)).find? (·.str = str) with
  | none =>
    have hnew := h.find hfind
    refine ⟨h.newlstr hfresh hnew, ⟨_, (has_newlstr h.pos).mpr (.inr rfl), rfl, rfl, rfl⟩, fun x hx => ?_⟩
    exact ⟨x, (has_newlstr h.pos).mpr (.inl hx), rfl, rfl⟩
  | some ts =>
    have hstr : ts.str = str := by simpa using List.find?_some hfind
    have hmem := List.mem_of_find?_eq_some hfind
    refine ⟨h.subtable rfl fun i x hx => ?_, ⟨revive ts.address ts, ?_, ?_⟩, ?_⟩
    · obtain ⟨y, hy, rfl⟩ := mem_update_map.mp hx
      refine ⟨y, hy, ?_⟩
      split
      · obtain ⟨haddress, hstr, hhash⟩ := revive_cases ts.address y
        exact ⟨haddress.symm, hstr.symm, hhash.symm⟩
      · exact ⟨rfl, rfl, rfl⟩
    · exact ⟨_, lmod_lt _ h.pos, mem_update_map.mpr ⟨ts, hmem, by rw [if_pos rfl]⟩⟩
    · simp [revive, hstr]
    · rintro x ⟨i, hi, hx⟩
      refine ⟨_, ⟨i, hi, mem_update_map.mpr ⟨x, hx, rfl⟩⟩, ?_⟩
      split
      · obtain ⟨haddress, hstr, -⟩ := revive_cases ts.address x
        exact ⟨haddress, hstr⟩
      · exact ⟨rfl, rfl⟩

theorem interned_new : new.Interned := by
  have hnone (ts : TString) : ¬new.Has ts := by
    intro h
    obtain ⟨i, hi, -⟩ := (has_resize (by decide)).mp h
    exact absurd hi (Nat.not_lt_zero i)
  exact ⟨by decide, fun i hi ts hmem => absurd ⟨i, hi, hmem⟩ (hnone ts), fun ts _ h => absurd h (hnone ts)⟩

theorem Interned.apply (h : t.Interned) {o : Operation} (ho : t.Admissible o) : (t.apply o).Interned := by
  cases o with
  | newlstr address str => exact (h.luaS_newlstr ho str).1
  | colour dead =>
    refine h.subtable rfl fun i x hx => ?_
    obtain ⟨y, hy, rfl⟩ := List.mem_map.mp hx
    exact ⟨y, hy, rfl, rfl, rfl⟩
  | phase sweepstring => exact h.subtable rfl fun i x hx => ⟨x, hx, rfl, rfl, rfl⟩
  | sweep i =>
    refine h.subtable rfl fun j x hx => ⟨x, ?_, rfl, rfl, rfl⟩
    by_cases hj : j = i
    · subst hj
      have hx : x ∈ Function.update t.hash j ((t.hash j).filter fun ts => !ts.dead) j := hx
      rw [Function.update_self] at hx
      exact List.mem_of_mem_filter hx
    · have hx : x ∈ Function.update t.hash i ((t.hash i).filter fun ts => !ts.dead) j := hx
      rwa [Function.update_of_ne hj] at hx
  | checkSizes =>
    change (StringTable.checkSizes t).Interned
    unfold StringTable.checkSizes MINSTRTABSIZE
    split
    · exact h.resize (by omega)
    · exact h

theorem Reachable.interned (h : Reachable t) : t.Interned := by
  induction h with
  | new => exact interned_new
  | step _ ho ih => exact ih.apply ho

/-- In every table, strings are one object exactly if they have the same bytes. `luaS_newlstr` gives the one that has
them, alive, and takes none away. -/
theorem strings_interned (h : Reachable t) :
    (∀ ts ts', t.Has ts → t.Has ts' → (ts.address = ts'.address ↔ ts.str = ts'.str)) ∧
      ∀ address str, t.Fresh address →
        (∃ x, (t.luaS_newlstr address str).1.Has x ∧ x.address = (t.luaS_newlstr address str).2 ∧ x.str = str ∧
          x.dead = false) ∧
        (∀ x, t.Has x → x.str = str → x.address = (t.luaS_newlstr address str).2) ∧
        ∀ x, t.Has x → ∃ y, (t.luaS_newlstr address str).1.Has y ∧ y.address = x.address ∧ y.str = x.str := by
  refine ⟨h.interned.same, fun address str hfresh => ?_⟩
  obtain ⟨hafter, ⟨x, hx, haddress, hstr, hdead⟩, hkept⟩ := h.interned.luaS_newlstr hfresh str
  refine ⟨⟨x, hx, haddress, hstr, hdead⟩, fun old hold hsame => ?_, hkept⟩
  obtain ⟨y, hy, hyaddress, hystr⟩ := hkept old hold
  rw [← hyaddress, ← haddress]
  exact (hafter.same y x hy hx).mpr (by rw [hystr, hsame, hstr])

theorem fresh_iff {address : ℕ} : t.Fresh address ↔ ∀ i < t.size, ∀ ts ∈ t.hash i, ts.address ≠ address :=
  ⟨fun h i hi ts hts => h ts ⟨i, hi, hts⟩, fun h ts ⟨i, hi, hts⟩ => h i hi ts hts⟩

/-- Two strings, of which the first has died. -/
def twoStrings : StringTable :=
  ((new.apply (.newlstr 7 [120])).apply (.newlstr 8 [121])).apply (.colour fun address => address = 7)

theorem twoStrings_reachable : Reachable twoStrings := by
  have hfirst : new.Fresh 7 := fresh_iff.mpr (by decide)
  have hsecond : (new.apply (.newlstr 7 [120])).Fresh 8 := fresh_iff.mpr (by decide)
  exact .step (.step (.step .new hfirst) hsecond) (by trivial)

/-- The dead one is found again, and is alive. Another string is made at its own address. -/
theorem strings_interned_example :
    twoStrings.Has ⟨7, LuaString.hash [120], [120], true⟩ ∧
      (∃ x, (twoStrings.luaS_newlstr 9 [120]).1.Has x ∧ x.address = 7 ∧ x.str = [120] ∧ x.dead = false) ∧
      ∃ x, (twoStrings.luaS_newlstr 9 [122]).1.Has x ∧ x.address = 9 ∧ x.str = [122] ∧ x.dead = false := by
  have hfresh : twoStrings.Fresh 9 := fresh_iff.mpr (by decide)
  have hspec := (strings_interned twoStrings_reachable).2
  refine ⟨⟨lmod (LuaString.hash [120]) 32, by decide, by decide⟩, ?_, ?_⟩
  · exact (hspec 9 [120] hfresh).1
  · exact (hspec 9 [122] hfresh).1

end StringTable
end H1Z1Server.LuaString
