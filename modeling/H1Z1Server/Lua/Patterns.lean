import H1Z1Server.Lua.PatternMatching

/-! What a pattern means: a list of items, each with the ways it takes something of the source, the preferred ones
first. -/
namespace H1Z1Server.LuaPattern

inductive Item where
  | single (cls : UInt8 → Bool)
  | optional (cls : UInt8 → Bool)
  | greedy (cls : UInt8 → Bool)
  | greedyPlus (cls : UInt8 → Bool)
  | lazy (cls : UInt8 → Bool)
  | balance (b e : UInt8)
  | frontier (cls : UInt8 → Bool)
  | again (l : ℕ)
  | opening
  | position
  | closing
  | final

namespace Item

/-! The items of a pattern -/

/-- The item of a class, and where the next one is: the class ends at `ep`. -/
def ofClass (suffix : UInt8) (cls : UInt8 → Bool) (ep : ℕ) : Item × ℕ :=
  if suffix = char '?' then (optional cls, ep + 1)
  else if suffix = char '*' then (greedy cls, ep + 1)
  else if suffix = char '+' then (greedyPlus cls, ep + 1)
  else if suffix = char '-' then (lazy cls, ep + 1)
  else (single cls, ep)

/-- The items from a position on, unless there is something wrong with them. -/
def parse (pat : List UInt8) : ℕ → ℕ → Except MatchError (List Item)
  | 0, _ => throw .outOfFuel
  | fuel + 1, p =>
    let next (item : Item) (p : ℕ) : Except MatchError (List Item) := do return item :: (← parse pat fuel p)
    if byte pat p = char '(' then
      if byte pat (p + 1) = char ')' then next position (p + 2) else next opening (p + 1)
    else if byte pat p = char ')' then next closing (p + 1)
    else if byte pat p = L_ESC ∧ byte pat (p + 1) = char 'b' then
      if byte pat (p + 2) = 0 ∨ byte pat (p + 3) = 0 then luaL_error "unbalanced pattern"
      else next (balance (byte pat (p + 2)) (byte pat (p + 3))) (p + 4)
    else if byte pat p = L_ESC ∧ byte pat (p + 1) = char 'f' then
      if byte pat (p + 2) ≠ char '[' then luaL_error "missing '[' after '%f' in pattern"
      else do
        let ep ← classend pat (p + 2)
        next (frontier fun c => matchbracketclass pat c (p + 2) (ep - 1)) ep
    else if byte pat p = L_ESC ∧ isdigit (byte pat (p + 1)) = true then
      if byte pat (p + 1) = char '0' then luaL_error "invalid capture index"
      else next (again ((byte pat (p + 1)).toNat - (char '1').toNat)) (p + 2)
    else if byte pat p = 0 then return []
    else if byte pat p = char '$' ∧ byte pat (p + 1) = 0 then return [final]
    else do
      let ep ← classend pat p
      let i := ofClass (byte pat ep) (fun c => singlematch pat c p ep) ep
      next i.1 i.2

/-! Captures -/

/-- The last of the captures that is open. -/
def lastOpen (opens : List Bool) : ℕ → Option ℕ
  | 0 => none
  | level + 1 => if opens[level]? = some true then some level else lastOpen opens level

/-- Which captures are open behind an item, unless it is not at its place. -/
def after : Item → List Bool → Option (List Bool)
  | opening, opens => if opens.length < LUA_MAXCAPTURES then some (opens ++ [true]) else none
  | position, opens => if opens.length < LUA_MAXCAPTURES then some (opens ++ [false]) else none
  | closing, opens => (lastOpen opens opens.length).map fun l => opens.set l false
  | again l, opens => if opens[l]? = some false then some opens else none
  | _, opens => some opens

/-- The captures that are open behind all items. -/
def afterAll (items : List Item) (opens : List Bool) : Option (List Bool) :=
  items.foldlM (fun opens i => i.after opens) opens

/-! Ways -/

section Ways
variable (src : List UInt8)

/-- How many bytes of a class there are from here. -/
def run (cls : UInt8 → Bool) (s : ℕ) : ℕ := ((src.drop s).takeWhile cls).length

/-- How many more are open behind a text than in front of it. The byte that closes may be the one that opens. -/
def opened (b e : UInt8) (text : List UInt8) : ℤ := (if b = e then 0 else (text.count b : ℤ)) - text.count e

/-- How much a way takes of a source, and the captures it leaves. -/
def ways (s : ℕ) (ms : MatchState) : Item → List (ℕ × MatchState)
  | single cls => if s < src.length ∧ cls (byte src s) = true then [(s + 1, ms)] else []
  | optional cls => if s < src.length ∧ cls (byte src s) = true then [(s + 1, ms), (s, ms)] else [(s, ms)]
  | greedy cls => (List.range (run src cls s + 1)).reverse.map fun i => (s + i, ms)
  | greedyPlus cls => (List.range' 1 (run src cls s)).reverse.map fun i => (s + i, ms)
  | lazy cls => (List.range (run src cls s + 1)).map fun i => (s + i, ms)
  | balance b e =>
    if byte src s = b then
      -- up to the first byte that closes what the first one has opened
      let lengths := List.range' 1 (src.length - (s + 1))
      match lengths.find? fun i => 1 + opened b e ((src.drop (s + 1)).take i) = 0 with
      | some i => [(s + 1 + i, ms)]
      | none => []
    else []
  | frontier cls => if cls (previous src s) = false ∧ cls (byte src s) = true then [(s, ms)] else []
  | again l =>
    match ms.capture[l]? with
    | some c =>
      let len := c.len.toNat
      if 0 ≤ c.len ∧ len ≤ src.length - s ∧ (src.drop c.init).take len = (src.drop s).take len then [(s + len, ms)]
      else []
    | none => []
  | opening => [(s, ⟨ms.capture ++ [⟨s, CAP_UNFINISHED⟩]⟩)]
  | position => [(s, ⟨ms.capture ++ [⟨s, CAP_POSITION⟩]⟩)]
  | closing =>
    match lastUnfinished ms.capture ms.level with
    | some l => [(s, setLen l (fun init => s - init) ms)]
    | none => []
  | final => if s = src.length then [(s, ms)] else []

/-- The ways of all items, one behind the other. -/
def waysAll : List Item → ℕ → MatchState → List (ℕ × MatchState)
  | [], s, ms => [(s, ms)]
  | item :: items, s, ms => (item.ways src s ms).flatMap fun way => waysAll items way.1 way.2

end Ways
end Item
end H1Z1Server.LuaPattern
