import Mathlib.Tactic

/-! The pattern matcher of `lstrlib.c`. Pointers are positions in the source and in the pattern. -/
namespace H1Z1Server.LuaPattern

def LUA_MAXCAPTURES : ℕ := 32

def CAP_UNFINISHED : ℤ := -1

def CAP_POSITION : ℤ := -2

structure Capture where
  init : ℕ
  len : ℤ
  deriving DecidableEq

/-- The captures that are in use: `level` is how many there are. -/
structure MatchState where
  capture : List Capture

namespace MatchState

def level (ms : MatchState) : ℕ := ms.capture.length

end MatchState

inductive MatchError where
  | luaL_error (msg : String)
  | outOfFuel
  deriving DecidableEq

abbrev MatchM := StateT MatchState (Except MatchError)

def luaL_error {m : Type → Type} [MonadExceptOf MatchError m] {α : Type} (msg : String) : m α :=
  throw (MatchError.luaL_error msg)

/-- Behind the last byte of a string, there is a zero. -/
def byte (l : List UInt8) (i : ℕ) : UInt8 := l.getD i 0

def char (c : Char) : UInt8 := UInt8.ofNat c.toNat

def L_ESC : UInt8 := char '%'

/-! `ctype.h`, in the C locale -/

def isupper (c : UInt8) : Bool := char 'A' ≤ c && c ≤ char 'Z'

def islower (c : UInt8) : Bool := char 'a' ≤ c && c ≤ char 'z'

def isdigit (c : UInt8) : Bool := char '0' ≤ c && c ≤ char '9'

def isalpha (c : UInt8) : Bool := isupper c || islower c

def isalnum (c : UInt8) : Bool := isalpha c || isdigit c

def iscntrl (c : UInt8) : Bool := c < 32 || c == 127

def isspace (c : UInt8) : Bool := c == char ' ' || 9 ≤ c && c ≤ 13

def ispunct (c : UInt8) : Bool := 33 ≤ c && c ≤ 126 && !isalnum c

def isxdigit (c : UInt8) : Bool := isdigit c || char 'A' ≤ c && c ≤ char 'F' || char 'a' ≤ c && c ≤ char 'f'

def tolower (c : UInt8) : UInt8 := if isupper c then c + 32 else c

def match_class (c cl : UInt8) : Bool :=
  let res (b : Bool) := if islower cl then b else !b
  let class' := tolower cl
  if class' = char 'a' then res (isalpha c)
  else if class' = char 'c' then res (iscntrl c)
  else if class' = char 'd' then res (isdigit c)
  else if class' = char 'l' then res (islower c)
  else if class' = char 'p' then res (ispunct c)
  else if class' = char 's' then res (isspace c)
  else if class' = char 'u' then res (isupper c)
  else if class' = char 'w' then res (isalnum c)
  else if class' = char 'x' then res (isxdigit c)
  else if class' = char 'z' then res (c == 0)
  else cl == c

section Pattern
variable (pat : List UInt8)

/-- The loop that looks for a `]`. A round goes forward, and there is a zero behind the pattern. -/
def classendLoop : ℕ → ℕ → Except MatchError ℕ
  | 0, _ => luaL_error "malformed pattern (missing ']')"
  | fuel + 1, p =>
    if byte pat p = 0 then luaL_error "malformed pattern (missing ']')"
    else
      let q := if byte pat p = L_ESC ∧ byte pat (p + 1) ≠ 0 then p + 2 else p + 1
      if byte pat q ≠ char ']' then classendLoop fuel q else return q + 1

def classend (p : ℕ) : Except MatchError ℕ :=
  if byte pat p = L_ESC then
    if byte pat (p + 1) = 0 then luaL_error "malformed pattern (ends with '%')" else return p + 2
  else if byte pat p = char '[' then
    classendLoop pat pat.length (if byte pat (p + 1) = char '^' then p + 2 else p + 1)
  else return p + 1

/-- Whether one of the classes from here is that of the byte. -/
def matchbracketLoop (c : UInt8) (ec : ℕ) : ℕ → ℕ → Bool
  | 0, _ => false
  | fuel + 1, p =>
    if p < ec then
      if byte pat p = L_ESC then match_class c (byte pat (p + 1)) || matchbracketLoop c ec fuel (p + 2)
      else if byte pat (p + 1) = char '-' ∧ p + 2 < ec then
        byte pat p ≤ c && c ≤ byte pat (p + 2) || matchbracketLoop c ec fuel (p + 3)
      else byte pat p == c || matchbracketLoop c ec fuel (p + 1)
    else false

def matchbracketclass (c : UInt8) (p ec : ℕ) : Bool :=
  if byte pat (p + 1) = char '^' then !matchbracketLoop pat c ec ec (p + 2) else matchbracketLoop pat c ec ec (p + 1)

def singlematch (c : UInt8) (p ep : ℕ) : Bool :=
  if byte pat p = char '.' then true
  else if byte pat p = L_ESC then match_class c (byte pat (p + 1))
  else if byte pat p = char '[' then matchbracketclass pat c p (ep - 1)
  else byte pat p == c

end Pattern

section Matching
variable (src pat : List UInt8)

def check_capture (l : UInt8) : MatchM ℕ := do
  let ms ← get
  let l : ℤ := l.toNat - (char '1').toNat
  if l < 0 ∨ ms.level ≤ l ∨ (ms.capture[l.toNat]?).map Capture.len = some CAP_UNFINISHED then
    luaL_error "invalid capture index"
  else return l.toNat

/-- The last of the captures that is not finished. -/
def lastUnfinished (capture : List Capture) : ℕ → Option ℕ
  | 0 => none
  | level + 1 =>
    if (capture[level]?).map Capture.len = some CAP_UNFINISHED then some level else lastUnfinished capture level

def capture_to_close : MatchM ℕ := do
  let ms ← get
  match lastUnfinished ms.capture ms.level with
  | some l => return l
  | none => luaL_error "invalid pattern capture"

/-- From behind the first byte, with `cont` that are open. -/
def balanceLoop (b e : UInt8) : ℕ → ℕ → ℕ → Option ℕ
  | 0, _, _ => none
  | fuel + 1, s, cont =>
    if s < src.length then
      if byte src s = e then if cont - 1 = 0 then some (s + 1) else balanceLoop b e fuel (s + 1) (cont - 1)
      else if byte src s = b then balanceLoop b e fuel (s + 1) (cont + 1)
      else balanceLoop b e fuel (s + 1) cont
    else none

def matchbalance (s p : ℕ) : MatchM (Option ℕ) :=
  if byte pat p = 0 ∨ byte pat (p + 1) = 0 then luaL_error "unbalanced pattern"
  else if byte src s ≠ byte pat p then return none
  else return balanceLoop src (byte pat p) (byte pat (p + 1)) src.length (s + 1) 1

/-- How often the item at `p` matches in a row. -/
def expandCount (p ep : ℕ) : ℕ → ℕ → ℕ
  | 0, _ => 0
  | fuel + 1, s =>
    if s < src.length ∧ singlematch pat (byte src s) p ep = true then expandCount p ep fuel (s + 1) + 1 else 0

/-- The rest of the pattern is tried with fewer and fewer repetitions. -/
def expandDown (rest : ℕ → MatchM (Option ℕ)) (s : ℕ) : ℕ → MatchM (Option ℕ)
  | 0 => rest s
  | i + 1 => do
    let res ← rest (s + (i + 1))
    if res.isSome then return res else expandDown rest s i

def max_expand (rest : ℕ → MatchM (Option ℕ)) (s p ep : ℕ) : MatchM (Option ℕ) :=
  expandDown rest s (expandCount src pat p ep src.length s)

/-- The source ends after so many rounds. -/
def min_expand (rest : ℕ → MatchM (Option ℕ)) (p ep : ℕ) : ℕ → ℕ → MatchM (Option ℕ)
  | 0, s => rest s
  | fuel + 1, s => do
    let res ← rest s
    if res.isSome then return res
    else if s < src.length ∧ singlematch pat (byte src s) p ep = true then min_expand rest p ep fuel (s + 1)
    else return none

def start_capture (rest : ℕ → MatchM (Option ℕ)) (s : ℕ) (what : ℤ) : MatchM (Option ℕ) := do
  let ms ← get
  if LUA_MAXCAPTURES ≤ ms.level then luaL_error "too many captures"
  else do
    modify fun ms => { ms with capture := ms.capture ++ [⟨s, what⟩] }
    let res ← rest s
    if res.isNone then modify fun ms => { ms with capture := ms.capture.dropLast }
    return res

def setLen (l : ℕ) (len : ℕ → ℤ) (ms : MatchState) : MatchState :=
  { ms with capture := ms.capture.modify l fun c => { c with len := len c.init } }

def end_capture (rest : ℕ → MatchM (Option ℕ)) (s : ℕ) : MatchM (Option ℕ) := do
  let l ← capture_to_close
  modify (setLen l fun init => s - init)
  let res ← rest s
  if res.isNone then modify (setLen l fun _ => CAP_UNFINISHED)
  return res

/-- The length is compared as a `size_t`. -/
def match_capture (s : ℕ) (l : UInt8) : MatchM (Option ℕ) := do
  let l ← check_capture l
  let ms ← get
  let c := ms.capture.getD l ⟨0, 0⟩
  let len := (c.len % 2 ^ 64).toNat
  if len ≤ src.length - s ∧ (src.drop c.init).take len = (src.drop s).take len then return some (s + len)
  else return none

def previous (s : ℕ) : UInt8 := if s = 0 then 0 else byte src (s - 1)

def frontier (s p ep : ℕ) : Bool :=
  !matchbracketclass pat (previous src s) p (ep - 1) && matchbracketclass pat (byte src s) p (ep - 1)

/-- An item, and how often it may be there. -/
def matchItem (rest : ℕ → ℕ → MatchM (Option ℕ)) (s p : ℕ) : MatchM (Option ℕ) := do
  let ep ← classend pat p
  let m : Bool := s < src.length && singlematch pat (byte src s) p ep
  if byte pat ep = char '?' then
    if m then do
      let res ← rest (s + 1) (ep + 1)
      if res.isSome then return res else rest s (ep + 1)
    else rest s (ep + 1)
  else if byte pat ep = char '*' then max_expand src pat (fun s => rest s (ep + 1)) s p ep
  else if byte pat ep = char '+' then
    if m then max_expand src pat (fun s => rest s (ep + 1)) (s + 1) p ep else return none
  else if byte pat ep = char '-' then min_expand src pat (fun s => rest s (ep + 1)) p ep src.length s
  else if m then rest (s + 1) ep else return none

/-- The function `match`. It calls itself, or goes to its beginning, with less of the pattern. -/
def doMatch : ℕ → ℕ → ℕ → MatchM (Option ℕ)
  | 0, _, _ => throw .outOfFuel
  | fuel + 1, s, p =>
    if byte pat p = char '(' then
      if byte pat (p + 1) = char ')' then start_capture (doMatch fuel · (p + 2)) s CAP_POSITION
      else start_capture (doMatch fuel · (p + 1)) s CAP_UNFINISHED
    else if byte pat p = char ')' then end_capture (doMatch fuel · (p + 1)) s
    else if byte pat p = L_ESC ∧ byte pat (p + 1) = char 'b' then do
      match ← matchbalance src pat s (p + 2) with
      | none => return none
      | some s => doMatch fuel s (p + 4)
    else if byte pat p = L_ESC ∧ byte pat (p + 1) = char 'f' then
      if byte pat (p + 2) ≠ char '[' then luaL_error "missing '[' after '%f' in pattern"
      else do
        let ep ← classend pat (p + 2)
        if frontier src pat s (p + 2) ep then doMatch fuel s ep else return none
    else if byte pat p = L_ESC ∧ isdigit (byte pat (p + 1)) = true then do
      match ← match_capture src s (byte pat (p + 1)) with
      | none => return none
      | some s => doMatch fuel s (p + 2)
    else if byte pat p = 0 then return some s
    else if byte pat p = char '$' ∧ byte pat (p + 1) = 0 then return if s = src.length then some s else none
    else matchItem src pat (doMatch fuel) s p

/-- What a function gives to Lua. -/
inductive Pushed where
  | nil
  | integer (n : ℤ)
  | string (s : List UInt8)
  deriving DecidableEq

def substring (s e : ℕ) : List UInt8 := (src.drop s).take (e - s)

def push_onecapture (ms : MatchState) (i s e : ℕ) : Except MatchError Pushed :=
  match ms.capture[i]? with
  | none => if i = 0 then return .string (substring src s e) else luaL_error "invalid capture index"
  | some c =>
    if c.len = CAP_UNFINISHED then luaL_error "unfinished capture"
    else if c.len = CAP_POSITION then return .integer (c.init + 1)
    else return .string (substring src c.init (c.init + c.len.toNat))

/-- Without captures, the whole match is pushed where there is a place for it. -/
def push_captures (ms : MatchState) (whole : Option (ℕ × ℕ)) : Except MatchError (List Pushed) :=
  let nlevels := if ms.level = 0 ∧ whole.isSome then 1 else ms.level
  let (s, e) := whole.getD (0, 0)
  (List.range nlevels).mapM fun i => push_onecapture src ms i s e

/-! `string.find` and `string.match` -/

def SPECIALS : List UInt8 := "^$*+?.([%-".toList.map char

/-- `strpbrk(p, SPECIALS)` finds something. Strings end at a zero here. -/
def hasSpecials : Bool := (pat.takeWhile (· ≠ 0)).any (SPECIALS.contains ·)

/-- The first byte `c` of the `n` bytes at `i`. -/
def memchr (i n : ℕ) (c : UInt8) : Option ℕ := (((src.drop i).take n).findIdx? (· == c)).map (i + ·)

def lmemfindLoop : ℕ → ℕ → ℕ → Option ℕ
  | 0, _, _ => none
  | fuel + 1, s1, l1 =>
    if 0 < l1 then
      match memchr src s1 l1 (byte pat 0) with
      | none => none
      | some init =>
        if substring src (init + 1) (init + pat.length) = pat.drop 1 then some init
        else lmemfindLoop fuel (init + 1) (l1 - (init + 1 - s1))
    else none

/-- Where the pattern itself is, in the source from `s1` on. A round goes forward. -/
def lmemfind (s1 : ℕ) : Option ℕ :=
  let l1 := src.length - s1
  if pat.length = 0 then some s1
  else if l1 < pat.length then none
  else lmemfindLoop src pat l1 s1 (l1 - (pat.length - 1))

def posrelat (pos : ℤ) (len : ℕ) : ℤ :=
  let pos := if pos < 0 then pos + (len + 1) else pos
  if 0 ≤ pos then pos else 0

/-- A call of `match` for a new state. -/
def matchAt (s p : ℕ) : Except MatchError (Option ℕ × MatchState) := (doMatch src pat (pat.length + 1) s p).run ⟨[]⟩

/-- From place to place. The source ends after so many of them. -/
def findLoop (p : ℕ) (anchor : Bool) : ℕ → ℕ → Except MatchError (Option (ℕ × ℕ × MatchState))
  | 0, _ => return none
  | fuel + 1, s1 => do
    let (res, ms) ← matchAt src pat s1 p
    match res with
    | some e => return some (s1, e, ms)
    | none => if s1 < src.length ∧ anchor = false then findLoop p anchor fuel (s1 + 1) else return none

def str_find_aux (init : ℤ) (plain find : Bool) : Except MatchError (List Pushed) := do
  let init := min (posrelat init src.length - 1).toNat src.length
  if find = true ∧ (plain = true ∨ hasSpecials pat = false) then
    match lmemfind src pat init with
    | some s2 => return [.integer (s2 + 1), .integer (s2 + pat.length)]
    | none => return [.nil]
  else
    let anchor : Bool := byte pat 0 = char '^'
    match ← findLoop src pat (if anchor then 1 else 0) anchor (src.length - init + 1) init with
    | some (s1, e, ms) =>
      if find then do return [.integer (s1 + 1), .integer e] ++ (← push_captures src ms none)
      else push_captures src ms (some (s1, e))
    | none => return [.nil]

def str_find (init : ℤ) (plain : Bool) : Except MatchError (List Pushed) := str_find_aux src pat init plain true

def str_match (init : ℤ) : Except MatchError (List Pushed) := str_find_aux src pat init false false

/-! `string.gmatch` -/

/-- From place to place, up to the end of the source. -/
def gmatchLoop : ℕ → ℕ → Except MatchError (Option (ℕ × ℕ × MatchState))
  | 0, _ => return none
  | fuel + 1, s1 =>
    if s1 ≤ src.length then do
      let (res, ms) ← matchAt src pat s1 0
      match res with
      | some e => return some (s1, e, ms)
      | none => gmatchLoop fuel (s1 + 1)
    else return none

/-- A call of the iterator: what it gives, and where the next one goes on. -/
def gmatch_aux (lastpos : ℕ) : Except MatchError (List Pushed × ℕ) := do
  match ← gmatchLoop src pat (src.length + 1 - lastpos) lastpos with
  | some (s, e, ms) => return (← push_captures src ms (some (s, e)), if e = s then e + 1 else e)
  | none => return ([], lastpos)

/-- A loop over what `gmatch` gives, from a place on: the iterator is called until there is nothing. -/
def gmatchCalls : ℕ → ℕ → Except MatchError (List (List Pushed))
  | 0, _ => throw .outOfFuel
  | fuel + 1, lastpos => do
    let (values, lastpos) ← gmatch_aux src pat lastpos
    if values = [] then return [] else return values :: (← gmatchCalls fuel lastpos)

/-! `string.gsub` -/

/-- A replacement that is a string. Behind its last byte, there is a zero. -/
def add_s (ms : MatchState) (s e : ℕ) : List UInt8 → Except MatchError (List UInt8)
  | [] => return []
  | [c] => return [if c = L_ESC then 0 else c]
  | c :: d :: news =>
    if c ≠ L_ESC then do return c :: (← add_s ms s e (d :: news))
    else if isdigit d = false then do return d :: (← add_s ms s e news)
    else if d = char '0' then do return substring src s e ++ (← add_s ms s e news)
    else do
      let value ← push_onecapture src ms (d.toNat - (char '1').toNat) s e
      let rest ← add_s ms s e news
      match value with
      | .string t => return t ++ rest
      | .integer n => return (toString n).toList.map char ++ rest
      | .nil => return rest

/-- What is copied of the source, and where the search goes on, unless it is over. -/
def advance (s : ℕ) (e : Option ℕ) : Option (List UInt8 × ℕ) :=
  let next := if s < src.length then some ([byte src s], s + 1) else none
  match e with
  | some e => if s < e then some ([], e) else next
  | none => next

/-- The result and the number of matches; every round but the last goes forward. -/
def gsubLoop (add_value : MatchState → ℕ → ℕ → Except MatchError (List UInt8)) (p : ℕ) (anchor : Bool) (max_s : ℤ) :
    ℕ → ℕ → ℕ → Except MatchError (List UInt8 × ℕ)
  | 0, s, n => return (src.drop s, n)
  | fuel + 1, s, n =>
    if max_s ≤ n then return (src.drop s, n)
    else do
      let (e, ms) ← matchAt src pat s p
      let value ← match e with
        | some e => add_value ms s e
        | none => pure []
      let n := if e.isSome then n + 1 else n
      match advance src s e with
      | none => return (value ++ src.drop s, n)
      | some (copy, s) =>
        if anchor then return (value ++ copy ++ src.drop s, n)
        else do
          let (rest, n) ← gsubLoop add_value p anchor max_s fuel s n
          return (value ++ copy ++ rest, n)

def str_gsub (add_value : MatchState → ℕ → ℕ → Except MatchError (List UInt8)) (max_s : ℤ) :
    Except MatchError (List UInt8 × ℕ) :=
  let anchor : Bool := byte pat 0 = char '^'
  gsubLoop src pat add_value (if anchor then 1 else 0) anchor max_s (src.length + 1) 0 0

end Matching
end H1Z1Server.LuaPattern
