import Mathlib.Tactic

/-! The table of strings (`lstring.c`). -/
namespace H1Z1Server.LuaString

/-- The loop of `luaS_newlstr` that computes the hash, from `l1` characters on. -/
def hashLoop (str : List UInt8) (step : ℕ) : ℕ → ℕ → UInt32 → UInt32
  | 0, _, h => h
  | fuel + 1, l1, h =>
    if step ≤ l1 then
      hashLoop str step fuel (l1 - step) (h ^^^ ((h <<< 5) + (h >>> 2) + (str.getD (l1 - 1) 0).toUInt32))
    else h

/-- The hash of a string. Not all characters of a long one count. -/
def hash (str : List UInt8) : UInt32 :=
  hashLoop str (str.length / 32 + 1) str.length str.length (UInt32.ofNat str.length)

end H1Z1Server.LuaString
