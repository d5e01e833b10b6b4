import Mathlib.Tactic

/-! Instructions of the virtual machine and the functions that they are in. -/
namespace H1Z1Server.LuaCode

/-! `lopcodes.h` -/

abbrev Instruction := UInt32

def SIZE_C : UInt32 := 9

def SIZE_B : UInt32 := 9

def SIZE_Bx : UInt32 := SIZE_C + SIZE_B

def SIZE_A : UInt32 := 8

def SIZE_OP : UInt32 := 6

def POS_OP : UInt32 := 0

def POS_A : UInt32 := POS_OP + SIZE_OP

def POS_C : UInt32 := POS_A + SIZE_A

def POS_B : UInt32 := POS_C + SIZE_C

def POS_Bx : UInt32 := POS_C

def MAXARG_Bx : ℕ := 2 ^ 18 - 1

def MAXARG_sBx : ℕ := MAXARG_Bx / 2

/-- `n` bits that are 1, at position 0. -/
def MASK1 (n : UInt32) : UInt32 := ~~~((~~~0) <<< n)

def field (i : Instruction) (pos size : UInt32) : ℕ := ((i >>> pos) &&& MASK1 size).toNat

def GETARG_A (i : Instruction) : ℕ := field i POS_A SIZE_A

def GETARG_B (i : Instruction) : ℕ := field i POS_B SIZE_B

def GETARG_C (i : Instruction) : ℕ := field i POS_C SIZE_C

def GETARG_Bx (i : Instruction) : ℕ := field i POS_Bx SIZE_Bx

def GETARG_sBx (i : Instruction) : ℤ := GETARG_Bx i - MAXARG_sBx

def BITRK : ℕ := 2 ^ 8

/-- The operand is a constant, not a register. -/
def ISK (x : ℕ) : Bool := x &&& BITRK ≠ 0

def INDEXK (r : ℕ) : ℕ := r - (r &&& BITRK)

/-- In the order of `OpCode`. -/
inductive OpCode where
  | OP_MOVE | OP_LOADK | OP_LOADBOOL | OP_LOADNIL | OP_GETUPVAL
  | OP_GETGLOBAL | OP_GETTABLE
  | OP_SETGLOBAL | OP_SETUPVAL | OP_SETTABLE
  | OP_NEWTABLE
  | OP_SELF
  | OP_ADD | OP_SUB | OP_MUL | OP_DIV | OP_MOD | OP_POW | OP_UNM | OP_NOT | OP_LEN
  | OP_CONCAT
  | OP_JMP
  | OP_EQ | OP_LT | OP_LE
  | OP_TEST | OP_TESTSET
  | OP_CALL | OP_TAILCALL | OP_RETURN
  | OP_FORLOOP | OP_FORPREP
  | OP_TFORLOOP | OP_SETLIST
  | OP_CLOSE | OP_CLOSURE
  | OP_VARARG
  deriving DecidableEq, Repr

open OpCode

def opcodes : List OpCode :=
  [OP_MOVE, OP_LOADK, OP_LOADBOOL, OP_LOADNIL, OP_GETUPVAL, OP_GETGLOBAL, OP_GETTABLE, OP_SETGLOBAL, OP_SETUPVAL,
    OP_SETTABLE, OP_NEWTABLE, OP_SELF, OP_ADD, OP_SUB, OP_MUL, OP_DIV, OP_MOD, OP_POW, OP_UNM, OP_NOT, OP_LEN,
    OP_CONCAT, OP_JMP, OP_EQ, OP_LT, OP_LE, OP_TEST, OP_TESTSET, OP_CALL, OP_TAILCALL, OP_RETURN, OP_FORLOOP,
    OP_FORPREP, OP_TFORLOOP, OP_SETLIST, OP_CLOSE, OP_CLOSURE, OP_VARARG]

/-- Six bits, of which not all values are an operation. -/
def GET_OPCODE (i : Instruction) : Option OpCode := opcodes[field i POS_OP SIZE_OP]?

def CREATE_ABC (o : OpCode) (a b c : UInt32) : Instruction :=
  (UInt32.ofNat (opcodes.idxOf o) <<< POS_OP) ||| (a <<< POS_A) ||| (b <<< POS_B) ||| (c <<< POS_C)

inductive OpMode where
  | iABC
  | iABx
  | iAsBx
  deriving DecidableEq

inductive OpArgMask where
  | OpArgN
  | OpArgU
  | OpArgR
  | OpArgK
  deriving DecidableEq

structure Modes where
  t : Bool
  a : Bool
  b : OpArgMask
  c : OpArgMask
  m : OpMode

def opmode (t a : ℕ) (b c : OpArgMask) (m : OpMode) : Modes := ⟨t = 1, a = 1, b, c, m⟩

open OpArgMask OpMode in
/-- `luaP_opmodes`. -/
def opmodes : OpCode → Modes
  | OP_MOVE => opmode 0 1 OpArgR OpArgN iABC
  | OP_LOADK => opmode 0 1 OpArgK OpArgN iABx
  | OP_LOADBOOL => opmode 0 1 OpArgU OpArgU iABC
  | OP_LOADNIL => opmode 0 1 OpArgR OpArgN iABC
  | OP_GETUPVAL => opmode 0 1 OpArgU OpArgN iABC
  | OP_GETGLOBAL => opmode 0 1 OpArgK OpArgN iABx
  | OP_GETTABLE => opmode 0 1 OpArgR OpArgK iABC
  | OP_SETGLOBAL => opmode 0 0 OpArgK OpArgN iABx
  | OP_SETUPVAL => opmode 0 0 OpArgU OpArgN iABC
  | OP_SETTABLE => opmode 0 0 OpArgK OpArgK iABC
  | OP_NEWTABLE => opmode 0 1 OpArgU OpArgU iABC
  | OP_SELF => opmode 0 1 OpArgR OpArgK iABC
  | OP_ADD => opmode 0 1 OpArgK OpArgK iABC
  | OP_SUB => opmode 0 1 OpArgK OpArgK iABC
  | OP_MUL => opmode 0 1 OpArgK OpArgK iABC
  | OP_DIV => opmode 0 1 OpArgK OpArgK iABC
  | OP_MOD => opmode 0 1 OpArgK OpArgK iABC
  | OP_POW => opmode 0 1 OpArgK OpArgK iABC
  | OP_UNM => opmode 0 1 OpArgR OpArgN iABC
  | OP_NOT => opmode 0 1 OpArgR OpArgN iABC
  | OP_LEN => opmode 0 1 OpArgR OpArgN iABC
  | OP_CONCAT => opmode 0 1 OpArgR OpArgR iABC
  | OP_JMP => opmode 0 0 OpArgR OpArgN iAsBx
  | OP_EQ => opmode 1 0 OpArgK OpArgK iABC
  | OP_LT => opmode 1 0 OpArgK OpArgK iABC
  | OP_LE => opmode 1 0 OpArgK OpArgK iABC
  | OP_TEST => opmode 1 1 OpArgR OpArgU iABC
  | OP_TESTSET => opmode 1 1 OpArgR OpArgU iABC
  | OP_CALL => opmode 0 1 OpArgU OpArgU iABC
  | OP_TAILCALL => opmode 0 1 OpArgU OpArgU iABC
  | OP_RETURN => opmode 0 0 OpArgU OpArgN iABC
  | OP_FORLOOP => opmode 0 1 OpArgR OpArgN iAsBx
  | OP_FORPREP => opmode 0 1 OpArgR OpArgN iAsBx
  | OP_TFORLOOP => opmode 1 0 OpArgN OpArgU iABC
  | OP_SETLIST => opmode 0 0 OpArgU OpArgU iABC
  | OP_CLOSE => opmode 0 0 OpArgN OpArgN iABC
  | OP_CLOSURE => opmode 0 1 OpArgU OpArgN iABx
  | OP_VARARG => opmode 0 1 OpArgU OpArgN iABC

/-! Functions -/

/-- What strings have is here what they are. -/
abbrev TString := List UInt8

/-- A loaded string may be `NULL`. -/
inductive Constant (N : Type) where
  | nil
  | boolean (b : Bool)
  | number (n : N)
  | string (s : Option TString)
  deriving DecidableEq

structure LocVar where
  varname : Option TString
  startpc : Int32
  endpc : Int32
  deriving DecidableEq

/-- A function prototype. The sizes of its vectors are those of the lists. -/
structure Proto (N : Type) where
  source : Option TString
  linedefined : Int32
  lastlinedefined : Int32
  nups : UInt8
  numparams : UInt8
  is_vararg : UInt8
  maxstacksize : UInt8
  code : List Instruction
  k : List (Constant N)
  p : List (Proto N)
  lineinfo : List Int32
  locvars : List LocVar
  upvalues : List (Option TString)

def VARARG_HASARG : UInt8 := 1

def VARARG_ISVARARG : UInt8 := 2

def VARARG_NEEDSARG : UInt8 := 4

variable {N : Type}

namespace Proto

def sizecode (pt : Proto N) : ℕ := pt.code.length

def instruction (pt : Proto N) (pc : ℕ) : Instruction := pt.code.getD pc 0

def opcode (pt : Proto N) (pc : ℕ) : Option OpCode := GET_OPCODE (pt.instruction pc)

end Proto

end H1Z1Server.LuaCode
