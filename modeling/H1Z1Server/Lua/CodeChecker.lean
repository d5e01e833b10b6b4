import H1Z1Server.Lua.Opcodes

/-! The code checker of `ldebug.c`, which a precompiled function has to pass, and where the virtual machine
goes from an instruction. -/
namespace H1Z1Server.LuaCode
open OpCode OpArgMask OpMode

variable {N : Type}

def MAXSTACK : ℕ := 250

def NO_REG : ℕ := 2 ^ 8 - 1

def check (b : Prop) [Decidable b] : Option Unit := if b then some () else none

/-- A check that is made in one case only. -/
def checkIf (b : Prop) [Decidable b] (x : Option Unit) : Option Unit := if b then x else some ()

namespace Proto
variable (pt : Proto N)

def checkreg (reg : ℤ) : Option Unit := check (reg < pt.maxstacksize.toNat)

def precheck : Option Unit := do
  check (pt.maxstacksize.toNat ≤ MAXSTACK)
  check (pt.numparams.toNat + (pt.is_vararg &&& VARARG_HASARG).toNat ≤ pt.maxstacksize.toNat)
  check (pt.is_vararg &&& VARARG_NEEDSARG = 0 ∨ pt.is_vararg &&& VARARG_HASARG ≠ 0)
  check (pt.upvalues.length ≤ pt.nups.toNat)
  check (pt.lineinfo.length = pt.sizecode ∨ pt.lineinfo.length = 0)
  check (0 < pt.sizecode ∧ pt.opcode (pt.sizecode - 1) = some OP_RETURN)

def checkopenop (pc : ℕ) : Option Unit :=
  match pt.opcode (pc + 1) with
  | some OP_CALL | some OP_TAILCALL | some OP_RETURN | some OP_SETLIST => check (GETARG_B (pt.instruction (pc + 1)) = 0)
  | _ => none

def checkArgMode (r : ℕ) (mode : OpArgMask) : Option Unit :=
  match mode with
  | OpArgN => check (r = 0)
  | OpArgU => some ()
  | OpArgR => pt.checkreg r
  | OpArgK => check (if ISK r then INDEXK r < pt.k.length else r < pt.maxstacksize.toNat)

/-- A `SETLIST` whose count is the next instruction, or a count that looks like one. -/
def looksCounted (pc : ℕ) : Bool := pt.opcode pc = some OP_SETLIST && GETARG_C (pt.instruction pc) = 0

/-- How many of these there are in front of an instruction. -/
def countedBefore : ℕ → ℕ
  | 0 => 0
  | dest + 1 => if pt.looksCounted dest then countedBefore dest + 1 else 0

def checkdest (dest : ℤ) : Option Unit := do
  check (0 ≤ dest ∧ dest < pt.sizecode)
  check (pt.countedBefore dest.toNat % 2 = 0)

/-- The operands `b` and `c` of an instruction. -/
def checkArgs (pc : ℕ) (op : OpCode) : Option (ℤ × ℤ) := do
  let i := pt.instruction pc
  match (opmodes op).m with
  | iABC =>
    pt.checkArgMode (GETARG_B i) (opmodes op).b
    pt.checkArgMode (GETARG_C i) (opmodes op).c
    return (GETARG_B i, GETARG_C i)
  | iABx =>
    checkIf ((opmodes op).b = OpArgK) (check (GETARG_Bx i < pt.k.length))
    return (GETARG_Bx i, 0)
  | iAsBx =>
    checkIf ((opmodes op).b = OpArgR) (pt.checkdest (pc + 1 + GETARG_sBx i))
    return (GETARG_sBx i, 0)

/-- The constant is a string. -/
def kIsString (b : ℕ) : Bool :=
  match pt.k[b]? with
  | some (.string _) => true
  | _ => false

/-- What is checked of an instruction, whoever asks. -/
def checkOp (pc : ℕ) (op : OpCode) (a : ℕ) (b c : ℤ) : Option Unit :=
  match op with
  | OP_LOADBOOL => checkIf (c = 1) do
    check (pc + 2 < pt.sizecode)
    check (pt.opcode (pc + 1) ≠ some OP_SETLIST ∨ GETARG_C (pt.instruction (pc + 1)) ≠ 0)
  | OP_GETUPVAL | OP_SETUPVAL => check (b < pt.nups.toNat)
  | OP_GETGLOBAL | OP_SETGLOBAL => check (pt.kIsString b.toNat)
  | OP_SELF => pt.checkreg (a + 1)
  | OP_CONCAT => check (b < c)
  | OP_TFORLOOP => do
    check (1 ≤ c)
    pt.checkreg (a + 2 + c)
  | OP_FORLOOP | OP_FORPREP => pt.checkreg (a + 3)
  | OP_CALL | OP_TAILCALL => do
    checkIf (b ≠ 0) (pt.checkreg (a + b - 1))
    if c - 1 = -1 then pt.checkopenop pc else checkIf (c - 1 ≠ 0) (pt.checkreg (a + (c - 1) - 1))
  | OP_RETURN => checkIf (0 < b - 1) (pt.checkreg (a + (b - 1) - 1))
  | OP_SETLIST => do
    checkIf (0 < b) (pt.checkreg (a + b))
    checkIf (c = 0) (check (pc + 1 < pt.sizecode - 1))
  | OP_CLOSURE => do
    check (b < pt.p.length)
    let nup := ((pt.p[b.toNat]?).elim 0 Proto.nups).toNat
    check (pc + nup < pt.sizecode)
    check (∀ j ∈ List.range' 1 nup, pt.opcode (pc + j) = some OP_GETUPVAL ∨ pt.opcode (pc + j) = some OP_MOVE)
  | OP_VARARG => do
    check (pt.is_vararg &&& VARARG_ISVARARG ≠ 0 ∧ pt.is_vararg &&& VARARG_NEEDSARG = 0)
    checkIf (b - 1 = -1) (pt.checkopenop pc)
    pt.checkreg (a + (b - 1) - 1)
  | _ => some ()

/-- Whether an instruction changes the register `reg`. -/
def changes (op : OpCode) (a : ℕ) (b : ℤ) (reg : ℕ) : Bool :=
  (opmodes op).a && a = reg || match op with
    | OP_LOADNIL => a ≤ reg && reg ≤ b
    | OP_SELF => reg = a + 1
    | OP_TFORLOOP => a + 2 ≤ reg
    | OP_CALL | OP_TAILCALL => a ≤ reg
    | _ => false

/-- Where the check goes on; jumps are followed only when it is for a register. -/
def checkNext (lastpc reg pc : ℕ) (op : OpCode) (b c : ℤ) : ℕ :=
  match op with
  | OP_FORLOOP | OP_FORPREP | OP_JMP =>
    let dest : ℤ := pc + 1 + b
    if reg ≠ NO_REG ∧ (pc : ℤ) < dest ∧ dest ≤ lastpc then dest.toNat else pc + 1
  | OP_SETLIST => if c = 0 then pc + 2 else pc + 1
  | OP_CLOSURE => if reg ≠ NO_REG then pc + 1 + ((pt.p[b.toNat]?).elim 0 Proto.nups).toNat else pc + 1
  | _ => pc + 1

/-- The body of the loop of `symbexec`: the next `pc` and `last`. -/
def symbexecStep (lastpc reg pc last : ℕ) : Option (ℕ × ℕ) := do
  let op ← pt.opcode pc
  let a := GETARG_A (pt.instruction pc)
  pt.checkreg a
  let (b, c) ← pt.checkArgs pc op
  checkIf ((opmodes op).t = true) (check (pc + 2 < pt.sizecode ∧ pt.opcode (pc + 1) = some OP_JMP))
  pt.checkOp pc op a b c
  return (pt.checkNext lastpc reg pc op b c, if changes op a b reg then pc else last)

/-- Every round goes forward. -/
def symbexecLoop (lastpc reg : ℕ) : ℕ → ℕ → ℕ → Option ℕ
  | 0, _, last => some last
  | fuel + 1, pc, last =>
    if pc < lastpc then do
      let (pc, last) ← pt.symbexecStep lastpc reg pc last
      symbexecLoop lastpc reg fuel pc last
    else some last

/-- The last instruction that changed a register, or nothing for code that is not valid. -/
def symbexec (lastpc reg : ℕ) : Option Instruction := do
  pt.precheck
  let last ← pt.symbexecLoop lastpc reg lastpc 0 (pt.sizecode - 1)
  return pt.instruction last

/-- `luaG_checkcode`. The instruction 0 stands for failure. -/
def checkcode : Bool :=
  match pt.symbexec pt.sizecode NO_REG with
  | some i => i ≠ 0
  | none => false

/-! Execution -/

/-- Where `luaV_execute` may go from an instruction, in the same function. -/
def nexts (pc : ℕ) : List ℤ :=
  let i := pt.instruction pc
  match pt.opcode pc with
  | some OP_LOADBOOL => [if GETARG_C i ≠ 0 then pc + 2 else pc + 1]
  | some OP_JMP | some OP_FORPREP => [pc + 1 + GETARG_sBx i]
  | some OP_FORLOOP => [pc + 1, pc + 1 + GETARG_sBx i]
  | some OP_EQ | some OP_LT | some OP_LE | some OP_TEST | some OP_TESTSET | some OP_TFORLOOP =>
    [pc + 2, pc + 2 + GETARG_sBx (pt.instruction (pc + 1))]
  | some OP_RETURN => []
  | some OP_SETLIST => [if GETARG_C i = 0 then pc + 2 else pc + 1]
  | some OP_CLOSURE => [pc + 1 + ((pt.p[GETARG_Bx i]?).elim 0 Proto.nups).toNat]
  | _ => [pc + 1]

/-- The operand names a constant or a register of the function. -/
def RK (x : ℕ) : Prop := if ISK x then INDEXK x < pt.k.length else x < pt.maxstacksize.toNat

/-- What `luaV_execute` takes for granted of the operands: registers, constants, upvalues and functions exist. -/
def OperandsFit (pc : ℕ) : Prop :=
  let i := pt.instruction pc
  let a := GETARG_A i
  let b := GETARG_B i
  let c := GETARG_C i
  let bx := GETARG_Bx i
  let max := pt.maxstacksize.toNat
  a < max ∧ match pt.opcode pc with
    | some OP_MOVE | some OP_LOADNIL | some OP_UNM | some OP_NOT | some OP_LEN | some OP_TESTSET => b < max
    | some OP_LOADK => bx < pt.k.length
    | some OP_GETGLOBAL | some OP_SETGLOBAL => pt.kIsString bx = true
    | some OP_GETUPVAL | some OP_SETUPVAL => b < pt.nups.toNat
    | some OP_GETTABLE => b < max ∧ pt.RK c
    | some OP_SELF => a + 1 < max ∧ b < max ∧ pt.RK c
    | some OP_SETTABLE | some OP_ADD | some OP_SUB | some OP_MUL | some OP_DIV | some OP_MOD | some OP_POW
    | some OP_EQ | some OP_LT | some OP_LE => pt.RK b ∧ pt.RK c
    | some OP_CONCAT => b < c ∧ c < max
    | some OP_CALL => (b ≠ 0 → a + b ≤ max) ∧ (2 ≤ c → a + c - 2 < max)
    | some OP_TAILCALL => b ≠ 0 → a + b ≤ max
    | some OP_RETURN => 2 ≤ b → a + b - 2 < max
    | some OP_FORLOOP | some OP_FORPREP => a + 3 < max
    | some OP_TFORLOOP => 1 ≤ c ∧ a + 2 + c < max
    | some OP_SETLIST => a + b < max
    | some OP_CLOSURE => bx < pt.p.length
    | some OP_VARARG => 2 ≤ b → a + b - 2 < max
    | some OP_LOADBOOL | some OP_NEWTABLE | some OP_JMP | some OP_TEST | some OP_CLOSE => True
    | none => False

/-- The virtual machine may come to this instruction. -/
inductive Executes : ℤ → Prop where
  | start : Executes 0
  | next {pc : ℕ} {n : ℤ} (h : Executes pc) (hn : n ∈ pt.nexts pc) : Executes n

end Proto
end H1Z1Server.LuaCode
