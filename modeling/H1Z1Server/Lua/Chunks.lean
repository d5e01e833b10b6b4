import H1Z1Server.Library.ByteOrder
import H1Z1Server.Library.Codec
import H1Z1Server.Lua.CodeChecker

/-! Precompiled chunks: `ldump.c` writes a function, `lundump.c` loads one from a stream of `lzio.c`. The build
has a `size_t` of eight bytes. -/
namespace H1Z1Server.LuaChunk
open ByteOrder Codec LuaCode

def bytes (s : String) : List UInt8 := s.toList.map fun c => UInt8.ofNat c.toNat

/-- The bytes of a number, which are only copied. -/
class NumberBytes (N : Type) where
  toBytes : N → List UInt8
  ofBytes : List UInt8 → N
  length_toBytes : ∀ n, (toBytes n).length = 8
  ofBytes_toBytes : ∀ n, ofBytes (toBytes n) = n

/-- The bits of a number. -/
instance : NumberBytes UInt64 where
  toBytes n := toLE 8 n.toNat
  ofBytes b := UInt64.ofNat (ofLE b)
  length_toBytes n := length_toLE 8 n.toNat
  ofBytes_toBytes n := by
    rw [ofLE_toLE_of_lt n.toNat_lt]
    simp

variable {N δ : Type}

def SIZE_T : ℕ := 8

def MAX_SIZET : ℕ := 256 ^ SIZE_T - 3

def LUAI_MAXCCALLS : ℕ := 200

def LUAC_HEADERSIZE : ℕ := 12

/-- `luaU_header`. -/
def luaU_header : List UInt8 := [0x1B, 0x4C, 0x75, 0x61, 0x51, 0, 1, 4, 8, 4, 8, 0]

/-! Streams -/

/-- What is unread of the last piece, and what the reader is going to give. An empty piece is the end. -/
structure Zio where
  p : List UInt8
  reader : List (List UInt8)

namespace Zio

/-- The buffer is filled where there is nothing left of it. -/
def luaZ_lookahead (z : Zio) : Option Zio :=
  match z.p, z.reader with
  | _ :: _, _ => some z
  | [], [] => none
  | [], [] :: _ => none
  | [], piece :: reader => some ⟨piece, reader⟩

/-- What has been read, and how many bytes are missing. Every round reads a byte at least. -/
def readLoop : ℕ → ℕ → Zio → List UInt8 × ℕ × Zio
  | 0, n, z => ([], n, z)
  | fuel + 1, n, z =>
    if n = 0 then ([], 0, z)
    else match z.luaZ_lookahead with
      | none => ([], n, z)
      | some z =>
        let m := min n z.p.length
        let (b, missing, z') := readLoop fuel (n - m) { z with p := z.p.drop m }
        (z.p.take m ++ b, missing, z')

def luaZ_read (n : ℕ) (z : Zio) : List UInt8 × ℕ × Zio := readLoop n n z

end Zio

/-! Loading -/

inductive LoadError where
  | LUA_ERRSYNTAX (msg : List UInt8)
  | luaM_toobig
  | signedOverflow
  deriving DecidableEq

abbrev LoadM := ReadM Zio LoadError

structure LoadState where
  name : List UInt8

namespace LoadState
variable (S : LoadState)

def error (why : String) : LoadError :=
  .LUA_ERRSYNTAX (S.name ++ bytes ": " ++ bytes why ++ bytes " in precompiled chunk")

def LoadBlock (size : ℕ) : LoadM (List UInt8) := fun z =>
  let (b, missing, z') := z.luaZ_read size
  if missing ≠ 0 then .error (S.error "unexpected end") else .ok (b, z')

def LoadChar : LoadM UInt8 := do
  let b ← S.LoadBlock 1
  return b.headD 0

def LoadInt : LoadM Int32 := do
  let b ← S.LoadBlock 4
  let x := Int32.ofNat (ofLE b)
  if x < 0 then throw (S.error "bad integer") else return x

def LoadNumber [NumberBytes N] : LoadM N := do
  let b ← S.LoadBlock 8
  return NumberBytes.ofBytes b

/-- The size of the buffer as it is asked for. -/
def luaZ_openspace (size : ℕ) : LoadM Unit :=
  if (size + 1) % 256 ^ SIZE_T ≤ MAX_SIZET then return () else throw .luaM_toobig

def sizeofTString : ℕ := 24

def luaS_newlstr (s : List UInt8) (l : ℕ) : LoadM TString :=
  if MAX_SIZET - sizeofTString < l + 1 then throw .luaM_toobig else return s.take l

def LoadString : LoadM (Option TString) := do
  let b ← S.LoadBlock SIZE_T
  let size := ofLE b
  if size = 0 then return none
  else do
    luaZ_openspace size
    let s ← S.LoadBlock size
    let s ← luaS_newlstr s (size - 1)
    return some s

/-- The element count and the element size of a new vector. -/
def luaM_newvector (n : Int32) (e : ℕ) : LoadM Unit :=
  if n = Int32.maxValue then throw .signedOverflow
  else if n.toInt.toNat + 1 ≤ MAX_SIZET / e then return () else throw .luaM_toobig

/-- A vector of numbers of four bytes. -/
def words : List UInt8 → List UInt32
  | a :: b :: c :: d :: rest => UInt32.ofNat (ofLE [a, b, c, d]) :: words rest
  | _ => []

/-- A counted vector of numbers of four bytes, which are read as one block. -/
def LoadVector : LoadM (List UInt32) := do
  let n ← S.LoadInt
  luaM_newvector n 4
  let b ← S.LoadBlock (n.toInt.toNat * 4)
  return words b

/-- A counted vector, the elements of which are read one after the other. -/
def LoadElements {α : Type} (e : ℕ) (load : LoadM α) : LoadM (List α) := do
  let n ← S.LoadInt
  luaM_newvector n e
  readMany load n.toInt.toNat

def LUA_TNIL : UInt8 := 0

def LUA_TBOOLEAN : UInt8 := 1

def LUA_TNUMBER : UInt8 := 3

def LUA_TSTRING : UInt8 := 4

def LoadConstant [NumberBytes N] : LoadM (Constant N) := do
  let t ← S.LoadChar
  if t = LUA_TNIL then return .nil
  else if t = LUA_TBOOLEAN then do
    let b ← S.LoadChar
    return .boolean (b ≠ 0)
  else if t = LUA_TNUMBER then do
    let n ← S.LoadNumber
    return .number n
  else if t = LUA_TSTRING then do
    let s ← S.LoadString
    return .string s
  else throw (S.error "bad constant")

def LoadLocVar : LoadM LocVar := do
  let varname ← S.LoadString
  let startpc ← S.LoadInt
  let endpc ← S.LoadInt
  return ⟨varname, startpc, endpc⟩

/-- With the number of calls in C that are left, and the source of the function around. -/
def LoadFunction [NumberBytes N] : ℕ → Option TString → LoadM (Proto N)
  | 0, _ => throw (S.error "code too deep")
  | depth + 1, p => do
    let s ← S.LoadString
    let source := s.or p
    let linedefined ← S.LoadInt
    let lastlinedefined ← S.LoadInt
    let nups ← S.LoadChar
    let numparams ← S.LoadChar
    let is_vararg ← S.LoadChar
    let maxstacksize ← S.LoadChar
    let code ← S.LoadVector
    let k ← S.LoadElements 16 S.LoadConstant
    let p ← S.LoadElements 8 (LoadFunction depth source)
    let lineinfo ← S.LoadVector
    let locvars ← S.LoadElements 16 S.LoadLocVar
    let upvalues ← S.LoadElements 8 S.LoadString
    let f := ⟨source, linedefined, lastlinedefined, nups, numparams, is_vararg, maxstacksize, code, k, p,
      lineinfo.map UInt32.toInt32, locvars, upvalues⟩
    if f.checkcode then return f else throw (S.error "bad code")

def LoadHeader : LoadM Unit := do
  let s ← S.LoadBlock LUAC_HEADERSIZE
  if s ≠ luaU_header then throw (S.error "bad header") else return ()

end LoadState

def chunkname : List UInt8 → List UInt8
  | 64 :: name => name
  | 61 :: name => name
  | 27 :: _ => bytes "binary string"
  | name => name

/-- With the number of calls in C at which it is called. -/
def luaU_undump [NumberBytes N] (nCcalls : ℕ) (name : List UInt8) : LoadM (Proto N) := do
  let S : LoadState := ⟨chunkname name⟩
  S.LoadHeader
  S.LoadFunction (LUAI_MAXCCALLS - nCcalls) (some (bytes "=?"))

/-! Dumping -/

structure DumpState (δ : Type) where
  data : δ
  status : ℤ

abbrev DumpM (δ : Type) := WriteM (DumpState δ)

section Dumping
variable (writer : List UInt8 → δ → ℤ × δ) (strip : Bool)

/-- Once the writer has failed, it is not called any more. -/
def DumpBlock (b : List UInt8) : DumpM δ Unit := modify fun D =>
  if D.status = 0 then
    let (status, data) := writer b D.data
    ⟨data, status⟩
  else D

def DumpChar (y : UInt8) : DumpM δ Unit := DumpBlock writer [y]

def DumpInt (x : Int32) : DumpM δ Unit := DumpBlock writer (toLE 4 x.toUInt32.toNat)

def DumpNumber [NumberBytes N] (x : N) : DumpM δ Unit := DumpBlock writer (NumberBytes.toBytes x)

def DumpVector (b : List UInt32) : DumpM δ Unit := do
  DumpInt writer (Int32.ofNat b.length)
  DumpBlock writer (b.flatMap fun x => toLE 4 x.toNat)

def DumpString (s : Option TString) : DumpM δ Unit :=
  match s with
  | none => DumpBlock writer (toLE SIZE_T 0)
  | some s => do
    DumpBlock writer (toLE SIZE_T (s.length + 1))
    DumpBlock writer (s ++ [0])

/-- A count, and the elements one after the other. -/
def DumpElements {α : Type} (dump : α → DumpM δ Unit) (l : List α) : DumpM δ Unit := do
  DumpInt writer (Int32.ofNat l.length)
  writeMany dump l

def DumpConstant [NumberBytes N] (o : Constant N) : DumpM δ Unit :=
  match o with
  | .nil => DumpChar writer LoadState.LUA_TNIL
  | .boolean b => do
    DumpChar writer LoadState.LUA_TBOOLEAN
    DumpChar writer (if b then 1 else 0)
  | .number n => do
    DumpChar writer LoadState.LUA_TNUMBER
    DumpNumber writer n
  | .string s => do
    DumpChar writer LoadState.LUA_TSTRING
    DumpString writer s

def DumpLocVar (v : LocVar) : DumpM δ Unit := do
  DumpString writer v.varname
  DumpInt writer v.startpc
  DumpInt writer v.endpc

def DumpDebug (f : Proto N) : DumpM δ Unit := do
  DumpVector writer (if strip then [] else f.lineinfo.map Int32.toUInt32)
  DumpElements writer (DumpLocVar writer) (if strip then [] else f.locvars)
  DumpElements writer (DumpString writer) (if strip then [] else f.upvalues)

mutual

def DumpFunction [NumberBytes N] (f : Proto N) (p : Option TString) : DumpM δ Unit :=
  match f with
  | ⟨source, linedefined, lastlinedefined, nups, numparams, is_vararg, maxstacksize, code, k, ps, _, _, _⟩ => do
    DumpString writer (if source = p ∨ strip = true then none else source)
    DumpInt writer linedefined
    DumpInt writer lastlinedefined
    DumpChar writer nups
    DumpChar writer numparams
    DumpChar writer is_vararg
    DumpChar writer maxstacksize
    DumpVector writer code
    DumpElements writer (DumpConstant writer) k
    DumpInt writer (Int32.ofNat ps.length)
    DumpFunctions ps source
    DumpDebug writer strip f

def DumpFunctions [NumberBytes N] (fs : List (Proto N)) (p : Option TString) : DumpM δ Unit :=
  match fs with
  | [] => pure ()
  | f :: fs => do
    DumpFunction f p
    DumpFunctions fs p

end

def DumpHeader : DumpM δ Unit := DumpBlock writer luaU_header

/-- The status and what the writer has made of its data. -/
def luaU_dump [NumberBytes N] (f : Proto N) (data : δ) : ℤ × δ :=
  let ((), D) := (do DumpHeader writer; DumpFunction writer strip f none : DumpM δ Unit).run ⟨data, 0⟩
  (D.status, D.data)

end Dumping
end H1Z1Server.LuaChunk
