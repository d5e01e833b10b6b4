import H1Z1Server.Library.Chains
import H1Z1Server.Lua.Api
import H1Z1Server.Lua.Interning

/-! Tables as `ltable.c` keeps them: an array for keys from 1 on, and a chained scatter table with Brent's
variation for all others. -/
namespace H1Z1Server.LuaTable
open LuaApi

/-- What the hashes of keys are made from: the ints in the memory of a number, added up, and the address
of an object. -/
class LuaMemory (N : Type) where
  ints : N → UInt32
  address : Value N → UInt32

instance : LuaMemory ℤ where
  ints n := UInt32.ofNat n.natAbs
  address
    | .lightuserdata p => UInt32.ofNat p
    | .table o => UInt32.ofNat o
    | .function o => UInt32.ofNat o
    | .userdata o => UInt32.ofNat o
    | .thread o => UInt32.ofNat o
    | _ => 0

/-- The key of a node. The collector kills keys without a value, which keep their address. -/
inductive NodeKey (N : Type) where
  | value (v : Value N)
  | deadkey (v : Value N)

structure Node (N : Type) where
  val : Value N
  key : NodeKey N
  next : Option ℕ

def emptyNode {N : Type} : Node N := ⟨.nil, .value .nil, none⟩

/-- `node` is the dummy node when `dummy` is set. The nodes from `lastfree` on are in use. -/
structure Table (N : Type) where
  array : List (Value N)
  node : List (Node N)
  lsizenode : ℕ
  dummy : Bool
  lastfree : ℕ

/-- A place of a value, as the functions return it. Null stands for `luaO_nilobject`. -/
inductive Slot where
  | array (i : ℕ)
  | node (i : ℕ)
  deriving DecidableEq

def MAXBITS : ℕ := 26

def MAXASIZE : ℕ := 2 ^ MAXBITS

/-- `luaO_rawequalObj` on the key of a node. A dead key equals nothing. -/
def NodeKey.rawequal {N : Type} [LuaNumber N] : NodeKey N → Value N → Bool
  | value v, key => v.rawequal key
  | deadkey _, _ => false

def NodeKey.isnil {N : Type} : NodeKey N → Bool
  | value .nil => true
  | _ => false

def ttisnil {N : Type} : Value N → Bool
  | .nil => true
  | _ => false

def iscollectable {N : Type} : Value N → Bool
  | .string _ | .table _ | .function _ | .userdata _ | .thread _ => true
  | _ => false

/-- The object of a dead key is this one. `findindex` compares the two pointers, whatever their types: here an
object is known by its value, so that none comes to stand where another was freed. -/
def NodeKey.isDead {N : Type} [LuaNumber N] : NodeKey N → Value N → Bool
  | deadkey v, key => iscollectable key && v.rawequal key
  | value _, _ => false

/-- The value of a key that has not been killed. -/
def NodeKey.key2tval {N : Type} : NodeKey N → Value N
  | value v => v
  | deadkey v => v

variable {N : Type}

namespace Table

def sizenode (t : Table N) : ℕ := 2 ^ t.lsizenode

def sizearray (t : Table N) : ℕ := t.array.length

def gnode (t : Table N) (i : ℕ) : Node N := t.node.getD i emptyNode

def gnext (t : Table N) : Chains.Links := fun i => (t.gnode i).next

def setNode (t : Table N) (i : ℕ) (n : Node N) : Table N := { t with node := t.node.set i n }

def setNext (t : Table N) (i : ℕ) (next : Option ℕ) : Table N := t.setNode i { t.gnode i with next }

def setKey (t : Table N) (i : ℕ) (key : Value N) : Table N := t.setNode i { t.gnode i with key := .value key }

def read (t : Table N) : Slot → Value N
  | .array i => t.array.getD i .nil
  | .node i => (t.gnode i).val

def write (t : Table N) (p : Slot) (v : Value N) : Table N :=
  match p with
  | .array i => { t with array := t.array.set i v }
  | .node i => t.setNode i { t.gnode i with val := v }

/-- What a null pointer or a pointer to a value stands for. -/
def value (t : Table N) (p : Option Slot) : Value N := p.elim .nil t.read

/-! Hashes -/

def hashpow2 (t : Table N) (n : ℕ) : ℕ := n &&& (t.sizenode - 1)

def hashmod (t : Table N) (n : ℕ) : ℕ := n % ((t.sizenode - 1) ||| 1)

variable [LuaNumber N] [LuaMemory N]

/-- Zero and minus zero are equal and have different ints. -/
def hashnum (t : Table N) (n : N) : ℕ :=
  if LuaNumber.eq n (LuaNumber.ofInt 0) then 0 else t.hashmod (LuaMemory.ints n).toNat

def mainposition (t : Table N) (key : Value N) : ℕ :=
  match key with
  | .number n => t.hashnum n
  | .string s => t.hashpow2 (LuaString.hash s).toNat
  | .boolean b => t.hashpow2 b.toNat
  | key => t.hashmod (LuaMemory.address key).toNat

end Table

def arrayindex [LuaNumber N] (key : Value N) : ℤ :=
  match key with
  | .number n =>
    let k := (LuaNumber.toInteger n).toInt
    if LuaNumber.eq (LuaNumber.ofInt k) n then k else -1
  | _ => -1

namespace Table
variable [LuaNumber N] [LuaMemory N]

/-! Searches -/

/-- The loops that follow a chain: no chain has more nodes than there are. -/
def search (t : Table N) (p : Node N → Bool) (i : ℕ) : Option ℕ :=
  Chains.find (fun i => p (t.gnode i)) t.gnext t.sizenode i

def luaH_getnum (t : Table N) (key : ℤ) : Option Slot :=
  if 1 ≤ key ∧ key ≤ t.sizearray then some (.array (key - 1).toNat)
  else
    let nk : N := LuaNumber.ofInt key
    (t.search (fun n => n.key.rawequal (.number nk)) (t.hashnum nk)).map .node

/-- Strings are equal when they are the same object. -/
def luaH_getstr (t : Table N) (key : List UInt8) : Option Slot :=
  (t.search (fun n => n.key.rawequal (.string key)) (t.hashpow2 (LuaString.hash key).toNat)).map .node

def luaH_get (t : Table N) (key : Value N) : Option Slot :=
  match key with
  | .nil => none
  | .string s => t.luaH_getstr s
  | .number n =>
    let k := (LuaNumber.toInteger n).toInt
    if LuaNumber.eq (LuaNumber.ofInt k) n then t.luaH_getnum k
    else (t.search (fun n => n.key.rawequal key) (t.mainposition key)).map .node
  | key => (t.search (fun n => n.key.rawequal key) (t.mainposition key)).map .node

/-! Traversal -/

/-- The index of a key that has been found before. -/
def findindex (t : Table N) (key : Value N) : Except Abort ℤ :=
  match key with
  | .nil => .ok (-1)
  | key =>
    let i := arrayindex key
    if 0 < i ∧ i ≤ t.sizearray then .ok (i - 1)
    else match t.search (fun n => n.key.rawequal key || n.key.isDead key) (t.mainposition key) with
      | some i => .ok (i + t.sizearray)
      | none => .error (.luaError "invalid key to 'next'")

/-- The loop over the nodes, from one on. -/
def nextNode (t : Table N) : ℕ → ℕ → Option (Value N × Value N)
  | 0, _ => none
  | count + 1, i =>
    if !ttisnil (t.gnode i).val then some ((t.gnode i).key.key2tval, (t.gnode i).val)
    else t.nextNode count (i + 1)

/-- The loop over the array, from one place on. -/
def nextArray (t : Table N) : ℕ → ℕ → Option (Value N × Value N)
  | 0, i => t.nextNode (t.sizenode - (i - t.sizearray)) (i - t.sizearray)
  | count + 1, i =>
    if !ttisnil (t.array.getD i .nil) then
      some (.number (LuaNumber.ofInt (i + 1)), t.array.getD i .nil)
    else t.nextArray count (i + 1)

def luaH_next (t : Table N) (key : Value N) : Except Abort (Option (Value N × Value N)) := do
  let i := ((← t.findindex key) + 1).toNat
  return t.nextArray (t.sizearray - i) i

end Table

/-! Rehash -/

/-- The table of `luaO_log2`: how many bits there are in a byte. -/
def log_2 : List ℕ :=
  0 :: (List.range 8).flatMap fun l => List.replicate (2 ^ l) (l + 1)

/-- The loop of `luaO_log2`. -/
def log2Loop : ℕ → ℕ → ℤ → ℤ
  | 0, x, l => l + log_2.getD x 0
  | fuel + 1, x, l => if 256 ≤ x then log2Loop fuel (x >>> 8) (l + 8) else l + log_2.getD x 0

/-- An unsigned int is shifted three times at most. -/
def luaO_log2 (x : ℕ) : ℤ := log2Loop 3 x (-1)

def ceillog2 (x : ℕ) : ℕ := (luaO_log2 (x - 1) + 1).toNat

/-- The loop of `computesizes`: `a` elements are up to half of `twotoi`, and so far `na` of `n` slots. -/
def computesizesLoop (nums : List ℕ) (narray : ℕ) : ℕ → ℕ → ℕ → ℕ → ℕ → ℕ → ℕ × ℕ
  | 0, _, _, _, na, n => (na, n)
  | fuel + 1, i, twotoi, a, na, n =>
    if twotoi / 2 < narray then
      let numi := nums.getD i 0
      let (a, na, n) :=
        if 0 < numi then
          if twotoi / 2 < a + numi then (a + numi, a + numi, twotoi) else (a + numi, na, n)
        else (a, na, n)
      if a = narray then (na, n) else computesizesLoop nums narray fuel (i + 1) (twotoi * 2) a na n
    else (na, n)

/-- The number of elements that go to the array part, and its size. -/
def computesizes (nums : List ℕ) (narray : ℕ) : ℕ × ℕ :=
  computesizesLoop nums narray (MAXBITS + 2) 0 1 0 0 0

/-- Whether a key counts as an array index, and the counts with it. -/
def countint [LuaNumber N] (key : Value N) (nums : List ℕ) : ℕ × List ℕ :=
  let k := arrayindex key
  if 0 < k ∧ k ≤ MAXASIZE then (1, nums.modify (ceillog2 k.toNat) (· + 1)) else (0, nums)

namespace Table

/-- How many of the places from `i` up to `lim` are in use; places count from 1. -/
def countSlice (t : Table N) (i lim : ℕ) : ℕ :=
  ((List.range' i (lim + 1 - i)).filter fun i => !ttisnil (t.array.getD (i - 1) .nil)).length

/-- The loop of `numusearray` over the slices, and the sum of what it counts. -/
def numusearrayLoop (t : Table N) : ℕ → ℕ → ℕ → ℕ → ℕ → List ℕ → ℕ × List ℕ
  | 0, _, _, _, ause, nums => (ause, nums)
  | fuel + 1, lg, ttlg, i, ause, nums =>
    let lim := min ttlg t.sizearray
    if t.sizearray < ttlg ∧ lim < i then (ause, nums)
    else
      let lc := t.countSlice i lim
      t.numusearrayLoop fuel (lg + 1) (ttlg * 2) (max i (lim + 1)) (ause + lc) (nums.modify lg (· + lc))

def numusearray (t : Table N) (nums : List ℕ) : ℕ × List ℕ :=
  t.numusearrayLoop (MAXBITS + 1) 0 1 1 0 nums

variable [LuaNumber N] [LuaMemory N]

/-- The body of the loop of `numusehash`: all elements, those that may go to the array, and the counts. -/
def countNode (n : Node N) (s : ℕ × ℕ × List ℕ) : ℕ × ℕ × List ℕ :=
  if !ttisnil n.val then
    let (one, nums) := countint n.key.key2tval s.2.2
    (s.1 + 1, s.2.1 + one, nums)
  else s

/-- The loop runs from the last node to the first. -/
def numusehash (t : Table N) (nums : List ℕ) : ℕ × ℕ × List ℕ := t.node.foldr countNode (0, 0, nums)

def setarrayvector (t : Table N) (size : ℕ) : Table N :=
  { t with array := t.array.take size ++ List.replicate (size - t.sizearray) .nil }

def setnodevector (t : Table N) (size : ℕ) : Except Abort (Table N) :=
  if size = 0 then .ok { t with node := [emptyNode], lsizenode := 0, dummy := true, lastfree := 0 }
  else
    let lsize := ceillog2 size
    if MAXBITS < lsize then .error (.luaError "table overflow")
    else .ok { t with
      node := List.replicate (2 ^ lsize) emptyNode
      lsizenode := lsize
      dummy := false
      lastfree := 2 ^ lsize }

/-- `luaH_set` with what `newkey` does. -/
def setWith (newkey : Table N → Value N → Except Abort (Table N × Slot)) (t : Table N) (key : Value N) :
    Except Abort (Table N × Slot) :=
  match t.luaH_get key with
  | some p => .ok (t, p)
  | none => match key with
    | .nil => .error (.luaError "table index is nil")
    | .number n =>
      if LuaNumber.eq n n then newkey t key else .error (.luaError "table index is NaN")
    | key => newkey t key

/-- `luaH_setnum` with what `newkey` does. -/
def setnumWith (newkey : Table N → Value N → Except Abort (Table N × Slot)) (t : Table N) (key : ℤ) :
    Except Abort (Table N × Slot) :=
  match t.luaH_getnum key with
  | some p => .ok (t, p)
  | none => newkey t (.number (LuaNumber.ofInt key))

/-- An element of the vanishing slice of the array goes to the nodes. The memory of the slice is gone when
another rehash has changed the size of the array. -/
def reinsertNum (newkey : Table N → Value N → Except Abort (Table N × Slot)) (nasize : ℕ) (t : Table N)
    (e : ℕ × Value N) : Except Abort (Table N) :=
  if !ttisnil e.2 then do
    let (t, p) ← t.setnumWith newkey (e.1 + 1)
    if t.sizearray = nasize then return t.write p e.2 else throw .undefinedBehaviour
  else return t

def reinsertNode (newkey : Table N → Value N → Except Abort (Table N × Slot)) (t : Table N)
    (old : Node N) : Except Abort (Table N) :=
  if !ttisnil old.val then do
    let (t, p) ← t.setWith newkey old.key.key2tval
    return t.write p old.val
  else return t

/-- The array grows first. The slice that vanishes is copied in its order, the nodes from the last. -/
def resizeWith (newkey : Table N → Value N → Except Abort (Table N × Slot)) (t : Table N)
    (nasize nhsize : ℕ) : Except Abort (Table N) := do
  let array := t.array
  let nold := t.node
  let t := if t.sizearray < nasize then t.setarrayvector nasize else t
  let t ← t.setnodevector nhsize
  let t := { t with array := t.array.take nasize }
  let t ← ((array.zipIdx.drop nasize).map Prod.swap).foldlM (reinsertNum newkey nasize) t
  nold.reverse.foldlM (reinsertNode newkey) t

/-- The size that `computesizes` gives the array, and how many nodes the rest of the elements needs. -/
def rehashSizes (t : Table N) (ek : Value N) : ℕ × ℕ :=
  let nums := List.replicate (MAXBITS + 1) 0
  let (ause, nums) := t.numusearray nums
  let (totaluse, hause, nums) := t.numusehash nums
  let (one, nums) := countint ek nums
  let (na, nasize) := computesizes nums (ause + hause + one)
  (nasize, ause + totaluse + 1 - na)

def rehashWith (newkey : Table N → Value N → Except Abort (Table N × Slot)) (t : Table N) (ek : Value N) :
    Except Abort (Table N) :=
  let (nasize, nhsize) := t.rehashSizes ek
  t.resizeWith newkey nasize nhsize

/-! New keys -/

/-- The loop of `getfreepos` from a `lastfree` on. -/
def freeposLoop (t : Table N) : ℕ → Option ℕ × ℕ
  | 0 => (none, 0)
  | i + 1 => if (t.gnode i).key.isnil then (some i, i) else t.freeposLoop i

def getfreepos (t : Table N) : Option ℕ × Table N :=
  let (n, lastfree) := t.freeposLoop t.lastfree
  (n, { t with lastfree })

/-- The key is written into a node whose value is nil. -/
def place (t : Table N) (mp : ℕ) (key : Value N) : Table N × Slot := (t.setKey mp key, .node mp)

/-- The colliding node moves into the free position `n`; `prev` is the node in front of it. -/
def moveColliding (t : Table N) (prev mp n : ℕ) : Table N :=
  let t := t.setNext prev (some n)
  let t := t.setNode n (t.gnode mp)
  t.setNode mp { t.gnode mp with next := none, val := .nil }

def chainNew (t : Table N) (mp n : ℕ) : Table N :=
  let t := t.setNext n (t.gnode mp).next
  t.setNext mp (some n)

/-- `newkey`. A rehash inserts keys into the table that it makes, and the key that it is for. -/
def newkey : ℕ → Table N → Value N → Except Abort (Table N × Slot)
  | 0, _, _ => .error .undefinedBehaviour
  | depth + 1, t, key =>
    let mp := t.mainposition key
    if !ttisnil (t.gnode mp).val || t.dummy then
      match t.getfreepos with
      | (none, t) => do
        let t ← t.rehashWith (newkey depth) key
        t.setWith (newkey depth) key
      | (some n, t) =>
        let othern := t.mainposition (t.gnode mp).key.key2tval
        if othern ≠ mp then
          match t.search (fun node => node.next = some mp) othern with
          | none => .error .undefinedBehaviour
          | some prev => .ok ((t.moveColliding prev mp n).place mp key)
        else .ok ((t.chainNew mp n).place n key)
    else .ok (t.place mp key)

/-- A new key makes one rehash necessary at most, which makes none. -/
def luaH_set (t : Table N) (key : Value N) : Except Abort (Table N × Slot) := t.setWith (newkey 2) key

def luaH_setnum (t : Table N) (key : ℤ) : Except Abort (Table N × Slot) := t.setnumWith (newkey 2) key

def luaH_setstr (t : Table N) (key : List UInt8) : Except Abort (Table N × Slot) :=
  match t.luaH_getstr key with
  | some p => .ok (t, p)
  | none => newkey 2 t (.string key)

def resize (t : Table N) (nasize nhsize : ℕ) : Except Abort (Table N) := t.resizeWith (newkey 2) nasize nhsize

def luaH_resizearray (t : Table N) (nasize : ℕ) : Except Abort (Table N) :=
  t.resize nasize (if t.dummy then 0 else t.sizenode)

/-- What `OP_SETLIST` does before it assigns values to the indices up to this one. -/
def preallocate (t : Table N) (last : ℕ) : Except Abort (Table N) :=
  if t.sizearray < last then t.luaH_resizearray last else return t

def luaH_new (narray nhash : ℕ) : Except Abort (Table N) :=
  let t : Table N := ⟨[], [emptyNode], 0, true, 0⟩
  (t.setarrayvector narray).setnodevector nhash

/-- `removeentry`: the collector kills a key that has no value. -/
def removeentry (t : Table N) (i : ℕ) : Table N :=
  match (t.gnode i).key with
  | .value v => if iscollectable v then t.setNode i { t.gnode i with key := .deadkey v } else t
  | .deadkey _ => t

/-- The collector is at a node: a key without a value is removed. -/
def clearNode (t : Table N) (i : ℕ) : Table N := if ttisnil (t.gnode i).val then t.removeentry i else t

/-- The loop of `traversetable` over the nodes, from the last to the first. -/
def clearNodes (t : Table N) : Table N := (List.range t.sizenode).foldr (fun i t => t.clearNode i) t

/-! Boundaries -/

/-- The binary search of `luaH_getn` and `unbound_search`: something is at `i`, and nothing at `j`. -/
def binarySearch (present : ℕ → Bool) : ℕ → ℕ → ℕ → ℕ
  | 0, i, _ => i
  | fuel + 1, i, j =>
    if 1 < j - i then
      let m := (i + j) / 2
      if present m then binarySearch present fuel m j else binarySearch present fuel i m
    else i

/-- The loop for tables that were built with bad purposes. -/
def linearSearch (present : ℕ → Bool) : ℕ → ℕ → ℕ
  | 0, i => i - 1
  | fuel + 1, i => if present i then linearSearch present fuel (i + 1) else i - 1

def MAX_INT : ℕ := 2 ^ 31 - 1 - 2

/-- Whether there is something at an index. -/
def present (t : Table N) (j : ℕ) : Bool := !ttisnil (t.value (t.luaH_getnum j))

/-- The doubling loop of `unbound_search`, which takes 32 rounds at most. -/
def doubling (t : Table N) : ℕ → ℕ → ℕ → ℕ
  | 0, i, _ => i
  | fuel + 1, i, j =>
    if t.present j then
      if MAX_INT < j * 2 then linearSearch t.present (t.sizearray + t.sizenode + 1) 1
      else t.doubling fuel j (j * 2)
    else binarySearch t.present j i j

def unbound_search (t : Table N) (j : ℕ) : ℕ := t.doubling 33 j (j + 1)

def luaH_getn (t : Table N) : ℕ :=
  let j := t.sizearray
  if 0 < j && ttisnil (t.array.getD (j - 1) .nil) then
    binarySearch (fun m => !ttisnil (t.array.getD (m - 1) .nil)) j 0 j
  else if t.dummy then j
  else t.unbound_search j

end Table
end H1Z1Server.LuaTable
