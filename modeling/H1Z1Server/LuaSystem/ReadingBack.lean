import H1Z1Server.LuaSystem.NumberWrites
import H1Z1Server.LoginServer.Deserializing

/-! A script that writes numbers and strings and reads them back from `GetBuffer`. The writer has the byte
order that the script has asked for, the reader is always big-endian, and the sizes of strings never are. -/
namespace H1Z1Server
open MachineInt MemoryBlock ByteOrder ByteStreamBuffer LuaStream

variable {malloc : Malloc} {rt : LuaRuntime} {s : ByteStreamBuffer} {log room done rest : List UInt8}

/-- What a script writes: a number that its type and an `int` hold, or a string in its default mode. -/
inductive ScriptItem where
  | number (t : NumberType) (n : ℕ) (fits : n < 256 ^ t.width) (isInt : n < 2 ^ 31)
  | string (str : List UInt8) (short : str.length < 2 ^ 63)

namespace ScriptItem

def write (rt : LuaRuntime) : ScriptItem → StreamM Unit
  | number t n _ _ => BufferWriter.writeNumber rt t (some (.number n))
  | string str _ => BufferWriter.writeString rt (some (.string str)) .givenSize

/-- The read that matches a write. -/
def read : ScriptItem → StreamM LuaValue
  | number t _ _ _ => t.read
  | string _ _ => BufferReader.readString .givenSize

def value : ScriptItem → LuaValue
  | number _ n _ _ => .number n
  | string str _ => .string str

/-- The bytes that a write leaves in a stream of a byte order. -/
def bytes (bigEndian : Bool) : ScriptItem → List UInt8
  | number t n _ _ => encodeNat bigEndian t.width n
  | string str _ => toLE 4 str.length ++ str

def size : ScriptItem → ℕ
  | number t _ _ _ => t.width
  | string str _ => str.length + 4

/-- What was written in the byte order of the writer and of the machine reads the same in the big-endian one. -/
def Unswapped (bigEndian : Bool) : ScriptItem → Prop
  | number t n _ _ => bigEndian = true ∨ byteSwap t.width n = n
  | string str _ => byteSwap 4 str.length = str.length

instance (bigEndian : Bool) : DecidablePred (Unswapped bigEndian)
  | number t n _ _ => inferInstanceAs (Decidable (bigEndian = true ∨ byteSwap t.width n = n))
  | string str _ => inferInstanceAs (Decidable (byteSwap 4 str.length = str.length))

theorem length_bytes (bigEndian : Bool) (it : ScriptItem) : (it.bytes bigEndian).length = it.size := by
  cases it with
  | number t n fits isInt => exact length_encodeNat bigEndian t.width n
  | string str short => rw [bytes, size, List.length_append, length_toLE, Nat.add_comm]

theorem size_pos (it : ScriptItem) : 0 < it.size := by
  cases it with
  | number t n fits isInt =>
    show 0 < t.width
    cases t <;> decide
  | string str short => exact Nat.succ_pos _

theorem size_lt (it : ScriptItem) : it.size < 2 ^ 63 + 4 := by
  cases it with
  | number t n fits isInt =>
    show t.width < _
    cases t <;> decide
  | string str short => exact Nat.add_lt_add_right short 4

end ScriptItem

def writeScript (rt : LuaRuntime) : List ScriptItem → StreamM Unit
  | [] => return ()
  | it :: items => do
    it.write rt
    writeScript rt items

def readScript : List ScriptItem → StreamM (List LuaValue)
  | [] => return []
  | it :: items => do
    let v ← it.read
    let vs ← readScript items
    return v :: vs

def scriptBytes (bigEndian : Bool) (items : List ScriptItem) : List UInt8 :=
  items.flatMap (ScriptItem.bytes bigEndian)

def scriptSize (items : List ScriptItem) : ℕ := (items.map ScriptItem.size).sum

/-- The free bytes behind the cursor after a write of `n` bytes where there were `k`. -/
def freeAfter (k n : ℕ) : ℕ := if k < n then k else k - n

def freeAfterAll : ℕ → List ScriptItem → ℕ
  | k, [] => k
  | k, it :: items => freeAfterAll (freeAfter k it.size) items

theorem scriptBytes_cons (bigEndian : Bool) (it : ScriptItem) (items : List ScriptItem) :
    scriptBytes bigEndian (it :: items) = it.bytes bigEndian ++ scriptBytes bigEndian items := rfl

theorem scriptSize_cons (it : ScriptItem) (items : List ScriptItem) :
    scriptSize (it :: items) = it.size + scriptSize items := List.sum_cons

theorem length_scriptBytes (bigEndian : Bool) (items : List ScriptItem) :
    (scriptBytes bigEndian items).length = scriptSize items := by
  simp only [scriptBytes, scriptSize, List.length_flatMap, ScriptItem.length_bytes]

theorem length_roomAfter (room : List UInt8) (n : ℕ) : (roomAfter room n).length = freeAfter room.length n := by
  unfold roomAfter reserve freeAfter
  split <;> simp

/-- The buffer of the script never shrinks. -/
theorem le_scriptSize_add_free (k : ℕ) (items : List ScriptItem) :
    k ≤ scriptSize items + freeAfterAll k items := by
  induction items generalizing k with
  | nil => exact Nat.le_add_left _ _
  | cons it items ih =>
    have hrest := ih (freeAfter k it.size)
    have hstep : k ≤ it.size + freeAfter k it.size := by
      unfold freeAfter
      split <;> omega
    rw [scriptSize_cons, freeAfterAll]
    omega

/-- The item that the streams of C++ write. -/
def ScriptItem.item : ScriptItem → Item
  | number t n _ _ => t.item (Int32.ofInt n)
  | string str _ => .string str

theorem ScriptItem.encode_item (bigEndian : Bool) (it : ScriptItem) :
    it.item.encode bigEndian = it.bytes bigEndian := by
  cases it with
  | number t n fits isInt => exact H1Z1Server.encode_item bigEndian t fits isInt
  | string str short => rfl

theorem ScriptItem.item_ne_nothing (it : ScriptItem) : it.item ≠ .data [] := by
  cases it with
  | number t n fits isInt => cases t <;> nofun
  | string str short => nofun

/-- Lua has the streams of C++ write it. -/
theorem ScriptItem.write_run (rt : LuaRuntime) (it : ScriptItem) :
    (it.write rt).run s = (it.item.write rt.malloc).run s := by
  cases it with
  | number t n fits isInt =>
    rw [write, writeNumber_run_of_lt rt t fits isInt, ← converted_ofInt t fits isInt, converted_run]
    rfl
  | string str short => rfl

/-- One write into a buffer that stays below 2^31 bytes. -/
theorem ScriptItem.write_holds (it : ScriptItem) (hm : ∀ n < 2 ^ 31, (rt.malloc n).isSome) (h : Holds s log room)
    (hauto : s.autoBuffer = true) (hfit : log.length + (it.size + freeAfter room.length it.size) < 2 ^ 31) :
    ∃ s' room', (it.write rt).run s = .ok () s' ∧ Holds s' (log ++ it.bytes s.bigEndian) room' ∧
      room'.length = freeAfter room.length it.size ∧ s'.bigEndian = s.bigEndian ∧ s'.autoBuffer = true := by
  have hlen := it.length_bytes s.bigEndian
  have hgrow : room.length < it.size → Serves rt.malloc (log.length + room.length + it.size) := by
    intro hshort
    rw [freeAfter, if_pos hshort] at hfit
    exact ⟨by omega, hm _ (by omega)⟩
  obtain ⟨s', hrun, h', hbig, hauto'⟩ := H1Z1Server.write_run h it.item_ne_nothing (.inl hauto)
    (by rw [it.encode_item, hlen]; omega) (by rw [it.encode_item, hlen]; exact hgrow)
  rw [it.encode_item, hlen] at h'
  exact ⟨s', _, (it.write_run rt).trans hrun, h', length_roomAfter room it.size, hbig, hauto'.trans hauto⟩

/-- A script is written when its buffer stays below 2^31 bytes. -/
theorem writeScript_run (hm : ∀ n < 2 ^ 31, (rt.malloc n).isSome) (items : List ScriptItem)
    (h : Holds s log room) (hauto : s.autoBuffer = true)
    (hfit : log.length + (scriptSize items + freeAfterAll room.length items) < 2 ^ 31) :
    ∃ s' room', (writeScript rt items).run s = .ok () s' ∧
      Holds s' (log ++ scriptBytes s.bigEndian items) room' ∧ room'.length = freeAfterAll room.length items := by
  induction items generalizing s log room with
  | nil => exact ⟨s, room, rfl, by rwa [scriptBytes, List.flatMap_nil, List.append_nil], rfl⟩
  | cons it items ih =>
    have hlen := it.length_bytes s.bigEndian
    have hkept := le_scriptSize_add_free (freeAfter room.length it.size) items
    rw [scriptSize_cons, freeAfterAll] at hfit
    obtain ⟨s₁, room₁, hwrite, h₁, hfree, hbig, hauto₁⟩ := it.write_holds hm h hauto (by omega)
    obtain ⟨s₂, room₂, hrest, h₂, hlast⟩ := ih h₁ hauto₁ (by rw [List.length_append, hlen, hfree]; omega)
    rw [hbig, List.append_assoc] at h₂
    rw [hfree] at hlast
    refine ⟨s₂, room₂, ?_, h₂, hlast⟩
    rw [writeScript, run_bind_ok hwrite, hrest]

/-- Without memory for the growth that a write asks for, it is undefined. -/
theorem ScriptItem.write_starved (it : ScriptItem) (h : Holds s log room) (hauto : s.autoBuffer = true)
    (hshort : room.length < it.size) (hfit : log.length + room.length + it.size < 2 ^ 64)
    (hm : rt.malloc (log.length + room.length + it.size) = none) :
    (it.write rt).run s = .error .undefinedBehaviour s := by
  rw [it.write_run]
  cases it with
  | number t n fits isInt => exact item_write_starved h hauto t _ hshort hfit hm
  | string str short => exact writeString_starved h .givenSize hshort hfit hm

/-- Where no larger buffer can be had, what is written has kept the buffer below 2^31 bytes. -/
theorem writeScript_strict (hstrict : rt.Strict) (hm : ∀ n < 2 ^ 31, (rt.malloc n).isSome)
    {items : List ScriptItem} (h : Holds s log room) (hauto : s.autoBuffer = true)
    (hsize : log.length + room.length < 2 ^ 31) {s' : ByteStreamBuffer}
    (hrun : (writeScript rt items).run s = .ok () s') :
    log.length + (scriptSize items + freeAfterAll room.length items) < 2 ^ 31 := by
  induction items generalizing s log room with
  | nil => simpa [scriptSize, freeAfterAll] using hsize
  | cons it items ih =>
    have hlen := it.length_bytes s.bigEndian
    have hstep : it.size + freeAfter room.length it.size =
        if room.length < it.size then room.length + it.size else room.length := by
      unfold freeAfter
      split <;> omega
    by_cases hlarge : room.length < it.size ∧ 2 ^ 31 ≤ log.length + room.length + it.size
    · have hstarved := it.write_starved h hauto hlarge.1 (by have hshort := it.size_lt; omega)
        (hstrict.2 _ hlarge.2)
      rw [writeScript, run_bind_error hstarved] at hrun
      cases hrun
    · have hend : log.length + (it.size + freeAfter room.length it.size) < 2 ^ 31 := by
        rw [hstep]
        split <;> omega
      obtain ⟨s₁, room₁, hwrite, h₁, hfree, -, hauto₁⟩ := it.write_holds hm h hauto hend
      rw [writeScript, run_bind_ok hwrite] at hrun
      have hrest := ih h₁ hauto₁ (by rw [List.length_append, hlen, hfree]; omega) hrun
      rw [List.length_append, hlen, hfree] at hrest
      rw [scriptSize_cons, freeAfterAll]
      omega

/-- A number of either byte order is read back if its bytes are in that of the reader, or read the same. -/
theorem decode_big_iff (bigEndian : Bool) {w n : ℕ} (hn : n < 256 ^ w) :
    decodeNat true (encodeNat bigEndian w n) = n ↔ bigEndian = true ∨ byteSwap w n = n := by
  cases bigEndian with
  | false =>
    have hswap : decodeNat true (encodeNat false w n) = byteSwap w n := rfl
    simp [hswap]
  | true => simp [decodeNat_encodeNat true hn]

/-- The read of an item, from a big-endian reader. -/
theorem ScriptItem.read_run (it : ScriptItem) {bigEndian : Bool} (hit : it.Unswapped bigEndian)
    (h : Facing s done (it.bytes bigEndian ++ rest)) (hbig : s.bigEndian = true)
    (hidx : done.length + it.size < 2 ^ 31) :
    ∃ s', it.read.run s = .ok it.value s' ∧ Facing s' (done ++ it.bytes bigEndian) rest ∧
      s'.bigEndian = true := by
  cases it with
  | number t n fits isInt =>
    obtain ⟨s', hrun, hafter, hbig', -⟩ := NumberType.read_run h t (length_encodeNat _ _ _) hbig
      (by rw [length_bytes]; exact hidx)
    rw [bytes, (decode_big_iff bigEndian fits).mpr hit, t.pushed_of_le (by omega)] at hrun
    exact ⟨s', hrun, hafter, hbig'⟩
  | string str short =>
    have hcount : decodeNat s.bigEndian (toLE 4 str.length) = str.length := by
      rw [hbig]
      exact hit
    have hsize : (string str short).size = str.length + 4 := rfl
    obtain ⟨s', hrun, hafter, hbig'⟩ := readString_run h hcount (by omega)
    exact ⟨s', run_map_ok hrun, hafter, hbig'.trans hbig⟩

/-- Something else is read for an item that was swapped, or nothing. -/
theorem ScriptItem.read_swapped (it : ScriptItem) {bigEndian : Bool} (hit : ¬it.Unswapped bigEndian)
    (h : Facing s done (it.bytes bigEndian ++ rest)) (hbig : s.bigEndian = true)
    (hidx : done.length + it.size < 2 ^ 31) (s' : ByteStreamBuffer) : it.read.run s ≠ .ok it.value s' := by
  intro hread
  cases it with
  | number t n fits isInt =>
    obtain ⟨s₁, hrun, -, -, -⟩ := NumberType.read_run h t (length_encodeNat _ _ _) hbig
      (by rw [length_bytes]; exact hidx)
    have hvalue := hrun.symm.trans hread
    simp only [EStateM.Result.ok.injEq, value, LuaValue.number.injEq, Nat.cast_inj] at hvalue
    exact hit ((decode_big_iff bigEndian fits).mp ((t.pushed_eq_iff (by omega)).mp hvalue.1))
  | string str short =>
    obtain ⟨str', hrun, hvalue⟩ := exists_of_run_map hread
    cases hvalue
    rw [bytes, List.append_assoc] at h
    have hlen := h.length_of_readString (length_toLE 4 str.length) hrun
    rw [hbig] at hlen
    exact hit hlen.symm

/-- A script comes back from its bytes exactly when none of its items was swapped. -/
theorem readScript_iff {items : List ScriptItem} {bigEndian : Bool}
    (h : Facing s done (scriptBytes bigEndian items ++ rest)) (hbig : s.bigEndian = true)
    (hidx : done.length + scriptSize items < 2 ^ 31) :
    (∃ s', (readScript items).run s = .ok (items.map ScriptItem.value) s') ↔
      ∀ it ∈ items, it.Unswapped bigEndian := by
  induction items generalizing s done with
  | nil => exact iff_of_true ⟨s, rfl⟩ nofun
  | cons it items ih =>
    rw [scriptBytes_cons, List.append_assoc] at h
    rw [scriptSize_cons] at hidx
    rw [List.forall_mem_cons]
    by_cases hit : it.Unswapped bigEndian
    · obtain ⟨s₁, hrun, h₁, hbig₁⟩ := it.read_run hit h hbig (by omega)
      have hrest := ih h₁ hbig₁ (by rw [List.length_append, it.length_bytes]; omega)
      rw [readScript, List.map_cons, run_cons_iff hrun, hrest]
      simp [hit]
    · refine iff_of_false ?_ fun hall => hit hall.1
      rintro ⟨s', hrun⟩
      obtain ⟨v, s₁, hread, hrest⟩ := exists_of_run_bind hrun
      obtain ⟨vs, s₂, -, hvalues⟩ := exists_of_run_bind hrest
      cases hvalues
      exact it.read_swapped hit h hbig (by omega) s₁ hread

/-- A script gets back from the buffer of its writer what it has written there. -/
def ReadsBackOn (rt : LuaRuntime) (size : ℕ) (bigEndian : Bool) (items : List ScriptItem) : Prop :=
  ∃ w w' r, ByteStream.new rt size bigEndian true = .ok w ∧ (writeScript rt items).run w = .ok () w' ∧
    (readScript items).run (BufferWriter.getBuffer w') = .ok (items.map ScriptItem.value) r

/-- The same on every platform on which buffers of less than 2^31 bytes can be had. -/
def ReadsBack (size : ℕ) (bigEndian : Bool) (items : List ScriptItem) : Prop :=
  ∀ rt : LuaRuntime, (∀ n < 2 ^ 31, (rt.malloc n).isSome) → ReadsBackOn rt size bigEndian items

/-- The writer that `ByteStream.New` returns. -/
theorem new_run {size : ℕ} (hsize : size < 2 ^ 64) (hm : (rt.malloc size).isSome) (bigEndian : Bool) :
    ∃ w, ByteStream.new rt size bigEndian true = .ok w ∧ Holds w [] (List.replicate size 0) ∧
      w.bigEndian = bigEndian ∧ w.autoBuffer = true := by
  have hnat := toNat_ofNat_of_lt hsize
  have hserves : (rt.malloc (UInt64.ofNat size).toNat).isSome := by rwa [hnat]
  have hrun := initializeWriter_run hserves bigEndian true
  rw [hnat] at hrun
  exact hrun

theorem new_starved {size : ℕ} (hsize : size < 2 ^ 64) (hpos : 0 < size) (hm : rt.malloc size = none)
    (bigEndian : Bool) : ByteStream.new rt size bigEndian true = .error .undefinedBehaviour := by
  have hnat := toNat_ofNat_of_lt hsize
  have hsome : UInt64.ofNat size > 0 := UInt64.lt_iff_toNat_lt.mpr (by rwa [hnat])
  unfold ByteStream.new ByteStreamWriter.initializeWriter setupBuffer
  rw [if_pos hsome, hnat, hm]

/-- What was written is read back from the buffer of the writer exactly when none of it was swapped. -/
theorem getBuffer_iff {items : List ScriptItem} {bigEndian : Bool} {w : ByteStreamBuffer}
    (h : Holds w (scriptBytes bigEndian items) room) (hfit : scriptSize items + room.length < 2 ^ 31) :
    (∃ r, (readScript items).run (BufferWriter.getBuffer w) = .ok (items.map ScriptItem.value) r) ↔
      ∀ it ∈ items, it.Unswapped bigEndian := by
  cases items with
  | nil => exact iff_of_true ⟨_, rfl⟩ nofun
  | cons it items =>
    have hlen := length_scriptBytes bigEndian (it :: items)
    have hpos : 0 < scriptSize (it :: items) := by
      rw [scriptSize_cons]
      exact Nat.add_pos_left it.size_pos _
    have hface := h.newReader (by rw [hlen]; exact hpos) (by rw [hlen]; exact hfit) true
    have hreader : Facing (BufferWriter.getBuffer w) [] (scriptBytes bigEndian (it :: items) ++ room) :=
      ⟨hface.buffer, hface.bufferSize, hface.idx⟩
    exact readScript_iff hreader rfl (by rw [List.length_nil]; omega)

theorem readsBackOn_iff (hm : ∀ n < 2 ^ 31, (rt.malloc n).isSome) {size : ℕ} (bigEndian : Bool)
    {items : List ScriptItem} (hfit : scriptSize items + freeAfterAll size items < 2 ^ 31) :
    ReadsBackOn rt size bigEndian items ↔ ∀ it ∈ items, it.Unswapped bigEndian := by
  have hkept := le_scriptSize_add_free size items
  have hsize : size < 2 ^ 64 := by omega
  obtain ⟨w, hnew, h, hbig, hauto⟩ := new_run hsize (hm size (by omega)) bigEndian
  obtain ⟨w', room', hwrite, h', hfree⟩ := writeScript_run hm items h hauto
    (by rw [List.length_nil, List.length_replicate]; omega)
  rw [List.nil_append, hbig] at h'
  rw [List.length_replicate] at hfree
  rw [← getBuffer_iff h' (by rw [hfree]; exact hfit)]
  constructor
  · rintro ⟨w₀, w₁, r, hnew₀, hwrite₀, hread⟩
    cases hnew.symm.trans hnew₀
    cases hwrite.symm.trans hwrite₀
    exact ⟨r, hread⟩
  · rintro ⟨r, hread⟩
    exact ⟨w, w', r, hnew, hwrite, hread⟩

/-- A script gets back what it has written exactly when the buffer stays below 2^31 bytes, as a platform may
refuse larger ones, and every item reads the same in the byte order of the reader. -/
theorem get_buffer_reads_back_iff {size : ℕ} (hsize : size < 2 ^ 64) (bigEndian : Bool)
    (items : List ScriptItem) :
    ReadsBack size bigEndian items ↔
      scriptSize items + freeAfterAll size items < 2 ^ 31 ∧ ∀ it ∈ items, it.Unswapped bigEndian := by
  constructor
  · intro hback
    have hstrict := hback strictRuntime strictRuntime_serves
    have hfit : scriptSize items + freeAfterAll size items < 2 ^ 31 := by
      obtain ⟨w, w', r, hnew, hwrite, -⟩ := hstrict
      by_cases hsmall : size < 2 ^ 31
      · obtain ⟨w₀, hnew₀, h, -, hauto⟩ := new_run hsize (strictRuntime_serves size hsmall) bigEndian
        cases hnew₀.symm.trans hnew
        have hend := writeScript_strict strictRuntime_strict strictRuntime_serves h hauto
          (by rw [List.length_nil, List.length_replicate]; omega) hwrite
        rw [List.length_nil, List.length_replicate] at hend
        omega
      · rw [new_starved hsize (by omega) (strictRuntime_strict.2 size (by omega))] at hnew
        cases hnew
    exact ⟨hfit, (readsBackOn_iff strictRuntime_serves bigEndian hfit).mp hstrict⟩
  · rintro ⟨hfit, hitems⟩ rt hm
    exact (readsBackOn_iff hm bigEndian hfit).mpr hitems

theorem get_buffer_reads_back_example :
    ReadsBack 0 false [.string [] (by decide), .number .dword 0x01020201 (by decide) (by decide),
      .number .byte 200 (by decide) (by decide)] :=
  (get_buffer_reads_back_iff (by norm_num) false _).mpr (by decide)

/-- A string of one character is read with a size of 2^24. -/
theorem script_string_lost : ¬ReadsBack 16 true [.string [65] (by decide)] := by
  intro hback
  have hitems := (readsBackOn_iff strictRuntime_serves true (by decide)).mp
    (hback strictRuntime strictRuntime_serves)
  exact absurd hitems (by decide)

end H1Z1Server
