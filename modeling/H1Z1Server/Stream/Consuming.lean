import H1Z1Server.Stream.Operations

/-! A reader as the bytes it has read and those it may still read. The block behind the
buffer may go on further than the size the reader was given. -/
namespace H1Z1Server
open MachineInt MemoryBlock ByteOrder ByteStreamBuffer ByteStreamReader

/-- The abstract state of a reader: the bytes before the cursor, and those from it on. -/
structure Facing (s : ByteStreamBuffer) (done todo : List UInt8) : Prop where
  buffer : ∃ extra beyond, s.buffer = some ⟨done ++ todo ++ extra, beyond⟩
  bufferSize : s.bufferSize.toNat = done.length + todo.length
  idx : s.idx.toInt = done.length

variable {s : ByteStreamBuffer} {done todo : List UInt8}

theorem Facing.nonneg (h : Facing s done todo) : 0 ≤ s.idx.toInt := by
  rw [h.idx]
  exact Int.natCast_nonneg _

theorem Facing.sizeT_idx (h : Facing s done todo) : (sizeT s.idx).toNat = done.length := by
  have hcursor := toNat_sizeT_of_nonneg h.nonneg
  rw [h.idx] at hcursor
  exact_mod_cast hcursor

theorem Facing.bufferSize_ne_zero (h : Facing s done todo) (hpos : 0 < todo.length) : s.bufferSize ≠ 0 := by
  apply ne_zero_of_pos
  rw [h.bufferSize]
  exact Nat.add_pos_right _ hpos

/-- A reader with a buffer that is not empty passes `SAFETY_CHECK` at its cursor. -/
theorem Facing.safetyCheck (h : Facing s done todo) (hpos : 0 < done.length + todo.length)
    (f : String) : (safetyCheck f (-1)).run s = .ok (s.idx, true) s := by
  obtain ⟨extra, beyond, hbuf⟩ := h.buffer
  have hne : s.bufferSize ≠ 0 := ne_zero_of_pos (by rw [h.bufferSize]; exact hpos)
  have hidx : s.idx ≠ -1 := ne_neg_one_of_nonneg h.nonneg
  simp [ByteStreamBuffer.safetyCheck, hne, hbuf, hidx]

/-- The bounds check of the reads: the end of the read, and whether the buffer has it. -/
theorem Facing.bounds (h : Facing s done todo) (size : UInt64)
    (hfit : done.length + size.toNat < 2 ^ 64) :
    (sizeT s.idx + size).toNat = done.length + size.toNat ∧
      (sizeT s.idx + size > s.bufferSize ↔ todo.length < size.toNat) := by
  have hend : (sizeT s.idx + size).toNat = done.length + size.toNat := by
    rw [UInt64.toNat_add, h.sizeT_idx, Nat.mod_eq_of_lt hfit]
  refine ⟨hend, ?_⟩
  rw [gt_iff_lt, UInt64.lt_iff_toNat_lt, hend, h.bufferSize]
  omega

/-- Moving the cursor over bytes. -/
theorem Facing.advance {bs rest : List UInt8} (h : Facing s done (bs ++ rest)) {idx : Int32}
    (hidx : idx.toInt = done.length + bs.length) : Facing { s with idx } (done ++ bs) rest := by
  obtain ⟨extra, beyond, hbuf⟩ := h.buffer
  refine ⟨⟨extra, beyond, ?_⟩, ?_, ?_⟩
  · simpa using hbuf
  · rw [h.bufferSize]
    simp [Nat.add_assoc]
  · simpa using hidx

/-- The cursor moves over bytes that the bounds check finds in the buffer. -/
theorem Facing.passes {bs rest : List UInt8} (h : Facing s done (bs ++ rest)) {size : UInt64}
    (hlen : bs.length = size.toNat) (hidx : done.length + bs.length < 2 ^ 31) :
    ¬ sizeT s.idx + size > s.bufferSize ∧
      Facing { s with idx := narrow (sizeT s.idx + size) } (done ++ bs) rest := by
  obtain ⟨hend, hmany⟩ := h.bounds size (by omega)
  refine ⟨by rw [hmany, List.length_append]; omega, h.advance ?_⟩
  rw [toInt_narrow (by omega), hend, hlen]
  push_cast
  rfl

theorem Facing.load {bs rest : List UInt8} (h : Facing s done (bs ++ rest)) {s' : ByteStreamBuffer}
    (hbuf' : s'.buffer = s.buffer) : (load done.length bs.length).run s' = .ok bs s' := by
  obtain ⟨extra, beyond, hbuf⟩ := h.buffer
  have hload : (Block.mk (done ++ (bs ++ rest) ++ extra) beyond).load done.length bs.length = some bs :=
    Block.load_append (by rw [← List.append_assoc, List.append_assoc _ rest])
  rw [load_run, hbuf', hbuf, Option.bind_some, hload]

/-- A read of a number that the buffer has. -/
theorem readSized_run {α : Type} {bs rest : List UInt8} (h : Facing s done (bs ++ rest))
    (f : String) (size : UInt64) (value : Bool → List UInt8 → α) (hlen : bs.length = size.toNat)
    (hpos : 0 < size.toNat) (hidx : done.length + bs.length < 2 ^ 31) :
    ∃ s', (readSized f size value (-1)).run s = .ok (value s.bigEndian bs) s' ∧
      Facing s' (done ++ bs) rest ∧ s'.bigEndian = s.bigEndian ∧ s'.buffer = s.buffer := by
  obtain ⟨hfits, hnext⟩ := h.passes hlen hidx
  refine ⟨{ s with idx := narrow (sizeT s.idx + size) }, ?_, hnext, rfl, rfl⟩
  unfold readSized
  rw [run_bind_ok (h.safetyCheck (by rw [List.length_append]; omega) f),
    run_bind_ok (EStateM.run_get _), if_neg hfits]
  simp only [h.idx, ← hlen]
  rw [run_bind_ok (h.load rfl)]
  rfl

/-- A read of a number that reaches past the end of the buffer. -/
theorem readSized_throw {α : Type} (h : Facing s done todo) (hne : 0 < done.length + todo.length)
    (f : String) (size : UInt64) (value : Bool → List UInt8 → α)
    (hfit : done.length + size.toNat < 2 ^ 64) (hmany : todo.length < size.toNat) :
    (readSized f size value (-1)).run s = .error (tooMany f) s := by
  unfold readSized
  rw [run_bind_ok (h.safetyCheck hne f), run_bind_ok (EStateM.run_get _),
    if_pos ((h.bounds size hfit).2.mpr hmany)]
  rfl

/-- `ReadData` returns the place of the bytes that it moves the cursor over. -/
theorem readData_run {bs rest : List UInt8} (h : Facing s done (bs ++ rest))
    {size : UInt64} (hlen : bs.length = size.toNat) (hpos : 0 < size.toNat)
    (hidx : done.length + bs.length < 2 ^ 31) :
    ∃ s', (readData size).run s = .ok s.idx s' ∧
      Facing s' (done ++ bs) rest ∧ s'.bigEndian = s.bigEndian ∧ s'.buffer = s.buffer := by
  obtain ⟨hfits, hnext⟩ := h.passes hlen hidx
  refine ⟨{ s with idx := narrow (sizeT s.idx + size) }, ?_, hnext, rfl, rfl⟩
  unfold readData
  rw [run_bind_ok (h.safetyCheck (by rw [List.length_append]; omega) _),
    run_bind_ok (EStateM.run_get _), if_neg hfits]
  rfl

theorem readData_throw (h : Facing s done todo) (hne : 0 < done.length + todo.length)
    (size : UInt64) (hfit : done.length + size.toNat < 2 ^ 64) (hmany : todo.length < size.toNat) :
    (readData size).run s = .error (tooMany "ByteStreamReader::ReadData") s := by
  unfold readData
  rw [run_bind_ok (h.safetyCheck hne _), run_bind_ok (EStateM.run_get _),
    if_pos ((h.bounds size hfit).2.mpr hmany)]
  rfl

namespace FixedRead

/-- A read of known width that the buffer has. -/
theorem read_run {bs rest : List UInt8} (h : Facing s done (bs ++ rest)) {r : FixedRead}
    (hlen : bs.length = r.width) (hpos : 0 < r.width) (hidx : done.length + bs.length < 2 ^ 31) :
    ∃ s', r.read.run s = .ok (r.decode s.bigEndian bs) s' ∧
      Facing s' (done ++ bs) rest ∧ s'.bigEndian = s.bigEndian ∧ s'.buffer = s.buffer := by
  cases r with
  | byte =>
    obtain ⟨s', hrun, hafter⟩ := readSized_run h "ByteStreamReader::ReadByte" 1
      (fun _ bs => UInt8.ofNat (ofLE bs)) hlen hpos hidx
    have hvalue : ofLE bs = decodeNat s.bigEndian bs := by
      obtain ⟨b, rfl⟩ := List.length_eq_one_iff.mp hlen
      cases s.bigEndian <;> rfl
    rw [hvalue] at hrun
    exact ⟨s', run_map_ok hrun, hafter⟩
  | word =>
    obtain ⟨s', hrun, hafter⟩ := readSized_run h "ByteStreamReader::ReadWord" 2
      (fun bigEndian bs => autoEndian2 bigEndian (UInt16.ofNat (ofLE bs))) hlen hpos hidx
    rw [autoEndian2_ofLE s.bigEndian hlen] at hrun
    exact ⟨s', run_map_ok hrun, hafter⟩
  | dword =>
    obtain ⟨s', hrun, hafter⟩ := readSized_run h "ByteStreamReader::ReadDword" 4
      (fun bigEndian bs => autoEndian4 bigEndian (UInt32.ofNat (ofLE bs))) hlen hpos hidx
    rw [autoEndian4_ofLE s.bigEndian hlen] at hrun
    exact ⟨s', run_map_ok hrun, hafter⟩
  | qword =>
    obtain ⟨s', hrun, hafter⟩ := readSized_run h "ByteStreamReader::ReadQword" 8
      (fun bigEndian bs => autoEndian8 bigEndian (UInt64.ofNat (ofLE bs))) hlen hpos hidx
    rw [autoEndian8_ofLE s.bigEndian hlen] at hrun
    exact ⟨s', run_map_ok hrun, hafter⟩
  | data n =>
    have hn : bs.length = n := hlen
    have hsize : bs.length = (UInt64.ofNat n).toNat := by
      rw [toNat_ofNat_of_lt (by omega), hn]
    obtain ⟨s', hrun, hafter, hbig, hbuf⟩ := readData_run h hsize (by omega) hidx
    have hload := h.load hbuf
    rw [hn] at hload
    refine ⟨s', ?_, hafter, hbig, hbuf⟩
    unfold read
    rw [run_bind_ok hrun, h.idx]
    exact run_map_ok hload

/-- A read of known width that reaches past the end of the buffer changes nothing. -/
theorem read_throw (h : Facing s done todo) (hne : 0 < done.length + todo.length) {r : FixedRead}
    (hfit : done.length + r.width < 2 ^ 32) (hmany : todo.length < r.width) :
    ∃ what, r.read.run s = .error (.exception what) s := by
  cases r with
  | byte =>
    have hrun := readSized_throw h hne "ByteStreamReader::ReadByte" 1
      (fun _ bs => UInt8.ofNat (ofLE bs)) (hfit.trans (by norm_num)) hmany
    exact ⟨_, run_map_error hrun⟩
  | word =>
    have hrun := readSized_throw h hne "ByteStreamReader::ReadWord" 2
      (fun bigEndian bs => autoEndian2 bigEndian (UInt16.ofNat (ofLE bs)))
      (hfit.trans (by norm_num)) hmany
    exact ⟨_, run_map_error hrun⟩
  | dword =>
    have hrun := readSized_throw h hne "ByteStreamReader::ReadDword" 4
      (fun bigEndian bs => autoEndian4 bigEndian (UInt32.ofNat (ofLE bs)))
      (hfit.trans (by norm_num)) hmany
    exact ⟨_, run_map_error hrun⟩
  | qword =>
    have hrun := readSized_throw h hne "ByteStreamReader::ReadQword" 8
      (fun bigEndian bs => autoEndian8 bigEndian (UInt64.ofNat (ofLE bs)))
      (hfit.trans (by norm_num)) hmany
    exact ⟨_, run_map_error hrun⟩
  | data n =>
    have hn : n < 2 ^ 32 := lt_of_le_of_lt (Nat.le_add_left _ _) hfit
    have hsize : (UInt64.ofNat n).toNat = n := toNat_ofNat_of_lt (by omega)
    have hrun := readData_throw h hne (UInt64.ofNat n) (by rw [hsize]; exact hfit.trans (by norm_num))
      (by rw [hsize]; exact hmany)
    exact ⟨_, run_bind_error hrun⟩

end FixedRead
end H1Z1Server
