import H1Z1Server.Stream.Consuming
import H1Z1Server.Stream.LengthPrefix

/-! Runs of writes and reads: what a writer holds after any sequence of appends, what a reader
gets back from it, and which inputs a sequence of fixed-width reads accepts. -/
namespace H1Z1Server
open MachineInt MemoryBlock ByteOrder ByteStreamBuffer ByteStreamWriter ByteStreamReader

variable {malloc : Malloc}

/-- The items that a writer can append and a reader of the same byte order can read back:
`ReadData` needs something to read, and a string has its size in the order of the machine. -/
def Item.Appendable (bigEndian : Bool) : Item → Prop
  | data bs => bs ≠ []
  | string _ => bigEndian = false
  | _ => True

instance (bigEndian : Bool) : (it : Item) → Decidable (it.Appendable bigEndian)
  | .byte _ => isTrue trivial
  | .word _ => isTrue trivial
  | .dword _ => isTrue trivial
  | .qword _ => isTrue trivial
  | .data bs => inferInstanceAs (Decidable (bs ≠ []))
  | .string _ => inferInstanceAs (Decidable (bigEndian = false))

/-- The room behind the cursor after a sequence of writes. -/
def roomAfterAll (bigEndian : Bool) (room : List UInt8) : List Item → List UInt8
  | [] => room
  | it :: items => roomAfterAll bigEndian (roomAfter room (it.encode bigEndian).length) items

theorem length_roomAfterAll_le (bigEndian : Bool) (room : List UInt8) (items : List Item) :
    (roomAfterAll bigEndian room items).length ≤ room.length := by
  induction items generalizing room with
  | nil => exact le_rfl
  | cons it items ih => exact (ih _).trans (length_roomAfter_le _ _)

theorem writeData_run {s : ByteStreamBuffer} {log room : List UInt8} (h : Holds s log room) (bs : List UInt8)
    (hpos : 0 < log.length + room.length + bs.length)
    (hroom : s.autoBuffer = true ∨ bs.length ≤ room.length) (hidx : log.length + bs.length < 2 ^ 31)
    (hgrow : room.length < bs.length → Serves malloc (log.length + room.length + bs.length)) :
    ∃ s', (writeData malloc bs).run s = .ok () s' ∧ Holds s' (log ++ bs) (roomAfter room bs.length) ∧
      s'.bigEndian = s.bigEndian ∧ s'.autoBuffer = s.autoBuffer := by
  have hsize : (UInt64.ofNat bs.length).toNat = bs.length := toNat_ofNat_of_lt (by omega)
  unfold writeData
  exact writeSized_run h bs rfl hsize hpos hroom hidx hgrow

/-- One append. -/
theorem write_run {s : ByteStreamBuffer} {log room : List UInt8} (h : Holds s log room) {it : Item}
    (hdata : it ≠ .data [])
    (hroom : s.autoBuffer = true ∨ (it.encode s.bigEndian).length ≤ room.length)
    (hidx : log.length + (it.encode s.bigEndian).length < 2 ^ 31)
    (hgrow : room.length < (it.encode s.bigEndian).length →
      Serves malloc (log.length + room.length + (it.encode s.bigEndian).length)) :
    ∃ s', (it.write malloc).run s = .ok () s' ∧
      Holds s' (log ++ it.encode s.bigEndian) (roomAfter room (it.encode s.bigEndian).length) ∧
      s'.bigEndian = s.bigEndian ∧ s'.autoBuffer = s.autoBuffer := by
  cases it with
  | byte b =>
    unfold Item.write writeByte
    exact writeSized_run h [b] rfl rfl (Nat.succ_pos _) hroom hidx hgrow
  | word w =>
    have himage := toLE_autoEndian2 s.bigEndian w
    unfold Item.write writeWord
    exact writeSized_run h _ himage (by simp [Item.encode]) (Nat.add_pos_right _ (by simp [Item.encode]))
      hroom hidx hgrow
  | dword d =>
    have himage := toLE_autoEndian4 s.bigEndian d
    unfold Item.write writeDword
    exact writeSized_run h _ himage (by simp [Item.encode]) (Nat.add_pos_right _ (by simp [Item.encode]))
      hroom hidx hgrow
  | qword q =>
    have himage := toLE_autoEndian8 s.bigEndian q
    unfold Item.write writeQword
    exact writeSized_run h _ himage (by simp [Item.encode]) (Nat.add_pos_right _ (by simp [Item.encode]))
      hroom hidx hgrow
  | data bs =>
    have hne : bs ≠ [] := fun hnil => hdata (by rw [hnil])
    exact writeData_run h bs (Nat.add_pos_right _ (List.length_pos_iff.mpr hne)) hroom hidx hgrow
  | string str =>
    have hwidth : (Item.encode s.bigEndian (.string str)).length = str.length + 4 := by
      rw [Item.encode, List.length_append, length_toLE, Nat.add_comm]
    rw [hwidth] at hidx hgrow ⊢
    unfold Item.write
    exact writeString_run h hidx hgrow

/-- A sequence of appends extends the log by the concatenation of the encodings. -/
theorem writeAll_run {s : ByteStreamBuffer} {log room : List UInt8}
    (h : Holds s log room) {items : List Item} (hdata : Item.data [] ∉ items)
    (hroom : s.autoBuffer = true ∨ (encodeAll s.bigEndian items).length ≤ room.length)
    (hidx : log.length + (encodeAll s.bigEndian items).length < 2 ^ 31)
    (hgrow : room.length < (encodeAll s.bigEndian items).length →
      ∀ n ≤ log.length + room.length + (encodeAll s.bigEndian items).length, Serves malloc n) :
    ∃ s', (writeAll malloc items).run s = .ok () s' ∧
      Holds s' (log ++ encodeAll s.bigEndian items) (roomAfterAll s.bigEndian room items) ∧
      s'.bigEndian = s.bigEndian ∧ s'.autoBuffer = s.autoBuffer := by
  induction items generalizing s log room with
  | nil => exact ⟨s, rfl, by simpa [encodeAll, roomAfterAll] using h, rfl, rfl⟩
  | cons it items ih =>
    rw [encodeAll_cons, List.length_append] at hroom hidx hgrow
    obtain ⟨hit, hitems⟩ := not_or.mp (mt List.mem_cons.mpr hdata)
    have hafter := length_roomAfter_le room (it.encode s.bigEndian).length
    have hleft := le_length_roomAfter room (it.encode s.bigEndian).length
    obtain ⟨s₁, hwrite, h₁, hbig, hauto⟩ := write_run h (Ne.symm hit)
      (hroom.imp_right fun hle => by omega) (by omega) (fun hlt => hgrow (by omega) _ (by omega))
    rw [← hbig] at h₁ hroom hidx hgrow ⊢
    rw [← hbig] at hafter hleft
    obtain ⟨s₂, hrest, h₂, hbig₂, hauto₂⟩ := ih h₁ hitems
      (by rw [hauto]; exact hroom.imp_right fun hle => by omega)
      (by rw [List.length_append]; omega)
      (fun hlt n hn => hgrow (by omega) n (by rw [List.length_append] at hn; omega))
    refine ⟨s₂, ?_, ?_, hbig₂, hauto₂.trans hauto⟩
    · unfold writeAll
      rw [run_bind_ok hwrite, hrest]
    · rw [encodeAll_cons, ← List.append_assoc]
      exact h₂

/-- A freshly initialised writer holds nothing but room. -/
theorem initializeWriter_run {bufferSize : UInt64} (hm : (malloc bufferSize.toNat).isSome)
    (bigEndian autoBuffer : Bool) :
    ∃ s, initializeWriter malloc bufferSize bigEndian autoBuffer = .ok s ∧
      Holds s [] (List.replicate bufferSize.toNat 0) ∧
      s.bigEndian = bigEndian ∧ s.autoBuffer = autoBuffer := by
  obtain ⟨beyond, hbeyond⟩ := Option.isSome_iff_exists.mp hm
  unfold initializeWriter setupBuffer
  by_cases hpos : bufferSize > 0
  · rw [if_pos hpos, hbeyond]
    exact ⟨_, rfl, ⟨⟨by simp, Or.inr ⟨beyond, rfl⟩⟩, rfl⟩, rfl, rfl⟩
  · have hzero : bufferSize = 0 := by
      rw [gt_iff_lt, UInt64.lt_iff_toNat_lt] at hpos
      exact UInt64.toNat_inj.mp (by simpa using hpos)
    rw [if_neg hpos]
    exact ⟨_, rfl, ⟨⟨by simp, Or.inl ⟨by simp [hzero], rfl⟩⟩, rfl⟩, rfl, rfl⟩

/-- The size prefix that a reader stands in front of. -/
theorem Facing.dword_ahead {s : ByteStreamBuffer} {done count rest : List UInt8}
    (h : Facing s done (count ++ rest)) (hcount : count.length = 4) :
    ∃ m, s.buffer = some m ∧ s.bufferSize.toNat ≤ m.size ∧
      dwordAt s.bigEndian m.bytes done.length = decodeNat s.bigEndian count := by
  obtain ⟨extra, beyond, hbuf⟩ := h.buffer
  have hsize := h.bufferSize
  refine ⟨_, hbuf, ?_, ?_⟩
  · simp only [Block.size, List.length_append] at hsize ⊢
    omega
  · rw [dwordAt, List.append_assoc, List.drop_left, List.append_assoc, List.take_left' hcount]

/-- What is made of the size prefix. -/
theorem Facing.readPrefix_run {s : ByteStreamBuffer} {done count rest : List UInt8}
    (h : Facing s done (count ++ rest)) (hcount : count.length = 4) (f : String) :
    (readPrefix f s.idx).run s =
      if 2 ^ 31 ≤ done.length + 4 then .error .undefinedBehaviour s
      else if done.length + 4 + rest.length < (done.length + 4 + decodeNat s.bigEndian count) % 2 ^ 32 then
        .error (tooMany f) s
      else .ok (s.idx + 4, UInt32.ofNat (decodeNat s.bigEndian count)) s := by
  obtain ⟨m, hbuf, hinside, hdword⟩ := h.dword_ahead hcount
  have hsize := h.bufferSize
  rw [List.length_append, hcount, ← Nat.add_assoc] at hsize
  have hcursor : s.idx.toInt.toNat = done.length := by rw [h.idx, Int.toNat_natCast]
  rw [H1Z1Server.readPrefix_run hbuf hinside f h.nonneg, hcursor, hdword, hsize,
    if_neg (by omega)]

/-- `ReadString` in its default mode takes a string as `WriteString` has left it, if it takes the size for the
same. -/
theorem readString_run {s : ByteStreamBuffer} {done str rest : List UInt8}
    (h : Facing s done (toLE 4 str.length ++ str ++ rest))
    (hcount : decodeNat s.bigEndian (toLE 4 str.length) = str.length) (hidx : done.length + str.length + 4 < 2 ^ 31) :
    ∃ s', readString.run s = .ok str s' ∧ Facing s' (done ++ (toLE 4 str.length ++ str)) rest ∧
      s'.bigEndian = s.bigEndian := by
  rw [List.append_assoc] at h
  obtain ⟨m, hbuf, -, -⟩ := h.dword_ahead (length_toLE 4 str.length)
  have hne := h.bufferSize_ne_zero (by simp)
  have hlo : 0 ≤ (resolve s (-1)).toInt := h.nonneg
  have hchecked := h.readPrefix_run (length_toLE 4 str.length) "ByteStreamReader::ReadString"
  rw [hcount, if_neg (by omega), if_neg (by rw [List.length_append]; omega)] at hchecked
  have hadd : (s.idx + 4).toInt = done.length + 4 := by
    rw [← h.idx]
    exact toInt_add_of_lt rfl (by decide) (by rw [h.idx]; omega)
  have hstr : (UInt32.ofNat str.length).toNat = str.length := by
    rw [UInt32.toNat_ofNat', Nat.mod_eq_of_lt (by omega)]
  have hmid : Facing { s with idx := s.idx + 4 } (done ++ toLE 4 str.length) (str ++ rest) := by
    refine h.advance ?_
    rw [hadd, length_toLE]
    rfl
  have hload := hmid.load (show s.buffer = _ from rfl)
  have hplace : ((done ++ toLE 4 str.length).length : ℤ) = (s.idx + 4).toInt := by
    rw [hadd, List.length_append, length_toLE]
    rfl
  rw [hplace, ← hstr] at hload
  have hrun := readString_sized_run hbuf hne
    (by decide : StringInterpretMode.givenSize ≠ .untilNullTerm) hlo hchecked hload
  rw [if_pos rfl] at hrun
  have hend : (dword (s.idx + 4) + UInt32.ofNat str.length + terminator .givenSize).toNat =
      done.length + 4 + str.length := by
    have hdword' := toNat_dword_of_nonneg (i := s.idx + 4) (by omega)
    rw [UInt32.toNat_add, UInt32.toNat_add, hstr, show (terminator .givenSize).toNat = 0 from rfl]
    omega
  rw [← List.append_assoc] at h
  refine ⟨_, hrun, h.advance ?_, rfl⟩
  rw [toInt_narrowDword (by omega), hend, List.length_append, length_toLE]
  push_cast
  ring

/-- What `ReadString` returns has the length that four bytes at the cursor stand for. -/
theorem Facing.length_of_readString {s s' : ByteStreamBuffer} {done count rest str : List UInt8}
    (h : Facing s done (count ++ rest)) (hcount : count.length = 4)
    (hrun : readString.run s = .ok str s') : str.length = decodeNat s.bigEndian count := by
  obtain ⟨m, hbuf, hinside, hdword⟩ := h.dword_ahead hcount
  have hne := h.bufferSize_ne_zero (by rw [List.length_append]; omega)
  have hstart : (resolve s (-1)).toInt = done.length := h.idx
  have hlo : 0 ≤ (resolve s (-1)).toInt := h.nonneg
  rw [H1Z1Server.length_of_readString hbuf hinside hne (by decide) hlo hrun, hstart, Int.toNat_natCast, hdword]

/-- The read that matches a write takes back the value written. -/
theorem ReadOp.read_run {s : ByteStreamBuffer} {done rest : List UInt8} {it : Item}
    (hit : it.Appendable s.bigEndian) (h : Facing s done (it.encode s.bigEndian ++ rest))
    (hidx : done.length + (it.encode s.bigEndian).length < 2 ^ 31) :
    ∃ s', it.readOp.read.run s = .ok it s' ∧
      Facing s' (done ++ it.encode s.bigEndian) rest ∧ s'.bigEndian = s.bigEndian := by
  cases hop : it.readOp with
  | fixed r =>
    obtain ⟨hlen, hvalue⟩ := decode_encode s.bigEndian hop
    have hpos : 0 < r.width := by
      cases it with
      | data bs =>
        rw [← hlen]
        exact List.length_pos_iff.mpr hit
      | string str => cases hop
      | byte _ | word _ | dword _ | qword _ =>
        obtain rfl := ReadOp.fixed.inj hop
        decide
    obtain ⟨s', hrun, hafter, hbig, -⟩ := FixedRead.read_run h hlen hpos hidx
    rw [hvalue] at hrun
    exact ⟨s', hrun, hafter, hbig⟩
  | string =>
    cases it with
    | string str =>
      have hwidth : (Item.encode s.bigEndian (.string str)).length = str.length + 4 := by
        rw [Item.encode, List.length_append, length_toLE, Nat.add_comm]
      rw [hwidth] at hidx
      have hlittle : s.bigEndian = false := hit
      have hcount : decodeNat s.bigEndian (toLE 4 str.length) = str.length := by
        rw [hlittle]
        exact ofLE_toLE_of_lt (by omega)
      obtain ⟨s', hrun, hafter, hbig⟩ := readString_run h hcount (by omega)
      exact ⟨s', run_map_ok hrun, hafter, hbig⟩
    | byte _ | word _ | dword _ | qword _ | data _ => cases hop

theorem readAll_cons_ok {s s' : ByteStreamBuffer} {op : ReadOp} {it : Item} {ops : List ReadOp}
    (h : op.read.run s = .ok it s') :
    (readAll (op :: ops)).run s = match (readAll ops).run s' with
      | .ok items s'' => .ok (it :: items) s''
      | .error e s'' => .error e s'' := by
  rw [readAll, run_bind_ok h]
  cases hrest : (readAll ops).run s' with
  | ok items s'' =>
    rw [run_bind_ok hrest]
    rfl
  | error e s'' => exact run_bind_error hrest

theorem readAll_cons_error {s s' : ByteStreamBuffer} {op : ReadOp} {e : Abort} {ops : List ReadOp}
    (h : op.read.run s = .error e s') : (readAll (op :: ops)).run s = .error e s' := by
  rw [readAll]
  exact run_bind_error h

/-- Matching reads of a buffer that begins with encodings take back the values. -/
theorem readAll_run {s : ByteStreamBuffer} {done rest : List UInt8} {items : List Item}
    (hitems : ∀ it ∈ items, it.Appendable s.bigEndian)
    (h : Facing s done (encodeAll s.bigEndian items ++ rest))
    (hidx : done.length + (encodeAll s.bigEndian items).length < 2 ^ 31) :
    ∃ s', (readAll (items.map Item.readOp)).run s = .ok items s' ∧
      Facing s' (done ++ encodeAll s.bigEndian items) rest := by
  induction items generalizing s done with
  | nil => exact ⟨s, rfl, by simpa [encodeAll] using h⟩
  | cons it items ih =>
    rw [encodeAll_cons, List.append_assoc] at h
    rw [encodeAll_cons, List.length_append] at hidx
    obtain ⟨s₁, hrun, h₁, hbig⟩ := ReadOp.read_run (hitems it List.mem_cons_self) h (by omega)
    obtain ⟨s₂, hrest, h₂⟩ := ih
      (fun it' hmem => by rw [hbig]; exact hitems it' (List.mem_cons_of_mem _ hmem))
      (by rw [hbig]; exact h₁) (by rw [hbig, List.length_append]; omega)
    refine ⟨s₂, ?_, ?_⟩
    · rw [List.map_cons, readAll_cons_ok hrun, hrest]
    · rw [encodeAll_cons, ← List.append_assoc]
      rw [hbig] at h₂
      exact h₂

theorem length_encodeAll_pos {bigEndian : Bool} {items : List Item} (hne : items ≠ [])
    (hitems : ∀ it ∈ items, it.Appendable bigEndian) : 0 < (encodeAll bigEndian items).length := by
  cases items with
  | nil => exact absurd rfl hne
  | cons it items =>
    rw [encodeAll_cons, List.length_append]
    have hit := hitems it List.mem_cons_self
    have hpos : 0 < (it.encode bigEndian).length := by
      cases it with
      | data bs => exact List.length_pos_iff.mpr hit
      | byte _ | word _ | dword _ | qword _ | string _ => simp [Item.encode]
    omega

/-- A reader over the buffer of a writer that fits an `int`. -/
theorem Holds.newReader {w : ByteStreamBuffer} {log room : List UInt8} (h : Holds w log room)
    (hpos : 0 < log.length) (hfit : log.length + room.length < 2 ^ 31) (bigEndian : Bool) :
    Facing (newReader w.buffer (sizeT w.getBufferSize) bigEndian) [] (log ++ room) := by
  obtain ⟨hsize, ⟨hnil, -⟩ | ⟨beyond, hbuf⟩⟩ := h.backed
  · have hlog := congrArg List.length hnil
    simp only [List.length_append, List.length_nil] at hlog
    omega
  rw [List.length_append] at hsize
  have hint : w.getBufferSize.toInt = w.bufferSize.toNat := toInt_narrow (by omega)
  have hnat := toNat_sizeT_of_nonneg (i := w.getBufferSize) (by omega)
  refine ⟨⟨[], beyond, ?_⟩, ?_, rfl⟩
  · rw [List.nil_append, List.append_nil]
    exact hbuf
  show (sizeT w.getBufferSize).toNat = _
  simp only [List.length_nil, List.length_append]
  omega

/-- Appending to a fresh writer and reading back: the layout of the buffer, the index, and the
values that a reader of the same byte order finds. -/
theorem write_read_round_trip (bufferSize : UInt64) (bigEndian : Bool) (items : List Item)
    (hitems : ∀ it ∈ items, it.Appendable bigEndian)
    (hfit : bufferSize.toNat + (encodeAll bigEndian items).length < 2 ^ 31)
    (hm : ∀ n ≤ bufferSize.toNat + (encodeAll bigEndian items).length, (malloc n).isSome) :
    ∃ w w' r' room,
      initializeWriter malloc bufferSize bigEndian true = .ok w ∧
      (writeAll malloc items).run w = .ok () w' ∧
      w'.getIdx.toInt = (items.map fun it => (it.encode bigEndian).length).sum ∧
      w'.contents = some (encodeAll bigEndian items ++ room) ∧
      (readAll (items.map Item.readOp)).run
        (newReader w'.buffer (sizeT w'.getBufferSize) bigEndian) = .ok items r' ∧
      r'.getIdx = w'.getIdx := by
  obtain ⟨w, hinit, h, hbig, hauto⟩ := initializeWriter_run (hm _ (Nat.le_add_right _ _)) bigEndian true
  have hdata : Item.data [] ∉ items := fun hmem => hitems _ hmem rfl
  rw [← hbig] at hm hfit hitems ⊢
  have hgrow : ∀ n ≤ ([] : List UInt8).length + (List.replicate bufferSize.toNat (0 : UInt8)).length +
      (encodeAll w.bigEndian items).length, Serves malloc n := by
    intro n hn
    rw [List.length_nil, List.length_replicate, Nat.zero_add] at hn
    exact ⟨by omega, hm n hn⟩
  obtain ⟨w', hwrite, h', hbig', -⟩ := writeAll_run h hdata (Or.inl hauto)
    (by simp only [List.length_nil]; omega) (fun _ => hgrow)
  rw [List.nil_append] at h'
  have hsum : w'.getIdx.toInt = (items.map fun it => (it.encode w.bigEndian).length).sum := by
    rw [show w'.getIdx = w'.idx from rfl, h'.idx, encodeAll, List.length_flatMap]
  have hroom := length_roomAfterAll_le w.bigEndian (List.replicate bufferSize.toNat 0) items
  rw [List.length_replicate] at hroom
  have hread : ∃ r', (readAll (items.map Item.readOp)).run
      (newReader w'.buffer (sizeT w'.getBufferSize) w.bigEndian) = .ok items r' ∧
        r'.getIdx = w'.getIdx := by
    by_cases hempty : items = []
    · subst hempty
      refine ⟨_, rfl, Int32.toInt_inj.mp ?_⟩
      rw [hsum]
      rfl
    · have hpos := length_encodeAll_pos hempty hitems
      have hreader := h'.newReader hpos (by omega) w.bigEndian
      obtain ⟨r', hrun, hafter⟩ := readAll_run
        (s := newReader w'.buffer (sizeT w'.getBufferSize) w.bigEndian) hitems hreader (by
          show [].length + (encodeAll w.bigEndian items).length < 2 ^ 31
          rw [List.length_nil]
          omega)
      refine ⟨r', hrun, Int32.toInt_inj.mp ?_⟩
      rw [show r'.getIdx = r'.idx from rfl, hafter.idx, List.nil_append]
      exact h'.idx.symm
  obtain ⟨r', hrun, hend⟩ := hread
  exact ⟨w, w', r', _, by rw [hbig]; exact hinit, hwrite, hsum, h'.backed.contents, hrun, hend⟩

/-- An allocator that never fails, with nothing mapped around its blocks. -/
def plentiful : Malloc := fun _ => some fun _ => none

theorem write_read_round_trip_example :
    let items := [Item.word 0x0102, .string [65, 0], .data [9], .byte 7]
    ∃ w w' r' room, initializeWriter plentiful 3 false true = .ok w ∧
      (writeAll plentiful items).run w = .ok () w' ∧ w'.getIdx.toInt = 10 ∧
      w'.contents = some ([2, 1, 2, 0, 0, 0, 65, 0, 9, 7] ++ room) ∧
      (readAll (items.map Item.readOp)).run (newReader w'.buffer (sizeT w'.getBufferSize) false) =
        .ok items r' ∧ r'.getIdx = w'.getIdx :=
  write_read_round_trip 3 false [.word 0x0102, .string [65, 0], .data [9], .byte 7] (by decide) (by decide)
    (fun _ _ => rfl)

end H1Z1Server
