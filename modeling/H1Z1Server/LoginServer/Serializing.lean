import H1Z1Server.LoginServer.Entries

/-! `Serialize`: the bytes that it leaves in the buffer, and the entries that it does not get
through with. -/
namespace H1Z1Server
open MachineInt MemoryBlock ByteOrder ByteStreamBuffer LuaStream

variable {rt : LuaRuntime} {s : ByteStreamBuffer} {log : List UInt8} {k : ℕ}

/-- The call that writes an entry. -/
def Entry.write (rt : LuaRuntime) : Entry → StreamM Unit
  | number .dword n _ _ => BufferWriter.writeDword rt (some (.number n))
  | number .qword n _ _ => BufferWriter.writeQword rt (some (.number n))
  | number .word n _ _ => BufferWriter.writeWord rt (some (.number n))
  | number .byte n _ _ => BufferWriter.writeByte rt (some (.number n))
  | text str _ _ => BufferWriter.writeString rt (some (.string str)) .untilNullTerm

def writeEntries (rt : LuaRuntime) : List Entry → StreamM Unit
  | [] => return ()
  | e :: entries => do
    e.write rt
    writeEntries rt entries

/-- `WriteDword`, `WriteQword`, `WriteWord` and `WriteByte` of Lua. -/
def BufferWriter.writeNumber (rt : LuaRuntime) (t : NumberType) (v : Option LuaValue) : StreamM Unit :=
  match t with
  | .dword => writeDword rt v
  | .qword => writeQword rt v
  | .word => writeWord rt v
  | .byte => writeByte rt v

/-- What the streams write for a number that was converted to an `int`. -/
def NumberType.item : NumberType → Int32 → Item
  | dword, i => .dword (MachineInt.dword i)
  | qword, i => .qword (sizeT i)
  | word, i => .word (MachineInt.word i)
  | byte, i => .byte (MachineInt.byte i)

theorem encodeNat_byte (bigEndian : Bool) (b : UInt8) : encodeNat bigEndian 1 b.toNat = [b] := by
  cases bigEndian <;> simp [encodeNat, toBE, toLE]

/-- A number in the range of `int` is written as itself. -/
theorem encode_item (bigEndian : Bool) (t : NumberType) {n : ℕ} (hfits : n < 256 ^ t.width) (hin : n < 2 ^ 31) :
    (t.item (Int32.ofInt n)).encode bigEndian = encodeNat bigEndian t.width n := by
  cases t with
  | dword =>
    have hvalue : (UInt32.ofNat n).toNat = n := UInt32.toNat_ofNat_of_lt' hfits
    rw [NumberType.item, dword_ofInt hin, Item.encode, hvalue]
    rfl
  | qword =>
    have hvalue : (UInt64.ofNat n).toNat = n := toNat_ofNat_of_lt hfits
    rw [NumberType.item, sizeT_ofInt hin, Item.encode, hvalue]
    rfl
  | word =>
    have hvalue : (UInt16.ofNat n).toNat = n := UInt16.toNat_ofNat_of_lt' hfits
    rw [NumberType.item, word_ofInt hfits, Item.encode, hvalue]
    rfl
  | byte =>
    have hvalue : (UInt8.ofNat n).toNat = n := UInt8.toNat_ofNat_of_lt' hfits
    rw [NumberType.item, byte_ofInt hfits, Item.encode, ← encodeNat_byte bigEndian, hvalue]
    rfl

theorem checkInt_run (f : String) {n : ℕ} {i : Int32} (hi : rt.toInt n = some i) :
    (checkInt rt f (some (.number n))).run s = .ok i s := by
  have hnumber : checkNumber rt f (some (.number n)) = pure n := rfl
  simp only [checkInt, hnumber, pure_bind, hi]
  rfl

theorem checkInt_undefined (f : String) {n : ℕ} (hout : rt.toInt n = none) :
    (checkInt rt f (some (.number n))).run s = .error .undefinedBehaviour s := by
  have hnumber : checkNumber rt f (some (.number n)) = pure n := rfl
  simp only [checkInt, hnumber, pure_bind, hout]
  rfl

/-- Every number is converted, and then written by the stream. -/
theorem writeNumber_item (rt : LuaRuntime) (t : NumberType) (v : Option LuaValue) :
    ∃ f, BufferWriter.writeNumber rt t v = checkInt rt f v >>= fun value => (t.item value).write rt.malloc := by
  cases t with
  | dword => exact ⟨"WriteDword", rfl⟩
  | qword => exact ⟨"WriteQword", rfl⟩
  | word => exact ⟨"WriteWord", rfl⟩
  | byte => exact ⟨"WriteByte", rfl⟩

theorem write_number (rt : LuaRuntime) (t : NumberType) {n : ℕ} (fits : n < 256 ^ t.width) (exact : n ≤ 2 ^ 53) :
    ∃ f, (Entry.number t n fits exact).write rt =
      checkInt rt f (some (.number n)) >>= fun value => (t.item value).write rt.malloc := by
  have hentry : (Entry.number t n fits exact).write rt = BufferWriter.writeNumber rt t (some (.number n)) := by
    cases t <;> rfl
  rw [hentry]
  exact writeNumber_item rt t _

/-- The bytes that an entry is sent as: a number is sent as the `int` it was converted to. -/
def Entry.Sends (rt : LuaRuntime) : Entry → List UInt8 → Prop
  | number t n _ _, bs => ∃ i, rt.toInt n = some i ∧ bs = (t.item i).encode true
  | text str _ _, bs => bs = str ++ [0]

theorem Entry.sends_bytes {e : Entry} (h : e.InRange) : e.Sends rt e.bytes := by
  cases e with
  | number t n fits exact =>
    have hin : n < 2 ^ 31 := h
    exact ⟨_, rt.toInt_exact n (by omega) (by omega), (encode_item true t fits hin).symm⟩
  | text str terminated short => rfl

theorem length_encode_item (t : NumberType) (i : Int32) : ((t.item i).encode true).length = t.width := by
  cases t <;> rfl

theorem Entry.Sends.length_eq {e : Entry} {bs : List UInt8} (h : e.Sends rt bs) :
    bs.length = e.bytes.length := by
  cases e with
  | number t n fits exact =>
    obtain ⟨i, -, rfl⟩ := h
    rw [Entry.bytes, length_encodeNat, length_encode_item]
  | text str terminated short =>
    rw [h]
    rfl

theorem reserve_replicate (k n : ℕ) :
    reserve (List.replicate k 0) n = List.replicate (if k < n then k + n else k) 0 := by
  unfold reserve
  rw [List.length_replicate]
  split
  · rw [List.replicate_append_replicate]
  · rfl

/-- A number, converted and written behind the log of a writer whose room is all zero. -/
theorem writeNumber_run (f : String) (t : NumberType) {n : ℕ} {i : Int32} (hi : rt.toInt n = some i)
    (h : Holds s log (List.replicate k 0)) (hbig : s.bigEndian = true) (hauto : s.autoBuffer = true)
    (hidx : log.length + t.width < 2 ^ 31)
    (hgrow : k < t.width → Serves rt.malloc (log.length + k + t.width)) :
    ∃ s', (checkInt rt f (some (.number n)) >>= fun value => (t.item value).write rt.malloc).run s =
        .ok () s' ∧
      Holds s' (log ++ (t.item i).encode true)
        (List.replicate ((if k < t.width then k + t.width else k) - t.width) 0) ∧
      s'.bigEndian = true ∧ s'.autoBuffer = true := by
  have hroom : (List.replicate k (0 : UInt8)).length = k := List.length_replicate
  have hlen : ((t.item i).encode s.bigEndian).length = t.width := by
    rw [hbig, length_encode_item]
  have hdata : t.item i ≠ .data [] := by cases t <;> nofun
  obtain ⟨s', hrun, hafter, hbig', hauto'⟩ := H1Z1Server.write_run h hdata (Or.inl hauto)
    (by rw [hlen]; exact hidx) (by rw [hlen, hroom]; exact hgrow)
  rw [hlen, hbig, roomAfter, reserve_replicate, List.drop_replicate] at hafter
  refine ⟨s', ?_, hafter, hbig'.trans hbig, hauto'.trans hauto⟩
  rw [run_bind_ok (checkInt_run f hi)]
  exact hrun

/-- A terminated string, written behind such a log. -/
theorem writeText_run (str : List UInt8) (h : Holds s log (List.replicate k 0)) (hbig : s.bigEndian = true)
    (hauto : s.autoBuffer = true) (hidx : log.length + str.length + 1 < 2 ^ 31)
    (hgrow : k < str.length + 4 → Serves rt.malloc (log.length + k + (str.length + 4))) :
    ∃ s', (BufferWriter.writeString rt (some (.string str)) .untilNullTerm).run s = .ok () s' ∧
      Holds s' (log ++ (str ++ [0]))
        (List.replicate ((if k < str.length + 4 then k + (str.length + 4) else k) - (str.length + 1)) 0) ∧
      s'.bigEndian = true ∧ s'.autoBuffer = true := by
  have hroom : (List.replicate k (0 : UInt8)).length = k := List.length_replicate
  obtain ⟨s', hrun, hafter, hbig', hauto'⟩ := writeString_untilNullTerm_run h str hidx
    (by rw [hroom]; exact hgrow)
  rw [reserve_replicate, List.drop_replicate] at hafter
  exact ⟨s', hrun, hafter, hbig'.trans hbig, hauto'.trans hauto⟩

/-- One entry, written behind the log of a writer whose room is all zero. -/
theorem Entry.write_run (e : Entry) (h : Holds s log (List.replicate k 0)) (hbig : s.bigEndian = true)
    (hauto : s.autoBuffer = true) {bs : List UInt8} (hsend : e.Sends rt bs)
    (hidx : log.length + e.bytes.length < 2 ^ 31)
    (hgrow : k < e.need → Serves rt.malloc (log.length + k + e.need)) :
    ∃ s', (e.write rt).run s = .ok () s' ∧
      Holds s' (log ++ bs) (List.replicate (e.roomLeft k) 0) ∧
      s'.bigEndian = true ∧ s'.autoBuffer = true := by
  cases e with
  | number t n fits exact =>
    obtain ⟨f, hwrite⟩ := write_number rt t fits exact
    obtain ⟨i, hi, rfl⟩ := hsend
    have hbytes : (Entry.number t n fits exact).bytes = encodeNat true t.width n := rfl
    rw [hbytes, length_encodeNat] at hidx
    rw [hwrite, Entry.roomLeft, hbytes, length_encodeNat]
    exact writeNumber_run f t hi h hbig hauto hidx hgrow
  | text str terminated short =>
    obtain rfl := hsend
    have hlen : (Entry.text str terminated short).bytes.length = str.length + 1 := by
      rw [Entry.bytes, List.length_append, List.length_singleton]
    rw [hlen] at hidx
    rw [Entry.roomLeft, hlen]
    exact writeText_run str h hbig hauto (by omega) hgrow

/-- The entries of a packet, one after the other. -/
theorem writeEntries_run {entries : List Entry} {sent : List (List UInt8)}
    (hsend : List.Forall₂ (Entry.Sends rt) entries sent) (h : Holds s log (List.replicate k 0))
    (hbig : s.bigEndian = true) (hauto : s.autoBuffer = true)
    (hfit : log.length + (entriesBytes entries).length + roomLeftAll k entries < 2 ^ 31)
    (hm : ∀ n < 2 ^ 31, (rt.malloc n).isSome) :
    ∃ s', (writeEntries rt entries).run s = .ok () s' ∧
      Holds s' (log ++ sent.flatten) (List.replicate (roomLeftAll k entries) 0) := by
  induction hsend generalizing s log k with
  | nil =>
    rw [List.flatten_nil, List.append_nil]
    exact ⟨s, rfl, h⟩
  | @cons e bs entries sent hhead _ ih =>
    rw [entriesBytes_cons, List.length_append, roomLeftAll] at hfit
    have hstep := e.length_add_roomLeft k
    have hgrows := le_roomLeftAll (e.roomLeft k) entries
    have hlen := hhead.length_eq
    have hgrow : k < e.need → Serves rt.malloc (log.length + k + e.need) := by
      intro hlt
      rw [if_pos hlt] at hstep
      exact ⟨by omega, hm _ (by omega)⟩
    obtain ⟨s₁, hwrite, h₁, hbig₁, hauto₁⟩ := e.write_run h hbig hauto hhead (by omega) hgrow
    obtain ⟨s₂, hrest, h₂⟩ := ih h₁ hbig₁ hauto₁ (by rw [List.length_append]; omega)
    refine ⟨s₂, ?_, ?_⟩
    · rw [writeEntries, run_bind_ok hwrite, hrest]
    · rw [List.flatten_cons, ← List.append_assoc]
      exact h₂

theorem length_flatten_sent {entries : List Entry} {sent : List (List UInt8)}
    (h : List.Forall₂ (Entry.Sends rt) entries sent) :
    sent.flatten.length = (entriesBytes entries).length := by
  induction h with
  | nil => rfl
  | cons hhead _ ih =>
    rw [List.flatten_cons, entriesBytes_cons, List.length_append, List.length_append, hhead.length_eq, ih]

theorem sends_entriesBytes {entries : List Entry} (h : ∀ e ∈ entries, e.InRange) :
    List.Forall₂ (Entry.Sends rt) entries (entries.map Entry.bytes) := by
  induction entries with
  | nil => exact .nil
  | cons e entries ih =>
    rw [List.forall_mem_cons] at h
    exact .cons (Entry.sends_bytes h.1) (ih h.2)

theorem item_write_starved {malloc : Malloc} {room : List UInt8} (h : Holds s log room)
    (hauto : s.autoBuffer = true) (t : NumberType) (i : Int32) (hshort : room.length < t.width)
    (hfit : log.length + room.length + t.width < 2 ^ 64)
    (hm : malloc (log.length + room.length + t.width) = none) :
    ((t.item i).write malloc).run s = .error .undefinedBehaviour s := by
  cases t with
  | dword =>
    unfold NumberType.item Item.write ByteStreamWriter.writeDword
    exact writeSized_starved h hauto hshort hfit hm
  | qword =>
    unfold NumberType.item Item.write ByteStreamWriter.writeQword
    exact writeSized_starved h hauto hshort hfit hm
  | word =>
    unfold NumberType.item Item.write ByteStreamWriter.writeWord
    exact writeSized_starved h hauto hshort hfit hm
  | byte =>
    unfold NumberType.item Item.write ByteStreamWriter.writeByte
    exact writeSized_starved h hauto hshort hfit hm

/-- On such a platform an entry is written only if it is in range and its room fits. -/
theorem Entry.write_strict (hstrict : rt.Strict) (e : Entry) (h : Holds s log (List.replicate k 0))
    (hauto : s.autoBuffer = true) (hsize : log.length + k < 2 ^ 31)
    (hbad : ¬e.InRange ∨ k < e.need ∧ 2 ^ 31 ≤ log.length + k + e.need) :
    (e.write rt).run s = .error .undefinedBehaviour s := by
  have hroom : (List.replicate k (0 : UInt8)).length = k := List.length_replicate
  cases e with
  | number t n fits exact =>
    obtain ⟨f, hwrite⟩ := write_number rt t fits exact
    rw [hwrite]
    by_cases hin : n < 2 ^ 31
    · obtain hbad | ⟨hshort, hlarge⟩ := hbad
      · exact absurd hin hbad
      rw [run_bind_ok (checkInt_run f (rt.toInt_exact n (by omega) (by omega)))]
      have hm := hstrict.2 _ hlarge
      have hneed : (Entry.number t n fits exact).need = t.width := rfl
      have hwidth : t.width ≤ 8 := by cases t <;> decide
      rw [hneed] at hshort hm
      rw [← hroom] at hshort hm hsize
      exact item_write_starved h hauto t _ hshort (by omega) hm
    · exact run_bind_error (checkInt_undefined f (hstrict.1 n (by omega)))
  | text str terminated short =>
    obtain hbad | ⟨hshort, hlarge⟩ := hbad
    · exact absurd trivial hbad
    have hm := hstrict.2 _ hlarge
    exact writeString_starved h .untilNullTerm (by rw [hroom]; exact hshort)
      (by rw [hroom]; omega) (by rw [hroom]; exact hm)

/-- On such a platform a packet is written only if every entry is in range and the buffer fits. -/
theorem writeEntries_strict (hstrict : rt.Strict) (hm : ∀ n < 2 ^ 31, (rt.malloc n).isSome)
    {entries : List Entry} (h : Holds s log (List.replicate k 0)) (hbig : s.bigEndian = true)
    (hauto : s.autoBuffer = true) (hsize : log.length + k < 2 ^ 31) {s' : ByteStreamBuffer}
    (hrun : (writeEntries rt entries).run s = .ok () s') :
    (∀ e ∈ entries, e.InRange) ∧
      log.length + (entriesBytes entries).length + roomLeftAll k entries < 2 ^ 31 := by
  induction entries generalizing s log k with
  | nil =>
    refine ⟨nofun, ?_⟩
    rw [entriesBytes, List.flatMap_nil, List.length_nil, roomLeftAll]
    exact hsize
  | cons e entries ih =>
    have hstep := e.length_add_roomLeft k
    by_cases hbad : ¬e.InRange ∨ k < e.need ∧ 2 ^ 31 ≤ log.length + k + e.need
    · rw [writeEntries, run_bind_error (e.write_strict hstrict h hauto hsize hbad)] at hrun
      cases hrun
    · obtain ⟨hin, hfit⟩ := not_or.mp hbad
      have hin := not_not.mp hin
      have hgrow : k < e.need → Serves rt.malloc (log.length + k + e.need) := by
        intro hlt
        have hlarge : ¬2 ^ 31 ≤ log.length + k + e.need := fun hle => hfit ⟨hlt, hle⟩
        exact ⟨by omega, hm _ (by omega)⟩
      have hnext : log.length + e.bytes.length + e.roomLeft k < 2 ^ 31 := by
        split at hstep <;> omega
      obtain ⟨s₁, hwrite, h₁, hbig₁, hauto₁⟩ := e.write_run h hbig hauto (Entry.sends_bytes hin)
        (by omega) hgrow
      rw [writeEntries, run_bind_ok hwrite] at hrun
      obtain ⟨hrest, hsmall⟩ := ih h₁ hbig₁ hauto₁ (by rw [List.length_append]; exact hnext) hrun
      constructor
      · intro e' he'
        rcases List.mem_cons.mp he' with rfl | he'
        · exact hin
        · exact hrest e' he'
      · rw [entriesBytes_cons, List.length_append, roomLeftAll]
        rw [List.length_append] at hsmall
        omega

end H1Z1Server
