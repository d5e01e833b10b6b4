import H1Z1Server.Stream.CountedStrings
import H1Z1Server.Stream.IndexedReads

/-! Wide strings: when the reader takes back what the writer has stored, and ends where it ends. -/
namespace H1Z1Server
open MachineInt MemoryBlock ByteOrder ByteStreamBuffer ByteStreamWriter ByteStreamReader

variable {malloc : Malloc} {s s' : ByteStreamBuffer} {log room done rest : List UInt8}

/-- A reader over the buffer of a stream, from an index on. -/
def rereader (s : ByteStreamBuffer) (idx : Int32) : ByteStreamBuffer :=
  seek (newReader s.buffer s.bufferSize s.bigEndian) idx

/-- What is written at the cursor is read back from there, and the reader ends where the writer does. -/
def ComesBack {α : Type} (write : StreamM Unit) (read : StreamM α) (a : α) (s : ByteStreamBuffer) : Prop :=
  ∃ s' r', write.run s = .ok () s' ∧ read.run (rereader s' s.idx) = .ok a r' ∧ r'.idx = s'.idx

theorem comesBack_iff {α : Type} {write : StreamM Unit} {read : StreamM α} {a : α}
    (hwrite : write.run s = .ok () s') :
    ComesBack write read a s ↔ ∃ r', read.run (rereader s' s.idx) = .ok a r' ∧ r'.idx = s'.idx := by
  constructor
  · rintro ⟨s₁, r', hrun, hread, hidx⟩
    cases hwrite.symm.trans hrun
    exact ⟨r', hread, hidx⟩
  · rintro ⟨r', hread, hidx⟩
    exact ⟨s', r', hwrite, hread, hidx⟩

theorem Backed.rereader {todo : List UInt8} (h : Backed s' (log ++ todo)) (hpos : 0 < todo.length) {idx : Int32}
    (hidx : idx.toInt = log.length) : Facing (rereader s' idx) log todo := by
  obtain ⟨hsize, ⟨hnil, -⟩ | ⟨beyond, hbuf⟩⟩ := h
  · obtain ⟨-, rfl⟩ := List.append_eq_nil_iff.mp hnil
    exact absurd hpos (lt_irrefl 0)
  · rw [List.length_append] at hsize
    refine ⟨⟨[], beyond, ?_⟩, hsize, hidx⟩
    rw [List.append_nil]
    exact hbuf

theorem length_toChunks_go {α : Type} (xs : List α) (acc₁ : Array α) (acc₂ : Array (List α))
    (hpos : 0 < acc₁.size) (hle : acc₁.size ≤ 2) :
    (List.toChunks.go 2 xs acc₁ acc₂).length = acc₂.size + (acc₁.size + xs.length + 1) / 2 := by
  induction xs generalizing acc₁ acc₂ with
  | nil =>
    simp only [List.toChunks.go, Array.length_toList, Array.size_push, List.length_nil]
    omega
  | cons x xs ih =>
    rw [List.toChunks.go]
    by_cases hfull : acc₁.size = 2
    · rw [if_pos (by simpa using hfull), ih _ _ (by simp) (by simp)]
      simp only [Array.size_push, List.length_cons, hfull, List.size_toArray, Array.mkEmpty_eq, List.length_nil]
      omega
    · rw [if_neg (by simpa using hfull), ih _ _ (by simp) (by rw [Array.size_push]; omega)]
      simp only [Array.size_push, List.length_cons]
      omega

/-- An odd byte at the end is a chunk of its own. -/
theorem length_toChunks_two {α : Type} (xs : List α) : (xs.toChunks 2).length = (xs.length + 1) / 2 := by
  cases xs with
  | nil => simp [List.toChunks]
  | cons x xs =>
    rw [List.toChunks, length_toChunks_go xs _ _ (by simp) (by simp)]
    · simp only [List.size_toArray, List.length_cons, List.length_nil]
      omega
    · exact fun h => absurd h (by decide)

/-- The last steps of `ReadWString`, once a size is known. It is halved. -/
def takeWide (start : Int32) (str_size : UInt32) (mode : StringInterpretMode) : StreamM (List UInt16) := do
  let bs ← load start.toInt (2 * (str_size / 2).toNat)
  setIdx (narrowDword (dword start + str_size + terminator mode))
  return (bs.toChunks 2).map fun c => UInt16.ofNat (ofLE c)

theorem takeWide_ok {start : Int32} {str_size : UInt32} {mode : StringInterpretMode} {w : List UInt16}
    (h : (takeWide start str_size mode).run s = .ok w s') :
    w.length = str_size.toNat / 2 ∧ s'.idx = narrowDword (dword start + str_size + terminator mode) := by
  obtain ⟨bs, s₁, hload, hrun⟩ := exists_of_run_bind h
  cases hrun
  have hlen := length_of_load_run hload
  refine ⟨?_, rfl⟩
  rw [List.length_map, length_toChunks_two, hlen, UInt32.toNat_div, show (2 : UInt32).toNat = 2 from rfl]
  omega

theorem Facing.readWString_sized {todo : List UInt8} (h : Facing s done todo) (hpos : 0 < todo.length)
    {mode : StringInterpretMode} (hmode : mode ≠ .untilNullTerm) :
    (readWString mode).run s =
      (readPrefix "ByteStreamReader::ReadWString" s.idx >>= fun v => takeWide v.1 v.2 mode).run s := by
  unfold readWString
  rw [run_bind_ok (h.safetyCheck (Nat.add_pos_right _ hpos) _)]
  cases mode with
  | untilNullTerm => exact absurd rfl hmode
  | givenSize => rfl
  | givenSizeNullTerm => rfl

/-- Behind a size prefix, `ReadWString` takes half as many characters as it counts. -/
theorem Facing.readWString_sized_ok {count : List UInt8} (h : Facing s done (count ++ rest))
    (hcount : count.length = 4) {mode : StringInterpretMode} (hmode : mode ≠ .untilNullTerm) {w : List UInt16}
    (hrun : (readWString mode).run s = .ok w s') :
    done.length + 4 < 2 ^ 31 ∧ w.length = decodeNat s.bigEndian count / 2 ∧
      s'.idx = narrowDword (dword (s.idx + 4) + UInt32.ofNat (decodeNat s.bigEndian count) + terminator mode) := by
  have hlt : decodeNat s.bigEndian count < 2 ^ 32 := by
    have hbytes := decodeNat_lt s.bigEndian count
    rwa [hcount] at hbytes
  rw [h.readWString_sized (by rw [List.length_append]; omega) hmode] at hrun
  obtain ⟨v, s₁, hprefix, hrun⟩ := exists_of_run_bind hrun
  rw [h.readPrefix_run hcount] at hprefix
  split_ifs at hprefix with hover
  cases hprefix
  obtain ⟨hlen, hidx⟩ := takeWide_ok hrun
  rw [UInt32.toNat_ofNat', Nat.mod_eq_of_lt hlt] at hlen
  exact ⟨not_le.mp hover, hlen, hidx⟩

/-- In front of a terminator, it takes at most half of the characters, and stays if there are none. -/
theorem Facing.readWString_scanned_ok {bs : List UInt8} (h : Facing s done (bs ++ 0 :: rest)) {k : ℕ}
    (hbs : bs.length = 2 * k) {w : List UInt16} (hrun : (readWString .untilNullTerm).run s = .ok w s') :
    w.length ≤ k / 2 ∧ (k = 0 → s'.idx = narrowDword (dword s.idx)) := by
  obtain ⟨extra, beyond, hbuf⟩ := h.buffer
  have hne := h.bufferSize_ne_zero (by simp)
  have hlo := h.nonneg
  have hzero : (Block.mk (done ++ (bs ++ 0 :: rest) ++ extra) beyond).peek
      (scanStart done.length false + (if true then 2 else 1) * k : ℕ) = some 0 := by
    have hat : scanStart done.length false + (if true then 2 else 1) * k = done.length + bs.length := by
      simp [scanStart, hbs]
    rw [hat, Block.peek_of_lt (by simp [Block.size]), List.append_assoc,
      List.getElem?_append_right (Nat.le_add_right _ _), List.append_assoc,
      List.getElem?_append_right (by omega), Nat.add_sub_cancel_left, Nat.sub_self]
    rfl
  cases hscan : scanLength s s.idx true false with
  | none =>
    rw [readWString_unscanned hbuf hne hlo hscan] at hrun
    cases hrun
  | some n =>
    have hle := scanLength_le hbuf h.idx hzero hscan
    rw [readWString_untilNullTerm hbuf hne hlo hscan] at hrun
    split at hrun
    next hone =>
      cases hrun
      rw [hone] at hle
      exact ⟨Nat.zero_le _, fun hnone => by rw [hnone] at hle; exact absurd hle (by decide)⟩
    next =>
      obtain ⟨hlen, hidx⟩ := takeWide_ok hrun
      refine ⟨by omega, fun hnone => ?_⟩
      have hn : n = 0 := UInt32.toNat_inj.mp (Nat.le_zero.mp (hnone ▸ hle))
      rw [hidx, hn]
      exact congrArg narrowDword ((UInt32.add_zero _).trans (UInt32.add_zero _))

theorem load_nothing {m : Block} (hbuf : s.buffer = some m) (o : ℤ) : (load o 0).run s = .ok [] s := by
  rw [load_run, hbuf]
  rfl

/-- A size of zero in front of the cursor. -/
theorem Facing.readPrefix_zero (h : Facing s done (toLE 4 0 ++ rest)) (hint : done.length + 4 < 2 ^ 31)
    (f : String) : (readPrefix f s.idx).run s = .ok (s.idx + 4, 0) s := by
  have hzero : decodeNat s.bigEndian (toLE 4 0) = 0 := by cases s.bigEndian <;> rfl
  rw [h.readPrefix_run (length_toLE 4 0), hzero, if_neg (by omega), if_neg (by omega)]
  rfl

theorem takeWide_nothing {m : Block} (hbuf : s.buffer = some m) (start : Int32) :
    (takeWide start 0 .givenSize).run s = .ok [] { s with idx := narrowDword (dword start) } := by
  have hstart : dword start + 0 + terminator .givenSize = dword start :=
    (UInt32.add_zero _).trans (UInt32.add_zero _)
  show (load start.toInt 0 >>= _).run s = _
  rw [run_bind_ok (load_nothing hbuf _), hstart]
  rfl

theorem Facing.readWString_empty (h : Facing s done (toLE 4 0 ++ rest)) (hint : done.length + 4 < 2 ^ 31) :
    (readWString .givenSize).run s = .ok [] { s with idx := narrowDword (dword (s.idx + 4)) } := by
  obtain ⟨m, hbuf, -, -⟩ := h.dword_ahead (length_toLE 4 0)
  rw [h.readWString_sized (by simp) (by decide), run_bind_ok (h.readPrefix_zero hint _)]
  exact takeWide_nothing hbuf _

theorem Facing.toNat_dword (h : Facing s done rest) : (dword s.idx).toNat = done.length := by
  have hdword := toNat_dword_of_nonneg h.nonneg
  rw [h.idx] at hdword
  exact_mod_cast hdword

/-- The index behind a size is that of the size and four. -/
theorem Facing.toNat_dword_add_four (h : Facing s done rest) (hint : done.length + 4 < 2 ^ 31) :
    (dword (s.idx + 4)).toNat = done.length + 4 := by
  have hidx := h.idx
  have hadd : (s.idx + 4).toInt = s.idx.toInt + 4 := toInt_add_of_lt rfl (by decide) (by omega)
  have hdword := toNat_dword_of_nonneg (i := s.idx + 4) (by omega)
  omega

/-- A write of wide characters, and the reader in front of them. -/
theorem stringWrite_rereader (h : Holds s log room) (f : String) (bound : UInt64 → UInt64)
    (need : UInt64) {copy : Int32 → Bool → StreamM Unit} {w : List UInt16} {mode : StringInterpretMode}
    (hgrow : room.length < need.toNat → Serves malloc (log.length + room.length + need.toNat))
    (hfits : writtenBytes 2 w.length mode ≤ (reserve room need.toNat).length)
    (hcopy : ∀ s₁ : ByteStreamBuffer, (copy s₁.idx true).run s₁ =
      (copyChars wideBytes (· * 2) 0 w mode s₁.idx true).run s₁) :
    ∃ s' idx rest,
      (autoBufferF malloc need true >>= fun _ => checkedWrite f true (-1) bound copy).run s = .ok () s' ∧
      Facing (rereader s' s.idx) log (stringImage wideBytes 0 w mode ++ rest) ∧ s'.idx = narrow idx ∧
      idx.toNat = log.length + writtenBytes 2 w.length mode ∧ (rereader s' s.idx).bigEndian = s.bigEndian := by
  have hpos := wideChars.written_pos w.length mode
  obtain ⟨s₁, hgrown, h₁, hbig₁, -⟩ := stringWrite_grown h f bound copy hgrow (hpos.trans_le hfits)
  obtain ⟨s₂, idx, hrun, h₂, hidx, hend, hbig₂, -⟩ := copyChars_stores wideChars h₁ 0 w mode hfits
  rw [List.append_assoc] at h₂
  refine ⟨s₂, idx, _, (hgrown.trans (hcopy s₁)).trans hrun, h₂.rereader ?_ h.idx, hidx, hend, hbig₂.trans hbig₁⟩
  rw [List.length_append, wideChars.length_image]
  omega

theorem wideBytes_append (w v : List UInt16) : wideBytes (w ++ v) = wideBytes w ++ wideBytes v :=
  List.flatMap_append

theorem wideString_comesBack_iff (h : Holds s log room) (hlittle : s.bigEndian = false) (w : List UInt16)
    (mode : StringInterpretMode) (hfits : writtenBytes 2 w.length mode ≤ room.length)
    (hgrow : room.length < w.length * 2 + 4 → Serves malloc (log.length + room.length + (w.length * 2 + 4))) :
    ComesBack (writeWString malloc w mode) (readWString mode) w s ↔
      mode = .givenSize ∧ w = [] ∧ log.length + 4 < 2 ^ 31 := by
  have hsize := h.size
  have hlt := s.bufferSize.toNat_lt
  have hneed : (UInt64.ofNat w.length * 2 + 4).toNat = w.length * 2 + 4 := by
    have hserved : w.length * 2 + 4 < 2 ^ 64 := by
      by_contra hbig
      exact absurd (hgrow (by omega)).1 (by omega)
    rw [UInt64.toNat_add, wideChars.span _ (by omega), show (4 : UInt64).toNat = 4 from rfl, Nat.mod_eq_of_lt hserved]
  rw [← hneed] at hgrow
  obtain ⟨s', idx, rest, hrun, hreader, hidx, hend, hbig⟩ := stringWrite_rereader h
    "ByteStreamWriter::WriteWString" (fun p => p + UInt64.ofNat w.length + 4) _ hgrow
    (hfits.trans (length_le_reserve room _)) (fun _ => rfl)
  rw [← writeWString_eq] at hrun
  rw [comesBack_iff hrun, hidx]
  have hcount : decodeNat (rereader s' s.idx).bigEndian (toLE 4 w.length) = w.length % 2 ^ 32 := by
    rw [hbig, hlittle]
    exact ofLE_toLE 4 w.length
  cases mode with
  | untilNullTerm =>
    refine iff_of_false ?_ (by simp)
    rintro ⟨r', hread, hsame⟩
    have hahead : Facing (rereader s' s.idx) log (wideBytes w ++ 0 :: 0 :: rest) := by
      rw [stringImage, wideBytes_append, List.append_assoc] at hreader
      exact hreader
    obtain ⟨hlen, hstays⟩ := hahead.readWString_scanned_ok ((length_wideBytes w).trans (Nat.mul_comm _ _)) hread
    rw [hstays (by omega), narrowDword_eq_narrow_iff, hreader.toNat_dword, hend] at hsame
    simp only [writtenBytes] at hsame
    omega
  | givenSizeNullTerm =>
    refine iff_of_false ?_ (by simp)
    rintro ⟨r', hread, hsame⟩
    rw [stringImage, List.append_assoc] at hreader
    obtain ⟨hint, hlen, hcur⟩ := hreader.readWString_sized_ok (length_toLE 4 w.length) (by decide) hread
    rw [hcount] at hlen hcur
    have hnone : w.length = 0 := by omega
    rw [hcur, narrowDword_eq_narrow_iff, hend, UInt32.toNat_add, UInt32.toNat_add,
      hreader.toNat_dword_add_four hint, hnone] at hsame
    have hterm : (terminator .givenSizeNullTerm).toNat = 1 := rfl
    simp only [writtenBytes, hterm, UInt32.toNat_ofNat'] at hsame
    omega
  | givenSize =>
    rw [stringImage, List.append_assoc] at hreader
    constructor
    · rintro ⟨r', hread, -⟩
      obtain ⟨hint, hlen, -⟩ := hreader.readWString_sized_ok (length_toLE 4 w.length) (by decide) hread
      rw [hcount] at hlen
      exact ⟨rfl, List.length_eq_zero_iff.mp (by omega), hint⟩
    · rintro ⟨-, rfl, hint⟩
      refine ⟨_, hreader.readWString_empty hint, ?_⟩
      show narrowDword _ = _
      rw [narrowDword_eq_narrow_iff, hreader.toNat_dword_add_four hint, hend]
      simp only [writtenBytes, List.length_nil]
      omega

/-- `ReadWString` takes back what `WriteWString` has stored, and ends where it ends, exactly for nothing behind a
size whose end an `int` counts. -/
theorem wide_strings_iff (h : InBuffer s) (hsound : Sound s) (hlittle : s.bigEndian = false) (w : List UInt16)
    (mode : StringInterpretMode)
    (hfits : s.idx.toInt.toNat + writtenBytes 2 w.length mode ≤ s.bufferSize.toNat)
    (hgrow : s.bufferSize.toNat < s.idx.toInt.toNat + (w.length * 2 + 4) →
      Serves malloc (s.bufferSize.toNat + (w.length * 2 + 4))) :
    ComesBack (writeWString malloc w mode) (readWString mode) w s ↔
      mode = .givenSize ∧ w = [] ∧ s.idx.toInt.toNat + 4 < 2 ^ 31 := by
  obtain ⟨log, room, hholds, hlog, hsize⟩ := h.holds hsound
  rw [← hlog, ← hsize] at hfits hgrow
  rw [← hlog]
  exact wideString_comesBack_iff hholds hlittle w mode (by omega) fun hshort => hgrow (by omega)

theorem wide_strings_example :
    ComesBack (writeWString plentiful [] .givenSize) (readWString .givenSize) [] (writerOf 16 true) :=
  (wide_strings_iff (writerOf_inBuffer (by norm_num) true) (by decide) rfl [] .givenSize (by decide)
    fun hshort => absurd hshort (by decide)).mpr ⟨rfl, rfl, by decide⟩

/-- One character is counted as one byte, of which no character can be made. -/
theorem wide_string_lost :
    InBuffer (writerOf 16 true) ∧ Sound (writerOf 16 true) ∧ (writerOf 16 true).bigEndian = false ∧
      ¬ComesBack (writeWString plentiful [65] .givenSize) (readWString .givenSize) [65] (writerOf 16 true) := by
  have hwriter : InBuffer (writerOf 16 true) := writerOf_inBuffer (by norm_num) true
  obtain ⟨log, room, hholds, -, -⟩ := hwriter.holds (by decide)
  have hidx : (0 : ℤ) = log.length := hholds.idx
  have hsize : 16 = log.length + room.length := hholds.size
  have hfits : writtenBytes 2 [(65 : UInt16)].length .givenSize ≤ room.length := by
    simp only [writtenBytes, List.length_singleton]
    omega
  have henough : ¬room.length < [(65 : UInt16)].length * 2 + 4 := by
    rw [List.length_singleton]
    omega
  refine ⟨hwriter, by decide, rfl, fun hback => ?_⟩
  have hnone := (wideString_comesBack_iff hholds rfl [65] .givenSize hfits fun hshort =>
    absurd hshort henough).mp hback
  exact absurd hnone.2.1 (List.cons_ne_nil 65 [])

end H1Z1Server
