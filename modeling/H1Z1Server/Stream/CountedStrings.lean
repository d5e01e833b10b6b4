import H1Z1Server.Stream.Checking

/-! Counted strings: when `WriteString` appends what the writer of the size and the writer of the bytes append
one after the other. -/
namespace H1Z1Server
open MachineInt MemoryBlock ByteOrder ByteStreamBuffer ByteStreamWriter Outcome

variable {malloc : Malloc} {s : ByteStreamBuffer} {log room str : List UInt8}

/-- A string as its length, its bytes, and a zero byte if it is terminated. -/
def writeCounted (malloc : Malloc) (str : List UInt8) (terminated : Bool) : StreamM Unit := do
  writeDword malloc (UInt32.ofNat str.length)
  writeData malloc str
  if terminated then
    writeByte malloc 0

/-- The mode of `WriteString` for a counted string. -/
def countedMode (terminated : Bool) : StringInterpretMode := if terminated then .givenSizeNullTerm else .givenSize

/-- Both return, and leave the same bytes in front of the same cursor. -/
def SameAppend (x y : StreamM Unit) (s : ByteStreamBuffer) : Prop :=
  ∃ s₁ s₂ log room₁ room₂, x.run s = .ok () s₁ ∧ y.run s = .ok () s₂ ∧
    Holds s₁ log room₁ ∧ Holds s₂ log room₂

/-- What is in front of the cursor is one list of bytes. -/
theorem Holds.log_unique {log' room' : List UInt8} (h : Holds s log room) (h' : Holds s log' room') :
    log = log' := by
  have hlen : log.length = log'.length := by exact_mod_cast h.idx.symm.trans h'.idx
  exact (List.append_inj (h.backed.unique h'.backed) hlen).1

theorem Holds.inBuffer (h : Holds s log room) : InBuffer s := by
  have hsize := h.size
  refine ⟨h.owns, ?_, ?_⟩ <;> rw [h.idx] <;> omega

theorem sameAppend_iff {x y : StreamM Unit} {s₁ s₂ : ByteStreamBuffer} {bs₁ bs₂ room₁ room₂ : List UInt8}
    (hx : x.run s = .ok () s₁) (hy : y.run s = .ok () s₂) (h₁ : Holds s₁ (log ++ bs₁) room₁)
    (h₂ : Holds s₂ (log ++ bs₂) room₂) : SameAppend x y s ↔ bs₁ = bs₂ := by
  constructor
  · rintro ⟨t₁, t₂, log', _, _, hx', hy', h₁', h₂'⟩
    rw [hx] at hx'
    rw [hy] at hy'
    cases hx'
    cases hy'
    exact List.append_cancel_left ((h₁.log_unique h₁').trans (h₂.log_unique h₂').symm)
  · rintro rfl
    exact ⟨s₁, s₂, _, _, _, hx, hy, h₁, h₂⟩

theorem Holds.serves (h : Holds s log room) (hm : ∀ n < 2 ^ 33, (malloc n).isSome) {n : ℕ} (hn : n < 2 ^ 31)
    (hshort : room.length < n) : Serves malloc (log.length + room.length + n) := by
  have hcursor := s.idx.toInt_lt
  have hidx := h.idx
  exact ⟨by omega, hm _ (by omega)⟩

/-- An append of a fixed size, where there is memory. -/
theorem Holds.write (h : Holds s log room) (hm : ∀ n < 2 ^ 33, (malloc n).isSome) (hauto : s.autoBuffer = true)
    {it : Item} (hdata : it ≠ .data []) (hend : log.length + (it.encode s.bigEndian).length < 2 ^ 31) :
    ∃ s' room', (it.write malloc).run s = .ok () s' ∧ Holds s' (log ++ it.encode s.bigEndian) room' ∧
      s'.bigEndian = s.bigEndian ∧ s'.autoBuffer = true := by
  obtain ⟨s', hrun, h', hbig, hauto'⟩ := write_run h hdata (.inl hauto) hend (h.serves hm (by omega))
  exact ⟨s', _, hrun, h', hbig, hauto'.trans hauto⟩

/-- The length, the bytes and the zero byte, one after the other. -/
theorem writeCounted_run (hm : ∀ n < 2 ^ 33, (malloc n).isSome) (h : Holds s log room)
    (hauto : s.autoBuffer = true) (terminated : Bool)
    (hend : log.length + (str.length + 4 + terminated.toNat) < 2 ^ 31) :
    ∃ s' room', (writeCounted malloc str terminated).run s = .ok () s' ∧
      Holds s' (log ++ (encodeNat s.bigEndian 4 str.length ++ (str ++ List.replicate terminated.toNat 0)))
        room' := by
  have hcount : (UInt32.ofNat str.length).toNat = str.length := by
    rw [UInt32.toNat_ofNat', Nat.mod_eq_of_lt (by omega)]
  have hdword : Item.dword (UInt32.ofNat str.length) ≠ .data [] := by simp
  have hbyte : Item.byte 0 ≠ .data [] := by simp
  obtain ⟨s₁, room₁, hrun₁, h₁, hbig₁, hauto₁⟩ := h.write hm hauto hdword (by simp [Item.encode]; omega)
  simp only [Item.encode, hcount] at h₁
  have hlen₁ : (log ++ encodeNat s.bigEndian 4 str.length).length = log.length + 4 := by simp
  obtain ⟨s₂, hrun₂, h₂, -, hauto₂⟩ := writeData_run h₁ str (by omega) (.inl hauto₁) (by omega)
    (h₁.serves hm (by omega))
  rw [← List.append_assoc, ← List.append_assoc]
  unfold Item.write at hrun₁
  unfold writeCounted
  rw [run_bind_ok hrun₁, run_bind_ok hrun₂]
  cases terminated with
  | false => exact ⟨s₂, _, rfl, by simpa using h₂⟩
  | true =>
    have hlast : (log ++ encodeNat s.bigEndian 4 str.length ++ str).length +
        ((Item.byte 0).encode s₂.bigEndian).length < 2 ^ 31 := by
      simp [Item.encode] at hend ⊢
      omega
    obtain ⟨s₃, room₃, hrun₃, h₃, -, -⟩ := h₂.write hm (hauto₂.trans hauto₁) hbyte hlast
    exact ⟨s₃, room₃, hrun₃, h₃⟩

section Copying
variable {α : Type} {encode : List α → List UInt8} {span : UInt64 → UInt64} {w : ℕ}

/-- A string is put in front of the cursor exactly when there is room for it and the cursor can count it. -/
theorem copyChars_appends_iff (hc : Encoding encode span w) (h : Holds s log room) (nul : α) (str : List α)
    (mode : StringInterpretMode) (hpos : 0 < log.length + room.length)
    (hlt : log.length + writtenBytes w str.length mode < 2 ^ 32) (hstr : (str.length + 1) * w ≤ 2 ^ 63) :
    (∃ s' log' room', (copyChars encode span nul str mode s.idx true).run s = .ok () s' ∧
        Holds s' log' room') ↔
      writtenBytes w str.length mode ≤ room.length ∧ log.length + writtenBytes w str.length mode < 2 ^ 31 := by
  constructor
  · rintro ⟨s', log', room', hrun, h'⟩
    have hsize := h.size
    have hend := h'.idx
    have hcontained : Contained (log.length + writtenBytes w str.length mode)
        ((copyChars encode span nul str mode s.idx true).run s) := by
      rw [hrun]
      exact ⟨h'.owns, by rw [h'.idx, h'.size]; omega, fun _ => by omega⟩
    obtain ⟨m, hbuf⟩ : ∃ m, s.buffer = some m := by
      obtain ⟨-, ⟨hnil, -⟩ | ⟨beyond, hbuf⟩⟩ := h.backed
      · rw [← List.length_append, hnil] at hpos
        exact absurd hpos (lt_irrefl 0)
      · exact ⟨_, hbuf⟩
    have hfits := (copyChars_contained_iff hc h.inBuffer hbuf hstr h.idx mode true).mp hcontained
    obtain ⟨s₁, idx, hstored, -, hidx, hnat, -, -⟩ := copyChars_stores hc h nul str mode (by omega)
    cases hstored.symm.trans hrun
    refine ⟨by omega, ?_⟩
    by_contra hbig
    have hneg := toInt_narrow_neg (n := idx) (by omega) (by omega)
    rw [← hidx] at hneg
    omega
  · rintro ⟨hfits, hint⟩
    obtain ⟨s', hrun, h', -, -⟩ := copyChars_run hc h nul str mode hfits hint
    exact ⟨s', _, _, hrun, h'⟩

end Copying

theorem stringImage_counted (str : List UInt8) (terminated : Bool) :
    stringImage id 0 str (countedMode terminated) =
      toLE 4 str.length ++ (str ++ List.replicate terminated.toNat 0) := by
  cases terminated with
  | false => exact congrArg (toLE 4 str.length ++ ·) (List.append_nil str).symm
  | true => rfl

theorem writtenBytes_counted (n : ℕ) (terminated : Bool) :
    writtenBytes 1 n (countedMode terminated) = n + 4 + terminated.toNat := by
  cases terminated <;> simp [countedMode, writtenBytes] <;> omega

/-- The room that `WriteString` makes is enough for a counted string, and for its terminator unless all of the
room behind the cursor, or none, is taken by the string. -/
theorem reserve_counted_iff (room : List UInt8) (n : ℕ) (terminated : Bool) :
    n + 4 + terminated.toNat ≤ (reserve room (n + 4)).length ↔
      (terminated = true → room.length ≠ 0 ∧ room.length ≠ n + 4) := by
  have hle := le_length_reserve room (n + 4)
  cases terminated with
  | false => simpa using hle
  | true =>
    simp only [Bool.toNat_true, true_implies, reserve]
    split
    · rw [List.length_append, List.length_replicate]
      omega
    · omega

/-- The size of a string has the same bytes in the order of the machine and in that of the stream. -/
theorem toLE_eq_encodeNat_iff (bigEndian : Bool) {n : ℕ} (hn : n < 2 ^ 32) :
    toLE 4 n = encodeNat bigEndian 4 n ↔ (bigEndian = true → byteSwap 4 n = n) := by
  cases bigEndian with
  | false => simp [encodeNat]
  | true =>
    have hswap : byteSwap 4 n < 256 ^ 4 := byteSwap_lt 4 n
    simp only [encodeNat, if_true, true_implies, ← toLE_byteSwap]
    constructor
    · intro heq
      rw [← ofLE_toLE_of_lt hswap, ← heq, ofLE_toLE_of_lt hn]
    · intro heq
      rw [heq]

/-- The counted string fits the writer: an `int` counts its end, its terminator is not behind a buffer that ends
with the string or at the cursor, and its length is the same in both byte orders if that of the stream is not that
of the machine. -/
def CountFits (s : ByteStreamBuffer) (n : ℕ) (terminated : Bool) : Prop :=
  s.idx.toInt.toNat + (n + 4 + terminated.toNat) < 2 ^ 31 ∧
    (terminated = true → s.bufferSize.toNat ≠ s.idx.toInt.toNat ∧
      s.bufferSize.toNat ≠ s.idx.toInt.toNat + (n + 4)) ∧
    (s.bigEndian = true → byteSwap 4 n = n)

instance (s : ByteStreamBuffer) (n : ℕ) (terminated : Bool) : Decidable (CountFits s n terminated) :=
  inferInstanceAs (Decidable (_ ∧ (_ → _) ∧ (_ → _)))

theorem sameAppend_counted_iff (hm : ∀ n < 2 ^ 33, (malloc n).isSome) (h : Holds s log room)
    (hauto : s.autoBuffer = true) (hstr : str.length < 2 ^ 31 - 8) (terminated : Bool) :
    SameAppend (writeString malloc str (countedMode terminated)) (writeCounted malloc str terminated) s ↔
      CountFits s str.length terminated := by
  have hsize := h.size
  have hlog : s.idx.toInt.toNat = log.length := by rw [h.idx, Int.toNat_natCast]
  have hcursor := s.idx.toInt_lt
  have hwritten := writtenBytes_counted str.length terminated
  have hterm := terminated.toNat_le
  have hreserve := le_length_reserve room (str.length + 4)
  have hroom := reserve_counted_iff room str.length terminated
  have hfits : CountFits s str.length terminated ↔ log.length + (str.length + 4 + terminated.toNat) < 2 ^ 31 ∧
      str.length + 4 + terminated.toNat ≤ (reserve room (str.length + 4)).length ∧
      toLE 4 str.length = encodeNat s.bigEndian 4 str.length := by
    rw [CountFits, hroom, toLE_eq_encodeNat_iff s.bigEndian (by omega), hlog, hsize]
    exact and_congr_right fun _ => and_congr_left fun _ => imp_congr_right fun _ => by omega
  obtain ⟨s₁, hgrown, h₁, -, -⟩ := writeString_grown h str (countedMode terminated) (by omega)
    (h.serves hm (by omega))
  have happends := copyChars_appends_iff narrowChars h₁ 0 str (countedMode terminated) (by omega)
    (by omega) (by omega)
  rw [hfits]
  by_cases hend : log.length + (str.length + 4 + terminated.toNat) < 2 ^ 31 ∧
      str.length + 4 + terminated.toNat ≤ (reserve room (str.length + 4)).length
  · obtain ⟨s₂, hcopied, h₂, -, -⟩ := copyChars_run narrowChars h₁ 0 str (countedMode terminated)
      (by rw [hwritten]; exact hend.2) (by rw [hwritten]; exact hend.1)
    obtain ⟨s₃, room₃, hcounted, h₃⟩ := writeCounted_run hm h hauto terminated hend.1
    rw [stringImage_counted] at h₂
    rw [sameAppend_iff (hgrown.trans hcopied) hcounted h₂ h₃, List.append_left_inj]
    exact ⟨fun heq => ⟨hend.1, hend.2, heq⟩, fun h => h.2.2⟩
  · refine iff_of_false ?_ fun h => hend ⟨h.1, h.2.1⟩
    rintro ⟨t₁, -, log', room', -, hx, -, h', -⟩
    obtain ⟨hfit, hint⟩ := happends.mp ⟨t₁, log', room', hgrown.symm.trans hx, h'⟩
    rw [hwritten] at hfit hint
    exact hend ⟨hint, hfit⟩

/-- `WriteString` of a counted string appends what the writers of its size, its bytes and its terminator append
exactly when the string fits. -/
theorem counted_strings_iff (hm : ∀ n < 2 ^ 33, (malloc n).isSome) (h : InBuffer s) (hsound : Sound s)
    (hauto : s.autoBuffer = true) (hstr : str.length < 2 ^ 31 - 8) :
    (SameAppend (writeString malloc str .givenSize) (writeCounted malloc str false) s ↔
        CountFits s str.length false) ∧
      (SameAppend (writeString malloc str .givenSizeNullTerm) (writeCounted malloc str true) s ↔
        CountFits s str.length true) := by
  obtain ⟨log, room, hholds, -, -⟩ := h.holds hsound
  exact ⟨sameAppend_counted_iff hm hholds hauto hstr false, sameAppend_counted_iff hm hholds hauto hstr true⟩

theorem counted_strings_example :
    SameAppend (writeString plentiful [65] .givenSizeNullTerm) (writeCounted plentiful [65] true)
      (writerOf 16 true) :=
  (counted_strings_iff (fun _ _ => rfl) (writerOf_inBuffer (by norm_num) true) (by decide) rfl (by decide)).2.mpr
    (by decide)

/-- In a big-endian stream the length of one character is written as 1, 0, 0, 0. -/
theorem counted_string_little_endian :
    let s := { writerOf 16 true with bigEndian := true }
    InBuffer s ∧ Sound s ∧ s.autoBuffer = true ∧
      ¬SameAppend (writeString plentiful [65] .givenSize) (writeCounted plentiful [65] false) s := by
  have hin := writerOf_inBuffer (n := 16) (by norm_num) true
  have hwriter : InBuffer { writerOf 16 true with bigEndian := true } := ⟨hin.owns, hin.nonneg, hin.le⟩
  obtain ⟨log, room, hholds, -, -⟩ := hwriter.holds (by decide)
  refine ⟨hwriter, by decide, rfl, fun hsame => ?_⟩
  have hfits := (sameAppend_counted_iff (fun _ _ => rfl) hholds rfl (by decide) false).mp hsame
  exact absurd hfits (by decide)

end H1Z1Server
