import H1Z1Server.Stream.Consuming
import H1Z1Server.Stream.LengthPrefix

/-! Strings that end at their terminator: what `WriteString` appends for one, and how far
`ReadString` moves over it. -/
namespace H1Z1Server
open MachineInt MemoryBlock ByteOrder ByteStreamBuffer ByteStreamWriter ByteStreamReader

variable {malloc : Malloc} {s : ByteStreamBuffer} {log room done todo : List UInt8}

/-- A write that no memory is left for. -/
theorem writeSized_starved (h : Holds s log room) {f : String} {size : UInt64}
    {image : Bool → List UInt8} (hauto : s.autoBuffer = true) (hshort : room.length < size.toNat)
    (hfit : log.length + room.length + size.toNat < 2 ^ 64)
    (hm : malloc (log.length + room.length + size.toNat) = none) :
    (writeSized malloc f size image (-1)).run s = .error .undefinedBehaviour s := by
  unfold writeSized
  exact run_bind_error (autoBufferF_starved h false size (by rw [hauto]; rfl) hshort hfit hm)

theorem writeString_starved (h : Holds s log room) {str : List UInt8} (mode : StringInterpretMode)
    (hshort : room.length < str.length + 4)
    (hfit : log.length + room.length + (str.length + 4) < 2 ^ 64)
    (hm : malloc (log.length + room.length + (str.length + 4)) = none) :
    (writeString malloc str mode).run s = .error .undefinedBehaviour s := by
  have hneed := toNat_length_add_four (n := str.length) (by omega)
  unfold writeString
  exact run_bind_error (autoBufferF_starved h true (UInt64.ofNat str.length + 4) (by simp)
    (by rw [hneed]; exact hshort) (by rw [hneed]; exact hfit) (by rw [hneed]; exact hm))

section Scan
variable {m : Block} {last p : ℤ} {stride rounds n : ℕ}

theorem stride_succ (p : ℤ) (stride n : ℕ) :
    p + stride * (n + 1 : ℕ) = p + stride + stride * n := by
  push_cast
  ring

/-- A round of the scan ends it, or passes over a byte. -/
theorem scan_cases (h : scan m last stride (rounds + 1) p = some n) :
    (n = 0 ∧ (p ≤ last → m.peek p = some 0)) ∨
      ∃ k, n = k + 1 ∧ p ≤ last ∧ m.peek p ≠ some 0 ∧ scan m last stride rounds (p + stride) = some k := by
  rw [scan] at h
  cases hpeek : m.peek p with
  | none => simp [hpeek] at h
  | some b =>
    by_cases hgo : b ≠ 0 ∧ p ≤ last
    · simp only [hpeek, if_pos hgo, Option.map_eq_some_iff] at h
      obtain ⟨k, hrest, rfl⟩ := h
      exact .inr ⟨k, rfl, hgo.2, by simpa using hgo.1, hrest⟩
    · simp only [hpeek, if_neg hgo, Option.some.injEq] at h
      refine .inl ⟨h.symm, fun hle => ?_⟩
      have hb : b = 0 := not_not.mp fun hb => hgo ⟨hb, hle⟩
      rw [hb]

/-- The scan passes over bytes that are not zero, up to the offset it may look at. -/
theorem scan_passed (h : scan m last stride rounds p = some n) :
    ∀ j < n, p + stride * j ≤ last ∧ m.peek (p + stride * j) ≠ some 0 := by
  induction rounds generalizing p n with
  | zero =>
    cases h
    exact fun j hj => absurd hj (Nat.not_lt_zero j)
  | succ rounds ih =>
    obtain ⟨rfl, -⟩ | ⟨k, rfl, hle, hpeek, hrest⟩ := scan_cases h
    · exact fun j hj => absurd hj (Nat.not_lt_zero j)
    · intro j hj
      cases j with
      | zero => simpa using And.intro hle hpeek
      | succ j =>
        rw [stride_succ]
        exact ih hrest j (Nat.lt_of_succ_lt_succ hj)

/-- A scan that stops before its last offset has found a terminator. -/
theorem scan_stopped (h : scan m last stride rounds p = some n) (hn : n < rounds)
    (hle : p + stride * n ≤ last) : m.peek (p + stride * n) = some 0 := by
  induction rounds generalizing p n with
  | zero => exact absurd hn (Nat.not_lt_zero n)
  | succ rounds ih =>
    obtain ⟨rfl, hzero⟩ | ⟨k, rfl, -, -, hrest⟩ := scan_cases h
    · simpa using hzero (by simpa using hle)
    · rw [stride_succ] at hle ⊢
      exact ih hrest (Nat.lt_of_succ_lt_succ hn) hle

/-- The bytes that a scan passes over. -/
def Passes (m : Block) (last p : ℤ) (stride n : ℕ) : Prop :=
  ∀ j < n, p + stride * j ≤ last ∧ ∃ b ≠ 0, m.peek (p + stride * j) = some b

/-- What a scan counts behind the bytes it passes over. -/
theorem scan_add (hpass : Passes m last p stride n) :
    scan m last stride (n + rounds) p = (scan m last stride rounds (p + stride * n)).map (· + n) := by
  induction n generalizing p with
  | zero => simp
  | succ n ih =>
    obtain ⟨hle, b, hb, hpeek⟩ := hpass 0 (Nat.succ_pos n)
    simp only [Nat.cast_zero, mul_zero, add_zero] at hle hpeek
    have hrest : Passes m last (p + stride) stride n := by
      intro j hj
      rw [← stride_succ]
      exact hpass (j + 1) (Nat.succ_lt_succ hj)
    have hgo : b ≠ 0 ∧ p ≤ last := ⟨hb, hle⟩
    rw [Nat.succ_add, scan, hpeek, stride_succ]
    simp only [if_pos hgo, ih hrest, Option.map_map]
    rfl

/-- A terminator that the scan gets to stops it. -/
theorem scan_stops (hstop : m.peek (p + stride * n) = some 0) (hpass : Passes m last p stride n)
    (hrounds : n < rounds) : scan m last stride rounds p = some n := by
  obtain ⟨left, rfl⟩ := Nat.exists_eq_add_of_lt hrounds
  rw [Nat.add_assoc, scan_add hpass, scan, hstop]
  simp

/-- A scan that gets to memory that cannot be read fails. -/
theorem scan_fails (hstray : m.peek (p + stride * n) = none) (hpass : Passes m last p stride n)
    (hrounds : n < rounds) : scan m last stride rounds p = none := by
  obtain ⟨left, rfl⟩ := Nat.exists_eq_add_of_lt hrounds
  rw [Nat.add_assoc, scan_add hpass, scan, hstray]
  rfl

/-- Bytes of the block other than zero are passed over. -/
theorem passes_of_bytes {p : ℕ}
    (h : ∀ j < n, (p + stride * j : ℕ) ≤ last ∧ ∃ b ≠ 0, m.bytes[p + stride * j]? = some b) :
    Passes m last p stride n := by
  intro j hj
  obtain ⟨hle, b, hb, hat⟩ := h j hj
  have hpeek := Block.peek_of_lt (List.getElem?_eq_some_iff.mp hat).1
  rw [hat] at hpeek
  exact ⟨by exact_mod_cast hle, b, hb, by exact_mod_cast hpeek⟩

/-- The scan stops at the first zero byte, when it gets that far. -/
theorem scan_terminated (last : ℤ) {str rest : List UInt8} {p : ℕ}
    (hbytes : m.bytes.drop p = str ++ 0 :: rest) (hstr : 0 ∉ str)
    (hlast : (p : ℤ) + str.length ≤ last + 1) (hrounds : str.length < rounds) :
    scan m last 1 rounds p = some str.length := by
  have hat : ∀ j, m.bytes[p + 1 * j]? = (str ++ 0 :: rest)[j]? := by
    intro j
    rw [Nat.one_mul, ← List.getElem?_drop, hbytes]
  have hzero : m.bytes[p + 1 * str.length]? = some 0 := by
    rw [hat]
    simp
  have hpeek := Block.peek_of_lt (List.getElem?_eq_some_iff.mp hzero).1
  rw [hzero] at hpeek
  apply scan_stops (by exact_mod_cast hpeek) (passes_of_bytes _) hrounds
  intro j hj
  refine ⟨by omega, str[j], fun hb => hstr (hb ▸ List.getElem_mem hj), ?_⟩
  rw [hat, List.getElem?_append_left hj, List.getElem?_eq_getElem hj]

/-- Without a zero byte the scan leaves the block, where there may be nothing to read. -/
theorem scan_stray (last : ℤ) {p : ℕ} (hp : p ≤ m.size) (hbytes : 0 ∉ m.bytes.drop p)
    (hbeyond : m.beyond m.size = none) (hlast : (m.size : ℤ) ≤ last + 1)
    (hrounds : m.size - p < rounds) : scan m last 1 rounds p = none := by
  have hsize : m.size = m.bytes.length := rfl
  have hend : (p : ℤ) + (1 : ℕ) * (m.size - p : ℕ) = m.size := by omega
  apply scan_fails _ (passes_of_bytes _) hrounds
  · rw [hend, Block.peek_of_outside (.inr le_rfl), hbeyond]
  · intro j hj
    have hlt : p + 1 * j < m.bytes.length := by omega
    refine ⟨by omega, m.bytes[p + 1 * j], fun hb => hbytes ?_, List.getElem?_eq_getElem hlt⟩
    have hzero : (m.bytes.drop p)[1 * j]? = some 0 := by
      rw [List.getElem?_drop, List.getElem?_eq_getElem hlt, hb]
    exact List.mem_of_getElem? hzero

/-- The same at any stride, if nothing can be read around the block. -/
theorem scan_leaves {p : ℕ} (hbeyond : ∀ o, m.beyond o = none) (hstride : 0 < stride)
    (hnone : ∀ j, m.bytes[p + stride * j]? ≠ some 0) (hlast : (m.size : ℤ) ≤ last)
    (hrounds : m.size - p < rounds) : scan m last stride rounds p = none := by
  have hsize : m.size = m.bytes.length := rfl
  have hleft : ∃ n, m.size ≤ p + stride * n :=
    ⟨m.size, (Nat.le_mul_of_pos_left m.size hstride).trans (Nat.le_add_left _ p)⟩
  have hin : ∀ j < Nat.find hleft, p + stride * j < m.size := fun j hj =>
    not_le.mp (Nat.find_min hleft hj)
  have hcount : Nat.find hleft ≤ m.size - p := by
    by_contra hlong
    have hlt := hin (m.size - p) (not_le.mp hlong)
    have hmany := Nat.le_mul_of_pos_left (m.size - p) hstride
    omega
  apply scan_fails _ (passes_of_bytes _) (hcount.trans_lt hrounds)
  · rw [Block.peek_of_outside (.inr (by exact_mod_cast Nat.find_spec hleft)), hbeyond]
  · intro j hj
    have hlt : p + stride * j < m.bytes.length := hin j hj
    refine ⟨by omega, m.bytes[p + stride * j], fun hb => hnone j ?_, List.getElem?_eq_getElem hlt⟩
    rw [List.getElem?_eq_getElem hlt, hb]

theorem scanLength_eq (hbuf : s.buffer = some m) (startIndex : Int32)
    (wideString wideStringLE : Bool) :
    scanLength s startIndex wideString wideStringLE =
      (scan m (endOffset s.bufferSize) (if wideString then 2 else 1)
        ((endOffset s.bufferSize - (startIndex.toInt + (if wideStringLE then 1 else 0)) + 1).toNat + 1)
        (startIndex.toInt + (if wideStringLE then 1 else 0))).map UInt32.ofNat := by
  unfold scanLength
  dsimp only
  rw [hbuf, Option.map_eq_bind]
  exact Option.bind_some _ _

end Scan

theorem safetyCheck_idx {m : Block} (hbuf : s.buffer = some m) (hsize : s.bufferSize ≠ 0)
    (hlo : 0 ≤ s.idx.toInt) (f : String) : (safetyCheck f (-1)).run s = .ok (s.idx, true) s := by
  have hresolve : resolve s (-1) = s.idx := rfl
  have hcheck := safetyCheck_run hbuf hsize (show 0 ≤ (resolve s (-1)).toInt from hlo) f
  simpa [hresolve] using hcheck

/-- A string of one byte is skipped, whatever the rest of the read. -/
theorem counted_run {α : Type} (n : UInt32) (empty : α) (rest : StreamM α) :
    (if n == 1 then (do
        modify fun s => { s with idx := s.idx + 1 }
        return empty)
      else rest : StreamM α).run s =
      if n = 1 then .ok empty { s with idx := s.idx + 1 } else rest.run s := by
  by_cases hone : n = 1
  · subst hone
    rfl
  · simp only [beq_iff_eq, if_neg hone]

/-- `ReadString` at the cursor, once the length of the string is known. -/
theorem readString_untilNullTerm {m : Block} (hbuf : s.buffer = some m) (hsize : s.bufferSize ≠ 0)
    (hlo : 0 ≤ s.idx.toInt) {wideStringLE : Bool} {n : UInt32}
    (hscan : scanLength s s.idx false wideStringLE = some n) :
    (readString .untilNullTerm (-1) false wideStringLE).run s =
      if n = 1 then .ok [] { s with idx := s.idx + 1 }
      else (do
        let result ← load s.idx.toInt n.toNat
        setIdx (narrowDword (dword s.idx + n + terminator .untilNullTerm))
        return result : StreamM (List UInt8)).run s := by
  unfold readString
  rw [run_bind_ok (safetyCheck_idx hbuf hsize hlo _)]
  dsimp only
  rw [run_bind_ok (EStateM.run_get _), hscan]
  exact counted_run n [] _

/-- The same with wide characters, of which none can be converted. -/
theorem readString_wide_untilNullTerm {m : Block} (hbuf : s.buffer = some m) (hsize : s.bufferSize ≠ 0)
    (hlo : 0 ≤ s.idx.toInt) {wideStringLE : Bool} {n : UInt32}
    (hscan : scanLength s s.idx true wideStringLE = some n) :
    (readString .untilNullTerm (-1) true wideStringLE).run s =
      if n = 1 then .ok [] { s with idx := s.idx + 1 }
      else (do
        let _ ← load (s.idx.toInt + (if wideStringLE then 1 else 0)) (n / 2).toNat
        if (n / 2).toNat ≠ 0 then throw .undefinedBehaviour
        setIdx (narrowDword (dword s.idx + n + terminator .untilNullTerm))
        return [] : StreamM (List UInt8)).run s := by
  unfold readString
  rw [run_bind_ok (safetyCheck_idx hbuf hsize hlo _)]
  dsimp only
  rw [run_bind_ok (EStateM.run_get _), hscan]
  exact counted_run n [] _

theorem readWString_untilNullTerm {m : Block} (hbuf : s.buffer = some m) (hsize : s.bufferSize ≠ 0)
    (hlo : 0 ≤ s.idx.toInt) {wideStringLE : Bool} {n : UInt32}
    (hscan : scanLength s s.idx true wideStringLE = some n) :
    (readWString .untilNullTerm (-1) wideStringLE).run s =
      if n = 1 then .ok [] { s with idx := s.idx + 1 }
      else (do
        let bs ← load s.idx.toInt (2 * (n / 2).toNat)
        setIdx (narrowDword (dword s.idx + n + terminator .untilNullTerm))
        return (bs.toChunks 2).map fun c => UInt16.ofNat (ofLE c) : StreamM (List UInt16)).run s := by
  unfold readWString
  rw [run_bind_ok (safetyCheck_idx hbuf hsize hlo _)]
  dsimp only
  rw [run_bind_ok (EStateM.run_get _), hscan]
  exact counted_run n [] _

/-- A scan that runs into memory that cannot be read. -/
theorem readString_unscanned {m : Block} (hbuf : s.buffer = some m) (hsize : s.bufferSize ≠ 0)
    (hlo : 0 ≤ s.idx.toInt) {wideString wideStringLE : Bool}
    (hscan : scanLength s s.idx wideString wideStringLE = none) :
    (readString .untilNullTerm (-1) wideString wideStringLE).run s = .error .undefinedBehaviour s := by
  unfold readString
  rw [run_bind_ok (safetyCheck_idx hbuf hsize hlo _)]
  dsimp only
  rw [run_bind_ok (EStateM.run_get _), hscan]
  rfl

theorem readWString_unscanned {m : Block} (hbuf : s.buffer = some m) (hsize : s.bufferSize ≠ 0)
    (hlo : 0 ≤ s.idx.toInt) {wideStringLE : Bool} (hscan : scanLength s s.idx true wideStringLE = none) :
    (readWString .untilNullTerm (-1) wideStringLE).run s = .error .undefinedBehaviour s := by
  unfold readWString
  rw [run_bind_ok (safetyCheck_idx hbuf hsize hlo _)]
  dsimp only
  rw [run_bind_ok (EStateM.run_get _), hscan]
  rfl

theorem endOffset_of_lt {bufferSize : UInt64} (h : bufferSize.toNat < 2 ^ 63) :
    endOffset bufferSize = bufferSize.toNat :=
  bmod_of_small (Int.natCast_nonneg _) (by exact_mod_cast h)

theorem scanLength_terminated {m : Block} (hbuf : s.buffer = some m)
    (hfit : s.bufferSize.toNat < 2 ^ 31) {p : ℕ} (hidx : s.idx.toInt = p) {str rest : List UInt8}
    (hbytes : m.bytes.drop p = str ++ 0 :: rest) (hstr : 0 ∉ str)
    (hlast : p + str.length ≤ s.bufferSize.toNat) :
    scanLength s s.idx false false = some (UInt32.ofNat str.length) := by
  have hend : endOffset s.bufferSize = s.bufferSize.toNat := endOffset_of_lt (hfit.trans (by norm_num))
  have hcount : str.length < ((s.bufferSize.toNat : ℤ) - p + 1).toNat + 1 := by omega
  have hterm := scan_terminated s.bufferSize.toNat hbytes hstr (by omega) hcount
  simp [scanLength_eq hbuf, hend, hidx, hterm]

/-- What a reader makes of a terminated string: a string of one byte is lost. -/
def terminatedResult (str : List UInt8) : List UInt8 := if str.length = 1 then [] else str

/-- A terminated string moves the cursor to its terminator, not past it. -/
theorem readString_terminated {m : Block} (hbuf : s.buffer = some m) (hsize : s.bufferSize ≠ 0)
    (hfit : s.bufferSize.toNat < 2 ^ 31) {p : ℕ} (hidx : s.idx.toInt = p) {str rest : List UInt8}
    (hbytes : m.bytes.drop p = str ++ 0 :: rest) (hstr : 0 ∉ str)
    (hlast : p + str.length ≤ s.bufferSize.toNat) :
    ∃ idx : Int32, idx.toInt = p + str.length ∧
      (readString .untilNullTerm).run s = .ok (terminatedResult str) { s with idx } := by
  have hn : (UInt32.ofNat str.length).toNat = str.length := by
    rw [UInt32.toNat_ofNat', Nat.mod_eq_of_lt (by omega)]
  have hscan := scanLength_terminated hbuf hfit hidx hbytes hstr hlast
  have hread := readString_untilNullTerm hbuf hsize (by omega) hscan
  by_cases hone : str.length = 1
  · refine ⟨s.idx + 1, ?_, ?_⟩
    · have hadd : (s.idx + 1).toInt = s.idx.toInt + 1 := toInt_add_of_lt rfl (by decide) (by omega)
      rw [hadd, hidx, hone, Nat.cast_one]
    · rw [hread, if_pos (by rw [hone]; rfl), terminatedResult, if_pos hone]
  · have hne : UInt32.ofNat str.length ≠ 1 := by
      intro heq
      rw [heq] at hn
      exact hone hn.symm
    have hbytes' : p + str.length ≤ m.size := by
      have hlen := congrArg List.length hbytes
      rw [List.length_drop, List.length_append, List.length_cons] at hlen
      show p + str.length ≤ m.bytes.length
      omega
    have hload : (load s.idx.toInt (UInt32.ofNat str.length).toNat).run s = .ok str s := by
      rw [load_run, hbuf, Option.bind_some, hn, hidx, Block.load_of_inside hbytes', hbytes,
        List.take_left]
    refine ⟨narrowDword (dword s.idx + UInt32.ofNat str.length + terminator .untilNullTerm), ?_, ?_⟩
    · have hdword := toNat_dword_of_nonneg (i := s.idx) (by omega)
      have hsum : (dword s.idx + UInt32.ofNat str.length + terminator .untilNullTerm).toNat =
          p + str.length := by
        rw [UInt32.toNat_add, UInt32.toNat_add, hn, show (terminator .untilNullTerm).toNat = 0 from rfl]
        omega
      rw [toInt_narrowDword (by omega), hsum]
      push_cast
      rfl
    · rw [hread, if_neg hne, run_bind_ok hload, terminatedResult, if_neg hone]
      rfl

/-- A string that fills the buffer to its end, with nothing readable behind it. -/
theorem readString_stray {m : Block} (hbuf : s.buffer = some m) (hsize : s.bufferSize ≠ 0)
    (hfull : s.bufferSize.toNat = m.size) (hfit : m.size < 2 ^ 31) {p : ℕ} (hidx : s.idx.toInt = p)
    (hp : p ≤ m.size) (hbytes : 0 ∉ m.bytes.drop p) (hbeyond : m.beyond m.size = none) :
    (readString .untilNullTerm).run s = .error .undefinedBehaviour s := by
  have hend : endOffset s.bufferSize = m.size := by
    rw [endOffset_of_lt (by omega), hfull]
  have hscan : scanLength s s.idx false false = none := by
    have hcount : m.size - p < ((m.size : ℤ) - p + 1).toNat + 1 := by omega
    have hstray := scan_stray m.size hp hbytes hbeyond (by omega) hcount
    simp [scanLength_eq hbuf, hend, hidx, hstray]
  exact readString_unscanned hbuf hsize (by omega) hscan

/-- The same for a reader that has the terminator in front of it. -/
theorem Facing.readString_terminated (str rest : List UInt8) (h : Facing s done (str ++ 0 :: rest))
    (hstr : 0 ∉ str) (hfit : done.length + str.length + rest.length + 1 < 2 ^ 31) :
    ∃ s', (readString .untilNullTerm).run s = .ok (terminatedResult str) s' ∧
      Facing s' (done ++ str) (0 :: rest) ∧ s'.bigEndian = s.bigEndian := by
  obtain ⟨extra, beyond, hbuf⟩ := h.buffer
  have hsize := h.bufferSize
  rw [List.length_append, List.length_cons] at hsize
  have hne : s.bufferSize ≠ 0 := ne_zero_of_pos (by omega)
  have hbytes : (Block.mk (done ++ (str ++ 0 :: rest) ++ extra) beyond).bytes.drop done.length =
      str ++ 0 :: (rest ++ extra) := by
    rw [List.append_assoc, List.drop_left, List.append_assoc]
    rfl
  obtain ⟨idx, hidx, hrun⟩ := H1Z1Server.readString_terminated hbuf hne (by omega) h.idx hbytes hstr
    (by omega)
  exact ⟨_, hrun, h.advance hidx, rfl⟩

end H1Z1Server
