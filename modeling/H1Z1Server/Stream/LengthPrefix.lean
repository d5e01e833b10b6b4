import H1Z1Server.Stream.Operations

/-! The size prefix of a string on the wire: which prefixes `ReadString` rejects, and where
the string that it then copies lies. -/
namespace H1Z1Server
open MachineInt MemoryBlock ByteOrder ByteStreamBuffer ByteStreamReader

variable {s : ByteStreamBuffer} {m : Block}

/-- The index that a call works at. -/
def resolve (s : ByteStreamBuffer) (startIndex : Int32) : Int32 :=
  if startIndex = -1 then s.idx else startIndex

/-- The number that four bytes of a buffer stand for. -/
def dwordAt (bigEndian : Bool) (bs : List UInt8) (p : ℕ) : ℕ :=
  decodeNat bigEndian ((bs.drop p).take 4)

theorem dwordAt_lt (bigEndian : Bool) (bs : List UInt8) (p : ℕ) : dwordAt bigEndian bs p < 2 ^ 32 := by
  have hlt := decodeNat_lt bigEndian ((bs.drop p).take 4)
  have hle : ((bs.drop p).take 4).length ≤ 4 := List.length_take_le _ _
  calc dwordAt bigEndian bs p < 256 ^ ((bs.drop p).take 4).length := hlt
    _ ≤ 256 ^ 4 := Nat.pow_le_pow_right (by norm_num) hle

theorem null_or_buffer (s : ByteStreamBuffer) :
    (s.buffer = none ∨ s.bufferSize = 0) ∨ ∃ m, s.buffer = some m ∧ s.bufferSize ≠ 0 := by
  cases s.buffer with
  | none => exact .inl (.inl rfl)
  | some m =>
    by_cases hzero : s.bufferSize = 0
    · exact .inl (.inr hzero)
    · exact .inr ⟨m, rfl, hzero⟩

theorem safetyCheck_null (hnull : s.buffer = none ∨ s.bufferSize = 0) (f : String) (startIndex : Int32) :
    (safetyCheck f startIndex).run s =
      .error (.exception (f ++ " got null buffer or null size.")) s := by
  rcases hnull with hnull | hnull
  · simp [safetyCheck, hnull]
  · simp [safetyCheck, hnull]

/-- `SAFETY_CHECK` with a buffer and an index that is not negative. -/
theorem safetyCheck_run (hbuf : s.buffer = some m) (hsize : s.bufferSize ≠ 0)
    {startIndex : Int32} (hlo : 0 ≤ (resolve s startIndex).toInt) (f : String) :
    (safetyCheck f startIndex).run s =
      .ok (resolve s startIndex, decide (startIndex = -1)) s := by
  by_cases hcursor : startIndex = -1
  · have hidx : s.idx ≠ -1 := by
      intro hneg
      rw [resolve, if_pos hcursor, hneg] at hlo
      exact absurd hlo (by decide)
    simp [safetyCheck, resolve, hsize, hbuf, hidx, hcursor]
  · simp [safetyCheck, resolve, hsize, hbuf, hcursor]

/-- `ReadDword` at an explicit index that the buffer has four bytes from. -/
theorem readDword_at (hbuf : s.buffer = some m) (hsize : s.bufferSize.toNat ≤ m.size) {p : Int32}
    (hlo : 0 ≤ p.toInt) (hin : p.toInt.toNat + 4 ≤ s.bufferSize.toNat) :
    (readDword p).run s =
      .ok (UInt32.ofNat (dwordAt s.bigEndian m.bytes p.toInt.toNat)) s := by
  have hne : s.bufferSize ≠ 0 := ne_zero_of_pos (by omega)
  have hexplicit : p ≠ -1 := ne_neg_one_of_nonneg hlo
  have hresolve : resolve s p = p := if_neg hexplicit
  have hcheck := safetyCheck_run hbuf hne (show 0 ≤ (resolve s p).toInt by rwa [hresolve])
    "ByteStreamReader::ReadDword"
  have hfits : ¬ sizeT p + 4 > s.bufferSize := by
    rw [gt_iff_lt, UInt64.lt_iff_toNat_lt, toNat_sizeT_add hlo 4 (by decide)]
    exact not_lt.mpr hin
  have hload : (load p.toInt 4).run s = .ok ((m.bytes.drop p.toInt.toNat).take 4) s := by
    have hinside := Block.load_of_inside (m := m) (k := p.toInt.toNat) (n := 4) (by omega)
    rw [Int.toNat_of_nonneg hlo] at hinside
    simp [load, hbuf, hinside]
  have hlen : ((m.bytes.drop p.toInt.toNat).take 4).length = 4 := by
    have hm : s.bufferSize.toNat ≤ m.bytes.length := hsize
    rw [List.length_take, List.length_drop]
    omega
  unfold readDword readSized
  rw [run_bind_ok hcheck, run_bind_ok (EStateM.run_get _), hresolve, if_neg hfits]
  show (load p.toInt 4 >>= _).run s = _
  rw [run_bind_ok hload]
  simp only [autoEndian4_ofLE s.bigEndian hlen, decide_eq_true_eq, if_neg hexplicit]
  rfl

/-- The checks of a size prefix: the sum of index and size is compared modulo 2^32. -/
theorem readPrefix_run (hbuf : s.buffer = some m) (hsize : s.bufferSize.toNat ≤ m.size) (f : String)
    {p : Int32} (hlo : 0 ≤ p.toInt) :
    (readPrefix f p).run s =
      if s.bufferSize.toNat < p.toInt.toNat + 4 then .error (tooMany f) s
      else if 2 ^ 31 ≤ p.toInt.toNat + 4 then .error .undefinedBehaviour s
      else if s.bufferSize.toNat <
          (p.toInt.toNat + 4 + dwordAt s.bigEndian m.bytes p.toInt.toNat) % 2 ^ 32 then
        .error (tooMany f) s
      else .ok (p + 4, UInt32.ofNat (dwordAt s.bigEndian m.bytes p.toInt.toNat)) s := by
  have hroom : sizeT p + 4 > s.bufferSize ↔ s.bufferSize.toNat < p.toInt.toNat + 4 := by
    rw [gt_iff_lt, UInt64.lt_iff_toNat_lt, toNat_sizeT_add hlo 4 (by decide)]
    rfl
  unfold readPrefix
  rw [run_bind_ok (EStateM.run_get _)]
  by_cases hshort : s.bufferSize.toNat < p.toInt.toNat + 4
  · rw [if_pos (hroom.mpr hshort), if_pos hshort]
    rfl
  rw [if_neg (mt hroom.mp hshort), if_neg hshort]
  show (readDword p >>= _).run s = _
  rw [run_bind_ok (readDword_at hbuf hsize hlo (not_lt.mp hshort))]
  by_cases hover : 2 ^ 31 ≤ p.toInt.toNat + 4
  · rw [if_pos (by omega), if_pos hover]
    rfl
  rw [if_neg (by omega), if_neg hover]
  have hadd : (p + 4).toInt = p.toInt + 4 := toInt_add_of_lt rfl (by decide) (by omega)
  have hdword := toNat_dword_of_nonneg (i := p + 4) (by omega)
  have hpref := dwordAt_lt s.bigEndian m.bytes p.toInt.toNat
  have hwrap : widen (dword (p + 4) + UInt32.ofNat (dwordAt s.bigEndian m.bytes p.toInt.toNat)) >
        s.bufferSize ↔
      s.bufferSize.toNat <
        (p.toInt.toNat + 4 + dwordAt s.bigEndian m.bytes p.toInt.toNat) % 2 ^ 32 := by
    rw [gt_iff_lt, UInt64.lt_iff_toNat_lt, toNat_widen, UInt32.toNat_add, UInt32.toNat_ofNat']
    have hstart : (dword (p + 4)).toNat = p.toInt.toNat + 4 := by omega
    rw [hstart, Nat.mod_eq_of_lt hpref]
  by_cases hmany : s.bufferSize.toNat <
      (p.toInt.toNat + 4 + dwordAt s.bigEndian m.bytes p.toInt.toNat) % 2 ^ 32
  · rw [if_pos hmany]
    show (if _ then _ else _ : StreamM _).run s = _
    rw [if_pos (hwrap.mpr hmany)]
    rfl
  · rw [if_neg hmany]
    show (if _ then _ else _ : StreamM _).run s = _
    rw [if_neg (mt hwrap.mp hmany)]
    rfl

/-- The bytes that the cursor moves past behind a string. -/
def terminator (mode : StringInterpretMode) : UInt32 := if mode == .givenSizeNullTerm then 1 else 0

/-- In the modes with a size prefix, `ReadString` checks the prefix and copies as many bytes
as it says. -/
theorem readString_sized (hbuf : s.buffer = some m) (hsize : s.bufferSize ≠ 0)
    {mode : StringInterpretMode} (hmode : mode ≠ .untilNullTerm) {startIndex : Int32}
    (hlo : 0 ≤ (resolve s startIndex).toInt) :
    (readString mode startIndex).run s =
      (do
        let v ← readPrefix "ByteStreamReader::ReadString" (resolve s startIndex)
        let result ← load v.1.toInt v.2.toNat
        if decide (startIndex = -1) then
          setIdx (narrowDword (dword v.1 + v.2 + terminator mode))
        return result : StreamM (List UInt8)).run s := by
  unfold readString
  rw [run_bind_ok (safetyCheck_run hbuf hsize hlo "ByteStreamReader::ReadString")]
  cases mode with
  | untilNullTerm => exact absurd rfl hmode
  | givenSize => rfl
  | givenSizeNullTerm => rfl

/-- `ReadString` of a prefix that passes its checks and a string that can be read. -/
theorem readString_sized_run (hbuf : s.buffer = some m) (hsize : s.bufferSize ≠ 0)
    {mode : StringInterpretMode} (hmode : mode ≠ .untilNullTerm) {startIndex : Int32}
    (hlo : 0 ≤ (resolve s startIndex).toInt) {start : Int32} {str_size : UInt32} {result : List UInt8}
    (hchecked : (readPrefix "ByteStreamReader::ReadString" (resolve s startIndex)).run s =
      .ok (start, str_size) s) (hload : (load start.toInt str_size.toNat).run s = .ok result s) :
    (readString mode startIndex).run s = .ok result
      (if startIndex = -1 then
        { s with idx := narrowDword (dword start + str_size + terminator mode) } else s) := by
  rw [readString_sized hbuf hsize hmode hlo, run_bind_ok hchecked, run_bind_ok hload]
  by_cases hcursor : startIndex = -1
  · simp only [hcursor, decide_true, if_true]
    rfl
  · simp only [hcursor, decide_false, if_false, Bool.false_eq_true]
    rfl

theorem readString_sized_throw (hbuf : s.buffer = some m) (hsize : s.bufferSize ≠ 0)
    {mode : StringInterpretMode} (hmode : mode ≠ .untilNullTerm) {startIndex : Int32}
    (hlo : 0 ≤ (resolve s startIndex).toInt) {e : Abort}
    (hchecked : (readPrefix "ByteStreamReader::ReadString" (resolve s startIndex)).run s = .error e s) :
    (readString mode startIndex).run s = .error e s := by
  rw [readString_sized hbuf hsize hmode hlo, run_bind_error hchecked]

/-- A string that is returned is as long as its prefix says. -/
theorem length_of_readString (hbuf : s.buffer = some m) (hsize : s.bufferSize.toNat ≤ m.size)
    (hne : s.bufferSize ≠ 0) {mode : StringInterpretMode} (hmode : mode ≠ .untilNullTerm) {startIndex : Int32}
    (hlo : 0 ≤ (resolve s startIndex).toInt) {result : List UInt8} {s' : ByteStreamBuffer}
    (hrun : (readString mode startIndex).run s = .ok result s') :
    result.length = dwordAt s.bigEndian m.bytes (resolve s startIndex).toInt.toNat := by
  have hcount := dwordAt_lt s.bigEndian m.bytes (resolve s startIndex).toInt.toNat
  rw [readString_sized hbuf hne hmode hlo] at hrun
  obtain ⟨v, s₁, hprefix, hrun⟩ := exists_of_run_bind hrun
  rw [readPrefix_run hbuf hsize _ hlo] at hprefix
  split_ifs at hprefix
  cases hprefix
  obtain ⟨bs, s₂, hload, hrun⟩ := exists_of_run_bind hrun
  have hlen : bs.length = dwordAt s.bigEndian m.bytes (resolve s startIndex).toInt.toNat := by
    rw [length_of_load_run hload, UInt32.toNat_ofNat', Nat.mod_eq_of_lt hcount]
  cases hcursor : decide (startIndex = -1) with
  | false =>
    rw [hcursor] at hrun
    cases hrun
    exact hlen
  | true =>
    rw [hcursor] at hrun
    cases hrun
    exact hlen

/-- What a size prefix must not do: the call throws, or it returns exactly the bytes that the
prefix counts, every one of them a byte of the buffer. -/
def StaysWithin (s : ByteStreamBuffer) (bs : List UInt8) (mode : StringInterpretMode)
    (startIndex : Int32) : Prop :=
  let p := (resolve s startIndex).toInt.toNat
  match (readString mode startIndex).run s with
  | .ok result _ =>
    p + 4 + dwordAt s.bigEndian bs p ≤ bs.length ∧
      result = (bs.drop (p + 4)).take (dwordAt s.bigEndian bs p)
  | .error (.exception _) _ => True
  | .error _ _ => False

/-- The prefixes that `ReadString` is safe on: one that is not there, or one whose string
either ends in the buffer or ends below 2^32, from an index below 2^31. -/
def PrefixFits (bigEndian : Bool) (bs : List UInt8) (p : ℕ) : Prop :=
  p + 4 ≤ bs.length → p + 4 < 2 ^ 31 ∧
    (p + 4 + dwordAt bigEndian bs p < 2 ^ 32 ∨ p + 4 + dwordAt bigEndian bs p ≤ bs.length)

instance (bigEndian : Bool) (bs : List UInt8) (p : ℕ) : Decidable (PrefixFits bigEndian bs p) :=
  inferInstanceAs (Decidable (_ → _))

theorem staysWithin_of_exception {bs : List UInt8} {mode : StringInterpretMode} {startIndex : Int32}
    {what : String} {s' : ByteStreamBuffer}
    (h : (readString mode startIndex).run s = .error (.exception what) s') :
    StaysWithin s bs mode startIndex := by
  unfold StaysWithin
  rw [h]
  trivial

theorem not_staysWithin_of_undefined {bs : List UInt8} {mode : StringInterpretMode}
    {startIndex : Int32} {s' : ByteStreamBuffer}
    (h : (readString mode startIndex).run s = .error .undefinedBehaviour s') :
    ¬ StaysWithin s bs mode startIndex := by
  unfold StaysWithin
  rw [h]
  exact id

/-- A prefix that the check lets pass. -/
theorem readPrefix_passes (hbuf : s.buffer = some m) (hsize : m.size = s.bufferSize.toNat) (f : String)
    {start : Int32} (hlo : 0 ≤ start.toInt) (hin : start.toInt.toNat + 4 ≤ m.bytes.length)
    (hsmall : start.toInt.toNat + 4 < 2 ^ 31)
    (hpass : (start.toInt.toNat + 4 + dwordAt s.bigEndian m.bytes start.toInt.toNat) % 2 ^ 32 ≤
      m.bytes.length) :
    (readPrefix f start).run s =
      .ok (start + 4, UInt32.ofNat (dwordAt s.bigEndian m.bytes start.toInt.toNat)) s := by
  have hlen : m.bytes.length = s.bufferSize.toNat := hsize
  rw [readPrefix_run hbuf hsize.ge f hlo, if_neg (by omega), if_neg (by omega), if_neg (by omega)]

/-- A prefix whose sum with the index wraps around passes the check, and the copy then leaves
the buffer. -/
theorem not_staysWithin_of_wrap (hbuf : s.buffer = some m) (hsize : m.size = s.bufferSize.toNat)
    {mode : StringInterpretMode} (hmode : mode ≠ .untilNullTerm) {startIndex : Int32}
    (hlo : 0 ≤ (resolve s startIndex).toInt)
    (hin : (resolve s startIndex).toInt.toNat + 4 ≤ m.bytes.length)
    (hsmall : (resolve s startIndex).toInt.toNat + 4 < 2 ^ 31)
    (hwrap : 2 ^ 32 ≤ (resolve s startIndex).toInt.toNat + 4 +
      dwordAt s.bigEndian m.bytes (resolve s startIndex).toInt.toNat)
    (hout : m.bytes.length < (resolve s startIndex).toInt.toNat + 4 +
      dwordAt s.bigEndian m.bytes (resolve s startIndex).toInt.toNat) :
    ¬ StaysWithin s m.bytes mode startIndex := by
  set p := (resolve s startIndex).toInt.toNat with hp
  have hlen : m.bytes.length = s.bufferSize.toNat := hsize
  have hne : s.bufferSize ≠ 0 := ne_zero_of_pos (by omega)
  have hpref := dwordAt_lt s.bigEndian m.bytes p
  have hchecked := readPrefix_passes hbuf hsize "ByteStreamReader::ReadString" hlo hin hsmall
    (by rw [← hp]; omega)
  have hload := load_run s (resolve s startIndex + 4).toInt
    (UInt32.ofNat (dwordAt s.bigEndian m.bytes p)).toNat
  cases hcopy : s.buffer.bind (·.load (resolve s startIndex + 4).toInt
      (UInt32.ofNat (dwordAt s.bigEndian m.bytes p)).toNat) with
  | none =>
    rw [hcopy] at hload
    apply not_staysWithin_of_undefined
    rw [readString_sized hbuf hne hmode hlo, run_bind_ok hchecked, run_bind_error hload]
  | some result =>
    rw [hcopy] at hload
    unfold StaysWithin
    rw [readString_sized_run hbuf hne hmode hlo hchecked hload]
    intro hwithin
    exact absurd hwithin.1 (not_le.mpr hout)

theorem staysWithin_of_throw (hbuf : s.buffer = some m) {mode : StringInterpretMode}
    (hmode : mode ≠ .untilNullTerm) {startIndex : Int32}
    (hlo : 0 ≤ (resolve s startIndex).toInt)
    (hchecked : (readPrefix "ByteStreamReader::ReadString" (resolve s startIndex)).run s =
      .error (tooMany "ByteStreamReader::ReadString") s) :
    StaysWithin s m.bytes mode startIndex := by
  by_cases hne : s.bufferSize = 0
  · apply staysWithin_of_exception
    unfold readString
    exact run_bind_error (safetyCheck_null (.inr hne) _ _)
  · apply staysWithin_of_exception
    exact readString_sized_throw hbuf hne hmode hlo hchecked

/-- A string that ends in the buffer is copied out of it. -/
theorem staysWithin_of_inside (hbuf : s.buffer = some m) (hsize : m.size = s.bufferSize.toNat)
    {mode : StringInterpretMode} (hmode : mode ≠ .untilNullTerm) {startIndex : Int32}
    (hlo : 0 ≤ (resolve s startIndex).toInt)
    (hsmall : (resolve s startIndex).toInt.toNat + 4 < 2 ^ 31)
    (hin : (resolve s startIndex).toInt.toNat + 4 +
      dwordAt s.bigEndian m.bytes (resolve s startIndex).toInt.toNat ≤ m.bytes.length) :
    StaysWithin s m.bytes mode startIndex := by
  set p := (resolve s startIndex).toInt.toNat with hp
  have hlen : m.bytes.length = s.bufferSize.toNat := hsize
  have hne : s.bufferSize ≠ 0 := ne_zero_of_pos (by omega)
  have hpref := dwordAt_lt s.bigEndian m.bytes p
  have hchecked := readPrefix_passes hbuf hsize "ByteStreamReader::ReadString" hlo (by omega) hsmall
    ((Nat.mod_le _ _).trans hin)
  have hadd : (resolve s startIndex + 4).toInt = (resolve s startIndex).toInt + 4 :=
    toInt_add_of_lt rfl (by decide) (by omega)
  have hstart : (resolve s startIndex + 4).toInt = ((p + 4 : ℕ) : ℤ) := by omega
  have hload := load_run s (resolve s startIndex + 4).toInt
    (UInt32.ofNat (dwordAt s.bigEndian m.bytes p)).toNat
  rw [hbuf, Option.bind_some, hstart, UInt32.toNat_ofNat', Nat.mod_eq_of_lt hpref,
    Block.load_of_inside hin] at hload
  unfold StaysWithin
  rw [readString_sized_run hbuf hne hmode hlo hchecked
    (by rw [hstart, UInt32.toNat_ofNat', Nat.mod_eq_of_lt hpref]; exact hload)]
  exact ⟨hin, rfl⟩

theorem staysWithin_iff (hbuf : s.buffer = some m) (hsize : m.size = s.bufferSize.toNat)
    {mode : StringInterpretMode} (hmode : mode ≠ .untilNullTerm) {startIndex : Int32}
    (hlo : 0 ≤ (resolve s startIndex).toInt) :
    StaysWithin s m.bytes mode startIndex ↔
      PrefixFits s.bigEndian m.bytes (resolve s startIndex).toInt.toNat := by
  set p := (resolve s startIndex).toInt.toNat with hp
  have hlen : m.bytes.length = s.bufferSize.toNat := hsize
  have hrun := readPrefix_run hbuf hsize.ge "ByteStreamReader::ReadString" hlo
  rw [← hp, ← hlen] at hrun
  by_cases hshort : m.bytes.length < p + 4
  · rw [if_pos hshort] at hrun
    refine ⟨fun _ hin => absurd hin (by omega), fun _ => ?_⟩
    exact staysWithin_of_throw hbuf hmode hlo hrun
  rw [if_neg hshort] at hrun
  have hne : s.bufferSize ≠ 0 := ne_zero_of_pos (by omega)
  by_cases hover : 2 ^ 31 ≤ p + 4
  · rw [if_pos hover] at hrun
    refine ⟨fun hwithin => ?_, fun hfits => absurd (hfits (by omega)).1 (by omega)⟩
    have hthrow := readString_sized_throw hbuf hne hmode hlo hrun
    exact absurd hwithin (not_staysWithin_of_undefined hthrow)
  rw [if_neg hover] at hrun
  by_cases hin : p + 4 + dwordAt s.bigEndian m.bytes p ≤ m.bytes.length
  · refine ⟨fun _ _ => ⟨by omega, Or.inr hin⟩, fun _ => ?_⟩
    exact staysWithin_of_inside hbuf hsize hmode hlo (by omega) hin
  by_cases hwrap : 2 ^ 32 ≤ p + 4 + dwordAt s.bigEndian m.bytes p
  · have hstray := not_staysWithin_of_wrap hbuf hsize hmode hlo (by omega) (by omega) hwrap
      (not_le.mp hin)
    refine ⟨fun hwithin => absurd hwithin hstray, fun hfits => ?_⟩
    have hcases := (hfits (by omega)).2
    omega
  · rw [Nat.mod_eq_of_lt (by omega), if_pos (by omega)] at hrun
    refine ⟨fun _ _ => ⟨by omega, Or.inl (by omega)⟩, fun _ => ?_⟩
    exact staysWithin_of_throw hbuf hmode hlo hrun

/-- `ReadString` stays within its buffer exactly when the prefix fits. -/
theorem readString_staysWithin_iff {bs : List UInt8} (hback : Backed s bs)
    {mode : StringInterpretMode} (hmode : mode ≠ .untilNullTerm) {startIndex : Int32}
    (hlo : 0 ≤ (resolve s startIndex).toInt) :
    StaysWithin s bs mode startIndex ↔
      PrefixFits s.bigEndian bs (resolve s startIndex).toInt.toNat := by
  obtain ⟨hsize, ⟨rfl, hnull⟩ | ⟨beyond, hbuf⟩⟩ := hback
  · have hzero : s.bufferSize = 0 := UInt64.toNat_inj.mp hsize
    refine ⟨fun _ hshort => ?_, fun _ => ?_⟩
    · simp at hshort
    · apply staysWithin_of_exception
      unfold readString
      exact run_bind_error (safetyCheck_null (.inr hzero) _ _)
  · exact staysWithin_iff hbuf hsize.symm hmode hlo

/-- Eight bytes whose prefix is the largest one, with nothing mapped around them. -/
def forgedPrefix : List UInt8 := [0xFF, 0xFF, 0xFF, 0xFF, 1, 2, 3, 4]

def forgedReader : ByteStreamBuffer := newReader (some ⟨forgedPrefix, fun _ => none⟩) 8 false

theorem readString_staysWithin_example :
    StaysWithin (newReader (some ⟨[2, 0, 0, 0, 7, 8], fun _ => none⟩) 6 false) [2, 0, 0, 0, 7, 8]
      .givenSize (-1) :=
  (readString_staysWithin_iff ⟨rfl, Or.inr ⟨_, rfl⟩⟩ (by decide) (by decide)).mpr
    (by decide)

theorem forgedPrefix_leaves_buffer :
    Backed forgedReader forgedPrefix ∧ ¬ StaysWithin forgedReader forgedPrefix .givenSize (-1) := by
  refine ⟨⟨rfl, Or.inr ⟨_, rfl⟩⟩, ?_⟩
  exact not_staysWithin_of_wrap (m := ⟨forgedPrefix, fun _ => none⟩) rfl rfl (by decide) (by decide)
    (by decide) (by decide) (by decide) (by decide)

end H1Z1Server
