import H1Z1Server.Library.Outcome
import H1Z1Server.Stream.Scanning
import H1Z1Server.Stream.AutoBuffering

/-! Runs of a reader: the reads at the cursor in any order, and which of them keep the cursor in the
buffer. -/
namespace H1Z1Server
open MachineInt MemoryBlock ByteOrder ByteStreamBuffer ByteStreamReader Outcome

variable {s s' : ByteStreamBuffer} {m : Block}

/-- The reads that are given no index. -/
inductive ReaderOp where
  | byte
  | word
  | dword
  | qword
  | data (dataSize : UInt64)
  | string (mode : StringInterpretMode) (wideString wideStringLE : Bool)
  | wstring (mode : StringInterpretMode) (wideStringLE : Bool)

/-- The number in front of a string at the cursor. -/
def prefixAt (s : ByteStreamBuffer) : ℕ :=
  match s.buffer with
  | none => 0
  | some m => dwordAt s.bigEndian m.bytes s.idx.toInt.toNat

/-- The end of that string, as the `DWORD` that the length check compares. -/
def stringEnd (s : ByteStreamBuffer) : ℕ := (s.idx.toInt.toNat + 4 + prefixAt s) % 2 ^ 32

/-- A string that passes its length check ends neither before the cursor nor, with the `t` bytes of its
terminator, behind the buffer. -/
def PrefixTame (s : ByteStreamBuffer) (t : ℕ) : Prop :=
  s.idx.toInt.toNat + 4 ≤ s.bufferSize.toNat → stringEnd s ≤ s.bufferSize.toNat →
    s.idx.toInt.toNat ≤ stringEnd s + t ∧ stringEnd s + t ≤ s.bufferSize.toNat

def byteAt (s : ByteStreamBuffer) (o : ℤ) : Option UInt8 := s.buffer.bind (·.peek o)

/-- The scan does not count the byte behind the buffer. -/
def ScanTame (s : ByteStreamBuffer) (wideString wideStringLE : Bool) : Prop :=
  wideStringLE = true ∨
    if wideString then s.idx.toInt < s.bufferSize.toNat ∨ byteAt s s.bufferSize.toNat = some 0
    else ∃ o, s.idx.toInt ≤ o ∧ o ≤ s.bufferSize.toNat ∧ byteAt s o = some 0

namespace ReaderOp

def run : ReaderOp → StreamM Unit
  | byte => discard readByte
  | word => discard readWord
  | dword => discard readDword
  | qword => discard readQword
  | data dataSize => discard (readData dataSize)
  | string mode wideString wideStringLE => discard (readString mode (-1) wideString wideStringLE)
  | wstring mode wideStringLE => discard (readWString mode (-1) wideStringLE)

/-- The calls that keep the cursor in the buffer. -/
def Tame (s : ByteStreamBuffer) : ReaderOp → Prop
  | data dataSize => s.idx.toInt.toNat + dataSize.toNat < 2 ^ 64
  | string .givenSize _ _ | wstring .givenSize _ => PrefixTame s 0
  | string .givenSizeNullTerm wideString _ => PrefixTame s (if wideString then 2 else 1)
  | wstring .givenSizeNullTerm _ => PrefixTame s 1
  | string .untilNullTerm wideString wideStringLE => ScanTame s wideString wideStringLE
  | wstring .untilNullTerm wideStringLE => ScanTame s true wideStringLE
  | _ => True

end ReaderOp

/-- A reader with its cursor in its buffer. -/
structure Within (s : ByteStreamBuffer) : Prop where
  small : s.bufferSize.toNat < 2 ^ 31
  memory : ∀ m, s.buffer = some m → s.bufferSize.toNat ≤ m.size
  nonneg : 0 ≤ s.idx.toInt
  le : s.idx.toInt ≤ s.bufferSize.toNat

/-- The cursor is in the buffer, and has not moved back. -/
def Stays (s s' : ByteStreamBuffer) : Prop :=
  (0 ≤ s'.idx.toInt ∧ s'.idx.toInt ≤ s'.bufferSize.toNat) ∧ s.idx.toInt ≤ s'.idx.toInt

/-- A read moves nothing but the cursor, and keeps it in the buffer exactly if `T` holds. -/
structure Moves (s : ByteStreamBuffer) (T : Prop) (s' : ByteStreamBuffer) : Prop where
  eq : ∃ idx, s' = { s with idx }
  stays : Stays s s' ↔ T

theorem Within.moves (h : Within s) {T : Prop} (hmoves : Moves s T s') (hT : T) : Within s' := by
  obtain ⟨⟨idx, rfl⟩, hstays⟩ := hmoves
  obtain ⟨⟨hlo, hle⟩, -⟩ := hstays.mpr hT
  exact ⟨h.small, h.memory, hlo, hle⟩

/-- A read whose size has been checked. -/
theorem Within.moves_size (h : Within s) {size : UInt64} (hfits : ¬sizeT s.idx + size > s.bufferSize) :
    Moves s (s.idx.toInt.toNat + size.toNat < 2 ^ 64)
      { s with idx := narrow (sizeT s.idx + size) } := by
  refine ⟨⟨_, rfl⟩, ?_⟩
  have hlo := h.nonneg
  have hsmall := h.small
  have hcursor := toNat_sizeT_of_nonneg hlo
  have hlt := size.toNat_lt
  have hsum := UInt64.toNat_add (sizeT s.idx) size
  have hle : (sizeT s.idx + size).toNat ≤ s.bufferSize.toNat :=
    UInt64.le_iff_toNat_le.mp (UInt64.not_lt.mp hfits)
  have hint := toInt_narrow (n := sizeT s.idx + size) (by omega)
  simp only [Stays, hint]
  have hidx := s.idx.toInt_lt
  constructor
  · rintro ⟨-, hge⟩
    omega
  · intro hfit
    omega

/-- The cursors that a `DWORD` gives: one that does not fit in an `int` is negative. -/
theorem Within.moves_dword (h : Within s) (d : UInt32) :
    Moves s (s.idx.toInt.toNat ≤ d.toNat ∧ d.toNat ≤ s.bufferSize.toNat)
      { s with idx := narrowDword d } := by
  refine ⟨⟨_, rfl⟩, ?_⟩
  have hlo := h.nonneg
  have hsmall := h.small
  have hd := d.toNat_lt
  have hint : (narrowDword d).toInt = if d.toNat < 2 ^ 31 then (d.toNat : ℤ) else d.toNat - 2 ^ 32 := by
    rw [narrowDword, Int32.toInt_ofInt, Int32.size, Int.bmod_def]
    split <;> split <;> omega
  simp only [Stays, hint]
  split <;> omega

theorem load_ends (o : ℤ) (n : ℕ) :
    Ends ((load o n).run s) (fun _ s' => s' = s) (fun _ s' => s' = s) := by
  obtain ⟨bs, hload⟩ | hload := load_cases s o n
  · simp [hload]
  · simp [hload]

/-- A read at the cursor begins with its checks, which change nothing. -/
theorem Within.checked {α : Type} (h : Within s) {T : Prop} (f : String)
    {rest : Int32 × Bool → StreamM α}
    (hrest : s.buffer ≠ none → Ends ((rest (s.idx, true)).run s) (fun _ => Moves s T) (fun _ s' => s' = s)) :
    Ends ((safetyCheck f (-1) >>= rest).run s) (fun _ => Moves s T) (fun _ s' => s' = s) := by
  apply Ends.seq (safetyCheck_ends f (-1) (show 0 ≤ (resolve s (-1)).toInt from h.nonneg))
  rintro _ s₁ ⟨rfl, rfl, hbuf, -⟩
  exact hrest hbuf

theorem readSized_ends {α : Type} (h : Within s) (f : String) {size : UInt64} (hsize : size.toNat ≤ 8)
    (value : Bool → List UInt8 → α) :
    Ends ((readSized f size value (-1)).run s) (fun _ => Moves s True) (fun _ s' => s' = s) := by
  unfold readSized
  apply h.checked
  intro _
  refine Ends.bind (ends_get (ends_guard (fun _ => rfl) fun hfits => Ends.bind ?_))
  apply (load_ends _ _).mono_ok
  rintro _ s₁ rfl
  have hmoves := h.moves_size hfits
  have hidx := s₁.idx.toInt_lt
  exact ⟨hmoves.eq, hmoves.stays.trans (iff_true_intro (by omega))⟩

theorem readData_ends (h : Within s) (dataSize : UInt64) :
    Ends ((readData dataSize).run s) (fun _ => Moves s (s.idx.toInt.toNat + dataSize.toNat < 2 ^ 64))
      (fun _ s' => s' = s) := by
  unfold readData
  apply h.checked
  intro _
  exact Ends.bind (ends_get (ends_guard (fun _ => rfl) fun hfits => h.moves_size hfits))

/-- The length check leaves a string that ends, as a `DWORD`, in the buffer. -/
theorem readPrefix_ends (h : Within s) (hbuf : s.buffer ≠ none) (f : String) :
    Ends ((readPrefix f s.idx).run s)
      (fun v s' => s' = s ∧ s.idx.toInt.toNat + 4 ≤ s.bufferSize.toNat ∧
        stringEnd s ≤ s.bufferSize.toNat ∧ (dword v.1 + v.2).toNat = stringEnd s)
      (fun _ s' => s' = s) := by
  obtain ⟨m, hm⟩ := Option.ne_none_iff_exists'.mp hbuf
  have hend : stringEnd s =
      (s.idx.toInt.toNat + 4 + dwordAt s.bigEndian m.bytes s.idx.toInt.toNat) % 2 ^ 32 := by
    simp only [stringEnd, prefixAt, hm]
  rw [readPrefix_run hm (h.memory m hm) f h.nonneg, ← hend]
  split
  · rfl
  split
  · rfl
  split
  · rfl
  next hshort hover hmany =>
    have hnonneg := h.nonneg
    have hadd : (s.idx + 4).toInt = s.idx.toInt + 4 := toInt_add_of_lt rfl (by decide) (by omega)
    have hnext := toNat_dword_of_nonneg (i := s.idx + 4) (by omega)
    have hdword : (dword (s.idx + 4)).toNat = s.idx.toInt.toNat + 4 := by omega
    have hpref := dwordAt_lt s.bigEndian m.bytes s.idx.toInt.toNat
    refine ⟨rfl, not_lt.mp hshort, not_lt.mp hmany, ?_⟩
    simp only [UInt32.toNat_add, UInt32.toNat_ofNat', Nat.mod_eq_of_lt hpref, hend, hdword]

/-- Behind a length check the cursor moves past the string and its terminator. -/
theorem Within.moves_string (h : Within s) {v : Int32 × UInt32} {t : UInt32}
    (hroom : s.idx.toInt.toNat + 4 ≤ s.bufferSize.toNat) (hend : stringEnd s ≤ s.bufferSize.toNat)
    (hv : (dword v.1 + v.2).toNat = stringEnd s) (ht : t.toNat ≤ 2) :
    Moves s (PrefixTame s t.toNat) { s with idx := narrowDword (dword v.1 + v.2 + t) } := by
  have hmoves := h.moves_dword (dword v.1 + v.2 + t)
  have hsmall := h.small
  have hsum : (dword v.1 + v.2 + t).toNat = stringEnd s + t.toNat := by
    rw [UInt32.toNat_add, hv]
    omega
  refine ⟨hmoves.eq, hmoves.stays.trans ?_⟩
  rw [hsum]
  exact ⟨fun hstays _ _ => hstays, fun htame => htame hroom hend⟩

/-- The reads of a string end by copying it and moving the cursor. -/
theorem copy_ends {α : Type} (o : ℤ) (n : ℕ) (idx : Int32) (value : List UInt8 → α) :
    Ends ((do let bs ← load o n; setIdx idx; return value bs : StreamM α).run s)
      (fun _ s' => s' = { s with idx }) (fun _ s' => s' = s) := by
  apply Ends.seq (load_ends _ _)
  rintro _ s₁ rfl
  rfl

/-- Wide characters cannot be converted, so there must be none. -/
theorem convert_ends (o : ℤ) (n : ℕ) (idx : Int32) :
    Ends ((do
        let _ ← load o n
        if n ≠ 0 then throw .undefinedBehaviour
        setIdx idx
        return [] : StreamM (List UInt8)).run s)
      (fun _ s' => s' = { s with idx }) (fun _ s' => s' = s) := by
  apply Ends.seq (load_ends _ _)
  rintro _ s₁ rfl
  exact ends_ite (fun _ => rfl) fun _ => rfl

/-- What follows a length check moves the cursor past the string, or leaves it. -/
theorem Within.prefixed {α : Type} (h : Within s) (hbuf : s.buffer ≠ none) (f : String) {t : UInt32}
    (ht : t.toNat ≤ 2) {rest : Int32 × UInt32 → StreamM α}
    (hrest : ∀ v, Ends ((rest v).run s)
      (fun _ s' => s' = { s with idx := narrowDword (dword v.1 + v.2 + t) }) (fun _ s' => s' = s)) :
    Ends ((readPrefix f s.idx >>= rest).run s) (fun _ => Moves s (PrefixTame s t.toNat))
      (fun _ s' => s' = s) := by
  apply Ends.seq (readPrefix_ends h hbuf f)
  rintro v s₁ ⟨rfl, hroom, hend, hv⟩
  apply (hrest v).mono_ok
  rintro _ s' rfl
  exact h.moves_string hroom hend hv ht

theorem readString_prefixed_ends (h : Within s) {mode : StringInterpretMode} (hmode : mode ≠ .untilNullTerm)
    (wideString wideStringLE : Bool) :
    Ends ((readString mode (-1) wideString wideStringLE).run s)
      (fun _ => Moves s ((ReaderOp.string mode wideString wideStringLE).Tame s))
      (fun _ s' => s' = s) := by
  unfold readString
  apply h.checked
  intro hbuf
  cases mode with
  | untilNullTerm => exact absurd rfl hmode
  | givenSize =>
    have ht : (0 : UInt32).toNat ≤ 2 := by decide
    cases wideString with
    | false =>
      apply h.prefixed hbuf _ ht
      rintro ⟨start, str_size⟩
      exact copy_ends _ _ _ _
    | true =>
      apply h.prefixed hbuf _ ht
      rintro ⟨start, str_size⟩
      exact convert_ends _ _ _
  | givenSizeNullTerm =>
    cases wideString with
    | false =>
      have ht : (1 : UInt32).toNat ≤ 2 := by decide
      apply h.prefixed hbuf _ ht
      rintro ⟨start, str_size⟩
      exact copy_ends _ _ _ _
    | true =>
      have ht : (2 : UInt32).toNat ≤ 2 := by decide
      apply h.prefixed hbuf _ ht
      rintro ⟨start, str_size⟩
      exact convert_ends _ _ _

theorem readWString_prefixed_ends (h : Within s) {mode : StringInterpretMode} (hmode : mode ≠ .untilNullTerm)
    (wideStringLE : Bool) :
    Ends ((readWString mode (-1) wideStringLE).run s)
      (fun _ => Moves s ((ReaderOp.wstring mode wideStringLE).Tame s)) (fun _ s' => s' = s) := by
  unfold readWString
  apply h.checked
  intro hbuf
  cases mode with
  | untilNullTerm => exact absurd rfl hmode
  | givenSize =>
    have ht : (0 : UInt32).toNat ≤ 2 := by decide
    apply h.prefixed hbuf _ ht
    rintro ⟨start, str_size⟩
    exact copy_ends _ _ _ _
  | givenSizeNullTerm =>
    have ht : (1 : UInt32).toNat ≤ 2 := by decide
    apply h.prefixed hbuf _ ht
    rintro ⟨start, str_size⟩
    exact copy_ends _ _ _ _

/-- What a scan from the cursor has passed over, and where it has stopped: at most one byte behind the
buffer. -/
structure ScannedTo (s : ByteStreamBuffer) (m : Block) (start : ℤ) (stride n : ℕ) : Prop where
  bound : s.idx.toInt.toNat + n ≤ s.bufferSize.toNat + 1
  passed : ∀ j < n, start + stride * j ≤ s.bufferSize.toNat ∧ m.peek (start + stride * j) ≠ some 0
  stopped : start + stride * n ≤ s.bufferSize.toNat → m.peek (start + stride * n) = some 0

theorem Within.scannedTo (h : Within s) (hbuf : s.buffer = some m) {wideString wideStringLE : Bool}
    {n : UInt32} (hscan : scanLength s s.idx wideString wideStringLE = some n) :
    ScannedTo s m (s.idx.toInt + if wideStringLE then 1 else 0) (if wideString then 2 else 1) n.toNat := by
  have hsmall := h.small
  have hlo := h.nonneg
  have hle := h.le
  rw [scanLength_eq hbuf, endOffset_of_lt (by omega)] at hscan
  obtain ⟨count, hcount, rfl⟩ := Option.map_eq_some_iff.mp hscan
  have hpassed := scan_passed hcount
  have hbound : s.idx.toInt.toNat + count ≤ s.bufferSize.toNat + 1 := by
    rcases Nat.eq_zero_or_pos count with hzero | hpos
    · omega
    · have hlast := (hpassed (count - 1) (by omega)).1
      cases wideString <;> cases wideStringLE <;> simp at hlast <;> omega
  have hn : (UInt32.ofNat count).toNat = count := by
    rw [UInt32.toNat_ofNat', Nat.mod_eq_of_lt (by omega)]
  rw [hn]
  refine ⟨hbound, hpassed, fun hin => scan_stopped hcount ?_ hin⟩
  have hmany : (count : ℤ) ≤ (if wideString then 2 else 1 : ℕ) * count := by
    cases wideString <;> simp
    omega
  omega

theorem byteAt_eq (hbuf : s.buffer = some m) (o : ℤ) : byteAt s o = m.peek o := by simp [byteAt, hbuf]

/-- A scan that begins one byte late ends in the buffer. -/
theorem ScannedTo.late {stride n : ℕ} (h : ScannedTo s m (s.idx.toInt + 1) stride n) (hwithin : Within s)
    (hstride : 0 < stride) : s.idx.toInt.toNat + n ≤ s.bufferSize.toNat := by
  have hlo := hwithin.nonneg
  have hle := hwithin.le
  rcases Nat.eq_zero_or_pos n with hzero | hpos
  · omega
  · have hlast := (h.passed (n - 1) (by omega)).1
    have hmany : ((n - 1 : ℕ) : ℤ) ≤ stride * (n - 1 : ℕ) := by
      exact_mod_cast Nat.le_mul_of_pos_left (n - 1) hstride
    omega

/-- A scan of single bytes ends in the buffer if there is a zero byte that it can get to. -/
theorem ScannedTo.narrow_iff {n : ℕ} (h : ScannedTo s m s.idx.toInt 1 n) (hbuf : s.buffer = some m)
    (hwithin : Within s) :
    s.idx.toInt.toNat + n ≤ s.bufferSize.toNat ↔ ScanTame s false false := by
  have hlo := hwithin.nonneg
  obtain ⟨hbound, hpassed, hstopped⟩ := h
  simp only [Nat.cast_one, one_mul] at hpassed hstopped
  simp only [ScanTame, Bool.false_eq_true, false_or, if_false, byteAt_eq hbuf]
  constructor
  · intro hin
    exact ⟨s.idx.toInt + n, by omega, by omega, hstopped (by omega)⟩
  · rintro ⟨o, hfrom, hto, hzero⟩
    by_contra hlong
    have hpass := hpassed (o - s.idx.toInt).toNat (by omega)
    have ho : s.idx.toInt + (o - s.idx.toInt).toNat = o := by omega
    rw [ho] at hpass
    exact hpass.2 hzero

/-- A wide scan ends in the buffer but for one that begins at its end. -/
theorem ScannedTo.wide_iff {n : ℕ} (h : ScannedTo s m s.idx.toInt 2 n) (hbuf : s.buffer = some m)
    (hwithin : Within s) :
    s.idx.toInt.toNat + n ≤ s.bufferSize.toNat ↔ ScanTame s true false := by
  have hlo := hwithin.nonneg
  have hle := hwithin.le
  obtain ⟨hbound, hpassed, hstopped⟩ := h
  simp only [Nat.cast_ofNat] at hpassed hstopped
  simp only [ScanTame, Bool.false_eq_true, false_or, if_true, byteAt_eq hbuf]
  constructor
  · intro hin
    by_cases hbefore : s.idx.toInt < s.bufferSize.toNat
    · exact .inl hbefore
    · have hnone : n = 0 := by omega
      have hend : s.idx.toInt = s.bufferSize.toNat := by omega
      have hzero := hstopped (by omega)
      rw [hnone, hend] at hzero
      exact .inr (by simpa using hzero)
  · intro htame
    by_contra hlong
    have hlast := hpassed (n - 1) (by omega)
    have hend : s.idx.toInt = s.bufferSize.toNat := by omega
    have hone : n = 1 := by omega
    rcases htame with hbefore | hzero
    · omega
    · rw [hone, hend] at hlast
      exact hlast.2 (by simpa using hzero)

/-- How far a scan from the cursor gets: at most one byte behind the buffer. -/
theorem Within.scanned (h : Within s) (hbuf : s.buffer = some m) {wideString wideStringLE : Bool}
    {n : UInt32} (hscan : scanLength s s.idx wideString wideStringLE = some n) :
    s.idx.toInt.toNat + n.toNat ≤ s.bufferSize.toNat + 1 ∧
      (s.idx.toInt.toNat + n.toNat ≤ s.bufferSize.toNat ↔ ScanTame s wideString wideStringLE) := by
  have hto := h.scannedTo hbuf hscan
  refine ⟨hto.bound, ?_⟩
  cases wideStringLE with
  | true => exact iff_of_true (hto.late h (by split <;> decide)) (.inl rfl)
  | false =>
    simp only [Bool.false_eq_true, if_false, add_zero] at hto
    cases wideString with
    | false => exact hto.narrow_iff hbuf h
    | true => exact hto.wide_iff hbuf h

/-- A scan moves the cursor by what it has counted. -/
theorem Within.moves_scan (h : Within s) (hbuf : s.buffer = some m) {wideString wideStringLE : Bool}
    {n : UInt32} (hscan : scanLength s s.idx wideString wideStringLE = some n) :
    Moves s (ScanTame s wideString wideStringLE) { s with idx := narrowDword (dword s.idx + n) } := by
  obtain ⟨hbound, htame⟩ := h.scanned hbuf hscan
  have hmoves := h.moves_dword (dword s.idx + n)
  have hsmall := h.small
  have hdword := toNat_dword_of_nonneg h.nonneg
  have hsum : (dword s.idx + n).toNat = s.idx.toInt.toNat + n.toNat := by
    rw [UInt32.toNat_add]
    omega
  refine ⟨hmoves.eq, hmoves.stays.trans ?_⟩
  rw [hsum, ← htame]
  exact ⟨And.right, fun hin => ⟨Nat.le_add_right _ _, hin⟩⟩

theorem idx_succ (hlo : 0 ≤ s.idx.toInt) : s.idx + 1 = narrowDword (dword s.idx + 1) := by
  apply Int32.toInt_inj.mp
  have hdword := toNat_dword_of_nonneg hlo
  have hlt := s.idx.toInt_lt
  have hsum : (dword s.idx + 1).toNat = s.idx.toInt.toNat + 1 := by
    rw [UInt32.toNat_add, show (1 : UInt32).toNat = 1 from rfl]
    omega
  rw [narrowDword, Int32.toInt_ofInt, Int32.toInt_add, hsum, show (1 : Int32).toInt = 1 from rfl]
  congr 1
  omega

/-- The three reads that look for a terminator, once the scan is done. -/
theorem Within.scanned_ends {α : Type} (h : Within s) (hbuf : s.buffer = some m)
    {wideString wideStringLE : Bool} {n : UInt32}
    (hscan : scanLength s s.idx wideString wideStringLE = some n) {rest : StreamM α} {empty : α}
    (hrest : Ends (rest.run s) (fun _ s' => s' = { s with idx := narrowDword (dword s.idx + n + 0) })
      (fun _ s' => s' = s)) :
    Ends (if n = 1 then .ok empty { s with idx := s.idx + 1 } else rest.run s)
      (fun _ => Moves s (ScanTame s wideString wideStringLE)) (fun _ s' => s' = s) := by
  have hmoves := h.moves_scan hbuf hscan
  split
  next hone =>
    rw [hone, ← idx_succ h.nonneg] at hmoves
    exact hmoves
  next =>
    apply hrest.mono_ok
    rintro _ s' rfl
    rw [UInt32.add_zero]
    exact hmoves

/-- A read that begins with `SAFETY_CHECK` may take its buffer for granted. -/
theorem ends_checked {α : Type} {read : StreamM α} {Q : α → ByteStreamBuffer → Prop}
    (hread : ∃ f rest, read = safetyCheck f (-1) >>= rest)
    (h : ∀ m, s.buffer = some m → s.bufferSize ≠ 0 → Ends (read.run s) Q fun _ s' => s' = s) :
    Ends (read.run s) Q fun _ s' => s' = s := by
  obtain ⟨f, rest, hread⟩ := hread
  obtain hnull | ⟨m, hbuf, hzero⟩ := null_or_buffer s
  · rw [hread, run_bind_error (safetyCheck_null hnull _ _)]
    rfl
  · exact h m hbuf hzero

theorem readString_terminated_ends (h : Within s) (wideString wideStringLE : Bool) :
    Ends ((readString .untilNullTerm (-1) wideString wideStringLE).run s)
      (fun _ => Moves s (ScanTame s wideString wideStringLE)) (fun _ s' => s' = s) := by
  refine ends_checked ⟨_, _, rfl⟩ fun m hbuf hsize => ?_
  cases hscan : scanLength s s.idx wideString wideStringLE with
  | none =>
    rw [readString_unscanned hbuf hsize h.nonneg hscan]
    rfl
  | some n =>
    cases wideString with
    | false =>
      rw [readString_untilNullTerm hbuf hsize h.nonneg hscan]
      exact h.scanned_ends hbuf hscan (copy_ends _ _ _ _)
    | true =>
      rw [readString_wide_untilNullTerm hbuf hsize h.nonneg hscan]
      exact h.scanned_ends hbuf hscan (convert_ends _ _ _)

theorem readWString_terminated_ends (h : Within s) (wideStringLE : Bool) :
    Ends ((readWString .untilNullTerm (-1) wideStringLE).run s)
      (fun _ => Moves s (ScanTame s true wideStringLE)) (fun _ s' => s' = s) := by
  refine ends_checked ⟨_, _, rfl⟩ fun m hbuf hsize => ?_
  cases hscan : scanLength s s.idx true wideStringLE with
  | none =>
    rw [readWString_unscanned hbuf hsize h.nonneg hscan]
    rfl
  | some n =>
    rw [readWString_untilNullTerm hbuf hsize h.nonneg hscan]
    exact h.scanned_ends hbuf hscan (copy_ends _ _ _ _)

/-- What one read does: it throws and changes nothing, or it moves the cursor. -/
theorem ReaderOp.run_ends (h : Within s) (op : ReaderOp) :
    Ends (op.run.run s) (fun _ => Moves s (op.Tame s)) (fun _ s' => s' = s) := by
  cases op with
  | byte =>
    unfold run readByte
    exact (readSized_ends h _ (by decide) _).discard
  | word =>
    unfold run readWord
    exact (readSized_ends h _ (by decide) _).discard
  | dword =>
    unfold run readDword
    exact (readSized_ends h _ (by decide) _).discard
  | qword =>
    unfold run readQword
    exact (readSized_ends h _ (by decide) _).discard
  | data dataSize => exact (readData_ends h dataSize).discard
  | string mode wideString wideStringLE =>
    by_cases hmode : mode = .untilNullTerm
    · subst hmode
      exact (readString_terminated_ends h wideString wideStringLE).discard
    · exact (readString_prefixed_ends h hmode wideString wideStringLE).discard
  | wstring mode wideStringLE =>
    by_cases hmode : mode = .untilNullTerm
    · subst hmode
      exact (readWString_terminated_ends h wideStringLE).discard
    · exact (readWString_prefixed_ends h hmode wideStringLE).discard

/-- One read, which returns or throws an exception that the program catches. -/
def ReaderOp.Steps (s : ByteStreamBuffer) (op : ReaderOp) (s' : ByteStreamBuffer) : Prop :=
  op.run.run s = .ok () s' ∨ ∃ what, op.run.run s = .error (.exception what) s'

/-- The states that reads with `P` reach from a reader over a buffer below 2^31 bytes. -/
inductive ReaderReaches (P : ByteStreamBuffer → ReaderOp → Prop) : ByteStreamBuffer → Prop
  | made {buffer : Option Block} {bufferSize : UInt64} (hsize : bufferSize.toNat < 2 ^ 31)
      (hmemory : ∀ m, buffer = some m → bufferSize.toNat ≤ m.size) (bigEndian autoBuffer : Bool) :
      ReaderReaches P (setupBufferOver buffer bufferSize bigEndian autoBuffer)
  | call {s s' : ByteStreamBuffer} {op : ReaderOp} (hreach : ReaderReaches P s) (hp : P s op)
      (hstep : op.Steps s s') : ReaderReaches P s'

variable {P : ByteStreamBuffer → ReaderOp → Prop}

theorem ReaderOp.Steps.within {op : ReaderOp} (hstep : op.Steps s s') (h : Within s) (htame : op.Tame s) :
    Within s' := by
  have hends := op.run_ends h
  rcases hstep with hrun | ⟨what, hrun⟩
  · rw [hrun] at hends
    exact h.moves hends htame
  · rw [hrun] at hends
    exact (show s' = s from hends) ▸ h

theorem ReaderReaches.within (hreach : ReaderReaches P s) (htame : ∀ s op, P s op → op.Tame s) :
    Within s := by
  induction hreach with
  | made hsize hmemory bigEndian autoBuffer => exact ⟨hsize, hmemory, le_rfl, Int.natCast_nonneg _⟩
  | call _ hp hstep ih => exact hstep.within ih (htame _ _ hp)

/-- In a run of tame reads the cursor is in the buffer, and the next read that returns keeps it there
exactly if it is tame. -/
theorem reader_cursor_stays_iff (htame : ∀ s op, P s op → op.Tame s) (hreach : ReaderReaches P s)
    {op : ReaderOp} (hrun : op.run.run s = .ok () s') :
    (0 ≤ s.idx.toInt ∧ s.idx.toInt ≤ s.bufferSize.toNat) ∧ (Stays s s' ↔ op.Tame s) := by
  have h := hreach.within htame
  have hends := op.run_ends h
  rw [hrun] at hends
  exact ⟨⟨h.nonneg, h.le⟩, hends.stays⟩

/-- A byte, then a word that does not fit, then a byte. -/
theorem reader_cursor_stays_example :
    Stays (readerAt [7, 8] unmapped false 1) (readerAt [7, 8] unmapped false 2) := by
  have hmade : ReaderReaches (fun s op => op.Tame s) (readerAt [7, 8] unmapped false 0) := by
    apply ReaderReaches.made (by decide)
    rintro _ ⟨⟩
    decide
  have hbyte : ReaderOp.byte.Steps (readerAt [7, 8] unmapped false 0) (readerAt [7, 8] unmapped false 1) :=
    .inl rfl
  have hword : ReaderOp.word.Steps (readerAt [7, 8] unmapped false 1) (readerAt [7, 8] unmapped false 1) :=
    .inr ⟨_, rfl⟩
  have hreach : ReaderReaches (fun s op => op.Tame s) (readerAt [7, 8] unmapped false 1) :=
    .call (.call hmade (by trivial) hbyte) (by trivial) hword
  have hrun : ReaderOp.byte.run.run (readerAt [7, 8] unmapped false 1) =
      .ok () (readerAt [7, 8] unmapped false 2) := rfl
  exact (reader_cursor_stays_iff (fun _ _ htame => htame) hreach hrun).2.mpr trivial

/-- Two characters that fill the buffer: the cursor is moved past a terminator that is not there. -/
theorem terminator_behind_reader :
    ReaderReaches (fun _ _ => True) (readerAt [2, 0, 0, 0, 65, 66] unmapped false 0) ∧
      ∃ s', (ReaderOp.string .givenSizeNullTerm false false).run.run
        (readerAt [2, 0, 0, 0, 65, 66] unmapped false 0) = .ok () s' ∧
        ¬Stays (readerAt [2, 0, 0, 0, 65, 66] unmapped false 0) s' := by
  refine ⟨?_, readerAt [2, 0, 0, 0, 65, 66] unmapped false 7, rfl, ?_⟩
  · apply ReaderReaches.made (by decide)
    rintro _ ⟨⟩
    decide
  · rintro ⟨⟨-, hle⟩, -⟩
    exact absurd hle (by decide)

end H1Z1Server
