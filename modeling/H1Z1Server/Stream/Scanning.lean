import H1Z1Server.Stream.Terminated

/-! The scan for a terminator: what it passes over, where it stops, and what it needs to see of the
memory behind the buffer. -/
namespace H1Z1Server
open MachineInt MemoryBlock ByteOrder ByteStreamBuffer ByteStreamReader

variable {s : ByteStreamBuffer} {m : Block} {last p : ℤ} {stride rounds n : ℕ}

/-- A reader over bytes, with its cursor at an index. -/
def readerAt (bs : List UInt8) (beyond : ℤ → Option UInt8) (bigEndian : Bool) (idx : Int32) :
    ByteStreamBuffer :=
  { newReader (some ⟨bs, beyond⟩) (UInt64.ofNat bs.length) bigEndian with idx }

@[simp] theorem readerAt_idx (bs : List UInt8) (beyond : ℤ → Option UInt8) (bigEndian : Bool)
    (idx : Int32) : (readerAt bs beyond bigEndian idx).idx = idx := rfl

/-- Around the buffer nothing can be read. -/
def unmapped : ℤ → Option UInt8 := fun _ => none

/-- Where the scan starts. -/
def scanStart (i : ℕ) (wideStringLE : Bool) : ℕ := i + if wideStringLE then 1 else 0

/-- The scan of a reader passes over the characters before a terminator, and no others. -/
theorem scanLength_le {m : Block} (hbuf : s.buffer = some m) {i k : ℕ} (hidx : s.idx.toInt = i)
    {wideString wideStringLE : Bool}
    (hzero : m.peek (scanStart i wideStringLE + (if wideString then 2 else 1) * k : ℕ) = some 0) {n : UInt32}
    (hscan : scanLength s s.idx wideString wideStringLE = some n) : n.toNat ≤ k := by
  rw [scanLength_eq hbuf] at hscan
  obtain ⟨count, hcount, rfl⟩ := Option.map_eq_some_iff.mp hscan
  have hle : count ≤ k := by
    by_contra hlong
    have hpass := scan_passed hcount k (not_le.mp hlong)
    have hat : (s.idx.toInt + (if wideStringLE then 1 else 0) + (if wideString then 2 else 1 : ℕ) * k : ℤ) =
        (scanStart i wideStringLE + (if wideString then 2 else 1) * k : ℕ) := by
      simp [scanStart, hidx]
    rw [hat] at hpass
    exact hpass.2 hzero
  rw [UInt32.toNat_ofNat']
  exact (Nat.mod_le _ _).trans hle

/-- The terminated string from `i` on is returned, and the cursor put behind its terminator at `p`. -/
def ReadsTerminated (s : ByteStreamBuffer) (m : Block) (i p : ℕ) : Prop :=
  ∃ s', (readString .untilNullTerm).run s = .ok ((m.bytes.drop i).take (p - i)) s' ∧
    s'.idx.toInt = p + 1

/-- `ReadString` never gets behind a terminator. -/
theorem readString_stays_before {m : Block} (hbuf : s.buffer = some m) {i p : ℕ} (hidx : s.idx.toInt = i)
    (hp : i ≤ p) (hin : p < s.bufferSize.toNat) (hzero : m.peek p = some 0) :
    ¬ReadsTerminated s m i p := by
  rintro ⟨s', hrun, hbehind⟩
  have hlt := s'.idx.toInt_lt
  have hne : s.bufferSize ≠ 0 := ne_zero_of_pos (Nat.zero_lt_of_lt hin)
  cases hscan : scanLength s s.idx false false with
  | none =>
    rw [readString_unscanned hbuf hne (by omega) hscan] at hrun
    cases hrun
  | some n =>
    have hat : scanStart i false + (if false then 2 else 1) * (p - i) = p := by simp [scanStart, hp]
    have hle := scanLength_le hbuf hidx (by rw [hat]; exact hzero) hscan
    rw [readString_untilNullTerm hbuf hne (by omega) hscan] at hrun
    split at hrun
    next hone =>
      obtain ⟨-, rfl⟩ := (EStateM.Result.ok.injEq _ _ _ _).mp hrun
      rw [hone, show (1 : UInt32).toNat = 1 from rfl] at hle
      rw [Int32.toInt_add, hidx, show (1 : Int32).toInt = 1 from rfl, Int.bmod_def] at hbehind
      split at hbehind <;> omega
    next =>
      rw [EStateM.run_bind, load_run] at hrun
      cases hload : s.buffer.bind (·.load s.idx.toInt n.toNat) with
      | none => simp [hload] at hrun
      | some bs =>
        simp only [hload] at hrun
        cases hrun
        have hdword := toNat_dword_of_nonneg (i := s.idx) (by omega)
        have hsum : (dword s.idx + n + terminator .untilNullTerm).toNat = i + n.toNat := by
          rw [UInt32.toNat_add, UInt32.toNat_add, show (terminator .untilNullTerm).toNat = 0 from rfl]
          omega
        have hint := toInt_narrowDword (n := dword s.idx + n + terminator .untilNullTerm) (by omega)
        rw [hint, hsum] at hbehind
        omega

theorem readString_stays_before_example :
    ¬ReadsTerminated (readerAt [65, 0] unmapped false 0) ⟨[65, 0], unmapped⟩ 0 1 :=
  readString_stays_before rfl rfl (by decide) (by decide) rfl

/-- Two bytes and a terminator: they are read, and the cursor stays at the terminator. -/
theorem terminator_left_behind :
    ¬ReadsTerminated (readerAt [65, 66, 0] unmapped false 0) ⟨[65, 66, 0], unmapped⟩ 0 2 := by
  rintro ⟨s', hrun, hbehind⟩
  have hbuf : (readerAt [65, 66, 0] unmapped false 0).buffer = some ⟨[65, 66] ++ 0 :: [], unmapped⟩ := rfl
  have hidx : (readerAt [65, 66, 0] unmapped false 0).idx.toInt = (0 : ℕ) := rfl
  obtain ⟨idx, hidx, hread⟩ := readString_terminated hbuf (by decide) (by decide) hidx rfl (by decide)
    (by decide)
  rw [hread] at hrun
  obtain ⟨-, rfl⟩ := (EStateM.Result.ok.injEq _ _ _ _).mp hrun
  have hstays : idx.toInt = 2 := by simpa using hidx
  have hpast : idx.toInt = 3 := by simpa using hbehind
  omega

/-- What a caller sees of a read: its value and the cursor, or the exception. -/
def observe {α : Type} : EStateM.Result Abort ByteStreamBuffer α → Option (Except String (α × Int32))
  | .ok a s => some (.ok (a, s.idx))
  | .error (.exception what) _ => some (.error what)
  | .error _ _ => none

/-- A read whose outcome depends on the bytes of the buffer, whatever lies around them. -/
def BufferOnly {α : Type} (read : StreamM α) (bs : List UInt8) (bigEndian : Bool) (idx : Int32) : Prop :=
  ∀ beyond₁ beyond₂, ∃ seen,
    observe (read.run (readerAt bs beyond₁ bigEndian idx)) = some seen ∧
      observe (read.run (readerAt bs beyond₂ bigEndian idx)) = some seen

/-- The first zero byte at a multiple of the stride, `n` strides from the start. -/
def FirstZero (bs : List UInt8) (start stride n : ℕ) : Prop :=
  bs[start + stride * n]? = some 0 ∧ ∀ j < n, bs[start + stride * j]? ≠ some 0

/-- Nothing is scanned in an empty buffer, nor in one whose end, as an offset, is negative. -/
def Unscanned (bs : List UInt8) : Prop := bs = [] ∨ 2 ^ 63 ≤ bs.length

section BufferOnly
variable {bs : List UInt8} {beyond : ℤ → Option UInt8} {bigEndian wideString wideStringLE : Bool}
  {idx : Int32} {i : ℕ}

theorem peek_readerAt (beyond : ℤ → Option UInt8) {k : ℕ} (hk : k < bs.length) :
    (Block.mk bs beyond).peek k = bs[k]? :=
  Block.peek_of_lt hk

theorem scanLength_readerAt (hidx : idx.toInt = i) :
    scanLength (readerAt bs beyond bigEndian idx) idx wideString wideStringLE =
      (scan ⟨bs, beyond⟩ (endOffset (readerAt bs beyond bigEndian idx).bufferSize)
        (if wideString then 2 else 1)
        ((endOffset (readerAt bs beyond bigEndian idx).bufferSize - scanStart i wideStringLE + 1).toNat + 1)
        (scanStart i wideStringLE)).map UInt32.ofNat := by
  have hbuf : (readerAt bs beyond bigEndian idx).buffer = some ⟨bs, beyond⟩ := rfl
  have hstart : idx.toInt + (if wideStringLE then 1 else 0) = scanStart i wideStringLE := by
    rw [hidx, scanStart]
    split <;> rfl
  rw [scanLength_eq hbuf, hstart]

theorem bufferSize_readerAt (beyond : ℤ → Option UInt8) (bigEndian : Bool) (idx : Int32)
    (hlen : bs.length < 2 ^ 64) : (readerAt bs beyond bigEndian idx).bufferSize.toNat = bs.length :=
  toNat_ofNat_of_lt hlen

theorem endOffset_readerAt (hlen : bs.length < 2 ^ 63) :
    endOffset (readerAt bs beyond bigEndian idx).bufferSize = bs.length := by
  have hsize := bufferSize_readerAt beyond bigEndian idx (hlen.trans (by norm_num))
  rw [endOffset_of_lt (by rw [hsize]; exact hlen), hsize]

/-- The scan finds the first zero byte of the buffer. -/
theorem scanLength_firstZero (hidx : idx.toInt = i) (hlen : bs.length < 2 ^ 63)
    (hzero : FirstZero bs (scanStart i wideStringLE) (if wideString then 2 else 1) n)
    (beyond : ℤ → Option UInt8) :
    scanLength (readerAt bs beyond bigEndian idx) idx wideString wideStringLE = some (UInt32.ofNat n) := by
  rw [scanLength_readerAt hidx, endOffset_readerAt hlen]
  generalize hstride : (if wideString then 2 else 1 : ℕ) = stride at hzero ⊢
  generalize scanStart i wideStringLE = start at hzero ⊢
  have hpos : 0 < stride := by
    rw [← hstride]
    split <;> decide
  obtain ⟨hstop, hfirst⟩ := hzero
  have hin : start + stride * n < bs.length := (List.getElem?_eq_some_iff.mp hstop).1
  have hn : n ≤ stride * n := Nat.le_mul_of_pos_left n hpos
  have hpeek : (Block.mk bs beyond).peek (start + stride * n) = some 0 := by
    have hat := peek_readerAt beyond hin
    rw [hstop] at hat
    exact_mod_cast hat
  have hpass : Passes ⟨bs, beyond⟩ bs.length start stride n := by
    apply passes_of_bytes
    intro j hj
    have hbefore : stride * j ≤ stride * n := Nat.mul_le_mul_left stride hj.le
    have hlt : start + stride * j < bs.length := by omega
    refine ⟨by omega, bs[start + stride * j], fun hb => hfirst j hj ?_, List.getElem?_eq_getElem hlt⟩
    rw [List.getElem?_eq_getElem hlt, hb]
  rw [scan_stops hpeek hpass (by omega), Option.map_some]

/-- A scan of a buffer without a zero byte fails where nothing can be read behind it. -/
theorem scanLength_unmapped (hidx : idx.toInt = i) (hle : i ≤ bs.length) (hlen : bs.length < 2 ^ 63)
    (hnone : ∀ n, ¬FirstZero bs (scanStart i wideStringLE) (if wideString then 2 else 1) n) :
    scanLength (readerAt bs unmapped bigEndian idx) idx wideString wideStringLE = none := by
  have hstart : scanStart i wideStringLE ≤ bs.length + 1 := by
    unfold scanStart
    split <;> omega
  rw [scanLength_readerAt hidx, endOffset_readerAt hlen]
  generalize hstride : (if wideString then 2 else 1 : ℕ) = stride at hnone ⊢
  generalize scanStart i wideStringLE = start at hnone hstart ⊢
  have hpos : 0 < stride := by
    rw [← hstride]
    split <;> decide
  have hfree : ∀ j, bs[start + stride * j]? ≠ some 0 := by
    intro j
    induction j using Nat.strong_induction_on with
    | _ j ih => exact fun hzero => hnone j ⟨hzero, ih⟩
  have hleaves : scan ⟨bs, unmapped⟩ bs.length stride (((bs.length : ℤ) - start + 1).toNat + 1) start =
      none := by
    apply scan_leaves (fun _ => rfl) hpos hfree le_rfl
    show bs.length - start < _
    omega
  rw [hleaves, Option.map_none]

/-- A buffer that large has its end, as an offset, before its start. -/
theorem scanLength_large (hidx : idx.toInt = i) (hlo : 2 ^ 63 ≤ bs.length) (hlen : bs.length < 2 ^ 64)
    (beyond : ℤ → Option UInt8) :
    scanLength (readerAt bs beyond bigEndian idx) idx wideString wideStringLE = some 0 := by
  have hlt := idx.toInt_lt
  have hstart : scanStart i wideStringLE < bs.length := by
    unfold scanStart
    split <;> omega
  have hsize := bufferSize_readerAt beyond bigEndian idx hlen
  have hend : endOffset (readerAt bs beyond bigEndian idx).bufferSize < 0 := by
    unfold endOffset
    rw [hsize, Int.bmod_def]
    split <;> omega
  have hpeek := peek_readerAt beyond hstart
  rw [List.getElem?_eq_getElem hstart] at hpeek
  have hstop : ¬(bs[scanStart i wideStringLE] ≠ 0 ∧
      (scanStart i wideStringLE : ℤ) ≤ endOffset (readerAt bs beyond bigEndian idx).bufferSize) := by
    rintro ⟨-, hle⟩
    omega
  rw [scanLength_readerAt hidx, scan, hpeek]
  simp only [if_neg hstop, Option.map_some]
  rfl

theorem bufferOnly_of {α : Type} {read : StreamM α} (seen : Except String (α × Int32))
    (h : ∀ beyond, observe (read.run (readerAt bs beyond bigEndian idx)) = some seen) :
    BufferOnly read bs bigEndian idx :=
  fun beyond₁ beyond₂ => ⟨seen, h beyond₁, h beyond₂⟩

theorem not_bufferOnly {α : Type} {read : StreamM α}
    (h : read.run (readerAt bs unmapped bigEndian idx) =
      .error .undefinedBehaviour (readerAt bs unmapped bigEndian idx)) : ¬BufferOnly read bs bigEndian idx := by
  intro honly
  obtain ⟨seen, hseen, -⟩ := honly unmapped unmapped
  simp [h, observe] at hseen

/-- An empty buffer is refused before anything is read. -/
theorem bufferOnly_empty {α : Type} (f : String) (rest : Int32 × Bool → StreamM α) :
    BufferOnly (safetyCheck f (-1) >>= rest) [] bigEndian idx := by
  apply bufferOnly_of (.error (f ++ " got null buffer or null size."))
  intro beyond
  rw [run_bind_error (safetyCheck_null (.inr rfl) f (-1))]
  rfl

/-- The scans find a length that does not depend on what lies around the buffer, and end in it. -/
structure Scanned (bs : List UInt8) (bigEndian wideString wideStringLE : Bool) (idx : Int32) (n : UInt32) :
    Prop where
  scan : ∀ beyond, scanLength (readerAt bs beyond bigEndian idx) idx wideString wideStringLE = some n
  inside : idx.toInt.toNat + n.toNat ≤ bs.length

theorem scanned_firstZero (hidx : idx.toInt = i) (hlen : bs.length < 2 ^ 63)
    (hzero : FirstZero bs (scanStart i wideStringLE) (if wideString then 2 else 1) n) :
    Scanned bs bigEndian wideString wideStringLE idx (UInt32.ofNat n) := by
  refine ⟨scanLength_firstZero hidx hlen hzero, ?_⟩
  have hin := (List.getElem?_eq_some_iff.mp hzero.1).1
  have hn : n ≤ (if wideString then 2 else 1) * n := by
    split <;> omega
  have hstart : i ≤ scanStart i wideStringLE := Nat.le_add_right i _
  have hcount : (UInt32.ofNat n).toNat ≤ n := by
    rw [UInt32.toNat_ofNat']
    exact Nat.mod_le _ _
  omega

theorem scanned_large (hidx : idx.toInt = i) (hle : i ≤ bs.length) (hlo : 2 ^ 63 ≤ bs.length)
    (hlen : bs.length < 2 ^ 64) : Scanned bs bigEndian wideString wideStringLE idx 0 := by
  refine ⟨scanLength_large hidx hlo hlen, ?_⟩
  rw [UInt32.toNat_zero]
  omega

theorem load_readerAt {k : ℕ} (hlo : 0 ≤ idx.toInt) (hin : idx.toInt.toNat + k ≤ bs.length)
    (beyond : ℤ → Option UInt8) :
    (load idx.toInt k).run (readerAt bs beyond bigEndian idx) =
      .ok ((bs.drop idx.toInt.toNat).take k) (readerAt bs beyond bigEndian idx) := by
  have hload := Block.load_of_inside (m := ⟨bs, beyond⟩) (k := idx.toInt.toNat) (n := k) hin
  rw [Int.toNat_of_nonneg hlo] at hload
  have hbuf : (readerAt bs beyond bigEndian idx).buffer = some ⟨bs, beyond⟩ := rfl
  rw [load_run, hbuf, Option.bind_some, hload]

theorem bufferSize_readerAt_ne (hne : bs ≠ []) (hlen : bs.length < 2 ^ 64) (beyond : ℤ → Option UInt8) :
    (readerAt bs beyond bigEndian idx).bufferSize ≠ 0 := by
  apply ne_zero_of_pos
  rw [bufferSize_readerAt beyond bigEndian idx hlen]
  exact List.length_pos_of_ne_nil hne

/-- A string of one byte is skipped. Others are seen as what the rest of the read makes of them. -/
theorem bufferOnly_counted {α : Type} {read : StreamM α} {rest : (ℤ → Option UInt8) → StreamM α} {empty : α}
    {n : UInt32} (hrun : ∀ beyond, read.run (readerAt bs beyond bigEndian idx) =
      if n = 1 then .ok empty { readerAt bs beyond bigEndian idx with idx := idx + 1 }
      else (rest beyond).run (readerAt bs beyond bigEndian idx))
    (seen : Except String (α × Int32)) (hrest : n ≠ 1 → ∀ beyond,
      observe ((rest beyond).run (readerAt bs beyond bigEndian idx)) = some seen) :
    BufferOnly read bs bigEndian idx := by
  by_cases hone : n = 1
  · apply bufferOnly_of (.ok (empty, idx + 1))
    intro beyond
    rw [hrun, if_pos hone]
    rfl
  · apply bufferOnly_of seen
    intro beyond
    rw [hrun, if_neg hone]
    exact hrest hone beyond

theorem readString_bufferOnly (hne : bs ≠ []) (hlen : bs.length < 2 ^ 64) (hlo : 0 ≤ idx.toInt)
    {n : UInt32} (hscan : Scanned bs bigEndian false wideStringLE idx n) :
    BufferOnly (readString .untilNullTerm (-1) false wideStringLE) bs bigEndian idx := by
  have hrun := fun beyond => readString_untilNullTerm rfl (bufferSize_readerAt_ne hne hlen beyond) hlo
    (hscan.scan beyond)
  apply bufferOnly_counted hrun
    (.ok ((bs.drop idx.toInt.toNat).take n.toNat, narrowDword (dword idx + n + 0)))
  intro _ beyond
  rw [readerAt_idx, run_bind_ok (load_readerAt hlo hscan.inside beyond)]
  rfl

theorem readString_wide_bufferOnly (hne : bs ≠ []) (hlen : bs.length < 2 ^ 64) (hlo : 0 ≤ idx.toInt)
    {n : UInt32} (hscan : Scanned bs bigEndian true wideStringLE idx n) (hshort : n.toNat < 2) :
    BufferOnly (readString .untilNullTerm (-1) true wideStringLE) bs bigEndian idx := by
  have hrun := fun beyond => readString_wide_untilNullTerm rfl (bufferSize_readerAt_ne hne hlen beyond)
    hlo (hscan.scan beyond)
  apply bufferOnly_counted hrun (.ok ([], narrowDword (dword idx + 0 + 0)))
  intro hone beyond
  have hnull : n = 0 := by
    apply UInt32.toNat_inj.mp
    have hn : n.toNat ≠ 1 := fun h => hone (UInt32.toNat_inj.mp h)
    rw [UInt32.toNat_zero]
    omega
  rw [hnull]
  rfl

theorem readWString_bufferOnly (hne : bs ≠ []) (hlen : bs.length < 2 ^ 64) (hlo : 0 ≤ idx.toInt)
    {n : UInt32} (hscan : Scanned bs bigEndian true wideStringLE idx n) :
    BufferOnly (readWString .untilNullTerm (-1) wideStringLE) bs bigEndian idx := by
  have hrun := fun beyond => readWString_untilNullTerm rfl (bufferSize_readerAt_ne hne hlen beyond)
    hlo (hscan.scan beyond)
  have hhalf : 2 * (n / 2).toNat ≤ n.toNat := by
    rw [UInt32.toNat_div]
    exact Nat.mul_div_le _ _
  have hin := hscan.inside
  apply bufferOnly_counted hrun (.ok ((((bs.drop idx.toInt.toNat).take (2 * (n / 2).toNat)).toChunks 2).map
    fun c => UInt16.ofNat (ofLE c), narrowDword (dword idx + n + 0)))
  intro _ beyond
  rw [readerAt_idx, run_bind_ok (load_readerAt hlo (by omega) beyond)]
  rfl

/-- From two characters on, a wide read touches what lies behind its temporary buffer. -/
theorem readString_wide_strays (hne : bs ≠ []) (hlen : bs.length < 2 ^ 64) (hlo : 0 ≤ idx.toInt)
    {n : UInt32} (hscan : Scanned bs bigEndian true wideStringLE idx n) (hlong : 2 ≤ n.toNat) :
    ¬BufferOnly (readString .untilNullTerm (-1) true wideStringLE) bs bigEndian idx := by
  apply not_bufferOnly
  have hone : n ≠ 1 := by
    rintro rfl
    exact absurd hlong (by decide)
  have hhalf : (n / 2).toNat ≠ 0 := by
    rw [UInt32.toNat_div, show (2 : UInt32).toNat = 2 from rfl]
    omega
  rw [readString_wide_untilNullTerm rfl (bufferSize_readerAt_ne hne hlen unmapped) hlo
    (hscan.scan unmapped), if_neg hone]
  simp only [if_pos hhalf]
  obtain ⟨read, hload⟩ | hload := load_cases (readerAt bs unmapped bigEndian idx)
    (idx.toInt + if wideStringLE then 1 else 0) (n / 2).toNat
  · rw [readerAt_idx, run_bind_ok hload]
    rfl
  · rw [readerAt_idx, run_bind_error hload]

theorem unscanned_bufferOnly (hlen : bs.length < 2 ^ 64) (hidx : idx.toInt = i) (hle : i ≤ bs.length)
    (hunscanned : Unscanned bs) (bigEndian wideStringLE : Bool) :
    BufferOnly (readString .untilNullTerm (-1) false wideStringLE) bs bigEndian idx ∧
      BufferOnly (readString .untilNullTerm (-1) true wideStringLE) bs bigEndian idx ∧
      BufferOnly (readWString .untilNullTerm (-1) wideStringLE) bs bigEndian idx := by
  obtain rfl | hlarge := hunscanned
  · exact ⟨bufferOnly_empty _ _, bufferOnly_empty _ _, bufferOnly_empty _ _⟩
  · have hlo : 0 ≤ idx.toInt := by omega
    have hne : bs ≠ [] := by
      rintro rfl
      exact absurd hlarge (by decide)
    exact ⟨readString_bufferOnly hne hlen hlo (scanned_large hidx hle hlarge hlen),
      readString_wide_bufferOnly hne hlen hlo (scanned_large hidx hle hlarge hlen) (by decide),
      readWString_bufferOnly hne hlen hlo (scanned_large hidx hle hlarge hlen)⟩

/-- A read that fails with its scan depends on more than the buffer, unless there is a zero byte. -/
theorem firstZero_of_bufferOnly {α : Type} {read : StreamM α} (hlen : bs.length < 2 ^ 63)
    (hidx : idx.toInt = i) (hle : i ≤ bs.length)
    (hread : scanLength (readerAt bs unmapped bigEndian idx) idx wideString wideStringLE = none →
      read.run (readerAt bs unmapped bigEndian idx) =
        .error .undefinedBehaviour (readerAt bs unmapped bigEndian idx))
    (honly : BufferOnly read bs bigEndian idx) :
    ∃ n, FirstZero bs (scanStart i wideStringLE) (if wideString then 2 else 1) n := by
  by_contra hnone
  exact not_bufferOnly (hread (scanLength_unmapped hidx hle hlen (not_exists.mp hnone))) honly

theorem readString_firstZero (hne : bs ≠ []) (hlen : bs.length < 2 ^ 63) (hidx : idx.toInt = i)
    (hle : i ≤ bs.length)
    (honly : BufferOnly (readString .untilNullTerm (-1) wideString wideStringLE) bs bigEndian idx) :
    ∃ n, FirstZero bs (scanStart i wideStringLE) (if wideString then 2 else 1) n := by
  have hsize : (readerAt bs unmapped bigEndian idx).bufferSize ≠ 0 :=
    bufferSize_readerAt_ne hne (hlen.trans (by norm_num)) unmapped
  have hlo : 0 ≤ idx.toInt := by omega
  exact firstZero_of_bufferOnly hlen hidx hle (readString_unscanned rfl hsize hlo) honly

theorem readString_wide_short (hne : bs ≠ []) (hlen : bs.length < 2 ^ 63) (hidx : idx.toInt = i)
    (hle : i ≤ bs.length)
    (honly : BufferOnly (readString .untilNullTerm (-1) true wideStringLE) bs bigEndian idx) :
    ∃ n, FirstZero bs (scanStart i wideStringLE) 2 n ∧ n % 2 ^ 32 < 2 := by
  obtain ⟨n, hzero⟩ := readString_firstZero hne hlen hidx hle honly
  refine ⟨n, hzero, ?_⟩
  by_contra hlong
  have hcount : 2 ≤ (UInt32.ofNat n).toNat := by
    rw [UInt32.toNat_ofNat']
    exact not_lt.mp hlong
  have hlo : 0 ≤ idx.toInt := by omega
  exact readString_wide_strays hne (hlen.trans (by norm_num)) hlo (scanned_firstZero hidx hlen hzero) hcount
    honly

theorem readWString_firstZero (hne : bs ≠ []) (hlen : bs.length < 2 ^ 63) (hidx : idx.toInt = i)
    (hle : i ≤ bs.length)
    (honly : BufferOnly (readWString .untilNullTerm (-1) wideStringLE) bs bigEndian idx) :
    ∃ n, FirstZero bs (scanStart i wideStringLE) 2 n := by
  have hsize : (readerAt bs unmapped bigEndian idx).bufferSize ≠ 0 :=
    bufferSize_readerAt_ne hne (hlen.trans (by norm_num)) unmapped
  have hlo : 0 ≤ idx.toInt := by omega
  exact firstZero_of_bufferOnly hlen hidx hle (readWString_unscanned rfl hsize hlo) honly

end BufferOnly

/-- The reads that look for a terminator depend on their buffer alone exactly when they find one there,
and, for a wide `ReadString`, find it within two characters. -/
theorem untilNullTerm_bufferOnly_iff {bs : List UInt8} (hlen : bs.length < 2 ^ 64) (bigEndian : Bool)
    {idx : Int32} {i : ℕ} (hidx : idx.toInt = i) (hle : i ≤ bs.length) (wideStringLE : Bool) :
    (BufferOnly (readString .untilNullTerm (-1) false wideStringLE) bs bigEndian idx ↔
        Unscanned bs ∨ ∃ n, FirstZero bs (scanStart i wideStringLE) 1 n) ∧
      (BufferOnly (readString .untilNullTerm (-1) true wideStringLE) bs bigEndian idx ↔
        Unscanned bs ∨ ∃ n, FirstZero bs (scanStart i wideStringLE) 2 n ∧ n % 2 ^ 32 < 2) ∧
      (BufferOnly (readWString .untilNullTerm (-1) wideStringLE) bs bigEndian idx ↔
        Unscanned bs ∨ ∃ n, FirstZero bs (scanStart i wideStringLE) 2 n) := by
  by_cases hunscanned : Unscanned bs
  · have hall := unscanned_bufferOnly hlen hidx hle hunscanned bigEndian wideStringLE
    simp [hall, hunscanned]
  · obtain ⟨hne, hsmall⟩ := not_or.mp hunscanned
    have hlen' : bs.length < 2 ^ 63 := not_le.mp hsmall
    have hlo : 0 ≤ idx.toInt := by omega
    simp only [hunscanned, false_or]
    refine ⟨⟨readString_firstZero hne hlen' hidx hle, ?_⟩, ⟨readString_wide_short hne hlen' hidx hle, ?_⟩,
      ⟨readWString_firstZero hne hlen' hidx hle, ?_⟩⟩
    · rintro ⟨n, hzero⟩
      exact readString_bufferOnly hne hlen hlo (scanned_firstZero hidx hlen' hzero)
    · rintro ⟨n, hzero, hshort⟩
      have hcount : (UInt32.ofNat n).toNat < 2 := by
        rw [UInt32.toNat_ofNat']
        exact hshort
      exact readString_wide_bufferOnly hne hlen hlo (scanned_firstZero hidx hlen' hzero) hcount
    · rintro ⟨n, hzero⟩
      exact readWString_bufferOnly hne hlen hlo (scanned_firstZero hidx hlen' hzero)

theorem untilNullTerm_bufferOnly_example :
    BufferOnly (readString .untilNullTerm (-1) false false) [65, 66, 0] false 0 := by
  have hlen : [65, 66, (0 : UInt8)].length < 2 ^ 64 := by decide
  have hidx : (0 : Int32).toInt = (0 : ℕ) := rfl
  have hzero : FirstZero [65, 66, 0] (scanStart 0 false) 1 2 := by
    refine ⟨rfl, ?_⟩
    decide
  exact (untilNullTerm_bufferOnly_iff hlen false hidx (Nat.zero_le _) false).1.mpr (.inr ⟨2, hzero⟩)

/-- One byte and no terminator: what lies behind the buffer decides, and is returned. -/
theorem unterminated_read_leaks :
    ¬BufferOnly (readString .untilNullTerm (-1) false false) [65] false 0 := by
  intro honly
  obtain ⟨seen, hzero, hother⟩ := honly (fun _ => some 0) fun o => if o = 1 then some 66 else some 0
  have hempty : observe ((readString .untilNullTerm (-1) false false).run
      (readerAt [65] (fun _ => some 0) false 0)) = some (.ok ([], 1)) := by
    decide
  have hleak : observe ((readString .untilNullTerm (-1) false false).run
      (readerAt [65] (fun o => if o = 1 then some 66 else some 0) false 0)) = some (.ok ([65, 66], 2)) := by
    decide
  rw [hempty] at hzero
  rw [hleak, ← hzero] at hother
  exact absurd hother (by decide)

end H1Z1Server
