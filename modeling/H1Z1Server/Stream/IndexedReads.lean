import H1Z1Server.Stream.Checking
import H1Z1Server.Stream.Scanning

/-! Reads at an explicit index beside the same reads at a cursor that stands there: which of them leave the
cursor where it is. -/
namespace H1Z1Server
open MachineInt MemoryBlock ByteOrder ByteStreamBuffer ByteStreamReader Outcome

variable {s : ByteStreamBuffer} {m : Block} {p : Int32}

/-- The stream with its cursor at an index. -/
def seek (s : ByteStreamBuffer) (idx : Int32) : ByteStreamBuffer := { s with idx }

/-- However a read at an explicit index ends, the cursor is where it was; and what it returns, the read
without an index returns at a cursor that stands there. -/
def KeepsCursor {α : Type} (read : Int32 → StreamM α) (startIndex : Int32) (s : ByteStreamBuffer) : Prop :=
  Mirrors (read startIndex) (read (-1)) s (seek s startIndex) (fun _ s' _ => s'.idx = s.idx)
    fun _ s' => s'.idx = s.idx

/-- A part of a read that changes nothing, and to which the cursor makes no difference. -/
def Blind {α : Type} (s : ByteStreamBuffer) (p : Int32) (x : StreamM α) (Q : α → Prop) : Prop :=
  Mirrors x x s (seek s p) (fun a s' t' => Q a ∧ s' = s ∧ t' = seek s p) fun _ s' => s' = s

/-- The two ends of a read: at an explicit index it leaves the stream as it is. -/
def Apart {α : Type} (s : ByteStreamBuffer) (p : Int32) (x y : StreamM α) : Prop :=
  Mirrors x y s (seek s p) (fun _ s' _ => s' = s) fun _ s' => s' = s

section Rules
variable {α β : Type} {Q : α → Prop}

theorem Blind.seq {x : StreamM α} {f : α → StreamM β} {Q' : β → Prop} (hx : Blind s p x Q)
    (hf : ∀ a, Q a → Blind s p (f a) Q') : Blind s p (x >>= f) Q' := by
  apply Mirrors.seq hx
  rintro a _ _ ⟨hQ, rfl, rfl⟩
  exact hf a hQ

theorem Apart.seq {x : StreamM α} {f g : α → StreamM β} (hx : Blind s p x Q)
    (hf : ∀ a, Q a → Apart s p (f a) (g a)) : Apart s p (x >>= f) (x >>= g) := by
  apply Mirrors.seq hx
  rintro a _ _ ⟨hQ, rfl, rfl⟩
  exact hf a hQ

theorem blind_load (o : ℤ) (n : ℕ) : Blind s p (load o n) fun _ => True := by
  unfold Blind Mirrors
  have hseek : (seek s p).buffer = s.buffer := rfl
  rw [load_run, load_run, hseek]
  cases s.buffer.bind (·.load o n) with
  | none => rfl
  | some bs => exact ⟨_, rfl, trivial, rfl, rfl⟩

/-- `SAFETY_CHECK` at an explicit index. -/
theorem blind_safetyCheck (hp : p ≠ -1) (f : String) :
    Blind s p (safetyCheck f p) fun v => v = (p, false) := by
  have hresolve : ∀ s : ByteStreamBuffer, resolve s p = p := fun _ => if_neg hp
  have hindex : resolve s p ≠ -1 ∧ resolve (seek s p) p ≠ -1 := by simp only [hresolve, hp, ne_eq, not_false_iff, and_self]
  unfold Blind Mirrors
  obtain hnull | ⟨m, hbuf, hzero⟩ := null_or_buffer s
  · rw [safetyCheck_null hnull]
    rfl
  · rw [safetyCheck_passed hbuf hzero hindex.1, hresolve, decide_eq_false hp]
    refine ⟨seek s p, ?_, rfl, rfl, rfl⟩
    rw [safetyCheck_passed (s := seek s p) hbuf hzero hindex.2, hresolve, decide_eq_false hp]

theorem blind_readSized (hp : p ≠ -1) (f : String) (size : UInt64) (value : Bool → List UInt8 → α) :
    Blind s p (readSized f size value p) fun _ => True := by
  unfold readSized
  apply Blind.seq (blind_safetyCheck hp f)
  rintro _ rfl
  refine mirrors_get_iff.mpr (mirrors_guard (fun _ => rfl) fun _ => Blind.seq (blind_load _ _) fun _ _ => ?_)
  exact mirrors_pure ⟨trivial, rfl, rfl⟩

theorem blind_readPrefix (hp : p ≠ -1) (f : String) : Blind s p (readPrefix f p) fun _ => True := by
  unfold readPrefix
  refine mirrors_get_iff.mpr (mirrors_guard (fun _ => rfl) fun _ => ?_)
  refine Blind.seq (blind_readSized hp _ 4 _) fun str_size _ => ?_
  refine mirrors_guard (fun _ => rfl) fun _ => mirrors_guard (fun _ => rfl) fun _ => ?_
  exact mirrors_pure ⟨trivial, rfl, rfl⟩

/-- The end of a read: at the cursor it moves it. -/
theorem apart_end (idx : Int32) (a : α) :
    Apart s p (pure a) (setIdx idx >>= fun _ => pure a) := ⟨_, rfl, rfl⟩

end Rules

theorem Apart.keeps {α : Type} {x y : StreamM α} (h : Apart s p x y) :
    Mirrors x y s (seek s p) (fun _ s' _ => s'.idx = s.idx) fun _ s' => s'.idx = s.idx := by
  refine h.mono ?_ ?_
  · rintro a _ ⟨t', hrun, rfl⟩
    exact ⟨t', hrun, rfl⟩
  · rintro e _ rfl
    rfl

section Indexed
variable {α : Type}

/-- A read that begins with `SAFETY_CHECK` keeps the cursor if what comes behind it does. -/
theorem keepsCursor_iff_of_passed {read : Int32 → StreamM α} {f : String} {body : Int32 × Bool → StreamM α}
    (hread : ∀ i, read i = safetyCheck f i >>= body) (hp : p ≠ -1) (hbuf : s.buffer = some m)
    (hzero : s.bufferSize ≠ 0) :
    KeepsCursor read p s ↔ Mirrors (body (p, false)) (body (p, true)) s (seek s p)
      (fun _ s' _ => s'.idx = s.idx) fun _ s' => s'.idx = s.idx := by
  have hexplicit : resolve s p = p := if_neg hp
  have hcursor : resolve (seek s p) (-1) = p := rfl
  have hrun : (read p).run s = (body (p, false)).run s := by
    have hpass := safetyCheck_passed hbuf hzero (by rw [hexplicit]; exact hp) f
    rw [hexplicit, decide_eq_false hp] at hpass
    rw [hread, run_bind_ok hpass]
  have hrun' : (read (-1)).run (seek s p) = (body (p, true)).run (seek s p) := by
    have hat : resolve (seek s p) (-1) ≠ -1 := by rw [hcursor]; exact hp
    have hpass := safetyCheck_passed (s := seek s p) hbuf hzero hat f
    rw [hcursor] at hpass
    rw [hread, run_bind_ok hpass]
    rfl
  unfold KeepsCursor Mirrors
  rw [hrun, hrun']

theorem keepsCursor_of_thrown {read : Int32 → StreamM α} {f : String} {body : Int32 × Bool → StreamM α}
    (hread : ∀ i, read i = safetyCheck f i >>= body) {e : Abort} (hrun : (safetyCheck f p).run s = .error e s) :
    KeepsCursor read p s := by
  unfold KeepsCursor Mirrors
  rw [hread, run_bind_error hrun]
  rfl

theorem keepsCursor_of_apart {read : Int32 → StreamM α} {f : String} {body : Int32 × Bool → StreamM α}
    (hread : ∀ i, read i = safetyCheck f i >>= body) (hp : p ≠ -1)
    (hbody : Apart s p (body (p, false)) (body (p, true))) : KeepsCursor read p s := by
  obtain hnull | ⟨m, hbuf, hzero⟩ := null_or_buffer s
  · exact keepsCursor_of_thrown hread (safetyCheck_null hnull f p)
  · rw [keepsCursor_iff_of_passed hread hp hbuf hzero]
    exact hbody.keeps

theorem readSized_keepsCursor (hp : p ≠ -1) (f : String) (size : UInt64) (value : Bool → List UInt8 → α) :
    KeepsCursor (fun startIndex => readSized f size value startIndex) p s := by
  apply keepsCursor_of_apart (fun _ => rfl) hp
  refine mirrors_get_iff.mpr (mirrors_guard (fun _ => rfl) fun _ => Apart.seq (blind_load _ _) fun _ _ => ?_)
  exact apart_end _ _

theorem readData_keepsCursor (hp : p ≠ -1) (dataSize : UInt64) :
    KeepsCursor (fun startIndex => readData dataSize startIndex) p s := by
  apply keepsCursor_of_apart (fun _ => rfl) hp
  refine mirrors_get_iff.mpr (mirrors_guard (fun _ => rfl) fun _ => ?_)
  exact apart_end _ _

end Indexed

/-- The characters from an offset on up to the one that ends the scan for a terminator: the terminator, or
the first character behind `last`. -/
def Scans (m : Block) (last p : ℤ) (stride n : ℕ) : Prop :=
  Passes m last p stride n ∧ ∃ b, m.peek (p + stride * n) = some b ∧ (b = 0 ∨ last < p + stride * n)

section Scans
variable {last p : ℤ} {stride rounds n : ℕ}

theorem Scans.scan_eq (h : Scans m last p stride n) (hrounds : n < rounds) :
    scan m last stride rounds p = some n := by
  obtain ⟨hpass, b, hpeek, hstop⟩ := h
  obtain ⟨left, rfl⟩ := Nat.exists_eq_add_of_lt hrounds
  have hend : ¬(b ≠ 0 ∧ p + stride * n ≤ last) := fun hgo => hstop.elim hgo.1 (not_lt.mpr hgo.2)
  rw [Nat.add_assoc, scan_add hpass, scan, hpeek]
  simp only [hend, if_false, Option.map_some, zero_add]

/-- A scan with rounds enough to get behind `last`. -/
theorem scans_of_scan_eq (hstride : 0 < stride) (hrounds : last - p + 1 < rounds) (hpos : 0 < rounds)
    (h : scan m last stride rounds p = some n) : Scans m last p stride n := by
  induction rounds generalizing p n with
  | zero => exact absurd hpos (lt_irrefl 0)
  | succ rounds ih =>
    obtain ⟨b, hpeek⟩ : ∃ b, m.peek p = some b := by
      cases hpeek : m.peek p with
      | none => simp [scan, hpeek] at h
      | some b => exact ⟨b, rfl⟩
    obtain ⟨rfl, hstop⟩ | ⟨k, rfl, hle, hne, hrest⟩ := scan_cases h
    · refine ⟨fun j hj => absurd hj (Nat.not_lt_zero j), b, by simpa using hpeek, ?_⟩
      by_cases hle : p ≤ last
      · exact .inl (Option.some.inj (hpeek.symm.trans (hstop hle)))
      · exact .inr (by simpa using hle)
    · have hnext := ih (by push_cast at hrounds; omega) (by omega) hrest
      obtain ⟨hpass, hstop⟩ := hnext
      refine ⟨fun j hj => ?_, by rw [stride_succ]; exact hstop⟩
      cases j with
      | zero =>
        have hb : b ≠ 0 := fun hzero => hne (hzero ▸ hpeek)
        simpa using And.intro hle ⟨b, hb, hpeek⟩
      | succ j =>
        rw [stride_succ]
        exact hpass j (Nat.lt_of_succ_lt_succ hj)

theorem Scans.le (hstride : 0 < stride) (h : Scans m last p stride n) : (n : ℤ) ≤ (last - p + 1).toNat := by
  rcases Nat.eq_zero_or_pos n with rfl | hpos
  · exact Int.natCast_nonneg _
  · have hlast := (h.1 (n - 1) (by omega)).1
    have hmany : ((n - 1 : ℕ) : ℤ) ≤ stride * (n - 1 : ℕ) := by
      exact_mod_cast Nat.le_mul_of_pos_left (n - 1) hstride
    omega

end Scans

/-- A scan of the stream from an index on counts exactly one character, as far as a `DWORD` can tell. -/
def OneCharacter (s : ByteStreamBuffer) (startIndex : Int32) (wideString wideStringLE : Bool) : Prop :=
  ∃ m n, s.buffer = some m ∧ n % 2 ^ 32 = 1 ∧
    Scans m (endOffset s.bufferSize) (startIndex.toInt + if wideStringLE then 1 else 0) (if wideString then 2 else 1) n

theorem scanLength_eq_one_iff (hbuf : s.buffer = some m) (startIndex : Int32) (wideString wideStringLE : Bool) :
    scanLength s startIndex wideString wideStringLE = some 1 ↔ OneCharacter s startIndex wideString wideStringLE := by
  have hstride : 0 < if wideString then 2 else 1 := by cases wideString <;> decide
  have hone : ∀ n, UInt32.ofNat n = 1 ↔ n % 2 ^ 32 = 1 := by
    intro n
    rw [← UInt32.toNat_inj, UInt32.toNat_ofNat']
    rfl
  rw [scanLength_eq hbuf]
  constructor
  · intro hscan
    obtain ⟨n, hcount, hn⟩ := Option.map_eq_some_iff.mp hscan
    exact ⟨m, n, hbuf, (hone n).mp hn, scans_of_scan_eq hstride (by omega) (Nat.succ_pos _) hcount⟩
  · rintro ⟨m', n, hbuf', hn, hscans⟩
    obtain rfl := Option.some.inj (hbuf.symm.trans hbuf')
    have hle := hscans.le hstride
    rw [hscans.scan_eq (by omega), Option.map_some, (hone n).mpr hn]

theorem readString_prefixed_keepsCursor (hp : p ≠ -1) {mode : StringInterpretMode} (hmode : mode ≠ .untilNullTerm)
    (wideString wideStringLE : Bool) :
    KeepsCursor (fun startIndex => readString mode startIndex wideString wideStringLE) p s := by
  apply keepsCursor_of_apart (fun _ => rfl) hp
  cases mode with
  | untilNullTerm => exact absurd rfl hmode
  | givenSize | givenSizeNullTerm =>
    cases wideString with
    | false =>
      apply Apart.seq (blind_readPrefix hp _)
      rintro ⟨start, str_size⟩ -
      exact Apart.seq (blind_load _ _) fun _ _ => apart_end _ _
    | true =>
      apply Apart.seq (blind_readPrefix hp _)
      rintro ⟨start, str_size⟩ -
      refine Apart.seq (blind_load _ _) fun _ _ => mirrors_guard (fun _ => rfl) fun _ => ?_
      exact apart_end _ _

theorem readWString_prefixed_keepsCursor (hp : p ≠ -1) {mode : StringInterpretMode} (hmode : mode ≠ .untilNullTerm)
    (wideStringLE : Bool) :
    KeepsCursor (fun startIndex => readWString mode startIndex wideStringLE) p s := by
  apply keepsCursor_of_apart (fun _ => rfl) hp
  cases mode with
  | untilNullTerm => exact absurd rfl hmode
  | givenSize | givenSizeNullTerm =>
    apply Apart.seq (blind_readPrefix hp _)
    rintro ⟨start, str_size⟩ -
    exact Apart.seq (blind_load _ _) fun _ _ => apart_end _ _

/-- A string of one character moves the cursor, whether or not an index was given. -/
theorem counted_keeps_iff {α : Type} (n : UInt32) (empty : α) {x y : StreamM α} (h : Apart s p x y) :
    Mirrors (if n == 1 then (do modify fun s => { s with idx := s.idx + 1 }; return empty) else x : StreamM α)
      (if n == 1 then (do modify fun s => { s with idx := s.idx + 1 }; return empty) else y : StreamM α)
      s (seek s p) (fun _ s' _ => s'.idx = s.idx) (fun _ s' => s'.idx = s.idx) ↔ n ≠ 1 := by
  by_cases hone : n = 1
  · subst hone
    refine iff_of_false ?_ (not_not.mpr rfl)
    rintro ⟨t', -, hidx⟩
    have hmoved : s.idx + 1 = s.idx + 0 := hidx.trans (Int32.add_zero s.idx).symm
    exact absurd ((Int32.add_right_inj s.idx).mp hmoved) (by decide)
  · have hbeq : ¬(n == 1) = true := by simpa using hone
    rw [if_neg hbeq, if_neg hbeq]
    exact iff_of_true h.keeps hone

theorem not_oneCharacter_of_noBuffer (hbuf : s.buffer = none) (wideString wideStringLE : Bool) :
    ¬OneCharacter s p wideString wideStringLE := by
  rintro ⟨m, n, hsome, -⟩
  exact Option.some_ne_none m (hsome.symm.trans hbuf)

theorem readString_scanned_keepsCursor_iff (hp : p ≠ -1) (hzero : s.bufferSize ≠ 0)
    (wideString wideStringLE : Bool) :
    KeepsCursor (fun startIndex => readString .untilNullTerm startIndex wideString wideStringLE) p s ↔
      ¬OneCharacter s p wideString wideStringLE := by
  cases hbuf : s.buffer with
  | none =>
    exact iff_of_true (keepsCursor_of_thrown (fun _ => rfl) (safetyCheck_null (.inl hbuf) _ p))
      (not_oneCharacter_of_noBuffer hbuf _ _)
  | some m =>
    have hseek : scanLength (seek s p) p wideString wideStringLE = scanLength s p wideString wideStringLE := rfl
    rw [← scanLength_eq_one_iff hbuf]
    refine (keepsCursor_iff_of_passed (fun _ => rfl) hp hbuf hzero).trans (mirrors_get_iff.trans ?_)
    rw [hseek]
    cases hscan : scanLength s p wideString wideStringLE with
    | none => exact iff_of_true rfl (by simp)
    | some n =>
      have hcount : some n = some (1 : UInt32) ↔ n = 1 := by simp
      rw [hcount]
      apply counted_keeps_iff n []
      cases wideString with
      | false => exact Apart.seq (blind_load _ _) fun _ _ => apart_end _ _
      | true =>
        refine Apart.seq (blind_load _ _) fun _ _ => mirrors_guard (fun _ => rfl) fun _ => ?_
        exact apart_end _ _

theorem readWString_scanned_keepsCursor_iff (hp : p ≠ -1) (hzero : s.bufferSize ≠ 0) (wideStringLE : Bool) :
    KeepsCursor (fun startIndex => readWString .untilNullTerm startIndex wideStringLE) p s ↔
      ¬OneCharacter s p true wideStringLE := by
  cases hbuf : s.buffer with
  | none =>
    exact iff_of_true (keepsCursor_of_thrown (fun _ => rfl) (safetyCheck_null (.inl hbuf) _ p))
      (not_oneCharacter_of_noBuffer hbuf _ _)
  | some m =>
    have hseek : scanLength (seek s p) p true wideStringLE = scanLength s p true wideStringLE := rfl
    rw [← scanLength_eq_one_iff hbuf]
    refine (keepsCursor_iff_of_passed (fun _ => rfl) hp hbuf hzero).trans (mirrors_get_iff.trans ?_)
    rw [hseek]
    cases hscan : scanLength s p true wideStringLE with
    | none => exact iff_of_true rfl (by simp)
    | some n =>
      have hcount : some n = some (1 : UInt32) ↔ n = 1 := by simp
      rw [hcount]
      apply counted_keeps_iff n []
      exact Apart.seq (blind_load _ _) fun _ _ => apart_end _ _

/-- Reads at an index inside the buffer leave the cursor where it is, and agree with the reads at the cursor,
but for those that look for a terminator and find one character in front of it. -/
theorem indexed_reads_iff (hlo : 0 ≤ p.toInt) (hin : p.toInt < s.bufferSize.toNat) :
    (KeepsCursor (fun startIndex => readByte startIndex) p s ∧
      KeepsCursor (fun startIndex => readWord startIndex) p s ∧
      KeepsCursor (fun startIndex => readDword startIndex) p s ∧
      KeepsCursor (fun startIndex => readQword startIndex) p s ∧
      ∀ dataSize, KeepsCursor (fun startIndex => readData dataSize startIndex) p s) ∧
    ∀ mode wideStringLE,
      (∀ wideString,
        KeepsCursor (fun startIndex => readString mode startIndex wideString wideStringLE) p s ↔
          ¬(mode = .untilNullTerm ∧ OneCharacter s p wideString wideStringLE)) ∧
      (KeepsCursor (fun startIndex => readWString mode startIndex wideStringLE) p s ↔
        ¬(mode = .untilNullTerm ∧ OneCharacter s p true wideStringLE)) := by
  have hp : p ≠ -1 := ne_neg_one_of_nonneg hlo
  have hzero : s.bufferSize ≠ 0 := ne_zero_of_pos (by omega)
  refine ⟨⟨readSized_keepsCursor hp _ 1 _, readSized_keepsCursor hp _ 2 _, readSized_keepsCursor hp _ 4 _,
    readSized_keepsCursor hp _ 8 _, readData_keepsCursor hp⟩, fun mode wideStringLE => ?_⟩
  by_cases hmode : mode = .untilNullTerm
  · subst hmode
    simp only [true_and]
    exact ⟨fun wideString => readString_scanned_keepsCursor_iff hp hzero wideString wideStringLE,
      readWString_scanned_keepsCursor_iff hp hzero wideStringLE⟩
  · simp only [hmode, false_and, not_false_iff, iff_true]
    exact ⟨fun wideString => readString_prefixed_keepsCursor hp hmode wideString wideStringLE,
      readWString_prefixed_keepsCursor hp hmode wideStringLE⟩

theorem indexed_reads_example :
    KeepsCursor (fun startIndex => readString .givenSize startIndex) 1 (readerAt [9, 1, 0, 0, 0, 65] unmapped false 0) :=
  (((indexed_reads_iff (p := 1) (s := readerAt [9, 1, 0, 0, 0, 65] unmapped false 0) (by decide) (by decide)).2
    .givenSize false).1 false).mpr fun hone => absurd hone.1 (by decide)

/-- The string "A" at index 0, read by a reader whose cursor stands behind it. -/
theorem indexed_read_moves_cursor :
    ¬KeepsCursor (fun startIndex => readString .untilNullTerm startIndex) 0 (readerAt [65, 0, 7] unmapped false 2) := by
  intro hkeeps
  have hrun : (readString .untilNullTerm 0).run (readerAt [65, 0, 7] unmapped false 2) =
      .ok [] (readerAt [65, 0, 7] unmapped false 3) := rfl
  unfold KeepsCursor Mirrors at hkeeps
  rw [hrun] at hkeeps
  obtain ⟨t', -, hidx⟩ := hkeeps
  exact absurd hidx (by decide)

end H1Z1Server
