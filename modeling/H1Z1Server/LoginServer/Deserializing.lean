import H1Z1Server.LoginServer.Entries

/-! `Deserialize` on the bytes of a packet: a string is read up to its terminator and not past it,
so that everything behind it is read a byte too early. -/
namespace H1Z1Server
open MachineInt MemoryBlock ByteOrder ByteStreamBuffer ByteStreamReader

variable {s : ByteStreamBuffer} {done todo rest : List UInt8}

def NumberType.read : NumberType → StreamM LuaValue
  | dword => BufferReader.readDword
  | qword => BufferReader.readQword
  | word => BufferReader.readWord
  | byte => BufferReader.readByte

/-- The call that reads an entry back. -/
def Entry.read : Entry → StreamM LuaValue
  | number t _ _ _ => t.read
  | text _ _ _ => BufferReader.readString .untilNullTerm

def readEntries : List Entry → StreamM (List LuaValue)
  | [] => return []
  | e :: entries => do
    let v ← e.read
    let vs ← readEntries entries
    return v :: vs

/-- The number that Lua gets for one that was read. -/
def NumberType.pushed : NumberType → ℕ → ℕ
  | qword, n => roundToDouble n
  | _, n => n

theorem roundToDouble_of_le {n : ℕ} (h : n ≤ 2 ^ 53) : roundToDouble n = n := by
  rcases Nat.lt_or_eq_of_le h with hlt | rfl
  · exact if_pos hlt
  · decide

/-- Rounding does not bring a number below 2^53. -/
theorem le_roundToDouble {n : ℕ} (h : 2 ^ 53 ≤ n) : 2 ^ 53 ≤ roundToDouble n := by
  have hne : n ≠ 0 := by omega
  have hlog : 53 ≤ Nat.log2 n := (Nat.le_log2 hne).mpr h
  have hpow : 2 ^ 52 * 2 ^ (Nat.log2 n - 52) = 2 ^ Nat.log2 n := by
    rw [← pow_add, Nat.add_sub_cancel' (by omega)]
  have hquot : 2 ^ 52 ≤ n / 2 ^ (Nat.log2 n - 52) := by
    rw [Nat.le_div_iff_mul_le (by positivity), hpow]
    exact Nat.log2_self_le hne
  unfold roundToDouble
  rw [if_neg (not_lt.mpr h)]
  calc 2 ^ 53 ≤ 2 ^ Nat.log2 n := Nat.pow_le_pow_right two_pos hlog
    _ = 2 ^ 52 * 2 ^ (Nat.log2 n - 52) := hpow.symm
    _ ≤ _ := Nat.mul_le_mul_right _ (by split <;> omega)

theorem NumberType.pushed_of_le (t : NumberType) {n : ℕ} (h : n ≤ 2 ^ 53) : t.pushed n = n := by
  cases t with
  | qword => exact roundToDouble_of_le h
  | dword | word | byte => rfl

/-- A small number is pushed for itself only. -/
theorem NumberType.pushed_eq_iff (t : NumberType) {m n : ℕ} (hn : n < 2 ^ 53) : t.pushed m = n ↔ m = n := by
  by_cases hm : m ≤ 2 ^ 53
  · rw [t.pushed_of_le hm]
  · cases t with
    | qword =>
      have hge := le_roundToDouble (n := m) (by omega)
      refine iff_of_false (fun heq => ?_) (by omega)
      rw [NumberType.pushed] at heq
      omega
    | dword | word | byte => exact Iff.rfl

/-- A number that the buffer has. -/
theorem NumberType.read_run {bs : List UInt8} (h : Facing s done (bs ++ rest)) (t : NumberType)
    (hlen : bs.length = t.width) (hbig : s.bigEndian = true) (hidx : done.length + bs.length < 2 ^ 31) :
    ∃ s', t.read.run s = .ok (.number (t.pushed (decodeNat true bs))) s' ∧
      Facing s' (done ++ bs) rest ∧ s'.bigEndian = true ∧ s'.buffer = s.buffer := by
  have hlt := decodeNat_lt true bs
  rw [hlen] at hlt
  cases t with
  | dword =>
    obtain ⟨s', hrun, hafter, hbig', hbuf⟩ := readSized_run h "ByteStreamReader::ReadDword" 4
      (fun bigEndian bs => autoEndian4 bigEndian (UInt32.ofNat (ofLE bs))) hlen (by decide) hidx
    rw [autoEndian4_ofLE s.bigEndian hlen, hbig] at hrun
    have hvalue : (UInt32.ofNat (decodeNat true bs)).toNat = decodeNat true bs := by
      rw [UInt32.toNat_ofNat', Nat.mod_eq_of_lt (show _ < 2 ^ 32 from hlt)]
    have hmap := run_map_ok (f := fun d : UInt32 => LuaValue.number d.toNat) hrun
    rw [hvalue] at hmap
    exact ⟨s', hmap, hafter, hbig'.trans hbig, hbuf⟩
  | qword =>
    obtain ⟨s', hrun, hafter, hbig', hbuf⟩ := readSized_run h "ByteStreamReader::ReadQword" 8
      (fun bigEndian bs => autoEndian8 bigEndian (UInt64.ofNat (ofLE bs))) hlen (by decide) hidx
    rw [autoEndian8_ofLE s.bigEndian hlen, hbig] at hrun
    have hvalue : (UInt64.ofNat (decodeNat true bs)).toNat = decodeNat true bs := by
      rw [UInt64.toNat_ofNat', Nat.mod_eq_of_lt (show _ < 2 ^ 64 from hlt)]
    have hmap := run_map_ok (f := fun q : UInt64 => LuaValue.number (roundToDouble q.toNat)) hrun
    rw [hvalue] at hmap
    exact ⟨s', hmap, hafter, hbig'.trans hbig, hbuf⟩
  | word =>
    obtain ⟨s', hrun, hafter, hbig', hbuf⟩ := readSized_run h "ByteStreamReader::ReadWord" 2
      (fun bigEndian bs => autoEndian2 bigEndian (UInt16.ofNat (ofLE bs))) hlen (by decide) hidx
    rw [autoEndian2_ofLE s.bigEndian hlen, hbig] at hrun
    have hvalue : (UInt16.ofNat (decodeNat true bs)).toNat = decodeNat true bs := by
      rw [UInt16.toNat_ofNat', Nat.mod_eq_of_lt (show _ < 2 ^ 16 from hlt)]
    have hmap := run_map_ok (f := fun w : UInt16 => LuaValue.number w.toNat) hrun
    rw [hvalue] at hmap
    exact ⟨s', hmap, hafter, hbig'.trans hbig, hbuf⟩
  | byte =>
    obtain ⟨s', hrun, hafter, hbig', hbuf⟩ := readSized_run h "ByteStreamReader::ReadByte" 1
      (fun _ bs => UInt8.ofNat (ofLE bs)) hlen (by decide) hidx
    have hone : ofLE bs = decodeNat true bs := by
      obtain ⟨b, rfl⟩ := List.length_eq_one_iff.mp hlen
      rfl
    have hvalue : (UInt8.ofNat (decodeNat true bs)).toNat = decodeNat true bs := by
      rw [UInt8.toNat_ofNat', Nat.mod_eq_of_lt (show _ < 2 ^ 8 from hlt)]
    have hmap := run_map_ok (f := fun b : UInt8 => LuaValue.number b.toNat) hrun
    rw [hone, hvalue] at hmap
    exact ⟨s', hmap, hafter, hbig'.trans hbig, hbuf⟩

/-- The values come back when the first does, and the others do from there. -/
theorem readEntries_cons {e : Entry} {entries : List Entry} {v w : LuaValue} {ws : List LuaValue}
    {s₁ : ByteStreamBuffer} (h : e.read.run s = .ok v s₁) :
    (∃ s', (readEntries (e :: entries)).run s = .ok (w :: ws) s') ↔
      v = w ∧ ∃ s', (readEntries entries).run s₁ = .ok ws s' := by
  rw [readEntries]
  exact run_cons_iff h

/-- A number that is read too early has lost its low bytes. -/
theorem decode_early_lt (d w : ℕ) {n : ℕ} (hpos : n ≠ 0) (tail : List UInt8) :
    decodeNat true ((List.replicate (d + 1) 0 ++ (encodeNat true w n ++ tail)).take w) < n := by
  have hsplit : (List.replicate (d + 1) 0 ++ (encodeNat true w n ++ tail)).take w =
      List.replicate (min w (d + 1)) 0 ++ (encodeNat true w n).take (w - (d + 1)) := by
    rw [List.take_append, List.take_replicate, List.length_replicate,
      List.take_append_of_le_length (by rw [length_encodeNat]; omega)]
  have htake : (encodeNat true w n).take (w - (d + 1)) =
      ((toLE w n).drop (w - (w - (d + 1)))).reverse := by
    show (toLE w n).reverse.take (w - (d + 1)) = _
    rw [List.take_reverse, length_toLE]
  show ofLE (List.reverse _) < n
  rw [hsplit, htake, List.reverse_append, List.reverse_reverse, List.reverse_replicate, ofLE_append,
    ofLE_replicate_zero, Nat.mul_zero, Nat.add_zero, toLE_drop, ofLE_toLE]
  by_cases hw : w = 0
  · rw [hw]
    simpa [Nat.mod_one] using Nat.pos_of_ne_zero hpos
  · have hj : w - (w - (d + 1)) ≠ 0 := by omega
    calc n / 256 ^ (w - (w - (d + 1))) % 256 ^ (w - (w - (w - (d + 1))))
        ≤ n / 256 ^ (w - (w - (d + 1))) := Nat.mod_le _ _
      _ < n := Nat.div_lt_self (Nat.pos_of_ne_zero hpos) (Nat.one_lt_pow hj (by norm_num))

theorem replicate_append_comm (j w : ℕ) (tail : List UInt8) :
    List.replicate j (0 : UInt8) ++ (List.replicate w 0 ++ tail) =
      List.replicate w 0 ++ (List.replicate j 0 ++ tail) := by
  rw [← List.append_assoc, ← List.append_assoc, List.replicate_append_replicate,
    List.replicate_append_replicate, Nat.add_comm]

theorem encodeNat_zero (w : ℕ) : encodeNat true w 0 = List.replicate w 0 := by
  have hzero : toLE w 0 = List.replicate w 0 := by
    induction w with
    | zero => rfl
    | succ w ih =>
      rw [toLE, Nat.zero_div, ih, List.replicate_succ]
      rfl
  show (toLE w 0).reverse = _
  rw [hzero, List.reverse_replicate]

theorem terminatedResult_nil : terminatedResult [] = [] := rfl

section Early
variable {d : ℕ} {t : NumberType} {n : ℕ} {tail : List UInt8}

/-- Read too early, a zero is read, and as many zeros are left in front of what follows. -/
theorem read_zero_early {fits : 0 < 256 ^ t.width} {exact : 0 ≤ 2 ^ 53}
    (h : Facing s done (List.replicate (d + 1) 0 ++ ((Entry.number t 0 fits exact).bytes ++ tail)))
    (hbig : s.bigEndian = true) (hfit : done.length + t.width < 2 ^ 31) :
    ∃ s', (Entry.number t 0 fits exact).read.run s = .ok (.number (0 : ℕ)) s' ∧
      Facing s' (done ++ List.replicate t.width 0) (List.replicate (d + 1) 0 ++ tail) ∧
      s'.bigEndian = true := by
  have hbytes : (Entry.number t 0 fits exact).bytes = List.replicate t.width 0 := encodeNat_zero t.width
  rw [hbytes, replicate_append_comm] at h
  obtain ⟨s', hrun, hafter, hbig', -⟩ := NumberType.read_run h t (by rw [List.length_replicate]) hbig
    (by rw [List.length_replicate]; exact hfit)
  have hvalue : t.pushed (decodeNat true (List.replicate t.width 0)) = (0 : ℕ) := by
    rw [← encodeNat_zero, decodeNat_encodeNat true fits, t.pushed_of_le exact]
  rw [hvalue] at hrun
  exact ⟨s', hrun, hafter, hbig'⟩

/-- Any other number is read as a smaller one. -/
theorem read_number_early {fits : n < 256 ^ t.width} {exact : n ≤ 2 ^ 53} (hn : n ≠ 0)
    (h : Facing s done (List.replicate (d + 1) 0 ++ ((Entry.number t n fits exact).bytes ++ tail)))
    (hbig : s.bigEndian = true) (hfit : done.length + t.width < 2 ^ 31) :
    ∃ s' v, (Entry.number t n fits exact).read.run s = .ok v s' ∧ v ≠ .number n := by
  have hlen : (Entry.number t n fits exact).bytes.length = t.width := length_encodeNat _ _ _
  have hearly := decode_early_lt d t.width hn tail
  rw [show encodeNat true t.width n = (Entry.number t n fits exact).bytes from rfl] at hearly
  rw [← List.take_append_drop t.width (List.replicate (d + 1) 0 ++ _)] at h
  have htake : ((List.replicate (d + 1) 0 ++
      ((Entry.number t n fits exact).bytes ++ tail)).take t.width).length = t.width := by
    rw [List.length_take]
    simp only [List.length_append, List.length_replicate, hlen]
    omega
  obtain ⟨s', hrun, -⟩ := NumberType.read_run h t htake hbig (by rw [htake]; exact hfit)
  refine ⟨s', _, hrun, fun hvalue => ?_⟩
  have heq : t.pushed (decodeNat true _) = n := Int.ofNat.inj (LuaValue.number.inj hvalue)
  rw [t.pushed_of_le (hearly.le.trans exact)] at heq
  exact hearly.ne heq

/-- Any string is read as empty, and the cursor stays. -/
theorem read_text_early {bs str : List UInt8} {terminated : 0 ∉ str} {short : str.length < 2 ^ 63}
    (h : Facing s done (List.replicate (d + 1) 0 ++ bs)) (hfit : done.length + d + bs.length + 1 < 2 ^ 31) :
    ∃ s', (Entry.text str terminated short).read.run s = .ok (.string []) s' ∧
      Facing s' done (List.replicate (d + 1) 0 ++ bs) ∧ s'.bigEndian = s.bigEndian := by
  rw [List.replicate_succ, List.cons_append] at h
  have hstring := Facing.readString_terminated [] _ h List.not_mem_nil (by
    simp only [List.length_nil, List.length_append, List.length_replicate]
    omega)
  rw [terminatedResult_nil, List.append_nil] at hstring
  obtain ⟨s', hrun, hafter, hbig⟩ := hstring
  exact ⟨s', run_map_ok hrun, hafter, hbig⟩

end Early

/-- From a terminator on, the values come back only if all of them are zero or empty. -/
theorem readEntries_early_iff {entries : List Entry} {d : ℕ}
    (h : Facing s done (List.replicate (d + 1) 0 ++ (entriesBytes entries ++ rest)))
    (hbig : s.bigEndian = true)
    (hfit : done.length + (d + 1) + (entriesBytes entries).length + rest.length < 2 ^ 31) :
    (∃ s', (readEntries entries).run s = .ok (entries.map Entry.value) s') ↔
      ∀ e ∈ entries, e.Silent := by
  induction entries generalizing s done d with
  | nil => exact ⟨fun _ => nofun, fun _ => ⟨s, rfl⟩⟩
  | cons e entries ih =>
    rw [entriesBytes_cons, List.append_assoc] at h
    rw [entriesBytes_cons, List.length_append] at hfit
    rw [List.forall_mem_cons, List.map_cons]
    cases e with
    | number t n fits exact =>
      have hlen : (Entry.number t n fits exact).bytes.length = t.width := length_encodeNat _ _ _
      rw [hlen] at hfit
      by_cases hn : n = 0
      · subst hn
        obtain ⟨s₁, hrun, h₁, hbig₁⟩ := read_zero_early h hbig (by omega)
        rw [readEntries_cons hrun, ih h₁ hbig₁ (by rw [List.length_append, List.length_replicate]; omega)]
        exact and_congr_left' ⟨fun _ => rfl, fun _ => rfl⟩
      · obtain ⟨s₁, v, hrun, hother⟩ := read_number_early hn h hbig (by omega)
        rw [readEntries_cons hrun]
        exact iff_of_false (fun hvalues => hother hvalues.1) fun hsilent => hn hsilent.1
    | text str terminated short =>
      have hlong : (Entry.text str terminated short).bytes.length = str.length + 1 := List.length_append
      rw [hlong] at hfit
      obtain ⟨s₁, hrun, h₁, hbig₁⟩ := read_text_early h (by
        rw [List.length_append, hlong, List.length_append]
        omega)
      rw [readEntries_cons hrun]
      by_cases hstr : str = []
      · subst hstr
        have hbytes : (Entry.text [] terminated short).bytes = List.replicate 1 0 := rfl
        rw [hbytes, ← List.append_assoc, List.replicate_append_replicate] at h₁
        rw [ih h₁ (hbig₁.trans hbig) (by rw [List.length_nil] at hfit; omega)]
        exact and_congr_left' ⟨fun _ => rfl, fun _ => rfl⟩
      · exact iff_of_false (fun hvalues => hstr (LuaValue.string.inj hvalues.1).symm) fun hsilent =>
          hstr hsilent.1

/-- The first string is not a single byte, and everything behind it is zero or empty. -/
def StaysAligned : List Entry → Prop
  | [] => True
  | .number _ _ _ _ :: entries => StaysAligned entries
  | .text str _ _ :: entries => str.length ≠ 1 ∧ ∀ e ∈ entries, e.Silent

instance decidableStaysAligned : DecidablePred StaysAligned
  | [] => isTrue trivial
  | .number _ _ _ _ :: entries => decidableStaysAligned entries
  | .text str _ _ :: entries => inferInstanceAs (Decidable (str.length ≠ 1 ∧ ∀ e ∈ entries, e.Silent))

/-- The values of a packet come back exactly when its reads stay aligned. -/
theorem readEntries_iff {entries : List Entry} (h : Facing s done (entriesBytes entries ++ rest))
    (hbig : s.bigEndian = true)
    (hfit : done.length + (entriesBytes entries).length + rest.length < 2 ^ 31) :
    (∃ s', (readEntries entries).run s = .ok (entries.map Entry.value) s') ↔
      StaysAligned entries := by
  induction entries generalizing s done with
  | nil => exact ⟨fun _ => trivial, fun _ => ⟨s, rfl⟩⟩
  | cons e entries ih =>
    rw [entriesBytes_cons, List.append_assoc] at h
    rw [entriesBytes_cons, List.length_append] at hfit
    rw [List.map_cons]
    cases e with
    | number t n fits exact =>
      have hlen : (Entry.number t n fits exact).bytes.length = t.width := length_encodeNat _ _ _
      obtain ⟨s₁, hrun, h₁, hbig₁, -⟩ := NumberType.read_run h t hlen hbig (by omega)
      have hvalue : t.pushed (decodeNat true (Entry.number t n fits exact).bytes) = n := by
        rw [Entry.bytes, decodeNat_encodeNat true fits, t.pushed_of_le exact]
      rw [hvalue] at hrun
      rw [readEntries_cons (e := .number t n fits exact) hrun,
        ih h₁ hbig₁ (by rw [List.length_append]; omega)]
      exact and_iff_right rfl
    | text str terminated short =>
      have hbytes : (Entry.text str terminated short).bytes = str ++ [0] := rfl
      rw [hbytes, List.append_assoc] at h
      rw [hbytes, List.length_append, List.length_singleton] at hfit
      obtain ⟨s₁, hstring, h₁, hbig₁⟩ := Facing.readString_terminated str
        (entriesBytes entries ++ rest) h terminated (by rw [List.length_append]; omega)
      have hrun : (Entry.text str terminated short).read.run s = .ok (.string (terminatedResult str)) s₁ :=
        run_map_ok hstring
      rw [readEntries_cons hrun]
      by_cases hone : str.length = 1
      · constructor
        · rintro ⟨hvalue, -⟩
          have heq : terminatedResult str = str := LuaValue.string.inj hvalue
          rw [terminatedResult, if_pos hone] at heq
          rw [← heq] at hone
          cases hone
        · rintro ⟨hne, -⟩
          exact absurd hone hne
      · have hrest := readEntries_early_iff (d := 0) h₁ (hbig₁.trans hbig)
          (by rw [List.length_append]; omega)
        rw [hrest, terminatedResult, if_neg hone]
        exact and_congr_left' ⟨fun _ => hone, fun _ => rfl⟩

end H1Z1Server
