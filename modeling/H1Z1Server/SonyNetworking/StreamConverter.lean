import H1Z1Server.SonyNetworking.Histories
import H1Z1Server.Stream.Appending

/-! `StreamConverter`: encryption in place of the rest of a stream, with a new cipher object each
time, and what remains of "encryption is decryption". -/
namespace H1Z1Server
open MachineInt MemoryBlock ByteStreamBuffer

/-- `Convert(startIndex)`, with the memory that the `CRC4` on the stack happens to lie in. -/
def convert (encKey : List UInt8) (raw : CRC4) (behind : Memory) (startIndex : Int32 := 0) :
    StreamM Unit := do
  match CRC4.construct raw behind encKey with
  | .error e => throw e
  | .ok (crypto, behind) =>
    let s ← get
    let dataSize := dword (s.getBufferSize - startIndex)
    -- with no data, `Encrypt` does not use the pointer
    let data ← if dataSize = 0 then pure [] else load startIndex.toInt dataSize.toNat
    match crypto.encrypt behind data with
    | .error e => throw e
    | .ok (_, _, data) => if dataSize = 0 then pure () else store startIndex.toInt data

variable {encKey : List UInt8} {s : ByteStreamBuffer} {bs : List UInt8} {startIndex : Int32}

/-- The place in a stream that a conversion starts at, and the number of bytes it converts. -/
structure Converts (s : ByteStreamBuffer) (startIndex : Int32) (i n : ℕ) : Prop where
  start : startIndex.toInt = i
  size : s.getBufferSize.toInt = i + n

theorem Converts.dataSize {i n : ℕ} (h : Converts s startIndex i n) :
    (dword (s.getBufferSize - startIndex)).toNat = n := by
  have hlt := s.getBufferSize.toInt_lt
  have hsub : (s.getBufferSize - startIndex).toInt = n := by
    rw [Int32.toInt_sub, h.size, h.start, Int.bmod_def]
    rw [h.size] at hlt
    split <;> omega
  have hnat := toNat_dword_of_nonneg (i := s.getBufferSize - startIndex) (by omega)
  omega

theorem Converts.le_length {i n : ℕ} (h : Converts s startIndex i n) (hback : Backed s bs) :
    i + n ≤ bs.length := by
  have hsize := hback.1
  have hint : s.getBufferSize.toInt = (s.bufferSize.toNat : ℤ).bmod (2 ^ 32) := by
    rw [getBufferSize, narrow, Int32.toInt_ofInt]
    rfl
  rw [h.size, hsize, Int.bmod_def] at hint
  split at hint <;> omega

/-- A conversion encrypts the bytes from the start index on, and leaves those before it. -/
theorem convert_run (hpos : 0 < encKey.length) (hle : encKey.length ≤ 256) (hback : Backed s bs)
    {i n : ℕ} (h : Converts s startIndex i n) (raw : CRC4) (behind : Memory) :
    ∃ s', (convert encKey raw behind startIndex).run s = .ok () s' ∧
      Backed s' (bs.take i ++ RC4.crypt (CRC4.overrun encKey raw.sbox_free behind)
        ((bs.drop i).take n) ++ bs.drop (i + n)) ∧ Converts s' startIndex i n := by
  obtain ⟨crypto, behind', hnew, -, hsbox, hfree, -⟩ := CRC4.construct_run raw behind hpos hle
  have hin := h.le_length hback
  have hn := h.dataSize
  unfold convert
  rw [hnew]
  simp only
  rw [run_bind_ok (EStateM.run_get s)]
  by_cases hzero : dword (s.getBufferSize - startIndex) = 0
  · have hnone : n = 0 := by
      rw [hzero] at hn
      exact hn.symm
    subst hnone
    obtain ⟨crypto', henc, -⟩ := CRC4.encrypt_fresh hfree behind' []
    refine ⟨s, ?_, ?_, h⟩
    · simp only [hzero, if_true]
      rw [run_bind_ok (EStateM.run_pure _ _), henc]
      rfl
    · rw [List.take_zero, RC4.crypt_nil, List.append_nil, Nat.add_zero, List.take_append_drop]
      exact hback
  · have hsome : 0 < n := by
      rw [← hn]
      exact Nat.pos_of_ne_zero fun hnat => hzero (UInt32.toNat_inj.mp hnat)
    obtain ⟨hsize, ⟨rfl, -⟩ | ⟨beyond, hbuf⟩⟩ := hback
    · simp only [List.length_nil] at hin
      omega
    have hload : (load startIndex.toInt (dword (s.getBufferSize - startIndex)).toNat).run s =
        .ok ((bs.drop i).take n) s := by
      have hinside := Block.load_of_inside (m := ⟨bs, beyond⟩) (k := i) (n := n) hin
      rw [load_run, hbuf, Option.bind_some, hn, h.start, hinside]
    obtain ⟨crypto', henc, -⟩ := CRC4.encrypt_fresh hfree behind' ((bs.drop i).take n)
    rw [hsbox] at henc
    have hlen : (RC4.crypt (CRC4.overrun encKey raw.sbox_free behind) ((bs.drop i).take n)).length =
        n := by
      rw [RC4.length_crypt, List.length_take, List.length_drop]
      omega
    have hroom : i + (RC4.crypt (CRC4.overrun encKey raw.sbox_free behind)
        ((bs.drop i).take n)).length ≤ (Block.mk bs beyond).size := by
      rw [hlen]
      exact hin
    have hstore := Block.store_of_inside hroom
    rw [hlen] at hstore
    refine ⟨{ s with buffer := some ⟨bs.take i ++ RC4.crypt (CRC4.overrun encKey raw.sbox_free behind)
      ((bs.drop i).take n) ++ bs.drop (i + n), beyond⟩ }, ?_, ⟨?_, Or.inr ⟨beyond, rfl⟩⟩,
      ⟨h.start, h.size⟩⟩
    · simp only [if_neg hzero]
      rw [run_bind_ok hload, henc]
      simp only [store]
      rw [run_bind_ok (EStateM.run_get s), hbuf, Option.bind_some, h.start, hstore]
      rfl
    · simp only [List.length_append, hlen, List.length_take, List.length_drop]
      omega

/-- A buffer that is converted twice, by two converters with one key. -/
def convertTwice (encKey : List UInt8) (raw₁ raw₂ : CRC4) (b₁ b₂ : Memory) (startIndex : Int32) :
    StreamM Unit := do
  convert encKey raw₁ b₁ startIndex
  convert encKey raw₂ b₂ startIndex

/-- Two conversions give the buffer back, whatever memory the two ciphers lie in. -/
def ConvertRestores (s : ByteStreamBuffer) (bs encKey : List UInt8) (startIndex : Int32) : Prop :=
  ∀ raw₁ raw₂ b₁ b₂, ∃ s', (convertTwice encKey raw₁ raw₂ b₁ b₂ startIndex).run s = .ok () s' ∧
    Backed s' bs

theorem pieces {before data : List UInt8} (after : List UInt8) {i n : ℕ} (hbefore : before.length = i)
    (hdata : data.length = n) :
    (before ++ data ++ after).take i = before ∧ ((before ++ data ++ after).drop i).take n = data ∧
      (before ++ data ++ after).drop (i + n) = after := by
  subst hbefore hdata
  refine ⟨?_, ?_, ?_⟩
  · rw [List.append_assoc, List.take_left]
  · rw [List.append_assoc, List.drop_left, List.take_left]
  · rw [← List.length_append, List.drop_left]

theorem convertTwice_run (hpos : 0 < encKey.length) (hle : encKey.length ≤ 256) (hback : Backed s bs)
    {i n : ℕ} (h : Converts s startIndex i n) (raw₁ raw₂ : CRC4) (b₁ b₂ : Memory) :
    ∃ s', (convertTwice encKey raw₁ raw₂ b₁ b₂ startIndex).run s = .ok () s' ∧
      Backed s' (bs.take i ++ RC4.crypt (CRC4.overrun encKey raw₂.sbox_free b₂)
        (RC4.crypt (CRC4.overrun encKey raw₁.sbox_free b₁) ((bs.drop i).take n)) ++
          bs.drop (i + n)) := by
  have hin := h.le_length hback
  obtain ⟨s₁, hrun₁, hback₁, h₁⟩ := convert_run hpos hle hback h raw₁ b₁
  obtain ⟨s₂, hrun₂, hback₂, -⟩ := convert_run hpos hle hback₁ h₁ raw₂ b₂
  have htake : (bs.take i).length = i := by
    rw [List.length_take]
    omega
  have hmid : (RC4.crypt (CRC4.overrun encKey raw₁.sbox_free b₁) ((bs.drop i).take n)).length = n := by
    rw [RC4.length_crypt, List.length_take, List.length_drop]
    omega
  refine ⟨s₂, ?_, ?_⟩
  · unfold convertTwice
    rw [run_bind_ok hrun₁, hrun₂]
  · obtain ⟨hbefore, hdata, hafter⟩ := pieces (bs.drop (i + n)) htake hmid
    rw [hbefore, hdata, hafter] at hback₂
    exact hback₂

/-- Converting twice restores the buffer only if there was nothing to convert. -/
theorem convertRestores_iff (hpos : 0 < encKey.length) (hle : encKey.length ≤ 256)
    (hback : Backed s bs) {i n : ℕ} (h : Converts s startIndex i n) :
    ConvertRestores s bs encKey startIndex ↔ n = 0 := by
  have hin := h.le_length hback
  have hsplit : bs = bs.take i ++ (bs.drop i).take n ++ bs.drop (i + n) := by
    rw [List.append_assoc, ← List.drop_drop, List.take_append_drop, List.take_append_drop]
  constructor
  · intro hrestores
    by_contra hsome
    have hdata : (bs.drop i).take n ≠ [] := by
      intro hnil
      have hlen := congrArg List.length hnil
      rw [List.length_take, List.length_drop, List.length_nil] at hlen
      omega
    obtain ⟨b, c, hne⟩ := CRC4.exists_crypt_crypt_ne encKey hdata
    obtain ⟨s', hrun, hback'⟩ := hrestores ⟨[], id, 0⟩ ⟨[], id, 0⟩ b c
    obtain ⟨s'', hrun', hback''⟩ := convertTwice_run hpos hle hback h ⟨[], id, 0⟩ ⟨[], id, 0⟩ b c
    rw [hrun] at hrun'
    cases hrun'
    have heq := hback''.unique hback'
    conv_rhs at heq => rw [hsplit]
    exact hne (List.append_cancel_left (List.append_cancel_right heq))
  · rintro rfl raw₁ raw₂ b₁ b₂
    obtain ⟨s', hrun, hback'⟩ := convertTwice_run hpos hle hback h raw₁ raw₂ b₁ b₂
    rw [List.take_zero, RC4.crypt_nil, RC4.crypt_nil, List.append_nil, Nat.add_zero,
      List.take_append_drop] at hback'
    exact ⟨s', hrun, hback'⟩

theorem converts_of_le (hlo : 0 ≤ startIndex.toInt) (hhi : startIndex.toInt ≤ s.getBufferSize.toInt) :
    Converts s startIndex startIndex.toInt.toNat (s.getBufferSize.toInt - startIndex.toInt).toNat := by
  constructor <;> omega

/-- Decryption undoes encryption only where there is nothing to encrypt. A conversion keeps the
bytes before its start index in any case. Buffers so large that `getBufferSize` is negative have no start
index. -/
theorem decrypt_undoes_encrypt_iff {key : List UInt8} (hpos : 0 < key.length)
    (hle : key.length ≤ 256) (h₁ h₂ : List CRC4.Call) (data : List UInt8) :
    (CRC4.RoundTripsBetween key h₁ h₂ data ↔ data = []) ∧
    (CRC4.RoundTripsWithin key h₁ h₂ data ↔ data = []) ∧
    ∀ (s : ByteStreamBuffer) (bs : List UInt8) (startIndex : Int32), Backed s bs →
      0 ≤ startIndex.toInt → startIndex.toInt ≤ s.getBufferSize.toInt →
        (ConvertRestores s bs key startIndex ↔ startIndex = s.getBufferSize) ∧
        ∀ raw behind, ∃ s' bs', (convert key raw behind startIndex).run s = .ok () s' ∧
          Backed s' bs' ∧ bs'.take startIndex.toInt.toNat = bs.take startIndex.toInt.toNat := by
  refine ⟨CRC4.roundTripsBetween_iff hpos hle h₁ h₂ data, CRC4.roundTripsWithin_iff hpos hle h₁ h₂ data,
    ?_⟩
  intro s bs startIndex hback hlo hhi
  have h := converts_of_le hlo hhi
  constructor
  · rw [convertRestores_iff hpos hle hback h, ← Int32.toInt_inj]
    omega
  · intro raw behind
    obtain ⟨s', hrun, hback', -⟩ := convert_run hpos hle hback h raw behind
    have hin := h.le_length hback
    refine ⟨s', _, hrun, hback', ?_⟩
    rw [List.append_assoc, List.take_left' (by rw [List.length_take]; omega)]

theorem decrypt_undoes_encrypt_iff_example :
    CRC4.RoundTripsBetween [1, 2] [.encrypt [5, 6], .copyDecrypt [7]] [] [] ∧
      ¬ CRC4.RoundTripsWithin [1, 2] [.encrypt [5, 6]] [.decrypt [7]] [8] :=
  ⟨(decrypt_undoes_encrypt_iff (by decide) (by decide) [.encrypt [5, 6], .copyDecrypt [7]] []
      []).1.mpr rfl,
    mt (decrypt_undoes_encrypt_iff (by decide) (by decide) [.encrypt [5, 6]] [.decrypt [7]]
      [8]).2.1.mp (by decide)⟩

theorem decrypt_misses_encrypt :
    ¬ CRC4.RoundTripsBetween [1] [] [] [0] ∧ ¬ CRC4.RoundTripsWithin [1] [] [] [0] :=
  ⟨mt (CRC4.roundTripsBetween_iff (by decide) (by decide) [] [] [0]).mp (by decide),
    mt (CRC4.roundTripsWithin_iff (by decide) (by decide) [] [] [0]).mp (by decide)⟩

end H1Z1Server
