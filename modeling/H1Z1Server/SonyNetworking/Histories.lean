import H1Z1Server.SonyNetworking.Cipher

/-! Calls of `CRC4` objects one after the other. Whoever owns the memory behind an object may
change it between two calls, and every new schedule runs over it. -/
namespace H1Z1Server.CRC4
open RC4 (SBox)

inductive Call where
  | encrypt (data : List UInt8)
  | decrypt (data : List UInt8)
  | copyEncrypt (data : List UInt8)
  | copyDecrypt (data : List UInt8)

def Call.run (behind : Memory) (o : CRC4) : Call → Except Abort CRC4
  | encrypt data => (·.1) <$> o.encrypt behind data
  | decrypt data => (·.1) <$> o.decrypt behind data
  | copyEncrypt data => (·.1) <$> o.copyEncrypt behind data
  | copyDecrypt data => (·.1) <$> o.copyDecrypt behind data

/-- A sequence of calls, with what lies behind the object at each of them. -/
def runCalls (env : ℕ → Memory) (o : CRC4) : List Call → Except Abort CRC4
  | [] => .ok o
  | c :: calls => do
    let o ← c.run (env 0) o
    runCalls (fun n => env (n + 1)) o calls

/-- An object that was constructed with a key and then used. -/
def afterHistory (env : ℕ → Memory) (raw : CRC4) (key : List UInt8) (calls : List Call) :
    Except Abort CRC4 := do
  let (o, _) ← construct raw (env 0) key
  runCalls (fun n => env (n + 1)) o calls

/-- Encryption with one object and decryption of the result with another. -/
def exchangeBetween (env₁ env₂ : ℕ → Memory) (raw₁ raw₂ : CRC4) (key : List UInt8)
    (h₁ h₂ : List Call) (data : List UInt8) : Except Abort (List UInt8) := do
  let o₁ ← afterHistory env₁ raw₁ key h₁
  let (_, _, cipher) ← o₁.encrypt (env₁ (h₁.length + 1)) data
  let o₂ ← afterHistory env₂ raw₂ key h₂
  let (_, _, plain) ← o₂.decrypt (env₂ (h₂.length + 1)) cipher
  return plain

/-- Encryption and, after more calls, decryption of the result with the same object. -/
def exchangeWithin (env later : ℕ → Memory) (raw : CRC4) (key : List UInt8)
    (h₁ h₂ : List Call) (data : List UInt8) : Except Abort (List UInt8) := do
  let o ← afterHistory env raw key h₁
  let (o, _, cipher) ← o.encrypt (env (h₁.length + 1)) data
  let o ← runCalls later o h₂
  let (_, _, plain) ← o.decrypt (later h₂.length) cipher
  return plain

def RoundTripsBetween (key : List UInt8) (h₁ h₂ : List Call) (data : List UInt8) : Prop :=
  ∀ env₁ env₂ raw₁ raw₂, exchangeBetween env₁ env₂ raw₁ raw₂ key h₁ h₂ data = .ok data

def RoundTripsWithin (key : List UInt8) (h₁ h₂ : List Call) (data : List UInt8) : Prop :=
  ∀ env later raw, exchangeWithin env later raw key h₁ h₂ data = .ok data

/-- An object that stores a key, and whose unused table, if it has one, satisfies `T`. -/
structure Keyed (key : List UInt8) (T : SBox → Prop) (o : CRC4) : Prop where
  stored : ∃ rest, o.key = ByteOrder.toLE 4 key.length ++ key ++ rest
  unused : o.sbox_free = 0 ∨ o.sbox_free = 1 ∧ T o.sbox

variable {key : List UInt8} {T : SBox → Prop}

theorem Keyed.of_spent (T' : SBox → Prop) {o : CRC4} (h : Keyed key T o) (hfree : o.sbox_free = 0) :
    Keyed key T' o :=
  ⟨h.stored, Or.inl hfree⟩

/-- `Encrypt` uses the table there is, or one that the stored key and the memory behind give. -/
theorem encrypt_keyed (hpos : 0 < key.length) (hle : key.length ≤ 256) {o : CRC4}
    (h : Keyed key T o) {behind : Memory} (hbehind : T (overrun key 0 behind)) (data : List UInt8) :
    ∃ o' behind' S, T S ∧ o.encrypt behind data = .ok (o', behind', RC4.crypt S data) ∧
      Keyed key T o' ∧ o'.sbox_free = 0 := by
  rcases h.unused with hfree | ⟨hfree, hsbox⟩
  · obtain ⟨rest, hkey⟩ := h.stored
    have hsize : ByteOrder.ofLE (o.key.take 4) = key.length := by
      rw [hkey, List.append_assoc, List.take_left' (ByteOrder.length_toLE _ _)]
      exact ByteOrder.ofLE_toLE_of_lt (by omega)
    have hbytes : o.key.drop 4 = key ++ rest := by
      rw [hkey, List.append_assoc, List.drop_left' (ByteOrder.length_toLE _ _)]
    obtain ⟨o₁, behind₁, hinit, hkey₁, hsbox₁, hfree₁, -⟩ := initializeKey_run o behind rest hpos hle
    rw [hfree] at hsbox₁
    obtain ⟨o₂, henc, hkey₂, hfree₂⟩ := encrypt_fresh hfree₁ behind₁ data
    refine ⟨o₂, behind₁, overrun key 0 behind, hbehind, ?_, ⟨⟨_, hkey₂.trans hkey₁⟩, Or.inl hfree₂⟩,
      hfree₂⟩
    rw [hsbox₁] at henc
    rw [← henc]
    have hused : ¬ o₁.sbox_free = 0 := by
      rw [hfree₁]
      decide
    unfold encrypt
    rw [if_pos hfree, if_neg hused, hsize, hbytes, hinit]
    rfl
  · obtain ⟨o', henc, hkey', hfree'⟩ := encrypt_fresh hfree behind data
    obtain ⟨rest, hkey⟩ := h.stored
    exact ⟨o', behind, o.sbox, hsbox, henc, ⟨⟨rest, hkey'.trans hkey⟩, Or.inl hfree'⟩, hfree'⟩

theorem Call.run_keyed (hpos : 0 < key.length) (hle : key.length ≤ 256) {o : CRC4}
    (h : Keyed key T o) {behind : Memory} (hbehind : T (overrun key 0 behind)) (c : Call) :
    ∃ o', c.run behind o = .ok o' ∧ Keyed key T o' := by
  have hdata : ∀ data, ∃ o', (·.1) <$> o.encrypt behind data = .ok o' ∧ Keyed key T o' := by
    intro data
    obtain ⟨o', behind', S, -, henc, h', -⟩ := encrypt_keyed hpos hle h hbehind data
    refine ⟨o', ?_, h'⟩
    rw [henc]
    rfl
  cases c with
  | encrypt data => exact hdata data
  | decrypt data => exact hdata data
  | copyEncrypt data => exact hdata data
  | copyDecrypt data => exact hdata data

theorem runCalls_keyed (hpos : 0 < key.length) (hle : key.length ≤ 256) {o : CRC4}
    (h : Keyed key T o) {env : ℕ → Memory} (henv : ∀ n, T (overrun key 0 (env n)))
    (calls : List Call) : ∃ o', runCalls env o calls = .ok o' ∧ Keyed key T o' := by
  induction calls generalizing o env with
  | nil => exact ⟨o, rfl, h⟩
  | cons c calls ih =>
    obtain ⟨o₁, hrun, h₁⟩ := Call.run_keyed hpos hle h (henv 0) c
    obtain ⟨o₂, hrest, h₂⟩ := ih h₁ fun n => henv (n + 1)
    refine ⟨o₂, ?_, h₂⟩
    rw [runCalls, hrun]
    exact hrest

theorem afterHistory_keyed (hpos : 0 < key.length) (hle : key.length ≤ 256) {env : ℕ → Memory}
    (henv : ∀ n, T (overrun key 0 (env n))) {raw : CRC4}
    (hraw : T (overrun key raw.sbox_free (env 0))) (calls : List Call) :
    ∃ o, afterHistory env raw key calls = .ok o ∧ Keyed key T o := by
  obtain ⟨o, behind', hnew, hkey, hsbox, hfree, -⟩ := construct_run raw (env 0) hpos hle
  have h : Keyed key T o := ⟨⟨_, hkey⟩, Or.inr ⟨hfree, by rw [hsbox]; exact hraw⟩⟩
  obtain ⟨o', hrun, h'⟩ := runCalls_keyed hpos hle h (fun n => henv (n + 1)) calls
  refine ⟨o', ?_, h'⟩
  rw [afterHistory, hnew]
  exact hrun

/-- Two objects encrypt with one table each. -/
theorem exchangeBetween_run (hpos : 0 < key.length) (hle : key.length ≤ 256) (T₁ T₂ : SBox → Prop)
    (env₁ env₂ : ℕ → Memory) (henv₁ : ∀ n, T₁ (overrun key 0 (env₁ n)))
    (henv₂ : ∀ n, T₂ (overrun key 0 (env₂ n))) (raw₁ raw₂ : CRC4)
    (hraw₁ : T₁ (overrun key raw₁.sbox_free (env₁ 0)))
    (hraw₂ : T₂ (overrun key raw₂.sbox_free (env₂ 0))) (h₁ h₂ : List Call) (data : List UInt8) :
    ∃ S₁ S₂, T₁ S₁ ∧ T₂ S₂ ∧ exchangeBetween env₁ env₂ raw₁ raw₂ key h₁ h₂ data =
      .ok (RC4.crypt S₂ (RC4.crypt S₁ data)) := by
  obtain ⟨o₁, hhist₁, k₁⟩ := afterHistory_keyed hpos hle henv₁ hraw₁ h₁
  obtain ⟨o₁', b₁, S₁, hS₁, henc, -, -⟩ := encrypt_keyed hpos hle k₁ (henv₁ (h₁.length + 1)) data
  obtain ⟨o₂, hhist₂, k₂⟩ := afterHistory_keyed hpos hle henv₂ hraw₂ h₂
  obtain ⟨o₂', b₂, S₂, hS₂, hdec, -, -⟩ := encrypt_keyed hpos hle k₂ (henv₂ (h₂.length + 1))
    (RC4.crypt S₁ data)
  refine ⟨S₁, S₂, hS₁, hS₂, ?_⟩
  simp only [exchangeBetween, decrypt, hhist₁, henc, hhist₂, hdec, bind, Except.bind]
  rfl

theorem exchangeWithin_run (hpos : 0 < key.length) (hle : key.length ≤ 256) (T₁ T₂ : SBox → Prop)
    (env later : ℕ → Memory) (henv : ∀ n, T₁ (overrun key 0 (env n)))
    (hlater : ∀ n, T₂ (overrun key 0 (later n))) (raw : CRC4)
    (hraw : T₁ (overrun key raw.sbox_free (env 0))) (h₁ h₂ : List Call) (data : List UInt8) :
    ∃ S₁ S₂, T₁ S₁ ∧ T₂ S₂ ∧ exchangeWithin env later raw key h₁ h₂ data =
      .ok (RC4.crypt S₂ (RC4.crypt S₁ data)) := by
  obtain ⟨o₁, hhist, k₁⟩ := afterHistory_keyed hpos hle henv hraw h₁
  obtain ⟨o₂, b₁, S₁, hS₁, henc, k₂, hfree⟩ := encrypt_keyed hpos hle k₁ (henv (h₁.length + 1)) data
  obtain ⟨o₃, hmore, k₃⟩ := runCalls_keyed hpos hle (k₂.of_spent T₂ hfree) hlater h₂
  obtain ⟨o₄, b₂, S₂, hS₂, hdec, -, -⟩ := encrypt_keyed hpos hle k₃ (hlater h₂.length)
    (RC4.crypt S₁ data)
  refine ⟨S₁, S₂, hS₁, hS₂, ?_⟩
  simp only [exchangeWithin, decrypt, hhist, henc, hmore, hdec, bind, Except.bind]
  rfl

/-- Any data is spoiled by tables that were made over different memory. -/
theorem exists_crypt_crypt_ne (key : List UInt8) {data : List UInt8} (hdata : data ≠ []) :
    ∃ b c : Memory, RC4.crypt (overrun key 0 c) (RC4.crypt (overrun key 0 b) data) ≠ data := by
  obtain ⟨b, c, hne⟩ := exists_firstByte_ne key 0
  refine ⟨b, c, ?_⟩
  cases data with
  | nil => exact absurd rfl hdata
  | cons d data =>
    rw [RC4.crypt_cons (overrun key 0 b), RC4.crypt_cons (overrun key 0 c)]
    intro heq
    have hhead := (List.cons.inj heq).1
    rw [UInt8.xor_assoc] at hhead
    have hcancel : RC4.firstByte (overrun key 0 b) ^^^ RC4.firstByte (overrun key 0 c) = 0 :=
      (UInt8.xor_right_inj d).mp (hhead.trans UInt8.xor_zero.symm)
    exact hne (UInt8.xor_eq_zero_iff.mp hcancel)

theorem roundTripsBetween_iff (hpos : 0 < key.length) (hle : key.length ≤ 256) (h₁ h₂ : List Call)
    (data : List UInt8) : RoundTripsBetween key h₁ h₂ data ↔ data = [] := by
  constructor
  · intro hround
    by_contra hdata
    obtain ⟨b, c, hne⟩ := exists_crypt_crypt_ne key hdata
    obtain ⟨S₁, S₂, rfl, rfl, hrun⟩ := exchangeBetween_run hpos hle (· = overrun key 0 b)
      (· = overrun key 0 c) (fun _ => b) (fun _ => c) (fun _ => rfl) (fun _ => rfl) ⟨[], id, 0⟩
      ⟨[], id, 0⟩ rfl rfl h₁ h₂ data
    rw [hround] at hrun
    exact hne (Except.ok.inj hrun).symm
  · rintro rfl env₁ env₂ raw₁ raw₂
    obtain ⟨S₁, S₂, -, -, hrun⟩ := exchangeBetween_run hpos hle (fun _ => True) (fun _ => True)
      env₁ env₂ (fun _ => trivial) (fun _ => trivial) raw₁ raw₂ trivial trivial h₁ h₂ []
    exact hrun

theorem roundTripsWithin_iff (hpos : 0 < key.length) (hle : key.length ≤ 256) (h₁ h₂ : List Call)
    (data : List UInt8) : RoundTripsWithin key h₁ h₂ data ↔ data = [] := by
  constructor
  · intro hround
    by_contra hdata
    obtain ⟨b, c, hne⟩ := exists_crypt_crypt_ne key hdata
    obtain ⟨S₁, S₂, rfl, rfl, hrun⟩ := exchangeWithin_run hpos hle (· = overrun key 0 b)
      (· = overrun key 0 c) (fun _ => b) (fun _ => c) (fun _ => rfl) (fun _ => rfl) ⟨[], id, 0⟩
      rfl h₁ h₂ data
    rw [hround] at hrun
    exact hne (Except.ok.inj hrun).symm
  · rintro rfl env later raw
    obtain ⟨S₁, S₂, -, -, hrun⟩ := exchangeWithin_run hpos hle (fun _ => True) (fun _ => True)
      env later (fun _ => trivial) (fun _ => trivial) raw trivial h₁ h₂ []
    exact hrun

end H1Z1Server.CRC4
