import H1Z1Server.SonyNetworking.Forging
import H1Z1Server.Library.ByteOrder

/-! `Encrypt` against RC4: the generator is RC4's, on a table that its key schedule spoils. -/
namespace H1Z1Server.CRC4
open RC4 (SBox)

/-- The loop of `Encrypt` combines the data with what the table generates. -/
theorem encryptLoop_eq (S : SBox) (i j : ℕ) (data : List UInt8) :
    (encryptLoop S i j data).2 =
      List.zipWith (· ^^^ ·) data (RC4.generate S (UInt8.ofNat i) (UInt8.ofNat j) data.length) := by
  induction data generalizing S i j with
  | nil => rfl
  | cons b data ih =>
    have hi : UInt8.ofNat ((i + 1) % 256) = UInt8.ofNat i + 1 := by
      apply UInt8.toNat_inj.mp
      simp [UInt8.toNat_add]
    have hj : ∀ c : UInt8, UInt8.ofNat ((j + c.toNat) % 256) = UInt8.ofNat j + c := by
      intro c
      apply UInt8.toNat_inj.mp
      simp [UInt8.toNat_add]
    have hsum : ∀ c d : UInt8, UInt8.ofNat ((c.toNat + d.toNat) % 256) = c + d := by
      intro c d
      apply UInt8.toNat_inj.mp
      simp [UInt8.toNat_add]
    rw [List.length_cons, RC4.generate, List.zipWith_cons_cons]
    simp only [encryptLoop, ih, hi, hj, hsum, RC4.exchange]
    rw [UInt8.xor_comm]

theorem encryptLoop_eq_crypt (S : SBox) (data : List UInt8) :
    (encryptLoop S 0 0 data).2 = RC4.crypt S data :=
  encryptLoop_eq S 0 0 data

/-- `Initialize` with a key of a size that it takes. -/
theorem initializeKey_run (o : CRC4) (behind : Memory) {key : List UInt8} (rest : List UInt8)
    (hpos : 0 < key.length) (hle : key.length ≤ 256) :
    ∃ o' behind', initializeKey o behind (key ++ rest) key.length = .ok (o', behind') ∧
      o'.key = ByteOrder.toLE 4 key.length ++ key ++ o.key.drop (4 + key.length) ∧
      o'.sbox = overrun key o.sbox_free behind ∧ o'.sbox_free = 1 ∧
      behind' 0 = Function.update (RC4.schedule key).1 (overrunIndex key o.sbox_free) o.sbox_free
        (overrunIndex key o.sbox_free + RC4.keyByte key 257 + behind 0) := by
  obtain ⟨htable, hbehind⟩ := schedule_overrun key (o.fromSbox behind)
  have hfree : o.fromSbox behind 256 = o.sbox_free := rfl
  have hfar : (fun a => o.fromSbox behind (a + 257)) = behind := by
    funext a
    rw [fromSbox, if_neg (by omega), if_neg (by omega), Nat.add_sub_cancel]
  have hnext : o.fromSbox behind 257 = behind 0 := rfl
  rw [hfree, hfar] at htable
  rw [hfree, hnext] at hbehind
  unfold initializeKey
  rw [if_neg (by omega), if_neg (by omega), List.take_left]
  dsimp only
  generalize (schedule key (fill (o.fromSbox behind))).1 = m at htable hbehind ⊢
  refine ⟨{ key := ByteOrder.toLE 4 key.length ++ key ++ o.key.drop (4 + key.length)
            sbox := table m
            sbox_free := 1 }, fun a => m (a + 257), rfl, rfl, htable, rfl, hbehind⟩

theorem construct_run (raw : CRC4) (behind : Memory) {key : List UInt8} (hpos : 0 < key.length)
    (hle : key.length ≤ 256) :
    ∃ o behind', construct raw behind key = .ok (o, behind') ∧
      o.key = ByteOrder.toLE 4 key.length ++ key ++ raw.key.drop (4 + key.length) ∧
      o.sbox = overrun key raw.sbox_free behind ∧ o.sbox_free = 1 ∧
      behind' 0 = Function.update (RC4.schedule key).1 (overrunIndex key raw.sbox_free)
        raw.sbox_free (overrunIndex key raw.sbox_free + RC4.keyByte key 257 + behind 0) := by
  have hrun := initializeKey_run raw behind [] hpos hle
  rw [List.append_nil] at hrun
  exact hrun

/-- `Encrypt` of an object whose table is unused. -/
theorem encrypt_fresh {o : CRC4} (hfree : o.sbox_free = 1) (behind : Memory) (data : List UInt8) :
    ∃ o', o.encrypt behind data = .ok (o', behind, RC4.crypt o.sbox data) ∧
      o'.key = o.key ∧ o'.sbox_free = 0 := by
  have hused : ¬ o.sbox_free = 0 := by
    rw [hfree]
    decide
  refine ⟨{ o with sbox := (encryptLoop o.sbox 0 0 data).1, sbox_free := 0 }, ?_, rfl, rfl⟩
  rw [← encryptLoop_eq_crypt]
  unfold encrypt
  rw [if_neg hused]
  rfl

/-- What the cipher should do: encrypt as RC4 does, and change no other byte. -/
def EncryptsAsRC4 (key data : List UInt8) : Prop :=
  ∀ raw behind, ∃ o o', construct raw behind key = .ok (o, behind) ∧
    o.encrypt behind data =
      .ok (o', behind, List.zipWith (· ^^^ ·) data (RC4.keystream key data.length))

/-- The part of it that is about the data. -/
def OutputIsRC4 (key data : List UInt8) : Prop :=
  ∀ raw behind, ∃ o behind' o' behind'', construct raw behind key = .ok (o, behind') ∧
    o.encrypt behind' data =
      .ok (o', behind'', List.zipWith (· ^^^ ·) data (RC4.keystream key data.length))

/-- With the right value in `sbox_free`, the schedule moves it behind the object. -/
theorem not_encryptsAsRC4 {key : List UInt8} (data : List UInt8) (hpos : 0 < key.length)
    (hle : key.length ≤ 256) : ¬ EncryptsAsRC4 key data := by
  intro hrc4
  obtain ⟨o, o', hnew, -⟩ := hrc4 ⟨[], id, 1 - RC4.keyByte key 257⟩ fun _ => 0 - RC4.keyByte key 257
  obtain ⟨o₁, behind', hrun, -, -, -, hbehind⟩ := construct_run
    ⟨[], id, 1 - RC4.keyByte key 257⟩ (fun _ => 0 - RC4.keyByte key 257) hpos hle
  rw [hnew] at hrun
  cases hrun
  have hindex : ∀ j k : UInt8, j + k + (0 - k) = j := by
    intro j k
    grind
  rw [hindex, Function.update_self] at hbehind
  generalize RC4.keyByte key 257 = k at hbehind
  have hzero : (0 : UInt8) = 1 := by grind
  exact absurd hzero (by decide)

/-- The data comes out right only if there is none. -/
theorem outputIsRC4_iff {key : List UInt8} (data : List UInt8) (hpos : 0 < key.length)
    (hle : key.length ≤ 256) : OutputIsRC4 key data ↔ data = [] := by
  have hout : ∀ behind, ∃ o behind' o',
      construct ⟨[], id, 0⟩ behind key = .ok (o, behind') ∧
        o.encrypt behind' data = .ok (o', behind', RC4.crypt (overrun key 0 behind) data) := by
    intro behind
    obtain ⟨o, behind', hnew, -, hsbox, hfree, -⟩ := construct_run ⟨[], id, 0⟩ behind hpos hle
    obtain ⟨o', henc, -⟩ := encrypt_fresh hfree behind' data
    rw [hsbox] at henc
    exact ⟨o, behind', o', hnew, henc⟩
  constructor
  · intro hrc4
    cases data with
    | nil => rfl
    | cons b data =>
      have hfirst : ∀ behind, RC4.firstByte (overrun key 0 behind) =
          RC4.firstByte (RC4.schedule key).1 := by
        intro behind
        obtain ⟨o, b₁, o', b₂, hnew, henc⟩ := hrc4 ⟨[], id, 0⟩ behind
        obtain ⟨o₁, b₃, o₂, hnew₁, henc₁⟩ := hout behind
        rw [hnew] at hnew₁
        cases hnew₁
        rw [henc] at henc₁
        have hdata := congrArg (fun r => r.2.2) (Except.ok.inj henc₁)
        have hhead : b ^^^ RC4.firstByte (RC4.schedule key).1 =
            b ^^^ RC4.firstByte (overrun key 0 behind) := by
          have hrc := RC4.crypt_cons (RC4.schedule key).1 b data
          have hover := RC4.crypt_cons (overrun key 0 behind) b data
          rw [← show List.zipWith (· ^^^ ·) (b :: data) (RC4.keystream key (b :: data).length) =
            RC4.crypt (RC4.schedule key).1 (b :: data) from rfl] at hrc
          exact (List.cons.inj (hrc.symm.trans (hdata.trans hover))).1
        exact (UInt8.xor_right_inj b).mp hhead.symm
      obtain ⟨c, d, hne⟩ := exists_firstByte_ne key 0
      exact absurd ((hfirst c).trans (hfirst d).symm) hne
  · rintro rfl raw behind
    obtain ⟨o, behind', hnew, -, -, hfree, -⟩ := construct_run raw behind hpos hle
    obtain ⟨o', henc, -⟩ := encrypt_fresh hfree behind' []
    rw [RC4.crypt_nil] at henc
    exact ⟨o, behind', o', behind', hnew, by rw [List.zipWith_nil_left]; exact henc⟩

/-- `CRC4` is RC4 for no key and no data; what it makes of the data is right only for none. -/
theorem encrypt_rc4_never (key data : List UInt8) (hpos : 0 < key.length) (hle : key.length ≤ 256) :
    ¬ EncryptsAsRC4 key data ∧ (OutputIsRC4 key data ↔ data = []) :=
  ⟨not_encryptsAsRC4 data hpos hle, outputIsRC4_iff data hpos hle⟩

theorem encrypt_rc4_never_example : ¬ EncryptsAsRC4 [1] [2, 3] ∧ ¬ OutputIsRC4 [1] [2, 3] :=
  ⟨(encrypt_rc4_never [1] [2, 3] (by decide) (by decide)).1,
    mt (encrypt_rc4_never [1] [2, 3] (by decide) (by decide)).2.mp (by decide)⟩

theorem encrypt_not_rc4 : ¬ EncryptsAsRC4 [1] [0] ∧ ¬ OutputIsRC4 [1] [0] :=
  ⟨not_encryptsAsRC4 [0] (by decide) (by decide),
    mt (outputIsRC4_iff [0] (by decide) (by decide)).mp (by decide)⟩

end H1Z1Server.CRC4
