import Mathlib.Tactic
import Mathlib.Logic.Equiv.Basic

/-! The RC4 stream cipher: its key schedule and its generator over a table of bytes. -/
namespace RC4

abbrev SBox := UInt8 → UInt8

def exchange (S : SBox) (i j : UInt8) : SBox := S ∘ Equiv.swap i j

def keyByte (key : List UInt8) (i : ℕ) : UInt8 := key.getD (i % key.length) 0

def scheduleStep (key : List UInt8) (s : SBox × UInt8) (i : ℕ) : SBox × UInt8 :=
  let j := s.2 + keyByte key i + s.1 (UInt8.ofNat i)
  (exchange s.1 (UInt8.ofNat i) j, j)

/-- The table after the key schedule, and the index at which the schedule ends. -/
def schedule (key : List UInt8) : SBox × UInt8 :=
  (List.range 256).foldl (scheduleStep key) (id, 0)

/-- The next `n` bytes of the generator. -/
def generate (S : SBox) (i j : UInt8) : ℕ → List UInt8
  | 0 => []
  | n + 1 =>
    let i := i + 1
    let j := j + S i
    let S := exchange S i j
    S (S i + S j) :: generate S i j n

def keystream (key : List UInt8) (n : ℕ) : List UInt8 := generate (schedule key).1 0 0 n

/-- Encryption, and decryption, with the bytes that a table generates. -/
def crypt (S : SBox) (data : List UInt8) : List UInt8 :=
  List.zipWith (· ^^^ ·) data (generate S 0 0 data.length)

/-- The first byte that a table generates. -/
def firstByte (S : SBox) : UInt8 := exchange S 1 (S 1) (S (S 1) + S 1)

theorem exchange_injective {S : SBox} (h : Function.Injective S) (i j : UInt8) :
    Function.Injective (exchange S i j) :=
  h.comp (Equiv.swap i j).injective

/-- The key schedule permutes the table. -/
theorem schedule_injective (key : List UInt8) : Function.Injective (schedule key).1 := by
  have hfold : ∀ (is : List ℕ) (s : SBox × UInt8), Function.Injective s.1 →
      Function.Injective (is.foldl (scheduleStep key) s).1 := by
    intro is
    induction is with
    | nil => exact fun s hs => hs
    | cons i is ih =>
      intro s hs
      exact ih _ (exchange_injective hs _ _)
  exact hfold _ _ Function.injective_id

theorem crypt_nil (S : SBox) : crypt S [] = [] := rfl

theorem length_generate (S : SBox) (i j : UInt8) (n : ℕ) : (generate S i j n).length = n := by
  induction n generalizing S i j with
  | zero => rfl
  | succ n ih => rw [generate, List.length_cons, ih]

theorem length_crypt (S : SBox) (data : List UInt8) : (crypt S data).length = data.length := by
  rw [crypt, List.length_zipWith, length_generate, Nat.min_self]

theorem crypt_cons (S : SBox) (b : UInt8) (data : List UInt8) :
    crypt S (b :: data) = (b ^^^ firstByte S) ::
      List.zipWith (· ^^^ ·) data (generate (exchange S 1 (S 1)) 1 (S 1) data.length) := by
  unfold crypt
  rw [List.length_cons, generate, List.zipWith_cons_cons]
  simp only [UInt8.zero_add, exchange, Function.comp_apply, Equiv.swap_apply_left,
    Equiv.swap_apply_right, firstByte]

end RC4
