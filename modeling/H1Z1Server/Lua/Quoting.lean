import H1Z1Server.Lua.PatternMatching

/-! The `%q` of `string.format` (`addquoted` in `lstrlib.c`), and the `read_string` of the lexer (`llex.c`), which reads
back what it writes. -/
namespace H1Z1Server.LuaLexer
open LuaPattern (char isdigit)

/-- `INT_MAX-2`. -/
def MAX_INT : ℕ := 2 ^ 31 - 1 - 2

/-- What an error says it is near to: the end, the string so far, or the token before. -/
inductive Near where
  | eos
  | string (buff : List UInt8)
  | token
  deriving DecidableEq

inductive LexError where
  | lexerror (msg : String) (linenumber : ℕ) (near : Near)
  | outOfFuel
  deriving DecidableEq

/-- The current character is the first of the input. Behind the last one there is `EOZ`. -/
structure LexState where
  input : List UInt8
  linenumber : ℕ
  buff : List UInt8
  deriving DecidableEq

namespace LexState

def current (ls : LexState) : Option UInt8 := ls.input.head?

def next (ls : LexState) : LexState := { ls with input := ls.input.tail }

def save (ls : LexState) (c : UInt8) : LexState := { ls with buff := ls.buff ++ [c] }

def currIsNewline (ls : LexState) : Bool := ls.current = some (char '\n') || ls.current = some (char '\r')

def inclinenumber (ls : LexState) : Except LexError LexState :=
  let old := ls.current
  let ls := ls.next
  let ls := if ls.currIsNewline ∧ ls.current ≠ old then ls.next else ls -- skip `\n\r' or `\r\n'
  let ls := { ls with linenumber := ls.linenumber + 1 }
  if MAX_INT ≤ ls.linenumber then throw (.lexerror "chunk has too many lines" ls.linenumber .token) else return ls

/-- The digits of an escape, of which there may be so many. -/
def decimal : ℕ → ℕ → LexState → ℕ × LexState
  | 0, c, ls => (c, ls)
  | i + 1, c, ls =>
    match ls.current with
    | none => (c, ls)
    | some d => if isdigit d then decimal i (10 * c + (d.toNat - (char '0').toNat)) ls.next else (c, ls)

/-- What is behind a backslash. -/
def escape (ls : LexState) : Except LexError LexState :=
  match ls.current with
  | none => return ls -- will raise an error next loop
  | some c =>
    if c = char 'a' then return (ls.save 7).next
    else if c = char 'b' then return (ls.save 8).next
    else if c = char 'f' then return (ls.save 12).next
    else if c = char 'n' then return (ls.save 10).next
    else if c = char 'r' then return (ls.save 13).next
    else if c = char 't' then return (ls.save 9).next
    else if c = char 'v' then return (ls.save 11).next
    else if c = char '\n' ∨ c = char '\r' then inclinenumber (ls.save (char '\n'))
    else if isdigit c = false then return (ls.save c).next -- handles \\, \", \', and \?
    else
      let r := decimal 3 0 ls
      if 255 < r.1 then throw (.lexerror "escape sequence too large" ls.linenumber (.string r.2.buff))
      else return r.2.save (UInt8.ofNat r.1)

/-- The loop up to the delimiter. A round goes forward. -/
def readLoop (del : UInt8) : ℕ → LexState → Except LexError LexState
  | 0, _ => throw .outOfFuel
  | fuel + 1, ls =>
    match ls.current with
    | none => throw (.lexerror "unfinished string" ls.linenumber .eos)
    | some c =>
      if c = del then return ls
      else if c = char '\n' ∨ c = char '\r' then
        throw (.lexerror "unfinished string" ls.linenumber (.string ls.buff))
      else if c = char '\\' then do readLoop del fuel (← escape ls.next)
      else readLoop del fuel (ls.save c).next

/-- The string without its delimiters, and the state behind it. -/
def read_string (ls : LexState) (del : UInt8) : Except LexError (List UInt8 × LexState) := do
  let ls := (ls.save del).next
  let ls ← readLoop del (ls.input.length + 1) ls
  let ls := (ls.save del).next
  return ((ls.buff.drop 1).take (ls.buff.length - 2), ls)

end LexState

/-- What `addquoted` writes for a character. -/
def quoted (c : UInt8) : List UInt8 :=
  if c = char '"' ∨ c = char '\\' ∨ c = char '\n' then [char '\\', c]
  else if c = char '\r' then [char '\\', char 'r']
  else if c = 0 then [char '\\', char '0', char '0', char '0']
  else [c]

def addquoted (s : List UInt8) : List UInt8 := char '"' :: s.flatMap quoted ++ [char '"']

namespace LexState

/-- No text of `addquoted` begins with the end of a line. -/
theorem quoted_head (s rest : List UInt8) : ∃ c l, s.flatMap quoted ++ char '"' :: rest = c :: l ∧
    c ≠ char '\n' ∧ c ≠ char '\r' := by
  cases s with
  | nil => exact ⟨_, _, rfl, by decide, by decide⟩
  | cons c s =>
    rw [List.flatMap_cons, List.append_assoc]
    unfold quoted
    split
    case isTrue => exact ⟨_, _, rfl, by decide, by decide⟩
    case isFalse hplain =>
      split
      case isTrue => exact ⟨_, _, rfl, by decide, by decide⟩
      case isFalse hreturn =>
        split
        case isTrue => exact ⟨_, _, rfl, by decide, by decide⟩
        case isFalse => exact ⟨c, _, rfl, fun h => hplain (.inr (.inr h)), hreturn⟩

theorem inclinenumber_quoted (s rest buff : List UInt8) {line : ℕ} (hline : line + 1 < MAX_INT) :
    inclinenumber ⟨char '\n' :: (s.flatMap quoted ++ char '"' :: rest), line, buff⟩ =
      .ok ⟨s.flatMap quoted ++ char '"' :: rest, line + 1, buff⟩ := by
  obtain ⟨c, l, hinput, hnewline, hreturn⟩ := quoted_head s rest
  rw [hinput]
  have hcurrent : currIsNewline ⟨c :: l, line, buff⟩ = false := by simp [currIsNewline, current, hnewline, hreturn]
  simp only [inclinenumber, next, List.tail_cons, hcurrent, Bool.false_eq_true, false_and, if_false]
  rw [if_neg (not_le.mpr hline)]
  rfl

/-- A character is read back in one round. -/
theorem readLoop_quoted {c : UInt8} {s rest buff : List UInt8} {line fuel : ℕ}
    (hline : line + [c].count (char '\n') < MAX_INT) :
    readLoop (char '"') (fuel + 1) ⟨quoted c ++ (s.flatMap quoted ++ char '"' :: rest), line, buff⟩ =
      readLoop (char '"') fuel
        ⟨s.flatMap quoted ++ char '"' :: rest, line + [c].count (char '\n'), buff ++ [c]⟩ := by
  have hbackslash (l : List UInt8) : readLoop (char '"') (fuel + 1) ⟨char '\\' :: l, line, buff⟩ =
      (escape ⟨l, line, buff⟩).bind (readLoop (char '"') fuel) := rfl
  unfold quoted
  split
  case isTrue hspecial =>
    rw [List.cons_append, List.singleton_append, hbackslash]
    rcases hspecial with rfl | rfl | rfl
    · rfl
    · rfl
    · have hinc := inclinenumber_quoted s rest (buff ++ [char '\n']) hline
      exact congrArg (Except.bind · (readLoop (char '"') fuel)) hinc
  case isFalse hplain =>
    have hnone : [c].count (char '\n') = 0 := by
      simp only [not_or] at hplain
      exact List.count_eq_zero.mpr fun hmem => hplain.2.2 (List.mem_singleton.mp hmem).symm
    rw [hnone]
    split
    case isTrue hreturn =>
      subst hreturn
      rfl
    case isFalse hreturn =>
      split
      case isTrue hzero =>
        subst hzero
        rfl
      case isFalse hzero =>
        simp only [not_or] at hplain
        simp [readLoop, current, hplain, hreturn, save, next]

theorem readLoop_addquoted (s rest buff : List UInt8) {line fuel : ℕ} (hline : line + s.count (char '\n') < MAX_INT)
    (hfuel : s.length < fuel) :
    readLoop (char '"') fuel ⟨s.flatMap quoted ++ char '"' :: rest, line, buff⟩ =
      .ok ⟨char '"' :: rest, line + s.count (char '\n'), buff ++ s⟩ := by
  induction s generalizing buff line fuel with
  | nil =>
    obtain ⟨fuel, rfl⟩ := Nat.exists_eq_succ_of_ne_zero (Nat.ne_of_gt hfuel)
    simp [readLoop, current]
    rfl
  | cons c s ih =>
    obtain ⟨fuel, rfl⟩ := Nat.exists_eq_succ_of_ne_zero (Nat.ne_of_gt (Nat.zero_lt_of_lt hfuel))
    have hcount : (c :: s).count (char '\n') = [c].count (char '\n') + s.count (char '\n') := by
      rw [← List.count_append]
      rfl
    rw [hcount] at hline ⊢
    rw [List.flatMap_cons, List.append_assoc, readLoop_quoted (by omega),
      ih (buff ++ [c]) (by omega) (Nat.lt_of_succ_lt_succ hfuel)]
    simp [Nat.add_assoc]

theorem length_le_quoted (s : List UInt8) : s.length ≤ (s.flatMap quoted).length := by
  induction s with
  | nil => exact le_rfl
  | cons c s ih =>
    have hpos : 0 < (quoted c).length := by
      unfold quoted
      split_ifs <;> exact Nat.succ_pos _
    rw [List.flatMap_cons, List.length_append, List.length_cons]
    omega

/-! The lexer comes to the end of a string -/

/-- An error, or a state that has no more input. -/
def Shrinks (ls : LexState) (r : Except LexError LexState) : Prop :=
  r ≠ .error .outOfFuel ∧ ∀ ls', r = .ok ls' → ls'.input.length ≤ ls.input.length

theorem shrinks_pure {ls ls' : LexState} (h : ls'.input.length ≤ ls.input.length) : Shrinks ls (pure ls') := by
  refine ⟨fun heq => ?_, fun ls'' heq => ?_⟩
  · cases heq
  · cases heq
    exact h

theorem shrinks_lexerror (ls : LexState) (msg : String) (linenumber : ℕ) (near : Near) :
    Shrinks ls (throw (.lexerror msg linenumber near)) := by
  refine ⟨fun heq => ?_, fun ls' heq => ?_⟩
  · cases heq
  · cases heq

theorem length_next (ls : LexState) : ls.next.input.length ≤ ls.input.length := by
  rw [next, List.length_tail]
  exact Nat.sub_le _ 1

theorem shrinks_save_next (ls : LexState) (c : UInt8) : Shrinks ls (pure (ls.save c).next) :=
  shrinks_pure (length_next (ls.save c))

theorem shrinks_inclinenumber (ls : LexState) : Shrinks ls ls.inclinenumber := by
  unfold inclinenumber
  dsimp only
  split
  · split
    · exact shrinks_lexerror ..
    · exact shrinks_pure ((length_next ls.next).trans (length_next ls))
  · split
    · exact shrinks_lexerror ..
    · exact shrinks_pure (length_next ls)

theorem length_decimal (i c : ℕ) (ls : LexState) : (decimal i c ls).2.input.length ≤ ls.input.length := by
  induction i generalizing c ls with
  | zero => exact le_rfl
  | succ i ih =>
    unfold decimal
    split
    · exact le_rfl
    · split
      · exact (ih _ ls.next).trans (length_next ls)
      · exact le_rfl

theorem shrinks_digits (ls : LexState) :
    Shrinks ls
      (let r := decimal 3 0 ls
      if 255 < r.1 then throw (.lexerror "escape sequence too large" ls.linenumber (.string r.2.buff))
      else return r.2.save (UInt8.ofNat r.1)) := by
  dsimp only
  split
  · exact shrinks_lexerror ..
  · exact shrinks_pure (length_decimal 3 0 ls)

theorem shrinks_escape (ls : LexState) : Shrinks ls ls.escape := by
  unfold escape
  split
  · exact shrinks_pure le_rfl
  · repeat' split
    all_goals first
      | exact shrinks_save_next ls _
      | exact shrinks_inclinenumber (ls.save _)
      | exact shrinks_digits ls

theorem readLoop_ne_outOfFuel (del : UInt8) {fuel : ℕ} {ls : LexState} (h : ls.input.length < fuel) :
    readLoop del fuel ls ≠ .error .outOfFuel := by
  induction fuel generalizing ls with
  | zero => omega
  | succ fuel ih =>
    unfold readLoop
    split
    · exact (shrinks_lexerror ls ..).1
    · rename_i c hc
      have hnext : ls.next.input.length < fuel := by
        obtain ⟨l, hl⟩ := List.head?_eq_some_iff.mp hc
        rw [hl] at h
        rw [next, hl]
        exact Nat.lt_of_succ_lt_succ h
      split
      · exact (shrinks_pure le_rfl).1
      · split
        · exact (shrinks_lexerror ls ..).1
        · split
          · obtain ⟨hfuel, hle⟩ := shrinks_escape ls.next
            cases hr : escape ls.next with
            | error err =>
              intro heq
              rw [hr] at hfuel
              cases heq
              exact hfuel rfl
            | ok ls' => exact ih ((hle ls' hr).trans_lt hnext)
          · exact ih hnext

/-- Whatever the text, the end of the string is found, or there is an error in it. -/
theorem read_string_ne_outOfFuel (ls : LexState) (del : UInt8) : read_string ls del ≠ .error .outOfFuel := by
  have hloop := readLoop_ne_outOfFuel del (Nat.lt_add_one (ls.save del).next.input.length)
  unfold read_string
  dsimp only
  intro heq
  cases hr : readLoop del ((ls.save del).next.input.length + 1) (ls.save del).next with
  | error err =>
    rw [hr] at heq hloop
    cases heq
    exact hloop rfl
  | ok ls' =>
    rw [hr] at heq
    cases heq

/-! What is written is read back -/

/-- Whatever follows it, the text that `addquoted` writes is read back as the string, with the lines counted that it
goes over. -/
theorem read_string_addquoted (s rest : List UInt8) {line : ℕ} (hline : line + s.count (char '\n') < MAX_INT) :
    read_string ⟨addquoted s ++ rest, line, []⟩ (char '"') =
      .ok (s, ⟨rest, line + s.count (char '\n'), char '"' :: s ++ [char '"']⟩) := by
  have htext : (addquoted s ++ rest).tail = s.flatMap quoted ++ char '"' :: rest := by simp [addquoted]
  have hfuel : s.length < (s.flatMap quoted ++ char '"' :: rest).length + 1 := by
    have hle := length_le_quoted s
    rw [List.length_append]
    omega
  have hloop := readLoop_addquoted s rest [char '"'] hline hfuel
  simp only [read_string, save, next, htext, List.nil_append]
  rw [hloop]
  simp [bind, Except.bind, pure, Except.pure]

/-- A string with everything that has to be quoted, in front of other text. -/
theorem read_string_addquoted_example :
    read_string ⟨addquoted [34, 92, 10, 13, 0, 48] ++ [59], 1, []⟩ (char '"') =
      .ok ([34, 92, 10, 13, 0, 48], ⟨[59], 2, [34, 34, 92, 10, 13, 0, 48, 34]⟩) :=
  read_string_addquoted [34, 92, 10, 13, 0, 48] [59] (by decide)

end LexState
end H1Z1Server.LuaLexer
