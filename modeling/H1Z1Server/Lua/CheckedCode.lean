import H1Z1Server.Lua.CodeChecker

/-! What the code checker promises: execution of code that it accepts stays among the instructions that it has
checked. -/
namespace H1Z1Server.LuaCode
open OpCode OpArgMask OpMode

variable {N : Type}

section Checks
variable {b : Prop} [Decidable b] {u : Unit}

@[simp] theorem check_eq_some : check b = some u ↔ b := by simp [check]

@[simp] theorem checkIf_eq_some {x : Option Unit} : checkIf b x = some u ↔ (b → x = some u) := by
  unfold checkIf
  split <;> simp_all

end Checks

namespace Proto
variable {pt : Proto N} {pc : ℕ}

theorem looksCounted_iff : pt.looksCounted pc = true ↔
    pt.opcode pc = some OP_SETLIST ∧ GETARG_C (pt.instruction pc) = 0 := by
  simp [looksCounted]

/-- The next instruction behind one, which may have a count behind it. -/
def behind (pt : Proto N) (pc : ℕ) : ℕ := if pt.looksCounted pc then pc + 2 else pc + 1

theorem lt_behind (pt : Proto N) (pc : ℕ) : pc < pt.behind pc := by
  unfold behind
  split <;> omega

/-- The checker comes from one instruction to another. -/
def Visits (pt : Proto N) : ℕ → ℕ → Prop := Relation.ReflTransGen fun pc pc' => pc' = pt.behind pc

theorem Visits.le {q : ℕ} (h : pt.Visits pc q) : pc ≤ q := by
  induction h with
  | refl => exact le_rfl
  | tail _ heq ih => exact ih.trans (heq ▸ (lt_behind pt _).le)

def Visited (pt : Proto N) (pc : ℕ) : Prop := pt.Visits 0 pc

/-- The count of the instruction in front. -/
def IsCount (pt : Proto N) (pc : ℕ) : Prop := ∃ q, pc = q + 1 ∧ pt.Visited q ∧ pt.looksCounted q = true

theorem Visited.next (h : pt.Visited pc) : pt.Visited (pt.behind pc) := h.tail rfl

theorem Visited.succ (h : pt.Visited pc) (hplain : pt.looksCounted pc = false) : pt.Visited (pc + 1) := by
  have hnext := h.next
  rwa [behind, hplain] at hnext

theorem IsCount.succ (h : pt.IsCount pc) : pt.Visited (pc + 1) := by
  obtain ⟨q, rfl, hq, hcounted⟩ := h
  have hnext := hq.next
  rwa [behind, if_pos hcounted] at hnext

/-- The parity of the row of counted instructions in front tells instructions from counts. -/
theorem visited_of_countedBefore (pt : Proto N) (pc : ℕ) :
    (pt.countedBefore pc % 2 = 0 → pt.Visited pc) ∧ (pt.countedBefore pc % 2 = 1 → pt.IsCount pc) := by
  induction pc with
  | zero => exact ⟨fun _ => .refl, by simp [countedBefore]⟩
  | succ pc ih =>
    obtain ⟨heven, hodd⟩ := ih
    rw [countedBefore]
    cases hcounted : pt.looksCounted pc with
    | true =>
      simp only [if_true]
      constructor
      · intro h
        exact (hodd (by omega)).succ
      · intro h
        exact ⟨pc, rfl, heven (by omega), hcounted⟩
    | false =>
      refine ⟨fun _ => ?_, by simp⟩
      rcases Nat.mod_two_eq_zero_or_one (pt.countedBefore pc) with h | h
      · exact (heven h).succ hcounted
      · exact (hodd h).succ

theorem Visited.even (h : pt.Visited pc) : pt.countedBefore pc % 2 = 0 := by
  induction h with
  | refl => rfl
  | tail _ heq ih =>
    subst heq
    unfold behind
    split
    case isTrue hcounted =>
      rw [countedBefore, countedBefore, if_pos hcounted]
      split <;> omega
    case isFalse hplain => rw [countedBefore, if_neg hplain]

theorem Visited.not_isCount (h : pt.Visited pc) : ¬pt.IsCount pc := by
  rintro ⟨q, rfl, hq, hcounted⟩
  have heven := h.even
  have hfront := hq.even
  rw [countedBefore, if_pos hcounted] at heven
  omega

/-- An instruction has passed all checks. -/
structure Passed (pt : Proto N) (pc : ℕ) (op : OpCode) (b c : ℤ) : Prop where
  opcode : pt.opcode pc = some op
  register : GETARG_A (pt.instruction pc) < pt.maxstacksize.toNat
  args : pt.checkArgs pc op = some (b, c)
  test : (opmodes op).t = true → pc + 2 < pt.sizecode ∧ pt.opcode (pc + 1) = some OP_JMP
  rest : pt.checkOp pc op (GETARG_A (pt.instruction pc)) b c = some ()

section Arguments
variable {op : OpCode} {b c : ℤ}

theorem checkArgs_iABC (h : pt.checkArgs pc op = some (b, c)) (hm : (opmodes op).m = iABC) :
    b = GETARG_B (pt.instruction pc) ∧ c = GETARG_C (pt.instruction pc) ∧
      pt.checkArgMode (GETARG_B (pt.instruction pc)) (opmodes op).b = some () ∧
      pt.checkArgMode (GETARG_C (pt.instruction pc)) (opmodes op).c = some () := by
  unfold checkArgs at h
  simp only [hm, Option.bind_eq_bind, Option.bind_eq_some_iff, Option.pure_def, Option.some.injEq, Prod.mk.injEq] at h
  obtain ⟨_, hb, _, hc, rfl, rfl⟩ := h
  exact ⟨rfl, rfl, hb, hc⟩

theorem checkArgs_iABx (h : pt.checkArgs pc op = some (b, c)) (hm : (opmodes op).m = iABx) :
    b = GETARG_Bx (pt.instruction pc) ∧ ((opmodes op).b = OpArgK → GETARG_Bx (pt.instruction pc) < pt.k.length) := by
  unfold checkArgs at h
  simp only [hm, Option.bind_eq_bind, Option.bind_eq_some_iff, Option.pure_def, Option.some.injEq, Prod.mk.injEq,
    checkIf_eq_some, check_eq_some] at h
  obtain ⟨_, hk, rfl, -⟩ := h
  exact ⟨rfl, hk⟩

theorem checkArgs_iAsBx (h : pt.checkArgs pc op = some (b, c)) (hm : (opmodes op).m = iAsBx)
    (hb : (opmodes op).b = OpArgR) : b = GETARG_sBx (pt.instruction pc) ∧
      pt.checkdest (pc + 1 + GETARG_sBx (pt.instruction pc)) = some () := by
  unfold checkArgs at h
  simp only [hm, hb, Option.bind_eq_bind, Option.bind_eq_some_iff, Option.pure_def, Option.some.injEq,
    Prod.mk.injEq, checkIf_eq_some, true_imp_iff] at h
  obtain ⟨_, hdest, rfl, -⟩ := h
  exact ⟨rfl, hdest⟩

end Arguments

theorem looksCounted_eq_false {op : OpCode} (h : pt.opcode pc = some op) (hop : op ≠ OP_SETLIST) :
    pt.looksCounted pc = false := by
  simp [looksCounted, h, hop]

theorem checkNext_NO_REG (lastpc : ℕ) {op : OpCode} {b c : ℤ} (h : pt.Passed pc op b c) :
    pt.checkNext lastpc NO_REG pc op b c = pt.behind pc := by
  have hop := h.opcode
  by_cases hset : op = OP_SETLIST
  · subst hset
    obtain ⟨-, rfl, -⟩ := checkArgs_iABC h.args rfl
    simp [checkNext, behind, looksCounted, hop]
  · rw [behind, looksCounted_eq_false hop hset]
    cases op <;> simp_all [checkNext]

theorem symbexecStep_some {lastpc pc' last last' : ℕ} (h : pt.symbexecStep lastpc NO_REG pc last = some (pc', last')) :
    (∃ op b c, pt.Passed pc op b c) ∧ pc' = pt.behind pc := by
  unfold symbexecStep at h
  simp only [Option.bind_eq_bind, Option.bind_eq_some_iff, checkreg, check_eq_some, checkIf_eq_some, Option.pure_def,
    Option.some.injEq, Prod.mk.injEq] at h
  obtain ⟨op, hop, _, ha, ⟨b, c⟩, hargs, _, htest, _, hrest, hpc, -⟩ := h
  have hpassed : pt.Passed pc op b c := ⟨hop, by exact_mod_cast ha, hargs, htest, hrest⟩
  exact ⟨⟨op, b, c, hpassed⟩, hpc ▸ checkNext_NO_REG lastpc hpassed⟩

/-- The loop goes through all instructions. -/
theorem symbexecLoop_some (fuel : ℕ) {last r : ℕ} (h : pt.symbexecLoop pt.sizecode NO_REG fuel pc last = some r)
    (hfuel : pt.sizecode - pc ≤ fuel) {q : ℕ} (hq : pt.Visits pc q) (hlt : q < pt.sizecode) :
    ∃ op b c, pt.Passed q op b c := by
  have hle := hq.le
  induction fuel generalizing pc last with
  | zero => omega
  | succ fuel ih =>
    rw [symbexecLoop, if_pos (by omega)] at h
    simp only [Option.bind_eq_bind, Option.bind_eq_some_iff] at h
    obtain ⟨⟨pc', last'⟩, hstep, hloop⟩ := h
    obtain ⟨hpassed, rfl⟩ := symbexecStep_some hstep
    rcases hq.cases_head with rfl | ⟨_, rfl, hrest⟩
    · exact hpassed
    · have hforward := lt_behind pt pc
      exact ih hloop (by omega) hrest (Visits.le hrest)

/-- What the code checker has accepted. -/
structure Checked (pt : Proto N) : Prop where
  stack : pt.maxstacksize.toNat ≤ MAXSTACK
  nonempty : 0 < pt.sizecode
  final : pt.opcode (pt.sizecode - 1) = some OP_RETURN
  passed : ∀ pc, pt.Visited pc → pc < pt.sizecode → ∃ op b c, pt.Passed pc op b c

theorem checked_of_checkcode (h : pt.checkcode = true) : pt.Checked := by
  unfold checkcode at h
  split at h
  case h_2 => cases h
  case h_1 i hi =>
    unfold symbexec precheck at hi
    simp only [Option.bind_eq_bind, Option.bind_eq_some_iff, check_eq_some] at hi
    obtain ⟨_, ⟨_, hstack, _, -, _, -, _, -, _, -, hpos, hfinal⟩, r, hloop, -⟩ := hi
    exact ⟨hstack, hpos, hfinal, fun pc hpc hlt => symbexecLoop_some _ hloop (by omega) hpc hlt⟩

/-! Successors -/

/-- An instruction of the code, that the checker has come to. -/
def Inside (pt : Proto N) (n : ℤ) : Prop := ∃ pc : ℕ, n = pc ∧ pt.Visited pc ∧ pc < pt.sizecode

theorem inside_of_checkdest {dest : ℤ} (h : pt.checkdest dest = some ()) : pt.Inside dest := by
  unfold checkdest at h
  simp only [Option.bind_eq_bind, Option.bind_eq_some_iff, check_eq_some] at h
  obtain ⟨_, ⟨hpos, hlt⟩, heven⟩ := h
  exact ⟨dest.toNat, by omega, (visited_of_countedBefore pt _).1 heven, by omega⟩

section Successors
variable {op : OpCode} {b c : ℤ}

/-- The code goes on behind an instruction that is no return. -/
theorem Checked.succ_lt (h : pt.Checked) (hop : pt.opcode pc = some op) (hreturn : op ≠ OP_RETURN)
    (hlt : pc < pt.sizecode) : pc + 1 < pt.sizecode := by
  by_contra hle
  have hlast : pc = pt.sizecode - 1 := by omega
  rw [hlast, h.final] at hop
  exact hreturn (Option.some.inj hop).symm

theorem Checked.inside_succ (h : pt.Checked) (hop : pt.opcode pc = some op) (hreturn : op ≠ OP_RETURN)
    (hset : op ≠ OP_SETLIST) (hpc : pt.Visited pc) (hlt : pc < pt.sizecode) : pt.Inside (pc + 1 : ℕ) :=
  ⟨pc + 1, rfl, hpc.succ (looksCounted_eq_false hop hset), h.succ_lt hop hreturn hlt⟩

/-- A test is followed by a jump, which it takes or skips. -/
theorem Checked.inside_test (h : pt.Checked) (hp : pt.Passed pc op b c) (ht : (opmodes op).t = true)
    (hpc : pt.Visited pc) : pt.Inside (pc + 2) ∧ pt.Inside (pc + 2 + GETARG_sBx (pt.instruction (pc + 1))) := by
  obtain ⟨hskip, hjump⟩ := hp.test ht
  have hset : op ≠ OP_SETLIST := by
    rintro rfl
    cases ht
  have hnext : pt.Visited (pc + 1) := hpc.succ (looksCounted_eq_false hp.opcode hset)
  refine ⟨⟨pc + 2, rfl, hnext.succ (looksCounted_eq_false hjump (by decide)), hskip⟩, ?_⟩
  obtain ⟨op', b', c', hp'⟩ := h.passed (pc + 1) hnext (by omega)
  cases Option.some.inj (hp'.opcode.symm.trans hjump)
  have hdest := inside_of_checkdest (checkArgs_iAsBx hp'.args rfl rfl).2
  rwa [show (pc + 1 : ℕ) + 1 + GETARG_sBx (pt.instruction (pc + 1)) =
    pc + 2 + GETARG_sBx (pt.instruction (pc + 1)) by push_cast; ring] at hdest

/-- The instructions behind a closure that say what it captures. -/
theorem Checked.inside_closure (h : pt.Checked) (hp : pt.Passed pc OP_CLOSURE b c) (hpc : pt.Visited pc)
    (hlt : pc < pt.sizecode) : GETARG_Bx (pt.instruction pc) < pt.p.length ∧
      ∀ nup, nup = ((pt.p[GETARG_Bx (pt.instruction pc)]?).elim 0 Proto.nups).toNat →
        pt.Inside (pc + 1 + nup : ℕ) ∧ ∀ j, 1 ≤ j → j ≤ nup →
          pt.Inside (pc + j : ℕ) ∧ (pt.opcode (pc + j) = some OP_GETUPVAL ∨ pt.opcode (pc + j) = some OP_MOVE) := by
  obtain ⟨rfl, -⟩ := checkArgs_iABx hp.args rfl
  have hrest := hp.rest
  unfold checkOp at hrest
  simp only [Option.bind_eq_bind, Option.bind_eq_some_iff, check_eq_some, Int.toNat_natCast] at hrest
  obtain ⟨_, hb, _, hroom, hall⟩ := hrest
  refine ⟨by exact_mod_cast hb, ?_⟩
  intro nup hnup
  rw [← hnup] at hroom hall
  have hpseudo : ∀ j, 1 ≤ j → j ≤ nup → pt.opcode (pc + j) = some OP_GETUPVAL ∨ pt.opcode (pc + j) = some OP_MOVE :=
    fun j hj hle => hall j (List.mem_range'_1.mpr ⟨hj, by omega⟩)
  have hvisited : ∀ j, j ≤ nup → pt.Visited (pc + 1 + j) := by
    intro j hj
    induction j with
    | zero => exact hpc.succ (looksCounted_eq_false hp.opcode (by decide))
    | succ j ih =>
      have hprev := ih (by omega)
      rcases hpseudo (j + 1) (by omega) hj with hop | hop
      all_goals
        rw [show pc + (j + 1) = pc + 1 + j by omega] at hop
        exact hprev.succ (looksCounted_eq_false hop (by decide))
  refine ⟨⟨pc + 1 + nup, rfl, hvisited nup le_rfl, ?_⟩, ?_⟩
  · rcases Nat.eq_zero_or_pos nup with hzero | hpos
    · rw [hzero]
      exact h.succ_lt hp.opcode (by decide) hlt
    · rw [show pc + 1 + nup = pc + nup + 1 by omega]
      rcases hpseudo nup hpos le_rfl with hop | hop
      all_goals exact h.succ_lt hop (by decide) (by omega)
  · intro j hj hle
    refine ⟨⟨pc + j, rfl, ?_, by omega⟩, hpseudo j hj hle⟩
    have hj' := hvisited (j - 1) (by omega)
    rwa [show pc + 1 + (j - 1) = pc + j by omega] at hj'

/-- `OP_LOADBOOL` skips one instruction when its third operand is 1, which is all that the checker looks for. -/
def PlainSkips (pt : Proto N) : Prop :=
  ∀ pc, pt.opcode pc = some OP_LOADBOOL → GETARG_C (pt.instruction pc) ≤ 1

theorem Checked.inside_next (h : pt.Checked) (hskips : pt.PlainSkips) (hpc : pt.Visited pc) (hlt : pc < pt.sizecode)
    {n : ℤ} (hn : n ∈ pt.nexts pc) : pt.Inside n := by
  obtain ⟨op, b, c, hp⟩ := h.passed pc hpc hlt
  have hop := hp.opcode
  unfold nexts at hn
  rw [hop] at hn
  cases op
  case OP_LOADBOOL =>
    obtain ⟨-, rfl, -, -⟩ := checkArgs_iABC hp.args rfl
    have hnext := h.inside_succ hop (by decide) (by decide) hpc hlt
    have hle := hskips pc hop
    simp only [List.mem_singleton] at hn
    split at hn
    case isFalse => exact hn ▸ hnext
    case isTrue hc =>
      have hrest := hp.rest
      unfold checkOp at hrest
      simp only [Option.bind_eq_bind, Option.bind_eq_some_iff, check_eq_some, checkIf_eq_some] at hrest
      obtain ⟨_, hroom, hplain⟩ := hrest (by omega)
      have hskipped : pt.looksCounted (pc + 1) = false := by
        rw [Bool.eq_false_iff, Ne, looksCounted_iff]
        rintro ⟨hset, hzero⟩
        exact hplain.elim (fun hne => hne hset) fun hne => hne hzero
      have hvisited := (hpc.succ (looksCounted_eq_false hop (by decide))).succ hskipped
      exact ⟨pc + 2, hn, hvisited, hroom⟩
  case OP_SETLIST =>
    obtain ⟨-, rfl, -, -⟩ := checkArgs_iABC hp.args rfl
    have hvisited := hpc.next
    have hrest := hp.rest
    unfold checkOp at hrest
    simp only [Option.bind_eq_bind, Option.bind_eq_some_iff, check_eq_some, checkIf_eq_some] at hrest
    obtain ⟨_, -, hcount⟩ := hrest
    simp only [List.mem_singleton] at hn
    split at hn
    case isTrue hc =>
      have hroom := hcount (by exact_mod_cast hc)
      rw [behind, if_pos (looksCounted_iff.mpr ⟨hop, hc⟩)] at hvisited
      exact ⟨pc + 2, hn, hvisited, by omega⟩
    case isFalse hc =>
      rw [behind, if_neg fun hcounted => hc (looksCounted_iff.mp hcounted).2] at hvisited
      exact ⟨pc + 1, hn, hvisited, h.succ_lt hop (by decide) hlt⟩
  case OP_CLOSURE =>
    simp only [List.mem_singleton] at hn
    have hbehind := ((h.inside_closure hp hpc hlt).2 _ rfl).1
    rw [hn]
    exact_mod_cast hbehind
  case OP_JMP | OP_FORPREP =>
    simp only [List.mem_singleton] at hn
    exact hn ▸ inside_of_checkdest (checkArgs_iAsBx hp.args rfl rfl).2
  case OP_FORLOOP =>
    simp only [List.mem_cons, List.not_mem_nil, or_false] at hn
    rcases hn with rfl | rfl
    · exact h.inside_succ hop (by decide) (by decide) hpc hlt
    · exact inside_of_checkdest (checkArgs_iAsBx hp.args rfl rfl).2
  case OP_EQ | OP_LT | OP_LE | OP_TEST | OP_TESTSET | OP_TFORLOOP =>
    simp only [List.mem_cons, List.not_mem_nil, or_false] at hn
    obtain ⟨hskip, hjump⟩ := h.inside_test hp rfl hpc
    rcases hn with rfl | rfl
    · exact hskip
    · exact hjump
  case OP_RETURN => cases hn
  all_goals
    simp only [List.mem_singleton] at hn
    subst hn
    exact h.inside_succ hop (by decide) (by decide) hpc hlt

end Successors

/-! Operands -/

theorem checkArgMode_OpArgR {r : ℕ} : pt.checkArgMode r OpArgR = some () ↔ r < pt.maxstacksize.toNat := by
  simp [checkArgMode, checkreg]

theorem checkArgMode_OpArgK {r : ℕ} : pt.checkArgMode r OpArgK = some () ↔ pt.RK r := by
  simp [checkArgMode, RK]

theorem Passed.operandsFit {op : OpCode} {b c : ℤ} (hp : pt.Passed pc op b c) : pt.OperandsFit pc := by
  have hop := hp.opcode
  have hargs := hp.args
  have hrest := hp.rest
  refine ⟨hp.register, ?_⟩
  rw [hop]
  cases op
  case OP_LOADK => exact (checkArgs_iABx hargs rfl).2 rfl
  case OP_GETGLOBAL | OP_SETGLOBAL =>
    obtain ⟨rfl, -⟩ := checkArgs_iABx hargs rfl
    exact check_eq_some.mp hrest
  case OP_CLOSURE =>
    obtain ⟨rfl, -⟩ := checkArgs_iABx hargs rfl
    unfold checkOp at hrest
    simp only [Option.bind_eq_bind, Option.bind_eq_some_iff, check_eq_some] at hrest
    obtain ⟨_, hb, -⟩ := hrest
    exact_mod_cast hb
  case OP_FORLOOP | OP_FORPREP =>
    unfold checkOp checkreg at hrest
    rw [check_eq_some] at hrest
    dsimp only
    omega
  case OP_JMP => trivial
  all_goals
    obtain ⟨rfl, rfl, hb, hc⟩ := checkArgs_iABC hargs rfl
    dsimp only
  case OP_MOVE | OP_LOADNIL | OP_UNM | OP_NOT | OP_LEN | OP_TESTSET => exact checkArgMode_OpArgR.mp hb
  case OP_GETUPVAL | OP_SETUPVAL => exact_mod_cast check_eq_some.mp hrest
  case OP_GETTABLE => exact ⟨checkArgMode_OpArgR.mp hb, checkArgMode_OpArgK.mp hc⟩
  case OP_SETTABLE | OP_ADD | OP_SUB | OP_MUL | OP_DIV | OP_MOD | OP_POW | OP_EQ | OP_LT | OP_LE =>
    exact ⟨checkArgMode_OpArgK.mp hb, checkArgMode_OpArgK.mp hc⟩
  case OP_SELF =>
    unfold checkOp checkreg at hrest
    rw [check_eq_some] at hrest
    exact ⟨by omega, checkArgMode_OpArgR.mp hb, checkArgMode_OpArgK.mp hc⟩
  case OP_CONCAT => exact ⟨by exact_mod_cast check_eq_some.mp hrest, checkArgMode_OpArgR.mp hc⟩
  all_goals
    unfold checkOp checkreg at hrest
    simp only [Option.bind_eq_bind, Option.bind_eq_some_iff, check_eq_some, checkIf_eq_some] at hrest
  case OP_CALL =>
    obtain ⟨_, hargs, hresults⟩ := hrest
    refine ⟨fun hb => ?_, fun hc => ?_⟩
    · have hlast := hargs (by exact_mod_cast hb)
      omega
    · rw [if_neg (by omega), checkIf_eq_some, check_eq_some] at hresults
      have hlast := hresults (by omega)
      omega
  case OP_TAILCALL =>
    obtain ⟨_, hargs, -⟩ := hrest
    intro hb
    have hlast := hargs (by exact_mod_cast hb)
    omega
  case OP_RETURN =>
    intro hb
    have hlast := hrest (by omega)
    omega
  case OP_TFORLOOP =>
    obtain ⟨_, hpos, hlast⟩ := hrest
    omega
  case OP_SETLIST =>
    obtain ⟨_, hlast, -⟩ := hrest
    have ha := hp.register
    by_cases hb : GETARG_B (pt.instruction pc) = 0
    · omega
    · have hlast := hlast (by omega)
      omega
  case OP_VARARG =>
    obtain ⟨_, -, _, -, hlast⟩ := hrest
    intro hb
    omega

theorem Checked.inside_of_executes (h : pt.Checked) (hskips : pt.PlainSkips) {n : ℤ} (hn : pt.Executes n) :
    pt.Inside n := by
  induction hn with
  | start => exact ⟨0, rfl, .refl, h.nonempty⟩
  | next _ hmem ih =>
    obtain ⟨pc, heq, hpc, hlt⟩ := ih
    cases Int.ofNat_inj.mp heq
    exact h.inside_next hskips hpc hlt hmem

/-- What the instructions behind a closure name exists, too. -/
def CapturesFit (pt : Proto N) (pc : ℕ) : Prop :=
  pt.opcode pc = some OP_CLOSURE →
    ∀ j, 1 ≤ j → j ≤ ((pt.p[GETARG_Bx (pt.instruction pc)]?).elim 0 Proto.nups).toNat →
      pc + j < pt.sizecode ∧ (pt.opcode (pc + j) = some OP_GETUPVAL ∨ pt.opcode (pc + j) = some OP_MOVE) ∧
        pt.OperandsFit (pc + j)

/-- Execution of code that the checker has accepted never leaves it, never takes a count for an instruction, and
never names what does not exist. -/
theorem checkcode_sound (h : pt.checkcode = true) (hskips : pt.PlainSkips) {n : ℤ} (hn : pt.Executes n) :
    ∃ pc : ℕ, n = pc ∧ pc < pt.sizecode ∧ ¬pt.IsCount pc ∧ pt.OperandsFit pc ∧ pt.CapturesFit pc := by
  have hchecked := checked_of_checkcode h
  obtain ⟨pc, rfl, hpc, hlt⟩ := hchecked.inside_of_executes hskips hn
  obtain ⟨op, b, c, hp⟩ := hchecked.passed pc hpc hlt
  refine ⟨pc, rfl, hlt, hpc.not_isCount, hp.operandsFit, ?_⟩
  intro hop j hj hle
  cases Option.some.inj (hp.opcode.symm.trans hop)
  obtain ⟨⟨q, hq, hvisited, hlt'⟩, hpseudo⟩ := ((hchecked.inside_closure hp hpc hlt).2 _ rfl).2 j hj hle
  cases Int.ofNat_inj.mp hq
  obtain ⟨op', b', c', hp'⟩ := hchecked.passed _ hvisited hlt'
  exact ⟨hlt', hpseudo, hp'.operandsFit⟩

/-- A function of two registers without constants. -/
def plain (code : List Instruction) : Proto ℤ := ⟨none, 0, 0, 0, 0, 0, 2, code, [], [], [], [], []⟩

/-- A skip over one instruction. -/
theorem checkcode_sound_example :
    let pt := plain [CREATE_ABC OP_LOADBOOL 0 1 1, CREATE_ABC OP_LOADBOOL 0 0 0, CREATE_ABC OP_RETURN 0 1 0]
    ∃ pc : ℕ, (2 : ℤ) = pc ∧ pc < pt.sizecode ∧ ¬pt.IsCount pc ∧ pt.OperandsFit pc ∧ pt.CapturesFit pc := by
  apply checkcode_sound (by decide)
  · intro pc hop
    by_cases hpc : pc < 3
    · interval_cases pc
      all_goals decide
    · rw [opcode, instruction, List.getD_eq_getElem?_getD, List.getElem?_eq_none (not_lt.mp hpc)] at hop
      exact absurd hop (by decide)
  · exact .next .start (by decide)

/-- The checker does not look for skips with another operand, which the virtual machine makes, too. -/
example : (plain [CREATE_ABC OP_LOADBOOL 0 1 2, CREATE_ABC OP_RETURN 0 1 0]).checkcode = true ∧
    2 ∈ (plain [CREATE_ABC OP_LOADBOOL 0 1 2, CREATE_ABC OP_RETURN 0 1 0]).nexts 0 := by decide

/-- The functions have the same instructions, and the same for these to name. -/
structure SameCode (f g : Proto N) : Prop where
  nups : g.nups = f.nups
  numparams : g.numparams = f.numparams
  is_vararg : g.is_vararg = f.is_vararg
  maxstacksize : g.maxstacksize = f.maxstacksize
  code : g.code = f.code
  k : g.k = f.k
  p : g.p.map Proto.nups = f.p.map Proto.nups

section Same
variable {f g : Proto N} (h : SameCode f g)
include h

theorem SameCode.size_p : g.p.length = f.p.length := by
  simpa using congrArg List.length h.p

theorem SameCode.nups_p (b : ℕ) : (g.p[b]?).elim 0 Proto.nups = (f.p[b]?).elim 0 Proto.nups := by
  have hb := congrArg (fun l => (l[b]?).elim 0 id) h.p
  simpa only [List.getElem?_map, Option.elim_map, Function.id_comp] using hb

theorem SameCode.kIsString : g.kIsString = f.kIsString := by
  funext b
  rw [Proto.kIsString, Proto.kIsString, h.k]

theorem SameCode.instruction : g.instruction = f.instruction := by
  funext pc
  rw [Proto.instruction, Proto.instruction, h.code]

theorem SameCode.sizecode : g.sizecode = f.sizecode := by rw [Proto.sizecode, Proto.sizecode, h.code]

theorem SameCode.opcode : g.opcode = f.opcode := by
  funext pc
  rw [Proto.opcode, Proto.opcode, h.instruction]

theorem SameCode.checkreg : g.checkreg = f.checkreg := by
  funext reg
  rw [Proto.checkreg, Proto.checkreg, h.maxstacksize]

theorem SameCode.countedBefore : g.countedBefore = f.countedBefore := by
  funext dest
  induction dest with
  | zero => rfl
  | succ dest ih =>
    rw [Proto.countedBefore, Proto.countedBefore, looksCounted, looksCounted, h.opcode, h.instruction, ih]

theorem SameCode.checkArgs : g.checkArgs = f.checkArgs := by
  funext pc op
  simp only [Proto.checkArgs, Proto.checkArgMode, Proto.checkdest, h.instruction, h.checkreg, h.countedBefore,
    h.sizecode, h.k, h.maxstacksize]

theorem SameCode.checkOp : g.checkOp = f.checkOp := by
  funext pc op a b c
  cases op
  all_goals
    simp only [Proto.checkOp, Proto.checkopenop, h.kIsString, h.instruction, h.checkreg, h.opcode, h.sizecode,
      h.size_p, h.nups_p, h.nups, h.is_vararg]

theorem SameCode.symbexecStep : g.symbexecStep = f.symbexecStep := by
  funext lastpc reg pc last
  simp only [Proto.symbexecStep, Proto.checkNext, h.opcode, h.instruction, h.checkreg, h.checkArgs, h.checkOp,
    h.sizecode, h.nups_p]

theorem SameCode.symbexecLoop : g.symbexecLoop = f.symbexecLoop := by
  funext lastpc reg fuel
  induction fuel with
  | zero => rfl
  | succ fuel ih =>
    funext pc last
    simp only [Proto.symbexecLoop, h.symbexecStep, ih]

/-- Of the rest, the checker only wants to know how much there is. -/
theorem SameCode.checkcode (hline : g.lineinfo.length = f.lineinfo.length ∨ g.lineinfo.length = 0)
    (hupvalues : g.upvalues.length ≤ f.upvalues.length) (hf : f.checkcode = true) : g.checkcode = true := by
  have hprecheck (u : f.precheck = some ()) : g.precheck = some () := by
    simp only [Proto.precheck, Option.bind_eq_bind, Option.bind_eq_some_iff, check_eq_some] at u ⊢
    rw [h.maxstacksize, h.numparams, h.is_vararg, h.nups, h.sizecode, h.opcode]
    obtain ⟨_, hstack, _, hparams, _, harg, _, hups, _, hlines, hcode⟩ := u
    exact ⟨(), hstack, (), hparams, (), harg, (), hupvalues.trans hups, (), by omega, hcode⟩
  have hsymbexec {i : Instruction} (hi : f.symbexec f.sizecode NO_REG = some i) :
      g.symbexec g.sizecode NO_REG = some i := by
    simp only [Proto.symbexec, Option.bind_eq_bind, Option.bind_eq_some_iff] at hi ⊢
    rw [h.sizecode, h.symbexecLoop, h.instruction]
    obtain ⟨_, hpre, hloop⟩ := hi
    exact ⟨(), hprecheck hpre, hloop⟩
  unfold Proto.checkcode at hf ⊢
  cases hi : f.symbexec f.sizecode NO_REG with
  | none =>
    rw [hi] at hf
    cases hf
  | some i =>
    rw [hi] at hf
    rw [hsymbexec hi]
    exact hf

end Same

end Proto
end H1Z1Server.LuaCode
