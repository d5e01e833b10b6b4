import H1Z1Server.Lua.Dumping

/-! What Lua loads, and what the result depends on. -/
namespace H1Z1Server.LuaChunk
open ByteOrder Codec LuaCode

variable {N δ : Type}

/-! What a chunk may be -/

/-- The function and those in it know where they come from. -/
def Sourced : ℕ → Proto N → Prop
  | 0, _ => True
  | depth + 1, f => f.source ≠ none ∧ ∀ g ∈ f.p, Sourced depth g

theorem loaded_eq_self {depth : ℕ} {f : Proto N} (h : Loadable depth f) (hsource : Sourced depth f)
    (p : Option TString) : loaded false p f = f := by
  induction depth generalizing f p with
  | zero => cases h
  | succ depth ih =>
    obtain ⟨hself, hin⟩ := hsource
    obtain ⟨s, hs⟩ := Option.ne_none_iff_exists'.mp hself
    have hsource : f.source.or p = f.source := by simp [hs]
    have hp : f.p.map (loaded false f.source) = f.p := by
      rw [List.map_congr_left fun g hg => ih (h.2 g hg) (hin g hg) _, List.map_id']
    rw [loaded_eq]
    simp only [Bool.false_eq_true, if_false, hsource, hp]
    cases f
    rfl

namespace LoadState
variable (S : LoadState)

theorem gives_LoadInt : Gives S.LoadInt fun x => 0 ≤ x := by
  refine S.gives_LoadBlock.bind fun b _ => ?_
  dsimp only
  split
  case isTrue => exact gives_throw _
  case isFalse h => exact gives_pure (Int32.not_lt.mp h)

theorem gives_LoadString : Gives S.LoadString FitsString := by
  refine S.gives_LoadBlock.bind fun b _ => ?_
  dsimp only
  split
  case isTrue => exact gives_pure fun t ht => absurd ht (by simp)
  case isFalse hsize =>
    have hopen : Gives (luaZ_openspace (ofLE b)) fun _ => True := fun _ _ _ _ => trivial
    refine hopen.bind fun _ _ => S.gives_LoadBlock.bind fun s hs => ?_
    unfold luaS_newlstr
    split
    case isTrue => exact gives_throw _
    case isFalse hlen =>
      refine gives_pure fun t ht => ?_
      cases ht
      rw [List.length_take]
      omega

theorem gives_luaM_newvector (n : Int32) (e : ℕ) : Gives (luaM_newvector n e) fun _ => FitsCount n.toInt.toNat := by
  unfold luaM_newvector
  split
  case isTrue => exact gives_throw _
  case isFalse hmax =>
    split
    case isFalse => exact gives_throw _
    case isTrue =>
      refine gives_pure ?_
      have hlt := n.toInt_lt
      have hne : n.toInt ≠ 2 ^ 31 - 1 := fun heq => hmax (Int32.toInt_inj.mp heq)
      unfold FitsCount
      omega

theorem length_words (b : List UInt8) : (words b).length = b.length / 4 := by
  fun_induction words b with
  | case1 a b c d rest ih =>
    simp only [List.length_cons, ih]
    omega
  | case2 b h =>
    have hlt : b.length < 4 := by
      by_contra hlen
      obtain _ | ⟨a, _ | ⟨b, _ | ⟨c, _ | ⟨d, rest⟩⟩⟩⟩ := b
      all_goals simp at hlen
      exact h a b c d rest rfl
    simp [Nat.div_eq_of_lt hlt]

theorem gives_LoadVector : Gives S.LoadVector fun l => FitsCount l.length := by
  refine S.gives_LoadInt.bind fun n _ => (gives_luaM_newvector n 4).bind fun _ hfits => ?_
  refine S.gives_LoadBlock.bind fun b hb => gives_pure ?_
  rwa [length_words, hb, Nat.mul_div_cancel _ (by decide)]

theorem gives_LoadElements {α : Type} (e : ℕ) {load : LoadM α} {P : α → Prop} (h : Gives load P) :
    Gives (S.LoadElements e load) fun l => FitsCount l.length ∧ ∀ a ∈ l, P a := by
  refine S.gives_LoadInt.bind fun n _ => (gives_luaM_newvector n e).bind fun _ hfits => ?_
  intro z l z' hrun
  obtain ⟨hlen, hl⟩ := h.many _ z l z' hrun
  exact ⟨by rwa [hlen], hl⟩

theorem gives_LoadConstant [NumberBytes N] : Gives (S.LoadConstant (N := N)) FitsConstant := by
  have hany {α : Type} (x : LoadM α) : Gives x fun _ => True := fun _ _ _ _ => trivial
  refine (hany _).bind fun t _ => ?_
  split_ifs
  · exact gives_pure fun s hs => by cases hs
  · exact (hany _).bind fun b _ => gives_pure fun s hs => by cases hs
  · exact (hany _).bind fun n _ => gives_pure fun s hs => by cases hs
  · refine S.gives_LoadString.bind fun s hs => gives_pure fun t ht => ?_
    cases ht
    exact hs
  · exact gives_throw _

theorem gives_LoadLocVar : Gives S.LoadLocVar FitsLocVar := by
  refine S.gives_LoadString.bind fun varname hname => S.gives_LoadInt.bind fun startpc hstart => ?_
  exact S.gives_LoadInt.bind fun endpc hend => gives_pure ⟨hname, hstart, hend⟩

theorem gives_LoadFunction [NumberBytes N] (depth : ℕ) {p : Option TString} (hp : p ≠ none) (hfits : FitsString p) :
    Gives (S.LoadFunction (N := N) depth p) fun f => Loadable depth f ∧ Sourced depth f := by
  induction depth generalizing p with
  | zero => exact gives_throw _
  | succ depth ih =>
    have hchar : Gives S.LoadChar fun _ => True := fun _ _ _ _ => trivial
    unfold LoadFunction
    refine S.gives_LoadString.bind fun s hs => ?_
    have hsource : s.or p ≠ none := by simp [hp]
    have hsourceFits : FitsString (s.or p) := by
      cases s with
      | none => simpa using hfits
      | some s => simpa using hs
    refine S.gives_LoadInt.bind fun linedefined hline => S.gives_LoadInt.bind fun lastlinedefined hlast => ?_
    refine hchar.bind fun nups _ => hchar.bind fun numparams _ => hchar.bind fun is_vararg _ => ?_
    refine hchar.bind fun maxstacksize _ => S.gives_LoadVector.bind fun code hcode => ?_
    refine (S.gives_LoadElements 16 S.gives_LoadConstant).bind fun k hk => ?_
    refine (S.gives_LoadElements 8 (ih hsource hsourceFits)).bind fun ps hps => ?_
    refine S.gives_LoadVector.bind fun lineinfo hinfo => ?_
    refine (S.gives_LoadElements 16 S.gives_LoadLocVar).bind fun locvars hlocvars => ?_
    refine (S.gives_LoadElements 8 S.gives_LoadString).bind fun upvalues hupvalues => ?_
    dsimp only
    split
    case isFalse => exact gives_throw _
    case isTrue hcheck =>
      refine gives_pure ⟨⟨?_, fun g hg => (hps.2 g hg).1⟩, hsource, fun g hg => (hps.2 g hg).2⟩
      exact ⟨hsourceFits, hline, hlast, hcode, hk.1, hps.1, by simpa using hinfo, hlocvars.1, hupvalues.1, hk.2,
        hlocvars.2, hupvalues.2, hcheck⟩

end LoadState

theorem gives_luaU_undump [NumberBytes N] (nCcalls : ℕ) (name : List UInt8) :
    Gives (luaU_undump (N := N) nCcalls name) fun f =>
      Loadable (LUAI_MAXCCALLS - nCcalls) f ∧ Sourced (LUAI_MAXCCALLS - nCcalls) f := by
  have hheader (S : LoadState) : Gives S.LoadHeader fun _ => True := fun _ _ _ _ => trivial
  have hfits : FitsString (some (bytes "=?")) := fun t ht => by cases ht; decide
  exact (hheader _).bind fun _ _ => LoadState.gives_LoadFunction _ _ (by simp) hfits

/-! What loading depends on -/

namespace LoadState
variable (S : LoadState)

/-- The reader says that bytes are missing, and what it does depends on the bytes only. -/
abbrev SteadyLoad {α : Type} (x : LoadM α) : Prop := Steady Zio.left (S.error "unexpected end") x

theorem steady_LoadChar : S.SteadyLoad S.LoadChar := S.steady_LoadBlock.bind fun _ => steady_pure _

theorem steady_LoadInt : S.SteadyLoad S.LoadInt := by
  refine S.steady_LoadBlock.bind fun b => ?_
  dsimp only
  split
  · exact steady_throw _
  · exact steady_pure _

theorem steady_LoadNumber [NumberBytes N] : S.SteadyLoad (S.LoadNumber (N := N)) :=
  S.steady_LoadBlock.bind fun _ => steady_pure _

theorem steady_luaZ_openspace (size : ℕ) : S.SteadyLoad (luaZ_openspace size) := by
  unfold luaZ_openspace
  split
  · exact steady_pure _
  · exact steady_throw _

theorem steady_luaS_newlstr (s : List UInt8) (l : ℕ) : S.SteadyLoad (luaS_newlstr s l) := by
  unfold luaS_newlstr
  split
  · exact steady_throw _
  · exact steady_pure _

theorem steady_LoadString : S.SteadyLoad S.LoadString := by
  refine S.steady_LoadBlock.bind fun b => ?_
  dsimp only
  split
  · exact steady_pure _
  · refine (S.steady_luaZ_openspace _).bind fun _ => S.steady_LoadBlock.bind fun s => ?_
    exact (S.steady_luaS_newlstr _ _).bind fun _ => steady_pure _

theorem steady_luaM_newvector (n : Int32) (e : ℕ) : S.SteadyLoad (luaM_newvector n e) := by
  unfold luaM_newvector
  split_ifs
  · exact steady_throw _
  · exact steady_pure _
  · exact steady_throw _

theorem steady_LoadVector : S.SteadyLoad S.LoadVector :=
  S.steady_LoadInt.bind fun _ => (S.steady_luaM_newvector _ _).bind fun _ =>
    S.steady_LoadBlock.bind fun _ => steady_pure _

theorem steady_LoadElements {α : Type} (e : ℕ) {load : LoadM α} (h : S.SteadyLoad load) :
    S.SteadyLoad (S.LoadElements e load) :=
  S.steady_LoadInt.bind fun _ => (S.steady_luaM_newvector _ _).bind fun _ => h.many _

theorem steady_LoadConstant [NumberBytes N] : S.SteadyLoad (S.LoadConstant (N := N)) := by
  refine S.steady_LoadChar.bind fun t => ?_
  split_ifs
  · exact steady_pure _
  · exact S.steady_LoadChar.bind fun _ => steady_pure _
  · exact S.steady_LoadNumber.bind fun _ => steady_pure _
  · exact S.steady_LoadString.bind fun _ => steady_pure _
  · exact steady_throw _

theorem steady_LoadLocVar : S.SteadyLoad S.LoadLocVar :=
  S.steady_LoadString.bind fun _ => S.steady_LoadInt.bind fun _ => S.steady_LoadInt.bind fun _ => steady_pure _

theorem steady_LoadFunction [NumberBytes N] (depth : ℕ) (p : Option TString) :
    S.SteadyLoad (S.LoadFunction (N := N) depth p) := by
  induction depth generalizing p with
  | zero => exact steady_throw _
  | succ depth ih =>
    unfold LoadFunction
    refine S.steady_LoadString.bind fun s => S.steady_LoadInt.bind fun _ => S.steady_LoadInt.bind fun _ => ?_
    refine S.steady_LoadChar.bind fun _ => S.steady_LoadChar.bind fun _ => S.steady_LoadChar.bind fun _ => ?_
    refine S.steady_LoadChar.bind fun _ => S.steady_LoadVector.bind fun _ => ?_
    refine (S.steady_LoadElements _ S.steady_LoadConstant).bind fun _ => ?_
    refine (S.steady_LoadElements _ (ih _)).bind fun _ => ?_
    refine S.steady_LoadVector.bind fun _ => (S.steady_LoadElements _ S.steady_LoadLocVar).bind fun _ => ?_
    refine (S.steady_LoadElements _ S.steady_LoadString).bind fun _ => ?_
    dsimp only
    split
    · exact steady_pure _
    · exact steady_throw _

theorem steady_LoadHeader : S.SteadyLoad S.LoadHeader := by
  refine S.steady_LoadBlock.bind fun s => ?_
  split
  · exact steady_throw _
  · exact steady_pure _

end LoadState

theorem steady_luaU_undump [NumberBytes N] (nCcalls : ℕ) (name : List UInt8) :
    LoadState.SteadyLoad ⟨chunkname name⟩ (luaU_undump (N := N) nCcalls name) :=
  (LoadState.steady_LoadHeader _).bind fun _ => LoadState.steady_LoadFunction _ _ _

/-! Chunks -/

/-- Two streams with the same bytes give the same function or the same error, in whatever pieces they come, and
leave the same bytes. -/
theorem luaU_undump_pieces [NumberBytes N] (nCcalls : ℕ) (name : List UInt8) {z z' : Zio} (h : z'.left = z.left) :
    (∃ (f : Proto N) (t t' : Zio), luaU_undump nCcalls name z = .ok (f, t) ∧
        luaU_undump nCcalls name z' = .ok (f, t') ∧ t'.left = t.left) ∨
      ∃ e, luaU_undump (N := N) nCcalls name z = .error e ∧ luaU_undump (N := N) nCcalls name z' = .error e :=
  (steady_luaU_undump nCcalls name).congr h

/-- A byte that comes alone, or together with the next one. -/
theorem luaU_undump_pieces_example :
    (∃ (f : Proto UInt64) (t t' : Zio), luaU_undump 0 [] ⟨[27], [[76]]⟩ = .ok (f, t) ∧
        luaU_undump 0 [] ⟨[], [[27, 76]]⟩ = .ok (f, t') ∧ t'.left = t.left) ∨
      ∃ e, luaU_undump (N := UInt64) 0 [] ⟨[27], [[76]]⟩ = .error e ∧
        luaU_undump (N := UInt64) 0 [] ⟨[], [[27, 76]]⟩ = .error e :=
  luaU_undump_pieces 0 [] (by decide)

/-- The dump of a function is a chunk that is loaded again, out of every stream that has it in front, in whatever
pieces and under whatever name: the function is the same, save what the dump has stripped. A stream that ends within
the chunk is told from a complete one. -/
theorem luaU_undump_dump [NumberBytes N] {writer : List UInt8 → δ → ℤ × δ} {out : List UInt8 → δ}
    (hw : Accumulates writer out) (strip : Bool) {nCcalls : ℕ} {f : Proto N} (h : Loadable (LUAI_MAXCCALLS - nCcalls) f)
    (before : List UInt8) :
    ∃ chunk, luaU_dump writer strip f (out before) = (0, out (before ++ chunk)) ∧
      (∀ name z rest, z.left = chunk ++ rest →
        ∃ z', luaU_undump nCcalls name z = .ok (loaded strip (some (bytes "=?")) f, z') ∧ z'.left = rest) ∧
      ∀ name z more, chunk = z.left ++ more → more ≠ [] →
        luaU_undump (N := N) nCcalls name z = .error (LoadState.error ⟨chunkname name⟩ "unexpected end") := by
  obtain ⟨chunk, hdump, hload⟩ := carries_chunk hw strip h
  refine ⟨chunk, luaU_dump_eq hdump before, hload, fun name z more hz hmore => ?_⟩
  have hwhole : Zio.left ⟨chunk, []⟩ = chunk := by simp [Zio.left]
  exact (steady_luaU_undump nCcalls name).short_of_reads (hload name) hwhole hz hmore

/-- What is written is put behind what has been. -/
def append (bs before : List UInt8) : ℤ × List UInt8 := (0, before ++ bs)

/-- A function that makes one function, which does nothing. -/
def nested : Proto UInt64 :=
  ⟨some [61], 0, 0, 0, 0, VARARG_ISVARARG, 2, [CREATE_ABC .OP_CLOSURE 0 0 0, CREATE_ABC .OP_RETURN 0 1 0],
    [.string (some [120]), .number 5],
    [⟨some [61], 1, 2, 0, 0, 0, 2, [CREATE_ABC .OP_RETURN 0 1 0], [], [], [2], [⟨some [120], 0, 1⟩], []⟩], [2, 2], [], []⟩

theorem loadable_nested : Loadable (LUAI_MAXCCALLS - 0) nested := by
  have hstring (t : TString) (h : t.length ≤ 1) : FitsString (some t) := by
    intro s hs
    cases hs
    exact (Nat.succ_le_succ h).trans (by decide)
  refine ⟨⟨hstring _ (by decide), by decide, by decide, by decide, by decide, by decide, by decide, by decide, by decide, ?_,
    by simp [nested], by simp [nested], by decide⟩, ?_⟩
  · intro o ho s hs
    subst hs
    simp only [nested, List.mem_cons, Constant.string.injEq, reduceCtorEq, List.not_mem_nil, or_false] at ho
    exact ho ▸ hstring _ (by decide)
  · intro g hg
    simp only [nested, List.mem_singleton] at hg
    subst hg
    refine ⟨⟨hstring _ (by decide), by decide, by decide, by decide, by decide, by decide, by decide, by decide, by decide,
      by simp, ?_, by simp, by decide⟩, by simp⟩
    intro v hv
    cases List.mem_singleton.mp hv
    exact ⟨hstring _ (by decide), by decide, by decide⟩

theorem luaU_undump_dump_example :
    ∃ chunk, luaU_dump append true nested [] = (0, [] ++ chunk) ∧
      (∀ name z rest, z.left = chunk ++ rest →
        ∃ z', luaU_undump 0 name z = .ok (loaded true (some (bytes "=?")) nested, z') ∧ z'.left = rest) ∧
      ∀ name z more, chunk = z.left ++ more → more ≠ [] →
        luaU_undump (N := UInt64) 0 name z = .error (LoadState.error ⟨chunkname name⟩ "unexpected end") :=
  luaU_undump_dump (show Accumulates append id from fun _ _ => rfl) true loadable_nested []

/-- Whatever stream Lua has loaded a function from, the function passes all checks, with all the functions in it,
and a dump of it that is not stripped is a chunk of the very same function. -/
theorem luaU_dump_undump [NumberBytes N] {writer : List UInt8 → δ → ℤ × δ} {out : List UInt8 → δ}
    (hw : Accumulates writer out) {nCcalls : ℕ} {name : List UInt8} {z z' : Zio} {f : Proto N}
    (h : luaU_undump nCcalls name z = .ok (f, z')) (before : List UInt8) :
    Loadable (LUAI_MAXCCALLS - nCcalls) f ∧
      ∃ chunk, luaU_dump writer false f (out before) = (0, out (before ++ chunk)) ∧
        ∀ name z rest, z.left = chunk ++ rest → ∃ z', luaU_undump nCcalls name z = .ok (f, z') ∧ z'.left = rest := by
  obtain ⟨hloadable, hsourced⟩ := gives_luaU_undump nCcalls name z f z' h
  obtain ⟨chunk, hdump, hload⟩ := carries_chunk hw false hloadable
  rw [loaded_eq_self hloadable hsourced] at hload
  exact ⟨hloadable, chunk, luaU_dump_eq hdump before, hload⟩

theorem luaU_dump_undump_example :
    Loadable (LUAI_MAXCCALLS - 0) nested ∧
      ∃ chunk, luaU_dump append false nested [] = (0, [] ++ chunk) ∧
        ∀ name z rest, z.left = chunk ++ rest → ∃ z', luaU_undump 0 name z = .ok (nested, z') ∧ z'.left = rest := by
  have hw : Accumulates append id := fun _ _ => rfl
  obtain ⟨chunk, -, hload⟩ := carries_chunk hw false loadable_nested
  obtain ⟨z', hrun, -⟩ := hload [] ⟨chunk, []⟩ [] (by simp [Zio.left])
  have hself : loaded false (some (bytes "=?")) nested = nested := rfl
  rw [hself] at hrun
  exact luaU_dump_undump hw hrun []

end H1Z1Server.LuaChunk
