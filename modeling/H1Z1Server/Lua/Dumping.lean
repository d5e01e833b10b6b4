import H1Z1Server.Lua.CheckedCode
import H1Z1Server.Lua.Streaming

/-! What is dumped is loaded: the parts of a chunk, and the function that they make. -/
namespace H1Z1Server.LuaChunk
open ByteOrder Codec LuaCode

variable {N δ : Type} {writer : List UInt8 → δ → ℤ × δ} {out : List UInt8 → δ}

/-- A writer that never fails and keeps everything. -/
def Accumulates (writer : List UInt8 → δ → ℤ × δ) (out : List UInt8 → δ) : Prop :=
  ∀ before bs, writer bs (out before) = (0, out (before ++ bs))

/-- The state of a dump that has not failed. -/
def written (out : List UInt8 → δ) (bs : List UInt8) : DumpState δ := ⟨out bs, 0⟩

/-- What is dumped is loaded as this value, whatever the name of the chunk. -/
abbrev Reloads {ι α : Type} (out : List UInt8 → δ) (d : DumpM δ Unit) (x : ι → LoadM α) (a : α) : Prop :=
  Carries (written out) Zio.left d x a

/-- The string is one that Lua can hold. -/
def FitsString (s : Option TString) : Prop := ∀ t ∈ s, t.length + 1 ≤ MAX_SIZET - LoadState.sizeofTString

/-- A vector of this many elements is one that Lua can load. -/
def FitsCount (n : ℕ) : Prop := n < 2 ^ 31 - 1

instance (n : ℕ) : Decidable (FitsCount n) := inferInstanceAs (Decidable (_ < _))

def FitsConstant (o : Constant N) : Prop := ∀ s, o = .string s → FitsString s

structure FitsLocVar (v : LocVar) : Prop where
  varname : FitsString v.varname
  startpc : 0 ≤ v.startpc
  endpc : 0 ≤ v.endpc

/-- The function, without the functions in it, is one that Lua loads. -/
structure Fits (f : Proto N) : Prop where
  source : FitsString f.source
  linedefined : 0 ≤ f.linedefined
  lastlinedefined : 0 ≤ f.lastlinedefined
  sizecode : FitsCount f.code.length
  sizek : FitsCount f.k.length
  sizep : FitsCount f.p.length
  sizelineinfo : FitsCount f.lineinfo.length
  sizelocvars : FitsCount f.locvars.length
  sizeupvalues : FitsCount f.upvalues.length
  k : ∀ o ∈ f.k, FitsConstant o
  locvars : ∀ v ∈ f.locvars, FitsLocVar v
  upvalues : ∀ s ∈ f.upvalues, FitsString s
  checkcode : f.checkcode = true

/-- So are the functions in it, which are not too deep. -/
def Loadable : ℕ → Proto N → Prop
  | 0, _ => False
  | depth + 1, f => Fits f ∧ ∀ g ∈ f.p, Loadable depth g

mutual

/-- What becomes of a function in a chunk: who has no source of his own gets that of the function around. -/
def loaded (strip : Bool) (p : Option TString) (f : Proto N) : Proto N :=
  match f with
  | ⟨source, linedefined, lastlinedefined, nups, numparams, is_vararg, maxstacksize, code, k, ps, lineinfo, locvars,
      upvalues⟩ =>
    let source := if strip then p else source.or p
    ⟨source, linedefined, lastlinedefined, nups, numparams, is_vararg, maxstacksize, code, k, loadeds strip source ps,
      if strip then [] else lineinfo, if strip then [] else locvars, if strip then [] else upvalues⟩

def loadeds (strip : Bool) (p : Option TString) (fs : List (Proto N)) : List (Proto N) :=
  match fs with
  | [] => []
  | f :: fs => loaded strip p f :: loadeds strip p fs

end

theorem loadeds_eq_map (strip : Bool) (p : Option TString) (fs : List (Proto N)) :
    loadeds strip p fs = fs.map (loaded strip p) := by
  induction fs with
  | nil => rw [loadeds, List.map_nil]
  | cons f fs ih => rw [loadeds, ih, List.map_cons]

theorem loaded_eq (strip : Bool) (p : Option TString) (f : Proto N) :
    loaded strip p f =
      { f with
        source := if strip then p else f.source.or p
        p := f.p.map (loaded strip (if strip then p else f.source.or p))
        lineinfo := if strip then [] else f.lineinfo
        locvars := if strip then [] else f.locvars
        upvalues := if strip then [] else f.upvalues } := by
  cases f
  simp only [loaded, loadeds_eq_map]

theorem DumpFunctions_eq_writeMany [NumberBytes N] (strip : Bool) (p : Option TString) (fs : List (Proto N)) :
    DumpFunctions writer strip fs p = writeMany (fun f => DumpFunction writer strip f p) fs := by
  induction fs with
  | nil => rw [DumpFunctions, writeMany]
  | cons f fs ih => rw [DumpFunctions, ih, writeMany]

/-- The functions in a function are elements like others. -/
theorem DumpFunction_eq [NumberBytes N] (strip : Bool) (f : Proto N) (p : Option TString) :
    DumpFunction writer strip f p = (do
      DumpString writer (if f.source = p ∨ strip = true then none else f.source)
      DumpInt writer f.linedefined
      DumpInt writer f.lastlinedefined
      DumpChar writer f.nups
      DumpChar writer f.numparams
      DumpChar writer f.is_vararg
      DumpChar writer f.maxstacksize
      DumpVector writer f.code
      DumpElements writer (DumpConstant writer) f.k
      DumpElements writer (fun g => DumpFunction writer strip g f.source) f.p
      DumpDebug writer strip f) := by
  cases f
  simp only [DumpFunction, DumpFunctions_eq_writeMany, DumpElements, bind_assoc]

/-! The parts -/

theorem emits_DumpBlock (hw : Accumulates writer out) (b : List UInt8) :
    Emits (written out) (DumpBlock writer b) b := by
  intro before
  simp [DumpBlock, written, StateT.run, modify, modifyGet, MonadStateOf.modifyGet, StateT.modifyGet, hw before b]
  rfl

theorem words_flatMap (b : List UInt32) : LoadState.words (b.flatMap fun x => toLE 4 x.toNat) = b := by
  induction b with
  | nil => rfl
  | cons x b ih =>
    have hx : UInt32.ofNat (ofLE (toLE 4 x.toNat)) = x := by
      rw [ofLE_toLE_of_lt x.toNat_lt]
      simp
    simp only [toLE] at hx ih
    simp only [List.flatMap_cons, toLE, List.cons_append, List.nil_append, LoadState.words, hx, ih]

theorem newvector_of_fits {n e : ℕ} (h : FitsCount n) (hpos : 0 < e) (he : e ≤ 16) :
    0 ≤ Int32.ofNat n ∧ (Int32.ofNat n).toInt.toNat = n ∧ LoadState.luaM_newvector (Int32.ofNat n) e = pure () := by
  unfold FitsCount at h
  have hint : (Int32.ofNat n).toInt = n := Int32.toInt_ofNat_of_lt (by omega)
  refine ⟨?_, ?_, ?_⟩
  · rw [Int32.le_iff_toInt_le, hint]
    simp
  · rw [hint, Int.toNat_natCast]
  · have hmax : Int32.ofNat n ≠ Int32.maxValue := by
      intro heq
      rw [heq] at hint
      have hvalue : Int32.maxValue.toInt = 2 ^ 31 - 1 := by decide
      omega
    rw [LoadState.luaM_newvector, if_neg hmax, hint, Int.toNat_natCast, if_pos]
    rw [Nat.le_div_iff_mul_le hpos]
    have hmul : (n + 1) * e ≤ 2 ^ 31 * 16 := Nat.mul_le_mul (by omega) he
    exact hmul.trans (by decide)

section Parts
variable (hw : Accumulates writer out)
include hw

theorem carries_block {b : List UInt8} {size : ℕ} (h : b.length = size) :
    Reloads out (DumpBlock writer b) (fun S : LoadState => S.LoadBlock size) b :=
  ⟨b, emits_DumpBlock hw b, fun S => S.reads_LoadBlock h⟩

theorem carries_char (y : UInt8) : Reloads out (DumpChar writer y) LoadState.LoadChar y :=
  (carries_block hw rfl).ends fun _ => rfl

theorem carries_int {x : Int32} (h : 0 ≤ x) : Reloads out (DumpInt writer x) LoadState.LoadInt x := by
  refine (carries_block hw (length_toLE ..)).ends fun S => ?_
  have hx : Int32.ofNat (ofLE (toLE 4 x.toUInt32.toNat)) = x := by
    rw [ofLE_toLE_of_lt x.toUInt32.toNat_lt]
    exact Int32.toBitVec_inj.mp (BitVec.ofNat_toNat ..)
  simp [hx, Int32.not_lt.mpr h]

theorem carries_number [NumberBytes N] (x : N) :
    Reloads out (DumpNumber writer x) (fun S : LoadState => S.LoadNumber (N := N)) x := by
  refine (carries_block hw (NumberBytes.length_toBytes x)).ends fun S => ?_
  rw [NumberBytes.ofBytes_toBytes]

theorem carries_string {s : Option TString} (h : FitsString s) :
    Reloads out (DumpString writer s) LoadState.LoadString s := by
  cases s with
  | none =>
    refine (carries_block hw (length_toLE ..)).ends fun S => ?_
    simp [ofLE_toLE]
  | some t =>
    have hlen : t.length + 1 ≤ MAX_SIZET - LoadState.sizeofTString := h t rfl
    have hsize : ofLE (toLE SIZE_T (t.length + 1)) = t.length + 1 :=
      ofLE_toLE_of_lt (by simp only [MAX_SIZET, SIZE_T, LoadState.sizeofTString] at hlen ⊢; omega)
    have hopen : LoadState.luaZ_openspace (t.length + 1) = pure () := by
      simp only [MAX_SIZET, SIZE_T, LoadState.sizeofTString] at hlen
      rw [LoadState.luaZ_openspace, if_pos]
      simp only [MAX_SIZET, SIZE_T]
      omega
    refine (carries_block hw (length_toLE ..)).bind ?_
    simp only [hsize, t.length.add_one_ne_zero, if_false, hopen, pure_bind]
    have hterminated : (t ++ [0]).length = t.length + 1 := by simp
    refine (carries_block hw hterminated).ends fun S => ?_
    simp [LoadState.luaS_newlstr, not_lt.mpr hlen]

theorem carries_vector {b : List UInt32} (h : FitsCount b.length) :
    Reloads out (DumpVector writer b) LoadState.LoadVector b := by
  obtain ⟨hpos, hlen, hnew⟩ := newvector_of_fits h (e := 4) (by decide) (by decide)
  refine (carries_int hw hpos).bind ?_
  simp only [hnew, hlen, pure_bind]
  have hbytes : (b.flatMap fun x => toLE 4 x.toNat).length = b.length * 4 := by simp
  refine (carries_block hw hbytes).ends fun S => ?_
  rw [words_flatMap]

theorem carries_elements {α β : Type} {dump : α → DumpM δ Unit} {load : LoadState → LoadM β} {g : α → β} {l : List α}
    {e : ℕ} (h : FitsCount l.length) (hpos : 0 < e) (he : e ≤ 16)
    (hl : ∀ c ∈ l, Reloads out (dump c) load (g c)) :
    Reloads out (DumpElements writer dump l) (fun S : LoadState => S.LoadElements e (load S)) (l.map g) := by
  obtain ⟨hnonneg, hlen, hnew⟩ := newvector_of_fits h hpos he
  refine (carries_int hw hnonneg).bind ?_
  simp only [hnew, hlen, pure_bind]
  exact carries_many l hl

theorem carries_list {α : Type} {dump : α → DumpM δ Unit} {load : LoadState → LoadM α} {l : List α} {e : ℕ}
    (h : FitsCount l.length) (hpos : 0 < e) (he : e ≤ 16) (hl : ∀ c ∈ l, Reloads out (dump c) load c) :
    Reloads out (DumpElements writer dump l) (fun S : LoadState => S.LoadElements e (load S)) l := by
  have hid := carries_elements hw (g := id) h hpos he hl
  rwa [List.map_id] at hid

theorem carries_stripped (strip : Bool) {α : Type} {dump : α → DumpM δ Unit} {load : LoadState → LoadM α} {l : List α}
    {e : ℕ} (h : FitsCount l.length) (hpos : 0 < e) (he : e ≤ 16)
    (hl : ∀ c ∈ l, Reloads out (dump c) load c) :
    Reloads out (DumpElements writer dump (if strip then [] else l))
      (fun S : LoadState => S.LoadElements e (load S)) (if strip then [] else l) := by
  cases strip with
  | false => exact carries_list hw h hpos he hl
  | true => exact carries_list hw (by simp [FitsCount]) hpos he (by simp)

theorem carries_constant [NumberBytes N] {o : Constant N} (h : FitsConstant o) :
    Reloads out (DumpConstant writer o) (fun S : LoadState => S.LoadConstant (N := N)) o := by
  cases o with
  | nil => exact (carries_char hw _).ends fun _ => rfl
  | boolean b =>
    refine (carries_char hw _).bind ((carries_char hw _).ends fun S => ?_)
    cases b with
    | false => rfl
    | true => rfl
  | number n => exact (carries_char hw _).bind ((carries_number hw n).ends fun _ => rfl)
  | string s => exact (carries_char hw _).bind ((carries_string hw (h s rfl)).ends fun _ => rfl)

theorem carries_locvar {v : LocVar} (h : FitsLocVar v) :
    Reloads out (DumpLocVar writer v) LoadState.LoadLocVar v :=
  (carries_string hw h.varname).bind ((carries_int hw h.startpc).bind ((carries_int hw h.endpc).ends fun _ => rfl))

end Parts

/-! Functions -/

theorem nups_loaded (strip : Bool) (p : Option TString) (f : Proto N) : (loaded strip p f).nups = f.nups := by
  rw [loaded_eq]

theorem checkcode_loaded (strip : Bool) (p : Option TString) {f : Proto N} (h : f.checkcode = true) :
    (loaded strip p f).checkcode = true := by
  have hsame : Proto.SameCode f (loaded strip p f) := by
    rw [loaded_eq]
    have hnups : ∀ q, (f.p.map (loaded strip q)).map Proto.nups = f.p.map Proto.nups := by simp [nups_loaded]
    exact ⟨rfl, rfl, rfl, rfl, rfl, rfl, hnups _⟩
  refine hsame.checkcode ?_ ?_ h
  all_goals rw [loaded_eq]
  · cases strip with
    | false => exact .inl rfl
    | true => exact .inr rfl
  · cases strip with
    | false => exact le_rfl
    | true => exact Nat.zero_le _

/-- What the dump takes for the source of the function around is what the function around will have. -/
def SameSource (strip : Bool) (p p' : Option TString) : Prop := strip = false → ∀ s, p = some s → p' = some s

theorem SameSource.or {strip : Bool} {p p' : Option TString} (h : SameSource strip p p') (source : Option TString) :
    (if source = p ∨ strip = true then none else source).or p' = if strip then p' else source.or p' := by
  cases strip with
  | true => simp
  | false =>
    cases source with
    | none => simp
    | some s =>
      by_cases hp : some s = p
      · subst hp
        have hp' := h rfl s rfl
        simp [hp']
      · simp [hp]

theorem carries_function [NumberBytes N] (hw : Accumulates writer out) (strip : Bool) {depth : ℕ}
    {f : Proto N} (h : Loadable depth f) {p p' : Option TString} (hp : SameSource strip p p') :
    Reloads out (DumpFunction writer strip f p) (fun S : LoadState => S.LoadFunction depth p')
      (loaded strip p' f) := by
  induction depth generalizing f p p' with
  | zero => cases h
  | succ depth ih =>
    obtain ⟨hfits, hps⟩ := h
    have hcheck := checkcode_loaded strip p' hfits.checkcode
    rw [loaded_eq] at hcheck ⊢
    rw [DumpFunction_eq]
    simp only [LoadState.LoadFunction]
    have hsource : FitsString (if f.source = p ∨ strip = true then none else f.source) := by
      split
      · exact fun t ht => absurd ht (by simp)
      · exact hfits.source
    have hinner : SameSource strip f.source (if strip then p' else f.source.or p') := by
      intro hstrip s hs
      simp [hstrip, hs]
    have hlines : FitsCount (if strip then [] else f.lineinfo.map Int32.toUInt32).length := by
      cases strip with
      | false => simpa using hfits.sizelineinfo
      | true => simp [FitsCount]
    have hk := carries_list hw hfits.sizek (by decide) (e := 16) (by decide)
      fun o ho => carries_constant hw (hfits.k o ho)
    have hfunctions := carries_elements hw hfits.sizep (by decide) (e := 8) (by decide)
      fun g hg => ih (hps g hg) hinner
    have hlocvars := carries_stripped hw strip hfits.sizelocvars (by decide) (e := 16) (by decide)
      fun v hv => carries_locvar hw (hfits.locvars v hv)
    have hupvalues := carries_stripped hw strip hfits.sizeupvalues (by decide) (e := 8) (by decide)
      fun s hs => carries_string hw (hfits.upvalues s hs)
    refine (carries_string hw hsource).bind ((carries_int hw hfits.linedefined).bind ?_)
    refine (carries_int hw hfits.lastlinedefined).bind ((carries_char hw _).bind ((carries_char hw _).bind ?_))
    refine (carries_char hw _).bind ((carries_char hw _).bind ((carries_vector hw hfits.sizecode).bind ?_))
    simp only [hp.or f.source]
    refine hk.bind (hfunctions.bind ((carries_vector hw hlines).bind (hlocvars.bind (hupvalues.ends fun S => ?_))))
    have hmap : (if strip then [] else f.lineinfo.map Int32.toUInt32).map UInt32.toInt32 =
        if strip then [] else f.lineinfo := by
      cases strip with
      | false => simp [Function.comp_def]
      | true => rfl
    rw [hmap]
    exact if_pos hcheck

/-! Chunks -/

theorem carries_header (hw : Accumulates writer out) :
    Reloads out (DumpHeader writer) LoadState.LoadHeader () :=
  (carries_block hw (by decide)).ends fun _ => if_neg (by simp)

theorem carries_chunk [NumberBytes N] (hw : Accumulates writer out) (strip : Bool) {nCcalls : ℕ} {f : Proto N}
    (h : Loadable (LUAI_MAXCCALLS - nCcalls) f) :
    Reloads out (do DumpHeader writer; DumpFunction writer strip f none)
      (luaU_undump nCcalls) (loaded strip (some (bytes "=?")) f) := by
  have hsource : SameSource strip none (some (bytes "=?")) := fun _ s hs => by cases hs
  let load (S : LoadState) (_ : Unit) : LoadM (Proto N) := S.LoadFunction (LUAI_MAXCCALLS - nCcalls) (some (bytes "=?"))
  have hload := Carries.bind (f := load) (carries_header hw) (carries_function hw strip h hsource)
  exact hload.comap fun name => ⟨chunkname name⟩

theorem luaU_dump_eq [NumberBytes N] {strip : Bool} {f : Proto N} {chunk : List UInt8}
    (h : Emits (written out) (do DumpHeader writer; DumpFunction writer strip f none) chunk) (before : List UInt8) :
    luaU_dump writer strip f (out before) = (0, out (before ++ chunk)) := by
  have hrun := h before
  unfold written at hrun
  rw [luaU_dump, hrun]

end H1Z1Server.LuaChunk
