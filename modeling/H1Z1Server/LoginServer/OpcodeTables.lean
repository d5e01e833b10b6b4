import H1Z1Server.Library.ReverseTables
import H1Z1Server.Lua.Api
import H1Z1Server.LoginServer.Structures

/-! The tables `PacketIds` and `OpCodes`, for opcodes that may be any values of Lua: whether one is the
reverse of the other, and whether the order of the packets matters. -/
namespace H1Z1Server
open LuaApi ReverseTables

/-- What the opcode loop reads of the first element of a packet structure: `[1]` and `[3]`. -/
structure OpcodeField (N : Type) where
  name : Value N
  default : Value N

/-- The packet structures among the locals of the module, by their first elements. A packet may have no
structure, and a structure no element. -/
abbrev PacketLocals (N : Type) := String → Option (Option (OpcodeField N))

/-- The two tables of the module, and the warnings that were printed. -/
structure OpcodeTables (N : Type) where
  packetIds : Value N → Option String
  opCodes : String → Option (Value N)
  printed : List String

namespace OpcodeTables
variable {N : Type} [LuaNumber N]

/-- The bytes of a name. -/
def nameBytes (s : String) : List UInt8 := s.toUTF8.data.toList

/-- The protected part of a round up to the assignments, with the error of the first of them. -/
def opcodeOf (locals : PacketLocals N) (v : String) : Except String (Value N) :=
  match locals v with
  | none => .error "attempt to index field '?' (a nil value)"
  | some none => .error "attempt to index local 'field' (a nil value)"
  | some (some field) =>
    if !field.name.rawequal (.string (nameBytes "PacketId")) then
      .error ("[ERROR][" ++ v ++ "]: Packet structure invalid. First field is not 'PacketId' (REQURIED).")
    else match field.default with
      | .nil => .error "table index is nil"
      | opcode => if opcode.rawequal opcode then .ok opcode else .error "table index is NaN"

def warning (v error : String) : String :=
  "[WARN][Packets]: Unable to obtain field 'PacketId' in packet '" ++ v ++ "'.\nError: " ++ error

/-- One round of the opcode loop. -/
def registerPacket (locals : PacketLocals N) (t : OpcodeTables N) (v : String) : OpcodeTables N :=
  match opcodeOf locals v with
  | .error error => { t with printed := t.printed ++ [warning v error] }
  | .ok opcode => { t with
      packetIds := fun key => if key.rawequal opcode then some v else t.packetIds key
      opCodes := Function.update t.opCodes v (some opcode) }

/-- The opcode loop over `ProcessedPackets`. -/
def register (locals : PacketLocals N) (processed : List String) : OpcodeTables N :=
  processed.foldl (registerPacket locals) ⟨fun _ => none, fun _ => none, []⟩

def sameOpcode (locals : PacketLocals N) (p q : String) : Bool :=
  match opcodeOf locals p, opcodeOf locals q with
  | .ok c, .ok d => c.rawequal d
  | _, _ => false

/-- Another packet of the list has the same opcode. -/
def Ambiguous (locals : PacketLocals N) (processed : List String) (p : String) : Prop :=
  ∃ q ∈ processed, q ≠ p ∧ sameOpcode locals p q = true

instance (locals : PacketLocals N) (processed : List String) (p : String) :
    Decidable (Ambiguous locals processed p) :=
  inferInstanceAs (Decidable (∃ q ∈ processed, q ≠ p ∧ sameOpcode locals p q = true))

/-- Neither a packet without an opcode, nor one that shares its opcode, can be registered. -/
def Unregistrable (locals : PacketLocals N) (processed : List String) (p : String) : Prop :=
  (∃ error, opcodeOf locals p = .error error) ∨ Ambiguous locals processed p

/-- Each table is the reverse of the other, the order of the list does not matter to them, and a packet
that cannot be registered is reported and left out of both. -/
structure MutuallyInverse (locals : PacketLocals N) (processed : List String) : Prop where
  packetIds_opCodes : ∀ p c, (register locals processed).opCodes p = some c →
    (register locals processed).packetIds c = some p
  opCodes_packetIds : ∀ c p, (register locals processed).packetIds c = some p →
    ∃ d, (register locals processed).opCodes p = some d ∧ d.rawequal c = true
  unordered : ∀ processed', processed'.Perm processed →
    (register locals processed').packetIds = (register locals processed).packetIds ∧
      (register locals processed').opCodes = (register locals processed).opCodes
  leftOut : ∀ p ∈ processed, Unregistrable locals processed p →
    (∃ error, warning p error ∈ (register locals processed).printed) ∧
      (register locals processed).opCodes p = none ∧ ∀ c, (register locals processed).packetIds c ≠ some p

/-- The packets that are registered, with their opcodes. -/
def registered (locals : PacketLocals N) (processed : List String) : List (String × Value N) :=
  processed.filterMap fun v =>
    match opcodeOf locals v with
    | .error _ => none
    | .ok opcode => some (v, opcode)

end OpcodeTables

open OpcodeTables
variable {N : Type} [LuaNumber N] {locals : PacketLocals N} {processed : List String} {p : String} {c : Value N}

theorem register_concat (locals : PacketLocals N) (processed : List String) (v : String) :
    register locals (processed ++ [v]) = registerPacket locals (register locals processed) v := by
  rw [register, List.foldl_append, List.foldl_cons, List.foldl_nil, register]

theorem mem_registered : (p, c) ∈ registered locals processed ↔ p ∈ processed ∧ opcodeOf locals p = .ok c := by
  rw [registered, List.mem_filterMap]
  constructor
  · rintro ⟨v, hv, heq⟩
    cases hopcode : opcodeOf locals v with
    | error error =>
      rw [hopcode] at heq
      cases heq
    | ok opcode =>
      rw [hopcode] at heq
      cases heq
      exact ⟨hv, hopcode⟩
  · rintro ⟨hp, hopcode⟩
    exact ⟨p, hp, by rw [hopcode]⟩

/-- The loop writes the registered packets into both tables. -/
theorem register_tables (locals : PacketLocals N) (processed : List String) :
    (⟨(register locals processed).packetIds, (register locals processed).opCodes⟩ : Tables String (Value N)) =
      writeAll Value.rawequal (registered locals processed) := by
  induction processed using List.reverseRecOn with
  | nil => rfl
  | append_singleton processed v ih =>
    rw [register_concat, registerPacket, registered, List.filterMap_append]
    cases hopcode : opcodeOf locals v with
    | error error =>
      rw [List.filterMap_cons_none (by rw [hopcode]), List.filterMap_nil, List.append_nil]
      exact ih
    | ok opcode =>
      rw [List.filterMap_cons_some (by rw [hopcode]), List.filterMap_nil, writeAll_concat, ← registered, ← ih]
      rfl

/-- A warning is printed for every packet without an opcode. -/
theorem warning_printed {error : String} (hp : p ∈ processed) (h : opcodeOf locals p = .error error) :
    warning p error ∈ (register locals processed).printed := by
  induction processed using List.reverseRecOn with
  | nil => cases hp
  | append_singleton processed v ih =>
    rw [register_concat, registerPacket]
    rcases List.mem_append.mp hp with hp | hp
    · cases hopcode : opcodeOf locals v with
      | error error' => exact List.mem_append_left _ (ih hp)
      | ok opcode => exact ih hp
    · obtain rfl := List.mem_singleton.mp hp
      rw [h]
      exact List.mem_append_right _ List.mem_cons_self

theorem registered_functional (locals : PacketLocals N) (processed : List String) :
    Functional (registered locals processed) := by
  rintro ⟨p, c⟩ hp ⟨q, d⟩ hq (rfl : p = q)
  have hsame := (mem_registered.mp hp).2.symm.trans (mem_registered.mp hq).2
  exact Except.ok.inj hsame

/-- An opcode can be found under itself: nil and what is no number are none. -/
theorem rawequal_opcodeOf (h : opcodeOf locals p = .ok c) : c.rawequal c = true := by
  unfold opcodeOf at h
  split at h
  · cases h
  · cases h
  · split at h
    · cases h
    · split at h
      · cases h
      · split at h
        case isTrue hself =>
          cases h
          exact hself
        case isFalse => cases h

theorem sameOpcode_iff {q : String} : sameOpcode locals p q = true ↔
    ∃ c d, opcodeOf locals p = .ok c ∧ opcodeOf locals q = .ok d ∧ c.rawequal d = true := by
  unfold sameOpcode
  cases hp : opcodeOf locals p with
  | error error => simp
  | ok c =>
    cases hq : opcodeOf locals q with
    | error error => simp
    | ok d => simp

theorem unambiguous_iff : Unambiguous Value.rawequal (registered locals processed) ↔
    ∀ p ∈ processed, ¬Ambiguous locals processed p := by
  constructor
  · rintro h p hp ⟨q, hq, hne, hopcodes⟩
    obtain ⟨c, d, hc, hd, hsame⟩ := sameOpcode_iff.mp hopcodes
    exact hne (h (p, c) (mem_registered.mpr ⟨hp, hc⟩) (q, d) (mem_registered.mpr ⟨hq, hd⟩) hsame).symm
  · rintro h ⟨p, c⟩ hp ⟨q, d⟩ hq hsame
    obtain ⟨hp, hc⟩ := mem_registered.mp hp
    obtain ⟨hq, hd⟩ := mem_registered.mp hq
    by_contra hne
    exact h p hp ⟨q, hq, Ne.symm hne, sameOpcode_iff.mpr ⟨c, d, hc, hd, hsame⟩⟩

theorem opCodes_iff : (register locals processed).opCodes p = some c ↔
    p ∈ processed ∧ opcodeOf locals p = .ok c := by
  have htables := congrArg (fun t => t.codeOf p) (register_tables locals processed)
  dsimp only at htables
  rw [htables, codeOf_iff (registered_functional locals processed), mem_registered]

section Unambiguous
variable [LawfulLuaNumber N]

/-- A packet is found under every value that equals its opcode. -/
theorem packetIds_congr {d : Value N} (h : c.rawequal d = true) :
    (register locals processed).packetIds c = (register locals processed).packetIds d := by
  have htables := congrArg Tables.nameOf (register_tables locals processed)
  dsimp only at htables
  rw [htables]
  exact nameOf_congr Value.rawequal_symm Value.rawequal_trans h

theorem packetIds_iff (h : ∀ p ∈ processed, ¬Ambiguous locals processed p) :
    (register locals processed).packetIds c = some p ↔
      ∃ d, (p ∈ processed ∧ opcodeOf locals p = .ok d) ∧ c.rawequal d = true := by
  have htables := congrArg (fun t => t.nameOf c) (register_tables locals processed)
  dsimp only at htables
  rw [htables, nameOf_iff Value.rawequal_symm Value.rawequal_trans (unambiguous_iff.mpr h)]
  simp only [mem_registered]

theorem register_perm (h : ∀ p ∈ processed, ¬Ambiguous locals processed p) {processed' : List String}
    (hperm : processed'.Perm processed) :
    (register locals processed').packetIds = (register locals processed).packetIds ∧
      (register locals processed').opCodes = (register locals processed).opCodes := by
  have hpairs : (registered locals processed').Perm (registered locals processed) := hperm.filterMap _
  have hsame := writeAll_perm Value.rawequal_symm Value.rawequal_trans (registered_functional locals processed)
    (unambiguous_iff.mpr h) hpairs
  rw [← register_tables, ← register_tables] at hsame
  exact ⟨congrArg Tables.nameOf hsame, congrArg Tables.codeOf hsame⟩

/-- The tables are as they should be exactly when no two packets of the list have the same opcode. -/
theorem mutuallyInverse_iff (locals : PacketLocals N) (processed : List String) :
    MutuallyInverse locals processed ↔ ∀ p ∈ processed, ¬Ambiguous locals processed p := by
  constructor
  · rintro h p hp ⟨q, hq, hne, hopcodes⟩
    obtain ⟨c, d, hc, hd, hsame⟩ := sameOpcode_iff.mp hopcodes
    have hfirst := h.packetIds_opCodes p c (opCodes_iff.mpr ⟨hp, hc⟩)
    have hsecond := h.packetIds_opCodes q d (opCodes_iff.mpr ⟨hq, hd⟩)
    rw [packetIds_congr hsame, hsecond] at hfirst
    exact hne (Option.some.inj hfirst)
  · intro h
    constructor
    · intro p c hc
      have hopcode := opCodes_iff.mp hc
      exact (packetIds_iff h).mpr ⟨c, hopcode, rawequal_opcodeOf hopcode.2⟩
    · intro c p hp
      obtain ⟨d, hd, hsame⟩ := (packetIds_iff h).mp hp
      exact ⟨d, opCodes_iff.mpr hd, Value.rawequal_symm c d hsame⟩
    · intro processed' hperm
      exact register_perm h hperm
    · intro p hp hnot
      rcases hnot with ⟨error, herror⟩ | hambiguous
      · refine ⟨⟨error, warning_printed hp herror⟩, ?_, ?_⟩
        · rw [Option.eq_none_iff_forall_ne_some]
          intro c hc
          have hopcode := herror.symm.trans (opCodes_iff.mp hc).2
          cases hopcode
        · intro c hc
          obtain ⟨d, hd, -⟩ := (packetIds_iff h).mp hc
          have hopcode := herror.symm.trans hd.2
          cases hopcode
      · exact absurd hambiguous (h p hp)

end Unambiguous

section Packets

/-- A value as the streams know it. -/
def LuaValue.toValue : LuaValue → Value ℤ
  | number n => .number n
  | string s => .string s

theorem LuaValue.rawequal_toValue (v w : LuaValue) : v.toValue.rawequal w.toValue = true ↔ v = w := by
  cases v <;> cases w <;> simp [toValue, Value.rawequal, LuaNumber.eq]

/-- The packet structures of `Packets`, by their first elements. -/
def firstElements (locals : String → Option PacketStructure) : PacketLocals ℤ := fun v =>
  (locals v).map fun packet => packet.head?.map fun field =>
    ⟨.string (nameBytes field.name), (field.default.map LuaValue.toValue).getD .nil⟩

theorem nameBytes_injective : Function.Injective nameBytes := by
  intro s t h
  exact String.toByteArray_inj.mp (ByteArray.ext (Array.toList_inj.mp h))

theorem rawequal_nameBytes (a b : String) :
    (Value.string (nameBytes a) : Value ℤ).rawequal (.string (nameBytes b)) = decide (a = b) := by
  rw [Value.rawequal, decide_eq_decide]
  exact nameBytes_injective.eq_iff

/-- The loop finds the opcodes that `Packets` finds, and the same errors. -/
theorem opcodeOf_firstElements (locals : String → Option PacketStructure) (v : String) :
    (opcodeOf (firstElements locals) v).mapError Abort.luaError =
      (Packets.fieldOpCode locals v).map LuaValue.toValue := by
  unfold opcodeOf Packets.fieldOpCode firstElements
  cases locals v with
  | none => rfl
  | some packet =>
    cases packet with
    | nil => rfl
    | cons field rest =>
      simp only [Option.map_some, List.head?_cons, rawequal_nameBytes]
      by_cases hname : field.name = "PacketId"
      · simp only [hname, decide_true, Bool.not_true, Bool.false_eq_true, if_false, ne_eq, not_true_eq_false]
        cases field.default with
        | none => rfl
        | some opcode =>
          have hself := (LuaValue.rawequal_toValue opcode opcode).mpr rfl
          cases opcode with
          | number n => exact congrArg (Except.mapError Abort.luaError) (if_pos hself)
          | string s => exact congrArg (Except.mapError Abort.luaError) (if_pos hself)
      · simp only [hname, decide_false, Bool.not_false, if_true, ne_eq, not_false_eq_true]
        rfl

theorem packets_register_concat (locals : String → Option PacketStructure) (processed : List String) (v : String) :
    Packets.register locals (processed ++ [v]) =
      Packets.registerPacket (Packets.register locals processed) v := by
  rw [Packets.register, List.foldl_append, List.foldl_cons, List.foldl_nil, Packets.register]

/-- The tables of `Packets` are those of this loop. -/
theorem register_firstElements (locals : String → Option PacketStructure) (processed : List String) :
    (∀ v, (register (firstElements locals) processed).opCodes v =
      ((Packets.register locals processed).opCodes v).map LuaValue.toValue) ∧
      ∀ c : LuaValue, (register (firstElements locals) processed).packetIds c.toValue =
        (Packets.register locals processed).packetIds c := by
  induction processed using List.reverseRecOn with
  | nil => exact ⟨fun _ => rfl, fun _ => rfl⟩
  | append_singleton processed w ih =>
    have hlocals : (Packets.register locals processed).locals = locals := Packets.foldl_locals _ _
    have hopcode := opcodeOf_firstElements locals w
    rw [register_concat, packets_register_concat, registerPacket]
    cases hfield : Packets.fieldOpCode locals w with
    | error e =>
      rw [Packets.registerPacket_error (hlocals.symm ▸ hfield)]
      rw [hfield] at hopcode
      cases hloop : opcodeOf (firstElements locals) w with
      | error error => exact ih
      | ok opcode =>
        rw [hloop] at hopcode
        cases hopcode
    | ok opcode =>
      rw [Packets.registerPacket_ok (hlocals.symm ▸ hfield)]
      rw [hfield] at hopcode
      cases hloop : opcodeOf (firstElements locals) w with
      | error error =>
        rw [hloop] at hopcode
        cases hopcode
      | ok opcode' =>
        rw [hloop] at hopcode
        cases hopcode
        constructor
        · intro v
          by_cases hv : v = w
          · subst hv
            simp only [Function.update_self, Option.map_some]
          · simp only [Function.update_of_ne hv, ih.1 v]
        · intro c
          by_cases hc : c = opcode
          · subst hc
            simp only [Function.update_self, (LuaValue.rawequal_toValue c c).mpr rfl, if_true]
          · have hnot := mt (LuaValue.rawequal_toValue c opcode).mp hc
            dsimp only
            rw [if_neg hnot, Function.update_of_ne hc, ih.2 c]

/-- The tables of the login server are as they should be. -/
theorem mutuallyInverse_iff_example :
    MutuallyInverse (firstElements LoginServer.locals) LoginServer.processedPackets :=
  (mutuallyInverse_iff _ _).mpr (by decide)

/-- A structure with an opcode that was copied from another. -/
theorem copied_opcode_misrouted :
    ¬MutuallyInverse (N := ℤ) (fun _ => some (some ⟨.string (nameBytes "PacketId"), .number 1⟩))
      ["LoginReply", "LoginRequest"] := by
  intro h
  have hfirst := h.packetIds_opCodes "LoginReply" (.number 1) rfl
  exact absurd hfirst (by decide)

end Packets

end H1Z1Server
