import H1Z1Server.LoginServer.Answering

/-! Which datagrams the listener of the login server survives, in which surroundings. -/
namespace H1Z1Server
open MachineInt MemoryBlock ByteOrder ByteStreamBuffer LoginServer

variable {C : Type} {rt : LuaRuntime} {datagram : List UInt8}

/-- What an exception or undefined behaviour of the callback comes to: it goes through the protected call. -/
theorem protectedCall_error {client : C} {callback : C → CallbackM C Unit} {packet : Packet} {e : Abort}
    {st : CallbackState C} (he : ∀ message, e ≠ .luaError message)
    (h : (callback client).run ⟨pushLuaStream (some packet.data) packet.data_size, []⟩ = .error e st) :
    (protectedCall client callback packet).run [] = .error e st.events := by
  unfold EStateM.run at h ⊢
  unfold protectedCall EStateM.run
  cases e with
  | luaError message => exact absurd rfl (he message)
  | exception what => simp only [h]
  | undefinedBehaviour => simp only [h]

/-- The dispatch of a datagram ends normally on every platform, whatever `sendto` returns and whatever lies
behind the buffer. -/
def Finishes [Winsock] (w : Surroundings) (client : C) (datagram : List UInt8) : Prop :=
  ∀ rt : LuaRuntime, rt.Ordinary → ∀ sendto beyond, ∃ events,
    (dispatchAmid w rt sendto client beyond datagram).run [] = .ok () events

/-- A datagram that every read of the callback is satisfied with. -/
def Readable (datagram : List UInt8) : Prop :=
  2 ≤ datagram.length ∧
    (opcodeOf datagram = 0x0001 → 14 ≤ datagram.length ∧ StringEnds datagram)

instance : DecidablePred Readable := fun datagram =>
  inferInstanceAs (Decidable (2 ≤ datagram.length ∧ (_ → 14 ≤ datagram.length ∧ StringEnds datagram)))

/-- The callback is left where it is: it dumps something, and what the dump leaves in the register for its
results is below zero. Only a request for the list of servers is not dumped. -/
def Surroundings.Yields (w : Surroundings) (datagram : List UInt8) : Prop :=
  opcodeOf datagram ≠ 0x000D ∧ w.leftover < 0

/-- What the callback does with the datagram, in its protected call. -/
def answers (rt : LuaRuntime) (leftover : Int32) (sendto : C → List UInt8 → Int32) (client : C)
    (beyond : ℤ → Option UInt8) (datagram : List UInt8) : DispatchM C Unit :=
  protectedCall client (onRecieve rt leftover sendto) ⟨received beyond datagram, Int32.ofInt datagram.length⟩

/-- The dispatch ends normally if the marks and the collector let the callback run, and it then ends. -/
theorem dispatchAmid_ok_iff [Winsock] (w : Surroundings) (sendto : C → List UInt8 → Int32) (client : C)
    (beyond : ℤ → Option UInt8) (hpos : 0 < datagram.length) (hfit : datagram.length ≤ 0x5000) :
    (∃ events, (dispatchAmid w rt sendto client beyond datagram).run [] = .ok () events) ↔
      (w.TakesMarks loginConnection ∧ w.Spares loginConnection) ∧
        ∃ events, (answers rt w.leftover sendto client beyond datagram).run [] = .ok () events := by
  rw [dispatchAmid_eq sendto client beyond w hpos hfit, ← Surroundings.marks_ok_iff]
  unfold answers collected
  cases w.marks loginConnection with
  | ok g =>
    have hmarks : ∃ g', (Except.ok g : Except Abort Lua.GlobalState) = .ok g' := ⟨g, rfl⟩
    exact (and_iff_right hmarks).symm
  | error e =>
    apply iff_of_false
    · rintro ⟨events, hrun⟩
      cases hrun
    · rintro ⟨⟨g, hmarks⟩, -⟩
      cases hmarks

/-- Outside of the datagrams that can be read, the callback ends with an exception, or reads astray. -/
theorem answers_aborts (rt : LuaRuntime) (leftover : Int32) (beyond : ℤ → Option UInt8)
    (hpos : 0 < datagram.length) (hfit : datagram.length ≤ 0x5000) (hbad : ¬Readable datagram)
    (hbeyond : beyond 0x5000 = none) (sendto : C → List UInt8 → Int32) (client : C) :
    ∃ e events, (answers rt leftover sendto client beyond datagram).run [] = .error e events := by
  have h := receivedReader_facing beyond hfit
  by_cases hshort : datagram.length < 2
  · obtain ⟨what, st, hrun⟩ := onRecieve_short rt leftover h hpos hshort sendto client
    exact ⟨_, _, protectedCall_error (fun _ h => by cases h) hrun⟩
  by_cases hop : opcodeOf datagram = 0x0001
  · by_cases hlen : datagram.length < 14
    · obtain ⟨what, st, hrun⟩ := onRecieve_truncated rt leftover h rfl (by omega) hop hlen sendto client
      exact ⟨_, _, protectedCall_error (fun _ h => by cases h) hrun⟩
    · have hstray : ¬StringEnds datagram := fun hends =>
        hbad ⟨by omega, fun _ => ⟨not_lt.mp hlen, hends⟩⟩
      obtain ⟨hfull, hnone⟩ := not_or.mp hstray
      obtain ⟨st, hrun⟩ := onRecieve_stray rt leftover h rfl rfl hop (by omega) hnone hbeyond sendto client
      exact ⟨_, _, protectedCall_error (fun _ h => by cases h) hrun⟩
  · exact absurd ⟨not_lt.mp hshort, fun hlogin => absurd hlogin hop⟩ hbad

/-- What is undefined in the callback is undefined in the dispatch. -/
theorem not_answers_ok {leftover : Int32} {sendto : C → List UInt8 → Int32} {client : C}
    {beyond : ℤ → Option UInt8} {st : CallbackState C}
    (h : (onRecieve rt leftover sendto client).run ⟨receivedReader beyond datagram, []⟩ =
      .error .undefinedBehaviour st) :
    ¬∃ events, (answers rt leftover sendto client beyond datagram).run [] = .ok () events := by
  rintro ⟨events, hok⟩
  have hcall : (answers rt leftover sendto client beyond datagram).run [] =
      .error .undefinedBehaviour st.events := protectedCall_error (fun _ h => by cases h) h
  rw [hcall] at hok
  cases hok

/-- A datagram that can be read is answered, or left in the middle of its dump. -/
theorem answers_readable (hrt : rt.Ordinary) (w : Surroundings) (hfit : datagram.length ≤ 0x5000)
    (hread : Readable datagram) (sendto : C → List UInt8 → Int32) (client : C) (beyond : ℤ → Option UInt8) :
    (∃ events, (answers rt w.leftover sendto client beyond datagram).run [] = .ok () events) ↔
      ¬w.Yields datagram := by
  obtain ⟨hlen, hlogin⟩ := hread
  have h := receivedReader_facing beyond hfit
  by_cases hop : opcodeOf datagram = 0x0001
  · obtain ⟨hlong, hends⟩ := hlogin hop
    obtain ⟨i, hi⟩ := Option.isSome_iff_exists.mp (hrt.toInt (sessionIdOf datagram))
    have hother : opcodeOf datagram ≠ 0x000D := by omega
    by_cases hleft : w.leftover < 0
    · obtain ⟨sessionId, data, reply, hwhole, hrun⟩ := onRecieve_reply hrt w.leftover h rfl hlong hop
        (fun s' h' hbuf' => readString_received h' hbuf' hlong hfit hends) hi sendto client []
      rw [run_bind_error (hexDump_yields hwhole hleft _)] at hrun
      exact iff_of_false (not_answers_ok hrun) fun hyields => hyields ⟨hother, hleft⟩
    · obtain ⟨sessionId, data, hrun⟩ := onRecieve_login hrt hleft h rfl hlong hop
        (fun s' h' hbuf' => readString_received h' hbuf' hlong hfit hends) hi sendto client []
      exact iff_of_true ⟨_, protectedCall_ok hrun⟩ fun hyields => hleft hyields.2
  · obtain ⟨st, hrun⟩ := onRecieve_other rt w.leftover h rfl hlen (by omega) hop sendto client
    by_cases hgoes : opcodeOf datagram = 0x000D ∨ ¬w.leftover < 0
    · rw [if_pos hgoes] at hrun
      refine iff_of_true ⟨_, protectedCall_ok hrun⟩ ?_
      rintro ⟨hother, hleft⟩
      exact hgoes.elim hother fun hnot => hnot hleft
    · rw [if_neg hgoes] at hrun
      obtain ⟨hother, hleft⟩ := not_or.mp hgoes
      exact iff_of_false (not_answers_ok hrun) fun hyields => hyields ⟨hother, not_not.mp hleft⟩

/-- The listener survives exactly the datagrams with an opcode that, if it is that of a login request, is
followed by twelve bytes and a string that ends in the buffer; where the marks of the datagram are taken, the
collector spares the connection, and the callback is not left in the middle of a dump. -/
theorem listener_finishes_iff [Winsock] {datagram : List UInt8} (hpos : 0 < datagram.length)
    (hfit : datagram.length ≤ 0x5000) (w : Surroundings) (client : C) :
    Finishes w client datagram ↔ Readable datagram ∧ w.TakesMarks loginConnection ∧
      w.Spares loginConnection ∧ ¬w.Yields datagram := by
  constructor
  · intro hfinishes
    have hok := hfinishes (platform 0) (platform_ordinary 0) (fun _ _ => 0) fun _ => none
    obtain ⟨⟨htakes, hspares⟩, hanswers⟩ :=
      (dispatchAmid_ok_iff w (fun _ _ => 0) client (fun _ => none) hpos hfit).mp hok
    have hread : Readable datagram := by
      by_contra hbad
      obtain ⟨events, hok⟩ := hanswers
      obtain ⟨e, events', herror⟩ := answers_aborts (platform 0) w.leftover (fun _ => none) hpos hfit hbad
        rfl (fun _ _ => 0) client
      rw [hok] at herror
      cases herror
    exact ⟨hread, htakes, hspares,
      (answers_readable (platform_ordinary 0) w hfit hread (fun _ _ => 0) client fun _ => none).mp hanswers⟩
  · rintro ⟨hread, htakes, hspares, hgoes⟩ rt hrt sendto beyond
    exact (dispatchAmid_ok_iff w sendto client beyond hpos hfit).mpr ⟨⟨htakes, hspares⟩,
      (answers_readable hrt w hfit hread sendto client beyond).mpr hgoes⟩

/-- A collector at rest. The registry, 1, has what the connection of the login server puts there: its
callback, the address of the socket's userdata, and its own userdata. The callback refers to the socket's,
and both have a metatable, 5, with a finalizer. The collector starts a collection before the callback has
returned. -/
def atRest : Surroundings where
  collector := {
    objects := [some ⟨.luaC_white false, .thread .nil [] 0 [] []⟩,
      some ⟨.luaC_white false, .table none [.obj 2, .lightuserdata 64, .obj 3] []⟩,
      some ⟨.luaC_white false, .cclosure 1 [.obj 4]⟩, some ⟨.luaC_white false, .userdata (some 5) 1⟩,
      some ⟨.luaC_white false, .userdata (some 5) 1⟩,
      some ⟨.luaC_white false, .table none [] [(.obj 6, .obj 7)]⟩, some ⟨.luaC_white false, .string "__gc"⟩,
      some ⟨.luaC_white false, .cclosure 1 []⟩]
    currentwhite := false
    gcstate := .pause
    sweepstrgc := 0
    sweepgc := 0
    rootgc := [7, 5, 2, 1, 0, 3, 4]
    strt := [[6]]
    tmudata := []
    gray := []
    grayagain := []
    weak := []
    mainthread := 0
    registry := .obj 1
    mt := []
    uvhead := [] }
  steps := [⟨id, 0, []⟩, ⟨id, 0, []⟩]
  others := [4]
  mayStore p := p = 64
  leftover := 0

theorem listener_finishes_example : Finishes (C := ℕ) atRest 7 [0x00, 0x0D] := by
  have htakes : atRest.TakesMarks loginConnection := by
    unfold Surroundings.TakesMarks
    decide
  have hspares : atRest.Spares loginConnection := ⟨by decide, by decide, trivial⟩
  have hgoes : ¬atRest.Yields [0x00, 0x0D] := fun hyields => hyields.1 (by decide)
  exact (listener_finishes_iff (by decide) (by decide) atRest 7).mpr ⟨by decide, htakes, hspares, hgoes⟩

/-- A datagram of one byte ends the listener. -/
theorem one_byte_kills : ¬Finishes (C := ℕ) atRest 7 [0x00] := by
  intro hfinishes
  have hone : 0 < [(0x00 : UInt8)].length := by decide
  have hfit : [(0x00 : UInt8)].length ≤ 0x5000 := by decide
  have hbad : ¬Readable [0x00] := by decide
  obtain ⟨-, events, hok⟩ := (dispatchAmid_ok_iff atRest (fun _ _ => 0) 7 (fun _ => none) hone hfit).mp
    (hfinishes (platform 0) (platform_ordinary 0) (fun _ _ => 0) fun _ => none)
  obtain ⟨e, events', herror⟩ := answers_aborts (platform 0) atRest.leftover (fun _ => none) hone hfit hbad rfl
    (fun _ _ => 0) (7 : ℕ)
  rw [hok] at herror
  cases herror

end H1Z1Server
