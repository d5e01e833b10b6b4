import H1Z1Server.LuaSystem.Connections

/-! Which callbacks a datagram reaches: that of the connection made last, once for each live
connection, and none after a disconnect. -/
namespace H1Z1Server
open MachineInt
variable {F : Type} {bufferSize : ℕ} {s : LuaNetSocket F} {r : Roster F}

/-- The run of connects and disconnects ends, and every datagram that is not empty and fits into the
buffer then reaches every live connection once, in order, and nothing else. -/
def HearsEvery [Winsock] (foreignDelete : Bool) (bufferSize : ℕ) (ops : List (ConnectionOp F)) : Prop :=
  ∃ s, (LuaNetSocket.new bufferSize).run foreignDelete ops = .ok s ∧
    ∀ beyond datagram, 0 < datagram.length → datagram.length ≤ bufferSize →
      s.heard beyond datagram = ((Roster.empty : Roster F).run ops).live.map (·.callback)

theorem forM_replicate_append {α β : Type} (n : ℕ) (x : α) (act : α → StateM (List β) Unit) (new : List β)
    (hact : ∀ trace, (act x).run trace = ((), trace ++ new)) (trace : List β) :
    ((List.replicate n x).forM act).run trace = ((), trace ++ (List.replicate n new).flatten) := by
  induction n generalizing trace with
  | zero =>
    rw [List.replicate_zero, List.replicate_zero, List.flatten_nil, List.append_nil]
    rfl
  | succ n ih =>
    rw [List.replicate_succ, List.replicate_succ, List.flatten_cons, ← List.append_assoc,
      List.forM_eq_forM, List.forM_cons, StateT.run_bind, hact, ← List.forM_eq_forM]
    exact ih (trace ++ new)

/-- What the shared handler appends: the callback of the connection made last. -/
def Roster.told (r : Roster F) : List F := (r.latest.map (·.callback)).toList

theorem eventHandler_run (h : Tracks bufferSize s r) (packet : Packet) (trace : List F) :
    (s.eventHandler (m := StateM (List F)) (fun _ => pure ()) (fun f _ => modify (· ++ [f])) packet
      (s.net.socketUserdata .luaNetSocket_EventHandler)).run trace = ((), trace ++ r.told) := by
  rw [h.voice, Roster.told]
  cases hlatest : r.latest with
  | none =>
    rw [Option.map_none, Option.map_none, Option.toList_none, List.append_nil]
    rfl
  | some c =>
    have hdesc := h.live c (h.latest c hlatest)
    have hget : s.userdata[c.ud]? = some (s.entry c) := by
      rw [LuaNetSocket.entry, List.getD_eq_getElem?_getD, List.getElem?_eq_getElem hdesc.stored,
        Option.getD_some]
    have hzero := h.registry.zero
    have hset : ¬((s.entry c).funcRef = 0 ∨ (s.entry c).socketRef = 0) := by
      rintro (hfunc | hsocket)
      · have hget := hdesc.func
        rw [hfunc, hzero] at hget
        cases hget
      · have hget := hdesc.socket
        rw [hsocket, hzero] at hget
        cases hget
    unfold LuaNetSocket.eventHandler
    simp only [Option.map_some, hget, if_neg hset, hdesc.func]
    rfl

theorem heard_eq [Winsock] (h : Tracks bufferSize s r) (hbuffer : bufferSize < 2 ^ 31)
    (beyond : ℤ → Option UInt8) {datagram : List UInt8} (hpos : 0 < datagram.length)
    (hfit : datagram.length ≤ bufferSize) :
    s.heard beyond datagram = (List.replicate r.live.length r.told).flatten := by
  have hreceived : s.net.recvfrom datagram > 0 :=
    NetSocket.recvfrom_pos (h.buffer ▸ hbuffer) hpos (h.buffer ▸ hfit)
  unfold LuaNetSocket.heard LuaNetSocket.listener NetSocket.listener
  rw [if_pos hreceived, h.handlers]
  exact congrArg Prod.snd
    (forM_replicate_append r.live.length NetSocketHandler.luaNetSocket_EventHandler _ r.told (eventHandler_run h _) [])

theorem replicate_told_eq_iff (r : Roster F) :
    (List.replicate r.live.length r.told).flatten = r.live.map (·.callback) ↔ r.OneVoice := by
  unfold Roster.OneVoice Roster.told
  cases hlatest : r.latest with
  | none =>
    constructor
    · intro heq
      left
      have hlen := congrArg List.length heq
      simp only [Option.map_none, Option.toList_none, List.flatten_replicate_nil, List.length_nil,
        List.length_map] at hlen
      exact List.length_eq_zero_iff.mp hlen.symm
    · rintro (hnil | ⟨c, hc, -⟩)
      · rw [hnil]
        rfl
      · cases hc
  | some c =>
    rw [Option.map_some, Option.toList_some, List.flatten_replicate_singleton, eq_comm,
      List.eq_replicate_iff]
    constructor
    · rintro ⟨-, hall⟩
      exact .inr ⟨c, rfl, fun d hd => hall _ (List.mem_map_of_mem hd)⟩
    · intro hvoice
      rw [List.length_map]
      refine ⟨rfl, ?_⟩
      rcases hvoice with hnil | ⟨c', hc', hall⟩
      · intro f hf
        rw [hnil] at hf
        cases hf
      · obtain rfl := Option.some.inj hc'
        intro f hf
        obtain ⟨d, hd, rfl⟩ := List.mem_map.mp hf
        exact hall d hd

/-- Every live connection hears every datagram once exactly when every connection that is ended is
in place then and the heap takes its memory, and at the end nothing is live, or the last operation
has made a connection and all live ones share its callback. -/
theorem hearsEvery_iff [Winsock] (foreignDelete : Bool) {bufferSize : ℕ} (hpos : 0 < bufferSize)
    (hbuffer : bufferSize < 2 ^ 31) {ops : List (ConnectionOp F)}
    (hops : (Roster.empty : Roster F).WellFormed ops) :
    HearsEvery foreignDelete bufferSize ops ↔
      (Roster.empty : Roster F).EndsInPlace foreignDelete ops ∧
        ((Roster.empty : Roster F).run ops).OneVoice := by
  have hnew := tracks_new (F := F) bufferSize
  constructor
  · rintro ⟨s, hrun, hheard⟩
    have hends := endsInPlace_of_run hnew hops hrun
    obtain ⟨s', hrun', htracks⟩ := run_tracks hnew hops hends
    rw [hrun] at hrun'
    obtain rfl := Except.ok.inj hrun'
    have hlen : 0 < [(0 : UInt8)].length := Nat.one_pos
    have hone := hheard (fun _ => none) [0] hlen hpos
    rw [heard_eq htracks hbuffer _ hlen hpos] at hone
    exact ⟨hends, (replicate_told_eq_iff _).mp hone⟩
  · rintro ⟨hends, hvoice⟩
    obtain ⟨s, hrun, htracks⟩ := run_tracks hnew hops hends
    refine ⟨s, hrun, ?_⟩
    intro beyond datagram hlen hfit
    rw [heard_eq htracks hbuffer beyond hlen hfit]
    exact (replicate_told_eq_iff _).mpr hvoice

/-- Connections that are never ended need no heap that takes foreign pointers. -/
theorem hearsEvery_iff_example :
    (HearsEvery true 0x5000 [.connect 1, .disconnect 0, .connect 2, .connect 2] ↔
      (Roster.empty : Roster ℕ).EndsInPlace true [.connect 1, .disconnect 0, .connect 2, .connect 2] ∧
        ((Roster.empty : Roster ℕ).run
          [.connect 1, .disconnect 0, .connect 2, .connect 2]).OneVoice) ∧
      HearsEvery false 0x5000 [.connect 1, .connect 1] := by
  constructor
  · exact hearsEvery_iff true (by decide) (by decide) ⟨⟨⟨0, 1, 0⟩, List.mem_cons_self, rfl⟩, trivial⟩
  · have hshared : ∀ c ∈ ((Roster.empty : Roster ℕ).run [.connect 1, .connect 1]).live, c.callback = 1 := by
      decide
    have hlive : (Roster.empty : Roster ℕ).WellFormed [.connect 1, .connect 1] := trivial
    exact (hearsEvery_iff false (by decide) (by decide) hlive).mpr ⟨trivial, .inr ⟨_, rfl, hshared⟩⟩

/-- With two connections, both calls go to the callback of the second. -/
theorem first_connection_unheard :
    (Roster.empty : Roster ℕ).WellFormed [.connect 1, .connect 2] ∧
      ¬HearsEvery true 0x5000 [.connect 1, .connect 2] := by
  constructor
  · trivial
  · rintro ⟨s, hrun, hheard⟩
    have hends : (Roster.empty : Roster ℕ).EndsInPlace true [.connect 1, .connect 2] := trivial
    obtain ⟨s', hrun', htracks⟩ := run_tracks (tracks_new 0x5000) (by trivial) hends
    rw [hrun] at hrun'
    obtain rfl := Except.ok.inj hrun'
    have hone := hheard (fun _ => none) [0] (by decide) (by decide)
    rw [heard_eq htracks (by decide) _ (by decide) (by decide)] at hone
    exact absurd hone (by decide)

end H1Z1Server
