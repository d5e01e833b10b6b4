import H1Z1Server.LuaSystem.LuaNetSocket

/-! Sequences of connects and disconnects on one socket, and which callbacks a datagram reaches
afterwards, against the list of live connections that a caller keeps in mind. -/
namespace H1Z1Server
open MachineInt
variable {F : Type}

inductive ConnectionOp (F : Type) where
  | connect (f : F)
  | disconnect (ud : ℕ)

namespace LuaNetSocket

def step (foreignDelete : Bool) (s : LuaNetSocket F) : ConnectionOp F → Except Abort (LuaNetSocket F)
  | .connect f => .ok (s.connect f)
  | .disconnect ud => s.disconnect foreignDelete ud

def run (foreignDelete : Bool) (s : LuaNetSocket F) : List (ConnectionOp F) → Except Abort (LuaNetSocket F)
  | [] => .ok s
  | op :: ops => do
    let s ← s.step foreignDelete op
    s.run foreignDelete ops

/-- The callbacks that a datagram reaches, in the order of their calls. The marks are taken, and the
collector does no harm. -/
def heard [Winsock] (s : LuaNetSocket F) (beyond : ℤ → Option UInt8) (datagram : List UInt8) : List F :=
  ((s.listener (m := StateM (List F)) (fun _ => pure ()) (fun f _ => modify (· ++ [f])) beyond
    datagram).run []).2

end LuaNetSocket

/-- A live connection: its number, its callback, and how many connections were live before it. -/
structure Connection (F : Type) where
  ud : ℕ
  callback : F
  place : ℕ

/-- What a caller keeps in mind: how many connections were made, those that are live, in order,
and the connection made last, if none was ended since. -/
structure Roster (F : Type) where
  made : ℕ
  live : List (Connection F)
  latest : Option (Connection F)

namespace Roster

def empty : Roster F := ⟨0, [], none⟩

def step (r : Roster F) : ConnectionOp F → Roster F
  | .connect f =>
    let c := ⟨r.made, f, r.live.length⟩
    ⟨r.made + 1, r.live ++ [c], some c⟩
  | .disconnect ud => ⟨r.made, r.live.filter (·.ud ≠ ud), none⟩

def run (r : Roster F) : List (ConnectionOp F) → Roster F
  | [] => r
  | op :: ops => (r.step op).run ops

/-- Only live connections are ended. -/
def WellFormed (r : Roster F) : List (ConnectionOp F) → Prop
  | [] => True
  | .connect f :: ops => (r.step (.connect f)).WellFormed ops
  | .disconnect ud :: ops => (∃ c ∈ r.live, c.ud = ud) ∧ (r.step (.disconnect ud)).WellFormed ops

/-- The index that a connection remembers is one that the vector of handlers still has. -/
def InPlace (r : Roster F) (c : Connection F) : Prop :=
  0 ≤ (Int32.ofInt c.place).toInt ∧ (Int32.ofInt c.place).toInt < r.live.length

/-- Every connection that is ended is in place when that happens, and the heap takes its memory. -/
def EndsInPlace (foreignDelete : Bool) (r : Roster F) : List (ConnectionOp F) → Prop
  | [] => True
  | .connect f :: ops => (r.step (.connect f)).EndsInPlace foreignDelete ops
  | .disconnect ud :: ops => foreignDelete = true ∧ (∃ c ∈ r.live, c.ud = ud ∧ r.InPlace c) ∧
      (r.step (.disconnect ud)).EndsInPlace foreignDelete ops

/-- Nothing is live, or the last operation made a connection and all live ones share its callback. -/
def OneVoice (r : Roster F) : Prop :=
  r.live = [] ∨ ∃ c, r.latest = some c ∧ ∀ d ∈ r.live, d.callback = c.callback

end Roster

/-- The references that a connection holds in the registry. -/
def EventUserdata.refs (e : EventUserdata) : List ℕ := [e.funcRef, e.socketRef, e.eventRef]

/-- The userdata of a connection. -/
def LuaNetSocket.entry (s : LuaNetSocket F) (c : Connection F) : EventUserdata :=
  s.userdata.getD c.ud ⟨0, 0, 0, 0⟩

/-- A connection and its userdata. -/
structure Describes (s : LuaNetSocket F) (c : Connection F) : Prop where
  stored : c.ud < s.userdata.length
  index : (s.entry c).handlerIndex = Int32.ofInt c.place
  func : s.registry.get (s.entry c).funcRef = some (.callback c.callback)
  socket : s.registry.get (s.entry c).socketRef = some .socket
  event : s.registry.get (s.entry c).eventRef = some (.event c.ud)

/-- The state of a socket and what a caller keeps in mind about it. -/
structure Tracks (bufferSize : ℕ) (s : LuaNetSocket F) (r : Roster F) : Prop where
  buffer : s.net.bufferSize = bufferSize
  registry : s.registry.Valid
  made : s.userdata.length = r.made
  handlers : s.net.socketHandlers = List.replicate r.live.length .luaNetSocket_EventHandler
  voice : s.net.socketUserdata .luaNetSocket_EventHandler = r.latest.map (·.ud)
  live : ∀ c ∈ r.live, Describes s c
  apart : r.live.Pairwise fun c d => List.Disjoint (s.entry c).refs (s.entry d).refs
  uds : r.live.Pairwise fun c d => c.ud ≠ d.ud
  latest : ∀ c, r.latest = some c → c ∈ r.live

theorem Describes.get_of_mem {s : LuaNetSocket F} {c : Connection F} (h : Describes s c) {k : ℕ}
    (hk : k ∈ (s.entry c).refs) : ∃ v, s.registry.get k = some v := by
  simp only [EventUserdata.refs, List.mem_cons, List.not_mem_nil, or_false] at hk
  rcases hk with rfl | rfl | rfl
  · exact ⟨_, h.func⟩
  · exact ⟨_, h.socket⟩
  · exact ⟨_, h.event⟩

theorem tracks_new (bufferSize : ℕ) :
    Tracks bufferSize (LuaNetSocket.new bufferSize : LuaNetSocket F) .empty := by
  constructor
  · rfl
  · exact RefTable.valid_empty
  · rfl
  · rfl
  · rfl
  · intro c hc
    cases hc
  · exact List.Pairwise.nil
  · exact List.Pairwise.nil
  · intro c hc
    cases hc

/-- The userdata that a connect creates, and the registry after it. -/
def LuaNetSocket.newEntry (s : LuaNetSocket F) (f : F) : EventUserdata × RefTable (RegistryValue F) :=
  let (funcRef, registry) := s.registry.ref (.callback f)
  let (socketRef, registry) := registry.ref .socket
  let (eventRef, registry) := registry.ref (.event s.userdata.length)
  (⟨funcRef, socketRef, eventRef, Int32.ofInt s.net.socketHandlers.length⟩, registry)

theorem connect_eq (s : LuaNetSocket F) (f : F) :
    s.connect f =
      { net := (s.net.addHandler .luaNetSocket_EventHandler s.userdata.length).2
        registry := (s.newEntry f).2
        userdata := s.userdata ++ [(s.newEntry f).1] } := by
  have hindex := narrow_last s.net.socketHandlers.length
  simp only [LuaNetSocket.connect, LuaNetSocket.newEntry, NetSocket.addHandler, List.length_append,
    List.length_singleton, hindex]

/-- The new references are free before and hold their values after; the others keep theirs. -/
theorem newEntry_registry {s : LuaNetSocket F} (h : s.registry.Valid) (f : F) :
    (s.newEntry f).2.Valid ∧
      (s.newEntry f).2.get (s.newEntry f).1.funcRef = some (.callback f) ∧
      (s.newEntry f).2.get (s.newEntry f).1.socketRef = some .socket ∧
      (s.newEntry f).2.get (s.newEntry f).1.eventRef = some (.event s.userdata.length) ∧
      (∀ k ∈ (s.newEntry f).1.refs, s.registry.get k = none) ∧
      ∀ k v, s.registry.get k = some v → (s.newEntry f).2.get k = some v := by
  obtain ⟨v₁, n₁, -, -⟩ := RefTable.ref_spec h (.callback f)
  have g₁ := RefTable.get_ref_self h (.callback f)
  have k₁ := @RefTable.get_ref_of_some _ _ h (.callback f)
  unfold LuaNetSocket.newEntry
  generalize s.registry.ref (.callback f) = p₁ at v₁ n₁ g₁ k₁
  obtain ⟨r₁, t₁⟩ := p₁
  obtain ⟨v₂, n₂, -, -⟩ := RefTable.ref_spec v₁ .socket
  have g₂ := RefTable.get_ref_self v₁ .socket
  have k₂ := @RefTable.get_ref_of_some _ _ v₁ .socket
  dsimp only at v₂ n₂ g₂ k₂ g₁ n₁ k₁ ⊢
  generalize t₁.ref .socket = p₂ at v₂ n₂ g₂ k₂ ⊢
  obtain ⟨r₂, t₂⟩ := p₂
  obtain ⟨v₃, n₃, -, -⟩ := RefTable.ref_spec v₂ (.event s.userdata.length)
  have g₃ := RefTable.get_ref_self v₂ (.event s.userdata.length)
  have k₃ := @RefTable.get_ref_of_some _ _ v₂ (.event s.userdata.length)
  dsimp only at v₃ n₃ g₃ k₃ g₂ n₂ k₂ ⊢
  generalize t₂.ref (.event s.userdata.length) = p₃ at v₃ n₃ g₃ k₃ ⊢
  obtain ⟨r₃, t₃⟩ := p₃
  refine ⟨v₃, k₃ (k₂ g₁), k₃ g₂, g₃, ?_, fun k v hk => k₃ (k₂ (k₁ hk))⟩
  intro k hk
  simp only [EventUserdata.refs, List.mem_cons, List.not_mem_nil, or_false] at hk
  by_contra hsome
  obtain ⟨v, hv⟩ := Option.ne_none_iff_exists'.mp hsome
  rcases hk with rfl | rfl | rfl
  · rw [n₁] at hv
    cases hv
  · rw [k₁ hv] at n₂
    cases n₂
  · rw [k₂ (k₁ hv)] at n₃
    cases n₃

theorem registry_connect (s : LuaNetSocket F) (f : F) : (s.connect f).registry = (s.newEntry f).2 := by
  rw [connect_eq]

theorem length_userdata_connect (s : LuaNetSocket F) (f : F) :
    (s.connect f).userdata.length = s.userdata.length + 1 := by
  rw [connect_eq, List.length_append, List.length_singleton]

/-- The userdata of a connection stays what it is when another one is made. -/
theorem Describes.entry_connect {s : LuaNetSocket F} {c : Connection F} (h : Describes s c) (f : F) :
    (s.connect f).entry c = s.entry c := by
  rw [connect_eq, LuaNetSocket.entry, List.getD_eq_getElem?_getD, List.getElem?_append_left h.stored,
    ← List.getD_eq_getElem?_getD]
  rfl

theorem Describes.connect {s : LuaNetSocket F} {c : Connection F} (h : Describes s c)
    (hvalid : s.registry.Valid) (f : F) : Describes (s.connect f) c := by
  obtain ⟨-, -, -, -, -, hkeep⟩ := newEntry_registry hvalid f
  constructor
  · rw [length_userdata_connect]
    exact Nat.lt_succ_of_lt h.stored
  · rw [h.entry_connect, h.index]
  · rw [h.entry_connect, registry_connect, hkeep _ _ h.func]
  · rw [h.entry_connect, registry_connect, hkeep _ _ h.socket]
  · rw [h.entry_connect, registry_connect, hkeep _ _ h.event]

/-- The userdata that a connect creates is that of the new connection. -/
theorem entry_connect_new {s : LuaNetSocket F} {made : ℕ} (hmade : s.userdata.length = made) (f : F)
    (place : ℕ) : (s.connect f).entry ⟨made, f, place⟩ = (s.newEntry f).1 := by
  rw [connect_eq, LuaNetSocket.entry, List.getD_eq_getElem?_getD, List.getElem?_append_right hmade.le,
    hmade, Nat.sub_self]
  rfl

theorem describes_new {s : LuaNetSocket F} {made : ℕ} (hmade : s.userdata.length = made)
    (hvalid : s.registry.Valid) (f : F) :
    Describes (s.connect f) ⟨made, f, s.net.socketHandlers.length⟩ := by
  obtain ⟨-, hfunc, hsocket, hevent, -, -⟩ := newEntry_registry hvalid f
  constructor
  · rw [length_userdata_connect, hmade]
    exact Nat.lt_succ_self _
  · rw [entry_connect_new hmade]
    rfl
  · rw [entry_connect_new hmade, registry_connect, hfunc]
  · rw [entry_connect_new hmade, registry_connect, hsocket]
  · rw [entry_connect_new hmade, registry_connect, hevent, hmade]

/-- A connect adds a live connection, in the last place, and makes it the one that is told. -/
theorem connect_tracks {bufferSize : ℕ} {s : LuaNetSocket F} {r : Roster F}
    (h : Tracks bufferSize s r) (f : F) : Tracks bufferSize (s.connect f) (r.step (.connect f)) := by
  obtain ⟨hvalid, -, -, -, hfresh, -⟩ := newEntry_registry h.registry f
  have hlen : s.net.socketHandlers.length = r.live.length := by
    rw [h.handlers, List.length_replicate]
  have hold : ∀ c ∈ r.live, (s.connect f).entry c = s.entry c := fun c hc =>
    (h.live c hc).entry_connect f
  constructor
  · rw [connect_eq, ← h.buffer]
    rfl
  · rw [registry_connect]
    exact hvalid
  · rw [length_userdata_connect, h.made]
    rfl
  · rw [connect_eq]
    show s.net.socketHandlers ++ [_] = List.replicate (r.live ++ [_]).length _
    rw [h.handlers, List.length_append, List.length_singleton, List.replicate_succ']
  · rw [connect_eq]
    simp only [NetSocket.addHandler, Function.update_self, h.made]
    rfl
  · intro c hc
    rcases List.mem_append.mp hc with hc | hc
    · exact (h.live c hc).connect h.registry f
    · obtain rfl := List.mem_singleton.mp hc
      have hdescribes := describes_new h.made h.registry f
      rwa [hlen] at hdescribes
  · show (r.live ++ [_]).Pairwise _
    rw [List.pairwise_append]
    refine ⟨?_, List.pairwise_singleton _ _, ?_⟩
    · exact h.apart.imp_of_mem fun hc hd hdisj => by rw [hold _ hc, hold _ hd]; exact hdisj
    · intro c hc d hd
      obtain rfl := List.mem_singleton.mp hd
      rw [hold c hc, entry_connect_new h.made]
      intro k hk hk'
      obtain ⟨v, hv⟩ := (h.live c hc).get_of_mem hk
      rw [hfresh k hk'] at hv
      cases hv
  · show (r.live ++ [_]).Pairwise _
    rw [List.pairwise_append]
    refine ⟨h.uds, List.pairwise_singleton _ _, ?_⟩
    intro c hc d hd
    obtain rfl := List.mem_singleton.mp hd
    have hstored := (h.live c hc).stored
    rw [h.made] at hstored
    exact Nat.ne_of_lt hstored
  · intro c hc
    obtain rfl := Option.some.inj hc
    exact List.mem_append_right _ List.mem_cons_self

/-- Gives back the references of a connection. -/
def EventUserdata.release (e : EventUserdata) (t : RefTable (RegistryValue F)) :
    RefTable (RegistryValue F) :=
  ((t.unref e.funcRef).unref e.socketRef).unref e.eventRef

theorem Describes.release {s : LuaNetSocket F} {c : Connection F} (h : Describes s c)
    (hvalid : s.registry.Valid) :
    ((s.entry c).release s.registry).Valid ∧
      ∀ k ∉ (s.entry c).refs, ((s.entry c).release s.registry).get k = s.registry.get k := by
  have hfs : (s.entry c).socketRef ≠ (s.entry c).funcRef := by
    intro heq
    have hsocket := h.socket
    rw [heq, h.func] at hsocket
    cases hsocket
  have hfe : (s.entry c).eventRef ≠ (s.entry c).funcRef := by
    intro heq
    have hevent := h.event
    rw [heq, h.func] at hevent
    cases hevent
  have hse : (s.entry c).eventRef ≠ (s.entry c).socketRef := by
    intro heq
    have hevent := h.event
    rw [heq, h.socket] at hevent
    cases hevent
  obtain ⟨v₁, -⟩ := RefTable.unref_spec hvalid h.func
  have keep₁ := fun k => @RefTable.get_unref_of_ne _ _ hvalid _ _ h.func k
  have hsocket := h.socket
  rw [← keep₁ _ hfs] at hsocket
  obtain ⟨v₂, -⟩ := RefTable.unref_spec v₁ hsocket
  have keep₂ := fun k => @RefTable.get_unref_of_ne _ _ v₁ _ _ hsocket k
  have hevent := h.event
  rw [← keep₁ _ hfe, ← keep₂ _ hse] at hevent
  obtain ⟨v₃, -⟩ := RefTable.unref_spec v₂ hevent
  have keep₃ := fun k => @RefTable.get_unref_of_ne _ _ v₂ _ _ hevent k
  constructor
  · exact v₃
  · intro k hk
    simp only [EventUserdata.refs, List.mem_cons, List.not_mem_nil, or_false, not_or] at hk
    rw [EventUserdata.release, keep₃ k hk.2.2, keep₂ k hk.2.1, keep₁ k hk.1]

/-- One of distinct connections is taken out. -/
theorem length_filter_ud {live : List (Connection F)} (h : live.Pairwise fun c d => c.ud ≠ d.ud)
    {c : Connection F} (hc : c ∈ live) :
    (live.filter (·.ud ≠ c.ud)).length = live.length - 1 := by
  induction live with
  | nil => cases hc
  | cons d live ih =>
    obtain ⟨hd, hlive⟩ := List.pairwise_cons.mp h
    rcases List.mem_cons.mp hc with rfl | hc
    · rw [List.filter_cons_of_neg (by simp), List.filter_eq_self.mpr, List.length_cons,
        Nat.add_sub_cancel]
      intro e he
      exact decide_eq_true (Ne.symm (hd e he))
    · have hkeep := hd c hc
      rw [List.filter_cons_of_pos (by simpa using hkeep), List.length_cons, ih hlive hc,
        List.length_cons, Nat.add_sub_cancel]
      exact Nat.sub_add_cancel (List.length_pos_of_mem hc)

/-- The handlers are all one, so that taking any of them out leaves as many less one. -/
theorem removeHandler_eq {net : NetSocket NetSocketHandler ℕ} {n : ℕ}
    (h : net.socketHandlers = List.replicate n .luaNetSocket_EventHandler) (i : Int32) :
    net.removeHandler i =
      if 0 ≤ i.toInt ∧ i.toInt < n then
        .ok { net with
          socketHandlers := List.replicate (n - 1) .luaNetSocket_EventHandler
          socketUserdata := Function.update net.socketUserdata .luaNetSocket_EventHandler none }
      else .error .undefinedBehaviour := by
  unfold NetSocket.removeHandler
  by_cases hi : 0 ≤ i.toInt
  · rw [if_pos hi, h, List.getElem?_replicate]
    by_cases hn : i.toInt < n
    · rw [if_pos (by omega), if_pos ⟨hi, hn⟩, List.eraseIdx_replicate, if_pos (by omega)]
    · rw [if_neg (by omega), if_neg (fun hand => hn hand.2)]
  · rw [if_neg hi, if_neg (fun hand => hi hand.1)]

/-- The socket after a disconnect that goes well. -/
def LuaNetSocket.without (s : LuaNetSocket F) (c : Connection F) (n : ℕ) : LuaNetSocket F :=
  { s with
    net := { s.net with
      socketHandlers := List.replicate (n - 1) .luaNetSocket_EventHandler
      socketUserdata := Function.update s.net.socketUserdata .luaNetSocket_EventHandler none }
    registry := (s.entry c).release s.registry }

variable {bufferSize : ℕ} {s : LuaNetSocket F} {r : Roster F}

/-- A disconnect goes well when the connection is in place and the heap takes its memory. -/
theorem disconnect_eq (h : Tracks bufferSize s r) {c : Connection F} (hc : c ∈ r.live)
    (foreignDelete : Bool) :
    (r.InPlace c ∧ foreignDelete = true ∧
        s.disconnect foreignDelete c.ud = .ok (s.without c r.live.length)) ∨
      (¬(r.InPlace c ∧ foreignDelete = true) ∧
        ∃ abort, s.disconnect foreignDelete c.ud = .error abort) := by
  have hstored := (h.live c hc).stored
  have hindex := (h.live c hc).index
  have hget : s.userdata[c.ud]? = some (s.entry c) := by
    rw [LuaNetSocket.entry, List.getD_eq_getElem?_getD, List.getElem?_eq_getElem hstored,
      Option.getD_some]
  have hremove := removeHandler_eq h.handlers (s.entry c).handlerIndex
  unfold LuaNetSocket.disconnect
  rw [hget]
  dsimp only
  by_cases hplace : r.InPlace c
  · have hplace' := hplace
    unfold Roster.InPlace at hplace'
    rw [hremove, hindex, if_pos hplace']
    cases foreignDelete with
    | false => exact .inr ⟨fun hand => Bool.noConfusion hand.2, _, rfl⟩
    | true => exact .inl ⟨hplace, rfl, rfl⟩
  · have hplace' := hplace
    unfold Roster.InPlace at hplace'
    rw [hremove, hindex, if_neg hplace']
    exact .inr ⟨fun hand => hplace hand.1, _, rfl⟩

/-- A disconnect takes one connection out, and leaves none that is told. -/
theorem without_tracks (h : Tracks bufferSize s r) {c : Connection F} (hc : c ∈ r.live) :
    Tracks bufferSize (s.without c r.live.length) (r.step (.disconnect c.ud)) := by
  obtain ⟨hvalid, hkeep⟩ := (h.live c hc).release h.registry
  have hsub : (r.step (.disconnect c.ud)).live.Sublist r.live := List.filter_sublist
  have hdisjoint : ∀ d ∈ r.live, d.ud ≠ c.ud → List.Disjoint (s.entry d).refs (s.entry c).refs := by
    intro d hd hne
    have hsymm : Std.Symm fun c d => List.Disjoint (s.entry c).refs (s.entry d).refs :=
      ⟨fun _ _ => List.Disjoint.symm⟩
    exact h.apart.forall hd hc (fun heq => hne (congrArg Connection.ud heq))
  constructor
  · exact h.buffer
  · exact hvalid
  · exact h.made
  · show List.replicate (r.live.length - 1) _ = List.replicate (r.live.filter _).length _
    rw [length_filter_ud h.uds hc]
  · simp only [LuaNetSocket.without, Function.update_self]
    rfl
  · intro d hd
    obtain ⟨hd, hne⟩ := List.mem_filter.mp hd
    have hne := of_decide_eq_true hne
    have hdesc := h.live d hd
    have hnot : ∀ k ∈ (s.entry d).refs, k ∉ (s.entry c).refs := fun k hk hk' =>
      hdisjoint d hd hne hk hk'
    constructor
    · exact hdesc.stored
    · exact hdesc.index
    · exact (hkeep _ (hnot _ List.mem_cons_self)).trans hdesc.func
    · exact (hkeep _ (hnot _ (List.mem_cons_of_mem _ List.mem_cons_self))).trans hdesc.socket
    · exact (hkeep _ (hnot _ (List.mem_cons_of_mem _ (List.mem_cons_of_mem _ List.mem_cons_self)))).trans hdesc.event
  · exact h.apart.sublist hsub
  · exact h.uds.sublist hsub
  · intro d hd
    cases hd

/-- A run goes well when every connection ends in place, and is then tracked. -/
theorem run_tracks (h : Tracks bufferSize s r) {ops : List (ConnectionOp F)} (hops : r.WellFormed ops)
    {foreignDelete : Bool} (hends : r.EndsInPlace foreignDelete ops) :
    ∃ s', s.run foreignDelete ops = .ok s' ∧ Tracks bufferSize s' (r.run ops) := by
  induction ops generalizing s r with
  | nil => exact ⟨s, rfl, h⟩
  | cons op ops ih =>
    cases op with
    | connect f => exact ih (connect_tracks h f) hops hends
    | disconnect ud =>
      obtain ⟨hdelete, ⟨c, hc, rfl, hplace⟩, hends⟩ := hends
      rcases disconnect_eq h hc foreignDelete with ⟨-, -, hrun⟩ | ⟨hnot, -⟩
      · obtain ⟨s', hs', htracks⟩ := ih (without_tracks h hc) hops.2 hends
        refine ⟨s', ?_, htracks⟩
        rw [LuaNetSocket.run, LuaNetSocket.step, hrun]
        exact hs'
      · exact absurd ⟨hplace, hdelete⟩ hnot

theorem endsInPlace_of_run (h : Tracks bufferSize s r) {ops : List (ConnectionOp F)}
    (hops : r.WellFormed ops) {foreignDelete : Bool} {s' : LuaNetSocket F}
    (hrun : s.run foreignDelete ops = .ok s') : r.EndsInPlace foreignDelete ops := by
  induction ops generalizing s r with
  | nil => trivial
  | cons op ops ih =>
    cases op with
    | connect f => exact ih (connect_tracks h f) hops hrun
    | disconnect ud =>
      obtain ⟨⟨c, hc, rfl⟩, hops⟩ := hops
      rw [LuaNetSocket.run, LuaNetSocket.step] at hrun
      rcases disconnect_eq h hc foreignDelete with ⟨hplace, hdelete, hok⟩ | ⟨-, abort, herror⟩
      · rw [hok] at hrun
        exact ⟨hdelete, ⟨c, hc, rfl, hplace⟩, ih (without_tracks h hc) hops hrun⟩
      · rw [herror] at hrun
        cases hrun

end H1Z1Server
