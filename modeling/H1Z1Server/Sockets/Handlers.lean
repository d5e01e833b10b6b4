import H1Z1Server.Sockets.NetSocket

/-! The handlers of a socket, added and removed by function between the datagrams, against the
list of registrations that a caller keeps in mind. -/
namespace H1Z1Server
open MachineInt MemoryBlock

/-- A call of a handler, with its arguments. -/
structure HandlerCall (H U : Type) where
  handler : H
  packet : Packet
  userdata : Option U

inductive SocketEvent (H U : Type) where
  | add (handler : H) (userdata : U)
  | remove (handler : H)
  | datagram (beyond : ℤ → Option UInt8) (bytes : List UInt8)

/-- The registrations that a caller keeps in mind, in their order. -/
abbrev Registrations (H U : Type) := List (H × U)

variable {H U : Type}

namespace NetSocket

/-- What the handlers are given for a datagram. -/
def packet [Winsock] (net : NetSocket H U) (beyond : ℤ → Option UInt8) (datagram : List UInt8) : Packet :=
  ⟨net.receiveBuffer beyond datagram, net.recvfrom datagram⟩

/-- The calls that a datagram leads to, in their order. -/
def called [Winsock] (net : NetSocket H U) (beyond : ℤ → Option UInt8) (datagram : List UInt8) :
    List (HandlerCall H U) :=
  ((net.listener (m := StateM (List (HandlerCall H U)))
    (fun handler packet userdata => modify (· ++ [⟨handler, packet, userdata⟩])) beyond datagram).run []).2

end NetSocket

/-- The socket has these registrations, and no others. -/
structure Registers (net : NetSocket H U) (r : Registrations H U) : Prop where
  handlers : net.socketHandlers = r.map Prod.fst
  distinct : (r.map Prod.fst).Nodup
  userdata : ∀ p ∈ r, net.socketUserdata p.1 = some p.2
  others : ∀ h ∉ r.map Prod.fst, net.socketUserdata h = none

theorem registers_new (bufferSize : ℕ) : Registers (NetSocket.new bufferSize : NetSocket H U) [] := by
  constructor
  · rfl
  · exact List.nodup_nil
  · intro p hp
    cases hp
  · intro h _
    rfl

/-- A loop whose rounds each append one entry to a trace. -/
theorem forM_append_run {α β : Type} (l : List α) (act : α → StateM (List β) Unit) (entry : α → β)
    (hact : ∀ x trace, (act x).run trace = ((), trace ++ [entry x])) (trace : List β) :
    (l.forM act).run trace = ((), trace ++ l.map entry) := by
  induction l generalizing trace with
  | nil =>
    rw [List.map_nil, List.append_nil]
    rfl
  | cons x l ih =>
    rw [List.forM_eq_forM, List.forM_cons, StateT.run_bind, hact, ← List.forM_eq_forM, List.map_cons,
      List.append_cons trace (entry x) (l.map entry)]
    exact ih (trace ++ [entry x])

/-- A datagram calls the whole vector, if anything of it is received. -/
theorem called_eq [Winsock] (net : NetSocket H U) (beyond : ℤ → Option UInt8) (datagram : List UInt8) :
    net.called beyond datagram =
      if net.recvfrom datagram > 0 then
        net.socketHandlers.map fun handler =>
          ⟨handler, net.packet beyond datagram, net.socketUserdata handler⟩
      else [] := by
  unfold NetSocket.called NetSocket.listener
  dsimp only
  split
  · exact congrArg Prod.snd (forM_append_run net.socketHandlers _ _ (fun _ _ => rfl) [])
  · rfl

variable {net : NetSocket H U} {r : Registrations H U}

theorem Registers.called [Winsock] (h : Registers net r) (beyond : ℤ → Option UInt8) (datagram : List UInt8) :
    net.called beyond datagram =
      if net.recvfrom datagram > 0 then
        r.map fun p => ⟨p.1, net.packet beyond datagram, some p.2⟩
      else [] := by
  rw [called_eq, h.handlers, List.map_map]
  split
  · apply List.map_congr_left
    intro p hp
    simp only [Function.comp_apply, h.userdata p hp]
  · rfl

variable [DecidableEq H]

namespace NetSocket

/-- `Listener` itself changes nothing about the handlers. -/
def after (net : NetSocket H U) : SocketEvent H U → NetSocket H U
  | .add handler userdata => (net.addHandler handler userdata).2
  | .remove handler => net.removeHandlerOf handler
  | .datagram _ _ => net

def run (net : NetSocket H U) : List (SocketEvent H U) → NetSocket H U
  | [] => net
  | event :: events => (net.after event).run events

end NetSocket

namespace Registrations

def after (r : Registrations H U) : SocketEvent H U → Registrations H U
  | .add handler userdata => r ++ [(handler, userdata)]
  | .remove handler => r.filter (·.1 ≠ handler)
  | .datagram _ _ => r

def run (r : Registrations H U) : List (SocketEvent H U) → Registrations H U
  | [] => r
  | event :: events => run (r.after event) events

/-- A function is added only while it is not registered. -/
def WellFormed (r : Registrations H U) : List (SocketEvent H U) → Prop
  | [] => True
  | .add handler userdata :: events =>
      handler ∉ r.map Prod.fst ∧ WellFormed (r.after (.add handler userdata)) events
  | event :: events => WellFormed (r.after event) events

end Registrations

theorem Registers.add (h : Registers net r) {handler : H} (hnew : handler ∉ r.map Prod.fst)
    (userdata : U) : Registers (net.addHandler handler userdata).2 (r ++ [(handler, userdata)]) := by
  constructor
  · show net.socketHandlers ++ [handler] = _
    rw [h.handlers, List.map_append, List.map_singleton]
  · rw [List.map_append, List.map_singleton, ← List.concat_eq_append]
    exact h.distinct.concat hnew
  · intro p hp
    show Function.update net.socketUserdata handler (some userdata) p.1 = some p.2
    rcases List.mem_append.mp hp with hp | hp
    · rw [Function.update_of_ne]
      · exact h.userdata p hp
      · intro heq
        exact hnew (heq ▸ List.mem_map_of_mem hp)
    · obtain rfl := List.mem_singleton.mp hp
      exact Function.update_self ..
  · intro other hother
    rw [List.map_append, List.map_singleton, List.mem_append, List.mem_singleton, not_or] at hother
    show Function.update net.socketUserdata handler (some userdata) other = none
    rw [Function.update_of_ne hother.2]
    exact h.others other hother.1

/-- Taking one registration out, wherever it stands. -/
theorem Registers.remove (h : Registers net r) {front back : Registrations H U} {p : H × U}
    (hr : r = front ++ p :: back) :
    Registers { net with
      socketHandlers := net.socketHandlers.eraseIdx front.length
      socketUserdata := Function.update net.socketUserdata p.1 none } (front ++ back) := by
  subst hr
  have hsub : (front ++ back).Sublist (front ++ p :: back) :=
    (List.sublist_cons_self p back).append_left front
  have hmap : (front ++ p :: back).map Prod.fst = front.map Prod.fst ++ p.1 :: back.map Prod.fst := by
    rw [List.map_append, List.map_cons]
  have hdistinct := h.distinct
  rw [hmap] at hdistinct
  have hgone : p.1 ∉ (front ++ back).map Prod.fst := by
    rw [List.map_append]
    exact (List.nodup_middle.mp hdistinct).notMem
  constructor
  · show net.socketHandlers.eraseIdx front.length = _
    rw [h.handlers, hmap, ← List.length_map Prod.fst, List.eraseIdx_append_of_length_le le_rfl,
      Nat.sub_self, List.eraseIdx_cons_zero, List.map_append]
  · exact h.distinct.sublist (hsub.map Prod.fst)
  · intro q hq
    show Function.update net.socketUserdata p.1 none q.1 = some q.2
    rw [Function.update_of_ne]
    · exact h.userdata q (hsub.subset hq)
    · intro heq
      exact hgone (heq ▸ List.mem_map_of_mem hq)
  · intro other hother
    show Function.update net.socketUserdata p.1 none other = none
    by_cases heq : other = p.1
    · rw [heq, Function.update_self]
    · rw [Function.update_of_ne heq]
      apply h.others other
      rw [hmap, List.mem_append, List.mem_cons]
      rintro (hfront | hp | hback)
      · exact hother (by rw [List.map_append]; exact List.mem_append_left _ hfront)
      · exact heq hp
      · exact hother (by rw [List.map_append]; exact List.mem_append_right _ hback)

theorem idxOf?_append_cons {front back : List H} {handler : H} (hnot : handler ∉ front) :
    (front ++ handler :: back).idxOf? handler = some front.length := by
  induction front with
  | nil => rw [List.nil_append, List.idxOf?_cons, if_pos (beq_self_eq_true handler), List.length_nil]
  | cons x front ih =>
    rw [List.mem_cons, not_or] at hnot
    rw [List.cons_append, List.idxOf?_cons, if_neg (by simpa using Ne.symm hnot.1), ih hnot.2,
      Option.map_some, List.length_cons]

theorem removeHandlerOf_eq_self {handler : H} (hnot : handler ∉ net.socketHandlers) :
    net.removeHandlerOf handler = net := by
  rw [NetSocket.removeHandlerOf, List.idxOf?_eq_none_iff.mpr hnot]

/-- What `RemoveHandler` leaves of the vector. -/
theorem removeHandlerOf_socketHandlers (net : NetSocket H U) (handler : H) :
    (net.removeHandlerOf handler).socketHandlers = net.socketHandlers.erase handler := by
  rw [List.erase_eq_eraseIdx, NetSocket.removeHandlerOf]
  cases net.socketHandlers.idxOf? handler with
  | none => rfl
  | some i => rfl

theorem filter_split {front back : Registrations H U} {p : H × U}
    (hdistinct : ((front ++ p :: back).map Prod.fst).Nodup) :
    (front ++ p :: back).filter (·.1 ≠ p.1) = front ++ back := by
  rw [List.map_append, List.map_cons] at hdistinct
  have hgone := (List.nodup_middle.mp hdistinct).notMem
  rw [List.mem_append, not_or] at hgone
  rw [List.filter_append, List.filter_cons_of_neg (by simp), List.filter_eq_self.mpr,
    List.filter_eq_self.mpr]
  · intro q hq
    exact decide_eq_true fun heq => hgone.2 (heq ▸ List.mem_map_of_mem hq)
  · intro q hq
    exact decide_eq_true fun heq => hgone.1 (heq ▸ List.mem_map_of_mem hq)

theorem Registers.removeOf (h : Registers net r) (handler : H) :
    Registers (net.removeHandlerOf handler) (r.filter (·.1 ≠ handler)) := by
  by_cases hmem : handler ∈ r.map Prod.fst
  · obtain ⟨p, hp, rfl⟩ := List.mem_map.mp hmem
    obtain ⟨front, back, hr⟩ := List.append_of_mem hp
    have hdistinct := h.distinct
    rw [hr] at hdistinct
    have hidx : net.socketHandlers.idxOf? p.1 = some front.length := by
      have hnot := (List.nodup_middle.mp (by simpa using hdistinct)).notMem
      rw [h.handlers, hr, List.map_append, List.map_cons, idxOf?_append_cons, List.length_map]
      exact fun hmem => hnot (List.mem_append_left _ hmem)
    rw [NetSocket.removeHandlerOf, hidx, hr, filter_split hdistinct]
    exact h.remove hr
  · rw [removeHandlerOf_eq_self (h.handlers ▸ hmem), List.filter_eq_self.mpr]
    · exact h
    · intro q hq
      exact decide_eq_true fun heq => hmem (heq ▸ List.mem_map_of_mem hq)

theorem Registers.after (h : Registers net r) {event : SocketEvent H U} {events : List (SocketEvent H U)}
    (hevents : r.WellFormed (event :: events)) :
    Registers (net.after event) (r.after event) ∧ (r.after event).WellFormed events := by
  cases event with
  | add handler userdata => exact ⟨h.add hevents.1 userdata, hevents.2⟩
  | remove handler => exact ⟨h.removeOf handler, hevents⟩
  | datagram beyond bytes => exact ⟨h, hevents⟩

theorem Registers.run (h : Registers net r) {events : List (SocketEvent H U)}
    (hevents : r.WellFormed events) : Registers (net.run events) (r.run events) := by
  induction events generalizing net r with
  | nil => exact h
  | cons event events ih =>
    obtain ⟨hafter, hevents⟩ := h.after hevents
    exact ih hafter hevents

/-- After these events every datagram calls every registered handler once, in the order of their
registration and with its latest userdata, and nothing else. -/
def CallsRegistered [Winsock] (bufferSize : ℕ) (events : List (SocketEvent H U)) : Prop :=
  let net := (NetSocket.new bufferSize : NetSocket H U).run events
  ∀ beyond datagram, net.called beyond datagram =
    (Registrations.run [] events).map fun p => ⟨p.1, net.packet beyond datagram, some p.2⟩

/-- Of an empty datagram nothing is received, and nobody is called. -/
theorem empty_datagram_unheard :
    Registrations.WellFormed ([] : Registrations ℕ ℕ) [.add 0 7] ∧
      ¬CallsRegistered 512 [SocketEvent.add 0 7] := by
  constructor
  · exact ⟨List.not_mem_nil, trivial⟩
  · intro h
    have hcalls := h (fun _ => none) []
    rw [called_eq] at hcalls
    exact absurd (congrArg List.length hcalls) (by decide)

/-- A datagram of which anything is received calls every registered handler once, in the order of
their registration and with its latest userdata; any other calls nobody. Removing a function that
is not registered changes nothing. -/
theorem datagram_calls_registered [Winsock] (bufferSize : ℕ) {events : List (SocketEvent H U)}
    (hevents : Registrations.WellFormed [] events) :
    let net := (NetSocket.new bufferSize : NetSocket H U).run events
    let registered := Registrations.run [] events
    (∀ beyond datagram, net.called beyond datagram =
      if net.recvfrom datagram > 0 then
        registered.map fun p => ⟨p.1, net.packet beyond datagram, some p.2⟩
      else []) ∧
      ∀ handler ∉ registered.map Prod.fst, net.removeHandlerOf handler = net := by
  have h := (registers_new (H := H) (U := U) bufferSize).run hevents
  constructor
  · exact h.called
  · intro handler hnot
    exact removeHandlerOf_eq_self (h.handlers ▸ hnot)

theorem datagram_calls_registered_example :
    let net := (NetSocket.new 512 : NetSocket ℕ ℕ).run [.add 1 10, .add 2 20, .remove 1, .add 1 11]
    (∀ beyond datagram, net.called beyond datagram =
      if net.recvfrom datagram > 0 then
        [⟨2, net.packet beyond datagram, some 20⟩, ⟨1, net.packet beyond datagram, some 11⟩]
      else []) ∧
      ∀ handler ∉ [2, 1], net.removeHandlerOf handler = net :=
  datagram_calls_registered 512 ⟨by decide, by decide, by decide, trivial⟩

end H1Z1Server
