import H1Z1Server.LoginServer.Answering

/-! Runs of the login server: what becomes of the replies to a sequence of login requests, for every
sequence of results that `sendto` may have. -/
namespace H1Z1Server
open MachineInt MemoryBlock ByteOrder ByteStreamBuffer LoginServer

variable {C : Type} {rt : LuaRuntime}

/-- A datagram that the listener receives, and what `sendto` will return for the reply to it. -/
structure Delivery (C : Type) where
  client : C
  datagram : List UInt8
  beyond : ℤ → Option UInt8
  result : Int32

/-- The rounds of the listener, one for each datagram. -/
def LoginServer.serve [Winsock] (rt : LuaRuntime) (deliveries : List (Delivery C)) : DispatchM C Unit :=
  deliveries.forM fun d => dispatch rt (fun _ _ => d.result) d.client d.beyond d.datagram

def socketError : Int32 := -1

/-- The replies that `sendto` accepted. -/
def accepted (deliveries : List (Delivery C)) : ℕ := deliveries.countP (·.result ≠ socketError)

def ServerEvent.isFailure : ServerEvent C → Bool
  | .print line => line == "[LoginServer]: Failed to send client login reply."
  | _ => false

/-- The messages about replies that could not be sent. -/
def failures (events : List (ServerEvent C)) : ℕ := events.countP ServerEvent.isFailure

/-- Every request is counted as a reply that was accepted or as a failure that was reported. -/
def Accounted [Winsock] (rt : LuaRuntime) (deliveries : List (Delivery C)) : Prop :=
  ∃ events, (serve rt deliveries).run [] = .ok () events ∧
    (sends events).length = deliveries.length ∧
    deliveries.length = accepted deliveries + failures events

theorem permission_not_failure (sessionId : String) :
    "[LoginServer]: Client (" ++ sessionId ++ ") requested permission to login." ≠
      "[LoginServer]: Failed to send client login reply." := by
  intro heq
  have hstart := congrArg (fun s => s.toList.take 16) heq
  simp only [String.toList_append, List.append_assoc] at hstart
  rw [List.take_append_of_le_length (by decide)] at hstart
  exact absurd hstart (by decide)

/-- A failure is reported when `SendPacket` says that the reply was not sent. -/
theorem failures_loginEvents (sessionId : String) (client : C) (reply : List UInt8) (sent : Bool) :
    failures (loginEvents sessionId client reply sent) = if sent then 0 else 1 := by
  have hpermission := permission_not_failure sessionId
  cases sent <;> simp [failures, loginEvents, ServerEvent.isFailure, hpermission]

theorem failures_append (events events' : List (ServerEvent C)) :
    failures (events ++ events') = failures events + failures events' :=
  List.countP_append

/-- A run answers every login request once, and reports a failure where `sendto` returns 0. -/
theorem serve_run [Winsock] (hrt : rt.Ordinary) (deliveries : List (Delivery C))
    (h : ∀ d ∈ deliveries, LoginRequest d.datagram) (events : List (ServerEvent C)) :
    ∃ events', (serve rt deliveries).run events = .ok () (events ++ events') ∧
      (sends events').length = deliveries.length ∧
      failures events' = deliveries.countP (·.result = 0) := by
  induction deliveries generalizing events with
  | nil => exact ⟨[], by simp [serve], rfl, rfl⟩
  | cons d deliveries ih =>
    obtain ⟨hd, hrest⟩ := List.forall_mem_cons.mp h
    obtain ⟨i, hi⟩ := Option.isSome_iff_exists.mp (hrt.toInt (sessionIdOf d.datagram))
    obtain ⟨sessionId, hrun⟩ := dispatch_login_events hrt hd.numbers hd.fits hd.opcode (.inr hd.terminated)
      hi (fun _ _ => d.result) d.client d.beyond events
    generalize replyBytes (encodeNat true 4 (dword i).toNat) = reply at hrun
    obtain ⟨events', hserve, hsends, hfailures⟩ :=
      ih hrest (events ++ loginEvents sessionId d.client reply (d.result != 0))
    refine ⟨loginEvents sessionId d.client reply (d.result != 0) ++ events', ?_, ?_, ?_⟩
    · unfold serve at hserve ⊢
      rw [List.forM_eq_forM, List.forM_cons, run_bind_ok hrun, ← List.forM_eq_forM, hserve,
        List.append_assoc]
    · rw [sends_append, List.length_append, hsends]
      simp [Nat.add_comm]
    · rw [failures_append, failures_loginEvents, hfailures, List.countP_cons]
      by_cases hzero : d.result = 0 <;> simp [hzero, Nat.add_comm]

/-- The requests are accounted for exactly when `sendto` fails as often as it sends nothing: the error,
which is not zero, is taken for a success. -/
theorem requests_accounted_iff [Winsock] (hrt : rt.Ordinary) (deliveries : List (Delivery C))
    (h : ∀ d ∈ deliveries, LoginRequest d.datagram) :
    Accounted rt deliveries ↔
      deliveries.countP (·.result = socketError) = deliveries.countP (·.result = 0) := by
  obtain ⟨events, hrun, hsends, hfailures⟩ := serve_run hrt deliveries h []
  have hsplit : deliveries.length =
      deliveries.countP (·.result = socketError) + accepted deliveries := by
    rw [accepted, List.length_eq_countP_add_countP (fun d : Delivery C => decide (d.result = socketError))]
    simp
  constructor
  · rintro ⟨events', hrun', -, hcount⟩
    rw [hrun] at hrun'
    obtain ⟨-, rfl⟩ := (EStateM.Result.ok.injEq _ _ _ _).mp hrun'
    simp only [List.nil_append] at hcount
    omega
  · intro heq
    exact ⟨_, hrun, by simpa using hsends, by simp only [List.nil_append]; omega⟩

/-- A login request of session one, whose reply has this result. -/
def loginDelivery (result : Int32) : Delivery ℕ :=
  ⟨7, requestWithSession [0, 0, 0, 1], fun _ => none, result⟩

theorem loginDelivery_request (result : Int32) : LoginRequest (loginDelivery result).datagram := by
  have hrequest : LoginRequest (requestWithSession [0, 0, 0, 1]) :=
    ⟨by decide, by decide, by decide, by decide⟩
  exact hrequest

theorem requests_accounted_example : Accounted (platform 0) [loginDelivery 21] := by
  have hone : ∀ d ∈ [loginDelivery 21], LoginRequest d.datagram :=
    List.forall_mem_singleton.mpr (loginDelivery_request 21)
  exact (requests_accounted_iff (platform_ordinary 0) [loginDelivery 21] hone).mpr (by decide)

/-- A reply that `sendto` fails to send is neither accepted nor reported. -/
theorem lost_reply_unreported : ¬Accounted (platform 0) [loginDelivery socketError] := by
  rintro ⟨events, hrun, -, hcount⟩
  obtain ⟨events', hrun', -, hfailures⟩ := serve_run (platform_ordinary 0) [loginDelivery socketError]
    (List.forall_mem_singleton.mpr (loginDelivery_request socketError)) []
  rw [hrun] at hrun'
  obtain ⟨-, rfl⟩ := (EStateM.Result.ok.injEq _ _ _ _).mp hrun'
  rw [hfailures] at hcount
  exact absurd hcount (by decide)

end H1Z1Server
