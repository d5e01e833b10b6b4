import H1Z1Server.Library.ClampedCounter
import H1Z1Server.Sockets.ListenThread

/-! `StopListener` and `StartListener` on the thread that `ListenAsync` has created: what is left of them in
the suspend count of the thread. -/
namespace H1Z1Server
open ClampedCounter

namespace ThreadCalls

/-- What a call does to the suspend count of a thread. -/
def suspendEffect (h : Handle) : ThreadCall → Effect
  | .suspendThread h' => if h' = h then .raise else .keep
  | .resumeThread h' => if h' = h then .lower else .keep
  | .createThread _ => .keep
  | .terminateThread _ => .keep

def suspendCount (h : Handle) (calls : ThreadCalls) : ℕ := count (suspendEffect h) calls

/-- A thread that has not been ended, and does not run. -/
def Suspended (h : Handle) (calls : ThreadCalls) : Prop := Alive h calls ∧ 0 < suspendCount h calls

instance (h : Handle) (calls : ThreadCalls) : Decidable (Suspended h calls) :=
  inferInstanceAs (Decidable (_ ∧ _))

end ThreadCalls

namespace ListenerOp

/-- The call that is made about the listener thread. -/
def threadCall (h : Handle) : ListenerOp → ThreadCall
  | listenAsync => .createThread h
  | stopListener => .suspendThread h
  | startListener => .resumeThread h

def effect : ListenerOp → Effect
  | listenAsync => .keep
  | stopListener => .raise
  | startListener => .lower

theorem effect_threadCall (h : Handle) : ThreadCalls.suspendEffect h ∘ threadCall h = effect := by
  funext op
  cases op with
  | listenAsync => rfl
  | stopListener => exact if_pos rfl
  | startListener => exact if_pos rfl

theorem effect_injective : Function.Injective effect := by
  intro op op' heq
  cases op <;> cases op' <;> first | rfl | cases heq

theorem times_effect (op : ListenerOp) (ops : List ListenerOp) : times effect op.effect ops = ops.count op := by
  unfold times List.count
  congr 1
  funext op'
  rw [beq_eq_decide]
  exact decide_eq_decide.mpr effect_injective.eq_iff

end ListenerOp

/-- The thread whose handle the socket holds is suspended. -/
def ListeningSocket.ListenerSuspended (s : ListeningSocket) : Prop := s.calls.Suspended s.listenThread

instance (s : ListeningSocket) : Decidable s.ListenerSuspended :=
  inferInstanceAs (Decidable (s.calls.Suspended s.listenThread))

open ListeningSocket
variable {s : ListeningSocket} {ops : List ListenerOp}

/-- Stopping and starting make one call about the thread that the socket holds. -/
theorem HoldsThread.step_threadCall {k : ℕ} (h : HoldsThread s k) {op : ListenerOp} (hop : op ≠ .listenAsync) :
    (s.step op).calls = op.threadCall (.thread k) :: s.calls := by
  cases op with
  | listenAsync => exact absurd rfl hop
  | stopListener =>
    show s.stopListener.calls = _
    rw [stopListener, if_neg h.isHandle, h.listenThread]
    rfl
  | startListener =>
    show s.startListener.calls = _
    rw [startListener, if_neg h.isHandle, h.listenThread]
    rfl

theorem HoldsThread.run_threadCalls {k : ℕ} (h : HoldsThread s k) (hops : .listenAsync ∉ ops) :
    (s.run ops).calls = (ops.map (ListenerOp.threadCall (.thread k))).reverse ++ s.calls := by
  induction ops generalizing s with
  | nil => rfl
  | cons op ops ih =>
    rw [List.mem_cons, not_or] at hops
    have hop : op ≠ .listenAsync := Ne.symm hops.1
    rw [ListeningSocket.run, ih (h.step hop) hops.2, h.step_threadCall hop, List.map_cons, List.reverse_cons,
      List.append_assoc, List.singleton_append]

/-- The suspend count of the listener thread counts the calls of the socket. -/
theorem suspended_iff_count {bufferSize : ℕ} (hbuffer : bufferSize ≠ 0) (memory : Handle)
    (hops : .listenAsync ∉ ops) :
    ((initialised bufferSize memory).run (.listenAsync :: ops)).ListenerSuspended ↔
      0 < count ListenerOp.effect ops.reverse := by
  have hlistens := holds_listenAsync hbuffer memory
  have hcreated : ∀ call ∈ ((initialised bufferSize memory).listenAsync).calls,
      ThreadCalls.suspendEffect (.thread 0) call = .keep := by
    unfold initialised listenAsync
    rw [if_neg (by simpa using hbuffer)]
    intro call hcall
    obtain rfl := List.mem_singleton.mp hcall
    rfl
  have hholds := hlistens.run ops
  rw [List.count_eq_zero.mpr hops] at hholds
  have hcount : ThreadCalls.suspendCount (.thread 0) ((initialised bufferSize memory).listenAsync.run ops).calls =
      count ListenerOp.effect ops.reverse := by
    rw [ThreadCalls.suspendCount, hlistens.run_threadCalls hops, count_append_of_keep hcreated, ← List.map_reverse, count_map,
      ListenerOp.effect_threadCall]
  show ((initialised bufferSize memory).listenAsync.run ops).ListenerSuspended ↔ _
  rw [ListenerSuspended, hholds.listenThread, ThreadCalls.Suspended, hcount]
  exact and_iff_right ((hholds.alive _).mpr ⟨0, le_rfl, rfl⟩)

/-- Where no two calls in a row stop the thread, the counter is a switch. -/
theorem count_stop_start (hops : .listenAsync ∉ ops)
    (hchain : ops.IsChain fun a b => a = .stopListener → b ≠ .stopListener) :
    count ListenerOp.effect ops.reverse = if ops.getLast? = some .stopListener then 1 else 0 := by
  have hkeep : ∀ op ∈ ops.reverse, ListenerOp.effect op ≠ .keep := by
    intro op hop
    cases op with
    | listenAsync => exact absurd (List.mem_reverse.mp hop) hops
    | stopListener => exact nofun
    | startListener => exact nofun
  have halternate : ops.reverse.IsChain fun a b =>
      ListenerOp.effect a = .raise → ListenerOp.effect b = .lower := by
    rw [List.isChain_reverse]
    apply hchain.imp_of_mem_imp
    intro a b ha _ hstops hraise
    cases a with
    | listenAsync => exact absurd ha hops
    | stopListener =>
      cases b with
      | listenAsync => cases hraise
      | stopListener => exact absurd rfl (hstops rfl)
      | startListener => cases hraise
    | startListener => rfl
  have hlast : ops.getLast?.map ListenerOp.effect = some .raise ↔ ops.getLast? = some .stopListener := by
    cases ops.getLast? with
    | none => simp
    | some op =>
      cases op with
      | listenAsync => simp [ListenerOp.effect]
      | stopListener => simp [ListenerOp.effect]
      | startListener => simp [ListenerOp.effect]
  rw [count_of_alternating hkeep halternate, List.head?_reverse]
  simp only [hlast]

/-- The listener thread is suspended exactly when in some ending of the calls, more of them stop it than
start it. So it is after a call that stops it; and where no two of these follow each other, not after one
that starts it. -/
theorem listener_suspended_iff {bufferSize : ℕ} (hbuffer : bufferSize ≠ 0) (memory : Handle)
    (hops : .listenAsync ∉ ops) :
    let s := (initialised bufferSize memory).run (.listenAsync :: ops)
    (s.ListenerSuspended ↔
      ∃ ending, ending <:+ ops ∧ ending.count .startListener < ending.count .stopListener) ∧
    (ops.getLast? = some .stopListener → s.ListenerSuspended) ∧
    ((ops.IsChain fun a b => a = .stopListener → b ≠ .stopListener) →
      (s.ListenerSuspended ↔ ops.getLast? = some .stopListener)) := by
  intro s
  have hcount : s.ListenerSuspended ↔ 0 < count ListenerOp.effect ops.reverse :=
    suspended_iff_count hbuffer memory hops
  have hendings : s.ListenerSuspended ↔
      ∃ ending, ending <:+ ops ∧ ending.count .startListener < ending.count .stopListener := by
    rw [hcount, count_reverse_pos_iff]
    simp only [← ListenerOp.times_effect, ListenerOp.effect]
  refine ⟨hendings, ?_, ?_⟩
  · intro hlast
    obtain ⟨front, hfront⟩ := List.getLast?_eq_some_iff.mp hlast
    exact hendings.mpr ⟨[.stopListener], ⟨front, hfront.symm⟩, by decide⟩
  · intro hchain
    rw [hcount, count_stop_start hops hchain]
    split
    case isTrue hlast => simp only [hlast, Nat.one_pos]
    case isFalse hlast => simp only [hlast, lt_irrefl]

theorem listener_suspended_iff_example :
    ((initialised 512 .null).run [.listenAsync, .stopListener, .startListener, .stopListener]).ListenerSuspended :=
  have hops : ListenerOp.listenAsync ∉ [.stopListener, .startListener, .stopListener] := by decide
  (listener_suspended_iff (by decide) .null hops).2.1 rfl

/-- Stopped twice and started once, the listener stays suspended. -/
theorem stopped_twice_stays :
    ¬(((initialised 512 .null).run [.listenAsync, .stopListener, .stopListener, .startListener]).ListenerSuspended ↔
      [ListenerOp.stopListener, .stopListener, .startListener].getLast? = some .stopListener) := by
  decide

end H1Z1Server
