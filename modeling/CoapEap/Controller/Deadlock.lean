import CoapEap.Controller.Locks
import CoapEap.Library.LockOrder

/-!
The executions of the controller's threads as the lock operations of their steps,
one after the other, each step in whatever state the controller is in by then. The
mutex of a session is taken first, those of `lalarm.c` and of the lists last, so that
the threads never wait for each other in a circle.
-/

namespace CoapEap.Mainserver

open Cantcoap EapServer Lalarm Radius Library.Runs Library.Locking Library.LockOrder

/-- The mutexes that are taken inside one have a higher rank than it. -/
def Mutex.rank : Mutex → Nat
  | .session _ => 0
  | .mutexRadius => 1
  | .radmutex => 2
  | .listSessions => 3
  | .listTasks => 3
  | .alarms => 3
  | .radmutexList => 3

def getTaskLocks : List (LockOp Mutex) := [.lock .listTasks, .unlock .listTasks]

/-- `get_next_alarm_coap_eap`, with an early return for the empty list and one for
each outcome of the comparison. -/
def getNextAlarmCoapEapLocks (s : Controller) (time : Rat) : List (LockOp Mutex) :=
  .lock .alarms ::
    match s.alarms with
    | [] => [.unlock .alarms]
    | first :: _ => if first.tmp < time then [.unlock .alarms] else [.unlock .alarms]

/-- The lock operations of a step of the alarm thread. -/
def alarmThreadLocks (s : Controller) : List (LockOp Mutex) :=
  match s.alarmThread with
  | .sweeping time => getNextAlarmCoapEapLocks s time
  | .idWritten _ _ => addTaskLocks
  | _ => []

def Event.ofWorker (i : Nat) : Event → Bool
  | .lookup j _ => i = j
  | .handle j _ => i = j
  | _ => false

def Event.ofNetworkThread : Event → Bool
  | .recvCoap _ _ _ => true
  | .lockAcknowledgment => true
  | .recvRadius _ => true
  | _ => false

/-- The way of a worker from one place on until its handler returns. Other threads
move between its steps, so nothing ties the states of two steps to each other. -/
inductive WorkerExecution (digests : Digests) : Worker → List (LockOp Mutex) → Prop
  | returns {s t : Controller} {e : Event} {i : Nat} {worker : Worker}
      (moves : e.ofWorker i = true) (taken : step digests s e = some t)
      (running : t.halted = none) (kept : losesPost digests s e = false)
      (working : s.workers[i]? = some worker) (returned : t.workers = s.workers.eraseIdx i) :
      WorkerExecution digests worker (workerLocks digests s e)
  | goesOn {s t : Controller} {e : Event} {i : Nat} {worker worker' : Worker}
      {ops : List (LockOp Mutex)} (moves : e.ofWorker i = true)
      (taken : step digests s e = some t) (running : t.halted = none)
      (working : s.workers[i]? = some worker) (stands : t.workers = s.workers.set i worker')
      (onward : WorkerExecution digests worker' ops) :
      WorkerExecution digests worker (workerLocks digests s e ++ ops)

/-- The way of the network thread through its body for one datagram. -/
inductive NetworkExecution (digests : Digests) : List (LockOp Mutex) → Prop
  | returns {s t : Controller} {e : Event} (moves : e.ofNetworkThread = true)
      (taken : step digests s e = some t) : NetworkExecution digests (networkLocks s e)
  | goesOn {s t : Controller} {e : Event} {ops : List (LockOp Mutex)}
      (moves : e.ofNetworkThread = true) (taken : step digests s e = some t)
      (onward : NetworkExecution digests ops) :
      NetworkExecution digests (networkLocks s e ++ ops)

/-- What a thread of the controller does between two of its waits: a worker takes a
task and runs its handler without losing a POST, the network thread works on a
datagram, the alarm thread moves on in its sweep. -/
inductive Execution (digests : Digests) : List (LockOp Mutex) → Prop
  | worker {task : Task} {ops : List (LockOp Mutex)}
      (runs : WorkerExecution digests (.took task) ops) : Execution digests (getTaskLocks ++ ops)
  | network {ops : List (LockOp Mutex)} (runs : NetworkExecution digests ops) :
      Execution digests ops
  | alarm (s : Controller) : Execution digests (alarmThreadLocks s)

variable {digests : Digests} {s t : Controller} {e : Event} {i : Nat} {p : Ptr} {call : Call}
variable {worker : Worker} {ops first second : List (LockOp Mutex)} {m : Mutex}

structure Inner (ops : List (LockOp Mutex)) : Prop where
  ordered : Ordered Mutex.rank ops
  above : ∀ m ∈ ops.map LockOp.mutex, 0 < m.rank

theorem inner_nil : Inner [] := ⟨ordered_nil, by simp⟩

theorem Inner.append (hfirst : Inner first) (hsecond : Inner second) :
    Inner (first ++ second) := by
  refine ⟨hfirst.ordered.append hsecond.ordered, ?_⟩
  rw [List.map_append, List.forall_mem_append]
  exact ⟨hfirst.above, hsecond.above⟩

theorem Inner.inside (h : Inner ops) (hm : ∀ m' ∈ ops.map LockOp.mutex, m.rank < m'.rank)
    (hsession : 0 < m.rank) : Inner (.lock m :: ops ++ [.unlock m]) := by
  refine ⟨h.ordered.inside hm, ?_⟩
  intro m' hm'
  simp only [List.cons_append, List.map_cons, List.map_append, List.map_nil, List.mem_cons,
    List.mem_append, LockOp.mutex, List.not_mem_nil, or_false] at hm'
  rcases hm' with rfl | hinside | rfl
  · exact hsession
  · exact h.above m' hinside
  · exact hsession

theorem inner_pair (hsession : 0 < m.rank) : Inner [.lock m, .unlock m] :=
  inner_nil.inside (by simp) hsession

theorem inner_getCoapEapSession : Inner getCoapEapSessionLocks := inner_pair (by decide)

theorem inner_addCoapEapSession : Inner addCoapEapSessionLocks := inner_pair (by decide)

theorem inner_removeCoapEapSession (s : Controller) (id : UInt32) :
    Inner (removeCoapEapSessionLocks s id) := by
  unfold removeCoapEapSessionLocks
  split
  · exact inner_pair (by decide)
  · exact inner_pair (by decide)

theorem inner_addTask : Inner addTaskLocks := inner_pair (by decide)

theorem inner_getAlarmCoapEapSession (s : Controller) (id : UInt32) :
    Inner (getAlarmCoapEapSessionLocks s id) := by
  unfold getAlarmCoapEapSessionLocks
  split
  · exact inner_pair (by decide)
  · exact inner_pair (by decide)

theorem inner_addAlarmCoapEap : Inner addAlarmCoapEapLocks := inner_pair (by decide)

theorem inner_searchEapCtxRadClient : Inner searchEapCtxRadClientLocks := inner_pair (by decide)

theorem inner_eapAuthInit : Inner eapAuthInitLocks := inner_pair (by decide)

theorem inner_eapAuthStep : Inner eapAuthStepLocks := inner_pair (by decide)

/-- `radmutex_list` is taken under `radmutex`. -/
theorem inner_eapAuthReceiveRadius (digests : Digests) (msg : RadiusMsg) (req : AccessRequest) :
    Inner (eapAuthReceiveRadiusLocks digests msg req) := by
  have hways : eapAuthReceiveRadiusLocks digests msg req =
      .lock .radmutex :: searchEapCtxRadClientLocks ++ [.unlock .radmutex] := by
    simp [eapAuthReceiveRadiusLocks]
  rw [hways]
  apply inner_searchEapCtxRadClient.inside
  · simp [searchEapCtxRadClientLocks, LockOp.mutex, Mutex.rank]
  · decide

/-- `radmutex` is taken under `mutex_radius`. -/
theorem inner_radiusClientReceive (digests : Digests) (s : Controller) (msg : RadiusMsg) :
    Inner (radiusClientReceiveLocks digests s msg) := by
  unfold radiusClientReceiveLocks
  cases matching s.radius msg.identifier with
  | none => exact inner_pair (by decide)
  | some entry =>
    have hinside := (inner_eapAuthReceiveRadius digests msg entry.msg).inside (m := .mutexRadius)
      (by simp [eapAuthReceiveRadiusLocks, searchEapCtxRadClientLocks, LockOp.mutex, Mutex.rank])
      (by decide)
    simpa using hinside

/-- A handler takes the mutex of its session first, and may leave with it. -/
theorem Inner.ascends_under (h : Inner ops) (p : Ptr) :
    Ascends Mutex.rank (.lock (.session p) :: ops) [] := by
  refine ⟨by simp, ?_⟩
  exact (h.ordered.under (m := Mutex.session p) h.above (by simp)).2

theorem Inner.ascends_handler (h : Inner ops) (p : Ptr) :
    Ascends Mutex.rank (.lock (.session p) :: ops ++ [.unlock (.session p)]) [] :=
  (h.ordered.inside (m := Mutex.session p) h.above).ascends [] (by simp)

theorem Inner.ascends (h : Inner ops) : Ascends Mutex.rank ops [] :=
  h.ordered.ascends [] (by simp)

theorem ascends_processCoapMsg (s : Controller) (p : Ptr) :
    Ascends Mutex.rank (processCoapMsgLocks s p) [] := by
  apply Inner.ascends_handler
  exact (inner_eapAuthStep.append (inner_getAlarmCoapEapSession ..)).append inner_addAlarmCoapEap

theorem ascends_processAcknowledgment (s : Controller) (p : Ptr) :
    Ascends Mutex.rank (processAcknowledgmentLocks s p) [] := by
  apply Inner.ascends_handler
  split
  · exact inner_eapAuthStep
  · have hcancels := (inner_getAlarmCoapEapSession s (s.sessionId p)).append
      (inner_getAlarmCoapEapSession (cancelPostAlarm s (s.sessionId p)) (s.sessionId p))
    exact (hcancels.append (inner_removeCoapEapSession ..)).append (inner_removeCoapEapSession ..)
  · exact inner_nil

theorem ascends_processReceiveRadiusMsg (digests : Digests) (s : Controller) (msg : RadiusMsg)
    (p : Ptr) (call : Call) :
    Ascends Mutex.rank (processReceiveRadiusMsgLocks digests s msg p call) [] := by
  have hreceives := inner_radiusClientReceive digests s msg
  unfold processReceiveRadiusMsgLocks
  split
  · rw [List.append_nil]
    exact hreceives.ascends_under p
  · rename_i u hu
    simp only
    split
    · split
      · exact (hreceives.append (inner_getAlarmCoapEapSession ..)).ascends_under p
      · split
        · have hall := (hreceives.append (inner_getAlarmCoapEapSession u
            (u.heap p).sessionId)).append inner_addAlarmCoapEap
          simpa using hall.ascends_handler p
        · rw [List.append_nil]
          exact hreceives.ascends_under p
    · exact hreceives.ascends_handler p

theorem ascends_identityHandOver (p : Ptr) :
    Ascends Mutex.rank (identityHandOverLocks p) [.session p] := by
  have hnone : ∀ m ∈ eapAuthStepLocks.map LockOp.mutex, ∀ m' ∈ ([] : List Mutex),
      m'.rank < m.rank := by simp
  obtain ⟨hperforms, hascends⟩ := inner_eapAuthStep.ordered.under (m := Mutex.session p)
    inner_eapAuthStep.above hnone
  exact hascends.append hperforms trivial

theorem ascends_processRetrCoapEap (s : Controller) (kind : Nat) (p : Ptr) :
    Ascends Mutex.rank (processRetrCoapEapLocks s kind p) [] := by
  apply Inner.ascends_handler
  split
  · apply (inner_getAlarmCoapEapSession ..).append
    split
    · split
      · exact (inner_getAlarmCoapEapSession ..).append inner_addAlarmCoapEap
      · exact inner_nil
    · exact (inner_removeCoapEapSession ..).append (inner_removeCoapEapSession ..)
  · exact inner_nil

theorem ascends_lookup (worker : Worker) : Ascends Mutex.rank (lookupLocks worker) [] := by
  unfold lookupLocks
  split
  · exact inner_getCoapEapSession.ascends
  · exact inner_getCoapEapSession.ascends
  · exact inner_searchEapCtxRadClient.ascends
  · exact inner_nil.ascends

/-- A step of a worker takes its mutexes above what its place holds. -/
theorem ascends_workerLocks (hmoves : e.ofWorker i = true) (hworker : s.workers[i]? = some worker)
    (hstep : step digests s e = some t) :
    Ascends Mutex.rank (workerLocks digests s e) worker.holds := by
  cases e with
  | lookup j stack =>
    obtain rfl : i = j := by simpa [Event.ofWorker] using hmoves
    have hlocks : workerLocks digests s (.lookup i stack) = lookupLocks worker := by
      simp [workerLocks, hworker]
    have hnone : worker.holds = [] := by
      cases worker with
      | radiusIdentity p =>
        simp [step, hworker, lookupStep] at hstep
      | _ => rfl
    rw [hlocks, hnone]
    exact ascends_lookup worker
  | handle j call =>
    obtain rfl : i = j := by simpa [Event.ofWorker] using hmoves
    have hlocks : workerLocks digests s (.handle i call) = handleLocks digests s call worker := by
      simp [workerLocks, hworker]
    rw [hlocks]
    cases worker with
    | coapMsg task p => exact ascends_processCoapMsg s p
    | acknowledgment task post p => exact ascends_processAcknowledgment s p
    | receiveRadiusMsg msg p => exact ascends_processReceiveRadiusMsg digests s msg p call
    | radiusIdentity p => exact ascends_identityHandOver p
    | retrCoapEap origin id p => exact ascends_processRetrCoapEap s id p
    | took task => trivial
    | retrId origin id => trivial
  | _ => simp [Event.ofWorker] at hmoves

theorem works_ofWorker (hmoves : e.ofWorker i = true) (hstep : step digests s e = some t)
    (hrunning : t.halted = none) : Works digests s t e i := by
  cases e with
  | lookup j stack =>
    obtain rfl : i = j := by simpa [Event.ofWorker] using hmoves
    exact works_lookup hstep hrunning
  | handle j call =>
    obtain rfl : i = j := by simpa [Event.ofWorker] using hmoves
    exact works_handle hstep hrunning
  | _ => simp [Event.ofWorker] at hmoves

theorem getElem?_length_eraseIdx {α : Type} {l : List α} {i : Nat} {a : α}
    (h : l[i]? = some a) : (l.eraseIdx i).length < l.length := by
  obtain ⟨hi, -⟩ := List.getElem?_eq_some_iff.mp h
  rw [List.length_eraseIdx_of_lt hi]
  omega

/-- An execution from one place on starts with what the place holds, takes its
mutexes in order and returns with none. -/
theorem orderly_worker (h : WorkerExecution digests worker ops) :
    Thread.Orderly Mutex.rank ⟨worker.holds, ops⟩ := by
  induction h with
  | @returns s t e i worker hmoves htaken hrunning hkept hworking hreturned =>
    have hshort := getElem?_length_eraseIdx hworking
    refine ⟨?_, ascends_workerLocks hmoves hworking htaken⟩
    cases works_ofWorker hmoves htaken hrunning with
    | returns worker' held hworker' _ hperforms hreleased =>
      obtain rfl : worker = worker' := by simpa [hworking] using hworker'
      rw [hperforms, hreleased.mpr hkept]
    | goesOn _ _ _ hworkers =>
      rw [← hreturned, hworkers, List.length_set] at hshort
      exact absurd hshort (Nat.lt_irrefl _)
  | @goesOn s t e i worker worker' ops hmoves htaken hrunning hworking hstands _ ih =>
    have hascends := ascends_workerLocks hmoves hworking htaken
    have hperforms : performs (workerLocks digests s e) worker.holds = some worker'.holds := by
      cases works_ofWorker hmoves htaken hrunning with
      | returns _ _ _ hworkers =>
        have hshort := getElem?_length_eraseIdx hworking
        rw [← hworkers, hstands, List.length_set] at hshort
        exact absurd hshort (Nat.lt_irrefl _)
      | goesOn worker₁ worker₂ hworker₁ hworkers hperforms =>
        obtain rfl : worker = worker₁ := by simpa [hworking] using hworker₁
        have hi := (List.getElem?_eq_some_iff.mp hworking).1
        have hsame : (s.workers.set i worker')[i]? = (s.workers.set i worker₂)[i]? := by
          rw [← hstands, hworkers]
        obtain rfl : worker' = worker₂ := by
          simpa [List.getElem?_set_self hi] using hsame
        exact hperforms
    refine ⟨?_, hascends.append hperforms ih.ascends⟩
    rw [performs_append, hperforms]
    exact ih.finishes

theorem ascends_networkLocks (s : Controller) (e : Event) :
    Ascends Mutex.rank (networkLocks s e) [] := by
  cases e with
  | recvCoap datagram source arrival =>
    simp only [networkLocks, recvCoapLocks]
    split
    · trivial
    · split
      · have hadds := inner_addCoapEapSession
        have hnew := hadds.ordered.inside (m := Mutex.session s.nextPtr) hadds.above
        have hall := (inner_eapAuthInit.ordered.append hnew).append inner_addTask.ordered
        exact hall.ascends [] (by simp)
      · exact inner_getCoapEapSession.ascends
  | lockAcknowledgment =>
    simp only [networkLocks]
    cases s.networkThread with
    | waiting => trivial
    | acknowledgment task p =>
      simp only [checkAcknowledgmentLocks]
      split
      · exact inner_nil.ascends_handler p
      · split
        · exact inner_nil.ascends_handler p
        · exact inner_addTask.ascends_handler p
  | recvRadius datagram =>
    simp only [networkLocks, recvRadiusLocks]
    split
    · trivial
    · exact inner_addTask.ascends
  | _ => trivial

theorem orderly_network (h : NetworkExecution digests ops) :
    Thread.Orderly Mutex.rank ⟨[], ops⟩ := by
  induction h with
  | returns => exact ⟨networkLocks_performs .., ascends_networkLocks ..⟩
  | @goesOn s t e ops _ _ _ ih =>
    refine ⟨?_, (ascends_networkLocks s e).append (networkLocks_performs s e) ih.ascends⟩
    rw [performs_append, networkLocks_performs]
    exact ih.finishes

theorem inner_alarmThread (s : Controller) : Inner (alarmThreadLocks s) := by
  unfold alarmThreadLocks
  split
  · unfold getNextAlarmCoapEapLocks
    split
    · exact inner_pair (by decide)
    · split
      · exact inner_pair (by decide)
      · exact inner_pair (by decide)
  · exact inner_addTask
  · exact inner_nil

theorem orderly_execution (h : Execution digests ops) : Thread.Orderly Mutex.rank ⟨[], ops⟩ := by
  cases h with
  | worker hruns =>
    have hgets : Inner getTaskLocks := inner_pair (by decide)
    have hhandler := orderly_worker hruns
    have hperforms := hgets.ordered.restores [] (by simp)
    refine ⟨?_, hgets.ascends.append hperforms hhandler.ascends⟩
    rw [performs_append, hperforms]
    exact hhandler.finishes
  | network hruns => exact orderly_network hruns
  | alarm s =>
    have hsweep := inner_alarmThread s
    exact ⟨hsweep.ordered.restores [] (by simp), hsweep.ascends⟩

/-- Any number of threads enter executions and perform their lock operations one by
one, in any interleaving. While one of them is inside an execution, one of them can
go on; and when nothing new is entered, every schedule that cannot go on has brought
all executions to their end with every mutex given back. -/
theorem controller_never_deadlocks (digests : Digests) (n : Nat) (threads : List (Thread Mutex))
    (h : ReachableUnder act (EntersOnly (Execution digests)) (List.replicate n Thread.idle)
      threads) :
    ((∃ thread ∈ threads, thread.rest ≠ []) → ∃ i, (advance threads i).isSome) ∧
      ∀ schedule after, run advance threads schedule = some after →
        schedule.length ≤ remaining threads ∧
          ((∀ i, advance after i = none) → ∀ thread ∈ after, thread = Thread.idle) := by
  have hall := orderly_reachable (fun _ => orderly_execution) h
  exact ⟨exists_advance hall, fun _ _ => schedule_finishes hall⟩

/-- A new session is to be queued, and a worker takes a RADIUS answer for which there
is no session. -/
def joinsBesideAnswer : List (Turn Mutex) :=
  [.enter 0 (networkLocks initialController (.recvCoap [0x40, 0x02, 0x00, 0x09] ⟨[1], 5683⟩ {})),
    .enter 1 (getTaskLocks ++ searchEapCtxRadClientLocks), .go 0, .go 0, .go 0, .go 0, .go 0,
    .go 0, .go 1]

/-- While the worker has the task list, the network thread waits for it. -/
theorem task_list_is_given_back : ∃ threads,
    ReachableUnder act (EntersOnly (Execution challengeDigests)) (List.replicate 2 Thread.idle)
        threads ∧ advance threads 0 = none ∧ ∃ i, (advance threads i).isSome := by
  have hjoins : Execution challengeDigests (networkLocks initialController
      (.recvCoap [0x40, 0x02, 0x00, 0x09] ⟨[1], 5683⟩ {})) :=
    .network (.returns rfl rfl)
  have hanswers : Execution challengeDigests (getTaskLocks ++ searchEapCtxRadClientLocks) :=
    .worker (.returns (s := { initialController with
      workers := [.took (.processReceiveRadiusMsg ⟨2, 0, [], []⟩)] }) (e := .lookup 0 [])
      rfl rfl rfl rfl rfl rfl)
  have hrun : (run act (List.replicate 2 Thread.idle) joinsBesideAnswer).any (fun threads =>
      advance threads 0 == none && threads.any (fun thread => thread.rest != [])) = true := by
    decide +kernel
  obtain ⟨threads, hthreads, hcheck⟩ := exists_of_run hrun
  simp only [Bool.and_eq_true, beq_iff_eq, List.any_eq_true, bne_iff_ne] at hcheck
  have hentered : ∀ turn ∈ joinsBesideAnswer, ∀ i ops, turn = .enter i ops →
      Execution challengeDigests ops := by
    rintro turn hturn i ops rfl
    simp only [joinsBesideAnswer, List.mem_cons, Turn.enter.injEq, reduceCtorEq, List.not_mem_nil,
      or_false] at hturn
    rcases hturn with ⟨-, rfl⟩ | ⟨-, rfl⟩
    · exact hjoins
    · exact hanswers
  have hreach := reachable_of_turns hthreads hentered
  exact ⟨threads, hreach, hcheck.1,
    (controller_never_deadlocks challengeDigests 2 threads hreach).1 hcheck.2⟩

end CoapEap.Mainserver
