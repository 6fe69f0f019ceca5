import CoapEap.Controller.Frames

/-!
The moves of the controller, each with what it needs and with the state after
it. `step_move` takes a step apart once; every later argument about all runs is
a case analysis over `Move` and never unfolds the step function again.
-/

namespace CoapEap.Mainserver

open Cantcoap EapServer Lalarm Radius

inductive Move (digests : Digests) (s : Controller) : Event → Controller → Prop
  | ignored (e : Event) : Move digests s e s
  | ended (e : Event) (reason : Halt) : Move digests s e { s with halted := some reason }
  | created (datagram : Bytes) (source : Endpoint) (arrival : Arrival)
      (waiting : s.networkThread = .waiting)
      (valid : (validate (datagram.take (maxBufLen - 1))).isSome)
      (type : getType (datagram.take (maxBufLen - 1)) ≠ .acknowledgement) :
      Move digests s (.recvCoap datagram source arrival)
        (newSession s (datagram.take (maxBufLen - 1)) source arrival)
  | named (datagram : Bytes) (source : Endpoint) (arrival : Arrival) (p : Ptr)
      (waiting : s.networkThread = .waiting)
      (valid : (validate (datagram.take (maxBufLen - 1))).isSome)
      (type : getType (datagram.take (maxBufLen - 1)) = .acknowledgement)
      (found : getCoapEapSession s
        (tokenSessionId (datagram.take (maxBufLen - 1)) arrival.stack) = .ok p) :
      Move digests s (.recvCoap datagram source arrival)
        { s with networkThread := .acknowledgment ⟨datagram.take (maxBufLen - 1), source, 0⟩ p }
  | duplicate (task : NetworkTask) (p : Ptr)
      (named : s.networkThread = .acknowledgment task p) (unlocked : (s.heap p).mutex = false) :
      Move digests s .lockAcknowledgment { s with networkThread := .waiting }
  | queued (task : NetworkTask) (p : Ptr) (lastSent : Bytes)
      (named : s.networkThread = .acknowledgment task p) (unlocked : (s.heap p).mutex = false)
      (sent : (s.heap p).lastSentMessage = some lastSent)
      (answers : getMessageId task.buf = getMessageId lastSent) :
      Move digests s .lockAcknowledgment
        { (addTask (s.setSession p { s.heap p with lastReceivedMessage := some task.buf })
            (.processAcknowledgment task (p, (s.heap p).posts))).record
              [.ackQueued (p, (s.heap p).posts)] with networkThread := .waiting }
  | arrived (datagram : Bytes) (msg : RadiusMsg) (waiting : s.networkThread = .waiting)
      (parsed : radiusMsgParse (datagram.take maxDataLen) = some msg) :
      Move digests s (.recvRadius datagram) (addTask s (.processReceiveRadiusMsg msg))
  | taken (task : Task) (rest : List Task) (queue : s.tasks = task :: rest) :
      Move digests s .getTask { s with tasks := rest, workers := s.workers ++ [.took task] }
  | foundCoap (i : Nat) (stack : Bytes) (task : NetworkTask) (p : Ptr)
      (worker : s.workers[i]? = some (.took (.processCoapMsg task)))
      (found : getCoapEapSession s task.sessionId = .ok p) :
      Move digests s (.lookup i stack) (setWorker s i (.coapMsg task p))
  | foundAcknowledgment (i : Nat) (stack : Bytes) (task : NetworkTask) (post : Ptr × Nat)
      (p : Ptr) (worker : s.workers[i]? = some (.took (.processAcknowledgment task post)))
      (found : getCoapEapSession s (tokenSessionId task.buf stack) = .ok p) :
      Move digests s (.lookup i stack) (setWorker s i (.acknowledgment task post p))
  | foundContext (i : Nat) (stack : Bytes) (msg : RadiusMsg) (p : Ptr)
      (worker : s.workers[i]? = some (.took (.processReceiveRadiusMsg msg)))
      (found : searchEapCtxRadClient s msg.identifier = some p) :
      Move digests s (.lookup i stack) (setWorker s i (.receiveRadiusMsg msg p))
  | noContext (i : Nat) (stack : Bytes) (msg : RadiusMsg)
      (worker : s.workers[i]? = some (.took (.processReceiveRadiusMsg msg)))
      (absent : searchEapCtxRadClient s msg.identifier = none) :
      Move digests s (.lookup i stack) (endWorker s i)
  | readId (i : Nat) (stack : Bytes) (origin : Alarm)
      (worker : s.workers[i]? = some (.took (.processRetrCoapEap origin))) :
      Move digests s (.lookup i stack) (setWorker s i (.retrId origin s.retransParams.id))
  | readSession (i : Nat) (stack : Bytes) (origin : Alarm) (id : Nat)
      (worker : s.workers[i]? = some (.retrId origin id)) :
      Move digests s (.lookup i stack)
        ((setWorker s i (.retrCoapEap origin id s.retransParams.session)).record
          [.retrRead origin s.retransParams.session id])
  | handledCoap (i : Nat) (call : Call) (task : NetworkTask) (p : Ptr) (t : Controller)
      (worker : s.workers[i]? = some (.coapMsg task p)) (unlocked : (s.heap p).mutex = false)
      (result : processCoapMsg s task p call = .ok t) :
      Move digests s (.handle i call) (endWorker t i)
  | handledAcknowledgment (i : Nat) (call : Call) (task : NetworkTask) (post : Ptr × Nat)
      (p : Ptr) (t : Controller)
      (worker : s.workers[i]? = some (.acknowledgment task post p))
      (unlocked : (s.heap p).mutex = false)
      (result : processAcknowledgment s task post p call = .ok t) :
      Move digests s (.handle i call) (endWorker t i)
  | handledRadius (i : Nat) (call : Call) (msg : RadiusMsg) (p : Ptr) (t : Controller)
      (worker : s.workers[i]? = some (.receiveRadiusMsg msg p))
      (unlocked : (s.heap p).mutex = false)
      (result : processReceiveRadiusMsg digests s msg p call = .ok (t, false)) :
      Move digests s (.handle i call) (endWorker t i)
  | wroteIdentity (i : Nat) (call : Call) (msg : RadiusMsg) (p : Ptr) (t : Controller)
      (worker : s.workers[i]? = some (.receiveRadiusMsg msg p))
      (unlocked : (s.heap p).mutex = false)
      (result : processReceiveRadiusMsg digests s msg p call = .ok (t, true)) :
      Move digests s (.handle i call) (setWorker t i (.radiusIdentity p))
  | handedIdentity (i : Nat) (call : Call) (p : Ptr) (t : Controller)
      (worker : s.workers[i]? = some (.radiusIdentity p))
      (result : identityHandOver s p call = .ok t) :
      Move digests s (.handle i call) (endWorker t i)
  | handledRetr (i : Nat) (call : Call) (origin : Alarm) (id : Nat) (p : Ptr) (t : Controller)
      (worker : s.workers[i]? = some (.retrCoapEap origin id p))
      (unlocked : (s.heap p).mutex = false)
      (result : processRetrCoapEap s id p call = .ok t) :
      Move digests s (.handle i call) (endWorker t i)
  | woke (time : Rat) (sleeping : s.alarmThread = .sleeping) :
      Move digests s (.wake time) { s with alarmThread := .sweeping time }
  | sweptUp (time : Rat) (sweeping : s.alarmThread = .sweeping time) :
      Move digests s .alarmStep { s with alarmThread := .sleeping }
  | popped (time : Rat) (alarm : Alarm) (rest : List Alarm)
      (sweeping : s.alarmThread = .sweeping time) (list : s.alarms = alarm :: rest)
      (due : alarm.tmp < time) :
      Move digests s .alarmStep
        ({ s with alarms := rest, alarmThread := .popped time alarm }.record [.expired alarm])
  | wroteSession (time : Rat) (alarm : Alarm) (stage : s.alarmThread = .popped time alarm) :
      Move digests s .alarmStep { s with
        retransParams := { s.retransParams with session := alarm.session }
        alarmThread := .sessionWritten time alarm }
  | clearedId (time : Rat) (alarm : Alarm) (stage : s.alarmThread = .sessionWritten time alarm) :
      Move digests s .alarmStep { s with
        retransParams := { s.retransParams with id := 0 }
        alarmThread := .idCleared time alarm }
  | wroteId (time : Rat) (alarm : Alarm) (stage : s.alarmThread = .idCleared time alarm)
      (kind : alarm.id = postAlarm) :
      Move digests s .alarmStep { s with
        retransParams := { s.retransParams with id := postAlarm }
        alarmThread := .idWritten time alarm }
  | unknownAlarm (time : Rat) (alarm : Alarm) (stage : s.alarmThread = .idCleared time alarm)
      (kind : alarm.id ≠ postAlarm) :
      Move digests s .alarmStep { s with alarmThread := .sweeping time }
  | queuedRetr (time : Rat) (alarm : Alarm) (stage : s.alarmThread = .idWritten time alarm) :
      Move digests s .alarmStep
        { addTask s (.processRetrCoapEap alarm) with alarmThread := .sweeping time }

/-- The network thread under the mutex of a session, taken apart. -/
theorem checkAcknowledgment_ok {s t : Controller} {task : NetworkTask} {p : Ptr}
    (h : checkAcknowledgment s task p = .ok t) :
    t = s ∨ ∃ lastSent, (s.heap p).lastSentMessage = some lastSent ∧
      getMessageId task.buf = getMessageId lastSent ∧
      t = (addTask (s.setSession p { s.heap p with lastReceivedMessage := some task.buf })
        (.processAcknowledgment task (p, (s.heap p).posts))).record
          [.ackQueued (p, (s.heap p).posts)] := by
  simp only [checkAcknowledgment] at h
  split at h
  · simp at h
  · split at h
    · simp only [Except.ok.injEq] at h
      exact .inl h.symm
    · split at h
      · split at h
        · simp only [Except.ok.injEq] at h
          exact .inl h.symm
        · simp at h
      · rename_i lastSent hsent
        split at h
        · simp only [Except.ok.injEq] at h
          exact .inl h.symm
        · split at h
          · simp only [Except.ok.injEq] at h
            exact .inl h.symm
          · rename_i hanswers
            simp only [Except.ok.injEq] at h
            exact .inr ⟨lastSent, hsent, by simpa using hanswers, h.symm⟩

/-- A result is either the state after it or ends the process. -/
theorem conclude_cases {s t : Controller} {result : Except Halt Controller}
    (h : conclude s result = t) :
    result = .ok t ∨ ∃ reason, t = { s with halted := some reason } := by
  cases result with
  | ok u => exact .inl (by simpa [conclude] using h)
  | error reason => exact .inr ⟨reason, h.symm⟩

theorem except_map_ok {α β : Type} {result : Except Halt α} {f : α → β} {b : β}
    (h : result.map f = .ok b) : ∃ a, result = .ok a ∧ f a = b := by
  cases result with
  | ok a => exact ⟨a, rfl, by simpa [Except.map] using h⟩
  | error reason => simp [Except.map] at h

theorem lookup_move {digests : Digests} {s t : Controller} {i : Nat} {stack : Bytes}
    {worker : Worker} {result : Except Halt Controller} (hworker : s.workers[i]? = some worker)
    (hresult : lookupStep s i worker stack = some result) (hok : result = .ok t) :
    Move digests s (.lookup i stack) t := by
  subst hok
  cases worker with
  | took task =>
    cases task with
    | processCoapMsg task =>
      simp only [lookupStep, Option.some.injEq] at hresult
      split at hresult
      · simp at hresult
      · obtain ⟨p, hfound, rfl⟩ := except_map_ok hresult
        exact .foundCoap i stack task p hworker hfound
    | processAcknowledgment task post =>
      simp only [lookupStep, Option.some.injEq] at hresult
      split at hresult
      · simp at hresult
      · obtain ⟨p, hfound, rfl⟩ := except_map_ok hresult
        exact .foundAcknowledgment i stack task post p hworker hfound
    | processReceiveRadiusMsg msg =>
      simp only [lookupStep, Option.some.injEq, Except.ok.injEq] at hresult
      split at hresult
      · rename_i habsent
        subst hresult
        exact .noContext i stack msg hworker habsent
      · rename_i p hfound
        subst hresult
        exact .foundContext i stack msg p hworker hfound
    | processRetrCoapEap origin =>
      simp only [lookupStep, Option.some.injEq, Except.ok.injEq] at hresult
      subst hresult
      exact .readId i stack origin hworker
  | retrId origin id =>
    simp only [lookupStep, Option.some.injEq, Except.ok.injEq] at hresult
    subst hresult
    exact .readSession i stack origin id hworker
  | coapMsg task p => simp [lookupStep] at hresult
  | acknowledgment task post p => simp [lookupStep] at hresult
  | receiveRadiusMsg msg p => simp [lookupStep] at hresult
  | radiusIdentity p => simp [lookupStep] at hresult
  | retrCoapEap origin id p => simp [lookupStep] at hresult

theorem handle_move {digests : Digests} {s t : Controller} {i : Nat} {call : Call}
    {worker : Worker} {result : Except Halt Controller} (hworker : s.workers[i]? = some worker)
    (hresult : handleStep digests s i worker call = some result) (hok : result = .ok t) :
    Move digests s (.handle i call) t := by
  subst hok
  cases worker with
  | took task => simp [handleStep] at hresult
  | retrId origin id => simp [handleStep] at hresult
  | coapMsg task p =>
    simp only [handleStep, Option.ite_none_left_eq_some, Option.some.injEq] at hresult
    obtain ⟨hunlocked, hresult⟩ := hresult
    obtain ⟨u, hu, rfl⟩ := except_map_ok hresult
    exact .handledCoap i call task p u hworker (by simpa using hunlocked) hu
  | acknowledgment task post p =>
    simp only [handleStep, Option.ite_none_left_eq_some, Option.some.injEq] at hresult
    obtain ⟨hunlocked, hresult⟩ := hresult
    obtain ⟨u, hu, rfl⟩ := except_map_ok hresult
    exact .handledAcknowledgment i call task post p u hworker (by simpa using hunlocked) hu
  | receiveRadiusMsg msg p =>
    simp only [handleStep, Option.ite_none_left_eq_some, Option.some.injEq] at hresult
    obtain ⟨hunlocked, hresult⟩ := hresult
    obtain ⟨⟨u, identity⟩, hu, rfl⟩ := except_map_ok hresult
    cases identity with
    | true => exact .wroteIdentity i call msg p u hworker (by simpa using hunlocked) hu
    | false => exact .handledRadius i call msg p u hworker (by simpa using hunlocked) hu
  | radiusIdentity p =>
    simp only [handleStep, Option.some.injEq] at hresult
    obtain ⟨u, hu, rfl⟩ := except_map_ok hresult
    exact .handedIdentity i call p u hworker hu
  | retrCoapEap origin id p =>
    simp only [handleStep, Option.ite_none_left_eq_some, Option.some.injEq] at hresult
    obtain ⟨hunlocked, hresult⟩ := hresult
    obtain ⟨u, hu, rfl⟩ := except_map_ok hresult
    exact .handledRetr i call origin id p u hworker (by simpa using hunlocked) hu

theorem alarmThread_move {digests : Digests} {s t : Controller}
    (h : alarmThreadStep s = some t) : Move digests s .alarmStep t := by
  unfold alarmThreadStep at h
  split at h
  · simp at h
  · rename_i time hstage
    split at h
    · simp only [Option.some.injEq] at h
      subst h
      exact .sweptUp time hstage
    · rename_i alarm rest hnext
      simp only [Option.some.injEq] at h
      subst h
      obtain ⟨hlist, hdue⟩ := getNextAlarm_eq_some hnext
      exact .popped time alarm rest hstage hlist hdue
  · rename_i time alarm hstage
    simp only [Option.some.injEq] at h
    subst h
    exact .wroteSession time alarm hstage
  · rename_i time alarm hstage
    simp only [Option.some.injEq] at h
    subst h
    exact .clearedId time alarm hstage
  · rename_i time alarm hstage
    split at h
    · rename_i hkind
      simp only [Option.some.injEq] at h
      subst h
      exact .wroteId time alarm hstage hkind
    · rename_i hkind
      simp only [Option.some.injEq] at h
      subst h
      exact .unknownAlarm time alarm hstage hkind
  · rename_i time alarm hstage
    simp only [Option.some.injEq] at h
    subst h
    exact .queuedRetr time alarm hstage

theorem recvCoap_move {digests : Digests} {s t : Controller} {datagram : Bytes}
    {source : Endpoint} {arrival : Arrival} (hrunning : s.halted.isSome = false)
    (h : step digests s (.recvCoap datagram source arrival) = some t) :
    Move digests s (.recvCoap datagram source arrival) t := by
  simp only [step, hrunning, Bool.false_eq_true, if_false] at h
  cases hthread : s.networkThread with
  | acknowledgment task p => simp [hthread] at h
  | waiting =>
    simp only [hthread] at h
    split at h
    · simp only [Option.some.injEq] at h
      subst h
      exact .ignored _
    · rename_i hinvalid
      have hvalid : (validate (datagram.take (maxBufLen - 1))).isSome := by
        simpa [Option.isSome_iff_ne_none] using hinvalid
      split at h
      · rename_i htype
        simp only [Option.some.injEq] at h
        subst h
        exact .created datagram source arrival hthread hvalid htype
      · rename_i htype
        simp only [Option.some.injEq] at h
        rcases conclude_cases h with hok | ⟨reason, rfl⟩
        · obtain ⟨p, hfound, rfl⟩ := except_map_ok hok
          exact .named datagram source arrival p hthread hvalid (by simpa using htype) hfound
        · exact .ended _ reason

theorem lockAcknowledgment_move {digests : Digests} {s t : Controller}
    (hrunning : s.halted.isSome = false) (h : step digests s .lockAcknowledgment = some t) :
    Move digests s .lockAcknowledgment t := by
  simp only [step, hrunning, Bool.false_eq_true, if_false] at h
  cases hthread : s.networkThread with
  | waiting => simp [hthread] at h
  | acknowledgment task p =>
    simp only [hthread, Option.ite_none_left_eq_some, Option.some.injEq] at h
    obtain ⟨hunlocked, h⟩ := h
    rcases conclude_cases h with hok | ⟨reason, rfl⟩
    · obtain ⟨u, hu, rfl⟩ := except_map_ok hok
      rcases checkAcknowledgment_ok hu with rfl | ⟨lastSent, hsent, hanswers, rfl⟩
      · exact .duplicate task p hthread (by simpa using hunlocked)
      · exact .queued task p lastSent hthread (by simpa using hunlocked) hsent hanswers
    · exact .ended _ reason

theorem recvRadius_move {digests : Digests} {s t : Controller} {datagram : Bytes}
    (hrunning : s.halted.isSome = false)
    (h : step digests s (.recvRadius datagram) = some t) :
    Move digests s (.recvRadius datagram) t := by
  simp only [step, hrunning, Bool.false_eq_true, if_false] at h
  cases hthread : s.networkThread with
  | acknowledgment task p => simp [hthread] at h
  | waiting =>
    simp only [hthread] at h
    split at h
    · simp only [Option.some.injEq] at h
      subst h
      exact .ignored _
    · cases hparsed : radiusMsgParse (datagram.take maxDataLen) with
      | none =>
        simp only [hparsed, Option.some.injEq] at h
        subst h
        exact .ended _ .nullDereference
      | some msg =>
        simp only [hparsed, Option.some.injEq] at h
        subst h
        exact .arrived datagram msg hthread hparsed

/-- Every step of the controller is one of its moves. -/
theorem step_move {digests : Digests} {s t : Controller} {e : Event}
    (h : step digests s e = some t) : s.halted = none ∧ Move digests s e t := by
  have hrunning : s.halted.isSome = false := by
    by_contra hhalted
    simp [step, hhalted] at h
  refine ⟨by simpa using hrunning, ?_⟩
  cases e with
  | recvCoap datagram source arrival => exact recvCoap_move hrunning h
  | lockAcknowledgment => exact lockAcknowledgment_move hrunning h
  | recvRadius datagram => exact recvRadius_move hrunning h
  | getTask =>
    simp only [step, hrunning, Bool.false_eq_true, if_false] at h
    split at h
    · simp at h
    · rename_i task rest hqueue
      simp only [Option.some.injEq] at h
      subst h
      exact .taken task rest hqueue
  | lookup i stack =>
    simp only [step, hrunning, Bool.false_eq_true, if_false, Option.bind_eq_some_iff,
      Option.map_eq_some_iff] at h
    obtain ⟨worker, hworker, result, hresult, hconclude⟩ := h
    rcases conclude_cases hconclude with hok | ⟨reason, rfl⟩
    · exact lookup_move hworker hresult hok
    · exact .ended _ reason
  | handle i call =>
    simp only [step, hrunning, Bool.false_eq_true, if_false, Option.bind_eq_some_iff,
      Option.map_eq_some_iff] at h
    obtain ⟨worker, hworker, result, hresult, hconclude⟩ := h
    rcases conclude_cases hconclude with hok | ⟨reason, rfl⟩
    · exact handle_move hworker hresult hok
    · exact .ended _ reason
  | wake time =>
    simp only [step, hrunning, Bool.false_eq_true, if_false, Option.ite_none_right_eq_some,
      Option.some.injEq] at h
    obtain ⟨hsleeping, rfl⟩ := h
    exact .woke time hsleeping
  | alarmStep =>
    simp only [step, hrunning, Bool.false_eq_true, if_false] at h
    exact alarmThread_move h

end CoapEap.Mainserver
