import CoapEap.Controller.Handlers
import CoapEap.Library.Runs

/-!
The controller as one system of threads: the network thread, any number of
workers, and the alarm thread. An event names the thread that moves and carries
what the environment decides in that move.

A move is a stretch of code between two points where the thread depends on
others: taking a datagram, looking a session up, reading or writing one field of
the parameters shared by the alarm thread and the workers, and a handler's whole
critical section under the mutex of its session. The last is one move except in
the identity workaround, where the handler writes and reads a buffer that all
sessions share and gives way in between.
-/

namespace CoapEap.Mainserver

open Cantcoap EapServer Lalarm Radius

/-- What the arrival of a CoAP datagram takes from its environment: the random
identifier and timeout of a new session, what the memory of its message length
held, and what the stack held under the session identifier of a short token. -/
structure Arrival where
  sessionId : UInt32 := 0
  randValue : UInt8 := 0
  lastSentMessageLen : Int := 0
  stack : Bytes := []
  deriving Repr

inductive Event
  | recvCoap (datagram : Bytes) (source : Endpoint) (arrival : Arrival)
  | lockAcknowledgment
  | recvRadius (datagram : Bytes)
  | getTask
  | lookup (worker : Nat) (stack : Bytes)
  | handle (worker : Nat) (call : Call)
  | wake (time : Rat)
  | alarmStep
  deriving Repr

/-- `recvfrom` takes at most `MAXBUFLEN - 1` bytes of a CoAP datagram and drops
the rest of it. -/
def maxBufLen : Nat := 100

/-- The size of the buffer for RADIUS datagrams. -/
def maxDataLen : Nat := 4098

/-- `add_task`. -/
def addTask (s : Controller) (task : Task) : Controller := { s with tasks := s.tasks ++ [task] }

/-- `init_CoAP_EAP_Session` with the address and the datagram that the network
thread stores right after it. -/
def initCoapEapSession (buf : Bytes) (source : Endpoint) (arrival : Arrival) : Session :=
  let rt : Rat := (arrival.randValue.toNat : Rat) / 255 + 2
  { lastSentMessage := none, lastSentMessageLen := arrival.lastSentMessageLen
    lastReceivedMessage := some buf, recvAddr := source, messageId := 1, mutex := false
    eapCtx := {}, sessionId := arrival.sessionId, currentState := 0, mskKey := none
    keyLen := 0, rtxCounter := 0, rt, rtInit := rt, userId := [], location := none
    eapWorkarround := 0, posts := 0 }

/-- The network thread makes a session for a datagram that is no acknowledgment. -/
def newSession (s : Controller) (buf : Bytes) (source : Endpoint) (arrival : Arrival) :
    Controller :=
  let p := s.nextPtr
  let s := s.setSession p (initCoapEapSession buf source arrival)
  let s := { s with nextPtr := p + 1, sessions := p :: s.sessions, radCtx := p :: s.radCtx }
  addTask s (.processCoapMsg ⟨buf, source, arrival.sessionId⟩)

theorem newSession_heap_self (s : Controller) (buf : Bytes) (source : Endpoint)
    (arrival : Arrival) : (newSession s buf source arrival).heap s.nextPtr =
      initCoapEapSession buf source arrival :=
  Controller.setSession_heap_self ..

theorem newSession_heap_ne {s : Controller} {q : Ptr} (buf : Bytes) (source : Endpoint)
    (arrival : Arrival) (hq : q ≠ s.nextPtr) :
    (newSession s buf source arrival).heap q = s.heap q :=
  Controller.setSession_heap_ne s _ hq

/-- The network thread under the mutex of the session an acknowledgment named:
it queues the acknowledgment if its message identifier is that of the last
message sent. A message length that was never set decides what happens when no
message was sent yet. -/
def checkAcknowledgment (s : Controller) (task : NetworkTask) (p : Ptr) :
    Except Halt Controller :=
  let session := s.heap p
  match session.lastReceivedMessage with
  | none => .error .nullDereference
  | some lastReceived =>
    if (validate lastReceived).isNone then .ok s
    else
      match session.lastSentMessage with
      | none =>
        if session.lastSentMessageLen < 4 then .ok s else .error .nullDereference
      | some lastSent =>
        if (validate lastSent).isNone then .ok s
        else if getMessageId task.buf ≠ getMessageId lastSent then .ok s
        else
          let post := (p, session.posts)
          let s := s.setSession p { session with lastReceivedMessage := some task.buf }
          .ok ((addTask s (.processAcknowledgment task post)).record [.ackQueued post])

/-- A move that may end the process. -/
def conclude (s : Controller) (result : Except Halt Controller) : Controller :=
  match result with
  | .ok s' => s'
  | .error reason => { s with halted := some reason }

def setWorker (s : Controller) (i : Nat) (worker : Worker) : Controller :=
  { s with workers := s.workers.set i worker }

/-- The handler of a worker returns and the worker takes part no more until it
takes the next task. -/
def endWorker (s : Controller) (i : Nat) : Controller :=
  { s with workers := s.workers.eraseIdx i }

/-- A handler's way from its task to the mutex of its session. -/
def lookupStep (s : Controller) (i : Nat) (worker : Worker) (stack : Bytes) :
    Option (Except Halt Controller) :=
  match worker with
  | .took (.processCoapMsg task) =>
    some (if (validate task.buf).isNone then .error .exit
      else (getCoapEapSession s task.sessionId).map fun p => setWorker s i (.coapMsg task p))
  | .took (.processAcknowledgment task post) =>
    some (if (validate task.buf).isNone then .error .exit
      else (getCoapEapSession s (tokenSessionId task.buf stack)).map fun p =>
        setWorker s i (.acknowledgment task post p))
  | .took (.processReceiveRadiusMsg msg) =>
    some (.ok (match searchEapCtxRadClient s msg.identifier with
      | none => endWorker s i
      | some p => setWorker s i (.receiveRadiusMsg msg p)))
  | .took (.processRetrCoapEap origin) =>
    some (.ok (setWorker s i (.retrId origin s.retransParams.id)))
  | .retrId origin id =>
    let p := s.retransParams.session
    some (.ok ((setWorker s i (.retrCoapEap origin id p)).record [.retrRead origin p id]))
  | _ => none

/-- A handler from the mutex of its session on. -/
def handleStep (digests : Digests) (s : Controller) (i : Nat) (worker : Worker) (call : Call) :
    Option (Except Halt Controller) :=
  let done (result : Except Halt Controller) := result.map fun s => endWorker s i
  let locked (p : Ptr) (result : Except Halt Controller) : Option (Except Halt Controller) :=
    if (s.heap p).mutex then none else some result
  match worker with
  | .coapMsg task p => locked p (done (processCoapMsg s task p call))
  | .acknowledgment task post p => locked p (done (processAcknowledgment s task post p call))
  | .receiveRadiusMsg msg p =>
    locked p ((processReceiveRadiusMsg digests s msg p call).map fun result =>
      if result.2 then setWorker result.1 i (.radiusIdentity p) else endWorker result.1 i)
  | .radiusIdentity p => some (done (identityHandOver s p call))
  | .retrCoapEap _ id p => locked p (done (processRetrCoapEap s id p call))
  | _ => none

/-- `handle_alarm_coap_management` between two wake-ups. -/
def alarmThreadStep (s : Controller) : Option Controller :=
  match s.alarmThread with
  | .sleeping => none
  | .sweeping time =>
    match getNextAlarmCoapEap s.alarms time with
    | none => some { s with alarmThread := .sleeping }
    | some (alarm, rest) =>
      some ({ s with alarms := rest, alarmThread := .popped time alarm }.record
        [.expired alarm])
  | .popped time alarm =>
    some { s with
      retransParams := { s.retransParams with session := alarm.session }
      alarmThread := .sessionWritten time alarm }
  | .sessionWritten time alarm =>
    some { s with
      retransParams := { s.retransParams with id := 0 }
      alarmThread := .idCleared time alarm }
  | .idCleared time alarm =>
    if alarm.id = postAlarm then
      some { s with
        retransParams := { s.retransParams with id := postAlarm }
        alarmThread := .idWritten time alarm }
    else some { s with alarmThread := .sweeping time }
  | .idWritten time alarm =>
    some { addTask s (.processRetrCoapEap alarm) with alarmThread := .sweeping time }

/-- One move of one thread. A handler is one move, its work on the list of waiting requests
included: the runs of `overlappingStep` in which no two handlers are in the list together
(`reachable_iff_alone`). -/
def step (digests : Digests) (s : Controller) (e : Event) : Option Controller :=
  if s.halted.isSome then none
  else
    match e with
    | .recvCoap datagram source arrival =>
      match s.networkThread with
      | .acknowledgment _ _ => none
      | .waiting =>
        let buf := datagram.take (maxBufLen - 1)
        if (validate buf).isNone then some s
        else if getType buf ≠ .acknowledgement then some (newSession s buf source arrival)
        else
          some (conclude s
            ((getCoapEapSession s (tokenSessionId buf arrival.stack)).map fun p =>
              { s with networkThread := .acknowledgment ⟨buf, source, 0⟩ p }))
    | .lockAcknowledgment =>
      match s.networkThread with
      | .waiting => none
      | .acknowledgment task p =>
        if (s.heap p).mutex then none
        else
          some (conclude s
            ((checkAcknowledgment s task p).map fun s => { s with networkThread := .waiting }))
    | .recvRadius datagram =>
      match s.networkThread with
      | .acknowledgment _ _ => none
      | .waiting =>
        let packet := datagram.take maxDataLen
        if packet.length = 0 then some s
        else
          some (conclude s
            (match radiusMsgParse packet with
            | none => .error .nullDereference
            | some msg => .ok (addTask s (.processReceiveRadiusMsg msg))))
    | .getTask =>
      match s.tasks with
      | [] => none
      | task :: rest => some { s with tasks := rest, workers := s.workers ++ [.took task] }
    | .lookup i stack =>
      (s.workers[i]?).bind fun worker => (lookupStep s i worker stack).map (conclude s)
    | .handle i call =>
      (s.workers[i]?).bind fun worker => (handleStep digests s i worker call).map (conclude s)
    | .wake time =>
      if s.alarmThread = .sleeping then some { s with alarmThread := .sweeping time } else none
    | .alarmStep => alarmThreadStep s

/-- The controller before its first datagram. What uninitialised memory holds
(the heap, `retrans_params`) is never read before it is written. -/
def initialController : Controller :=
  { heap := fun _ => initCoapEapSession [] ⟨[], 0⟩ {}
    nextPtr := 0, sessions := [], radCtx := [], alarms := [], tasks := [], workers := []
    alarmThread := .sleeping, networkThread := .waiting, retransParams := ⟨0, 0⟩
    radius := {}, eapReqId := List.replicate 50 0, halted := none, log := [] }

/-- The states of the controller. -/
abbrev Reachable (digests : Digests) : Controller → Prop :=
  Library.Runs.Reachable (step digests) initialController

end CoapEap.Mainserver
