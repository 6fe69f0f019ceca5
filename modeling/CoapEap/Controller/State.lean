import CoapEap.Controller.Cantcoap
import CoapEap.Controller.EapServer
import CoapEap.Controller.Lalarm
import CoapEap.Controller.Radius

/-!
The state of the controller (`mainserver.cpp`, `coap_eap_session.c`): sessions on
the heap, the lists that point to them, the task queue with the arguments of its
tasks, and where each thread stands. The platform is the one in the repository's
`config.log`, i686, with pointers and `size_t` of four bytes.

Session objects are never freed, so a pointer stays valid for ever and the heap
is a function on pointers. A session embeds its EAP context, whose `eap_ll_ctx`
points back at it; one pointer stands for both.

A few fields are not in the source and no handler branches on them: the number
of POSTs of a session, the POST an alarm or a queued acknowledgment belongs to,
the alarm a retransmission task comes from, and the log of what happened.
-/

namespace CoapEap.Mainserver

open Lalarm Radius EapServer

abbrev Ptr := Nat

/-- `struct sockaddr_storage` as far as datagrams are told apart by it. -/
structure Endpoint where
  addr : Bytes
  port : Nat
  deriving DecidableEq, Repr

/-- `struct eap_auth_ctx`. -/
structure EapAuthCtx where
  eap : EapSm := initialSm
  radiusIdentifier : UInt8 := 0
  eapIdentity : Option Bytes := none
  lastRecvRadius : Option RadiusMsg := none
  deriving DecidableEq, Repr

/-- `coap_eap_ctx`. `mutex` says whether the session's mutex is held between two
steps, and `posts` counts the POSTs stored in `lastSentMessage`. -/
structure Session where
  lastSentMessage : Option Bytes
  lastSentMessageLen : Int
  lastReceivedMessage : Option Bytes
  recvAddr : Endpoint
  messageId : UInt16
  mutex : Bool
  eapCtx : EapAuthCtx
  sessionId : UInt32
  currentState : Nat
  mskKey : Option Bytes
  keyLen : Nat
  rtxCounter : UInt16
  rt : Rat
  rtInit : Rat
  userId : Bytes
  location : Option Bytes
  eapWorkarround : Nat
  posts : Nat
  deriving DecidableEq, Repr

/-- The datagram of a task as `createNetworkTask` copies it; `sessionId` is only
set for the task of a new session. -/
structure NetworkTask where
  buf : Bytes
  theirAddr : Endpoint
  sessionId : UInt32
  deriving DecidableEq, Repr

/-- A queued task. An acknowledgment carries the POST it was queued for, a
retransmission the alarm it was queued for; the second is only the pointer to
`retrans_params` in the source. -/
inductive Task
  | processCoapMsg (task : NetworkTask)
  | processAcknowledgment (task : NetworkTask) (post : Ptr × Nat)
  | processReceiveRadiusMsg (msg : RadiusMsg)
  | processRetrCoapEap (origin : Alarm)
  deriving DecidableEq, Repr

/-- Where a worker stands in the task it took: before the handler looked
anything up, or with its session in hand and before the session's mutex, or
(`radiusIdentity`) inside the mutex after `eap_req_id` was written. -/
inductive Worker
  | took (task : Task)
  | coapMsg (task : NetworkTask) (p : Ptr)
  | acknowledgment (task : NetworkTask) (post : Ptr × Nat) (p : Ptr)
  | receiveRadiusMsg (msg : RadiusMsg) (p : Ptr)
  | radiusIdentity (p : Ptr)
  | retrId (origin : Alarm) (id : Nat)
  | retrCoapEap (origin : Alarm) (id : Nat) (p : Ptr)
  deriving DecidableEq, Repr

/-- Where the alarm thread stands in its sweep. It writes the session, a zero
identifier and the real identifier into `retrans_params`, one after the other,
and then queues the task. -/
inductive AlarmThread
  | sleeping
  | sweeping (time : Rat)
  | popped (time : Rat) (alarm : Alarm)
  | sessionWritten (time : Rat) (alarm : Alarm)
  | idCleared (time : Rat) (alarm : Alarm)
  | idWritten (time : Rat) (alarm : Alarm)
  deriving DecidableEq, Repr

/-- Where the network thread stands: waiting for a datagram, or before the mutex
of the session that an acknowledgment named. -/
inductive NetworkThread
  | waiting
  | acknowledgment (task : NetworkTask) (p : Ptr)
  deriving DecidableEq, Repr

/-- `struct retr_coap_func_parameter`. -/
structure RetrParams where
  session : Ptr
  id : Nat
  deriving DecidableEq, Repr

/-- Why the process ended. -/
inductive Halt
  | exit
  | nullDereference
  deriving DecidableEq, Repr

/-- What happened, in order. -/
inductive Occurrence
  | sentPost (p : Ptr) (post : Nat)
  | retransmitted (p : Ptr) (post : Nat)
  | accessRequest (p : Ptr) (identifier : UInt8)
  | ackQueued (post : Ptr × Nat)
  | acknowledged (p : Ptr) (post : Nat)
  | fed (p : Ptr) (post : Ptr × Nat)
  | completed (p : Ptr) (ack : Bytes) (lastSent : Option Bytes)
  | timedOut (p : Ptr)
  | expired (alarm : Alarm)
  | retrRead (origin : Alarm) (p : Ptr) (id : Nat)
  deriving DecidableEq, Repr

structure Controller where
  heap : Ptr → Session
  nextPtr : Ptr
  sessions : List Ptr
  radCtx : List Ptr
  alarms : List Alarm
  tasks : List Task
  workers : List Worker
  alarmThread : AlarmThread
  networkThread : NetworkThread
  retransParams : RetrParams
  radius : RadiusClient
  eapReqId : Bytes
  halted : Option Halt
  log : List Occurrence

namespace Controller

/-- The session behind a pointer is replaced. -/
def setSession (s : Controller) (p : Ptr) (session : Session) : Controller :=
  { s with heap := fun q => if q = p then session else s.heap q }

def record (s : Controller) (occurrences : List Occurrence) : Controller :=
  { s with log := s.log ++ occurrences }

/-- The identifier that the list searches compare. -/
def sessionId (s : Controller) (p : Ptr) : UInt32 := (s.heap p).sessionId

variable (s : Controller) (p q : Ptr) (session : Session) (occurrences : List Occurrence)

@[simp] theorem setSession_heap_self : (s.setSession p session).heap p = session := by
  simp [setSession]

theorem setSession_heap_ne {p q : Ptr} (h : q ≠ p) :
    (s.setSession p session).heap q = s.heap q := by
  simp [setSession, h]

theorem setSession_heap : (s.setSession p session).heap q =
    if q = p then session else s.heap q := rfl

@[simp] theorem setSession_nextPtr : (s.setSession p session).nextPtr = s.nextPtr := rfl
@[simp] theorem setSession_sessions : (s.setSession p session).sessions = s.sessions := rfl
@[simp] theorem setSession_radCtx : (s.setSession p session).radCtx = s.radCtx := rfl
@[simp] theorem setSession_alarms : (s.setSession p session).alarms = s.alarms := rfl
@[simp] theorem setSession_tasks : (s.setSession p session).tasks = s.tasks := rfl
@[simp] theorem setSession_workers : (s.setSession p session).workers = s.workers := rfl
@[simp] theorem setSession_alarmThread :
    (s.setSession p session).alarmThread = s.alarmThread := rfl
@[simp] theorem setSession_networkThread :
    (s.setSession p session).networkThread = s.networkThread := rfl
@[simp] theorem setSession_retransParams :
    (s.setSession p session).retransParams = s.retransParams := rfl
@[simp] theorem setSession_radius : (s.setSession p session).radius = s.radius := rfl
@[simp] theorem setSession_eapReqId : (s.setSession p session).eapReqId = s.eapReqId := rfl
@[simp] theorem setSession_halted : (s.setSession p session).halted = s.halted := rfl
@[simp] theorem setSession_log : (s.setSession p session).log = s.log := rfl

@[simp] theorem record_heap : (s.record occurrences).heap = s.heap := rfl
@[simp] theorem record_nextPtr : (s.record occurrences).nextPtr = s.nextPtr := rfl
@[simp] theorem record_sessions : (s.record occurrences).sessions = s.sessions := rfl
@[simp] theorem record_radCtx : (s.record occurrences).radCtx = s.radCtx := rfl
@[simp] theorem record_alarms : (s.record occurrences).alarms = s.alarms := rfl
@[simp] theorem record_tasks : (s.record occurrences).tasks = s.tasks := rfl
@[simp] theorem record_workers : (s.record occurrences).workers = s.workers := rfl
@[simp] theorem record_alarmThread : (s.record occurrences).alarmThread = s.alarmThread := rfl
@[simp] theorem record_networkThread :
    (s.record occurrences).networkThread = s.networkThread := rfl
@[simp] theorem record_retransParams :
    (s.record occurrences).retransParams = s.retransParams := rfl
@[simp] theorem record_radius : (s.record occurrences).radius = s.radius := rfl
@[simp] theorem record_eapReqId : (s.record occurrences).eapReqId = s.eapReqId := rfl
@[simp] theorem record_halted : (s.record occurrences).halted = s.halted := rfl
@[simp] theorem record_log : (s.record occurrences).log = s.log ++ occurrences := rfl

end Controller

end CoapEap.Mainserver
