import CoapEap.Controller.Retransmission
import Mathlib.Data.List.Nodup

/-!
For which datagrams the network thread makes a session: for every one that is
well formed and no acknowledgment. A look at its method, its path or the sessions
that are there already is not part of it.
-/

namespace CoapEap.Mainserver

open Cantcoap EapServer Lalarm Radius Library.Runs Library.Logs

variable {digests : Digests} {s t : Controller} {e : Event}

/-- What `recvfrom` hands over. -/
structure Delivery where
  buf : Bytes
  source : Endpoint
  deriving DecidableEq, Repr

def Event.delivery : Event → Option Delivery
  | .recvCoap datagram source _ => some ⟨datagram.take (maxBufLen - 1), source⟩
  | _ => none

/-- The deliveries of one message have its source and its message identifier in
common. -/
def Delivery.message (r : Delivery) : Endpoint × Nat := (r.source, getMessageId r.buf)

/-- `".well-known"` and `"a"`. -/
def initialPath : List Bytes :=
  [[0x2E, 0x77, 0x65, 0x6C, 0x6C, 0x2D, 0x6B, 0x6E, 0x6F, 0x77, 0x6E], [0x61]]

/-- A well-formed POST request on `/.well-known/a`. -/
def isInitialRequest (buf : Bytes) : Bool :=
  match validate buf with
  | none => false
  | some v =>
    (getType buf == .confirmable || getType buf == .nonConfirmable) &&
      getCode buf == coapPost.toNat &&
      ((getOptions buf v).filter fun o => o.1 = optionUriPath).map Prod.snd == initialPath

/-- What the network thread asks before it makes a session. -/
def opensSession (buf : Bytes) : Bool := (validate buf).isSome && getType buf != .acknowledgement

theorem opensSession_of_initialRequest {buf : Bytes} (h : isInitialRequest buf = true) :
    opensSession buf = true := by
  unfold isInitialRequest at h
  cases hvalid : validate buf with
  | none => simp [hvalid] at h
  | some v =>
    simp only [hvalid, Bool.and_eq_true, Bool.or_eq_true, beq_iff_eq] at h
    obtain ⟨⟨htype, -⟩, -⟩ := h
    rcases htype with htype | htype
    · simp [opensSession, hvalid, htype]
    · simp [opensSession, hvalid, htype]

/-- The datagrams received along a schedule. -/
def received (digests : Digests) (events : List Event) : List Delivery :=
  (transitions (step digests) initialController events).filterMap fun tr => tr.2.1.delivery

/-- The datagrams that came in when a session was made. -/
def created (digests : Digests) (events : List Event) : List (Option Delivery) :=
  ((transitions (step digests) initialController events).filter
    fun tr => tr.1.nextPtr != tr.2.2.nextPtr).map fun tr => tr.2.1.delivery

/-- Sessions are made for initial requests, for each of them, and once. -/
structure CreatedForFreshRequests (digests : Digests) (events : List Event) : Prop where
  initial : ∀ r ∈ created digests events, ∃ delivery, r = some delivery ∧
    isInitialRequest delivery.buf = true
  once : ((created digests events).map (Option.map Delivery.message)).Nodup
  every : ∀ delivery ∈ received digests events, isInitialRequest delivery.buf = true →
    some delivery.message ∈ (created digests events).map (Option.map Delivery.message)

/-- Only a CoAP datagram makes a session. -/
theorem nextPtr_of_no_delivery (hnone : e.delivery = none) (h : step digests s e = some t) :
    t.nextPtr = s.nextPtr := by
  obtain ⟨-, hmove⟩ := step_move h
  cases hmove with
  | created => simp [Event.delivery] at hnone
  | handledCoap | handledAcknowledgment | handledRadius | wroteIdentity | handedIdentity
  | handledRetr => exact (handle_frame (step_move h).2).nextPtr
  | _ => rfl

theorem conclude_nextPtr {result : Except Halt Controller}
    (hsame : ∀ t, result = .ok t → t.nextPtr = s.nextPtr) :
    (conclude s result).nextPtr = s.nextPtr := by
  cases result with
  | ok t => exact hsame t rfl
  | error reason => rfl

theorem recvCoap_nextPtr {datagram : Bytes} {source : Endpoint} {arrival : Arrival}
    (h : step digests s (.recvCoap datagram source arrival) = some t) :
    t.nextPtr =
      if opensSession (datagram.take (maxBufLen - 1)) then s.nextPtr + 1 else s.nextPtr := by
  obtain ⟨hrunning, -⟩ := step_move h
  simp only [step, hrunning, Option.isSome_none, Bool.false_eq_true, if_false] at h
  cases hthread : s.networkThread with
  | acknowledgment task p => simp [hthread] at h
  | waiting =>
    simp only [hthread] at h
    cases hvalid : validate (datagram.take (maxBufLen - 1)) with
    | none =>
      simp only [hvalid, Option.isNone_none, if_true, Option.some.injEq] at h
      simp [opensSession, hvalid, h]
    | some v =>
      simp only [hvalid, Option.isNone_some, Bool.false_eq_true, if_false] at h
      by_cases htype : getType (datagram.take (maxBufLen - 1)) = .acknowledgement
      · simp only [htype, ne_eq, not_true_eq_false, if_false, Option.some.injEq] at h
        rw [← h]
        simp only [opensSession, htype, bne_self_eq_false, Bool.and_false, Bool.false_eq_true,
          if_false]
        apply conclude_nextPtr
        intro u hu
        obtain ⟨p, -, rfl⟩ := except_map_ok hu
        rfl
      · simp only [htype, ne_eq, not_false_eq_true, if_true, Option.some.injEq] at h
        rw [← h]
        simp [opensSession, hvalid, htype, newSession, addTask]

/-- A step makes a session exactly for a datagram that the network thread takes
for one. -/
theorem step_creates_iff (h : step digests s e = some t) :
    (s.nextPtr != t.nextPtr) = e.delivery.any fun r => opensSession r.buf := by
  cases hdelivery : e.delivery with
  | none => simp [nextPtr_of_no_delivery hdelivery h]
  | some r =>
    cases e with
    | recvCoap datagram source arrival =>
      simp only [Event.delivery, Option.some.injEq] at hdelivery
      rw [recvCoap_nextPtr h, ← hdelivery, Option.any_some]
      cases opensSession (datagram.take (maxBufLen - 1)) with
      | true => simp
      | false => simp
    | _ => simp [Event.delivery] at hdelivery

theorem created_eq (digests : Digests) (events : List Event) :
    created digests events =
      ((received digests events).filter fun r => opensSession r.buf).map some := by
  apply map_filter_eq
  rintro ⟨s, e, t⟩ hmem
  exact step_creates_iff (mem_transitions hmem).2

/-- In every run, sessions are made for fresh initial requests exactly when every
datagram that is well formed and no acknowledgment is an initial request, and no
two of them are deliveries of one message. -/
theorem created_for_fresh_requests_iff (digests : Digests) (events : List Event) :
    CreatedForFreshRequests digests events ↔
      (∀ r ∈ received digests events, opensSession r.buf = true → isInitialRequest r.buf = true) ∧
        (((received digests events).filter fun r => opensSession r.buf).map
          Delivery.message).Nodup := by
  have hmessages : (created digests events).map (Option.map Delivery.message) =
      (((received digests events).filter fun r => opensSession r.buf).map
        Delivery.message).map some := by
    rw [created_eq, List.map_map, List.map_map]
    rfl
  have honce : ((created digests events).map (Option.map Delivery.message)).Nodup ↔
      (((received digests events).filter fun r => opensSession r.buf).map
        Delivery.message).Nodup := by
    rw [hmessages]
    exact List.nodup_map_iff fun _ _ => Option.some.inj
  constructor
  · intro h
    refine ⟨?_, honce.mp h.once⟩
    intro r hr hopens
    have hmem : some r ∈ created digests events := by
      rw [created_eq]
      exact List.mem_map_of_mem (List.mem_filter.mpr ⟨hr, hopens⟩)
    obtain ⟨delivery, hsame, hinitial⟩ := h.initial _ hmem
    cases hsame
    exact hinitial
  · rintro ⟨honly, hnodup⟩
    refine ⟨?_, honce.mpr hnodup, ?_⟩
    · intro r hr
      rw [created_eq] at hr
      obtain ⟨delivery, hdelivery, rfl⟩ := List.mem_map.mp hr
      obtain ⟨hreceived, hopens⟩ := List.mem_filter.mp hdelivery
      exact ⟨delivery, rfl, honly delivery hreceived hopens⟩
    · intro delivery hdelivery hinitial
      rw [hmessages]
      apply List.mem_map_of_mem
      apply List.mem_map_of_mem
      exact List.mem_filter.mpr ⟨hdelivery, opensSession_of_initialRequest hinitial⟩

/-- The request that the device sends first. -/
def initialRequest : Bytes :=
  [0x40, 0x02, 0x00, 0x09, 0xBB, 0x2E, 0x77, 0x65, 0x6C, 0x6C, 0x2D, 0x6B, 0x6E, 0x6F, 0x77, 0x6E,
    0x01, 0x61]

/-- The request comes in twice, and then a reset. -/
def requestTwiceAndReset : List Event :=
  [.recvCoap initialRequest ⟨[1], 5683⟩ { sessionId := 1 },
    .recvCoap initialRequest ⟨[1], 5683⟩ { sessionId := 2 },
    .recvCoap [0x70, 0x00, 0x00, 0x09] ⟨[1], 5683⟩ { sessionId := 3 }]

/-- Each of the three datagrams makes a session. -/
theorem duplicate_and_reset_make_sessions :
    created noAnswers requestTwiceAndReset = [some ⟨initialRequest, ⟨[1], 5683⟩⟩,
      some ⟨initialRequest, ⟨[1], 5683⟩⟩, some ⟨[0x70, 0x00, 0x00, 0x09], ⟨[1], 5683⟩⟩] ∧
    isInitialRequest initialRequest = true ∧
    isInitialRequest [0x70, 0x00, 0x00, 0x09] = false ∧
    ¬ CreatedForFreshRequests noAnswers requestTwiceAndReset := by
  have hcreated : created noAnswers requestTwiceAndReset = [some ⟨initialRequest, ⟨[1], 5683⟩⟩,
      some ⟨initialRequest, ⟨[1], 5683⟩⟩, some ⟨[0x70, 0x00, 0x00, 0x09], ⟨[1], 5683⟩⟩] := by
    decide +kernel
  refine ⟨hcreated, by decide +kernel, by decide +kernel, ?_⟩
  intro h
  have honce := h.once
  rw [hcreated] at honce
  simp [Delivery.message] at honce

end CoapEap.Mainserver
