import CoapEap.Controller.Belongings
import CoapEap.Controller.Cancellation
import CoapEap.Controller.Creation
import CoapEap.Controller.References
import Mathlib.Data.List.Nodup

/-!
Session identifiers. They come from a generator that is seeded with the seconds
plus the microseconds of the clock for each session, and nobody compares them
with those in use. Everything that names a session by its identifier relies on
their being apart.
-/

namespace CoapEap.Mainserver

open Cantcoap EapServer Lalarm Radius Library.Runs Library.FirstMatch

/-- The request of a session that no handler has looked up yet. -/
def Worker.request : Worker → Option NetworkTask
  | .took (.processCoapMsg task) => some task
  | _ => none

/-- No session but `p` goes by the identifier, among those that something refers
to, and no request waits under it. -/
def idFree (s : Controller) (p : Ptr) (id : UInt32) : Bool :=
  (referred s).all (fun q => q = p || s.sessionId q ≠ id) &&
    (s.activities.filterMap Worker.request).all fun task => task.sessionId ≠ id

/-- A session is made under a free identifier, a session that nothing else refers
to any more comes back from the RADIUS client only while its identifier is free,
and the token of an acknowledgment, if it is shorter than an identifier, is read
as the same identifier again when a worker looks the session up. -/
def keepsIdsApart (s : Controller) : Event → Bool
  | .recvCoap datagram _ arrival =>
    !opensSession (datagram.take (maxBufLen - 1)) || idFree s s.nextPtr arrival.sessionId
  | .lookup i stack =>
    match s.workers[i]? with
    | some (.took (.processReceiveRadiusMsg msg)) =>
      (searchEapCtxRadClient s msg.identifier).all fun p =>
        (referred s).contains p || idFree s p (s.sessionId p)
    | some (.took (.processAcknowledgment task post)) =>
      4 ≤ (getToken task.buf).length || tokenSessionId task.buf stack = s.sessionId post.1
    | _ => true
  | _ => true

/-- The task that a step queues for a new session, and the session. -/
def opening : Controller × Event → Option (NetworkTask × Ptr)
  | (s, .recvCoap datagram source arrival) =>
    let buf := datagram.take (maxBufLen - 1)
    if opensSession buf then some (⟨buf, source, arrival.sessionId⟩, s.nextPtr) else none
  | _ => none

/-- The session made last with this task. -/
def madeFor (past : List (Controller × Event)) (task : NetworkTask) : Option Ptr :=
  ((past.filterMap opening).reverse.find? fun made => made.1 = task).map Prod.snd

def Occurrence.ends : Occurrence → Option Ptr
  | .completed p _ _ => some p
  | .timedOut p => some p
  | _ => none

/-- Session `p` was completed or given up in the step. -/
def Ends (s t : Controller) (p : Ptr) : Prop :=
  ∃ new, t.log = s.log ++ new ∧ ∃ o ∈ new, o.ends = some p

/-- Entry and alarm of the session are gone, those of all others are in place. -/
structure RemovesOnly (s t : Controller) (p : Ptr) : Prop where
  sessions : t.sessions = othersListed s.sessions p
  alarms : t.alarms = othersAlarms s.alarms p

/-- Session identifiers identify sessions. -/
structure IdsIdentify (digests : Digests) (past : List (Controller × Event)) (s : Controller) :
    Prop where
  distinct : (s.sessions.map s.sessionId).Nodup
  requests : ∀ task p, .coapMsg task p ∈ s.activities → madeFor past task = some p
  acknowledgments : ∀ task post p, .acknowledgment task post p ∈ s.activities → p = post.1
  ended : ∀ e t p, step digests s e = some t → Ends s t p → RemovesOnly s t p

variable {digests : Digests} {s t : Controller} {past : List (Controller × Event)} {e : Event}
variable {p q : Ptr} {i : Nat}

theorem idFree_iff {id : UInt32} : idFree s p id = true ↔
    (∀ q, Referred s q → s.sessionId q = id → q = p) ∧
      ∀ w ∈ s.activities, ∀ task, w.request = some task → task.sessionId ≠ id := by
  simp only [idFree, Bool.and_eq_true, List.all_eq_true, Bool.or_eq_true, decide_eq_true_eq,
    List.mem_filterMap, mem_referred]
  constructor
  · rintro ⟨hreferred, hrequests⟩
    refine ⟨?_, fun w hw task htask => hrequests task ⟨w, hw, htask⟩⟩
    intro q hq hid
    rcases hreferred q hq with hsame | hother
    · exact hsame
    · exact absurd hid hother
  · rintro ⟨hreferred, hrequests⟩
    refine ⟨?_, fun task ⟨w, hw, htask⟩ => hrequests w hw task htask⟩
    intro q hq
    by_cases hid : s.sessionId q = id
    · exact .inl (hreferred q hq hid)
    · exact .inr hid

/-- The token of an acknowledgment names the session it was queued for. -/
def TokenNames (s : Controller) (buf : Bytes) (p : Ptr) : Prop :=
  4 ≤ (getToken buf).length → ∀ stack, tokenSessionId buf stack = s.sessionId p

/-- Sessions that something refers to have different identifiers, and each has at
most one entry and one alarm. -/
structure IdsApart (s : Controller) : Prop where
  apart : ∀ p q, Referred s p → Referred s q → s.sessionId p = s.sessionId q → p = q
  listedOnce : s.sessions.Nodup
  armedOnce : (s.alarms.map Alarm.session).Nodup
  named : ∀ task p, s.networkThread = .acknowledgment task p → TokenNames s task.buf p
  queued : ∀ task post, .took (.processAcknowledgment task post) ∈ s.activities →
    TokenNames s task.buf post.1
  found : ∀ task post p, .acknowledgment task post p ∈ s.activities → p = post.1

theorem IdsApart.alone (hs : IdsApart s) (hposts : PostAlarms s) (hp : Referred s p) :
    Alone s p where
  alarms := fun a ha hid => hs.apart _ _ (.armed a ha rfl) hp hid
  kinds := hposts.alarms
  armedOnce := hs.armedOnce
  listed := fun q hq hid => hs.apart q p (.listed hq) hp hid
  listedOnce := hs.listedOnce

theorem tokenSessionId_of_long {buf : Bytes} (hlong : 4 ≤ (getToken buf).length)
    (stack stack' : Bytes) : tokenSessionId buf stack = tokenSessionId buf stack' := by
  have hbyte : ∀ (stack : Bytes) (i : Nat), i < 4 → byteAt ((getToken buf).take 4 ++
      stack.drop ((getToken buf).take 4).length) i = byteAt ((getToken buf).take 4) i := by
    intro stack i hi
    apply byteAt_append_left
    rw [List.length_take]
    omega
  simp only [tokenSessionId, fromLe32]
  rw [hbyte stack 0 (by omega), hbyte stack 1 (by omega), hbyte stack 2 (by omega),
    hbyte stack 3 (by omega), hbyte stack' 0 (by omega), hbyte stack' 1 (by omega),
    hbyte stack' 2 (by omega), hbyte stack' 3 (by omega)]

theorem tokenNames_of_found {buf stack : Bytes}
    (hfound : getCoapEapSession s (tokenSessionId buf stack) = .ok p) : TokenNames s buf p := by
  intro hlong stack'
  rw [(getCoapEapSession_mem hfound).2]
  exact tokenSessionId_of_long hlong stack' stack

theorem TokenNames.later {buf : Bytes} (h : TokenNames s buf p) (hmade : p < s.nextPtr)
    (hstep : step digests s e = some t) : TokenNames t buf p := by
  intro hlong stack
  rw [(step_grows hstep).sessionId p hmade]
  exact h hlong stack

/-- The session that a step makes has the identifier that came with the datagram. -/
theorem created_sessionId {datagram : Bytes} {source : Endpoint} {arrival : Arrival}
    (hopens : opensSession (datagram.take (maxBufLen - 1)) = true)
    (h : step digests s (.recvCoap datagram source arrival) = some t) :
    t.sessionId s.nextPtr = arrival.sessionId := by
  have hmade := recvCoap_nextPtr h
  rw [hopens, if_pos rfl] at hmade
  obtain ⟨-, hmove⟩ := step_move h
  cases hmove with
  | created =>
    show ((s.setSession s.nextPtr _).heap s.nextPtr).sessionId = arrival.sessionId
    rw [Controller.setSession_heap_self]
    rfl
  | ignored | ended | named =>
    exact absurd hmade (Nat.ne_of_lt (Nat.lt_succ_self _))

/-- What a step brings is apart from everything that was referred to before. -/
theorem brings_apart (hguard : keepsIdsApart s e = true) (hs : IdsApart s)
    (hmade : ReferredMade s) (hcontexts : ∀ p ∈ s.radCtx, p < s.nextPtr)
    (h : step digests s e = some t) (hbrings : Brings s e p) (hq : Referred s q)
    (hid : t.sessionId q = t.sessionId p) : q = p := by
  have hgrows := step_grows h
  rw [hgrows.sessionId q (hmade q hq)] at hid
  cases hbrings with
  | created datagram source arrival hopens =>
    rw [created_sessionId hopens h] at hid
    have hfree : idFree s s.nextPtr arrival.sessionId = true := by
      simpa [keepsIdsApart, hopens] using hguard
    exact (idFree_iff.mp hfree).1 q hq hid
  | foundContext i stack msg p hworker hfound =>
    rw [hgrows.sessionId p (hcontexts p (searchEapCtx_mem hfound).1)] at hid
    have hfree : Referred s p ∨ idFree s p (s.sessionId p) = true := by
      simpa [keepsIdsApart, hworker, hfound, List.contains_iff_mem, mem_referred] using hguard
    rcases hfree with hreferred | hfree
    · exact hs.apart q p hq hreferred hid
    · exact (idFree_iff.mp hfree).1 q hq hid

/-- Two sessions brought by one step are one. -/
theorem Brings.unique (hp : Brings s e p) (hq : Brings s e q) : p = q := by
  cases hp with
  | created => cases hq; rfl
  | foundContext i stack msg p hworker hfound =>
    cases hq with
    | foundContext i' stack' msg' q hworker' hfound' =>
      rw [hworker] at hworker'
      cases hworker'
      rw [hfound] at hfound'
      exact Option.some.inj hfound'

theorem IdsApart.apart_step (hs : IdsApart s) (hmade : ReferredMade s)
    (hcontexts : ∀ p ∈ s.radCtx, p < s.nextPtr) (hwritten : WrittenSession s)
    (hguard : keepsIdsApart s e = true) (h : step digests s e = some t) (p q : Ptr)
    (hp : Referred t p) (hq : Referred t q) (hid : t.sessionId p = t.sessionId q) : p = q := by
  have hgrows := step_grows h
  rcases step_referred hwritten h hp with hp | hp
  · rcases step_referred hwritten h hq with hq | hq
    · rw [hgrows.sessionId p (hmade p hp), hgrows.sessionId q (hmade q hq)] at hid
      exact hs.apart p q hp hq hid
    · exact brings_apart hguard hs hmade hcontexts h hq hp hid
  · rcases step_referred hwritten h hq with hq | hq
    · exact (brings_apart hguard hs hmade hcontexts h hp hq hid.symm).symm
    · exact hp.unique hq

/-- The ways a step changes the alarms. -/
inductive AlarmsMove (s t : Controller) : Prop
  | kept (h : t.alarms = s.alarms)
  | popped (a : Alarm) (h : s.alarms = a :: t.alarms)
  | cancelled (p : Ptr) (h : t.alarms = othersAlarms s.alarms p)
  | rearmed (p : Ptr) (h : Rearmed s t p)

theorem step_alarms (hs : IdsApart s) (hposts : PostAlarms s) (h : step digests s e = some t) :
    AlarmsMove s t := by
  obtain ⟨-, hmove⟩ := step_move h
  have halone : ∀ {i : Nat} {w : Worker} {p : Ptr}, s.workers[i]? = some w →
      w.session = some p → Alone s p :=
    fun hworker hsession => hs.alone hposts (.inHand _ (mem_activities_of_worker hworker) hsession)
  cases hmove with
  | popped time alarm rest hsweeping hlist => exact .popped alarm hlist
  | handledCoap i call task p u hworker _ hresult =>
    exact .rearmed p (processCoapMsg_belongings (halone hworker rfl) hresult).1
  | handledAcknowledgment i call task post p u hworker _ hresult =>
    rcases processAcknowledgment_belongings (halone hworker rfl) hresult with ⟨-, halarms, -⟩ |
      ⟨-, halarms, -⟩
    · exact .cancelled p halarms
    · exact .kept halarms
  | handledRadius i call msg p u hworker _ hresult =>
    obtain ⟨hsame | ⟨-, hcancelled⟩ | ⟨-, hrearmed⟩, -⟩ :=
      processReceiveRadiusMsg_belongings (halone hworker rfl) hresult
    · exact .kept hsame
    · exact .cancelled p hcancelled
    · exact .rearmed p hrearmed
  | wroteIdentity i call msg p u hworker _ hresult =>
    obtain ⟨hsame | ⟨-, hcancelled⟩ | ⟨-, hrearmed⟩, -⟩ :=
      processReceiveRadiusMsg_belongings (halone hworker rfl) hresult
    · exact .kept hsame
    · exact .cancelled p hcancelled
    · exact .rearmed p hrearmed
  | handedIdentity i call p u hworker hresult =>
    exact .kept (stepSession_session hresult).2.1
  | handledRetr i call origin id p u hworker _ hresult =>
    rcases processRetrCoapEap_belongings (halone hworker rfl) hresult with ⟨-, rfl⟩ |
      ⟨-, ⟨-, hcancelled, -⟩ | ⟨hrearmed, -⟩ | ⟨hcancelled, -⟩⟩
    · exact .kept rfl
    · exact .cancelled p hcancelled
    · exact .rearmed p hrearmed
    · exact .cancelled p hcancelled
  | _ => exact .kept rfl

theorem AlarmsMove.armedOnce (h : AlarmsMove s t) (hs : (s.alarms.map Alarm.session).Nodup) :
    (t.alarms.map Alarm.session).Nodup := by
  cases h with
  | kept h => rwa [h]
  | popped a h =>
    rw [h, List.map_cons] at hs
    exact (List.nodup_cons.mp hs).2
  | cancelled p h =>
    rw [h]
    exact hs.sublist (List.filter_sublist.map _)
  | rearmed p h =>
    obtain ⟨a, rfl, -, hlist⟩ := h
    have hperm := (addAlarmCoapEap_perm a (othersAlarms s.alarms a.session)).map Alarm.session
    rw [hlist, hperm.nodup_iff, List.map_cons]
    apply List.nodup_cons.mpr
    constructor
    · intro hmem
      obtain ⟨b, hb, howner⟩ := List.mem_map.mp hmem
      exact (mem_othersAlarms.mp hb).2 howner
    · exact hs.sublist (List.filter_sublist.map _)

theorem step_listedOnce (hwf : WellFormed s) (hs : s.sessions.Nodup)
    (h : step digests s e = some t) : t.sessions.Nodup := by
  obtain ⟨-, hmove⟩ := step_move h
  cases hmove with
  | created =>
    apply List.nodup_cons.mpr
    exact ⟨fun hmem => Nat.lt_irrefl _ (hwf.sessions _ hmem), hs⟩
  | handledCoap | handledAcknowledgment | handledRadius | wroteIdentity | handedIdentity
  | handledRetr => exact hs.sublist (handle_frame (step_move h).2).sessions
  | _ => exact hs

theorem IdsApart.step (hs : IdsApart s) (hwf : WellFormed s) (hmade : ReferredMade s)
    (hwritten : WrittenSession s) (hposts : PostAlarms s) (hguard : keepsIdsApart s e = true)
    (h : step digests s e = some t) : IdsApart t where
  apart := hs.apart_step hmade hwf.contexts hwritten hguard h
  listedOnce := step_listedOnce hwf hs.listedOnce h
  armedOnce := (step_alarms hs hposts h).armedOnce hs.armedOnce
  named := by
    have hold : ∀ task p, s.networkThread = .acknowledgment task p → TokenNames t task.buf p :=
      fun task p hnamed => (hs.named task p hnamed).later (hwf.networkThread task p hnamed) h
    obtain ⟨-, hmove⟩ := step_move h
    intro task p hnamed
    cases hmove with
    | named datagram source arrival q _ _ _ hfound =>
      obtain ⟨rfl, rfl⟩ : _ = task ∧ q = p := by simpa using hnamed
      exact (tokenNames_of_found hfound).later (hwf.sessions q (getCoapEapSession_mem hfound).1) h
    | duplicate | queued => simp at hnamed
    | handledCoap | handledAcknowledgment | handledRadius | wroteIdentity | handedIdentity
    | handledRetr =>
      rw [(handle_frame (step_move h).2).networkThread] at hnamed
      exact hold task p hnamed
    | _ => exact hold task p hnamed
  queued := by
    intro task post hmem
    rcases step_activities h _ hmem with hold | harises
    · exact (hs.queued task post hold).later (hwf.activities _ hold _ (by simp [Worker.pointers])) h
    · cases harises with
      | queued _ p lastSent hnamed =>
        exact (hs.named task p hnamed).later (hwf.networkThread task p hnamed) h
  found := by
    intro task post p hmem
    rcases step_activities h _ hmem with hold | harises
    · exact hs.found task post p hold
    · cases harises with
      | foundAcknowledgment i stack _ _ _ hbefore hfound hworker =>
        obtain ⟨hlisted, hid⟩ := getCoapEapSession_mem hfound
        have hnamed : tokenSessionId task.buf stack = s.sessionId post.1 := by
          have hcondition : 4 ≤ (getToken task.buf).length ∨
              tokenSessionId task.buf stack = s.sessionId post.1 := by
            simpa [keepsIdsApart, hworker] using hguard
          rcases hcondition with hlong | hsame
          · exact hs.queued task post hbefore hlong stack
          · exact hsame
        exact hs.apart p post.1 (.listed hlisted) (.acknowledges _ post hbefore rfl rfl)
          (hid.trans hnamed)

/-- The runs in which identifiers stay apart. -/
theorem idsApart
    (h : ReachableUnder (step digests) (fun s e => keepsIdsApart s e = true) initialController s) :
    IdsApart s := by
  refine h.invariant ?_ fun _ _ _ hreach hs hguard hstep =>
    hs.step (wellFormed hreach) (referredMade hreach) (writtenSession hreach) (postAlarms hreach)
      hguard hstep
  constructor
  · intro p q hp
    cases hp <;> simp_all [initialController, Controller.activities, AlarmThread.alarm,
      NetworkThread.session, paramsUnread]
  · simp [initialController]
  · simp [initialController]
  · simp [initialController]
  · simp [initialController, Controller.activities]
  · simp [initialController, Controller.activities]

theorem madeFor_concat (move : Controller × Event) (task : NetworkTask) :
    madeFor (past ++ [move]) task =
      if (opening move).any (fun made => made.1 = task) then (opening move).map Prod.snd
      else madeFor past task := by
  unfold madeFor
  rw [List.filterMap_append, List.reverse_append]
  cases hopening : opening move with
  | none => simp [hopening]
  | some made =>
    by_cases hsame : made.1 = task
    · simp [hopening, hsame]
    · simp [hopening, hsame]

/-- Every request in hand was queued for one session, and no other session that
something refers to goes by its identifier. -/
structure RequestsOwned (past : List (Controller × Event)) (s : Controller) : Prop where
  waiting : ∀ w ∈ s.activities, ∀ task, w.request = some task →
    ∃ p < s.nextPtr, madeFor past task = some p ∧ s.sessionId p = task.sessionId ∧
      ∀ q, Referred s q → s.sessionId q = task.sessionId → q = p
  found : ∀ task p, .coapMsg task p ∈ s.activities →
    madeFor past task = some p ∧ s.sessionId p = task.sessionId

theorem opening_sessionId {move : Controller × Event} {made : NetworkTask × Ptr}
    (h : opening move = some made) : made.2 = move.1.nextPtr ∧
      ∃ datagram source arrival, move.2 = .recvCoap datagram source arrival ∧
        opensSession (datagram.take (maxBufLen - 1)) = true ∧
        made.1 = ⟨datagram.take (maxBufLen - 1), source, arrival.sessionId⟩ := by
  obtain ⟨s, e⟩ := move
  cases e with
  | recvCoap datagram source arrival =>
    simp only [opening] at h
    split at h
    · rename_i hopens
      simp only [Option.some.injEq] at h
      subst h
      exact ⟨rfl, datagram, source, arrival, rfl, hopens, rfl⟩
    · simp at h
  | _ => simp [opening] at h

/-- A step queues no second request like one whose session is still referred to. -/
theorem madeFor_later {task : NetworkTask} (hguard : keepsIdsApart s e = true)
    (hfresh : ∀ id, idFree s s.nextPtr id = true → task.sessionId ≠ id) :
    madeFor (past ++ [(s, e)]) task = madeFor past task := by
  rw [madeFor_concat]
  cases hopening : opening (s, e) with
  | none => simp
  | some made =>
    obtain ⟨-, datagram, source, arrival, hevent, hopens, hmade⟩ := opening_sessionId hopening
    have hevent : e = .recvCoap datagram source arrival := hevent
    subst hevent
    have hfree : idFree s s.nextPtr arrival.sessionId = true := by
      simpa [keepsIdsApart, hopens] using hguard
    have hother : made.1 ≠ task := by
      intro hsame
      apply hfresh _ hfree
      rw [← hsame, hmade]
    simp [hother]

theorem RequestsOwned.step (hs : RequestsOwned past s) (hreach : Reachable digests s)
    (hguard : keepsIdsApart s e = true) (h : step digests s e = some t) :
    RequestsOwned (past ++ [(s, e)]) t where
  waiting := by
    have hgrows := step_grows h
    intro w hw task hrequest
    rcases step_activities h w hw with hold | harises
    · obtain ⟨p, hp, hmade, hid, honly⟩ := hs.waiting w hold task hrequest
      have hfresh : ∀ q id, idFree s q id = true → task.sessionId ≠ id :=
        fun q id hfree => (idFree_iff.mp hfree).2 w hold task hrequest
      refine ⟨p, Nat.lt_of_lt_of_le hp hgrows.nextPtr, ?_, ?_, ?_⟩
      · rw [madeFor_later hguard (hfresh s.nextPtr), hmade]
      · rw [hgrows.sessionId p hp, hid]
      · intro q hq hsame
        rcases step_referred (writtenSession hreach) h hq with hq | hbrings
        · rw [hgrows.sessionId q (referredMade hreach q hq)] at hsame
          exact honly q hq hsame
        · cases hbrings with
          | created datagram source arrival hopens =>
            rw [created_sessionId hopens h] at hsame
            have hfree : idFree s s.nextPtr arrival.sessionId = true := by
              simpa [keepsIdsApart, hopens] using hguard
            exact absurd hsame.symm (hfresh _ _ hfree)
          | foundContext i stack msg q hworker hfound =>
            rw [hgrows.sessionId q ((wellFormed hreach).contexts q (searchEapCtx_mem hfound).1)]
              at hsame
            have hfree : Referred s q ∨ idFree s q (s.sessionId q) = true := by
              simpa [keepsIdsApart, hworker, hfound, List.contains_iff_mem, mem_referred]
                using hguard
            rcases hfree with hq | hfree
            · exact honly q hq hsame
            · exact absurd hsame.symm (hfresh _ _ hfree)
    · cases harises with
      | created datagram source arrival hvalid htype =>
        have hopens : opensSession (datagram.take (maxBufLen - 1)) = true := by
          simp [opensSession, hvalid, htype]
        have hbrings : Brings s (.recvCoap datagram source arrival) s.nextPtr :=
          .created datagram source arrival hopens
        have hfree : idFree s s.nextPtr arrival.sessionId = true := by
          simpa [keepsIdsApart, hopens] using hguard
        obtain rfl : ⟨datagram.take (maxBufLen - 1), source, arrival.sessionId⟩ = task := by
          simpa [Worker.request] using hrequest
        refine ⟨s.nextPtr, ?_, ?_, created_sessionId hopens h, ?_⟩
        · rw [recvCoap_nextPtr h, if_pos hopens]
          exact Nat.lt_succ_self _
        · rw [madeFor_concat]
          simp [opening, hopens]
        · intro q hq hsame
          rcases step_referred (writtenSession hreach) h hq with hq | hother
          · rw [hgrows.sessionId q (referredMade hreach q hq)] at hsame
            exact (idFree_iff.mp hfree).1 q hq hsame
          · exact hother.unique hbrings
      | _ => simp [Worker.request] at hrequest
  found := by
    have hgrows := step_grows h
    intro task p hmem
    rcases step_activities h _ hmem with hold | harises
    · obtain ⟨hmade, hid⟩ := hs.found task p hold
      have hreferred : Referred s p := .inHand _ hold rfl
      have hp := referredMade hreach p hreferred
      constructor
      · rw [madeFor_later hguard, hmade]
        intro id hfree hsame
        have hnew := (idFree_iff.mp hfree).1 p hreferred (hid.trans hsame)
        exact absurd hnew (Nat.ne_of_lt hp)
      · rw [hgrows.sessionId p hp, hid]
    · cases harises with
      | foundCoap i stack _ _ hbefore hfound =>
        obtain ⟨hlisted, hid⟩ := getCoapEapSession_mem hfound
        obtain ⟨q, -, hmade, -, honly⟩ := hs.waiting _ hbefore task rfl
        obtain rfl : p = q := honly p (.listed hlisted) hid
        constructor
        · rw [madeFor_concat]
          simpa [opening] using hmade
        · rw [hgrows.sessionId p ((wellFormed hreach).sessions p hlisted), hid]

/-- The runs in which identifiers stay apart, with their past. -/
abbrev ApartRun (digests : Digests) : Controller × List (Controller × Event) → Prop :=
  ReachableUnder (recording (step digests)) (fun here e => keepsIdsApart here.1 e = true)
    (initialController, [])

theorem ApartRun.forgotten {here : Controller × List (Controller × Event)}
    (h : ApartRun digests here) :
    ReachableUnder (step digests) (fun s e => keepsIdsApart s e = true) initialController here.1 :=
  ReachableUnder.forget h

theorem requestsOwned {here : Controller × List (Controller × Event)}
    (h : ApartRun digests here) : RequestsOwned here.2 here.1 := by
  induction h with
  | start => constructor <;> simp [initialController, Controller.activities]
  | step hbefore hguard hstep howned =>
    obtain ⟨t, ht, rfl⟩ := Option.map_eq_some_iff.mp hstep
    have hreach := (ApartRun.forgotten hbefore).reachable
    exact howned.step hreach hguard ht

/-- A step of a worker with an acknowledgment in hand, if it notes anything. -/
theorem handle_acknowledgment {task : NetworkTask} {post : Ptr × Nat} {call : Call}
    (hworker : s.workers[i]? = some (.acknowledgment task post p))
    (h : step digests s (.handle i call) = some t) (hlog : t.log ≠ s.log) :
    ∃ u, processAcknowledgment s task post p call = .ok u ∧ t = endWorker u i := by
  obtain ⟨-, hmove⟩ := step_move h
  cases hmove with
  | ignored => exact absurd rfl hlog
  | ended => exact absurd rfl hlog
  | handledAcknowledgment _ _ task' post' p' u hworker' _ hresult =>
    rw [hworker] at hworker'
    cases hworker'
    exact ⟨u, hresult, rfl⟩
  | handledCoap _ _ _ _ _ hworker' => simp [hworker] at hworker'
  | handledRadius _ _ _ _ _ hworker' => simp [hworker] at hworker'
  | wroteIdentity _ _ _ _ _ hworker' => simp [hworker] at hworker'
  | handedIdentity _ _ _ _ hworker' => simp [hworker] at hworker'
  | handledRetr _ _ _ _ _ _ hworker' => simp [hworker] at hworker'

theorem completed_removes {task : NetworkTask} {post : Ptr × Nat} {call : Call}
    (halone : Alone s p) (hstate : (s.heap p).currentState = 3)
    (h : processAcknowledgment s task post p call = .ok t) : RemovesOnly s t p := by
  rcases processAcknowledgment_belongings halone h with ⟨-, halarms, hsessions⟩ | ⟨hnot, -⟩
  · exact ⟨hsessions, halarms⟩
  · exact absurd hstate hnot

theorem timedOut_removes {id : Nat} {call : Call} {new : List Occurrence} (halone : Alone s p)
    (h : processRetrCoapEap s id p call = .ok t) (hlog : t.log = s.log ++ new)
    (hmem : .timedOut p ∈ new) : RemovesOnly s t p := by
  rcases processRetrCoapEap_belongings halone h with ⟨-, rfl⟩ |
    ⟨-, ⟨-, -, -, hsame⟩ | ⟨-, -, hsent⟩ | ⟨halarms, hsessions, -⟩⟩
  · have hnone : new = [] := List.self_eq_append_right.mp hlog
    simp [hnone] at hmem
  · have hnone : new = [] := List.self_eq_append_right.mp (hsame.symm.trans hlog)
    simp [hnone] at hmem
  · obtain rfl := List.append_cancel_left (hlog.symm.trans hsent)
    simp at hmem
  · exact ⟨hsessions, halarms⟩

theorem ends_removes (hs : IdsApart s) (hreach : Reachable digests s)
    (h : step digests s e = some t) (hends : Ends s t p) : RemovesOnly s t p := by
  obtain ⟨new, hlog, o, ho, hp⟩ := hends
  obtain ⟨new', hlog', hnoted⟩ := step_log h
  obtain rfl : new = new' := List.append_cancel_left (hlog.symm.trans hlog')
  have hnoted := hnoted o ho
  have hchanged : t.log ≠ s.log := by
    intro hsame
    have hnone : new = [] := List.self_eq_append_right.mp (hsame.symm.trans hlog)
    simp [hnone] at ho
  cases hnoted with
  | byHandler i call worker q _ hworker hnotes =>
    cases hnotes with
    | completed task post hstate =>
      obtain rfl : q = p := by simpa [Occurrence.ends] using hp
      obtain ⟨u, hu, rfl⟩ := handle_acknowledgment hworker h hchanged
      have halone := hs.alone (postAlarms hreach)
        (.inHand _ (mem_activities_of_worker hworker) rfl)
      obtain ⟨hsessions, halarms⟩ := completed_removes halone hstate hu
      exact ⟨hsessions, halarms⟩
    | timedOut origin id =>
      obtain rfl : q = p := by simpa [Occurrence.ends] using hp
      obtain ⟨u, hu, rfl⟩ := handle_retr (storesPosts hreach q) hworker h
      have halone := hs.alone (postAlarms hreach)
        (.inHand _ (mem_activities_of_worker hworker) rfl)
      obtain ⟨hsessions, halarms⟩ := timedOut_removes halone hu hlog ho
      exact ⟨hsessions, halarms⟩
    | _ => simp [Occurrence.ends] at hp
  | _ => simp [Occurrence.ends] at hp

/-- In every run whose steps keep the identifiers of sessions apart, identifiers
identify sessions. -/
theorem session_ids_identify (h : ApartRun digests (s, past)) : IdsIdentify digests past s := by
  have hforget : ReachableUnder (step digests) (fun s e => keepsIdsApart s e = true)
      initialController s := ApartRun.forgotten h
  have hs := idsApart hforget
  constructor
  · apply (List.nodup_map_iff_inj_on hs.listedOnce).mpr
    intro p hp q hq hid
    exact hs.apart p q (.listed hp) (.listed hq) hid
  · exact fun task p hmem => ((requestsOwned h).found task p hmem).1
  · exact hs.found
  · exact fun e t p hstep hends => ends_removes hs hforget.reachable hstep hends

/-- The first of two sessions gets no answer and is given up when its alarm has come
due for the fourth time. -/
def oneOfTwoGivesUp : List Event :=
  comesIn 1 ++ expires 3 ++ [.alarmStep] ++ expires 5 ++ [.alarmStep] ++ expires 9 ++
    [.alarmStep] ++ (comesIn 2).dropLast ++ [.handle 0 { now := 20 }] ++ expires 17

/-- The session that was given up took its own entry and alarm along. -/
theorem given_up_session_removed : ∃ past s, ApartRun noAnswers (s, past) ∧
    .timedOut 0 ∈ s.log ∧ s.sessions = [1] ∧ s.alarms.map Alarm.session = [1] ∧
      IdsIdentify noAnswers past s := by
  have hrun : (run (guarded (step noAnswers) fun s e => keepsIdsApart s e = true)
      initialController oneOfTwoGivesUp).any
        (fun s => s.log.contains (.timedOut 0) && (s.sessions == [1] &&
          s.alarms.map Alarm.session == [1])) = true := by
    decide +kernel
  obtain ⟨s, hs, hcheck⟩ := exists_of_run hrun
  obtain ⟨past, hpast⟩ := (reachableUnder_of_run hs).recorded
  simp only [Bool.and_eq_true, List.contains_iff_mem, beq_iff_eq] at hcheck
  exact ⟨past, s, hpast, hcheck.1, hcheck.2.1, hcheck.2.2, session_ids_identify hpast⟩

/-- The identifier that `init_CoAP_EAP_Session` takes: what `rand()` returns after
`srand` was called with the seconds and the microseconds of the clock, added. -/
def drawnSessionId (random : UInt32 → UInt32) (seconds useconds : Nat) : UInt32 :=
  random (UInt32.ofNat (seconds + useconds))

theorem step_created {datagram : Bytes} {source : Endpoint} {arrival : Arrival}
    (hrunning : s.halted = none) (hwaiting : s.networkThread = .waiting)
    (hopens : opensSession (datagram.take (maxBufLen - 1)) = true) :
    step digests s (.recvCoap datagram source arrival) =
      some (newSession s (datagram.take (maxBufLen - 1)) source arrival) := by
  simp only [opensSession, Bool.and_eq_true, bne_iff_ne, ne_eq] at hopens
  have hvalid : (validate (datagram.take (maxBufLen - 1))).isNone = false := by
    simpa [Option.isSome_iff_ne_none] using hopens.1
  simp [step, hrunning, hwaiting, hvalid, hopens.2]

/-- Two requests a microsecond less than a second apart, the second of them with a
smaller fraction of the second. -/
def sameSum (random : UInt32 → UInt32) : List Event :=
  [.recvCoap initialRequest ⟨[1], 5683⟩
      { sessionId := drawnSessionId random 1700000000 500000 },
    .recvCoap initialRequest ⟨[2], 5683⟩
      { sessionId := drawnSessionId random 1700000001 499999 }]

/-- Whatever the generator makes of its seed, the two sessions have one identifier. -/
theorem same_sum_collides (random : UInt32 → UInt32) : ∃ s,
    run (step noAnswers) initialController (sameSum random) = some s ∧
      s.sessions = [1, 0] ∧ s.sessionId 0 = s.sessionId 1 := by
  have hopens : opensSession (initialRequest.take (maxBufLen - 1)) = true := by
    decide +kernel
  refine ⟨newSession (newSession initialController (initialRequest.take (maxBufLen - 1))
    ⟨[1], 5683⟩ { sessionId := drawnSessionId random 1700000000 500000 })
      (initialRequest.take (maxBufLen - 1)) ⟨[2], 5683⟩
        { sessionId := drawnSessionId random 1700000001 499999 }, ?_, rfl, ?_⟩
  · rw [sameSum, run_cons, step_created rfl rfl hopens, Option.bind_some, run_cons,
      step_created rfl rfl hopens, Option.bind_some, run_nil]
  · have hsame : drawnSessionId random 1700000000 500000 =
        drawnSessionId random 1700000001 499999 := rfl
    exact hsame

/-- No generator keeps identifiers apart when its seeds agree. -/
theorem same_sum_same_identifier :
    ¬ ∃ random : UInt32 → UInt32, ∀ s past,
      run (step noAnswers) initialController (sameSum random) = some s →
        IdsIdentify noAnswers past s := by
  rintro ⟨random, hstated⟩
  obtain ⟨s, hrun, hlisted, hsame⟩ := same_sum_collides random
  have hdistinct := (hstated s [] hrun).distinct
  simp [hlisted, hsame] at hdistinct

end CoapEap.Mainserver
