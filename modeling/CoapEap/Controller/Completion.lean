import CoapEap.Controller.Machines
import CoapEap.Controller.Retransmission
import CoapEap.Controller.Workarround

/-!
The end of a session. An acknowledgment is checked against the last message sent
when it is queued, and what it does is decided by the state of its session when
it is executed. In between the RADIUS handler may store the final POST.
-/

namespace CoapEap.Mainserver

open Cantcoap EapServer Lalarm Radius Library.Runs

/-- The acknowledgment in a worker's hand, and the POST it was queued for. -/
def Worker.acknowledgment? : Worker → Option (NetworkTask × Ptr × Nat)
  | .took (.processAcknowledgment task post) => some (task, post)
  | .acknowledgment task post _ => some (task, post)
  | _ => none

/-- An acknowledgment that was queued for a POST of the session is not executed
yet. -/
def acknowledgmentPending (s : Controller) (p : Ptr) : Bool :=
  s.activities.any fun worker => worker.acknowledgment?.any fun ack => ack.2.1 = p

/-- `process_receive_radius_msg` goes on to store a POST with the key at hand,
which puts its session into state 3. -/
def storesFinalPost (digests : Digests) (s : Controller) (msg : RadiusMsg) (p : Ptr)
    (call : Call) : Bool :=
  match radiusClientReceive digests s msg call with
  | .ok u =>
    let session := u.heap p
    session.eapCtx.eap.eapKeyAvailable && !session.eapCtx.eap.eapFail &&
      session.eapWorkarround ≠ 0 && call.sent
  | .error _ => false

/-- The final POST is stored only while no acknowledgment of its session waits
for its execution, and an acknowledgment that is executed in state 3 was checked
against the session it is executed on. -/
def finishesInOrder (digests : Digests) (s : Controller) : Event → Bool
  | .handle i call =>
    match s.workers[i]? with
    | some (.receiveRadiusMsg msg p) =>
      !storesFinalPost digests s msg p call || !acknowledgmentPending s p
    | some (.acknowledgment _ post p) => (s.heap p).currentState ≠ 3 || post.1 = p
    | _ => true
  | _ => true

/-- Every session that was completed was so by an acknowledgment with the message
identifier of its last POST, which was a final one. -/
def CompletedInOrder (s : Controller) : Prop :=
  ∀ p ack lastSent, .completed p ack lastSent ∈ s.log →
    ∃ session, lastSent = some (finalPost session) ∧
      getMessageId ack = getMessageId (finalPost session)

variable {digests : Digests} {s t : Controller} {e : Event} {i : Nat} {p q : Ptr}

/-- A session that reached state 3 holds its key. -/
structure Keyed (session : Session) : Prop where
  keyHeld : KeyHeld session.eapCtx.eap
  settled : session.eapCtx.eap.eapKeyAvailable = true → session.eapCtx.eap.eapRestart = false
  state : session.currentState = 3 → session.eapCtx.eap.eapKeyAvailable = true

theorem Keyed.change {x y : Session} (hx : Keyed x) (h : SessionChange digests x y) :
    Keyed y := by
  have hran : ∀ {ctx : EapAuthCtx}, EapChange digests x.eapCtx.eap ctx.eap →
      KeyHeld ctx.eap ∧ (ctx.eap.eapKeyAvailable = true → ctx.eap.eapRestart = false) := by
    intro ctx hchange
    obtain ⟨hkey, hrestart⟩ := hchange.keyHeld hx.keyHeld
    exact ⟨hkey, fun _ => hrestart⟩
  cases h with
  | opened buf packet request ctx _ _ hstepped =>
    obtain ⟨rand, hsurvives, heap⟩ := hstepped.eap
    have hchange : EapChange digests x.eapCtx.eap ctx.eap := heap ▸ .opened _ rand hsurvives
    obtain ⟨hkey, hsettled⟩ := hran hchange
    exact ⟨hkey, hsettled, by simp [storePost]⟩
  | fed buf data request ctx hstate hstepped =>
    obtain ⟨rand, hsurvives, heap⟩ := hstepped.eap
    have hchange : EapChange digests x.eapCtx.eap ctx.eap := heap ▸ .responded _ data rand hsurvives
    obtain ⟨hkey, hsettled⟩ := hran hchange
    exact ⟨hkey, hsettled, by simp [hstate]⟩
  | answered msg entry rand haccepted eap hstepped hsound =>
    subst hstepped
    have hready := answerEap_keyHeld hx.keyHeld digests msg entry.msg
    refine ⟨hready.run, fun _ => smLoop_eapRestart hready.portEnabled 31, ?_⟩
    intro hstate
    have hheld := hx.state hstate
    have hpending := hx.settled hheld
    obtain ⟨success, fail, req, reqData, keyData, keyAvailable, heap⟩ :=
      answerEap_eq digests msg entry.msg x.eapCtx.eap
    refine hready.run_keeps rand ?_ ?_
    · rw [heap]
      exact hpending
    · rw [heap]
      exact hheld
  | handedIdentity data ctx hstepped =>
    obtain ⟨rand, hsurvives, heap⟩ := hstepped.eap
    have hchange : EapChange digests x.eapCtx.eap ctx.eap := heap ▸ .responded _ data rand hsurvives
    obtain ⟨hkey, hsettled⟩ := hran hchange
    refine ⟨hkey, hsettled, ?_⟩
    intro hstate
    have hheld := hx.state hstate
    have hready : KeyHeld { x.eapCtx.eap with eapResp := true, eapRespData := some data } :=
      ⟨hx.keyHeld.portEnabled, hx.keyHeld.eapSuccess, hx.keyHeld.atEnd, hx.keyHeld.eapKeyData,
        hx.keyHeld.aaaEapKeyData⟩
    have hkept := hready.run_keeps rand (hx.settled hheld) hheld
    have hresponded : ctx.eap.eapKeyAvailable =
        (eapServerSmStep { x.eapCtx.eap with eapResp := true, eapRespData := some data }
          rand).eapKeyAvailable := by
      rw [heap, responseTaken]
      split <;> rfl
    exact hresponded.trans hkept
  | posted packet =>
    refine ⟨hx.keyHeld, hx.settled, ?_⟩
    intro hstate
    by_cases hheld : x.eapCtx.eap.eapKeyAvailable = true
    · exact hheld
    · exact hx.state (by simpa [storePost, radiusPostSession, hheld] using hstate)
  | sendFailed =>
    refine ⟨hx.keyHeld, hx.settled, ?_⟩
    intro hstate
    by_cases hheld : x.eapCtx.eap.eapKeyAvailable = true
    · exact hheld
    · exact hx.state (by simpa [radiusPostSession, hheld] using hstate)
  | _ => exact ⟨hx.keyHeld, hx.settled, hx.state⟩

theorem keyed {guard : Controller → Event → Prop}
    (h : ReachableUnder (step digests) guard initialController s) (p : Ptr) :
    Keyed (s.heap p) := by
  have hnew : ∀ buf source arrival, Keyed (initCoapEapSession buf source arrival) := by
    intro buf source arrival
    refine ⟨.of_none rfl rfl ?_, ?_, ?_⟩
    · simp [initCoapEapSession, initialSm]
    · simp [initCoapEapSession, initialSm]
    · simp [initCoapEapSession]
  exact session_invariant hnew (fun _ _ hchange hx => hx.change hchange) h p

/-- No handler works on the session any more: `sendto` failed for its POST and
its mutex was never given back. -/
structure Stuck (s : Controller) (p : Ptr) : Prop where
  mutex : (s.heap p).mutex = true
  workarround : .radiusIdentity p ∉ s.activities

/-- The final POST is the last message, and the acknowledgments in hand for the
session are acknowledgments of it. -/
structure FinalSent (s : Controller) (p : Ptr) (session : Session) : Prop where
  lastSent : (s.heap p).lastSentMessage = some (finalPost session)
  acknowledgments : ∀ w ∈ s.activities, ∀ task post, w.acknowledgment? = some (task, post) →
    post.1 = p → getMessageId task.buf = getMessageId (finalPost session)

def Finishing (s : Controller) (p : Ptr) : Prop :=
  (s.heap p).currentState = 3 → Stuck s p ∨ ∃ session, FinalSent s p session

/-- A new activity of a step is no acknowledgment of the session, or one that
was in hand before, or one that answers the last message. -/
theorem arises_acknowledgment {w : Worker} {task : NetworkTask} {post : Ptr × Nat}
    (h : Arises s e w) (hack : w.acknowledgment? = some (task, post)) :
    (∃ before ∈ s.activities, before.acknowledgment? = some (task, post)) ∨
      ∃ lastSent, (s.heap post.1).lastSentMessage = some lastSent ∧
        getMessageId task.buf = getMessageId lastSent := by
  cases h with
  | queued task' p lastSent hnamed hsent hanswers =>
    obtain ⟨rfl, rfl⟩ : task' = task ∧ (p, (s.heap p).posts) = post := by
      simpa [Worker.acknowledgment?] using hack
    exact .inr ⟨lastSent, hsent, hanswers⟩
  | foundAcknowledgment i stack task' post' p hbefore =>
    exact .inl ⟨_, hbefore, by simpa [Worker.acknowledgment?] using hack⟩
  | _ => simp [Worker.acknowledgment?] at hack

theorem FinalSent.step {session : Session} (hs : FinalSent s p session)
    (h : step digests s e = some t)
    (hsent : (t.heap p).lastSentMessage = (s.heap p).lastSentMessage) :
    FinalSent t p session where
  lastSent := hsent.trans hs.lastSent
  acknowledgments := by
    intro w hw task post hack howner
    rcases step_activities h w hw with hold | harises
    · exact hs.acknowledgments w hold task post hack howner
    · rcases arises_acknowledgment harises hack with ⟨before, hmem, hbefore⟩ |
        ⟨lastSent, hlast, hanswers⟩
      · exact hs.acknowledgments before hmem task post hbefore howner
      · rw [howner, hs.lastSent] at hlast
        rw [hanswers, ← Option.some.inj hlast]

theorem Stuck.step (hs : Stuck s p) (h : step digests s e = some t)
    (hmutex : (t.heap p).mutex = (s.heap p).mutex) : Stuck t p where
  mutex := hmutex.trans hs.mutex
  workarround := by
    intro hmem
    rcases step_activities h _ hmem with hold | harises
    · exact hs.workarround hold
    · cases harises with
      | wroteIdentity i call msg _ _ hunlocked =>
        rw [hs.mutex] at hunlocked
        exact Bool.noConfusion hunlocked

/-- A step that leaves state, last message and mutex of the session alone. -/
theorem Finishing.of_same (hs : Finishing s p) (h : step digests s e = some t)
    (hstate : (t.heap p).currentState = (s.heap p).currentState)
    (hsent : (t.heap p).lastSentMessage = (s.heap p).lastSentMessage)
    (hmutex : (t.heap p).mutex = (s.heap p).mutex) : Finishing t p := by
  intro hthree
  rcases hs (hstate.symm.trans hthree) with hstuck | ⟨session, hfinal⟩
  · exact .inl (hstuck.step h hmutex)
  · exact .inr ⟨session, hfinal.step h hsent⟩

/-- A handler of another session. -/
theorem Finishing.of_touches {u : Controller} (hs : Finishing s p)
    (h : step digests s e = some t) (htouches : Touches q s u) (hp : p ≠ q)
    (hheap : t.heap p = u.heap p) : Finishing t p := by
  have hother := htouches.others p hp
  refine hs.of_same h ?_ ?_ ?_ <;> rw [hheap, hother]

/-- A handler of the session that could take its mutex: the session is not stuck,
and only the last message matters. -/
theorem Finishing.of_unlocked (hs : Finishing s p) (h : step digests s e = some t)
    (hfree : (s.heap p).mutex = false ∨ .radiusIdentity p ∈ s.activities)
    (hstate : (t.heap p).currentState = (s.heap p).currentState)
    (hsent : (t.heap p).lastSentMessage = (s.heap p).lastSentMessage) : Finishing t p := by
  intro hthree
  rcases hs (hstate.symm.trans hthree) with hstuck | ⟨session, hfinal⟩
  · rcases hfree with hunlocked | hinside
    · rw [hstuck.mutex] at hunlocked
      exact Bool.noConfusion hunlocked
    · exact absurd hinside hstuck.workarround
  · exact .inr ⟨session, hfinal.step h hsent⟩

variable {call : Call} {msg : RadiusMsg} {u : Controller}

/-- The RADIUS handler and its session. -/
theorem Finishing.of_radius (hs : Finishing s p) (hkeyed : Keyed (s.heap p))
    (hlocked : WorkarroundLocked s) (hworker : s.workers[i]? = some (.receiveRadiusMsg msg p))
    (hunlocked : (s.heap p).mutex = false)
    (hresult : processReceiveRadiusMsg digests s msg p call = .ok (u, false))
    (horder : finishesInOrder digests s (.handle i call) = true)
    (h : step digests s (.handle i call) = some (endWorker u i)) :
    Finishing (endWorker u i) p := by
  have hactivities : ∀ w ∈ (endWorker u i).activities, w ∈ s.activities := fun w hw =>
    (touches_processReceiveRadiusMsg hresult).activities ▸ mem_activities_of_others hw
  obtain ⟨v, hv, hfail, hcase⟩ := processReceiveRadiusMsg_ok hresult
  have hsession := radiusClientReceive_session hv p
  have hstate : (v.heap p).currentState = (s.heap p).currentState := by rw [hsession]
  have hsent : (v.heap p).lastSentMessage = (s.heap p).lastSentMessage := by rw [hsession]
  have hkeyed' : Keyed (v.heap p) := by
    rcases radiusClientReceive_change hv p with hsame | hchange
    · rw [hsame]
      exact hkeyed
    · exact hkeyed.change hchange
  rcases hcase with ⟨-, -, rfl, -⟩ | ⟨packet, -, ⟨-, -, hidentity⟩ | ⟨hworkarround, hsend, -⟩⟩
  · exact hs.of_unlocked h (.inl hunlocked) hstate hsent
  · exact Bool.noConfusion hidentity
  · intro hthree
    have hthree : (u.heap p).currentState = 3 := hthree
    rcases (sendRadiusPost_ok hsend).2 with ⟨hcall, rfl⟩ | ⟨-, rfl⟩
    · have hheld : (v.heap p).eapCtx.eap.eapKeyAvailable = true := by
        by_cases hheld : (v.heap p).eapCtx.eap.eapKeyAvailable = true
        · exact hheld
        · apply hkeyed'.state
          simpa [armPost_session, storePost, radiusPostSession, hheld] using hthree
      have hfinal : radiusPost (radiusPostSession (v.heap p)) packet =
          finalPost (radiusPostSession (v.heap p)) := by
        have hsuccess := hkeyed'.keyHeld.eapSuccess hheld
        simp [radiusPost, radiusPostSession, hsuccess]
      have hnone : acknowledgmentPending s p = false := by
        simpa [finishesInOrder, hworker, storesFinalPost, hv, hheld, hfail, hworkarround, hcall]
          using horder
      refine .inr ⟨radiusPostSession (v.heap p), ?_, ?_⟩
      · have hlast : ((armPost v p (radiusPostSession (v.heap p))
            (radiusPost (radiusPostSession (v.heap p)) packet) call.now).heap p).lastSentMessage =
              some (finalPost (radiusPostSession (v.heap p))) := by
          rw [armPost_session, storePost, hfinal]
        exact hlast
      · intro w hw task post hack howner
        have hpending : acknowledgmentPending s p = true :=
          List.any_eq_true.mpr ⟨w, hactivities w hw, by simp [hack, howner]⟩
        rw [hnone] at hpending
        exact Bool.noConfusion hpending
    · refine .inl ⟨?_, ?_⟩
      · simp [endWorker]
      · intro hinside
        have hbound := hlocked p
        rw [hunlocked] at hbound
        have hcount := List.count_pos_iff.mpr (hactivities _ hinside)
        have hzero : Bool.toNat false = 0 := rfl
        omega

theorem Finishing.step (hs : ∀ p, Finishing s p) (hreach : Reachable digests s)
    (horder : finishesInOrder digests s e = true) (h : step digests s e = some t) (p : Ptr) :
    Finishing t p := by
  obtain ⟨-, hmove⟩ := step_move h
  cases hmove with
  | created datagram source arrival =>
    by_cases hp : p = s.nextPtr
    · subst hp
      intro hthree
      rw [newSession_heap_self] at hthree
      cases hthree
    · refine (hs p).of_same h ?_ ?_ ?_ <;> rw [newSession_heap_ne _ _ _ hp]
  | queued task q =>
    refine (hs p).of_same h ?_ ?_ ?_ <;> simp [addTask, setReceived_heap]
  | handledCoap i call task q u hworker _ hresult =>
    by_cases hp : p = q
    · subst hp
      intro hthree
      have hthree : (u.heap p).currentState = 3 := hthree
      obtain ⟨v, session, packet, -, -, hsession, -, rfl⟩ := processCoapMsg_ok hresult
      rw [Controller.record_heap, armPost_session, hsession] at hthree
      simp [storePost] at hthree
    · exact (hs p).of_touches h (touches_processCoapMsg hresult) hp rfl
  | handledAcknowledgment i call task post q u hworker _ hresult =>
    by_cases hp : p = q
    · subst hp
      obtain ⟨request, -, hsession⟩ := processAcknowledgment_session hresult
      have hheap : (endWorker u i).heap p = u.heap p := rfl
      refine (hs p).of_same h ?_ ?_ ?_ <;> rw [hheap, hsession]
    · exact (hs p).of_touches h (touches_processAcknowledgment hresult) hp rfl
  | handledRadius i call msg q u hworker hunlocked hresult =>
    by_cases hp : p = q
    · subst hp
      exact (hs p).of_radius (keyed hreach p) (workarroundLocked hreach) hworker hunlocked
        hresult horder h
    · exact (hs p).of_touches h (touches_processReceiveRadiusMsg hresult) hp rfl
  | wroteIdentity i call msg q u hworker hunlocked hresult =>
    by_cases hp : p = q
    · subst hp
      obtain ⟨v, hv, -, ⟨-, -, -, hidentity⟩ | ⟨packet, -, ⟨-, rfl, -⟩ | ⟨-, -, hidentity⟩⟩⟩ :=
        processReceiveRadiusMsg_ok hresult
      · exact Bool.noConfusion hidentity
      · have hsession := radiusClientReceive_session hv p
        have hheap : (setWorker (identityWorkarround v p packet) i (.radiusIdentity p)).heap p =
            { v.heap p with
              eapWorkarround := (v.heap p).eapWorkarround + 1, userId := alphaUserId
              mutex := true } := by
          simp [setWorker, identityWorkarround]
        refine (hs p).of_unlocked h (.inl hunlocked) ?_ ?_ <;> rw [hheap, hsession]
      · exact Bool.noConfusion hidentity
    · exact (hs p).of_touches h (touches_processReceiveRadiusMsg hresult) hp rfl
  | handedIdentity i call q u hworker hresult =>
    by_cases hp : p = q
    · subst hp
      have hsession := identityHandOver_session hresult
      have hheap : (endWorker u i).heap p = u.heap p := rfl
      refine (hs p).of_unlocked h (.inr (mem_activities_of_worker hworker)) ?_ ?_ <;>
        rw [hheap, hsession]
    · exact (hs p).of_touches h (touches_identityHandOver hresult) hp rfl
  | handledRetr i call origin id q u hworker _ hresult =>
    by_cases hp : p = q
    · subst hp
      have hsession := processRetrCoapEap_session hresult
      have hheap : (endWorker u i).heap p = u.heap p := rfl
      refine (hs p).of_same h ?_ ?_ ?_ <;> rw [hheap, hsession]
    · exact (hs p).of_touches h (touches_processRetrCoapEap hresult) hp rfl
  | _ => exact (hs p).of_same h rfl rfl rfl

theorem handle_acknowledgment_unlocked {task : NetworkTask} {post : Ptr × Nat}
    (hworker : s.workers[i]? = some (.acknowledgment task post p))
    (h : step digests s (.handle i call) = some t) : (s.heap p).mutex = false := by
  unfold step at h
  split at h
  · simp at h
  · simp only [hworker, Option.bind_some, handleStep] at h
    split at h
    · simp at h
    · rename_i hunlocked
      simpa using hunlocked

theorem CompletedInOrder.step (hs : CompletedInOrder s) (hfinishing : ∀ p, Finishing s p)
    (horder : finishesInOrder digests s e = true) (h : step digests s e = some t) :
    CompletedInOrder t := by
  obtain ⟨new, hlog, hnew⟩ := step_log h
  intro p ack lastSent hmem
  rw [hlog] at hmem
  rcases List.mem_append.mp hmem with hold | hnoted
  · exact hs p ack lastSent hold
  · have hnote := hnew _ hnoted
    cases hnote with
    | byHandler i call worker q o hworker hnotes =>
      cases hnotes with
      | completed task post hthree =>
        have hunlocked := handle_acknowledgment_unlocked hworker h
        have howner : post.1 = p := by
          simpa [finishesInOrder, hworker, hthree] using horder
        rcases hfinishing p hthree with hstuck | ⟨session, hfinal⟩
        · rw [hstuck.mutex] at hunlocked
          exact Bool.noConfusion hunlocked
        · exact ⟨session, hfinal.lastSent,
            hfinal.acknowledgments _ (mem_activities_of_worker hworker) task post rfl howner⟩

def FinishedInOrder (s : Controller) : Prop := (∀ p, Finishing s p) ∧ CompletedInOrder s

/-- In every run in which a final POST is stored only with no acknowledgment of
its session in hand, a session is completed only by the acknowledgment of its
final POST. -/
theorem completed_by_final_acknowledgment
    (h : ReachableUnder (step digests) (fun s e => finishesInOrder digests s e = true)
      initialController s) : CompletedInOrder s := by
  have hboth : FinishedInOrder s := by
    refine h.invariant ⟨?_, ?_⟩ ?_
    · intro p hthree
      simp [initialController, initCoapEapSession] at hthree
    · intro p ack lastSent hmem
      simp [initialController] at hmem
    · rintro a e b hbefore ⟨hfinishing, hcompleted⟩ horder hstep
      exact ⟨Finishing.step hfinishing hbefore.reachable horder hstep,
        hcompleted.step hfinishing horder hstep⟩
  exact hboth.2

/-- The keys of the answer as they are encrypted in it. -/
def encryptedRecvKey : Bytes :=
  [0x80, 0x01, 0x05, 0x22, 0xCC, 0x3C, 0x21, 0xB0, 0x44, 0x6A, 0x49, 0xF9, 0x17, 0x0B, 0x3D, 0xDA,
   0xB5, 0x03, 0xB6, 0xCA, 0xB4, 0x89, 0x4C, 0xAE, 0x28, 0x44, 0x49, 0x8D, 0xBB, 0x98, 0xB9, 0x58,
   0x18, 0x5D, 0x76, 0xFD, 0xB8, 0xE8, 0xD7, 0xAC, 0x0B, 0xAA, 0xD2, 0xE4, 0x9D, 0x01, 0xB6, 0xC5,
   0x6D, 0x46]

def encryptedSendKey : Bytes :=
  [0x80, 0x02, 0xED, 0xCA, 0x5D, 0xF7, 0xCF, 0xB2, 0x44, 0x93, 0xEB, 0xBF, 0x88, 0xCD, 0x46, 0x19,
   0xB1, 0x76, 0x09, 0x15, 0xBC, 0x37, 0x62, 0x06, 0x63, 0x6F, 0x58, 0x21, 0x36, 0x6F, 0x55, 0x1B,
   0x4D, 0xB0, 0x44, 0xEF, 0x2A, 0x52, 0x3A, 0x98, 0x32, 0xDF, 0x3F, 0xAB, 0xEA, 0x07, 0x64, 0x8C,
   0x3D, 0x21]

def acceptAuthenticator : Bytes :=
  [0xCE, 0x25, 0xB7, 0x26, 0x88, 0xCD, 0x58, 0x3A, 0x49, 0x18, 0xA1, 0xA1, 0xCD, 0x19, 0x03, 0x69]

def acceptMessageAuthenticator : Bytes :=
  [0x37, 0xB0, 0x0E, 0x04, 0x45, 0x26, 0xC4, 0xF0, 0x02, 0x44, 0xA2, 0x07, 0x2A, 0x94, 0x19, 0xF7]

/-- The authenticator of the request that is accepted. -/
def requestAuthenticator : Bytes := (List.range 16).map fun n => UInt8.ofNat (n + 1)

/-- An Access-Accept with an EAP success and both keys, for the request with
identifier zero and the secret `testing123`. -/
def accessAcceptDatagram : Bytes :=
  [0x02, 0x00, 0x00, 0xA0] ++ acceptAuthenticator ++ [0x4F, 0x06, 0x03, 0x01, 0x00, 0x04] ++
    [0x50, 0x12] ++ acceptMessageAuthenticator ++
    [0x1A, 0x3A, 0x00, 0x00, 0x01, 0x37, 0x11, 0x34] ++ encryptedRecvKey ++
    [0x1A, 0x3A, 0x00, 0x00, 0x01, 0x37, 0x10, 0x34] ++ encryptedSendKey

/-- What the digests are for that answer to that request. -/
def acceptDigests : Digests :=
  { messageAuthenticator := fun _ _ => acceptMessageAuthenticator
    responseAuthenticator := fun _ _ => acceptAuthenticator
    decryptMsKey := fun value _ =>
      if value = encryptedRecvKey then some (List.replicate 32 0x11)
      else if value = encryptedSendKey then some (List.replicate 32 0x22)
      else none }

/-- The answer arrives twice. The first copy is taken in and runs into the
identity workaround, and after the second the final POST goes out. `i` is the
worker that handles both. -/
def acceptedTwice (i : Nat) : List Event :=
  [.recvRadius accessAcceptDatagram, .getTask, .lookup i [], .handle i {}, .handle i {},
    .recvRadius accessAcceptDatagram, .getTask, .lookup i [], .handle i {}]

def acknowledgedOnce : List Event :=
  comesIn 1 ++
    [.recvCoap (ackDatagram 1 1) ⟨[1], 5683⟩ {}, .lockAcknowledgment, .getTask, .lookup 0 [],
      .handle 0 { authenticator := requestAuthenticator }] ++
    acceptedTwice 0 ++ acknowledges 1 2

def completions (s : Controller) : Nat :=
  s.log.countP fun o => match o with
    | .completed .. => true
    | _ => false

theorem accepted_session_completed : ∃ s,
    ReachableUnder (step acceptDigests) (fun s e => finishesInOrder acceptDigests s e = true)
      initialController s ∧ completions s = 1 ∧ CompletedInOrder s := by
  have hrun : (run (guarded (step acceptDigests) fun s e => finishesInOrder acceptDigests s e =
      true) initialController acknowledgedOnce).any (fun s => completions s = 1) = true := by
    decide +kernel
  obtain ⟨s, hs, hcompleted⟩ := exists_of_run hrun
  have hreach := reachableUnder_of_run hs
  exact ⟨s, hreach, by simpa using hcompleted, completed_by_final_acknowledgment hreach⟩

/-- The acknowledgment of the first POST comes twice, and a worker executes the
second copy when the final POST has been sent. -/
def acknowledgedLate : List Event :=
  comesIn 1 ++
    [.recvCoap (ackDatagram 1 1) ⟨[1], 5683⟩ {}, .lockAcknowledgment,
      .recvCoap (ackDatagram 1 1) ⟨[1], 5683⟩ {}, .lockAcknowledgment, .getTask, .getTask,
      .lookup 0 [], .handle 0 { authenticator := requestAuthenticator }] ++
    acceptedTwice 1 ++ [.lookup 0 [], .handle 0 {}]

/-- A session was completed by an acknowledgment of another POST than the last. -/
def completesEarly : Occurrence → Bool
  | .completed _ ack lastSent => lastSent.all fun pdu => getMessageId ack ≠ getMessageId pdu
  | _ => false

theorem completed_by_first_acknowledgment :
    ¬ ∀ digests s, Reachable digests s → CompletedInOrder s := by
  intro hstated
  have hrun : (run (step acceptDigests) initialController acknowledgedLate).any
      (fun s => s.log.any completesEarly) = true := by
    decide +kernel
  obtain ⟨s, hs, hcheck⟩ := exists_of_run hrun
  obtain ⟨o, ho, hearly⟩ := List.any_eq_true.mp hcheck
  cases o with
  | completed p ack lastSent =>
    obtain ⟨session, rfl, hanswers⟩ :=
      hstated acceptDigests s (reachable_of_run hs) p ack lastSent ho
    simp [completesEarly, hanswers] at hearly
  | _ => simp [completesEarly] at hearly

end CoapEap.Mainserver
