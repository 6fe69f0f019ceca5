import CoapEap.Controller.Creation
import CoapEap.Controller.WellFormed

/-!
What refers to a session. Apart from the contexts of the RADIUS client, which
nothing ever takes off their list, these are the list of sessions, the alarms,
the work in hand and the threads. A session that nothing refers to any more comes
back only when an answer of the RADIUS server finds its context.
-/

namespace CoapEap.Mainserver

open Cantcoap EapServer Lalarm Radius Library.Runs

def NetworkThread.session : NetworkThread → Option Ptr
  | .waiting => none
  | .acknowledgment _ p => some p

/-- The parameters are yet to be read by a task. -/
def paramsUnread (s : Controller) : Bool := s.activities.any fun w => w.unread.isSome

inductive Referred (s : Controller) (p : Ptr) : Prop
  | listed (h : p ∈ s.sessions)
  | armed (a : Alarm) (h : a ∈ s.alarms) (owner : a.session = p)
  | popped (a : Alarm) (h : s.alarmThread.alarm = some a) (owner : a.session = p)
  | inHand (w : Worker) (h : w ∈ s.activities) (session : w.session = some p)
  | acknowledges (w : Worker) (post : Ptr × Nat) (h : w ∈ s.activities)
      (answers : w.post = some post) (owner : post.1 = p)
  | named (h : s.networkThread.session = some p)
  | params (h : paramsUnread s = true) (session : s.retransParams.session = p)

/-- The sessions referred to, with repetitions. -/
def referred (s : Controller) : List Ptr :=
  s.sessions ++ s.alarms.map Alarm.session ++ s.alarmThread.alarm.toList.map Alarm.session ++
    s.activities.filterMap Worker.session ++ (s.activities.filterMap Worker.post).map Prod.fst ++
    s.networkThread.session.toList ++ if paramsUnread s then [s.retransParams.session] else []

variable {s t : Controller} {p q : Ptr} {i : Nat} {e : Event} {digests : Digests}

theorem mem_referred : p ∈ referred s ↔ Referred s p := by
  constructor
  · intro h
    simp only [referred, List.mem_append, List.mem_map, Option.mem_toList, List.mem_filterMap]
      at h
    rcases h with (((((hlisted | ⟨a, ha, howner⟩) | ⟨a, ha, howner⟩) | ⟨w, hw, hsession⟩) |
      ⟨post, ⟨w, hw, hpost⟩, howner⟩) | hnamed) | hparams
    · exact .listed hlisted
    · exact .armed a ha howner
    · exact .popped a ha howner
    · exact .inHand w hw hsession
    · exact .acknowledges w post hw hpost howner
    · exact .named hnamed
    · split at hparams
      · rename_i hunread
        exact .params hunread (List.mem_singleton.mp hparams).symm
      · simp at hparams
  · intro h
    simp only [referred, List.mem_append, List.mem_map, Option.mem_toList, List.mem_filterMap]
    cases h with
    | listed h => simp [h]
    | armed a h howner => exact .inl (.inl (.inl (.inl (.inl (.inr ⟨a, h, howner⟩)))))
    | popped a h howner => exact .inl (.inl (.inl (.inl (.inr ⟨a, h, howner⟩))))
    | inHand w h hsession => exact .inl (.inl (.inl (.inr ⟨w, h, hsession⟩)))
    | acknowledges w post h hpost howner => exact .inl (.inl (.inr ⟨post, ⟨w, h, hpost⟩, howner⟩))
    | named h => exact .inl (.inr h)
    | params h hsession => exact .inr (by simp [h, hsession])

theorem paramsUnread_iff : paramsUnread s = true ↔ ∃ w ∈ s.activities, ∃ a, w.unread = some a := by
  simp [paramsUnread, Option.isSome_iff_exists]

/-- A step refers to a session anew when it makes the session, or when a worker
finds its context by the identifier of an answer. -/
inductive Brings (s : Controller) : Event → Ptr → Prop
  | created (datagram : Bytes) (source : Endpoint) (arrival : Arrival)
      (opens : opensSession (datagram.take (maxBufLen - 1)) = true) :
      Brings s (.recvCoap datagram source arrival) s.nextPtr
  | foundContext (i : Nat) (stack : Bytes) (msg : RadiusMsg) (p : Ptr)
      (worker : s.workers[i]? = some (.took (.processReceiveRadiusMsg msg)))
      (found : searchEapCtxRadClient s msg.identifier = some p) : Brings s (.lookup i stack) p

theorem step_sessions (h : step digests s e = some t) :
    ∀ p ∈ t.sessions, p ∈ s.sessions ∨ Brings s e p := by
  obtain ⟨-, hmove⟩ := step_move h
  intro p hp
  cases hmove with
  | created datagram source arrival hwaiting hvalid htype =>
    rcases List.mem_cons.mp hp with rfl | hold
    · exact .inr (.created datagram source arrival (by simp [opensSession, hvalid, htype]))
    · exact .inl hold
  | handledCoap | handledAcknowledgment | handledRadius | wroteIdentity | handedIdentity
  | handledRetr => exact .inl ((handle_frame (step_move h).2).sessions.subset hp)
  | _ => exact .inl hp

theorem step_armed (h : step digests s e = some t) :
    ∀ a ∈ t.alarms, Referred s a.session := by
  obtain ⟨-, hmove⟩ := step_move h
  intro a ha
  cases hmove with
  | popped time alarm rest hsweeping hlist =>
    exact .armed a (hlist ▸ List.mem_cons_of_mem _ ha) rfl
  | handledCoap | handledAcknowledgment | handledRadius | wroteIdentity | handedIdentity
  | handledRetr =>
    rcases (handle_frame (step_move h).2).alarms a ha with hold | ⟨w, hworker, hsession⟩
    · exact .armed a hold rfl
    · exact .inHand w (mem_activities_of_worker hworker) hsession
  | _ => exact .armed a ha rfl

theorem step_popped (h : step digests s e = some t) :
    ∀ a, t.alarmThread.alarm = some a → Referred s a.session := by
  intro a ha
  have hsame : t.alarmThread.alarm = s.alarmThread.alarm → Referred s a.session :=
    fun heq => .popped a (heq ▸ ha) rfl
  cases step_retrMove h with
  | apart _ _ hleaves => exact hsame (by rw [hleaves.alarmThread])
  | readId | readSession => exact hsame rfl
  | swept _ stage _ hafter =>
    simp [hafter] at ha
  | popped time alarm rest hsweeping hlist =>
    obtain rfl : alarm = a := by simpa [AlarmThread.alarm] using ha
    exact .armed alarm (hlist ▸ List.mem_cons_self ..) rfl
  | wroteSession time alarm hstage | clearedId time alarm hstage | wroteId time alarm hstage =>
    exact hsame (by rw [hstage]; rfl)
  | unknownAlarm | queuedRetr => simp [AlarmThread.alarm] at ha

theorem step_inHand (h : step digests s e = some t) :
    ∀ w ∈ t.activities, ∀ p, w.session = some p → Referred s p ∨ Brings s e p := by
  intro w hw p hsession
  rcases step_activities h w hw with hold | harises
  · exact .inl (.inHand w hold hsession)
  · cases harises with
    | foundCoap i stack task q hbefore hfound =>
      obtain rfl : q = p := by simpa [Worker.session] using hsession
      exact .inl (.listed (getCoapEapSession_mem hfound).1)
    | foundAcknowledgment i stack task post q hbefore hfound =>
      obtain rfl : q = p := by simpa [Worker.session] using hsession
      exact .inl (.listed (getCoapEapSession_mem hfound).1)
    | foundContext i stack msg q hworker hfound =>
      obtain rfl : q = p := by simpa [Worker.session] using hsession
      exact .inr (.foundContext i stack msg q hworker hfound)
    | readSession i stack origin id hbefore =>
      refine .inl (.params (paramsUnread_iff.mpr ⟨_, hbefore, origin, rfl⟩) ?_)
      simpa [Worker.session] using hsession
    | wroteIdentity i call msg q hbefore =>
      exact .inl (.inHand _ hbefore (by simpa [Worker.session] using hsession))
    | _ => simp [Worker.session] at hsession

theorem step_acknowledges (h : step digests s e = some t) :
    ∀ w ∈ t.activities, ∀ post, w.post = some post → Referred s post.1 := by
  intro w hw post hpost
  rcases step_activities h w hw with hold | harises
  · exact .acknowledges w post hold hpost rfl
  · cases harises with
    | queued task q lastSent hnamed =>
      obtain rfl : (q, (s.heap q).posts) = post := by simpa [Worker.post] using hpost
      exact .named (by rw [hnamed]; rfl)
    | foundAcknowledgment i stack task post' q hbefore =>
      exact .acknowledges _ post hbefore (by simpa [Worker.post] using hpost) rfl
    | _ => simp [Worker.post] at hpost

theorem step_named (h : step digests s e = some t) :
    ∀ p, t.networkThread.session = some p → Referred s p := by
  obtain ⟨-, hmove⟩ := step_move h
  intro p hp
  cases hmove with
  | named datagram source arrival q _ _ _ hfound =>
    obtain rfl : q = p := by simpa [NetworkThread.session] using hp
    exact .listed (getCoapEapSession_mem hfound).1
  | duplicate | queued => simp [NetworkThread.session] at hp
  | handledCoap | handledAcknowledgment | handledRadius | wroteIdentity | handedIdentity
  | handledRetr =>
    rw [(handle_frame (step_move h).2).networkThread] at hp
    exact .named hp
  | _ => exact .named hp

theorem step_params (hwritten : WrittenSession s) (h : step digests s e = some t)
    (hunread : paramsUnread t = true) : Referred s t.retransParams.session := by
  obtain ⟨w, hw, a, ha⟩ := paramsUnread_iff.mp hunread
  have hold : w ∈ s.activities → Referred s s.retransParams.session :=
    fun hmem => .params (paramsUnread_iff.mpr ⟨w, hmem, a, ha⟩) rfl
  cases step_retrMove h with
  | apart _ _ hleaves =>
    rw [hleaves.retransParams]
    rcases hleaves.members w hw with hmem | hnone
    · exact hold hmem
    · simp [unread_of_origin hnone] at ha
  | readId i _ origin hworker =>
    exact .params (paramsUnread_iff.mpr ⟨_, mem_activities_of_worker hworker, origin, rfl⟩) rfl
  | readSession i _ origin id hworker =>
    exact .params (paramsUnread_iff.mpr ⟨_, mem_activities_of_worker hworker, origin, rfl⟩) rfl
  | wroteSession time alarm hstage => exact .popped alarm (by rw [hstage]; rfl) rfl
  | queuedRetr time alarm hstage =>
    have hsession : s.retransParams.session = alarm.session :=
      hwritten alarm (by rw [hstage]; rfl)
    exact .popped alarm (by rw [hstage]; rfl) hsession.symm
  | swept | popped | clearedId | wroteId | unknownAlarm => exact hold hw

/-- A session that is referred to after a step was so before, or the step brings
it. -/
theorem step_referred (hwritten : WrittenSession s) (h : step digests s e = some t)
    (hp : Referred t p) : Referred s p ∨ Brings s e p := by
  cases hp with
  | listed hmem => exact (step_sessions h p hmem).imp_left .listed
  | armed a hmem howner => exact .inl (howner ▸ step_armed h a hmem)
  | popped a hmem howner => exact .inl (howner ▸ step_popped h a hmem)
  | inHand w hmem hsession => exact step_inHand h w hmem p hsession
  | acknowledges w post hmem hpost howner =>
    exact .inl (howner ▸ step_acknowledges h w hmem post hpost)
  | named hmem => exact .inl (step_named h p hmem)
  | params hunread hsession => exact .inl (hsession ▸ step_params hwritten h hunread)

/-- Sessions referred to were made. -/
def ReferredMade (s : Controller) : Prop := ∀ p, Referred s p → p < s.nextPtr

theorem ReferredMade.step (hs : ReferredMade s) (hwf : WellFormed s) (hwritten : WrittenSession s)
    (h : step digests s e = some t) : ReferredMade t := by
  intro p hp
  rcases step_referred hwritten h hp with hold | hbrings
  · exact Nat.lt_of_lt_of_le (hs p hold) (step_grows h).nextPtr
  · cases hbrings with
    | created datagram source arrival hopens =>
      rw [recvCoap_nextPtr h, hopens]
      exact Nat.lt_succ_self _
    | foundContext i stack msg p hworker hfound =>
      exact Nat.lt_of_lt_of_le (hwf.contexts p (searchEapCtx_mem hfound).1)
        (step_grows h).nextPtr

theorem referredMade_initial : ReferredMade initialController := by
  intro p hp
  cases hp <;> simp_all [initialController, Controller.activities, AlarmThread.alarm,
    NetworkThread.session, paramsUnread]

theorem referredMade {guard : Controller → Event → Prop}
    (h : ReachableUnder (step digests) guard initialController s) : ReferredMade s :=
  h.invariant referredMade_initial fun _ _ _ hreach hs _ hstep =>
    hs.step (wellFormed hreach) (writtenSession hreach) hstep

end CoapEap.Mainserver
