import CoapEap.Controller.ClientFrame
import CoapEap.Controller.IdentityResponse

/-!
The controller with the list of the RADIUS client in memory, in the runs in which nobody
comes to the list while another is in it. It is the controller whose handlers are one move
each: what a handler finds when it comes to the list is still there at its move, whatever
the other threads did in between.
-/

namespace CoapEap.Mainserver

open Cantcoap EapServer Lalarm Radius Library.Runs Relation

/-- What the handler of session `p` reads for its request is the same in both states. -/
structure SameFor (p : Ptr) (s t : Controller) : Prop where
  session : t.heap p = s.heap p
  eapReqId : t.eapReqId = s.eapReqId
  radius : t.radius = s.radius

/-- The handler that has come to the list would still find what it found there, and make the
same request. -/
structure Standing (s : Controller) (work : Requesting) : Prop where
  before : work.before = s.radius
  eapReqId : work.eapReqId = s.eapReqId
  other : ∀ msg q, work.worker ≠ .receiveRadiusMsg msg q
  session : work.worker.session = some work.p
  made : work.p < s.nextPtr
  came : ∃ entered i, entered.workers[i]? = some work.worker ∧ SameFor work.p entered s ∧
    takesIdentifier entered (.handle i work.call) = some work.request

/-- The list in memory against a controller whose handlers are one move each: with nobody
in the list it holds the client of that controller, and a handler in the list is on its way
from there, with its move still to come. -/
inductive InList (s : Controller) (here : Overlapping) : Prop
  | nobody (hreceiving : here.receiving = none) (hrequesting : here.requesting = none)
      (hclient : here.client.Represents s.radius)
  | answer (work : Receiving) (c : RadiusNodes) (hreceiving : here.receiving = some work)
      (hrequesting : here.requesting = none) (hclient : c.Represents s.radius)
      (hrun : ReceiveRun work.msg.identifier (c, .searching none c.msgs)
        (here.client, work.stage))
  | request (work : Requesting) (c : RadiusNodes) (hreceiving : here.receiving = none)
      (hrequesting : here.requesting = some work) (hclient : c.Represents s.radius)
      (hrun : RequestRun s.radius.nextRadiusIdentifier work.request
        ({ c with nextRadiusIdentifier := c.nextRadiusIdentifier + 1 }, .removing none c.msgs)
        (here.client, work.stage))
      (hstanding : Standing s work)

/-- The controller `s` is where the one with the list in memory is, but for a handler that is
in the list. -/
structure Tracks (here : Overlapping) (s : Controller) : Prop where
  controller : here.controller.withClient s.radius = s
  memory : here.followedFreed = false
  list : InList s here

variable {digests : Digests} {s t : Controller} {e : Event} {p : Ptr} {i j : Nat} {call : Call}
variable {here : Overlapping} {worker : Worker} {inbound : Receiving} {outbound : Requesting}

/-- The request of a handler is what it reads, wherever the worker stands. -/
theorem takesIdentifier_same (hworker : s.workers[i]? = some worker)
    (hthere : t.workers[j]? = some worker) (hsession : worker.session = some p)
    (hsame : SameFor p s t) :
    takesIdentifier t (.handle j call) = takesIdentifier s (.handle i call) := by
  have hrun : eapRun t (.handle j call) = eapRun s (.handle i call) := by
    simp only [eapRun, hworker, hthere]
    cases worker with
    | coapMsg task q =>
      obtain rfl : q = p := Option.some.inj hsession
      simp only [hsame.session]
    | acknowledgment task post q =>
      obtain rfl : q = p := Option.some.inj hsession
      simp only [hsame.session]
    | radiusIdentity q =>
      obtain rfl : q = p := Option.some.inj hsession
      simp only [hsame.session, hsame.eapReqId]
    | _ => rfl
  rw [takesIdentifier, takesIdentifier, hrun, hsame.radius]

theorem Standing.same (h : Standing s outbound) (hsame : SameFor outbound.p s t)
    (hgrows : s.nextPtr ≤ t.nextPtr) : Standing t outbound := by
  obtain ⟨entered, i, hworker, hcame, htakes⟩ := h.came
  exact ⟨h.before.trans hsame.radius.symm, h.eapReqId.trans hsame.eapReqId.symm, h.other,
    h.session, Nat.lt_of_lt_of_le h.made hgrows, entered, i, hworker,
    ⟨hsame.session.trans hcame.session, hsame.eapReqId.trans hcame.eapReqId,
      hsame.radius.trans hcame.radius⟩, htakes⟩

theorem Standing.takes (h : Standing s outbound)
    (hworker : s.workers[i]? = some outbound.worker) :
    takesIdentifier s (.handle i outbound.call) = some outbound.request := by
  obtain ⟨entered, j, hthen, hcame, htakes⟩ := h.came
  rw [takesIdentifier_same hthen hworker h.session hcame, htakes]

theorem answersIdentity_none (h : NoAnswer s e) : answersIdentity digests s e = none := by
  cases e with
  | handle i call =>
    simp only [answersIdentity]
    split
    · rename_i msg p hworker
      exact absurd hworker (h i call msg p rfl)
    · rfl
  | _ => rfl

/-- One way through the list ends where another does. -/
theorem receive_last {identifier : UInt8} {x y last : RadiusNodes × ReceiveStage}
    (hlast : receiveStatement identifier last.1 last.2 = some last)
    (hend : ReceiveRun identifier x last) (h : ReceiveRun identifier x y) :
    (receiveStatement identifier y.1 y.2).isSome ∧ (y.2.atEnd = true → y = last) := by
  refine ⟨Option.isSome_iff_ne_none.mpr
    (@goes_on _ (fun x => receiveStatement identifier x.1 x.2) _ _ _ hlast hend h), ?_⟩
  intro hdone
  have hstays : receiveStatement identifier y.1 y.2 = some y := by
    obtain ⟨c, stage⟩ := y
    cases stage with
    | found req => rfl
    | _ => simp [ReceiveStage.atEnd] at hdone
  exact @end_unique _ (fun x => receiveStatement identifier x.1 x.2) _ _ _ hlast hstays hend h

theorem request_last {identifier : UInt8} {request : Option RadiusMsgList}
    {x y last : RadiusNodes × RequestStage}
    (hlast : requestStatement identifier request last.1 last.2 = some last)
    (hend : RequestRun identifier request x last) (h : RequestRun identifier request x y) :
    (requestStatement identifier request y.1 y.2).isSome ∧ (y.2.atEnd = true → y = last) := by
  refine ⟨Option.isSome_iff_ne_none.mpr
    (@goes_on _ (fun x => requestStatement identifier request x.1 x.2) _ _ _ hlast hend h), ?_⟩
  intro hdone
  have hstays : requestStatement identifier request y.1 y.2 = some y := by
    obtain ⟨c, stage⟩ := y
    cases stage with
    | added => rfl
    | _ => simp [RequestStage.atEnd] at hdone
  exact @end_unique _ (fun x => requestStatement identifier request x.1 x.2) _ _ _ hlast hstays
    hend h

namespace Tracks

theorem view_withClient (hs : Tracks here s) : here.view.withClient s.radius = s := hs.controller

theorem represents (hs : Tracks here s) (hreceiving : here.receiving = none)
    (hrequesting : here.requesting = none) : here.client.Represents s.radius := by
  cases hs.list with
  | nobody _ _ hclient => exact hclient
  | answer _ _ hsome => simp [hreceiving] at hsome
  | request _ _ _ hsome => simp [hrequesting] at hsome

theorem answering (hs : Tracks here s) (hwork : here.receiving = some inbound) :
    ∃ c : RadiusNodes, c.Represents s.radius ∧ here.requesting = none ∧
      ReceiveRun inbound.msg.identifier (c, .searching none c.msgs)
        (here.client, inbound.stage) := by
  cases hs.list with
  | nobody hnone => simp [hwork] at hnone
  | request _ _ hnone => simp [hwork] at hnone
  | answer work c hsome hrequesting hclient hrun =>
    obtain rfl : work = inbound := Option.some.inj (hsome.symm.trans hwork)
    exact ⟨c, hclient, hrequesting, hrun⟩

theorem asking (hs : Tracks here s) (hwork : here.requesting = some outbound) :
    ∃ c : RadiusNodes, c.Represents s.radius ∧ here.receiving = none ∧
      RequestRun s.radius.nextRadiusIdentifier outbound.request
        ({ c with nextRadiusIdentifier := c.nextRadiusIdentifier + 1 }, .removing none c.msgs)
        (here.client, outbound.stage) ∧
      Standing s outbound := by
  cases hs.list with
  | nobody _ hnone => simp [hwork] at hnone
  | answer _ _ _ hnone => simp [hwork] at hnone
  | request work c hreceiving hsome hclient hrun hstanding =>
    obtain rfl : work = outbound := Option.some.inj (hsome.symm.trans hwork)
    exact ⟨c, hclient, hreceiving, hrun, hstanding⟩

/-- With nobody in the list the two are the same. -/
theorem view_eq (hs : Tracks here s) (hreceiving : here.receiving = none)
    (hrequesting : here.requesting = none) : here.view = s := by
  rw [← hs.view_withClient, Controller.withClient, Overlapping.view,
    ← (hs.represents hreceiving hrequesting).client_eq]

theorem moved (hreach : Reachable digests s) (hs : Tracks here s)
    (hfree : (takesMutex here.view e).any here.holds = false)
    (hother : worksOnList digests here.view e = false) (h : step digests here.view e = some t)
    (hrunning : t.halted = none) :
    ∃ s', Reachable digests s' ∧ Tracks { here with controller := t } s' := by
  obtain ⟨hthere, hnone⟩ := step_apart h hrunning hother
  have htaken : step digests s e = some (t.withClient s.radius) := by
    have hframed := step_withClient h hthere hnone s.radius
    rwa [hs.view_withClient] at hframed
  have hanswer : NoAnswer s e := by
    rw [← hs.view_withClient]
    exact hthere
  refine ⟨t.withClient s.radius, hreach.step trivial htaken, rfl, hs.memory, ?_⟩
  cases hs.list with
  | nobody hreceiving hrequesting hclient => exact .nobody hreceiving hrequesting hclient
  | answer work c hreceiving hrequesting hclient hrun =>
    exact .answer work c hreceiving hrequesting hclient hrun
  | request work c hreceiving hrequesting hclient hrun hstanding =>
    have hheld : takesMutex s e ≠ some work.p := by
      have hview : takesMutex here.view e = takesMutex s e := by
        rw [← hs.view_withClient]
        cases e <;> rfl
      rw [← hview]
      intro htakes
      simp [htakes, Overlapping.holds, hrequesting] at hfree
    have hsame : SameFor work.p s (t.withClient s.radius) :=
      ⟨step_heap_held (shortRequests hreach) htaken hanswer hstanding.made hheld,
        (step_eapReqId (answersIdentity_none hanswer) htaken).1, rfl⟩
    exact .request work c hreceiving hrequesting hclient hrun
      (hstanding.same hsame (step_grows htaken).nextPtr)

theorem answerEntered (hs : Tracks here s) (hreceiving : here.receiving = none)
    (hrequesting : here.requesting = none) (call : Call) (msg : RadiusMsg) (p : Ptr) :
    Tracks { here with receiving := some ⟨msg, p, call, .searching none here.client.msgs⟩ } s :=
  ⟨hs.controller, hs.memory, .answer _ here.client rfl hrequesting
    (hs.represents hreceiving hrequesting) .refl⟩

theorem requestEntered {request : Option RadiusMsgList} (hreach : Reachable digests s)
    (hs : Tracks here s) (hreceiving : here.receiving = none) (hrequesting : here.requesting = none)
    (hworker : here.controller.workers[i]? = some worker)
    (hother : ∀ msg q, worker ≠ .receiveRadiusMsg msg q) (hsession : worker.session = some p)
    (htakes : takesIdentifier here.view (.handle i call) = some request) :
    Tracks { here with
      client := { here.client with nextRadiusIdentifier := here.client.nextRadiusIdentifier + 1 }
      requesting := some ⟨worker, p, call, here.view.radius, here.view.eapReqId, request,
        .removing none here.client.msgs⟩ } s := by
  have hview := hs.view_eq hreceiving hrequesting
  have hthere : s.workers[i]? = some worker := by
    rw [← hview]
    exact hworker
  have hmade : p < s.nextPtr := by
    refine takesMutex_made (e := .handle i call) (referredMade hreach) ?_
    simp [takesMutex, hthere, hsession]
  rw [hview] at htakes ⊢
  exact ⟨hs.controller, hs.memory, .request _ here.client hreceiving rfl
    (hs.represents hreceiving hrequesting) .refl
    ⟨rfl, rfl, hother, hsession, hmade, s, i, hthere, ⟨rfl, rfl, rfl⟩, htakes⟩⟩

theorem receiving (hs : Tracks here s) (hcounted : CountHolds s.radius)
    (hwork : here.receiving = some inbound) : ∃ next,
      receiveStatement inbound.msg.identifier here.client inbound.stage = some next ∧
      Tracks { here with
        client := next.1, receiving := some { inbound with stage := next.2 } } s := by
  obtain ⟨c, hclient, hrequesting, hrun⟩ := hs.answering hwork
  have hgoes : (receiveStatement inbound.msg.identifier here.client inbound.stage).isSome := by
    rcases answer_taken_off hclient hcounted inbound.msg.identifier with ⟨-, hend⟩ |
      ⟨c', node, -, -, hend, -⟩
    · exact (receive_last rfl hend hrun).1
    · exact (receive_last rfl hend hrun).1
  obtain ⟨next, hnext⟩ := Option.isSome_iff_exists.mp hgoes
  exact ⟨next, hnext, hs.controller, hs.memory,
    .answer _ c rfl hrequesting hclient (hrun.tail hnext)⟩

/-- The handler of the answer makes the move it would have made in one piece. -/
theorem received {req : Option Nat} (hreach : Reachable digests s)
    (hs : Tracks here s) (hcounted : CountHolds s.radius) (hwork : here.receiving = some inbound)
    (hstage : inbound.stage = .found req)
    (hworker : here.controller.workers[i]? =
      some (.receiveRadiusMsg inbound.msg inbound.p)) :
    ∃ radius, answeredClient here.client inbound.msg.identifier req = some radius ∧
      ∀ t, step digests { here.controller with radius } (.handle i inbound.call) = some t →
        t.halted = none → Reachable digests t ∧
          Tracks { here with
            controller := t, client := releasedClient here.client req, receiving := none } t := by
  obtain ⟨c, hclient, hrequesting, hrun⟩ := hs.answering hwork
  rw [hstage] at hrun
  have hthere : s.workers[i]? = some (.receiveRadiusMsg inbound.msg inbound.p) := by
    rw [← hs.controller]
    exact hworker
  have hdone : ∀ t, step digests s (.handle i inbound.call) = some t →
      (releasedClient here.client req).Represents t.radius → Reachable digests t ∧
        Tracks { here with
          controller := t, client := releasedClient here.client req, receiving := none } t :=
    fun t ht hrepresents =>
      ⟨hreach.step trivial ht, rfl, hs.memory, .nobody rfl hrequesting hrepresents⟩
  rcases answer_taken_off hclient hcounted inbound.msg.identifier with ⟨hnone, hend⟩ |
    ⟨c', node, entry, hsome, hend, hentry, hlisted, hrepresents⟩
  · obtain ⟨hc, hfound⟩ := Prod.mk.inj ((receive_last rfl hend hrun).2 rfl)
    obtain rfl : req = none := ReceiveStage.found.inj hfound
    refine ⟨s.radius, hc ▸ answeredClient_none hclient hnone, fun t ht hrunning => ?_⟩
    have htaken : step digests s (.handle i inbound.call) = some t := hs.controller ▸ ht
    refine hdone t htaken ?_
    rw [(handle_answer hthere htaken hrunning).2, hnone, Option.isSome_none,
      if_neg Bool.false_ne_true, releasedClient, hc]
    exact hclient
  · obtain ⟨hc, hfound⟩ := Prod.mk.inj ((receive_last rfl hend hrun).2 rfl)
    obtain rfl : req = some node := ReceiveStage.found.inj hfound
    obtain ⟨answered, hanswered, hsame, hleft⟩ :=
      answeredClient_some hsome hentry hlisted hrepresents
    refine ⟨answered, hc ▸ hanswered, fun t ht hrunning => ?_⟩
    have hwaits : matching answered inbound.msg.identifier ≠ none := by simp [hsame]
    have htaken : step digests (here.controller.withClient s.radius)
        (.handle i inbound.call) = some t :=
      handle_answered (s := here.controller.withClient answered) hworker hwaits
        (hsome.trans hsame.symm) hleft.symm ht hrunning
    rw [hs.controller] at htaken
    refine hdone t htaken ?_
    rw [(handle_answer hthere htaken hrunning).2, hsome, Option.isSome_some, if_pos rfl,
      releasedClient, hc]
    exact hrepresents

theorem requesting (hs : Tracks here s) (hcounted : CountHolds s.radius)
    (hwork : here.requesting = some outbound) : ∃ next,
      requestStatement outbound.before.nextRadiusIdentifier outbound.request here.client
        outbound.stage = some next ∧
      Tracks { here with
        client := next.1, requesting := some { outbound with stage := next.2 } } s := by
  obtain ⟨c, hclient, hreceiving, hrun, hstanding⟩ := hs.asking hwork
  obtain ⟨c', hend, -⟩ := request_listed hclient hcounted outbound.request
  obtain ⟨next, hnext⟩ := Option.isSome_iff_exists.mp (request_last rfl hend hrun).1
  exact ⟨next, hstanding.before ▸ hnext, hs.controller, hs.memory,
    .request _ c hreceiving rfl hclient (hrun.tail hnext) { hstanding with }⟩

/-- The handler of the request makes the move it would have made in one piece. -/
theorem requested (hreach : Reachable digests s) (hs : Tracks here s)
    (hcounted : CountHolds s.radius) (hwork : here.requesting = some outbound)
    (hstage : outbound.stage = .added)
    (hworker : here.controller.workers[i]? = some outbound.worker)
    (h : step digests { here.controller with
      radius := outbound.before, eapReqId := outbound.eapReqId }
        (.handle i outbound.call) = some t) (hrunning : t.halted = none) :
    Reachable digests t ∧ Tracks { here with
      controller := { t with eapReqId := here.controller.eapReqId }, requesting := none } t := by
  obtain ⟨c, hclient, hreceiving, hrun, hstanding⟩ := hs.asking hwork
  have hkept : here.controller.eapReqId = s.eapReqId := by
    rw [← hs.controller]
    rfl
  have hthere : s.workers[i]? = some outbound.worker := by
    rw [← hs.controller]
    exact hworker
  have hcontroller : { here.controller with
      radius := outbound.before, eapReqId := outbound.eapReqId } = s := by
    rw [hstanding.before, hstanding.eapReqId, ← hkept]
    exact hs.controller
  rw [hcontroller] at h
  have hanswer : ∀ msg q, s.workers[i]? ≠ some (.receiveRadiusMsg msg q) := by
    intro msg q hfound
    exact hstanding.other msg q (Option.some.inj (hthere.symm.trans hfound))
  obtain ⟨hleft, hreq⟩ := handle_clientAfter h hrunning hanswer
  rw [hstanding.takes hthere] at hleft
  obtain ⟨c', hend, hrepresents⟩ := request_listed hclient hcounted outbound.request
  rw [hstage] at hrun
  obtain ⟨hc, -⟩ := Prod.mk.inj ((request_last rfl hend hrun).2 rfl)
  refine ⟨hreach.step trivial h, ?_, hs.memory, .nobody hreceiving rfl ?_⟩
  · rw [hkept, ← hreq]
    rfl
  · rw [hleft]
    exact hc ▸ hrepresents

end Tracks

theorem alone_enter (h : alone here (.enter i call) = true) :
    here.receiving = none ∧ here.requesting = none := by
  simpa [alone] using h

/-- As long as nobody comes to the list while another is in it, the controller with the list
in memory is where one whose handlers are one move each can be. -/
theorem tracks_of_alone (h : ReachableAlone digests initialOverlapping here)
    (hrunning : here.controller.halted = none) : ∃ s, Reachable digests s ∧ Tracks here s := by
  induction h with
  | start =>
    refine ⟨initialController, .start, rfl, rfl, .nobody rfl rfl ?_⟩
    exact ⟨⟨[], rfl, List.nodup_nil, by simp, rfl⟩, rfl, rfl⟩
  | @step here after turn _ hmet htaken ih =>
    have hbefore : here.controller.halted = none := by
      simp only [overlappingStep, Option.ite_none_left_eq_some, Overlapping.stopped,
        Bool.or_eq_true, not_or] at htaken
      simpa using htaken.1.2
    obtain ⟨s, hreach, hs⟩ := ih hbefore
    have hcounted : CountHolds s.radius := by
      refine (overlapping_of_reachable hreach ?_).1
      rw [← hs.controller]
      exact hbefore
    cases overlappingStep_taken htaken with
    | moved e t hfree hother ht => exact hs.moved hreach hfree hother ht hrunning
    | answerEntered i call msg p =>
      obtain ⟨hreceiving, hrequesting⟩ := alone_enter hmet
      exact ⟨s, hreach, hs.answerEntered hreceiving hrequesting call msg p⟩
    | requestEntered i call worker p request hworker hother hsession htakes =>
      obtain ⟨hreceiving, hrequesting⟩ := alone_enter hmet
      exact ⟨s, hreach,
        hs.requestEntered hreach hreceiving hrequesting hworker hother hsession htakes⟩
    | receiving work client stage hwork hnext =>
      obtain ⟨next, hgoes, hafter⟩ := hs.receiving hcounted hwork
      obtain rfl : next = (client, stage) := Option.some.inj (hgoes.symm.trans hnext)
      exact ⟨s, hreach, hafter⟩
    | receiveFollowedFreed work hwork hnext =>
      obtain ⟨next, hgoes, -⟩ := hs.receiving hcounted hwork
      simp [hgoes] at hnext
    | requesting work client stage hwork hnext =>
      obtain ⟨next, hgoes, hafter⟩ := hs.requesting hcounted hwork
      obtain rfl : next = (client, stage) := Option.some.inj (hgoes.symm.trans hnext)
      exact ⟨s, hreach, hafter⟩
    | requestFollowedFreed work hwork hnext =>
      obtain ⟨next, hgoes, -⟩ := hs.requesting hcounted hwork
      simp [hgoes] at hnext
    | received i work req radius t hwork hstage hworker hanswered ht =>
      obtain ⟨found, hfound, hdone⟩ := hs.received hreach hcounted hwork hstage hworker
      obtain rfl : found = radius := Option.some.inj (hfound.symm.trans hanswered)
      exact ⟨t, hdone t ht hrunning⟩
    | answerFollowedFreed i work req hwork hstage hworker hanswered =>
      obtain ⟨found, hfound, -⟩ := hs.received hreach hcounted hwork hstage hworker
      simp [hfound] at hanswered
    | requested i work t hwork hstage hworker ht =>
      exact ⟨t, hs.requested hreach hcounted hwork hstage hworker ht hrunning⟩

/-- A pointer to a freed request is followed only when an answer and a request are in the
list together. -/
theorem memory_of_alone (h : ReachableAlone digests initialOverlapping here)
    (hrunning : here.controller.halted = none) : here.followedFreed = false := by
  obtain ⟨s, -, hs⟩ := tracks_of_alone h hrunning
  exact hs.memory

/-- The states of the controller whose handlers are one move each are those of the one with
the list in memory, seen while nobody is in the list. -/
theorem reachable_iff_alone (hrunning : s.halted = none) :
    Reachable digests s ↔ ∃ here, ReachableAlone digests initialOverlapping here ∧
      here.receiving = none ∧ here.requesting = none ∧ here.view = s := by
  constructor
  · intro h
    obtain ⟨-, c, hruns, hclient⟩ := overlapping_of_reachable h hrunning
    exact ⟨_, hruns, rfl, rfl, Overlapping.view_eq hclient⟩
  · rintro ⟨here, h, hreceiving, hrequesting, rfl⟩
    obtain ⟨s, hreach, hs⟩ := tracks_of_alone h hrunning
    rw [hs.view_eq hreceiving hrequesting]
    exact hreach

end CoapEap.Mainserver
