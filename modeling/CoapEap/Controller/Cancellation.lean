import CoapEap.Controller.Retransmission
import CoapEap.Controller.WellFormed

/-!
Retransmission against acknowledgment. `process_acknowledgment` leaves the alarm
of an acknowledged POST in the list unless the session is in its last state; the
handler of the RADIUS answer takes it out. So the POST is sent again when its
alarm comes due in between, or when it had come due already.
-/

namespace CoapEap.Mainserver

open Cantcoap EapServer Lalarm Radius Library.Logs Library.Runs

/-- A retransmission in session `p` is under way: an alarm of the session was
popped, or the parameters name it and a task has yet to read them, or a worker
has it in hand. -/
def aimedAt (s : Controller) (p : Ptr) : Bool :=
  s.alarmThread.alarm.any (fun a => a.session = p) ||
    (s.retransParams.session = p && s.activities.any fun w => w.unread.isSome) ||
    s.activities.any fun w => w.origin.isSome && w.session = some p

/-- An acknowledgment of the POST outstanding in session `p` was executed. -/
def acknowledged (s : Controller) (p : Ptr) : Bool :=
  s.log.contains (.acknowledged p (s.heap p).posts)

/-- An alarm expires only while its session waits for an acknowledgment, and the
acknowledgment is executed only while no retransmission is under way. -/
def acknowledgedInTime (s : Controller) : Event → Bool
  | .alarmStep =>
    match s.alarmThread, s.alarms with
    | .sweeping time, alarm :: _ =>
      if alarm.tmp < time then !acknowledged s alarm.session else true
    | _, _ => true
  | .handle i _ =>
    match s.workers[i]? with
    | some (.acknowledgment task _ p) =>
      !answersOutstanding (s.heap p) task.buf || !aimedAt s p
    | _ => true
  | _ => true

structure NotAimed (s : Controller) (p : Ptr) : Prop where
  popped : ∀ a, s.alarmThread.alarm = some a → a.session ≠ p
  unread : s.retransParams.session = p → ∀ w ∈ s.activities, w.unread = none
  inHand : ∀ w ∈ s.activities, w.origin ≠ none → w.session ≠ some p

variable {s t : Controller} {i : Nat} {e : Event} {digests : Digests}

theorem aimedAt_eq_false {p : Ptr} : aimedAt s p = false ↔ NotAimed s p := by
  simp only [aimedAt, Bool.or_eq_false_iff, Bool.and_eq_false_iff, List.any_eq_false,
    Option.any_eq_false]
  constructor
  · rintro ⟨⟨hpopped, hunread⟩, hinHand⟩
    refine ⟨?_, ?_, ?_⟩
    · intro a ha
      simpa using hpopped a ha
    · intro hsession w hw
      rcases hunread with hother | hnone
      · simp [hsession] at hother
      · simpa using hnone w hw
    · intro w hw horigin hsession
      have hnot := hinHand w hw
      simp [hsession, Option.isSome_iff_ne_none, horigin] at hnot
  · intro h
    refine ⟨⟨?_, ?_⟩, ?_⟩
    · intro a ha
      simpa using h.popped a ha
    · by_cases hsession : s.retransParams.session = p
      · right
        intro w hw
        simp [h.unread hsession w hw]
      · left
        simpa using hsession
    · intro w hw
      by_cases horigin : w.origin = none
      · simp [horigin]
      · simp [h.inHand w hw horigin]

/-- A retransmission turns to another session only when one of its alarms is
popped. -/
theorem NotAimed.step {p : Ptr} (hs : NotAimed s p) (hwritten : WrittenSession s)
    (hpop : ∀ time alarm rest, e = .alarmStep → s.alarmThread = .sweeping time →
      s.alarms = alarm :: rest → alarm.tmp < time → alarm.session ≠ p)
    (h : step digests s e = some t) : NotAimed t p := by
  cases step_retrMove h with
  | apart _ _ hleaves =>
    refine ⟨by rw [hleaves.alarmThread]; exact hs.popped, ?_, ?_⟩
    · rw [hleaves.retransParams]
      intro hsession w hw
      rcases hleaves.members w hw with hold | hnone
      · exact hs.unread hsession w hold
      · exact unread_of_origin hnone
    · intro w hw horigin
      rcases hleaves.members w hw with hold | hnone
      · exact hs.inHand w hold horigin
      · exact absurd hnone horigin
  | readId i _ origin hworker =>
    have hmem := mem_activities_of_worker hworker
    refine ⟨hs.popped, ?_, ?_⟩
    · intro hsession w hw
      have hnone := hs.unread hsession _ hmem
      simp [Worker.unread] at hnone
    · intro w hw horigin
      rcases mem_activities_setWorker hw with rfl | hold
      · simp [Worker.session]
      · exact hs.inHand w hold horigin
  | readSession i _ origin id hworker =>
    have hmem := mem_activities_of_worker hworker
    have hother : s.retransParams.session ≠ p := by
      intro hsession
      have hnone := hs.unread hsession _ hmem
      simp [Worker.unread] at hnone
    refine ⟨hs.popped, ?_, ?_⟩
    · intro hsession
      exact absurd hsession hother
    · intro w hw horigin
      have hw : w ∈ (setWorker s i (.retrCoapEap origin id s.retransParams.session)).activities :=
        hw
      rcases mem_activities_setWorker hw with rfl | hold
      · simpa [Worker.session] using hother
      · exact hs.inHand w hold horigin
  | swept _ stage _ hafter =>
    exact ⟨by simp [hafter], hs.unread, hs.inHand⟩
  | popped time alarm rest hsweeping hlist hdue =>
    refine ⟨?_, hs.unread, hs.inHand⟩
    intro a ha
    obtain rfl : alarm = a := by simpa [AlarmThread.alarm] using ha
    exact hpop time alarm rest rfl hsweeping hlist hdue
  | wroteSession time alarm hstage =>
    have hother : alarm.session ≠ p := hs.popped alarm (by rw [hstage]; rfl)
    refine ⟨fun a ha => hs.popped a (by rw [hstage]; exact ha), ?_, hs.inHand⟩
    intro hsession
    exact absurd hsession hother
  | clearedId time alarm hstage =>
    exact ⟨fun a ha => hs.popped a (by rw [hstage]; exact ha), hs.unread, hs.inHand⟩
  | wroteId time alarm hstage =>
    exact ⟨fun a ha => hs.popped a (by rw [hstage]; exact ha), hs.unread, hs.inHand⟩
  | unknownAlarm time alarm hstage =>
    exact ⟨by simp [AlarmThread.alarm], hs.unread, hs.inHand⟩
  | queuedRetr time alarm hstage =>
    have hother : alarm.session ≠ p := hs.popped alarm (by rw [hstage]; rfl)
    have hsession : s.retransParams.session = alarm.session :=
      hwritten alarm (by rw [hstage]; rfl)
    refine ⟨by simp [AlarmThread.alarm], ?_, ?_⟩
    · intro hparams
      exact absurd (hsession.symm.trans hparams) hother
    · intro w hw horigin
      rcases mem_activities_addTask hw with rfl | hold
      · simp [Worker.session]
      · exact hs.inHand w hold horigin

/-- What the acknowledgment of an outstanding POST is worth: nothing is on its
way to send the POST again, and so far nothing did. -/
structure Settled (s : Controller) : Prop where
  notAimed : ∀ p, acknowledged s p = true → NotAimed s p
  never : ∀ p n, NeverAfter (.acknowledged p n) (.retransmitted p n) s.log

/-- A session whose outstanding POST is acknowledged after a step had the same
POST outstanding before it, and no retransmission was under way. -/
theorem Settled.notAimed_before {p : Ptr} (hs : Settled s) (hwell : WellFormed s)
    (hguard : acknowledgedInTime s e = true) (h : step digests s e = some t)
    (hack : acknowledged t p = true) :
    NotAimed s p ∧ (e = .alarmStep → acknowledged s p = true) := by
  obtain ⟨new, hlog, hnew⟩ := step_log h
  have hmem : Occurrence.acknowledged p (t.heap p).posts ∈ s.log ++ new := by
    simpa [acknowledged, hlog] using hack
  rcases List.mem_append.mp hmem with hold | hfresh
  · obtain ⟨hp, hbound⟩ := hwell.acknowledged p _ hold
    have hsame : (t.heap p).posts = (s.heap p).posts :=
      Nat.le_antisymm hbound ((step_grows h).posts p hp)
    have hbefore : acknowledged s p = true := by
      simpa [acknowledged, hsame] using hold
    exact ⟨hs.notAimed p hbefore, fun _ => hbefore⟩
  · have hnoted := hnew _ hfresh
    cases hnoted with
    | byHandler i call worker q _ hworking hnotes =>
      refine ⟨?_, by simp⟩
      generalize hn : (t.heap p).posts = n at hnotes
      cases hnotes with
      | acknowledged task post hanswers =>
        simp only [acknowledgedInTime, hworking, hanswers, Bool.not_true, Bool.false_or,
          Bool.not_eq_true'] at hguard
        exact aimedAt_eq_false.mp hguard

theorem Settled.step (hs : Settled s) (hwell : WellFormed s) (hwritten : WrittenSession s)
    (hguard : acknowledgedInTime s e = true) (h : step digests s e = some t) : Settled t := by
  constructor
  · intro p hack
    obtain ⟨hnotAimed, hbefore⟩ := hs.notAimed_before hwell hguard h hack
    refine hnotAimed.step hwritten ?_ h
    rintro time alarm rest rfl hsweeping hlist hdue rfl
    have hfree : acknowledged s alarm.session = false := by
      simpa [acknowledgedInTime, hsweeping, hlist, hdue] using hguard
    rw [hbefore rfl] at hfree
    exact Bool.noConfusion hfree
  · intro p n
    obtain ⟨new, hlog, hnew⟩ := step_log h
    rw [hlog]
    by_cases hretr : Occurrence.retransmitted p n ∈ new
    · have hnoted := hnew _ hretr
      cases hnoted with
      | byHandler i call worker q _ hworking hnotes =>
        cases hnotes with
        | retransmitted origin id =>
          -- the worker is in a retransmission, so it acknowledges nothing
          have hfirst : Occurrence.acknowledged p (s.heap p).posts ∉ new := by
            intro hack
            have hother := hnew _ hack
            cases hother with
            | byHandler _ _ worker' q' _ hworking' hnotes' =>
              rw [hworking] at hworking'
              obtain rfl := Option.some.inj hworking'
              cases hnotes'
          refine (hs.never p _).append (neverAfter_of_first_not_mem hfirst) ?_
          intro _ hack
          have hnotAimed := hs.notAimed p (by simpa [acknowledged] using hack)
          exact hnotAimed.inHand _ (mem_activities_of_worker hworking) (by simp [Worker.origin])
            rfl
    · exact (hs.never p n).append (neverAfter_of_not_mem hretr) fun hmem => absurd hmem hretr

/-- In a run where alarms expire only in sessions still waiting for their
acknowledgment, and acknowledgments are executed only where no retransmission is
under way, no POST is retransmitted after its acknowledgment. -/
theorem no_retransmission_after_acknowledgment
    (h : ReachableUnder (step digests) (fun s e => acknowledgedInTime s e = true)
      initialController s) (p : Ptr) (n : Nat) :
    NeverAfter (.acknowledged p n) (.retransmitted p n) s.log := by
  have hsettled : Settled s := by
    refine h.invariant ⟨?_, ?_⟩ fun _ _ _ hreach hs hguard hstep =>
      hs.step (wellFormed hreach) (writtenSession hreach) hguard hstep
    · simp [acknowledged, initialController]
    · intro p n
      exact neverAfter_nil _ _
  exact hsettled.never p n

/-- The alarm thread pops an alarm, and a worker executes its task. -/
def expires (time : Rat) : List Event :=
  [.wake time, .alarmStep, .alarmStep, .alarmStep, .alarmStep, .alarmStep, .getTask,
    .lookup 0 [], .lookup 0 [], .handle 0 {}]

/-- The first POST is lost and sent again, then acknowledged. -/
theorem no_retransmission_after_late_acknowledgment : ∃ s,
    ReachableUnder (step noAnswers) (fun s e => acknowledgedInTime s e = true)
      initialController s ∧
    .retransmitted 0 1 ∈ s.log ∧ .acknowledged 0 1 ∈ s.log ∧
    NeverAfter (.acknowledged 0 1) (.retransmitted 0 1) s.log := by
  have hrun : (run (guarded (step noAnswers) fun s e => acknowledgedInTime s e = true)
      initialController (comesIn 1 ++ expires 100 ++ acknowledges 1 1)).any
        (fun s => s.log.contains (.retransmitted 0 1) && s.log.contains (.acknowledged 0 1)) =
          true := by
    decide +kernel
  obtain ⟨s, hs, hcheck⟩ := exists_of_run hrun
  have hreach := reachableUnder_of_run hs
  simp only [Bool.and_eq_true, List.contains_iff_mem] at hcheck
  exact ⟨s, hreach, hcheck.1, hcheck.2, no_retransmission_after_acknowledgment hreach 0 1⟩

/-- The first POST is acknowledged at once, and sent again because the RADIUS
server has not answered when its alarm comes due. -/
theorem acknowledged_post_retransmitted :
    ¬ ∀ digests s, Reachable digests s → ∀ p n,
      NeverAfter (.acknowledged p n) (.retransmitted p n) s.log := by
  intro hstated
  have hrun : (run (step noAnswers) initialController
      (comesIn 1 ++ acknowledges 1 1 ++ expires 100)).any
        (fun s => !decide (NeverAfter (.acknowledged 0 1) (.retransmitted 0 1) s.log)) =
          true := by
    decide +kernel
  obtain ⟨s, hs, hcheck⟩ := exists_of_run hrun
  have hnever := hstated noAnswers s (reachable_of_run hs) 0 1
  simp [hnever] at hcheck

end CoapEap.Mainserver
