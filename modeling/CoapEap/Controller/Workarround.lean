import CoapEap.Controller.WellFormed

/-!
The identity workaround of `process_receive_radius_msg` and the mutex of its
session. The workaround is the only handler that stands inside its critical
section between two steps.
-/

namespace CoapEap.Mainserver

open Cantcoap EapServer Lalarm Radius Library.Runs

/-- Inside the identity workaround the session is locked, and only one worker is
there. -/
def WorkarroundLocked (s : Controller) : Prop :=
  ∀ p, s.activities.count (.radiusIdentity p) ≤ (s.heap p).mutex.toNat

variable {digests : Digests} {s t : Controller} {e : Event} {i : Nat} {p : Ptr}

theorem count_activities_of_worker {worker : Worker} (hworker : s.workers[i]? = some worker)
    (w : Worker) :
    s.activities.count w = (s.others i).count w + if worker = w then 1 else 0 := by
  rw [(activities_of_worker hworker).count_eq, List.count_cons]
  simp

theorem count_activities_setWorker {worker : Worker} (worker' : Worker)
    (hworker : s.workers[i]? = some worker) (w : Worker) :
    (setWorker s i worker').activities.count w =
      (s.others i).count w + if worker' = w then 1 else 0 := by
  rw [(activities_setWorker worker' hworker).count_eq, List.count_cons]
  simp

/-- A move in which no worker enters the workaround and no mutex is given back. -/
theorem WorkarroundLocked.of_frame (hs : WorkarroundLocked s)
    (hcount : ∀ p, t.activities.count (.radiusIdentity p) ≤ s.activities.count (.radiusIdentity p))
    (hmutex : ∀ p, (s.heap p).mutex = true → (t.heap p).mutex = true) : WorkarroundLocked t := by
  intro p
  have hbefore := Nat.le_trans (hcount p) (hs p)
  cases hlocked : (s.heap p).mutex with
  | true =>
    rw [hlocked] at hbefore
    rw [hmutex p hlocked]
    exact hbefore
  | false =>
    rw [hlocked] at hbefore
    exact Nat.le_trans hbefore (Nat.zero_le _)

theorem count_setWorker_le {worker worker' : Worker} (hworker : s.workers[i]? = some worker)
    (hother : worker' ≠ .radiusIdentity p) :
    (setWorker s i worker').activities.count (.radiusIdentity p) ≤
      s.activities.count (.radiusIdentity p) := by
  rw [count_activities_setWorker worker' hworker, count_activities_of_worker hworker,
    if_neg hother]
  omega

theorem count_addTask_eq (s : Controller) (task : Task) (p : Ptr) :
    (addTask s task).activities.count (.radiusIdentity p) =
      s.activities.count (.radiusIdentity p) := by
  rw [(activities_addTask s task).count_eq, List.count_cons]
  simp

/-- The mutex of a session, across a handler that does not end with it. -/
structure MutexKept (s t : Controller) : Prop where
  workers : t.workers = s.workers
  tasks : t.tasks = s.tasks
  mutex : ∀ p, (s.heap p).mutex = true → (t.heap p).mutex = true

theorem Touches.mutexKept {p : Ptr} (h : Touches p s t)
    (hself : (s.heap p).mutex = true → (t.heap p).mutex = true) : MutexKept s t where
  workers := h.workers
  tasks := h.tasks
  mutex := by
    intro q hq
    by_cases hother : q = p
    · subst hother
      exact hself hq
    · rw [h.others q hother]
      exact hq

theorem WorkarroundLocked.ended (hs : WorkarroundLocked s) (h : MutexKept s t) :
    WorkarroundLocked (endWorker t i) := by
  refine hs.of_frame ?_ h.mutex
  intro p
  rw [activities_endWorker, Controller.others, Controller.activities, h.workers, h.tasks]
  exact ((List.eraseIdx_sublist ..).append_left _).count_le _

/-- A worker that stands in the workaround holds the mutex of its session. -/
theorem identityWorkarround_locks {msg : RadiusMsg} {call : Call}
    (h : processReceiveRadiusMsg digests s msg p call = .ok (t, true)) :
    (t.heap p).mutex = true := by
  obtain ⟨u, -, -, ⟨-, -, -, hidentity⟩ | ⟨packet, -, ⟨-, rfl, -⟩ | ⟨-, -, hidentity⟩⟩⟩ :=
    processReceiveRadiusMsg_ok h
  · exact Bool.noConfusion hidentity
  · simp [identityWorkarround]
  · exact Bool.noConfusion hidentity

theorem WorkarroundLocked.step (hwf : WellFormed s) (hs : WorkarroundLocked s)
    (h : step digests s e = some t) : WorkarroundLocked t := by
  obtain ⟨-, hmove⟩ := step_move h
  cases hmove with
  | created datagram source arrival =>
    intro p
    have hcount : (newSession s (datagram.take (maxBufLen - 1)) source
        arrival).activities.count (.radiusIdentity p) =
          s.activities.count (.radiusIdentity p) :=
      count_addTask_eq _ _ p
    rw [hcount]
    by_cases hp : p = s.nextPtr
    · have hnone : Worker.radiusIdentity p ∉ s.activities := by
        intro hmem
        have hmade := hwf.activities _ hmem p (by simp [Worker.pointers])
        exact absurd hp (Nat.ne_of_lt hmade)
      rw [List.count_eq_zero_of_not_mem hnone]
      exact Nat.zero_le _
    · rw [newSession_heap_ne _ _ _ hp]
      exact hs p
  | queued task p =>
    refine hs.of_frame (fun q => ?_) (fun q hq => ?_)
    · exact Nat.le_of_eq (count_addTask_eq _ _ q)
    · refine ((touches_setReceived p s task.buf).mutexKept ?_).mutex q hq
      simp
  | arrived datagram msg =>
    exact hs.of_frame (fun q => Nat.le_of_eq (count_addTask_eq _ _ q)) fun _ h => h
  | taken task rest hqueue =>
    exact hs.of_frame (fun q => Nat.le_of_eq ((activities_taken hqueue).count_eq _)) fun _ h => h
  | foundCoap i stack task p hworker =>
    exact hs.of_frame (fun q => count_setWorker_le hworker (by simp)) fun _ h => h
  | foundAcknowledgment i stack task post p hworker =>
    exact hs.of_frame (fun q => count_setWorker_le hworker (by simp)) fun _ h => h
  | foundContext i stack msg p hworker =>
    exact hs.of_frame (fun q => count_setWorker_le hworker (by simp)) fun _ h => h
  | noContext i => exact hs.ended ⟨rfl, rfl, fun _ h => h⟩
  | readId i stack origin hworker =>
    exact hs.of_frame (fun q => count_setWorker_le hworker (by simp)) fun _ h => h
  | readSession i stack origin id hworker =>
    exact hs.of_frame (fun q => count_setWorker_le hworker (by simp)) fun _ h => h
  | handledCoap i call task p u hworker _ hresult =>
    refine hs.ended ((touches_processCoapMsg hresult).mutexKept ?_)
    intro hlocked
    simp_all
  | handledAcknowledgment i call task post p u hworker _ hresult =>
    obtain ⟨request, -, hsession⟩ := processAcknowledgment_session hresult
    refine hs.ended ((touches_processAcknowledgment hresult).mutexKept ?_)
    rw [hsession]
    exact fun h => h
  | handledRadius i call msg p u hworker hunlocked hresult =>
    refine hs.ended ((touches_processReceiveRadiusMsg hresult).mutexKept ?_)
    simp [hunlocked]
  | wroteIdentity i call msg p u hworker hunlocked hresult =>
    have htouches := touches_processReceiveRadiusMsg hresult
    have hworking : u.workers[i]? = some (.receiveRadiusMsg msg p) := by
      rw [htouches.workers]
      exact hworker
    intro q
    rw [count_activities_setWorker _ hworking, htouches.othersOf]
    have hbefore := hs q
    rw [count_activities_of_worker hworker, if_neg (by simp)] at hbefore
    by_cases hq : q = p
    · subst hq
      have hlocked : (u.heap q).mutex = true := identityWorkarround_locks hresult
      have hlocked' : ((setWorker u i (.radiusIdentity q)).heap q).mutex = true := hlocked
      rw [hunlocked] at hbefore
      rw [hlocked', if_pos rfl]
      exact Nat.add_le_add_right hbefore 1
    · have hsame : ((setWorker u i (.radiusIdentity p)).heap q).mutex = (s.heap q).mutex := by
        have hother := htouches.others q hq
        rw [setWorker, hother]
      rw [hsame, if_neg (by simpa using Ne.symm hq)]
      exact hbefore
  | handedIdentity i call p u hworker hresult =>
    have htouches := touches_identityHandOver hresult
    intro q
    rw [activities_endWorker, htouches.othersOf]
    have hbefore := hs q
    rw [count_activities_of_worker hworker] at hbefore
    by_cases hq : q = p
    · subst hq
      rw [if_pos rfl] at hbefore
      have hbound : (s.heap q).mutex.toNat ≤ 1 := Bool.toNat_le _
      have hnone : (s.others i).count (.radiusIdentity q) ≤ 0 := by omega
      exact Nat.le_trans hnone (Nat.zero_le _)
    · have hsame : ((endWorker u i).heap q).mutex = (s.heap q).mutex := by
        have hother := htouches.others q hq
        rw [endWorker, hother]
      rw [hsame]
      exact Nat.le_trans (Nat.le_add_right _ _) hbefore
  | handledRetr i call origin id p u hworker _ hresult =>
    refine hs.ended ((touches_processRetrCoapEap hresult).mutexKept ?_)
    rw [processRetrCoapEap_session hresult]
    exact fun h => h
  | queuedRetr time alarm =>
    exact hs.of_frame (fun q => Nat.le_of_eq (count_addTask_eq _ _ q)) fun _ h => h
  | _ => exact hs.of_frame (fun _ => Nat.le_refl _) fun _ h => h

theorem workarroundLocked {guard : Controller → Event → Prop}
    (h : ReachableUnder (step digests) guard initialController s) : WorkarroundLocked s := by
  refine h.invariant ?_ fun _ _ _ hbefore hs _ hstep => hs.step (wellFormed hbefore) hstep
  intro p
  simp [initialController, Controller.activities]

end CoapEap.Mainserver
