import CoapEap.Controller.Lalarm
import CoapEap.Library.FirstMatch
import CoapEap.Library.Runs
import Mathlib.Data.Rat.Floor

/-!
The alarm list as a timer queue. Only the head of the list is looked at when
alarms are taken off, so the list serves its purpose while it is in order of
expiry. The order that an insertion makes is one of whole seconds: within a
second it depends on where the alarm is put.
-/

namespace CoapEap.Lalarm

open Library.FirstMatch Library.Runs

theorem timeT_of_nonneg {t : Rat} (h : 0 ≤ t) : timeT t = ⌊t⌋ := by
  rw [timeT, Rat.floor_def', Int.tdiv_eq_ediv_of_nonneg (Rat.num_nonneg.mpr h)]

theorem timeT_neg (t : Rat) : timeT (-t) = -timeT t := by
  simp [timeT, Int.neg_tdiv]

theorem timeT_mono {a b : Rat} (h : a ≤ b) : timeT a ≤ timeT b := by
  rcases le_total 0 a with ha | ha
  · rw [timeT_of_nonneg ha, timeT_of_nonneg (ha.trans h)]
    exact Int.floor_le_floor h
  · have hbelow : timeT a = -⌊-a⌋ := by
      rw [← timeT_of_nonneg (neg_nonneg.mpr ha), timeT_neg, neg_neg]
    rw [hbelow]
    rcases le_total 0 b with hb | hb
    · have hfloor : 0 ≤ ⌊-a⌋ := Int.floor_nonneg.mpr (neg_nonneg.mpr ha)
      have hsecond : 0 ≤ ⌊b⌋ := Int.floor_nonneg.mpr hb
      rw [timeT_of_nonneg hb]
      omega
    · have habove : timeT b = -⌊-b⌋ := by
        rw [← timeT_of_nonneg (neg_nonneg.mpr hb), timeT_neg, neg_neg]
      have hfloor : ⌊-b⌋ ≤ ⌊-a⌋ := Int.floor_le_floor (neg_le_neg h)
      rw [habove]
      omega

/-- An alarm of an earlier second expires earlier. -/
theorem lt_of_timeT_lt {a b : Rat} (h : timeT a < timeT b) : a < b := by
  by_contra hle
  have hmono := timeT_mono (not_lt.mp hle)
  omega

/-- In order of expiry. -/
def Sorted (list : List Alarm) : Prop := list.Pairwise fun a b => a.tmp ≤ b.tmp

variable {new : Alarm} {list rest : List Alarm} {first : Alarm}

theorem Sorted.tail (h : Sorted (first :: rest)) : Sorted rest := (List.pairwise_cons.mp h).2

theorem Sorted.head_le (h : Sorted (first :: rest)) : ∀ a ∈ rest, first.tmp ≤ a.tmp :=
  (List.pairwise_cons.mp h).1

/-- Behind the first alarm a new one comes in front of those of its second. -/
theorem insertAlarm_sorted_iff (hs : Sorted list) : Sorted (insertAlarm new list) ↔
    ∀ a ∈ list, timeT a.tmp = timeT new.tmp → new.tmp ≤ a.tmp := by
  induction list with
  | nil => simp [insertAlarm, Sorted]
  | cons aux rest ih =>
    have hhead := hs.head_le
    unfold insertAlarm
    split
    · rename_i hbefore
      have hnew : aux.tmp ≤ new.tmp := (lt_of_timeT_lt hbefore).le
      have hfirst : ∀ b ∈ insertAlarm new rest, aux.tmp ≤ b.tmp := by
        intro b hb
        rcases List.mem_cons.mp ((insertAlarm_perm new rest).mem_iff.mp hb) with rfl | hold
        · exact hnew
        · exact hhead b hold
      rw [Sorted, List.pairwise_cons, and_iff_right hfirst, ← Sorted, ih hs.tail,
        List.forall_mem_cons]
      constructor
      · intro hrest
        exact ⟨fun hsame => absurd hsame hbefore.ne, hrest⟩
      · rintro ⟨-, hrest⟩
        exact hrest
    · rename_i hnot
      rw [Sorted, List.pairwise_cons, ← Sorted, and_iff_left hs]
      constructor
      · intro hall a ha _
        exact hall a ha
      · intro hsecond a ha
        have haux : aux.tmp ≤ a.tmp := by
          rcases List.mem_cons.mp ha with rfl | hold
          · exact le_refl _
          · exact hhead a hold
        rcases (not_lt.mp hnot).eq_or_lt with hsame | hlater
        · exact (hsecond aux (List.mem_cons_self ..) hsame.symm).trans haux
        · exact (lt_of_timeT_lt hlater).le.trans haux

/-- The new alarm does not come between the wrong alarms of its second: the first
alarm of the list, if it is one of them, expires before it, and all others after
it. -/
def keepsOrder (list : List Alarm) (new : Alarm) : Bool :=
  match list with
  | [] => true
  | first :: rest =>
    (timeT first.tmp ≠ timeT new.tmp || first.tmp ≤ new.tmp) &&
      rest.all fun a => timeT a.tmp ≠ timeT new.tmp || new.tmp ≤ a.tmp

theorem keepsOrder_cons : keepsOrder (first :: rest) new = true ↔
    (timeT first.tmp = timeT new.tmp → first.tmp ≤ new.tmp) ∧
      ∀ a ∈ rest, timeT a.tmp = timeT new.tmp → new.tmp ≤ a.tmp := by
  simp [keepsOrder, imp_iff_not_or]

/-- An insertion keeps the order exactly when it meets the condition. -/
theorem addAlarmCoapEap_sorted_iff (hs : Sorted list) :
    Sorted (addAlarmCoapEap list new) ↔ keepsOrder list new = true := by
  cases list with
  | nil => simp [addAlarmCoapEap, Sorted, keepsOrder]
  | cons first rest =>
    have hhead := hs.head_le
    rw [keepsOrder_cons]
    simp only [addAlarmCoapEap]
    split
    · rename_i hbefore
      have hfirst : ∀ b ∈ insertAlarm new rest, first.tmp ≤ b.tmp := by
        intro b hb
        rcases List.mem_cons.mp ((insertAlarm_perm new rest).mem_iff.mp hb) with rfl | hold
        · exact (lt_of_timeT_lt hbefore).le
        · exact hhead b hold
      rw [Sorted, List.pairwise_cons, and_iff_right hfirst, ← Sorted,
        insertAlarm_sorted_iff hs.tail]
      constructor
      · intro hrest
        exact ⟨fun hsame => absurd hsame hbefore.ne, hrest⟩
      · rintro ⟨-, hrest⟩
        exact hrest
    · rename_i hnot
      split
      · rename_i hafter
        have hnew : new.tmp ≤ first.tmp := (lt_of_timeT_lt hafter).le
        constructor
        · intro _
          exact ⟨fun hsame => absurd hsame.symm hafter.ne, fun a ha _ => hnew.trans (hhead a ha)⟩
        · intro _
          rw [Sorted, List.pairwise_cons, List.forall_mem_cons]
          exact ⟨⟨hnew, fun a ha => hnew.trans (hhead a ha)⟩, hs⟩
      · rename_i hnotAfter
        have hsame : timeT first.tmp = timeT new.tmp := by omega
        rw [Sorted, List.pairwise_cons, List.pairwise_cons, List.forall_mem_cons]
        constructor
        · rintro ⟨⟨hfirst, -⟩, hrest, -⟩
          exact ⟨fun _ => hfirst, fun a ha _ => hrest a ha⟩
        · rintro ⟨hfirst, hsecond⟩
          refine ⟨⟨hfirst hsame, hhead⟩, ?_, hs.tail⟩
          intro a ha
          rcases (timeT_mono (hhead a ha)).eq_or_lt with hother | hlater
          · exact hsecond a ha (hother.symm.trans hsame)
          · exact (lt_of_timeT_lt (hsame ▸ hlater)).le

/-- The calls that change the list: `add_alarm_coap_eap` at a clock value with a
delay, `get_alarm_coap_eap_session` and `get_next_alarm_coap_eap`. -/
inductive ListCall
  | add (session : Nat) (now delay : Rat) (id post : Nat)
  | cancel (sessionId : UInt32) (id : Nat)
  | next (time : Rat)
  deriving DecidableEq, Repr

/-- The alarm that a call puts into the list. -/
def ListCall.armed : ListCall → List Alarm
  | .add session now delay id post => [⟨session, now + delay, id, post⟩]
  | _ => []

/-- The alarm that a call takes out of the list. -/
def ListCall.taken (sessionId : Nat → UInt32) (list : List Alarm) : ListCall → List Alarm
  | .add .. => []
  | .cancel id kind => (findAlarmCoapEapSession sessionId list id kind).toList
  | .next time => ((getNextAlarmCoapEap list time).map Prod.fst).toList

/-- The list after a call. -/
def callList (sessionId : Nat → UInt32) (list : List Alarm) : ListCall → Option (List Alarm)
  | .add session now delay id post =>
    some (addAlarmCoapEap list ⟨session, now + delay, id, post⟩)
  | .cancel id kind => some (getAlarmCoapEapSession sessionId list id kind)
  | .next time => some (((getNextAlarmCoapEap list time).map Prod.snd).getD list)

/-- `get_next_alarm_coap_eap` takes the alarm that expires first, and none only when
none has expired. -/
def TakesFirst (list : List Alarm) (time : Rat) : Prop :=
  match getNextAlarmCoapEap list time with
  | none => ∀ a ∈ list, ¬ a.tmp < time
  | some (a, _) => a ∈ list ∧ a.tmp < time ∧ ∀ b ∈ list, a.tmp ≤ b.tmp

/-- What is asked of a call: the list stays in order, alarms come and go only as
the call says, and the next alarm is the right one. -/
structure CallCorrect (sessionId : Nat → UInt32) (list : List Alarm) (call : ListCall)
    (list' : List Alarm) : Prop where
  sorted : Sorted list'
  conserved : (list ++ call.armed).Perm (list' ++ call.taken sessionId list)
  cancelled : ∀ id kind, call = .cancel id kind → ∀ a ∈ list,
    sessionId a.session = id → a.id = kind → ∃ b ∈ call.taken sessionId list,
      sessionId b.session = id ∧ b.id = kind
  next : ∀ time, call = .next time → TakesFirst list time

/-- An alarm is added where it keeps the order. -/
def addsInOrder (list : List Alarm) : ListCall → Bool
  | .add session now delay id post => keepsOrder list ⟨session, now + delay, id, post⟩
  | _ => true

variable {sessionId : Nat → UInt32} {list' : List Alarm} {call : ListCall} {time : Rat}

theorem callList_conserved (h : callList sessionId list call = some list') :
    (list ++ call.armed).Perm (list' ++ call.taken sessionId list) := by
  cases call with
  | add session now delay id post =>
    obtain rfl := Option.some.inj h
    rw [ListCall.taken, List.append_nil]
    exact (List.perm_append_singleton _ _).trans (addAlarmCoapEap_perm _ _).symm
  | cancel id kind =>
    obtain rfl := Option.some.inj h
    have harmed : (ListCall.cancel id kind).armed = [] := rfl
    rw [harmed, List.append_nil]
    exact eraseP_append_find_perm list _
  | next time =>
    obtain rfl := Option.some.inj h
    have harmed : (ListCall.next time).armed = [] := rfl
    rw [harmed, List.append_nil, ListCall.taken]
    cases hnext : getNextAlarmCoapEap list time with
    | none => simp
    | some found =>
      obtain ⟨a, rest⟩ := found
      obtain ⟨rfl, -⟩ := getNextAlarm_eq_some hnext
      exact (List.perm_append_singleton a rest).symm

theorem takesFirst_of_sorted (hs : Sorted list) : TakesFirst list time := by
  unfold TakesFirst
  cases hnext : getNextAlarmCoapEap list time with
  | none =>
    cases list with
    | nil => simp
    | cons first rest =>
      have hfirst : ¬ first.tmp < time := by
        intro hexpired
        simp [getNextAlarmCoapEap, hexpired] at hnext
      rw [List.forall_mem_cons]
      exact ⟨hfirst, fun a ha hexpired => hfirst ((hs.head_le a ha).trans_lt hexpired)⟩
  | some found =>
    obtain ⟨a, rest⟩ := found
    obtain ⟨rfl, hexpired⟩ := getNextAlarm_eq_some hnext
    refine ⟨List.mem_cons_self .., hexpired, ?_⟩
    rw [List.forall_mem_cons]
    exact ⟨le_refl _, hs.head_le⟩

/-- On a list in order a call does what is asked exactly when it adds in order. -/
theorem callCorrect_iff (hs : Sorted list) (h : callList sessionId list call = some list') :
    CallCorrect sessionId list call list' ↔ addsInOrder list call = true := by
  have hcancelled : ∀ id kind, call = .cancel id kind → ∀ a ∈ list,
      sessionId a.session = id → a.id = kind → ∃ b ∈ call.taken sessionId list,
        sessionId b.session = id ∧ b.id = kind := by
    rintro id kind rfl a ha hid hkind
    cases hfound : findAlarmCoapEapSession sessionId list id kind with
    | none =>
      have hnone := List.find?_eq_none.mp hfound a ha
      simp [hid, hkind] at hnone
    | some b =>
      have hmatch := List.find?_some hfound
      exact ⟨b, by simp [ListCall.taken, hfound], by simpa using hmatch⟩
  have hsorted : Sorted list' ↔ addsInOrder list call = true := by
    cases call with
    | add session now delay id post =>
      obtain rfl := Option.some.inj h
      exact addAlarmCoapEap_sorted_iff hs
    | cancel id kind =>
      obtain rfl := Option.some.inj h
      exact iff_of_true (hs.sublist List.eraseP_sublist) rfl
    | next time =>
      obtain rfl := Option.some.inj h
      refine iff_of_true ?_ rfl
      cases hnext : getNextAlarmCoapEap list time with
      | none => exact hs
      | some found =>
        obtain ⟨rfl, -⟩ := getNextAlarm_eq_some hnext
        exact hs.tail
  constructor
  · intro hcorrect
    exact hsorted.mp hcorrect.sorted
  · intro horder
    exact ⟨hsorted.mpr horder, callList_conserved h, hcancelled,
      fun _ _ => takesFirst_of_sorted hs⟩

/-- From the empty list on the alarm list is a timer queue exactly while every
alarm is added in order. -/
theorem timer_queue_iff (sessionId : Nat → UInt32) (calls : List ListCall) :
    (∀ tr ∈ transitions (callList sessionId) [] calls,
        CallCorrect sessionId tr.1 tr.2.1 tr.2.2) ↔
      ∀ tr ∈ transitions (callList sessionId) [] calls, addsInOrder tr.1 tr.2.1 = true := by
  have hempty : Sorted [] := List.Pairwise.nil
  have hiff : ∀ list call list', Sorted list → callList sessionId list call = some list' →
      (CallCorrect sessionId list call list' ↔ addsInOrder list call = true) := by
    intro list call list' hs hcall
    exact callCorrect_iff hs hcall
  have hkeeps : ∀ list call list', Sorted list → callList sessionId list call = some list' →
      CallCorrect sessionId list call list' → Sorted list' := by
    intro list call list' _ _ hcorrect
    exact hcorrect.sorted
  exact forall_transitions_iff_of_invariant hiff hkeeps calls hempty

/-- Two alarms of one second, the later one first. -/
def laterFirst : List ListCall :=
  [.add 0 10 (1 / 2) postAlarm 1, .add 1 10 (1 / 5) postAlarm 1, .next (103 / 10)]

/-- The alarm that has expired stands behind one that has not. -/
theorem later_first_not_sorted :
    ¬ ∀ sessionId calls, ∀ tr ∈ transitions (callList sessionId) [] calls,
      CallCorrect sessionId tr.1 tr.2.1 tr.2.2 := by
  intro hstated
  have hadded := hstated (fun _ => 0) laterFirst
    ([⟨0, 21 / 2, postAlarm, 1⟩], .add 1 10 (1 / 5) postAlarm 1,
      [⟨0, 21 / 2, postAlarm, 1⟩, ⟨1, 51 / 5, postAlarm, 1⟩]) (by decide +kernel)
  have horder : (21 / 2 : Rat) ≤ 51 / 5 := hadded.sorted.head_le _ (List.mem_singleton_self _)
  revert horder
  decide +kernel

end CoapEap.Lalarm
