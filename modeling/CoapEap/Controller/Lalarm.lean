import CoapEap.Bytes
import Mathlib.Data.Rat.Init

/-!
The alarm list of the controller (`lalarm.c`): a singly linked list that is kept
in order of expiry. An alarm names its session by pointer, and the searches
compare the identifier found behind that pointer, so they take the map from
sessions to identifiers.

Times are rational numbers. `difftime` takes whole seconds, so its two arguments
are truncated when the place of a new alarm is searched, but not when the first
alarm is compared with the current time.
-/

namespace CoapEap.Lalarm

def sessAlarm : Nat := 3
def postAlarm : Nat := 6

/-- `struct lalarm_coap` without its link. `post` is not in the source: it counts
which POST of the session the alarm was armed for. -/
structure Alarm where
  session : Nat
  tmp : Rat
  id : Nat
  post : Nat
  deriving DecidableEq, Repr

/-- The conversion of a `double` to `time_t`. -/
def timeT (t : Rat) : Int := t.num.tdiv t.den

/-- The search for the place behind the first alarm of the list. -/
def insertAlarm (new : Alarm) : List Alarm → List Alarm
  | [] => [new]
  | aux :: rest =>
    if timeT aux.tmp < timeT new.tmp then aux :: insertAlarm new rest else new :: aux :: rest

/-- `add_alarm_coap_eap`. An alarm for the same second as the first one goes
behind it, elsewhere it goes in front of the one for the same second. -/
def addAlarmCoapEap (list : List Alarm) (new : Alarm) : List Alarm :=
  match list with
  | [] => [new]
  | first :: rest =>
    if timeT first.tmp < timeT new.tmp then first :: insertAlarm new rest
    else if timeT first.tmp > timeT new.tmp then new :: first :: rest
    else first :: new :: rest

/-- `get_alarm_coap_eap_session`: the list without the first alarm of that
session identifier and kind. -/
def getAlarmCoapEapSession (sessionId : Nat → UInt32) (list : List Alarm) (id : UInt32)
    (alarmId : Nat) : List Alarm :=
  list.eraseP fun a => sessionId a.session = id ∧ a.id = alarmId

/-- `get_next_alarm_coap_eap`. -/
def getNextAlarmCoapEap (list : List Alarm) (time : Rat) : Option (Alarm × List Alarm) :=
  match list with
  | [] => none
  | first :: rest => if first.tmp < time then some (first, rest) else none

theorem insertAlarm_perm (new : Alarm) (list : List Alarm) :
    (insertAlarm new list).Perm (new :: list) := by
  induction list with
  | nil => exact .refl _
  | cons aux rest ih =>
    unfold insertAlarm
    split
    · exact (ih.cons aux).trans (.swap new aux rest)
    · exact .refl _

theorem addAlarmCoapEap_perm (new : Alarm) (list : List Alarm) :
    (addAlarmCoapEap list new).Perm (new :: list) := by
  cases list with
  | nil => exact .refl _
  | cons first rest =>
    simp only [addAlarmCoapEap]
    split
    · exact ((insertAlarm_perm new rest).cons first).trans (.swap new first rest)
    · split
      · exact .refl _
      · exact .swap new first rest

/-- An alarm is in the list after an insertion when it is the new one or was
there before. -/
@[simp] theorem mem_addAlarmCoapEap {new a : Alarm} {list : List Alarm} :
    a ∈ addAlarmCoapEap list new ↔ a = new ∨ a ∈ list := by
  rw [(addAlarmCoapEap_perm new list).mem_iff, List.mem_cons]

theorem mem_of_mem_getAlarm {sessionId : Nat → UInt32} {list : List Alarm} {id : UInt32}
    {alarmId : Nat} {a : Alarm} (h : a ∈ getAlarmCoapEapSession sessionId list id alarmId) :
    a ∈ list :=
  List.mem_of_mem_eraseP h

theorem getNextAlarm_eq_some {list rest : List Alarm} {time : Rat} {a : Alarm}
    (h : getNextAlarmCoapEap list time = some (a, rest)) :
    list = a :: rest ∧ a.tmp < time := by
  cases list with
  | nil => simp [getNextAlarmCoapEap] at h
  | cons first others =>
    simp only [getNextAlarmCoapEap] at h
    split at h
    · simp only [Option.some.injEq, Prod.mk.injEq] at h
      obtain ⟨rfl, rfl⟩ := h
      exact ⟨rfl, ‹_›⟩
    · simp at h

theorem filter_insertAlarm {new : Alarm} {keep : Alarm → Bool} (hnew : keep new = false)
    (list : List Alarm) : (insertAlarm new list).filter keep = list.filter keep := by
  induction list with
  | nil => simp [insertAlarm, hnew]
  | cons aux rest ih =>
    unfold insertAlarm
    split
    · rw [List.filter_cons, List.filter_cons, ih]
    · rw [List.filter_cons_of_neg (by simp [hnew])]

/-- Among other alarms a new one changes nothing. -/
theorem filter_addAlarmCoapEap {new : Alarm} {keep : Alarm → Bool} (hnew : keep new = false)
    (list : List Alarm) : (addAlarmCoapEap list new).filter keep = list.filter keep := by
  cases list with
  | nil => simp [addAlarmCoapEap, hnew]
  | cons first rest =>
    simp only [addAlarmCoapEap]
    split
    · rw [List.filter_cons, List.filter_cons, filter_insertAlarm hnew]
    · split
      · rw [List.filter_cons_of_neg (by simp [hnew])]
      · simp [List.filter_cons, hnew]

/-- The alarm that `get_alarm_coap_eap_session` takes out. -/
def findAlarmCoapEapSession (sessionId : Nat → UInt32) (list : List Alarm) (id : UInt32)
    (alarmId : Nat) : Option Alarm :=
  list.find? fun a => sessionId a.session = id ∧ a.id = alarmId

/-- Taking one alarm out leaves certain alarms as they were when it is none of
them, and only then. -/
theorem filter_getAlarm_iff {sessionId : Nat → UInt32} {list : List Alarm} {id : UInt32}
    {alarmId : Nat} {keep : Alarm → Bool} :
    (getAlarmCoapEapSession sessionId list id alarmId).filter keep = list.filter keep ↔
      (findAlarmCoapEapSession sessionId list id alarmId).all (fun a => !keep a) = true := by
  unfold getAlarmCoapEapSession findAlarmCoapEapSession
  induction list with
  | nil => simp
  | cons first rest ih =>
    by_cases hfirst : sessionId first.session = id ∧ first.id = alarmId
    · have hlength : rest.filter keep ≠ first :: rest.filter keep := by
        intro h
        simpa using congrArg List.length h
      cases hkeep : keep first with
      | true => simp [hfirst, hkeep, hlength]
      | false => simp [hfirst, hkeep]
    · rw [List.eraseP_cons_of_neg (by simpa using hfirst), List.filter_cons, List.filter_cons,
        List.find?_cons_of_neg (by simpa using hfirst)]
      split
      · rw [List.cons.injEq]
        simpa using ih
      · exact ih

/-- The same for two alarms: what the first search takes out does not come back. -/
theorem filter_getAlarm_twice_iff {sessionId : Nat → UInt32} {list : List Alarm} {id : UInt32}
    {alarmId : Nat} {keep : Alarm → Bool} :
    (getAlarmCoapEapSession sessionId
      (getAlarmCoapEapSession sessionId list id alarmId) id alarmId).filter keep =
        list.filter keep ↔
      (findAlarmCoapEapSession sessionId list id alarmId).all (fun a => !keep a) = true ∧
        (findAlarmCoapEapSession sessionId (getAlarmCoapEapSession sessionId list id alarmId) id
          alarmId).all (fun a => !keep a) = true := by
  have houter : List.Sublist ((getAlarmCoapEapSession sessionId
      (getAlarmCoapEapSession sessionId list id alarmId) id alarmId).filter keep)
        ((getAlarmCoapEapSession sessionId list id alarmId).filter keep) :=
    List.eraseP_sublist.filter keep
  have hinner : List.Sublist ((getAlarmCoapEapSession sessionId list id alarmId).filter keep)
      (list.filter keep) :=
    List.eraseP_sublist.filter keep
  constructor
  · intro h
    rw [h] at houter
    have hfirst := hinner.eq_of_length_le houter.length_le
    exact ⟨filter_getAlarm_iff.mp hfirst, filter_getAlarm_iff.mp (h.trans hfirst.symm)⟩
  · rintro ⟨hfirst, hsecond⟩
    exact (filter_getAlarm_iff.mpr hsecond).trans (filter_getAlarm_iff.mpr hfirst)

end CoapEap.Lalarm
