import CoapEap.Controller.Lalarm
import CoapEap.Library.LinkedList

/-!
`remove_alarm_coap_eap` (`lalarm.c`) on the nodes in memory. The function frees
nodes while it walks over them, so the memory says of each node whether it is
still allocated, and a read of a node that was freed is an outcome of its own.

Every alarm of the list has a session, so the tests for a missing one are left
out.
-/

namespace CoapEap.Lalarm

open Library.LinkedList

/-- `struct lalarm_coap`. -/
structure AlarmNode where
  alarm : Alarm
  sig : Option Nat
  deriving DecidableEq, Repr

/-- The allocated nodes. -/
abbrev AlarmMemory := Nat → Option AlarmNode

inductive Fault
  | followedFreed
  | outOfFuel
  deriving DecidableEq, Repr

/-- A read of a node. -/
def readNode (memory : AlarmMemory) (node : Nat) : Except Fault AlarmNode :=
  match memory node with
  | none => .error .followedFreed
  | some cell => .ok cell

/-- The write of a link. -/
def setSig (memory : AlarmMemory) (node : Nat) (sig : Option Nat) : Except Fault AlarmMemory :=
  (readNode memory node).map fun cell => Function.update memory node (some { cell with sig })

/-- `XFREE`. -/
def freeNode (memory : AlarmMemory) (node : Nat) : AlarmMemory := Function.update memory node none

variable (sessionId : Nat → UInt32) (id : UInt32)

/-- The alarm is one of the session searched. -/
def ofSession (a : Alarm) : Bool := sessionId a.session = id

/-- The first loop: alarms of the session at the head of the list. -/
def removeFirst : Nat → AlarmMemory → Option Nat → Except Fault (AlarmMemory × Option Nat)
  | 0, _, _ => .error .outOfFuel
  | _ + 1, memory, none => .ok (memory, none)
  | fuel + 1, memory, some tofree => do
    let cell ← readNode memory tofree
    if ofSession sessionId id cell.alarm then removeFirst fuel (freeNode memory tofree) cell.sig
    else .ok (memory, some tofree)

/-- The second loop. Its last two statements read the node again, also when it was
freed just before. -/
def removeInside : Nat → AlarmMemory → Nat → Option Nat → Except Fault AlarmMemory
  | 0, _, _, _ => .error .outOfFuel
  | _ + 1, memory, _, none => .ok memory
  | fuel + 1, memory, prev, some current => do
    let cell ← readNode memory current
    let memory ←
      if ofSession sessionId id cell.alarm then do
        let memory ← setSig memory prev cell.sig
        let memory ← setSig memory current none
        .ok (freeNode memory current)
      else .ok memory
    let cell ← readNode memory current
    removeInside fuel memory current cell.sig

/-- `remove_alarm_coap_eap`. -/
def removeAlarmCoapEap (fuel : Nat) (memory : AlarmMemory) (list : Option Nat) :
    Except Fault (AlarmMemory × Option Nat) := do
  let (memory, list) ← removeFirst sessionId id fuel memory list
  match list with
  | none => .ok (memory, none)
  | some prev =>
    let cell ← readNode memory prev
    let memory ← removeInside sessionId id fuel memory prev cell.sig
    .ok (memory, some prev)

/-- The link of a node. -/
def linkOf (memory : AlarmMemory) (node : Nat) : Option Nat := (memory node).bind AlarmNode.sig

/-- The nodes from `list` on, each once, hold these alarms. -/
structure Holds (memory : AlarmMemory) (list : Option Nat) (nodes : List Nat)
    (alarms : List Alarm) : Prop where
  chain : Chain (linkOf memory) list nodes
  nodup : nodes.Nodup
  contents : nodes.map (fun node => (memory node).map AlarmNode.alarm) = alarms.map some

/-- The list in memory is this one. -/
def Represents (memory : AlarmMemory) (list : Option Nat) (alarms : List Alarm) : Prop :=
  ∃ nodes, Holds memory list nodes alarms

variable {sessionId id}
variable {memory : AlarmMemory} {list : Option Nat} {nodes rest : List Nat} {node prev fuel : Nat}
variable {alarms others : List Alarm} {a : Alarm}

theorem Holds.length_eq (h : Holds memory list nodes alarms) : nodes.length = alarms.length := by
  simpa using congrArg List.length h.contents

/-- The head of a list that is not empty, and the list behind it. -/
theorem Holds.cons (h : Holds memory list nodes (a :: alarms)) :
    ∃ node rest sig, list = some node ∧ nodes = node :: rest ∧ memory node = some ⟨a, sig⟩ ∧
      node ∉ rest ∧ Holds memory sig rest alarms := by
  obtain ⟨hchain, hnodup, hcontents⟩ := h
  cases nodes with
  | nil => simp at hcontents
  | cons node rest =>
    obtain ⟨hlist, hrest⟩ := hchain
    obtain ⟨hfresh, hnodup⟩ := List.nodup_cons.mp hnodup
    simp only [List.map_cons, List.cons.injEq, Option.map_eq_some_iff] at hcontents
    obtain ⟨⟨cell, hcell, rfl⟩, hcontents⟩ := hcontents
    have hlink : linkOf memory node = cell.sig := by
      simp [linkOf, hcell]
    rw [hlink] at hrest
    exact ⟨node, rest, cell.sig, hlist, rfl, hcell, hfresh, hrest, hnodup, hcontents⟩

theorem Holds.nil (h : Holds memory list nodes []) : list = none ∧ nodes = [] := by
  have hnodes : nodes = [] := by
    simpa using h.length_eq
  subst hnodes
  exact ⟨h.chain, rfl⟩

/-- Freeing a node that is not in the list leaves the list. -/
theorem Holds.freed (h : Holds memory list nodes alarms) (hother : node ∉ nodes) :
    Holds (freeNode memory node) list nodes alarms := by
  refine ⟨?_, h.nodup, ?_⟩
  · have hlinks : linkOf (freeNode memory node) = Function.update (linkOf memory) node none := by
      funext other
      by_cases hsame : other = node
      · subst hsame
        simp [linkOf, freeNode]
      · simp [linkOf, freeNode, hsame]
    rw [hlinks]
    exact h.chain.update hother none
  · rw [← h.contents]
    apply List.map_congr_left
    intro other hmem
    have hne : other ≠ node := by
      rintro rfl
      exact hother hmem
    simp [freeNode, hne]

/-- The first loop drops the alarms of the session in front. -/
theorem removeFirst_drops (h : Holds memory list nodes alarms) (hfuel : alarms.length < fuel) :
    ∃ memory' list' nodes', removeFirst sessionId id fuel memory list = .ok (memory', list') ∧
      Holds memory' list' nodes' (alarms.dropWhile (ofSession sessionId id)) := by
  induction alarms generalizing memory list nodes fuel with
  | nil =>
    obtain ⟨rfl, rfl⟩ := h.nil
    obtain ⟨fuel, rfl⟩ := Nat.exists_eq_succ_of_ne_zero (Nat.ne_of_gt hfuel)
    exact ⟨memory, none, [], rfl, h⟩
  | cons a alarms ih =>
    obtain ⟨node, rest, sig, rfl, rfl, hcell, hfresh, hrest⟩ := h.cons
    obtain ⟨fuel, rfl⟩ := Nat.exists_eq_succ_of_ne_zero (Nat.ne_of_gt (Nat.zero_lt_of_lt hfuel))
    have hread : readNode memory node = .ok ⟨a, sig⟩ := by
      simp [readNode, hcell]
    have hshorter : alarms.length < fuel := Nat.lt_of_succ_lt_succ hfuel
    cases hof : ofSession sessionId id a with
    | true =>
      obtain ⟨memory', list', nodes', hrun, hholds⟩ := ih (hrest.freed hfresh) hshorter
      refine ⟨memory', list', nodes', ?_, ?_⟩
      · rw [removeFirst, hread]
        simp only [bind, Except.bind, hof, if_true]
        exact hrun
      · rw [List.dropWhile_cons_of_pos hof]
        exact hholds
    | false =>
      refine ⟨memory, some node, node :: rest, ?_, ?_⟩
      · rw [removeFirst, hread]
        simp only [bind, Except.bind, hof, Bool.false_eq_true, if_false]
      · rw [List.dropWhile_cons_of_neg (by simp [hof])]
        exact h

/-- The second loop only walks while it meets no alarm of the session. -/
theorem removeInside_walks (h : Holds memory list nodes alarms) (hfuel : alarms.length < fuel)
    (hnone : ∀ a ∈ alarms, ofSession sessionId id a = false) (prev : Nat) :
    removeInside sessionId id fuel memory prev list = .ok memory := by
  induction alarms generalizing list nodes fuel prev with
  | nil =>
    obtain ⟨rfl, rfl⟩ := h.nil
    obtain ⟨fuel, rfl⟩ := Nat.exists_eq_succ_of_ne_zero (Nat.ne_of_gt hfuel)
    rfl
  | cons a alarms ih =>
    obtain ⟨node, rest, sig, rfl, rfl, hcell, hfresh, hrest⟩ := h.cons
    obtain ⟨fuel, rfl⟩ := Nat.exists_eq_succ_of_ne_zero (Nat.ne_of_gt (Nat.zero_lt_of_lt hfuel))
    have hread : readNode memory node = .ok ⟨a, sig⟩ := by
      simp [readNode, hcell]
    have hof := hnone a (List.mem_cons_self ..)
    rw [removeInside, hread]
    simp only [bind, Except.bind, hof, Bool.false_eq_true, if_false, hread]
    exact ih hrest (Nat.lt_of_succ_lt_succ hfuel)
      (fun b hb => hnone b (List.mem_cons_of_mem _ hb)) node

/-- It follows the node that it freed as soon as it meets one. -/
theorem removeInside_follows_freed (h : Holds memory list nodes alarms)
    (hfuel : alarms.length < fuel) (hsome : ∃ a ∈ alarms, ofSession sessionId id a = true)
    (hprev : (memory prev).isSome) (hbefore : prev ∉ nodes) :
    removeInside sessionId id fuel memory prev list = .error .followedFreed := by
  induction alarms generalizing list nodes fuel prev with
  | nil => simp at hsome
  | cons a alarms ih =>
    obtain ⟨node, rest, sig, rfl, rfl, hcell, hfresh, hrest⟩ := h.cons
    obtain ⟨fuel, rfl⟩ := Nat.exists_eq_succ_of_ne_zero (Nat.ne_of_gt (Nat.zero_lt_of_lt hfuel))
    have hread : readNode memory node = .ok ⟨a, sig⟩ := by
      simp [readNode, hcell]
    rw [removeInside, hread]
    cases hof : ofSession sessionId id a with
    | true =>
      obtain ⟨before, hcellBefore⟩ := Option.isSome_iff_exists.mp hprev
      have hne : node ≠ prev := by
        rintro rfl
        exact hbefore (List.mem_cons_self ..)
      have hlinked : setSig memory prev sig =
          .ok (Function.update memory prev (some { before with sig })) := by
        simp [setSig, readNode, hcellBefore, Except.map]
      have hcleared : setSig (Function.update memory prev (some { before with sig })) node none =
          .ok (Function.update (Function.update memory prev (some { before with sig })) node
            (some ⟨a, none⟩)) := by
        simp [setSig, readNode, hcell, Except.map, hne]
      have hfreed : ∀ memory : AlarmMemory, readNode (freeNode memory node) node =
          .error .followedFreed := by
        intro memory
        simp [readNode, freeNode]
      simp only [bind, Except.bind, hof, if_true, hlinked, hcleared, hfreed]
    | false =>
      obtain ⟨b, hb, hofb⟩ := hsome
      have hlater : ∃ b ∈ alarms, ofSession sessionId id b = true := by
        rcases List.mem_cons.mp hb with rfl | hrest
        · simp [hof] at hofb
        · exact ⟨b, hrest, hofb⟩
      simp only [bind, Except.bind, hof, Bool.false_eq_true, if_false, hread]
      exact ih hrest (Nat.lt_of_succ_lt_succ hfuel) hlater (by simp [hcell]) hfresh

/-- The function returned, and in memory is the list without the alarms of the
session. -/
def RemovesOnly (sessionId : Nat → UInt32) (id : UInt32) (alarms : List Alarm)
    (result : Except Fault (AlarmMemory × Option Nat)) : Prop :=
  ∃ memory' list', result = .ok (memory', list') ∧
    Represents memory' list' (alarms.filter fun a => !ofSession sessionId id a)

/-- No alarm of the session stands behind one of another session. -/
def allInFront (sessionId : Nat → UInt32) (id : UInt32) (alarms : List Alarm) : Bool :=
  (alarms.dropWhile (ofSession sessionId id)).all fun a => !ofSession sessionId id a

theorem filter_of_allInFront (h : allInFront sessionId id alarms = true) :
    (alarms.filter fun a => !ofSession sessionId id a) =
      alarms.dropWhile (ofSession sessionId id) := by
  induction alarms with
  | nil => rfl
  | cons a alarms ih =>
    cases hof : ofSession sessionId id a with
    | true =>
      rw [List.dropWhile_cons_of_pos hof, List.filter_cons_of_neg (by simp [hof])]
      apply ih
      rw [allInFront, List.dropWhile_cons_of_pos hof] at h
      exact h
    | false =>
      have hnot : ¬ ofSession sessionId id a = true := by simp [hof]
      rw [allInFront, List.dropWhile_cons_of_neg hnot] at h
      rw [List.dropWhile_cons_of_neg hnot]
      exact List.filter_eq_self.mpr (List.all_eq_true.mp h)

/-- The alarms of a session are removed, and nothing else, exactly when they all
stand in front. -/
theorem remove_alarm_coap_eap_iff (h : Represents memory list alarms)
    (hfuel : alarms.length < fuel) :
    RemovesOnly sessionId id alarms (removeAlarmCoapEap sessionId id fuel memory list) ↔
      allInFront sessionId id alarms = true := by
  obtain ⟨nodes, hholds⟩ := h
  have hdrops : ∃ memory' list' nodes', removeFirst sessionId id fuel memory list =
      .ok (memory', list') ∧
        Holds memory' list' nodes' (alarms.dropWhile (ofSession sessionId id)) :=
    removeFirst_drops hholds hfuel
  obtain ⟨memory', list', nodes', hfirst, hdropped⟩ := hdrops
  have hlength : (alarms.dropWhile (ofSession sessionId id)).length ≤ alarms.length :=
    (List.dropWhile_sublist _).length_le
  constructor
  · rintro ⟨memory'', list'', hresult, -⟩
    rw [allInFront, List.all_eq_true]
    intro a ha
    rw [Bool.not_eq_true']
    by_contra hof
    rw [Bool.not_eq_false] at hof
    cases hrest : alarms.dropWhile (ofSession sessionId id) with
    | nil => simp [hrest] at ha
    | cons b others =>
      rw [hrest] at hdropped hlength ha
      obtain ⟨node, rest, sig, rfl, rfl, hcell, hfresh, hothers⟩ := hdropped.cons
      -- the first alarm that is left is none of the session, so the other one stands behind it
      have hfront : ofSession sessionId id b = false := by
        have hhead := List.head?_dropWhile_not (ofSession sessionId id) alarms
        simpa [hrest] using hhead
      have hinside : ∃ a ∈ others, ofSession sessionId id a = true := by
        rcases List.mem_cons.mp ha with rfl | hmem
        · simp [hfront] at hof
        · exact ⟨a, hmem, hof⟩
      have halive : (memory' node).isSome := by
        simp [hcell]
      have hfault := removeInside_follows_freed hothers
        (Nat.lt_of_le_of_lt (Nat.le_of_succ_le hlength) hfuel) hinside halive hfresh
      simp [removeAlarmCoapEap, bind, Except.bind, hfirst, readNode, hcell, hfault] at hresult
  · intro hall
    rw [RemovesOnly, filter_of_allInFront hall]
    cases hrest : alarms.dropWhile (ofSession sessionId id) with
    | nil =>
      rw [hrest] at hdropped
      obtain ⟨rfl, rfl⟩ := hdropped.nil
      exact ⟨memory', none, by simp [removeAlarmCoapEap, bind, Except.bind, hfirst], [], hdropped⟩
    | cons b others =>
      rw [hrest] at hdropped hlength
      rw [allInFront, hrest, List.all_eq_true] at hall
      obtain ⟨node, rest, sig, rfl, rfl, hcell, hfresh, hothers⟩ := hdropped.cons
      have hwalk := removeInside_walks hothers
        (Nat.lt_of_le_of_lt (Nat.le_of_succ_le hlength) hfuel)
        (fun a ha => by simpa using hall a (List.mem_cons_of_mem _ ha)) node
      refine ⟨memory', some node, ?_, node :: rest, hdropped⟩
      simp [removeAlarmCoapEap, bind, Except.bind, hfirst, readNode, hcell, hwalk]

/-- A node after the other, from the first one on. -/
def nodesOf (alarms : List Alarm) : AlarmMemory := fun node =>
  alarms[node]?.map fun a => ⟨a, if node + 1 < alarms.length then some (node + 1) else none⟩

/-- An alarm for the POST of a session. -/
def alarmOf (session : Nat) : Alarm := ⟨session, 10, postAlarm, 1⟩

/-- Two alarms of the session in front of one of another. -/
theorem front_alarms_removed :
    RemovesOnly UInt32.ofNat 1 [alarmOf 1, alarmOf 1, alarmOf 2]
      (removeAlarmCoapEap UInt32.ofNat 1 4 (nodesOf [alarmOf 1, alarmOf 1, alarmOf 2])
        (some 0)) := by
  have hlist : Represents (nodesOf [alarmOf 1, alarmOf 1, alarmOf 2]) (some 0)
      [alarmOf 1, alarmOf 1, alarmOf 2] :=
    ⟨[0, 1, 2], ⟨rfl, rfl, rfl, rfl⟩, by decide, by decide⟩
  exact (remove_alarm_coap_eap_iff hlist (by decide)).mpr (by decide)

/-- An alarm of the session behind one of another: its node is followed after it
was freed. -/
theorem alarm_behind_another_follows_freed :
    ¬ ∀ sessionId id memory list alarms fuel, Represents memory list alarms →
      alarms.length < fuel →
        RemovesOnly sessionId id alarms (removeAlarmCoapEap sessionId id fuel memory list) := by
  intro hstated
  have hlist : Represents (nodesOf [alarmOf 2, alarmOf 1]) (some 0) [alarmOf 2, alarmOf 1] :=
    ⟨[0, 1], ⟨rfl, rfl, rfl⟩, by decide, by decide⟩
  obtain ⟨memory, list, hresult, -⟩ := hstated UInt32.ofNat 1 _ _ _ 3 hlist (by decide)
  have hfault : removeAlarmCoapEap UInt32.ofNat 1 3 (nodesOf [alarmOf 2, alarmOf 1]) (some 0) =
      .error .followedFreed := rfl
  simp [hfault] at hresult

end CoapEap.Lalarm
