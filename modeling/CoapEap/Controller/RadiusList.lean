import CoapEap.Controller.Radius
import CoapEap.Library.LinkedList
import Mathlib.Data.List.Nodup
import Mathlib.Data.List.Perm.Subperm
import Mathlib.Logic.Relation

/-!
The list of waiting requests as `radius_client.c` keeps it: nodes in memory with a head and
a count. `radius_client_receive` works on it under `mutex_radius`, `radius_client_get_id`
and `radius_client_list_add` under `radmutex`, so each statement on the list is a move of
its own. Undisturbed, the statements do what `Radius.lean` says of the whole calls.

Memory that was freed is not handed out again, and a statement that follows it has no
result. The count has the four bytes of a `size_t`.
-/

namespace CoapEap.Radius

open Library.LinkedList Relation

/-- `struct radius_msg_list` in memory. -/
structure RadiusNode where
  entry : RadiusMsgList
  next : Option Nat
  deriving DecidableEq, Repr

/-- `struct radius_client_data` and the nodes that are allocated. -/
structure RadiusNodes where
  nodes : Nat → Option RadiusNode := fun _ => none
  msgs : Option Nat := none
  numMsgs : UInt32 := 0
  nextRadiusIdentifier : UInt8 := 0
  nextNode : Nat := 0

namespace RadiusNodes

/-- The write of `prev->next`, or of `radius->msgs` where there is no `prev`. -/
def setNext (c : RadiusNodes) (prev next : Option Nat) : Option RadiusNodes :=
  match prev with
  | none => some { c with msgs := next }
  | some prev => (c.nodes prev).map fun cell =>
      { c with nodes := Function.update c.nodes prev (some { cell with next }) }

/-- `radius_client_msg_free`. -/
def free (c : RadiusNodes) (node : Nat) : RadiusNodes :=
  { c with nodes := Function.update c.nodes node none }

/-- The entries on the way from a node, which has no more nodes than were made. -/
def entriesFrom (nodes : Nat → Option RadiusNode) : Nat → Option Nat → List RadiusMsgList
  | 0, _ => []
  | _ + 1, none => []
  | fuel + 1, some node =>
    match nodes node with
    | none => []
    | some cell => cell.entry :: entriesFrom nodes fuel cell.next

/-- The requests in the list. -/
def listed (c : RadiusNodes) : List RadiusMsgList := entriesFrom c.nodes c.nextNode c.msgs

/-- What the memory holds. -/
def client (c : RadiusNodes) : RadiusClient :=
  ⟨c.listed, c.numMsgs.toNat, c.nextRadiusIdentifier⟩

end RadiusNodes

/-- Where `radius_client_receive` stands: in its search, before the removal of the request
it found, before the count, or done with the list. -/
inductive ReceiveStage
  | searching (prev req : Option Nat)
  | unlinking (prev : Option Nat) (req : Nat)
  | counting (req : Nat)
  | found (req : Option Nat)
  deriving DecidableEq, Repr

def ReceiveStage.atEnd : ReceiveStage → Bool
  | .found _ => true
  | _ => false

/-- The next statement of `radius_client_receive` for an answer with this identifier. -/
def receiveStatement (identifier : UInt8) (c : RadiusNodes) :
    ReceiveStage → Option (RadiusNodes × ReceiveStage)
  | .searching _ none => some (c, .found none)
  | .searching prev (some req) => do
    let cell ← c.nodes req
    if cell.entry.msg.identifier = identifier then some (c, .unlinking prev req)
    else some (c, .searching (some req) cell.next)
  | .unlinking prev req => do
    let cell ← c.nodes req
    let c ← c.setNext prev cell.next
    some (c, .counting req)
  | .counting req => some ({ c with numMsgs := c.numMsgs - 1 }, .found (some req))
  | .found req => some (c, .found req)

/-- Where `radius_client_get_id` and, for a request that was completed,
`radius_client_list_add` stand. -/
inductive RequestStage
  | removing (prev entry : Option Nat)
  | adding
  | linking (entry : Nat)
  | sizing (entry : Nat)
  | truncating (prev : Option Nat) (entry : Nat)
  | added
  deriving DecidableEq, Repr

def RequestStage.atEnd : RequestStage → Bool
  | .added => true
  | _ => false

/-- The next statement on the list for a request under this identifier. -/
def requestStatement (identifier : UInt8) (request : Option RadiusMsgList) (c : RadiusNodes) :
    RequestStage → Option (RadiusNodes × RequestStage)
  | .removing _ none => some (c, if request.isSome then .adding else .added)
  | .removing prev (some entry) => do
    let cell ← c.nodes entry
    if cell.entry.msg.identifier = identifier then do
      let c ← c.setNext prev cell.next
      some (c.free entry, .removing prev cell.next)
    else some (c, .removing (some entry) cell.next)
  | .adding =>
    match request with
    | none => some (c, .added)
    | some request =>
      some ({ c with
        nodes := Function.update c.nodes c.nextNode (some ⟨request, c.msgs⟩)
        nextNode := c.nextNode + 1 }, .linking c.nextNode)
  | .linking entry => some ({ c with msgs := some entry }, .sizing entry)
  | .sizing entry =>
    if c.numMsgs.toNat ≥ radiusClientMaxEntries then some (c, .truncating none entry)
    else some ({ c with numMsgs := c.numMsgs + 1 }, .added)
  | .truncating prev entry => do
    let cell ← c.nodes entry
    match cell.next, prev with
    | some next, _ => some (c, .truncating (some entry) next)
    | none, none => some (c, .added)
    | none, some prev => do
      let c ← c.setNext (some prev) none
      some (c.free entry, .added)
  | .added => some (c, .added)

namespace RadiusNodes

def link (c : RadiusNodes) (node : Nat) : Option Nat := (c.nodes node).bind RadiusNode.next

def entryAt (c : RadiusNodes) (node : Nat) : Option RadiusMsgList :=
  (c.nodes node).map RadiusNode.entry

/-- The nodes of the list, each once, hold these requests. -/
structure Lists (c : RadiusNodes) (places : List Nat) (msgs : List RadiusMsgList) : Prop where
  chain : Chain c.link c.msgs places
  nodup : places.Nodup
  made : ∀ place ∈ places, place < c.nextNode
  contents : places.map c.entryAt = msgs.map some

/-- The memory holds this client. -/
structure Represents (c : RadiusNodes) (radius : RadiusClient) : Prop where
  msgs : ∃ places, Lists c places radius.msgs
  numMsgs : c.numMsgs.toNat = radius.numMsgs
  nextRadiusIdentifier : c.nextRadiusIdentifier = radius.nextRadiusIdentifier

variable {c c' : RadiusNodes} {places before rest : List Nat} {node : Nat} {fuel : Nat}
variable {msgs front back : List RadiusMsgList} {entry : RadiusMsgList} {radius : RadiusClient}
variable {identifier : UInt8} {head : Option Nat}

theorem entriesFrom_eq (hchain : Chain c.link head places)
    (hcontents : places.map c.entryAt = msgs.map some) (hfuel : places.length ≤ fuel) :
    entriesFrom c.nodes fuel head = msgs := by
  induction places generalizing head msgs fuel with
  | nil =>
    obtain rfl : head = none := hchain
    obtain rfl : msgs = [] := by simpa using hcontents.symm
    cases fuel with
    | zero => rfl
    | succ fuel => rfl
  | cons node places ih =>
    obtain ⟨rfl, hrest⟩ := hchain
    obtain ⟨fuel, rfl⟩ := Nat.exists_eq_succ_of_ne_zero (Nat.ne_of_gt (Nat.zero_lt_of_lt hfuel))
    cases msgs with
    | nil => simp at hcontents
    | cons entry msgs =>
      simp only [List.map_cons, List.cons.injEq, entryAt, Option.map_eq_some_iff] at hcontents
      obtain ⟨⟨cell, hcell, rfl⟩, hcontents⟩ := hcontents
      have hnext : c.link node = cell.next := by
        simp [link, hcell]
      rw [hnext] at hrest
      simp only [entriesFrom, hcell]
      rw [ih hrest hcontents (Nat.le_of_succ_le_succ hfuel)]

/-- What is read from a memory that holds a list. -/
theorem Lists.listed_eq (h : Lists c places msgs) : c.listed = msgs := by
  have hfits : places.length ≤ c.nextNode := by
    have hsub : places ⊆ List.range c.nextNode :=
      fun place hmem => List.mem_range.mpr (h.made place hmem)
    simpa using (List.subperm_of_subset h.nodup hsub).length_le
  exact entriesFrom_eq h.chain h.contents hfits

theorem Represents.client_eq (h : Represents c radius) : c.client = radius := by
  obtain ⟨places, hlists⟩ := h.msgs
  rw [client, hlists.listed_eq, h.numMsgs, h.nextRadiusIdentifier]

theorem Lists.length_eq (h : Lists c places msgs) : places.length = msgs.length := by
  simpa using congrArg List.length h.contents

/-- The node of a request and what stands in it. -/
theorem Lists.cell (h : Lists c (before ++ node :: rest) (front ++ entry :: back))
    (hlength : before.length = front.length) : c.nodes node = some ⟨entry, rest.head?⟩ := by
  have hcontents := h.contents
  rw [List.map_append, List.map_append] at hcontents
  have hboth := List.append_inj_right hcontents (by simpa using hlength)
  simp only [List.map_cons, List.cons.injEq, entryAt, Option.map_eq_some_iff] at hboth
  obtain ⟨⟨cell, hcell, rfl⟩, -⟩ := hboth
  have hnext : cell.next = rest.head? := by
    rw [← h.chain.behind.head_eq]
    simp [link, hcell]
  rw [hcell, ← hnext]

/-- A request is in the list where there is a node. -/
theorem Lists.split (h : Lists c (before ++ node :: rest) (front ++ back))
    (hlength : before.length = front.length) :
    ∃ entry others, back = entry :: others := by
  cases back with
  | cons entry others => exact ⟨entry, others, rfl⟩
  | nil =>
    have hall := h.length_eq
    simp only [List.length_append, List.length_cons, List.length_nil] at hall
    omega

theorem Lists.free (h : Lists c places msgs) (hother : node ∉ places) :
    Lists (c.free node) places msgs := by
  have hlinks : (c.free node).link = Function.update c.link node none := by
    funext place
    by_cases hsame : place = node
    · subst hsame
      simp [link, RadiusNodes.free]
    · simp [link, RadiusNodes.free, hsame]
  refine ⟨?_, h.nodup, h.made, ?_⟩
  · rw [hlinks]
    exact h.chain.update hother none
  · rw [← h.contents]
    apply List.map_congr_left
    intro place hmem
    have hne : place ≠ node := by
      rintro rfl
      exact hother hmem
    simp [entryAt, RadiusNodes.free, hne]

/-- The write that takes a node out of the list leaves the rest of the client as it is. -/
structure Unlinked (c c' : RadiusNodes) (node : Nat) : Prop where
  cell : c'.nodes node = c.nodes node
  numMsgs : c'.numMsgs = c.numMsgs
  nextRadiusIdentifier : c'.nextRadiusIdentifier = c.nextRadiusIdentifier
  nextNode : c'.nextNode = c.nextNode

theorem Lists.unlink (h : Lists c (before ++ node :: rest) (front ++ entry :: back))
    (hlength : before.length = front.length) :
    ∃ c', c.setNext before.getLast? rest.head? = some c' ∧ Unlinked c c' node ∧
      Lists c' (before ++ rest) (front ++ back) := by
  have hnodup := h.nodup
  have hmade : ∀ place ∈ before ++ rest, place < c.nextNode := by
    intro place hmem
    apply h.made
    rcases List.mem_append.mp hmem with hfront | hback
    · exact List.mem_append_left _ hfront
    · exact List.mem_append_right _ (List.mem_cons_of_mem _ hback)
  have hshort : (before ++ rest).Nodup :=
    hnodup.sublist ((List.Sublist.refl before).append (List.sublist_cons_self node rest))
  have hcontents : (before ++ rest).map c.entryAt = (front ++ back).map some := by
    have hall := h.contents
    simp only [List.map_append, List.map_cons] at hall ⊢
    have hfront := List.append_inj_left hall (by simpa using hlength)
    have hback := List.append_inj_right hall (by simpa using hlength)
    rw [hfront, (List.cons.inj hback).2]
  rcases List.eq_nil_or_concat before with rfl | ⟨others, last, rfl⟩
  · refine ⟨{ c with msgs := rest.head? }, rfl, ⟨rfl, rfl, rfl, rfl⟩, ?_, hshort, hmade,
      hcontents⟩
    have hchain : Chain c.link (c.link node) rest := h.chain.2
    rw [hchain.head_eq] at hchain
    exact hchain
  · -- the node in front of the one that goes
    have hchain : Chain c.link c.msgs (others ++ last :: node :: rest) := by
      simpa using h.chain
    have hnodup : (others ++ last :: node :: rest).Nodup := by
      simpa using hnodup
    have hlink : c.link node = rest.head? := by
      simp [link, h.cell hlength]
    obtain ⟨cell, hcell⟩ : ∃ cell, c.nodes last = some cell := by
      have hmem : c.entryAt last ∈ (others.concat last ++ rest).map c.entryAt :=
        List.mem_map_of_mem (by simp)
      rw [hcontents] at hmem
      obtain ⟨entry, -, hentry⟩ := List.mem_map.mp hmem
      obtain ⟨cell, hcell, -⟩ := Option.map_eq_some_iff.mp hentry.symm
      exact ⟨cell, hcell⟩
    have hne : node ≠ last := by
      rintro rfl
      have htwice := (List.nodup_append.mp hnodup).2.1
      exact (List.nodup_cons.mp htwice).1 (List.mem_cons_self ..)
    let c' : RadiusNodes := { c with
      nodes := Function.update c.nodes last (some { cell with next := rest.head? }) }
    have hlinks : c'.link = Function.update c.link last (c.link node) := by
      rw [hlink]
      funext place
      by_cases hsame : place = last
      · subst hsame
        simp [c', link]
      · simp [c', link, hsame]
    have hentries : c'.entryAt = c.entryAt := by
      funext place
      by_cases hsame : place = last
      · subst hsame
        simp [c', entryAt, hcell]
      · simp [c', entryAt, hsame]
    refine ⟨c', ?_, ⟨?_, rfl, rfl, rfl⟩, ?_, hshort, hmade, ?_⟩
    · simp [setNext, hcell, c']
    · simp [c', hne]
    · rw [hlinks]
      simpa using hchain.unlink hnodup
    · rw [hentries]
      exact hcontents

end RadiusNodes

open RadiusNodes

/-- Statements of `radius_client_receive` with no other thread between them. -/
abbrev ReceiveRun (identifier : UInt8) : RadiusNodes × ReceiveStage →
    RadiusNodes × ReceiveStage → Prop :=
  ReflTransGen fun x y => receiveStatement identifier x.1 x.2 = some y

/-- Statements on the list for a request with no other thread between them. -/
abbrev RequestRun (identifier : UInt8) (request : Option RadiusMsgList) :
    RadiusNodes × RequestStage → RadiusNodes × RequestStage → Prop :=
  ReflTransGen fun x y => requestStatement identifier request x.1 x.2 = some y

variable {c : RadiusNodes} {before rest places : List Nat} {front back msgs : List RadiusMsgList}
variable {identifier : UInt8} {radius : RadiusClient} {request : Option RadiusMsgList}

/-- The search passes requests under other identifiers and ends at the first one under its
own, whose node then leaves the list. -/
theorem receiveRun (h : Lists c (before ++ rest) (front ++ back))
    (hlength : before.length = front.length)
    (hfront : ∀ entry ∈ front, entry.msg.identifier ≠ identifier) :
    ((∀ entry ∈ back, entry.msg.identifier ≠ identifier) ∧
      ReceiveRun identifier (c, .searching before.getLast? rest.head?) (c, .found none)) ∨
    ∃ c' node entry places, (front ++ back).find? (fun entry => entry.msg.identifier = identifier) =
        some entry ∧
      ReceiveRun identifier (c, .searching before.getLast? rest.head?)
        ({ c' with numMsgs := c'.numMsgs - 1 }, .found (some node)) ∧
      Unlinked c c' node ∧ c.entryAt node = some entry ∧ node ∉ places ∧
      Lists c' places
        ((front ++ back).eraseP fun entry => entry.msg.identifier = identifier) := by
  induction rest generalizing before front back with
  | nil =>
    left
    have hnone : back = [] := by
      have hall := h.length_eq
      simp only [List.append_nil, List.length_append] at hall
      exact List.eq_nil_of_length_eq_zero (by omega)
    subst hnone
    exact ⟨List.forall_mem_nil _, .single rfl⟩
  | cons node rest ih =>
    obtain ⟨entry, back, rfl⟩ := h.split hlength
    have hcell := h.cell hlength
    by_cases hmatch : entry.msg.identifier = identifier
    · right
      obtain ⟨c', hwrite, hunlinked, hlists⟩ := h.unlink hlength
      have hnodup : (before ++ node :: rest).Nodup := h.nodup
      refine ⟨c', node, entry, before ++ rest, ?_, ?_, hunlinked, ?_, ?_, ?_⟩
      · rw [List.find?_append, List.find?_eq_none.mpr (by simpa using hfront)]
        simp [hmatch]
      · have hfound : receiveStatement identifier c (.searching before.getLast? (some node)) =
            some (c, .unlinking before.getLast? node) := by
          simp [receiveStatement, hcell, hmatch]
        have htaken : receiveStatement identifier c (.unlinking before.getLast? node) =
            some (c', .counting node) := by
          simp [receiveStatement, hcell, hwrite]
        exact .head hfound (.head htaken (.single rfl))
      · simp [entryAt, hcell]
      · rw [List.nodup_middle, List.nodup_cons] at hnodup
        exact hnodup.1
      · rw [List.eraseP_append_right _ (by simpa using hfront),
          List.eraseP_cons_of_pos (by simpa using hmatch)]
        exact hlists
    · have hpassed : receiveStatement identifier c (.searching before.getLast? (some node)) =
          some (c, .searching (some node) rest.head?) := by
        simp [receiveStatement, hcell, hmatch]
      have hnext : Lists c (before ++ [node] ++ rest) (front ++ [entry] ++ back) := by
        simpa using h
      have hothers : ∀ other ∈ front ++ [entry], other.msg.identifier ≠ identifier := by
        intro other hmem
        rcases List.mem_append.mp hmem with hold | hnew
        · exact hfront other hold
        · rw [List.mem_singleton.mp hnew]
          exact hmatch
      have hlater := ih hnext (by simpa using hlength) hothers
      simp only [List.getLast?_append, List.getLast?_singleton, Option.some_or] at hlater
      rcases hlater with ⟨hnone, hrun⟩ | ⟨c', found, entry', places, hfind, hrun, hrest⟩
      · exact .inl ⟨List.forall_mem_cons.mpr ⟨hmatch, hnone⟩, hrun.head hpassed⟩
      · right
        rw [List.append_assoc, List.singleton_append] at hfind hrest
        exact ⟨c', found, entry', places, hfind, hrun.head hpassed, hrest⟩

/-- The count covers the list, and it is never above its limit. -/
structure CountHolds (radius : RadiusClient) : Prop where
  covers : radius.msgs.length ≤ radius.numMsgs
  limited : radius.numMsgs ≤ radiusClientMaxEntries

theorem CountHolds.removeMatching (h : CountHolds radius) {entry : RadiusMsgList}
    (hfound : matching radius identifier = some entry) :
    CountHolds (removeMatching radius identifier) := by
  have hmem : entry ∈ radius.msgs := List.mem_of_find?_eq_some hfound
  have hmatch := List.find?_some hfound
  have hcovers := h.covers
  have hlimited := h.limited
  constructor
  · show (radius.msgs.eraseP _).length ≤ radius.numMsgs - 1
    rw [List.length_eraseP_of_mem hmem hmatch]
    omega
  · show radius.numMsgs - 1 ≤ radiusClientMaxEntries
    omega

theorem CountHolds.getId (h : CountHolds radius) : CountHolds (radiusClientGetId radius).2 :=
  ⟨Nat.le_trans (List.length_filter_le ..) h.covers, h.limited⟩

theorem CountHolds.listAdd (h : CountHolds radius) (entry : RadiusMsgList) :
    CountHolds (radiusClientListAdd radius entry) := by
  have hcovers := h.covers
  have hlimited := h.limited
  simp only [radiusClientMaxEntries] at hlimited
  by_cases hfull : radius.numMsgs ≥ radiusClientMaxEntries
  · rw [radiusClientListAdd, if_pos hfull]
    simp only [radiusClientMaxEntries] at hfull
    refine ⟨?_, hlimited⟩
    rw [List.length_cons, List.length_dropLast]
    show radius.msgs.length - 1 + 1 ≤ radius.numMsgs
    omega
  · rw [radiusClientListAdd, if_neg hfull]
    simp only [radiusClientMaxEntries] at hfull
    refine ⟨Nat.succ_le_succ hcovers, ?_⟩
    show radius.numMsgs + 1 ≤ 30
    omega

/-- Undisturbed, `radius_client_receive` finds the request of an answer and takes it off
the list. -/
theorem answer_taken_off (h : Represents c radius) (hcounted : CountHolds radius)
    (identifier : UInt8) :
    (matching radius identifier = none ∧
      ReceiveRun identifier (c, .searching none c.msgs) (c, .found none)) ∨
    ∃ c' node entry, matching radius identifier = some entry ∧
      ReceiveRun identifier (c, .searching none c.msgs) (c', .found (some node)) ∧
      c'.entryAt node = some entry ∧ c'.listed = (removeMatching radius identifier).msgs ∧
      Represents (c'.free node) (removeMatching radius identifier) := by
  obtain ⟨⟨places, hlists⟩, hnum, hnext⟩ := h
  have hrun := @receiveRun c [] places [] radius.msgs identifier hlists rfl (List.forall_mem_nil _)
  rw [← hlists.chain.head_eq] at hrun
  rcases hrun with ⟨hnone, hrun⟩ | ⟨c', node, entry, others, hfind, hrun, hunlinked, hentry,
    hother, htaken⟩
  · exact .inl ⟨List.find?_eq_none.mpr (by simpa using hnone), hrun⟩
  · right
    have hmem : entry ∈ radius.msgs := List.mem_of_find?_eq_some hfind
    have hsome : 0 < radius.numMsgs :=
      Nat.lt_of_lt_of_le (List.length_pos_of_mem hmem) hcounted.covers
    have hlisted : Lists { c' with numMsgs := c'.numMsgs - 1 } others
        (removeMatching radius identifier).msgs :=
      ⟨htaken.chain, htaken.nodup, htaken.made, htaken.contents⟩
    refine ⟨{ c' with numMsgs := c'.numMsgs - 1 }, node, entry, hfind, hrun, ?_,
      hlisted.listed_eq, ⟨⟨others, hlisted.free hother⟩, ?_, ?_⟩⟩
    · rw [← hentry]
      simp [entryAt, hunlinked.cell]
    · have hone : (1 : UInt32) ≤ c.numMsgs := by
        rw [UInt32.le_iff_toNat_le, hnum]
        exact hsome
      show (c'.numMsgs - 1).toNat = radius.numMsgs - 1
      rw [hunlinked.numMsgs, UInt32.toNat_sub_of_le _ _ hone, hnum]
      rfl
    · exact hunlinked.nextRadiusIdentifier.trans hnext

/-- The statements on the list leave the two counters of the client. -/
structure SameCounters (c c' : RadiusNodes) : Prop where
  numMsgs : c'.numMsgs = c.numMsgs
  nextRadiusIdentifier : c'.nextRadiusIdentifier = c.nextRadiusIdentifier

/-- The loop of `radius_client_get_id`. -/
theorem removeRun (h : Lists c (before ++ rest) (front ++ back))
    (hlength : before.length = front.length) (identifier : UInt8)
    (request : Option RadiusMsgList) :
    ∃ c' prev places,
      RequestRun identifier request (c, .removing before.getLast? rest.head?)
        (c', .removing prev none) ∧
      Lists c' places (front ++ back.filter fun entry => entry.msg.identifier ≠ identifier) ∧
      SameCounters c c' := by
  induction rest generalizing c before front back with
  | nil =>
    have hnone : back = [] := by
      have hall := h.length_eq
      simp only [List.append_nil, List.length_append] at hall
      exact List.eq_nil_of_length_eq_zero (by omega)
    subst hnone
    exact ⟨c, before.getLast?, before ++ [], .refl, h, rfl, rfl⟩
  | cons node rest ih =>
    obtain ⟨entry, back, rfl⟩ := h.split hlength
    have hcell := h.cell hlength
    by_cases hmatch : entry.msg.identifier = identifier
    · obtain ⟨c', hwrite, hunlinked, hlists⟩ := h.unlink hlength
      have hother : node ∉ before ++ rest := by
        have hnodup := h.nodup
        rw [List.nodup_middle, List.nodup_cons] at hnodup
        exact hnodup.1
      obtain ⟨c'', prev, places, hrun, hafter, hsame⟩ := ih (hlists.free hother) hlength
      have hremoved : requestStatement identifier request c
          (.removing before.getLast? (some node)) =
            some (c'.free node, .removing before.getLast? rest.head?) := by
        simp [requestStatement, hcell, hmatch, hwrite]
      refine ⟨c'', prev, places, hrun.head hremoved, ?_, ?_, ?_⟩
      · rw [List.filter_cons_of_neg (by simpa using hmatch)]
        exact hafter
      · exact hsame.numMsgs.trans hunlinked.numMsgs
      · exact hsame.nextRadiusIdentifier.trans hunlinked.nextRadiusIdentifier
    · have hnext : Lists c (before ++ [node] ++ rest) (front ++ [entry] ++ back) := by
        simpa using h
      obtain ⟨c', prev, places, hrun, hafter, hsame⟩ := ih hnext (by simpa using hlength)
      rw [List.getLast?_append, List.getLast?_singleton, Option.some_or] at hrun
      have hpassed : requestStatement identifier request c
          (.removing before.getLast? (some node)) = some (c, .removing (some node) rest.head?) := by
        simp [requestStatement, hcell, hmatch]
      refine ⟨c', prev, places, hrun.head hpassed, ?_, hsame⟩
      rw [List.filter_cons_of_pos (by simpa using hmatch)]
      simpa using hafter

/-- The loop of `radius_client_list_add` drops the last request, unless it is the only
one. -/
theorem truncateRun {node : Nat} (h : Lists c (before ++ node :: rest) (front ++ back))
    (hlength : before.length = front.length) (identifier : UInt8)
    (request : Option RadiusMsgList) :
    ∃ c' places,
      RequestRun identifier request (c, .truncating before.getLast? node) (c', .added) ∧
      Lists c' places ((front ++ back).take 1 ++ ((front ++ back).drop 1).dropLast) ∧
      SameCounters c c' := by
  induction rest generalizing before node front back with
  | nil =>
    obtain ⟨entry, back, rfl⟩ := h.split hlength
    have hcell := h.cell hlength
    have hnone : back = [] := by
      have hall := h.length_eq
      simp only [List.length_append, List.length_cons, List.length_nil] at hall
      exact List.eq_nil_of_length_eq_zero (by omega)
    subst hnone
    cases front with
    | nil =>
      obtain rfl : before = [] := List.eq_nil_of_length_eq_zero hlength
      have hkept : requestStatement identifier request c (.truncating none node) =
          some (c, .added) := by
        simp [requestStatement, hcell]
      exact ⟨c, [node], .single hkept, h, rfl, rfl⟩
    | cons first front =>
      obtain ⟨c', hwrite, hunlinked, hlists⟩ := h.unlink hlength
      have hother : node ∉ before ++ [] := by
        have hnodup := h.nodup
        rw [List.nodup_middle, List.nodup_cons] at hnodup
        exact hnodup.1
      obtain ⟨prev, hprev⟩ : ∃ prev, before.getLast? = some prev := by
        rw [← Option.isSome_iff_exists, List.getLast?_isSome]
        rintro rfl
        simp at hlength
      have hdropped : requestStatement identifier request c
          (.truncating before.getLast? node) = some (c'.free node, .added) := by
        rw [hprev] at hwrite ⊢
        rw [List.head?_nil] at hwrite
        simp [requestStatement, hcell, hwrite]
      refine ⟨c'.free node, before ++ [], .single hdropped, ?_, hunlinked.numMsgs,
        hunlinked.nextRadiusIdentifier⟩
      simpa using hlists.free hother
  | cons next rest ih =>
    obtain ⟨entry, back, rfl⟩ := h.split hlength
    have hcell := h.cell hlength
    have hlater : Lists c (before ++ [node] ++ next :: rest) (front ++ [entry] ++ back) := by
      simpa using h
    obtain ⟨c', places, hrun, hafter, hsame⟩ := ih hlater (by simpa using hlength)
    rw [List.getLast?_append, List.getLast?_singleton, Option.some_or] at hrun
    have hpassed : requestStatement identifier request c (.truncating before.getLast? node) =
        some (c, .truncating (some node) next) := by
      simp [requestStatement, hcell]
    refine ⟨c', places, hrun.head hpassed, ?_, hsame⟩
    simpa using hafter

/-- A new node in front of the list. -/
theorem RadiusNodes.Lists.linked (h : Lists c places msgs) (entry : RadiusMsgList) :
    Lists { c with
      nodes := Function.update c.nodes c.nextNode (some ⟨entry, c.msgs⟩)
      nextNode := c.nextNode + 1, msgs := some c.nextNode } (c.nextNode :: places)
        (entry :: msgs) := by
  have hnew : c.nextNode ∉ places := fun hmem => Nat.lt_irrefl _ (h.made _ hmem)
  have hlinks : RadiusNodes.link { c with
      nodes := Function.update c.nodes c.nextNode (some ⟨entry, c.msgs⟩)
      nextNode := c.nextNode + 1, msgs := some c.nextNode } =
        Function.update c.link c.nextNode c.msgs := by
    funext place
    by_cases hsame : place = c.nextNode
    · simp [link, hsame]
    · simp [link, hsame]
  refine ⟨⟨rfl, ?_⟩, List.nodup_cons.mpr ⟨hnew, h.nodup⟩, ?_, ?_⟩
  · rw [hlinks, Function.update_self]
    exact h.chain.update hnew _
  · intro place hmem
    rcases List.mem_cons.mp hmem with rfl | hold
    · exact Nat.lt_succ_self _
    · exact Nat.lt_succ_of_lt (h.made place hold)
  · rw [List.map_cons, List.map_cons]
    congr 1
    · simp [entryAt]
    · rw [← h.contents]
      apply List.map_congr_left
      intro place hmem
      have hne : place ≠ c.nextNode := fun hsame => hnew (hsame ▸ hmem)
      simp [entryAt, hne]

/-- `radius_client_list_add`. -/
theorem addRun (h : Represents c radius) (hcounted : CountHolds radius) (identifier : UInt8)
    (entry : RadiusMsgList) :
    ∃ c', RequestRun identifier (some entry) (c, .adding) (c', .added) ∧
      Represents c' (radiusClientListAdd radius entry) := by
  obtain ⟨⟨places, hlists⟩, hnum, hnext⟩ := h
  let linked : RadiusNodes := { c with
    nodes := Function.update c.nodes c.nextNode (some ⟨entry, c.msgs⟩)
    nextNode := c.nextNode + 1, msgs := some c.nextNode }
  have hlinked : Lists linked (c.nextNode :: places) (entry :: radius.msgs) := hlists.linked entry
  have hadded : RequestRun identifier (some entry) (c, .adding) (linked, .sizing c.nextNode) :=
    .head rfl (.single rfl)
  by_cases hfull : radius.numMsgs ≥ radiusClientMaxEntries
  · have hsized : requestStatement identifier (some entry) linked (.sizing c.nextNode) =
        some (linked, .truncating none c.nextNode) := by
      simp [requestStatement, linked, hnum, hfull]
    obtain ⟨c', places', hrun, hafter, hsame⟩ := @truncateRun linked [] places []
      (entry :: radius.msgs) c.nextNode hlinked rfl identifier (some entry)
    refine ⟨c', hadded.trans (hrun.head hsized), ⟨places', ?_⟩, ?_, ?_⟩
    · rw [radiusClientListAdd, if_pos hfull]
      exact hafter
    · rw [radiusClientListAdd, if_pos hfull, hsame.numMsgs]
      exact hnum
    · rw [radiusClientListAdd, if_pos hfull, hsame.nextRadiusIdentifier]
      exact hnext
  · have hsized : requestStatement identifier (some entry) linked (.sizing c.nextNode) =
        some ({ linked with numMsgs := linked.numMsgs + 1 }, .added) := by
      simp [requestStatement, linked, hnum, hfull]
    refine ⟨{ linked with numMsgs := linked.numMsgs + 1 }, hadded.tail hsized,
      ⟨c.nextNode :: places, ?_⟩, ?_, ?_⟩
    · rw [radiusClientListAdd, if_neg hfull]
      exact ⟨hlinked.chain, hlinked.nodup, hlinked.made, hlinked.contents⟩
    · rw [radiusClientListAdd, if_neg hfull]
      show (c.numMsgs + 1).toNat = radius.numMsgs + 1
      rw [UInt32.toNat_add, hnum]
      have hlimited := hcounted.limited
      simp only [radiusClientMaxEntries] at hlimited
      exact Nat.mod_eq_of_lt (by simp; omega)
    · rw [radiusClientListAdd, if_neg hfull]
      exact hnext

/-- The client after a request took its identifier and, if it was completed, its place. -/
def takeIdentifier (radius : RadiusClient) : Option RadiusMsgList → RadiusClient
  | none => (radiusClientGetId radius).2
  | some entry => radiusClientListAdd (radiusClientGetId radius).2 entry

theorem CountHolds.takeIdentifier (h : CountHolds radius) (request : Option RadiusMsgList) :
    CountHolds (takeIdentifier radius request) := by
  cases request with
  | none => exact h.getId
  | some entry => exact h.getId.listAdd entry

/-- Undisturbed, a request takes the next identifier from whoever waits under it and gets
its place in front. -/
theorem request_listed (h : Represents c radius) (hcounted : CountHolds radius)
    (request : Option RadiusMsgList) :
    ∃ c', RequestRun radius.nextRadiusIdentifier request
        ({ c with nextRadiusIdentifier := c.nextRadiusIdentifier + 1 }, .removing none c.msgs)
          (c', .added) ∧
      Represents c' (takeIdentifier radius request) := by
  obtain ⟨⟨places, hlists⟩, hnum, hnext⟩ := h
  let taken : RadiusNodes := { c with nextRadiusIdentifier := c.nextRadiusIdentifier + 1 }
  have htaken : Lists taken places radius.msgs :=
    ⟨hlists.chain, hlists.nodup, hlists.made, hlists.contents⟩
  obtain ⟨c', prev, places', hrun, hafter, hsame⟩ := @removeRun taken [] places [] radius.msgs
    htaken rfl radius.nextRadiusIdentifier request
  have hremoved : Represents c' (radiusClientGetId radius).2 := by
    refine ⟨⟨places', hafter⟩, ?_, ?_⟩
    · rw [hsame.numMsgs]
      exact hnum
    · rw [hsame.nextRadiusIdentifier]
      exact congrArg (· + 1) hnext
  have hhead : places.head? = c.msgs := hlists.chain.head_eq.symm
  rw [List.getLast?_nil, hhead] at hrun
  cases request with
  | none => exact ⟨c', hrun.tail rfl, hremoved⟩
  | some entry =>
    obtain ⟨c'', hadd, hrepresents⟩ :=
      addRun hremoved hcounted.getId radius.nextRadiusIdentifier entry
    exact ⟨c'', hrun.trans (hadd.head rfl), hrepresents⟩

end CoapEap.Radius
