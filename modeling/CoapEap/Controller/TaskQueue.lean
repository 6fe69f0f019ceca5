import CoapEap.Controller.System
import CoapEap.Library.LinkedList
import Mathlib.Algebra.GroupWithZero.Nat

/-!
The task queue of the controller in its own threads (`add_task`, `get_task`,
`handle_worker`): a linked list with a pointer to its head and one to its last
node, and a semaphore that counts what was announced.

The sections under `list_tasks_mutex` are one move each. Between them a caller of
`add_task` stands before its `sem_post`, and a worker before the test of
`list_tasks`, which it makes without the mutex, before `get_task`, or before the
test of the `a_task` that it has kept since its previous round. The loop of a
worker ends on a signal only, and signals are not in the system.
-/

namespace CoapEap.TaskQueue

open Library.LinkedList Library.Runs

abbrev Node := Nat

/-- Where a worker stands in the loop of `handle_worker`. -/
inductive Stage
  | semWait | testList | getTask | testTask | running
  deriving DecidableEq, Repr

/-- The local variables of `handle_worker`. -/
structure Worker where
  threadId : Nat
  stage : Stage := .semWait
  aTask : Option Node := none
  deriving DecidableEq, Repr

/-- A task in the hands of a worker: its number, the node, and what the node asks
to be run. -/
structure Entry (Task : Type) where
  threadId : Nat
  node : Node
  task : Task
  deriving DecidableEq, Repr

/-- The queue and its threads. `posting` counts the callers of `add_task` before
their `sem_post`; `added`, `taken` and `executed` note what happened. -/
structure Queue (Task : Type) where
  data : Node → Option Task
  next : Node → Option Node
  nextNode : Node
  listTasks : Option Node
  lastTask : Option Node
  gotTask : Nat
  posting : Nat
  workers : List Worker
  crashed : Bool
  added : List (Node × Task)
  taken : List (Entry Task)
  executed : List (Entry Task)

inductive Event (Task : Type)
  | addTask (task : Task)
  | semPost
  | worker (i : Nat)
  deriving DecidableEq, Repr

variable {Task : Type}

/-- The list section of `add_task`. -/
def addTask (q : Queue Task) (task : Task) : Queue Task :=
  let newElement := q.nextNode
  let q := { q with
    nextNode := newElement + 1
    data := Function.update q.data newElement (some task)
    next := Function.update q.next newElement none
    posting := q.posting + 1
    added := q.added ++ [(newElement, task)] }
  match q.listTasks with
  | none => { q with listTasks := some newElement, lastTask := some newElement }
  | some _ =>
    match q.lastTask with
    | none => { q with crashed := true }
    | some last =>
      { q with next := Function.update q.next last (some newElement), lastTask := some newElement }

/-- `get_task`: the node it returns is taken out of the list. -/
def getTask (q : Queue Task) : Queue Task × Option Node :=
  match q.listTasks with
  | none => (q, none)
  | some task =>
    ({ q with listTasks := q.next task, next := Function.update q.next task none }, some task)

/-- What a worker has in `a_task`, read from the node. -/
def entryOf (q : Queue Task) (w : Worker) : List (Entry Task) :=
  match w.aTask.bind q.data, w.aTask with
  | some task, some node => [⟨w.threadId, node, task⟩]
  | _, _ => []

/-- One move of a worker: the queue and the worker after it. -/
def handleWorker (q : Queue Task) (w : Worker) : Option (Queue Task × Worker) :=
  match w.stage with
  | .semWait =>
    if q.gotTask = 0 then none
    else some ({ q with gotTask := q.gotTask - 1 }, { w with stage := .testList })
  | .testList =>
    some (q, { w with stage := if q.listTasks.isSome then .getTask else .testTask })
  | .getTask =>
    let (q, task) := getTask q
    let w := { w with aTask := task, stage := .testTask }
    some ({ q with taken := q.taken ++ entryOf q w }, w)
  | .testTask =>
    if w.aTask.isSome then
      some ({ q with executed := q.executed ++ entryOf q w }, { w with stage := .running })
    else some (q, { w with stage := .semWait })
  | .running => some (q, { w with stage := .semWait })

def step (q : Queue Task) (e : Event Task) : Option (Queue Task) :=
  if q.crashed then none
  else
    match e with
    | .addTask task => some (addTask q task)
    | .semPost =>
      if q.posting = 0 then none
      else some { q with posting := q.posting - 1, gotTask := q.gotTask + 1 }
    | .worker i =>
      (q.workers[i]?).bind fun w =>
        (handleWorker q w).map fun r => { r.1 with workers := q.workers.set i r.2 }

/-- The queue as `main` leaves it once it has started its workers. -/
def initialQueue (numWorkers : Nat) : Queue Task :=
  { data := fun _ => none, next := fun _ => none, nextNode := 0, listTasks := none
    lastTask := none, gotTask := 0, posting := 0
    workers := (List.range numWorkers).map fun threadId => { threadId }
    crashed := false, added := [], taken := [], executed := [] }

abbrev Reachable (numWorkers : Nat) : Queue Task → Prop :=
  Library.Runs.Reachable step (initialQueue numWorkers)

variable {q r : Queue Task} {w w' : Worker}

/-- What was added and not taken yet. -/
def waiting (q : Queue Task) : List (Node × Task) := q.added.drop q.taken.length

def Entry.element (entry : Entry Task) : Node × Task := (entry.node, entry.task)

/-- A worker that was woken for a task and has not taken it yet. -/
def woken (w : Worker) : Bool := w.stage == .testList || w.stage == .getTask

/-- The task that a worker took in this round and has not started yet. -/
def inHand (q : Queue Task) (w : Worker) : List (Entry Task) :=
  if w.stage = .testTask then entryOf q w else []

def inHands (q : Queue Task) : List (Entry Task) := q.workers.flatMap (inHand q)

/-- The queue is the list of what was added and not taken, in order; every unit
of the semaphore, every caller before its `sem_post` and every woken worker
stands for one element of it; and what was taken is executed or in a hand. -/
structure Consistent (q : Queue Task) : Prop where
  running : q.crashed = false
  inOrder : q.taken.map Entry.element = q.added.take q.taken.length
  distinct : (q.added.map Prod.fst).Nodup
  fresh : ∀ element ∈ q.added, element.1 < q.nextNode
  data : ∀ element ∈ q.added, q.data element.1 = some element.2
  chain : Chain q.next q.listTasks ((waiting q).map Prod.fst)
  last : ∀ front element, waiting q = front ++ [element] → q.lastTask = some element.1
  announced : q.gotTask + q.posting + q.workers.countP woken = (waiting q).length
  known : ∀ w ∈ q.workers, ∀ node, w.aTask = some node → node < q.nextNode
  held : ∀ w ∈ q.workers, w.stage = .testTask → (entryOf q w).length = 1
  once : (q.executed ++ inHands q).Perm q.taken

theorem Consistent.length_le (h : Consistent q) : q.taken.length ≤ q.added.length := by
  have hlength := congrArg List.length h.inOrder
  rw [List.length_map, List.length_take] at hlength
  omega

theorem Consistent.added_eq (h : Consistent q) :
    q.added = q.taken.map Entry.element ++ waiting q := by
  rw [h.inOrder, waiting, List.take_append_drop]

theorem initial_consistent (numWorkers : Nat) :
    Consistent (initialQueue numWorkers : Queue Task) where
  running := rfl
  inOrder := rfl
  distinct := List.nodup_nil
  fresh := by simp [initialQueue]
  data := by simp [initialQueue]
  chain := rfl
  last := by simp [initialQueue, waiting]
  announced := by simp [initialQueue, waiting, woken]
  known := by simp [initialQueue]
  held := by simp [initialQueue]
  once := by simp [initialQueue, inHands, inHand]

theorem Consistent.waiting_subset (_ : Consistent q) : ∀ x ∈ waiting q, x ∈ q.added :=
  fun _ hx => List.mem_of_mem_drop hx

theorem Consistent.waiting_distinct (h : Consistent q) :
    ((waiting q).map Prod.fst).Nodup := by
  have hnodup := h.distinct
  rw [h.added_eq, List.map_append] at hnodup
  exact (List.nodup_append.mp hnodup).2.1

theorem Consistent.new_not_waiting (h : Consistent q) :
    q.nextNode ∉ (waiting q).map Prod.fst := by
  intro hmem
  obtain ⟨element, helement, hnode⟩ := List.mem_map.mp hmem
  have hfresh := h.fresh element (h.waiting_subset element helement)
  rw [hnode] at hfresh
  exact Nat.lt_irrefl _ hfresh

/-- What the list section of `add_task` does to a list that is in order. -/
theorem addTask_cases (h : Consistent q) (task : Task) :
    ∃ next head, addTask q task = { q with
        nextNode := q.nextNode + 1
        data := Function.update q.data q.nextNode (some task)
        next
        listTasks := head
        lastTask := some q.nextNode
        posting := q.posting + 1
        added := q.added ++ [(q.nextNode, task)] } ∧
      Chain next head ((waiting q).map Prod.fst ++ [q.nextNode]) := by
  have hchain := h.chain.update h.new_not_waiting none
  cases hlist : q.listTasks with
  | none =>
    rw [hlist] at hchain
    refine ⟨Function.update q.next q.nextNode none, some q.nextNode, ?_, ?_⟩
    · simp only [addTask, hlist]
    · rw [hchain.eq_nil]
      exact ⟨rfl, Function.update_self ..⟩
  | some first =>
    -- the pointer to the last node is that of the last one waiting
    have hsome : waiting q ≠ [] := by
      intro hnil
      have hhead := h.chain.head_eq_none_iff.mpr (by rw [hnil]; rfl)
      rw [hlist] at hhead
      contradiction
    obtain ⟨front, element, hwaiting⟩ := (List.eq_nil_or_concat (waiting q)).resolve_left hsome
    rw [List.concat_eq_append] at hwaiting
    have hlast := h.last front element hwaiting
    have hdistinct := h.waiting_distinct
    have hnew := h.new_not_waiting
    rw [hlist] at hchain
    rw [hwaiting, List.map_append, List.map_cons, List.map_nil] at hchain hdistinct hnew ⊢
    have hfirst : element.1 ∉ front.map Prod.fst := by
      intro hmem
      exact (List.nodup_append.mp hdistinct).2.2 _ hmem _ (List.mem_singleton_self _) rfl
    have hne : q.nextNode ≠ element.1 := by
      intro heq
      exact hnew (by rw [heq]; simp)
    refine ⟨_, some first, ?_, hchain.concat hfirst hne (Function.update_self ..)⟩
    simp only [addTask, hlist, hlast]

/-- The first task waiting is the one that `get_task` takes out. -/
theorem getTask_cases (h : Consistent q) {first : Node} (hlist : q.listTasks = some first) :
    ∃ task rest, waiting q = (first, task) :: rest ∧ getTask q = ({ q with
        listTasks := q.next first
        next := Function.update q.next first none }, some first) ∧
      Chain (Function.update q.next first none) (q.next first) (rest.map Prod.fst) := by
  have hchain := h.chain
  rw [hlist] at hchain
  obtain ⟨nodes, hnodes, hrest⟩ := hchain.eq_cons
  cases hwaiting : waiting q with
  | nil => rw [hwaiting] at hnodes; simp at hnodes
  | cons element rest =>
    rw [hwaiting, List.map_cons, List.cons.injEq] at hnodes
    obtain ⟨rfl, rfl⟩ := hnodes
    have hdistinct := h.waiting_distinct
    rw [hwaiting, List.map_cons, List.nodup_cons] at hdistinct
    refine ⟨element.2, rest, rfl, ?_, hrest.update hdistinct.1 none⟩
    simp only [getTask, hlist]

theorem entryOf_congr {data : Node → Option Task} (hdata : r.data = data)
    (hsame : ∀ node, w.aTask = some node → data node = q.data node) :
    entryOf r w = entryOf q w := by
  unfold entryOf
  cases htask : w.aTask with
  | none => rfl
  | some node => rw [Option.bind_some, Option.bind_some, hdata, hsame node htask]

theorem inHands_congr {workers : List Worker} (hworkers : r.workers = workers)
    (hsame : ∀ w ∈ workers, entryOf r w = entryOf q w) :
    inHands r = workers.flatMap (inHand q) := by
  unfold inHands
  rw [hworkers, List.flatMap_def, List.flatMap_def]
  apply congrArg List.flatten
  apply List.map_congr_left
  intro w hw
  rw [inHand, inHand, hsame w hw]

theorem waiting_addTask (h : Consistent q) (task : Task) :
    waiting (addTask q task) = waiting q ++ [(q.nextNode, task)] := by
  obtain ⟨next, head, hadd, -⟩ := addTask_cases h task
  rw [hadd]
  exact List.drop_append_of_le_length h.length_le

/-- Adding a task does not reach what a worker has in `a_task`. -/
theorem consistent_addTask (h : Consistent q) (task : Task) : Consistent (addTask q task) := by
  obtain ⟨next, head, hadd, hchain⟩ := addTask_cases h task
  have hnew : ∀ element ∈ q.added, element.1 ≠ q.nextNode := by
    intro element helement heq
    have hfresh := h.fresh element helement
    rw [heq] at hfresh
    exact Nat.lt_irrefl _ hfresh
  have hentry : ∀ w ∈ q.workers, entryOf (addTask q task) w = entryOf q w := by
    intro w hw
    have hdata : (addTask q task).data = Function.update q.data q.nextNode (some task) := by
      rw [hadd]
    refine entryOf_congr hdata fun node hnode => ?_
    exact Function.update_of_ne (Nat.ne_of_lt (h.known w hw node hnode)) _ _
  have hwaiting := waiting_addTask h task
  have hhands := inHands_congr (r := addTask q task) (by rw [hadd]) hentry
  refine ⟨?_, ?_, ?_, ?_, ?_, ?_, ?_, ?_, ?_, ?_, ?_⟩
  · rw [hadd]
    exact h.running
  · rw [hadd]
    exact h.inOrder.trans (List.take_append_of_le_length h.length_le).symm
  · rw [hadd, List.map_append, List.nodup_append]
    refine ⟨h.distinct, by simp, ?_⟩
    intro node hnode other hother heq
    obtain ⟨element, helement, rfl⟩ := List.mem_map.mp hnode
    rw [List.map_cons, List.map_nil, List.mem_singleton] at hother
    exact hnew element helement (heq.trans hother)
  · rw [hadd]
    intro element helement
    rcases List.mem_append.mp helement with hold | hlast
    · exact Nat.lt_succ_of_lt (h.fresh element hold)
    · rw [List.mem_singleton.mp hlast]
      exact Nat.lt_succ_self _
  · rw [hadd]
    intro element helement
    rcases List.mem_append.mp helement with hold | hlast
    · exact (Function.update_of_ne (hnew element hold) _ _).trans (h.data element hold)
    · rw [List.mem_singleton.mp hlast]
      exact Function.update_self ..
  · rw [hwaiting, hadd, List.map_append]
    exact hchain
  · intro front element heq
    rw [hwaiting] at heq
    rw [hadd, ← (List.append_inj' heq rfl).2 |> List.singleton_inj.mp]
  · rw [hwaiting, hadd, List.length_append]
    have hannounced := h.announced
    show q.gotTask + (q.posting + 1) + q.workers.countP woken = _
    rw [List.length_singleton, ← hannounced]
    omega
  · rw [hadd]
    intro w hw node hnode
    exact Nat.lt_succ_of_lt (h.known w hw node hnode)
  · intro w hw hstage
    have hworker : w ∈ q.workers := by
      rw [hadd] at hw
      exact hw
    rw [hentry w hworker]
    exact h.held w hworker hstage
  · rw [hhands, hadd]
    exact h.once

theorem consistent_semPost (h : Consistent q) (hposting : q.posting ≠ 0) :
    Consistent { q with posting := q.posting - 1, gotTask := q.gotTask + 1 } where
  running := h.running
  inOrder := h.inOrder
  distinct := h.distinct
  fresh := h.fresh
  data := h.data
  chain := h.chain
  last := h.last
  announced := by
    show q.gotTask + 1 + (q.posting - 1) + q.workers.countP woken = (waiting q).length
    rw [← h.announced]
    omega
  known := h.known
  held := h.held
  once := h.once

/-- A woken worker finds a task. -/
theorem Consistent.finds_task (h : Consistent q) (hw : w ∈ q.workers) (hwoken : woken w = true) :
    ∃ first, q.listTasks = some first := by
  have hcount : 0 < q.workers.countP woken := List.countP_pos_iff.mpr ⟨w, hw, hwoken⟩
  have hannounced := h.announced
  cases hlist : q.listTasks with
  | some first => exact ⟨first, rfl⟩
  | none =>
    have hnil := h.chain.head_eq_none_iff.mp hlist
    rw [List.map_eq_nil_iff.mp hnil, List.length_nil] at hannounced
    omega

/-- A move that leaves the list alone. -/
theorem consistent_of_same_list (h : Consistent q) {gotTask : Nat} {workers : List Worker}
    {executed : List (Entry Task)}
    (hannounced : gotTask + q.posting + workers.countP woken = (waiting q).length)
    (hknown : ∀ w ∈ workers, ∀ node, w.aTask = some node → node < q.nextNode)
    (hheld : ∀ w ∈ workers, w.stage = .testTask → (entryOf q w).length = 1)
    (honce : (executed ++ workers.flatMap (inHand q)).Perm q.taken) :
    Consistent { q with gotTask, workers, executed } where
  running := h.running
  inOrder := h.inOrder
  distinct := h.distinct
  fresh := h.fresh
  data := h.data
  chain := h.chain
  last := h.last
  announced := hannounced
  known := hknown
  held := hheld
  once := honce

theorem mem_replaced {front back : List Worker} {v : Worker} (hv : v ∈ front ++ w' :: back) :
    v = w' ∨ v ∈ front ++ w :: back := by
  simp only [List.mem_append, List.mem_cons] at hv ⊢
  tauto

/-- `get_task` in the hands of a woken worker. -/
theorem consistent_getTask (h : Consistent q) {front back : List Worker}
    (hworkers : q.workers = front ++ w :: back) (hstage : w.stage = .getTask)
    (hmove : handleWorker q w = some (r, w')) :
    Consistent { r with workers := front ++ w' :: back } := by
  have hmem : w ∈ q.workers := by
    rw [hworkers]
    simp
  obtain ⟨first, hlist⟩ := h.finds_task hmem (by simp [woken, hstage])
  obtain ⟨task, rest, hwaiting, hget, hchain⟩ := getTask_cases h hlist
  have helement : (first, task) ∈ q.added :=
    h.waiting_subset _ (by rw [hwaiting]; exact List.mem_cons_self ..)
  have hentry : ∀ u : Queue Task, u.data = q.data →
      entryOf u { w with aTask := some first, stage := .testTask } =
        [⟨w.threadId, first, task⟩] := by
    intro u hu
    have hdata : q.data first = some task := h.data _ helement
    simp [entryOf, hu, hdata]
  have hadded := h.added_eq
  rw [hwaiting] at hadded
  have htakes := hentry
    { q with listTasks := q.next first, next := Function.update q.next first none } rfl
  simp only [handleWorker, hstage, hget, htakes, Option.some.injEq, Prod.mk.injEq] at hmove
  obtain ⟨rfl, rfl⟩ := hmove
  have hrest : q.added.drop (q.taken.length + 1) = rest := by
    have hdrop := congrArg List.tail hwaiting
    rw [waiting, List.tail_drop] at hdrop
    exact hdrop
  have hannounced := h.announced
  have honce := h.once
  rw [hworkers, List.countP_append, List.countP_cons, hwaiting, List.length_cons] at hannounced
  rw [inHands, hworkers, List.flatMap_append, List.flatMap_cons] at honce
  refine ⟨h.running, ?_, h.distinct, h.fresh, h.data, ?_, ?_, ?_, ?_, ?_, ?_⟩
  · have htaken : (q.taken.map Entry.element).length = q.taken.length := List.length_map ..
    have htake : q.added.take (q.taken.length + 1) =
        q.taken.map Entry.element ++ [(first, task)] := by
      rw [hadded, List.take_append, htaken, List.take_of_length_le (by omega)]
      simp
    simp [Entry.element, htake]
  · simpa [waiting, hrest] using hchain
  · intro before element heq
    rw [waiting, List.length_append, List.length_singleton, hrest] at heq
    exact h.last ((first, task) :: before) element (by rw [hwaiting, heq]; rfl)
  · simp only [waiting, List.length_append, List.length_singleton, hrest, List.countP_append,
      List.countP_cons]
    simp only [woken, hstage] at hannounced ⊢
    simp at hannounced ⊢
    omega
  · intro v hv node hnode
    rcases mem_replaced (w := w) hv with rfl | hold
    · cases hnode
      exact h.fresh _ helement
    · exact h.known v (hworkers ▸ hold) node hnode
  · intro v hv htest
    rcases mem_replaced (w := w) hv with rfl | hold
    · exact congrArg List.length (hentry _ rfl)
    · exact h.held v (hworkers ▸ hold) htest
  · -- the entry is new both in the log and in the hand of the worker
    have hnew : inHand q { w with aTask := some first, stage := .testTask } =
        [⟨w.threadId, first, task⟩] := by
      simp only [inHand, if_true]
      exact hentry q rfl
    have hold : inHand q w = [] := by simp [inHand, hstage]
    rw [hold, List.nil_append] at honce
    show (q.executed ++ (front ++ _ :: back).flatMap (inHand q)).Perm _
    rw [List.flatMap_append, List.flatMap_cons, hnew, ← List.append_assoc]
    refine List.perm_middle.trans ?_
    rw [List.append_assoc]
    exact (List.Perm.cons _ honce).trans (List.perm_append_singleton _ _).symm

theorem consistent_handleWorker (h : Consistent q) {front back : List Worker}
    (hworkers : q.workers = front ++ w :: back) (hmove : handleWorker q w = some (r, w')) :
    Consistent { r with workers := front ++ w' :: back } := by
  have hmem : w ∈ q.workers := by
    rw [hworkers]
    simp
  have hannounced := h.announced
  have honce := h.once
  rw [inHands, hworkers, List.flatMap_append, List.flatMap_cons] at honce
  rw [hworkers, List.countP_append, List.countP_cons] at hannounced
  have hknown : w'.aTask = w.aTask → ∀ v ∈ front ++ w' :: back, ∀ node,
      v.aTask = some node → node < q.nextNode := by
    intro hsame v hv node hnode
    rcases mem_replaced (w := w) hv with rfl | hold
    · exact h.known w hmem node (hsame ▸ hnode)
    · exact h.known v (hworkers ▸ hold) node hnode
  have hheld : w'.stage ≠ .testTask → ∀ v ∈ front ++ w' :: back, v.stage = .testTask →
      (entryOf q v).length = 1 := by
    intro hother v hv hstage
    rcases mem_replaced (w := w) hv with rfl | hold
    · exact absurd hstage hother
    · exact h.held v (hworkers ▸ hold) hstage
  cases hstage : w.stage with
  | semWait =>
    simp only [handleWorker, hstage] at hmove
    split at hmove
    · simp at hmove
    · rename_i hunits
      simp only [Option.some.injEq, Prod.mk.injEq] at hmove
      obtain ⟨rfl, rfl⟩ := hmove
      refine consistent_of_same_list h ?_ (hknown rfl) (hheld (by simp)) ?_
      · rw [List.countP_append, List.countP_cons]
        simp only [woken, hstage] at hannounced ⊢
        simp at hannounced ⊢
        omega
      · rw [List.flatMap_append, List.flatMap_cons]
        simpa [inHand, hstage] using honce
  | testList =>
    have hwoken : woken w = true := by simp [woken, hstage]
    obtain ⟨first, hlist⟩ := h.finds_task hmem hwoken
    simp only [handleWorker, hstage, hlist, Option.isSome_some, if_true, Option.some.injEq,
      Prod.mk.injEq] at hmove
    obtain ⟨rfl, rfl⟩ := hmove
    refine consistent_of_same_list h ?_ (hknown rfl) (hheld (by simp)) ?_
    · rw [List.countP_append, List.countP_cons]
      simpa [woken, hstage] using hannounced
    · rw [List.flatMap_append, List.flatMap_cons]
      simpa [inHand, hstage] using honce
  | getTask => exact consistent_getTask h hworkers hstage hmove
  | testTask =>
    have hone := h.held w hmem hstage
    have hsome : w.aTask.isSome := by
      cases htask : w.aTask with
      | none => simp [entryOf, htask] at hone
      | some node => rfl
    simp only [handleWorker, hstage, hsome, if_true, Option.some.injEq, Prod.mk.injEq] at hmove
    obtain ⟨rfl, rfl⟩ := hmove
    refine consistent_of_same_list h ?_ (hknown rfl) (hheld (by simp)) ?_
    · rw [List.countP_append, List.countP_cons]
      simpa [woken, hstage] using hannounced
    · -- the entry moves from the hand of the worker to the log
      rw [List.flatMap_append, List.flatMap_cons, List.append_assoc]
      simp only [inHand, hstage, if_true] at honce
      refine List.Perm.trans ?_ honce
      apply List.Perm.append_left
      simp only [inHand, reduceCtorEq, if_false, List.nil_append]
      rw [← List.append_assoc, ← List.append_assoc]
      exact List.Perm.append_right _ List.perm_append_comm
  | running =>
    simp only [handleWorker, hstage, Option.some.injEq, Prod.mk.injEq] at hmove
    obtain ⟨rfl, rfl⟩ := hmove
    refine consistent_of_same_list h ?_ (hknown rfl) (hheld (by simp)) ?_
    · rw [List.countP_append, List.countP_cons]
      simpa [woken, hstage] using hannounced
    · rw [List.flatMap_append, List.flatMap_cons]
      simpa [inHand, hstage] using honce

theorem split_workers {i : Nat} (hworker : q.workers[i]? = some w) :
    ∃ front back, q.workers = front ++ w :: back ∧
      ∀ v, q.workers.set i v = front ++ v :: back := by
  obtain ⟨hlt, hget⟩ := List.getElem?_eq_some_iff.mp hworker
  refine ⟨q.workers.take i, q.workers.drop (i + 1), ?_, ?_⟩
  · rw [← hget, List.getElem_cons_drop, List.take_append_drop]
  · intro v
    rw [List.set_eq_take_append_cons_drop, if_pos hlt]

theorem step_consistent {e : Event Task} (h : Consistent q) (htaken : step q e = some r) :
    Consistent r := by
  unfold step at htaken
  rw [if_neg (by simp [h.running])] at htaken
  cases e with
  | addTask task =>
    simp only [Option.some.injEq] at htaken
    subst htaken
    exact consistent_addTask h task
  | semPost =>
    simp only [Option.ite_none_left_eq_some, Option.some.injEq] at htaken
    obtain ⟨hposting, rfl⟩ := htaken
    exact consistent_semPost h hposting
  | worker i =>
    simp only [Option.bind_eq_some_iff, Option.map_eq_some_iff] at htaken
    obtain ⟨w, hworker, ⟨r, w'⟩, hmove, rfl⟩ := htaken
    obtain ⟨front, back, hsplit, hset⟩ := split_workers hworker
    rw [hset]
    exact consistent_handleWorker h hsplit hmove

theorem reachable_consistent {numWorkers : Nat} (h : Reachable numWorkers q) : Consistent q := by
  refine h.invariant (initial_consistent numWorkers) ?_
  intro q e r _ hinv _ htaken
  exact step_consistent hinv htaken

/-- How many moves a worker still makes before it waits again. -/
def Stage.left : Stage → Nat
  | .semWait => 0
  | .testList => 4
  | .getTask => 3
  | .testTask => 2
  | .running => 1

/-- A bound on the moves that are left without another call of `add_task`. -/
def work (q : Queue Task) : Nat :=
  6 * q.posting + 5 * q.gotTask + (q.workers.map fun w => w.stage.left).sum

def Event.isAddTask : Event Task → Bool
  | .addTask _ => true
  | _ => false

theorem handleWorker_left (hmove : handleWorker q w = some (r, w')) :
    r.posting = q.posting ∧ 5 * r.gotTask + w'.stage.left + 1 ≤ 5 * q.gotTask + w.stage.left := by
  cases hstage : w.stage with
  | semWait =>
    simp only [handleWorker, hstage] at hmove
    split at hmove
    · simp at hmove
    · rename_i hunits
      simp only [Option.some.injEq, Prod.mk.injEq] at hmove
      obtain ⟨rfl, rfl⟩ := hmove
      refine ⟨rfl, ?_⟩
      simp only [Stage.left]
      omega
  | testList =>
    simp only [handleWorker, hstage, Option.some.injEq, Prod.mk.injEq] at hmove
    obtain ⟨rfl, rfl⟩ := hmove
    refine ⟨rfl, ?_⟩
    cases q.listTasks with
    | none => simp [Stage.left]
    | some first => simp [Stage.left]
  | getTask =>
    simp only [handleWorker, hstage, Option.some.injEq, Prod.mk.injEq] at hmove
    obtain ⟨rfl, rfl⟩ := hmove
    unfold getTask
    split
    · exact ⟨rfl, Nat.le_refl _⟩
    · exact ⟨rfl, Nat.le_refl _⟩
  | testTask =>
    simp only [handleWorker, hstage] at hmove
    split at hmove
    · simp only [Option.some.injEq, Prod.mk.injEq] at hmove
      obtain ⟨rfl, rfl⟩ := hmove
      exact ⟨rfl, Nat.le_refl _⟩
    · simp only [Option.some.injEq, Prod.mk.injEq] at hmove
      obtain ⟨rfl, rfl⟩ := hmove
      exact ⟨rfl, Nat.le_succ _⟩
  | running =>
    simp only [handleWorker, hstage, Option.some.injEq, Prod.mk.injEq] at hmove
    obtain ⟨rfl, rfl⟩ := hmove
    exact ⟨rfl, Nat.le_refl _⟩

/-- Every move but a call of `add_task` leaves less to do. -/
theorem work_decreases {e : Event Task} (hother : e.isAddTask = false)
    (htaken : step q e = some r) : work r + 1 ≤ work q := by
  unfold step at htaken
  split at htaken
  · simp at htaken
  · cases e with
    | addTask task => simp [Event.isAddTask] at hother
    | semPost =>
      simp only [Option.ite_none_left_eq_some, Option.some.injEq] at htaken
      obtain ⟨hposting, rfl⟩ := htaken
      simp only [work]
      omega
    | worker i =>
      simp only [Option.bind_eq_some_iff, Option.map_eq_some_iff] at htaken
      obtain ⟨w, hworker, ⟨r, w'⟩, hmove, rfl⟩ := htaken
      obtain ⟨front, back, hsplit, hset⟩ := split_workers hworker
      obtain ⟨hposting, hleft⟩ := handleWorker_left hmove
      have hafter : ((q.workers.set i w').map fun w => w.stage.left).sum =
          (front.map fun w => w.stage.left).sum + (w'.stage.left +
            (back.map fun w => w.stage.left).sum) := by
        rw [hset]
        simp
      simp only [work, hafter, hposting]
      rw [hsplit, List.map_append, List.map_cons, List.sum_append, List.sum_cons]
      omega

theorem run_length_le_work {events : List (Event Task)}
    (hothers : ∀ e ∈ events, e.isAddTask = false) (hrun : run step q events = some r) :
    events.length + work r ≤ work q := by
  induction events generalizing q with
  | nil =>
    simp only [run_nil, Option.some.injEq] at hrun
    rw [hrun]
    simp
  | cons e rest ih =>
    simp only [run_cons, Option.bind_eq_some_iff] at hrun
    obtain ⟨q', hfirst, hrest⟩ := hrun
    have hone := work_decreases (hothers e (List.mem_cons_self ..)) hfirst
    have hmore := ih (fun e' he' => hothers e' (List.mem_cons_of_mem _ he')) hrest
    rw [List.length_cons]
    omega

/-- When no thread can move, everything that was added has been executed. -/
theorem stuck_executed (h : Consistent q) (hworkers : q.workers ≠ [])
    (hstuck : ∀ e : Event Task, e.isAddTask = false → step q e = none) :
    (q.executed.map Entry.element).Perm q.added := by
  have hstep : ∀ e : Event Task, e.isAddTask = false → (match e with
      | .addTask task => some (addTask q task)
      | .semPost =>
        if q.posting = 0 then none
        else some { q with posting := q.posting - 1, gotTask := q.gotTask + 1 }
      | .worker i =>
        (q.workers[i]?).bind fun w =>
          (handleWorker q w).map fun r => { r.1 with workers := q.workers.set i r.2 }) = none := by
    intro e he
    have hnone := hstuck e he
    unfold step at hnone
    rwa [if_neg (by simp [h.running])] at hnone
  have hposting : q.posting = 0 := by
    have hpost := hstep .semPost rfl
    simpa using hpost
  have hwait : ∀ w ∈ q.workers, w.stage = .semWait ∧ q.gotTask = 0 := by
    intro w hw
    obtain ⟨i, hi, hget⟩ := List.getElem_of_mem hw
    have hmove := hstep (.worker i) rfl
    simp only [List.getElem?_eq_getElem hi, hget, Option.bind_some, Option.map_eq_none_iff] at hmove
    cases hstage : w.stage with
    | semWait =>
      simp only [handleWorker, hstage] at hmove
      exact ⟨rfl, by simpa using hmove⟩
    | testList => simp [handleWorker, hstage] at hmove
    | getTask => simp [handleWorker, hstage] at hmove
    | testTask =>
      simp only [handleWorker, hstage] at hmove
      split at hmove
      · simp at hmove
      · simp at hmove
    | running => simp [handleWorker, hstage] at hmove
  obtain ⟨w, hw⟩ := List.exists_mem_of_ne_nil _ hworkers
  have hasleep : q.workers.countP woken = 0 := by
    rw [List.countP_eq_zero]
    intro v hv
    simp [woken, (hwait v hv).1]
  have hempty : inHands q = [] := by
    rw [inHands, List.flatMap_eq_nil_iff]
    intro v hv
    simp [inHand, (hwait v hv).1]
  have hannounced := h.announced
  rw [hposting, (hwait w hw).2, hasleep] at hannounced
  have hnil : waiting q = [] := List.length_eq_zero_iff.mp hannounced.symm
  have honce := h.once
  rw [hempty, List.append_nil] at honce
  rw [h.added_eq, hnil, List.append_nil]
  exact honce.map _

theorem workers_length {numWorkers : Nat} (h : Reachable numWorkers q) :
    q.workers.length = numWorkers := by
  induction h with
  | start => simp [initialQueue]
  | @step before after e _ _ htaken ih =>
    unfold step at htaken
    split at htaken
    · simp at htaken
    · cases e with
      | addTask task =>
        simp only [Option.some.injEq] at htaken
        subst htaken
        have hsame : (addTask before task).workers = before.workers := by
          unfold addTask
          simp only
          split
          · rfl
          · split
            · rfl
            · rfl
        rw [hsame, ih]
      | semPost =>
        simp only [Option.ite_none_left_eq_some, Option.some.injEq] at htaken
        obtain ⟨-, rfl⟩ := htaken
        exact ih
      | worker i =>
        simp only [Option.bind_eq_some_iff, Option.map_eq_some_iff] at htaken
        obtain ⟨w, -, ⟨r, w'⟩, -, rfl⟩ := htaken
        rw [List.length_set, ih]

/-- No node is executed twice. -/
theorem Consistent.executed_distinct (h : Consistent q) : (q.executed.map Entry.node).Nodup := by
  have htaken : (q.taken.map Entry.node).Nodup := by
    have hnodes : q.taken.map Entry.node = (q.taken.map Entry.element).map Prod.fst := by
      rw [List.map_map]
      rfl
    rw [hnodes, h.inOrder]
    exact h.distinct.sublist ((List.take_sublist _ _).map _)
  have hboth := (h.once.map Entry.node).nodup_iff.mpr htaken
  rw [List.map_append] at hboth
  exact (List.nodup_append.mp hboth).1

/-- The queue in any interleaving of any number of callers and workers. Tasks are
taken in the order they were added; what was taken is executed or about to be,
once; a worker that was woken finds the list nonempty; no worker executes the
same node twice; and once no new tasks come, the threads stop after a bounded
number of moves, with everything executed. -/
theorem tasks_executed_once_in_order {numWorkers : Nat} (h : Reachable numWorkers q) :
    q.taken.map Entry.element = q.added.take q.taken.length ∧
      (q.added.map Prod.fst).Nodup ∧
      (q.executed ++ inHands q).Perm q.taken ∧
      (q.executed.map Entry.node).Nodup ∧
      (∀ w ∈ q.workers, w.stage = .testList ∨ w.stage = .getTask → q.listTasks ≠ none) ∧
      (∀ w ∈ q.workers, w.stage = .testTask → (inHand q w).length = 1) ∧
      q.crashed = false ∧
      (numWorkers ≠ 0 → ∀ events, (∀ e ∈ events, e.isAddTask = false) →
        ∀ r, run step q events = some r → events.length ≤ work q ∧
          ((∀ e : Event Task, e.isAddTask = false → step r e = none) →
            (r.executed.map Entry.element).Perm r.added)) := by
  have hq := reachable_consistent h
  refine ⟨hq.inOrder, hq.distinct, hq.once, hq.executed_distinct, ?_, ?_, hq.running, ?_⟩
  · intro w hw hstage hnone
    have hwoken : woken w = true := by
      rcases hstage with hstage | hstage
      · simp [woken, hstage]
      · simp [woken, hstage]
    obtain ⟨first, hlist⟩ := hq.finds_task hw hwoken
    rw [hlist] at hnone
    contradiction
  · intro w hw hstage
    rw [inHand, if_pos hstage]
    exact hq.held w hw hstage
  · intro hsome events hothers r hrun
    have hbound := run_length_le_work hothers hrun
    refine ⟨by omega, fun hstuck => ?_⟩
    have hr : Reachable numWorkers r := h.trans (reachable_of_run hrun)
    refine stuck_executed (reachable_consistent hr) ?_ hstuck
    intro hnil
    have hlength := workers_length hr
    rw [hnil] at hlength
    exact hsome hlength.symm

/-- Two workers with two tasks: both took one, and one of them has run it. -/
theorem two_workers_share_tasks : ∃ q : Queue Nat, Reachable 2 q ∧
    q.taken = [⟨1, 0, 5⟩, ⟨0, 1, 6⟩] ∧ q.executed = [⟨0, 1, 6⟩] ∧
    q.taken.map Entry.element = q.added.take q.taken.length ∧
    (q.executed ++ inHands q).Perm q.taken ∧ (q.executed.map Entry.node).Nodup := by
  have hrun : (run step (initialQueue 2) [.addTask 5, .addTask 6, .semPost, .worker 1, .worker 1,
      .worker 1, .semPost, .worker 0, .worker 0, .worker 0, .worker 0]).any (fun q =>
        q.taken == [⟨1, 0, 5⟩, ⟨0, 1, 6⟩] && q.executed == [⟨0, 1, 6⟩]) = true := by
    decide +kernel
  obtain ⟨q, hq, hcheck⟩ := exists_of_run hrun
  simp only [Bool.and_eq_true, beq_iff_eq] at hcheck
  obtain ⟨horder, -, honce, hnodes, -⟩ := tasks_executed_once_in_order (reachable_of_run hq)
  exact ⟨q, reachable_of_run hq, hcheck.1, hcheck.2, horder, honce, hnodes⟩

/-- The tasks that wait, as the controller's model has them. -/
def contents (q : Queue Task) : List Task := (waiting q).map Prod.snd

theorem contents_congr (hadded : r.added = q.added) (htaken : r.taken = q.taken) :
    contents r = contents q := by
  rw [contents, waiting, hadded, htaken, contents, waiting]

theorem handleWorker_contents (h : Consistent q) (hmem : w ∈ q.workers)
    (hmove : handleWorker q w = some (r, w')) :
    contents r = contents q ∨
      ∃ entry, r.taken = q.taken ++ [entry] ∧ contents q = entry.task :: contents r := by
  cases hstage : w.stage with
  | semWait =>
    simp only [handleWorker, hstage] at hmove
    split at hmove
    · simp at hmove
    · simp only [Option.some.injEq, Prod.mk.injEq] at hmove
      obtain ⟨rfl, -⟩ := hmove
      exact .inl (contents_congr rfl rfl)
  | testList =>
    simp only [handleWorker, hstage, Option.some.injEq, Prod.mk.injEq] at hmove
    obtain ⟨rfl, -⟩ := hmove
    exact .inl rfl
  | getTask =>
    right
    obtain ⟨first, hlist⟩ := h.finds_task hmem (by simp [woken, hstage])
    obtain ⟨task, rest, hwaiting, hget, -⟩ := getTask_cases h hlist
    have hdata : q.data first = some task :=
      h.data _ (h.waiting_subset _ (by rw [hwaiting]; exact List.mem_cons_self ..))
    simp only [handleWorker, hstage, hget, entryOf, Option.bind_some, hdata, Option.some.injEq,
      Prod.mk.injEq] at hmove
    obtain ⟨rfl, -⟩ := hmove
    refine ⟨_, rfl, ?_⟩
    have htail := congrArg List.tail hwaiting
    rw [waiting, List.tail_drop] at htail
    rw [contents, hwaiting, contents, waiting, List.length_append, List.length_singleton, htail]
    rfl
  | testTask =>
    simp only [handleWorker, hstage] at hmove
    split at hmove
    · simp only [Option.some.injEq, Prod.mk.injEq] at hmove
      obtain ⟨rfl, -⟩ := hmove
      exact .inl (contents_congr rfl rfl)
    · simp only [Option.some.injEq, Prod.mk.injEq] at hmove
      obtain ⟨rfl, -⟩ := hmove
      exact .inl rfl
  | running =>
    simp only [handleWorker, hstage, Option.some.injEq, Prod.mk.injEq] at hmove
    obtain ⟨rfl, -⟩ := hmove
    exact .inl rfl

/-- One move of the threads of the queue is nothing, `addTask` or `getTask` to the
controller's model. -/
theorem step_refines_controller {numWorkers : Nat} {q r : Queue Mainserver.Task}
    {e : Event Mainserver.Task} (h : Reachable numWorkers q) (htaken : step q e = some r)
    {digests : Radius.Digests} {s : Mainserver.Controller} (hs : s.tasks = contents q)
    (hrunning : s.halted = none) :
    s.tasks = contents r ∨
      (∃ task, e = .addTask task ∧ (Mainserver.addTask s task).tasks = contents r) ∨
      ∃ entry t, r.taken = q.taken ++ [entry] ∧ Mainserver.step digests s .getTask = some t ∧
        t.tasks = contents r ∧ t.workers = s.workers ++ [.took entry.task] := by
  have hq := reachable_consistent h
  unfold step at htaken
  rw [if_neg (by simp [hq.running])] at htaken
  cases e with
  | addTask task =>
    simp only [Option.some.injEq] at htaken
    subst htaken
    refine .inr (.inl ⟨task, rfl, ?_⟩)
    rw [contents, waiting_addTask hq, List.map_append, Mainserver.addTask, hs, contents]
    rfl
  | semPost =>
    simp only [Option.ite_none_left_eq_some, Option.some.injEq] at htaken
    obtain ⟨-, rfl⟩ := htaken
    exact .inl hs
  | worker i =>
    simp only [Option.bind_eq_some_iff, Option.map_eq_some_iff] at htaken
    obtain ⟨w, hworker, ⟨r, w'⟩, hmove, rfl⟩ := htaken
    rcases handleWorker_contents hq (List.mem_of_getElem? hworker) hmove with
      hsame | ⟨entry, htook, hcontents⟩
    · exact .inl (hs.trans hsame.symm)
    · rw [hcontents] at hs
      refine .inr (.inr ⟨entry, { s with
        tasks := contents r, workers := s.workers ++ [.took entry.task] }, htook, ?_, rfl, rfl⟩)
      simp [Mainserver.step, hrunning, hs]

end CoapEap.TaskQueue
