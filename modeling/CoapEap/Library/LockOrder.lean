import CoapEap.Library.Locking
import CoapEap.Library.Runs
import Mathlib.Algebra.GroupWithZero.Nat
import Mathlib.Algebra.Order.BigOperators.Group.List
import Mathlib.Algebra.Order.Group.Nat

/-!
Threads that share mutexes. Each thread has the operations that it has still to
perform and the mutexes it holds; an operation that takes a mutex waits until no
thread holds it. When every thread takes its mutexes in the order of a rank and
gives back what it took, the threads never wait for each other in a circle.
-/

namespace Library.LockOrder

open Library.Locking Library.Runs

/-- A thread inside an execution, or between two of them. -/
structure Thread (Mutex : Type) where
  held : List Mutex
  rest : List (LockOp Mutex)
  deriving DecidableEq, Repr

/-- Between two executions, with nothing held. -/
def Thread.idle {Mutex : Type} : Thread Mutex := ⟨[], []⟩

/-- A thread enters an execution with the operations of it, or performs its next
operation. -/
inductive Turn (Mutex : Type)
  | enter (i : Nat) (ops : List (LockOp Mutex))
  | go (i : Nat)
  deriving DecidableEq, Repr

variable {Mutex : Type} (rank : Mutex → Nat)

section Order

variable [DecidableEq Mutex]

/-- Every mutex is taken above all that are held by then. -/
def Ascends : List (LockOp Mutex) → List Mutex → Prop
  | [], _ => True
  | .lock m :: ops, held => (∀ m' ∈ held, rank m' < rank m) ∧ Ascends ops (m :: held)
  | .unlock m :: ops, held => Ascends ops (held.erase m)

/-- A stretch that restores what is held and takes its mutexes in order, over
whatever stands below them. -/
structure Ordered (ops : List (LockOp Mutex)) : Prop where
  restores : Restores ops
  ascends : ∀ held, (∀ m ∈ ops.map LockOp.mutex, ∀ m' ∈ held, rank m' < rank m) →
    Ascends rank ops held

variable {rank} {ops first second : List (LockOp Mutex)} {held after : List Mutex} {m : Mutex}

theorem Ascends.append (hfirst : Ascends rank first held)
    (hperforms : performs first held = some after) (hsecond : Ascends rank second after) :
    Ascends rank (first ++ second) held := by
  induction first generalizing held with
  | nil =>
    simp only [performs, Option.some.injEq] at hperforms
    exact hperforms ▸ hsecond
  | cons op first ih =>
    simp only [performs, Option.bind_eq_some_iff] at hperforms
    obtain ⟨held', hop, hrest⟩ := hperforms
    cases op with
    | lock m =>
      simp only [perform, Option.ite_none_left_eq_some, Option.some.injEq] at hop
      exact ⟨hfirst.1, ih hfirst.2 (hop.2 ▸ hrest)⟩
    | unlock m =>
      simp only [perform, Option.ite_none_right_eq_some, Option.some.injEq] at hop
      exact ih hfirst (hop.2 ▸ hrest)

omit [DecidableEq Mutex] in
theorem not_mem_of_below (hbelow : ∀ m ∈ ops.map LockOp.mutex, ∀ m' ∈ held, rank m' < rank m) :
    ∀ m ∈ ops.map LockOp.mutex, m ∉ held :=
  fun m hm hheld => Nat.lt_irrefl _ (hbelow m hm m hheld)

theorem ordered_nil : Ordered rank ([] : List (LockOp Mutex)) :=
  ⟨restores_nil, fun _ _ => trivial⟩

theorem Ordered.append (hfirst : Ordered rank first) (hsecond : Ordered rank second) :
    Ordered rank (first ++ second) := by
  refine ⟨hfirst.restores.append hsecond.restores, ?_⟩
  intro held hbelow
  rw [List.map_append, List.forall_mem_append] at hbelow
  exact (hfirst.ascends held hbelow.1).append
    (hfirst.restores held (not_mem_of_below hbelow.1)) (hsecond.ascends held hbelow.2)

/-- What is held before such a stretch is held after it, under a mutex below it. -/
theorem Ordered.under (h : Ordered rank ops) (hm : ∀ m' ∈ ops.map LockOp.mutex, rank m < rank m')
    (hbelow : ∀ m' ∈ ops.map LockOp.mutex, ∀ m'' ∈ held, rank m'' < rank m') :
    performs ops (m :: held) = some (m :: held) ∧ Ascends rank ops (m :: held) := by
  have hall : ∀ m' ∈ ops.map LockOp.mutex, ∀ m'' ∈ m :: held, rank m'' < rank m' := by
    intro m' hm' m'' hm''
    rcases List.mem_cons.mp hm'' with rfl | hheld
    · exact hm m' hm'
    · exact hbelow m' hm' m'' hheld
  exact ⟨h.restores _ (not_mem_of_below hall), h.ascends _ hall⟩

/-- A critical section whose own mutex stands below those taken in it. -/
theorem Ordered.inside (h : Ordered rank ops)
    (hm : ∀ m' ∈ ops.map LockOp.mutex, rank m < rank m') :
    Ordered rank (.lock m :: ops ++ [.unlock m]) := by
  have hother : m ∉ ops.map LockOp.mutex := fun hmem => Nat.lt_irrefl _ (hm m hmem)
  refine ⟨h.restores.inside hother, ?_⟩
  intro held hbelow
  have hself : ∀ m' ∈ held, rank m' < rank m := hbelow m (by simp [LockOp.mutex])
  have hrest : ∀ m' ∈ ops.map LockOp.mutex, ∀ m'' ∈ held, rank m'' < rank m' := by
    intro m' hm'
    exact hbelow m' (by simp only [List.cons_append, List.map_cons, List.map_append]; simp [hm'])
  obtain ⟨hperforms, hascends⟩ := h.under hm hrest
  exact ⟨hself, hascends.append hperforms trivial⟩

end Order

section Threads

variable [DecidableEq Mutex]

/-- No thread holds the mutex. -/
def free (threads : List (Thread Mutex)) (m : Mutex) : Bool :=
  threads.all fun thread => m ∉ thread.held

def heldAfter (held : List Mutex) : LockOp Mutex → List Mutex
  | .lock m => m :: held
  | .unlock m => held.erase m

/-- The next operation of a thread. -/
def advance (threads : List (Thread Mutex)) (i : Nat) : Option (List (Thread Mutex)) :=
  match threads[i]? with
  | some ⟨held, op :: rest⟩ =>
    let waits : Bool := match op with
      | .lock m => !free threads m
      | .unlock _ => false
    if waits then none else some (threads.set i ⟨heldAfter held op, rest⟩)
  | _ => none

/-- A thread that holds a mutex between two executions may enter the next one. -/
def act (threads : List (Thread Mutex)) : Turn Mutex → Option (List (Thread Mutex))
  | .enter i ops =>
    match threads[i]? with
    | some ⟨held, []⟩ => some (threads.set i ⟨held, ops⟩)
    | _ => none
  | .go i => advance threads i

/-- Only executions of the given kind are entered. -/
def EntersOnly (execution : List (LockOp Mutex) → Prop) :
    List (Thread Mutex) → Turn Mutex → Prop
  | _, .enter _ ops => execution ops
  | _, .go _ => True

/-- The operations that all threads have still to perform. -/
def remaining (threads : List (Thread Mutex)) : Nat :=
  (threads.map fun thread => thread.rest.length).sum

/-- The thread keeps the order on the rest of its way and ends with nothing held. -/
structure Thread.Orderly (thread : Thread Mutex) : Prop where
  finishes : performs thread.rest thread.held = some []
  ascends : Ascends rank thread.rest thread.held

variable {rank} {threads next : List (Thread Mutex)} {thread : Thread Mutex} {i : Nat}
variable {execution : List (LockOp Mutex) → Prop}

theorem orderly_idle : (Thread.idle : Thread Mutex).Orderly rank := ⟨rfl, trivial⟩

/-- A thread that has nothing to do holds nothing. -/
theorem Thread.Orderly.idle_of_rest (h : thread.Orderly rank) (hrest : thread.rest = []) :
    thread = Thread.idle := by
  obtain ⟨held, rest⟩ := thread
  obtain ⟨hfinishes, -⟩ := h
  simp only at hrest
  subst hrest
  simp only [performs, Option.some.injEq] at hfinishes
  rw [hfinishes]
  rfl

/-- The step of a thread: it takes a mutex that is free, or gives back one it holds. -/
theorem advance_cases (h : advance threads i = some next) :
    ∃ held op rest, threads[i]? = some ⟨held, op :: rest⟩ ∧
      (∀ m, op = .lock m → free threads m = true) ∧
      next = threads.set i ⟨heldAfter held op, rest⟩ := by
  unfold advance at h
  split at h
  · rename_i held op rest hthread
    simp only [Option.ite_none_left_eq_some, Option.some.injEq] at h
    refine ⟨held, op, rest, hthread, ?_, h.2.symm⟩
    rintro m rfl
    simpa using h.1
  · simp at h

theorem Thread.Orderly.advance {held : List Mutex} {op : LockOp Mutex}
    {rest : List (LockOp Mutex)} (h : Thread.Orderly rank ⟨held, op :: rest⟩) :
    Thread.Orderly rank ⟨heldAfter held op, rest⟩ := by
  obtain ⟨hfinishes, hascends⟩ := h
  simp only [performs, Option.bind_eq_some_iff] at hfinishes
  obtain ⟨held', hop, hrest⟩ := hfinishes
  cases op with
  | lock m =>
    simp only [perform, Option.ite_none_left_eq_some, Option.some.injEq] at hop
    obtain ⟨-, rfl⟩ := hop
    exact ⟨hrest, hascends.2⟩
  | unlock m =>
    simp only [perform, Option.ite_none_right_eq_some, Option.some.injEq] at hop
    obtain ⟨-, rfl⟩ := hop
    exact ⟨hrest, hascends⟩

theorem orderly_advance (hall : ∀ thread ∈ threads, thread.Orderly rank)
    (h : advance threads i = some next) : ∀ thread ∈ next, thread.Orderly rank := by
  obtain ⟨held, op, rest, hthread, -, rfl⟩ := advance_cases h
  intro thread hmem
  rcases List.mem_or_eq_of_mem_set hmem with hold | rfl
  · exact hall thread hold
  · exact (hall _ (List.mem_of_getElem? hthread)).advance

theorem remaining_advance (h : advance threads i = some next) :
    remaining next + 1 = remaining threads := by
  obtain ⟨held, op, rest, hthread, -, rfl⟩ := advance_cases h
  obtain ⟨hi, heq⟩ := List.getElem?_eq_some_iff.mp hthread
  clear hthread h
  induction threads generalizing i with
  | nil => simp at hi
  | cons first threads ih =>
    cases i with
    | zero =>
      simp only [List.getElem_cons_zero] at heq
      subst heq
      simp only [remaining, List.set_cons_zero, List.map_cons, List.sum_cons, List.length_cons]
      omega
    | succ i =>
      simp only [List.length_cons, Nat.add_lt_add_iff_right] at hi
      simp only [List.getElem_cons_succ] at heq
      have hrest := ih hi heq
      simp only [remaining, List.set_cons_succ, List.map_cons, List.sum_cons] at hrest ⊢
      omega

/-- The mutex of highest rank that a thread waits for is held by a thread that can
go on: it waits for none, for it would wait for a higher one. -/
theorem exists_advance (hall : ∀ thread ∈ threads, thread.Orderly rank)
    (hbusy : ∃ thread ∈ threads, thread.rest ≠ []) : ∃ i, (advance threads i).isSome := by
  by_contra hstuck
  push Not at hstuck
  -- every thread with something to do stands before a mutex that another one holds
  have hwaits : ∀ thread ∈ threads, thread.rest ≠ [] →
      ∃ m rest, thread.rest = .lock m :: rest ∧ ∃ other ∈ threads, m ∈ other.held := by
    intro thread hmem hrest
    obtain ⟨i, hthread⟩ := List.mem_iff_getElem?.mp hmem
    have hnone := hstuck i
    obtain ⟨held, ops⟩ := thread
    cases ops with
    | nil => simp at hrest
    | cons op rest =>
      cases op with
      | unlock m => simp [advance, hthread] at hnone
      | lock m =>
        refine ⟨m, rest, rfl, ?_⟩
        have htaken : free threads m = false := by
          simpa [advance, hthread] using hnone
        simpa [free] using htaken
  -- so the ranks that are waited for grow without end
  have hgrows : ∀ n, ∃ thread ∈ threads, ∃ m rest, thread.rest = .lock m :: rest ∧ n ≤ rank m := by
    intro n
    induction n with
    | zero =>
      obtain ⟨thread, hmem, hrest⟩ := hbusy
      obtain ⟨m, rest, hwait, -⟩ := hwaits thread hmem hrest
      exact ⟨thread, hmem, m, rest, hwait, Nat.zero_le _⟩
    | succ n ih =>
      obtain ⟨thread, hmem, m, rest, hwait, hn⟩ := ih
      obtain ⟨m', rest', hwait', other, hother, hheld⟩ := hwaits thread hmem (by simp [hwait])
      obtain ⟨rfl, rfl⟩ : m = m' ∧ rest = rest' := by simpa [hwait] using hwait'
      have hbusy' : other.rest ≠ [] := by
        intro hidle
        simp [(hall other hother).idle_of_rest hidle, Thread.idle] at hheld
      obtain ⟨m', rest', hnext, -⟩ := hwaits other hother hbusy'
      have hascends := (hall other hother).ascends
      rw [hnext] at hascends
      exact ⟨other, hother, m', rest', hnext, Nat.lt_of_le_of_lt hn (hascends.1 m hheld)⟩
  have hbound : ∀ thread ∈ threads, ∀ m rest, thread.rest = .lock m :: rest →
      rank m ≤ (threads.map fun thread =>
        (thread.rest.map fun op => rank op.mutex).sum).sum := by
    intro thread hmem m rest hwait
    have hone : rank m ≤ (thread.rest.map fun op => rank op.mutex).sum := by
      simp [hwait, LockOp.mutex]
    exact Nat.le_trans hone (List.single_le_sum (by simp) _ (List.mem_map_of_mem hmem))
  obtain ⟨thread, hmem, m, rest, hwait, hn⟩ := hgrows
    ((threads.map fun thread => (thread.rest.map fun op => rank op.mutex).sum).sum + 1)
  exact absurd (hbound thread hmem m rest hwait) (by omega)

/-- A schedule that enters only executions of the given kind. -/
theorem reachable_of_turns {turns : List (Turn Mutex)} {after : List (Thread Mutex)}
    (h : run act threads turns = some after)
    (hturns : ∀ turn ∈ turns, ∀ i ops, turn = .enter i ops → execution ops) :
    ReachableUnder act (EntersOnly execution) threads after := by
  induction turns generalizing threads with
  | nil =>
    simp only [run_nil, Option.some.injEq] at h
    exact h ▸ .start
  | cons turn turns ih =>
    simp only [run_cons, Option.bind_eq_some_iff] at h
    obtain ⟨next, hnext, hrest⟩ := h
    rw [List.forall_mem_cons] at hturns
    have hmet : EntersOnly execution threads turn := by
      cases turn with
      | enter i ops => exact hturns.1 i ops rfl
      | go i => trivial
    exact (ReachableUnder.step .start hmet hnext).trans (ih hrest hturns.2)

/-- The order is kept in every interleaving of executions that keep it. -/
theorem orderly_reachable {n : Nat}
    (hexecution : ∀ ops, execution ops → Thread.Orderly rank ⟨[], ops⟩)
    (h : ReachableUnder act (EntersOnly execution) (List.replicate n Thread.idle) threads) :
    ∀ thread ∈ threads, thread.Orderly rank := by
  induction h with
  | start =>
    intro thread hmem
    exact List.eq_of_mem_replicate hmem ▸ orderly_idle
  | @step threads next turn _ hmet htaken ih =>
    cases turn with
    | go i => exact orderly_advance ih htaken
    | enter i ops =>
      simp only [act] at htaken
      split at htaken
      · rename_i held hthread
        have hidle := (ih _ (List.mem_of_getElem? hthread)).idle_of_rest rfl
        simp only [Thread.idle, Thread.mk.injEq, and_true] at hidle
        subst hidle
        simp only [Option.some.injEq] at htaken
        subst htaken
        intro thread hmem
        rcases List.mem_or_eq_of_mem_set hmem with hold | rfl
        · exact ih thread hold
        · exact hexecution ops hmet
      · simp at htaken

/-- From such threads no schedule is longer than what they have still to do, and one
that cannot go on has brought every thread to its end. -/
theorem schedule_finishes (hall : ∀ thread ∈ threads, thread.Orderly rank) {schedule : List Nat}
    {after : List (Thread Mutex)} (h : run advance threads schedule = some after) :
    schedule.length ≤ remaining threads ∧
      ((∀ i, advance after i = none) → ∀ thread ∈ after, thread = Thread.idle) := by
  induction schedule generalizing threads with
  | nil =>
    simp only [run_nil, Option.some.injEq] at h
    subst h
    refine ⟨Nat.zero_le _, ?_⟩
    intro hstuck thread hmem
    refine (hall thread hmem).idle_of_rest ?_
    by_contra hrest
    obtain ⟨i, hi⟩ := exists_advance hall ⟨thread, hmem, hrest⟩
    simp [hstuck i] at hi
  | cons i schedule ih =>
    simp only [run_cons, Option.bind_eq_some_iff] at h
    obtain ⟨next, hnext, hrest⟩ := h
    obtain ⟨hlength, hend⟩ := ih (orderly_advance hall hnext) hrest
    have hremaining := remaining_advance hnext
    refine ⟨?_, hend⟩
    rw [List.length_cons]
    omega

end Threads

end Library.LockOrder
