import Mathlib.Data.List.Basic
import Mathlib.Tactic.Common

/-!
The lock operations of one thread. What a thread holds is a list of mutexes; an
operation has no result where the thread would wait for itself or give back what
it does not hold. A stretch of operations restores what is held when
the thread holds at its end what it held at its start.
-/

namespace Library.Locking

inductive LockOp (Mutex : Type)
  | lock (m : Mutex)
  | unlock (m : Mutex)
  deriving DecidableEq, Repr

variable {Mutex : Type}

def LockOp.mutex : LockOp Mutex → Mutex
  | .lock m => m
  | .unlock m => m

variable {ops first second : List (LockOp Mutex)} {held : List Mutex} {m : Mutex}

theorem free_beside (hother : m ∉ ops.map LockOp.mutex)
    (hfree : ∀ m' ∈ ops.map LockOp.mutex, m' ∉ held) :
    ∀ m' ∈ ops.map LockOp.mutex, m' ∉ m :: held := by
  intro m' hm' hmem
  rcases List.mem_cons.mp hmem with rfl | hheld
  · exact hother hm'
  · exact hfree m' hm' hheld

variable [DecidableEq Mutex]

def perform (held : List Mutex) : LockOp Mutex → Option (List Mutex)
  | .lock m => if m ∈ held then none else some (m :: held)
  | .unlock m => if m ∈ held then some (held.erase m) else none

def performs : List (LockOp Mutex) → List Mutex → Option (List Mutex)
  | [], held => some held
  | op :: ops, held => (perform held op).bind (performs ops)

/-- Whatever else the thread holds. -/
def Restores (ops : List (LockOp Mutex)) : Prop :=
  ∀ held, (∀ m ∈ ops.map LockOp.mutex, m ∉ held) → performs ops held = some held

theorem performs_append : performs (first ++ second) held =
    (performs first held).bind (performs second) := by
  induction first generalizing held with
  | nil => rfl
  | cons op first ih =>
    simp only [List.cons_append, performs]
    cases perform held op with
    | none => rfl
    | some held' => exact ih

theorem restores_nil : Restores ([] : List (LockOp Mutex)) := fun _ _ => rfl

theorem Restores.append (hfirst : Restores first) (hsecond : Restores second) :
    Restores (first ++ second) := by
  intro held hfree
  have hfree₁ : ∀ m ∈ first.map LockOp.mutex, m ∉ held := by
    intro m hm
    exact hfree m (by rw [List.map_append]; exact List.mem_append_left _ hm)
  have hfree₂ : ∀ m ∈ second.map LockOp.mutex, m ∉ held := by
    intro m hm
    exact hfree m (by rw [List.map_append]; exact List.mem_append_right _ hm)
  rw [performs_append, hfirst held hfree₁]
  exact hsecond held hfree₂

/-- A mutex that is taken before such a stretch is held after it. -/
theorem Restores.locked (h : Restores ops) (hother : m ∉ ops.map LockOp.mutex)
    (hfree : ∀ m' ∈ ops.map LockOp.mutex, m' ∉ held) (hm : m ∉ held) :
    performs (.lock m :: ops) held = some (m :: held) := by
  simp only [performs, perform, if_neg hm, Option.bind_some]
  exact h _ (free_beside hother hfree)

/-- A mutex that is held before such a stretch and given back after it. -/
theorem Restores.unlocked (h : Restores ops) (hother : m ∉ ops.map LockOp.mutex)
    (hfree : ∀ m' ∈ ops.map LockOp.mutex, m' ∉ held) :
    performs (ops ++ [.unlock m]) (m :: held) = some held := by
  rw [performs_append, h _ (free_beside hother hfree)]
  simp [performs, perform]

/-- A critical section: such a stretch between taking a mutex and giving it back. -/
theorem Restores.inside (h : Restores ops) (hother : m ∉ ops.map LockOp.mutex) :
    Restores (.lock m :: ops ++ [.unlock m]) := by
  intro held hfree
  have hm : m ∉ held := hfree m (by simp [LockOp.mutex])
  have hops : ∀ m' ∈ ops.map LockOp.mutex, m' ∉ held := by
    intro m' hm'
    exact hfree m' (by simp only [List.cons_append, List.map_cons, List.map_append]; simp [hm'])
  rw [performs_append, h.locked hother hops hm]
  simp [performs, perform]

end Library.Locking
