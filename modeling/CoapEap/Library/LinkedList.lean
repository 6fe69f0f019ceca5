import Mathlib.Logic.Function.Basic
import Mathlib.Tactic.Common

/-!
Singly linked lists in a memory of nodes: what it means that the nodes reached
from a head are a given list, and how the writes that add a node behind the last
one or take a node out change that list.
-/

namespace Library.LinkedList

variable {Node : Type}

/-- From `head` on, the links lead through `nodes` and then end. -/
def Chain (next : Node → Option Node) : Option Node → List Node → Prop
  | head, [] => head = none
  | head, node :: rest => head = some node ∧ Chain next (next node) rest

variable {next : Node → Option Node} {head : Option Node} {node last : Node} {nodes : List Node}

theorem Chain.eq_nil (h : Chain next none nodes) : nodes = [] := by
  cases nodes with
  | nil => rfl
  | cons node rest => simp [Chain] at h

theorem Chain.eq_cons (h : Chain next (some node) nodes) :
    ∃ rest, nodes = node :: rest ∧ Chain next (next node) rest := by
  cases nodes with
  | nil => simp [Chain] at h
  | cons first rest =>
    obtain ⟨hfirst, hrest⟩ := h
    cases hfirst
    exact ⟨rest, rfl, hrest⟩

/-- The head is a null pointer exactly when the list is empty. -/
theorem Chain.head_eq_none_iff (h : Chain next head nodes) : head = none ↔ nodes = [] := by
  constructor
  · rintro rfl
    exact h.eq_nil
  · rintro rfl
    exact h

theorem Chain.head_eq (h : Chain next head nodes) : head = nodes.head? := by
  cases nodes with
  | nil => exact h
  | cons first rest => exact h.1

/-- From a node in the list on, the rest of it follows. -/
theorem Chain.behind {before rest : List Node} (h : Chain next head (before ++ node :: rest)) :
    Chain next (next node) rest := by
  induction before generalizing head with
  | nil => exact h.2
  | cons first before ih => exact ih h.2

variable [DecidableEq Node]

/-- A write to a node that is not in the list. -/
theorem Chain.update (h : Chain next head nodes) (hother : node ∉ nodes) (link : Option Node) :
    Chain (Function.update next node link) head nodes := by
  induction nodes generalizing head with
  | nil => exact h
  | cons first rest ih =>
    obtain ⟨hhead, hrest⟩ := h
    have hne : first ≠ node := by
      rintro rfl
      exact hother (List.mem_cons_self ..)
    refine ⟨hhead, ?_⟩
    rw [Function.update_of_ne hne]
    exact ih hrest fun hmem => hother (List.mem_cons_of_mem _ hmem)

/-- The write that links a new node behind the last one. -/
theorem Chain.concat (h : Chain next head (nodes ++ [last])) (hfirst : last ∉ nodes)
    (hnew : node ≠ last) (hend : next node = none) :
    Chain (Function.update next last (some node)) head (nodes ++ [last] ++ [node]) := by
  induction nodes generalizing head with
  | nil =>
    obtain ⟨hhead, -⟩ := h
    refine ⟨hhead, ?_⟩
    rw [Function.update_self]
    refine ⟨rfl, ?_⟩
    rw [Function.update_of_ne hnew]
    exact hend
  | cons first rest ih =>
    obtain ⟨hhead, hrest⟩ := h
    have hne : first ≠ last := by
      rintro rfl
      exact hfirst (List.mem_cons_self ..)
    refine ⟨hhead, ?_⟩
    rw [Function.update_of_ne hne]
    exact ih hrest fun hmem => hfirst (List.mem_cons_of_mem _ hmem)

/-- The write that takes a node out behind another one. -/
theorem Chain.unlink {before rest : List Node}
    (h : Chain next head (before ++ last :: node :: rest))
    (hnodup : (before ++ last :: node :: rest).Nodup) :
    Chain (Function.update next last (next node)) head (before ++ last :: rest) := by
  induction before generalizing head with
  | nil =>
    obtain ⟨hhead, hrest⟩ := h
    have hother : last ∉ rest := fun hmem =>
      (List.nodup_cons.mp hnodup).1 (List.mem_cons_of_mem _ hmem)
    refine ⟨hhead, ?_⟩
    rw [Function.update_self]
    exact hrest.2.update hother _
  | cons first before ih =>
    obtain ⟨hhead, hrest⟩ := h
    obtain ⟨hfirst, hnodup⟩ := List.nodup_cons.mp hnodup
    have hne : first ≠ last := by
      rintro rfl
      exact hfirst (List.mem_append_right _ (List.mem_cons_self ..))
    refine ⟨hhead, ?_⟩
    rw [Function.update_of_ne hne]
    exact ih hrest hnodup

end Library.LinkedList
