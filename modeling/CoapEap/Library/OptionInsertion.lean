import CoapEap.Library.OptionFormat
import Mathlib.Data.List.Sort
import Mathlib.Data.List.TakeWhile

/-!
Options in any order. A writer that keeps its options in ascending order puts a new
one behind all that are not larger; the options of one number then stay in the
order in which they came.
-/

namespace Library.OptionFormat

def insertByNumber (option : Nat × Bytes) (options : List (Nat × Bytes)) : List (Nat × Bytes) :=
  options.orderedInsert (fun a b => a.1 < b.1) option

variable {prev number : Nat} {option : Nat × Bytes} {options : List (Nat × Bytes)}

theorem insertByNumber_eq :
    insertByNumber option options =
      options.takeWhile (fun o => o.1 ≤ option.1) ++
        option :: options.dropWhile (fun o => o.1 ≤ option.1) := by
  rw [insertByNumber, List.orderedInsert_eq_take_drop]
  simp only [not_lt]

theorem mem_insertByNumber {o : Nat × Bytes} :
    o ∈ insertByNumber option options ↔ o = option ∨ o ∈ options :=
  List.mem_orderedInsert _

/-- None of the options is below the number where they start. -/
theorem Ascending.le (h : Ascending prev options) : ∀ o ∈ options, prev ≤ o.1 := by
  induction options generalizing prev with
  | nil => simp
  | cons first rest ih =>
      obtain ⟨hfirst, hrest⟩ := h
      rw [List.forall_mem_cons]
      exact ⟨hfirst, fun o ho => Nat.le_trans hfirst (ih hrest o ho)⟩

theorem Ascending.le_last (h : Ascending prev options) :
    prev ≤ lastNumber prev options ∧ ∀ o ∈ options, o.1 ≤ lastNumber prev options := by
  induction options generalizing prev with
  | nil => simp
  | cons first rest ih =>
      obtain ⟨hfirst, hrest⟩ := h
      obtain ⟨hnext, hmore⟩ := ih hrest
      rw [lastNumber_cons, List.forall_mem_cons]
      exact ⟨Nat.le_trans hfirst hnext, hnext, hmore⟩

theorem ascending_insertByNumber (h : Ascending prev options) (hle : prev ≤ option.1) :
    Ascending prev (insertByNumber option options) := by
  induction options generalizing prev with
  | nil => exact ⟨hle, trivial⟩
  | cons first rest ih =>
      obtain ⟨hfirst, hrest⟩ := h
      rw [insertByNumber, List.orderedInsert_cons]
      split
      · rename_i hbefore
        exact ⟨hle, Nat.le_of_lt hbefore, hrest⟩
      · rename_i hbehind
        exact ⟨hfirst, ih hrest (Nat.le_of_not_lt hbehind)⟩

/-- Behind all options, where none is larger. -/
theorem insertByNumber_last (h : Ascending prev options)
    (hlast : lastNumber prev options ≤ option.1) :
    insertByNumber option options = options ++ [option] := by
  have hall : ∀ o ∈ options, decide (o.1 ≤ option.1) = true := by
    intro o ho
    exact decide_eq_true (Nat.le_trans (h.le_last.2 o ho) hlast)
  rw [insertByNumber_eq, List.takeWhile_eq_self_iff.mpr hall, List.dropWhile_eq_nil_iff.mpr hall]

/-- Otherwise in front of the first larger one. -/
theorem insertByNumber_between (option : Nat × Bytes) (h : Ascending prev options)
    (hlast : option.1 < lastNumber prev options) (hle : prev ≤ option.1) :
    ∃ before next after, options = before ++ next :: after ∧
      options.takeWhile (fun o => o.1 ≤ option.1) = before ∧
      insertByNumber option options = before ++ option :: next :: after ∧
      lastNumber prev before ≤ option.1 ∧ option.1 < next.1 := by
  induction options generalizing prev with
  | nil =>
      rw [lastNumber_nil] at hlast
      omega
  | cons first rest ih =>
      obtain ⟨hfirst, hrest⟩ := h
      rw [lastNumber_cons] at hlast
      by_cases hbefore : option.1 < first.1
      · have hnot : ¬ first.1 ≤ option.1 := by omega
        refine ⟨[], first, rest, rfl, by simp [hnot], ?_, hle, hbefore⟩
        rw [insertByNumber, List.orderedInsert_cons, if_pos hbefore, List.nil_append]
      · have hsmaller : first.1 ≤ option.1 := by omega
        obtain ⟨before, next, after, rfl, htake, hinsert, hprev, hnext⟩ := ih hrest hlast hsmaller
        rw [insertByNumber] at hinsert
        refine ⟨first :: before, next, after, rfl, ?_, ?_, ?_, hnext⟩
        · rw [List.takeWhile_cons_of_pos (by simpa using hsmaller), htake]
        · rw [insertByNumber, List.orderedInsert_cons, if_neg hbefore, hinsert, List.cons_append]
        · rw [lastNumber_cons]
          exact hprev

/-- In front of the last option, this one stays the last. -/
theorem lastNumber_insertByNumber (h : Ascending prev options)
    (hlast : option.1 < lastNumber prev options) (hle : prev ≤ option.1) :
    lastNumber prev (insertByNumber option options) = lastNumber prev options := by
  induction options generalizing prev with
  | nil =>
      rw [lastNumber_nil] at hlast
      omega
  | cons first rest ih =>
      obtain ⟨hfirst, hrest⟩ := h
      rw [lastNumber_cons] at hlast
      rw [insertByNumber, List.orderedInsert_cons]
      split
      · rw [lastNumber_cons, lastNumber_cons, lastNumber_cons]
      · rename_i hbehind
        rw [lastNumber_cons, lastNumber_cons]
        exact ih hrest hlast (Nat.le_of_not_lt hbehind)

/-- The options of one number, in the order in which they came. -/
theorem filter_insertByNumber (h : Ascending prev options) :
    (insertByNumber option options).filter (fun o => o.1 = number) =
      options.filter (fun o => o.1 = number) ++
        [option].filter (fun o => o.1 = number) := by
  induction options generalizing prev with
  | nil => rfl
  | cons first rest ih =>
      obtain ⟨hfirst, hrest⟩ := h
      rw [insertByNumber, List.orderedInsert_cons]
      split
      · rename_i hbefore
        by_cases hnumber : option.1 = number
        · have hnone : (first :: rest).filter (fun o => o.1 = number) = [] := by
            rw [List.filter_eq_nil_iff]
            intro o ho
            have hlarger : first.1 ≤ o.1 := by
              rcases List.mem_cons.mp ho with rfl | hin
              · exact Nat.le_refl _
              · exact hrest.le o hin
            rw [decide_eq_true_eq]
            omega
          rw [List.filter_cons, hnone, List.filter_cons]
          rfl
        · simp [List.filter_cons, hnumber]
      · have hbehind := ih hrest
        rw [insertByNumber] at hbehind
        simp only [List.filter_cons, hbehind]
        split
        · rfl
        · rfl

end Library.OptionFormat
