import Mathlib.Data.List.Perm.Basic
import Mathlib.Tactic.Common

/-!
Logs of what a system did: lists that only grow at the end. A log orders its
entries, so that one thing never follows another is a property of the log alone,
and it survives an addition when the addition does not contain the later entry
after the log has the earlier one.

The second part counts work in a collection of places: an item leaves its place
or moves to another, and the rest of the collection stays.
-/

namespace Library.Logs

variable {α β : Type}

/-- No occurrence of `later` has an occurrence of `first` before it. -/
def NeverAfter (first later : α) (log : List α) : Prop :=
  ∀ before after, log = before ++ later :: after → first ∉ before

theorem neverAfter_nil (first later : α) : NeverAfter first later [] := by
  intro before after h
  simp at h

theorem neverAfter_of_not_mem {first later : α} {log : List α} (h : later ∉ log) :
    NeverAfter first later log := by
  intro before after hlog
  exact absurd (by simp [hlog]) h

theorem neverAfter_of_first_not_mem {first later : α} {log : List α} (h : first ∉ log) :
    NeverAfter first later log := by
  intro before after hlog hmem
  apply h
  rw [hlog]
  exact List.mem_append_left _ hmem

/-- The rule for a log that grows. -/
theorem NeverAfter.append {first later : α} {log new : List α}
    (hlog : NeverAfter first later log) (hnew : NeverAfter first later new)
    (hseam : later ∈ new → first ∉ log) : NeverAfter first later (log ++ new) := by
  intro before after h hmem
  rcases List.append_eq_append_iff.mp h with ⟨middle, hbefore, hrest⟩ | ⟨middle, hlogs, hrest⟩
  · -- the later entry is among the new ones
    have hlater : later ∈ new := by simp [hrest]
    rw [hbefore] at hmem
    rcases List.mem_append.mp hmem with hold | hfresh
    · exact hseam hlater hold
    · exact hnew middle after hrest hfresh
  · -- it is an old one, or the first of the new ones
    cases middle with
    | nil =>
      simp only [List.nil_append] at hrest
      simp only [List.append_nil] at hlogs
      exact hseam (by simp [← hrest]) (hlogs ▸ hmem)
    | cons x middle =>
      simp only [List.cons_append, List.cons.injEq] at hrest
      obtain ⟨rfl, -⟩ := hrest
      exact hlog before middle hlogs hmem

theorem neverAfter_cons {first later x : α} {log : List α} [Decidable (x = first)] :
    NeverAfter first later (x :: log) ↔
      if x = first then later ∉ log else NeverAfter first later log := by
  split
  · rename_i hfirst
    constructor
    · intro h hlater
      obtain ⟨before, after, rfl⟩ := List.append_of_mem hlater
      exact h (x :: before) after rfl (by simp [hfirst])
    · intro h before after hlog hmem
      cases before with
      | nil => simp at hmem
      | cons y before =>
        simp only [List.cons_append, List.cons.injEq] at hlog
        exact h (by simp [hlog.2])
  · rename_i hother
    constructor
    · intro h before after hlog hmem
      exact h (x :: before) after (by rw [hlog, List.cons_append]) (List.mem_cons_of_mem _ hmem)
    · intro h before after hlog hmem
      cases before with
      | nil => simp at hmem
      | cons y before =>
        simp only [List.cons_append, List.cons.injEq] at hlog
        obtain ⟨rfl, hlog⟩ := hlog
        rcases List.mem_cons.mp hmem with rfl | hmem
        · exact hother rfl
        · exact h before after hlog hmem

instance decidableNeverAfter [DecidableEq α] (first later : α) :
    (log : List α) → Decidable (NeverAfter first later log)
  | [] => isTrue (neverAfter_nil first later)
  | x :: log =>
    have := decidableNeverAfter first later log
    decidable_of_iff (if x = first then later ∉ log else NeverAfter first later log)
      neverAfter_cons.symm

/-- An item at a place in front, the others behind. -/
theorem perm_of_getElem? {places : List α} {i : Nat} {x : α} (h : places[i]? = some x) :
    places.Perm (x :: places.eraseIdx i) := by
  obtain ⟨hi, rfl⟩ := List.getElem?_eq_some_iff.mp h
  exact (List.getElem_cons_eraseIdx_perm hi).symm

/-- Putting another item in a place is taking the old one away and adding the new
one. -/
theorem set_perm {places : List α} {i : Nat} {x y : α} (h : places[i]? = some x) :
    (places.set i y).Perm (y :: places.eraseIdx i) := by
  obtain ⟨hi, -⟩ := List.getElem?_eq_some_iff.mp h
  exact List.set_perm_cons_eraseIdx hi y

/-- Entries picked by what they carry are the picked among what is carried. -/
theorem map_filter_eq {g : α → Option β} {keep : α → Bool} {keep' : β → Bool} {log : List α}
    (h : ∀ a ∈ log, keep a = (g a).any keep') :
    (log.filter keep).map g = ((log.filterMap g).filter keep').map some := by
  induction log with
  | nil => rfl
  | cons a rest ih =>
    have hrest := ih fun b hb => h b (List.mem_cons_of_mem _ hb)
    have ha := h a (List.mem_cons_self ..)
    cases hg : g a with
    | none =>
      rw [hg] at ha
      rw [List.filter_cons_of_neg (by simp [ha]), List.filterMap_cons_none hg]
      exact hrest
    | some b =>
      rw [hg, Option.any_some] at ha
      rw [List.filterMap_cons_some hg]
      by_cases hkeep : keep' b = true
      · rw [List.filter_cons_of_pos (ha.trans hkeep), List.filter_cons_of_pos hkeep, List.map_cons,
          List.map_cons, hg, hrest]
      · rw [List.filter_cons_of_neg (by rw [ha]; exact hkeep), List.filter_cons_of_neg hkeep]
        exact hrest

end Library.Logs
