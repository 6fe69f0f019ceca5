import Mathlib.Logic.Function.Basic

/-!
Search by a key that changes. A list of owners is searched for the first one
whose key has a given value; the keys are a function on owners, one owner's key
is updated at a time, and new owners are put in front.
-/

namespace Library.FirstMatch

variable {Owner Key : Type} [DecidableEq Key]

/-- The first owner with that key. -/
def first (owners : List Owner) (key : Owner → Key) (k : Key) : Option Owner :=
  owners.find? fun owner => key owner = k

variable {owners : List Owner} {key key' : Owner → Key} {owner new : Owner} {k : Key}

theorem first_congr (h : ∀ owner ∈ owners, key' owner = key owner) :
    first owners key' k = first owners key k := by
  induction owners with
  | nil => rfl
  | cons other rest ih =>
    have hhead : key' other = key other := h other (List.mem_cons_self ..)
    have hrest : first rest key' k = first rest key k :=
      ih fun owner hmem => h owner (List.mem_cons_of_mem _ hmem)
    unfold first at hrest ⊢
    rw [List.find?_cons, List.find?_cons, hhead, hrest]

/-- A new owner with another key is passed over. -/
theorem first_cons_of_ne (h : key new ≠ k) : first (new :: owners) key k = first owners key k := by
  unfold first
  rw [List.find?_cons_of_neg (by simpa using h)]

/-- Taking the first element out that passes takes out all that do. -/
theorem eraseP_eq_filter {test : Owner → Bool}
    (hone : owners.Pairwise fun a b => test a = true → test b = false) :
    owners.eraseP test = owners.filter fun owner => !test owner := by
  induction owners with
  | nil => rfl
  | cons other rest ih =>
    obtain ⟨hhead, hrest⟩ := List.pairwise_cons.mp hone
    by_cases hother : test other = true
    · rw [List.eraseP_cons_of_pos hother, List.filter_cons_of_neg (by simpa using hother)]
      symm
      apply List.filter_eq_self.mpr
      intro owner hmem
      simp [hhead owner hmem hother]
    · rw [List.eraseP_cons_of_neg hother, List.filter_cons_of_pos (by simpa using hother),
        ih hrest]

/-- Taking the first element out that passes keeps all elements of a kind that it is
not of. -/
theorem filter_eraseP {test keep : Owner → Bool}
    (h : ∀ owner, owners.find? test = some owner → keep owner = false) :
    (owners.eraseP test).filter keep = owners.filter keep := by
  induction owners with
  | nil => rfl
  | cons other rest ih =>
    by_cases hother : test other = true
    · have hkept : keep other = false := h other (List.find?_cons_of_pos hother)
      rw [List.eraseP_cons_of_pos hother, List.filter_cons_of_neg (by simp [hkept])]
    · rw [List.find?_cons_of_neg hother] at h
      rw [List.eraseP_cons_of_neg hother, List.filter_cons, List.filter_cons, ih h]

/-- Taking the first element out that passes leaves the others that do. -/
theorem filter_eraseP_self (owners : List Owner) (test : Owner → Bool) :
    (owners.eraseP test).filter test = (owners.filter test).tail := by
  induction owners with
  | nil => rfl
  | cons other rest ih =>
    by_cases hother : test other = true
    · rw [List.eraseP_cons_of_pos hother, List.filter_cons_of_pos hother, List.tail_cons]
    · rw [List.eraseP_cons_of_neg hother, List.filter_cons_of_neg hother,
        List.filter_cons_of_neg hother, ih]

/-- In a list in some order the element found comes first among those that pass. -/
theorem find_first {r : Owner → Owner → Prop} {test : Owner → Bool} {other : Owner}
    (horder : owners.Pairwise r) (hfound : owners.find? test = some owner)
    (hother : other ∈ owners) (hpasses : test other = true) : other = owner ∨ r owner other := by
  obtain ⟨-, front, back, rfl, hfails⟩ := List.find?_eq_some_iff_append.mp hfound
  rcases List.mem_append.mp hother with hfront | hrest
  · exact absurd hpasses (by simpa using hfails other hfront)
  · rcases List.mem_cons.mp hrest with rfl | hback
    · exact .inl rfl
    · have hsorted := (List.pairwise_append.mp horder).2.1
      exact .inr ((List.pairwise_cons.mp hsorted).1 other hback)

/-- What is erased and what is left make up the list. -/
theorem eraseP_append_find_perm (owners : List Owner) (test : Owner → Bool) :
    owners.Perm (owners.eraseP test ++ (owners.find? test).toList) := by
  induction owners with
  | nil => exact .refl _
  | cons x rest ih =>
    cases hx : test x with
    | true =>
      rw [List.eraseP_cons_of_pos hx, List.find?_cons_of_pos hx]
      exact (List.perm_append_singleton x rest).symm
    | false =>
      have hnot : ¬ test x = true := by simp [hx]
      rw [List.eraseP_cons_of_neg hnot, List.find?_cons_of_neg hnot]
      exact ih.cons x

variable [DecidableEq Owner]

/-- No owner in front of this one has the key. -/
def unclaimedBefore (owners : List Owner) (key : Owner → Key) (owner : Owner) (k : Key) : Bool :=
  (owners.takeWhile fun other => other ≠ owner).all fun other => key other ≠ k

/-- An update of another owner's key to another key is not seen. -/
theorem first_update_of_ne {k' : Key} (hfound : first owners key k = some owner)
    (howner : owner ≠ new) (hkey : k' ≠ k) :
    first owners (Function.update key new k') k = some owner := by
  induction owners with
  | nil => simp [first] at hfound
  | cons other rest ih =>
    by_cases hother : other = new
    · subst hother
      rw [first_cons_of_ne (by simpa using hkey)]
      by_cases hmatch : key other = k
      · have hself : first (other :: rest) key k = some other := by
          simp [first, hmatch]
        rw [hself] at hfound
        exact absurd (Option.some.inj hfound).symm howner
      · rw [first_cons_of_ne hmatch] at hfound
        exact ih hfound
    · have hsame : Function.update key new k' other = key other :=
        Function.update_of_ne hother k' key
      by_cases hmatch : key other = k
      · have hself : first (other :: rest) key k = some other := by
          simp [first, hmatch]
        rw [← hfound, hself]
        simp [first, hsame, hmatch]
      · rw [first_cons_of_ne hmatch] at hfound
        rw [first_cons_of_ne (by rw [hsame]; exact hmatch)]
        exact ih hfound

/-- The updated owner is found under its new key if none in front of it has that
key. -/
theorem first_update_self (hmem : owner ∈ owners)
    (hfree : unclaimedBefore owners key owner k = true) :
    first owners (Function.update key owner k) k = some owner := by
  induction owners with
  | nil => simp at hmem
  | cons other rest ih =>
    by_cases hother : other = owner
    · subst hother
      simp [first]
    · have hfree : key other ≠ k ∧ unclaimedBefore rest key owner k = true := by
        simpa [unclaimedBefore, List.takeWhile_cons, hother] using hfree
      have hsame : Function.update key owner k other = key other :=
        Function.update_of_ne hother k key
      rw [first_cons_of_ne (by rw [hsame]; exact hfree.1)]
      rcases List.mem_cons.mp hmem with heq | hrest
      · exact absurd heq.symm hother
      · exact ih hrest hfree.2

end Library.FirstMatch
