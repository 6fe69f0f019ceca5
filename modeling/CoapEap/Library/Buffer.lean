import Mathlib.Tactic.Common

/-!
Writes into an object of fixed size. A write that does not fit has no result,
and one that fits changes the cells it covers and no other.
-/

namespace Library.Buffer

variable {α : Type}

/-- The cells from `start` on replaced by `values`. -/
def write (buffer : List α) (start : Nat) (values : List α) : Option (List α) :=
  if start + values.length ≤ buffer.length then
    some (buffer.take start ++ values ++ buffer.drop (start + values.length))
  else none

variable {buffer after old new values : List α} {start : Nat}

theorem write_eq_none_iff :
    write buffer start values = none ↔ buffer.length < start + values.length := by
  unfold write
  split
  · simp only [reduceCtorEq, false_iff]
    omega
  · simp only [true_iff]
    omega

/-- A write over cells that stand between others. -/
theorem write_between (front back : List α) (h : old.length = new.length) :
    write (front ++ old ++ back) front.length new = some (front ++ new ++ back) := by
  have hfits : front.length + new.length ≤ (front ++ old ++ back).length := by
    simp only [List.length_append]
    omega
  have htake : (front ++ old ++ back).take front.length = front := by
    rw [List.append_assoc, List.take_left]
  have hdrop : (front ++ old ++ back).drop (front.length + new.length) = back := by
    rw [← h, ← List.length_append, List.drop_left]
  rw [write, if_pos hfits, htake, hdrop]

/-- A write over the first cells. -/
theorem write_front (back : List α) (h : old.length = new.length) :
    write (old ++ back) 0 new = some (new ++ back) :=
  write_between [] back h

/-- A write into the cells behind others, over as many as it has values for. -/
theorem write_behind (front : List α) {cells : List α} (h : values.length ≤ cells.length) :
    write (front ++ cells) front.length values =
      some (front ++ values ++ cells.drop values.length) := by
  have htake : (cells.take values.length).length = values.length := by
    rw [List.length_take, Nat.min_eq_left h]
  have hwrite := write_between front (cells.drop values.length) htake
  rwa [List.append_assoc front, List.take_append_drop] at hwrite

/-- A write behind the first cells leaves them. -/
theorem write_append_right (front cells : List α) :
    write (front ++ cells) (front.length + start) values =
      (write cells start values).map (front ++ ·) := by
  have hlength : (front ++ cells).length = front.length + cells.length := List.length_append
  have htake : (front ++ cells).take (front.length + start) = front ++ cells.take start :=
    List.take_length_add_append start
  have hdrop : (front ++ cells).drop (front.length + start + values.length) =
      cells.drop (start + values.length) := by
    rw [Nat.add_assoc]
    exact List.drop_length_add_append _
  unfold write
  rw [hlength, htake, hdrop]
  split
  · rw [if_pos (by omega)]
    simp
  · rw [if_neg (by omega)]
    rfl

/-! Memory around a pointer, where a write of any length and at any distance has a place. -/

/-- The cells from `start` on replaced by `values`. -/
def store (memory : Int → α) (start : Int) (values : List α) : Int → α := fun i =>
  if i < start then memory i else (values[(i - start).toNat]?).getD (memory i)

theorem store_append (memory : Int → α) (start : Int) (values more : List α) :
    store (store memory start values) (start + values.length) more =
      store memory start (values ++ more) := by
  funext i
  by_cases hbefore : i < start
  · have hbefore' : i < start + values.length := by omega
    simp only [store, if_pos hbefore, if_pos hbefore']
  · by_cases hfirst : i < start + values.length
    · have hindex : (i - start).toNat < values.length := by omega
      simp only [store, if_neg hbefore, if_pos hfirst, List.getElem?_append_left hindex]
    · have hindex : values.length ≤ (i - start).toNat := by omega
      have hrest : (i - start).toNat - values.length = (i - (start + values.length)).toNat := by
        omega
      simp only [store, if_neg hbefore, if_neg hfirst, List.getElem?_append_right hindex, hrest,
        List.getElem?_eq_none hindex, Option.getD_none]

end Library.Buffer
