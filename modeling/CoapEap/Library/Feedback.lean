import Mathlib.Tactic.Common

/-!
Ciphers with feedback over a list that is worked on in blocks. Each block is combined
with a mask that is made from the block of ciphertext before it, the first one with a
mask made from a starting value. Whoever makes the same masks gets the text back.
-/

namespace Library.Feedback

variable {α : Type}

/-- The ciphertext of `text`; `before` is what the next mask is made from. -/
def encrypt (combine : α → α → α) (mask : List α → List α) (n : Nat) :
    Nat → List α → List α → List α
  | 0, _, _ => []
  | fuel + 1, before, text =>
    if text.length = 0 then []
    else
      let block := List.zipWith combine (text.take n) (mask before)
      block ++ encrypt combine mask n fuel block (text.drop n)

/-- The text of `cipher`, whose own blocks the masks are made from. -/
def decrypt (combine : α → α → α) (mask : List α → List α) (n : Nat) :
    Nat → List α → List α → List α
  | 0, _, _ => []
  | fuel + 1, before, cipher =>
    if cipher.length = 0 then []
    else
      List.zipWith combine (cipher.take n) (mask before) ++
        decrypt combine mask n fuel (cipher.take n) (cipher.drop n)

variable {combine : α → α → α} {mask : List α → List α} {n fuel : Nat}

theorem zipWith_cancel (hcombine : ∀ a k, combine (combine a k) k = a) {text key : List α}
    (h : text.length ≤ key.length) :
    List.zipWith combine (List.zipWith combine text key) key = text := by
  induction text generalizing key with
  | nil => rfl
  | cons a text ih =>
    cases key with
    | nil => simp at h
    | cons k key =>
      simp only [List.length_cons, Nat.add_le_add_iff_right] at h
      simp only [List.zipWith_cons_cons, hcombine, ih h]

section Masks

variable (hmask : ∀ before, (mask before).length = n)
include hmask

theorem encrypt_length {before text : List α} (hfuel : text.length ≤ n * fuel) :
    (encrypt combine mask n fuel before text).length = text.length := by
  induction fuel generalizing before text with
  | zero =>
    have hnone : text.length = 0 := Nat.le_zero.mp hfuel
    rw [hnone]
    rfl
  | succ fuel ih =>
    simp only [encrypt]
    split
    · rename_i hnone
      rw [hnone]
      rfl
    · rw [Nat.mul_succ] at hfuel
      have hrest : (text.drop n).length ≤ n * fuel := by
        rw [List.length_drop]
        omega
      rw [List.length_append, ih hrest, List.length_zipWith, hmask, List.length_take,
        List.length_drop]
      omega

/-- Decrypting with the same masks inverts the encryption of whole blocks. -/
theorem decrypt_encrypt (hcombine : ∀ a k, combine (combine a k) k = a) (hn : 0 < n)
    {before text : List α} (hwhole : n ∣ text.length) (hfuel : text.length ≤ n * fuel) :
    decrypt combine mask n fuel before (encrypt combine mask n fuel before text) = text := by
  induction fuel generalizing before text with
  | zero =>
    have hnone : text.length = 0 := Nat.le_zero.mp hfuel
    rw [List.length_eq_zero_iff.mp hnone]
    rfl
  | succ fuel ih =>
    simp only [encrypt]
    split
    · rename_i hnone
      rw [List.length_eq_zero_iff.mp hnone]
      rfl
    · rename_i hsome
      have hone : n ≤ text.length := Nat.le_of_dvd (Nat.pos_of_ne_zero hsome) hwhole
      rw [Nat.mul_succ] at hfuel
      set block := List.zipWith combine (text.take n) (mask before) with hblock
      have hlength : block.length = n := by
        rw [hblock, List.length_zipWith, hmask, List.length_take]
        omega
      have htake : (text.take n).length ≤ (mask before).length := by
        rw [hmask, List.length_take]
        omega
      have hrest : (text.drop n).length ≤ n * fuel := by
        rw [List.length_drop]
        omega
      have hmore : n ∣ (text.drop n).length := by
        rw [List.length_drop]
        exact Nat.dvd_sub hwhole (Nat.dvd_refl n)
      have hfront : (block ++ encrypt combine mask n fuel block (text.drop n)).take n = block := by
        rw [← hlength, List.take_left]
      have hback : (block ++ encrypt combine mask n fuel block (text.drop n)).drop n =
          encrypt combine mask n fuel block (text.drop n) := by
        rw [← hlength, List.drop_left]
      have hlong : (block ++ encrypt combine mask n fuel block (text.drop n)).length ≠ 0 := by
        rw [List.length_append]
        omega
      simp only [decrypt, if_neg hlong, hfront, hback, ih hmore hrest]
      rw [hblock, zipWith_cancel hcombine htake, List.take_append_drop]

end Masks

end Library.Feedback
