import CoapEap.Bytes
import CoapEap.Library.Cmac

/-!
The key identifier of a PANA session (`panautils.c`): `increase_one` adds one to
a number of any length that stands in network order.

`char` is signed, and a comparison sees it as an `int`.
-/

open Library.Cmac

namespace CoapEap.Pana

/-- A `char` as an `int`. -/
def charValue (byte : UInt8) : Int := byte.toBitVec.toInt

/-- The loop of `increase_one` with `i + 1` positions still in front of it: the
value and the index as it leaves them. -/
def increaseLoop : (left : Nat) → (value : Bytes) → (increased : Bool) → Bytes × Int
  | 0, value, _ => (value, -1)
  | i + 1, value, increased =>
    if increased then (value, i)
    else
      let byte := value.getD i 0
      if charValue byte ≠ 0xff then increaseLoop i (value.set i (byte + 1)) true
      else increaseLoop i (value.set i 0) false

def increaseOne (value : Bytes) : Bytes :=
  let (value, i) := increaseLoop value.length value false
  if i = 0xff then value.set (value.length - 1) 0x01 else value

/-- The number that follows, in as many bytes; behind the greatest comes one. -/
def increment (value : Bytes) : Bytes :=
  octets value.length
    (if value = List.replicate value.length 0xff then 1
      else (number value + 1) % 256 ^ value.length)

/-- No `char` is greater than 127, so no byte looks like `0xff`. -/
theorem charValue_ne (byte : UInt8) : charValue byte ≠ 0xff := by
  have hlt := BitVec.toInt_lt (x := byte.toBitVec)
  unfold charValue
  omega

/-- The loop stops behind the last byte, whatever that is. -/
theorem increaseLoop_concat (front : Bytes) (byte : UInt8) :
    increaseLoop (front.length + 1) (front ++ [byte]) false =
      (front ++ [byte + 1], (front.length : Int) - 1) := by
  have hlast : (front ++ [byte]).getD front.length 0 = byte := by simp
  have hset : (front ++ [byte]).set front.length (byte + 1) = front ++ [byte + 1] := by simp
  have hleave : increaseLoop front.length (front ++ [byte + 1]) true =
      (front ++ [byte + 1], (front.length : Int) - 1) := by
    cases front.length with
    | zero => rfl
    | succ i => simp [increaseLoop]
  simp only [increaseLoop, Bool.false_eq_true, if_false, hlast, hset, charValue_ne, ne_eq,
    not_false_eq_true, if_true]
  exact hleave

theorem increaseOne_concat (front : Bytes) (byte : UInt8) :
    increaseOne (front ++ [byte]) =
      front ++ [if front.length = 256 then 1 else byte + 1] := by
  have hlength : (front ++ [byte]).length = front.length + 1 := by simp
  have hindex : ((front.length : Int) - 1 = 0xff) ↔ front.length = 256 := by omega
  simp only [increaseOne, hlength, increaseLoop_concat, hindex]
  split
  · simp
  · rfl

/-! What the number in the bytes becomes. -/

theorem number_concat (front : Bytes) (byte : UInt8) :
    number (front ++ [byte]) = 256 * number front + byte.toNat := by
  have hbyte : number [byte] = byte.toNat := by simp [number]
  rw [number_append, hbyte]
  rfl

theorem increment_length (value : Bytes) : (increment value).length = value.length :=
  octets_length _ _

theorem number_increment {value : Bytes} (h : value ≠ []) :
    number (increment value) =
      if value = List.replicate value.length 0xff then 1
      else (number value + 1) % 256 ^ value.length := by
  have hpow : 256 ^ value.length = 2 ^ (8 * value.length) := by
    rw [Nat.pow_mul]
  have hpos : 0 < value.length := List.length_pos_of_ne_nil h
  apply number_octets
  split
  · exact Nat.one_lt_two_pow (by omega)
  · rw [hpow]
    exact Nat.mod_lt _ (Nat.two_pow_pos _)

/-- Bytes of one length are the same where their numbers are. -/
theorem eq_of_number_eq {a b : Bytes} (hlength : a.length = b.length)
    (h : number a = number b) : a = b := by
  rw [← octets_number a, ← octets_number b, hlength, h]

theorem eq_ff_of_all {front : Bytes} {byte : UInt8}
    (h : front ++ [byte] = List.replicate (front.length + 1) 0xff) : byte = 0xff := by
  have hmem : byte ∈ front ++ [byte] := by simp
  rw [h] at hmem
  exact List.eq_of_mem_replicate hmem

theorem succ_toNat {byte : UInt8} (h : byte ≠ 0xff) : (byte + 1).toNat = byte.toNat + 1 := by
  have hne : byte.toNat ≠ 255 := fun heq => h (UInt8.toNat.inj heq)
  have hlt := UInt8.toNat_lt byte
  rw [UInt8.toNat_add]
  exact Nat.mod_eq_of_lt (show byte.toNat + 1 < 256 by omega)

/-- Without a carry the last byte is all that changes. -/
theorem increment_concat (front : Bytes) {byte : UInt8} (h : byte ≠ 0xff) :
    increment (front ++ [byte]) = front ++ [byte + 1] := by
  have hlength : (front ++ [byte]).length = (front ++ [byte + 1]).length := by simp
  have hsmaller : ¬ front ++ [byte] = List.replicate (front ++ [byte]).length 0xff := by
    intro heq
    rw [List.length_append] at heq
    exact h (eq_ff_of_all heq)
  have hnumber : number (front ++ [byte + 1]) = number (front ++ [byte]) + 1 := by
    rw [number_concat, number_concat, succ_toNat h]
    omega
  have hbound : number (front ++ [byte]) + 1 < 256 ^ (front ++ [byte]).length := by
    rw [← hnumber, hlength, show 256 = 2 ^ 8 from rfl, ← Nat.pow_mul]
    exact number_lt _
  apply eq_of_number_eq ((increment_length _).trans hlength)
  rw [number_increment (by simp), if_neg hsmaller, Nat.mod_eq_of_lt hbound, hnumber]

/-- Behind the greatest number comes one, which only its last byte can show. -/
theorem increment_ff_of_all {front : Bytes} {byte : UInt8}
    (hall : front ++ [0xff] = List.replicate (front.length + 1) 0xff)
    (h : increment (front ++ [0xff]) = front ++ [byte]) : front = [] ∧ byte = 1 := by
  have hlength : (front ++ [0xff]).length = front.length + 1 := by simp
  have hone : 256 * number front + byte.toNat = 1 := by
    rw [← number_concat, ← h, number_increment (by simp), hlength, if_pos hall]
  have hbyte : byte.toNat = 1 := by omega
  have hzero : number front = 0 := by omega
  refine ⟨?_, UInt8.toNat.inj hbyte⟩
  cases front with
  | nil => rfl
  | cons octet rest =>
    have hoctet : octet = 0xff := by
      rw [List.cons_append, List.replicate_succ] at hall
      exact (List.cons.inj hall).1
    have hpos : 0 < 2 ^ (8 * rest.length) := Nat.two_pow_pos _
    rw [number, hoctet] at hzero
    have hnone : 2 ^ (8 * rest.length) * 255 = 0 := (Nat.add_eq_zero_iff.mp hzero).1
    omega

/-- Behind any other number a last byte of all ones counts the bytes in front up. -/
theorem increment_ff_ne {front : Bytes} (byte : UInt8)
    (hall : front ++ [0xff] ≠ List.replicate (front.length + 1) 0xff) :
    increment (front ++ [0xff]) ≠ front ++ [byte] := by
  intro h
  have hlength : (front ++ [0xff]).length = front.length + 1 := by simp
  have hbyte : byte.toNat < 256 := UInt8.toNat_lt byte
  have hbound : number front + 1 ≤ 256 ^ front.length := by
    rw [show 256 = 2 ^ 8 from rfl, ← Nat.pow_mul]
    exact number_lt front
  have hnumber : 256 * number front + byte.toNat =
      256 * ((number front + 1) % 256 ^ front.length) := by
    have hsum : 256 * number front + (0xff : UInt8).toNat + 1 = 256 * (number front + 1) := by
      rw [Nat.mul_add]
      rfl
    rw [← number_concat, ← h, number_increment (by simp), hlength, if_neg hall, number_concat,
      hsum, Nat.pow_succ, Nat.mul_comm _ 256, Nat.mul_mod_mul_left]
  rcases Nat.lt_or_eq_of_le hbound with hless | hgreatest
  · rw [Nat.mod_eq_of_lt hless] at hnumber
    omega
  · rw [hgreatest, Nat.mod_self] at hnumber
    have hzero : number front = 0 := by omega
    rw [hzero] at hgreatest
    -- only a number without bytes has no greater one and is still zero
    have hnil : front = [] := by
      cases front with
      | nil => rfl
      | cons octet rest =>
        have hpos : 0 < 256 ^ rest.length := Nat.pow_pos (by decide)
        rw [List.length_cons, Nat.pow_succ] at hgreatest
        omega
    rw [hnil] at hall
    exact hall rfl

/-- Where the number that follows is what the loop leaves. -/
theorem increaseOne_eq_increment_iff {value : Bytes} (h : value ≠ []) :
    increaseOne value = increment value ↔
      value.getLast h ≠ 0xff ∧ (value.length = 257 → value.getLast h = 0) := by
  obtain ⟨front, byte, rfl⟩ : ∃ front byte, value = front ++ [byte] :=
    ⟨value.dropLast, value.getLast h, (List.dropLast_append_getLast h).symm⟩
  have hlength : (front ++ [byte]).length = 257 ↔ front.length = 256 := by simp
  rw [List.getLast_append_singleton, increaseOne_concat, hlength]
  by_cases hff : byte = 0xff
  · subst hff
    simp only [ne_eq, not_true_eq_false, false_and, iff_false]
    intro heq
    by_cases hall : front ++ [0xff] = List.replicate (front.length + 1) 0xff
    · obtain ⟨hnil, hone⟩ := increment_ff_of_all hall heq.symm
      subst hnil
      simp at hone
    · exact increment_ff_ne _ hall heq.symm
  · rw [increment_concat front hff]
    simp only [List.append_cancel_left_eq, List.cons.injEq, and_true, ne_eq, hff,
      not_false_eq_true, true_and]
    split
    · rename_i hindex
      have hzero : 1 = byte + 1 ↔ byte = 0 := by
        constructor
        · intro heq
          have hnat := congrArg UInt8.toNat heq
          rw [succ_toNat hff] at hnat
          exact UInt8.toNat.inj (show byte.toNat = 0 by simpa using hnat)
        · intro heq
          rw [heq]
          rfl
      simp only [hindex, forall_const, hzero]
    · rename_i hindex
      simp only [hindex, false_imp_iff]

/-- `01 FE` is followed by `01 FF`. -/
theorem increases_without_carry : ([0x01, 0xfe] : Bytes) ≠ [] ∧
    increaseOne [0x01, 0xfe] = increment [0x01, 0xfe] := by
  constructor
  · decide
  · apply (increaseOne_eq_increment_iff (by decide)).mpr
    decide

/-- `01 FF` goes back to `01 00`. -/
theorem loses_the_carry : ¬ ∀ value : Bytes, value ≠ [] → increaseOne value = increment value := by
  intro h
  have hcarry := h [0x01, 0xff] (by decide)
  revert hcarry
  decide +kernel

end CoapEap.Pana
