import Mathlib

/-!
CMAC over any block function: messages are octet strings, blocks are bit strings
of `k` octets with the first octet most significant, and the constant `rb` stands
for the polynomial that the doubling reduces by.

The function on blocks is a parameter. Nothing here asks for it to be a cipher.
-/

open Polynomial

namespace Library.Cmac

/-- The number that octets write, the first most significant. -/
def number : List UInt8 → Nat
  | [] => 0
  | octet :: rest => 2 ^ (8 * rest.length) * octet.toNat + number rest

/-- Octets as a bit string. -/
def bits (k : Nat) (octets : List UInt8) : BitVec (8 * k) := BitVec.ofNat (8 * k) (number octets)

/-- The `k` octets of a number, the first most significant. -/
def octets : (k : Nat) → Nat → List UInt8
  | 0, _ => []
  | k + 1, n => UInt8.ofNat (n / 2 ^ (8 * k)) :: octets k (n % 2 ^ (8 * k))

section Doubling

variable {w : Nat}

/-- One step to the left, with the bit that falls out paid for by `rb`. -/
def double (rb x : BitVec w) : BitVec w := if x.msb then (x <<< 1) ^^^ rb else x <<< 1

/-- A bit string as a polynomial over the field of two elements. -/
noncomputable def poly (x : BitVec w) : (ZMod 2)[X] :=
  ∑ i ∈ Finset.range w, if x.getLsbD i then X ^ i else 0

/-- What products in the field of bit strings are reduced by. -/
noncomputable def modulus (rb : BitVec w) : (ZMod 2)[X] := X ^ w + poly rb

end Doubling

section Mac

variable {k : Nat} (cipher : BitVec (8 * k) → BitVec (8 * k)) (rb : BitVec (8 * k))

def subkey1 : BitVec (8 * k) := double rb (cipher 0)

def subkey2 : BitVec (8 * k) := double rb (subkey1 cipher rb)

/-- An empty message still makes one block. -/
def blockCount (k : Nat) (message : List UInt8) : Nat :=
  if message.length = 0 then 1 else (message.length + k - 1) / k

def blockAt (k : Nat) (message : List UInt8) (i : Nat) : List UInt8 :=
  (message.drop (k * i)).take k

def isComplete (k : Nat) (message : List UInt8) : Prop :=
  message.length ≠ 0 ∧ message.length % k = 0

instance (k : Nat) (message : List UInt8) : Decidable (isComplete k message) :=
  inferInstanceAs (Decidable (_ ∧ _))

/-- A one and then zeros up to the end of the block. -/
def pad (k : Nat) (octets : List UInt8) : List UInt8 :=
  octets ++ 0x80 :: List.replicate (k - 1 - octets.length) 0

def lastBlock (message : List UInt8) : BitVec (8 * k) :=
  let octets := blockAt k message (blockCount k message - 1)
  if isComplete k message then bits k octets ^^^ subkey1 cipher rb
  else bits k (pad k octets) ^^^ subkey2 cipher rb

/-- Cipher block chaining. -/
def chain (state : BitVec (8 * k)) (blocks : List (BitVec (8 * k))) : BitVec (8 * k) :=
  blocks.foldl (fun x m => cipher (x ^^^ m)) state

def cmac (message : List UInt8) : BitVec (8 * k) :=
  let front := (List.range (blockCount k message - 1)).map fun i => bits k (blockAt k message i)
  cipher (chain cipher 0 front ^^^ lastBlock cipher rb message)

end Mac

/-! The numbers that octets write. -/

theorem number_lt (octets : List UInt8) : number octets < 2 ^ (8 * octets.length) := by
  induction octets with
  | nil => simp [number]
  | cons octet rest ih =>
    have hoctet : octet.toNat + 1 ≤ 256 := UInt8.toNat_lt octet
    calc 2 ^ (8 * rest.length) * octet.toNat + number rest
        < 2 ^ (8 * rest.length) * octet.toNat + 2 ^ (8 * rest.length) := by omega
      _ = 2 ^ (8 * rest.length) * (octet.toNat + 1) := by ring
      _ ≤ 2 ^ (8 * rest.length) * 2 ^ 8 := Nat.mul_le_mul_left _ hoctet
      _ = 2 ^ (8 * (octet :: rest).length) := by
        rw [List.length_cons, ← pow_add]
        congr 1

theorem octets_length (k n : Nat) : (octets k n).length = k := by
  induction k generalizing n with
  | zero => rfl
  | succ k ih => rw [octets, List.length_cons, ih]

theorem octets_number (b : List UInt8) : octets b.length (number b) = b := by
  induction b with
  | nil => rfl
  | cons octet rest ih =>
    have hpos : 0 < 2 ^ (8 * rest.length) := Nat.two_pow_pos _
    have hrest := number_lt rest
    have hfirst : (2 ^ (8 * rest.length) * octet.toNat + number rest) / 2 ^ (8 * rest.length) =
        octet.toNat := by
      rw [Nat.mul_add_div hpos, Nat.div_eq_of_lt hrest, Nat.add_zero]
    have hothers : (2 ^ (8 * rest.length) * octet.toNat + number rest) % 2 ^ (8 * rest.length) =
        number rest := by
      rw [Nat.mul_add_mod, Nat.mod_eq_of_lt hrest]
    rw [List.length_cons, number, octets, hfirst, hothers, ih, UInt8.ofNat_toNat]

theorem number_octets {k n : Nat} (h : n < 2 ^ (8 * k)) : number (octets k n) = n := by
  induction k generalizing n with
  | zero =>
    have hzero : n = 0 := by simpa using h
    rw [hzero]
    rfl
  | succ k ih =>
    have hpos : 0 < 2 ^ (8 * k) := Nat.two_pow_pos _
    have hsplit : 2 ^ (8 * (k + 1)) = 2 ^ (8 * k) * 256 := by
      rw [Nat.mul_add, Nat.pow_add]
    have hfirst : n / 2 ^ (8 * k) < 256 := Nat.div_lt_of_lt_mul (hsplit ▸ h)
    have hoctet : (UInt8.ofNat (n / 2 ^ (8 * k))).toNat = n / 2 ^ (8 * k) :=
      UInt8.toNat_ofNat_of_lt hfirst
    rw [octets, number, octets_length, hoctet, ih (Nat.mod_lt _ hpos)]
    exact Nat.div_add_mod n _

theorem number_append (front back : List UInt8) :
    number (front ++ back) = 2 ^ (8 * back.length) * number front + number back := by
  induction front with
  | nil => simp [number]
  | cons octet rest ih =>
    have hlength : 2 ^ (8 * (rest ++ back).length) =
        2 ^ (8 * back.length) * 2 ^ (8 * rest.length) := by
      rw [List.length_append, ← pow_add]
      congr 1
      omega
    rw [List.cons_append, number, ih, number, hlength]
    ring

theorem number_replicate_zero (n : Nat) : number (List.replicate n 0) = 0 := by
  induction n with
  | zero => rfl
  | succ n ih => simp [List.replicate_succ, number, ih]

theorem number_xor {a b : List UInt8} (h : a.length = b.length) :
    number (List.zipWith (· ^^^ ·) a b) = number a ^^^ number b := by
  induction a generalizing b with
  | nil =>
    have hb : b = [] := List.length_eq_zero_iff.mp h.symm
    simp [hb, number]
  | cons x a ih =>
    cases b with
    | nil => simp at h
    | cons y b =>
      have hrest : a.length = b.length := Nat.succ.inj h
      have hxor := ih hrest
      have hlength : (List.zipWith (· ^^^ ·) a b).length = b.length := by
        simp [hrest]
      have ha : number a < 2 ^ (8 * b.length) := hrest ▸ number_lt a
      have hb := number_lt b
      have hlt : number a ^^^ number b < 2 ^ (8 * b.length) := Nat.xor_lt_two_pow ha hb
      simp only [List.zipWith_cons_cons, number, hlength, hxor, hrest, UInt8.toNat_xor]
      apply Nat.eq_of_testBit_eq
      intro i
      rw [Nat.testBit_xor, Nat.testBit_two_pow_mul_add _ hlt, Nat.testBit_two_pow_mul_add _ ha,
        Nat.testBit_two_pow_mul_add _ hb]
      split
      · rw [Nat.testBit_xor]
      · rw [Nat.testBit_xor]

theorem bits_xor {k : Nat} {a b : List UInt8} (ha : a.length = k) (hb : b.length = k) :
    bits k (List.zipWith (· ^^^ ·) a b) = bits k a ^^^ bits k b := by
  apply BitVec.eq_of_toNat_eq
  have halt : number a < 2 ^ (8 * k) := ha ▸ number_lt a
  have hblt : number b < 2 ^ (8 * k) := hb ▸ number_lt b
  rw [bits, number_xor (ha.trans hb.symm), BitVec.toNat_xor, bits, bits, BitVec.toNat_ofNat,
    BitVec.toNat_ofNat, BitVec.toNat_ofNat, Nat.mod_eq_of_lt halt, Nat.mod_eq_of_lt hblt,
    Nat.mod_eq_of_lt (Nat.xor_lt_two_pow halt hblt)]

/-! Doubling as a product in the field. -/

section Field

variable {w : Nat}

theorem degree_poly_lt (x : BitVec w) : (poly x).degree < (w : WithBot Nat) := by
  have hbot : (⊥ : WithBot Nat) < (w : WithBot Nat) := WithBot.bot_lt_coe w
  apply lt_of_le_of_lt (degree_sum_le _ _)
  apply (Finset.sup_lt_iff hbot).mpr
  intro i hi
  split
  · rw [degree_X_pow]
    exact_mod_cast Finset.mem_range.mp hi
  · rw [degree_zero]
    exact hbot

theorem poly_xor (x y : BitVec w) : poly (x ^^^ y) = poly x + poly y := by
  unfold poly
  rw [← Finset.sum_add_distrib]
  apply Finset.sum_congr rfl
  intro i _
  rw [BitVec.getLsbD_xor]
  cases x.getLsbD i with
  | false => simp
  | true =>
    cases y.getLsbD i with
    | false => simp
    | true => simp [CharTwo.add_self_eq_zero]

/-- Times `X` is a step to the left and the bit that falls out. -/
theorem X_mul_poly (x : BitVec (w + 1)) :
    X * poly x = poly (x <<< 1) + if x.msb then X ^ (w + 1) else 0 := by
  have hfirst : (x <<< 1).getLsbD 0 = false := by simp
  have hshift : ∀ i ∈ Finset.range w,
      (if (x <<< 1).getLsbD (i + 1) then (X : (ZMod 2)[X]) ^ (i + 1) else 0) =
        X * if x.getLsbD i then X ^ i else 0 := by
    intro i hi
    have hlt : i + 1 < w + 1 := Nat.succ_lt_succ (Finset.mem_range.mp hi)
    have hbit : (x <<< 1).getLsbD (i + 1) = x.getLsbD i := by
      rw [BitVec.getLsbD_shiftLeft]
      simp [hlt]
    rw [hbit]
    split
    · rw [pow_succ']
    · rw [mul_zero]
  have hleft : poly (x <<< 1) = ∑ i ∈ Finset.range w, X * if x.getLsbD i then X ^ i else 0 := by
    rw [poly, Finset.sum_range_succ', hfirst, Finset.sum_congr rfl hshift]
    simp
  have hmsb : x.msb = x.getLsbD w := by simp [BitVec.msb_eq_getLsbD_last]
  rw [hleft, poly, Finset.mul_sum, Finset.sum_range_succ, hmsb]
  congr 1
  split
  · rw [pow_succ']
  · rw [mul_zero]

/-- Doubling is the product with `X` in the field that the modulus makes. -/
theorem poly_double (rb x : BitVec (w + 1)) :
    poly (double rb x) = (X * poly x) %ₘ modulus rb := by
  have hmonic : (modulus rb).Monic := monic_X_pow_add (degree_poly_lt rb)
  have hdegree : (poly (double rb x)).degree < (modulus rb).degree := by
    have hmodulus : (modulus rb).degree = ((w + 1 : Nat) : WithBot Nat) := by
      rw [modulus, degree_add_eq_left_of_degree_lt, degree_X_pow]
      rw [degree_X_pow]
      exact degree_poly_lt rb
    rw [hmodulus]
    exact degree_poly_lt _
  have hquotient : poly (double rb x) + modulus rb * (if x.msb then 1 else 0) = X * poly x := by
    rw [X_mul_poly, double]
    split
    · rw [poly_xor, modulus, mul_one]
      have htwice : poly rb + poly rb = 0 := CharTwo.add_self_eq_zero _
      calc poly (x <<< 1) + poly rb + (X ^ (w + 1) + poly rb)
          = poly (x <<< 1) + X ^ (w + 1) + (poly rb + poly rb) := by ring
        _ = poly (x <<< 1) + X ^ (w + 1) := by rw [htwice, add_zero]
    · rw [mul_zero]
  exact (div_modByMonic_unique _ _ hmonic ⟨hquotient, hdegree⟩).2.symm

end Field

/-- Doubling as a computation on numbers. -/
theorem double_ofNat {w n : Nat} (rb : BitVec (w + 1)) (h : n < 2 ^ (w + 1)) :
    double rb (BitVec.ofNat (w + 1) n) =
      if 2 ^ w ≤ n then BitVec.ofNat (w + 1) (2 * n) ^^^ rb else BitVec.ofNat (w + 1) (2 * n) := by
  have hshift : BitVec.ofNat (w + 1) n <<< 1 = BitVec.ofNat (w + 1) (2 * n) := by
    apply BitVec.eq_of_toNat_eq
    simp [Nat.shiftLeft_eq, Nat.mul_comm]
  have hmsb : (BitVec.ofNat (w + 1) n).msb = decide (2 ^ w ≤ n) := by
    rw [BitVec.msb_eq_decide, BitVec.toNat_ofNat, Nat.mod_eq_of_lt h]
    rfl
  rw [double, hshift, hmsb]
  simp only [decide_eq_true_eq]

theorem chain_concat {k : Nat} (cipher : BitVec (8 * k) → BitVec (8 * k)) (state m : BitVec (8 * k))
    (blocks : List (BitVec (8 * k))) :
    chain cipher state (blocks ++ [m]) = cipher (chain cipher state blocks ^^^ m) := by
  simp [chain]

end Library.Cmac
