import Mathlib.Tactic.Common

/-!
Byte strings as the C code of both parties handles them: buffers read by
position, two-byte numbers in network order, and the four bytes of a session
identifier in the controller's own (little-endian) order.
-/

namespace CoapEap

abbrev Bytes := List UInt8

/-- A read of a buffer. The receive buffers are closed with a zero byte, and a
read further past the end never decides anything that is then accepted. -/
def byteAt (b : Bytes) (i : Nat) : Nat := (b.getD i 0).toNat

/-- `endian_load16`, and `ntohs` of a field of a packed header. -/
def be16At (b : Bytes) (i : Nat) : Nat := 256 * byteAt b i + byteAt b (i + 1)

/-- `endian_store16`. -/
def be16 (n : Nat) : Bytes := [UInt8.ofNat (n / 256), UInt8.ofNat n]

/-- The bytes of a `uint32_t` in memory. -/
def le32 (n : UInt32) : Bytes :=
  [UInt8.ofNat n.toNat, UInt8.ofNat (n.toNat / 256), UInt8.ofNat (n.toNat / 65536),
    UInt8.ofNat (n.toNat / 16777216)]

/-- The `uint32_t` that four bytes of memory hold. -/
def fromLe32 (b : Bytes) : UInt32 :=
  UInt32.ofNat (byteAt b 0 + 256 * byteAt b 1 + 65536 * byteAt b 2 + 16777216 * byteAt b 3)

/-- A read of `n` bytes that runs on behind the bytes of a buffer. -/
def readBehind (bytes behind : Bytes) (n : Nat) : Bytes :=
  (bytes ++ behind ++ List.replicate n 0).take n

/-- What `strlen` and `strdup` see of a buffer. -/
def cString (b : Bytes) : Bytes := b.takeWhile (· ≠ 0)

@[simp] theorem byteAt_cons_zero (x : UInt8) (b : Bytes) : byteAt (x :: b) 0 = x.toNat := rfl

@[simp] theorem byteAt_cons_succ (x : UInt8) (b : Bytes) (i : Nat) :
    byteAt (x :: b) (i + 1) = byteAt b i := rfl

theorem byteAt_lt (b : Bytes) (i : Nat) : byteAt b i < 256 := UInt8.toNat_lt _

theorem be16At_lt (b : Bytes) (i : Nat) : be16At b i < 65536 := by
  have hhigh := byteAt_lt b i
  have hlow := byteAt_lt b (i + 1)
  unfold be16At
  omega

theorem byteAt_append_left {a b : Bytes} {i : Nat} (h : i < a.length) :
    byteAt (a ++ b) i = byteAt a i := by
  simp [byteAt, List.getElem?_append_left h]

theorem byteAt_append_right {a b : Bytes} {i : Nat} (h : a.length ≤ i) :
    byteAt (a ++ b) i = byteAt b (i - a.length) := by
  simp [byteAt, List.getElem?_append_right h]

theorem byteAt_ext {a b : Bytes} (hlength : a.length = b.length)
    (h : ∀ i < b.length, byteAt a i = byteAt b i) : a = b := by
  apply List.ext_getElem hlength
  intro i ha hb
  have hbyte := h i hb
  apply UInt8.toNat.inj
  simpa [byteAt, List.getElem?_eq_getElem ha, List.getElem?_eq_getElem hb] using hbyte

theorem byteAt_beyond {b : Bytes} {i : Nat} (h : b.length ≤ i) : byteAt b i = 0 := by
  simp [byteAt, List.getElem?_eq_none h]

theorem byteAt_readBehind {memory behind : Bytes} {n i : Nat} (h : i < n) :
    byteAt (readBehind memory behind n) i = byteAt (memory ++ behind) i := by
  have htake : byteAt (readBehind memory behind n) i =
      byteAt (memory ++ behind ++ List.replicate n 0) i := by
    simp [readBehind, byteAt, h]
  rw [htake]
  by_cases hi : i < (memory ++ behind).length
  · rw [byteAt_append_left hi]
  · have hbehind := Nat.le_of_not_lt hi
    rw [byteAt_append_right hbehind, byteAt_beyond hbehind]
    simp only [byteAt, List.getD_eq_getElem?_getD, List.getElem?_replicate]
    split
    · rfl
    · rfl

theorem readBehind_length (memory behind : Bytes) (n : Nat) :
    (readBehind memory behind n).length = n := by
  simp only [readBehind, List.length_take, List.length_append, List.length_replicate]
  omega

theorem readBehind_eq_iff {memory behind message : Bytes} {n : Nat} :
    readBehind memory behind n = message ↔
      n = message.length ∧
        ∀ i < message.length, byteAt (memory ++ behind) i = byteAt message i := by
  constructor
  · rintro rfl
    refine ⟨(readBehind_length ..).symm, ?_⟩
    intro i hi
    rw [readBehind_length] at hi
    rw [byteAt_readBehind hi]
  · rintro ⟨rfl, hbytes⟩
    apply byteAt_ext (readBehind_length ..)
    intro i hi
    rw [byteAt_readBehind hi]
    exact hbytes i hi

theorem readBehind_min (memory : Bytes) (chunk n : Nat) :
    readBehind memory [] (min chunk n) = (readBehind memory [] n).take chunk := by
  have hlength : ((readBehind memory [] n).take chunk).length = min chunk n := by
    rw [List.length_take, readBehind_length]
  apply byteAt_ext (by rw [readBehind_length, hlength])
  intro i hi
  rw [hlength] at hi
  have htake : byteAt ((readBehind memory [] n).take chunk) i =
      byteAt (readBehind memory [] n) i := by
    have hchunk : i < chunk := by omega
    simp [byteAt, hchunk]
  rw [byteAt_readBehind hi, htake, byteAt_readBehind (by omega)]

theorem readBehind_self (b : Bytes) : readBehind b [] b.length = b := by
  rw [readBehind_eq_iff, List.append_nil]
  exact ⟨rfl, fun _ _ => rfl⟩

/-- A number below 65536 stored by `endian_store16` is loaded back. -/
theorem be16At_be16 {n : Nat} (h : n < 65536) (b : Bytes) : be16At (be16 n ++ b) 0 = n := by
  simp only [be16At, be16, List.cons_append, List.nil_append, byteAt_cons_zero,
    byteAt_cons_succ, UInt8.toNat_ofNat']
  omega

/-- What `endian_load16` finds is stored again as it was. -/
theorem be16_be16At (a b : UInt8) (rest : Bytes) : be16 (be16At (a :: b :: rest) 0) = [a, b] := by
  have ha := UInt8.toNat_lt a
  have hb := UInt8.toNat_lt b
  have hhigh : UInt8.ofNat ((256 * a.toNat + b.toNat) / 256) = a := by
    apply UInt8.toNat.inj
    rw [UInt8.toNat_ofNat']
    omega
  have hlow : UInt8.ofNat (256 * a.toNat + b.toNat) = b := by
    apply UInt8.toNat.inj
    rw [UInt8.toNat_ofNat']
    omega
  simp only [be16, be16At, byteAt_cons_zero, byteAt_cons_succ, hhigh, hlow]

theorem be16At_append_right (front b : Bytes) (i : Nat) :
    be16At (front ++ b) (front.length + i) = be16At b i := by
  have hfirst : front.length ≤ front.length + i := by omega
  have hsecond : front.length ≤ front.length + i + 1 := by omega
  have hoffset : front.length + i + 1 - front.length = i + 1 := by omega
  rw [be16At, byteAt_append_right hfirst, byteAt_append_right hsecond, Nat.add_sub_cancel_left,
    hoffset, be16At]

/-- The four bytes of an identifier are the bytes it was read from. -/
theorem le32_fromLe32 (a b c d : UInt8) (rest : Bytes) :
    le32 (fromLe32 (a :: b :: c :: d :: rest)) = [a, b, c, d] := by
  have ha := UInt8.toNat_lt a
  have hb := UInt8.toNat_lt b
  have hc := UInt8.toNat_lt c
  have hd := UInt8.toNat_lt d
  have hvalue : (fromLe32 (a :: b :: c :: d :: rest)).toNat =
      a.toNat + 256 * b.toNat + 65536 * c.toNat + 16777216 * d.toNat := by
    simp only [fromLe32, byteAt_cons_zero, byteAt_cons_succ]
    rw [UInt32.toNat_ofNat']
    omega
  have hbyte : ∀ (x : UInt8) (n : Nat), n % 256 = x.toNat → UInt8.ofNat n = x := by
    intro x n hn
    apply UInt8.toNat.inj
    rw [UInt8.toNat_ofNat']
    exact hn
  rw [le32, hvalue, hbyte a _ (by omega), hbyte b _ (by omega), hbyte c _ (by omega),
    hbyte d _ (by omega)]

end CoapEap
