import CoapEap.Library.Cmac

/-!
Counter mode, and the authenticated mode EAX made of it and of CMAC, over any
function on blocks of `k` octets. The text is masked with the blocks of a counter, so
masking again gives it back; the tag covers the nonce, a header and what the text
became, each told apart by a first block of its own.
-/

namespace Library.EaxMode

open Cmac

variable {k : Nat}

/-- The octet that masks place `i`: the blocks are those of a counter from `start` on. -/
def streamOctet (cipher : BitVec (8 * k) → BitVec (8 * k)) (start : BitVec (8 * k)) (i : Nat) :
    UInt8 :=
  (octets k (cipher (start + BitVec.ofNat (8 * k) (i / k))).toNat).getD (i % k) 0

def counterMode (cipher : BitVec (8 * k) → BitVec (8 * k)) (start : BitVec (8 * k))
    (text : List UInt8) : List UInt8 :=
  text.mapIdx fun i octet => octet ^^^ streamOctet cipher start i

variable (cipher : BitVec (8 * k) → BitVec (8 * k)) (start : BitVec (8 * k))

theorem counterMode_length (text : List UInt8) :
    (counterMode cipher start text).length = text.length :=
  List.length_mapIdx

theorem counterMode_counterMode (text : List UInt8) :
    counterMode cipher start (counterMode cipher start text) = text := by
  apply List.ext_getElem
  · rw [counterMode_length, counterMode_length]
  · intro i hi _
    simp only [counterMode, List.getElem_mapIdx, UInt8.xor_assoc, UInt8.xor_self, UInt8.xor_zero]

theorem streamOctet_add (hk : 0 < k) (i : Nat) :
    streamOctet cipher start (k + i) = streamOctet cipher (start + 1) i := by
  have hcounter : start + BitVec.ofNat (8 * k) (i / k + 1) =
      start + 1 + BitVec.ofNat (8 * k) (i / k) := by
    rw [Nat.add_comm, BitVec.ofNat_add, BitVec.add_assoc]
    rfl
  rw [streamOctet, streamOctet, Nat.add_div_left i hk, Nat.add_mod_left, hcounter]

/-- A block at a time: the mask of the first block, and the counter one further. -/
theorem counterMode_blocks (hk : 0 < k) (text : List UInt8) :
    counterMode cipher start text =
      List.zipWith (· ^^^ ·) (text.take k) (octets k (cipher start).toNat) ++
        counterMode cipher (start + 1) (text.drop k) := by
  have hfirst : (List.zipWith (· ^^^ ·) (text.take k) (octets k (cipher start).toNat)).length =
      min k text.length := by
    rw [List.length_zipWith, octets_length, List.length_take]
    omega
  apply List.ext_getElem
  · rw [counterMode_length, List.length_append, counterMode_length, hfirst, List.length_drop]
    omega
  · intro i hi hright
    rw [counterMode_length] at hi
    by_cases hblock : i < k
    · have hin : i < min k text.length := by omega
      rw [List.getElem_append_left (by rw [hfirst]; exact hin)]
      have hoctet : i < (octets k (cipher start).toNat).length := by
        rw [octets_length]
        exact hblock
      simp [counterMode, streamOctet, Nat.div_eq_of_lt hblock, Nat.mod_eq_of_lt hblock, hoctet]
    · have hwhole : min k text.length = k := by omega
      have hbehind : k ≤ i := by omega
      obtain ⟨j, rfl⟩ := Nat.exists_eq_add_of_le hbehind
      rw [List.getElem_append_right (by rw [hfirst, hwhole]; exact hbehind)]
      simp only [counterMode, List.getElem_mapIdx, List.getElem_drop, hfirst, hwhole,
        Nat.add_sub_cancel_left, streamOctet_add cipher start hk]

variable (rb : BitVec (8 * k))

/-- The mac of a message behind a block that says what the message is. -/
def tagged (kind : Nat) (message : List UInt8) : BitVec (8 * k) :=
  cmac cipher rb (octets k kind ++ message)

/-- The mac of all that is sent. -/
def tag (nonce header ciphertext : List UInt8) : BitVec (8 * k) :=
  tagged cipher rb 0 nonce ^^^ tagged cipher rb 1 header ^^^ tagged cipher rb 2 ciphertext

def encrypt (nonce header text : List UInt8) : List UInt8 × BitVec (8 * k) :=
  let ciphertext := counterMode cipher (tagged cipher rb 0 nonce) text
  (ciphertext, tag cipher rb nonce header ciphertext)

/-- The text, if the tag is the one of what was sent. -/
def decrypt (nonce header : List UInt8) (sent : List UInt8 × BitVec (8 * k)) :
    Option (List UInt8) :=
  if sent.2 = tag cipher rb nonce header sent.1 then
    some (counterMode cipher (tagged cipher rb 0 nonce) sent.1)
  else none

/-- What is decrypted to a text is what the text is encrypted to, and nothing else is. -/
theorem decrypt_eq_some_iff (nonce header text : List UInt8)
    (sent : List UInt8 × BitVec (8 * k)) :
    decrypt cipher rb nonce header sent = some text ↔
      sent = encrypt cipher rb nonce header text := by
  constructor
  · intro hdecrypt
    unfold decrypt at hdecrypt
    split at hdecrypt
    · rename_i htag
      cases hdecrypt
      rw [encrypt, counterMode_counterMode, ← htag]
    · cases hdecrypt
  · rintro rfl
    simp only [decrypt, encrypt, if_true, counterMode_counterMode]

end Library.EaxMode
