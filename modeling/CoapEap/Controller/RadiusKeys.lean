import CoapEap.Controller.Md5
import CoapEap.Library.Feedback

/-!
The MPPE keys of a RADIUS answer (`radius.c`): a server pads a key behind a byte with
its length and encrypts it in blocks of 16 bytes, each with an MD5 digest of the
secret and the block of ciphertext before it; the controller decrypts what it finds in
the vendor attributes of the answer.
-/

namespace CoapEap.Radius

open Library.Records Library.Feedback

/-- The mask of a block: the digest of the secret and `before`, which is the block of
ciphertext before it, or for the first block the authenticator and the salt. -/
def msKeyMask (md5 : Bytes → Bytes) (secret before : Bytes) : Bytes := md5 (secret ++ before)

/-- `decrypt_ms_key`. -/
def decryptMsKey (md5 : Bytes → Bytes) (secret key reqAuthenticator : Bytes) : Option Bytes :=
  if key.length < 2 + 16 then none
  else
    let left := key.drop 2
    if left.length % 16 ≠ 0 then none
    else
      let plain := decrypt (· ^^^ ·) (msKeyMask md5 secret) 16 left.length
        (reqAuthenticator ++ key.take 2) left
      let n := byteAt plain 0
      if n = 0 ∨ n > plain.length - 1 then none else some ((plain.drop 1).take n)

/-- The length that `encrypt_ms_key` gives the padded key. -/
def msKeyLen (keyLen : Nat) : Nat :=
  let len := 1 + keyLen
  if len &&& 0x0f ≠ 0 then (len &&& 0xf0) + 16 else len

/-- The bytes of `ebuf` that `encrypt_ms_key` encrypts, as they are before. -/
def paddedKey (key : Bytes) : Bytes :=
  let len := msKeyLen key.length
  (UInt8.ofNat key.length :: key ++ List.replicate len 0).take len

/-- `encrypt_ms_key`. -/
def encryptMsKey (md5 : Bytes → Bytes) (secret key : Bytes) (salt : UInt16)
    (reqAuthenticator : Bytes) : Bytes :=
  let ebuf := paddedKey key
  encrypt (· ^^^ ·) (msKeyMask md5 secret) 16 ebuf.length (reqAuthenticator ++ be16 salt.toNat)
    ebuf

/-- The value of a vendor attribute with one key, as `radius_msg_add_mppe_keys` lays
it out: the vendor, `radius_attr_vendor`, the salt and the key. -/
def msKeyAttr (md5 : Bytes → Bytes) (secret : Bytes) (subtype : Nat) (key : Bytes)
    (salt : UInt16) (reqAuthenticator : Bytes) : Bytes :=
  let encrypted := encryptMsKey md5 secret key salt reqAuthenticator
  be16 (vendorMicrosoft / 65536) ++ be16 vendorMicrosoft ++
    [UInt8.ofNat subtype, UInt8.ofNat (2 + 2 + encrypted.length)] ++ be16 salt.toNat ++ encrypted

/-- `radius_msg_add_mppe_keys` with what `os_random` returned. -/
def radiusMsgAddMppeKeys (md5 : Bytes → Bytes) (m : RadiusBuf) (reqAuthenticator secret : Bytes)
    (sendKey recvKey : Bytes) (random : UInt16) : Option RadiusBuf := do
  let salt := random ||| 0x8000
  let m ← radiusMsgAddAttr m attrVendorSpecific
    (msKeyAttr md5 secret msMppeSendKey sendKey salt reqAuthenticator)
  radiusMsgAddAttr m attrVendorSpecific
    (msKeyAttr md5 secret msMppeRecvKey recvKey (salt ^^^ 1) reqAuthenticator)

variable {md5 : Bytes → Bytes} {secret key reqAuthenticator length : Bytes} {salt : UInt16}
variable {m m' : RadiusBuf} {msg : RadiusMsg} {n subtype : Nat}

theorem xor_cancel (a k : UInt8) : a ^^^ k ^^^ k = a := by
  rw [UInt8.xor_assoc, UInt8.xor_self, UInt8.xor_zero]

theorem and_low (n : Nat) : n &&& 0x0f = n % 16 := Nat.and_two_pow_sub_one_eq_mod n 4

theorem and_high (n : Nat) : n &&& 0xf0 = 16 * (n / 16 % 16) := by
  have hshift : (0xf0 : Nat) = 0x0f <<< 4 := rfl
  have hnibble : n / 16 = n >>> 4 := (Nat.shiftRight_eq_div_pow n 4).symm
  have hmul : 16 * (n >>> 4 % 16) = (n >>> 4 % 16) <<< 4 := by
    rw [Nat.shiftLeft_eq, Nat.mul_comm]
  rw [hnibble, hmul, ← and_low, hshift]
  apply Nat.eq_of_testBit_eq
  intro i
  simp only [Nat.testBit_and, Nat.testBit_shiftLeft, Nat.testBit_shiftRight]
  by_cases hi : 4 ≤ i
  · simp [hi]
  · simp [hi]

/-- The padded length is the next multiple of 16, as long as it has a byte. -/
theorem msKeyLen_eq (h : n ≤ 255) : msKeyLen n = 16 * ((n + 16) / 16) := by
  unfold msKeyLen
  simp only [and_low, and_high]
  split <;> omega

/-- Of a longer key the high bits of its length are lost. -/
theorem msKeyLen_dvd (n : Nat) : 16 ∣ msKeyLen n ∧ 16 ≤ msKeyLen n := by
  unfold msKeyLen
  simp only [and_low, and_high]
  split <;> omega

theorem paddedKey_length (key : Bytes) : (paddedKey key).length = msKeyLen key.length := by
  rw [paddedKey, List.length_take, List.length_append, List.length_replicate]
  omega

theorem length_le_sixteen (n : Nat) : n ≤ 16 * n := by omega

theorem msKeyMask_length (hmd5 : ∀ data, (md5 data).length = 16) (secret before : Bytes) :
    (msKeyMask md5 secret before).length = 16 :=
  hmd5 _

theorem encryptMsKey_length (hmd5 : ∀ data, (md5 data).length = 16) (secret key : Bytes)
    (salt : UInt16) (reqAuthenticator : Bytes) :
    (encryptMsKey md5 secret key salt reqAuthenticator).length = msKeyLen key.length := by
  rw [encryptMsKey, encrypt_length (msKeyMask_length hmd5 secret) (length_le_sixteen _),
    paddedKey_length]

/-- What is decrypted is the padded key. -/
theorem decrypt_encryptMsKey (hmd5 : ∀ data, (md5 data).length = 16) (secret key : Bytes)
    (salt : UInt16) (reqAuthenticator : Bytes) :
    decrypt (· ^^^ ·) (msKeyMask md5 secret) 16 (msKeyLen key.length)
        (reqAuthenticator ++ be16 salt.toNat)
        (encryptMsKey md5 secret key salt reqAuthenticator) = paddedKey key := by
  rw [encryptMsKey, ← paddedKey_length]
  apply decrypt_encrypt (msKeyMask_length hmd5 secret) xor_cancel (by decide)
  · rw [paddedKey_length]
    exact (msKeyLen_dvd _).1
  · exact length_le_sixteen _

theorem byteAt_paddedKey (key : Bytes) : byteAt (paddedKey key) 0 = key.length % 256 := by
  have hpos := (msKeyLen_dvd key.length).2
  obtain ⟨len, hlen⟩ : ∃ len, msKeyLen key.length = len + 1 := ⟨msKeyLen key.length - 1, by omega⟩
  rw [paddedKey, hlen]
  simp only [List.cons_append, List.take_succ_cons, byteAt_cons_zero, UInt8.toNat_ofNat']

/-- What `decrypt_ms_key` makes of an encrypted key. -/
theorem decryptMsKey_encryptMsKey (hmd5 : ∀ data, (md5 data).length = 16) (secret key : Bytes)
    (salt : UInt16) (reqAuthenticator : Bytes) :
    decryptMsKey md5 secret
        (be16 salt.toNat ++ encryptMsKey md5 secret key salt reqAuthenticator)
        reqAuthenticator =
      if key.length % 256 = 0 ∨ key.length % 256 > (paddedKey key).length - 1 then none
      else some (((paddedKey key).drop 1).take (key.length % 256)) := by
  have hlength := encryptMsKey_length hmd5 secret key salt reqAuthenticator
  have hplain := decrypt_encryptMsKey hmd5 secret key salt reqAuthenticator
  obtain ⟨hwhole, hpos⟩ := msKeyLen_dvd key.length
  have hlong : ¬ (be16 salt.toNat ++
      encryptMsKey md5 secret key salt reqAuthenticator).length < 2 + 16 := by
    rw [List.length_append, hlength]
    have htwo : (be16 salt.toNat).length = 2 := rfl
    omega
  have hdrop : (be16 salt.toNat ++ encryptMsKey md5 secret key salt reqAuthenticator).drop 2 =
      encryptMsKey md5 secret key salt reqAuthenticator := rfl
  have htake : (be16 salt.toNat ++ encryptMsKey md5 secret key salt reqAuthenticator).take 2 =
      be16 salt.toNat := rfl
  have hmod : ¬ msKeyLen key.length % 16 ≠ 0 := by
    rw [not_not]
    exact Nat.mod_eq_zero_of_dvd hwhole
  rw [decryptMsKey, if_neg hlong]
  simp only [hdrop, htake, hlength, if_neg hmod, hplain, byteAt_paddedKey]

theorem take_paddedKey (h : key.length ≤ 255) :
    ((paddedKey key).drop 1).take key.length = key := by
  have hlen := msKeyLen_eq h
  obtain ⟨len, hsucc⟩ : ∃ len, msKeyLen key.length = len + 1 :=
    ⟨msKeyLen key.length - 1, by omega⟩
  have hshort : key.length ≤ len := by omega
  rw [paddedKey, hsucc, List.cons_append, List.take_succ_cons, List.drop_succ_cons, List.drop_zero,
    List.take_take, Nat.min_eq_left hshort, List.take_left]

/-- No key is lost but the empty one, up to the length that fits into a byte. -/
theorem decryptMsKey_short (hmd5 : ∀ data, (md5 data).length = 16) (secret : Bytes)
    (salt : UInt16) (reqAuthenticator : Bytes) (h : key.length ≤ 255) :
    decryptMsKey md5 secret
        (be16 salt.toNat ++ encryptMsKey md5 secret key salt reqAuthenticator)
        reqAuthenticator = if key = [] then none else some key := by
  have hmod : key.length % 256 = key.length := Nat.mod_eq_of_lt (by omega)
  have hlen := msKeyLen_eq h
  have hroom : ¬ key.length > (paddedKey key).length - 1 := by
    rw [paddedKey_length]
    omega
  rw [decryptMsKey_encryptMsKey hmd5, hmod, take_paddedKey h]
  simp only [hroom, or_false, List.length_eq_zero_iff]

/-- The controller gets a key back exactly when its length has a byte of its own and
is not zero: the length of a longer one is cut to a byte, and with it the key. -/
theorem decryptMsKey_encryptMsKey_iff (hmd5 : ∀ data, (md5 data).length = 16)
    (secret key : Bytes) (salt : UInt16) (reqAuthenticator : Bytes) :
    decryptMsKey md5 secret
        (be16 salt.toNat ++ encryptMsKey md5 secret key salt reqAuthenticator)
        reqAuthenticator = some key ↔ 1 ≤ key.length ∧ key.length ≤ 255 := by
  constructor
  · intro hkey
    rw [decryptMsKey_encryptMsKey hmd5] at hkey
    simp only [Option.ite_none_left_eq_some, Option.some.injEq] at hkey
    obtain ⟨hsome, hsame⟩ := hkey
    have hbyte : key.length % 256 < 256 := Nat.mod_lt _ (by decide)
    have hlength := congrArg List.length hsame
    rw [List.length_take, List.length_drop] at hlength
    omega
  · rintro ⟨hone, hshort⟩
    rw [decryptMsKey_short hmd5 secret salt reqAuthenticator hshort,
      if_neg (List.ne_nil_of_length_pos hone)]

theorem key_of_two_bytes :
    decryptMsKey Radius.md5 [0x73] (be16 0x8001 ++ encryptMsKey Radius.md5 [0x73] [5, 6] 0x8001
      (List.replicate 16 9)) (List.replicate 16 9) = some [5, 6] :=
  (decryptMsKey_encryptMsKey_iff md5_length [0x73] [5, 6] 0x8001 (List.replicate 16 9)).mpr
    (by decide)

theorem msKeyAttr_length (hmd5 : ∀ data, (md5 data).length = 16) (secret : Bytes) (subtype : Nat)
    (key : Bytes) (salt : UInt16) (reqAuthenticator : Bytes) :
    (msKeyAttr md5 secret subtype key salt reqAuthenticator).length = 8 + msKeyLen key.length := by
  have hlength := encryptMsKey_length hmd5 secret key salt reqAuthenticator
  simp only [msKeyAttr, be16, List.length_append, List.length_cons, List.length_nil, hlength]

/-- What `radius_msg_get_vendor_attr` finds in one attribute. -/
def vendorAttrOf (vendor subtype : Nat) (value : Bytes) : Option Bytes :=
  if value.length < 4 then none
  else if 65536 * be16At value 0 + be16At value 2 ≠ vendor then none
  else vendorSubtype subtype value.length (value.drop 4)

/-- A key is found under its own subtype and no other. -/
theorem vendorAttrOf_msKeyAttr (hmd5 : ∀ data, (md5 data).length = 16) (secret : Bytes)
    {subtype : Nat} (hsubtype : subtype < 256) (key : Bytes) (salt : UInt16)
    (reqAuthenticator : Bytes) (hlen : 4 + msKeyLen key.length < 256) (wanted : Nat) :
    vendorAttrOf vendorMicrosoft wanted
        (msKeyAttr md5 secret subtype key salt reqAuthenticator) =
      if subtype = wanted then
        some (be16 salt.toNat ++ encryptMsKey md5 secret key salt reqAuthenticator)
      else none := by
  have hlength := encryptMsKey_length hmd5 secret key salt reqAuthenticator
  have htotal := msKeyAttr_length hmd5 secret subtype key salt reqAuthenticator
  set encrypted := encryptMsKey md5 secret key salt reqAuthenticator with hencrypted
  set value := msKeyAttr md5 secret subtype key salt reqAuthenticator with hvalue
  have hvendor : 65536 * be16At value 0 + be16At value 2 = vendorMicrosoft := by
    rw [hvalue]
    rfl
  have hdrop : value.drop 4 = [UInt8.ofNat subtype, UInt8.ofNat (2 + 2 + encrypted.length)] ++
      (be16 salt.toNat ++ encrypted) := by
    rw [hvalue, msKeyAttr, ← hencrypted]
    simp [be16]
  have hinner : (value.drop 4).length = 4 + encrypted.length := by
    rw [List.length_drop, htotal, hlength]
    omega
  have htype : byteAt (value.drop 4) 0 = subtype := by
    rw [hdrop]
    exact toNat_ofNat_lt hsubtype
  have hbyte : byteAt (value.drop 4) 1 = 4 + encrypted.length := by
    rw [hdrop]
    exact toNat_ofNat_lt (by omega)
  obtain ⟨fuel, hfuel⟩ : ∃ fuel, value.length = fuel + 1 + 1 := ⟨value.length - 2, by omega⟩
  rw [vendorAttrOf, if_neg (by omega), if_neg (by simpa using hvendor), hfuel, vendorSubtype,
    if_neg (by omega)]
  simp only [hbyte, htype]
  rw [if_neg (by omega)]
  by_cases hwanted : subtype = wanted
  · have hself : ((value.drop 4).take (4 + encrypted.length)).drop 2 =
        be16 salt.toNat ++ encrypted := by
      rw [← hinner, List.take_length, hdrop]
      rfl
    rw [if_neg (by simpa using hwanted), if_pos hwanted, hself]
  · have hend : ((value.drop 4).drop (4 + encrypted.length)).length < 2 := by
      rw [← hinner, List.drop_length]
      decide
    rw [if_pos hwanted, if_neg hwanted, vendorSubtype, if_pos hend]

end CoapEap.Radius
