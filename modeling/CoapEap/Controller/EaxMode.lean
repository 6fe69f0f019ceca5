import CoapEap.Controller.Eax
import CoapEap.Library.EaxMode

/-!
The authenticated mode of `eax.c`: the tagged macs, the counter that the bytes of a
block make, and that `do_eax` is EAX over the cipher it is given whenever its inner
buffer holds what is authenticated.
-/

open Library

namespace CoapEap.Eax

/-- `do_omac_n`. -/
def doOmacN (aesencrypt : Block → Block → Block) (uninitialised : DataPadded) (key : Block)
    (data : Bytes) (tag : UInt8) : Option Block :=
  let dataCopy := List.replicate 15 0 ++ tag :: data
  doOmac aesencrypt uninitialised key dataCopy

-- The bounds of the places in a block have names, so that the loops hold no proofs.

theorem front_le {j : Nat} (h : j + 1 ≤ 16) : j ≤ 16 := Nat.le_of_succ_le h

theorem block_le : 16 ≤ 16 := Nat.le_refl 16

/-- The loop over the counter in `do_ctr`, from the last byte on until one does not
become zero. -/
def incrementLoop : (j : Nat) → j ≤ 16 → Block → Block
  | 0, _, state => state
  | j + 1, h, state =>
    let byte := state.get ⟨j, h⟩ + 1
    let state := state.set j byte h
    if byte ≠ 0 then state else incrementLoop j (front_le h) state

/-- The loop of `do_ctr` on the bytes that are left. Every round takes at least one, so
their number bounds the rounds. -/
def ctrLoop (aesencrypt : Block → Block) :
    Nat → (state buffer : Block) → Bytes → Bytes
  | 0, _, _, data => data
  | rounds + 1, state, buffer, data =>
    if data.length = 0 then data
    else
      let toXor := if data.length < 16 then data.length else 16
      let state' := incrementLoop 16 block_le state
      List.zipWith (· ^^^ ·) (data.take toXor) buffer.toList ++
        ctrLoop aesencrypt rounds state' (aesencrypt state') (data.drop toXor)

/-- `do_ctr`. -/
def doCtr (aesencrypt : Block → Block → Block) (key nonce : Block) (data : Bytes) : Bytes :=
  ctrLoop (aesencrypt key) data.length nonce (aesencrypt key nonce) data

/-- `do_eax`: `data_ciphered` and `tag_buf`. There is no result when a write leaves the
buffer of one of the macs; `uninitialised` is what these buffers hold before. -/
def doEax (aesencrypt : Block → Block → Block) (uninitialised : Fin 3 → DataPadded)
    (key nonce : Block) (data header : Bytes) : Option (Bytes × Block) := do
  let macNonce ← doOmacN aesencrypt (uninitialised 0) key nonce.toList 0
  let macHeader ← doOmacN aesencrypt (uninitialised 1) key header 1
  let dataCopy := doCtr aesencrypt key macNonce data
  let macData ← doOmacN aesencrypt (uninitialised 2) key dataCopy 2
  some (dataCopy, Vector.ofFn fun j => macNonce.get j ^^^ macData.get j ^^^ macHeader.get j)

theorem tag_block (tag : UInt8) : List.replicate 15 0 ++ [tag] = Cmac.octets 16 tag.toNat := by
  have hnumber : Cmac.number (List.replicate 15 0 ++ [tag]) = tag.toNat := by
    rw [Cmac.number_append, Cmac.number_replicate_zero]
    simp [Cmac.number]
  have hoctets := Cmac.octets_number (List.replicate 15 0 ++ [tag])
  rw [hnumber] at hoctets
  exact hoctets.symm

theorem dataCopy_length (data : Bytes) (tag : UInt8) :
    (List.replicate 15 0 ++ tag :: data).length = 16 + data.length := by
  rw [List.length_append, List.length_replicate, List.length_cons]
  omega

/-- A message that fits behind the block of the tag. -/
theorem toBits_doOmacN (aesencrypt : Block → Block → Block) (uninitialised : DataPadded)
    (key : Block) {data : Bytes} (tag : UInt8) (h : data.length ≤ 128) :
    ∃ mac, doOmacN aesencrypt uninitialised key data tag = some mac ∧
      toBits mac = EaxMode.tagged (onBits (aesencrypt key)) rb tag.toNat data := by
  have hfits : (List.replicate 15 0 ++ tag :: data).length ≤ 144 := by
    rw [dataCopy_length]
    omega
  obtain ⟨mac, hmac, hbits⟩ := toBits_doOmac aesencrypt uninitialised key hfits
  refine ⟨mac, hmac, ?_⟩
  have hsplit : List.replicate 15 0 ++ tag :: data = Cmac.octets 16 tag.toNat ++ data := by
    rw [← tag_block, List.append_assoc, List.singleton_append]
  rw [hbits, hsplit, EaxMode.tagged]

theorem doOmacN_eq_none (aesencrypt : Block → Block → Block) (uninitialised : DataPadded)
    (key : Block) {data : Bytes} (tag : UInt8) (h : 128 < data.length) :
    doOmacN aesencrypt uninitialised key data tag = none := by
  have hsome := doOmac_isSome_iff aesencrypt uninitialised key (List.replicate 15 0 ++ tag :: data)
  have hlong : ¬ (List.replicate 15 0 ++ tag :: data).length ≤ 144 := by
    rw [dataCopy_length]
    omega
  rw [doOmacN, ← Option.not_isSome_iff_eq_none]
  exact fun h => hlong (hsome.mp h)

/-- The bytes in front count one more, and those behind stay. -/
theorem incrementLoop_number {j : Nat} (hj : j ≤ 16) {state : Block} {front done : Bytes}
    (hstate : state.toList = front ++ done) (hfront : front.length = j) :
    ∃ lost, Cmac.number (incrementLoop j hj state).toList + 2 ^ 128 * lost =
      2 ^ (8 * done.length) * (Cmac.number front + 1) + Cmac.number done := by
  induction j generalizing state front done with
  | zero =>
      have hnil : front = [] := List.length_eq_zero_iff.mp hfront
      have hdone : done.length = 16 := by
        have hlength := congrArg List.length hstate
        simpa [hnil] using hlength.symm
      refine ⟨1, ?_⟩
      rw [incrementLoop, hstate, hnil, hdone, List.nil_append, Cmac.number]
      omega
  | succ j ih =>
      obtain ⟨before, byte, rfl⟩ : ∃ before byte, front = before ++ [byte] := by
        have hne : front ≠ [] := by
          rintro rfl
          simp at hfront
        exact ⟨front.dropLast, front.getLast hne, (List.dropLast_append_getLast hne).symm⟩
      have hbefore : before.length = j := by simpa using hfront
      have hbyte : state.get ⟨j, hj⟩ = byte := by
        have hget : state.toList[j]? = some byte := by
          rw [hstate, ← hbefore]
          simp
        have hsome : state.toList[j]? = some (state.get ⟨j, hj⟩) := by
          rw [Vector.getElem?_toList, Vector.getElem?_eq_getElem]
          rfl
        exact Option.some.inj (hsome.symm.trans hget)
      have hset : (state.set j (byte + 1)).toList = before ++ (byte + 1) :: done := by
        rw [Vector.toList_set, hstate, ← hbefore]
        simp
      have hfrontNumber : Cmac.number (before ++ [byte]) =
          256 * Cmac.number before + byte.toNat := by
        rw [Cmac.number_append]
        simp [Cmac.number]
      simp only [incrementLoop, hbyte]
      rw [hfrontNumber]
      by_cases hcarry : byte + 1 = 0
      · have hfull : byte.toNat = 255 := by
          have hzero := congrArg UInt8.toNat hcarry
          have hlt := UInt8.toNat_lt byte
          rw [UInt8.toNat_add] at hzero
          simp only [UInt8.toNat_one, UInt8.toNat_zero] at hzero
          omega
        obtain ⟨lost, hlost⟩ := ih (front_le hj) hset hbefore
        refine ⟨lost, ?_⟩
        have hpower : 2 ^ (8 * (done.length + 1)) = 2 ^ (8 * done.length) * 256 := by
          rw [Nat.mul_add, pow_add]
          norm_num
        rw [if_neg (not_not_intro hcarry), hlost, List.length_cons, hpower, Cmac.number, hcarry,
          hfull]
        simp only [UInt8.toNat_zero]
        ring
      · have hnext : (byte + 1).toNat = byte.toNat + 1 := by
          have hlt := UInt8.toNat_lt byte
          have hne : (byte + 1).toNat ≠ 0 := fun h => hcarry (UInt8.toNat.inj h)
          rw [UInt8.toNat_add] at hne ⊢
          simp only [UInt8.toNat_one] at hne ⊢
          omega
        refine ⟨0, ?_⟩
        rw [if_pos hcarry, hset, Cmac.number_append, Cmac.number, List.length_cons, hnext,
          Nat.mul_add, pow_add]
        ring

/-- The loop adds one to the number that the block writes, without the last carry. -/
theorem toBits_incrementLoop (state : Block) :
    toBits (incrementLoop 16 block_le state) = toBits state + 1 := by
  obtain ⟨lost, hlost⟩ := incrementLoop_number block_le (List.append_nil state.toList).symm
    Vector.length_toList
  have hnumber : Cmac.number (incrementLoop 16 block_le state).toList + 2 ^ 128 * lost =
      Cmac.number state.toList + 1 := by
    rw [hlost]
    simp [Cmac.number]
  have hlt := (toBits (incrementLoop 16 block_le state)).isLt
  rw [toBits_toNat] at hlt
  apply BitVec.eq_of_toNat_eq
  have hone : (1 : BitVec (8 * 16)).toNat = 1 := rfl
  rw [BitVec.toNat_add, toBits_toNat, toBits_toNat, hone, ← hnumber, Nat.add_mul_mod_self_left,
    Nat.mod_eq_of_lt hlt]

theorem ctrLoop_eq (aesencrypt : Block → Block) {rounds : Nat} (state : Block) {data : Bytes}
    (h : data.length ≤ rounds) :
    ctrLoop aesencrypt rounds state (aesencrypt state) data =
      EaxMode.counterMode (onBits aesencrypt) (toBits state) data := by
  induction rounds generalizing state data with
  | zero =>
      have hnone : data = [] := List.length_eq_zero_iff.mp (Nat.le_zero.mp h)
      rw [hnone]
      rfl
  | succ rounds ih =>
      rw [ctrLoop]
      split
      · rename_i hnone
        rw [List.length_eq_zero_iff.mp hnone]
        rfl
      · rename_i hsome
        have hmask : Cmac.octets 16 (onBits aesencrypt (toBits state)).toNat =
            (aesencrypt state).toList := by
          rw [onBits_toBits, toBits_toNat]
          have hoctets := Cmac.octets_number (aesencrypt state).toList
          rwa [Vector.length_toList] at hoctets
        have htake : data.take (if data.length < 16 then data.length else 16) = data.take 16 := by
          split
          · rw [List.take_length, List.take_of_length_le (by omega)]
          · rfl
        have hdrop : data.drop (if data.length < 16 then data.length else 16) = data.drop 16 := by
          split
          · rw [List.drop_length, List.drop_of_length_le (by omega)]
          · rfl
        have hrest : (data.drop 16).length ≤ rounds := by
          rw [List.length_drop]
          omega
        simp only [htake, hdrop]
        rw [ih _ hrest, toBits_incrementLoop, EaxMode.counterMode_blocks _ _ (by decide) data,
          hmask]

theorem doCtr_eq (aesencrypt : Block → Block → Block) (key nonce : Block) (data : Bytes) :
    doCtr aesencrypt key nonce data =
      EaxMode.counterMode (onBits (aesencrypt key)) (toBits nonce) data :=
  ctrLoop_eq (aesencrypt key) nonce (le_refl _)

theorem toBits_xor (first second third : Block) :
    toBits (Vector.ofFn fun j => first.get j ^^^ second.get j ^^^ third.get j) =
      toBits first ^^^ toBits second ^^^ toBits third := by
  have hbytes : (Vector.ofFn fun j : Fin 16 =>
      first.get j ^^^ second.get j ^^^ third.get j).toList =
        List.zipWith (· ^^^ ·) (List.zipWith (· ^^^ ·) first.toList second.toList)
          third.toList := by
    apply List.ext_getElem
    · simp
    · intro i _ _
      simp only [Vector.getElem_toList, Vector.getElem_ofFn, List.getElem_zipWith]
      rfl
  have hfirst : (List.zipWith (· ^^^ ·) first.toList second.toList).length = 16 := by simp
  rw [toBits, hbytes, Cmac.bits_xor hfirst Vector.length_toList,
    Cmac.bits_xor Vector.length_toList Vector.length_toList, toBits, toBits, toBits]

theorem doEax_fits (aesencrypt : Block → Block → Block) (uninitialised : Fin 3 → DataPadded)
    (key nonce : Block) {data header : Bytes} (hdata : data.length ≤ 128)
    (hheader : header.length ≤ 128) :
    (doEax aesencrypt uninitialised key nonce data header).map
        (fun sent => (sent.1, toBits sent.2)) =
      some (EaxMode.encrypt (onBits (aesencrypt key)) rb nonce.toList header data) := by
  have hnonce : nonce.toList.length ≤ 128 := by
    rw [Vector.length_toList]
    decide
  obtain ⟨macNonce, hmacNonce, hnonceBits⟩ :=
    toBits_doOmacN aesencrypt (uninitialised 0) key 0 hnonce
  obtain ⟨macHeader, hmacHeader, hheaderBits⟩ :=
    toBits_doOmacN aesencrypt (uninitialised 1) key 1 hheader
  have hcopy : (doCtr aesencrypt key macNonce data).length ≤ 128 := by
    rw [doCtr_eq, EaxMode.counterMode_length]
    exact hdata
  obtain ⟨macData, hmacData, hdataBits⟩ :=
    toBits_doOmacN aesencrypt (uninitialised 2) key 2 hcopy
  have hciphertext : doCtr aesencrypt key macNonce data =
      EaxMode.counterMode (onBits (aesencrypt key))
        (EaxMode.tagged (onBits (aesencrypt key)) rb 0 nonce.toList) data := by
    rw [doCtr_eq, hnonceBits]
    rfl
  have htag : toBits (Vector.ofFn fun j => macNonce.get j ^^^ macData.get j ^^^ macHeader.get j) =
      EaxMode.tag (onBits (aesencrypt key)) rb nonce.toList header
        (doCtr aesencrypt key macNonce data) := by
    rw [toBits_xor, hnonceBits, hheaderBits, hdataBits, EaxMode.tag, BitVec.xor_assoc,
      BitVec.xor_assoc, BitVec.xor_comm (EaxMode.tagged _ _ (2 : UInt8).toNat _)]
    rfl
  simp only [doEax, hmacNonce, hmacHeader, hmacData, Option.bind_eq_bind, Option.bind_some,
    Option.map_some, htag]
  rw [hciphertext, EaxMode.encrypt]

/-- The header is too long for its buffer, or else the data for its own. -/
theorem doEax_eq_none (aesencrypt : Block → Block → Block) (uninitialised : Fin 3 → DataPadded)
    (key nonce : Block) {data header : Bytes}
    (h : ¬ (data.length ≤ 128 ∧ header.length ≤ 128)) :
    doEax aesencrypt uninitialised key nonce data header = none := by
  cases hmacNonce : doOmacN aesencrypt (uninitialised 0) key nonce.toList 0 with
  | none => simp only [doEax, hmacNonce, Option.bind_eq_bind, Option.bind_none]
  | some macNonce =>
      by_cases hheader : header.length ≤ 128
      · obtain ⟨macHeader, hmacHeader, -⟩ :=
          toBits_doOmacN aesencrypt (uninitialised 1) key 1 hheader
        have hlong : 128 < (doCtr aesencrypt key macNonce data).length := by
          rw [doCtr_eq, EaxMode.counterMode_length]
          omega
        have hmacData := doOmacN_eq_none aesencrypt (uninitialised 2) key 2 hlong
        simp only [doEax, hmacNonce, hmacHeader, hmacData, Option.bind_eq_bind, Option.bind_some,
          Option.bind_none]
      · have hmacHeader := doOmacN_eq_none aesencrypt (uninitialised 1) key 1
          (Nat.lt_of_not_le hheader)
        simp only [doEax, hmacNonce, hmacHeader, Option.bind_eq_bind, Option.bind_some,
          Option.bind_none]

/-- `do_eax` is EAX over the cipher it is given, with the constant of blocks of 128
bits, for data and a header of at most 128 bytes each, and leaves the buffer of a mac for
any other. What it makes of the data is decrypted to the data. -/
theorem do_eax_computes_eax (aesencrypt : Block → Block → Block)
    (uninitialised : Fin 3 → DataPadded) (key nonce : Block) (data header : Bytes) :
    let cipher := onBits (aesencrypt key)
    let done := (doEax aesencrypt uninitialised key nonce data header).map
      fun sent => (sent.1, toBits sent.2)
    (done = if data.length ≤ 128 ∧ header.length ≤ 128 then
        some (EaxMode.encrypt cipher rb nonce.toList header data)
      else none) ∧
      ∀ sent ∈ done, EaxMode.decrypt cipher rb nonce.toList header sent = some data := by
  intro cipher done
  have hdone : done = if data.length ≤ 128 ∧ header.length ≤ 128 then
      some (EaxMode.encrypt cipher rb nonce.toList header data) else none := by
    split
    · rename_i h
      exact doEax_fits aesencrypt uninitialised key nonce h.1 h.2
    · rename_i h
      simp only [done, doEax_eq_none aesencrypt uninitialised key nonce h, Option.map_none]
  refine ⟨hdone, ?_⟩
  intro sent hsent
  rw [hdone] at hsent
  split at hsent
  · cases hsent
    exact (EaxMode.decrypt_eq_some_iff ..).mpr rfl
  · cases hsent

end CoapEap.Eax
