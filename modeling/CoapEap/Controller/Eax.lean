import CoapEap.Bytes
import CoapEap.Library.Buffer
import CoapEap.Library.Cmac

/-!
The message authentication code of `eax.c`, over any function on blocks of sixteen
bytes, and that it is CMAC for every message that its buffer holds.
-/

open Library Polynomial

namespace CoapEap.Eax

/-- Sixteen bytes. -/
abbrev Block := Vector UInt8 16

/-- The array `data_padded` of `do_omac`, not initialised when the function starts. -/
abbrev DataPadded := Vector UInt8 150

def zeroBlock : Block := Vector.replicate 16 0

/-- The loop of `poly_double`, from the last byte to the first. -/
def polyDoubleLoop : (j : Nat) → j ≤ 16 → Block → UInt8 → Block
  | 0, _, out, _ => out
  | j + 1, h, out, carry =>
    let temp := out[j]
    polyDoubleLoop j (by omega) (out.set j ((temp <<< 1) ||| carry)) (temp >>> 7)

/-- `poly_double`. -/
def polyDouble (input : Block) : Block :=
  let doXor := input[0] &&& 0x80 ≠ 0
  let out := polyDoubleLoop 16 (by omega) input 0
  if doXor then out.set 15 (out[15] ^^^ 0x87) else out

/-- `total_len` of `do_omac`. -/
def totalLen (length : Nat) : Nat :=
  if length ≠ 0 ∧ length % 16 = 0 then length else length + (16 - length % 16)

/-- The `memset`, the `memcpy` and the byte that starts the padding. -/
def fill (dataPadded data : Bytes) : Option Bytes := do
  let length := data.length
  let total := totalLen length
  let dataPadded ← Buffer.write dataPadded 0 (List.replicate total 0)
  let dataPadded ← Buffer.write dataPadded 0 data
  if total ≠ length then Buffer.write dataPadded length [0x80] else some dataPadded

/-- The loop that masks the last block in place: `j` walks the block as `xor_pad`
walks the mask. -/
def maskLoop : (xorPad : Bytes) → (j : Nat) → (dataPadded : Bytes) → Option Bytes
  | [], _, dataPadded => some dataPadded
  | mask :: xorPad, j, dataPadded => do
    let dataPadded ← Buffer.write dataPadded j [dataPadded.getD j 0 ^^^ mask]
    maskLoop xorPad (j + 1) dataPadded

/-- The inner loop of the chaining, over the bytes of one block. -/
def xorBlock (mac : Block) (dataPadded : Bytes) (j : Nat) : Block :=
  Vector.ofFn fun k => mac[k] ^^^ dataPadded.getD (j + k) 0

/-- The chaining loop. As `total_len` is a multiple of sixteen, `j` meets it after
`total_len / 16` rounds. -/
def chainLoop (aesencrypt : Block → Block) (dataPadded : Bytes) :
    (rounds : Nat) → (j : Nat) → (mac : Block) → Block
  | 0, _, mac => mac
  | rounds + 1, j, mac =>
    chainLoop aesencrypt dataPadded rounds (j + 16) (aesencrypt (xorBlock mac dataPadded j))

/-- `do_omac`. There is no result when a write leaves `data_padded`. -/
def doOmac (aesencrypt : Block → Block → Block) (uninitialised : DataPadded) (key : Block)
    (data : Bytes) : Option Block := do
  let length := data.length
  let l := aesencrypt key zeroBlock
  let b := polyDouble l
  let p := polyDouble b
  let total := totalLen length
  let dataPadded ← fill uninitialised.toList data
  let xorPad := if total = length then b else p
  let dataPadded ← maskLoop xorPad.toList (total - 16) dataPadded
  some (chainLoop (aesencrypt key) dataPadded (total / 16) 0 zeroBlock)

/-! Blocks as bit strings. -/

def toBits (block : Block) : BitVec (8 * 16) := Cmac.bits 16 block.toList

def ofBits (x : BitVec (8 * 16)) : Block :=
  ⟨(Cmac.octets 16 x.toNat).toArray, by rw [List.size_toArray, Cmac.octets_length]⟩

/-- A function on blocks as a function on bit strings. -/
def onBits (aesencrypt : Block → Block) (x : BitVec (8 * 16)) : BitVec (8 * 16) :=
  toBits (aesencrypt (ofBits x))

/-- The constant of the doubling for blocks of 128 bits. -/
def rb : BitVec (8 * 16) := 0x87

theorem toBits_toNat (block : Block) : (toBits block).toNat = Cmac.number block.toList := by
  have hlt := Cmac.number_lt block.toList
  rw [Vector.length_toList] at hlt
  rw [toBits, Cmac.bits, BitVec.toNat_ofNat, Nat.mod_eq_of_lt hlt]

theorem ofBits_toBits (block : Block) : ofBits (toBits block) = block := by
  apply Vector.toList_inj.mp
  have hoctets := Cmac.octets_number block.toList
  rw [Vector.length_toList] at hoctets
  rw [ofBits, toBits_toNat]
  exact hoctets

theorem onBits_toBits (aesencrypt : Block → Block) (block : Block) :
    onBits aesencrypt (toBits block) = toBits (aesencrypt block) := by
  rw [onBits, ofBits_toBits]

theorem toBits_zeroBlock : toBits zeroBlock = 0 := by
  apply BitVec.eq_of_toNat_eq
  rw [toBits_toNat, zeroBlock, Vector.toList_replicate, Cmac.number_replicate_zero]
  rfl

/-! The doubling loop. -/

/-- A byte is shifted, the bit that falls out becomes the next carry. -/
theorem shifted_byte (temp : UInt8) {carry : UInt8} (h : carry.toNat ≤ 1) :
    256 * (temp >>> 7).toNat + ((temp <<< 1) ||| carry).toNat = 2 * temp.toNat + carry.toNat ∧
      (temp >>> 7).toNat ≤ 1 := by
  have hfirst : ∀ n < 256, 256 * (UInt8.ofNat n >>> 7).toNat +
      ((UInt8.ofNat n <<< 1) ||| 0).toNat = 2 * n ∧ (UInt8.ofNat n >>> 7).toNat ≤ 1 := by
    decide +kernel
  have hsecond : ∀ n < 256, 256 * (UInt8.ofNat n >>> 7).toNat +
      ((UInt8.ofNat n <<< 1) ||| 1).toNat = 2 * n + 1 ∧ (UInt8.ofNat n >>> 7).toNat ≤ 1 := by
    decide +kernel
  have htemp : UInt8.ofNat temp.toNat = temp := UInt8.ofNat_toNat
  rcases Nat.le_one_iff_eq_zero_or_eq_one.mp h with hzero | hone
  · have hcarry : carry = 0 := UInt8.toNat.inj hzero
    have hbyte := hfirst temp.toNat temp.toNat_lt
    rw [htemp] at hbyte
    rw [hcarry]
    exact hbyte
  · have hcarry : carry = 1 := UInt8.toNat.inj hone
    have hbyte := hsecond temp.toNat temp.toNat_lt
    rw [htemp] at hbyte
    rw [hcarry]
    exact hbyte

theorem top_bit_iff (x : UInt8) : x &&& 0x80 ≠ 0 ↔ 128 ≤ x.toNat := by
  have hbytes : ∀ n < 256, UInt8.ofNat n &&& 0x80 ≠ 0 ↔ 128 ≤ n := by
    decide +kernel
  have hx := hbytes x.toNat x.toNat_lt
  rwa [UInt8.ofNat_toNat] at hx

/-- The bytes still in front count double, together with the carry. -/
theorem polyDoubleLoop_number {j : Nat} (hj : j ≤ 16) {out : Block} {carry : UInt8}
    {front done : Bytes} (hout : out.toList = front ++ done) (hfront : front.length = j)
    (hcarry : carry.toNat ≤ 1) :
    ∃ lost, Cmac.number (polyDoubleLoop j hj out carry).toList + 2 ^ 128 * lost =
      2 ^ (8 * done.length) * (2 * Cmac.number front + carry.toNat) + Cmac.number done := by
  induction j generalizing out carry front done with
  | zero =>
    have hnil : front = [] := List.length_eq_zero_iff.mp hfront
    have hdone : done.length = 16 := by
      have hlength := congrArg List.length hout
      simpa [hnil] using hlength.symm
    refine ⟨carry.toNat, ?_⟩
    rw [polyDoubleLoop, hout, hnil, hdone, List.nil_append, Cmac.number]
    omega
  | succ j ih =>
    obtain ⟨before, temp, rfl⟩ : ∃ before temp, front = before ++ [temp] := by
      have hne : front ≠ [] := by
        rintro rfl
        simp at hfront
      exact ⟨front.dropLast, front.getLast hne, (List.dropLast_append_getLast hne).symm⟩
    have hbefore : before.length = j := by simpa using hfront
    have htemp : out[j] = temp := by
      have hget : out.toList[j]? = some temp := by
        rw [hout, ← hbefore]
        simp
      have hsome : out.toList[j]? = some out[j] := by
        rw [Vector.getElem?_toList, Vector.getElem?_eq_getElem]
      exact Option.some.inj (hsome.symm.trans hget)
    obtain ⟨hbyte, hnext⟩ := shifted_byte temp hcarry
    have hset : (out.set j ((temp <<< 1) ||| carry)).toList =
        before ++ ((temp <<< 1) ||| carry) :: done := by
      rw [Vector.toList_set, hout, ← hbefore]
      simp
    obtain ⟨lost, hlost⟩ := ih (Nat.le_of_succ_le hj) hset hbefore hnext
    have hpower : 2 ^ (8 * (done.length + 1)) = 2 ^ (8 * done.length) * 256 := by
      rw [Nat.mul_add, pow_add]
      norm_num
    refine ⟨lost, ?_⟩
    simp only [polyDoubleLoop, htemp]
    rw [hlost, List.length_cons, hpower, Cmac.number, Cmac.number_append]
    simp only [Cmac.number, List.length_singleton, List.length_nil]
    calc 2 ^ (8 * done.length) * 256 * (2 * Cmac.number before + (temp >>> 7).toNat) +
          (2 ^ (8 * done.length) * ((temp <<< 1) ||| carry).toNat + Cmac.number done)
        = 2 ^ (8 * done.length) * (512 * Cmac.number before +
            (256 * (temp >>> 7).toNat + ((temp <<< 1) ||| carry).toNat)) + Cmac.number done := by
          ring
      _ = 2 ^ (8 * done.length) * (2 * (2 ^ (8 * 1) * Cmac.number before +
            (2 ^ (8 * 0) * temp.toNat + 0)) + carry.toNat) + Cmac.number done := by
          rw [hbyte]
          ring

theorem toBits_polyDoubleLoop (input : Block) :
    toBits (polyDoubleLoop 16 (by omega) input 0) =
      BitVec.ofNat (8 * 16) (2 * Cmac.number input.toList) := by
  have hnil : input.toList = input.toList ++ [] := (List.append_nil _).symm
  have hcarry : (0 : UInt8).toNat ≤ 1 := by decide
  obtain ⟨lost, hlost⟩ := polyDoubleLoop_number (le_refl 16) hnil (by simp) hcarry
  have hnumber : Cmac.number (polyDoubleLoop 16 (le_refl 16) input 0).toList + 2 ^ 128 * lost =
      2 * Cmac.number input.toList := by
    rw [hlost]
    simp [Cmac.number]
  apply BitVec.eq_of_toNat_eq
  have hlt := (toBits (polyDoubleLoop 16 (le_refl 16) input 0)).isLt
  rw [toBits_toNat] at hlt
  rw [toBits_toNat, BitVec.toNat_ofNat, ← hnumber, Nat.add_mul_mod_self_left,
    Nat.mod_eq_of_lt hlt]

/-- The constant reaches the last byte alone. -/
theorem toBits_set_last (block : Block) :
    toBits (block.set 15 (block[15] ^^^ 0x87)) = toBits block ^^^ rb := by
  have hset : (block.set 15 (block[15] ^^^ 0x87)).toList =
      List.zipWith (· ^^^ ·) block.toList (List.replicate 15 0 ++ [0x87]) := by
    apply List.ext_getElem
    · simp
    intro i hi _
    have hlt : i < 16 := by simpa using hi
    simp only [Vector.getElem_toList, List.getElem_zipWith]
    by_cases hlast : i = 15
    · simp [hlast]
    · have hbefore : i < 15 := by omega
      rw [Vector.getElem_set_ne _ _ (Ne.symm hlast), List.getElem_append_left (by simpa),
        List.getElem_replicate, UInt8.xor_zero]
  have hconstant : Cmac.bits 16 (List.replicate 15 0 ++ [0x87]) = rb := by decide
  rw [toBits, hset, Cmac.bits_xor (by simp) (by simp), hconstant, toBits]

theorem do_xor_iff (input : Block) :
    input[0] &&& 0x80 ≠ 0 ↔ 2 ^ 127 ≤ Cmac.number input.toList := by
  obtain ⟨rest, hrest⟩ : ∃ rest, input.toList = input[0] :: rest := by
    have hlength : input.toList.length = 16 := Vector.length_toList
    cases hlist : input.toList with
    | nil => simp [hlist] at hlength
    | cons first rest =>
      refine ⟨rest, ?_⟩
      have hfirst : input.toList[0]? = some input[0] := by
        rw [Vector.getElem?_toList, Vector.getElem?_eq_getElem]
      rw [hlist, List.getElem?_cons_zero] at hfirst
      rw [Option.some.inj hfirst]
  have hlength : rest.length = 15 := by
    have h16 : input.toList.length = 16 := Vector.length_toList
    rw [hrest, List.length_cons] at h16
    omega
  have hlt := Cmac.number_lt rest
  rw [hlength] at hlt
  rw [top_bit_iff, hrest, Cmac.number, hlength]
  omega

/-- `poly_double` doubles. -/
theorem toBits_polyDouble (input : Block) :
    toBits (polyDouble input) = Cmac.double rb (toBits input) := by
  have hlt := Cmac.number_lt input.toList
  rw [Vector.length_toList] at hlt
  have hdouble := Cmac.double_ofNat (w := 127) rb hlt
  have hinput : toBits input = BitVec.ofNat (127 + 1) (Cmac.number input.toList) := rfl
  rw [hinput, hdouble, polyDouble]
  by_cases hxor : input[0] &&& 0x80 ≠ 0
  · rw [if_pos hxor, if_pos ((do_xor_iff input).mp hxor), toBits_set_last, toBits_polyDoubleLoop]
  · rw [if_neg hxor, if_neg (fun hbit => hxor ((do_xor_iff input).mpr hbit)),
      toBits_polyDoubleLoop]

/-! The loops over the buffer. -/

theorem maskLoop_between (front back : Bytes) {xorPad old : Bytes}
    (h : old.length = xorPad.length) :
    maskLoop xorPad front.length (front ++ old ++ back) =
      some (front ++ List.zipWith (· ^^^ ·) old xorPad ++ back) := by
  induction xorPad generalizing old front with
  | nil =>
    have hold : old = [] := List.length_eq_zero_iff.mp h
    simp [maskLoop, hold]
  | cons mask xorPad ih =>
    cases old with
    | nil => simp at h
    | cons byte old =>
      have hrest : old.length = xorPad.length := Nat.succ.inj h
      have hread : (front ++ byte :: old ++ back).getD front.length 0 = byte := by
        simp
      have hwrite : Buffer.write (front ++ byte :: old ++ back) front.length [byte ^^^ mask] =
          some (front ++ [byte ^^^ mask] ++ (old ++ back)) := by
        have hone : [byte].length = [byte ^^^ mask].length := rfl
        rw [← Buffer.write_between front (old ++ back) hone]
        simp
      have hnext := ih (front ++ [byte ^^^ mask]) hrest
      rw [List.length_append, List.length_singleton, List.append_assoc (front ++ [byte ^^^ mask])]
        at hnext
      rw [maskLoop, hread, hwrite]
      simp only [Option.bind_eq_bind, Option.bind_some]
      rw [hnext]
      simp

theorem toBits_xorBlock (mac : Block) {dataPadded : Bytes} {j : Nat}
    (h : j + 16 ≤ dataPadded.length) :
    toBits (xorBlock mac dataPadded j) =
      toBits mac ^^^ Cmac.bits 16 ((dataPadded.drop j).take 16) := by
  have hlength : ((dataPadded.drop j).take 16).length = 16 := by
    rw [List.length_take, List.length_drop]
    omega
  have hbytes : (xorBlock mac dataPadded j).toList =
      List.zipWith (· ^^^ ·) mac.toList ((dataPadded.drop j).take 16) := by
    apply List.ext_getElem
    · rw [List.length_zipWith, Vector.length_toList, Vector.length_toList, hlength]
      rfl
    intro i hi _
    have hlt : i < 16 := by simpa using hi
    have hin : j + i < dataPadded.length := by omega
    simp [xorBlock, hin]
  rw [toBits, hbytes, Cmac.bits_xor Vector.length_toList hlength, toBits]

/-- The blocks of the buffer from `j` on. -/
def blocksFrom (dataPadded : Bytes) (j rounds : Nat) : List (BitVec (8 * 16)) :=
  (List.range rounds).map fun i => Cmac.bits 16 ((dataPadded.drop (j + 16 * i)).take 16)

theorem blocksFrom_succ (dataPadded : Bytes) (j rounds : Nat) :
    blocksFrom dataPadded j (rounds + 1) =
      Cmac.bits 16 ((dataPadded.drop j).take 16) :: blocksFrom dataPadded (j + 16) rounds := by
  rw [blocksFrom, List.range_succ_eq_map, List.map_cons, List.map_map, blocksFrom]
  congr 1
  apply List.map_congr_left
  intro i _
  have hoffset : j + 16 * (i + 1) = j + 16 + 16 * i := by omega
  simp only [Function.comp_apply, Nat.succ_eq_add_one, hoffset]

theorem toBits_chainLoop (aesencrypt : Block → Block) {dataPadded : Bytes} {rounds j : Nat}
    (mac : Block) (h : j + 16 * rounds ≤ dataPadded.length) :
    toBits (chainLoop aesencrypt dataPadded rounds j mac) =
      Cmac.chain (onBits aesencrypt) (toBits mac) (blocksFrom dataPadded j rounds) := by
  induction rounds generalizing j mac with
  | zero => rfl
  | succ rounds ih =>
    have hblock : j + 16 ≤ dataPadded.length := by omega
    have hnext := ih (aesencrypt (xorBlock mac dataPadded j))
      (show j + 16 + 16 * rounds ≤ dataPadded.length by omega)
    rw [chainLoop, hnext, blocksFrom_succ, Cmac.chain, Cmac.chain, List.foldl_cons,
      ← toBits_xorBlock mac hblock, onBits_toBits]

/-! What stands in the buffer. -/

/-- The message as it is padded, before the last block is masked. -/
def padded (data : Bytes) : Bytes :=
  if totalLen data.length = data.length then data
  else data ++ 0x80 :: List.replicate (totalLen data.length - data.length - 1) 0

theorem le_totalLen (length : Nat) : length ≤ totalLen length := by
  unfold totalLen
  split <;> omega

theorem totalLen_eq_self_iff (length : Nat) :
    totalLen length = length ↔ length ≠ 0 ∧ length % 16 = 0 := by
  have hremainder := Nat.mod_lt length (show 0 < 16 by decide)
  unfold totalLen
  split
  next h => exact ⟨fun _ => h, fun _ => rfl⟩
  next h =>
    constructor
    · intro hself
      omega
    · intro hcomplete
      exact absurd hcomplete h

theorem totalLen_rounds (length : Nat) :
    ∃ rounds, totalLen length = 16 * (rounds + 1) ∧ 16 * rounds ≤ length ∧
      length ≤ 16 * (rounds + 1) := by
  unfold totalLen
  split
  · exact ⟨length / 16 - 1, by omega⟩
  · exact ⟨length / 16, by omega⟩

theorem padded_length (data : Bytes) : (padded data).length = totalLen data.length := by
  have hle := le_totalLen data.length
  unfold padded
  split
  · omega
  · simp only [List.length_append, List.length_cons, List.length_replicate]
    omega

theorem fill_eq {dataPadded data : Bytes} (h : totalLen data.length ≤ dataPadded.length) :
    fill dataPadded data = some (padded data ++ dataPadded.drop (totalLen data.length)) := by
  have hle := le_totalLen data.length
  have hzeros : (dataPadded.take (totalLen data.length)).length =
      (List.replicate (totalLen data.length) (0 : UInt8)).length := by
    rw [List.length_take, List.length_replicate, Nat.min_eq_left h]
  have hclear : Buffer.write dataPadded 0 (List.replicate (totalLen data.length) 0) =
      some (List.replicate (totalLen data.length) 0 ++ dataPadded.drop (totalLen data.length)) := by
    rw [← Buffer.write_front _ hzeros, List.take_append_drop]
  obtain ⟨more, hmore⟩ : ∃ more, totalLen data.length = data.length + more :=
    Nat.exists_eq_add_of_le hle
  have hcopy : Buffer.write
      (List.replicate (totalLen data.length) 0 ++ dataPadded.drop (totalLen data.length)) 0 data =
      some (data ++ (List.replicate more 0 ++ dataPadded.drop (totalLen data.length))) := by
    have hlength : (List.replicate data.length (0 : UInt8)).length = data.length :=
      List.length_replicate
    rw [hmore, ← List.replicate_append_replicate, List.append_assoc, Buffer.write_front _ hlength]
  have hwrites : fill dataPadded data =
      if totalLen data.length ≠ data.length then
        Buffer.write (data ++ (List.replicate more 0 ++ dataPadded.drop (totalLen data.length)))
          data.length [0x80]
      else some (data ++ (List.replicate more 0 ++ dataPadded.drop (totalLen data.length))) := by
    simp only [fill, hclear, Option.bind_eq_bind, Option.bind_some, hcopy]
  rw [hwrites, padded]
  by_cases hself : totalLen data.length = data.length
  · have hnone : more = 0 := by omega
    rw [if_neg (not_not_intro hself), if_pos hself, hnone]
    rfl
  · obtain ⟨zeros, rfl⟩ : ∃ zeros, more = zeros + 1 := ⟨more - 1, by omega⟩
    have hone : [(0 : UInt8)].length = [(0x80 : UInt8)].length := rfl
    have hcount : totalLen data.length - data.length - 1 = zeros := by omega
    have hmark := Buffer.write_between data
      (List.replicate zeros 0 ++ dataPadded.drop (totalLen data.length)) hone
    rw [if_pos hself, if_neg hself, hcount, List.replicate_succ]
    simpa using hmark

/-- A message whose blocks do not fit is written over the end at once. -/
theorem fill_eq_none {dataPadded data : Bytes} (h : dataPadded.length < totalLen data.length) :
    fill dataPadded data = none := by
  have hclear : Buffer.write dataPadded 0 (List.replicate (totalLen data.length) 0) = none := by
    rw [Buffer.write_eq_none_iff, List.length_replicate]
    omega
  simp only [fill, hclear, Option.bind_eq_bind, Option.bind_none]

theorem totalLen_fits_iff (length : Nat) : totalLen length ≤ 150 ↔ length ≤ 144 := by
  unfold totalLen
  split
  · omega
  · omega

/-- With room for its blocks, the message is masked and chained as a whole. -/
theorem doOmac_eq (aesencrypt : Block → Block → Block) (uninitialised : DataPadded) (key : Block)
    {data : Bytes} (h : data.length ≤ 144) {rounds : Nat}
    (hrounds : totalLen data.length = 16 * (rounds + 1)) :
    let b := polyDouble (aesencrypt key zeroBlock)
    let xorPad := if totalLen data.length = data.length then b else polyDouble b
    doOmac aesencrypt uninitialised key data =
      some (chainLoop (aesencrypt key)
        ((padded data).take (16 * rounds) ++
          List.zipWith (· ^^^ ·) ((padded data).drop (16 * rounds)) xorPad.toList ++
            uninitialised.toList.drop (totalLen data.length)) (rounds + 1) 0 zeroBlock) := by
  intro b xorPad
  have hfits : totalLen data.length ≤ uninitialised.toList.length := by
    rw [Vector.length_toList]
    exact (totalLen_fits_iff _).mpr h
  have hfront : ((padded data).take (16 * rounds)).length = 16 * rounds := by
    rw [List.length_take, padded_length]
    omega
  have hlast : ((padded data).drop (16 * rounds)).length = xorPad.toList.length := by
    rw [List.length_drop, padded_length, Vector.length_toList]
    omega
  have hmask := maskLoop_between ((padded data).take (16 * rounds))
    (uninitialised.toList.drop (totalLen data.length)) hlast
  rw [List.take_append_drop, hfront] at hmask
  have hstart : totalLen data.length - 16 = 16 * rounds := by omega
  have hcount : totalLen data.length / 16 = rounds + 1 := by omega
  simp only [doOmac, fill_eq hfits, Option.bind_eq_bind, Option.bind_some, hstart, hcount]
  rw [hmask]
  rfl

/-- Every write stays in the buffer exactly when the message has at most 144 bytes. -/
theorem doOmac_isSome_iff (aesencrypt : Block → Block → Block) (uninitialised : DataPadded)
    (key : Block) (data : Bytes) :
    (doOmac aesencrypt uninitialised key data).isSome ↔ data.length ≤ 144 := by
  constructor
  · intro hsome
    by_contra hlong
    have hover : uninitialised.toList.length < totalLen data.length := by
      rw [Vector.length_toList]
      have hfits := mt (totalLen_fits_iff data.length).mp hlong
      omega
    simp [doOmac, fill_eq_none hover] at hsome
  · intro h
    obtain ⟨rounds, hrounds, _, _⟩ := totalLen_rounds data.length
    have hmac := doOmac_eq aesencrypt uninitialised key h hrounds
    simp only at hmac
    rw [hmac]
    rfl

/-! The blocks of the buffer against the blocks of the message. -/

theorem blocksFrom_concat (dataPadded : Bytes) (j rounds : Nat) :
    blocksFrom dataPadded j (rounds + 1) =
      blocksFrom dataPadded j rounds ++
        [Cmac.bits 16 ((dataPadded.drop (j + 16 * rounds)).take 16)] := by
  rw [blocksFrom, List.range_succ, List.map_append, List.map_singleton, blocksFrom]

/-- Blocks in front of `front`'s end do not depend on what comes behind. -/
theorem blocksFrom_append {front back : Bytes} {rounds : Nat} (h : 16 * rounds ≤ front.length) :
    blocksFrom (front ++ back) 0 rounds = blocksFrom front 0 rounds := by
  apply List.map_congr_left
  intro i hi
  have hi : i < rounds := List.mem_range.mp hi
  have hstart : 0 + 16 * i ≤ front.length := by omega
  have hblock : 16 ≤ (front.drop (0 + 16 * i)).length := by
    rw [List.length_drop]
    omega
  rw [List.drop_append_of_le_length hstart, List.take_append_of_le_length hblock]

theorem blocksFrom_take (data : Bytes) (rounds : Nat) :
    blocksFrom (data.take (16 * rounds)) 0 rounds =
      (List.range rounds).map fun i => Cmac.bits 16 (Cmac.blockAt 16 data i) := by
  apply List.map_congr_left
  intro i hi
  have hi : i < rounds := List.mem_range.mp hi
  have hblock : min 16 (16 * rounds - 16 * i) = 16 := by omega
  rw [Cmac.blockAt, Nat.zero_add, List.drop_take, List.take_take, hblock]

theorem padded_take (data : Bytes) {n : Nat} (h : n ≤ data.length) :
    (padded data).take n = data.take n := by
  unfold padded
  split
  · rfl
  · exact List.take_append_of_le_length h

theorem blockCount_eq {data : Bytes} {rounds : Nat}
    (hrounds : totalLen data.length = 16 * (rounds + 1)) :
    Cmac.blockCount 16 data = rounds + 1 := by
  unfold totalLen at hrounds
  unfold Cmac.blockCount
  split
  · split at hrounds
    · omega
    · omega
  · split at hrounds
    · omega
    · omega

/-- The mask is the subkey that the last block asks for, and the last block is padded
when it is not complete. -/
theorem masked_last (aesencrypt : Block → Block → Block) (key : Block) {data : Bytes}
    {rounds : Nat} (hrounds : totalLen data.length = 16 * (rounds + 1))
    (hfront : 16 * rounds ≤ data.length) (hdata : data.length ≤ 16 * (rounds + 1)) :
    let b := polyDouble (aesencrypt key zeroBlock)
    let xorPad := if totalLen data.length = data.length then b else polyDouble b
    Cmac.bits 16 (List.zipWith (· ^^^ ·) ((padded data).drop (16 * rounds)) xorPad.toList) =
      Cmac.lastBlock (onBits (aesencrypt key)) rb data := by
  intro b xorPad
  have hsubkey1 : toBits b = Cmac.subkey1 (onBits (aesencrypt key)) rb := by
    rw [toBits_polyDouble, Cmac.subkey1, ← toBits_zeroBlock, onBits_toBits]
  have hsubkey2 : toBits (polyDouble b) = Cmac.subkey2 (onBits (aesencrypt key)) rb := by
    rw [toBits_polyDouble, hsubkey1, Cmac.subkey2]
  have hlength : ((padded data).drop (16 * rounds)).length = 16 := by
    rw [List.length_drop, padded_length]
    omega
  have hblock : Cmac.blockAt 16 data (Cmac.blockCount 16 data - 1) = data.drop (16 * rounds) := by
    rw [blockCount_eq hrounds, Nat.add_sub_cancel, Cmac.blockAt]
    apply List.take_of_length_le
    rw [List.length_drop]
    omega
  rw [Cmac.bits_xor hlength Vector.length_toList, Cmac.lastBlock, hblock]
  by_cases hself : totalLen data.length = data.length
  · have hcomplete : Cmac.isComplete 16 data := (totalLen_eq_self_iff _).mp hself
    have hmask : xorPad = b := if_pos hself
    rw [if_pos hcomplete, hmask, ← hsubkey1, padded, if_pos hself, toBits]
  · have hcomplete : ¬ Cmac.isComplete 16 data := mt (totalLen_eq_self_iff _).mpr hself
    have hmask : xorPad = polyDouble b := if_neg hself
    have hpad : (padded data).drop (16 * rounds) = Cmac.pad 16 (data.drop (16 * rounds)) := by
      have hzeros : totalLen data.length - data.length - 1 =
          16 - 1 - (data.length - 16 * rounds) := by omega
      rw [padded, if_neg hself, List.drop_append_of_le_length hfront, Cmac.pad, List.length_drop,
        hzeros]
    rw [if_neg hcomplete, hmask, ← hsubkey2, hpad, toBits]

theorem toBits_doOmac (aesencrypt : Block → Block → Block) (uninitialised : DataPadded)
    (key : Block) {data : Bytes} (h : data.length ≤ 144) :
    ∃ mac, doOmac aesencrypt uninitialised key data = some mac ∧
      toBits mac = Cmac.cmac (onBits (aesencrypt key)) rb data := by
  obtain ⟨rounds, hrounds, hfront, hdata⟩ := totalLen_rounds data.length
  have hlast := masked_last aesencrypt key hrounds hfront hdata
  simp only at hlast
  refine ⟨_, doOmac_eq aesencrypt uninitialised key h hrounds, ?_⟩
  set masked := List.zipWith (· ^^^ ·) ((padded data).drop (16 * rounds)) (if totalLen data.length =
    data.length then polyDouble (aesencrypt key zeroBlock)
    else polyDouble (polyDouble (aesencrypt key zeroBlock))).toList with hmasked
  have hmaskedlength : masked.length = 16 := by
    rw [hmasked, List.length_zipWith, List.length_drop, padded_length, Vector.length_toList]
    omega
  have hfrontlength : ((padded data).take (16 * rounds)).length = 16 * rounds := by
    rw [List.length_take, padded_length]
    omega
  have hblocks : ∀ back : Bytes,
      blocksFrom ((padded data).take (16 * rounds) ++ masked ++ back) 0 (rounds + 1) =
        ((List.range rounds).map fun i => Cmac.bits 16 (Cmac.blockAt 16 data i)) ++
          [Cmac.bits 16 masked] := by
    intro back
    have hdrop : ((padded data).take (16 * rounds) ++ masked ++ back).drop (0 + 16 * rounds) =
        masked ++ back := by
      rw [List.append_assoc, Nat.zero_add]
      exact List.drop_left' hfrontlength
    rw [blocksFrom_concat, hdrop, List.take_left' hmaskedlength, List.append_assoc,
      blocksFrom_append (by omega), padded_take data hfront, blocksFrom_take]
  rw [toBits_chainLoop, hblocks, Cmac.chain_concat, toBits_zeroBlock, hlast, Cmac.cmac,
    blockCount_eq hrounds, Nat.add_sub_cancel]
  simp only [List.length_append, hfrontlength, hmaskedlength]
  omega

/-- The field of the subkeys is the one with the polynomial of CMAC for 128 bits. -/
theorem modulus_rb : Cmac.modulus rb = (X ^ 128 + (X ^ 7 + X ^ 2 + X + 1) : (ZMod 2)[X]) := by
  have hbits : (Finset.range (8 * 16)).filter (fun i => rb.getLsbD i = true) = {7, 2, 1, 0} := by
    decide
  have hpoly : Cmac.poly rb = X ^ 7 + X ^ 2 + X + 1 := by
    rw [Cmac.poly, ← Finset.sum_filter, hbits]
    simp
    ring
  rw [Cmac.modulus, hpoly]

/-- `do_omac` leaves the CMAC of the message, and no write of it leaves its buffer. -/
theorem do_omac_computes_cmac (aesencrypt : Block → Block → Block) (uninitialised : DataPadded)
    (key : Block) {data : Bytes} (h : data.length ≤ 144) :
    let cipher := onBits (aesencrypt key)
    (∃ mac, doOmac aesencrypt uninitialised key data = some mac ∧
      toBits mac = Cmac.cmac cipher rb data) ∧
      Cmac.poly (Cmac.subkey1 cipher rb) =
        (X * Cmac.poly (cipher 0)) %ₘ (X ^ 128 + (X ^ 7 + X ^ 2 + X + 1)) ∧
      Cmac.poly (Cmac.subkey2 cipher rb) =
        (X * Cmac.poly (Cmac.subkey1 cipher rb)) %ₘ (X ^ 128 + (X ^ 7 + X ^ 2 + X + 1)) := by
  intro cipher
  refine ⟨toBits_doOmac aesencrypt uninitialised key h, ?_, ?_⟩
  · rw [← modulus_rb]
    exact Cmac.poly_double (w := 127) rb (cipher 0)
  · rw [← modulus_rb]
    exact Cmac.poly_double (w := 127) rb (Cmac.subkey1 cipher rb)

/-- Any function serves as the cipher. -/
def maskWithKey (key block : Block) : Block := Vector.zipWith (· ^^^ ·) key block

theorem do_omac_computes_cmac_of_five_bytes :
    [(1 : UInt8), 2, 3, 4, 5].length ≤ 144 ∧
      ∃ mac, doOmac maskWithKey (Vector.replicate 150 0xAA) (Vector.replicate 16 0xC0)
          [1, 2, 3, 4, 5] = some mac ∧
        toBits mac = Cmac.cmac (onBits (maskWithKey (Vector.replicate 16 0xC0))) rb
          [1, 2, 3, 4, 5] :=
  ⟨by decide, (do_omac_computes_cmac maskWithKey (Vector.replicate 150 0xAA)
    (Vector.replicate 16 0xC0) (by decide)).1⟩

end CoapEap.Eax
