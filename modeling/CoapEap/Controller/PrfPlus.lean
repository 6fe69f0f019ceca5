import CoapEap.Bytes
import CoapEap.Library.Buffer

/-!
The expansion of a key (`prf_plus.c`). The keyed hash is a parameter, and `result`
is the memory around the pointer that the caller gives.

Lengths are `u16` and the counter of the rounds is a `u8`. The loop has no result
when it is still running after the given number of rounds.
-/

open Library

namespace CoapEap.PrfPlus

section

variable {prfSize : Nat} (hmac : Bytes → Bytes → Vector UInt8 prfSize)

/-- `PRF`: the hash over `sequence_length` bytes of a buffer. -/
def prf (key sequence : Bytes) (sequenceLength : Nat) : Vector UInt8 prfSize :=
  hmac key (sequence.take (sequenceLength % 65536))

/-- The variables of the loop of `PRF_plus`. -/
structure Chaining (prfSize : Nat) where
  newSequence : Bytes
  temp : Vector UInt8 prfSize
  result : Int → UInt8

/-- One round, which puts `T | S | current_iter` together where the last round had it. -/
def prfPlusRound (key sequence : Bytes) (currentIter : UInt8) (s : Chaining prfSize) :
    Option (Chaining prfSize) := do
  let newSequence ← Buffer.write s.newSequence 0 s.temp.toList
  let newSequence ← Buffer.write newSequence prfSize sequence
  let newSequence ← Buffer.write newSequence (prfSize + sequence.length) [currentIter]
  let temp := prf hmac key newSequence (sequence.length + prfSize + 1)
  let offset : Int := ((currentIter.toNat : Int) - 1) * prfSize
  some { newSequence, temp, result := Buffer.store s.result offset temp.toList }

def prfPlusLoop (iter : UInt8) (key sequence : Bytes) :
    (rounds : Nat) → (currentIter : UInt8) → Chaining prfSize → Option (Chaining prfSize)
  | 0, _, _ => none
  | rounds + 1, currentIter, s =>
    if currentIter ≤ iter then do
      let s ← prfPlusRound hmac key sequence currentIter s
      prfPlusLoop iter key sequence rounds (currentIter + 1) s
    else some s

/-- `PRF_plus`: the memory around `result` as it leaves it. What `malloc` gives for
`new_sequence` is `fresh`. -/
def prfPlus (fresh : Nat → UInt8) (rounds : Nat) (iter : UInt8) (key sequence : Bytes)
    (result : Int → UInt8) : Option (Int → UInt8) := do
  let newSequence := (List.range (prfSize + sequence.length + 1)).map fresh
  let newSequence ← Buffer.write newSequence 0 sequence
  let newSequence ← Buffer.write newSequence sequence.length [1]
  let temp := prf hmac key newSequence (sequence.length + 1)
  let result := Buffer.store result 0 temp.toList
  let s ← prfPlusLoop hmac iter key sequence rounds 2 { newSequence, temp, result }
  some s.result

/-! What `prf+` is meant to be. -/

/-- `T1 = prf(K, S | 1)` and `Tn = prf(K, T(n-1) | S | n)`; in front of `T1` is nothing. -/
def block (key seed : Bytes) : Nat → Bytes
  | 0 => []
  | n + 1 => (hmac key (block key seed n ++ seed ++ [UInt8.ofNat (n + 1)])).toList

/-- `T1 | T2 | ... | Tn`. -/
def expansion (key seed : Bytes) : Nat → Bytes
  | 0 => []
  | n + 1 => expansion key seed n ++ block hmac key seed (n + 1)

theorem block_length (key seed : Bytes) (n : Nat) :
    (block hmac key seed (n + 1)).length = prfSize := Vector.length_toList

theorem expansion_length (key seed : Bytes) (n : Nat) :
    (expansion hmac key seed n).length = n * prfSize := by
  induction n with
  | zero => simp [expansion]
  | succ n ih => rw [expansion, List.length_append, ih, block_length, Nat.succ_mul]

/-- What stands between two rounds: `n` blocks are out, the last one is in `temp`, and the
buffer has room for the next input. -/
structure Chained (key sequence : Bytes) (result : Int → UInt8) (n : Nat)
    (s : Chaining prfSize) : Prop where
  room : s.newSequence.length = prfSize + sequence.length + 1
  temp : s.temp.toList = block hmac key sequence n
  result : s.result = Buffer.store result 0 (expansion hmac key sequence n)

variable {hmac} {key sequence : Bytes} {result : Int → UInt8}

theorem prf_eq {n : Nat} {input rest : Bytes} (hlength : input.length = n) (hn : n < 65536) :
    prf hmac key (input ++ rest) n = hmac key input := by
  rw [prf, Nat.mod_eq_of_lt hn, List.take_left' hlength]

/-- A block goes right behind the blocks that are out. -/
theorem store_block (n : Nat) :
    Buffer.store (Buffer.store result 0 (expansion hmac key sequence n)) (n * prfSize)
        (block hmac key sequence (n + 1)) =
      Buffer.store result 0 (expansion hmac key sequence (n + 1)) := by
  have hstart : ((n : Int) * prfSize) = 0 + (expansion hmac key sequence n).length := by
    rw [expansion_length]
    simp
  rw [hstart, Buffer.store_append, expansion]

theorem Chained.round {n : Nat} {currentIter : UInt8} {s : Chaining prfSize}
    (hs : Chained hmac key sequence result n s) (hcount : currentIter.toNat = n + 1)
    (hsize : prfSize + sequence.length + 1 < 65536) :
    ∃ t, prfPlusRound hmac key sequence currentIter s = some t ∧
      Chained hmac key sequence result (n + 1) t := by
  have htemp : s.temp.toList.length = prfSize := Vector.length_toList
  have hroom := hs.room
  let afterTemp := s.newSequence.drop prfSize
  let afterSequence := afterTemp.drop sequence.length
  let afterCount := afterSequence.drop 1
  have hfirst : Buffer.write s.newSequence 0 s.temp.toList = some (s.temp.toList ++ afterTemp) := by
    have hfits : s.temp.toList.length ≤ s.newSequence.length := by omega
    have hwrite := Buffer.write_behind [] hfits
    rw [htemp] at hwrite
    exact hwrite
  have hsecond : Buffer.write (s.temp.toList ++ afterTemp) prfSize sequence =
      some (s.temp.toList ++ sequence ++ afterSequence) := by
    have hfits : sequence.length ≤ afterTemp.length := by
      rw [List.length_drop]
      omega
    have hwrite := Buffer.write_behind s.temp.toList hfits
    rw [htemp] at hwrite
    exact hwrite
  have hthird : Buffer.write (s.temp.toList ++ sequence ++ afterSequence)
      (prfSize + sequence.length) [currentIter] =
        some (s.temp.toList ++ sequence ++ [currentIter] ++ afterCount) := by
    have hfits : [currentIter].length ≤ afterSequence.length := by
      rw [List.length_drop, List.length_drop, List.length_singleton]
      omega
    have hwrite := Buffer.write_behind (s.temp.toList ++ sequence) hfits
    rw [List.length_append, htemp] at hwrite
    exact hwrite
  have hinput : (s.temp.toList ++ sequence ++ [currentIter]).length =
      sequence.length + prfSize + 1 := by
    rw [List.length_append, List.length_append, htemp, List.length_singleton]
    omega
  have hblock : (prf hmac key (s.temp.toList ++ sequence ++ [currentIter] ++ afterCount)
      (sequence.length + prfSize + 1)).toList = block hmac key sequence (n + 1) := by
    have hcounter : UInt8.ofNat (n + 1) = currentIter := by
      rw [← hcount, UInt8.ofNat_toNat]
    rw [prf_eq hinput (by omega), block, hcounter, hs.temp]
  have hoffset : ((currentIter.toNat : Int) - 1) * prfSize = n * prfSize := by
    rw [hcount]
    simp
  let input := s.temp.toList ++ sequence ++ [currentIter] ++ afterCount
  let temp := prf hmac key input (sequence.length + prfSize + 1)
  let t : Chaining prfSize :=
    { newSequence := input, temp
      result := Buffer.store s.result (((currentIter.toNat : Int) - 1) * prfSize) temp.toList }
  have hround : prfPlusRound hmac key sequence currentIter s = some t := by
    simp only [prfPlusRound, hfirst, hsecond, hthird, Option.bind_eq_bind, Option.bind_some, t,
      temp, input]
  have hlength : input.length = prfSize + sequence.length + 1 := by
    rw [List.length_append, hinput, List.length_drop, List.length_drop, List.length_drop]
    omega
  have hresult : t.result =
      Buffer.store result 0 (expansion hmac key sequence (n + 1)) := by
    simp only [t, temp, input, hblock, hoffset, hs.result, store_block]
  exact ⟨t, hround, hlength, hblock, hresult⟩

variable (hmac) in
/-- In front of the first round the first block is out. -/
theorem prfPlus_eq (key sequence : Bytes) (result : Int → UInt8) (fresh : Nat → UInt8)
    (rounds : Nat) (iter : UInt8) (hsize : prfSize + sequence.length + 1 < 65536) :
    ∃ s : Chaining prfSize, Chained hmac key sequence result 1 s ∧
      prfPlus hmac fresh rounds iter key sequence result =
        (prfPlusLoop hmac iter key sequence rounds 2 s).map Chaining.result := by
  let memory := (List.range (prfSize + sequence.length + 1)).map fresh
  have hmemory : memory.length = prfSize + sequence.length + 1 := by
    rw [List.length_map, List.length_range]
  have hfirst : Buffer.write memory 0 sequence =
      some (sequence ++ memory.drop sequence.length) := by
    have hfits : sequence.length ≤ memory.length := by omega
    exact Buffer.write_behind [] hfits
  have hsecond : Buffer.write (sequence ++ memory.drop sequence.length) sequence.length [1] =
      some (sequence ++ [1] ++ (memory.drop sequence.length).drop 1) := by
    have hfits : [(1 : UInt8)].length ≤ (memory.drop sequence.length).length := by
      rw [List.length_drop, List.length_singleton]
      omega
    exact Buffer.write_behind sequence hfits
  have hinput : (sequence ++ [(1 : UInt8)]).length = sequence.length + 1 := by simp
  let input := sequence ++ [1] ++ (memory.drop sequence.length).drop 1
  let temp := prf hmac key input (sequence.length + 1)
  have hblock : temp.toList = block hmac key sequence 1 := by
    simp only [temp, input]
    rw [prf_eq hinput (by omega)]
    rfl
  have hlength : input.length = prfSize + sequence.length + 1 := by
    rw [List.length_append, hinput, List.length_drop, List.length_drop]
    omega
  have hresult : Buffer.store result 0 temp.toList =
      Buffer.store result 0 (expansion hmac key sequence 1) := by
    rw [hblock]
    rfl
  refine ⟨⟨input, temp, Buffer.store result 0 temp.toList⟩, ⟨hlength, hblock, hresult⟩, ?_⟩
  simp only [prfPlus]
  change (Buffer.write memory 0 sequence).bind _ = _
  simp only [hfirst, hsecond, Option.bind_eq_bind, Option.bind_some, Option.map_eq_bind]
  rfl

theorem Chained.loop {n : Nat} {iter currentIter : UInt8} {s : Chaining prfSize} (left : Nat)
    (hs : Chained hmac key sequence result n s) (hcount : currentIter.toNat = n + 1)
    (hleft : n + left = iter.toNat) (hiter : iter.toNat < 255)
    (hsize : prfSize + sequence.length + 1 < 65536) :
    ∃ t, prfPlusLoop hmac iter key sequence (left + 1) currentIter s = some t ∧
      Chained hmac key sequence result iter.toNat t := by
  induction left generalizing n currentIter s with
  | zero =>
    have hend : ¬ currentIter ≤ iter := by
      rw [UInt8.le_iff_toNat_le]
      omega
    have hn : n = iter.toNat := by omega
    rw [prfPlusLoop, if_neg hend]
    exact ⟨s, rfl, hn ▸ hs⟩
  | succ left ih =>
    have hagain : currentIter ≤ iter := by
      rw [UInt8.le_iff_toNat_le]
      omega
    obtain ⟨t, hround, ht⟩ := hs.round hcount hsize
    have hnext : (currentIter + 1).toNat = n + 1 + 1 := by
      rw [UInt8.toNat_add, hcount]
      exact Nat.mod_eq_of_lt (show n + 1 + 1 < 256 by omega)
    have hrest : n + 1 + left = iter.toNat := by omega
    obtain ⟨u, hloop, hu⟩ := ih ht hnext hrest
    refine ⟨u, ?_, hu⟩
    rw [prfPlusLoop, if_pos hagain]
    simp only [hround, Option.bind_eq_bind, Option.bind_some, hloop]

variable (hmac)

/-- No counter is behind the greatest bound. -/
theorem prfPlusLoop_greatest (rounds : Nat) (currentIter : UInt8) (s : Chaining prfSize) :
    prfPlusLoop hmac 255 key sequence rounds currentIter s = none := by
  induction rounds generalizing currentIter s with
  | zero => rfl
  | succ rounds ih =>
    have hagain : currentIter ≤ 255 := by
      rw [UInt8.le_iff_toNat_le]
      exact Nat.le_of_lt_succ (UInt8.toNat_lt currentIter)
    rw [prfPlusLoop, if_pos hagain]
    cases prfPlusRound hmac key sequence currentIter s with
    | none => rfl
    | some t => exact ih (currentIter + 1) t

/-- `PRF_plus` ends with the blocks of `prf+` and nothing else in `result` where its counter
can get behind its bound. -/
theorem prfPlus_ends_iff (fresh : Nat → UInt8) (iter : UInt8) (key sequence : Bytes)
    (result : Int → UInt8) (hiter : 1 ≤ iter) (hsize : prfSize + sequence.length + 1 < 65536) :
    (∃ rounds, prfPlus hmac fresh rounds iter key sequence result =
        some (Buffer.store result 0 (expansion hmac key sequence iter.toNat))) ↔
      iter ≠ 255 := by
  constructor
  · rintro ⟨rounds, hends⟩ rfl
    obtain ⟨s, -, heq⟩ := prfPlus_eq hmac key sequence result fresh rounds 255 hsize
    rw [heq, prfPlusLoop_greatest] at hends
    cases hends
  · intro hne
    have hfirst : 1 ≤ iter.toNat := UInt8.le_iff_toNat_le.mp hiter
    have hlast : iter.toNat < 255 := by
      have hlt := UInt8.toNat_lt iter
      have hne' : iter.toNat ≠ 255 := fun heq => hne (UInt8.toNat.inj heq)
      omega
    have hleft : 1 + (iter.toNat - 1) = iter.toNat := by omega
    obtain ⟨s, hs, heq⟩ := prfPlus_eq hmac key sequence result fresh
      (iter.toNat - 1 + 1) iter hsize
    have htwo : (2 : UInt8).toNat = 1 + 1 := rfl
    obtain ⟨t, hloop, ht⟩ := hs.loop (iter.toNat - 1) htwo hleft hlast hsize
    refine ⟨iter.toNat - 1 + 1, ?_⟩
    rw [heq, hloop, Option.map_some, ht.result]

end

/-- A hash of four bytes that tells inputs of different lengths apart. -/
def lengthHash (key input : Bytes) : Vector UInt8 4 :=
  #v[0, UInt8.ofNat key.length, UInt8.ofNat (input.length / 256), UInt8.ofNat input.length]

/-- Three blocks of four bytes over a seed of two. -/
theorem expands_to_three_blocks : (1 : UInt8) ≤ 3 ∧ 4 + [0x0a, 0x0b].length + 1 < 65536 ∧
    ∃ rounds, prfPlus lengthHash (fun _ => 0xcc) rounds 3 [7] [0x0a, 0x0b] (fun _ => 0) =
      some (Buffer.store (fun _ => 0) 0 (expansion lengthHash [7] [0x0a, 0x0b] 3)) := by
  refine ⟨by decide, by decide, ?_⟩
  apply (prfPlus_ends_iff lengthHash (fun _ => 0xcc) 3 [7] [0x0a, 0x0b] (fun _ => 0)
    (by decide) (by decide)).mpr
  decide

/-- A bound of 255 is never left behind. -/
theorem greatest_bound_never_ends : ¬ ∀ iter : UInt8, 1 ≤ iter →
    ∃ rounds, prfPlus lengthHash (fun _ => 0xcc) rounds iter [7] [0x0a, 0x0b] (fun _ => 0) =
      some (Buffer.store (fun _ => 0) 0 (expansion lengthHash [7] [0x0a, 0x0b] iter.toNat)) := by
  intro h
  obtain ⟨rounds, hends⟩ := h 255 (by decide)
  obtain ⟨s, -, heq⟩ := prfPlus_eq lengthHash [7] [0x0a, 0x0b] (fun _ => 0) (fun _ => 0xcc) rounds
    255 (show 4 + [0x0a, 0x0b].length + 1 < 65536 by decide)
  rw [heq, prfPlusLoop_greatest] at hends
  cases hends

end CoapEap.PrfPlus
