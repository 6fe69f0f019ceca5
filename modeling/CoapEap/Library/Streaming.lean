import Mathlib.Tactic.Common

/-!
A list worked on in blocks while it arrives in pieces. What is left of one piece waits
for the next; where the pieces are cut makes no difference to the blocks.
-/

namespace Library.Streaming

variable {α σ : Type}

/-- The full blocks of a list taken into a state one after the other, and the rest. -/
def absorb (step : σ → List α → σ) (n : Nat) : Nat → σ → List α → σ × List α
  | 0, state, data => (state, data)
  | fuel + 1, state, data =>
    if n ≤ data.length then absorb step n fuel (step state (data.take n)) (data.drop n)
    else (state, data)

/-- As many rounds as there can be full blocks. -/
def absorbAll (step : σ → List α → σ) (n : Nat) (state : σ) (data : List α) : σ × List α :=
  absorb step n data.length state data

variable {step : σ → List α → σ} {n fuel : Nat} {state : σ} {data more : List α}

theorem absorb_short (h : data.length < n) (fuel : Nat) (state : σ) :
    absorb step n fuel state data = (state, data) := by
  cases fuel with
  | zero => rfl
  | succ fuel => rw [absorb, if_neg (Nat.not_le.mpr h)]

theorem absorbAll_short (h : data.length < n) (state : σ) :
    absorbAll step n state data = (state, data) :=
  absorb_short h data.length state

section Blocks

variable (hn : 0 < n)
include hn

/-- A list is shorter than a block, or a block and a list after it. -/
theorem blockInduction {motive : List α → Prop}
    (short : ∀ data, data.length < n → motive data)
    (block : ∀ block data, block.length = n → motive data → motive (block ++ data))
    (data : List α) : motive data := by
  induction h : data.length using Nat.strongRecOn generalizing data with
  | ind len ih =>
    by_cases hblock : n ≤ data.length
    · rw [← List.take_append_drop n data]
      apply block
      · rw [List.length_take, Nat.min_eq_left hblock]
      · apply ih (data.drop n).length _ _ rfl
        rw [List.length_drop]
        omega
    · exact short data (Nat.lt_of_not_le hblock)

/-- More rounds than there are blocks change nothing. -/
theorem absorb_fuel {rounds : Nat} (hfuel : data.length ≤ fuel) (hrounds : data.length ≤ rounds) :
    absorb step n fuel state data = absorb step n rounds state data := by
  induction data using blockInduction hn generalizing fuel rounds state with
  | short data hshort => rw [absorb_short hshort, absorb_short hshort]
  | block block data hlength ih =>
    rw [List.length_append] at hfuel hrounds
    obtain ⟨fuel, rfl⟩ : ∃ rest, fuel = rest + 1 := ⟨fuel - 1, by omega⟩
    obtain ⟨rounds, rfl⟩ : ∃ rest, rounds = rest + 1 := ⟨rounds - 1, by omega⟩
    have hdrop : (block ++ data).drop n = data := by rw [← hlength, List.drop_left]
    have hfuel : data.length ≤ fuel := by omega
    have hrounds : data.length ≤ rounds := by omega
    rw [absorb, absorb, hdrop, ih hfuel hrounds]

/-- A block that stands in front is taken first. -/
theorem absorbAll_block {block : List α} (hblock : block.length = n) (state : σ)
    (data : List α) :
    absorbAll step n state (block ++ data) = absorbAll step n (step state block) data := by
  obtain ⟨len, hlen⟩ : ∃ len, (block ++ data).length = len + 1 :=
    ⟨(block ++ data).length - 1, by
      rw [List.length_append]
      omega⟩
  have hfull : n ≤ (block ++ data).length := by
    rw [List.length_append]
    omega
  have hrest : data.length ≤ len := by
    rw [List.length_append] at hlen
    omega
  have htake : (block ++ data).take n = block := by rw [← hblock, List.take_left]
  have hdrop : (block ++ data).drop n = data := by rw [← hblock, List.drop_left]
  rw [absorbAll, hlen, absorb, if_pos hfull, htake, hdrop, absorbAll,
    absorb_fuel hn hrest (Nat.le_refl _)]

/-- What is left is the end of the list behind its full blocks. -/
theorem absorbAll_rest_length (step : σ → List α → σ) (state : σ) (data : List α) :
    (absorbAll step n state data).2.length = data.length % n := by
  induction data using blockInduction hn generalizing state with
  | short data hshort => rw [absorbAll_short hshort, Nat.mod_eq_of_lt hshort]
  | block block data hlength ih =>
    rw [absorbAll_block hn hlength, ih, List.length_append, hlength, Nat.add_mod_left]

/-- What arrives later is taken behind what was left. -/
theorem absorbAll_append (step : σ → List α → σ) (state : σ) (data more : List α) :
    absorbAll step n state (data ++ more) =
      absorbAll step n (absorbAll step n state data).1
        ((absorbAll step n state data).2 ++ more) := by
  induction data using blockInduction hn generalizing state with
  | short data hshort => rw [absorbAll_short hshort]
  | block block data hlength ih =>
    rw [List.append_assoc, absorbAll_block hn hlength, absorbAll_block hn hlength, ih]

end Blocks

end Library.Streaming
