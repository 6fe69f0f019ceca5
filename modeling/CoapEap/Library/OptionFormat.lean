import Mathlib.Tactic.Common

/-!
Delta-encoded options. An option is a number and a value; a sequence is written
in ascending order of number, each option as a header byte that holds the
difference to the previous number and the length of the value, four bits each,
with one or two extension bytes for either where four bits do not reach.

The module is about the format alone. A codec of this format is checked by
showing that its writer produces `encodeOptions` and that its reader, given one
encoded option in front of any rest, takes exactly that option.
-/

namespace Library.OptionFormat

abbrev Bytes := List UInt8

/-- The four bits that stand for a difference or a length in the header. -/
def nibble (n : Nat) : Nat := if n < 13 then n else if n < 269 then 13 else 14

/-- The bytes after the header that complete a difference or a length. -/
def extension (n : Nat) : Bytes :=
  if n < 13 then []
  else if n < 269 then [UInt8.ofNat (n - 13)]
  else [UInt8.ofNat ((n - 269) / 256), UInt8.ofNat (n - 269)]

/-- The header byte of an option. -/
def header (delta len : Nat) : UInt8 := UInt8.ofNat (16 * nibble delta + nibble len)

def encodeOption (delta : Nat) (value : Bytes) : Bytes :=
  header delta value.length :: (extension delta ++ extension value.length ++ value)

/-- The options in order, each relative to the number before it. -/
def encodeOptions : Nat → List (Nat × Bytes) → Bytes
  | _, [] => []
  | prev, (number, value) :: rest =>
    encodeOption (number - prev) value ++ encodeOptions number rest

/-- The payload as it stands behind the options. -/
def marked (payload : Bytes) : Bytes := if payload = [] then [] else 0xFF :: payload

/-- The numbers never decrease and start at or above `prev`. -/
def Ascending : Nat → List (Nat × Bytes) → Prop
  | _, [] => True
  | prev, (number, _) :: rest => prev ≤ number ∧ Ascending number rest

/-- Differences and lengths stay where one extension byte reaches. -/
def Short : Nat → List (Nat × Bytes) → Prop
  | _, [] => True
  | prev, (number, value) :: rest =>
    number - prev < 269 ∧ value.length < 269 ∧ Short number rest

theorem nibble_lt (n : Nat) : nibble n < 15 := by
  unfold nibble
  split
  · omega
  · split <;> omega

theorem nibble_short {n : Nat} (h : n < 269) : nibble n < 14 := by
  unfold nibble
  split
  · omega
  · simp

@[simp] theorem header_toNat (delta len : Nat) :
    (header delta len).toNat = 16 * nibble delta + nibble len := by
  have hd := nibble_lt delta
  have hl := nibble_lt len
  simp only [header, UInt8.toNat_ofNat']
  omega

theorem header_div (delta len : Nat) : (header delta len).toNat / 16 = nibble delta := by
  have hl := nibble_lt len
  rw [header_toNat]
  omega

theorem header_mod (delta len : Nat) : (header delta len).toNat % 16 = nibble len := by
  have hl := nibble_lt len
  rw [header_toNat]
  omega

/-- The header of an option is never the byte that announces a payload. -/
theorem header_ne_marker (delta len : Nat) : header delta len ≠ 0xFF := by
  intro h
  have hvalue := congrArg UInt8.toNat h
  have hd := nibble_lt delta
  have hl := nibble_lt len
  rw [header_toNat] at hvalue
  simp only [UInt8.reduceToNat] at hvalue
  omega

/-- Within one extension byte, the nibble and the byte give the number back. -/
theorem nibble_cases {n : Nat} (h : n < 269) :
    (n < 13 ∧ nibble n = n ∧ extension n = []) ∨
      (13 ≤ n ∧ nibble n = 13 ∧ ∃ b : UInt8, extension n = [b] ∧ b.toNat + 13 = n) := by
  by_cases hsmall : n < 13
  · left
    simp [hsmall, nibble, extension]
  · right
    refine ⟨Nat.le_of_not_lt hsmall, by simp [nibble, hsmall, h], UInt8.ofNat (n - 13), ?_, ?_⟩
    · simp [extension, hsmall, h]
    · rw [UInt8.toNat_ofNat']
      omega

theorem encodeOption_length_pos (delta : Nat) (value : Bytes) :
    0 < (encodeOption delta value).length := by
  simp [encodeOption]

/-- The number that the next option is relative to. -/
def lastNumber (prev : Nat) (options : List (Nat × Bytes)) : Nat :=
  (options.getLast?.map Prod.fst).getD prev

@[simp] theorem lastNumber_nil (prev : Nat) : lastNumber prev [] = prev := rfl

@[simp] theorem lastNumber_append_singleton (prev : Nat) (options : List (Nat × Bytes))
    (option : Nat × Bytes) : lastNumber prev (options ++ [option]) = option.1 := by
  simp [lastNumber]

theorem lastNumber_cons (prev : Nat) (option : Nat × Bytes) (rest : List (Nat × Bytes)) :
    lastNumber prev (option :: rest) = lastNumber option.1 rest := by
  cases rest with
  | nil => rfl
  | cons option' rest =>
    cases h : (option' :: rest).getLast? with
    | none => simp at h
    | some last => simp [lastNumber, List.getLast?_cons_cons, h]

theorem lastNumber_mem (prev : Nat) {options : List (Nat × Bytes)} (h : options ≠ []) :
    ∃ o ∈ options, lastNumber prev options = o.1 := by
  refine ⟨options.getLast h, List.getLast_mem h, ?_⟩
  simp [lastNumber, List.getLast?_eq_some_getLast h]

theorem encodeOptions_append {prev : Nat} {first second : List (Nat × Bytes)} :
    encodeOptions prev (first ++ second) =
      encodeOptions prev first ++ encodeOptions (lastNumber prev first) second := by
  induction first generalizing prev with
  | nil => simp [encodeOptions]
  | cons option rest ih =>
    obtain ⟨number, value⟩ := option
    rw [List.cons_append, encodeOptions, encodeOptions, ih, lastNumber_cons, List.append_assoc]

theorem short_append {prev : Nat} {first second : List (Nat × Bytes)} :
    Short prev (first ++ second) ↔ Short prev first ∧ Short (lastNumber prev first) second := by
  induction first generalizing prev with
  | nil => simp [Short]
  | cons option rest ih =>
    obtain ⟨number, value⟩ := option
    rw [List.cons_append, Short, Short, ih, lastNumber_cons]
    tauto

theorem ascending_append {prev : Nat} {first second : List (Nat × Bytes)} :
    Ascending prev (first ++ second) ↔
      Ascending prev first ∧ Ascending (lastNumber prev first) second := by
  induction first generalizing prev with
  | nil => simp [Ascending]
  | cons option rest ih =>
    obtain ⟨number, value⟩ := option
    rw [List.cons_append, Ascending, Ascending, ih, lastNumber_cons]
    tauto

/-- A sequence may start at any number that none of its options is below. -/
theorem ascending_of_larger {prev number : Nat} {options : List (Nat × Bytes)}
    (h : Ascending prev options) (hlarger : ∀ o ∈ options, number ≤ o.1) :
    Ascending number options := by
  cases options with
  | nil => trivial
  | cons option rest => exact ⟨hlarger option (List.mem_cons_self ..), h.2⟩

/-- Options of one number. -/
theorem short_map {prev number : Nat} (hnumber : number < 269) {values : List Bytes}
    (hvalues : ∀ v ∈ values, v.length < 269) : Short prev (values.map fun v => (number, v)) := by
  induction values generalizing prev with
  | nil => trivial
  | cons value rest ih =>
    refine ⟨by omega, hvalues value (List.mem_cons_self ..), ?_⟩
    exact ih fun v hv => hvalues v (List.mem_cons_of_mem _ hv)

theorem ascending_map {prev number : Nat} (hnumber : prev ≤ number) (values : List Bytes) :
    Ascending prev (values.map fun v => (number, v)) := by
  induction values generalizing prev with
  | nil => trivial
  | cons value rest ih => exact ⟨hnumber, ih (Nat.le_refl _)⟩

theorem length_le_encodeOptions (prev : Nat) (options : List (Nat × Bytes)) :
    options.length ≤ (encodeOptions prev options).length := by
  induction options generalizing prev with
  | nil => simp
  | cons option rest ih =>
    obtain ⟨number, value⟩ := option
    have hpos := encodeOption_length_pos (number - prev) value
    have hrest := ih number
    rw [encodeOptions, List.length_append, List.length_cons]
    omega

end Library.OptionFormat
