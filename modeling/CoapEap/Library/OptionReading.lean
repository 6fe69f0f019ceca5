import CoapEap.Library.OptionFormat
import CoapEap.Library.Records

/-!
Reading delta-encoded options back, with numbers that no machine word bounds. A
difference or a length has exactly one form, so an input is read as a sequence of
options and a payload in at most one way, and only when it was written like that.

A codec whose numbers are machine words is checked against this reader: where no
number passes its word, both take the same options from the same bytes.
-/

namespace Library.OptionFormat

open Records

/-- The largest number that a nibble and two bytes stand for. -/
def largest : Nat := 269 + 65535

/-- The number that a nibble and the bytes behind it stand for, and how many bytes
these are. -/
def readNumber (nibble : Nat) (input : Bytes) : Option (Nat × Nat) :=
  if nibble < 13 then some (nibble, 0)
  else if nibble = 13 then
    match input with
    | byte :: _ => some (byte.toNat + 13, 1)
    | [] => none
  else if nibble = 14 then
    match input with
    | high :: low :: _ => some (256 * high.toNat + low.toNat + 269, 2)
    | _ => none
  else none

/-- The option at the front of the input, as its difference and its value, and how
many bytes it takes. -/
def readOption : Bytes → Option ((Nat × Bytes) × Nat)
  | [] => none
  | head :: rest =>
    (readNumber (head.toNat / 16) rest).bind fun delta =>
      (readNumber (head.toNat % 16) (rest.drop delta.2)).bind fun length =>
        let value := rest.drop (delta.2 + length.2)
        if length.1 ≤ value.length then
          some ((delta.1, value.take length.1), 1 + delta.2 + length.2 + length.1)
        else none

/-- The options of an input, each with its number, and the payload behind them. -/
def decodeOptions : Nat → Nat → Bytes → Option (List (Nat × Bytes) × Bytes)
  | 0, _, _ => none
  | fuel + 1, prev, input =>
    if input = [] then some ([], [])
    else if input.headD 0 = 0xFF then
      if input.tail = [] then none else some ([], input.tail)
    else (readOption input).bind fun option =>
      (decodeOptions fuel (prev + option.1.1) (input.drop option.2)).map fun found =>
        ((prev + option.1.1, option.1.2) :: found.1, found.2)

/-- Differences and lengths stay where two extension bytes reach. -/
def Reaching : Nat → List (Nat × Bytes) → Prop
  | _, [] => True
  | prev, (number, value) :: rest =>
    number - prev ≤ largest ∧ value.length ≤ largest ∧ Reaching number rest

variable {n size : Nat} {input rest : Bytes}

theorem reaching_of_le {prev : Nat} {options : List (Nat × Bytes)}
    (h : ∀ option ∈ options, option.1 ≤ largest ∧ option.2.length ≤ largest) :
    Reaching prev options := by
  induction options generalizing prev with
  | nil => trivial
  | cons option options ih =>
      rw [List.forall_mem_cons] at h
      obtain ⟨⟨hnumber, hvalue⟩, hrest⟩ := h
      exact ⟨Nat.le_trans (Nat.sub_le ..) hnumber, hvalue, ih hrest⟩

/-- The three forms of a number. -/
theorem number_forms (h : n ≤ largest) :
    (n < 13 ∧ nibble n = n ∧ extension n = []) ∨
      (nibble n = 13 ∧ ∃ byte : UInt8, extension n = [byte] ∧ byte.toNat + 13 = n) ∨
      (nibble n = 14 ∧ ∃ high low : UInt8, extension n = [high, low] ∧
        256 * high.toNat + low.toNat + 269 = n) := by
  unfold largest at h
  by_cases hshort : n < 269
  · rcases nibble_cases hshort with hsmall | ⟨-, hlarge⟩
    · exact Or.inl hsmall
    · exact Or.inr (Or.inl hlarge)
  · have hbig : ¬ n < 13 := by omega
    refine Or.inr (Or.inr ⟨by simp [nibble, hbig, hshort], UInt8.ofNat ((n - 269) / 256),
      UInt8.ofNat (n - 269), by simp [extension, hbig, hshort], ?_⟩)
    rw [UInt8.toNat_ofNat', UInt8.toNat_ofNat']
    omega

theorem readNumber_extension (h : n ≤ largest) :
    readNumber (nibble n) (extension n ++ rest) = some (n, (extension n).length) := by
  rcases number_forms h with ⟨hsmall, hnibble, hextension⟩ | ⟨hnibble, byte, hextension, hbyte⟩ |
    ⟨hnibble, high, low, hextension, hbytes⟩
  · simp [readNumber, hnibble, hextension, hsmall]
  · simp [readNumber, hnibble, hextension, hbyte]
  · simp [readNumber, hnibble, hextension, hbytes]

/-- One byte behind the nibble is the extension of one number only. -/
theorem extension_byte (byte : UInt8) :
    nibble (byte.toNat + 13) = 13 ∧ extension (byte.toNat + 13) = [byte] := by
  have hlt := UInt8.toNat_lt byte
  have hlarge : ¬ byte.toNat + 13 < 13 := by omega
  have hshort : byte.toNat + 13 < 269 := by omega
  simp [nibble, extension, hlarge, hshort]

theorem extension_bytes (high low : UInt8) :
    nibble (256 * high.toNat + low.toNat + 269) = 14 ∧
      extension (256 * high.toNat + low.toNat + 269) = [high, low] := by
  have hlow := UInt8.toNat_lt low
  have hlarge : ¬ 256 * high.toNat + low.toNat + 269 < 13 := by omega
  have hlong : ¬ 256 * high.toNat + low.toNat + 269 < 269 := by omega
  have hhigh : (256 * high.toNat + low.toNat) / 256 = high.toNat := by omega
  refine ⟨by simp [nibble, hlarge, hlong], ?_⟩
  simp only [extension, if_neg hlarge, if_neg hlong, Nat.add_sub_cancel, hhigh, UInt8.ofNat_toNat,
    List.cons.injEq, and_true, true_and]
  apply UInt8.toNat.inj
  rw [UInt8.toNat_ofNat']
  omega

theorem nibble_small (h : n < 13) : nibble n = n ∧ extension n = [] := by
  simp [nibble, extension, h]

/-- What is read was written as it is written here. -/
theorem readNumber_iff {bits : Nat} : readNumber bits input = some (n, size) ↔
    n ≤ largest ∧ bits = nibble n ∧ size = (extension n).length ∧
      input = extension n ++ input.drop size := by
  constructor
  · intro hread
    unfold readNumber at hread
    unfold largest
    split at hread
    · rename_i hsmall
      simp only [Option.some.injEq, Prod.mk.injEq] at hread
      obtain ⟨rfl, rfl⟩ := hread
      obtain ⟨hnibble, hextension⟩ := nibble_small hsmall
      refine ⟨by omega, hnibble.symm, ?_, ?_⟩
      · rw [hextension, List.length_nil]
      · rw [hextension, List.nil_append, List.drop_zero]
    split at hread
    · rename_i hone
      cases input with
      | nil => simp at hread
      | cons byte rest =>
          simp only [Option.some.injEq, Prod.mk.injEq] at hread
          obtain ⟨rfl, rfl⟩ := hread
          obtain ⟨hnibble, hextension⟩ := extension_byte byte
          have hlt := UInt8.toNat_lt byte
          refine ⟨by omega, by rw [hone, hnibble], ?_, ?_⟩
          · rw [hextension, List.length_singleton]
          · rw [hextension]
            rfl
    split at hread
    · rename_i htwo
      cases input with
      | nil => simp at hread
      | cons high rest =>
          cases rest with
          | nil => simp at hread
          | cons low rest =>
              simp only [Option.some.injEq, Prod.mk.injEq] at hread
              obtain ⟨rfl, rfl⟩ := hread
              obtain ⟨hnibble, hextension⟩ := extension_bytes high low
              have hhigh := UInt8.toNat_lt high
              have hlow := UInt8.toNat_lt low
              refine ⟨by omega, by rw [htwo, hnibble], ?_, ?_⟩
              · rw [hextension]
                rfl
              · rw [hextension]
                rfl
    · simp at hread
  · rintro ⟨hn, rfl, rfl, hinput⟩
    rw [hinput]
    exact readNumber_extension hn

theorem encodeOption_length (delta : Nat) (value : Bytes) :
    (encodeOption delta value).length =
      1 + (extension delta).length + (extension value.length).length + value.length := by
  simp only [encodeOption, List.length_cons, List.length_append]
  omega

theorem value_length_le {prev : Nat} {options : List (Nat × Bytes)} {option : Nat × Bytes}
    (h : option ∈ options) : option.2.length ≤ (encodeOptions prev options).length := by
  induction options generalizing prev with
  | nil => simp at h
  | cons first rest ih =>
      rw [encodeOptions, List.length_append, encodeOption_length]
      rcases List.mem_cons.mp h with rfl | hrest
      · omega
      · have hvalue : option.2.length ≤ (encodeOptions first.1 rest).length := ih hrest
        omega

/-- Options of one number in front of larger ones. -/
theorem ascending_group {prev number : Nat} {group rest : List (Nat × Bytes)}
    (hprev : prev ≤ number) (hgroup : ∀ option ∈ group, option.1 = number)
    (hrest : Ascending number rest) : Ascending prev (group ++ rest) := by
  induction group generalizing prev with
  | nil =>
      cases rest with
      | nil => trivial
      | cons option rest => exact ⟨Nat.le_trans hprev hrest.1, hrest.2⟩
  | cons option group ih =>
      obtain ⟨hnumber, hmore⟩ := List.forall_mem_cons.mp hgroup
      refine ⟨hnumber ▸ hprev, ?_⟩
      rw [hnumber]
      exact ih (Nat.le_refl _) hmore

theorem readOption_encodeOption {delta : Nat} {value : Bytes} (hdelta : delta ≤ largest)
    (hvalue : value.length ≤ largest) :
    readOption (encodeOption delta value ++ rest) =
      some ((delta, value), (encodeOption delta value).length) := by
  have hfirst : readNumber (nibble delta)
      (extension delta ++ (extension value.length ++ (value ++ rest))) =
        some (delta, (extension delta).length) :=
    readNumber_extension hdelta
  have hsecond : readNumber (nibble value.length) (extension value.length ++ (value ++ rest)) =
      some (value.length, (extension value.length).length) :=
    readNumber_extension hvalue
  have hdrop : (extension delta ++ (extension value.length ++ (value ++ rest))).drop
      ((extension delta).length + (extension value.length).length) = value ++ rest := by
    rw [← List.drop_drop, List.drop_left, List.drop_left]
  have hfits : value.length ≤ (value ++ rest).length := by
    rw [List.length_append]
    omega
  rw [encodeOption_length]
  simp only [encodeOption, List.cons_append, List.append_assoc, readOption, header_div, header_mod,
    hfirst, Option.bind_some, List.drop_left, hsecond, hdrop, if_pos hfits, List.take_left]

theorem header_of_nibbles {head : UInt8} {delta len : Nat} (hdelta : head.toNat / 16 = nibble delta)
    (hlen : head.toNat % 16 = nibble len) : head = header delta len := by
  apply UInt8.toNat.inj
  rw [header_toNat]
  omega

/-- The options with their differences are records that the reader delimits. -/
theorem readOption_delimits :
    Delimits readOption (fun option => encodeOption option.1 option.2)
      (fun option => option.1 ≤ largest ∧ option.2.length ≤ largest) where
  reads := fun _ _ hvalid => readOption_encodeOption hvalid.1 hvalid.2
  nonempty := fun option _ => List.length_pos_iff.mp (encodeOption_length_pos option.1 option.2)
  wrote := by
    rintro input ⟨delta, value⟩ n hread
    cases input with
    | nil => simp [readOption] at hread
    | cons head rest =>
        simp only [readOption, Option.bind_eq_some_iff] at hread
        obtain ⟨⟨d, k⟩, hfirst, ⟨len, m⟩, hsecond, hvalue⟩ := hread
        split at hvalue
        · rename_i hfits
          simp only [Option.some.injEq, Prod.mk.injEq] at hvalue
          obtain ⟨⟨rfl, rfl⟩, rfl⟩ := hvalue
          obtain ⟨hd, hdnibble, rfl, hrest⟩ := readNumber_iff.mp hfirst
          obtain ⟨hlen, hlennibble, rfl, hmore⟩ := readNumber_iff.mp hsecond
          have hlength : ((rest.drop ((extension d).length + (extension len).length)).take
              len).length = len := by
            rw [List.length_take]
            exact Nat.min_eq_left hfits
          have hwhole : rest = extension d ++ (extension len ++
              ((rest.drop ((extension d).length + (extension len).length)).take len ++
                (rest.drop ((extension d).length + (extension len).length)).drop len)) := by
            rw [List.take_append_drop, ← List.drop_drop, ← hmore]
            exact hrest
          have hbehind : (head :: rest).drop (1 + (extension d).length + (extension len).length +
              len) = (rest.drop ((extension d).length + (extension len).length)).drop len := by
            have hcount : 1 + (extension d).length + (extension len).length + len =
                (extension d).length + (extension len).length + len + 1 := by omega
            rw [hcount, List.drop_succ_cons, List.drop_drop]
          refine ⟨⟨hd, by rw [hlength]; exact hlen⟩, ?_, ?_⟩
          · rw [encodeOption_length, hlength]
          · rw [hbehind, encodeOption, hlength, ← header_of_nibbles hdnibble hlennibble,
              List.cons_append, List.append_assoc, List.append_assoc]
            congr 1
        · simp at hvalue

theorem headD_encodeOption (delta : Nat) (value rest : Bytes) :
    (encodeOption delta value ++ rest).headD 0 = header delta value.length := rfl

theorem decodeOptions_marked (fuel prev : Nat) (payload : Bytes) :
    decodeOptions (fuel + 1) prev (marked payload) = some ([], payload) := by
  by_cases hpayload : payload = []
  · simp [marked, decodeOptions, hpayload]
  · simp [marked, decodeOptions, hpayload]

theorem decodeOptions_encodeOptions {fuel prev : Nat} {options : List (Nat × Bytes)}
    {payload : Bytes} (hascending : Ascending prev options) (hreaching : Reaching prev options)
    (hfuel : options.length < fuel) :
    decodeOptions fuel prev (encodeOptions prev options ++ marked payload) =
      some (options, payload) := by
  induction options generalizing fuel prev with
  | nil =>
      obtain ⟨fuel, rfl⟩ : ∃ k, fuel = k + 1 := ⟨fuel - 1, by simp at hfuel; omega⟩
      exact decodeOptions_marked fuel prev payload
  | cons option rest ih =>
      obtain ⟨number, value⟩ := option
      obtain ⟨hle, hrest⟩ := hascending
      obtain ⟨hdelta, hvalue, hmore⟩ := hreaching
      obtain ⟨fuel, rfl⟩ : ∃ k, fuel = k + 1 := ⟨fuel - 1, by simp at hfuel; omega⟩
      have hnumber : prev + (number - prev) = number := by omega
      have hbehind := ih hrest hmore (by simpa using hfuel)
      have hne : ¬ encodeOption (number - prev) value ++
          (encodeOptions number rest ++ marked payload) = [] := by
        simp [encodeOption]
      have hmarker : ¬ (encodeOption (number - prev) value ++
          (encodeOptions number rest ++ marked payload)).headD 0 = 0xFF := by
        rw [headD_encodeOption]
        exact header_ne_marker _ _
      rw [encodeOptions, List.append_assoc, decodeOptions, if_neg hne, if_neg hmarker,
        readOption_encodeOption hdelta hvalue]
      simp only [Option.bind_some, List.drop_left, hnumber, hbehind, Option.map_some]

/-- The reader takes options and a payload exactly from the bytes that are written
for them. -/
theorem decodeOptions_iff {fuel prev : Nat} {options : List (Nat × Bytes)} {payload : Bytes}
    (hfuel : input.length < fuel) :
    decodeOptions fuel prev input = some (options, payload) ↔
      Ascending prev options ∧ Reaching prev options ∧
        input = encodeOptions prev options ++ marked payload := by
  constructor
  · intro hread
    clear hfuel
    induction fuel generalizing prev input options with
    | zero => simp [decodeOptions] at hread
    | succ fuel ih =>
        rw [decodeOptions] at hread
        split at hread
        · rename_i hempty
          simp only [Option.some.injEq, Prod.mk.injEq] at hread
          obtain ⟨rfl, rfl⟩ := hread
          exact ⟨trivial, trivial, by simp [hempty, encodeOptions, marked]⟩
        split at hread
        · rename_i hne hmarker
          split at hread
          · simp at hread
          · rename_i hpayload
            simp only [Option.some.injEq, Prod.mk.injEq] at hread
            obtain ⟨rfl, rfl⟩ := hread
            refine ⟨trivial, trivial, ?_⟩
            rw [encodeOptions, List.nil_append, marked, if_neg hpayload]
            cases input with
            | nil => exact absurd rfl hne
            | cons first rest =>
                have hfirst : first = 0xFF := hmarker
                rw [hfirst, List.tail_cons]
        · simp only [Option.bind_eq_some_iff, Option.map_eq_some_iff, Prod.mk.injEq] at hread
          obtain ⟨⟨⟨delta, value⟩, size⟩, hoption, ⟨more, _⟩, hmore, rfl, rfl⟩ := hread
          obtain ⟨⟨hdelta, hvalue⟩, -, hinput⟩ := readOption_delimits.wrote _ _ _ hoption
          obtain ⟨hascending, hreaching, hbehind⟩ := ih hmore
          refine ⟨⟨Nat.le_add_right .., hascending⟩, ⟨?_, hvalue, hreaching⟩, ?_⟩
          · rw [Nat.add_sub_cancel_left]
            exact hdelta
          · rw [encodeOptions, Nat.add_sub_cancel_left, List.append_assoc, ← hbehind]
            exact hinput
  · rintro ⟨hascending, hreaching, rfl⟩
    have hcount := length_le_encodeOptions prev options
    rw [List.length_append] at hfuel
    exact decodeOptions_encodeOptions hascending hreaching (by omega)

end Library.OptionFormat
