import Mathlib.Tactic.Common

/-!
Records that say where they end, written one after the other. A reader takes the
record at the front of its input and says how many cells it took; a loop around it
reads the whole input or nothing.

When the reader takes exactly what the writer wrote, the loop accepts an input
exactly when it is the concatenation of written records, and gives these records.
-/

namespace Library.Records

variable {α Record : Type}

/-- The records of an input from its front to its end. Every round takes at least
one cell, so `fuel` rounds are enough for an input shorter than `fuel`. -/
def readAll (read : List α → Option (Record × Nat)) : Nat → List α → Option (List Record)
  | 0, _ => none
  | fuel + 1, input =>
    if input.length = 0 then some []
    else (read input).bind fun found =>
      (readAll read fuel (input.drop found.2)).map (found.1 :: ·)

/-- The positions at which the records start that `readAll` reads. -/
def readStarts (read : List α → Option (Record × Nat)) :
    Nat → Nat → List α → Option (List Nat)
  | 0, _, _ => none
  | fuel + 1, start, input =>
    if input.length = 0 then some []
    else (read input).bind fun found =>
      (readStarts read fuel (start + found.2) (input.drop found.2)).map (start :: ·)

def writeAll (write : Record → List α) (records : List Record) : List α :=
  (records.map write).flatten

/-- The positions at which records start that are written from `start` on. -/
def starts (write : Record → List α) : Nat → List Record → List Nat
  | _, [] => []
  | start, record :: records => start :: starts write (start + (write record).length) records

/-- The reader takes the records that may be written, and these only. -/
structure Delimits (read : List α → Option (Record × Nat)) (write : Record → List α)
    (Valid : Record → Prop) : Prop where
  reads : ∀ record rest, Valid record →
    read (write record ++ rest) = some (record, (write record).length)
  wrote : ∀ input record n, read input = some (record, n) →
    Valid record ∧ n = (write record).length ∧ input = write record ++ input.drop n
  nonempty : ∀ record, Valid record → write record ≠ []

variable {read : List α → Option (Record × Nat)} {write : Record → List α}
variable {Valid : Record → Prop} {input rest : List α} {records : List Record} {record : Record}
variable {fuel start : Nat}

@[simp] theorem writeAll_nil : writeAll write [] = [] := rfl

@[simp] theorem writeAll_cons :
    writeAll write (record :: records) = write record ++ writeAll write records := rfl

theorem writeAll_append (front back : List Record) :
    writeAll write (front ++ back) = writeAll write front ++ writeAll write back := by
  simp [writeAll]

theorem starts_append (front back : List Record) :
    starts write start (front ++ back) =
      starts write start front ++ starts write (start + (writeAll write front).length) back := by
  induction front generalizing start with
  | nil => simp [starts]
  | cons record front ih =>
    simp only [List.cons_append, starts, ih, writeAll_cons, List.length_append, Nat.add_assoc]

/-- The loop reads back what was written. -/
theorem readAll_writeAll (h : Delimits read write Valid) (hvalid : ∀ record ∈ records, Valid record)
    (hfuel : (writeAll write records).length < fuel) :
    readAll read fuel (writeAll write records) = some records := by
  induction records generalizing fuel with
  | nil =>
    obtain ⟨fuel, rfl⟩ := Nat.exists_eq_succ_of_ne_zero (Nat.pos_iff_ne_zero.mp hfuel)
    simp [readAll]
  | cons record records ih =>
    rw [List.forall_mem_cons] at hvalid
    have hpos := List.length_pos_iff.mpr (h.nonempty record hvalid.1)
    rw [writeAll_cons, List.length_append] at hfuel
    obtain ⟨fuel, rfl⟩ : ∃ n, fuel = n + 1 := ⟨fuel - 1, by omega⟩
    have hshort : (writeAll write records).length < fuel := by omega
    have hrest := ih hvalid.2 hshort
    have hlength : (write record ++ writeAll write records).length ≠ 0 := by
      rw [List.length_append]
      omega
    simp only [writeAll_cons, readAll, if_neg hlength, h.reads record _ hvalid.1, Option.bind_some,
      List.drop_left, hrest, Option.map_some]

/-- The loop accepts nothing else. -/
theorem writeAll_readAll (h : Delimits read write Valid)
    (hread : readAll read fuel input = some records) :
    (∀ record ∈ records, Valid record) ∧ input = writeAll write records := by
  induction fuel generalizing input records with
  | zero => simp [readAll] at hread
  | succ fuel ih =>
    simp only [readAll] at hread
    split at hread
    · rename_i hempty
      simp only [Option.some.injEq] at hread
      subst hread
      exact ⟨by simp, List.length_eq_zero_iff.mp hempty⟩
    · simp only [Option.bind_eq_some_iff, Option.map_eq_some_iff] at hread
      obtain ⟨⟨record, n⟩, hfound, rest, hrest, rfl⟩ := hread
      obtain ⟨hvalid, hn, hinput⟩ := h.wrote input record n hfound
      obtain ⟨hvalids, hback⟩ := ih hrest
      refine ⟨List.forall_mem_cons.mpr ⟨hvalid, hvalids⟩, ?_⟩
      rw [writeAll_cons, ← hback]
      exact hinput

/-- The loop notes the positions of the records it reads. -/
theorem readStarts_eq (h : Delimits read write Valid) :
    readStarts read fuel start input =
      (readAll read fuel input).map (starts write start) := by
  induction fuel generalizing start input with
  | zero => rfl
  | succ fuel ih =>
    simp only [readStarts, readAll]
    split
    · rfl
    · cases hfound : read input with
      | none => rfl
      | some found =>
        obtain ⟨hvalid, hn, -⟩ := h.wrote input found.1 found.2 hfound
        simp only [Option.bind_some, ih, Option.map_map, hn]
        rfl

/-- Every record of the input stands at one of the positions, in order. -/
theorem map_starts {β : Type} (look : List α → Nat → β) (see : Record → β)
    (hlook : ∀ front record rest, Valid record →
      look (front ++ write record ++ rest) front.length = see record)
    (hvalid : ∀ record ∈ records, Valid record) (front rest : List α) :
    (starts write front.length records).map (look (front ++ writeAll write records ++ rest)) =
      records.map see := by
  induction records generalizing front with
  | nil => rfl
  | cons record records ih =>
    rw [List.forall_mem_cons] at hvalid
    have hfirst := hlook front record (writeAll write records ++ rest) hvalid.1
    have hmore := ih hvalid.2 (front ++ write record)
    simp only [starts, writeAll_cons, List.map_cons, List.append_assoc, List.length_append]
      at hfirst hmore ⊢
    rw [hfirst, hmore]

end Library.Records
