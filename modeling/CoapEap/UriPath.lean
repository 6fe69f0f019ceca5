import Mathlib.Data.List.TakeWhile
import CoapEap.Bytes

/-!
Resource paths as both parties mean them: segments, and the string that joins
them. A plain segment is one that the URI syntax leaves alone on its way through
the options and the strings of either side.
-/

namespace CoapEap

/-- A nonempty segment without `'/'`, `'?'`, `'&'` and NUL that fits an option
with one extension byte. -/
structure PlainSegment (segment : Bytes) : Prop where
  nonempty : segment ≠ []
  short : segment.length < 269
  plain : ∀ c ∈ segment, c ≠ 0x2F ∧ c ≠ 0x3F ∧ c ≠ 0x26 ∧ c ≠ 0

/-- The path of a resource. -/
structure UriPath where
  segments : List Bytes
  nonempty : segments ≠ []
  plain : ∀ s ∈ segments, PlainSegment s

/-- The string of a path, without a leading `'/'`. -/
def UriPath.joined (path : UriPath) : Bytes := [0x2F].intercalate path.segments

theorem PlainSegment.slash_not_mem {segment : Bytes} (h : PlainSegment segment) :
    (0x2F : UInt8) ∉ segment :=
  fun hmem => (h.plain _ hmem).1 rfl

theorem PlainSegment.query_not_mem {segment : Bytes} (h : PlainSegment segment) :
    (0x3F : UInt8) ∉ segment :=
  fun hmem => (h.plain _ hmem).2.1 rfl

/-- A plain segment starts with a byte that is not a separator. -/
theorem PlainSegment.eq_cons {segment : Bytes} (h : PlainSegment segment) :
    ∃ c rest, segment = c :: rest ∧ c ≠ 0x2F := by
  cases segment with
  | nil => exact absurd rfl h.nonempty
  | cons c rest => exact ⟨c, rest, rfl, (h.plain c (List.mem_cons_self ..)).1⟩

variable {segments : List Bytes}

theorem mem_intercalate {sep c : UInt8} (h : c ∈ [sep].intercalate segments) :
    c = sep ∨ ∃ s ∈ segments, c ∈ s := by
  induction segments with
  | nil => simp at h
  | cons segment rest ih =>
    by_cases hrest : rest = []
    · subst hrest
      exact .inr ⟨segment, List.mem_cons_self .., by simpa using h⟩
    · rw [List.intercalate_cons_of_ne_nil hrest] at h
      rcases List.mem_append.mp h with hfront | htail
      · rcases List.mem_append.mp hfront with hsegment | hsep
        · exact .inr ⟨segment, List.mem_cons_self .., hsegment⟩
        · exact .inl (List.mem_singleton.mp hsep)
      · rcases ih htail with hsep | ⟨s, hs, hc⟩
        · exact .inl hsep
        · exact .inr ⟨s, List.mem_cons_of_mem _ hs, hc⟩

theorem length_le_intercalate (hplain : ∀ s ∈ segments, PlainSegment s) :
    segments.length ≤ ([0x2F].intercalate segments).length := by
  induction segments with
  | nil => simp
  | cons segment rest ih =>
    have hpos : 0 < segment.length :=
      List.length_pos_iff.mpr (hplain segment (List.mem_cons_self ..)).nonempty
    have hrest := ih fun s hs => hplain s (List.mem_cons_of_mem _ hs)
    by_cases hempty : rest = []
    · subst hempty
      simp only [List.intercalate_singleton, List.length_singleton]
      omega
    · rw [List.intercalate_cons_of_ne_nil hempty]
      simp only [List.length_append, List.length_cons, List.length_nil]
      omega

/-- What `strlen` sees of a string without NUL. -/
theorem cString_eq_self {b : Bytes} (h : (0 : UInt8) ∉ b) : cString b = b := by
  unfold cString
  rw [List.takeWhile_eq_self_iff]
  intro c hc
  simp only [ne_eq, decide_eq_true_eq]
  rintro rfl
  exact h hc

end CoapEap
