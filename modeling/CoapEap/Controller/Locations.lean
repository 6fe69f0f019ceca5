import CoapEap.Controller.Messages
import CoapEap.UriPath

/-!
The way of a resource path through the controller: `getLocation` joins the
Location-Path options of an acknowledgment into a string of bounded length, and
`setURI` cuts the stored string into the Uri-Path options of the next POST.
-/

namespace CoapEap.Cantcoap

open Library.OptionFormat

theorem uriSegment_last {segment : Bytes} (h : PlainSegment segment) :
    uriSegment segment 0x2F = (segment, [], false) := by
  simp [uriSegment, h.slash_not_mem, h.query_not_mem]

theorem uriSegment_slash {segment : Bytes} (h : PlainSegment segment) (rest : Bytes) :
    uriSegment (segment ++ 0x2F :: rest) 0x2F = (segment, 0x2F :: rest, false) := by
  have hplain : ∀ c ∈ segment, (fun c : UInt8 => decide (c ≠ 0x2F)) c = true := by
    intro c hc
    simpa using (h.plain c hc).1
  have hmem : (0x2F : UInt8) ∈ segment ++ 0x2F :: rest := by simp
  unfold uriSegment
  rw [if_pos hmem, List.takeWhile_append_of_pos hplain, List.dropWhile_append_of_pos hplain]
  simp

theorem setURILoop_short {fuel : Nat} {p : CoapPDU} {uri : Bytes} {splitChar : UInt8}
    {optionType : Nat} (h : uri.length ≤ 1) :
    setURILoop fuel p uri splitChar optionType = p := by
  cases fuel with
  | zero => rfl
  | succ fuel =>
    rcases uri with _ | ⟨c, _ | ⟨d, rest⟩⟩
    · rfl
    · rfl
    · simp only [List.length_cons] at h
      omega

/-- One round takes a plain segment, whether or not a separator stands before it. -/
theorem setURILoop_segment {fuel : Nat} {p : CoapPDU} {lead segment rest : Bytes}
    {optionType : Nat} (hplain : PlainSegment segment) (hlead : lead = [] ∨ lead = [0x2F])
    (hrest : rest = [] ∨ ∃ rest', rest = 0x2F :: rest')
    (hlong : 2 ≤ (lead ++ (segment ++ rest)).length) :
    setURILoop (fuel + 1) p (lead ++ (segment ++ rest)) 0x2F optionType =
      setURILoop fuel (addOption p optionType segment) rest 0x2F optionType := by
  have hcut : uriSegment (segment ++ rest) 0x2F = (segment, rest, false) := by
    rcases hrest with rfl | ⟨rest', rfl⟩
    · rw [List.append_nil]
      exact uriSegment_last hplain
    · exact uriSegment_slash hplain rest'
  obtain ⟨c, tail, hsegment, hc⟩ := hplain.eq_cons
  have hcons : segment ++ rest = c :: (tail ++ rest) := by rw [hsegment, List.cons_append]
  rcases hlead with rfl | rfl
  · -- without a separator in front nothing is skipped
    rw [List.nil_append] at hlong ⊢
    have hmore : ∃ d more, tail ++ rest = d :: more := by
      cases hmore : tail ++ rest with
      | nil =>
        rw [hcons, hmore] at hlong
        simp at hlong
      | cons d more => exact ⟨d, more, rfl⟩
    obtain ⟨d, more, hmore⟩ := hmore
    rw [hcons, hmore] at hcut ⊢
    rw [setURILoop]
    simp only [hc, if_false, hcut, Bool.false_eq_true]
  · rw [hcons] at hcut ⊢
    rw [List.singleton_append, setURILoop]
    simp only [if_true, hcut, Bool.false_eq_true, if_false]

/-- The loop turns the segments of a string into options, one for one. -/
theorem setURILoop_segments {head : Bytes} {fuel : Nat} {p : CoapPDU} {segments : List Bytes}
    {lead tail : Bytes} {options : List (Nat × Bytes)} (hbuilt : Built head p options)
    (hmax : p.maxAddedOptionNumber ≤ optionUriPath) (hne : segments ≠ [])
    (hplain : ∀ s ∈ segments, PlainSegment s) (hlead : lead = [] ∨ lead = [0x2F])
    (htail : tail = [] ∨ tail = [0x2F]) (hfuel : segments.length ≤ fuel)
    (hlong : 2 ≤ (lead ++ ([0x2F].intercalate segments ++ tail)).length) :
    Built head (setURILoop fuel p (lead ++ ([0x2F].intercalate segments ++ tail)) 0x2F
      optionUriPath) (options ++ segments.map fun s => (optionUriPath, s)) := by
  induction segments generalizing fuel p lead options with
  | nil => exact absurd rfl hne
  | cons segment rest ih =>
    obtain ⟨fuel, rfl⟩ : ∃ n, fuel = n + 1 := ⟨fuel - 1, by simp at hfuel; omega⟩
    have hsegment := hplain segment (List.mem_cons_self ..)
    have hadded := hbuilt.addOption hmax (by decide) hsegment.short
    by_cases hrest : rest = []
    · subst hrest
      have htail' : tail = [] ∨ ∃ rest', tail = 0x2F :: rest' :=
        htail.imp_right fun h => ⟨[], h⟩
      have hshort : tail.length ≤ 1 := by
        rcases htail with rfl | rfl
        · exact Nat.zero_le _
        · exact Nat.le_refl _
      rw [List.intercalate_singleton] at hlong ⊢
      rw [setURILoop_segment hsegment hlead htail' hlong, setURILoop_short hshort]
      exact hadded
    · have hmax' : (addOption p optionUriPath segment).maxAddedOptionNumber ≤ optionUriPath := by
        rw [hadded.last, lastNumber_append_singleton]
      have hrest' : [0x2F].intercalate (segment :: rest) ++ tail =
          segment ++ ([0x2F] ++ ([0x2F].intercalate rest ++ tail)) := by
        rw [List.intercalate_cons_of_ne_nil hrest]
        simp only [List.append_assoc]
      have hmore : 1 ≤ ([0x2F].intercalate rest).length := by
        have hcount := length_le_intercalate fun s hs => hplain s (List.mem_cons_of_mem _ hs)
        have hpos := List.length_pos_iff.mpr hrest
        omega
      rw [hrest'] at hlong ⊢
      rw [setURILoop_segment hsegment hlead (.inr ⟨_, List.singleton_append⟩) hlong]
      have hloop := ih hadded hmax' hrest (fun s hs => hplain s (List.mem_cons_of_mem _ hs))
        (.inr rfl) (by simpa using hfuel)
        (by simp only [List.length_append, List.length_cons, List.length_nil]; omega)
      rw [List.append_assoc] at hloop
      exact hloop

/-- `setURI` of a string of segments, with or without a separator at either end. -/
theorem setURI_segments {head : Bytes} {segments : List Bytes} {lead tail : Bytes}
    (hne : segments ≠ []) (hplain : ∀ s ∈ segments, PlainSegment s)
    (hlead : lead = [] ∨ lead = [0x2F]) (htail : tail = [] ∨ tail = [0x2F]) :
    Built head (setURI ⟨head, 0⟩ (lead ++ ([0x2F].intercalate segments ++ tail)))
      (segments.map fun s => (optionUriPath, s)) := by
  have hempty : Built head ⟨head, 0⟩ [] := ⟨(List.append_nil _).symm, rfl, trivial, trivial⟩
  have hcount := length_le_intercalate hplain
  have hpos := List.length_pos_iff.mpr hne
  by_cases hlong : 2 ≤ (lead ++ ([0x2F].intercalate segments ++ tail)).length
  · have hfuel : segments.length ≤ (lead ++ ([0x2F].intercalate segments ++ tail)).length := by
      simp only [List.length_append]
      omega
    have hloop := setURILoop_segments hempty (Nat.zero_le _) hne hplain hlead htail hfuel hlong
    have hstart : setURI ⟨head, 0⟩ (lead ++ ([0x2F].intercalate segments ++ tail)) =
        setURILoop (lead ++ ([0x2F].intercalate segments ++ tail)).length ⟨head, 0⟩
          (lead ++ ([0x2F].intercalate segments ++ tail)) 0x2F optionUriPath := by
      generalize lead ++ ([0x2F].intercalate segments ++ tail) = uri at *
      rcases uri with _ | ⟨c, _ | ⟨d, rest⟩⟩
      · simp at hlong
      · simp at hlong
      · rfl
    rw [hstart]
    exact hloop
  · -- a single segment of one byte
    simp only [List.length_append] at hlong
    obtain ⟨segment, rfl⟩ : ∃ segment, segments = [segment] :=
      List.length_eq_one_iff.mp (by omega)
    have hsegment := hplain segment (List.mem_singleton_self _)
    rw [List.intercalate_singleton] at hlong hcount ⊢
    obtain rfl : lead = [] := List.length_eq_zero_iff.mp (by simp at hcount; omega)
    obtain rfl : tail = [] := List.length_eq_zero_iff.mp (by simp at hcount; omega)
    obtain ⟨c, rfl⟩ : ∃ c, segment = [c] :=
      List.length_eq_one_iff.mp (by simp at hcount hlong; omega)
    exact hempty.addOption (Nat.zero_le _) (by decide) hsegment.short

/-- The walk of `getOptions` gives the encoded options back. -/
theorem optionsFrom_options {prev : Nat} {options : List (Nat × Bytes)} {rest : Bytes}
    (hshort : Short prev options) (hascending : Ascending prev options)
    (hsmall : ∀ o ∈ options, o.1 < 65536) :
    optionsFrom options.length (encodeOptions prev options ++ rest) prev = options := by
  induction options generalizing prev with
  | nil => rfl
  | cons option more ih =>
    obtain ⟨number, value⟩ := option
    obtain ⟨hdelta, hlen, hshort⟩ := hshort
    obtain ⟨hfirst, hascending⟩ := hascending
    have hnumber : (prev + (number - prev)) % 65536 = number := by
      have hbound := hsmall (number, value) (List.mem_cons_self ..)
      simp only at hbound
      omega
    have hvalue : ((encodeOption (number - prev) value ++ (encodeOptions number more ++ rest)).drop
        ((encodeOption (number - prev) value).length - value.length)).take value.length =
          value := by
      have hsplit : encodeOption (number - prev) value =
          (header (number - prev) value.length ::
            (extension (number - prev) ++ extension value.length)) ++ value := rfl
      have hfront : (encodeOption (number - prev) value).length - value.length =
          (header (number - prev) value.length ::
            (extension (number - prev) ++ extension value.length)).length := by
        rw [hsplit, List.length_append]
        omega
      rw [hfront, hsplit, List.append_assoc, List.drop_left, List.take_left]
    have hrest := ih hshort hascending fun o ho => hsmall o (List.mem_cons_of_mem _ ho)
    rw [List.length_cons, optionsFrom, encodeOptions, List.append_assoc]
    simp only [getOptionDelta_option hdelta, getOptionValueLength_option hdelta hlen,
      optionTotalLength_option hdelta hlen, hnumber, hvalue, List.drop_left, hrest]

theorem getOptions_datagram {first code : UInt8} {mid : UInt16} {token : Bytes}
    {options : List (Nat × Bytes)} {payload : Bytes} (htoken : first.toNat % 16 = token.length)
    (hshort : Short 0 options) (hascending : Ascending 0 options)
    (hsmall : ∀ o ∈ options, o.1 < 65536) :
    getOptions (datagram first code mid token options payload) ⟨options.length, payload⟩ =
      options := by
  have hfirst := datagram_first first code mid token options payload []
  have hdrop := datagram_drop_token first code mid token options payload []
  simp only [List.append_nil] at hfirst hdrop
  unfold getOptions
  simp only [getTokenLength, hfirst, htoken, hdrop]
  exact optionsFrom_options hshort hascending hsmall

/-- One Location-Path option, before the room left decides. -/
theorem getLocationLoop_segment {segment dst : Bytes} {rest : List (Nat × Bytes)} {left : Nat}
    (hplain : PlainSegment segment) :
    getLocationLoop ((optionLocationPath, segment) :: rest) (dst ++ [0x2F]) left 0x2F true =
      if segment.length > left then dst ++ [0x2F]
      else if left - segment.length ≥ 1 then
        getLocationLoop rest (dst ++ 0x2F :: segment ++ [0x2F]) (left - segment.length - 1) 0x2F
          true
      else dst ++ 0x2F :: segment := by
  have hslash : segment ≠ [0x2F] := by
    rintro rfl
    exact hplain.slash_not_mem (List.mem_singleton_self _)
  have hkind : optionLocationPath ≠ optionLocationQuery := by decide
  simp [getLocationLoop, hslash, hkind]

/-- Options of other kinds are passed over. -/
theorem getLocationLoop_others {others : List (Nat × Bytes)} {dst : Bytes} {left : Nat}
    (hothers : ∀ o ∈ others, o.1 ≠ optionLocationPath ∧ o.1 ≠ optionLocationQuery) :
    getLocationLoop others dst left 0x2F true = dst.dropLast := by
  induction others with
  | nil => rfl
  | cons option rest ih =>
    obtain ⟨number, value⟩ := option
    obtain ⟨hpath, hquery⟩ := hothers (number, value) (List.mem_cons_self ..)
    rw [getLocationLoop, if_neg (by simp [hpath, hquery])]
    exact ih fun o ho => hothers o (List.mem_cons_of_mem _ ho)

section Joined

variable {segments : List Bytes} {others : List (Nat × Bytes)}

/-- The options that carry a path, followed by options of other kinds. -/
def pathOptions (segments : List Bytes) (others : List (Nat × Bytes)) : List (Nat × Bytes) :=
  (segments.map fun s => (optionLocationPath, s)) ++ others

/-- Where the joined segments fit the room left, they are joined. -/
theorem getLocationLoop_fits {dst : Bytes} {left : Nat}
    (hplain : ∀ s ∈ segments, PlainSegment s) (hne : segments ≠ [])
    (hothers : ∀ o ∈ others, o.1 ≠ optionLocationPath ∧ o.1 ≠ optionLocationQuery)
    (hfits : ([0x2F].intercalate segments).length ≤ left) :
    getLocationLoop (pathOptions segments others) (dst ++ [0x2F]) left 0x2F true =
      dst ++ 0x2F :: [0x2F].intercalate segments := by
  induction segments generalizing dst left with
  | nil => exact absurd rfl hne
  | cons segment rest ih =>
    have hsegment := hplain segment (List.mem_cons_self ..)
    rw [pathOptions, List.map_cons, List.cons_append, getLocationLoop_segment hsegment]
    by_cases hrest : rest = []
    · subst hrest
      rw [List.intercalate_singleton] at hfits ⊢
      rw [if_neg (by omega)]
      split
      · rw [List.map_nil, List.nil_append, getLocationLoop_others hothers,
          List.dropLast_concat]
      · rfl
    · have hplain' : ∀ s ∈ rest, PlainSegment s := fun s hs => hplain s (List.mem_cons_of_mem _ hs)
      have hcount := length_le_intercalate hplain'
      have hpos := List.length_pos_iff.mpr hrest
      rw [List.intercalate_cons_of_ne_nil hrest] at hfits ⊢
      simp only [List.length_append, List.length_cons, List.length_nil] at hfits
      have hjoined : getLocationLoop (pathOptions rest others) (dst ++ 0x2F :: segment ++ [0x2F])
          (left - segment.length - 1) 0x2F true =
            dst ++ 0x2F :: segment ++ 0x2F :: [0x2F].intercalate rest :=
        ih hplain' hrest (by omega)
      rw [if_neg (by omega), if_pos (by omega)]
      rw [pathOptions] at hjoined
      rw [hjoined]
      simp only [List.append_assoc, List.cons_append, List.nil_append]

/-- Where they do not fit, fewer segments are joined, perhaps with a separator
behind them. -/
theorem getLocationLoop_overflows {dst : Bytes} {left : Nat}
    (hplain : ∀ s ∈ segments, PlainSegment s)
    (hlong : left < ([0x2F].intercalate segments).length) :
    ∃ n < segments.length, ∃ tail : Bytes, (tail = [] ∨ tail = [0x2F]) ∧ (n = 0 → tail = []) ∧
      getLocationLoop (pathOptions segments others) (dst ++ [0x2F]) left 0x2F true =
        dst ++ 0x2F :: ([0x2F].intercalate (segments.take n) ++ tail) := by
  induction segments generalizing dst left with
  | nil => simp at hlong
  | cons segment rest ih =>
    have hsegment := hplain segment (List.mem_cons_self ..)
    rw [pathOptions, List.map_cons, List.cons_append, getLocationLoop_segment hsegment]
    by_cases hover : segment.length > left
    · exact ⟨0, by simp, [], .inl rfl, fun _ => rfl, by simp [hover]⟩
    · have hrest : rest ≠ [] := by
        rintro rfl
        rw [List.intercalate_singleton] at hlong
        omega
      rw [if_neg hover]
      rw [List.intercalate_cons_of_ne_nil hrest] at hlong
      simp only [List.length_append, List.length_cons, List.length_nil] at hlong
      split
      · have hshorter : left - segment.length - 1 < ([0x2F].intercalate rest).length := by omega
        obtain ⟨n, hn, tail, htail, hzero, hjoined⟩ : ∃ n < rest.length, ∃ tail : Bytes,
            (tail = [] ∨ tail = [0x2F]) ∧ (n = 0 → tail = []) ∧
              getLocationLoop (pathOptions rest others) (dst ++ 0x2F :: segment ++ [0x2F])
                (left - segment.length - 1) 0x2F true =
                dst ++ 0x2F :: segment ++ 0x2F :: ([0x2F].intercalate (rest.take n) ++ tail) :=
          ih (fun s hs => hplain s (List.mem_cons_of_mem _ hs)) hshorter
        rw [pathOptions] at hjoined
        rw [hjoined]
        cases n with
        | zero =>
          refine ⟨1, by simpa using List.length_pos_iff.mpr hrest, [0x2F], .inr rfl, by simp, ?_⟩
          rw [hzero rfl]
          simp
        | succ n =>
          refine ⟨n + 2, by simp only [List.length_cons]; omega, tail, htail, by simp, ?_⟩
          have hsome : rest.take (n + 1) ≠ [] := by
            intro h
            have := List.take_eq_nil_iff.mp h
            simp [hrest] at this
          rw [List.take_succ_cons, List.intercalate_cons_of_ne_nil hsome]
          simp only [List.append_assoc, List.cons_append, List.nil_append]
      · refine ⟨1, by simpa using List.length_pos_iff.mpr hrest, [], .inl rfl, by simp, ?_⟩
        simp

end Joined

end CoapEap.Cantcoap
