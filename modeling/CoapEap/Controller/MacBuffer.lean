import CoapEap.Controller.AvpAgreement
import CoapEap.Controller.System

/-!
The two callers of `do_omac` against the 150 bytes of its array: `check_mac` on a
CoAP PDU and `hashAuth` on the message that `insertAvps` builds.
-/

open Library

namespace CoapEap.MacBuffer

open Cantcoap Pana

/-- `BUF_LEN` of `mainserver.cpp`. -/
def bufLen : Nat := 500

/-- The walk of `getOptionPointer`, with the position of the current option. -/
def optionPointerFrom (option : Nat) : (count : Nat) → Bytes → Nat → Nat → Option Nat
  | 0, _, _, _ => none
  | count + 1, rest, optionNumber, optionPos =>
    let number := (optionNumber + getOptionDelta rest) % 65536
    let total := optionTotalLength rest
    if number = option then some (optionPos + (total - getOptionValueLength rest))
    else optionPointerFrom option count (rest.drop total) number (optionPos + total)

/-- `getOptionPointer`, as a position in the PDU. -/
def getOptionPointer (pdu : Bytes) (v : Validated) (option : Nat) : Option Nat :=
  optionPointerFrom option v.numOptions (pdu.drop (4 + getTokenLength pdu)) 0
    (4 + getTokenLength pdu)

/-- How `check_mac` ends. -/
inductive MacCheck where
  /-- The sixteen zeros are stored through a null pointer. -/
  | nullStore
  /-- A write of `do_omac` leaves its array. -/
  | overrun
  | checked (equal : Bool)
deriving DecidableEq, Repr

/-- `check_mac` with none of its arguments a null pointer. What the zeros overwrite
behind the PDU does not enter the code. -/
def checkMac (aesencrypt : Eax.Block → Eax.Block → Eax.Block) (uninitialised : Eax.DataPadded)
    (key mac : Eax.Block) (pdu : Bytes) (v : Validated) : MacCheck :=
  match getOptionPointer pdu v optionAuth with
  | none => .nullStore
  | some i =>
    let cleared := (pdu.take i ++ List.replicate 16 0 ++ pdu.drop (i + 16)).take pdu.length
    match Eax.doOmac aesencrypt uninitialised key cleared with
    | none => .overrun
    | some calculatedmac => .checked (mac == calculatedmac)

theorem optionPointerFrom_isSome (option count : Nat) (rest : Bytes) (number pos : Nat) :
    (optionPointerFrom option count rest number pos).isSome =
      (optionsFrom count rest number).any fun o => o.1 = option := by
  induction count generalizing rest number pos with
  | zero => rfl
  | succ count ih =>
    rw [optionPointerFrom, optionsFrom, List.any_cons]
    split
    next h => simp [h]
    next h => simp [h, ih]

theorem getOptionPointer_isSome (pdu : Bytes) (v : Validated) (option : Nat) :
    (getOptionPointer pdu v option).isSome = hasOption pdu v option :=
  optionPointerFrom_isSome option v.numOptions _ 0 _

/-- The array is left exactly by PDUs with the option and more than 144 bytes. -/
theorem checkMac_overrun_iff (aesencrypt : Eax.Block → Eax.Block → Eax.Block)
    (uninitialised : Eax.DataPadded) (key mac : Eax.Block) (pdu : Bytes) (v : Validated) :
    checkMac aesencrypt uninitialised key mac pdu v ≠ .overrun ↔
      (hasOption pdu v optionAuth → pdu.length ≤ 144) := by
  have hpointer := getOptionPointer_isSome pdu v optionAuth
  unfold checkMac
  cases hi : getOptionPointer pdu v optionAuth with
  | none =>
    rw [hi, Option.isSome_none] at hpointer
    simp [← hpointer]
  | some i =>
    rw [hi, Option.isSome_some] at hpointer
    have hlength : ((pdu.take i ++ List.replicate 16 0 ++ pdu.drop (i + 16)).take
        pdu.length).length = pdu.length := by
      simp only [List.length_take, List.length_append, List.length_replicate, List.length_drop]
      omega
    have homac := Eax.doOmac_isSome_iff aesencrypt uninitialised key
      ((pdu.take i ++ List.replicate 16 0 ++ pdu.drop (i + 16)).take pdu.length)
    rw [hlength] at homac
    simp only [← hpointer, forall_const, ← homac]
    cases Eax.doOmac aesencrypt uninitialised key
        ((pdu.take i ++ List.replicate 16 0 ++ pdu.drop (i + 16)).take pdu.length) with
    | none => simp
    | some calculatedmac => simp

/-- What the network loop hands on is cut to fewer bytes than the array holds. -/
theorem received_pdu_fits (aesencrypt : Eax.Block → Eax.Block → Eax.Block)
    (uninitialised : Eax.DataPadded) (key mac : Eax.Block) (datagram : Bytes) (v : Validated) :
    checkMac aesencrypt uninitialised key mac (datagram.take (Mainserver.maxBufLen - 1)) v ≠
      .overrun := by
  apply (checkMac_overrun_iff ..).mpr
  intro _
  rw [List.length_take, Mainserver.maxBufLen]
  omega

/-- Every write of the `do_omac` that `hashAuth` calls stays in its array. -/
def HashAuthInside (p : Setting) (rounds : Nat) (msg : Bytes) (key : Vector UInt8 20) : Prop :=
  ∀ elmnt, getAvp rounds msg Avp.auth.code = some (some elmnt) → p.authSuite = .aesCmac →
    (Eax.doOmac p.aesencrypt p.uninitialised (aesKey key) (msg.take (be16At msg 2))).isSome

/-- A `do_omac` that leaves its array leaves `hashAuth` without a result. -/
theorem hashAuth_eq_none {p : Setting} {rounds : Nat} {msg : Bytes} {key : Vector UInt8 20}
    (h : ¬ HashAuthInside p rounds msg key) : hashAuth p rounds msg key = none := by
  simp only [HashAuthInside, not_forall] at h
  obtain ⟨elmnt, hfound, hsuite, hover⟩ := h
  have homac : Eax.doOmac p.aesencrypt p.uninitialised (aesKey key)
      (msg.take (be16At msg 2)) = none := Option.not_isSome_iff_eq_none.mp hover
  simp only [hashAuth, hfound, digest, hsuite, homac, Option.bind_eq_bind, Option.bind_some,
    Option.bind_none]

theorem hashAuthInside_iff (p : Setting) (rounds : Nat) {msg : Bytes} (key : Vector UInt8 20)
    (h : be16At msg 2 ≤ msg.length) :
    HashAuthInside p rounds msg key ↔
      ((∃ elmnt, getAvp rounds msg Avp.auth.code = some (some elmnt)) → p.authSuite = .aesCmac →
        be16At msg 2 ≤ 144) := by
  have hlength : (msg.take (be16At msg 2)).length = be16At msg 2 := by
    rw [List.length_take, Nat.min_eq_left h]
  unfold HashAuthInside
  rw [Eax.doOmac_isSome_iff, hlength]
  constructor
  · rintro hinside ⟨elmnt, hfound⟩ hsuite
    exact hinside elmnt hfound hsuite
  · intro hshort elmnt hfound hsuite
    exact hshort ⟨elmnt, hfound⟩ hsuite

/-- A message with all that the flags ask for is what `hashAuth` gets, and its length is
what `hashAuth` reads. -/
theorem insertAvps_ne_none_iff (p : Setting) (message : Message) (data : AvpData)
    {avps rounds : Nat} (hauth : Requested avps .auth) (hflags : avps < 512)
    (hsize : totalSize p avps data < 65536) (hrounds : 11 ≤ rounds) :
    insertAvps p rounds message avps data ≠ none ↔
      (p.authSuite = .aesCmac → totalSize p avps data ≤ 144) := by
  have hnonzero : avps ≠ 0 := by
    rintro rfl
    exact hauth (Nat.zero_and _)
  rcases insertAvps_cases p message data hnonzero hflags hsize with
    ⟨hfits, values, _, hsome⟩ | ⟨hover, hnone⟩
  · rw [hsome rounds hrounds]
    simp only [ne_eq, reduceCtorEq, not_false_eq_true, true_iff]
    exact hfits hauth
  · rw [hnone rounds hrounds]
    simp only [ne_eq, not_true_eq_false, false_iff]
    exact fun hfits => hover fun _ => hfits

/-- When the array of `do_omac` suffices, for a PDU given to `check_mac`, for a message
given to `hashAuth`, and for the messages that `insertAvps` gives to it. -/
theorem mac_buffer_suffices_iff (p : Setting) :
    (∀ (key mac : Eax.Block) (pdu : Bytes) (v : Validated), pdu.length ≤ bufLen →
      validate pdu = some v →
        (checkMac p.aesencrypt p.uninitialised key mac pdu v ≠ .overrun ↔
          (hasOption pdu v optionAuth → pdu.length ≤ 144))) ∧
    (∀ (rounds : Nat) (msg : Bytes) (key : Vector UInt8 20), be16At msg 2 ≤ msg.length →
      (HashAuthInside p rounds msg key ↔
        ((∃ elmnt, getAvp rounds msg Avp.auth.code = some (some elmnt)) →
          p.authSuite = .aesCmac → be16At msg 2 ≤ 144))) ∧
    ∀ (message : Message) (data : AvpData) (avps rounds : Nat), Requested avps .auth →
      avps < 512 → totalSize p avps data < 65536 → 11 ≤ rounds →
        (insertAvps p rounds message avps data ≠ none ↔
          (p.authSuite = .aesCmac → totalSize p avps data ≤ 144)) := by
  refine ⟨?_, ?_, ?_⟩
  · intro key mac pdu v _ _
    exact checkMac_overrun_iff ..
  · intro rounds msg key h
    exact hashAuthInside_iff p rounds key h
  · intro message data avps rounds hauth hflags hsize hrounds
    exact insertAvps_ne_none_iff p message data hauth hflags hsize hrounds

/-- The suites with AES. -/
def cmacSetting : Setting := { hmacSetting with prfSuite := .aes128Cbc, authSuite := .aesCmac }

/-- An EAP packet of two hundred bytes. -/
def longPacket : AvpData := { logout with eapPayload := List.replicate 200 0 }

theorem mac_buffer_suffices_iff_of_long_packet :
    (Requested 0x0003 .auth ∧ 0x0003 < 512 ∧ totalSize cmacSetting 0x0003 longPacket < 65536) ∧
      (insertAvps cmacSetting 16 bareHeader 0x0003 longPacket ≠ none ↔
        (cmacSetting.authSuite = .aesCmac → totalSize cmacSetting 0x0003 longPacket ≤ 144)) :=
  ⟨⟨by decide, by decide, by decide +kernel⟩,
    (mac_buffer_suffices_iff cmacSetting).2.2 bareHeader longPacket 0x0003 16 (by decide)
      (by decide) (by decide +kernel) (by decide)⟩

/-- With the packet and the code over it the message has 248 bytes. -/
theorem long_packet_leaves_buffer :
    ¬ ∀ p : Setting,
      (∀ (key mac : Eax.Block) (pdu : Bytes) (v : Validated), pdu.length ≤ bufLen →
        validate pdu = some v →
          checkMac p.aesencrypt p.uninitialised key mac pdu v ≠ .overrun) ∧
      (∀ (rounds : Nat) (message : Message) (data : AvpData) (avps : Nat), Requested avps .auth →
        avps < 512 → totalSize p avps data < 65536 → 11 ≤ rounds →
          insertAvps p rounds message avps data ≠ none) := by
  intro hall
  have hinserted := (hall cmacSetting).2 16 bareHeader longPacket 0x0003 (by decide) (by decide)
    (by decide +kernel) (by decide)
  have hsize : totalSize cmacSetting 0x0003 longPacket = 248 := by decide +kernel
  have hfits := (insertAvps_ne_none_iff cmacSetting bareHeader longPacket (by decide) (by decide)
    (by decide +kernel) (by decide)).mp hinserted rfl
  omega

end CoapEap.MacBuffer
