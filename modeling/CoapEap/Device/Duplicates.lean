import CoapEap.Datagram
import CoapEap.Device.Responses

/-!
A request that is delivered twice. The engine does not suppress duplicates, and
the handler renames its resource, steps the EAP peer and changes its answer with
every call, so a second delivery is harmless only when all of that happens to
change nothing.
-/

namespace CoapEap.Hateoas

open ErCoap

variable {Peer Random : Type} {P : Platform Peer Random} {d d' : Device Peer Random}
variable {datagram behind : Bytes} {message : CoapPacket}

/-- A datagram that the engine takes for a POST. -/
def isPost (r : Received) : Bool :=
  match coapParseMessage (r.datagram ++ r.behind) r.datagram.length with
  | .ok message => message.code == coapPost
  | .error _ => false

/-- A datagram whose answer takes a message identifier of the device. -/
def drawsMid (r : Received) : Bool :=
  match coapParseMessage (r.datagram ++ r.behind) r.datagram.length with
  | .ok message => isRequest message && message.type != .con
  | .error _ => false

/-- Without a POST only the message identifier moves. -/
theorem coapReceive_other {r : Received} (h : isPost r = false) :
    SameApplication d (coapReceive P d r.datagram r.behind).1 ∧
      (coapReceive P d r.datagram r.behind).1.random = d.random ∧
      (coapReceive P d r.datagram r.behind).1.currentMid =
        d.currentMid + if drawsMid r then 1 else 0 := by
  cases hparse : coapParseMessage (r.datagram ++ r.behind) r.datagram.length with
  | error e =>
    simp only [coapReceive, drawsMid, hparse]
    exact ⟨⟨rfl, rfl, rfl, rfl, rfl⟩, trivial, by simp⟩
  | ok message =>
    have hpost : message.code ≠ coapPost := by
      simpa [isPost, hparse] using h
    have hservice : ∀ (d' : Device Peer Random) (response : CoapPacket) (offset : Int),
        (invokeService P d' message response offset).1 = d' := by
      intro d' response offset
      simp only [invokeService, hpost, if_false]
      split
      · rfl
      · split
        · split
          · rfl
          · rfl
        · rfl
    cases hrequest : isRequest message with
    | false =>
      simp only [coapReceive, drawsMid, hparse, hrequest, Bool.false_eq_true, if_false,
        Bool.false_and]
      split
      · exact ⟨⟨rfl, rfl, rfl, rfl, rfl⟩, rfl, by simp⟩
      · exact ⟨⟨rfl, rfl, rfl, rfl, rfl⟩, rfl, by simp⟩
    | true =>
      have hdevice : ∀ d' : Device Peer Random, ∀ next,
          d' = (if message.type = .con then d else { d with currentMid := next }) →
          SameApplication d d' ∧ d'.random = d.random ∧
            d'.currentMid = if message.type = .con then d.currentMid else next := by
        rintro d' next rfl
        split
        · exact ⟨⟨rfl, rfl, rfl, rfl, rfl⟩, rfl, rfl⟩
        · exact ⟨⟨rfl, rfl, rfl, rfl, rfl⟩, rfl, rfl⟩
      obtain ⟨hsame, hrandom, hmid⟩ := hdevice _ (d.currentMid + 1) rfl
      have hcount : (if message.type = .con then d.currentMid else d.currentMid + 1) =
          d.currentMid + if drawsMid r then 1 else 0 := by
        by_cases hcon : message.type = .con
        · simp [drawsMid, hparse, hrequest, hcon]
        · simp [drawsMid, hparse, hrequest, hcon]
      simp only [coapReceive, hparse, hrequest, if_true]
      rw [← hcount, ← hmid]
      split
      · simp only [hservice]
        exact ⟨⟨hsame.peer, hsame.fed, hsame.urlString, hsame.skipFirstHandlerCall,
          hsame.cipherSuitesSent⟩, hrandom, trivial⟩
      · simp only [hservice]
        exact ⟨hsame, hrandom, trivial⟩

open Library.Runs

/-- A run without a POST. -/
theorem run_others {between : List Received} (hothers : ∀ r ∈ between, isPost r = false)
    (hrun : run (receive P) d between = some d') :
    SameApplication d d' ∧ d'.random = d.random ∧
      d'.currentMid = d.currentMid + UInt16.ofNat (between.countP drawsMid) := by
  induction between generalizing d with
  | nil =>
    simp only [run_nil, Option.some.injEq] at hrun
    subst hrun
    exact ⟨⟨rfl, rfl, rfl, rfl, rfl⟩, rfl, by simp⟩
  | cons r rest ih =>
    simp only [run_cons, receive, Option.bind_some] at hrun
    obtain ⟨hsame, hrandom, hmid⟩ := coapReceive_other (P := P) (d := d)
      (hothers r (List.mem_cons_self ..))
    obtain ⟨hsame', hrandom', hmid'⟩ := ih (fun r' hr' => hothers r' (List.mem_cons_of_mem _ hr'))
      hrun
    refine ⟨hsame.trans hsame', hrandom'.trans hrandom, ?_⟩
    rw [hmid', hmid, List.countP_cons]
    split
    · rw [UInt16.add_assoc, UInt16.ofNat_add, UInt16.add_comm (UInt16.ofNat _)]
      rfl
    · simp

theorem hateoasHandler_called (request response : CoapPacket) :
    (hateoasHandler P d request response).1.skipFirstHandlerCall = true := by
  have hrenamed : (renameResource P d).skipFirstHandlerCall = true := by
    unfold renameResource
    split
    · assumption
    · rfl
  simp only [hateoasHandler]
  split
  · exact hrenamed
  · split
    · exact hrenamed
    · exact hrenamed

/-- One datagram leaves the application as it is or calls the handler. -/
theorem coapReceive_cases (P : Platform Peer Random) (d : Device Peer Random) (r : Received) :
    SameApplication d (coapReceive P d r.datagram r.behind).1 ∨
      (coapReceive P d r.datagram r.behind).1.skipFirstHandlerCall = true := by
  cases hpost : isPost r with
  | false => exact .inl (coapReceive_other hpost).1
  | true =>
    cases hparse : coapParseMessage (r.datagram ++ r.behind) r.datagram.length with
    | error e => simp [isPost, hparse] at hpost
    | ok message =>
      have hcode : message.code = coapPost := by
        simpa [isPost, hparse] using hpost
      by_cases hpath : message.uriPath.getD [] = d.url
      · right
        rw [(coapReceive_served hparse hcode hpath).application.skipFirstHandlerCall]
        exact hateoasHandler_called _ _
      · exact .inl (coapReceive_refused hparse hcode hpath).1

/-- Until its first call the resource keeps its first name. -/
theorem url_before_first_call {peer : Peer} {random : Random} {mid : UInt16}
    (hreach : Reachable P (initialDevice peer random mid) d)
    (hskip : d.skipFirstHandlerCall = false) : d.url = initialUrl := by
  have hurl : d.urlString = initialUrl ++ [0] := by
    induction hreach with
    | start => rfl
    | @step before after r _ _ htaken ih =>
      have hafter : after = (coapReceive P before r.datagram r.behind).1 :=
        (Option.some.inj htaken).symm
      rcases coapReceive_cases P before r with hsame | hcalled
      · rw [hafter, hsame.urlString]
        exact ih (by rw [← hsame.skipFirstHandlerCall, ← hafter]; exact hskip)
      · rw [hafter, hcalled] at hskip
        contradiction
  rw [Device.url, hurl]
  decide

/-- A second name of five letters takes the place of the first one exactly. -/
theorem renameResource_urlString {later : Device Peer Random}
    (hurl : later.urlString = (renameResource P d).urlString)
    (hcalled : d.skipFirstHandlerCall = true) (hcalled' : later.skipFirstHandlerCall = true)
    (hsame : drawnLetters P later = drawnLetters P d) :
    (renameResource P later).urlString = later.urlString := by
  have hlength : (drawnLetters P d).length = 5 := randomLetters_length 5 d.random
  have hbehind : (drawnLetters P d ++ 0 :: d.urlString.drop 6).drop 6 = d.urlString.drop 6 := by
    rw [List.drop_append, List.drop_eq_nil_of_le (by omega), hlength]
    rfl
  rw [renameResource_again hcalled', hurl, renameResource_again hcalled]
  simp only [hsame, hbehind]

/-- What stands between a first delivery and the next POST. -/
structure Delivered (P : Platform Peer Random) (d : Device Peer Random) (message : CoapPacket)
    (between : List Received) (later : Device Peer Random) : Prop where
  urlString : later.urlString = (renameResource P d).urlString
  called : later.skipFirstHandlerCall = true
  random : later.random = (renameResource P d).random
  peer : later.peer = if P.eapKeyAvailable d.peer then d.peer else
    P.eapPeerSmStep d.peer (coapGetPayload message).1
  cipherSuitesSent : P.eapKeyAvailable d.peer = false → later.cipherSuitesSent = true
  mid : message.type ≠ .con →
    later.currentMid = d.currentMid + UInt16.ofNat (between.countP drawsMid + 1)

theorem Delivered.url {between : List Received} {later : Device Peer Random}
    (h : Delivered P d message between later) : later.url = (renameResource P d).url := by
  rw [Device.url, h.urlString, Device.url]

theorem Delivered.letters {between : List Received} {later : Device Peer Random}
    (h : Delivered P d message between later) :
    drawnLetters P later = drawnLetters P (renameResource P d) := by
  rw [drawnLetters, h.random, drawnLetters]

theorem delivered {first later : Device Peer Random} {response : Option Bytes}
    (hserved : Served P d message (first, response)) {between : List Received}
    (hothers : ∀ r ∈ between, isPost r = false)
    (hrun : run (receive P) first between = some later) :
    Delivered P d message between later := by
  obtain ⟨hsame, hrandom, hmid⟩ := run_others hothers hrun
  have hlater := hserved.application.trans hsame
  refine ⟨?_, ?_, hrandom.trans hserved.random, ?_, ?_, ?_⟩
  · rw [hlater.urlString]
    cases hkey : P.eapKeyAvailable d.peer with
    | true => rw [hateoasHandler_keyed hkey]
    | false => rw [(hateoasHandler_unkeyed hkey).1]
  · rw [hlater.skipFirstHandlerCall]
    exact hateoasHandler_called _ _
  · rw [hlater.peer]
    cases hkey : P.eapKeyAvailable d.peer with
    | true =>
      rw [hateoasHandler_keyed hkey, if_pos rfl]
      exact (renameResource_keeps P d).1
    | false =>
      rw [(hateoasHandler_unkeyed hkey).1, if_neg (by decide)]
  · intro hkey
    rw [hlater.cipherSuitesSent, (hateoasHandler_unkeyed hkey).1]
  · intro hcon
    rw [hmid, hserved.mid, if_neg hcon, UInt16.add_assoc, UInt16.ofNat_add,
      UInt16.add_comm (UInt16.ofNat _)]
    rfl

theorem Delivered.keyed_iff {between : List Received} {later : Device Peer Random}
    (h : Delivered P d message between later) : P.eapKeyAvailable later.peer = true ↔
      (P.eapKeyAvailable d.peer = true ∨
        P.eapKeyAvailable (P.eapPeerSmStep d.peer (coapGetPayload message).1) = true) := by
  rw [h.peer]
  cases hkey : P.eapKeyAvailable d.peer with
  | true => simp [hkey]
  | false => simp

theorem add_ofNat_eq_self_iff (mid : UInt16) (n : Nat) :
    mid + UInt16.ofNat n = mid ↔ n % 65536 = 0 := by
  constructor
  · intro h
    have hzero : UInt16.ofNat n = 0 := by
      calc UInt16.ofNat n = (mid + UInt16.ofNat n) - mid := by
            rw [UInt16.add_comm, UInt16.add_sub_cancel]
        _ = 0 := by rw [h, UInt16.sub_self]
    have hvalue := congrArg UInt16.toNat hzero
    rwa [UInt16.toNat_ofNat'] at hvalue
  · intro h
    have hzero : UInt16.ofNat n = 0 := by
      apply UInt16.toNat.inj
      rw [UInt16.toNat_ofNat']
      exact h
    rw [hzero, UInt16.add_zero]

/-- The answer of a keyed device against that of the first delivery. -/
theorem answers_agree_iff {between : List Received} {later : Device Peer Random}
    (h : Delivered P d message between later) :
    answer message.mid (finishResponse message
        ⟨prepareResponse message (later.currentMid + 1), blockOffset message, true⟩) =
      answer message.mid (finishResponse message
        ⟨(hateoasHandler P d message (prepareResponse message (d.currentMid + 1))).2,
          blockOffset message, true⟩) ↔
    (message.block1.isSome ∨ (P.eapKeyAvailable d.peer = true ∧
      (message.type = .con ∨ (between.countP drawsMid + 1) % 65536 = 0))) := by
  cases hblock : message.block1 with
  | some block =>
    -- both are about the Block1 option
    have hsome : message.block1.isSome := by
      rw [hblock]
      rfl
    have herror : finishResponse message
        ⟨(hateoasHandler P d message (prepareResponse message (d.currentMid + 1))).2,
          blockOffset message, true⟩ = .error ⟨notImplemented, ascii "NoBlock1Support"⟩ := by
      cases hkey : P.eapKeyAvailable d.peer with
      | true =>
        rw [hateoasHandler_keyed hkey]
        exact finishResponse_keyed_block _ hsome
      | false =>
        rcases finishResponse_unkeyed (hateoasHandler_unkeyed hkey).2 (blockOffset message) with
          ⟨-, hfinish⟩ | ⟨hnone, -⟩
        · exact hfinish
        · rw [hblock] at hnone
          contradiction
    rw [finishResponse_keyed_block _ hsome, herror]
    simp
  | none =>
    obtain ⟨pkt, hfinish, hbare, htoken, hmid, hcode⟩ :=
      finishResponse_keyed (later.currentMid + 1) hblock
    cases hkey : P.eapKeyAvailable d.peer with
    | true =>
      rw [hateoasHandler_keyed hkey]
      simp only [Option.isSome_none, Bool.false_eq_true, false_or, true_and]
      constructor
      · intro heq
        by_cases hcon : message.type = .con
        · exact .inl hcon
        · right
          obtain ⟨pkt', hfinish', -, -, hmid', -⟩ := finishResponse_keyed (d.currentMid + 1) hblock
          rw [hfinish, hfinish'] at heq
          have hmids : pkt.mid = pkt'.mid := by
            apply UInt16.toNat.inj
            rw [← serialized_mid pkt, ← serialized_mid pkt']
            exact congrArg (fun datagram => be16At datagram 2) heq
          rw [hmid, hmid', if_neg hcon, if_neg hcon] at hmids
          have hlater : later.currentMid = d.currentMid := (UInt16.add_left_inj 1).mp hmids
          rw [h.mid hcon] at hlater
          exact (add_ofNat_eq_self_iff _ _).mp hlater
      · intro hsame
        have hprepared : prepareResponse message (later.currentMid + 1) =
            prepareResponse message (d.currentMid + 1) := by
          by_cases hcon : message.type = .con
          · simp [prepareResponse, hcon]
          · rw [h.mid hcon, (add_ofNat_eq_self_iff _ _).mpr (hsame.resolve_left hcon)]
        rw [hprepared]
    | false =>
      have htokenLength : pkt.token.length ≤ coapTokenLen := by
        rw [htoken]
        exact prepareResponse_token_length _ _
      simp only [Option.isSome_none, Bool.false_eq_true, false_and, or_false, iff_false]
      rw [hfinish]
      intro heq
      rcases finishResponse_unkeyed (hateoasHandler_unkeyed hkey).2 (blockOffset message) with
        ⟨hsome, -⟩ | ⟨-, ⟨text, hfinish'⟩ | ⟨pkt', hfinish', htoken', hlocation, -⟩⟩
      · rw [hblock] at hsome
        contradiction
      · rw [hfinish'] at heq
        exact errorDatagram_ne_serialized (.inr rfl) hcode heq
      · rw [hfinish'] at heq
        have htokens : pkt'.token = pkt.token := by
          rw [htoken, htoken', (prepareResponse_bare message _).2.1,
            (prepareResponse_bare message _).2.1]
        exact serialized_ne_of_location htokens (htokens ▸ htokenLength) hlocation hbare heq.symm

/-- When a second delivery of a request does nothing more than the first: the
resource had been called before, both calls draw the name it has, the key is
there after the first, and both answers are about the Block1 option that is not
supported or neither says more than a keyed device does. -/
structure HarmlessAgain (P : Platform Peer Random) (d : Device Peer Random)
    (message : CoapPacket) (between : List Received) : Prop where
  called : d.skipFirstHandlerCall = true
  sameName : drawnLetters P d = d.url
  sameNameAgain : drawnLetters P (renameResource P d) = d.url
  keyed : P.eapKeyAvailable d.peer = true ∨
    P.eapKeyAvailable (P.eapPeerSmStep d.peer (coapGetPayload message).1) = true
  sameAnswer : message.block1.isSome ∨ (P.eapKeyAvailable d.peer = true ∧
    (message.type = .con ∨ (between.countP drawsMid + 1) % 65536 = 0))

/-- A request for the resource that is delivered twice, without a POST in between,
gets the same response and leaves the device as one delivery does exactly when
the second is harmless. -/
theorem second_delivery_harmless_iff {peer : Peer} {random : Random} {mid : UInt16}
    (hreach : Reachable P (initialDevice peer random mid) d) {behind' : Bytes}
    {payload' : Option Bytes}
    (hparse : coapParseMessage (datagram ++ behind) datagram.length = .ok message)
    (hparse' : coapParseMessage (datagram ++ behind') datagram.length =
      .ok { message with payload := payload' })
    (hpost : message.code = coapPost) (hpath : message.uriPath.getD [] = d.url)
    {between : List Received} (hothers : ∀ r ∈ between, isPost r = false)
    {later : Device Peer Random}
    (hrun : run (receive P) (coapReceive P d datagram behind).1 between = some later) :
    ((coapReceive P later datagram behind').2 = (coapReceive P d datagram behind).2 ∧
      SameApplication (coapReceive P d datagram behind).1
        (coapReceive P later datagram behind').1) ↔
      HarmlessAgain P d message between := by
  have hfirst := coapReceive_served (P := P) hparse hpost hpath
  have hlater := delivered hfirst hothers hrun
  obtain ⟨hsame, -, -⟩ := run_others hothers hrun
  constructor
  · rintro ⟨hresponse, happlication⟩
    -- the second delivery is served, or its code would tell
    have hpath' : message.uriPath.getD [] = later.url := by
      by_contra hne
      obtain ⟨-, refusal, hrefusal, hcode⟩ := coapReceive_refused (P := P) hparse' hpost hne
      obtain ⟨reply, hreply, hfound, hallowed⟩ := hfirst.reply
      rw [hresponse, hreply, Option.some.injEq] at hrefusal
      rw [← hrefusal] at hcode
      rcases hcode with h | h
      · exact hfound h
      · exact hallowed h
    have hsecond := coapReceive_served (P := P) hparse' hpost hpath'
    have hbetween := hsame.symm.trans (happlication.trans hsecond.application.symm)
    have hkeyed : P.eapKeyAvailable later.peer = true := by
      by_contra hnot
      have hunkeyed : P.eapKeyAvailable later.peer = false := by simpa using hnot
      have hfed := hbetween.fed
      rw [(hateoasHandler_unkeyed hunkeyed).1] at hfed
      simpa using congrArg List.length hfed
    rw [hateoasHandler_keyed hkeyed] at hbetween
    have hdrawn : drawnLetters P later = later.url := by
      rw [← renameResource_url hlater.called]
      exact hbetween.url
    have hcalled : d.skipFirstHandlerCall = true := by
      by_contra hnot
      have hskip : d.skipFirstHandlerCall = false := by simpa using hnot
      have hlength : (drawnLetters P later).length = 5 := randomLetters_length 5 later.random
      rw [hdrawn, ← hpath', hpath, url_before_first_call hreach hskip] at hlength
      exact absurd hlength (by decide)
    have hagree := (answers_agree_iff hlater).mp (by
      have hboth := hsecond.response.symm.trans (hresponse.trans hfirst.response)
      rw [hateoasHandler_keyed hkeyed, Option.some.injEq] at hboth
      exact hboth)
    refine ⟨hcalled, ?_, ?_, hlater.keyed_iff.mp hkeyed, hagree⟩
    · rw [← renameResource_url hcalled, ← hlater.url, ← hpath', hpath]
    · rw [← hlater.letters, hdrawn, ← hpath', hpath]
  · intro h
    have hurl : later.url = d.url := by
      rw [hlater.url, renameResource_url h.called, h.sameName]
    have hsecond := coapReceive_served (P := P) hparse' hpost (hpath.trans hurl.symm)
    have hkeyed := hlater.keyed_iff.mpr h.keyed
    have hletters : drawnLetters P later = drawnLetters P d := by
      rw [hlater.letters, h.sameNameAgain, h.sameName]
    have hagain : SameApplication later (renameResource P later) := by
      obtain ⟨hpeer, hfed, hsent⟩ := renameResource_keeps P later
      exact ⟨hpeer, hfed, renameResource_urlString hlater.urlString h.called hlater.called hletters,
        by rw [renameResource_again hlater.called], hsent⟩
    constructor
    · rw [hsecond.response, hfirst.response, hateoasHandler_keyed hkeyed]
      exact congrArg some ((answers_agree_iff hlater).mpr h.sameAnswer)
    · have happlication := hsecond.application
      rw [hateoasHandler_keyed hkeyed] at happlication
      exact hsame.trans (hagain.trans happlication)

/-- A platform whose peer has its key after two steps, whose generator always gives 0
and whose stack is overwritten with zeros. -/
def steadyPlatform : Platform Nat Unit where
  eapPeerSmStep steps _ := steps + 1
  eapRespData _ := [2, 1, 0, 6, 1, 0x61]
  eapKeyAvailable steps := 2 ≤ steps
  randomRand random := (0, random)
  wellKnownCoreHandler _ _ response offset := (response, offset)
  deadStack written := List.replicate written.length 0

def freshDevice : Device Nat Unit := initialDevice 0 () 7

def firstPostDatagram : Bytes :=
  CoapEap.datagram 0x44 2 9 [1, 0, 0, 0] [(ErCoap.optionUriPath, initialUrl)] [1, 1, 0, 5, 1]

def renamedPostDatagram : Bytes :=
  CoapEap.datagram 0x44 2 10 [1, 0, 0, 0] [(ErCoap.optionUriPath, [0x41, 0x41, 0x41, 0x41, 0x41])]
    [1, 2, 0, 5, 1]

/-- The device after two POSTs, with its key and five letters for a name. -/
def keyedDevice : Device Nat Unit :=
  (coapReceive steadyPlatform (coapReceive steadyPlatform freshDevice firstPostDatagram []).1
    firstPostDatagram []).1

theorem keyedDevice_reachable : Reachable steadyPlatform freshDevice keyedDevice := by
  have hrun : run (receive steadyPlatform) freshDevice
      [⟨firstPostDatagram, []⟩, ⟨firstPostDatagram, []⟩] = some keyedDevice := rfl
  exact reachable_of_run hrun

def renamedPost (behind : Bytes) : CoapPacket where
  type := .con
  code := 2
  mid := 10
  token := [1, 0, 0, 0]
  uriPath := some [0x41, 0x41, 0x41, 0x41, 0x41]
  payload := some ([1, 2, 0, 5, 1, 0] ++ behind)
  payloadLen := 5

/-- A keyed device whose generator repeats itself is left alone by a second
delivery. -/
theorem keyed_device_takes_post_twice :
    (coapReceive steadyPlatform (coapReceive steadyPlatform keyedDevice renamedPostDatagram
      [0x55]).1 renamedPostDatagram [0x55, 0x55]).2 =
        (coapReceive steadyPlatform keyedDevice renamedPostDatagram [0x55]).2 ∧
      SameApplication (coapReceive steadyPlatform keyedDevice renamedPostDatagram [0x55]).1
        (coapReceive steadyPlatform (coapReceive steadyPlatform keyedDevice renamedPostDatagram
          [0x55]).1 renamedPostDatagram [0x55, 0x55]).1 := by
  have hparse : coapParseMessage (renamedPostDatagram ++ [0x55]) renamedPostDatagram.length =
      .ok (renamedPost []) := by decide +kernel
  have hparse' : coapParseMessage (renamedPostDatagram ++ [0x55, 0x55])
      renamedPostDatagram.length =
        .ok { renamedPost [] with payload := (renamedPost [0x55]).payload } := by
    decide +kernel
  have hothers : ∀ r ∈ ([] : List Received), isPost r = false := by simp
  refine (second_delivery_harmless_iff keyedDevice_reachable hparse hparse' (by decide)
    (by decide +kernel) hothers rfl).mpr ?_
  exact ⟨by decide +kernel, by decide +kernel, by decide +kernel, .inl (by decide +kernel),
    .inr ⟨by decide +kernel, .inl rfl⟩⟩

/-- The first POST and its retransmission: the EAP peer is stepped twice, only the
first response carries the cipher suites, and the name that it advertised is
gone after the second. -/
theorem retransmitted_post_is_not_idempotent :
    Reachable steadyPlatform freshDevice freshDevice ∧
      (∃ message, coapParseMessage firstPostDatagram firstPostDatagram.length = .ok message ∧
        message.code = coapPost ∧ message.uriPath.getD [] = freshDevice.url) ∧
      let first := coapReceive steadyPlatform freshDevice firstPostDatagram []
      let second := coapReceive steadyPlatform first.1 firstPostDatagram []
      first.1.fed.length = 1 ∧ second.1.fed.length = 2 ∧ second.2 ≠ first.2 ∧
        first.1.url = freshDevice.url ∧ second.1.url ≠ freshDevice.url ∧
        ¬ SameApplication first.1 second.1 := by
  refine ⟨.start, ⟨_, rfl, by decide +kernel, by decide +kernel⟩, ?_⟩
  have hfed : (coapReceive steadyPlatform freshDevice firstPostDatagram []).1.fed.length = 1 := by
    decide +kernel
  have hfedAgain : (coapReceive steadyPlatform (coapReceive steadyPlatform freshDevice
      firstPostDatagram []).1 firstPostDatagram []).1.fed.length = 2 := by
    decide +kernel
  refine ⟨hfed, hfedAgain, by decide +kernel, by decide +kernel, by decide +kernel, ?_⟩
  intro hsame
  rw [hsame.fed, hfed] at hfedAgain
  contradiction

end CoapEap.Hateoas
