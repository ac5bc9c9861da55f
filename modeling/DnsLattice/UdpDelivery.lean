import DnsLattice.DecodedMessages
import DnsLattice.ServerAnswer

/-!
# Which UDP queries get a reply

Messages are read with name compression and written without it.  The UDP
handler first encodes the whole response and gives up when this fails, even
where the truncated response would be short.  So a query gets its reply exactly
when the uncompressed response is within the limit of a DNS message.
-/

namespace DnsLattice

open Run

/-! ## Uncompressed responses -/

def ResourceRecord.expandedLength (rr : ResourceRecord) : ℕ :=
  rr.name.wireLength + 10 + rr.rdata.wire.length

theorem ResourceRecord.wire_length (rr : ResourceRecord) :
    rr.wire.length = rr.expandedLength := by
  simp only [ResourceRecord.wire, ResourceRecord.headWire,
    List.length_append, Name.wire_length, u16ToBe_length, u32ToBe_length,
    ResourceRecord.expandedLength]

theorem records_wire_length (records : List ResourceRecord) :
    (records.flatMap ResourceRecord.wire).length =
      (records.map ResourceRecord.expandedLength).sum := by
  rw [List.length_flatMap]
  exact congrArg List.sum
    (List.map_congr_left fun rr _ => rr.wire_length)

def Message.plainRecords (message : Message) : List ResourceRecord :=
  message.answers ++ message.authorities ++ message.plainAdditionals

/-- A message with an OPT record of `opt` bytes in place of its own has an
uncompressed form. -/
structure Message.Expands (message : Message) (opt : ℕ) : Prop where
  questions : ∀ question ∈ message.questions, question.name.Encodable
  records : ∀ rr ∈ message.plainRecords,
    rr.name.Encodable ∧ rr.rdata.Encodable
  length : 12 +
      (message.questions.map fun question => question.name.wireLength + 4).sum +
      (message.plainRecords.map ResourceRecord.expandedLength).sum + opt ≤
    65535

theorem Message.records_setEdns (message : Message) (edns : Option Edns) :
    (message.setEdns edns).records =
      message.plainRecords ++ (edns.map Edns.toRecord).toList := by
  simp [Message.records, Message.setEdns, Message.plainRecords,
    Message.plainAdditionals]

theorem Message.wire_length_setEdns (message : Message) (edns : Option Edns) :
    (message.setEdns edns).wire.length =
      12 + (message.questions.map fun question =>
          question.name.wireLength + 4).sum +
        (message.plainRecords.map ResourceRecord.expandedLength).sum +
        optLength edns := by
  have hquestions : (message.setEdns edns).questions = message.questions := rfl
  rw [Message.wire_length, message.records_setEdns, List.flatMap_append,
    List.length_append, records_wire_length, hquestions,
    questions_wire_length, optLength]
  omega

theorem length_le_sum_map {α : Type} {items : List α} {size : α → ℕ}
    (hsize : ∀ item ∈ items, 1 ≤ size item) :
    items.length ≤ (items.map size).sum := by
  have h := List.card_nsmul_le_sum (items.map size) 1 (by simpa using hsize)
  simpa using h

theorem encodable_toRecord {edns : Edns}
    (hlength : edns.toRecord.wire.length ≤ 65535) :
    edns.toRecord.Encodable := by
  rw [ResourceRecord.wire_length, ResourceRecord.expandedLength] at hlength
  have hroot : Name.root.Encodable := ⟨by decide, by decide⟩
  exact ⟨hroot, trivial, by omega⟩

/-- The section counts and the data lengths follow from the total. -/
theorem Message.Expands.encodable {message : Message} {edns : Option Edns}
    (h : message.Expands (optLength edns)) :
    (message.setEdns edns).Encodable := by
  have hlength := h.length
  have hquestions : message.questions.length ≤
      (message.questions.map fun question =>
        question.name.wireLength + 4).sum :=
    length_le_sum_map fun _ _ => by omega
  have hrecords : message.plainRecords.length ≤
      (message.plainRecords.map ResourceRecord.expandedLength).sum :=
    length_le_sum_map fun _ _ => by
      rw [ResourceRecord.expandedLength]
      omega
  have hsplit : message.plainRecords.length = message.answers.length +
      message.authorities.length + message.plainAdditionals.length := by
    simp [Message.plainRecords, Nat.add_assoc]
  have hadditionals : (message.setEdns edns).additionals.length ≤
      message.plainAdditionals.length + optLength edns := by
    have hopt := optLength_ge edns
    have happend : (message.setEdns edns).additionals.length =
        message.plainAdditionals.length +
          (edns.map Edns.toRecord).toList.length :=
      List.length_append
    cases edns with
    | none => exact happend.le
    | some edns =>
      rw [happend]
      simp only [Option.isSome_some, if_true] at hopt
      simp only [Option.map_some, Option.toList_some, List.length_singleton]
      omega
  refine ⟨?_, ?_, ?_, by omega, h.questions, ?_⟩
  · change message.questions.length ≤ 65535
    omega
  · change message.answers.length ≤ 65535
    omega
  · change message.authorities.length ≤ 65535
    omega
  · rw [message.records_setEdns]
    intro rr hmem
    obtain hmem | hmem := List.mem_append.mp hmem
    · obtain ⟨hname, hdata⟩ := h.records rr hmem
      refine ⟨hname, hdata, ?_⟩
      have hle : rr.expandedLength ≤
          (message.plainRecords.map ResourceRecord.expandedLength).sum :=
        List.single_le_sum (by simp) _ (List.mem_map_of_mem hmem)
      rw [ResourceRecord.expandedLength] at hle
      omega
    · cases edns with
      | none => cases hmem
      | some edns =>
        obtain rfl := List.mem_singleton.mp hmem
        apply encodable_toRecord
        have hopt : optLength (some edns) = edns.toRecord.wire.length := by
          simp [optLength]
        omega

theorem Message.encode_setEdns_iff {message : Message} {edns : Option Edns}
    {out : List UInt8} :
    (message.setEdns edns).encode = .ok out ↔
      message.Expands (optLength edns) ∧
        out = (message.setEdns edns).wire := by
  rw [Message.encode_eq_ok_iff, message.wire_length_setEdns]
  constructor
  · rintro ⟨hencodable, hlength, hout⟩
    refine ⟨⟨hencodable.questions, ?_, hlength⟩, hout⟩
    intro rr hmem
    have hrr := hencodable.records rr (by
      rw [message.records_setEdns]
      exact List.mem_append_left _ hmem)
    exact ⟨hrr.name, hrr.rdata⟩
  · rintro ⟨hexpands, hout⟩
    exact ⟨hexpands.encodable, hexpands.length, hout⟩

/-! ## The response to a query -/

def replySource (resolve : Message → Except Error Message)
    (query : Message) : Message :=
  match query.edns with
  | .error _ => localResponse query .formErr
  | .ok none => resolvedResponse resolve query
  | .ok (some queryEdns) =>
      if queryEdns.version > 0 then localResponse query .noError
      else resolvedResponse resolve query

/-- The length of the OPT record of the response: none for a query without
one, and otherwise with the options which the resolver gave. -/
def replyOptLength (resolve : Message → Except Error Message)
    (query : Message) : ℕ :=
  if query.hasOpt then
    match (replySource resolve query).edns with
    | .ok (some edns) => 11 + (edns.options.flatMap EdnsOption.wire).length
    | _ => 11
  else 0

/-- The response to a query has an uncompressed form within the limit of a DNS
message. -/
def ReplyExpands (resolve : Message → Except Error Message)
    (query : Message) : Prop :=
  (replySource resolve query).Expands (replyOptLength resolve query)

theorem optLength_some (edns : Edns) :
    optLength (some edns) =
      11 + (edns.options.flatMap EdnsOption.wire).length := by
  simp [optLength, edns.toRecord_wire_length]

theorem localResponse_edns (query : Message) (rcode : Rcode) :
    (localResponse query rcode).edns = .ok none :=
  rfl

theorem optLength_responseEdns (response : Message) (ednsMax : UInt16)
    (queryEdns : Edns) :
    optLength (some (responseEdns response ednsMax queryEdns)) =
      match response.edns with
      | .ok (some edns) => 11 + (edns.options.flatMap EdnsOption.wire).length
      | _ => 11 := by
  rw [optLength_some, responseEdns]
  cases response.edns with
  | error error => rfl
  | ok edns => cases edns <;> rfl

theorem answer_eq_replySource (resolve : Message → Except Error Message)
    (query : Message) (ednsMax : UInt16) :
    ∃ edns, answer resolve query ednsMax =
        (replySource resolve query).setEdns edns ∧
      optLength edns = replyOptLength resolve query := by
  unfold replyOptLength replySource answer
  cases hedns : query.edns with
  | error error =>
    have hopt : query.hasOpt = true := by
      by_contra hnone
      rw [Message.edns_of_not_hasOpt (by simpa using hnone)] at hedns
      cases hedns
    refine ⟨_, rfl, ?_⟩
    simp only [hopt, if_true, localResponse_edns]
    exact optLength_some _
  | ok queryEdns =>
    have hsome := Message.edns_isSome hedns
    cases queryEdns with
    | none =>
      refine ⟨_, rfl, ?_⟩
      rw [← hsome]
      rfl
    | some queryEdns =>
      rw [← hsome, Option.isSome_some, if_pos rfl]
      dsimp only
      by_cases hversion : queryEdns.version > 0
      · rw [if_pos hversion, if_pos hversion, localResponse_edns]
        exact ⟨_, rfl, optLength_some _⟩
      · rw [if_neg hversion, if_neg hversion]
        exact ⟨_, rfl, optLength_responseEdns _ _ _⟩

/-! ## Shrinking -/

def bareResponse (response : Message) : Message :=
  { response with
    header := { response.header with truncated := true }
    answers := []
    authorities := []
    additionals := [] }

theorem Message.setEdns_setEdns (message : Message) (edns edns' : Option Edns) :
    (message.setEdns edns).setEdns edns' = message.setEdns edns' := by
  have hplain := message.plainAdditionals_setEdns edns
  unfold Message.plainAdditionals at hplain
  rw [Message.setEdns, hplain]
  rfl

theorem truncateResponse_setEdns (response : Message) (edns : Option Edns) :
    truncateResponse (response.setEdns edns) =
      (bareResponse response).setEdns edns := by
  rw [truncateResponse, Message.edns_setEdns]
  rfl

theorem dropOptions_bareResponse (response : Message) (edns : Option Edns) :
    dropOptions ((bareResponse response).setEdns edns) =
      (bareResponse response).setEdns (edns.map Edns.clearOptions) := by
  rw [dropOptions, Message.edns_setEdns]
  cases edns with
  | none => rfl
  | some edns => exact Message.setEdns_setEdns _ _ _

theorem optLength_clearOptions_le (edns : Option Edns) :
    optLength (edns.map Edns.clearOptions) ≤ optLength edns := by
  rw [optLength_clearOptions]
  exact optLength_ge edns

/-- Whatever is left of a response which could be encoded can be encoded. -/
theorem Message.Expands.bareResponse {response : Message} {opt opt' : ℕ}
    (h : response.Expands opt) (hle : opt' ≤ opt) :
    (bareResponse response).Expands opt' := by
  have hlength := h.length
  refine ⟨h.questions, fun _ hmem => absurd hmem List.not_mem_nil, ?_⟩
  change 12 + (response.questions.map _).sum + 0 + opt' ≤ 65535
  omega

/-- A truncated form of a response: no answer, no authority and at most an OPT
record. -/
structure Truncates (response short : Message) : Prop where
  header : short.header = { response.header with truncated := true }
  questions : short.questions = response.questions
  answers : short.answers = []
  authorities : short.authorities = []
  plain : short.plainAdditionals = []
  opt : short.optRecords.length ≤ 1

theorem truncates_bareResponse (response : Message) (edns edns' : Option Edns) :
    Truncates (response.setEdns edns)
      ((bareResponse response).setEdns edns') := by
  refine ⟨rfl, rfl, rfl, rfl, Message.plainAdditionals_setEdns _ _, ?_⟩
  rw [Message.optRecords_setEdns]
  cases edns' with
  | none => exact Nat.zero_le _
  | some edns => exact le_rfl

/-- The datagram is the full response if it is within the limit, and a
truncated form of it otherwise. -/
inductive IsReply (response : Message) (limit : ℕ) (datagram : List UInt8) :
    Prop
  | full (hencode : response.encode = .ok datagram)
      (hlimit : datagram.length ≤ limit)
  | truncated (short : Message) (hshort : Truncates response short)
      (hencode : short.encode = .ok datagram)
      (hlimit : ∀ full, response.encode = .ok full → limit < full.length)

/-- A decoded query gets exactly one reply, which is the full response or a
truncated one, if and only if the response has an uncompressed form.  No other
decoded query gets any. -/
theorem replies_iff
    {resolve : Message → Except Error Message} {payload : List UInt8}
    {ednsMax : UInt16} {query : Message}
    (hquery : Message.decode payload = .ok query) :
    (∃ datagram,
      handleUdpDatagram resolve payload ednsMax = .ok (some datagram) ∧
        IsReply (answer resolve query ednsMax)
          (udpResponseLimit query ednsMax) datagram) ↔
      ReplyExpands resolve query := by
  obtain ⟨edns, hanswer, hopt⟩ := answer_eq_replySource resolve query ednsMax
  rw [ReplyExpands, ← hopt]
  constructor
  · rintro ⟨datagram, hsent, _⟩
    obtain ⟨_, hdecoded, hsent⟩ := letOk_eq_some_iff.mp hsent
    obtain rfl := Run.ok.inj (hquery.symm.trans hdecoded)
    obtain ⟨full, hfull, _⟩ := letOk_eq_some_iff.mp hsent
    rw [hanswer] at hfull
    exact (Message.encode_setEdns_iff.mp hfull).1
  · intro hexpands
    have hfull := Message.encode_setEdns_iff.mpr ⟨hexpands, rfl⟩
    have hshort := Message.encode_setEdns_iff.mpr
      ⟨hexpands.bareResponse le_rfl, rfl⟩
    have hbare := Message.encode_setEdns_iff.mpr
      ⟨hexpands.bareResponse (optLength_clearOptions_le edns), rfl⟩
    unfold handleUdpDatagram
    simp only [hquery, letOk, hanswer, hfull, truncateResponse_setEdns, hshort,
      dropOptions_bareResponse, hbare]
    split_ifs with hover hstill
    · refine ⟨_, rfl, .truncated _ (truncates_bareResponse _ _ _) hbare ?_⟩
      intro full hencode
      exact Run.ok.inj (hfull.symm.trans hencode) ▸ hover
    · refine ⟨_, rfl, .truncated _ (truncates_bareResponse _ _ _) hshort ?_⟩
      intro full hencode
      exact Run.ok.inj (hfull.symm.trans hencode) ▸ hover
    · exact ⟨_, rfl, .full hfull (not_lt.mp hover)⟩

/-- The `SERVFAIL` reply to a question about a short name. -/
theorem replies_to_short_question :
    let payload : List UInt8 :=
      [0, 1, 1, 0, 0, 1, 0, 0, 0, 0, 0, 0, 1, 97, 0, 0, 1, 0, 1]
    let query : Message :=
      { header := ⟨1, false, .query, false, false, true, false, .noError⟩
        questions := [⟨⟨[[97]]⟩, .a, .in⟩]
        answers := []
        authorities := []
        additionals := [] }
    Message.decode payload = .ok query ∧
      ∃ datagram, handleUdpDatagram (fun _ => .error .timeout) payload 1232 =
        .ok (some datagram) := by
  intro payload query
  have hquery : Message.decode payload = .ok query := by decide
  have hexpands : ReplyExpands (fun _ => .error .timeout) query := by
    refine ⟨?_, fun _ hmem => absurd hmem List.not_mem_nil, by decide⟩
    intro question hmem
    obtain rfl := List.mem_singleton.mp hmem
    exact ⟨by decide, by decide⟩
  obtain ⟨datagram, hsent, _⟩ :=
    (@replies_iff _ _ 1232 _ hquery).mpr hexpands
  exact ⟨hquery, datagram, hsent⟩

theorem handleUdpDatagram_of_encode_err
    {resolve : Message → Except Error Message} {payload : List UInt8}
    {ednsMax : UInt16} {query : Message} {error : Error}
    (hquery : Message.decode payload = .ok query)
    (hencode : (answer resolve query ednsMax).encode = .err error) :
    handleUdpDatagram resolve payload ednsMax = .ok none := by
  unfold handleUdpDatagram
  simp only [hquery, letOk, hencode]

/-! ## An answer which does not expand -/

def longName : Name where
  labels := [List.replicate 63 97, List.replicate 63 98, List.replicate 63 99,
    List.replicate 61 100]

theorem longName_wellFormed : longName.WellFormed :=
  ⟨by decide, by decide, by decide⟩

def longQuery : Message where
  header := ⟨1, false, .query, false, false, true, false, .noError⟩
  questions := [⟨longName, .ns, .in⟩]
  answers := []
  authorities := []
  additionals := []

def bulkyAnswer : Message where
  header := ⟨1, true, .query, false, false, true, true, .noError⟩
  questions := [⟨longName, .ns, .in⟩]
  answers := List.replicate 126 ⟨longName, .ns, .in, 60, .ns longName⟩
  authorities := []
  additionals := []

def bulkyRecordWire : List UInt8 :=
  [0xC0, 12] ++ (u16ToBe 2 ++ (u16ToBe 1 ++ (u32ToBe 60 ++
    (u16ToBe 2 ++ [0xC0, 12]))))

def bulkyAnswerWire : List UInt8 :=
  Message.headerWire bulkyAnswer.header ⟨1, 126, 0, 0⟩ ++
    (bulkyAnswer.questions.flatMap Question.wire ++
      bulkyAnswer.answers.flatMap fun _ => bulkyRecordWire)

theorem decodeRr_bulkyRecordWire {buf : List UInt8} {pos : ℕ}
    (hpos : 12 < pos) (hname : HoldsAt buf 12 longName.wire)
    (hbuf : HoldsAt buf pos bulkyRecordWire) :
    decodeRr buf pos =
      .ok (⟨longName, .ns, .in, 60, .ns longName⟩, pos + 14) := by
  have howner := hbuf.left
  have hrtype := hbuf.right.left
  have hcls := hbuf.right.right.left
  have httl := hbuf.right.right.right.left
  have hrdlength := hbuf.right.right.right.right.left
  have hrdata := hbuf.right.right.right.right.right
  have hdata : RData.decode buf (pos + 2 + 2 + 2 + 4 + 2) .ns 2 =
      .ok (.ns longName, pos + 14) := by
    have hlength := hrdata.length_le (by decide)
    have htarget : 12 < pos + 2 + 2 + 2 + 4 + 2 := by omega
    simp only [u16ToBe_length, u32ToBe_length, List.length_cons,
      List.length_nil] at hlength hrdata
    unfold RData.decode decodeCheckedName
    dsimp only
    rw [if_neg (by omega), decodeName_of_pointer longName_wellFormed hrdata
      (by decide) htarget hname, ok_bind]
    dsimp only
    rw [sub_eq_ok (by omega), ok_bind, if_neg (by omega)]
    rfl
  simp only [u16ToBe_length, u32ToBe_length, List.length_cons,
    List.length_nil] at *
  unfold decodeRr
  rw [decodeName_of_pointer longName_wellFormed howner (by decide) hpos hname,
    ok_bind]
  dsimp only
  rw [readU16_of_holdsAt hrtype, ok_bind]
  dsimp only
  rw [readU16_of_holdsAt hcls, ok_bind]
  dsimp only
  have hclass : decodeClass ((2 : UInt16) == optRtype) 1 = .ok .in := rfl
  rw [hclass, ok_bind, readU32_of_holdsAt httl, ok_bind]
  dsimp only
  rw [readU16_of_holdsAt hrdlength, ok_bind]
  exact congrArg (· >>= _) hdata

theorem decode_bulkyAnswerWire :
    Message.decode bulkyAnswerWire = .ok bulkyAnswer := by
  have hbuf : HoldsAt bulkyAnswerWire 0 bulkyAnswerWire := List.prefix_refl _
  have hlength : (Message.headerWire bulkyAnswer.header
      ⟨1, 126, 0, 0⟩).length = 12 := rfl
  have hheader := hbuf.left
  have hquestions := hbuf.right.left
  have hanswers := hbuf.right.right
  rw [hlength] at hquestions hanswers
  have hname : HoldsAt bulkyAnswerWire 12 longName.wire := by
    have hwire : bulkyAnswer.questions.flatMap Question.wire =
        longName.wire ++ (u16ToBe 2 ++ u16ToBe 1) := by
      simp [bulkyAnswer, Question.wire, RecordType.toU16, Class.toU16]
    rw [hwire] at hquestions
    exact hquestions.left
  -- no record starts in the header
  have hstart : ∀ pos ≤ 12, bulkyAnswerWire[pos]? ≠ some 0xC0 := by
    intro pos hle
    obtain hlt | rfl := Nat.lt_or_eq_of_le hle
    · have hbyte := hheader.getElem? (hlength ▸ hlt)
      rw [Nat.zero_add] at hbyte
      rw [hbyte]
      clear hle hbyte
      revert pos
      decide
    · have hbyte : bulkyAnswerWire[12]? = some 63 := hname.head
      rw [hbyte]
      decide
  have hrecord : ∀ rr ∈ bulkyAnswer.answers, ∀ pos,
      HoldsAt bulkyAnswerWire pos bulkyRecordWire →
        decodeRr bulkyAnswerWire pos =
          .ok (rr, pos + bulkyRecordWire.length) := by
    intro rr hmem pos hholds
    obtain rfl := List.eq_of_mem_replicate hmem
    refine decodeRr_bulkyRecordWire ?_ hname hholds
    by_contra hle
    exact hstart pos (not_lt.mp hle) hholds.head
  have hquestion : Question.Canonical ⟨longName, .ns, .in⟩ :=
    ⟨longName_wellFormed, by rintro _ ⟨⟩, by rintro _ ⟨⟩, by simp⟩
  have hopcode : bulkyAnswer.header.opcode.Canonical := by rintro _ ⟨⟩
  have hrcode : bulkyAnswer.header.rcode.Canonical := by rintro _ ⟨⟩
  unfold Message.decode
  rw [decodeHeader_of_holdsAt hopcode hrcode hheader, ok_bind]
  change (decodeMany (decodeQuestion bulkyAnswerWire)
    bulkyAnswer.questions.length 12 >>= _) = _
  rw [decodeMany_of_holdsAt (fun question hmem pos hholds => by
    obtain rfl := List.mem_singleton.mp hmem
    exact decodeQuestion_of_holdsAt hquestion hholds) hquestions, ok_bind]
  change (decodeMany (decodeRr bulkyAnswerWire)
    bulkyAnswer.answers.length _ >>= _) = _
  rw [decodeMany_of_holdsAt hrecord hanswers, ok_bind]
  rfl

theorem longQuery_canonical : longQuery.Canonical := by
  refine ⟨by rintro _ ⟨⟩, by rintro _ ⟨⟩, ?_, fun _ hmem => absurd hmem List.not_mem_nil⟩
  intro question hmem
  obtain rfl := List.mem_singleton.mp hmem
  exact ⟨longName_wellFormed, by rintro _ ⟨⟩, by rintro _ ⟨⟩, by simp⟩

theorem longQuestions_encodable :
    ∀ question ∈ longQuery.questions, question.name.Encodable := by
  intro question hmem
  obtain rfl := List.mem_singleton.mp hmem
  exact longName_wellFormed.encodable

theorem longQuestions_length :
    (longQuery.questions.map fun question =>
      question.name.wireLength + 4).sum = 259 := by
  decide

theorem bulkyAnswer_length :
    (bulkyAnswer.plainRecords.map ResourceRecord.expandedLength).sum =
      126 * 520 := by
  have hrecord : ResourceRecord.expandedLength
      ⟨longName, .ns, .in, 60, .ns longName⟩ = 520 := by
    decide +kernel
  simp [Message.plainRecords, bulkyAnswer, hrecord, Message.plainAdditionals]

theorem bulkyAnswerWire_length : bulkyAnswerWire.length = 2035 := by
  have hquestions : bulkyAnswer.questions = longQuery.questions := rfl
  have hheader : (Message.headerWire bulkyAnswer.header
      ⟨1, 126, 0, 0⟩).length = 12 := rfl
  have hrecord : bulkyRecordWire.length = 14 := rfl
  have hanswers : bulkyAnswer.answers.length = 126 := List.length_replicate
  rw [bulkyAnswerWire, List.length_append, List.length_append, hheader,
    hquestions, questions_wire_length, longQuestions_length,
    List.length_flatMap, hrecord, List.map_const', List.sum_replicate,
    hanswers, smul_eq_mul]

theorem encode_bulkyAnswer :
    (bulkyAnswer.setEdns none).encode = .err .messageTooLong := by
  have hrecords : ∀ rr ∈ (bulkyAnswer.setEdns none).records,
      rr.name.Encodable ∧ rr.rdata.Encodable := by
    intro rr hmem
    rw [Message.records_setEdns] at hmem
    have hanswer : rr ∈ bulkyAnswer.answers := by
      simpa [Message.plainRecords, Message.plainAdditionals, bulkyAnswer]
        using hmem
    obtain rfl := List.eq_of_mem_replicate hanswer
    exact ⟨longName_wellFormed.encodable, longName_wellFormed.encodable⟩
  have houtcome : OkOrTooLong (bulkyAnswer.setEdns none).encode :=
    Message.encode_okOrTooLong longQuestions_encodable hrecords
  obtain hlong | ⟨out, hout⟩ := houtcome
  · exact hlong
  · have hlength := (Message.encode_setEdns_iff.mp hout).1.length
    have hquestions : bulkyAnswer.questions = longQuery.questions := rfl
    rw [hquestions, longQuestions_length, bulkyAnswer_length] at hlength
    omega

/-- A legal answer of 2035 bytes to a query without OPT record.  Its reply
would be truncated to 271 bytes, but the query gets none. -/
theorem bulkyAnswer_not_sent :
    Message.decode longQuery.wire = .ok longQuery ∧
      Message.decode bulkyAnswerWire = .ok bulkyAnswer ∧
      bulkyAnswerWire.length = 2035 ∧
      handleUdpDatagram (fun _ => .ok bulkyAnswer) longQuery.wire 1232 =
        .ok none ∧
      udpResponseLimit longQuery 1232 = 512 ∧
      ∃ short datagram,
        Truncates (answer (fun _ => .ok bulkyAnswer) longQuery 1232) short ∧
        short.encode = .ok datagram ∧ datagram.length = 271 := by
  have hlength : 12 + (longQuery.questions.map fun question =>
      question.name.wireLength + 4).sum + 0 + 0 = 271 := by
    rw [longQuestions_length]
  have hexpands : longQuery.Expands 0 :=
    ⟨longQuestions_encodable, fun _ hmem => absurd hmem List.not_mem_nil,
      hlength.trans_le (by decide)⟩
  have hbare : (bareResponse bulkyAnswer).Expands 0 :=
    ⟨longQuestions_encodable, fun _ hmem => absurd hmem List.not_mem_nil,
      hlength.trans_le (by decide)⟩
  have hquery : Message.decode longQuery.wire = .ok longQuery :=
    Message.decode_of_holdsAt longQuery_canonical
      (@Message.Expands.encodable longQuery none hexpands)
      (List.prefix_refl _)
  have hanswer : answer (fun _ => .ok bulkyAnswer) longQuery 1232 =
      bulkyAnswer.setEdns none := rfl
  rw [hanswer]
  refine ⟨hquery, decode_bulkyAnswerWire, bulkyAnswerWire_length, ?_, rfl,
    (bareResponse bulkyAnswer).setEdns none, _, truncates_bareResponse _ _ _,
    Message.encode_setEdns_iff.mpr ⟨hbare, rfl⟩, ?_⟩
  · exact handleUdpDatagram_of_encode_err hquery
      (hanswer ▸ encode_bulkyAnswer)
  · have hquestions : (bareResponse bulkyAnswer).questions =
        longQuery.questions := rfl
    have hrecords : (bareResponse bulkyAnswer).plainRecords = [] := rfl
    rw [Message.wire_length_setEdns, hquestions, hrecords]
    exact hlength

end DnsLattice
