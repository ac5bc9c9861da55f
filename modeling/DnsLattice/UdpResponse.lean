import DnsLattice.EdnsModel

/-!
# Answering one UDP datagram

The server decodes a datagram, lets the resolver answer it or answers locally,
and shrinks a response which is over the limit in two steps: first it keeps
only the question section and the OPT record, then it also drops the options
of the OPT record.  What is left after the second step still holds every
question in uncompressed form, and this is what decides whether the limit is
kept.
-/

namespace DnsLattice

open Run

def minEdnsUdpPayloadSize : UInt16 := 512

def udpMaxResponseLen : ℕ := 512

def badversExtendedRcode : UInt8 := 1

def localResponse (query : Message) (rcode : Rcode) : Message where
  header := { query.header with qr := true, rcode := rcode }
  questions := query.questions
  answers := []
  authorities := []
  additionals := []

/-- The OPT record of a response to a query with the OPT `queryEdns`. -/
def responseEdns (response : Message) (ednsMax : UInt16)
    (queryEdns : Edns) : Edns :=
  let edns := match response.edns with
    | .ok (some edns) => edns
    | _ => { Edns.new ednsMax with dnssecOk := queryEdns.dnssecOk }
  { edns with udpPayloadSize := ednsMax, version := 0 }

/-- The resolver's answer, or a local `SERVFAIL` for its error. -/
def resolvedResponse (resolve : Message → Except Error Message)
    (query : Message) : Message :=
  match resolve query with
  | .ok answer => answer
  | .error _ => localResponse query .servFail

def answer (resolve : Message → Except Error Message) (query : Message)
    (ednsMax : UInt16) : Message :=
  match query.edns with
  | .error _ =>
      (localResponse query .formErr).setEdns (some (Edns.new ednsMax))
  | .ok none => (resolvedResponse resolve query).setEdns none
  | .ok (some queryEdns) =>
      if queryEdns.version > 0 then
        (localResponse query .noError).setEdns
          (some { Edns.new ednsMax with
            extendedRcode := badversExtendedRcode
            dnssecOk := queryEdns.dnssecOk })
      else
        let response := resolvedResponse resolve query
        response.setEdns (some (responseEdns response ednsMax queryEdns))

def udpResponseLimit (query : Message) (ednsMax : UInt16) : ℕ :=
  match query.edns with
  | .ok (some edns) =>
      (min (max edns.udpPayloadSize minEdnsUdpPayloadSize) ednsMax).toNat
  | _ => udpMaxResponseLen

/-- The first shrinking step: the questions and the OPT record stay. -/
def truncateResponse (response : Message) : Message :=
  let edns := match response.edns with
    | .ok edns => edns
    | .error _ => none
  { response with
    header := { response.header with truncated := true }
    answers := []
    authorities := []
    additionals := [] }.setEdns edns

def dropOptions (response : Message) : Message :=
  match response.edns with
  | .ok (some edns) => response.setEdns (some edns.clearOptions)
  | _ => response

def handleUdpDatagram (resolve : Message → Except Error Message)
    (payload : List UInt8) (ednsMax : UInt16) :
    Run Error (Option (List UInt8)) :=
  letOk (Message.decode payload) fun query =>
  let response := answer resolve query ednsMax
  letOk response.encode fun encoded =>
  let limit := udpResponseLimit query ednsMax
  if encoded.length > limit then
    let response := truncateResponse response
    letOk response.encode fun encoded =>
    if encoded.length > limit then
      letOk (dropOptions response).encode fun encoded => .ok (some encoded)
    else .ok (some encoded)
  else .ok (some encoded)

/-! ## Sizes -/

def Message.hasOpt (message : Message) : Bool :=
  message.additionals.any ResourceRecord.isOpt

theorem Message.wire_length (message : Message) :
    message.wire.length =
      12 + (message.questions.flatMap Question.wire).length +
        (message.records.flatMap ResourceRecord.wire).length := by
  simp only [Message.wire, Message.headerWire, List.length_append,
    u16ToBe_length]

theorem Edns.toRecord_wire_length (edns : Edns) :
    edns.toRecord.wire.length =
      11 + (edns.options.flatMap EdnsOption.wire).length := by
  simp only [ResourceRecord.wire, ResourceRecord.headWire, Edns.toRecord,
    List.length_append, Name.wire_length, u16ToBe_length, u32ToBe_length,
    RData.wire]
  simp only [Name.wireLength, Name.root, List.map_nil, List.sum_nil]

theorem isOpt_toRecord (edns : Edns) : edns.toRecord.isOpt = true := by
  simp [ResourceRecord.isOpt, Edns.toRecord, optData]

def responseQuestions (resolve : Message → Except Error Message)
    (query : Message) : List Question :=
  match query.edns with
  | .error _ => query.questions
  | .ok none => (resolvedResponse resolve query).questions
  | .ok (some queryEdns) =>
      if queryEdns.version > 0 then query.questions
      else (resolvedResponse resolve query).questions

theorem findOpt_isSome {found : Option (ResourceRecord × List UInt8)}
    {records : List ResourceRecord} {result}
    (h : findOpt found records = .ok result) :
    result.isSome = (found.isSome || records.any ResourceRecord.isOpt) := by
  induction records generalizing found with
  | nil =>
    obtain rfl : found = result := by simpa [findOpt] using h
    simp
  | cons record rest ih =>
    rw [findOpt] at h
    cases hdata : optData record.rdata with
    | none =>
      rw [hdata] at h
      simpa [ResourceRecord.isOpt, hdata] using ih h
    | some data =>
      rw [hdata] at h
      dsimp only at h
      split_ifs at h with hfound
      rw [ih h]
      simp [ResourceRecord.isOpt, hdata]

theorem Message.edns_isSome {message : Message} {edns : Option Edns}
    (h : message.edns = .ok edns) : edns.isSome = message.hasOpt := by
  unfold Message.edns at h
  cases hfind : findOpt none message.additionals with
  | error error => simp [hfind] at h
  | ok found =>
    have hsome := findOpt_isSome hfind
    rw [hfind] at h
    cases found with
    | none =>
      obtain rfl : none = edns := by simpa using h
      simpa [Message.hasOpt] using hsome
    | some pair =>
      dsimp only at h
      split at h
      · simp at h
      · obtain rfl := Except.ok.inj h
        simpa [Message.hasOpt] using hsome

theorem Message.edns_of_not_hasOpt
    {message : Message} (h : message.hasOpt = false) :
    message.edns = .ok none := by
  have hplain : ∀ record ∈ message.additionals, record.isOpt = false := by
    simpa [Message.hasOpt] using h
  have hfind : findOpt none (message.additionals ++ []) = findOpt none [] :=
    findOpt_of_forall_not_isOpt hplain
  unfold Message.edns
  rw [List.append_nil] at hfind
  rw [hfind]
  rfl

def optLength (edns : Option Edns) : ℕ :=
  ((edns.map Edns.toRecord).toList.flatMap ResourceRecord.wire).length

theorem optLength_ge (edns : Option Edns) :
    (if edns.isSome then 11 else 0) ≤ optLength edns := by
  cases edns with
  | none => simp
  | some edns => simp [optLength, edns.toRecord_wire_length]

theorem optLength_clearOptions (edns : Option Edns) :
    optLength (edns.map Edns.clearOptions) =
      if edns.isSome then 11 else 0 := by
  cases edns with
  | none => rfl
  | some edns =>
    have hlength := edns.clearOptions.toRecord_wire_length
    simpa [optLength, Edns.clearOptions] using hlength

theorem Message.wire_length_setEdns_ge (message : Message)
    (edns : Option Edns) :
    12 + (message.questions.flatMap Question.wire).length +
        optLength edns ≤ (message.setEdns edns).wire.length := by
  rw [Message.wire_length]
  simp only [Message.setEdns, Message.records, List.flatMap_append,
    List.length_append, optLength]
  omega

theorem Message.wire_length_setEdns_of_no_records
    {message : Message} (edns : Option Edns)
    (hanswers : message.answers = []) (hauthorities : message.authorities = [])
    (hadditionals : ∀ record ∈ message.additionals, record.isOpt = true) :
    (message.setEdns edns).wire.length =
      12 + (message.questions.flatMap Question.wire).length +
        optLength edns := by
  have hplain :
      message.additionals.filter (fun record => !record.isOpt) = [] := by
    simpa using hadditionals
  rw [Message.wire_length]
  simp only [Message.setEdns, Message.records, hanswers, hauthorities, hplain,
    List.nil_append, optLength]

/-! ## The response -/

theorem answer_eq_setEdns (resolve : Message → Except Error Message)
    (query : Message) (ednsMax : UInt16) :
    ∃ (response : Message) (edns : Option Edns),
      answer resolve query ednsMax = response.setEdns edns ∧
        response.questions = responseQuestions resolve query ∧
        edns.isSome = query.hasOpt := by
  unfold answer responseQuestions
  cases hedns : query.edns with
  | error error =>
    refine ⟨_, _, rfl, rfl, ?_⟩
    -- without an OPT record there is nothing to be malformed
    cases hopt : query.hasOpt with
    | true => rfl
    | false =>
      rw [Message.edns_of_not_hasOpt hopt] at hedns
      contradiction
  | ok queryEdns =>
    have hsome := Message.edns_isSome hedns
    cases queryEdns with
    | none => exact ⟨_, _, rfl, rfl, hsome⟩
    | some queryEdns =>
      dsimp only
      split_ifs with hversion
      · exact ⟨_, _, rfl, rfl, hsome⟩
      · exact ⟨_, _, rfl, rfl, hsome⟩

/-- What no shrinking step removes: the header, the uncompressed questions of
the response and a bare OPT record if the query has one. -/
def bareResponseLength (resolve : Message → Except Error Message)
    (query : Message) : ℕ :=
  12 + ((responseQuestions resolve query).map
      fun question => question.name.wireLength + 4).sum +
    if query.hasOpt then 11 else 0

theorem questions_wire_length (questions : List Question) :
    (questions.flatMap Question.wire).length =
      (questions.map fun question => question.name.wireLength + 4).sum := by
  rw [List.length_flatMap]
  congr 1
  apply List.map_congr_left
  intro question _
  simp [Question.wire]

section Shrinking

variable {resolve : Message → Except Error Message} {query : Message}
  {ednsMax : UInt16}

theorem bareResponseLength_le_answer :
    bareResponseLength resolve query ≤
      (answer resolve query ednsMax).wire.length := by
  obtain ⟨response, edns, hanswer, hquestions, hopt⟩ :=
    answer_eq_setEdns resolve query ednsMax
  have hge := response.wire_length_setEdns_ge edns
  have hbare := optLength_ge edns
  rw [hopt] at hbare
  rw [hanswer]
  rw [hquestions, questions_wire_length] at hge
  unfold bareResponseLength
  omega

theorem truncateResponse_answer :
    ∃ (cleared : Message) (edns : Option Edns),
      truncateResponse (answer resolve query ednsMax) =
          cleared.setEdns edns ∧
        cleared.questions = responseQuestions resolve query ∧
        cleared.answers = [] ∧ cleared.authorities = [] ∧
        cleared.additionals = [] ∧ edns.isSome = query.hasOpt := by
  obtain ⟨response, edns, hanswer, hquestions, hopt⟩ :=
    answer_eq_setEdns resolve query ednsMax
  unfold truncateResponse
  rw [hanswer, Message.edns_setEdns]
  exact ⟨_, _, rfl, hquestions, rfl, rfl, rfl, hopt⟩

theorem bareResponseLength_le_truncate :
    bareResponseLength resolve query ≤
      (truncateResponse (answer resolve query ednsMax)).wire.length := by
  obtain ⟨cleared, edns, htruncate, hquestions, _, _, _, hopt⟩ :=
    @truncateResponse_answer resolve query ednsMax
  have hge := cleared.wire_length_setEdns_ge edns
  have hbare := optLength_ge edns
  rw [hopt] at hbare
  rw [htruncate]
  rw [hquestions, questions_wire_length] at hge
  unfold bareResponseLength
  omega

theorem dropOptions_setEdns (cleared : Message) (edns : Option Edns) :
    ∃ rest : Message, dropOptions (cleared.setEdns edns) =
        rest.setEdns (edns.map Edns.clearOptions) ∧
      rest.questions = cleared.questions ∧
      rest.answers = cleared.answers ∧
      rest.authorities = cleared.authorities ∧
      (cleared.additionals = [] →
        ∀ record ∈ rest.additionals, record.isOpt = true) := by
  unfold dropOptions
  rw [Message.edns_setEdns]
  cases edns with
  | none =>
    refine ⟨cleared, rfl, rfl, rfl, rfl, ?_⟩
    intro hnil
    simp [hnil]
  | some edns =>
    refine ⟨cleared.setEdns (some edns), rfl, rfl, rfl, rfl, ?_⟩
    intro hnil
    simp [Message.setEdns, hnil, isOpt_toRecord]

theorem dropOptions_wire_length :
    (dropOptions (truncateResponse
      (answer resolve query ednsMax))).wire.length =
        bareResponseLength resolve query := by
  obtain ⟨cleared, edns, htruncate, hquestions, hanswers, hauthorities,
    hadditionals, hopt⟩ := @truncateResponse_answer resolve query ednsMax
  obtain ⟨rest, hdrop, hq, ha, hn, hr⟩ := dropOptions_setEdns cleared edns
  rw [htruncate, hdrop,
    Message.wire_length_setEdns_of_no_records _ (ha.trans hanswers)
      (hn.trans hauthorities) (hr hadditionals), hq, hquestions,
    questions_wire_length, optLength_clearOptions, hopt]
  rfl

end Shrinking

/-- The datagram sent for a query is within the limit exactly when the bare
response is. -/
theorem sent_length_le_limit_iff
    {resolve : Message → Except Error Message} {payload datagram : List UInt8}
    {ednsMax : UInt16} {query : Message}
    (hquery : Message.decode payload = .ok query)
    (hsent : handleUdpDatagram resolve payload ednsMax =
      .ok (some datagram)) :
    datagram.length ≤ udpResponseLimit query ednsMax ↔
      bareResponseLength resolve query ≤ udpResponseLimit query ednsMax := by
  unfold handleUdpDatagram at hsent
  obtain ⟨decoded, hdecoded, hsent⟩ := letOk_eq_some_iff.mp hsent
  obtain rfl := Run.ok.inj (hquery.symm.trans hdecoded)
  obtain ⟨full, hfull, hsent⟩ := letOk_eq_some_iff.mp hsent
  obtain ⟨_, _, rfl⟩ := Message.encode_eq_ok_iff.mp hfull
  have hanswer : bareResponseLength resolve query ≤ _ :=
    @bareResponseLength_le_answer resolve query ednsMax
  dsimp only at hsent
  split_ifs at hsent with hover
  · obtain ⟨short, hshort, hsent⟩ := letOk_eq_some_iff.mp hsent
    obtain ⟨_, _, rfl⟩ := Message.encode_eq_ok_iff.mp hshort
    split_ifs at hsent with hstill
    · obtain ⟨bare, hbare, hsent⟩ := letOk_eq_some_iff.mp hsent
      obtain ⟨_, _, rfl⟩ := Message.encode_eq_ok_iff.mp hbare
      obtain rfl := Option.some.inj (Run.ok.inj hsent)
      rw [dropOptions_wire_length]
    · have htruncate : bareResponseLength resolve query ≤ _ :=
        @bareResponseLength_le_truncate resolve query ednsMax
      obtain rfl := Option.some.inj (Run.ok.inj hsent)
      exact iff_of_true (by omega) (by omega)
  · obtain rfl := Option.some.inj (Run.ok.inj hsent)
    exact iff_of_true (by omega) (by omega)

theorem sent_length_le_limit_one_question :
    let payload : List UInt8 :=
      [0, 1, 1, 0, 0, 1, 0, 0, 0, 0, 0, 0, 1, 97, 0, 0, 1, 0, 1]
    let query : Message :=
      { header := ⟨1, false, .query, false, false, true, false, .noError⟩
        questions := [⟨⟨[[97]]⟩, .a, .in⟩]
        answers := []
        authorities := []
        additionals := [] }
    let datagram : List UInt8 :=
      [0, 1, 0x81, 2, 0, 1, 0, 0, 0, 0, 0, 0, 1, 97, 0, 0, 1, 0, 1]
    Message.decode payload = .ok query ∧
      handleUdpDatagram (fun _ => .error .timeout) payload 1232 =
        .ok (some datagram) ∧
      (datagram.length ≤ udpResponseLimit query 1232 ↔
        bareResponseLength (fun _ => .error .timeout) query ≤
          udpResponseLimit query 1232) := by
  intro payload query datagram
  have hquery : Message.decode payload = .ok query := by decide
  have hsent : handleUdpDatagram (fun _ => .error .timeout) payload 1232 =
      .ok (some datagram) := by decide
  exact ⟨hquery, hsent, sent_length_le_limit_iff hquery hsent⟩

/-- Two questions about a name of 255 bytes, the second one compressed: the
truncated `SERVFAIL` response repeats both names in full. -/
theorem servfail_to_long_questions_exceeds_limit :
    let labels : List Label :=
      [List.replicate 63 97, List.replicate 63 98, List.replicate 63 99,
        List.replicate 61 100]
    let payload : List UInt8 :=
      [0, 1, 1, 0, 0, 2, 0, 0, 0, 0, 0, 0] ++ Name.wire ⟨labels⟩ ++
        [0, 1, 0, 1] ++ [0xC0, 12, 0, 1, 0, 1]
    let query : Message :=
      { header := ⟨1, false, .query, false, false, true, false, .noError⟩
        questions := [⟨⟨labels⟩, .a, .in⟩, ⟨⟨labels⟩, .a, .in⟩]
        answers := []
        authorities := []
        additionals := [] }
    let datagram : List UInt8 :=
      [0, 1, 0x83, 2, 0, 2, 0, 0, 0, 0, 0, 0] ++ Name.wire ⟨labels⟩ ++
        [0, 1, 0, 1] ++ Name.wire ⟨labels⟩ ++ [0, 1, 0, 1]
    Message.decode payload = .ok query ∧
      handleUdpDatagram (fun _ => .error .timeout) payload 1232 =
        .ok (some datagram) ∧
      udpResponseLimit query 1232 = 512 ∧ datagram.length = 530 :=
  ⟨by decide +kernel, by decide +kernel, by decide +kernel,
    by decide +kernel⟩

end DnsLattice
