import DnsLattice.UdpUpstream

/-!
# The UDP backend against this server

A backend whose upstream is this server gets the server's answer whole: over
UDP if it fits into a datagram, and otherwise over TCP, after a truncated reply.
-/

namespace DnsLattice

open Run

/-- The upstream is this server: it answers the datagrams and the connection
of the backend, and only noise comes before a reply. -/
structure Upstream.ServedBy (upstream : Upstream)
    (resolve : Message → Except Error Message) (ednsMax : UInt16)
    (query : Message) : Prop where
  socket : upstream.socket = .ok ()
  send : ∀ payload, upstream.send payload = .ok ()
  inbox : ∀ payload reply,
    handleUdpDatagram resolve payload ednsMax = .ok (some reply) →
      ∃ noise rest, (∀ item ∈ noise, isNoise query item = true) ∧
        upstream.inbox payload = noise ++ .ok reply :: rest
  connect : upstream.connect = .ok ()
  write : upstream.write = .ok ()
  stream : ∀ payload, query.encode = .ok payload →
    handleTcpConnection (fun _ => resolve) ednsMax .timeout (fun _ => none)
      (frameWire payload) = .ok (upstream.stream (frameWire payload))

/-- The message survives the wire. -/
def Message.Travels (message : Message) : Prop :=
  message.Canonical ∧ ∃ bytes, message.encode = .ok bytes

/-- The query reaches the server, and its answer comes back and answers it. -/
structure Exchanged (resolve : Message → Except Error Message)
    (ednsMax : UInt16) (query : Message) : Prop where
  asked : query.Travels
  told : (answer resolve query ednsMax).Travels
  valid : validateResponse query (answer resolve query ednsMax) .matching =
    .ok ()

theorem Message.Canonical.decode {message : Message} {bytes : List UInt8}
    (h : message.Canonical) (hencode : message.encode = .ok bytes) :
    Message.decode bytes = .ok message := by
  obtain ⟨hencodable, -, rfl⟩ := Message.encode_eq_ok_iff.mp hencode
  exact Message.decode_of_holdsAt h hencodable (List.prefix_refl _)

theorem Message.Canonical.setEdns {message : Message} (h : message.Canonical)
    (edns : Option Edns) : (message.setEdns edns).Canonical := by
  refine ⟨h.opcode, h.rcode, h.questions, ?_⟩
  intro rr hmem
  rw [Message.records_setEdns, List.mem_append] at hmem
  obtain hplain | hopt := hmem
  · refine h.records rr ?_
    simp only [plainRecords, plainAdditionals, Message.records,
      List.mem_append, List.mem_filter] at hplain ⊢
    tauto
  · obtain ⟨edns, -, rfl⟩ := Option.map_eq_some_iff.mp
      (Option.mem_toList.mp hopt)
    exact edns.toRecord_canonical

theorem Message.Canonical.bareResponse {response : Message}
    {edns : Option Edns} (h : (response.setEdns edns).Canonical)
    (edns' : Option Edns) :
    ((bareResponse response).setEdns edns').Canonical := by
  have hbare : (DnsLattice.bareResponse response).Canonical :=
    ⟨h.opcode, h.rcode, h.questions, fun _ hmem => nomatch hmem⟩
  exact hbare.setEdns edns'

/-- What the client hears of an answer: itself, or a truncated form which still
has an OPT record if the answer has one. -/
def HeardOf (response heard : Message) : Prop :=
  heard = response ∨ Truncates response heard ∧
    (heard.edns = .ok none → response.edns = .ok none)

section Served

variable {upstream : Upstream} {resolve : Message → Except Error Message}
  {ednsMax : UInt16} {query : Message}

theorem exists_reply {payload : List UInt8}
    (hquery : Message.decode payload = .ok query)
    (hanswer : (answer resolve query ednsMax).Travels) :
    ∃ reply heard,
      handleUdpDatagram resolve payload ednsMax = .ok (some reply) ∧
        Message.decode reply = .ok heard ∧
        HeardOf (answer resolve query ednsMax) heard := by
  obtain ⟨edns, heq, -⟩ := answer_eq_replySource resolve query ednsMax
  obtain ⟨hcanonical, full, hfull⟩ := hanswer
  rw [heq] at hcanonical hfull ⊢
  have hexpands := (Message.encode_setEdns_iff.mp hfull).1
  have hshort := Message.encode_setEdns_iff.mpr
    ⟨hexpands.bareResponse le_rfl, rfl⟩
  have hbare := Message.encode_setEdns_iff.mpr
    ⟨hexpands.bareResponse (optLength_clearOptions_le edns), rfl⟩
  unfold handleUdpDatagram
  simp only [hquery, letOk, heq, hfull, truncateResponse_setEdns, hshort,
    dropOptions_bareResponse, hbare]
  have hheard : ∀ edns', (edns' = none → edns = none) →
      HeardOf ((replySource resolve query).setEdns edns)
        ((bareResponse (replySource resolve query)).setEdns edns') := by
    intro edns' hnone
    refine .inr ⟨truncates_bareResponse _ _ _, ?_⟩
    rw [Message.edns_setEdns, Message.edns_setEdns]
    exact fun h => congrArg Except.ok (hnone (Except.ok.inj h))
  split_ifs
  · exact ⟨_, _, rfl, (hcanonical.bareResponse _).decode hbare,
      hheard _ Option.map_eq_none_iff.mp⟩
  · exact ⟨_, _, rfl, (hcanonical.bareResponse _).decode hshort, hheard _ id⟩
  · exact ⟨_, _, rfl, hcanonical.decode hfull, .inl rfl⟩

theorem HeardOf.valid {response heard : Message} (h : HeardOf response heard)
    (idCheck : IdCheck) :
    validateResponse query heard idCheck =
      validateResponse query response idCheck := by
  obtain rfl | ⟨hshort, -⟩ := h
  · rfl
  · rw [validateResponse, hshort.header, hshort.questions]
    rfl

theorem udpExchange_served (hserved : upstream.ServedBy resolve ednsMax query)
    {sent : Message} (hnoise : isNoise sent = isNoise query)
    (h : Exchanged resolve ednsMax sent) :
    ∃ heard rest, udpExchange upstream sent [] = .ok (heard, rest) ∧
      HeardOf (answer resolve sent ednsMax) heard := by
  obtain ⟨hcanonical, payload, hpayload⟩ := h.asked
  obtain ⟨reply, heard, hreply, hheard, hform⟩ :=
    exists_reply (hcanonical.decode hpayload) h.told
  obtain ⟨noise, rest, hsilent, hinbox⟩ := hserved.inbox payload reply hreply
  have haccept : acceptDatagram sent reply = .ok (some heard) :=
    acceptDatagram_eq_some_iff.mpr ⟨hheard, (hform.valid _).trans h.valid⟩
  refine ⟨heard, rest, ?_, hform⟩
  rw [udpExchange, hpayload, ok_bind, hserved.send, Run.ofExcept, ok_bind,
    List.nil_append, hinbox, udpReceive_noise (hnoise ▸ hsilent), udpReceive,
    haccept]
  rfl

theorem tcpQuery_served (hserved : upstream.ServedBy resolve ednsMax query)
    (h : Exchanged resolve ednsMax query) :
    tcpQuery upstream query = .ok (answer resolve query ednsMax) := by
  obtain ⟨hcanonical, payload, hpayload⟩ := h.asked
  obtain ⟨hwhole, full, hfull⟩ := h.told
  have hsplit := splitFrame_frameWire (Message.length_lt_of_encode hfull) []
  have hframes := framesOf_frameWire (Message.length_lt_of_encode hpayload) []
  have hstream := hserved.stream payload hpayload
  rw [List.append_nil] at hsplit hframes
  rw [handleTcpConnection_eq, hframes, framesOf_of_none rfl] at hstream
  simp only [serveFrames, frameResponse, hcanonical.decode hpayload, letOk,
    hfull, ok_bind, List.flatMap_cons, List.flatMap_nil, List.append_nil] at hstream
  rw [tcpQuery, hserved.connect, Run.ofExcept, ok_bind, framedQuery,
    writeFramed_eq, hpayload, ok_bind, ok_bind, hserved.write, Run.ofExcept,
    ok_bind, ← Run.ok.inj hstream, readFramed_of_some hsplit,
    hwhole.decode hfull, ok_bind, ok_bind]
  dsimp only
  rw [h.valid]
  rfl

/-- The server's resolver answers the backend's copy of a query as it answers the
query, and without an extended response code. -/
structure Indifferent (resolve : Message → Except Error Message)
    (query sent : Message) : Prop where
  same : resolve sent = resolve query
  rcode : ∀ edns, (resolvedResponse resolve query).edns = .ok (some edns) →
    edns.extendedRcode = 0

theorem answer_withOpt {size : UInt16}
    (h : Indifferent resolve query (query.setEdns (some (Edns.new size))))
    (hedns : query.edns = .ok none) :
    ∃ edns, edns.extendedRcode = 0 ∧
      answer resolve (query.setEdns (some (Edns.new size))) ednsMax =
        (answer resolve query ednsMax).setEdns (some edns) := by
  have hresolved : resolvedResponse resolve
      (query.setEdns (some (Edns.new size))) =
        resolvedResponse resolve query := by
    rw [resolvedResponse, h.same]
    rfl
  refine ⟨responseEdns (resolvedResponse resolve query) ednsMax
    (Edns.new size), ?_, ?_⟩
  · rw [responseEdns]
    dsimp only
    split
    · next edns hedns => exact h.rcode edns hedns
    · rfl
  · rw [answer, answer, hedns, Message.setEdns_setEdns, Message.edns_setEdns]
    simp only [hresolved]
    rfl

namespace UdpBackend

theorem stripOpt_eq_ok {response : Message}
    (h : response.header.truncated = true ∨
      ∀ edns, response.edns = .ok (some edns) → edns.extendedRcode = 0) :
    stripOpt response = .ok (response.setEdns none) := by
  rw [stripOpt]
  split
  · next edns hedns => exact if_neg (by grind)
  · rfl

theorem rejectsEdns_eq_false {response : Message}
    (h : response.edns ≠ .ok none) : rejectsEdns response = false := by
  rw [rejectsEdns]
  split
  · next hedns => exact absurd hedns h
  · exact Bool.and_false _

/-- What is heard of an answer to the backend's copy is not taken for a refusal,
and loses its OPT record. -/
theorem stripOpt_heard {response heard : Message} {edns : Edns}
    (h : HeardOf (response.setEdns (some edns)) heard)
    (hrcode : edns.extendedRcode = 0) :
    rejectsEdns heard = false ∧ stripOpt heard = .ok (heard.setEdns none) ∧
      (heard.header.truncated = true ∨
        heard = response.setEdns (some edns)) := by
  obtain rfl | ⟨hshort, hkept⟩ := h
  · have hedns := Message.edns_setEdns response (some edns)
    refine ⟨rejectsEdns_eq_false (by simp [hedns]),
      stripOpt_eq_ok (.inr ?_), .inr rfl⟩
    intro found hfound
    rw [hedns] at hfound
    cases hfound
    exact hrcode
  · rw [Message.edns_setEdns] at hkept
    have htruncated := congrArg Header.truncated hshort.header
    exact ⟨rejectsEdns_eq_false fun h => by simpa using hkept h,
      stripOpt_eq_ok (.inl htruncated), .inl htruncated⟩

/-- A backend whose upstream is this server returns the server's answer whole,
with or without its own EDNS advertisement, over UDP if it fits and otherwise
over TCP, whatever else reaches its socket first. -/
theorem resolve_served {backend : UdpBackend}
    (hserved : upstream.ServedBy resolve ednsMax query)
    (hindifferent : ∀ sent, backend.withOpt query = some sent →
      Indifferent resolve query sent)
    (hexchanged : ∀ sent, sent = query ∨ backend.withOpt query = some sent →
      Exchanged resolve ednsMax sent) :
    backend.resolve upstream query = .ok (answer resolve query ednsMax) := by
  have hquery := hexchanged query (.inl rfl)
  have htcp := tcpQuery_served hserved hquery
  rw [UdpBackend.resolve, hserved.socket, Run.ofExcept, ok_bind, udpAnswer]
  cases hopt : backend.withOpt query with
  | none =>
    obtain ⟨heard, rest, hexchange, hform⟩ :=
      udpExchange_served hserved rfl hquery
    simp only [hexchange, ok_bind]
    change (if heard.header.truncated = true then _ else _) = _
    split_ifs with htruncated
    · exact htcp
    · obtain rfl | ⟨hshort, -⟩ := hform
      · rfl
      · exact absurd (congrArg Header.truncated hshort.header) htruncated
  | some sent =>
    have hcopied := hindifferent sent hopt
    have hsent := hexchanged sent (.inr hopt)
    obtain ⟨hedns, size, rfl⟩ := withOpt_eq_some hopt
    obtain ⟨edns, hrcode, hcopy⟩ :=
      @answer_withOpt resolve ednsMax query size hcopied hedns
    obtain ⟨heard, rest, hexchange, hform⟩ := udpExchange_served hserved
      (rfl : isNoise (query.setEdns _) = _) hsent
    rw [hcopy] at hform
    obtain ⟨haccepts, hstrip, hheard⟩ := stripOpt_heard hform hrcode
    simp only [hexchange, ok_bind, haccepts, hstrip, Bool.false_eq_true,
      if_false]
    change (if heard.header.truncated = true then _ else _) = _
    split_ifs with htruncated
    · exact htcp
    · obtain rfl := hheard.resolve_left htruncated
      rw [Message.setEdns_setEdns, answer, hedns, Message.setEdns_setEdns]
      rfl

/-- A query for the address of `a.`, which the backend sends with an OPT record
of its own, is answered with `SERVFAIL`. -/
theorem resolve_servfail :
    UdpBackend.resolve ⟨some 1232⟩ (loopback (fun _ => .error .timeout) 1232)
        (typedQuery .a) =
      .ok (answer (fun _ => .error .timeout) (typedQuery .a) 1232) := by
  have hquestion : ∀ question ∈ (typedQuery .a).questions,
      question.Canonical := by
    intro question hmem
    obtain rfl := List.mem_singleton.mp hmem
    exact ⟨⟨by decide, by decide, by decide⟩, by rintro _ ⟨⟩, by rintro _ ⟨⟩,
      by simp⟩
  have hquery : (typedQuery .a).Canonical :=
    ⟨by rintro _ ⟨⟩, by rintro _ ⟨⟩, hquestion, fun _ hmem => nomatch hmem⟩
  have hfailure : (localResponse (typedQuery .a) .servFail).Canonical :=
    ⟨by rintro _ ⟨⟩, by rintro _ ⟨⟩, hquestion, fun _ hmem => nomatch hmem⟩
  refine resolve_served ⟨rfl, fun _ => rfl, ?_, rfl, rfl, ?_⟩
    (fun _ _ => ⟨rfl, by rintro _ ⟨⟩⟩) ?_
  · intro payload reply hreply
    refine ⟨[.ok []], [], ?_, ?_⟩
    · simp only [List.mem_singleton, forall_eq]
      decide
    · simp only [loopback, hreply]
      rfl
  · intro payload hpayload
    cases hpayload
    decide
  · rintro sent (rfl | hopt)
    · exact ⟨⟨hquery, _, rfl⟩, ⟨hfailure, _, rfl⟩, by decide⟩
    · obtain rfl := Option.some.inj hopt
      exact ⟨⟨hquery.setEdns _, _, rfl⟩, ⟨hfailure.setEdns _, _, rfl⟩,
        by decide⟩

end UdpBackend

end Served

end DnsLattice
