import DnsLattice.EdnsRoundTrip

/-!
# Which responses are taken for answers to a query

The questions of a response are compared with those of the query as they were
decoded, not as they were on the wire.  An alias of a named type or class is
decoded as the named one, so that a query which carries an alias rejects even
its own echo.
-/

namespace DnsLattice

inductive IdCheck where
  | matching
  | ignored
  deriving DecidableEq, Repr

def Question.matches (answered asked : Question) : Bool :=
  answered.name.eqIgnoreCase asked.name && decide (answered.qtype = asked.qtype)
    && decide (answered.qclass = asked.qclass)

def validateResponse (query response : Message) (idCheck : IdCheck) :
    Except Error Unit :=
  let answered := response.header.id
  let asked := query.header.id
  if idCheck = .matching ∧ answered ≠ asked then
    .error (.transport
      s!"upstream response id {answered} does not match query id {asked}")
  else if response.header.qr = false then
    .error (.transport
      "upstream response does not have the QR (response) bit set")
  else if response.questions.length = query.questions.length ∧
      (response.questions.zip query.questions).all
        (fun pair => pair.1.matches pair.2) then
    .ok ()
  else
    .error (.transport
      "upstream response question section does not match the query")

theorem RecordType.fromU16_toU16_iff {rtype : RecordType} :
    RecordType.fromU16 rtype.toU16 = rtype ↔ rtype.Canonical := by
  refine ⟨fun h => ?_, RecordType.fromU16_toU16_of_canonical⟩
  rw [← h]
  exact RecordType.canonical_fromU16 _

theorem Class.eq_iff_canonical {cls found : Class}
    (h : Class.fromU16 cls.toU16 = .ok found) :
    found = cls ↔ cls.Canonical := by
  constructor
  · rintro rfl
    exact (Class.canonical_fromU16 h).1
  · intro hcanonical
    have hzero : cls ≠ .other 0 := by
      rintro rfl
      cases h
    rw [Class.fromU16_toU16_of_canonical hcanonical hzero] at h
    exact (Except.ok.inj h).symm

theorem Question.ReadAs.matches_iff {question found : Question}
    (h : question.ReadAs found) :
    found.matches question = true ↔
      question.qtype.Canonical ∧ question.qclass.Canonical := by
  have hname : found.name.eqIgnoreCase question.name = true := by
    simp [Name.eqIgnoreCase, h.name]
  rw [Question.matches, hname, Bool.true_and, Bool.and_eq_true,
    decide_eq_true_iff, decide_eq_true_iff, h.qtype,
    RecordType.fromU16_toU16_iff, Class.eq_iff_canonical h.qclass]

theorem all_matches_iff {questions found : List Question}
    (h : List.Forall₂ Question.ReadAs questions found) :
    (found.zip questions).all (fun pair => pair.1.matches pair.2) = true ↔
      ∀ question ∈ questions,
        question.qtype.Canonical ∧ question.qclass.Canonical := by
  induction h with
  | nil => simp
  | cons hread _ ih =>
    rw [List.zip_cons_cons, List.all_cons, Bool.and_eq_true, ih,
      hread.matches_iff, List.forall_mem_cons]

theorem validateResponse_eq_ok_iff {query response : Message}
    (hid : response.header.id = query.header.id)
    (hqr : response.header.qr = true) (idCheck : IdCheck) :
    validateResponse query response idCheck = .ok () ↔
      response.questions.length = query.questions.length ∧
        (response.questions.zip query.questions).all
          (fun pair => pair.1.matches pair.2) = true := by
  unfold validateResponse
  dsimp only
  rw [if_neg (fun h => h.2 hid), if_neg (by simp [hqr])]
  split_ifs with hquestions
  · exact ⟨fun _ => hquestions, fun _ => rfl⟩
  · exact ⟨by rintro ⟨⟩, fun h => absurd h hquestions⟩

/-- The echo of a query, with the QR bit set, is accepted exactly if no
question of the query carries an alias of a named type or class. -/
theorem validateResponse_echo_iff {query response : Message}
    {bytes : List UInt8}
    (hnames : ∀ question ∈ query.questions, question.name.WellFormed)
    (hencode : query.encode = .ok bytes)
    (hdecode : Message.decode bytes = .ok response) :
    validateResponse query
        { response with header := { response.header with qr := true } }
        .matching = .ok () ↔
      ∀ question ∈ query.questions,
        question.qtype.Canonical ∧ question.qclass.Canonical := by
  obtain ⟨hheader, hread, _⟩ :=
    decode_of_questions_wire hnames hencode hdecode
  refine (validateResponse_eq_ok_iff ?_ rfl _).trans ?_
  · change response.header.id = query.header.id
    rw [hheader]
    rfl
  · rw [all_matches_iff hread, and_iff_right hread.length_eq.symm]

/-- A query for `a.` of the given type. -/
def typedQuery (qtype : RecordType) : Message :=
  ⟨⟨1, false, .query, false, false, true, false, .noError⟩,
    [⟨⟨[[97]]⟩, qtype, .in⟩], [], [], []⟩

/-- A query for addresses accepts its echo. -/
theorem validateResponse_address_echo :
    ∃ bytes response, (typedQuery .a).encode = .ok bytes ∧
      Message.decode bytes = .ok response ∧
      validateResponse (typedQuery .a)
        { response with header := { response.header with qr := true } }
        .matching = .ok () := by
  refine ⟨_, typedQuery .a, rfl, by decide, ?_⟩
  apply (validateResponse_echo_iff _ rfl (by decide)).mpr
  · rintro question hquestion
    obtain rfl := List.mem_singleton.mp hquestion
    exact ⟨by rintro _ ⟨⟩, by rintro _ ⟨⟩⟩
  · rintro question hquestion
    obtain rfl := List.mem_singleton.mp hquestion
    exact ⟨by decide, by decide, by decide⟩

/-- The alias of the same type is not accepted. -/
theorem validateResponse_alias_echo :
    ∃ bytes response, (typedQuery (.other 1)).encode = .ok bytes ∧
      Message.decode bytes = .ok response ∧
      validateResponse (typedQuery (.other 1))
        { response with header := { response.header with qr := true } }
        .matching = .error (.transport
          "upstream response question section does not match the query") :=
  ⟨_, typedQuery .a, rfl, by decide, by decide⟩

end DnsLattice
