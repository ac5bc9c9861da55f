import DnsLattice.ServerAnswer
import DnsLattice.Isolation

/-!
# What a stored answer keeps of the transaction which filled it

The message id, the RD and AA bits, the question section and the OPT records
of an upstream answer belong to one transaction.  Two answers which differ
only there are stored with the same lifetime, and every later query gets the
same response from either of their entries.
-/

namespace DnsLattice

/-- The answers are the same apart from the message id, RD, AA, the question
section and the OPT records of the additional section. -/
structure Message.SameContent (answer other : Message) : Prop where
  qr : answer.header.qr = other.header.qr
  opcode : answer.header.opcode = other.header.opcode
  truncated : answer.header.truncated = other.header.truncated
  recursionAvailable :
    answer.header.recursionAvailable = other.header.recursionAvailable
  rcode : answer.header.rcode = other.header.rcode
  answers : answer.answers = other.answers
  authorities : answer.authorities = other.authorities
  additionals : answer.plainAdditionals = other.plainAdditionals

/-! ## Storing and responding -/

/-- Once the transaction fields are those of a query, nothing is left by which
the answers differ. -/
theorem Message.SameContent.respondTo_eq {answer other : Message}
    (h : answer.SameContent other) (query : Message) :
    respondTo query (answer.setEdns none) =
      respondTo query (other.setEdns none) := by
  have hadditionals :
      (answer.additionals.filter fun record => !record.isOpt) =
        other.additionals.filter fun record => !record.isOpt := h.additionals
  simp only [respondTo, Message.setEdns, h.qr, h.opcode, h.truncated,
    h.recursionAvailable, h.rcode, h.answers, h.authorities, hadditionals]

theorem mapTtl_respondTo (change : UInt32 → UInt32) (query message : Message) :
    mapTtl change (respondTo query message) =
      respondTo query (mapTtl change message) :=
  rfl

theorem negativeTtl_respondTo (policy : TtlPolicy) (query message : Message) :
    negativeTtl policy (respondTo query message) =
      (negativeTtl policy message).map fun (ttl, limited) =>
        (ttl, respondTo query limited) := by
  have hauthorities : (respondTo query message).authorities =
      message.authorities := rfl
  unfold negativeTtl
  rw [hauthorities]
  cases limitSoa policy.negative message.authorities with
  | some limited => rfl
  | none => cases policy.negativeWithoutSoa <;> rfl

theorem normalise_respondTo (query answer : Message) (policy : TtlPolicy) :
    normalise (respondTo query (answer.setEdns none)) policy =
      (normalise answer policy).map fun (message, ttl) =>
        (respondTo query message, ttl) := by
  have hnegative : isNegative (respondTo query (answer.setEdns none)) =
      isNegative answer := rfl
  have hstripped : (respondTo query (answer.setEdns none)).setEdns none =
      respondTo query (answer.setEdns none) :=
    congrArg (respondTo query) (setEdns_none_idem answer)
  unfold normalise
  rw [hnegative, hstripped]
  cases hkind : isNegative answer with
  | none => rfl
  | some negative =>
    cases negative with
    | false =>
      simp only [Option.bind_eq_bind, Option.bind_some,
        Bool.false_eq_true, if_false, mapTtl_respondTo]
      change (recordsTtl (mapTtl policy.positive.clamp
        (answer.setEdns none))).bind _ = _
      cases recordsTtl (mapTtl policy.positive.clamp
        (answer.setEdns none)) <;> rfl
    | true =>
      simp only [Option.bind_eq_bind, Option.bind_some, if_true,
        mapTtl_respondTo, negativeTtl_respondTo]
      cases negativeTtl policy (mapTtl policy.negative.clamp
        (answer.setEdns none)) <;> rfl

/-- The entries differ at most in the transaction fields of their messages and
in the calls they came from. -/
structure CachedAnswer.SameData (entry other : CachedAnswer) : Prop where
  respond : ∀ query, respondTo query entry.message =
    respondTo query other.message
  inserted : entry.inserted = other.inserted
  expires : entry.expires = other.expires
  staleUntil : entry.staleUntil = other.staleUntil
  failure : entry.failure = other.failure

theorem cacheableAnswer_normalised {origin : UpstreamCall} {answer : Message}
    {inserted : ℕ} {policy : TtlPolicy} {entry : CachedAnswer}
    (h : cacheableAnswer origin answer inserted policy = some entry) :
    ∃ message ttl, normalise answer policy = some (message, ttl) ∧
      entry = (CachedAnswer.new origin message inserted
        (inserted + ttl.toNat * second)).retainedFor policy.staleWindow := by
  unfold cacheableAnswer at h
  split_ifs at h
  split at h
  · contradiction
  · rename_i message ttl hnormalise
    split_ifs at h
    exact ⟨message, ttl, hnormalise, (Option.some.inj h).symm⟩

theorem sameData_of_sameContent {answer other : Message}
    (hcontent : answer.SameContent other) {origin origin' : UpstreamCall}
    {inserted : ℕ} {policy : TtlPolicy} {entry entry' : CachedAnswer}
    (hentry : cacheableAnswer origin answer inserted policy = some entry)
    (hentry' : cacheableAnswer origin' other inserted policy =
      some entry') :
    entry.SameData entry' := by
  obtain ⟨message, ttl, hmessage, rfl⟩ := cacheableAnswer_normalised hentry
  obtain ⟨message', ttl', hmessage', rfl⟩ := cacheableAnswer_normalised hentry'
  have hboth : ∀ query, respondTo query message = respondTo query message' ∧
      ttl = ttl' := by
    intro query
    have hleft := normalise_respondTo query answer policy
    have hright := normalise_respondTo query other policy
    rw [hcontent.respondTo_eq query, hright, hmessage, hmessage'] at hleft
    obtain ⟨hrespond, httl⟩ := Prod.mk.inj (Option.some.inj hleft)
    exact ⟨hrespond.symm, httl.symm⟩
  obtain ⟨_, rfl⟩ := hboth answer
  exact ⟨fun query => (hboth query).1, rfl, rfl, rfl, rfl⟩

theorem CachedAnswer.SameData.freshResult_eq {entry other : CachedAnswer}
    (h : entry.SameData other) (query : Message) (now : ℕ) :
    freshResult query entry now = freshResult query other now := by
  simp only [freshResult, cacheHitResponse, h.respond query, h.inserted]

theorem CachedAnswer.SameData.staleResult_eq {entry other : CachedAnswer}
    (h : entry.SameData other) (resolver : Resolver) (query : Message) :
    resolver.staleResult query entry = resolver.staleResult query other := by
  simp only [Resolver.staleResult, staleResponse, h.respond query]

/-! ## Every path which serves an entry -/

/-- Two cacheable answers with the same content have entries of the same
lifetime.  Every fresh, followed, re-checked or stale answer of every run which
was served from the one is the answer which the other gives. -/
theorem entries_of_same_content_answer_alike {resolver : Resolver}
    {upstream other : Message} (hcontent : upstream.SameContent other)
    {origin origin' : UpstreamCall} {inserted : ℕ}
    {entry entry' : CachedAnswer}
    (hentry : cacheableAnswer origin upstream inserted
      resolver.cache.ttlPolicy = some entry)
    (hentry' : cacheableAnswer origin' other inserted
      resolver.cache.ttlPolicy = some entry') :
    (entry.expires = entry'.expires ∧ entry.staleUntil = entry'.staleUntil) ∧
      (∀ query now,
        freshResult query entry now = freshResult query entry' now) ∧
      (∀ query,
        resolver.staleResult query entry =
          resolver.staleResult query entry') ∧
      ∀ instant state, resolver.machine.Reaches .always
          (resolver.start instant) state →
        ∀ number query answer lookups, state.ended number =
            some (.resolve query, .answered answer lookups) →
          (answer.source = .fresh entry →
            ∃ now, answer.result = freshResult query entry' now) ∧
          (answer.source = .stale entry →
            answer.result = resolver.staleResult query entry') := by
  have hdata := sameData_of_sameContent hcontent hentry hentry'
  refine ⟨⟨hdata.expires, hdata.staleUntil⟩, hdata.freshResult_eq,
    hdata.staleResult_eq resolver, ?_⟩
  intro instant state hreaches number query answer lookups hended
  obtain ⟨task, _, hpost⟩ :=
    (Provenance.holds_of_reaches hreaches).ended hended
  obtain ⟨_, _, hreply⟩ := hpost
  obtain ⟨_, _, _, returned, _, hgives⟩ := hreply answer lookups rfl
  constructor
  · intro hsource
    rw [hsource] at hgives
    obtain ⟨_, now, hresult⟩ := hgives
    exact ⟨now, hresult.trans (hdata.freshResult_eq query now)⟩
  · intro hsource
    rw [hsource] at hgives
    exact hgives.2.trans (hdata.staleResult_eq resolver query)

/-- The same address with another id, without RD, with AA, without a question
and with a cookie in the OPT record. -/
def addressAnswerWithCookie : Message :=
  { addressAnswer 97 with
    header := ⟨9, true, .query, true, false, false, true, .noError⟩
    questions := []
    additionals := [Edns.toRecord { Edns.new 4096 with
      dnssecOk := true
      options := [⟨10, [1, 2, 3, 4, 5, 6, 7, 8], by decide⟩] }] }

theorem cookie_is_not_told :
    let policy := (homeResolver smallCache).cache.ttlPolicy
    let origin : UpstreamCall := ⟨0, 0, homeGroup, askAddress 97, 0⟩
    (addressAnswer 97).SameContent addressAnswerWithCookie ∧
      ∃ entry entry',
        cacheableAnswer origin (addressAnswer 97) 0 policy = some entry ∧
        cacheableAnswer origin addressAnswerWithCookie 0 policy =
          some entry' ∧
        entry.message ≠ entry'.message ∧
        freshResult (askAddress 65) entry (5 * second) =
          freshResult (askAddress 65) entry' (5 * second) := by
  intro policy origin
  have hcontent : (addressAnswer 97).SameContent addressAnswerWithCookie :=
    ⟨rfl, rfl, rfl, rfl, rfl, rfl, rfl, by decide⟩
  refine ⟨hcontent, _, _, rfl, rfl, by decide, ?_⟩
  exact (@entries_of_same_content_answer_alike (homeResolver smallCache) _ _
    hcontent origin origin 0 _ _ rfl rfl).2.1 (askAddress 65) (5 * second)

end DnsLattice
