import DnsLattice.CachePolicy
import DnsLattice.UdpResponse

/-!
# How the resolver reads queries and builds answers

The pure functions of the engine: which queries use the cache, how an upstream
answer is normalised for storage, and how a stored or shared answer is turned
into a response to one query.
-/

namespace DnsLattice

/-! ## Queries -/

def cacheableEdnsOptions : List UInt16 := [3, 10, 11, 12]

def queryUsesCache (query : Message) : Bool :=
  decide (query.questions.length = 1) &&
    decide (query.header.opcode = .query) &&
    match query.edns with
    | .ok (some edns) =>
        edns.options.all fun option =>
          cacheableEdnsOptions.contains option.code
    | .ok none => true
    | .error _ => true

def queryDnssecOk (query : Message) : Bool :=
  match query.edns with
  | .ok (some edns) => edns.dnssecOk
  | _ => false

def defaultEdnsUdpPayloadSize : UInt16 := 1232

def alignEdns (query answer : Message) : Message :=
  match query.edns with
  | .ok none => answer.setEdns none
  | .ok (some queryEdns) =>
      match answer.edns with
      | .ok (some _) => answer
      | _ =>
          answer.setEdns (some { Edns.new defaultEdnsUdpPayloadSize with
            dnssecOk := queryEdns.dnssecOk })
  | .error _ => answer

/-! ## Responses -/

def isOptType (record : ResourceRecord) : Bool :=
  decide (record.rtype = .other optRtype)

/-- `ttl_records_mut`: every record of every section which is not an OPT. -/
def mapTtl (change : UInt32 → UInt32) (message : Message) : Message :=
  let changeRecord (record : ResourceRecord) :=
    if isOptType record then record
    else { record with ttl := change record.ttl }
  { message with
    answers := message.answers.map changeRecord
    authorities := message.authorities.map changeRecord
    additionals := message.additionals.map changeRecord }

def respondTo (query message : Message) : Message :=
  { message with
    header := { message.header with
      id := query.header.id
      recursionDesired := query.header.recursionDesired
      authoritative := false }
    questions := query.questions }

/-- `saturating_sub(elapsed).max(1)`. -/
def countDown (elapsed ttl : UInt32) : UInt32 :=
  max (if ttl ≤ elapsed then 0 else ttl - elapsed) 1

def cacheHitResponse (query : Message) (cached : CachedAnswer) (now : ℕ) :
    Message :=
  mapTtl (countDown (wholeSeconds (now - cached.inserted)))
    (respondTo query cached.message)

def staleResponse (query : Message) (entry : CachedAnswer)
    (replyTtl : UInt32) : Message :=
  mapTtl (fun _ => replyTtl) (respondTo query entry.message)

def rawResponse (query answer : Message) : Message :=
  respondTo query (answer.setEdns none)

def edeOptionCode : UInt16 := 15

def edeStaleAnswer : UInt16 := 3

def staleAnswerOption : EdnsOption where
  code := edeOptionCode
  data := u16ToBe edeStaleAnswer
  data_le := by decide

def markStaleAnswer (query answer : Message) : Message :=
  match query.edns with
  | .ok (some _) =>
      match answer.edns with
      | .ok (some edns) =>
          answer.setEdns (some { edns with
            options := edns.options ++ [staleAnswerOption] })
      | _ => answer
  | _ => answer

theorem alignEdns_header (query answer : Message) :
    (alignEdns query answer).header = answer.header := by
  unfold alignEdns
  split
  · rfl
  · split <;> rfl
  · rfl

theorem markStaleAnswer_header (query answer : Message) :
    (markStaleAnswer query answer).header = answer.header := by
  unfold markStaleAnswer
  split
  · split <;> rfl
  · rfl

/-! ## What is stored -/

def ednsCacheable (answer : Message) : Bool :=
  match answer.edns with
  | .ok none => true
  | .ok (some edns) => decide (edns.extendedRcode = 0)
  | .error _ => false

/-- Whether an answer is negative; `none` if it is neither kind. -/
def isNegative (answer : Message) : Option Bool :=
  match answer.header.rcode with
  | .noError => some answer.answers.isEmpty
  | .nxDomain => some true
  | _ => none

def soaMinimum : RData → Option UInt32
  | .soa _ _ _ _ _ _ minimum => some minimum
  | _ => none

def limitSoa (bounds : TtlBounds) :
    List ResourceRecord → Option (UInt32 × List ResourceRecord)
  | [] => none
  | record :: rest =>
      match soaMinimum record.rdata with
      | some minimum =>
          let ttl := bounds.clamp (min record.ttl minimum)
          some (ttl, { record with ttl := ttl } :: rest)
      | none =>
          (limitSoa bounds rest).map fun (ttl, limited) =>
            (ttl, record :: limited)

def negativeTtl (policy : TtlPolicy) (message : Message) :
    Option (UInt32 × Message) :=
  match limitSoa policy.negative message.authorities with
  | some (ttl, authorities) =>
      some (ttl, { message with authorities := authorities })
  | none =>
      policy.negativeWithoutSoa.map fun ttl =>
        (policy.negative.clamp ttl, message)

def recordsTtl (message : Message) : Option UInt32 :=
  (((message.answers ++ message.authorities ++ message.additionals).filter
    fun record => !isOptType record).map ResourceRecord.ttl).min?

def normalise (answer : Message) (policy : TtlPolicy) :
    Option (Message × UInt32) := do
  let negative ← isNegative answer
  let bounds := if negative then policy.negative else policy.positive
  let message := mapTtl bounds.clamp (answer.setEdns none)
  if negative then
    let (ttl, message) ← negativeTtl policy message
    return (message, ((recordsTtl message).map (min ttl)).getD ttl)
  else
    let ttl ← recordsTtl message
    return (message, ttl)

def cacheableAnswer (origin : UpstreamCall) (answer : Message)
    (inserted : ℕ) (policy : TtlPolicy) : Option CachedAnswer :=
  if answer.header.opcode ≠ .query ∨ answer.header.truncated = true then none
  else if !ednsCacheable answer then none
  else
    match normalise answer policy with
    | none => none
    | some (message, ttl) =>
        if ttl = 0 then none
        else
          some ((CachedAnswer.new origin message inserted
            (inserted + ttl.toNat * second)).retainedFor policy.staleWindow)

theorem setEdns_none_idem (message : Message) :
    (message.setEdns none).setEdns none = message.setEdns none := by
  simp [Message.setEdns, List.filter_filter]

theorem normalise_rcode {answer message : Message} {policy : TtlPolicy}
    {ttl : UInt32} (h : normalise answer policy = some (message, ttl)) :
    message.header.rcode = answer.header.rcode ∧
      (answer.header.rcode = .noError ∨ answer.header.rcode = .nxDomain) := by
  unfold normalise at h
  rw [Option.bind_eq_bind, Option.bind_eq_some_iff] at h
  obtain ⟨negative, hnegative, h⟩ := h
  have hkind : answer.header.rcode = .noError ∨
      answer.header.rcode = .nxDomain := by
    unfold isNegative at hnegative
    cases hrcode : answer.header.rcode <;> simp_all
  refine ⟨?_, hkind⟩
  cases negative with
  | false =>
    simp only [Bool.false_eq_true, if_false, Option.bind_eq_bind,
      Option.bind_eq_some_iff] at h
    obtain ⟨_, _, h⟩ := h
    obtain ⟨rfl, _⟩ := Prod.mk.inj (Option.some.inj h)
    rfl
  | true =>
    simp only [if_true, Option.bind_eq_bind, Option.bind_eq_some_iff] at h
    obtain ⟨⟨_, limited⟩, hlimited, h⟩ := h
    obtain ⟨rfl, _⟩ := Prod.mk.inj (Option.some.inj h)
    unfold negativeTtl at hlimited
    split at hlimited
    · obtain ⟨_, rfl⟩ := Prod.mk.inj (Option.some.inj hlimited)
      rfl
    · obtain ⟨_, _, hlimited⟩ := Option.map_eq_some_iff.mp hlimited
      obtain ⟨_, rfl⟩ := Prod.mk.inj hlimited
      rfl

theorem cacheableAnswer_eq_some {origin : UpstreamCall} {answer : Message}
    {inserted : ℕ} {policy : TtlPolicy} {entry : CachedAnswer}
    (h : cacheableAnswer origin answer inserted policy = some entry) :
    entry.origin = origin ∧ entry.failure = none ∧
      entry.message.header.rcode = answer.header.rcode ∧
      (answer.header.rcode = .noError ∨
        answer.header.rcode = .nxDomain) := by
  unfold cacheableAnswer at h
  split_ifs at h
  split at h
  · contradiction
  · rename_i message ttl hnormalise
    split_ifs at h
    obtain rfl := Option.some.inj h
    exact ⟨rfl, rfl, normalise_rcode hnormalise⟩

/-! ## Outcomes -/

/-- What one upstream resolution produced: the answer, its entry if it is
cacheable, and whether that entry was stored. -/
structure UpstreamAnswer where
  message : Message
  entry : Option CachedAnswer
  stored : Bool
  deriving DecidableEq, Repr

/-- What a finished leader hands to its followers.  An answer or an error
which is not stored names the upstream call it came from. -/
inductive Outcome where
  | cached (entry : CachedAnswer)
  | raw (origin : UpstreamCall) (answer : Message)
  | failed (origin : UpstreamCall) (error : Error)
  | stale (entry : CachedAnswer)
  deriving DecidableEq, Repr

/-- `SERVFAIL` and `REFUSED`. -/
def Rcode.failing (rcode : Rcode) : Bool :=
  match rcode with
  | .servFail => true
  | .refused => true
  | _ => false

def isFailure : Except Error UpstreamAnswer → Bool
  | .ok answer => answer.message.header.rcode.failing
  | .error _ => true

def isRetryable : Error → Bool
  | .timeout => true
  | .transport _ => true
  | .tls _ => true
  | _ => false

def outcomeOf (origin : UpstreamCall) :
    Except Error UpstreamAnswer → Outcome
  | .ok answer =>
      match answer.entry with
      | some entry => .cached entry
      | none => .raw origin answer.message
  | .error error => .failed origin error

def CachedAnswer.failureError (entry : CachedAnswer) : Option Error :=
  entry.failure.bind FailureState.error

def outcomeOfFailure (entry : CachedAnswer) : Outcome :=
  match entry.failureError with
  | some error => .failed entry.origin error
  | none => .raw entry.origin entry.message

/-- The entry `settle_failure` remembers for a failed resolution. -/
def failureEntry (origin : UpstreamCall) (query : Message)
    (result : Except Error UpstreamAnswer) (failedAt backoff retain : ℕ) :
    CachedAnswer :=
  match result with
  | .ok answer =>
      .ofFailure origin (answer.message.setEdns none) none failedAt backoff
        retain
  | .error error =>
      .ofFailure origin (localResponse query .servFail) (some error) failedAt
        backoff retain

theorem failureEntry_origin (origin : UpstreamCall) (query : Message)
    (result : Except Error UpstreamAnswer) (failedAt backoff retain : ℕ) :
    (failureEntry origin query result failedAt backoff retain).origin =
      origin := by
  cases result with
  | ok answer => rfl
  | error error => rfl

theorem failureEntry_failure (origin : UpstreamCall) (query : Message)
    (result : Except Error UpstreamAnswer) (failedAt backoff retain : ℕ) :
    (failureEntry origin query result failedAt backoff retain).failure.isSome =
      true := by
  cases result with
  | ok answer => rfl
  | error error => rfl

end DnsLattice
