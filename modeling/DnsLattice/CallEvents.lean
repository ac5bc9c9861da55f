import DnsLattice.ResolverTraces

/-!
# What a call tells the sink

The events which carry the correlation id of one call are those of its own
trace, whatever other calls do in between.  The trace of a call which has
returned is a course: the query, its routing, a hit or a miss, perhaps a wait
for another call, the attempts of the failover loop, perhaps a notice of how
the answer was served, and one last event for what is returned.
-/

namespace DnsLattice

/-! ## Events of a trace -/

def ObserveEvent.correlationId : ObserveEvent → ℕ
  | .queryReceived id _ _ _ => id
  | .fakeIpTerminal id => id
  | .staticRoute id _ => id
  | .hookDecision id _ => id
  | .cacheHit id _ => id
  | .cacheMiss id _ => id
  | .upstreamAttempt id _ _ => id
  | .upstreamOutcome id _ _ _ => id
  | .completed id _ => id
  | .failed id _ => id

def CacheEvent.correlationId : CacheEvent → ℕ
  | .coalesced id _ => id
  | .staleServed id _ => id
  | .failureServed id _ => id
  | .refreshStarted id _ => id
  | .refreshCompleted id _ _ => id

def Observed.correlationId : Observed → ℕ
  | .event told => told.correlationId
  | .cache told => told.correlationId

def Observed.event? : Observed → Option ObserveEvent
  | .event told => some told
  | .cache _ => none

def observedAct : ResolverAct → Option Observed
  | ⟨.emit event, _⟩ => some (.event event)
  | ⟨.emitCache event, _⟩ => some (.cache event)
  | _ => none

def drawnId : ResolverAct → Option ℕ
  | ⟨.nextCorrelationId, id⟩ => some id
  | _ => none

def countsAs (counter : Counter) : ResolverAct → Bool
  | ⟨.count other, _⟩ => decide (other = counter)
  | _ => false

def observed (trace : List ResolverAct) : List Observed :=
  trace.filterMap observedAct

def drawnIds (trace : List ResolverAct) : List ℕ :=
  trace.filterMap drawnId

def counted (counter : Counter) (trace : List ResolverAct) : ℕ :=
  trace.countP (countsAs counter)

def Op.Quiet : Op → Prop
  | .emit _ => False
  | .emitCache _ => False
  | .count _ => False
  | .nextCorrelationId => False
  | _ => True

section Quiet

variable {trace acts : List ResolverAct}

@[simp] theorem observed_append :
    observed (trace ++ acts) = observed trace ++ observed acts :=
  List.filterMap_append

@[simp] theorem drawnIds_append :
    drawnIds (trace ++ acts) = drawnIds trace ++ drawnIds acts :=
  List.filterMap_append

@[simp] theorem counted_append (counter : Counter) :
    counted counter (trace ++ acts) =
      counted counter trace + counted counter acts :=
  List.countP_append

theorem observedAct_of_quiet {act : ResolverAct} (h : act.op.Quiet) :
    observedAct act = none := by
  obtain ⟨op, resp⟩ := act
  cases op <;> first | rfl | exact h.elim

theorem drawnId_of_quiet {act : ResolverAct} (h : act.op.Quiet) :
    drawnId act = none := by
  obtain ⟨op, resp⟩ := act
  cases op <;> first | rfl | exact h.elim

theorem countsAs_of_quiet (counter : Counter) {act : ResolverAct}
    (h : act.op.Quiet) : countsAs counter act = false := by
  obtain ⟨op, resp⟩ := act
  cases op <;> first | rfl | exact h.elim

variable (hacts : ∀ act ∈ acts, act.op.Quiet)

include hacts

theorem observed_of_quiet : observed acts = [] :=
  List.filterMap_eq_nil_iff.mpr fun act hact =>
    observedAct_of_quiet (hacts act hact)

theorem drawnIds_of_quiet : drawnIds acts = [] :=
  List.filterMap_eq_nil_iff.mpr fun act hact =>
    drawnId_of_quiet (hacts act hact)

theorem counted_of_quiet (counter : Counter) : counted counter acts = 0 :=
  List.countP_eq_zero.mpr fun act hact => by
    simp [countsAs_of_quiet counter (hacts act hact)]

end Quiet

/-! ## Courses -/

def terminalEvent (id : ℕ) : Except Error Message → ObserveEvent
  | .ok answer => .completed id answer.header.rcode
  | .error error => .failed id (observeFailure error)

theorem emitResult_eq (id : ℕ) (result : Except Error Message) :
    emitResult id result = perform (.emit (terminalEvent id result)) := by
  cases result <;> rfl

@[simp] theorem terminalEvent_correlationId (id : ℕ)
    (result : Except Error Message) :
    (terminalEvent id result).correlationId = id := by
  cases result <;> rfl

def receivedEvent (id : ℕ) (query : Message) : ObserveEvent :=
  .queryReceived id (query.questions.head?.map Question.name)
    (query.questions.head?.map Question.qtype)
    (query.questions.head?.map Question.qclass)

def ObserveEvent.Routes (id : ℕ) : ObserveEvent → Prop
  | .fakeIpTerminal other => other = id
  | .staticRoute other _ => other = id
  | .hookDecision other _ => other = id
  | _ => False

/-- The attempts of a failover loop from the given backend on, each followed
by its outcome. -/
def failoverEvents (id : ℕ) (group : UpstreamGroupId) :
    ℕ → List UpstreamObserveOutcome → List ObserveEvent
  | _, [] => []
  | backend, outcome :: rest =>
      .upstreamAttempt id group backend ::
        .upstreamOutcome id group backend outcome ::
          failoverEvents id group (backend + 1) rest

/-- How an answer was served, where the sink is told. -/
inductive Notice where
  | none
  | stale
  | failure
  deriving DecidableEq

def Notice.observed (id : ℕ) (group : UpstreamGroupId) :
    Notice → List Observed
  | .none => []
  | .stale => [.cache (.staleServed id group)]
  | .failure => [.cache (.failureServed id group)]

structure Course where
  hit : Bool
  coalesced : Bool
  outcomes : List UpstreamObserveOutcome
  notice : Notice

namespace Course

def lookupEvent (course : Course) (id : ℕ) (group : UpstreamGroupId) :
    ObserveEvent :=
  if course.hit then .cacheHit id group else .cacheMiss id group

def coalescedEvents (course : Course) (id : ℕ) (group : UpstreamGroupId) :
    List Observed :=
  if course.coalesced then [.cache (.coalesced id group)] else []

def observed (course : Course) (id : ℕ) (group : UpstreamGroupId)
    (result : Except Error Message) : List Observed :=
  .event (course.lookupEvent id group) ::
    (course.coalescedEvents id group ++
      (failoverEvents id group 0 course.outcomes).map .event ++
      course.notice.observed id group ++ [.event (terminalEvent id result)])

end Course

/-! ## What a call has gone through -/

def LosesLeader (trace : List ResolverAct) : Prop :=
  ∃ flight timed, (⟨.wait flight timed, .abandoned⟩ : ResolverAct) ∈ trace

def Looks (trace : List ResolverAct) : Prop :=
  ∃ key now found, (⟨.storeGet key now, found⟩ : ResolverAct) ∈ trace

def FindsFailureLater (trace : List ResolverAct) : Prop :=
  ∃ earlier key now entry later,
    trace = earlier ++ (⟨.storeGet key now, some entry⟩ : ResolverAct) ::
      later ∧
    Looks earlier ∧ entry.failure.isSome = true ∧ now < entry.expires

section Grow

variable {trace after : List ResolverAct} (hgrows : trace <+: after)

include hgrows

theorem LosesLeader.mono (h : LosesLeader trace) : LosesLeader after := by
  obtain ⟨flight, timed, hmem⟩ := h
  exact ⟨flight, timed, hgrows.subset hmem⟩

theorem Looks.mono (h : Looks trace) : Looks after := by
  obtain ⟨key, now, found, hmem⟩ := h
  exact ⟨key, now, found, hgrows.subset hmem⟩

theorem FindsFailureLater.mono (h : FindsFailureLater trace) :
    FindsFailureLater after := by
  obtain ⟨acts, rfl⟩ := hgrows
  obtain ⟨earlier, key, now, entry, later, rfl, hrest⟩ := h
  exact ⟨earlier, key, now, entry, later ++ acts, by simp, hrest⟩

end Grow

structure Course.Follows (course : Course) (result : Except Error Message)
    (trace : List ResolverAct) : Prop where
  hit : course.hit = true → course.coalesced = false ∧ course.outcomes = []
  retried : ∀ outcome ∈ course.outcomes.dropLast,
    outcome = .retryableFailure
  stale : course.notice = .stale → ∃ answer, result = .ok answer
  failure : course.notice = .failure → course.outcomes = [] ∧
    (course.hit = true ∨ FindsFailureLater trace)
  tookOver : course.coalesced = true → course.outcomes ≠ [] →
    LosesLeader trace

/-! ## The path of a call -/

/-- The call has its id, and has told what it was asked, how it was routed, and
the rest. -/
def Told (id : ℕ) (query : Message) (rest : List Observed)
    (trace : List ResolverAct) : Prop :=
  drawnIds trace = [id] ∧ ∃ routing : List ObserveEvent,
    (∀ event ∈ routing, event.Routes id) ∧
    observed trace =
      .event (receivedEvent id query) :: (routing.map .event ++ rest)

def Call.missed (call : Call) (announced : Bool) : List Observed :=
  .event (.cacheMiss call.correlationId call.group) ::
    if announced then [.cache (.coalesced call.correlationId call.group)]
    else []

def Missed (resolver : Resolver) (call : Call) (announced : Bool)
    (trace : List ResolverAct) : Prop :=
  Told call.correlationId call.query (call.missed announced) trace ∧
    (announced = true → LosesLeader trace) ∧
    ((resolver.storedKey call.group call.query).isSome = true → Looks trace)

def Returned (query : Message) (trace : List ResolverAct) : Reply → Prop
  | .answered answer _ =>
      ∃ (id : ℕ) (course : Course),
        Told id query (course.observed id answer.group answer.result) trace ∧
        course.Follows answer.result trace
  | .rejected result =>
      ∃ id, Told id query [.event (terminalEvent id result)] trace
  | _ => True

def Resolver.eventPath (resolver : Resolver) : Path Op Resp Job Reply where
  gives := Gives
  asserts _ trace op :=
    match op with
    | .emit event => event.correlationId ∈ drawnIds trace
    | .emitCache event => event.correlationId ∈ drawnIds trace
    | .count .failureHits =>
        counted .failureHits trace < counted .hits trace ∨
          FindsFailureLater trace
    | _ => True
  pre first job trace :=
    match job with
    | .resolve query => first = .resolve query ∧ trace = []
    | .join call _ progress => first = .resolve call.query ∧
        Missed resolver call progress.announced trace
    | .refresh job => first = .refresh job ∧ trace = []
    | .purge scope => first = .purge scope
  post first reply trace :=
    match first with
    | .resolve query => Returned query trace reply
    | _ => True

/-- Between the two traces the sink was told the given, under an id drawn
before. -/
structure Adds (told : List Observed) (trace after : List ResolverAct) :
    Prop where
  grows : trace <+: after
  ids : drawnIds after = drawnIds trace
  observed : observed after = observed trace ++ told

section Adds

variable {trace middle after : List ResolverAct} {told more : List Observed}

theorem Adds.refl (trace : List ResolverAct) : Adds [] trace trace :=
  ⟨List.prefix_refl _, rfl, by simp⟩

theorem Adds.trans (hfirst : Adds told trace middle)
    (hsecond : Adds more middle after) : Adds (told ++ more) trace after :=
  ⟨hfirst.grows.trans hsecond.grows, hsecond.ids.trans hfirst.ids,
    by rw [hsecond.observed, hfirst.observed, List.append_assoc]⟩

theorem Adds.quiet {acts : List ResolverAct}
    (hacts : ∀ act ∈ acts, act.op.Quiet) : Adds [] trace (trace ++ acts) :=
  ⟨List.prefix_append _ _, by simp [drawnIds_of_quiet hacts],
    by simp [observed_of_quiet hacts]⟩

theorem Adds.emit (trace : List ResolverAct) (event : ObserveEvent)
    (resp : Unit) :
    Adds [.event event] trace (trace ++ [⟨.emit event, resp⟩]) :=
  ⟨List.prefix_append _ _, drawnIds_append.trans (List.append_nil _),
    observed_append⟩

theorem Adds.emitCache (trace : List ResolverAct) (event : CacheEvent)
    (resp : Unit) :
    Adds [.cache event] trace (trace ++ [⟨.emitCache event, resp⟩]) :=
  ⟨List.prefix_append _ _, drawnIds_append.trans (List.append_nil _),
    observed_append⟩

theorem Adds.count (trace : List ResolverAct) (counter : Counter)
    (resp : Unit) : Adds [] trace (trace ++ [⟨.count counter, resp⟩]) :=
  ⟨List.prefix_append _ _, drawnIds_append.trans (List.append_nil _),
    observed_append⟩

theorem Adds.act (trace : List ResolverAct) (op : Op) (hop : op.Quiet)
    (resp : Resp op) : Adds [] trace (trace ++ [⟨op, resp⟩]) :=
  .quiet fun act hact => by
    rw [List.mem_singleton.mp hact]
    exact hop

theorem Adds.mem (h : Adds told trace after) {id : ℕ}
    (hid : id ∈ drawnIds trace) : id ∈ drawnIds after := by
  rwa [h.ids]

variable {id : ℕ} {query : Message} {rest : List Observed}

theorem Told.mem (h : Told id query rest trace) : id ∈ drawnIds trace := by
  simp [h.1]

theorem Told.adds (h : Told id query rest trace)
    (hadds : Adds told trace after) :
    Told id query (rest ++ told) after := by
  obtain ⟨hids, routing, hrouting, htold⟩ := h
  refine ⟨hadds.ids.trans hids, routing, hrouting, ?_⟩
  rw [hadds.observed, htold]
  simp

end Adds

def Begun (id : ℕ) (query : Message) (trace : List ResolverAct) : Prop :=
  Told id query [] trace ∧ counted .failureHits trace = 0

theorem Begun.route {id : ℕ} {query : Message} {trace : List ResolverAct}
    (h : Begun id query trace) (event : ObserveEvent)
    (hevent : event.Routes id) (resp : Unit) :
    Begun id query (trace ++ [⟨.emit event, resp⟩]) := by
  obtain ⟨⟨hids, routing, hrouting, htold⟩, hcounted⟩ := h
  have hadds := Adds.emit trace event resp
  refine ⟨⟨hadds.ids.trans hids, routing ++ [event], ?_, ?_⟩, ?_⟩
  · intro other hother
    rcases List.mem_append.mp hother with hmem | hmem
    · exact hrouting other hmem
    · rw [List.mem_singleton.mp hmem]
      exact hevent
  · rw [hadds.observed, htold]
    simp
  · exact (counted_append _).trans (by rw [hcounted]; rfl)

theorem Begun.act {id : ℕ} {query : Message} {trace : List ResolverAct}
    (h : Begun id query trace) (op : Op) (hop : op.Quiet) (resp : Resp op) :
    Begun id query (trace ++ [⟨op, resp⟩]) := by
  refine ⟨by simpa using h.1.adds (.act trace op hop resp), ?_⟩
  have hquiet : ∀ act ∈ [(⟨op, resp⟩ : ResolverAct)], act.op.Quiet := by
    simpa using hop
  rw [counted_append, h.2, counted_of_quiet hquiet]

def Ends (call : Call) (notice : Notice) (trace after : List ResolverAct)
    (reply : Reply) : Prop :=
  ∃ answer lookups, reply = .answered answer lookups ∧
    answer.group = call.group ∧
    Adds (notice.observed call.correlationId call.group ++
      [.event (terminalEvent call.correlationId answer.result)]) trace
      after ∧
    (notice = .stale → ∃ message, answer.result = .ok message)

theorem Ends.adds {call : Call} {notice : Notice}
    {trace middle after : List ResolverAct} {reply : Reply}
    (h : Ends call notice trace middle reply) (hadds : Adds [] middle after) :
    Ends call notice trace after reply := by
  obtain ⟨answer, lookups, hreply, hgroup, hend, hstale⟩ := h
  exact ⟨answer, lookups, hreply, hgroup, by simpa using hend.trans hadds,
    hstale⟩

theorem Ends.returned {call : Call} {trace after : List ResolverAct}
    {reply : Reply} (course : Course)
    (h : Ends call course.notice trace after reply)
    (htold : Told call.correlationId call.query
      (.event (course.lookupEvent call.correlationId call.group) ::
        (course.coalescedEvents call.correlationId call.group ++
          (failoverEvents call.correlationId call.group 0
            course.outcomes).map .event)) trace)
    (hfollows : ∀ result, (course.notice = .stale →
      ∃ message, result = .ok message) → course.Follows result after) :
    Returned call.query after reply := by
  obtain ⟨answer, lookups, rfl, hgroup, hadds, hstale⟩ := h
  refine ⟨call.correlationId, course, ?_, hfollows _ hstale⟩
  simpa [Course.observed, hgroup] using htold.adds hadds

theorem Missed.adds {resolver : Resolver} {call : Call} {announced : Bool}
    {trace after : List ResolverAct}
    (h : Missed resolver call announced trace) (hadds : Adds [] trace after) :
    Missed resolver call announced after :=
  ⟨by simpa using h.1.adds hadds,
    fun hannounced => (h.2.1 hannounced).mono hadds.grows,
    fun hstored => (h.2.2 hstored).mono hadds.grows⟩

theorem Ends.of_missed {call : Call} {announced : Bool}
    {trace middle after : List ResolverAct} {notice : Notice} {reply : Reply}
    (h : Ends call notice middle after reply)
    (outcomes : List UpstreamObserveOutcome)
    (htold : Told call.correlationId call.query (call.missed announced) trace)
    (hadds : Adds ((failoverEvents call.correlationId call.group 0
      outcomes).map .event) trace middle)
    (hretried : ∀ outcome ∈ outcomes.dropLast, outcome = .retryableFailure)
    (hfailure : notice = .failure → outcomes = [] ∧
      FindsFailureLater middle)
    (htookOver : announced = true → outcomes ≠ [] → LosesLeader middle) :
    Returned call.query after reply := by
  obtain ⟨answer, lookups, hreply, hgroup, hend, hstale⟩ := h
  refine Ends.returned ⟨false, announced, outcomes, notice⟩
    ⟨answer, lookups, hreply, hgroup, hend, hstale⟩ (htold.adds hadds)
    fun result hresult => ?_
  exact
    { hit := nofun
      retried := hretried
      stale := hresult
      failure := fun hnotice => ⟨(hfailure hnotice).1,
        Or.inr ((hfailure hnotice).2.mono hend.grows)⟩
      tookOver := fun hcoalesced houtcomes =>
        (htookOver hcoalesced houtcomes).mono hend.grows }

theorem Ends.of_missed_nil {call : Call} {announced : Bool}
    {trace middle after : List ResolverAct} {notice : Notice} {reply : Reply}
    (h : Ends call notice middle after reply)
    (htold : Told call.correlationId call.query (call.missed announced) trace)
    (hadds : Adds [] trace middle)
    (hfailure : notice = .failure → FindsFailureLater middle) :
    Returned call.query after reply :=
  h.of_missed [] htold hadds (by simp) (fun hnotice => ⟨rfl, hfailure hnotice⟩)
    fun _ houtcomes => absurd rfl houtcomes

theorem Ends.of_hit {call : Call} {trace after : List ResolverAct}
    {notice : Notice} {reply : Reply} (h : Ends call notice trace after reply)
    (htold : Told call.correlationId call.query
      [.event (.cacheHit call.correlationId call.group)] trace) :
    Returned call.query after reply := by
  refine Ends.returned ⟨true, false, [], notice⟩ h htold
    fun result hresult => ?_
  exact
    { hit := fun _ => ⟨rfl, rfl⟩
      retried := by simp
      stale := hresult
      failure := fun _ => ⟨rfl, Or.inl rfl⟩
      tookOver := nofun }

end DnsLattice
