import DnsLattice.ResolverModel

/-!
# The code of the resolver

Each function of the engine which touches shared state is a program over the
atomic operations.  Where a future is dropped at an await, or where the code
panics, the drop glue that follows is written out: the guard of a flight which
is not finished abandons it.
-/

namespace DnsLattice

abbrev Code (α : Type) := Prog Op Resp α

def perform (op : Op) : Code (Resp op) :=
  Prog.lift op

def maxRefreshTasks : ℕ := 256

/-! ## Flights -/

/-- `LeaderGuard::finish`. -/
def finish (guard : Option LeaderGuard) (outcome : Outcome) : Code Unit :=
  match guard with
  | none => return ()
  | some guard => do
      perform (.unregister guard (some outcome))
      perform (.publish guard.flight outcome)

/-- `Drop for LeaderGuard` on a flight which is not finished. -/
def dropGuard (guard : Option LeaderGuard) : Code Unit :=
  match guard with
  | none => return ()
  | some guard => do
      perform (.unregister guard none)
      perform (.abandon guard.flight)

/-! ## Replies -/

def Call.reply (call : Call) (source : Source)
    (result : Except Error Message) (lookups : List Lookup) : Reply :=
  .answered ⟨call.group, call.decision, source, result⟩ lookups

def emitResult (correlationId : ℕ) (result : Except Error Message) :
    Code Unit :=
  match result with
  | .ok answer =>
      perform (.emit (.completed correlationId answer.header.rcode))
  | .error error =>
      perform (.emit (.failed correlationId (observeFailure error)))

def freshResult (query : Message) (cached : CachedAnswer) (now : ℕ) :
    Except Error Message :=
  .ok (alignEdns query (cacheHitResponse query cached now))

def failureResult (query : Message) (cached : CachedAnswer) (now : ℕ) :
    Except Error Message :=
  match cached.failureError with
  | some error => .error error
  | none => freshResult query cached now

namespace Resolver

variable (resolver : Resolver)

def replyTtl : UInt32 :=
  (resolver.cache.serveStale.map ServeStale.replyTtl).getD
    defaultStaleReplyTtl

def staleResult (query : Message) (entry : CachedAnswer) :
    Except Error Message :=
  .ok (markStaleAnswer query
    (alignEdns query (staleResponse query entry resolver.replyTtl)))

def serveFailure (call : Call) (cached : CachedAnswer) (now : ℕ)
    (lookups : List Lookup) : Code Reply := do
  perform (.count .failureHits)
  perform (.emitCache (.failureServed call.correlationId call.group))
  let result := failureResult call.query cached now
  emitResult call.correlationId result
  return call.reply (.remembered cached) result lookups

def serveStale (call : Call) (entry : CachedAnswer)
    (lookups : List Lookup) : Code Reply := do
  let result := resolver.staleResult call.query entry
  perform (.count .staleHits)
  perform (.emitCache (.staleServed call.correlationId call.group))
  emitResult call.correlationId result
  return call.reply (.stale entry) result lookups

def finishFollower (call : Call) (outcome : Outcome)
    (lookups : List Lookup) : Code Reply :=
  match outcome with
  | .stale entry => resolver.serveStale call entry lookups
  | .cached cached => do
      let now : ℕ ← perform .now
      let result := freshResult call.query cached now
      emitResult call.correlationId result
      return call.reply (.fresh cached) result lookups
  | .raw origin answer => do
      let result : Except Error Message :=
        .ok (alignEdns call.query (rawResponse call.query answer))
      emitResult call.correlationId result
      return call.reply (.shared origin) result lookups
  | .failed origin error => do
      emitResult call.correlationId (.error error)
      return call.reply (.shared origin) (.error error) lookups

/-! ## Lookups -/

inductive Found where
  | fresh (cached : CachedAnswer)
  | failure (cached : CachedAnswer)
  | staleNow (cached : CachedAnswer)
  | refresh (stale : Option CachedAnswer) (backoff : Option ℕ)

def classify (entry : Option CachedAnswer) (now : ℕ) : Code Found :=
  match entry with
  | none => return .refresh none none
  | some entry =>
      match entry.failure with
      | some failure =>
          if now < entry.expires then return .failure entry
          else return .refresh none (some failure.backoff)
      | none =>
          if now < entry.expires then return .fresh entry
          else if resolver.cache.serveStale.isSome = true ∧
              now < entry.staleUntil then do
            let pending : Bool ← perform (.recheckPending entry now)
            return if pending then .staleNow entry
              else .refresh (some entry) none
          else return .refresh none none

def lookUp (stored : Option (List UInt8)) (now : ℕ) :
    Code (Option CachedAnswer) :=
  match stored with
  | some key => perform (.storeGet key now)
  | none => return none

/-! ## Upstream -/

inductive Ended (α : Type) where
  | done (value : α)
  | dropped
  | panicked

/-- `Store::insert_if` with the check of the epoch under the lock. -/
def insertIf (key : List UInt8) (entry : CachedAnswer) (now : ℕ) :
    Code Bool := do
  perform (.lockShard key)
  let allowed : Bool ← perform (.checkEpoch key entry.origin.epoch)
  perform (.insertUnlock key entry now allowed)

def storeAnswer (origin : UpstreamCall) (stored : Option (List UInt8))
    (now : ℕ) (answer : Message) : Code UpstreamAnswer :=
  match stored with
  | none => return ⟨answer, none, false⟩
  | some key =>
      match cacheableAnswer origin answer now resolver.cache.ttlPolicy with
      | none => return ⟨answer, none, false⟩
      | some entry => do
          let wasStored : Bool ← insertIf key entry now
          return ⟨answer, some entry, wasStored⟩

def observeUpstream (correlationId : Option ℕ) (event : ℕ → ObserveEvent) :
    Code Unit :=
  match correlationId with
  | some correlationId => perform (.emit (event correlationId))
  | none => return ()

def queryUpstream (origin : UpstreamCall) (correlationId : Option ℕ)
    (stored : Option (List UInt8)) (now : ℕ) :
    List ℕ → Option Error → Code (Ended (Except Error UpstreamAnswer))
  | [], some error => return .done (.error error)
  | [], none => return .panicked
  | backend :: rest, _ => do
      observeUpstream correlationId fun correlationId =>
        .upstreamAttempt correlationId origin.group backend
      let returned : Option (Except Error Message) ←
        perform (.callBackend origin backend)
      match returned with
      | none => return .dropped
      | some (.ok answer) => do
          observeUpstream correlationId fun correlationId =>
            .upstreamOutcome correlationId origin.group backend .success
          let result ← resolver.storeAnswer origin stored now answer
          return .done (.ok result)
      | some (.error error) =>
          if isRetryable error then do
            observeUpstream correlationId fun correlationId =>
              .upstreamOutcome correlationId origin.group backend
                .retryableFailure
            queryUpstream origin correlationId stored now rest (some error)
          else do
            observeUpstream correlationId fun correlationId =>
              .upstreamOutcome correlationId origin.group backend .failure
            return .done (.error error)

def forgetPrevious (stored : Option (List UInt8)) (previous : Option ℕ) :
    Code Unit :=
  match stored, previous with
  | some key, some _ => do
      let _ ← perform (.storeForgetFailure key)
      return ()
  | _, _ => return ()

def rememberFailure (origin : UpstreamCall) (query : Message)
    (result : Except Error UpstreamAnswer) (stored : Option (List UInt8))
    (previous : Option ℕ) (failedAt : ℕ) : Code Unit :=
  match resolver.cache.failurePolicy, stored with
  | some policy, some key => do
      let backoff :=
        (previous.map policy.nextBackoff).getD policy.firstBackoff
      let _ ← insertIf key (failureEntry origin query result failedAt backoff
        policy.longestBackoff) failedAt
      return ()
  | _, _ => return ()

/-- `settle_failure`: the stale entry to answer from, if any.  The end of the
recheck window may be no instant of the platform, and then the code panics. -/
def settleFailure (origin : UpstreamCall) (query : Message)
    (result : Except Error UpstreamAnswer) (stale : Option CachedAnswer)
    (stored : Option (List UInt8)) (previous : Option ℕ) :
    Code (Ended (Option CachedAnswer)) :=
  if isFailure result then do
    let failedAt : ℕ ← perform .now
    match stale, resolver.cache.serveStale with
    | some entry, some policy => do
        let deadline : Option ℕ ←
          perform (.addInstant failedAt policy.failureRecheck)
        match deadline with
        | none => return .panicked
        | some deadline => do
            perform (.deferRecheck entry deadline)
            return .done (some entry)
    | _, _ => do
        resolver.rememberFailure origin query result stored previous failedAt
        return .done none
  else do
    forgetPrevious stored previous
    return .done none

/-- What the leader publishes. -/
def settledOutcome (origin : UpstreamCall)
    (result : Except Error UpstreamAnswer) : Option CachedAnswer → Outcome
  | some entry => .stale entry
  | none => outcomeOf origin result

/-! ## Background refreshes -/

def startPrefetch (call : Call) (key : List UInt8) : Code Unit :=
  if resolver.cache.coalesce then do
    let join : Join ← perform (.joinOrLead key .prefetch)
    match join with
    | .lead guard => do
        perform (.spawn ⟨call.query, call.group, key, some guard, none⟩)
        perform .unlockBackground
    | .follow flight => do
        perform (.unfollow flight)
        perform .unlockBackground
  else do
    perform (.spawn ⟨call.query, call.group, key, none, none⟩)
    perform .unlockBackground

/-- The part of `maybe_prefetch` once the entry is popular and near its
end. -/
def prefetchDue (call : Call) (key : List UInt8) (cached : CachedAnswer) :
    Code Unit := do
  let available : Bool ← perform .tryCurrent
  if available then do
    let running : ℕ ← perform .lockBackground
    if maxRefreshTasks ≤ running then perform .unlockBackground
    else do
      let refreshing : Bool ← perform (.swapRefreshing cached)
      if refreshing then perform .unlockBackground
      else resolver.startPrefetch call key
  else return ()

def maybePrefetch (call : Call) (cached : CachedAnswer) (now : ℕ) :
    Code Unit :=
  match resolver.cache.prefetch,
      resolver.storedKey call.group call.query with
  | some prefetch, some key => do
      let previous : UInt32 ← perform (.addHit cached)
      let hits := min (previous.toNat + 1) 4294967295
      if hits < prefetch.minHits.toNat then return ()
      else if (cached.expires - cached.inserted) * prefetch.thresholdPercent <
          (cached.expires - now) * 100 then return ()
      else resolver.prefetchDue call key cached
  | _, _ => return ()

def settleRefresh (origin : UpstreamCall) (job : RefreshJob)
    (result : Except Error UpstreamAnswer) :
    Code (Ended (Option CachedAnswer)) :=
  match job.stale with
  | none => return .done none
  | some stale =>
      resolver.settleFailure origin job.query result (some stale)
        (some job.key) none

def endRefresh (guard : Option LeaderGuard) : Code (Job ⊕ Reply) := do
  dropGuard guard
  perform .taskEnded
  return .inr .ended

def refreshCall (job : RefreshJob) (correlationId backends : ℕ) :
    Code (Job ⊕ Reply) := do
  let now : ℕ ← perform .now
  let origin : UpstreamCall ← perform (.beginCall job.group job.query)
  let ended ← resolver.queryUpstream origin none (some job.key) now
    (List.range backends) none
  perform (.endCall origin)
  match ended with
  | .dropped => endRefresh job.guard
  | .panicked => endRefresh job.guard
  | .done result => do
      let settled ← resolver.settleRefresh origin job result
      match settled with
      | .dropped => endRefresh job.guard
      | .panicked => endRefresh job.guard
      | .done staleUsed => do
          finish job.guard (settledOutcome origin result staleUsed)
          let refreshed := match result with
            | .ok answer => answer.stored
            | .error _ => false
          perform (.emitCache
            (.refreshCompleted correlationId job.group refreshed))
          perform .taskEnded
          return .inr .ended

def refresh (job : RefreshJob) : Code (Job ⊕ Reply) := do
  -- a task may be aborted before it runs for the first time
  let running : Bool ← perform .scheduled
  if running then do
    let correlationId : ℕ ← perform .nextCorrelationId
    perform (.count .refreshes)
    perform (.emitCache (.refreshStarted correlationId job.group))
    match resolver.cache.storeEnabled, resolver.backends.lookup job.group with
    | true, some backends => resolver.refreshCall job correlationId backends
    | _, _ => do
        perform (.emitCache
          (.refreshCompleted correlationId job.group false))
        endRefresh job.guard
  else endRefresh job.guard

/-- Hands the refresh of an expired entry to a background task; the answer is
whether it was taken. -/
def spawnStaleRefresh (call : Call) (guard : LeaderGuard) (key : List UInt8)
    (stale : CachedAnswer) : Code Bool := do
  let available : Bool ← perform .tryCurrent
  if available then do
    let running : ℕ ← perform .lockBackground
    if maxRefreshTasks ≤ running then do
      perform .unlockBackground
      return false
    else do
      perform (.follower guard.flight)
      perform (.spawn ⟨call.query, call.group, key, some guard, some stale⟩)
      perform .unlockBackground
      return true
  else return false

/-! ## One call of `resolve` -/

/-- The lifetime of an answer is measured from before the upstream call. -/
def startInstant (progress : Progress) : Code ℕ :=
  if progress.announced then perform .now else return progress.now

def leadCall (call : Call) (guard : Option LeaderGuard)
    (progress : Progress) : Code (Job ⊕ Reply) := do
  let stored := resolver.storedKey call.group call.query
  let now ← startInstant progress
  let origin : UpstreamCall ← perform (.beginCall call.group call.query)
  let ended ← resolver.queryUpstream origin (some call.correlationId) stored
    now (List.range call.backends) none
  perform (.endCall origin)
  match ended with
  | .dropped => do
      dropGuard guard
      return .inr .cancelled
  | .panicked => do
      dropGuard guard
      return .inr (.panicked progress.lookups)
  | .done result => do
      let settled ← resolver.settleFailure origin call.query result
        progress.stale stored progress.previousBackoff
      match settled with
      | .dropped => do
          dropGuard guard
          return .inr .cancelled
      | .panicked => do
          dropGuard guard
          return .inr (.panicked progress.lookups)
      | .done staleUsed => do
          finish guard (settledOutcome origin result staleUsed)
          match staleUsed with
          | some entry =>
              return .inr (← resolver.serveStale call entry progress.lookups)
          | none => do
              let answer := result.map fun answer =>
                alignEdns call.query answer.message
              emitResult call.correlationId answer
              return .inr
                (call.reply (.upstream origin) answer progress.lookups)

def awaitRefresh (call : Call) (flight : ℕ) (stale : CachedAnswer)
    (lookups : List Lookup) : Code (Job ⊕ Reply) := do
  let waited : Wait ← perform (.wait flight true)
  match waited with
  | .done outcome =>
      return .inr (← resolver.finishFollower call outcome lookups)
  | .abandoned => return .inr (← resolver.serveStale call stale lookups)
  | .timedOut => return .inr (← resolver.serveStale call stale lookups)
  | .dropped => return .inr .cancelled

def clientTimeout : Option ℕ :=
  resolver.cache.serveStale.bind ServeStale.clientTimeout

/-- With a client timeout, the refresh of a stale entry runs in the
background. -/
def leadRefresh (call : Call) (guard : LeaderGuard) (progress : Progress) :
    Code (Job ⊕ Reply) :=
  match progress.stale, resolver.clientTimeout,
      resolver.storedKey call.group call.query with
  | some stale, some _, some key => do
      let taken ← spawnStaleRefresh call guard key stale
      if taken then
        resolver.awaitRefresh call guard.flight stale progress.lookups
      else resolver.leadCall call (some guard) progress
  | _, _, _ => resolver.leadCall call (some guard) progress

def leadFlight (call : Call) (guard : LeaderGuard) (progress : Progress) :
    Code (Job ⊕ Reply) :=
  match resolver.storedKey call.group call.query with
  | none => resolver.leadRefresh call guard progress
  | some key => do
      let now : ℕ ← perform .now
      let entry : Option CachedAnswer ← perform (.storeGet key now)
      let lookups := progress.lookups ++ [⟨entry, now⟩]
      let found ← resolver.classify entry now
      match found with
      | .fresh cached => do
          finish (some guard) (.cached cached)
          let result := freshResult call.query cached now
          emitResult call.correlationId result
          return .inr (call.reply (.fresh cached) result lookups)
      | .failure cached => do
          finish (some guard) (outcomeOfFailure cached)
          return .inr (← serveFailure call cached now lookups)
      | .staleNow cached => do
          finish (some guard) (.stale cached)
          return .inr (← resolver.serveStale call cached lookups)
      | .refresh stale backoff =>
          resolver.leadRefresh call guard { progress with
            stale := stale
            previousBackoff := backoff
            lookups := lookups }

def announce (call : Call) (progress : Progress) : Code Unit :=
  if progress.announced then return ()
  else do
    perform (.count .coalesced)
    perform (.emitCache (.coalesced call.correlationId call.group))

def waitTimed (stale : Option CachedAnswer) : Code Bool :=
  match stale, resolver.clientTimeout with
  | some _, some _ => perform .tryCurrent
  | _, _ => return false

def followFlight (call : Call) (key : List UInt8) (progress : Progress)
    (flight : ℕ) : Code (Job ⊕ Reply) := do
  announce call progress
  let timed ← resolver.waitTimed progress.stale
  let waited : Wait ← perform (.wait flight timed)
  let again := { progress with announced := true }
  match waited with
  | .done outcome =>
      return .inr (← resolver.finishFollower call outcome progress.lookups)
  | .timedOut =>
      match progress.stale with
      | some stale =>
          return .inr (← resolver.serveStale call stale progress.lookups)
      | none => return .inl (.join call key again)
  | .abandoned => return .inl (.join call key again)
  | .dropped => return .inr .cancelled

/-- One round of the loop over `join_or_lead`. -/
def joinFlight (call : Call) (key : List UInt8) (progress : Progress) :
    Code (Job ⊕ Reply) := do
  let join : Join ←
    perform (.joinOrLead key (.query progress.stale.isSome))
  match join with
  | .lead guard => resolver.leadFlight call guard progress
  | .follow flight => resolver.followFlight call key progress flight

def resolveIn (call : Call) : Code (Job ⊕ Reply) := do
  let now : ℕ ← perform .now
  let entry ← lookUp (resolver.storedKey call.group call.query) now
  let lookups := [⟨entry, now⟩]
  let found ← resolver.classify entry now
  match found with
  | .fresh cached => do
      let result := freshResult call.query cached now
      perform (.count .hits)
      perform (.emit (.cacheHit call.correlationId call.group))
      emitResult call.correlationId result
      resolver.maybePrefetch call cached now
      return .inr (call.reply (.fresh cached) result lookups)
  | .failure cached => do
      perform (.count .hits)
      perform (.emit (.cacheHit call.correlationId call.group))
      return .inr (← serveFailure call cached now lookups)
  | .staleNow cached => do
      perform (.count .hits)
      perform (.emit (.cacheHit call.correlationId call.group))
      return .inr (← resolver.serveStale call cached lookups)
  | .refresh stale backoff => do
      perform (.count .misses)
      perform (.emit (.cacheMiss call.correlationId call.group))
      let progress := ⟨now, stale, backoff, false, lookups⟩
      match resolver.cache.coalesce,
          resolver.cacheKey call.group call.query with
      | true, some key => return .inl (.join call key progress)
      | _, _ => resolver.leadCall call none progress

inductive Selection where
  | selected (group : UpstreamGroupId) (backends : ℕ)
      (decision : Option RouteDecision)
  | rejected (error : Error)
  | dropped

def registered (group : Option UpstreamGroupId)
    (decision : Option RouteDecision) : Selection :=
  match group with
  | none => .rejected .noRoute
  | some group =>
      match resolver.backends.lookup group with
      | none => .rejected .noRoute
      | some backends =>
          if backends = 0 then .rejected .noRoute
          else
            match resolver.groupIndex group with
            | none => .rejected .noRoute
            | some _ => .selected group backends decision

def selectBackends (question : Question) (correlationId : ℕ) :
    Code Selection := do
  let staticGroup := resolver.policy question.name
  perform (.emit (.staticRoute correlationId staticGroup))
  if resolver.routeHook then do
    let decision : Option (Except String RouteDecision) ←
      perform (.hookSelect question staticGroup)
    match decision with
    | none => return .dropped
    | some (.ok (.use group)) => do
        perform (.emit (.hookDecision correlationId (.use group)))
        return resolver.registered (some group) (some (.use group))
    | some (.ok .abstain) => do
        perform (.emit (.hookDecision correlationId .abstain))
        return resolver.registered staticGroup (some .abstain)
    | some (.error message) => do
        perform (.emit (.hookDecision correlationId .failed))
        return .rejected (.hook message)
  else return resolver.registered staticGroup none

def fakeIpAnswer (query : Message) :
    Code (Except Error (Option Message)) :=
  if resolver.fakeIp then perform (.fakeIpAnswer query)
  else return .ok none

/-- A call which ends before it has a group. -/
def reject (correlationId : ℕ) (error : Error) : Code (Job ⊕ Reply) := do
  perform (.emit (.failed correlationId (observeFailure error)))
  return .inr (.rejected (.error error))

def resolveQuestion (query : Message) (question : Question)
    (correlationId : ℕ) : Code (Job ⊕ Reply) := do
  let selection ← resolver.selectBackends question correlationId
  match selection with
  | .dropped => return .inr .cancelled
  | .rejected error => reject correlationId error
  | .selected group backends decision =>
      resolver.resolveIn ⟨query, correlationId, group, backends, decision⟩

def resolve (query : Message) : Code (Job ⊕ Reply) := do
  let correlationId : ℕ ← perform .nextCorrelationId
  let question := query.questions.head?
  perform (.emit (.queryReceived correlationId
    (question.map Question.name) (question.map Question.qtype)
    (question.map Question.qclass)))
  match question with
  | none => reject correlationId .noRoute
  | some question => do
      let synthesized ← resolver.fakeIpAnswer query
      match synthesized with
      | .ok (some answer) => do
          let answer := alignEdns query answer
          perform (.emit (.fakeIpTerminal correlationId))
          perform (.emit (.completed correlationId answer.header.rcode))
          return .inr (.rejected (.ok answer))
      | .error error => reject correlationId error
      | .ok none => resolver.resolveQuestion query question correlationId

/-! ## Purges -/

def sweepShards (scope : Scope) : List ℕ → Code ℕ
  | [] => return 0
  | index :: rest => do
      let removed : ℕ ← perform (.sweepShard scope index)
      let others ← sweepShards scope rest
      return removed + others

def sweep (scope : Scope) : Code ℕ :=
  if resolver.cache.storeEnabled ∧ scope.matching.isSome then
    sweepShards scope (List.range resolver.shards)
  else return 0

def completeFlush (scope : Scope) (epoch : ℕ) : Code Unit :=
  match scope with
  | .all => perform (.flushed epoch)
  | _ => return ()

/-- `clear_cache`, `purge` and `purge_subtree`: the epoch first, then the
shards. -/
def purge (scope : Scope) : Code (Job ⊕ Reply) := do
  let epoch : ℕ ← perform .bumpEpoch
  let removed ← resolver.sweep scope
  completeFlush scope epoch
  return .inr (.purged epoch removed)

/-! ## The machine -/

def code : Job → Code (Job ⊕ Reply)
  | .resolve query => resolver.resolve query
  | .join call key progress => resolver.joinFlight call key progress
  | .refresh job => resolver.refresh job
  | .purge scope => resolver.purge scope

def spawns : Op → Option Job
  | .spawn job => some (.refresh job)
  | _ => none

/-- What a caller can start. -/
def external : Job → Bool
  | .resolve _ => true
  | .purge _ => true
  | _ => false

def machine : Machine Op Resp World Job Reply Input where
  exec := resolver.exec
  spawns := spawns
  code := resolver.code
  external := external
  tick := resolver.tick

def start (instant : ℕ) : MachineState Op Resp World Job Reply :=
  ⟨resolver.initial instant, []⟩

end Resolver

end DnsLattice
