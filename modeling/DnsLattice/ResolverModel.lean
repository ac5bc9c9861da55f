import DnsLattice.AnswerRules
import DnsLattice.StoreModel
import DnsLattice.Interleaving
import Mathlib.Data.List.Sort

/-!
# The state of the resolver and its atomic operations

A resolver is shared by any number of tasks: calls of `resolve`, background
refreshes and purges.  This module has the state they share and the operations
on it which are atomic in the code: one critical section of a mutex, one
access to an atomic cell, or one await.  Atomics are taken to be sequentially
consistent, and 64-bit counters to be unbounded.

What the code leaves to its surroundings comes with each operation as an
input: the answers of backends, of the route hook and of the fake-IP pool,
whether a runtime is there, and where a future is dropped or a timeout passes.

Some fields are not in the code and only record what has happened: the owner,
the purpose, the floor and the fate of a flight, the epoch which a shard lock
has let through, the epoch of the last completed flush, what the backends have
returned, which entries have been offered to the store, and which failover
loops are running.
-/

namespace DnsLattice

/-! ## Events -/

inductive ObserveFailure where
  | noRoute
  | hook
  | timeout
  | transport
  | tls
  | other
  deriving DecidableEq, Repr

def observeFailure : Error → ObserveFailure
  | .noRoute => .noRoute
  | .hook _ => .hook
  | .timeout => .timeout
  | .transport _ => .transport
  | .tls _ => .tls
  | _ => .other

inductive UpstreamObserveOutcome where
  | success
  | retryableFailure
  | failure
  deriving DecidableEq, Repr

inductive HookObserveDecision where
  | abstain
  | use (group : UpstreamGroupId)
  | failed
  deriving DecidableEq, Repr

inductive ObserveEvent where
  | queryReceived (correlationId : ℕ) (name : Option Name)
      (rtype : Option RecordType) (cls : Option Class)
  | fakeIpTerminal (correlationId : ℕ)
  | staticRoute (correlationId : ℕ) (group : Option UpstreamGroupId)
  | hookDecision (correlationId : ℕ) (decision : HookObserveDecision)
  | cacheHit (correlationId : ℕ) (group : UpstreamGroupId)
  | cacheMiss (correlationId : ℕ) (group : UpstreamGroupId)
  | upstreamAttempt (correlationId : ℕ) (group : UpstreamGroupId)
      (backendIndex : ℕ)
  | upstreamOutcome (correlationId : ℕ) (group : UpstreamGroupId)
      (backendIndex : ℕ) (outcome : UpstreamObserveOutcome)
  | completed (correlationId : ℕ) (rcode : Rcode)
  | failed (correlationId : ℕ) (failure : ObserveFailure)
  deriving DecidableEq, Repr

inductive CacheEvent where
  | coalesced (correlationId : ℕ) (group : UpstreamGroupId)
  | staleServed (correlationId : ℕ) (group : UpstreamGroupId)
  | failureServed (correlationId : ℕ) (group : UpstreamGroupId)
  | refreshStarted (correlationId : ℕ) (group : UpstreamGroupId)
  | refreshCompleted (correlationId : ℕ) (group : UpstreamGroupId)
      (refreshed : Bool)
  deriving DecidableEq, Repr

/-- What the sink has been told, in order. -/
inductive Observed where
  | event (event : ObserveEvent)
  | cache (event : CacheEvent)
  deriving DecidableEq, Repr

/-! ## The configuration of a resolver -/

inductive RouteDecision where
  | use (group : UpstreamGroupId)
  | abstain
  deriving DecidableEq, Repr

/-- What is fixed when a resolver is built.  `backends` gives the number of
backends of each registered group. -/
structure Resolver where
  policy : Name → Option UpstreamGroupId
  backends : AList fun _ : UpstreamGroupId => ℕ
  groups_lt : backends.keys.length < 2 ^ 32
  cache : CacheConfig
  fakeIp : Bool
  routeHook : Bool
  observabilitySink : Bool
  parallelism : ℕ
  layout : Layout
  storeHash : List UInt8 → UInt64
  flightHash : List UInt8 → UInt64
  instantMax : ℕ

namespace Resolver

def groups (resolver : Resolver) : List UpstreamGroupId :=
  resolver.backends.keys.insertionSort fun first second =>
    first.name ≤ second.name

def groupIndex (resolver : Resolver) (group : UpstreamGroupId) :
    Option UInt32 :=
  if group ∈ resolver.groups then
    some (UInt32.ofNat (resolver.groups.idxOf group))
  else none

def cacheKey (resolver : Resolver) (group : UpstreamGroupId)
    (query : Message) : Option (List UInt8) :=
  if (resolver.cache.storeEnabled || resolver.cache.coalesce) &&
      queryUsesCache query then
    match resolver.groupIndex group, query.questions.head? with
    | some index, some question =>
        keyBuf index question.qtype question.qclass
          query.header.recursionDesired (queryDnssecOk query) question.name
    | _, _ => none
  else none

def storedKey (resolver : Resolver) (group : UpstreamGroupId)
    (query : Message) : Option (List UInt8) :=
  if resolver.cache.storeEnabled then resolver.cacheKey group query else none

def effectiveGroup (resolver : Resolver) (question : Question) :
    Option RouteDecision → Option UpstreamGroupId
  | some (.use group) => some group
  | some .abstain => resolver.policy question.name
  | none => resolver.policy question.name

def shards (resolver : Resolver) : ℕ :=
  shardCount resolver.cache.maxBytes resolver.cache.shards
    resolver.parallelism

end Resolver

/-! ## Flights -/

inductive FlightState where
  | pending
  | done (outcome : Outcome)
  | abandoned
  | closed
  deriving DecidableEq, Repr

/-- One in-flight query.  `closed` is a pending state whose sender is gone. -/
structure Flight where
  key : List UInt8
  owner : ℕ
  prefetch : Bool
  floor : ℕ
  receivers : ℕ
  state : FlightState
  fate : Option (Option Outcome)
  deriving DecidableEq, Repr

structure Registered where
  key : List UInt8
  flight : ℕ
  deriving DecidableEq, Repr

structure LeaderGuard where
  hash : UInt64
  flight : ℕ
  registered : Bool
  deriving DecidableEq, Repr

inductive Join where
  | follow (flight : ℕ)
  | lead (guard : LeaderGuard)
  deriving DecidableEq, Repr

inductive Wait where
  | done (outcome : Outcome)
  | abandoned
  | timedOut
  | dropped
  deriving DecidableEq, Repr

inductive Purpose where
  | query (stale : Bool)
  | prefetch
  deriving DecidableEq, Repr

/-! ## The shared state -/

structure ShardLock where
  owner : ℕ
  allowed : Option ℕ
  deriving DecidableEq, Repr

structure UpstreamReturn where
  call : UpstreamCall
  backend : ℕ
  result : Except Error Message

structure Core where
  clock : ℕ
  epoch : ℕ
  flushed : ℕ
  store : Store
  locks : ℕ → Option ShardLock
  registry : HashMap Registered
  flights : List Flight
  nextCall : ℕ
  history : List UpstreamReturn
  offered : List UpstreamCall
  loops : List UpstreamCall

inductive Counter where
  | hits
  | misses
  | coalesced
  | refreshes
  | staleHits
  | failureHits
  deriving DecidableEq, Repr

structure Cells where
  hits : UInt32
  refreshing : Bool
  recheckAfter : ℕ
  deriving DecidableEq, Repr

structure Background where
  holder : Option ℕ
  running : ℕ
  deriving DecidableEq, Repr

structure Side where
  nextCorrelationId : ℕ
  log : List Observed
  counters : Counter → ℕ
  cells : ℕ → Cells
  background : Background

structure World where
  core : Core
  side : Side

def Resolver.initial (resolver : Resolver) (start : ℕ) : World where
  core :=
    { clock := start
      epoch := 0
      flushed := 0
      store := .new resolver.cache.maxBytes resolver.cache.shards
        resolver.parallelism
      locks := fun _ => none
      registry := ∅
      flights := []
      nextCall := 0
      history := []
      offered := []
      loops := [] }
  side :=
    { nextCorrelationId := 1
      log := []
      counters := fun _ => 0
      cells := fun _ => ⟨0, false, 0⟩
      background := ⟨none, 0⟩ }

/-! ## Jobs -/

/-- What a purge removes. -/
inductive Scope where
  | all
  | named (name : Name) (rtype : Option RecordType)
  | subtree (zone : Name)
  deriving DecidableEq

/-- The keys a purge looks for; `none` if it does not look at all. -/
def Scope.matching : Scope → Option (List UInt8 → Bool)
  | .all => some fun _ => true
  | .named name rtype =>
      (wireName name).map fun wire =>
        Store.purgeMatches wire (rtype.map typeCode)
  | .subtree zone => (wireName zone).map Store.subtreeMatches

def Scope.covers (scope : Scope) (key : List UInt8) : Bool :=
  scope.matching.any fun matching => matching key

def Scope.remove (scope : Scope) (shard : Shard) :
    Run Error (ℕ × Shard) :=
  match scope with
  | .all => .ok shard.clear
  | .named _ _ => shard.removeMatching scope.covers
  | .subtree _ => shard.removeMatching scope.covers

structure Lookup where
  found : Option CachedAnswer
  now : ℕ
  deriving DecidableEq

/-- What is fixed for a call of `resolve` once its group is selected. -/
structure Call where
  query : Message
  correlationId : ℕ
  group : UpstreamGroupId
  backends : ℕ
  decision : Option RouteDecision
  deriving DecidableEq

/-- What changes while a call goes on; `lookups` records what it has found in
the store so far. -/
structure Progress where
  now : ℕ
  stale : Option CachedAnswer
  previousBackoff : Option ℕ
  announced : Bool
  lookups : List Lookup
  deriving DecidableEq

structure RefreshJob where
  query : Message
  group : UpstreamGroupId
  key : List UInt8
  guard : Option LeaderGuard
  stale : Option CachedAnswer
  deriving DecidableEq

inductive Job where
  | resolve (query : Message)
  | join (call : Call) (key : List UInt8) (progress : Progress)
  | refresh (job : RefreshJob)
  | purge (scope : Scope)
  deriving DecidableEq

inductive Source where
  | upstream (origin : UpstreamCall)
  | shared (origin : UpstreamCall)
  | fresh (entry : CachedAnswer)
  | remembered (entry : CachedAnswer)
  | stale (entry : CachedAnswer)
  deriving DecidableEq

structure Answer where
  group : UpstreamGroupId
  decision : Option RouteDecision
  source : Source
  result : Except Error Message
  deriving DecidableEq

inductive Reply where
  | answered (answer : Answer) (lookups : List Lookup)
  | rejected (result : Except Error Message)
  | cancelled
  | panicked (lookups : List Lookup)
  | ended
  | purged (epoch removed : ℕ)
  deriving DecidableEq

/-! ## Operations -/

inductive Op where
  | nextCorrelationId
  | emit (event : ObserveEvent)
  | emitCache (event : CacheEvent)
  | count (counter : Counter)
  | now
  | addInstant (instant duration : ℕ)
  | fakeIpAnswer (query : Message)
  | hookSelect (question : Question) (staticGroup : Option UpstreamGroupId)
  | tryCurrent
  | storeGet (key : List UInt8) (now : ℕ)
  | storeForgetFailure (key : List UInt8)
  | lockShard (key : List UInt8)
  | checkEpoch (key : List UInt8) (epoch : ℕ)
  | insertUnlock (key : List UInt8) (entry : CachedAnswer) (now : ℕ)
      (allowed : Bool)
  | recheckPending (entry : CachedAnswer) (now : ℕ)
  | deferRecheck (entry : CachedAnswer) (deadline : ℕ)
  | addHit (entry : CachedAnswer)
  | swapRefreshing (entry : CachedAnswer)
  | joinOrLead (key : List UInt8) (purpose : Purpose)
  | follower (flight : ℕ)
  | unfollow (flight : ℕ)
  | wait (flight : ℕ) (timed : Bool)
  | unregister (guard : LeaderGuard) (fate : Option Outcome)
  | publish (flight : ℕ) (outcome : Outcome)
  | abandon (flight : ℕ)
  | beginCall (group : UpstreamGroupId) (query : Message)
  | callBackend (origin : UpstreamCall) (backend : ℕ)
  | endCall (origin : UpstreamCall)
  | lockBackground
  | unlockBackground
  | spawn (job : RefreshJob)
  | scheduled
  | taskEnded
  | bumpEpoch
  | sweepShard (scope : Scope) (index : ℕ)
  | flushed (epoch : ℕ)

/-- What an operation returns; `none` from an await means that the future is
dropped there. -/
@[reducible]
def Resp : Op → Type
  | .nextCorrelationId => ℕ
  | .emit _ => Unit
  | .emitCache _ => Unit
  | .count _ => Unit
  | .now => ℕ
  | .addInstant _ _ => Option ℕ
  | .fakeIpAnswer _ => Except Error (Option Message)
  | .hookSelect _ _ => Option (Except String RouteDecision)
  | .tryCurrent => Bool
  | .storeGet _ _ => Option CachedAnswer
  | .storeForgetFailure _ => Bool
  | .lockShard _ => Unit
  | .checkEpoch _ _ => Bool
  | .insertUnlock _ _ _ _ => Bool
  | .recheckPending _ _ => Bool
  | .deferRecheck _ _ => Unit
  | .addHit _ => UInt32
  | .swapRefreshing _ => Bool
  | .joinOrLead _ _ => Join
  | .follower _ => Unit
  | .unfollow _ => Unit
  | .wait _ _ => Wait
  | .unregister _ _ => Unit
  | .publish _ _ => Unit
  | .abandon _ => Unit
  | .beginCall _ _ => UpstreamCall
  | .callBackend _ _ => Option (Except Error Message)
  | .endCall _ => Unit
  | .lockBackground => ℕ
  | .unlockBackground => Unit
  | .spawn _ => Unit
  | .scheduled => Bool
  | .taskEnded => Unit
  | .bumpEpoch => ℕ
  | .sweepShard _ _ => ℕ
  | .flushed _ => Unit

inductive Input where
  | none
  | dropped
  | timedOut
  | runtime (available : Bool)
  | hook (decision : Except String RouteDecision)
  | fakeIp (answer : Except Error (Option Message))
  | backend (result : Except Error Message)
  | advance (duration : ℕ)

def u64Max : ℕ := 2 ^ 64 - 1

namespace Cells

def recheckPending (cells : Cells) (entry : CachedAnswer) (now : ℕ) : Bool :=
  decide (cells.recheckAfter ≠ 0) &&
    decide (min (now - entry.inserted) u64Max < cells.recheckAfter)

def deferRecheck (cells : Cells) (entry : CachedAnswer) (deadline : ℕ) :
    Cells :=
  { cells with
    recheckAfter := max cells.recheckAfter
      (max (min (deadline - entry.inserted) u64Max) 1) }

end Cells

namespace Side

def setCells (side : Side) (entry : CachedAnswer) (cells : Cells) : Side :=
  { side with cells := Function.update side.cells entry.origin.id cells }

def cellsOf (side : Side) (entry : CachedAnswer) : Cells :=
  side.cells entry.origin.id

def record (side : Side) (resolver : Resolver) (observed : Observed) : Side :=
  if resolver.observabilitySink then
    { side with log := side.log ++ [observed] }
  else side

end Side

namespace Core

variable (resolver : Resolver)

def home (core : Core) (key : List UInt8) : ℕ :=
  core.store.shardIndex (resolver.storeHash key)

def setLock (core : Core) (index : ℕ) (lock : Option ShardLock) : Core :=
  { core with locks := Function.update core.locks index lock }

def onShard {α : Type} (core : Core) (index : ℕ)
    (result : Run Error (α × Store)) : Option (α × Core) :=
  match core.locks index, result with
  | none, .ok (value, store) => some (value, { core with store := store })
  | _, _ => none

def storeGet (core : Core) (key : List UInt8) (now : ℕ) :
    Option (Option CachedAnswer × Core) :=
  core.onShard (core.home resolver key)
    (core.store.get (resolver.storeHash key) key now)

def storeForgetFailure (core : Core) (key : List UInt8) :
    Option (Bool × Core) :=
  core.onShard (core.home resolver key)
    (core.store.forgetFailure (resolver.storeHash key) key)

def lockShard (core : Core) (task : ℕ) (key : List UInt8) : Option Core :=
  match core.locks (core.home resolver key) with
  | none => some (core.setLock (core.home resolver key) (some ⟨task, none⟩))
  | some _ => none

/-- The condition of `insert_if`, evaluated under the lock. -/
def checkEpoch (core : Core) (task : ℕ) (key : List UInt8) (epoch : ℕ) :
    Bool × Core :=
  if core.epoch = epoch then
    (true, core.setLock (core.home resolver key) (some ⟨task, some epoch⟩))
  else (false, core)

def insertUnlock (core : Core) (task : ℕ) (key : List UInt8)
    (entry : CachedAnswer) (now : ℕ) (allowed : Bool) :
    Option (Bool × Core) :=
  match core.locks (core.home resolver key),
      core.store.insertIf resolver.layout (resolver.storeHash key) key entry
        now allowed with
  | some lock, .ok (stored, store) =>
      if lock.owner = task then
        some (stored,
          { core with
            store := store
            locks := Function.update core.locks (core.home resolver key) none
            offered :=
              if allowed then entry.origin :: core.offered
              else core.offered })
      else none
  | _, _ => none

def sweepShard (core : Core) (scope : Scope) (index : ℕ) :
    Option (ℕ × Core) :=
  core.onShard index (core.store.withShard index scope.remove)

def setFlight (core : Core) (flight : ℕ) (change : Flight → Flight) : Core :=
  { core with flights := core.flights.modify flight change }

def addFlight (core : Core) (task : ℕ) (key : List UInt8)
    (purpose : Purpose) : Core :=
  { core with
    flights := core.flights ++
      [{ key := key
         owner := task
         prefetch := decide (purpose = .prefetch)
         floor := core.flushed
         receivers := 0
         state := .pending
         fate := none }] }

def register (core : Core) (hash : UInt64) (registered : Registered) : Core :=
  { core with registry := core.registry.insert hash registered }

def follow (core : Core) (flight : ℕ) : Core :=
  core.setFlight flight fun flight =>
    { flight with receivers := flight.receivers + 1 }

def joinOrLead (core : Core) (task : ℕ) (key : List UInt8)
    (purpose : Purpose) : Join × Core :=
  match core.registry.lookup (resolver.flightHash key) with
  | some registered =>
      if registered.key = key then
        (.follow registered.flight, core.follow registered.flight)
      else
        (.lead ⟨resolver.flightHash key, core.flights.length, false⟩,
          core.addFlight task key purpose)
  | none =>
      (.lead ⟨resolver.flightHash key, core.flights.length, true⟩,
        (core.addFlight task key purpose).register (resolver.flightHash key)
          ⟨key, core.flights.length⟩)

def unfollow (core : Core) (flight : ℕ) : Core :=
  core.setFlight flight fun flight =>
    { flight with receivers := flight.receivers - 1 }

def waitResult (timed : Bool) : FlightState → Input → Option Wait
  | .pending, .timedOut => if timed then some .timedOut else none
  | _, .dropped => some .dropped
  | .done outcome, _ => some (.done outcome)
  | .abandoned, _ => some .abandoned
  | .closed, _ => some .abandoned
  | .pending, _ => none

def wait (core : Core) (flight : ℕ) (timed : Bool) (input : Input) :
    Option (Wait × Core) :=
  match core.flights[flight]? with
  | none => none
  | some found =>
      (waitResult timed found.state input).map fun result =>
        (result, core.unfollow flight)

def unregistered (core : Core) (guard : LeaderGuard) : HashMap Registered :=
  if guard.registered = true ∧
      (core.registry.lookup guard.hash).map Registered.flight =
        some guard.flight then
    core.registry.erase guard.hash
  else core.registry

def unregister (core : Core) (guard : LeaderGuard) (fate : Option Outcome) :
    Core :=
  { core.setFlight guard.flight fun flight =>
      { flight with fate := some fate } with
    registry := core.unregistered guard }

def publish (core : Core) (flight : ℕ) (outcome : Outcome) : Core :=
  core.setFlight flight fun flight =>
    { flight with
      state := if 0 < flight.receivers then .done outcome else .closed }

def abandon (core : Core) (flight : ℕ) : Core :=
  core.setFlight flight fun flight => { flight with state := .abandoned }

def beginCall (core : Core) (task : ℕ) (group : UpstreamGroupId)
    (query : Message) : UpstreamCall × Core :=
  let origin : UpstreamCall :=
    ⟨core.nextCall, task, group, query, core.epoch⟩
  (origin,
    { core with
      nextCall := core.nextCall + 1
      loops := origin :: core.loops })

def endCall (core : Core) (origin : UpstreamCall) : Core :=
  { core with loops := core.loops.filter fun call => call ≠ origin }

def handOver (core : Core) (task : ℕ) (job : RefreshJob) : Core :=
  match job.guard with
  | some guard =>
      core.setFlight guard.flight fun flight => { flight with owner := task }
  | none => core

end Core

/-- How far the clock stays from the last instant: a TTL in seconds of 32 bits
and the longest windows never overflow. -/
def clockHeadroom : ℕ := 2 ^ 32 * second + maxStaleWindow + maxFailureTtl

namespace World

def withSide {α : Type} (world : World) (value : α) (side : Side) :
    Option (α × World) :=
  some (value, { world with side := side })

def withCore {α : Type} (world : World) (value : α) (core : Core) :
    Option (α × World) :=
  some (value, { world with core := core })

def withCore? {α : Type} (world : World) (result : Option (α × Core)) :
    Option (α × World) :=
  result.map fun (value, core) => (value, { world with core := core })

end World

namespace Resolver

variable (resolver : Resolver)

def exec (task unused : ℕ) (world : World) :
    (op : Op) → Input → Option (Resp op × World)
  | .nextCorrelationId, _ =>
      world.withSide world.side.nextCorrelationId
        { world.side with
          nextCorrelationId := world.side.nextCorrelationId + 1 }
  | .emit event, _ =>
      world.withSide () (world.side.record resolver (.event event))
  | .emitCache event, _ =>
      world.withSide () (world.side.record resolver (.cache event))
  | .count counter, _ =>
      world.withSide () { world.side with
        counters := Function.update world.side.counters counter
          (world.side.counters counter + 1) }
  | .now, _ => some (world.core.clock, world)
  | .addInstant instant duration, _ =>
      some (if instant + duration ≤ resolver.instantMax then
        some (instant + duration) else none, world)
  | .fakeIpAnswer _, .fakeIp answer => some (answer, world)
  | .fakeIpAnswer _, _ => none
  | .hookSelect _ _, .hook decision => some (some decision, world)
  | .hookSelect _ _, .dropped => some (none, world)
  | .hookSelect _ _, _ => none
  | .tryCurrent, .runtime available => some (available, world)
  | .tryCurrent, _ => none
  | .storeGet key now, _ =>
      world.withCore? (world.core.storeGet resolver key now)
  | .storeForgetFailure key, _ =>
      world.withCore? (world.core.storeForgetFailure resolver key)
  | .lockShard key, _ =>
      (world.core.lockShard resolver task key).bind (world.withCore ())
  | .checkEpoch key epoch, _ =>
      world.withCore (world.core.checkEpoch resolver task key epoch).1
        (world.core.checkEpoch resolver task key epoch).2
  | .insertUnlock key entry now allowed, _ =>
      world.withCore?
        (world.core.insertUnlock resolver task key entry now allowed)
  | .recheckPending entry now, _ =>
      some ((world.side.cellsOf entry).recheckPending entry now, world)
  | .deferRecheck entry deadline, _ =>
      world.withSide () (world.side.setCells entry
        ((world.side.cellsOf entry).deferRecheck entry deadline))
  | .addHit entry, _ =>
      let cells := world.side.cellsOf entry
      world.withSide cells.hits
        (world.side.setCells entry { cells with hits := cells.hits + 1 })
  | .swapRefreshing entry, _ =>
      let cells := world.side.cellsOf entry
      world.withSide cells.refreshing
        (world.side.setCells entry { cells with refreshing := true })
  | .joinOrLead key purpose, _ =>
      world.withCore (world.core.joinOrLead resolver task key purpose).1
        (world.core.joinOrLead resolver task key purpose).2
  | .follower flight, _ =>
      world.withCore () (world.core.follow flight)
  | .unfollow flight, _ => world.withCore () (world.core.unfollow flight)
  | .wait flight timed, input =>
      world.withCore? (world.core.wait flight timed input)
  | .unregister guard fate, _ =>
      world.withCore () (world.core.unregister guard fate)
  | .publish flight outcome, _ =>
      world.withCore () (world.core.publish flight outcome)
  | .abandon flight, _ => world.withCore () (world.core.abandon flight)
  | .beginCall group query, _ =>
      world.withCore (world.core.beginCall task group query).1
        (world.core.beginCall task group query).2
  | .callBackend origin backend, .backend result =>
      world.withCore (some result) { world.core with
        history := world.core.history ++ [⟨origin, backend, result⟩] }
  | .callBackend _ _, .dropped => some (none, world)
  | .callBackend _ _, _ => none
  | .endCall origin, _ => world.withCore () (world.core.endCall origin)
  | .lockBackground, _ =>
      if world.side.background.holder.isSome then none
      else
        world.withSide world.side.background.running
          { world.side with
            background := ⟨some task, world.side.background.running⟩ }
  | .unlockBackground, _ =>
      world.withSide () { world.side with
        background := ⟨none, world.side.background.running⟩ }
  | .spawn job, _ =>
      some ((),
        { core := world.core.handOver unused job
          side := { world.side with
            background := ⟨world.side.background.holder,
              world.side.background.running + 1⟩ } })
  | .scheduled, .dropped => some (false, world)
  | .scheduled, _ => some (true, world)
  | .taskEnded, _ =>
      world.withSide () { world.side with
        background := ⟨world.side.background.holder,
          world.side.background.running - 1⟩ }
  | .bumpEpoch, _ =>
      world.withCore (world.core.epoch + 1)
        { world.core with epoch := world.core.epoch + 1 }
  | .sweepShard scope index, _ =>
      world.withCore? (world.core.sweepShard scope index)
  | .flushed epoch, _ =>
      world.withCore () { world.core with
        flushed := max world.core.flushed epoch }

/-- Time passes. -/
def tick (world : World) : Input → Option World
  | .advance duration =>
      if world.core.clock + duration + clockHeadroom ≤ resolver.instantMax then
        some { world with
          core := { world.core with clock := world.core.clock + duration } }
      else none
  | _ => none

end Resolver

end DnsLattice
