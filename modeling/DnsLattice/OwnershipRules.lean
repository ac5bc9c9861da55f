import DnsLattice.Ownership

/-!
# Rules for leaders and followers

The rely/guarantee logic of flights.  Besides the invariant it states what
holds when a task is about to begin an upstream call or to store a failure:
under the key which it leads there is nothing in the store that is still good.
The last assertion of a call says that an expired answer which it has found,
and which is still stored, is served.
-/

namespace DnsLattice

open Logic

namespace Ownership

/-! ## Assertions -/

/-- An assertion which every operation keeps. -/
def Lasting (resolver : Resolver) (holds : Core → Prop) : Prop :=
  ∀ core after, Grows resolver core after → holds core → holds after

def Steady (resolver : Resolver) (task : ℕ) (holds : Core → Prop) : Prop :=
  ∀ core after, Rely resolver task core after → holds core → holds after

def StaleFound (lookups : List Lookup) (entry : CachedAnswer) : Prop :=
  ∃ lookup ∈ lookups, lookup.found = some entry ∧ entry.failure = none ∧
    entry.expires ≤ lookup.now ∧ lookup.now < entry.staleUntil

structure Served (entry : CachedAnswer) (answer : Answer) : Prop where
  ok : ∃ message, answer.result = .ok message ∧
    message.header.rcode.failing = false
  stale : ∀ other, answer.source = .stale other → other = entry
  remembered : ∀ other, answer.source ≠ .remembered other

section Assertions

variable (resolver : Resolver)

/-- Of the expired answers which the call has found, only the one it holds can
still be stored. -/
def Matches (core : Core) (stored : Option (List UInt8))
    (lookups : List Lookup) (stale : Option CachedAnswer) : Prop :=
  resolver.cache.serveStale.isSome = true → ∀ entry,
    StaleFound lookups entry →
    entry.origin ∈ core.offered ∧ ∀ key, stored = some key →
      core.store.Holds key entry → stale = some entry

def Known (core : Core) (stale : Option CachedAnswer) : Prop :=
  ∀ entry, stale = some entry →
    entry.origin ∈ core.offered ∧ entry.failure = none ∧
      entry.message.header.rcode.failing = false ∧
      resolver.cache.serveStale.isSome = true

def Follows (core : Core) (id : ℕ) (key : List UInt8)
    (stale : Option CachedAnswer) : Prop :=
  ∃ flight : Flight, core.flights[id]? = some flight ∧ flight.key = key ∧
    ∀ entry, stale = some entry →
      flight.prefetch = false ∧ ∀ outcome,
        flight.fate = some (some outcome) → core.store.Holds key entry →
        outcome.Serves entry

def Fated (core : Core) (id : ℕ) (outcome : Outcome) : Prop :=
  ∃ flight : Flight, core.flights[id]? = some flight ∧
    flight.fate = some (some outcome)

/-- Nothing which the leader can lose to a failure: the entry has expired, and
it is the answer which the leader holds, or a failure, or no expired answer is
ever served. -/
def Expired (stale : Option CachedAnswer) (clock : ℕ)
    (entry : CachedAnswer) : Prop :=
  entry.expires ≤ clock ∧
    (stale = some entry ∨ entry.failure.isSome = true ∨
      resolver.cache.serveStale.isSome = false)

/-- An assertion about entries which time does not end. -/
def Aging (good : ℕ → CachedAnswer → Prop) : Prop :=
  ∀ clock later entry, clock ≤ later → good clock entry → good later entry

/-- The task is alone with the key of the query, as far as it has one: it
leads the flight, what is stored under the key is as the task knows it, and so
are the failover loops which are running. -/
structure Leading (core : Core) (task : ℕ) (group : UpstreamGroupId)
    (query : Message) (guard : Option LeaderGuard) (prefetch : Bool)
    (good : ℕ → CachedAnswer → Prop) (calls : UpstreamCall → Prop) :
    Prop where
  guarded : ∀ leader, guard = some leader →
    ∃ key, resolver.cacheKey group query = some key ∧
      Guarded resolver core task leader key prefetch
  alone : guard = none → resolver.cache.coalesce = true →
    resolver.cacheKey group query = none
  only : resolver.cache.coalesce = true → ∀ key,
    resolver.storedKey group query = some key → ∀ entry,
    core.store.Holds key entry → good core.clock entry
  running : resolver.cache.coalesce = true → ∀ key,
    resolver.cacheKey group query = some key → ∀ call ∈ core.loops,
    Keyed resolver key call → calls call

structure Unstored (core : Core) (task : ℕ) (origin : UpstreamCall) :
    Prop where
  task_eq : origin.task = task
  id_lt : origin.id < core.nextCall
  not_offered : origin ∉ core.offered

structure CallOk (thread : Thread World Job) (call : Call) : Prop where
  first : thread.first = .resolve call.query
  backends_pos : 0 < call.backends

/-- What a refresh knows about the store: it has looked only if it holds an
expired answer. -/
def refreshGood (stale : Option CachedAnswer) (clock : ℕ)
    (entry : CachedAnswer) : Prop :=
  stale.isSome = true → Expired resolver stale clock entry

structure RefreshOk (core : Core) (task : ℕ) (job : RefreshJob) : Prop where
  stored : resolver.storedKey job.group job.query = some job.key
  known : Known resolver core job.stale
  leading : Leading resolver core task job.group job.query job.guard
    job.stale.isNone (refreshGood resolver job.stale) fun _ => False

def ReplyOk (core : Core) (query : Message) (reply : Reply) : Prop :=
  (∀ lookups, reply ≠ .panicked lookups) ∧
  ∀ answer lookups, reply = .answered answer lookups →
    resolver.cache.serveStale.isSome = true → ∀ entry key,
    StaleFound lookups entry →
    resolver.storedKey answer.group query = some key →
    entry.origin ∈ core.offered ∧
      (core.store.Holds key entry → Served entry answer)

end Assertions

/-- No flight is led in private: no two keys which meet in the registry have
the same hash. -/
def NoPrivate (allows : Condition Op Resp World Job) : Prop :=
  ∀ job born world key purpose guard,
    allows job born world (.joinOrLead key purpose) (.lead guard) = true →
    guard.registered = true

/-- No query which holds an expired answer follows a prefetch, and the end of
the recheck window is an instant. -/
structure Careful (allows : Condition Op Resp World Job) : Prop where
  follows : ∀ job born world key id (flight : Flight),
    allows job born world (.joinOrLead key (.query true)) (.follow id) =
      true →
    world.core.flights[id]? = some flight → flight.prefetch = false
  instants : ∀ job born world instant duration,
    allows job born world (.addInstant instant duration) none = false

/-- A loop of a query: a call of `resolve`, or the refresh of an expired answer
which a query has found. -/
def queryDriven : Job → Bool
  | .resolve _ => true
  | .refresh job => job.stale.isSome
  | _ => false

def logic (resolver : Resolver) (allows : Condition Op Resp World Job) :
    Logic Op World Job Reply where
  inv world := Inv resolver world.core
  rely number world after := Rely resolver number world.core after.core
  asserts thread op world :=
    match op with
    | .beginCall group query =>
        resolver.cache.coalesce = true → queryDriven thread.first = true →
        ∀ key entry, resolver.storedKey group query = some key →
          world.core.store.Holds key entry →
          entry.expires ≤ world.core.clock
    | .insertUnlock key entry _ _ =>
        resolver.cache.coalesce = true → entry.failure.isSome = true →
        ∀ held, world.core.store.Holds key held → held.failure = none →
          held.expires ≤ world.core.clock ∧
            (resolver.cache.serveStale.isSome = true →
              held.staleUntil ≤ world.core.clock)
    | _ => True
  pre thread job world :=
    match job with
    | .resolve query => thread.first = .resolve query
    | .join call key progress =>
        CallOk thread call ∧ resolver.cache.coalesce = true ∧
          resolver.cacheKey call.group call.query = some key ∧
          Known resolver world.core progress.stale ∧
          Matches resolver world.core
            (resolver.storedKey call.group call.query) progress.lookups
            progress.stale
    | .refresh job =>
        thread.first = .refresh job ∧
          RefreshOk resolver world.core thread.number job
    | .purge scope => thread.first = .purge scope
  post thread reply world :=
    match thread.first with
    | .resolve query =>
        Careful allows → ReplyOk resolver world.core query reply
    | _ => True

variable {resolver : Resolver} {allows : Condition Op Resp World Job}
  {thread : Thread World Job} {task : ℕ}

/-! ## What lasts -/

theorem Lasting.steady {holds : Core → Prop} (h : Lasting resolver holds)
    (task : ℕ) : Steady resolver task holds :=
  fun core after hrely hholds => h core after hrely.toGrows hholds

theorem Lasting.and {first second : Core → Prop}
    (h : Lasting resolver first) (h' : Lasting resolver second) :
    Lasting resolver fun core => first core ∧ second core :=
  fun core after hgrows hholds =>
    ⟨h core after hgrows hholds.1, h' core after hgrows hholds.2⟩

theorem Lasting.const (fact : Prop) : Lasting resolver fun _ => fact :=
  fun _ _ _ h => h

theorem Steady.and {first second : Core → Prop}
    (h : Steady resolver task first) (h' : Steady resolver task second) :
    Steady resolver task fun core => first core ∧ second core :=
  fun core after hrely hholds =>
    ⟨h core after hrely hholds.1, h' core after hrely hholds.2⟩

theorem lasting_known (stale : Option CachedAnswer) :
    Lasting resolver fun core => Known resolver core stale := by
  intro core after hgrows h entry hentry
  obtain ⟨horigin, hfacts⟩ := h entry hentry
  exact ⟨hgrows.offered _ horigin, hfacts⟩

theorem lasting_matches (stored : Option (List UInt8))
    (lookups : List Lookup) (stale : Option CachedAnswer) :
    Lasting resolver fun core =>
      Matches resolver core stored lookups stale := by
  intro core after hgrows h hserve entry hfound
  obtain ⟨horigin, hheld⟩ := h hserve entry hfound
  exact ⟨hgrows.offered _ horigin, fun key hkey hafter =>
    hheld key hkey (hgrows.holds key entry hafter horigin)⟩

theorem lasting_follows (fact : Prop) (id : ℕ) (key : List UInt8)
    (stale : Option CachedAnswer) :
    Lasting resolver fun core =>
      Known resolver core stale ∧ (fact → Follows core id key stale) := by
  rintro core after hgrows ⟨hknown, hfollows⟩
  refine ⟨lasting_known stale core after hgrows hknown, fun hfact => ?_⟩
  obtain ⟨flight, hflight, hkey, hserves⟩ := hfollows hfact
  obtain ⟨flight', hflight', hkey', hprefetch, hfates⟩ :=
    hgrows.flights id flight hflight
  refine ⟨flight', hflight', hkey'.trans hkey, ?_⟩
  intro entry hentry
  obtain ⟨horigin, hanswer, _, hserve⟩ := hknown entry hentry
  obtain ⟨hquery, hdecided⟩ := hserves entry hentry
  refine ⟨hprefetch.trans hquery, ?_⟩
  intro outcome hfated hheld
  cases hfate : flight.fate with
  | none =>
    exact hgrows.decided id flight flight' outcome hflight hflight' hfate
      hfated hquery hserve entry horigin hanswer (hkey ▸ hheld)
  | some fate =>
    obtain rfl := Option.some.inj ((hfates fate hfate).symm.trans hfated)
    exact hdecided outcome hfate (hgrows.holds key entry hheld horigin)

theorem lasting_fated (id : ℕ) (outcome : Outcome) :
    Lasting resolver fun core => Fated core id outcome := by
  rintro core after hgrows ⟨flight, hflight, hfate⟩
  obtain ⟨flight', hflight', _, _, hkept⟩ := hgrows.flights id flight hflight
  exact ⟨flight', hflight', hkept _ hfate⟩

theorem lasting_replyOk (query : Message) (reply : Reply) :
    Lasting resolver fun core => ReplyOk resolver core query reply := by
  rintro core after hgrows ⟨hpanicked, h⟩
  refine ⟨hpanicked, ?_⟩
  intro answer lookups hreply hserve entry key hfound hkey
  obtain ⟨horigin, hserved⟩ := h answer lookups hreply hserve entry key hfound
    hkey
  exact ⟨hgrows.offered _ horigin, fun hheld =>
    hserved (hgrows.holds key entry hheld horigin)⟩

theorem aging_expired (resolver : Resolver) (stale : Option CachedAnswer) :
    Aging (Expired resolver stale) :=
  fun _ _ _ hle h => ⟨h.1.trans hle, h.2⟩

theorem aging_refreshGood (resolver : Resolver) (stale : Option CachedAnswer) :
    Aging (refreshGood resolver stale) :=
  fun clock later entry hle h hstale =>
    aging_expired resolver stale clock later entry hle (h hstale)

section Leading

variable {core after : Core} {group : UpstreamGroupId} {query : Message}
  {guard : Option LeaderGuard} {prefetch : Bool}
  {good good' : ℕ → CachedAnswer → Prop} {calls calls' : UpstreamCall → Prop}

theorem Leading.leads
    (h : Leading resolver core task group query guard prefetch good calls)
    (hcoalesce : resolver.cache.coalesce = true) {key : List UInt8}
    (hkey : resolver.cacheKey group query = some key) :
    ∃ leader, guard = some leader ∧
      Leads core task leader.flight key prefetch := by
  cases guard with
  | none =>
    rw [h.alone rfl hcoalesce] at hkey
    contradiction
  | some leader =>
    obtain ⟨same, hsame, hguarded⟩ := h.guarded leader rfl
    obtain rfl := Option.some.inj (hsame.symm.trans hkey)
    exact ⟨leader, rfl, hguarded.leads⟩

theorem Leading.guarded_of_flights
    (h : Leading resolver core task group query guard prefetch good calls)
    (hflights : after.flights = core.flights) :
    ∀ leader, guard = some leader →
      ∃ key, resolver.cacheKey group query = some key ∧
        Guarded resolver after task leader key prefetch := by
  intro leader hleader
  obtain ⟨key, hkey, hguarded⟩ := h.guarded leader hleader
  refine ⟨key, hkey, hguarded.registered, hguarded.hash, ?_⟩
  unfold Leads
  rw [hflights]
  exact hguarded.leads

theorem Leading.weaken
    (h : Leading resolver core task group query guard prefetch good calls)
    (hgood : ∀ entry, good core.clock entry → good' core.clock entry)
    (hcalls : ∀ call, calls call → calls' call) :
    Leading resolver core task group query guard prefetch good' calls' where
  guarded := h.guarded
  alone := h.alone
  only := fun hcoalesce key hkey entry hheld =>
    hgood entry (h.only hcoalesce key hkey entry hheld)
  running := fun hcoalesce key hkey call hcall hkeyed =>
    hcalls call (h.running hcoalesce key hkey call hcall hkeyed)

theorem steady_leading (hgood : Aging good) :
    Steady resolver task fun core =>
      Leading resolver core task group query guard prefetch good calls := by
  intro core after hrely h
  refine ⟨?_, h.alone, ?_, ?_⟩
  · intro leader hleader
    obtain ⟨key, hkey, hguarded⟩ := h.guarded leader hleader
    exact ⟨key, hkey, hguarded.registered, hguarded.hash,
      (hrely.own _ _ _ hguarded.leads).1⟩
  · intro hcoalesce key hkey entry hheld
    obtain ⟨_, _, hleads⟩ := h.leads hcoalesce (Resolver.storedKey_eq_some hkey).2
    exact hgood _ _ entry hrely.clock_le
      (h.only hcoalesce key hkey entry ((hrely.own _ _ _ hleads).2.1 _ hheld))
  · intro hcoalesce key hkey call hcall hkeyed
    obtain ⟨_, _, hleads⟩ := h.leads hcoalesce hkey
    exact h.running hcoalesce key hkey call
      ((hrely.own _ _ _ hleads).2.2 call hcall hkeyed) hkeyed

theorem steady_unstored (origin : UpstreamCall) :
    Steady resolver task fun core => Unstored core task origin := by
  intro core after hrely h
  refine ⟨h.task_eq, lt_of_lt_of_le h.id_lt hrely.nextCall_le, ?_⟩
  intro hoffered
  exact hrely.others origin hoffered h.not_offered h.task_eq

end Leading

theorem stable_of_steady {holds : Core → Prop}
    (h : Steady resolver thread.number holds) :
    Stable (logic resolver allows) thread fun world => holds world.core :=
  fun world after hholds _ hrely _ => h world.core after.core hrely hholds

theorem onCore : OnCore (logic resolver allows) where
  inv world after heq hinv := by
    change Inv resolver after.core
    rw [heq]
    exact hinv
  rely number world after heq := by
    change Rely resolver number world.core after.core
    rw [heq]
    exact Rely.refl number _
  asserts := by
    intro thread op world hquiet
    cases op with
    | beginCall group query => cases hquiet
    | insertUnlock key entry now allowed => cases hquiet
    | _ => trivial

abbrev Spec (resolver : Resolver) (allows : Condition Op Resp World Job)
    (thread : Thread World Job) {α : Type} (requires : Core → Prop)
    (prog : Code α) (ensures : α → Core → Prop) : Prop :=
  Triple resolver.machine allows (logic resolver allows) thread
    (fun world => requires world.core) prog
    (fun value world => ensures value world.core)

/-! ## Rules for operations which everyone relies on -/

section Benign

variable {holds : Core → Prop} (hsteady : Steady resolver thread.number holds)

include hsteady

theorem gives_spec {op : Op} {gives : Resp op → Core → Prop}
    (hasserts : ∀ world, (logic resolver allows).asserts thread op world)
    (hspawns : Resolver.spawns op = none)
    (hop : ∀ world unused input resp after, Inv resolver world.core →
      holds world.core →
      resolver.exec thread.number unused world op input =
        some (resp, after) →
      allows thread.first thread.born world op resp = true →
      Keeps resolver world.core after.core ∧ gives resp after.core) :
    Spec resolver allows thread holds (perform op)
      (fun resp core => holds core ∧ gives resp core) := by
  apply Triple.benign (fun world _ _ => hasserts world)
    (stable_of_steady hsteady)
  intro world unused input resp after hinv hholds _ hexec hallows
  obtain ⟨hkeeps, hgives⟩ :=
    hop world unused input resp after hinv hholds hexec hallows
  refine ⟨hkeeps.inv, hkeeps.rely, ?_, hgives⟩
  intro job hjob
  have hsome : Resolver.spawns op = some job := hjob
  rw [hspawns] at hsome
  contradiction

theorem keeps_spec {op : Op}
    (hasserts : ∀ world, (logic resolver allows).asserts thread op world)
    (hspawns : Resolver.spawns op = none)
    (hop : ∀ world unused input resp after, Inv resolver world.core →
      holds world.core →
      resolver.exec thread.number unused world op input =
        some (resp, after) →
      Keeps resolver world.core after.core) :
    Spec resolver allows thread holds (perform op) (fun _ => holds) := by
  have h : Spec resolver allows thread holds (perform op)
      (fun _ core => holds core ∧ True) := by
    apply gives_spec hsteady hasserts hspawns
    intro world unused input resp after hinv hholds hexec _
    exact ⟨hop world unused input resp after hinv hholds hexec, trivial⟩
  exact h.post fun _ _ _ hholds => hholds.1

theorem quiet_spec {op : Op} (hop : op.quiet = true) :
    Spec resolver allows thread holds (perform op) (fun _ => holds) :=
  Resolver.quiet_triple onCore (stable_of_steady hsteady) hop

theorem now_spec :
    Spec resolver allows thread holds (perform .now)
      (fun now core => holds core ∧ now ≤ core.clock) := by
  apply gives_spec hsteady (fun _ => by trivial) rfl
  intro world unused input now after hinv _ hexec _
  obtain ⟨rfl, rfl⟩ := Prod.mk.inj (Option.some.inj hexec)
  exact ⟨keeps_refl hinv, le_refl _⟩

theorem storeGet_spec (key : List UInt8) (now : ℕ) :
    Spec resolver allows thread holds (perform (.storeGet key now))
      (fun found core => holds core ∧
        (∀ entry, found = some entry → entry.origin ∈ core.offered ∧
          now < entry.staleUntil ∧ (entry.failure = none →
            entry.message.header.rcode.failing = false)) ∧
        ∀ entry, core.store.Holds key entry → found = some entry) := by
  apply gives_spec hsteady (fun _ => by trivial) rfl
  intro world unused input found after hinv hholds hexec _
  obtain ⟨hloses, hfound, honly⟩ :=
    Core.storeGet_loses hinv.sound (World.withCore?_eq_some hexec)
  have hkeeps := keeps_of_loses hinv hloses
  refine ⟨hkeeps, ?_, honly⟩
  intro entry hentry
  obtain ⟨hheld, hwindow⟩ := (hfound entry).mp hentry
  exact ⟨(hkeeps.rely 0).offered _ (hinv.offered key entry hheld), hwindow,
    hinv.proper key entry hheld⟩

theorem forgetFailure_spec (key : List UInt8) :
    Spec resolver allows thread holds (perform (.storeForgetFailure key))
      (fun _ => holds) := by
  apply keeps_spec hsteady (fun _ => by trivial) rfl
  intro world unused input found after hinv _ hexec
  exact keeps_of_loses hinv (Core.storeForgetFailure_loses hinv.sound
    (World.withCore?_eq_some hexec))

theorem lockShard_spec (key : List UInt8) :
    Spec resolver allows thread holds (perform (.lockShard key))
      (fun _ => holds) := by
  apply keeps_spec hsteady (fun _ => by trivial) rfl
  intro world unused input _ after hinv _ hexec
  obtain ⟨core, hlock, hafter⟩ := Option.bind_eq_some_iff.mp hexec
  obtain ⟨_, rfl⟩ := World.withCore_eq_some hafter
  obtain ⟨_, hcore⟩ := Core.lockShard_eq_some hlock
  rw [hcore]
  exact keeps_of_same hinv (le_refl _) _ _ _ _

theorem checkEpoch_spec (key : List UInt8) (epoch : ℕ) :
    Spec resolver allows thread holds (perform (.checkEpoch key epoch))
      (fun _ => holds) := by
  apply keeps_spec hsteady (fun _ => by trivial) rfl
  intro world unused input _ after hinv _ hexec
  rw [(World.withCore_eq_some hexec).2]
  unfold Core.checkEpoch
  split_ifs
  · exact keeps_of_same hinv (le_refl _) _ _ _ _
  · exact keeps_refl hinv

theorem callBackend_spec (origin : UpstreamCall) (backend : ℕ) :
    Spec resolver allows thread holds (perform (.callBackend origin backend))
      (fun _ => holds) := by
  apply keeps_spec hsteady (fun _ => by trivial) rfl
  intro world unused input returned after hinv _ hexec
  cases input with
  | backend result =>
    rw [(World.withCore_eq_some hexec).2]
    exact keeps_of_same hinv (le_refl _) _ _ _ _
  | dropped =>
    obtain ⟨_, rfl⟩ := Prod.mk.inj (Option.some.inj hexec)
    exact keeps_refl hinv
  | _ => contradiction

theorem bumpEpoch_spec :
    Spec resolver allows thread holds (perform .bumpEpoch)
      (fun _ => holds) := by
  apply keeps_spec hsteady (fun _ => by trivial) rfl
  intro world unused input _ after hinv _ hexec
  rw [(World.withCore_eq_some hexec).2]
  exact keeps_of_same hinv (le_refl _) _ _ _ _

theorem flushed_spec (epoch : ℕ) :
    Spec resolver allows thread holds (perform (.flushed epoch))
      (fun _ => holds) := by
  apply keeps_spec hsteady (fun _ => by trivial) rfl
  intro world unused input _ after hinv _ hexec
  rw [(World.withCore_eq_some hexec).2]
  exact keeps_of_same hinv (le_refl _) _ _ _ _

theorem sweepShard_spec (scope : Scope) (index : ℕ) :
    Spec resolver allows thread holds (perform (.sweepShard scope index))
      (fun _ => holds) := by
  apply keeps_spec hsteady (fun _ => by trivial) rfl
  intro world unused input _ after hinv _ hexec
  exact keeps_of_loses hinv (Core.sweepShard_loses hinv.sound
    (World.withCore?_eq_some hexec)).2.1

theorem endCall_spec (origin : UpstreamCall) :
    Spec resolver allows thread holds (perform (.endCall origin))
      (fun _ core => holds core ∧ origin ∉ core.loops) := by
  apply gives_spec hsteady (fun _ => by trivial) rfl
  intro world unused input _ after hinv _ hexec _
  rw [(World.withCore_eq_some hexec).2]
  exact ⟨keeps_endCall hinv origin, by simp [Core.endCall]⟩

theorem follower_spec (flight : ℕ) :
    Spec resolver allows thread holds (perform (.follower flight))
      (fun _ => holds) := by
  apply keeps_spec hsteady (fun _ => by trivial) rfl
  intro world unused input _ after hinv _ hexec
  rw [(World.withCore_eq_some hexec).2]
  exact keeps_setFlight hinv
    (fun _ _ => ⟨rfl, rfl, rfl, fun _ h => Or.inl h⟩) fun _ => rfl

theorem unfollow_spec (flight : ℕ) :
    Spec resolver allows thread holds (perform (.unfollow flight))
      (fun _ => holds) := by
  apply keeps_spec hsteady (fun _ => by trivial) rfl
  intro world unused input _ after hinv _ hexec
  rw [(World.withCore_eq_some hexec).2]
  exact keeps_setFlight hinv
    (fun _ _ => ⟨rfl, rfl, rfl, fun _ h => Or.inl h⟩) fun _ => rfl

theorem abandon_spec (flight : ℕ) :
    Spec resolver allows thread holds (perform (.abandon flight))
      (fun _ => holds) := by
  apply keeps_spec hsteady (fun _ => by trivial) rfl
  intro world unused input _ after hinv _ hexec
  rw [(World.withCore_eq_some hexec).2]
  refine keeps_setFlight hinv (fun _ _ => ⟨rfl, rfl, rfl, ?_⟩) fun _ => rfl
  intro outcome h
  cases h

theorem wait_spec (id : ℕ) (timed : Bool) :
    Spec resolver allows thread holds (perform (.wait id timed))
      (fun waited core => holds core ∧ ∀ outcome, waited = .done outcome →
        Fated core id outcome) := by
  apply gives_spec hsteady (fun _ => by trivial) rfl
  intro world unused input waited after hinv _ hexec _
  obtain ⟨flight, hflight, hresult, hafter⟩ :=
    Core.wait_eq_some (World.withCore?_eq_some hexec)
  rw [hafter]
  refine ⟨keeps_setFlight hinv
    (fun _ _ => ⟨rfl, rfl, rfl, fun _ h => Or.inl h⟩) fun _ => rfl, ?_⟩
  rintro outcome rfl
  refine ⟨{ flight with receivers := flight.receivers - 1 }, ?_,
    hinv.published id flight outcome hflight (Core.waitResult_done hresult)⟩
  rw [Core.unfollow, Core.getElem?_setFlight, hflight]
  simp

theorem publish_spec {id : ℕ} {outcome : Outcome}
    (hfated : ∀ core, holds core → Fated core id outcome) :
    Spec resolver allows thread holds (perform (.publish id outcome))
      (fun _ => holds) := by
  apply keeps_spec hsteady (fun _ => by trivial) rfl
  intro world unused input _ after hinv hholds hexec
  rw [(World.withCore_eq_some hexec).2]
  refine keeps_setFlight hinv (fun flight hflight => ⟨rfl, rfl, rfl, ?_⟩)
    fun _ => rfl
  intro published hstate
  right
  obtain ⟨same, hsame, hfate⟩ := hfated _ hholds
  obtain rfl := Option.some.inj (hsame.symm.trans hflight)
  dsimp only at hstate
  split_ifs at hstate
  obtain rfl := FlightState.done.inj hstate
  exact hfate

theorem addInstant_spec (instant duration : ℕ) :
    Spec resolver allows thread holds
      (perform (.addInstant instant duration))
      (fun deadline core => holds core ∧
        (deadline = none → ¬Careful allows)) := by
  apply gives_spec hsteady (fun _ => by trivial) rfl
  intro world unused input deadline after hinv _ hexec hallows
  obtain ⟨_, rfl⟩ := Prod.mk.inj (Option.some.inj hexec)
  refine ⟨keeps_refl hinv, ?_⟩
  rintro rfl hcareful
  rw [hcareful.instants] at hallows
  contradiction

/-- A leader has a flight of its own; whoever follows another does not follow
a prefetch with an expired answer in hand. -/
def JoinGives (resolver : Resolver) (allows : Condition Op Resp World Job)
    (task : ℕ) (key : List UInt8) (purpose : Purpose) (core : Core) :
    Join → Prop
  | .lead guard =>
      Guarded resolver core task guard key (decide (purpose = .prefetch)) ∧
        Quiet resolver core key
  | .follow id => ∃ flight : Flight, core.flights[id]? = some flight ∧
      flight.key = key ∧ flight.fate = none ∧
      (Careful allows → purpose = .query true → flight.prefetch = false)

theorem joinOrLead_spec (hprivate : NoPrivate allows)
    (hcoalesce : resolver.cache.coalesce = true) (key : List UInt8)
    (purpose : Purpose) :
    Spec resolver allows thread holds (perform (.joinOrLead key purpose))
      (fun join core => holds core ∧
        JoinGives resolver allows thread.number key purpose core join) := by
  apply gives_spec hsteady (fun _ => by trivial) rfl
  intro world unused input join after hinv _ hexec hallows
  obtain ⟨hjoin, hafter⟩ := World.withCore_eq_some hexec
  have hcases := world.core.joinOrLead_cases resolver thread.number key
    purpose
  rw [← hafter, ← hjoin] at hcases
  generalize after.core = last at hcases ⊢
  cases hcases with
  | alone registered hlookup hne =>
    have hregistered := hprivate _ _ _ _ _ _ hallows
    cases hregistered
  | follow id hlookup =>
    refine ⟨keeps_setFlight hinv
      (fun _ _ => ⟨rfl, rfl, rfl, fun _ h => Or.inl h⟩) fun _ => rfl, ?_⟩
    obtain ⟨_, flight, hflight, hkey, hopen⟩ := hinv.registry _ _ hlookup
    refine ⟨{ flight with receivers := flight.receivers + 1 }, ?_, hkey,
      hopen, ?_⟩
    · rw [Core.follow, Core.getElem?_setFlight, hflight]
      simp
    · rintro hcareful rfl
      exact hcareful.follows _ _ _ _ _ flight hallows hflight
  | lead hlookup =>
    refine ⟨keeps_lead hinv hcoalesce hlookup _ _, ⟨rfl, rfl, ?_⟩, ?_⟩
    · exact ⟨_, world.core.getElem?_addFlight_length _ key purpose, rfl, rfl,
        rfl, rfl⟩
    · intro call hcall hkeyed
      obtain ⟨id, flight, hflight, hkey, hopen⟩ :=
        hinv.led hcoalesce call hcall key hkeyed
      have hregistered := hinv.registered id flight hflight hopen
      rw [hkey, hlookup] at hregistered
      contradiction

end Benign

/-! ## Rules for the leader -/

section Leader

variable {frame : Core → Prop} (hframe : Lasting resolver frame)
  {group : UpstreamGroupId} {query : Message} {guard : Option LeaderGuard}
  {prefetch : Bool} {good : ℕ → CachedAnswer → Prop} (hgood : Aging good)

include hframe hgood

theorem steady_lead (calls : UpstreamCall → Prop) :
    Steady resolver task fun core => frame core ∧
      Leading resolver core task group query guard prefetch good calls :=
  (hframe.steady task).and (steady_leading hgood)

omit hgood in
/-- The rule for an operation which the other tasks rely on. -/
theorem own_spec {op : Op} {holds : Core → Prop} {gives : Resp op → Core → Prop}
    (hsteady : Steady resolver thread.number holds)
    (hholds : ∀ core, holds core → frame core)
    (hspawns : Resolver.spawns op = none)
    (hasserts : ∀ world, holds world.core →
      (logic resolver allows).asserts thread op world)
    (hop : ∀ world unused input resp after, Inv resolver world.core →
      holds world.core →
      resolver.exec thread.number unused world op input =
        some (resp, after) →
      Inv resolver after.core ∧
        (∀ other, other ≠ thread.number →
          Rely resolver other world.core after.core) ∧
        gives resp after.core) :
    Spec resolver allows thread holds (perform op)
      (fun resp core => frame core ∧ gives resp core) := by
  apply Triple.lift (fun world _ h => hasserts world h)
    (stable_of_steady hsteady)
  intro world unused input resp after hinv h _ hexec _
  obtain ⟨hinv', hothers, hgives⟩ :=
    hop world unused input resp after hinv h hexec
  refine ⟨hinv', hothers, ?_, ?_, hgives⟩
  · intro job hjob
    have hsome : Resolver.spawns op = some job := hjob
    rw [hspawns] at hsome
    contradiction
  · exact hframe _ _ (hothers (thread.number + 1) (by omega)).toGrows
      (hholds _ h)

theorem beginCall_spec
    (hdriven : queryDriven thread.first = true →
      ∀ clock entry, good clock entry → entry.expires ≤ clock) :
    Spec resolver allows thread
      (fun core => frame core ∧
        Leading resolver core thread.number group query guard prefetch good
          fun _ => False)
      (perform (.beginCall group query))
      (fun origin core => frame core ∧
        Leading resolver core thread.number group query guard prefetch good
          (fun call => call = origin) ∧
        Unstored core thread.number origin ∧ origin.group = group ∧
        origin.query = query) := by
  apply own_spec hframe (steady_lead hframe hgood _) (fun _ h => h.1) rfl
  · rintro world ⟨_, hleading⟩ hcoalesce hquery key entry hkey hheld
    exact hdriven hquery _ _ (hleading.only hcoalesce key hkey entry hheld)
  · rintro world unused input origin after hinv ⟨_, hleading⟩ hexec
    obtain ⟨rfl, hafter⟩ := World.withCore_eq_some hexec
    have hstep := @beginCall_step _ thread.number _ hinv group query ?_
    · rw [hafter]
      refine ⟨hstep.1, hstep.2, ⟨hleading.guarded_of_flights rfl,
        hleading.alone, hleading.only, ?_⟩, ⟨rfl, Nat.lt_succ_self _, ?_⟩, rfl, rfl⟩
      · intro hcoalesce key hkey call hcall hkeyed
        rcases List.mem_cons.mp hcall with rfl | hold
        · rfl
        · exact (hleading.running hcoalesce key hkey call hold hkeyed).elim
      · intro hoffered
        exact (hinv.offered_lt _ hoffered).ne rfl
    · intro hcoalesce key hkey
      refine ⟨fun call hcall hkeyed =>
        hleading.running hcoalesce key hkey call hcall hkeyed, ?_⟩
      obtain ⟨leader, _, hleads⟩ := hleading.leads hcoalesce hkey
      exact ⟨_, _, hleads⟩

omit hframe hgood in
theorem Leading.callEnded {core : Core} {origin : UpstreamCall}
    (h : Leading resolver core task group query guard prefetch good
      fun call => call = origin) (hended : origin ∉ core.loops) :
    Leading resolver core task group query guard prefetch good
      fun _ => False :=
  { h with
    running := fun hcoalesce key hkey call hcall hkeyed =>
      hended (h.running hcoalesce key hkey call hcall hkeyed ▸ hcall) }

section Insert

variable {calls : UpstreamCall → Prop} {key : List UInt8}
  {entry : CachedAnswer} (hkey : resolver.storedKey group query = some key)
  (hproper : entry.failure = none →
    entry.message.header.rcode.failing = false)
  (hfailure : entry.failure.isSome = true → ∀ clock held,
    good clock held → held.failure = none → held.expires ≤ clock ∧
      (resolver.cache.serveStale.isSome = true →
        held.staleUntil ≤ clock)) (now : ℕ)

include hkey hproper hfailure

theorem insertUnlock_spec (allowed : Bool) :
    Spec resolver allows thread
      (fun core => (frame core ∧
        Leading resolver core thread.number group query guard prefetch good
          calls) ∧ Unstored core thread.number entry.origin)
      (perform (.insertUnlock key entry now allowed))
      (fun _ core => frame core ∧
        Leading resolver core thread.number group query guard prefetch
          (fun clock held => good clock held ∨ held = entry) calls) := by
  obtain ⟨henabled, hcached⟩ := Resolver.storedKey_eq_some hkey
  apply own_spec hframe ((steady_lead hframe hgood _).and
    (steady_unstored entry.origin)) (fun _ h => h.1.1) rfl
  · rintro world ⟨⟨_, hleading⟩, _⟩ hcoalesce hfailed held hheld hanswer
    exact hfailure hfailed _ _ (hleading.only hcoalesce key hkey held hheld)
      hanswer
  · rintro world unused input stored after hinv ⟨⟨_, hleading⟩, hunstored⟩ hexec
    have hexec' := World.withCore?_eq_some hexec
    have hsame : after.core.flights = world.core.flights ∧
        after.core.clock = world.core.clock ∧
        after.core.loops = world.core.loops := by
      rw [(Core.insertUnlock_holds hinv.sound hexec').2.2.2.2]
      exact ⟨rfl, rfl, rfl⟩
    obtain ⟨hinv', hothers, hheld⟩ := insert_step hinv hexec' henabled
      (fun hcoalesce => by
        obtain ⟨leader, _, hleads⟩ := hleading.leads hcoalesce hcached
        exact ⟨_, _, hleads⟩)
      hunstored.task_eq hunstored.id_lt hunstored.not_offered hproper
    refine ⟨hinv', hothers, hleading.guarded_of_flights hsame.1,
      hleading.alone, ?_, ?_⟩
    · intro hcoalesce bytes hbytes held hafter
      obtain rfl := Option.some.inj (hkey.symm.trans hbytes)
      rw [hsame.2.1]
      exact (hheld held hafter).imp_left
        (hleading.only hcoalesce key hkey held)
    · rw [hsame.2.2]
      exact hleading.running

theorem insertIf_spec :
    Spec resolver allows thread
      (fun core => (frame core ∧
        Leading resolver core thread.number group query guard prefetch good
          calls) ∧ Unstored core thread.number entry.origin)
      (Resolver.insertIf key entry now)
      (fun _ core => frame core ∧
        Leading resolver core thread.number group query guard prefetch
          (fun clock held => good clock held ∨ held = entry) calls) := by
  have hsteady := (@steady_lead resolver thread.number _ hframe group query
    guard prefetch _ hgood calls).and (steady_unstored entry.origin)
  refine .bind (lockShard_spec hsteady key) fun _ => ?_
  refine .bind (checkEpoch_spec hsteady key _) fun allowed => ?_
  exact insertUnlock_spec hframe hgood hkey hproper hfailure now allowed

end Insert

theorem unregister_spec {leader : LeaderGuard} {fate : Option Outcome}
    (hserves : ∀ core outcome, frame core → fate = some outcome →
      prefetch = false → resolver.cache.serveStale.isSome = true →
      ∀ entry, good core.clock entry → entry.failure = none →
      outcome.Serves entry) :
    Spec resolver allows thread
      (fun core => frame core ∧
        Leading resolver core thread.number group query (some leader)
          prefetch good fun _ => False)
      (perform (.unregister leader fate))
      (fun _ core => frame core ∧ ∀ outcome, fate = some outcome →
        Fated core leader.flight outcome) := by
  apply own_spec hframe (steady_lead hframe hgood _) (fun _ h => h.1) rfl
    (fun _ _ => by trivial)
  rintro world unused input _ after hinv ⟨hholds, hleading⟩ hexec
  rw [(World.withCore_eq_some hexec).2]
  obtain ⟨key, hkey, hguarded⟩ := hleading.guarded leader rfl
  have hcoalesce : resolver.cache.coalesce = true := by
    by_contra hoff
    obtain ⟨flight, hflight, _⟩ := hguarded.leads
    rw [hinv.alone (Bool.eq_false_of_not_eq_true hoff)] at hflight
    contradiction
  have hstep := @unregister_step _ _ _ hinv _ _ _ fate hguarded
    (fun _ call hcall hkeyed =>
      hleading.running hcoalesce key hkey call hcall hkeyed) ?_
  · refine ⟨hstep.1, hstep.2, ?_⟩
    rintro outcome rfl
    obtain ⟨flight, hflight, _⟩ := hguarded.leads
    refine ⟨{ flight with fate := some (some outcome) }, ?_, rfl⟩
    change (world.core.setFlight _ _).flights[leader.flight]? = _
    rw [Core.getElem?_setFlight, hflight]
    simp
  · intro outcome hfate hquery hserve entry hheld hanswer
    have hstored : resolver.storedKey group query = some key := by
      unfold Resolver.storedKey
      rw [if_pos (hinv.enabled key entry hheld), hkey]
    exact hserves _ outcome hholds hfate hquery hserve entry
      (hleading.only hcoalesce key hstored entry hheld) hanswer

theorem finish_spec {outcome : Outcome}
    (hserves : ∀ core, frame core → prefetch = false →
      resolver.cache.serveStale.isSome = true → ∀ entry,
      good core.clock entry → entry.failure = none →
      outcome.Serves entry) :
    Spec resolver allows thread
      (fun core => frame core ∧
        Leading resolver core thread.number group query guard prefetch good
          fun _ => False)
      (finish guard outcome) (fun _ => frame) := by
  cases guard with
  | none => exact .ret fun _ _ h => h.1
  | some leader =>
    refine .bind (unregister_spec hframe hgood ?_) fun _ => ?_
    · rintro core _ hholds ⟨⟩
      exact hserves core hholds
    · refine Triple.pre (.post (publish_spec ((hframe.and
        (lasting_fated leader.flight outcome)).steady thread.number)
        fun _ h => h.2) fun _ _ _ h => h.1) fun _ _ h => ⟨h.1, h.2 _ rfl⟩

theorem dropGuard_spec :
    Spec resolver allows thread
      (fun core => frame core ∧
        Leading resolver core thread.number group query guard prefetch good
          fun _ => False)
      (dropGuard guard) (fun _ => frame) := by
  cases guard with
  | none => exact .ret fun _ _ h => h.1
  | some leader =>
    refine .bind (unregister_spec hframe hgood (by simp)) fun _ => ?_
    exact (abandon_spec (hframe.steady thread.number) _).pre
      fun _ _ h => h.1

end Leader

/-! ## Handing over -/

theorem handOver_inv {core : Core} (hinv : Inv resolver core)
    (task : ℕ) (job : RefreshJob) :
    Inv resolver (core.handOver task job) := by
  unfold Core.handOver
  split
  · exact setFlight_inv hinv fun _ _ => ⟨rfl, rfl, rfl, fun _ h => Or.inl h⟩
  · exact hinv

theorem handOver_rely {core : Core} {job : RefreshJob} (unused : ℕ)
    (h : RefreshOk resolver core task job) {other : ℕ} (hother : other ≠ task) :
    Rely resolver other core (core.handOver unused job) := by
  unfold Core.handOver
  split
  · rename_i leader hleader
    refine setFlight_rely
      (fun _ _ => ⟨rfl, rfl, rfl, fun _ h => Or.inl h⟩) ?_
    intro flight hflight howner
    obtain ⟨_, _, _, _, same, hsame, _, hmine, _⟩ :=
      h.leading.guarded leader hleader
    obtain rfl := Option.some.inj (hsame.symm.trans hflight)
    exact absurd (howner.symm.trans hmine) hother
  · exact Rely.refl other core

theorem handOver_refreshOk {core : Core} {job : RefreshJob} (unused : ℕ)
    (h : RefreshOk resolver core task job) :
    RefreshOk resolver (core.handOver unused job) unused job := by
  unfold Core.handOver
  split
  · rename_i leader hleader
    refine ⟨h.stored, h.known, ?_, h.leading.alone, h.leading.only,
      h.leading.running⟩
    intro same hsame
    obtain rfl := Option.some.inj (hsame.symm.trans hleader)
    obtain ⟨key, hkey, hregistered, hhash, flight, hflight, hfkey, _, hfacts⟩ :=
      h.leading.guarded same hsame
    refine ⟨key, hkey, hregistered, hhash, { flight with owner := unused },
      ?_, hfkey, rfl, hfacts⟩
    rw [Core.getElem?_setFlight, hflight]
    simp
  · rename_i hnone
    refine ⟨h.stored, h.known, ?_, h.leading.alone, h.leading.only,
      h.leading.running⟩
    intro leader hleader
    rw [hnone] at hleader
    contradiction

theorem steady_refreshOk (job : RefreshJob) :
    Steady resolver task fun core => RefreshOk resolver core task job :=
  fun core after hrely h => ⟨h.stored,
    lasting_known job.stale core after hrely.toGrows h.known,
    steady_leading (aging_refreshGood resolver job.stale) core after hrely h.leading⟩

theorem spawn_spec {frame : Core → Prop} (hframe : Lasting resolver frame)
    (job : RefreshJob) :
    Spec resolver allows thread
      (fun core => frame core ∧ RefreshOk resolver core thread.number job)
      (perform (.spawn job)) (fun _ => frame) := by
  apply Triple.lift (fun _ _ _ => by trivial) (stable_of_steady
    ((hframe.steady thread.number).and (steady_refreshOk job)))
  rintro world unused input _ after hinv ⟨hholds, hjob⟩ _ hexec _
  obtain ⟨_, rfl⟩ := Prod.mk.inj (Option.some.inj hexec)
  have hothers := fun other (hother : other ≠ thread.number) =>
    handOver_rely unused hjob hother
  refine ⟨handOver_inv hinv unused job, hothers, ?_, ?_⟩
  · rintro _ ⟨⟩
    exact ⟨rfl, handOver_refreshOk unused hjob⟩
  · exact hframe _ _ (hothers (thread.number + 1) (by omega)).toGrows hholds

end Ownership

end DnsLattice
