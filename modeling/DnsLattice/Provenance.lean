import DnsLattice.ResolverRules
import DnsLattice.CacheKeys

/-!
# Where stored and shared data comes from

The invariant behind the isolation of cache keys and behind purges.  Every
entry in the store and every published outcome names the upstream call it was
made from: the call was made for the same cache key, a backend returned what
the data was made of, and the call read its epoch after the last completed
flush (for the store) or after the flush completed last when its flight began
(for an outcome).

A purge bumps the epoch and then visits the shards one by one.  What makes it
safe is how the store may grow in between: an entry is inserted only under a
shard lock whose holder has seen the epoch of that entry, or its epoch is at
least the current one.
-/

namespace DnsLattice

open Logic

/-! ## Data made from what a backend returned -/

inductive CachedAnswer.MadeFrom (policy : TtlPolicy) :
    CachedAnswer → Except Error Message → Prop
  | answer {origin : UpstreamCall} {answer : Message} {inserted : ℕ}
      {entry : CachedAnswer}
      (h : cacheableAnswer origin answer inserted policy = some entry) :
      MadeFrom policy entry (.ok answer)
  | failure (origin : UpstreamCall) (answer : Message)
      (failedAt backoff retain : ℕ) :
      MadeFrom policy (.ofFailure origin (answer.setEdns none) none failedAt
        backoff retain) (.ok answer)
  | error (origin : UpstreamCall) (query : Message) (error : Error)
      (failedAt backoff retain : ℕ) :
      MadeFrom policy (.ofFailure origin (localResponse query .servFail)
        (some error) failedAt backoff retain) (.error error)

inductive Outcome.MadeFrom (policy : TtlPolicy) :
    Outcome → Except Error Message → Prop
  | cached {entry : CachedAnswer} {returned : Except Error Message}
      (h : entry.MadeFrom policy returned) :
      MadeFrom policy (.cached entry) returned
  | stale {entry : CachedAnswer} {returned : Except Error Message}
      (h : entry.MadeFrom policy returned) :
      MadeFrom policy (.stale entry) returned
  | raw (origin : UpstreamCall) {answer returned : Message}
      (h : answer.setEdns none = returned.setEdns none) :
      MadeFrom policy (.raw origin answer) (.ok returned)
  | failed (origin : UpstreamCall) (error : Error) :
      MadeFrom policy (.failed origin error) (.error error)

def Outcome.origin : Outcome → UpstreamCall
  | .cached entry => entry.origin
  | .raw origin _ => origin
  | .failed origin _ => origin
  | .stale entry => entry.origin

def Source.origin : Source → UpstreamCall
  | .upstream origin => origin
  | .shared origin => origin
  | .fresh entry => entry.origin
  | .remembered entry => entry.origin
  | .stale entry => entry.origin

def Source.Gives (resolver : Resolver) (query : Message)
    (result returned : Except Error Message) : Source → Prop
  | .upstream _ => result = returned.map (alignEdns query)
  | .shared _ =>
      result = returned.map fun answer =>
        alignEdns query (rawResponse query answer)
  | .fresh entry =>
      entry.MadeFrom resolver.cache.ttlPolicy returned ∧
        ∃ now, result = freshResult query entry now
  | .remembered entry =>
      entry.MadeFrom resolver.cache.ttlPolicy returned ∧
        ∃ now, result = failureResult query entry now
  | .stale entry =>
      entry.MadeFrom resolver.cache.ttlPolicy returned ∧
        result = resolver.staleResult query entry

theorem failureEntry_madeFrom {policy : TtlPolicy} (origin : UpstreamCall)
    (query : Message) (result : Except Error UpstreamAnswer)
    (failedAt backoff retain : ℕ) :
    (failureEntry origin query result failedAt backoff retain).MadeFrom policy
      (result.map UpstreamAnswer.message) := by
  cases result with
  | ok answer => exact .failure origin answer.message failedAt backoff retain
  | error error => exact .error origin query error failedAt backoff retain

theorem outcomeOfFailure_origin (entry : CachedAnswer) :
    (outcomeOfFailure entry).origin = entry.origin := by
  unfold outcomeOfFailure
  cases entry.failureError with
  | none => rfl
  | some error => rfl

theorem outcomeOfFailure_madeFrom {policy : TtlPolicy} {entry : CachedAnswer}
    {returned : Except Error Message} (h : entry.MadeFrom policy returned)
    (hfailure : entry.failure.isSome = true) :
    (outcomeOfFailure entry).MadeFrom policy returned := by
  cases h with
  | answer h =>
    obtain ⟨_, hnone, _⟩ := cacheableAnswer_eq_some h
    rw [hnone] at hfailure
    contradiction
  | failure origin answer failedAt backoff retain =>
    exact .raw origin (setEdns_none_idem answer)
  | error origin query error failedAt backoff retain =>
    exact .failed origin error

theorem followerReply_gives {resolver : Resolver} {call : Call}
    {lookups : List Lookup} {reply : Reply} {outcome : Outcome}
    {returned : Except Error Message}
    (h : resolver.FollowerReply call lookups reply outcome)
    (hmade : outcome.MadeFrom resolver.cache.ttlPolicy returned) :
    ∃ source result, reply = call.reply source result lookups ∧
      source.origin = outcome.origin ∧
      source.Gives resolver call.query result returned := by
  cases hmade with
  | cached hentry =>
    obtain ⟨now, rfl⟩ := h
    exact ⟨_, _, rfl, rfl, hentry, now, rfl⟩
  | stale hentry => exact ⟨_, _, h, rfl, hentry, rfl⟩
  | raw origin hanswer =>
    refine ⟨_, _, h, rfl, ?_⟩
    rw [rawResponse, hanswer]
    rfl
  | failed origin error => exact ⟨_, _, h, rfl, rfl⟩

/-! ## The invariant -/

namespace Core

def allowedAt (core : Core) (index : ℕ) : Option ℕ :=
  (core.locks index).bind ShardLock.allowed

theorem home_eq {core after : Core} (resolver : Resolver)
    (hmask : after.store.mask = core.store.mask) (key : List UInt8) :
    after.home resolver key = core.home resolver key := by
  unfold home Store.shardIndex
  rw [hmask]

end Core

namespace Provenance

variable (resolver : Resolver)

def Returned (core : Core) (origin : UpstreamCall)
    (returned : Except Error Message) : Prop :=
  ∃ backend, ⟨origin, backend, returned⟩ ∈ core.history

structure Fits (key : List UInt8) (floor : ℕ) (origin : UpstreamCall) :
    Prop where
  key_eq : resolver.cacheKey origin.group origin.query = some key
  floor_le : floor ≤ origin.epoch

structure EntryOk (core : Core) (key : List UInt8) (floor : ℕ)
    (entry : CachedAnswer) : Prop where
  fits : Fits resolver key floor entry.origin
  enabled : resolver.cache.storeEnabled = true
  made : ∃ returned, Returned core entry.origin returned ∧
    entry.MadeFrom resolver.cache.ttlPolicy returned

structure OutcomeOk (core : Core) (key : List UInt8) (floor : ℕ)
    (outcome : Outcome) : Prop where
  fits : Fits resolver key floor outcome.origin
  made : ∃ returned, Returned core outcome.origin returned ∧
    outcome.MadeFrom resolver.cache.ttlPolicy returned

structure Inv (core : Core) : Prop where
  sound : core.store.Sound resolver.storeHash
  shards : core.store.mask + 1 = resolver.shards
  held : ∀ key entry, core.store.Holds key entry →
    EntryOk resolver core key core.flushed entry
  locked : ∀ index lock, core.locks index = some lock →
    resolver.cache.storeEnabled = true
  allowed : ∀ key epoch,
    core.allowedAt (core.home resolver key) = some epoch →
    core.flushed ≤ epoch
  flushed_le : core.flushed ≤ core.epoch
  registry : ∀ hash registered,
    core.registry.lookup hash = some registered →
    ∃ flight : Flight, core.flights[registered.flight]? = some flight ∧
      flight.key = registered.key
  published : ∀ (id : ℕ) (flight : Flight) (outcome : Outcome),
    core.flights[id]? = some flight →
    flight.state = .done outcome →
    OutcomeOk resolver core flight.key flight.floor outcome

structure Base (core after : Core) : Prop where
  epoch_le : core.epoch ≤ after.epoch
  flushed_le : core.flushed ≤ after.flushed
  mask_eq : after.store.mask = core.store.mask
  history : ∀ entry ∈ core.history, entry ∈ after.history
  flights : ∀ (id : ℕ) (flight : Flight), core.flights[id]? = some flight →
    ∃ flight' : Flight, after.flights[id]? = some flight' ∧
      flight'.key = flight.key ∧ flight'.floor = flight.floor
  allowed : ∀ index epoch, after.allowedAt index = some epoch →
    core.allowedAt index = some epoch ∨ core.epoch ≤ epoch
  holds : ∀ key entry, after.store.Holds key entry →
    core.store.Holds key entry ∨
      core.allowedAt (core.home resolver key) = some entry.origin.epoch ∨
      core.epoch ≤ entry.origin.epoch

variable {resolver}

theorem Base.refl (core : Core) : Base resolver core core where
  epoch_le := le_refl _
  flushed_le := le_refl _
  mask_eq := rfl
  history := fun _ h => h
  flights := fun _ flight h => ⟨flight, h, rfl, rfl⟩
  allowed := fun _ _ h => Or.inl h
  holds := fun _ _ h => Or.inl h

theorem Base.trans {core middle after : Core}
    (h : Base resolver core middle) (h' : Base resolver middle after) :
    Base resolver core after where
  epoch_le := h.epoch_le.trans h'.epoch_le
  flushed_le := h.flushed_le.trans h'.flushed_le
  mask_eq := h'.mask_eq.trans h.mask_eq
  history := fun entry hentry => h'.history entry (h.history entry hentry)
  flights := by
    intro id flight hflight
    obtain ⟨first, hfirst, hkey, hfloor⟩ := h.flights id flight hflight
    obtain ⟨second, hsecond, hkey', hfloor'⟩ := h'.flights id first hfirst
    exact ⟨second, hsecond, hkey'.trans hkey, hfloor'.trans hfloor⟩
  allowed := by
    intro index epoch hallowed
    rcases h'.allowed index epoch hallowed with hmiddle | hle
    · exact h.allowed index epoch hmiddle
    · exact Or.inr (h.epoch_le.trans hle)
  holds := by
    intro key entry hholds
    rcases h'.holds key entry hholds with hmiddle | hallowed | hle
    · exact h.holds key entry hmiddle
    · rw [Core.home_eq resolver h.mask_eq] at hallowed
      exact Or.inr (h.allowed _ _ hallowed)
    · exact Or.inr (Or.inr (h.epoch_le.trans hle))

theorem Returned.mono {core after : Core} (h : Base resolver core after)
    {origin : UpstreamCall} {returned : Except Error Message}
    (hreturned : Returned core origin returned) :
    Returned after origin returned := by
  obtain ⟨backend, hmem⟩ := hreturned
  exact ⟨backend, h.history _ hmem⟩

theorem EntryOk.mono {core after : Core} (h : Base resolver core after)
    {key : List UInt8} {floor : ℕ} {entry : CachedAnswer}
    (hentry : EntryOk resolver core key floor entry) :
    EntryOk resolver after key floor entry := by
  obtain ⟨hfits, henabled, returned, hreturned, hmade⟩ := hentry
  exact ⟨hfits, henabled, returned, hreturned.mono h, hmade⟩

theorem OutcomeOk.mono {core after : Core} (h : Base resolver core after)
    {key : List UInt8} {floor : ℕ} {outcome : Outcome}
    (houtcome : OutcomeOk resolver core key floor outcome) :
    OutcomeOk resolver after key floor outcome := by
  obtain ⟨hfits, returned, hreturned, hmade⟩ := houtcome
  exact ⟨hfits, returned, hreturned.mono h, hmade⟩

theorem Fits.weaken {key : List UInt8} {floor lower : ℕ}
    {origin : UpstreamCall} (h : Fits resolver key floor origin)
    (hle : lower ≤ floor) : Fits resolver key lower origin :=
  ⟨h.key_eq, hle.trans h.floor_le⟩

theorem EntryOk.weaken {core : Core} {key : List UInt8} {floor lower : ℕ}
    {entry : CachedAnswer} (h : EntryOk resolver core key floor entry)
    (hle : lower ≤ floor) : EntryOk resolver core key lower entry :=
  ⟨h.fits.weaken hle, h.enabled, h.made⟩

theorem EntryOk.cached {core : Core} {key : List UInt8} {floor : ℕ}
    {entry : CachedAnswer} (h : EntryOk resolver core key floor entry) :
    OutcomeOk resolver core key floor (.cached entry) := by
  obtain ⟨hfits, _, returned, hreturned, hmade⟩ := h
  exact ⟨hfits, returned, hreturned, .cached hmade⟩

theorem EntryOk.stale {core : Core} {key : List UInt8} {floor : ℕ}
    {entry : CachedAnswer} (h : EntryOk resolver core key floor entry) :
    OutcomeOk resolver core key floor (.stale entry) := by
  obtain ⟨hfits, _, returned, hreturned, hmade⟩ := h
  exact ⟨hfits, returned, hreturned, .stale hmade⟩

theorem EntryOk.failure {core : Core} {key : List UInt8} {floor : ℕ}
    {entry : CachedAnswer} (h : EntryOk resolver core key floor entry)
    (hfailure : entry.failure.isSome = true) :
    OutcomeOk resolver core key floor (outcomeOfFailure entry) := by
  obtain ⟨hfits, _, returned, hreturned, hmade⟩ := h
  rw [← outcomeOfFailure_origin] at hfits hreturned
  exact ⟨hfits, returned, hreturned, outcomeOfFailure_madeFrom hmade hfailure⟩

/-! ## Single changes of the core -/

structure Keeps (resolver : Resolver) (core after : Core) : Prop where
  inv : Inv resolver after
  base : Base resolver core after
  locks : after.locks = core.locks

theorem Keeps.trans {core middle after : Core}
    (h : Keeps resolver core middle) (h' : Keeps resolver middle after) :
    Keeps resolver core after :=
  ⟨h'.inv, h.base.trans h'.base, h'.locks.trans h.locks⟩

section Changes

variable {core : Core} (hinv : Inv resolver core)

include hinv

theorem keeps_refl : Keeps resolver core core :=
  ⟨hinv, Base.refl core, rfl⟩

theorem inv_of_base {after : Core} (hbase : Base resolver core after)
    (hflushed : after.flushed = core.flushed)
    (hsound : after.store.Sound resolver.storeHash)
    (hheld : ∀ key entry, after.store.Holds key entry →
      EntryOk resolver core key core.flushed entry)
    (hlocked : ∀ index lock, after.locks index = some lock →
      resolver.cache.storeEnabled = true)
    (hallowed : ∀ key epoch,
      after.allowedAt (core.home resolver key) = some epoch →
      core.flushed ≤ epoch)
    (hregistry : ∀ hash registered,
      after.registry.lookup hash = some registered →
      ∃ flight : Flight, after.flights[registered.flight]? = some flight ∧
        flight.key = registered.key)
    (hpublished : ∀ (id : ℕ) (flight : Flight) (outcome : Outcome),
      after.flights[id]? = some flight → flight.state = .done outcome →
      OutcomeOk resolver core flight.key flight.floor outcome) :
    Inv resolver after := by
  refine ⟨hsound, hbase.mask_eq ▸ hinv.shards, ?_, hlocked, ?_, ?_,
    hregistry, ?_⟩
  · intro key entry h
    rw [hflushed]
    exact (hheld key entry h).mono hbase
  · intro key epoch h
    rw [Core.home_eq resolver hbase.mask_eq] at h
    rw [hflushed]
    exact hallowed key epoch h
  · rw [hflushed]
    exact hinv.flushed_le.trans hbase.epoch_le
  · intro id flight outcome h hstate
    exact (hpublished id flight outcome h hstate).mono hbase

theorem keeps_of_base {after : Core} (hbase : Base resolver core after)
    (hlocks : after.locks = core.locks)
    (hflushed : after.flushed = core.flushed)
    (hsound : after.store.Sound resolver.storeHash)
    (hholds : ∀ key entry, after.store.Holds key entry →
      core.store.Holds key entry)
    (hregistry : ∀ hash registered,
      after.registry.lookup hash = some registered →
      ∃ flight : Flight, after.flights[registered.flight]? = some flight ∧
        flight.key = registered.key)
    (hpublished : ∀ (id : ℕ) (flight : Flight) (outcome : Outcome),
      after.flights[id]? = some flight → flight.state = .done outcome →
      OutcomeOk resolver core flight.key flight.floor outcome) :
    Keeps resolver core after := by
  refine ⟨inv_of_base hinv hbase hflushed hsound ?_ ?_ ?_ hregistry
    hpublished, hbase, hlocks⟩
  · intro key entry h
    exact hinv.held key entry (hholds key entry h)
  · rw [hlocks]
    exact hinv.locked
  · unfold Core.allowedAt
    rw [hlocks]
    exact hinv.allowed

/-- The clock and what is on record about calls say nothing here. -/
theorem keeps_of_same (clock nextCall : ℕ) (offered loops : List UpstreamCall) :
    Keeps resolver core { core with
      clock := clock
      nextCall := nextCall
      offered := offered
      loops := loops } :=
  keeps_of_base hinv { (Base.refl core : Base resolver core core) with }
    rfl rfl hinv.sound (fun _ _ h => h) hinv.registry hinv.published

theorem keeps_setFlight {id : ℕ} {change : Flight → Flight}
    (hchange : ∀ flight : Flight, core.flights[id]? = some flight →
      (change flight).key = flight.key ∧
      (change flight).floor = flight.floor ∧
      ∀ outcome, (change flight).state = .done outcome →
        flight.state = .done outcome ∨
          OutcomeOk resolver core flight.key flight.floor outcome) :
    Keeps resolver core (core.setFlight id change) := by
  have hflights : ∀ (other : ℕ) (flight : Flight),
      core.flights[other]? = some flight →
      ∃ flight' : Flight,
        (core.setFlight id change).flights[other]? = some flight' ∧
        flight'.key = flight.key ∧ flight'.floor = flight.floor := by
    intro other flight hflight
    rw [Core.getElem?_setFlight, hflight]
    refine ⟨_, rfl, ?_⟩
    dsimp only
    split_ifs with heq
    · subst heq
      obtain ⟨hkey, hfloor, _⟩ := hchange flight hflight
      exact ⟨hkey, hfloor⟩
    · exact ⟨rfl, rfl⟩
  refine keeps_of_base hinv
    { (Base.refl core : Base resolver core core) with flights := hflights }
    rfl rfl hinv.sound (fun _ _ h => h) ?_ ?_
  · intro hash registered hregistered
    obtain ⟨flight, hflight, hkey⟩ := hinv.registry hash registered hregistered
    obtain ⟨flight', hflight', hkey', _⟩ := hflights _ flight hflight
    exact ⟨flight', hflight', hkey'.trans hkey⟩
  · intro other flight outcome hflight hstate
    rw [Core.getElem?_setFlight] at hflight
    obtain ⟨old, hold, rfl⟩ := Option.map_eq_some_iff.mp hflight
    by_cases heq : id = other
    · subst heq
      rw [if_pos rfl] at hstate ⊢
      obtain ⟨hkey, hfloor, houtcome⟩ := hchange old hold
      rw [hkey, hfloor]
      rcases houtcome outcome hstate with hsame | hok
      · exact hinv.published _ old outcome hold hsame
      · exact hok
    · rw [if_neg heq] at hstate ⊢
      exact hinv.published _ old outcome hold hstate

theorem keeps_setFlight_quiet {id : ℕ} {change : Flight → Flight}
    (hchange : ∀ flight, (change flight).key = flight.key ∧
      (change flight).floor = flight.floor ∧
      ∀ outcome, (change flight).state = .done outcome →
        flight.state = .done outcome) :
    Keeps resolver core (core.setFlight id change) :=
  keeps_setFlight hinv fun flight _ =>
    ⟨(hchange flight).1, (hchange flight).2.1,
      fun outcome h => Or.inl ((hchange flight).2.2 outcome h)⟩

theorem keeps_addFlight (task : ℕ) (key : List UInt8) (purpose : Purpose) :
    Keeps resolver core (core.addFlight task key purpose) := by
  have hflights := fun (id : ℕ) (flight : Flight)
    (h : core.flights[id]? = some flight) =>
      Core.getElem?_addFlight_of_some h task key purpose
  refine keeps_of_base hinv
    { (Base.refl core : Base resolver core core) with
      flights := fun id flight h => ⟨flight, hflights id flight h, rfl, rfl⟩ }
    rfl rfl hinv.sound (fun _ _ h => h) ?_ ?_
  · intro hash registered hregistered
    obtain ⟨flight, hflight, hkey⟩ := hinv.registry hash registered hregistered
    exact ⟨flight, hflights _ flight hflight, hkey⟩
  · intro id flight outcome hflight hstate
    rcases Core.addFlight_cases hflight with hold | ⟨rfl, rfl⟩
    · exact hinv.published id flight outcome hold hstate
    · cases hstate

theorem keeps_registry {registry : HashMap Registered}
    (hregistry : ∀ hash registered,
      registry.lookup hash = some registered →
      ∃ flight : Flight, core.flights[registered.flight]? = some flight ∧
        flight.key = registered.key) :
    Keeps resolver core { core with registry := registry } :=
  keeps_of_base hinv { (Base.refl core : Base resolver core core) with }
    rfl rfl hinv.sound (fun _ _ h => h) hregistry hinv.published

theorem keeps_of_loses {after : Core}
    (h : Core.StoreLoses resolver core after) :
    Keeps resolver core after := by
  rw [h.rest]
  exact keeps_of_base hinv
    { (Base.refl core : Base resolver core core) with
      mask_eq := h.mask
      holds := fun key entry hheld => Or.inl (h.holds key entry hheld) }
    rfl rfl h.sound h.holds hinv.registry hinv.published

theorem keeps_history (returned : UpstreamReturn) :
    Keeps resolver core { core with
      history := core.history ++ [returned] } :=
  keeps_of_base hinv
    { (Base.refl core : Base resolver core core) with
      history := fun _ h => List.mem_append_left _ h }
    rfl rfl hinv.sound (fun _ _ h => h) hinv.registry hinv.published

theorem keeps_epoch :
    Keeps resolver core { core with epoch := core.epoch + 1 } :=
  keeps_of_base hinv
    { (Base.refl core : Base resolver core core) with
      epoch_le := Nat.le_succ _ }
    rfl rfl hinv.sound (fun _ _ h => h) hinv.registry hinv.published

end Changes

end Provenance

end DnsLattice
