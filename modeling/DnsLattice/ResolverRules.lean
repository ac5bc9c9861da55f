import DnsLattice.ResolverCode
import DnsLattice.StoreContents

/-!
# Rules for the parts of the code which leave the core alone

Most operations of the resolver only emit events, count, read the clock or
change the cells of an entry.  For a logic which speaks only of the core of
the world they keep every stable assertion, and so do the programs made of
them: these are proved here once, for any such logic.
-/

namespace DnsLattice

open Logic

/-- The operations which leave the core of the world as it is. -/
def Op.quiet : Op → Bool
  | .nextCorrelationId => true
  | .emit _ => true
  | .emitCache _ => true
  | .count _ => true
  | .now => true
  | .addInstant _ _ => true
  | .fakeIpAnswer _ => true
  | .hookSelect _ _ => true
  | .tryCurrent => true
  | .recheckPending _ _ => true
  | .deferRecheck _ _ => true
  | .addHit _ => true
  | .swapRefreshing _ => true
  | .lockBackground => true
  | .unlockBackground => true
  | .scheduled => true
  | .taskEnded => true
  | _ => false

theorem World.withCore?_eq_some {α : Type} {world after : World}
    {result : Option (α × Core)} {value : α}
    (h : world.withCore? result = some (value, after)) :
    result = some (value, after.core) := by
  obtain ⟨⟨found, core⟩, hresult, heq⟩ := Option.map_eq_some_iff.mp h
  obtain ⟨rfl, rfl⟩ := Prod.mk.inj heq
  exact hresult

theorem World.withCore_eq_some {α : Type} {world after : World}
    {core : Core} {result value : α}
    (h : world.withCore result core = some (value, after)) :
    value = result ∧ after.core = core := by
  obtain ⟨rfl, rfl⟩ := Prod.mk.inj (Option.some.inj h)
  exact ⟨rfl, rfl⟩

theorem Resolver.storedKey_eq_some {resolver : Resolver}
    {group : UpstreamGroupId} {query : Message} {key : List UInt8}
    (h : resolver.storedKey group query = some key) :
    resolver.cache.storeEnabled = true ∧
      resolver.cacheKey group query = some key := by
  unfold storedKey at h
  split_ifs at h with henabled
  exact ⟨henabled, h⟩

theorem Core.onShard_eq_some {α : Type} {core after : Core} {index : ℕ}
    {result : Run Error (α × Store)} {value : α}
    (h : core.onShard index result = some (value, after)) :
    core.locks index = none ∧ result = .ok (value, after.store) ∧
      after = { core with store := after.store } := by
  unfold onShard at h
  split at h
  · obtain ⟨rfl, rfl⟩ := Prod.mk.inj (Option.some.inj h)
    exact ⟨by assumption, rfl, rfl⟩
  · contradiction

theorem Core.lockShard_eq_some {resolver : Resolver} {core after : Core}
    {task : ℕ} {key : List UInt8}
    (h : core.lockShard resolver task key = some after) :
    core.locks (core.home resolver key) = none ∧
      after = core.setLock (core.home resolver key) (some ⟨task, none⟩) := by
  unfold lockShard at h
  split at h
  · exact ⟨by assumption, (Option.some.inj h).symm⟩
  · contradiction

theorem Core.wait_eq_some {core after : Core} {id : ℕ} {timed : Bool}
    {input : Input} {waited : Wait}
    (h : core.wait id timed input = some (waited, after)) :
    ∃ flight : Flight, core.flights[id]? = some flight ∧
      waitResult timed flight.state input = some waited ∧
      after = core.unfollow id := by
  unfold wait at h
  cases hflight : core.flights[id]? with
  | none => simp [hflight] at h
  | some flight =>
    rw [hflight] at h
    obtain ⟨result, hresult, heq⟩ := Option.map_eq_some_iff.mp h
    obtain ⟨rfl, rfl⟩ := Prod.mk.inj heq
    exact ⟨flight, rfl, hresult, rfl⟩

theorem Core.waitResult_done {timed : Bool} {state : FlightState}
    {input : Input} {outcome : Outcome}
    (h : waitResult timed state input = some (.done outcome)) :
    state = .done outcome := by
  unfold waitResult at h
  split at h <;> simp_all

theorem Core.getElem?_setFlight (core : Core) (id : ℕ)
    (change : Flight → Flight) (other : ℕ) :
    (core.setFlight id change).flights[other]? =
      core.flights[other]?.map fun flight =>
        if id = other then change flight else flight := by
  unfold setFlight
  dsimp only
  rw [List.getElem?_modify]
  split_ifs <;> simp

theorem Core.getElem?_addFlight_of_some {core : Core} {id : ℕ}
    {flight : Flight} (h : core.flights[id]? = some flight) (task : ℕ)
    (key : List UInt8) (purpose : Purpose) :
    (core.addFlight task key purpose).flights[id]? = some flight := by
  obtain ⟨hlt, _⟩ := List.getElem?_eq_some_iff.mp h
  unfold addFlight
  dsimp only
  rw [List.getElem?_append_left hlt, h]

theorem Core.addFlight_cases {core : Core} {task : ℕ} {key : List UInt8}
    {purpose : Purpose} {id : ℕ} {flight : Flight}
    (h : (core.addFlight task key purpose).flights[id]? = some flight) :
    core.flights[id]? = some flight ∨
      id = core.flights.length ∧
        flight = ⟨key, task, decide (purpose = .prefetch), core.flushed, 0,
          .pending, none⟩ := by
  unfold addFlight at h
  dsimp only at h
  rw [List.getElem?_append] at h
  split_ifs at h with hlt
  · exact Or.inl h
  · rw [List.getElem?_singleton] at h
    split_ifs at h with hzero
    exact Or.inr ⟨by omega, (Option.some.inj h).symm⟩

theorem Core.getElem?_addFlight_length (core : Core) (task : ℕ)
    (key : List UInt8) (purpose : Purpose) :
    (core.addFlight task key purpose).flights[core.flights.length]? =
      some ⟨key, task, decide (purpose = .prefetch), core.flushed, 0,
        .pending, none⟩ := by
  unfold addFlight
  dsimp only
  rw [List.getElem?_append_right (Nat.le_refl _), Nat.sub_self]
  rfl

inductive Core.JoinCases (resolver : Resolver) (core : Core) (task : ℕ)
    (key : List UInt8) (purpose : Purpose) : Join → Core → Prop
  | follow (flight : ℕ)
      (hlookup : core.registry.lookup (resolver.flightHash key) =
        some ⟨key, flight⟩) :
      JoinCases resolver core task key purpose (.follow flight)
        (core.follow flight)
  | alone (registered : Registered)
      (hlookup : core.registry.lookup (resolver.flightHash key) =
        some registered)
      (hne : registered.key ≠ key) :
      JoinCases resolver core task key purpose
        (.lead ⟨resolver.flightHash key, core.flights.length, false⟩)
        (core.addFlight task key purpose)
  | lead
      (hlookup : core.registry.lookup (resolver.flightHash key) = none) :
      JoinCases resolver core task key purpose
        (.lead ⟨resolver.flightHash key, core.flights.length, true⟩)
        ((core.addFlight task key purpose).register (resolver.flightHash key)
          ⟨key, core.flights.length⟩)

theorem Core.joinOrLead_cases (resolver : Resolver) (core : Core) (task : ℕ)
    (key : List UInt8) (purpose : Purpose) :
    JoinCases resolver core task key purpose
      (core.joinOrLead resolver task key purpose).1
      (core.joinOrLead resolver task key purpose).2 := by
  unfold joinOrLead
  cases hlookup : core.registry.lookup (resolver.flightHash key) with
  | none => exact .lead hlookup
  | some registered =>
    dsimp only
    split_ifs with hkey
    · subst hkey
      exact .follow registered.flight hlookup
    · exact .alone registered hlookup hkey

theorem Core.insertUnlock_eq_some {resolver : Resolver} {core after : Core}
    {task now : ℕ} {key : List UInt8} {entry : CachedAnswer}
    {allowed stored : Bool}
    (h : core.insertUnlock resolver task key entry now allowed =
      some (stored, after)) :
    ∃ lock, core.locks (core.home resolver key) = some lock ∧
      lock.owner = task ∧
      core.store.insertIf resolver.layout (resolver.storeHash key) key entry
        now allowed = .ok (stored, after.store) ∧
      after = { core with
        store := after.store
        locks := Function.update core.locks (core.home resolver key) none
        offered := if allowed then entry.origin :: core.offered
          else core.offered } := by
  unfold insertUnlock at h
  split at h
  · rename_i lock result store hlock hinsert
    by_cases howner : lock.owner = task
    · rw [if_pos howner] at h
      obtain ⟨rfl, rfl⟩ := Prod.mk.inj (Option.some.inj h)
      exact ⟨lock, hlock, howner, hinsert, rfl⟩
    · rw [if_neg howner] at h
      contradiction
  · contradiction

/-! ## Operations on the store -/

structure Core.StoreLoses (resolver : Resolver) (core after : Core) :
    Prop where
  sound : after.store.Sound resolver.storeHash
  mask : after.store.mask = core.store.mask
  holds : ∀ key entry, after.store.Holds key entry →
    core.store.Holds key entry
  rest : after = { core with store := after.store }

section Store

variable {resolver : Resolver} {core after : Core}
  (hsound : core.store.Sound resolver.storeHash)

include hsound

theorem Core.storeGet_loses {key : List UInt8} {now : ℕ}
    {found : Option CachedAnswer}
    (h : core.storeGet resolver key now = some (found, after)) :
    StoreLoses resolver core after ∧
      (∀ entry, found = some entry ↔
        core.store.Holds key entry ∧ now < entry.staleUntil) ∧
      ∀ entry, after.store.Holds key entry → found = some entry := by
  obtain ⟨_, hget, hafter⟩ := Core.onShard_eq_some h
  obtain ⟨result, store, hresult, hstored, hfound, hkept⟩ :=
    hsound.get_holds key now
  obtain ⟨rfl, hstore⟩ := Prod.mk.inj (Run.ok.inj (hresult.symm.trans hget))
  rw [hstore] at hstored hkept
  refine ⟨⟨hstored, Store.withShard_mask hget,
    fun other entry hother => ((hkept other entry).mp hother).1, hafter⟩,
    hfound, ?_⟩
  intro entry hheld
  obtain ⟨hold, hwindow⟩ := (hkept key entry).mp hheld
  refine (hfound entry).mpr ⟨hold, ?_⟩
  by_contra hnot
  exact hwindow ⟨rfl, not_lt.mp hnot⟩

theorem Core.storeForgetFailure_loses {key : List UInt8} {forgotten : Bool}
    (h : core.storeForgetFailure resolver key = some (forgotten, after)) :
    StoreLoses resolver core after := by
  obtain ⟨_, hforget, hafter⟩ := Core.onShard_eq_some h
  obtain ⟨result, store, hresult, hstored, hkept⟩ :=
    hsound.forgetFailure_holds key
  obtain ⟨_, hstore⟩ := Prod.mk.inj (Run.ok.inj (hresult.symm.trans hforget))
  rw [hstore] at hstored hkept
  exact ⟨hstored, Store.withShard_mask hforget,
    fun other entry hother => ((hkept other entry).mp hother).1, hafter⟩

omit hsound in
theorem Scope.remove_holds {home : UInt64 → Prop} {shard : Shard}
    (h : shard.Sound resolver.storeHash home) (scope : Scope) :
    ∃ result after, scope.remove shard = .ok (result, after) ∧
      after.Sound resolver.storeHash home ∧
      ∀ other entry, after.Holds other entry ↔
        shard.Holds other entry ∧ scope.covers other = false := by
  cases scope with
  | all =>
    obtain ⟨result, after, hclear, hstored, hholds⟩ := h.clear_holds
    refine ⟨result, after, hclear, hstored, ?_⟩
    intro other entry
    rw [hholds]
    simp [Scope.covers, Scope.matching]
  | named name rtype => exact h.removeMatching_holds _
  | subtree zone => exact h.removeMatching_holds _

theorem Core.sweepShard_loses {scope : Scope} {index removed : ℕ}
    (h : core.sweepShard scope index = some (removed, after)) :
    core.locks index = none ∧ StoreLoses resolver core after ∧
      ∀ key entry, after.store.Holds key entry →
        core.home resolver key = index → scope.covers key = false := by
  obtain ⟨hfree, hsweep, hafter⟩ := Core.onShard_eq_some h
  obtain ⟨shard, _, hshard, _⟩ := Store.withShard_eq_ok_iff.mp hsweep
  obtain ⟨hlt, _⟩ := List.getElem?_eq_some_iff.mp hshard
  obtain ⟨result, store, hresult, hstored, hholds⟩ :=
    hsound.withShard_holds (fun _ _ h => scope.remove_holds h) hlt
  obtain ⟨_, hstore⟩ := Prod.mk.inj (Run.ok.inj (hresult.symm.trans hsweep))
  rw [hstore] at hstored hholds
  refine ⟨hfree, ⟨hstored, Store.withShard_mask hsweep,
    fun key entry hheld => ((hholds key entry).mp hheld).1, hafter⟩, ?_⟩
  intro key entry hheld hhome
  exact ((hholds key entry).mp hheld).2 hhome

theorem Core.insertUnlock_holds {task now : ℕ} {key : List UInt8}
    {entry : CachedAnswer} {allowed stored : Bool}
    (h : core.insertUnlock resolver task key entry now allowed =
      some (stored, after)) :
    after.store.Sound resolver.storeHash ∧
      after.store.mask = core.store.mask ∧
      (stored = true → allowed = true) ∧
      (∀ other held, after.store.Holds other held →
        (stored = true ∧ other = key ∧ held = entry) ∨
          core.store.Holds other held) ∧
      after = { core with
        store := after.store
        locks := Function.update core.locks (core.home resolver key) none
        offered := if allowed then entry.origin :: core.offered
          else core.offered } := by
  obtain ⟨_, _, _, hinsert, hafter⟩ := Core.insertUnlock_eq_some h
  obtain ⟨result, store, hresult, hstored, hallowed, hheld⟩ :=
    hsound.insertIf_holds resolver.layout key entry now allowed
  obtain ⟨rfl, hstore⟩ := Prod.mk.inj (Run.ok.inj (hresult.symm.trans hinsert))
  rw [hstore] at hstored hheld
  exact ⟨hstored, Store.withShard_mask hinsert, hallowed,
    fun other held hother => (hheld other held hother).imp id And.left,
    hafter⟩

end Store

/-! ## Quiet operations -/

structure OnCore (logic : Logic Op World Job Reply) : Prop where
  inv : ∀ world after, after.core = world.core → logic.inv world →
    logic.inv after
  rely : ∀ number world after, after.core = world.core →
    logic.rely number world after
  asserts : ∀ thread op world, op.quiet = true →
    logic.asserts thread op world

namespace Resolver

variable {resolver : Resolver} {allows : Condition Op Resp World Job}
  {logic : Logic Op World Job Reply} {thread : Thread World Job}
  {holds : World → Prop}

theorem exec_quiet {op : Op} (hop : op.quiet = true) {task unused : ℕ}
    {world after : World} {input : Input} {resp : Resp op}
    (hexec : resolver.exec task unused world op input = some (resp, after)) :
    after.core = world.core := by
  cases op with
  | fakeIpAnswer query => cases input <;> simp_all [exec]
  | hookSelect question group => cases input <;> simp_all [exec]
  | tryCurrent => cases input <;> simp_all [exec]
  | scheduled => cases input <;> simp_all [exec]
  | lockBackground =>
    rw [exec] at hexec
    split_ifs at hexec
    rw [World.withSide, Option.some.injEq, Prod.mk.injEq] at hexec
    rw [← hexec.2]
  | nextCorrelationId | emit | emitCache | count | now | addInstant |
  recheckPending | deferRecheck | addHit | swapRefreshing |
  unlockBackground | taskEnded =>
    simp only [exec, World.withSide, Option.some.injEq, Prod.mk.injEq] at hexec
    rw [← hexec.2]
  | _ => cases hop

theorem spawns_quiet {op : Op} (hop : op.quiet = true) :
    spawns op = none := by
  cases op with
  | spawn job => cases hop
  | _ => rfl

/-! ## Quiet programs -/

section Quiet

variable (hcore : OnCore logic) (hstable : Stable logic thread holds)

include hcore hstable

theorem quiet_triple {op : Op} (hop : op.quiet = true) :
    Triple resolver.machine allows logic thread holds (perform op)
      (fun _ => holds) := by
  apply Triple.lift (fun world _ _ => hcore.asserts thread op world hop)
    hstable
  intro world unused input resp after hinv hholds _ hexec _
  have heq := exec_quiet hop hexec
  have hinv' := hcore.inv world after heq hinv
  refine ⟨hinv', ?_, ?_, ?_⟩
  · intro other _
    exact hcore.rely other world after heq
  · intro job hjob
    have hnone : spawns op = some job := hjob
    rw [spawns_quiet hop] at hnone
    contradiction
  · exact hstable world after hholds hinv (hcore.rely _ world after heq) hinv'

theorem emitResult_triple (correlationId : ℕ) (result : Except Error Message) :
    Triple resolver.machine allows logic thread holds
      (emitResult correlationId result) (fun _ => holds) := by
  cases result with
  | ok answer => exact quiet_triple hcore hstable rfl
  | error error => exact quiet_triple hcore hstable rfl

theorem serveFailure_triple (call : Call) (cached : CachedAnswer) (now : ℕ)
    (lookups : List Lookup) :
    Triple resolver.machine allows logic thread holds
      (serveFailure call cached now lookups)
      (fun reply world => holds world ∧
        reply = call.reply (.remembered cached)
          (failureResult call.query cached now) lookups) := by
  refine .bind (quiet_triple hcore hstable rfl) fun _ => ?_
  refine .bind (quiet_triple hcore hstable rfl) fun _ => ?_
  refine .bind (emitResult_triple hcore hstable _ _) fun _ => ?_
  exact .ret fun _ _ hholds => ⟨hholds, rfl⟩

theorem serveStale_triple (call : Call) (entry : CachedAnswer)
    (lookups : List Lookup) :
    Triple resolver.machine allows logic thread holds
      (resolver.serveStale call entry lookups)
      (fun reply world => holds world ∧
        reply = call.reply (.stale entry)
          (resolver.staleResult call.query entry) lookups) := by
  refine .bind (quiet_triple hcore hstable rfl) fun _ => ?_
  refine .bind (quiet_triple hcore hstable rfl) fun _ => ?_
  refine .bind (emitResult_triple hcore hstable _ _) fun _ => ?_
  exact .ret fun _ _ hholds => ⟨hholds, rfl⟩

def FollowerReply (resolver : Resolver) (call : Call) (lookups : List Lookup)
    (reply : Reply) : Outcome → Prop
  | .stale entry =>
      reply = call.reply (.stale entry)
        (resolver.staleResult call.query entry) lookups
  | .cached cached =>
      ∃ now, reply = call.reply (.fresh cached)
        (freshResult call.query cached now) lookups
  | .raw origin answer =>
      reply = call.reply (.shared origin)
        (.ok (alignEdns call.query (rawResponse call.query answer))) lookups
  | .failed origin error =>
      reply = call.reply (.shared origin) (.error error) lookups

theorem finishFollower_triple (call : Call) (outcome : Outcome)
    (lookups : List Lookup) :
    Triple resolver.machine allows logic thread holds
      (resolver.finishFollower call outcome lookups)
      (fun reply world => holds world ∧
        resolver.FollowerReply call lookups reply outcome) := by
  cases outcome with
  | stale entry => exact serveStale_triple hcore hstable call entry lookups
  | cached cached =>
    refine .bind (quiet_triple hcore hstable rfl) fun now => ?_
    refine .bind (emitResult_triple hcore hstable _ _) fun _ => ?_
    exact .ret fun _ _ hholds => ⟨hholds, now, rfl⟩
  | raw origin answer =>
    refine .bind (emitResult_triple hcore hstable _ _) fun _ => ?_
    exact .ret fun _ _ hholds => ⟨hholds, rfl⟩
  | failed origin error =>
    refine .bind (emitResult_triple hcore hstable _ _) fun _ => ?_
    exact .ret fun _ _ hholds => ⟨hholds, rfl⟩

def Classified (resolver : Resolver) (entry : Option CachedAnswer)
    (now : ℕ) : Found → Prop
  | .fresh cached =>
      entry = some cached ∧ cached.failure = none ∧ now < cached.expires
  | .failure cached => entry = some cached ∧ cached.failure.isSome = true
  | .staleNow cached => entry = some cached ∧ cached.failure = none
  | .refresh (some stale) _ =>
      entry = some stale ∧ stale.failure = none ∧ stale.expires ≤ now ∧
        resolver.cache.serveStale.isSome = true
  | .refresh none _ =>
      ∀ found, entry = some found → found.expires ≤ now ∧
        (resolver.cache.serveStale.isSome = true →
          now < found.staleUntil → found.failure.isSome = true)

theorem classify_triple (entry : Option CachedAnswer) (now : ℕ) :
    Triple resolver.machine allows logic thread holds
      (resolver.classify entry now)
      (fun found world => holds world ∧
        resolver.Classified entry now found) := by
  cases entry with
  | none => exact .ret fun _ _ hholds => ⟨hholds, by simp [Classified]⟩
  | some entry =>
    unfold classify
    dsimp only
    cases hfailure : entry.failure with
    | some failure =>
      dsimp only
      split_ifs with hfresh
      · exact .ret fun _ _ hholds =>
          ⟨hholds, rfl, by simp [hfailure]⟩
      · refine .ret fun _ _ hholds => ⟨hholds, ?_⟩
        rintro _ ⟨⟩
        exact ⟨not_lt.mp hfresh, by simp [hfailure]⟩
    | none =>
      dsimp only
      split_ifs with hfresh hstale
      · exact .ret fun _ _ hholds => ⟨hholds, rfl, hfailure, hfresh⟩
      · refine .bind (quiet_triple hcore hstable rfl) fun pending => ?_
        refine .ret fun _ _ hholds => ⟨hholds, ?_⟩
        cases pending with
        | true => exact ⟨rfl, hfailure⟩
        | false => exact ⟨rfl, hfailure, not_lt.mp hfresh, hstale.1⟩
      · refine .ret fun _ _ hholds => ⟨hholds, ?_⟩
        rintro _ ⟨⟩
        exact ⟨not_lt.mp hfresh, fun hserve hwindow =>
          absurd ⟨hserve, hwindow⟩ hstale⟩

theorem observeUpstream_triple (correlationId : Option ℕ)
    (event : ℕ → ObserveEvent) :
    Triple resolver.machine allows logic thread holds
      (observeUpstream correlationId event) (fun _ => holds) := by
  cases correlationId with
  | none => exact .ret fun _ _ hholds => hholds
  | some correlationId => exact quiet_triple hcore hstable rfl

theorem startInstant_triple (progress : Progress) :
    Triple resolver.machine allows logic thread holds
      (startInstant progress) (fun _ => holds) := by
  unfold startInstant
  split_ifs
  · exact quiet_triple hcore hstable rfl
  · exact .ret fun _ _ hholds => hholds

theorem announce_triple (call : Call) (progress : Progress) :
    Triple resolver.machine allows logic thread holds
      (announce call progress) (fun _ => holds) := by
  unfold announce
  split_ifs
  · exact .ret fun _ _ hholds => hholds
  · refine .bind (quiet_triple hcore hstable rfl) fun _ => ?_
    exact quiet_triple hcore hstable rfl

theorem waitTimed_triple (stale : Option CachedAnswer) :
    Triple resolver.machine allows logic thread holds
      (resolver.waitTimed stale)
      (fun timed world => holds world ∧
        (timed = true → stale.isSome = true)) := by
  unfold waitTimed
  split
  · exact (quiet_triple hcore hstable rfl).post
      fun _ _ _ hholds => ⟨hholds, fun _ => rfl⟩
  · exact .ret fun _ _ hholds => ⟨hholds, by simp⟩

theorem reject_triple (correlationId : ℕ) (error : Error) :
    Triple resolver.machine allows logic thread holds
      (reject correlationId error)
      (fun result world => holds world ∧
        result = .inr (.rejected (.error error))) := by
  refine .bind (quiet_triple hcore hstable rfl) fun _ => ?_
  exact .ret fun _ _ hholds => ⟨hholds, rfl⟩

theorem fakeIpAnswer_triple (query : Message) :
    Triple resolver.machine allows logic thread holds
      (resolver.fakeIpAnswer query) (fun _ => holds) := by
  unfold fakeIpAnswer
  split_ifs
  · exact quiet_triple hcore hstable rfl
  · exact .ret fun _ _ hholds => hholds

def Selected (resolver : Resolver) (question : Question)
    (selection : Selection) : Prop :=
  ∀ group backends decision,
    selection = .selected group backends decision →
    resolver.effectiveGroup question decision = some group ∧
      (resolver.groupIndex group).isSome = true ∧
      resolver.backends.lookup group = some backends ∧ 0 < backends

omit hcore hstable in
theorem registered_selected {question : Question}
    {group : Option UpstreamGroupId} {decision : Option RouteDecision}
    (heffective : resolver.effectiveGroup question decision = group) :
    resolver.Selected question (resolver.registered group decision) := by
  intro chosen backends chosenDecision hselected
  unfold registered at hselected
  cases group with
  | none => cases hselected
  | some group =>
    dsimp only at hselected
    cases hbackends : resolver.backends.lookup group with
    | none => simp [hbackends] at hselected
    | some count =>
      rw [hbackends] at hselected
      dsimp only at hselected
      split_ifs at hselected with hzero
      cases hindex : resolver.groupIndex group with
      | none => simp [hindex] at hselected
      | some index =>
        rw [hindex] at hselected
        obtain ⟨rfl, rfl, rfl⟩ := Selection.selected.inj hselected
        exact ⟨heffective, by simp [hindex], hbackends,
          Nat.pos_of_ne_zero hzero⟩

theorem selectBackends_triple (question : Question) (correlationId : ℕ) :
    Triple resolver.machine allows logic thread holds
      (resolver.selectBackends question correlationId)
      (fun selection world => holds world ∧
        resolver.Selected question selection) := by
  refine .bind (quiet_triple hcore hstable rfl) fun _ => ?_
  split_ifs
  · refine .bind (quiet_triple hcore hstable rfl) fun decision => ?_
    match decision with
    | none => exact .ret fun _ _ hholds => ⟨hholds, by simp [Selected]⟩
    | some (.error message) =>
      refine .bind (quiet_triple hcore hstable rfl) fun _ => ?_
      exact .ret fun _ _ hholds => ⟨hholds, by simp [Selected]⟩
    | some (.ok .abstain) =>
      refine .bind (quiet_triple hcore hstable rfl) fun _ => ?_
      exact .ret fun _ _ hholds => ⟨hholds, registered_selected rfl⟩
    | some (.ok (.use group)) =>
      refine .bind (quiet_triple hcore hstable rfl) fun _ => ?_
      exact .ret fun _ _ hholds => ⟨hholds, registered_selected rfl⟩
  · exact .ret fun _ _ hholds => ⟨hholds, registered_selected rfl⟩

theorem resolve_triple (query : Message) {ensures : Job ⊕ Reply → World → Prop}
    (hrejected : ∀ world result, holds world →
      ensures (.inr (.rejected result)) world)
    (hcancelled : ∀ world, holds world → ensures (.inr .cancelled) world)
    (hselected : ∀ question correlationId group backends decision,
      query.questions.head? = some question →
      resolver.effectiveGroup question decision = some group →
      (resolver.groupIndex group).isSome = true →
      resolver.backends.lookup group = some backends → 0 < backends →
      Triple resolver.machine allows logic thread holds
        (resolver.resolveIn
          ⟨query, correlationId, group, backends, decision⟩) ensures) :
    Triple resolver.machine allows logic thread holds
      (resolver.resolve query) ensures := by
  have hreject : ∀ correlationId error,
      Triple resolver.machine allows logic thread holds
        (reject correlationId error) ensures := by
    intro correlationId error
    refine (reject_triple hcore hstable correlationId error).post ?_
    rintro _ world _ ⟨hholds, rfl⟩
    exact hrejected world _ hholds
  refine .bind (quiet_triple hcore hstable rfl) fun correlationId => ?_
  refine .bind (quiet_triple hcore hstable rfl) fun _ => ?_
  cases hquestion : query.questions.head? with
  | none => exact hreject correlationId .noRoute
  | some question =>
    refine .bind (fakeIpAnswer_triple hcore hstable query)
      fun synthesized => ?_
    match synthesized with
    | .error error => exact hreject correlationId error
    | .ok (some answer) =>
      refine .bind (quiet_triple hcore hstable rfl) fun _ => ?_
      refine .bind (quiet_triple hcore hstable rfl) fun _ => ?_
      exact .ret fun world _ hholds => hrejected world _ hholds
    | .ok none =>
      refine .bind (selectBackends_triple hcore hstable question
        correlationId) fun selection => ?_
      cases selection with
      | dropped => exact .ret fun world _ h => hcancelled world h.1
      | rejected error =>
        exact (hreject correlationId error).pre fun _ _ h => h.1
      | selected group backends decision =>
        refine .assume (fun _ _ h => h.2 _ _ _ rfl) ?_
        rintro ⟨heffective, hindex, hbackends, hpos⟩
        exact (hselected question correlationId group backends decision
          hquestion heffective hindex hbackends hpos).pre
            fun _ _ h => h.1

end Quiet

end Resolver

end DnsLattice
