import DnsLattice.Isolation
import DnsLattice.OwnershipRuns

/-!
# What coalescing protects

As long as no two keys meet under one hash in the registry of flights, at most
one failover loop for a key runs at a time, no query starts one while a fresh
entry is stored, and a failure never replaces an answer which could still be
served.  An expired answer is served as long as no query that holds one joins
the flight of a prefetch, which publishes its failure.
-/

namespace DnsLattice

/-- No two keys which meet in the registry have the same hash: nobody leads a
flight which is not registered. -/
def noCollision : Condition Op Resp World Job :=
  fun _ _ _ op resp =>
    match op, resp with
    | .joinOrLead _ _, .lead guard => guard.registered
    | _, _ => true

theorem noCollision_noPrivate : Ownership.NoPrivate noCollision :=
  fun _ _ _ _ _ _ h => h

/-! ## Failover loops -/

/-- With coalescing, at most one failover loop for a key runs at any time, and
no loop of a query starts while a fresh entry is stored under the key. -/
theorem one_loop_for_each_key {resolver : Resolver}
    (hcoalesce : resolver.cache.coalesce = true)
    (hstore : resolver.cache.storeEnabled = true) {instant : ℕ}
    {state : MachineState Op Resp World Job Reply}
    (hreaches : resolver.machine.Reaches noCollision
      (resolver.start instant) state) (key : List UInt8) :
    (Ownership.loopsFor resolver state.world.core key).length ≤ 1 ∧
      ∀ number job group query entry,
        state.next number = some (job, .beginCall group query) →
        Ownership.queryDriven job = true →
        resolver.cacheKey group query = some key →
        state.world.core.store.Holds key entry →
        entry.expires ≤ state.world.core.clock := by
  have hholds := Ownership.holds_of_reaches noCollision_noPrivate hreaches
  refine ⟨hholds.inv.single hcoalesce key, ?_⟩
  intro number job group query entry hnext hdriven hkey hheld
  obtain ⟨born, hasserts⟩ := (Ownership.valid resolver
    noCollision_noPrivate).asserts_of_next hholds hnext
  have hstored : resolver.storedKey group query = some key := by
    rw [Resolver.storedKey, if_pos hstore, hkey]
  exact hasserts hcoalesce hdriven key entry hstored hheld

def staleCache : CacheConfig :=
  { smallCache with
    serveStale := some .new
    prefetch := some (Prefetch.new.setMinHits 1) }

/-- The key of the question for the address of the name `a`. -/
def addressKey : List UInt8 := [0, 0, 0, 0, 0, 1, 0, 1, 1, 1, 97, 0]

def foundAddress (state : MachineState Op Resp World Job Reply) :
    Option CachedAnswer :=
  match state.world.core.store.get 0 addressKey state.world.core.clock with
  | .ok (found, _) => found
  | _ => none

theorem holds_of_foundAddress {resolver : Resolver} {instant : ℕ}
    {allows : Condition Op Resp World Job}
    {state : MachineState Op Resp World Job Reply}
    (hreaches : resolver.machine.Reaches allows (resolver.start instant)
      state) (hhash : resolver.storeHash addressKey = 0)
    {entry : CachedAnswer} :
    foundAddress state = some entry ↔
      state.world.core.store.Holds addressKey entry ∧
        state.world.core.clock < entry.staleUntil := by
  have hsound := (Provenance.holds_of_reaches hreaches).inv.sound
  obtain ⟨found, after, hget, _, hfound, _⟩ :=
    hsound.get_holds addressKey state.world.core.clock
  rw [hhash] at hget
  unfold foundAddress
  rw [hget]
  exact hfound entry

def asksUpstream (state : MachineState Op Resp World Job Reply)
    (number : ℕ) : Bool :=
  match state.next number with
  | some (.resolve query, .beginCall group asked) =>
      decide (query = askAddress 97 ∧ group = homeGroup ∧
        asked = askAddress 97)
  | _ => false

theorem next_of_asksUpstream
    {state : MachineState Op Resp World Job Reply} {number : ℕ}
    (h : asksUpstream state number = true) :
    state.next number = some (.resolve (askAddress 97),
      .beginCall homeGroup (askAddress 97)) := by
  unfold asksUpstream at h
  split at h
  · rename_i query group asked hnext
    obtain ⟨rfl, rfl, rfl⟩ := of_decide_eq_true h
    exact hnext
  · contradiction

/-- A call is about to ask the upstream again because the stored answer has
expired. -/
theorem one_loop_after_expiry :
    let resolver := homeResolver staleCache
    ∃ state entry,
      resolver.machine.Reaches noCollision (resolver.start 0) state ∧
      state.next 1 = some (.resolve (askAddress 97),
        .beginCall homeGroup (askAddress 97)) ∧
      state.world.core.store.Holds addressKey entry ∧
      (Ownership.loopsFor resolver state.world.core addressKey).length ≤ 1 ∧
      entry.expires ≤ state.world.core.clock := by
  intro resolver
  obtain ⟨state, hreaches, hcheck⟩ := Machine.reaches_of_run_any
    (show (resolver.machine.run noCollision
        (.arrive (.resolve (askAddress 97)) ::
          moves 23 0 (.backend (.ok (addressAnswer 97))) ++
          .tick (.advance (310 * second)) ::
          .arrive (.resolve (askAddress 97)) :: moves 13 1 .none)
        (resolver.start 0)).any
      (fun state => asksUpstream state 1 && (foundAddress state).isSome) =
        true by decide)
  obtain ⟨hasks, hfound⟩ := Bool.and_eq_true_iff.mp hcheck
  have hnext := next_of_asksUpstream hasks
  obtain ⟨entry, hentry⟩ := Option.isSome_iff_exists.mp hfound
  have hheld := ((holds_of_foundAddress hreaches rfl).mp hentry).1
  obtain ⟨hone, hexpired⟩ := one_loop_for_each_key rfl (by decide)
    hreaches addressKey
  exact ⟨state, entry, hreaches, hnext, hheld, hone,
    hexpired 1 _ _ _ entry hnext rfl (by decide) hheld⟩

/-! ## Failures -/

/-- With coalescing, a failure is never stored over an answer which is fresh or
could still be served. -/
theorem failure_replaces_nothing_good {resolver : Resolver}
    (hcoalesce : resolver.cache.coalesce = true) {instant : ℕ}
    {state : MachineState Op Resp World Job Reply}
    (hreaches : resolver.machine.Reaches noCollision
      (resolver.start instant) state)
    {number : ℕ} {job : Job} {key : List UInt8} {failure : CachedAnswer}
    {now : ℕ} {allowed : Bool}
    (hnext : state.next number =
      some (job, .insertUnlock key failure now allowed))
    (hfailure : failure.failure.isSome = true) :
    ¬∃ answer, state.world.core.store.Holds key answer ∧
      answer.failure = none ∧
      (state.world.core.clock < answer.expires ∨
        resolver.cache.serveStale.isSome = true ∧
          state.world.core.clock < answer.staleUntil) := by
  rintro ⟨answer, hheld, hanswer, hgood⟩
  obtain ⟨born, hasserts⟩ := (Ownership.valid resolver
    noCollision_noPrivate).asserts_of_next
      (Ownership.holds_of_reaches noCollision_noPrivate hreaches) hnext
  obtain ⟨hexpired, hwindow⟩ :=
    hasserts hcoalesce hfailure answer hheld hanswer
  rcases hgood with hfresh | ⟨hserve, hstale⟩
  · exact absurd hfresh (not_lt.mpr hexpired)
  · exact absurd hstale (not_lt.mpr (hwindow hserve))

def failureCache (coalesce : Bool) : CacheConfig :=
  { smallCache with
    coalesce := coalesce
    failureCache := some .new }

/-- The operation which stores a failure over what is found under the sample
key. -/
def storesFailure (state : MachineState Op Resp World Job Reply)
    (number : ℕ) : Bool :=
  match state.next number with
  | some (.resolve query, .insertUnlock key failure _ allowed) =>
      decide (query = askAddress 97 ∧ key = addressKey ∧
        failure.failure.isSome = true ∧ allowed = true)
  | _ => false

theorem next_of_storesFailure
    {state : MachineState Op Resp World Job Reply} {number : ℕ}
    (h : storesFailure state number = true) :
    ∃ failure now, state.next number = some (.resolve (askAddress 97),
      .insertUnlock addressKey failure now true) ∧
      failure.failure.isSome = true := by
  unfold storesFailure at h
  split at h
  · rename_i query key failure now allowed hnext
    obtain ⟨rfl, rfl, hfailure, rfl⟩ := of_decide_eq_true h
    exact ⟨failure, now, hnext, hfailure⟩
  · contradiction

def Op.stores (entry : CachedAnswer) : Op → Bool
  | .insertUnlock _ stored _ _ => decide (stored = entry)
  | _ => false

/-- The leader stores its failure, and nothing good is there. -/
theorem failure_replaces_nothing_of_leader :
    let resolver := homeResolver (failureCache true)
    ∃ state failure now,
      resolver.machine.Reaches noCollision (resolver.start 0) state ∧
      state.next 0 = some (.resolve (askAddress 97),
        .insertUnlock addressKey failure now true) ∧
      failure.failure.isSome = true ∧
      ¬∃ answer, state.world.core.store.Holds addressKey answer ∧
        answer.failure = none ∧
        (state.world.core.clock < answer.expires ∨
          resolver.cache.serveStale.isSome = true ∧
            state.world.core.clock < answer.staleUntil) := by
  intro resolver
  obtain ⟨state, hreaches, hcheck⟩ := Machine.reaches_of_run_any
    (show (resolver.machine.run noCollision
        (.arrive (.resolve (askAddress 97)) ::
          moves 19 0 (.backend (.error .timeout))) (resolver.start 0)).any
      (fun state => storesFailure state 0) = true by decide)
  obtain ⟨failure, now, hnext, hfailure⟩ := next_of_storesFailure hcheck
  exact ⟨state, failure, now, hreaches, hnext, hfailure,
    failure_replaces_nothing_good rfl hreaches hnext hfailure⟩

/-- Without coalescing, the failure of one call replaces the fresh answer which
another has stored since. -/
theorem failure_replaces_fresh_answer :
    let resolver := homeResolver (failureCache false)
    ∃ state after failure answer now,
      resolver.machine.Reaches .always (resolver.start 0) state ∧
      state.next 1 = some (.resolve (askAddress 97),
        .insertUnlock addressKey failure now true) ∧
      failure.failure.isSome = true ∧
      state.world.core.store.Holds addressKey answer ∧
      answer.failure = none ∧ state.world.core.clock < answer.expires ∧
      resolver.machine.Step .always state after ∧
      after.world.core.store.Holds addressKey failure ∧
      ¬after.world.core.store.Holds addressKey answer := by
  intro resolver
  obtain ⟨state, hreaches, hcheck⟩ := Machine.reaches_of_run_any
    (show (resolver.machine.run .always
        (.arrive (.resolve (askAddress 97)) ::
          .arrive (.resolve (askAddress 97)) ::
          moves 9 1 .none ++ moves 17 0 (.backend (.ok (addressAnswer 97))) ++
          moves 6 1 (.backend (.error .timeout))) (resolver.start 0)).any
      (fun state => storesFailure state 1 &&
        ((foundAddress state).any fun answer =>
          decide (answer.failure = none ∧
            state.world.core.clock < answer.expires) &&
          (resolver.machine.step .always state (.run 1 .none)).any
            fun after => (foundAddress after).any fun found =>
              (state.next 1).any (·.2.stores found) &&
                decide (after.world.core.clock < answer.staleUntil))) =
        true by decide)
  obtain ⟨hstores, hgood⟩ := Bool.and_eq_true_iff.mp hcheck
  obtain ⟨failure, now, hnext, hfailure⟩ := next_of_storesFailure hstores
  obtain ⟨answer, hfound, hgood⟩ := (Option.any_eq_true _ _).mp hgood
  obtain ⟨hfresh, hgood⟩ := Bool.and_eq_true_iff.mp hgood
  obtain ⟨after, hstep, hgood⟩ := (Option.any_eq_true _ _).mp hgood
  obtain ⟨found, hafter, hgood⟩ := (Option.any_eq_true _ _).mp hgood
  rw [hnext] at hgood
  obtain ⟨hstored, hwindow⟩ := Bool.and_eq_true_iff.mp hgood
  obtain rfl : failure = found := of_decide_eq_true hstored
  have hwindow := of_decide_eq_true hwindow
  obtain ⟨hanswer, hclock⟩ := of_decide_eq_true hfresh
  have hstep' : resolver.machine.Step .always state after := ⟨_, hstep⟩
  have hreaches' := hreaches.tail hstep'
  refine ⟨state, after, failure, answer, now, hreaches, hnext, hfailure,
    ((holds_of_foundAddress hreaches rfl).mp hfound).1, hanswer, hclock,
    hstep', ((holds_of_foundAddress hreaches' rfl).mp hafter).1, ?_⟩
  intro hheld
  obtain rfl := Option.some.inj (hafter.symm.trans
    ((holds_of_foundAddress hreaches' rfl).mpr ⟨hheld, hwindow⟩))
  simp [hanswer] at hfailure

/-! ## Expired answers -/

/-- No two keys meet under one hash, no query which holds an expired answer
joins the flight of a prefetch, and the end of each recheck window is an
instant of the platform. -/
def staleJoinsQueries : Condition Op Resp World Job :=
  fun job born world op resp =>
    noCollision job born world op resp &&
      match op, resp with
      | .joinOrLead _ (.query true), .follow id =>
          world.core.flights[id]?.all fun flight => !flight.prefetch
      | .addInstant _ _, none => false
      | _, _ => true

theorem staleJoinsQueries_noPrivate :
    Ownership.NoPrivate staleJoinsQueries :=
  fun _ _ _ _ _ _ h => (Bool.and_eq_true_iff.mp h).1

theorem staleJoinsQueries_careful : Ownership.Careful staleJoinsQueries where
  follows := by
    intro job born world key id flight hallows hflight
    simpa [staleJoinsQueries, hflight] using (Bool.and_eq_true_iff.mp hallows).2
  instants := fun _ _ _ _ _ => rfl

/-- A call which has found an expired answer inside its window, and ends while
that answer is still stored, returns a good answer of the upstream or the
expired one. -/
theorem expired_answer_is_served {resolver : Resolver}
    (hserve : resolver.cache.serveStale.isSome = true) {instant : ℕ}
    {state : MachineState Op Resp World Job Reply}
    (hreaches : resolver.machine.Reaches staleJoinsQueries
      (resolver.start instant) state)
    {number : ℕ} {query : Message} {reply : Reply}
    (hended : state.ended number = some (.resolve query, reply)) :
    (∀ lookups, reply ≠ .panicked lookups) ∧
      ∀ answer lookups entry key, reply = .answered answer lookups →
        Ownership.StaleFound lookups entry →
        resolver.storedKey answer.group query = some key →
        state.world.core.store.Holds key entry →
        Ownership.Served entry answer := by
  obtain ⟨task, _, hpost⟩ := (Ownership.holds_of_reaches
    staleJoinsQueries_noPrivate hreaches).ended hended
  obtain ⟨hpanicked, hreply⟩ := hpost staleJoinsQueries_careful
  refine ⟨hpanicked, ?_⟩
  intro answer lookups entry key hanswer hfound hkey hheld
  exact (hreply answer lookups hanswer hserve entry key hfound hkey).2 hheld

/-- The reply to the sample question, if the call has found an expired answer
which is still stored. -/
def expiredReply (state : MachineState Op Resp World Job Reply)
    (number : ℕ) (check : Answer → Bool) : Bool :=
  match state.ended number, foundAddress state with
  | some (.resolve query, .answered answer lookups), some entry =>
      decide (query = askAddress 97 ∧ answer.group = homeGroup) &&
        check answer && lookups.any fun lookup =>
          decide (lookup.found = some entry ∧ entry.failure = none ∧
            entry.expires ≤ lookup.now ∧ lookup.now < entry.staleUntil)
  | _, _ => false

theorem ended_of_expiredReply
    {state : MachineState Op Resp World Job Reply} {number : ℕ}
    {check : Answer → Bool} (h : expiredReply state number check = true) :
    ∃ answer lookups entry, state.ended number =
      some (.resolve (askAddress 97), .answered answer lookups) ∧
      answer.group = homeGroup ∧ check answer = true ∧
      Ownership.StaleFound lookups entry ∧
      foundAddress state = some entry := by
  unfold expiredReply at h
  split at h
  · rename_i query answer lookups entry hended hfound
    obtain ⟨hfirst, hlookup⟩ := Bool.and_eq_true_iff.mp h
    obtain ⟨hquery, hcheck⟩ := Bool.and_eq_true_iff.mp hfirst
    obtain ⟨rfl, hgroup⟩ := of_decide_eq_true hquery
    obtain ⟨lookup, hmem, hlookup⟩ := List.any_eq_true.mp hlookup
    exact ⟨answer, lookups, entry, hended, hgroup, hcheck,
      ⟨lookup, hmem, of_decide_eq_true hlookup⟩, hfound⟩
  · contradiction

theorem homeResolver_storedKey :
    (homeResolver staleCache).storedKey homeGroup (askAddress 97) =
      some addressKey := by
  decide

/-- The upstream fails and the leader serves the expired answer. -/
theorem expired_answer_is_served_by_leader :
    let resolver := homeResolver staleCache
    ∃ state answer lookups entry,
      resolver.machine.Reaches staleJoinsQueries (resolver.start 0) state ∧
      state.ended 1 = some (.resolve (askAddress 97),
        .answered answer lookups) ∧
      Ownership.StaleFound lookups entry ∧
      state.world.core.store.Holds addressKey entry ∧
      Ownership.Served entry answer := by
  intro resolver
  obtain ⟨state, hreaches, hcheck⟩ := Machine.reaches_of_run_any
    (show (resolver.machine.run staleJoinsQueries
        (.arrive (.resolve (askAddress 97)) ::
          moves 23 0 (.backend (.ok (addressAnswer 97))) ++
          .tick (.advance (310 * second)) ::
          .arrive (.resolve (askAddress 97)) ::
          moves 27 1 (.backend (.error .timeout))) (resolver.start 0)).any
      (fun state => expiredReply state 1 fun _ => true) = true by
      decide)
  obtain ⟨answer, lookups, entry, hended, hgroup, _, hstale, hfound⟩ :=
    ended_of_expiredReply hcheck
  have hheld := ((holds_of_foundAddress hreaches rfl).mp hfound).1
  exact ⟨state, answer, lookups, entry, hreaches, hended, hstale, hheld,
    (expired_answer_is_served rfl hreaches hended).2 answer lookups entry
      addressKey rfl hstale (hgroup ▸ homeResolver_storedKey) hheld⟩

/-- A prefetch leads the flight when the answer expires.  A call which finds
the expired answer follows that flight and gets the error of the upstream. -/
theorem expired_answer_lost_to_prefetch :
    let resolver := homeResolver staleCache
    ∃ state answer lookups entry,
      resolver.machine.Reaches .always (resolver.start 0) state ∧
      state.ended 3 = some (.resolve (askAddress 97),
        .answered answer lookups) ∧
      Ownership.StaleFound lookups entry ∧
      resolver.storedKey answer.group (askAddress 97) = some addressKey ∧
      state.world.core.store.Holds addressKey entry ∧
      state.world.core.clock < entry.staleUntil ∧
      answer.result = .error .timeout := by
  intro resolver
  obtain ⟨state, hreaches, hcheck⟩ := Machine.reaches_of_run_any
    (show (resolver.machine.run .always
        (.arrive (.resolve (askAddress 97)) ::
          moves 23 0 (.backend (.ok (addressAnswer 97))) ++
          .tick (.advance (280 * second)) ::
          .arrive (.resolve (askAddress 97)) ::
          moves 16 1 (.runtime true) ++ moves 6 2 .none ++
          .tick (.advance (30 * second)) ::
          .arrive (.resolve (askAddress 97)) ::
          moves 12 3 (.runtime true) ++
          moves 7 2 (.backend (.error .timeout)) ++ moves 3 3 .none)
        (resolver.start 0)).any
      (fun state => expiredReply state 3 fun answer =>
        decide (answer.result = .error .timeout)) = true by decide)
  obtain ⟨answer, lookups, entry, hended, hgroup, herror, hstale, hfound⟩ :=
    ended_of_expiredReply hcheck
  obtain ⟨hheld, hwindow⟩ := (holds_of_foundAddress hreaches rfl).mp hfound
  exact ⟨state, answer, lookups, entry, hreaches, hended, hstale,
    hgroup ▸ homeResolver_storedKey, hheld, hwindow,
    of_decide_eq_true herror⟩

end DnsLattice
