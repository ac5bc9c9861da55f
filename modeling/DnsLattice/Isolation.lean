import DnsLattice.ProvenanceRuns

/-!
# Answers, purges and flushes over whole runs

What the provenance of the data means for the callers.  An answer from the
store or from a flight was made for the caller's own group and question.  Once
a purge has returned, nothing which it should have removed is in the store.
Calls which arrive after a flush get no older data, as long as they do not
join a flight which began before the flush had completed.
-/

namespace DnsLattice

open Logic

/-! ## Equal keys -/

theorem groupIndex_inj {resolver : Resolver}
    {group other : UpstreamGroupId} {index : UInt32}
    (h : resolver.groupIndex group = some index)
    (h' : resolver.groupIndex other = some index) : group = other := by
  unfold Resolver.groupIndex at h h'
  split_ifs at h h' with hmem hmem'
  have hlength : resolver.groups.length < 2 ^ 32 := by
    unfold Resolver.groups
    rw [List.length_insertionSort]
    exact resolver.groups_lt
  have hlt := List.idxOf_lt_length_of_mem hmem
  have hlt' := List.idxOf_lt_length_of_mem hmem'
  have hindex := congrArg UInt32.toNat
    (Option.some.inj (h.trans h'.symm))
  simp only [UInt32.toNat_ofNat'] at hindex
  rw [Nat.mod_eq_of_lt (by omega), Nat.mod_eq_of_lt (by omega)] at hindex
  exact (List.idxOf_inj hmem).mp hindex

/-- The first questions of two queries have the same name up to case, the same
type and class, and the queries have the same RD and DO bits. -/
structure SameQuestion (query other : Message) : Prop where
  question : ∃ asked asked', query.questions.head? = some asked ∧
    other.questions.head? = some asked' ∧
    asked.name.eqIgnoreCase asked'.name = true ∧
    typeCode asked.qtype = typeCode asked'.qtype ∧
    classCode asked.qclass = classCode asked'.qclass
  recursionDesired :
    query.header.recursionDesired = other.header.recursionDesired
  dnssecOk : queryDnssecOk query = queryDnssecOk other

theorem sameQuestion_of_cacheKey {resolver : Resolver}
    {group other : UpstreamGroupId} {query asked : Message}
    {key : List UInt8} (h : resolver.cacheKey group query = some key)
    (h' : resolver.cacheKey other asked = some key) :
    group = other ∧ SameQuestion query asked := by
  have hparts : ∀ {group : UpstreamGroupId} {query : Message},
      resolver.cacheKey group query = some key →
      ∃ index question, resolver.groupIndex group = some index ∧
        query.questions.head? = some question ∧
        keyBuf index question.qtype question.qclass
          query.header.recursionDesired (queryDnssecOk query)
          question.name = some key := by
    intro group query h
    unfold Resolver.cacheKey at h
    split_ifs at h
    split at h
    · rename_i index question hindex hquestion
      exact ⟨index, question, hindex, hquestion, h⟩
    · contradiction
  obtain ⟨index, question, hindex, hquestion, hkey⟩ := hparts h
  obtain ⟨index', question', hindex', hquestion', hkey'⟩ := hparts h'
  obtain ⟨rfl, htype, hclass, hrd, hdo, hname⟩ := keyBuf_inj hkey hkey'
  exact ⟨groupIndex_inj hindex hindex',
    ⟨question, question', hquestion, hquestion', hname, htype, hclass⟩,
    hrd, hdo⟩

theorem sameQuestion_refl {query : Message} {question : Question}
    (h : query.questions.head? = some question) :
    SameQuestion query query :=
  ⟨⟨question, question, h, h, by simp [Name.eqIgnoreCase], rfl, rfl⟩, rfl, rfl⟩

/-! ## A small resolver -/

def homeGroup : UpstreamGroupId := ⟨[104, 111, 109, 101]⟩

def homeResolver (cache : CacheConfig) : Resolver where
  policy := fun _ => some homeGroup
  backends := [⟨homeGroup, 1⟩].toAList
  groups_lt := by decide
  cache := cache
  fakeIp := false
  routeHook := false
  observabilitySink := false
  parallelism := 1
  layout := ⟨24, 40, 80, 256, 128⟩
  storeHash := fun _ => 0
  flightHash := fun _ => 0
  instantMax := 2 ^ 96

def smallCache : CacheConfig :=
  { CacheConfig.new with
    maxBytes := 65536
    shards := some 1 }

def askAddress (letter : UInt8) : Message :=
  ⟨⟨1, false, .query, false, false, true, false, .noError⟩,
    [⟨⟨[[letter]]⟩, .a, .in⟩], [], [], []⟩

def addressAnswer (letter : UInt8) : Message :=
  ⟨⟨1, true, .query, false, false, true, true, .noError⟩,
    [⟨⟨[[letter]]⟩, .a, .in⟩],
    [⟨⟨[[letter]]⟩, .a, .in, 300, .a ⟨#[10, 0, 0, 1], rfl⟩⟩], [], []⟩

def moves (count number : ℕ) (input : Input) : List (Move Job Input) :=
  List.replicate count (.run number input)

def isAnswer (check : Message → Answer → Bool) : Job × Reply → Bool
  | (.resolve query, .answered answer _) => check query answer
  | _ => false

def isPurged (scope : Scope) (check : ℕ → Bool) : Job × Reply → Bool
  | (.purge done, .purged epoch _) => decide (done = scope) && check epoch
  | _ => false

theorem ended_of_isAnswer {state : MachineState Op Resp World Job Reply}
    {number : ℕ} {check : Message → Answer → Bool}
    (h : (state.ended number).any (isAnswer check) = true) :
    ∃ query answer lookups, state.ended number =
      some (.resolve query, .answered answer lookups) ∧
      check query answer = true := by
  obtain ⟨⟨job, reply⟩, hended, hcheck⟩ := (Option.any_eq_true _ _).mp h
  cases job with
  | resolve query =>
    cases reply with
    | answered answer lookups =>
      exact ⟨query, answer, lookups, hended, hcheck⟩
    | _ => cases hcheck
  | _ => cases hcheck

theorem ended_of_isPurged {state : MachineState Op Resp World Job Reply}
    {number : ℕ} {scope : Scope} {check : ℕ → Bool}
    (h : (state.ended number).any (isPurged scope check) = true) :
    ∃ epoch removed, state.ended number =
      some (.purge scope, .purged epoch removed) ∧ check epoch = true := by
  obtain ⟨⟨job, reply⟩, hended, hcheck⟩ := (Option.any_eq_true _ _).mp h
  cases job with
  | purge done =>
    cases reply with
    | purged epoch removed =>
      obtain ⟨hdone, hepoch⟩ := Bool.and_eq_true_iff.mp hcheck
      obtain rfl := of_decide_eq_true hdone
      exact ⟨epoch, removed, hended, hepoch⟩
    | _ => cases hcheck
  | _ => cases hcheck

/-! ## Answers -/

/-- Whatever the hashes and the interleaving, the data of an answer came from
an upstream call to the caller's own effective group for the same question. -/
theorem answered_from_own_group_and_question {resolver : Resolver}
    {instant : ℕ} {state : MachineState Op Resp World Job Reply}
    (hreaches : resolver.machine.Reaches .always (resolver.start instant)
      state)
    {number : ℕ} {query : Message} {answer : Answer} {lookups : List Lookup}
    (hended : state.ended number =
      some (.resolve query, .answered answer lookups)) :
    (∃ question, query.questions.head? = some question ∧
      resolver.effectiveGroup question answer.decision =
        some answer.group) ∧
    answer.source.origin.group = answer.group ∧
    SameQuestion answer.source.origin.query query ∧
    ∃ backend returned,
      ⟨answer.source.origin, backend, returned⟩ ∈
        state.world.core.history ∧
      answer.source.Gives resolver query answer.result returned := by
  obtain ⟨task, _, hpost⟩ :=
    (Provenance.holds_of_reaches hreaches).ended hended
  obtain ⟨floor, _, hreply⟩ := hpost
  obtain ⟨⟨question, hquestion, heffective⟩, hsame, _, returned,
    ⟨backend, hreturned⟩, hgives⟩ := hreply answer lookups rfl
  have hown : answer.source.origin.group = answer.group ∧
      SameQuestion answer.source.origin.query query := by
    rcases hsame with ⟨hgroup, hquery⟩ | ⟨key, hkey, hkey'⟩
    · rw [hquery]
      exact ⟨hgroup, sameQuestion_refl hquestion⟩
    · exact sameQuestion_of_cacheKey hkey' hkey
  exact ⟨⟨question, hquestion, heffective⟩, hown.1, hown.2, backend,
    returned, hreturned, hgives⟩

/-- A query in capital letters is answered from the store. -/
theorem answered_from_own_question_in_capitals :
    let resolver := homeResolver smallCache
    ∃ state answer lookups,
      resolver.machine.Reaches .always (resolver.start 0) state ∧
      state.ended 1 =
        some (.resolve (askAddress 65), .answered answer lookups) ∧
      answer.source.origin.query = askAddress 97 ∧
      SameQuestion answer.source.origin.query (askAddress 65) := by
  intro resolver
  let input : Input := .backend (.ok (addressAnswer 97))
  obtain ⟨state, hreaches, hcheck⟩ := Machine.reaches_of_run_any
    (show (resolver.machine.run .always
        (.arrive (.resolve (askAddress 97)) :: moves 23 0 input ++
          .arrive (.resolve (askAddress 65)) :: moves 9 1 input)
        (resolver.start 0)).any
      (fun state => (state.ended 1).any (isAnswer fun query answer =>
        decide (query = askAddress 65 ∧
          answer.source.origin.query = askAddress 97))) = true by
      decide)
  obtain ⟨query, answer, lookups, hended, hdata⟩ := ended_of_isAnswer hcheck
  obtain ⟨rfl, horigin⟩ := of_decide_eq_true hdata
  exact ⟨state, answer, lookups, hreaches, hended, horigin,
    (answered_from_own_group_and_question hreaches hended).2.2.1⟩

/-! ## The store and the flights -/

/-- What is stored under a key, and what a flight of a key has published, was
made from what a backend returned in a call for exactly this key.  The call is
no older than the last flush, or than the flight. -/
theorem stored_and_published_from_own_key {resolver : Resolver}
    {instant : ℕ} {state : MachineState Op Resp World Job Reply}
    (hreaches : resolver.machine.Reaches .always (resolver.start instant)
      state) :
    (∀ key entry, state.world.core.store.Holds key entry →
      resolver.cacheKey entry.origin.group entry.origin.query = some key ∧
      state.world.core.flushed ≤ entry.origin.epoch ∧
      ∃ backend returned,
        ⟨entry.origin, backend, returned⟩ ∈ state.world.core.history ∧
        entry.MadeFrom resolver.cache.ttlPolicy returned) ∧
    ∀ (id : ℕ) (flight : Flight) (outcome : Outcome),
      state.world.core.flights[id]? = some flight →
      flight.state = .done outcome →
      resolver.cacheKey outcome.origin.group outcome.origin.query =
        some flight.key ∧
      flight.floor ≤ outcome.origin.epoch ∧
      ∃ backend returned,
        ⟨outcome.origin, backend, returned⟩ ∈ state.world.core.history ∧
        outcome.MadeFrom resolver.cache.ttlPolicy returned := by
  have hinv := (Provenance.holds_of_reaches hreaches).inv
  constructor
  · intro key entry hholds
    obtain ⟨hfits, _, returned, ⟨backend, hreturned⟩, hmade⟩ :=
      hinv.held key entry hholds
    exact ⟨hfits.key_eq, hfits.floor_le, backend, returned, hreturned, hmade⟩
  · intro id flight outcome hflight hdone
    obtain ⟨hfits, returned, ⟨backend, hreturned⟩, hmade⟩ :=
      hinv.published id flight outcome hflight hdone
    exact ⟨hfits.key_eq, hfits.floor_le, backend, returned, hreturned, hmade⟩

theorem stored_address_from_own_key :
    let resolver := homeResolver smallCache
    ∃ state key entry,
      resolver.machine.Reaches .always (resolver.start 0) state ∧
      state.world.core.store.Holds key entry ∧
      resolver.cacheKey entry.origin.group entry.origin.query = some key := by
  intro resolver
  let key : List UInt8 := [0, 0, 0, 0, 0, 1, 0, 1, 1, 1, 97, 0]
  obtain ⟨state, hreaches, hget⟩ := Machine.reaches_of_run_any
    (show (resolver.machine.run .always
        (.arrive (.resolve (askAddress 97)) ::
          moves 23 0 (.backend (.ok (addressAnswer 97))))
        (resolver.start 0)).any
      (fun state => (state.world.core.store.get 0 key 0).any (·.1.isSome)) =
        true by decide)
  obtain ⟨⟨found, after⟩, hfound, hsome⟩ := Run.exists_of_any hget
  obtain ⟨entry, rfl⟩ := Option.isSome_iff_exists.mp hsome
  have hholds := @Store.Sound.holds_of_get _ _
    (Provenance.holds_of_reaches hreaches).inv.sound key _ _ _ hfound
  exact ⟨state, key, entry, hreaches, hholds,
    ((stored_and_published_from_own_key hreaches).1 key entry hholds).1⟩

/-! ## Purges -/

/-- Once a purge has returned, the store holds nothing in its scope whose
upstream call read the epoch before the purge raised it. -/
theorem nothing_older_after_purge {resolver : Resolver} {instant : ℕ}
    {state : MachineState Op Resp World Job Reply}
    (hreaches : resolver.machine.Reaches .always (resolver.start instant)
      state)
    {number : ℕ} {scope : Scope} {epoch removed : ℕ}
    (hended : state.ended number =
      some (.purge scope, .purged epoch removed))
    {key : List UInt8} {entry : CachedAnswer}
    (hholds : state.world.core.store.Holds key entry)
    (hcovers : scope.covers key = true) :
    epoch ≤ entry.origin.epoch := by
  obtain ⟨task, _, hpost⟩ :=
    (Provenance.holds_of_reaches hreaches).ended hended
  exact (hpost epoch removed rfl).1.holds key hcovers trivial entry hholds

/-- An address is stored again after a flush. -/
theorem nothing_older_after_clear :
    let resolver := homeResolver smallCache
    ∃ state epoch removed key entry,
      resolver.machine.Reaches .always (resolver.start 0) state ∧
      state.ended 1 = some (.purge .all, .purged epoch removed) ∧
      epoch = 1 ∧ state.world.core.store.Holds key entry ∧
      epoch ≤ entry.origin.epoch := by
  intro resolver
  let input : Input := .backend (.ok (addressAnswer 97))
  let key : List UInt8 := [0, 0, 0, 0, 0, 1, 0, 1, 1, 1, 97, 0]
  obtain ⟨state, hreaches, hcheck⟩ := Machine.reaches_of_run_any
    (show (resolver.machine.run .always
        (.arrive (.resolve (askAddress 97)) :: moves 23 0 input ++
          .arrive (.purge .all) :: moves 4 1 input ++
          .arrive (.resolve (askAddress 97)) :: moves 23 2 input)
        (resolver.start 0)).any
      (fun state => (state.ended 1).any (isPurged .all fun epoch =>
          decide (epoch = 1)) &&
        (state.world.core.store.get 0 key 0).any (·.1.isSome)) = true by
      decide)
  obtain ⟨hpurged, hget⟩ := Bool.and_eq_true_iff.mp hcheck
  obtain ⟨epoch, removed, hended, hepoch⟩ := ended_of_isPurged hpurged
  obtain ⟨⟨found, after⟩, hfound, hsome⟩ := Run.exists_of_any hget
  obtain ⟨entry, rfl⟩ := Option.isSome_iff_exists.mp hsome
  have hholds := @Store.Sound.holds_of_get _ _
    (Provenance.holds_of_reaches hreaches).inv.sound key _ _ _ hfound
  exact ⟨state, epoch, removed, key, entry, hreaches, hended,
    of_decide_eq_true hepoch, hholds,
    nothing_older_after_purge hreaches hended hholds rfl⟩

/-! ## Flushes -/

/-- No call joins a flight which began before the last flush that had completed
when the call arrived. -/
def joinsAfterFlush : Condition Op Resp World Job :=
  fun _ born world op resp =>
    match op, resp with
    | .joinOrLead _ (.query _), .follow id =>
        world.core.flights[id]?.all fun flight =>
          decide (born.core.flushed ≤ flight.floor)
    | _, _ => true

theorem joinsAfterFlush_strict : Provenance.Strict joinsAfterFlush := by
  intro job born world key stale id flight hallows hflight
  simpa [joinsAfterFlush, hflight] using hallows

/-- A call which arrives after a flush has returned is answered from upstream
calls which read the epoch after the flush raised it. -/
theorem answered_after_flush {resolver : Resolver} {instant : ℕ}
    {before after : MachineState Op Resp World Job Reply}
    (hbefore : resolver.machine.Reaches joinsAfterFlush
      (resolver.start instant) before)
    (hafter : resolver.machine.Reaches joinsAfterFlush before after)
    {flush epoch removed : ℕ}
    (hflush : before.ended flush = some (.purge .all, .purged epoch removed))
    {number : ℕ} {query : Message} {answer : Answer} {lookups : List Lookup}
    (hlater : before.tasks.length ≤ number)
    (hended : after.ended number =
      some (.resolve query, .answered answer lookups)) :
    epoch ≤ answer.source.origin.epoch := by
  have hholds := Provenance.holds_of_reaches hbefore
  obtain ⟨_, _, hpurged⟩ := hholds.ended hflush
  have hrecorded : epoch ≤ before.world.core.flushed :=
    (hpurged epoch removed rfl).2
  have hborn := (Provenance.valid resolver joinsAfterFlush).born_of_reaches
    (fun _ _ _ h hrely => le_trans h hrely.1.flushed_le) hholds hrecorded
    hafter
  obtain ⟨task, htask, hpost⟩ :=
    (Provenance.holds_of_reaches (hbefore.trans hafter)).ended hended
  obtain ⟨floor, hfloor, hreply⟩ := hpost
  calc epoch ≤ task.born.core.flushed := hborn.2 number task hlater htask
    _ ≤ floor := hfloor joinsAfterFlush_strict
    _ ≤ answer.source.origin.epoch := (hreply answer lookups rfl).floor_le

/-- The second call arrives after the flush and asks the upstream again. -/
theorem answered_after_flush_from_new_call :
    let resolver := homeResolver smallCache
    ∃ before after answer lookups,
      resolver.machine.Reaches joinsAfterFlush (resolver.start 0) before ∧
      resolver.machine.Reaches joinsAfterFlush before after ∧
      after.ended 2 =
        some (.resolve (askAddress 97), .answered answer lookups) ∧
      1 ≤ answer.source.origin.epoch := by
  intro resolver
  let input : Input := .backend (.ok (addressAnswer 97))
  obtain ⟨before, hbefore, hcheck⟩ := Machine.reaches_of_run_any
    (show (resolver.machine.run joinsAfterFlush
        (.arrive (.resolve (askAddress 97)) :: moves 23 0 input ++
          .arrive (.purge .all) :: moves 4 1 input)
        (resolver.start 0)).any
      (fun state => (state.ended 1).any (isPurged .all fun epoch =>
          decide (epoch = 1)) && decide (state.tasks.length = 2) &&
        (resolver.machine.run joinsAfterFlush
          (.arrive (.resolve (askAddress 97)) :: moves 23 2 input) state).any
          fun later => (later.ended 2).any (isAnswer fun query _ =>
            decide (query = askAddress 97))) = true by decide)
  obtain ⟨hfirst, hlater⟩ := Bool.and_eq_true_iff.mp hcheck
  obtain ⟨hpurged, hlength⟩ := Bool.and_eq_true_iff.mp hfirst
  obtain ⟨after, hafter, hanswer⟩ := Machine.reaches_of_run_any hlater
  obtain ⟨epoch, removed, hflush, hepoch⟩ := ended_of_isPurged hpurged
  obtain ⟨query, answer, lookups, hended, hquery⟩ :=
    ended_of_isAnswer hanswer
  obtain rfl := of_decide_eq_true hquery
  obtain rfl := of_decide_eq_true hepoch
  exact ⟨before, after, answer, lookups, hbefore, hafter, hended,
    answered_after_flush hbefore hafter hflush
      (of_decide_eq_true hlength).le hended⟩

/-- A call which arrives after the flush joins a flight whose upstream call
began before it. -/
theorem answered_after_flush_from_old_call :
    let resolver := homeResolver smallCache
    ∃ before after epoch removed answer lookups,
      resolver.machine.Reaches .always (resolver.start 0) before ∧
      resolver.machine.Reaches .always before after ∧
      before.ended 1 = some (.purge .all, .purged epoch removed) ∧
      before.tasks.length ≤ 2 ∧
      after.ended 2 =
        some (.resolve (askAddress 97), .answered answer lookups) ∧
      answer.source.origin.epoch < epoch := by
  intro resolver
  let input : Input := .backend (.ok (addressAnswer 97))
  obtain ⟨before, hbefore, hcheck⟩ := Machine.reaches_of_run_any
    (show (resolver.machine.run .always
        (.arrive (.resolve (askAddress 97)) :: moves 13 0 input ++
          .arrive (.purge .all) :: moves 4 1 input)
        (resolver.start 0)).any
      (fun state => (state.ended 1).any (isPurged .all fun epoch =>
          decide (epoch = 1)) && decide (state.tasks.length ≤ 2) &&
        (resolver.machine.run .always
          (.arrive (.resolve (askAddress 97)) :: moves 11 2 input ++
            moves 10 0 input ++ moves 4 2 input) state).any
          fun later => (later.ended 2).any (isAnswer fun query answer =>
            decide (query = askAddress 97 ∧
              answer.source.origin.epoch = 0))) = true by decide)
  obtain ⟨hfirst, hlater⟩ := Bool.and_eq_true_iff.mp hcheck
  obtain ⟨hpurged, hlength⟩ := Bool.and_eq_true_iff.mp hfirst
  obtain ⟨after, hafter, hanswer⟩ := Machine.reaches_of_run_any hlater
  obtain ⟨epoch, removed, hflush, hepoch⟩ := ended_of_isPurged hpurged
  obtain ⟨query, answer, lookups, hended, hdata⟩ :=
    ended_of_isAnswer hanswer
  obtain ⟨rfl, hold⟩ := of_decide_eq_true hdata
  obtain rfl := of_decide_eq_true hepoch
  exact ⟨before, after, 1, removed, answer, lookups, hbefore, hafter,
    hflush, of_decide_eq_true hlength, hended, by rw [hold]; decide⟩

end DnsLattice
