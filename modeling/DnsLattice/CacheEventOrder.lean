import DnsLattice.CallEventRuns

/-!
# The order of the cache events of a call

The documentation of the sink says when a wait for another call, a stale
answer and a remembered failure are told.  A call which loses its leader and
asks the upstream itself, or which finds a remembered failure at its second
lookup, does not keep to it; every other call does, and then no more failures
than hits are counted.
-/

namespace DnsLattice

def Observed.IsUpstream : Observed → Prop
  | .event (.upstreamAttempt _ _ _) => True
  | .event (.upstreamOutcome _ _ _ _) => True
  | _ => False

structure CacheOrder (id : ℕ) (log : List Observed) : Prop where
  coalesced : ∀ before group after,
    log = before ++ .cache (.coalesced id group) :: after →
    (∃ missed, .event (.cacheMiss id missed) ∈ before) ∧
      ∀ told ∈ log, ¬told.IsUpstream
  failureServed : ∀ before group after,
    log = before ++ .cache (.failureServed id group) :: after →
    (∃ found, .event (.cacheHit id found) ∈ before) ∧
      ∀ told ∈ log, ¬told.IsUpstream
  staleServed : ∀ before group after,
    log = before ++ .cache (.staleServed id group) :: after →
    (∃ found, .event (.cacheHit id found) ∈ before ∨
      .event (.cacheMiss id found) ∈ before) ∧
      ∃ rcode, .event (.completed id rcode) ∈ after

/-- No call waits for a flight whose leader has gone, and no call looks up a
key under which a failure is remembered, unless this is its first lookup. -/
def Undisturbed (history : List (Performed Op Resp World)) : Prop :=
  ∀ earlier performed later, history = earlier ++ performed :: later →
    match performed.act.op with
    | .wait flight _ =>
        ∀ found, performed.before.core.flights[flight]? = some found →
          found.state ≠ .abandoned ∧ found.state ≠ .closed
    | .storeGet key now => Looks (traceOf performed.number earlier) →
        ∀ entry, performed.before.core.store.Holds key entry →
          entry.failure.isSome = true → entry.expires ≤ now
    | _ => True

/-! ## Splits -/

section Split

variable {α : Type} {front rest before after : List α} {value last : α}

theorem split_after (h : front ++ rest = before ++ value :: after)
    (hfront : value ∉ front) : ∃ middle, before = front ++ middle := by
  rcases List.append_eq_append_iff.mp h with
    ⟨middle, hbefore, _⟩ | ⟨middle, hfront', hrest⟩
  · exact ⟨middle, hbefore⟩
  · cases middle with
    | nil => exact ⟨[], by simpa using hfront'.symm⟩
    | cons first others =>
      obtain ⟨rfl, _⟩ := List.cons.inj hrest
      exact absurd (by simp [hfront']) hfront

theorem mem_of_split (h : front ++ [last] = before ++ value :: after)
    (hlast : value ≠ last) : last ∈ after := by
  rcases after.eq_nil_or_concat' with rfl | ⟨others, final, rfl⟩
  · obtain ⟨_, hlast'⟩ := List.append_inj' h rfl
    exact absurd (List.singleton_inj.mp hlast').symm hlast
  · rw [← List.cons_append, ← List.append_assoc] at h
    obtain ⟨_, hlast'⟩ := List.append_inj' h rfl
    simp [List.singleton_inj.mp hlast']

end Split

/-! ## Courses in order -/

theorem CacheOrder.of_events (id : ℕ) (events : List ObserveEvent) :
    CacheOrder id (events.map .event) := by
  have hnone : ∀ before told after,
      events.map Observed.event ≠ before ++ .cache told :: after := by
    intro before told after hlog
    have hmem : Observed.cache told ∈ events.map Observed.event := by
      rw [hlog]
      simp
    simp at hmem
  exact ⟨fun before _ after hlog => absurd hlog (hnone before _ after),
    fun before _ after hlog => absurd hlog (hnone before _ after),
    fun before _ after hlog => absurd hlog (hnone before _ after)⟩

namespace Course

variable {course : Course} {id : ℕ} {query : Message}
  {group : UpstreamGroupId} {result : Except Error Message}
  {routing : List ObserveEvent} {trace : List ResolverAct}

def front (course : Course) (id : ℕ) (query : Message)
    (group : UpstreamGroupId) (routing : List ObserveEvent) :
    List Observed :=
  .event (receivedEvent id query) ::
    (routing.map .event ++ [.event (course.lookupEvent id group)])

def rest (course : Course) (id : ℕ) (group : UpstreamGroupId) :
    List Observed :=
  course.coalescedEvents id group ++
    (failoverEvents id group 0 course.outcomes).map .event ++
    course.notice.observed id group

theorem told_eq :
    .event (receivedEvent id query) ::
        (routing.map .event ++ course.observed id group result) =
      course.front id query group routing ++ (course.rest id group ++
        [.event (terminalEvent id result)]) := by
  simp [front, rest, observed]

theorem cache_notMem_front (told : CacheEvent) :
    .cache told ∉ course.front id query group routing := by
  simp [front]

theorem lookup_mem {told : CacheEvent} {before after : List Observed}
    (h : course.front id query group routing ++ (course.rest id group ++
      [.event (terminalEvent id result)]) = before ++ .cache told :: after) :
    .event (course.lookupEvent id group) ∈ before := by
  obtain ⟨middle, rfl⟩ := split_after h (cache_notMem_front told)
  simp [front]

theorem cache_mem_rest {told : CacheEvent} {before after : List Observed}
    (h : course.front id query group routing ++ (course.rest id group ++
      [.event (terminalEvent id result)]) = before ++ .cache told :: after) :
    .cache told ∈ course.coalescedEvents id group ∨
      .cache told ∈ course.notice.observed id group := by
  have hmem : .cache told ∈ course.front id query group routing ++
      (course.rest id group ++ [.event (terminalEvent id result)]) := by
    rw [h]
    simp
  rcases List.mem_append.mp hmem with hfront | hrest
  · exact absurd hfront (cache_notMem_front told)
  · simpa [rest] using hrest

theorem not_isUpstream (hrouting : ∀ event ∈ routing, event.Routes id)
    (houtcomes : course.outcomes = []) {told : Observed}
    (h : told ∈ course.front id query group routing ++
      (course.rest id group ++ [.event (terminalEvent id result)])) :
    ¬told.IsUpstream := by
  have hcases : told = .event (receivedEvent id query) ∨
      (∃ event ∈ routing, told = .event event) ∨
      told = .event (course.lookupEvent id group) ∨
      told ∈ course.coalescedEvents id group ∨
      told ∈ course.notice.observed id group ∨
      told = .event (terminalEvent id result) := by
    simpa [front, rest, houtcomes, failoverEvents, eq_comm, or_assoc] using h
  rcases hcases with rfl | ⟨event, hevent, rfl⟩ | rfl | hcoalesced |
    hnotice | rfl
  · exact not_false
  · have hroutes := hrouting event hevent
    cases event <;> first | exact hroutes.elim | exact not_false
  · unfold lookupEvent
    split_ifs <;> exact not_false
  · unfold coalescedEvents at hcoalesced
    split_ifs at hcoalesced
    · rw [List.mem_singleton.mp hcoalesced]
      exact not_false
    · cases hcoalesced
  · cases hkind : course.notice <;> rw [hkind] at hnotice
    · cases hnotice
    · rw [List.mem_singleton.mp hnotice]
      exact not_false
    · rw [List.mem_singleton.mp hnotice]
      exact not_false
  · cases result <;> exact not_false

theorem cacheOrder (hfollows : course.Follows result trace)
    (hrouting : ∀ event ∈ routing, event.Routes id)
    (hleader : ¬LosesLeader trace) (hfinds : ¬FindsFailureLater trace) :
    CacheOrder id (.event (receivedEvent id query) ::
      (routing.map .event ++ course.observed id group result)) := by
  rw [told_eq]
  refine ⟨?_, ?_, ?_⟩
  · intro before found after hlog
    have hlookup := lookup_mem hlog
    have hcoalesced : course.coalesced = true := by
      rcases cache_mem_rest hlog with hmem | hmem
      · by_contra hnot
        simp [coalescedEvents, hnot] at hmem
      · cases hkind : course.notice <;>
          simp [hkind, Notice.observed] at hmem
    have hmiss : course.hit = false := by
      by_contra hnot
      have hhit : course.hit = true := by simpa using hnot
      simp [(hfollows.hit hhit).1] at hcoalesced
    have houtcomes : course.outcomes = [] := by
      by_contra hne
      exact hleader (hfollows.tookOver hcoalesced hne)
    refine ⟨⟨group, ?_⟩, fun told => not_isUpstream hrouting houtcomes⟩
    simpa [lookupEvent, hmiss] using hlookup
  · intro before found after hlog
    have hlookup := lookup_mem hlog
    have hnotice : course.notice = .failure := by
      rcases cache_mem_rest hlog with hmem | hmem
      · unfold coalescedEvents at hmem
        split_ifs at hmem <;> simp at hmem
      · cases hkind : course.notice <;>
          simp [hkind, Notice.observed] at hmem ⊢
    obtain ⟨houtcomes, hhit⟩ := hfollows.failure hnotice
    have hhit' := hhit.resolve_right hfinds
    refine ⟨⟨group, ?_⟩, fun told => not_isUpstream hrouting houtcomes⟩
    simpa [lookupEvent, hhit'] using hlookup
  · intro before found after hlog
    have hlookup := lookup_mem hlog
    have hnotice : course.notice = .stale := by
      rcases cache_mem_rest hlog with hmem | hmem
      · unfold coalescedEvents at hmem
        split_ifs at hmem <;> simp at hmem
      · cases hkind : course.notice <;>
          simp [hkind, Notice.observed] at hmem ⊢
    obtain ⟨answer, rfl⟩ := hfollows.stale hnotice
    refine ⟨⟨group, ?_⟩, answer.header.rcode, ?_⟩
    · unfold lookupEvent at hlookup
      split_ifs at hlookup
      · exact Or.inl hlookup
      · exact Or.inr hlookup
    · rw [← List.append_assoc] at hlog
      exact mem_of_split hlog (by simp)

end Course

/-! ## Runs -/

theorem Core.waitResult_abandoned {timed : Bool} {state : FlightState}
    {input : Input} (h : Core.waitResult timed state input = some .abandoned) :
    state = .abandoned ∨ state = .closed := by
  cases state <;> cases input <;> cases timed <;>
    simp [Core.waitResult] at h ⊢

section Runs

variable {resolver : Resolver} {instant number : ℕ}
  {allows : Condition Op Resp World Job}
  {state : MachineState Op Resp World Job Reply}
  {history : List (Performed Op Resp World)}

theorem Undisturbed.of_append {later : List (Performed Op Resp World)}
    (h : Undisturbed (history ++ later)) : Undisturbed history := by
  intro earlier performed rest hhistory
  exact h earlier performed (rest ++ later) (by simp [hhistory])

theorem Undisturbed.not_losesLeader (h : Undisturbed history)
    (hran : Machine.Ran resolver.machine allows (resolver.start instant)
      history state) : ¬LosesLeader (traceOf number history) := by
  rintro ⟨flight, timed, hmem⟩
  obtain ⟨before, after, htrace⟩ := List.append_of_mem hmem
  obtain ⟨earlier, performed, later, hhistory, _, hact, _⟩ :=
    split_of_traceOf htrace
  obtain ⟨_, _, _, hperforms, _⟩ := hran.split hhistory
  obtain ⟨⟨input, hexec⟩, _⟩ := hperforms.exec
  have hstate := h earlier performed later hhistory
  rw [hact] at hstate hexec
  obtain ⟨⟨waited, core⟩, hwait, heq⟩ := Option.map_eq_some_iff.mp hexec
  obtain ⟨rfl, _⟩ := Prod.mk.inj heq
  obtain ⟨found, hfound, hresult, _⟩ := Core.wait_eq_some hwait
  obtain ⟨habandoned, hclosed⟩ := hstate found hfound
  rcases Core.waitResult_abandoned hresult with hgone | hgone
  · exact habandoned hgone
  · exact hclosed hgone

theorem Undisturbed.not_findsFailureLater (h : Undisturbed history)
    (hran : Machine.Ran resolver.machine allows (resolver.start instant)
      history state) : ¬FindsFailureLater (traceOf number history) := by
  rintro ⟨before, key, now, entry, after, htrace, hlooks, hfailure, hfresh⟩
  obtain ⟨earlier, performed, later, hhistory, rfl, hact, rfl⟩ :=
    split_of_traceOf htrace
  obtain ⟨middle, _, hmiddle, hperforms, _⟩ := hran.split hhistory
  obtain ⟨⟨input, hexec⟩, hbefore, _⟩ := hperforms.exec
  have hstate := h earlier performed later hhistory
  rw [hact] at hstate hexec
  obtain ⟨⟨found, core⟩, hget, heq⟩ := Option.map_eq_some_iff.mp hexec
  obtain ⟨rfl, _⟩ := Prod.mk.inj heq
  have hsound := (Provenance.holds_of_reaches hmiddle.reaches).inv.sound
  rw [← hbefore] at hsound
  have hheld := (((Core.storeGet_loses hsound hget).2.1 entry).mp rfl).1
  exact absurd hfresh (not_lt.mpr (hstate hlooks entry hheld hfailure))

theorem Undisturbed.counted_trace_le (h : Undisturbed history)
    (hran : Machine.Ran resolver.machine allows (resolver.start instant)
      history state) (number : ℕ) :
    counted .failureHits (traceOf number history) ≤
      counted .hits (traceOf number history) := by
  induction hran with
  | start => simp [counted]
  | silent hran hsilent ih => exact ih h
  | @op history performed before after hran hperforms ih =>
    have hearlier := ih h.of_append
    by_cases hnumber : performed.number = number
    · subst hnumber
      rw [traceOf_own, counted_append, counted_append]
      obtain ⟨task, _, hasserts⟩ := resolver.eventPath_valid.asserts
        (hran.op hperforms) (rfl : history ++ [performed] =
          history ++ performed :: [])
      by_cases hcount : countsAs .failureHits performed.act = true
      · have hlt : counted .failureHits (traceOf performed.number history) <
            counted .hits (traceOf performed.number history) := by
          obtain ⟨number, unused, before, ⟨op, resp⟩, after⟩ := performed
          cases op <;> simp only [countsAs, Bool.false_eq_true,
            decide_eq_true_eq] at hcount
          subst hcount
          exact hasserts.resolve_right
            (h.of_append.not_findsFailureLater hran)
        have hone : counted .failureHits [performed.act] ≤ 1 := by
          exact List.countP_le_length
        omega
      · have hzero : counted .failureHits [performed.act] = 0 := by
          simpa [counted] using hcount
        omega
    · rw [traceOf_other history hnumber]
      exact hearlier

/-- The order of a trace is the order of the log; without a sink there is
nothing to order. -/
theorem cacheOrder_of_trace (hran : Machine.Ran resolver.machine allows
    (resolver.start instant) history state) {id : ℕ}
    (hid : drawnIds (traceOf number history) = [id])
    (h : CacheOrder id (observed (traceOf number history))) :
    CacheOrder id (observedUnder id state.world.side.log) := by
  rw [observedUnder_of_drawn hran hid]
  split_ifs
  · exact h
  · exact CacheOrder.of_events id []

/-- In every undisturbed run the cache events of each call which has run to
completion are in order, and no more failures than hits are counted. -/
theorem cache_events_in_order
    (hran : Machine.Ran resolver.machine .always (resolver.start instant)
      history state) (hundisturbed : Undisturbed history) :
    (∀ number query reply, state.ended number = some (.resolve query, reply) →
      reply.result?.isSome = true →
      ∃ id, drawnIds (traceOf number history) = [id] ∧
        CacheOrder id (observedUnder id state.world.side.log)) ∧
      state.world.side.counters .failureHits ≤
        state.world.side.counters .hits := by
  constructor
  · intro number query reply hended hresult
    have hreturned := returned_of_ended hran hended
    match reply with
    | .answered answer lookups =>
        obtain ⟨id, course, htold, hfollows⟩ := hreturned
        refine ⟨id, htold.1, cacheOrder_of_trace hran htold.1 ?_⟩
        obtain ⟨_, routing, hrouting, htold⟩ := htold
        rw [htold]
        exact Course.cacheOrder hfollows hrouting
          (hundisturbed.not_losesLeader hran)
          (hundisturbed.not_findsFailureLater hran)
    | .rejected result =>
        obtain ⟨id, htold⟩ := hreturned
        refine ⟨id, htold.1, cacheOrder_of_trace hran htold.1 ?_⟩
        obtain ⟨_, routing, hrouting, htold⟩ := htold
        rw [htold]
        simpa using CacheOrder.of_events id
          (receivedEvent id query :: (routing ++ [terminalEvent id result]))
    | .cancelled => cases hresult
    | .panicked lookups => cases hresult
    | .ended => cases hresult
    | .purged epoch removed => cases hresult
  · have hnoted := Resolver.noted_of_ran hran
    rw [hnoted.counters, hnoted.counters]
    exact countP_le_of_traces history (hundisturbed.counted_trace_le hran)

end Runs

/-! ## Out of order -/

def takenOver : List Observed :=
  [.event (receivedEvent 2 (askAddress 97)),
    .event (.staticRoute 2 (some homeGroup)),
    .event (.cacheMiss 2 homeGroup),
    .cache (.coalesced 2 homeGroup),
    .event (.upstreamAttempt 2 homeGroup 0),
    .event (.upstreamOutcome 2 homeGroup 0 .success),
    .event (.completed 2 .noError)]

def failureAfterMiss : List Observed :=
  [.event (receivedEvent 1 (askAddress 97)),
    .event (.staticRoute 1 (some homeGroup)),
    .event (.cacheMiss 1 homeGroup),
    .cache (.failureServed 1 homeGroup),
    .event (.failed 1 .timeout)]

theorem takenOver_not_cacheOrder : ¬CacheOrder 2 takenOver := by
  intro horder
  obtain ⟨_, hupstream⟩ :=
    horder.coalesced (takenOver.take 3) homeGroup (takenOver.drop 4) rfl
  exact hupstream (.event (.upstreamAttempt 2 homeGroup 0))
    (by simp [takenOver]) trivial

theorem failureAfterMiss_not_cacheOrder : ¬CacheOrder 1 failureAfterMiss := by
  intro horder
  obtain ⟨⟨group, hhit⟩, _⟩ := horder.failureServed
    (failureAfterMiss.take 3) homeGroup (failureAfterMiss.drop 4) rfl
  simp [failureAfterMiss, receivedEvent] at hhit

/-- Whether the task has answered the sample query, has drawn only the id, and
has told the given. -/
def hasTold (number id : ℕ) (told : List Observed)
    (recorded : List (Performed Op Resp World) ×
      MachineState Op Resp World Job Reply) : Bool :=
  (match recorded.2.ended number with
    | some (.resolve query, .answered _ _) =>
        decide (query = askAddress 97)
    | _ => false) &&
    decide (drawnIds (traceOf number recorded.1) = [id]) &&
    decide (observedUnder id recorded.2.world.side.log = told)

theorem ended_of_hasTold {number id : ℕ} {told : List Observed}
    {history : List (Performed Op Resp World)}
    {state : MachineState Op Resp World Job Reply}
    (h : hasTold number id told (history, state) = true) :
    (∃ answer lookups, state.ended number =
      some (.resolve (askAddress 97), .answered answer lookups)) ∧
      drawnIds (traceOf number history) = [id] ∧
      observedUnder id state.world.side.log = told := by
  obtain ⟨hfirst, htold⟩ := Bool.and_eq_true_iff.mp h
  obtain ⟨hended, hid⟩ := Bool.and_eq_true_iff.mp hfirst
  refine ⟨?_, of_decide_eq_true hid, of_decide_eq_true htold⟩
  dsimp only at hended
  split at hended
  · rename_i query answer lookups hsome
    obtain rfl := of_decide_eq_true hended
    exact ⟨answer, lookups, hsome⟩
  · contradiction

/-- A call whose leader is cancelled asks the upstream after it has told of its
wait.  A leader which finds, at its second lookup, that a failure has been
remembered meanwhile serves it after a miss, and more failures than hits are
counted. -/
theorem cache_events_out_of_order :
    (∃ history state answer lookups,
      Machine.Ran (watchedResolver smallCache).machine .always
        ((watchedResolver smallCache).start 0) history state ∧
      state.ended 1 =
        some (.resolve (askAddress 97), .answered answer lookups) ∧
      drawnIds (traceOf 1 history) = [2] ∧
      ¬CacheOrder 2 (observedUnder 2 state.world.side.log)) ∧
    ∃ history state answer lookups,
      Machine.Ran (watchedResolver (failureCache true)).machine .always
        ((watchedResolver (failureCache true)).start 0) history state ∧
      state.ended 1 =
        some (.resolve (askAddress 97), .answered answer lookups) ∧
      drawnIds (traceOf 1 history) = [1] ∧
      ¬CacheOrder 1 (observedUnder 1 state.world.side.log) ∧
      state.world.side.counters .hits <
        state.world.side.counters .failureHits := by
  constructor
  · obtain ⟨history, state, hran, hcheck⟩ := Machine.ran_of_record_any
      (show ((watchedResolver smallCache).machine.record .always
          (.arrive (.resolve (askAddress 97)) :: moves 13 0 .none ++
            .arrive (.resolve (askAddress 97)) :: moves 11 1 .none ++
            moves 5 0 .dropped ++
            moves 18 1 (.backend (.ok (addressAnswer 97))))
          ((watchedResolver smallCache).start 0)).any
        (hasTold 1 2 takenOver) = true by decide)
    obtain ⟨⟨answer, lookups, hended⟩, hid, htold⟩ := ended_of_hasTold hcheck
    refine ⟨history, state, answer, lookups, hran, hended, hid, ?_⟩
    rw [htold]
    exact takenOver_not_cacheOrder
  · obtain ⟨history, state, hran, hcheck⟩ := Machine.ran_of_record_any
      (show ((watchedResolver (failureCache true)).machine.record .always
          (.arrive (.resolve (askAddress 97)) ::
            .arrive (.resolve (askAddress 97)) :: moves 8 1 .none ++
            moves 24 0 (.backend (.error .timeout)) ++ moves 9 1 .none)
          ((watchedResolver (failureCache true)).start 0)).any
        (fun recorded => hasTold 1 1 failureAfterMiss recorded &&
          decide (recorded.2.world.side.counters .hits <
            recorded.2.world.side.counters .failureHits)) = true
        by decide)
    obtain ⟨htold, hcounters⟩ := Bool.and_eq_true_iff.mp hcheck
    obtain ⟨⟨answer, lookups, hended⟩, hid, htold⟩ := ended_of_hasTold htold
    refine ⟨history, state, answer, lookups, hran, hended, hid, ?_,
      of_decide_eq_true hcounters⟩
    rw [htold]
    exact failureAfterMiss_not_cacheOrder

/-! ## An undisturbed run -/

def Performed.looks (performed : Performed Op Resp World) : Bool :=
  match performed.act.op with
  | .storeGet _ _ => true
  | _ => false

def Performed.waits (performed : Performed Op Resp World) : Bool :=
  match performed.act.op with
  | .wait _ _ => true
  | _ => false

def Simple (history : List (Performed Op Resp World)) : Prop :=
  (∀ performed ∈ history, performed.waits = false) ∧
    history.Pairwise fun first second =>
      ¬(first.looks = true ∧ second.looks = true ∧
        first.number = second.number)

instance (history : List (Performed Op Resp World)) :
    Decidable (Simple history) :=
  inferInstanceAs (Decidable (_ ∧ _))

theorem Simple.undisturbed {history : List (Performed Op Resp World)}
    (h : Simple history) : Undisturbed history := by
  intro earlier performed later hhistory
  have hwaits := h.1 performed (by simp [hhistory])
  split
  · rename_i flight timed hop
    simp [Performed.waits, hop] at hwaits
  · rename_i key now hop
    rintro ⟨key', now', found, hmem⟩
    obtain ⟨first, hfirst, hnumber, hact⟩ := mem_traceOf.mp hmem
    have hpairs := h.2
    rw [hhistory, List.pairwise_append] at hpairs
    refine absurd ⟨?_, ?_, hnumber⟩
      (hpairs.2.2 first hfirst performed List.mem_cons_self)
    · simp [Performed.looks, hact]
    · simp [Performed.looks, hop]
  · trivial

/-- Without coalescing the second call hits the failure of the first. -/
theorem remembered_failure_in_order :
    let resolver := watchedResolver (failureCache false)
    ∃ history state answer lookups id,
      Machine.Ran resolver.machine .always (resolver.start 0) history state ∧
      Undisturbed history ∧
      state.ended 1 =
        some (.resolve (askAddress 97), .answered answer lookups) ∧
      drawnIds (traceOf 1 history) = [id] ∧
      CacheOrder id (observedUnder id state.world.side.log) ∧
      0 < state.world.side.counters .failureHits ∧
      state.world.side.counters .failureHits ≤
        state.world.side.counters .hits := by
  intro resolver
  obtain ⟨history, state, hran, hcheck⟩ := Machine.ran_of_record_any
    (show (resolver.machine.record .always
        (.arrive (.resolve (askAddress 97)) ::
          moves 17 0 (.backend (.error .timeout)) ++
          .arrive (.resolve (askAddress 97)) :: moves 11 1 .none)
        (resolver.start 0)).any
      (fun recorded => (recorded.2.ended 1).any
          (isAnswer fun query _ => decide (query = askAddress 97)) &&
        decide (Simple recorded.1 ∧
          0 < recorded.2.world.side.counters .failureHits)) = true
      by decide)
  obtain ⟨hanswer, hsimple⟩ := Bool.and_eq_true_iff.mp hcheck
  obtain ⟨query, answer, lookups, hended, hquery⟩ := ended_of_isAnswer hanswer
  obtain rfl := of_decide_eq_true hquery
  obtain ⟨hsimple, hfailures⟩ := of_decide_eq_true hsimple
  obtain ⟨horder, hcounters⟩ :=
    cache_events_in_order hran hsimple.undisturbed
  obtain ⟨id, hid, hlog⟩ := horder 1 (askAddress 97) _ hended rfl
  exact ⟨history, state, answer, lookups, id, hran, hsimple.undisturbed,
    hended, hid, hlog, hfailures, hcounters⟩

end DnsLattice
