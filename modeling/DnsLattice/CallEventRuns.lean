import DnsLattice.CallEventCode
import DnsLattice.Coalescing

/-!
# The events of a call in a run

The log of the sink is what all traces have told, in the order of the history.
Every event carries the id which its own task has drawn, and no id is drawn
twice; so the events of one call are those of its own trace.
-/

namespace DnsLattice

namespace Resolver

variable {resolver : Resolver} {task unused : ℕ} {world after : World}
  {op : Op} {input : Input} {resp : Resp op}

structure Notes (resolver : Resolver) (world after : World)
    (act : ResolverAct) : Prop where
  log : after.side.log = world.side.log ++
    if resolver.observabilitySink then observed [act] else []
  drawn : ∀ id ∈ drawnIds [act], id = world.side.nextCorrelationId
  next : after.side.nextCorrelationId =
    world.side.nextCorrelationId + (drawnIds [act]).length
  counters : ∀ counter, after.side.counters counter =
    world.side.counters counter + counted counter [act]

theorem Notes.of_quiet {act : ResolverAct} (hact : act.op.Quiet)
    (hlog : after.side.log = world.side.log)
    (hnext : after.side.nextCorrelationId = world.side.nextCorrelationId)
    (hcounters : after.side.counters = world.side.counters) :
    Notes resolver world after act := by
  have hacts : ∀ other ∈ [act], other.op.Quiet := by simpa using hact
  refine ⟨?_, ?_, ?_, ?_⟩
  · simp [hlog, observed_of_quiet hacts]
  · simp [drawnIds_of_quiet hacts]
  · simp [hnext, drawnIds_of_quiet hacts]
  · intro counter
    simp [hcounters, counted_of_quiet hacts]

theorem Notes.of_side {act : ResolverAct} (hact : act.op.Quiet)
    (hside : after.side = world.side) : Notes resolver world after act :=
  .of_quiet hact (by rw [hside]) (by rw [hside]) (by rw [hside])

theorem side_of_withCore? {α : Type} {result : Option (α × Core)} {value : α}
    (h : world.withCore? result = some (value, after)) :
    after.side = world.side := by
  obtain ⟨⟨found, core⟩, _, heq⟩ := Option.map_eq_some_iff.mp h
  obtain ⟨_, rfl⟩ := Prod.mk.inj heq
  rfl

theorem record_log (side : Side) (told : Observed) :
    (side.record resolver told).log = side.log ++
      if resolver.observabilitySink then [told] else [] := by
  unfold Side.record
  split_ifs <;> simp

theorem record_next (side : Side) (told : Observed) :
    (side.record resolver told).nextCorrelationId =
      side.nextCorrelationId := by
  unfold Side.record
  split_ifs <;> rfl

theorem record_counters (side : Side) (told : Observed) (counter : Counter) :
    (side.record resolver told).counters counter = side.counters counter := by
  unfold Side.record
  split_ifs <;> rfl

theorem exec_notes
    (h : resolver.exec task unused world op input = some (resp, after)) :
    Notes resolver world after ⟨op, resp⟩ := by
  cases op with
  | nextCorrelationId =>
    obtain ⟨rfl, rfl⟩ := Prod.mk.inj (Option.some.inj h)
    exact ⟨by simp [observed, observedAct], by simp [drawnIds, drawnId],
      rfl, fun _ => rfl⟩
  | emit event =>
    obtain ⟨rfl, rfl⟩ := Prod.mk.inj (Option.some.inj h)
    exact ⟨record_log _ _, by simp [drawnIds, drawnId],
      record_next _ _, record_counters _ _⟩
  | emitCache event =>
    obtain ⟨rfl, rfl⟩ := Prod.mk.inj (Option.some.inj h)
    exact ⟨record_log _ _, by simp [drawnIds, drawnId],
      record_next _ _, record_counters _ _⟩
  | count counter =>
    obtain ⟨rfl, rfl⟩ := Prod.mk.inj (Option.some.inj h)
    refine ⟨by simp [observed, observedAct], by simp [drawnIds, drawnId],
      rfl, ?_⟩
    intro other
    by_cases heq : other = counter
    · subst heq
      simp [counted, countsAs]
    · simp [counted, countsAs, heq, Ne.symm heq]
  | fakeIpAnswer query =>
    cases input <;> cases h
    exact .of_side trivial rfl
  | hookSelect question group =>
    cases input <;> cases h <;> exact .of_side trivial rfl
  | tryCurrent =>
    cases input <;> cases h
    exact .of_side trivial rfl
  | callBackend origin backend =>
    cases input <;> cases h <;> exact .of_side trivial rfl
  | scheduled =>
    cases input <;> cases h <;> exact .of_side trivial rfl
  | lockShard key =>
    obtain ⟨core, _, heq⟩ := Option.bind_eq_some_iff.mp h
    obtain ⟨_, rfl⟩ := Prod.mk.inj (Option.some.inj heq)
    exact .of_side trivial rfl
  | lockBackground =>
    unfold exec at h
    split_ifs at h
    obtain ⟨_, rfl⟩ := Prod.mk.inj (Option.some.inj h)
    exact .of_quiet trivial rfl rfl rfl
  | storeGet key now => exact .of_side trivial (side_of_withCore? h)
  | storeForgetFailure key => exact .of_side trivial (side_of_withCore? h)
  | insertUnlock key entry now allowed =>
    exact .of_side trivial (side_of_withCore? h)
  | wait flight timed => exact .of_side trivial (side_of_withCore? h)
  | sweepShard scope index => exact .of_side trivial (side_of_withCore? h)
  | _ =>
    obtain ⟨_, rfl⟩ := Prod.mk.inj (Option.some.inj h)
    exact .of_quiet trivial rfl rfl rfl

/-! ## Histories -/

structure Noted (resolver : Resolver)
    (history : List (Performed Op Resp World)) (world : World) : Prop where
  log : world.side.log = if resolver.observabilitySink then
    observed (history.map Performed.act) else []
  drawn : ∀ performed ∈ history, ∀ id ∈ drawnId performed.act,
    id < world.side.nextCorrelationId
  unique : ∀ first ∈ history, ∀ second ∈ history, ∀ id ∈ drawnId first.act,
    id ∈ drawnId second.act → first.number = second.number
  counters : ∀ counter, world.side.counters counter =
    counted counter (history.map Performed.act)

variable {history : List (Performed Op Resp World)}

theorem Noted.initial (instant : ℕ) :
    Noted resolver [] (resolver.initial instant) where
  log := by
    change [] = _
    simp [observed]
  drawn := by simp
  unique := by simp
  counters := fun _ => rfl

theorem Noted.performs (h : Noted resolver history world)
    {performed : Performed Op Resp World}
    (hnotes : Notes resolver world after performed.act) :
    Noted resolver (history ++ [performed]) after := by
  have hlast : ∀ id ∈ drawnId performed.act,
      id = world.side.nextCorrelationId ∧
        after.side.nextCorrelationId = id + 1 := by
    intro id hid
    have hids : drawnIds [performed.act] = [id] := by
      simp [drawnIds, Option.mem_def.mp hid]
    have heq := hnotes.drawn id (by simp [hids])
    exact ⟨heq, by rw [hnotes.next, hids, heq]; rfl⟩
  have hle : world.side.nextCorrelationId ≤ after.side.nextCorrelationId := by
    rw [hnotes.next]
    omega
  refine ⟨?_, ?_, ?_, ?_⟩
  · rw [hnotes.log, h.log]
    split_ifs <;> simp
  · intro other hother id hid
    rcases List.mem_append.mp hother with hmem | hmem
    · exact (h.drawn other hmem id hid).trans_le hle
    · rw [List.mem_singleton.mp hmem] at hid
      have := (hlast id hid).2
      omega
  · intro first hfirst second hsecond id hid hid'
    rcases List.mem_append.mp hfirst with hmem | hmem <;>
      rcases List.mem_append.mp hsecond with hmem' | hmem'
    · exact h.unique first hmem second hmem' id hid hid'
    · rw [List.mem_singleton.mp hmem'] at hid'
      have hlt := h.drawn first hmem id hid
      have := (hlast id hid').1
      omega
    · rw [List.mem_singleton.mp hmem] at hid
      have hlt := h.drawn second hmem' id hid'
      have := (hlast id hid).1
      omega
    · rw [List.mem_singleton.mp hmem, List.mem_singleton.mp hmem']
  · intro counter
    rw [hnotes.counters, h.counters]
    simp

theorem silent_side {before after : MachineState Op Resp World Job Reply}
    (h : Machine.Silent resolver.machine before after) :
    after.world.side = before.world.side := by
  cases h with
  | tick input world htick =>
    change resolver.tick before.world input = some world at htick
    cases input <;> simp only [tick] at htick <;> try contradiction
    split_ifs at htick
    obtain rfl := Option.some.inj htick
    rfl
  | _ => rfl

variable {allows : Condition Op Resp World Job} {instant : ℕ}
  {state : MachineState Op Resp World Job Reply}

theorem noted_of_ran (h : Machine.Ran resolver.machine allows
    (resolver.start instant) history state) :
    Noted resolver history state.world := by
  induction h with
  | start => exact .initial instant
  | silent hran hsilent ih =>
    have hside := silent_side hsilent
    exact ⟨by rw [hside]; exact ih.log, by rw [hside]; exact ih.drawn,
      ih.unique, by rw [hside]; exact ih.counters⟩
  | op hran hperforms ih =>
    obtain ⟨⟨input, hexec⟩, hbefore, hafter, _⟩ := hperforms.exec
    have hnotes := exec_notes hexec
    rw [hbefore, hafter] at hnotes
    exact ih.performs hnotes

theorem drawn_of_observed (hran : Machine.Ran resolver.machine allows
    (resolver.start instant) history state)
    {performed : Performed Op Resp World} (hmem : performed ∈ history)
    {told : Observed} (htold : observedAct performed.act = some told) :
    told.correlationId ∈ drawnIds (traceOf performed.number history) := by
  obtain ⟨earlier, later, hhistory⟩ := List.append_of_mem hmem
  obtain ⟨task, _, hasserts⟩ := resolver.eventPath_valid.asserts hran hhistory
  have hdrawn : told.correlationId ∈
      drawnIds (traceOf performed.number earlier) := by
    obtain ⟨number, unused, before, ⟨op, resp⟩, after⟩ := performed
    cases op <;> simp only [observedAct, Option.some.injEq, reduceCtorEq]
      at htold
    · subst htold
      exact hasserts
    · subst htold
      exact hasserts
  rw [hhistory, traceOf_append, drawnIds_append]
  exact List.mem_append_left _ hdrawn

theorem observed_filter (hran : Machine.Ran resolver.machine allows
    (resolver.start instant) history state) {number id : ℕ}
    (hid : drawnIds (traceOf number history) = [id]) :
    (observed (history.map Performed.act)).filter
        (fun told => told.correlationId = id) =
      observed (traceOf number history) := by
  have hown : ∀ performed ∈ history, ∀ told ∈ observedAct performed.act,
      told.correlationId = id ↔ performed.number = number := by
    intro performed hmem told htold
    have hdrawn := drawn_of_observed hran hmem htold
    constructor
    · rintro rfl
      obtain ⟨first, hfirst, hfirst'⟩ := List.mem_filterMap.mp hdrawn
      have hmine : told.correlationId ∈ drawnIds (traceOf number history) := by
        simp [hid]
      obtain ⟨second, hsecond, hsecond'⟩ := List.mem_filterMap.mp hmine
      obtain ⟨one, hone, hnumber, rfl⟩ := mem_traceOf.mp hfirst
      obtain ⟨two, htwo, hnumber', rfl⟩ := mem_traceOf.mp hsecond
      rw [← hnumber, ← hnumber']
      exact (noted_of_ran hran).unique one hone two htwo _ hfirst' hsecond'
    · rintro rfl
      rw [hid] at hdrawn
      exact List.mem_singleton.mp hdrawn
  clear hran hid
  induction history with
  | nil => rfl
  | cons performed rest ih =>
    have hrest := ih fun other hother =>
      hown other (List.mem_cons_of_mem _ hother)
    have hfirst := hown performed List.mem_cons_self
    cases htold : observedAct performed.act with
    | none =>
      by_cases hnumber : performed.number = number <;>
        simpa [observed, traceOf, htold, hnumber] using hrest
    | some told =>
      have hiff := hfirst told htold
      by_cases hnumber : performed.number = number
      · simpa [observed, traceOf, htold, hnumber, hiff.mpr hnumber]
          using hrest
      · have hne : told.correlationId ≠ id := fun h =>
          hnumber (hiff.mp h)
        simpa [observed, traceOf, htold, hnumber, hne] using hrest

/-! ## The events of a call -/

end Resolver

def observedUnder (id : ℕ) (log : List Observed) : List Observed :=
  log.filter fun told => told.correlationId = id

def eventsUnder (id : ℕ) (log : List Observed) : List ObserveEvent :=
  (observedUnder id log).filterMap Observed.event?

/-- What a call returns, if it runs to completion. -/
def Reply.result? : Reply → Option (Except Error Message)
  | .answered answer _ => some answer.result
  | .rejected result => some result
  | _ => none

def Reply.group? : Reply → Option UpstreamGroupId
  | .answered answer _ => some answer.group
  | _ => none

/-- The events of a call which returns the result, by the group selected for
it. -/
inductive CallEvents (id : ℕ) (query : Message)
    (result : Except Error Message) :
    Option UpstreamGroupId → List ObserveEvent → Prop
  | rejected (routing : List ObserveEvent)
      (hrouting : ∀ event ∈ routing, event.Routes id) :
      CallEvents id query result none
        (receivedEvent id query :: (routing ++ [terminalEvent id result]))
  | hit (group : UpstreamGroupId) (routing : List ObserveEvent)
      (hrouting : ∀ event ∈ routing, event.Routes id) :
      CallEvents id query result (some group)
        (receivedEvent id query :: (routing ++
          [.cacheHit id group, terminalEvent id result]))
  | missed (group : UpstreamGroupId) (routing : List ObserveEvent)
      (outcomes : List UpstreamObserveOutcome)
      (hrouting : ∀ event ∈ routing, event.Routes id)
      (hretried : ∀ outcome ∈ outcomes.dropLast,
        outcome = .retryableFailure) :
      CallEvents id query result (some group)
        (receivedEvent id query :: (routing ++
          .cacheMiss id group :: (failoverEvents id group 0 outcomes ++
            [terminalEvent id result])))

section Completed

variable {resolver : Resolver} {instant number : ℕ}
  {allows : Condition Op Resp World Job}
  {state : MachineState Op Resp World Job Reply}
  {history : List (Performed Op Resp World)} {query : Message}
  {reply : Reply}

theorem returned_of_ended (hran : Machine.Ran resolver.machine allows
    (resolver.start instant) history state)
    (hended : state.ended number = some (.resolve query, reply)) :
    Returned query (traceOf number history) reply :=
  (resolver.eventPath_valid.holds hran).ended hended

theorem observedUnder_of_drawn (hran : Machine.Ran resolver.machine allows
    (resolver.start instant) history state) {id : ℕ}
    (hid : drawnIds (traceOf number history) = [id]) :
    observedUnder id state.world.side.log =
      if resolver.observabilitySink then observed (traceOf number history)
      else [] := by
  rw [observedUnder, (Resolver.noted_of_ran hran).log]
  split_ifs
  · exact Resolver.observed_filter hran hid
  · rfl

@[simp] theorem event?_comp_event :
    Observed.event? ∘ Observed.event = some :=
  rfl

theorem Notice.filterMap_event? (notice : Notice) (id : ℕ)
    (group : UpstreamGroupId) :
    (notice.observed id group).filterMap Observed.event? = [] := by
  cases notice <;> rfl

theorem Course.filterMap_coalesced (course : Course) (id : ℕ)
    (group : UpstreamGroupId) :
    (course.coalescedEvents id group).filterMap Observed.event? = [] := by
  unfold coalescedEvents
  split_ifs <;> rfl

theorem Told.callEvents {id : ℕ} {group : UpstreamGroupId}
    {result : Except Error Message} {course : Course} {trace : List ResolverAct}
    (h : Told id query (course.observed id group result) trace)
    (hfollows : course.Follows result trace) :
    CallEvents id query result (some group)
      ((observed trace).filterMap Observed.event?) := by
  obtain ⟨_, routing, hrouting, htold⟩ := h
  have hevents : (observed trace).filterMap Observed.event? =
      receivedEvent id query :: (routing ++ course.lookupEvent id group ::
        (failoverEvents id group 0 course.outcomes ++
          [terminalEvent id result])) := by
    rw [htold]
    simp [Course.observed, Observed.event?, Notice.filterMap_event?,
      Course.filterMap_coalesced]
  rw [hevents]
  cases hhit : course.hit with
  | true =>
    obtain ⟨_, houtcomes⟩ := hfollows.hit hhit
    simpa [Course.lookupEvent, hhit, houtcomes, failoverEvents] using
      CallEvents.hit group routing hrouting
  | false =>
    simpa [Course.lookupEvent, hhit] using
      CallEvents.missed group routing course.outcomes hrouting
        hfollows.retried

/-- Every call which runs to completion has drawn one id, and the events under
this id are the query, its routing, one hit or miss once a group is selected,
the attempts of one failover loop after a miss, and one last event for what is
returned. -/
theorem events_of_call (hsink : resolver.observabilitySink = true)
    (hran : Machine.Ran resolver.machine .always (resolver.start instant)
      history state)
    (hended : state.ended number = some (.resolve query, reply))
    {result : Except Error Message} (hresult : reply.result? = some result) :
    ∃ id, drawnIds (traceOf number history) = [id] ∧
      CallEvents id query result reply.group?
        (eventsUnder id state.world.side.log) := by
  have hreturned := returned_of_ended hran hended
  match reply with
  | .answered answer lookups =>
      obtain rfl := Option.some.inj hresult
      obtain ⟨id, course, htold, hfollows⟩ := hreturned
      refine ⟨id, htold.1, ?_⟩
      rw [eventsUnder, observedUnder_of_drawn hran htold.1, if_pos hsink]
      exact htold.callEvents hfollows
  | .rejected returned =>
      obtain rfl := Option.some.inj hresult
      obtain ⟨id, htold⟩ := hreturned
      refine ⟨id, htold.1, ?_⟩
      rw [eventsUnder, observedUnder_of_drawn hran htold.1, if_pos hsink]
      obtain ⟨_, routing, hrouting, htold⟩ := htold
      rw [htold]
      simpa [Observed.event?, Reply.group?] using
        CallEvents.rejected routing hrouting
  | .cancelled => cases hresult
  | .panicked lookups => cases hresult
  | .ended => cases hresult
  | .purged epoch removed => cases hresult

end Completed

def watchedResolver (cache : CacheConfig) : Resolver :=
  { homeResolver cache with observabilitySink := true }

/-- The first call of a resolver misses and asks its upstream. -/
theorem events_of_first_call :
    let resolver := watchedResolver smallCache
    ∃ history state answer lookups id,
      Machine.Ran resolver.machine .always (resolver.start 0) history state ∧
      state.ended 0 =
        some (.resolve (askAddress 97), .answered answer lookups) ∧
      drawnIds (traceOf 0 history) = [id] ∧
      CallEvents id (askAddress 97) answer.result (some answer.group)
        (eventsUnder id state.world.side.log) := by
  intro resolver
  obtain ⟨history, state, hran, hcheck⟩ := Machine.ran_of_record_any
    (show (resolver.machine.record .always
        (.arrive (.resolve (askAddress 97)) ::
          moves 23 0 (.backend (.ok (addressAnswer 97))))
        (resolver.start 0)).any
      (fun recorded => (recorded.2.ended 0).any
        (isAnswer fun query _ => decide (query = askAddress 97))) = true
      by decide)
  obtain ⟨query, answer, lookups, hended, hquery⟩ := ended_of_isAnswer hcheck
  obtain rfl := of_decide_eq_true hquery
  obtain ⟨id, hid, hevents⟩ := events_of_call rfl hran hended rfl
  exact ⟨history, state, answer, lookups, id, hran, hended, hid, hevents⟩

end DnsLattice
