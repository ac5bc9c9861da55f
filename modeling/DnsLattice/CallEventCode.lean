import DnsLattice.CallEvents

/-!
# The code of a call keeps to a course

Function by function: what each part of the code tells the sink, and that a
call has told of a course when it returns, whatever the operations give.
-/

namespace DnsLattice

/-! ## Quiet parts of the code -/

theorem finish_quiet (guard : Option LeaderGuard) (outcome : Outcome) :
    Prog.Only Op.Quiet (finish guard outcome) := by
  cases guard with
  | none => exact trivial
  | some guard => exact ⟨trivial, fun _ => ⟨trivial, fun _ => trivial⟩⟩

theorem dropGuard_quiet (guard : Option LeaderGuard) :
    Prog.Only Op.Quiet (dropGuard guard) := by
  cases guard with
  | none => exact trivial
  | some guard => exact ⟨trivial, fun _ => ⟨trivial, fun _ => trivial⟩⟩

namespace Resolver

variable (resolver : Resolver)

theorem classify_quiet (entry : Option CachedAnswer) (now : ℕ) :
    Prog.Only Op.Quiet (resolver.classify entry now) := by
  cases entry with
  | none => exact trivial
  | some entry =>
    unfold classify
    dsimp only
    cases entry.failure with
    | some failure =>
      dsimp only
      split_ifs <;> exact trivial
    | none =>
      dsimp only
      split_ifs
      · exact trivial
      · exact ⟨trivial, fun _ => trivial⟩
      · exact trivial

theorem insertIf_quiet (key : List UInt8) (entry : CachedAnswer) (now : ℕ) :
    Prog.Only Op.Quiet (insertIf key entry now) :=
  ⟨trivial, fun _ => ⟨trivial, fun _ => ⟨trivial, fun _ => trivial⟩⟩⟩

theorem storeAnswer_quiet (origin : UpstreamCall)
    (stored : Option (List UInt8)) (now : ℕ) (answer : Message) :
    Prog.Only Op.Quiet (resolver.storeAnswer origin stored now answer) := by
  unfold storeAnswer
  cases stored with
  | none => exact trivial
  | some key =>
    dsimp only
    cases cacheableAnswer origin answer now resolver.cache.ttlPolicy with
    | none => exact trivial
    | some entry =>
      exact (insertIf_quiet key entry now).bind fun _ => trivial

theorem queryUpstream_quiet (origin : UpstreamCall)
    (stored : Option (List UInt8)) (now : ℕ) (backends : List ℕ)
    (lastError : Option Error) :
    Prog.Only Op.Quiet
      (resolver.queryUpstream origin none stored now backends lastError) := by
  induction backends generalizing lastError with
  | nil => cases lastError <;> exact trivial
  | cons backend rest ih =>
    refine .step trivial fun returned => ?_
    match returned with
    | none => exact trivial
    | some (.ok answer) =>
      exact (resolver.storeAnswer_quiet origin stored now answer).bind
        fun _ => trivial
    | some (.error error) =>
      dsimp only
      split_ifs
      · exact ih (some error)
      · exact trivial

theorem forgetPrevious_quiet (stored : Option (List UInt8))
    (previous : Option ℕ) :
    Prog.Only Op.Quiet (forgetPrevious stored previous) := by
  cases stored with
  | none => exact trivial
  | some key =>
    cases previous with
    | none => exact trivial
    | some backoff => exact ⟨trivial, fun _ => trivial⟩

theorem rememberFailure_quiet (origin : UpstreamCall) (query : Message)
    (result : Except Error UpstreamAnswer) (stored : Option (List UInt8))
    (previous : Option ℕ) (failedAt : ℕ) :
    Prog.Only Op.Quiet (resolver.rememberFailure origin query result stored
      previous failedAt) := by
  unfold rememberFailure
  cases resolver.cache.failurePolicy with
  | none => exact trivial
  | some policy =>
    cases stored with
    | none => exact trivial
    | some key => exact (insertIf_quiet _ _ _).bind fun _ => trivial

theorem settleFailure_quiet (origin : UpstreamCall) (query : Message)
    (result : Except Error UpstreamAnswer) (stale : Option CachedAnswer)
    (stored : Option (List UInt8)) (previous : Option ℕ) :
    Prog.Only Op.Quiet (resolver.settleFailure origin query result stale
      stored previous) := by
  unfold settleFailure
  split_ifs
  · refine .step trivial fun failedAt => ?_
    split
    · refine .step trivial fun deadline => ?_
      cases deadline with
      | none => exact trivial
      | some deadline => exact ⟨trivial, fun _ => trivial⟩
    · exact (resolver.rememberFailure_quiet _ _ _ _ _ _).bind
        fun _ => trivial
  · exact (forgetPrevious_quiet stored previous).bind fun _ => trivial

theorem startPrefetch_quiet (call : Call) (key : List UInt8) :
    Prog.Only Op.Quiet (resolver.startPrefetch call key) := by
  unfold startPrefetch
  split_ifs
  · refine .step trivial fun join => ?_
    cases join with
    | lead guard => exact ⟨trivial, fun _ => ⟨trivial, fun _ => trivial⟩⟩
    | follow flight => exact ⟨trivial, fun _ => ⟨trivial, fun _ => trivial⟩⟩
  · exact ⟨trivial, fun _ => ⟨trivial, fun _ => trivial⟩⟩

theorem prefetchDue_quiet (call : Call) (key : List UInt8)
    (cached : CachedAnswer) :
    Prog.Only Op.Quiet (resolver.prefetchDue call key cached) := by
  refine .step trivial fun available => ?_
  split_ifs
  · refine .step trivial fun running => ?_
    split_ifs
    · exact ⟨trivial, fun _ => trivial⟩
    · refine .step trivial fun refreshing => ?_
      split_ifs
      · exact ⟨trivial, fun _ => trivial⟩
      · exact resolver.startPrefetch_quiet call key
  · exact trivial

theorem maybePrefetch_quiet (call : Call) (cached : CachedAnswer) (now : ℕ) :
    Prog.Only Op.Quiet (resolver.maybePrefetch call cached now) := by
  unfold maybePrefetch
  split
  · refine .step trivial fun previous => ?_
    dsimp only
    split_ifs
    · exact trivial
    · exact trivial
    · exact resolver.prefetchDue_quiet call _ cached
  · exact trivial

/-! ## The failover loop -/

section Keeps

variable {first : Job} {query : Message} {trace : List ResolverAct}

theorem eventPath_asserts_of_quiet (trace : List ResolverAct) (op : Op)
    (h : op.Quiet) : resolver.eventPath.asserts first trace op := by
  cases op <;> first | exact trivial | exact h.elim

theorem keeps_of_quiet {α : Type} {prog : Code α}
    (h : Prog.Only Op.Quiet prog) (trace : List ResolverAct) :
    resolver.eventPath.Keeps first (fun _ after => Adds [] trace after ∧
      ∀ counter, counted counter after = counted counter trace)
      prog trace := by
  refine (h.along resolver.eventPath_asserts_of_quiet trace).mono ?_
  rintro value _ ⟨acts, rfl, hacts⟩
  exact ⟨.quiet hacts, fun counter => by simp [counted_of_quiet hacts]⟩

section Steps

variable {α : Type} {ensures : α → List ResolverAct → Prop}
  {begun : List ResolverAct} {told : List Observed}

theorem keeps_emit {event : ObserveEvent} {next : Code α}
    (hadds : Adds told begun trace) (hid : event.correlationId ∈ drawnIds begun)
    (hnext : ∀ after, Adds (told ++ [.event event]) begun after →
      resolver.eventPath.Keeps first ensures next after) :
    resolver.eventPath.Keeps first ensures
      (perform (.emit event) >>= fun _ => next) trace :=
  .step (hadds.mem hid) fun resp _ =>
    hnext _ (hadds.trans (.emit trace event resp))

theorem keeps_emitCache {event : CacheEvent} {next : Code α}
    (hadds : Adds told begun trace) (hid : event.correlationId ∈ drawnIds begun)
    (hnext : ∀ after, Adds (told ++ [.cache event]) begun after →
      resolver.eventPath.Keeps first ensures next after) :
    resolver.eventPath.Keeps first ensures
      (perform (.emitCache event) >>= fun _ => next) trace :=
  .step (hadds.mem hid) fun resp _ =>
    hnext _ (hadds.trans (.emitCache trace event resp))

theorem keeps_act {op : Op} (hop : op.Quiet) {next : Resp op → Code α}
    (hadds : Adds told begun trace)
    (hnext : ∀ resp after, Adds told begun after → Gives op resp →
      (⟨op, resp⟩ : ResolverAct) ∈ after →
      resolver.eventPath.Keeps first ensures (next resp) after) :
    resolver.eventPath.Keeps first ensures (perform op >>= next) trace :=
  .step (resolver.eventPath_asserts_of_quiet trace op hop)
    fun resp hgives => hnext resp _
      (by simpa using hadds.trans (.act trace op hop resp)) hgives (by simp)

theorem keeps_count {counter : Counter} (hcounter : counter ≠ .failureHits)
    {next : Code α} (hadds : Adds told begun trace)
    (hnext : ∀ after, Adds told begun after →
      resolver.eventPath.Keeps first ensures next after) :
    resolver.eventPath.Keeps first ensures
      (perform (.count counter) >>= fun _ => next) trace := by
  refine .step ?_ fun resp _ => ?_
  · cases counter <;> trivial
  · exact hnext _ (by simpa using hadds.trans (.count trace counter resp))

theorem keeps_quiet {β : Type} {prog : Code β}
    (hprog : Prog.Only Op.Quiet prog) {next : β → Code α}
    (hadds : Adds told begun trace)
    (hnext : ∀ value after, Adds told begun after →
      resolver.eventPath.Keeps first ensures (next value) after) :
    resolver.eventPath.Keeps first ensures (prog >>= next) trace := by
  refine .bind (resolver.keeps_of_quiet hprog trace) ?_
  rintro value after ⟨hquiet, _⟩
  exact hnext value after (by simpa using hadds.trans hquiet)

end Steps

theorem queryUpstream_keeps (origin : UpstreamCall) {id : ℕ}
    (stored : Option (List UInt8)) (now count backend : ℕ)
    (lastError : Option Error) (hid : id ∈ drawnIds trace) :
    resolver.eventPath.Keeps first
      (fun ended after => ∃ told, Adds told trace after ∧
        ∀ result, ended = .done result → ∃ outcomes,
          (∀ outcome ∈ outcomes.dropLast,
            outcome = UpstreamObserveOutcome.retryableFailure) ∧
          told = (failoverEvents id origin.group backend outcomes).map .event)
      (resolver.queryUpstream origin (some id) stored now
        (List.range' backend count) lastError) trace := by
  induction count generalizing backend lastError trace with
  | zero =>
    rw [List.range'_zero]
    cases lastError with
    | none =>
      rw [queryUpstream]
      exact .ret ⟨[], .refl _, by rintro result ⟨⟩⟩
    | some error =>
      rw [queryUpstream]
      exact .ret ⟨[], .refl _, fun _ _ => ⟨[], by simp, rfl⟩⟩
  | succ count ih =>
    rw [List.range'_succ, queryUpstream]
    refine resolver.keeps_emit (.refl trace) hid fun attempted hattempt => ?_
    refine resolver.keeps_act (by trivial) hattempt
      fun returned called hcalled _ _ => ?_
    match returned with
    | none => exact .ret ⟨_, hcalled, by rintro result ⟨⟩⟩
    | some (.ok answer) =>
      refine resolver.keeps_emit hcalled hid fun told htold => ?_
      refine resolver.keeps_quiet
        (resolver.storeAnswer_quiet origin stored now answer) htold
        fun value after hafter => ?_
      refine .ret ⟨_, hafter, ?_⟩
      rintro result ⟨⟩
      exact ⟨[.success], by simp, rfl⟩
    | some (.error error) =>
      dsimp only
      by_cases hretry : isRetryable error
      · rw [if_pos hretry]
        refine resolver.keeps_emit hcalled hid fun failed hfailed => ?_
        refine (ih (backend + 1) (some error) (hfailed.mem hid)).mono ?_
        rintro ended after ⟨more, hmore, hended⟩
        refine ⟨_, hfailed.trans hmore, ?_⟩
        intro result hresult
        obtain ⟨outcomes, houtcomes, rfl⟩ := hended result hresult
        refine ⟨.retryableFailure :: outcomes, ?_, rfl⟩
        cases outcomes with
        | nil => simp
        | cons outcome others => simpa using houtcomes
      · rw [if_neg hretry]
        refine resolver.keeps_emit hcalled hid fun failed hfailed => ?_
        refine .ret ⟨_, hfailed, ?_⟩
        rintro result ⟨⟩
        exact ⟨[.failure], by simp, rfl⟩

/-! ## The ends of a call -/

theorem serveStale_keeps (call : Call) (entry : CachedAnswer)
    (lookups : List Lookup) (hid : call.correlationId ∈ drawnIds trace) :
    resolver.eventPath.Keeps first
      (fun reply after => Ends call .stale trace after reply)
      (resolver.serveStale call entry lookups) trace := by
  unfold serveStale
  dsimp only
  refine resolver.keeps_count (by simp) (.refl trace) fun _ hcount => ?_
  refine resolver.keeps_emitCache hcount hid fun _ hnotice => ?_
  rw [emitResult_eq]
  refine resolver.keeps_emit hnotice (by simpa using hid)
    fun _ hafter => ?_
  exact .ret ⟨_, _, rfl, rfl, hafter, fun _ => ⟨_, rfl⟩⟩

theorem serveFailure_keeps (call : Call) (cached : CachedAnswer) (now : ℕ)
    (lookups : List Lookup) (hid : call.correlationId ∈ drawnIds trace)
    (hcount : counted .failureHits trace < counted .hits trace ∨
      FindsFailureLater trace) :
    resolver.eventPath.Keeps first
      (fun reply after => Ends call .failure trace after reply)
      (serveFailure call cached now lookups) trace := by
  unfold serveFailure
  refine .step hcount fun resp _ => ?_
  refine resolver.keeps_emitCache (.count trace _ resp) hid
    fun _ hnotice => ?_
  dsimp only
  rw [emitResult_eq]
  refine resolver.keeps_emit hnotice (by simpa using hid)
    fun _ hafter => ?_
  exact .ret ⟨_, _, rfl, rfl, hafter, nofun⟩

theorem keeps_emitResult {α : Type} {ensures : α → List ResolverAct → Prop}
    {call : Call} (source : Source) {result : Except Error Message}
    (lookups : List Lookup) {next : Code α}
    (hid : call.correlationId ∈ drawnIds trace)
    (hnext : ∀ after,
      Ends call .none trace after (call.reply source result lookups) →
      resolver.eventPath.Keeps first ensures next after) :
    resolver.eventPath.Keeps first ensures
      (emitResult call.correlationId result >>= fun _ => next) trace := by
  rw [emitResult_eq]
  refine resolver.keeps_emit (.refl trace) (by simpa using hid)
    fun after hafter => ?_
  exact hnext after ⟨_, _, rfl, rfl, hafter, nofun⟩

theorem finishFollower_keeps (call : Call) (outcome : Outcome)
    (lookups : List Lookup) (hid : call.correlationId ∈ drawnIds trace) :
    resolver.eventPath.Keeps first
      (fun reply after => ∃ middle notice, Adds [] trace middle ∧
        notice ≠ .failure ∧ Ends call notice middle after reply)
      (resolver.finishFollower call outcome lookups) trace := by
  unfold finishFollower
  cases outcome with
  | stale entry =>
    refine (resolver.serveStale_keeps call entry lookups hid).mono ?_
    intro reply after hends
    exact ⟨trace, .stale, .refl trace, by simp, hends⟩
  | cached cached =>
    refine resolver.keeps_act (by trivial) (.refl trace)
      fun now middle hmiddle _ _ => ?_
    refine resolver.keeps_emitResult (.fresh cached) lookups
      (hmiddle.mem hid) fun after hends => ?_
    exact .ret ⟨middle, .none, hmiddle, by simp, hends⟩
  | raw origin answer =>
    refine resolver.keeps_emitResult (.shared origin) lookups hid
      fun after hends => ?_
    exact .ret ⟨trace, .none, .refl trace, by simp, hends⟩
  | failed origin error =>
    refine resolver.keeps_emitResult (.shared origin) lookups hid
      fun after hends => ?_
    exact .ret ⟨trace, .none, .refl trace, by simp, hends⟩

/-! ## The parts of a call -/

theorem startInstant_quiet (progress : Progress) :
    Prog.Only Op.Quiet (startInstant progress) := by
  unfold startInstant
  split_ifs
  · exact ⟨trivial, fun _ => trivial⟩
  · exact trivial

theorem leadCall_keeps (call : Call) (guard : Option LeaderGuard)
    (progress : Progress)
    (hmissed : Missed resolver call progress.announced trace) :
    resolver.eventPath.Keeps (.resolve call.query)
      (resolver.eventPath.done (.resolve call.query))
      (resolver.leadCall call guard progress) trace := by
  have hid := hmissed.1.mem
  unfold leadCall
  dsimp only
  refine resolver.keeps_quiet (startInstant_quiet progress) (.refl trace)
    fun now _ hnow => ?_
  refine resolver.keeps_act (by trivial) hnow
    fun origin asked hasked hgives _ => ?_
  obtain ⟨hgroup, _⟩ := hgives
  rw [List.range_eq_range']
  refine .bind (resolver.queryUpstream_keeps origin _ now call.backends 0 none
    (hasked.mem hid)) ?_
  rintro ended returned ⟨told, htold, hended⟩
  have hreturned := hasked.trans htold
  refine resolver.keeps_act (by trivial) hreturned
    fun _ called hcalled _ _ => ?_
  match ended with
  | .dropped =>
    refine resolver.keeps_quiet (dropGuard_quiet guard) hcalled
      fun _ _ _ => ?_
    exact .ret trivial
  | .panicked =>
    refine resolver.keeps_quiet (dropGuard_quiet guard) hcalled
      fun _ _ _ => ?_
    exact .ret trivial
  | .done result =>
    obtain ⟨outcomes, hretried, rfl⟩ := hended result rfl
    rw [hgroup] at hcalled
    refine resolver.keeps_quiet (resolver.settleFailure_quiet _ _ _ _ _ _)
      hcalled fun settled settling hsettling => ?_
    match settled with
    | .dropped =>
      refine resolver.keeps_quiet (dropGuard_quiet guard) hsettling
        fun _ _ _ => ?_
      exact .ret trivial
    | .panicked =>
      refine resolver.keeps_quiet (dropGuard_quiet guard) hsettling
        fun _ _ _ => ?_
      exact .ret trivial
    | .done staleUsed =>
      refine resolver.keeps_quiet (finish_quiet guard _) hsettling
        fun _ finished hfinished => ?_
      match staleUsed with
      | some entry =>
        refine .bind (resolver.serveStale_keeps call entry
          progress.lookups (hfinished.mem hid)) ?_
        intro reply after hends
        exact .ret (hends.of_missed outcomes hmissed.1 hfinished hretried
          nofun fun hannounced _ =>
            (hmissed.2.1 hannounced).mono hfinished.grows)
      | none =>
        refine resolver.keeps_emitResult (.upstream origin)
          progress.lookups (hfinished.mem hid) fun after hends => ?_
        exact .ret (hends.of_missed outcomes hmissed.1 hfinished hretried
          nofun fun hannounced _ =>
            (hmissed.2.1 hannounced).mono hfinished.grows)

theorem finishFollower_done (call : Call) (outcome : Outcome)
    (lookups : List Lookup) {announced : Bool}
    (htold : Told call.correlationId call.query (call.missed announced)
      trace) :
    resolver.eventPath.Keeps (.resolve call.query)
      (resolver.eventPath.done (.resolve call.query))
      (do return .inr (← resolver.finishFollower call outcome lookups))
      trace := by
  refine .bind (resolver.finishFollower_keeps call outcome lookups htold.mem) ?_
  rintro reply after ⟨middle, notice, hmiddle, hnotice, hends⟩
  exact .ret (hends.of_missed_nil htold hmiddle
    fun hfailure => absurd hfailure hnotice)

theorem serveStale_done (call : Call) (entry : CachedAnswer)
    (lookups : List Lookup) {announced : Bool}
    (htold : Told call.correlationId call.query (call.missed announced)
      trace) :
    resolver.eventPath.Keeps (.resolve call.query)
      (resolver.eventPath.done (.resolve call.query))
      (do return .inr (← resolver.serveStale call entry lookups))
      trace := by
  refine .bind (resolver.serveStale_keeps call entry lookups htold.mem) ?_
  intro reply after hends
  exact .ret (hends.of_missed_nil htold (.refl trace) nofun)

theorem awaitRefresh_keeps (call : Call) (flight : ℕ) (stale : CachedAnswer)
    (lookups : List Lookup) {announced : Bool}
    (hmissed : Missed resolver call announced trace) :
    resolver.eventPath.Keeps (.resolve call.query)
      (resolver.eventPath.done (.resolve call.query))
      (resolver.awaitRefresh call flight stale lookups) trace := by
  unfold awaitRefresh
  refine resolver.keeps_act (by trivial) (.refl trace)
    fun waited after hafter _ _ => ?_
  match waited with
  | .done outcome =>
    exact resolver.finishFollower_done call outcome lookups
      (hmissed.adds hafter).1
  | .abandoned =>
    exact resolver.serveStale_done call stale lookups
      (hmissed.adds hafter).1
  | .timedOut =>
    exact resolver.serveStale_done call stale lookups
      (hmissed.adds hafter).1
  | .dropped => exact .ret trivial

theorem spawnStaleRefresh_quiet (call : Call) (guard : LeaderGuard)
    (key : List UInt8) (stale : CachedAnswer) :
    Prog.Only Op.Quiet (spawnStaleRefresh call guard key stale) := by
  unfold spawnStaleRefresh
  refine .step trivial fun available => ?_
  split_ifs
  · refine .step trivial fun running => ?_
    split_ifs
    · exact ⟨trivial, fun _ => trivial⟩
    · exact ⟨trivial, fun _ => ⟨trivial, fun _ => ⟨trivial,
        fun _ => trivial⟩⟩⟩
  · exact trivial

theorem leadRefresh_keeps (call : Call) (guard : LeaderGuard)
    (progress : Progress)
    (hmissed : Missed resolver call progress.announced trace) :
    resolver.eventPath.Keeps (.resolve call.query)
      (resolver.eventPath.done (.resolve call.query))
      (resolver.leadRefresh call guard progress) trace := by
  unfold leadRefresh
  split
  · refine resolver.keeps_quiet (spawnStaleRefresh_quiet _ _ _ _)
      (.refl trace) fun taken after hafter => ?_
    split_ifs
    · exact resolver.awaitRefresh_keeps call guard.flight _ _
        (hmissed.adds hafter)
    · exact resolver.leadCall_keeps call (some guard) progress
        (hmissed.adds hafter)
  · exact resolver.leadCall_keeps call (some guard) progress hmissed

theorem classify_returns (entry : Option CachedAnswer) (now : ℕ) :
    Prog.Returns (fun found => ∀ cached, found = .failure cached →
      entry = some cached ∧ cached.failure.isSome = true ∧
        now < cached.expires) (resolver.classify entry now) := by
  unfold classify
  cases entry with
  | none => rintro cached ⟨⟩
  | some entry =>
    dsimp only
    cases hfailure : entry.failure with
    | some failure =>
      dsimp only
      by_cases hfresh : now < entry.expires
      · rw [if_pos hfresh]
        rintro cached ⟨⟩
        exact ⟨rfl, by simp [hfailure], hfresh⟩
      · rw [if_neg hfresh]
        rintro cached ⟨⟩
    | none =>
      dsimp only
      split_ifs
      · rintro cached ⟨⟩
      · intro pending cached hfound
        cases pending <;> simp at hfound
      · rintro cached ⟨⟩

theorem leadFlight_keeps (call : Call) (guard : LeaderGuard)
    (progress : Progress)
    (hmissed : Missed resolver call progress.announced trace) :
    resolver.eventPath.Keeps (.resolve call.query)
      (resolver.eventPath.done (.resolve call.query))
      (resolver.leadFlight call guard progress) trace := by
  unfold leadFlight
  cases hkey : resolver.storedKey call.group call.query with
  | none => exact resolver.leadRefresh_keeps call guard progress hmissed
  | some key =>
    dsimp only
    refine resolver.keeps_act (by trivial) (.refl trace)
      fun now began hbegan _ _ => ?_
    have hbefore := hmissed.adds hbegan
    refine .step trivial fun entry _ => ?_
    have hget : Adds [] began (began ++ [⟨.storeGet key now, entry⟩]) :=
      .act began (.storeGet key now) trivial entry
    have hlooked := hbefore.adds hget
    refine .bind ((resolver.keeps_of_quiet
      (resolver.classify_quiet entry now) _).returns
      (resolver.classify_returns entry now)) ?_
    rintro found classified ⟨⟨hadds, _⟩, hfailure⟩
    have hclassified := hlooked.adds hadds
    match found with
    | .fresh cached =>
      refine resolver.keeps_quiet (finish_quiet _ _) (.refl classified)
        fun _ finished hfinished => ?_
      refine resolver.keeps_emitResult (.fresh cached)
        (progress.lookups ++ [⟨entry, now⟩])
        (hfinished.mem hclassified.1.mem) fun after hends => ?_
      exact .ret (hends.of_missed_nil hclassified.1 hfinished nofun)
    | .failure cached =>
      obtain ⟨rfl, hremembered⟩ := hfailure cached rfl
      have hfinds : FindsFailureLater classified :=
        FindsFailureLater.mono hadds.grows
          ⟨began, key, now, cached, [], rfl,
            hbefore.2.2 (by simp [hkey]), hremembered⟩
      refine resolver.keeps_quiet (finish_quiet _ _) (.refl classified)
        fun _ finished hfinished => ?_
      refine .bind (resolver.serveFailure_keeps call cached now _
        (hfinished.mem hclassified.1.mem)
        (Or.inr (hfinds.mono hfinished.grows))) ?_
      intro reply after hends
      exact .ret (hends.of_missed_nil hclassified.1 hfinished
        fun _ => hfinds.mono hfinished.grows)
    | .staleNow cached =>
      refine resolver.keeps_quiet (finish_quiet _ _) (.refl classified)
        fun _ finished hfinished => ?_
      exact resolver.serveStale_done call cached _
        (hclassified.adds hfinished).1
    | .refresh stale backoff =>
      exact resolver.leadRefresh_keeps call guard _ hclassified

theorem waitTimed_quiet (stale : Option CachedAnswer) :
    Prog.Only Op.Quiet (resolver.waitTimed stale) := by
  unfold waitTimed
  split
  · exact ⟨trivial, fun _ => trivial⟩
  · exact trivial

theorem waitTimed_returns (stale : Option CachedAnswer) :
    Prog.Returns (fun timed => timed = true → stale.isSome = true)
      (resolver.waitTimed stale) := by
  unfold waitTimed
  split
  · exact fun _ _ => rfl
  · exact nofun

theorem announce_keeps (call : Call) (progress : Progress)
    (hmissed : Missed resolver call progress.announced trace) :
    resolver.eventPath.Keeps first
      (fun _ after => Told call.correlationId call.query (call.missed true)
        after ∧ trace <+: after) (announce call progress) trace := by
  unfold announce
  cases hannounced : progress.announced with
  | true =>
    rw [hannounced] at hmissed
    exact .ret ⟨hmissed.1, List.prefix_refl _⟩
  | false =>
    rw [hannounced] at hmissed
    refine resolver.keeps_count (by simp) (.refl trace)
      fun counted hcounted => ?_
    refine ⟨hcounted.mem hmissed.1.mem, fun resp _ => ?_⟩
    have hadds := hcounted.trans (.emitCache counted
      (.coalesced call.correlationId call.group) resp)
    exact ⟨hmissed.1.adds hadds, hadds.grows⟩

theorem followFlight_keeps (call : Call) (key : List UInt8)
    (progress : Progress) (flight : ℕ)
    (hmissed : Missed resolver call progress.announced trace) :
    resolver.eventPath.Keeps (.resolve call.query)
      (resolver.eventPath.done (.resolve call.query))
      (resolver.followFlight call key progress flight) trace := by
  unfold followFlight
  refine .bind (resolver.announce_keeps call progress hmissed) ?_
  rintro _ announced ⟨htold, hgrows⟩
  refine .bind ((resolver.keeps_of_quiet
    (resolver.waitTimed_quiet progress.stale) announced).returns
    (resolver.waitTimed_returns progress.stale)) ?_
  rintro timed ready ⟨⟨hready, _⟩, htimed⟩
  refine resolver.keeps_act (by trivial) hready
    fun waited after hafter hgives hmem => ?_
  have htold' : Told call.correlationId call.query (call.missed true)
      after := by simpa using htold.adds hafter
  match waited with
  | .done outcome =>
    exact resolver.finishFollower_done call outcome _ htold'
  | .timedOut =>
    obtain ⟨stale, hstale⟩ := Option.isSome_iff_exists.mp
      (htimed (hgives rfl))
    dsimp only
    rw [hstale]
    exact resolver.serveStale_done call stale _ htold'
  | .abandoned =>
    refine .ret ⟨rfl, htold', fun _ => ⟨flight, timed, hmem⟩, ?_⟩
    intro hstored
    exact (hmissed.2.2 hstored).mono (hgrows.trans hafter.grows)
  | .dropped => exact .ret trivial

theorem joinFlight_keeps (call : Call) (key : List UInt8) (progress : Progress)
    (hmissed : Missed resolver call progress.announced trace) :
    resolver.eventPath.Keeps (.resolve call.query)
      (resolver.eventPath.done (.resolve call.query))
      (resolver.joinFlight call key progress) trace := by
  unfold joinFlight
  refine resolver.keeps_act (by trivial) (.refl trace)
    fun join after hafter _ _ => ?_
  match join with
  | .lead guard =>
    exact resolver.leadFlight_keeps call guard progress
      (hmissed.adds hafter)
  | .follow flight =>
    exact resolver.followFlight_keeps call key progress flight
      (hmissed.adds hafter)

theorem lookUp_keeps (stored : Option (List UInt8)) (now : ℕ) :
    resolver.eventPath.Keeps first
      (fun _ after => Adds [] trace after ∧
        (∀ counter, counted counter after = counted counter trace) ∧
        (stored.isSome = true → Looks after))
      (lookUp stored now) trace := by
  cases stored with
  | none => exact .ret ⟨.refl trace, fun _ => rfl, nofun⟩
  | some key =>
    refine ⟨trivial, fun found _ => ?_⟩
    refine ⟨.act trace (.storeGet key now) trivial found, ?_, fun _ => ?_⟩
    · intro counter
      simp [counted, countsAs]
    · exact ⟨key, now, found, by simp⟩

theorem resolveIn_keeps (call : Call)
    (htold : Told call.correlationId call.query [] trace)
    (hcounted : counted .failureHits trace = 0) :
    resolver.eventPath.Keeps (.resolve call.query)
      (resolver.eventPath.done (.resolve call.query))
      (resolver.resolveIn call) trace := by
  unfold resolveIn
  refine .bind (resolver.keeps_of_quiet
    (show Prog.Only Op.Quiet (perform .now) from ⟨trivial, fun _ => trivial⟩)
    trace) ?_
  rintro now began ⟨hbegan, hcount⟩
  refine .bind (resolver.lookUp_keeps _ now) ?_
  rintro entry looked ⟨hlooked, hcount', hlooks⟩
  refine .bind ((resolver.keeps_of_quiet
    (resolver.classify_quiet entry now) looked).returns
    (resolver.classify_returns entry now)) ?_
  rintro found classified ⟨⟨hclassified, hcount''⟩, hfailure⟩
  have hadds : Adds [] trace classified :=
    (hbegan.trans hlooked).trans hclassified
  have htold' : Told call.correlationId call.query [] classified :=
    htold.adds hadds
  match found with
  | .fresh cached =>
    dsimp only
    refine resolver.keeps_count (by simp) (.refl classified)
      fun counted hcounted => ?_
    refine resolver.keeps_emit hcounted htold'.mem fun hit hhit => ?_
    refine resolver.keeps_emitResult (.fresh cached) [⟨entry, now⟩]
      (hhit.mem htold'.mem) fun told hends => ?_
    refine resolver.keeps_quiet (resolver.maybePrefetch_quiet call _ _)
      (.refl told) fun _ after hafter => ?_
    exact .ret ((hends.adds hafter).of_hit (htold'.adds hhit))
  | .failure cached =>
    refine .step trivial fun counting _ => ?_
    refine .step ?_ fun telling _ => ?_
    · exact (Adds.count classified .hits counting).mem htold'.mem
    have hhit := (Adds.count classified .hits counting).trans
      (.emit _ (.cacheHit call.correlationId call.group) telling)
    refine .bind (resolver.serveFailure_keeps call cached now _
      (hhit.mem htold'.mem) (Or.inl ?_)) ?_
    · have hzero : counted .failureHits classified = 0 := by
        rw [hcount'', hcount', hcount, hcounted]
      have hhits : counted .hits [⟨.count .hits, counting⟩] = 1 := rfl
      have hfailures : counted .failureHits
        [⟨.count .hits, counting⟩] = 0 := rfl
      have htelling : ∀ counter event, counted counter
        [⟨.emit event, telling⟩] = 0 := fun _ _ => rfl
      simp only [counted_append, hzero, hhits, hfailures, htelling]
      omega
    · intro reply after hends
      exact .ret (hends.of_hit (htold'.adds hhit))
  | .staleNow cached =>
    dsimp only
    refine resolver.keeps_count (by simp) (.refl classified)
      fun counted hcounted => ?_
    refine resolver.keeps_emit hcounted htold'.mem fun hit hhit => ?_
    refine .bind (resolver.serveStale_keeps call cached _
      (hhit.mem htold'.mem)) ?_
    intro reply after hends
    exact .ret (hends.of_hit (htold'.adds hhit))
  | .refresh stale backoff =>
    dsimp only
    refine resolver.keeps_count (by simp) (.refl classified)
      fun counted hcounted => ?_
    refine resolver.keeps_emit hcounted htold'.mem fun miss hmiss => ?_
    have hmissed : Missed resolver call false miss :=
      ⟨htold'.adds hmiss, nofun, fun hstored =>
        (hlooks hstored).mono (hclassified.grows.trans hmiss.grows)⟩
    split
    · exact .ret ⟨rfl, hmissed⟩
    · exact resolver.leadCall_keeps call none _ hmissed

/-! ## Every job -/

theorem reject_keeps {id : ℕ} (error : Error) (htold : Told id query [] trace) :
    resolver.eventPath.Keeps (.resolve query)
      (resolver.eventPath.done (.resolve query)) (reject id error) trace := by
  refine resolver.keeps_emit (.refl trace) htold.mem fun after hafter => ?_
  exact .ret ⟨id, htold.adds hafter⟩

theorem selectBackends_keeps (question : Question) {id : ℕ}
    (hbegun : Begun id query trace) :
    resolver.eventPath.Keeps first (fun _ after => Begun id query after)
      (resolver.selectBackends question id) trace := by
  unfold selectBackends
  dsimp only
  refine .step hbegun.1.mem fun routed _ => ?_
  have hrouted := hbegun.route
    (.staticRoute id (resolver.policy question.name)) rfl routed
  split_ifs
  · refine .step trivial fun decision _ => ?_
    have hdecided := hrouted.act
      (.hookSelect question (resolver.policy question.name)) trivial decision
    match decision with
    | none => exact .ret hdecided
    | some (.ok (.use group)) =>
      refine .step hdecided.1.mem fun told _ => ?_
      exact .ret (hdecided.route (.hookDecision id (.use group)) rfl told)
    | some (.ok .abstain) =>
      refine .step hdecided.1.mem fun told _ => ?_
      exact .ret (hdecided.route (.hookDecision id .abstain) rfl told)
    | some (.error message) =>
      refine .step hdecided.1.mem fun told _ => ?_
      exact .ret (hdecided.route (.hookDecision id .failed) rfl told)
  · exact .ret hrouted

theorem resolveQuestion_keeps (question : Question) {id : ℕ}
    (hbegun : Begun id query trace) :
    resolver.eventPath.Keeps (.resolve query)
      (resolver.eventPath.done (.resolve query))
      (resolver.resolveQuestion query question id) trace := by
  unfold resolveQuestion
  refine .bind (resolver.selectBackends_keeps question hbegun) ?_
  intro selection after hafter
  match selection with
  | .dropped => exact .ret trivial
  | .rejected error => exact resolver.reject_keeps error hafter.1
  | .selected group backends decision =>
    exact resolver.resolveIn_keeps ⟨query, id, group, backends, decision⟩
      hafter.1 hafter.2

theorem fakeIpAnswer_keeps {id : ℕ} (hbegun : Begun id query trace) :
    resolver.eventPath.Keeps first (fun _ after => Begun id query after)
      (resolver.fakeIpAnswer query) trace := by
  unfold fakeIpAnswer
  split_ifs
  · exact ⟨trivial, fun answer _ =>
      hbegun.act (.fakeIpAnswer query) trivial answer⟩
  · exact .ret hbegun

theorem resolve_keeps (query : Message) :
    resolver.eventPath.Keeps (.resolve query)
      (resolver.eventPath.done (.resolve query)) (resolver.resolve query)
      [] := by
  unfold resolve
  refine .step trivial fun id _ => ?_
  dsimp only
  refine .step (List.mem_singleton_self id) fun received _ => ?_
  have hbegun : Begun id query ([] ++ [⟨.nextCorrelationId, id⟩] ++
      [⟨.emit (receivedEvent id query), received⟩]) :=
    ⟨⟨rfl, [], by simp, rfl⟩, rfl⟩
  change resolver.eventPath.Keeps _ _ _ ([] ++ [⟨.nextCorrelationId, id⟩] ++
    [⟨.emit (receivedEvent id query), received⟩])
  generalize [] ++ [⟨.nextCorrelationId, id⟩] ++
    [(⟨.emit (receivedEvent id query), received⟩ : ResolverAct)] = trace
    at hbegun ⊢
  cases query.questions.head? with
  | none => exact resolver.reject_keeps .noRoute hbegun.1
  | some question =>
    refine .bind (resolver.fakeIpAnswer_keeps hbegun) ?_
    intro synthesized after hafter
    match synthesized with
    | .ok (some answer) =>
      refine .step hafter.1.mem fun routed _ => ?_
      have hrouted := hafter.route (.fakeIpTerminal id) rfl routed
      refine resolver.keeps_emit (.refl _) hrouted.1.mem
        fun told htold => ?_
      exact .ret ⟨id, hrouted.1.adds htold⟩
    | .error error => exact resolver.reject_keeps error hafter.1
    | .ok none => exact resolver.resolveQuestion_keeps question hafter

/-! ## Refreshes and purges -/

theorem endRefresh_keeps (job : RefreshJob) (guard : Option LeaderGuard) :
    resolver.eventPath.Keeps (.refresh job)
      (resolver.eventPath.done (.refresh job)) (endRefresh guard) trace := by
  refine resolver.keeps_quiet (dropGuard_quiet guard) (.refl trace)
    fun _ _ _ => ?_
  exact .step trivial fun _ _ => .ret trivial

theorem settleRefresh_quiet (origin : UpstreamCall) (job : RefreshJob)
    (result : Except Error UpstreamAnswer) :
    Prog.Only Op.Quiet (resolver.settleRefresh origin job result) := by
  unfold settleRefresh
  split
  · exact trivial
  · exact resolver.settleFailure_quiet _ _ _ _ _ _

theorem refreshCall_keeps (job : RefreshJob) {id : ℕ} (backends : ℕ)
    (hid : id ∈ drawnIds trace) :
    resolver.eventPath.Keeps (.refresh job)
      (resolver.eventPath.done (.refresh job))
      (resolver.refreshCall job id backends) trace := by
  unfold refreshCall
  refine resolver.keeps_act (by trivial) (.refl trace)
    fun now _ hnow _ _ => ?_
  refine resolver.keeps_act (by trivial) hnow fun origin _ hasked _ _ => ?_
  refine resolver.keeps_quiet (resolver.queryUpstream_quiet _ _ _ _ _) hasked
    fun ended _ hreturned => ?_
  refine resolver.keeps_act (by trivial) hreturned fun _ _ hcalled _ _ => ?_
  match ended with
  | .dropped => exact resolver.endRefresh_keeps job job.guard
  | .panicked => exact resolver.endRefresh_keeps job job.guard
  | .done result =>
    refine resolver.keeps_quiet (resolver.settleRefresh_quiet _ _ _)
      hcalled fun settled _ hsettled => ?_
    match settled with
    | .dropped => exact resolver.endRefresh_keeps job job.guard
    | .panicked => exact resolver.endRefresh_keeps job job.guard
    | .done staleUsed =>
      refine resolver.keeps_quiet (finish_quiet _ _) hsettled
        fun _ _ hfinished => ?_
      refine resolver.keeps_emitCache hfinished hid fun _ _ => ?_
      exact .step trivial fun _ _ => .ret trivial

theorem refresh_keeps (job : RefreshJob) :
    resolver.eventPath.Keeps (.refresh job)
      (resolver.eventPath.done (.refresh job)) (resolver.refresh job)
      [] := by
  unfold refresh
  refine .step trivial fun running _ => ?_
  split_ifs
  · refine .step trivial fun id _ => ?_
    have hid : id ∈ drawnIds ([] ++ [⟨.scheduled, running⟩] ++
        [⟨.nextCorrelationId, id⟩]) := List.mem_singleton_self id
    generalize [] ++ [⟨.scheduled, running⟩] ++
      [(⟨.nextCorrelationId, id⟩ : ResolverAct)] = trace at hid ⊢
    refine resolver.keeps_count (by simp) (.refl trace)
      fun counted hcounted => ?_
    refine resolver.keeps_emitCache hcounted hid fun started hstarted => ?_
    split
    · exact resolver.refreshCall_keeps job _ (hstarted.mem hid)
    · refine resolver.keeps_emitCache hstarted hid fun _ _ => ?_
      exact resolver.endRefresh_keeps job job.guard
  · exact resolver.endRefresh_keeps job job.guard

theorem sweepShards_quiet (scope : Scope) (indices : List ℕ) :
    Prog.Only Op.Quiet (sweepShards scope indices) := by
  induction indices with
  | nil => exact trivial
  | cons index rest ih =>
    exact .step trivial fun _ => ih.bind fun _ => trivial

theorem sweep_quiet (scope : Scope) :
    Prog.Only Op.Quiet (resolver.sweep scope) := by
  unfold sweep
  split_ifs
  · exact sweepShards_quiet scope _
  · exact trivial

theorem purge_keeps (scope : Scope) :
    resolver.eventPath.Keeps (.purge scope)
      (resolver.eventPath.done (.purge scope)) (resolver.purge scope)
      trace := by
  unfold purge
  refine resolver.keeps_act (by trivial) (.refl trace)
    fun epoch _ hepoch _ _ => ?_
  refine resolver.keeps_quiet (resolver.sweep_quiet scope) hepoch
    fun removed _ hremoved => ?_
  have hcomplete : Prog.Only Op.Quiet (completeFlush scope epoch) := by
    cases scope <;> first | exact ⟨trivial, fun _ => trivial⟩ | trivial
  exact resolver.keeps_quiet hcomplete hremoved fun _ _ _ => .ret trivial

theorem eventPath_valid : resolver.eventPath.Valid resolver.machine where
  gives := exec_gives
  arrive job hexternal := by
    cases job with
    | resolve query => exact ⟨rfl, rfl⟩
    | purge scope => rfl
    | join call key progress => cases hexternal
    | refresh job => cases hexternal
  spawn op job hspawn := by
    obtain ⟨refresh, _, rfl⟩ := spawns_eq_some hspawn
    exact ⟨rfl, rfl⟩
  code first job trace hpre := by
    cases job with
    | resolve query =>
      obtain ⟨rfl, rfl⟩ := hpre
      exact resolver.resolve_keeps query
    | join call key progress =>
      obtain ⟨rfl, hmissed⟩ := hpre
      exact resolver.joinFlight_keeps call key progress hmissed
    | refresh job =>
      obtain ⟨rfl, rfl⟩ := hpre
      exact resolver.refresh_keeps job
    | purge scope =>
      obtain rfl := hpre
      exact resolver.purge_keeps scope

end Keeps

end Resolver

end DnsLattice
