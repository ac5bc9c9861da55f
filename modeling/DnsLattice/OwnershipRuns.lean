import DnsLattice.OwnershipRules

/-!
# Every run keeps a leader alone with its key

The programs are gone through from the inside out.  A failover loop which has
failed has stored nothing, so what the leader knew about the store before the
loop is still true when it settles the failure and tells its followers.
-/

namespace DnsLattice

open Logic

namespace Ownership

variable {resolver : Resolver} {allows : Condition Op Resp World Job}
  {thread : Thread World Job}

/-! ## The upstream call -/

def Failed (ended : Resolver.Ended (Except Error UpstreamAnswer)) : Prop :=
  ∃ result, ended = .done result ∧ isFailure result = true

theorem failed_done (result : Except Error UpstreamAnswer) :
    Failed (.done result) ↔ isFailure result = true :=
  ⟨fun ⟨_, heq, h⟩ => Resolver.Ended.done.inj heq ▸ h,
    fun h => ⟨result, rfl, h⟩⟩

def Proper (result : Except Error UpstreamAnswer) : Prop :=
  ∀ answer entry, result = .ok answer → answer.entry = some entry →
    entry.failure = none ∧ entry.message.header.rcode.failing = false

structure LoopEnds (resolver : Resolver) (core : Core) (task : ℕ)
    (group : UpstreamGroupId) (query : Message) (guard : Option LeaderGuard)
    (prefetch : Bool) (good : ℕ → CachedAnswer → Prop)
    (calls : UpstreamCall → Prop) (origin : UpstreamCall) (failed : Prop) :
    Prop where
  leading : Leading resolver core task group query guard prefetch
    (fun clock held => failed → good clock held) calls
  unstored : failed → Unstored core task origin

/-- What is stored besides the expired answer of the leader is no answer which
could be served. -/
def Leftover (resolver : Resolver) (stale : Option CachedAnswer)
    (held : CachedAnswer) : Prop :=
  held.failure = none → resolver.cache.serveStale.isSome = true →
    stale = some held

def Settled (allows : Condition Op Resp World Job)
    (result : Except Error UpstreamAnswer) (stale : Option CachedAnswer) :
    Resolver.Ended (Option CachedAnswer) → Prop
  | .done used =>
      (isFailure result = true → used = stale) ∧
        (isFailure result = false → used = none)
  | .panicked => ¬Careful allows
  | .dropped => True

section Upstream

variable {frame : Core → Prop} (hframe : Lasting resolver frame)
  {group : UpstreamGroupId} {query : Message} {guard : Option LeaderGuard}
  {prefetch : Bool} {good : ℕ → CachedAnswer → Prop} (hgood : Aging good)
  {calls : UpstreamCall → Prop} {origin : UpstreamCall}
  {stored : Option (List UInt8)}
  (hstored : ∀ key, stored = some key →
    resolver.storedKey group query = some key)

omit hframe hstored in
theorem aging_imp (fact : Prop) (hgood : Aging good) :
    Aging fun clock held => fact → good clock held :=
  fun clock later entry hle h hfact =>
    hgood clock later entry hle (h hfact)

omit hframe hstored in
theorem steady_loopEnds {task : ℕ} (hgood : Aging good) (failed : Prop) :
    Steady resolver task fun core => LoopEnds resolver core task group query
      guard prefetch good calls origin failed :=
  fun core after hrely h =>
    ⟨steady_leading (aging_imp failed hgood) core after hrely h.leading,
      fun hfailed => steady_unstored origin core after hrely
        (h.unstored hfailed)⟩

omit hframe hstored in
theorem LoopEnds.callEnded {core : Core} {task : ℕ} {failed : Prop}
    (h : LoopEnds resolver core task group query guard prefetch good
      (fun call => call = origin) origin failed)
    (hended : origin ∉ core.loops) :
    LoopEnds resolver core task group query guard prefetch good
      (fun _ => False) origin failed :=
  ⟨h.leading.callEnded hended, h.unstored⟩

omit hframe hstored in
theorem LoopEnds.of_leading {core : Core} {task : ℕ}
    (h : Leading resolver core task group query guard prefetch good calls)
    (hunstored : Unstored core task origin) (failed : Prop) :
    LoopEnds resolver core task group query guard prefetch good calls origin
      failed :=
  ⟨h.weaken (fun _ h _ => h) fun _ h => h, fun _ => hunstored⟩

include hframe hgood hstored

theorem storeAnswer_spec (now : ℕ) (answer : Message) :
    Spec resolver allows thread
      (fun core => (frame core ∧
        Leading resolver core thread.number group query guard prefetch good
          calls) ∧ Unstored core thread.number origin)
      (resolver.storeAnswer origin stored now answer)
      (fun result core => frame core ∧
        LoopEnds resolver core thread.number group query guard prefetch good
          calls origin (Failed (.done (.ok result))) ∧
        Proper (.ok result)) := by
  have hplain : Spec resolver allows thread
      (fun core => (frame core ∧
        Leading resolver core thread.number group query guard prefetch good
          calls) ∧ Unstored core thread.number origin)
      (pure ⟨answer, none, false⟩)
      (fun result core => frame core ∧
        LoopEnds resolver core thread.number group query guard prefetch good
          calls origin (Failed (.done (.ok result))) ∧
        Proper (.ok result)) := by
    refine .ret fun world _ h => ⟨h.1.1, .of_leading h.1.2 h.2 _, ?_⟩
    rintro _ entry ⟨⟩ hentry
    cases hentry
  unfold Resolver.storeAnswer
  cases stored with
  | none => exact hplain
  | some key =>
    dsimp only
    cases hentry : cacheableAnswer origin answer now
        resolver.cache.ttlPolicy with
    | none => exact hplain
    | some entry =>
      obtain ⟨rfl, hanswer, hrcode, hkind⟩ := cacheableAnswer_eq_some hentry
      have hgoodcode : answer.header.rcode.failing = false := by
        rcases hkind with hkind | hkind <;> rw [hkind] <;> rfl
      refine .bind (insertIf_spec hframe hgood (hstored key rfl)
        (fun _ => by rw [hrcode, hgoodcode]) (by simp [hanswer]) now)
        fun wasStored => .ret fun world _ h => ?_
      -- a cacheable answer is no failure
      have hnot : ¬Failed (.done (.ok ⟨answer, some entry, wasStored⟩)) := by
        rintro ⟨_, ⟨⟩, hfailed⟩
        exact absurd (hgoodcode.symm.trans hfailed) (by simp)
      refine ⟨h.1, ⟨h.2.weaken (fun _ _ hfailed => absurd hfailed hnot)
        fun _ h => h, fun hfailed => absurd hfailed hnot⟩, ?_⟩
      rintro _ same ⟨⟩ hsame
      obtain rfl := Option.some.inj hsame
      exact ⟨hanswer, by rw [hrcode, hgoodcode]⟩

theorem queryUpstream_spec (correlationId : Option ℕ) (now : ℕ)
    (backends : List ℕ) (last : Option Error) :
    Spec resolver allows thread
      (fun core => (frame core ∧
        Leading resolver core thread.number group query guard prefetch good
          calls) ∧ Unstored core thread.number origin)
      (resolver.queryUpstream origin correlationId stored now backends last)
      (fun ended core => (frame core ∧
        LoopEnds resolver core thread.number group query guard prefetch good
          calls origin (Failed ended)) ∧
        (∀ result, ended = .done result → Proper result) ∧
        (ended = .panicked → backends = [] ∧ last = none)) := by
  have hsteady := (@steady_lead resolver thread.number _ hframe group query
    guard prefetch _ hgood calls).and (steady_unstored origin)
  have hstable := @stable_of_steady _ allows _ _ hsteady
  induction backends generalizing last with
  | nil =>
    cases last with
    | none =>
      exact .ret fun _ _ h => ⟨⟨h.1.1, .of_leading h.1.2 h.2 _⟩,
        by simp, by simp⟩
    | some error =>
      exact .ret fun _ _ h => ⟨⟨h.1.1, .of_leading h.1.2 h.2 _⟩,
        by simp [Proper], by simp⟩
  | cons backend rest ih =>
    unfold Resolver.queryUpstream
    refine .bind (Resolver.observeUpstream_triple onCore hstable _ _)
      fun _ => ?_
    refine .bind (callBackend_spec hsteady origin backend)
      fun returned => ?_
    match returned with
    | none =>
      exact .ret fun _ _ h => ⟨⟨h.1.1, .of_leading h.1.2 h.2 _⟩,
        by simp, by simp⟩
    | some (.ok answer) =>
      refine .bind (Resolver.observeUpstream_triple onCore hstable _ _)
        fun _ => ?_
      refine .bind (storeAnswer_spec hframe hgood hstored now answer)
        fun result => .ret fun _ _ h => ⟨⟨h.1, h.2.1⟩, ?_, by simp⟩
      rintro _ ⟨⟩
      exact h.2.2
    | some (.error error) =>
      dsimp only
      split_ifs
      · refine .bind (Resolver.observeUpstream_triple onCore hstable _ _)
          fun _ => (ih (some error)).post fun _ _ _ h => ⟨h.1, h.2.1, ?_⟩
        exact fun hpanicked => absurd (h.2.2 hpanicked).2 (by simp)
      · refine .bind (Resolver.observeUpstream_triple onCore hstable _ _)
          fun _ => .ret fun _ _ h => ⟨⟨h.1.1, .of_leading h.1.2 h.2 _⟩,
            by simp [Proper], by simp⟩

end Upstream

section Settle

variable {frame : Core → Prop} (hframe : Lasting resolver frame)
  {group : UpstreamGroupId} {query : Message} {guard : Option LeaderGuard}
  {prefetch : Bool} {origin : UpstreamCall} {stored : Option (List UInt8)}
  {result : Except Error UpstreamAnswer}

include hframe

/-- Without an expired answer to serve, the failure may be remembered: no
answer which could still be served is replaced. -/
theorem rememberFailure_spec
    (hstored : ∀ key, stored = some key →
      resolver.storedKey group query = some key)
    (previous : Option ℕ) (failedAt : ℕ) :
    Spec resolver allows thread
      (fun core => (frame core ∧
        Leading resolver core thread.number group query guard prefetch
          (Expired resolver none) fun _ => False) ∧
        Unstored core thread.number origin)
      (resolver.rememberFailure origin query result stored previous failedAt)
      (fun _ core => frame core ∧
        Leading resolver core thread.number group query guard prefetch
          (fun _ held => Leftover resolver none held) fun _ => False) := by
  have hleft : ∀ clock held, Expired resolver none clock held →
      Leftover resolver none held := by
    rintro clock held ⟨_, hstale | hfailure | hoff⟩ hanswer hserve
    · exact hstale
    · simp [hanswer] at hfailure
    · simp [hoff] at hserve
  have hplain : Spec resolver allows thread
      (fun core => (frame core ∧
        Leading resolver core thread.number group query guard prefetch
          (Expired resolver none) fun _ => False) ∧
        Unstored core thread.number origin)
      (pure ())
      (fun _ core => frame core ∧
        Leading resolver core thread.number group query guard prefetch
          (fun _ held => Leftover resolver none held) fun _ => False) :=
    .ret fun world _ h => ⟨h.1.1, h.1.2.weaken (hleft _) fun _ h => h⟩
  unfold Resolver.rememberFailure
  cases resolver.cache.failurePolicy with
  | none => exact hplain
  | some policy =>
    cases stored with
    | none => exact hplain
    | some key =>
      dsimp only
      have hfailure := failureEntry_failure origin query result failedAt
        ((previous.map policy.nextBackoff).getD policy.firstBackoff)
        policy.longestBackoff
      refine .bind (Triple.pre (insertIf_spec hframe
        (aging_expired resolver none) (hstored key rfl) ?_ ?_ failedAt) ?_)
        fun _ => .ret fun world _ h => ⟨h.1, h.2.weaken ?_ fun _ h => h⟩
      · intro hnone
        simp [hnone] at hfailure
      · rintro _ clock held ⟨hexpires, hstale | hfailed | hoff⟩ hanswer
        · cases hstale
        · simp [hanswer] at hfailed
        · exact ⟨hexpires, fun hserve => by simp [hoff] at hserve⟩
      · intro world _ h
        rw [failureEntry_origin]
        exact h
      · rintro held (hexpired | rfl)
        · exact hleft _ held hexpired
        · intro hnone
          simp [hnone] at hfailure

theorem forgetPrevious_spec {good : ℕ → CachedAnswer → Prop}
    (hgood : Aging good) (stored : Option (List UInt8)) (previous : Option ℕ) :
    Spec resolver allows thread
      (fun core => frame core ∧
        Leading resolver core thread.number group query guard prefetch good
          fun _ => False)
      (Resolver.forgetPrevious stored previous)
      (fun _ core => frame core ∧
        Leading resolver core thread.number group query guard prefetch good
          fun _ => False) := by
  unfold Resolver.forgetPrevious
  split
  · exact .bind (forgetFailure_spec (steady_lead hframe hgood _) _)
      fun _ => .ret fun _ _ h => h
  · exact .ret fun _ _ h => h

/-- A failure is answered with the expired answer of the leader, if it holds
one, and then it is not remembered. -/
theorem settleFailure_spec
    (hstored : ∀ key, stored = some key →
      resolver.storedKey group query = some key)
    {stale : Option CachedAnswer}
    (hknown : ∀ core, frame core → Known resolver core stale)
    (previous : Option ℕ) :
    Spec resolver allows thread
      (fun core => frame core ∧
        LoopEnds resolver core thread.number group query guard prefetch
          (Expired resolver stale) (fun _ => False) origin
          (isFailure result = true))
      (resolver.settleFailure origin query result stale stored previous)
      (fun ended core => (frame core ∧
        Leading resolver core thread.number group query guard prefetch
          (fun _ held => isFailure result = true →
            Leftover resolver stale held) fun _ => False) ∧
        Settled allows result stale ended) := by
  unfold Resolver.settleFailure
  split_ifs with hfailed
  · have hsteady := (hframe.steady thread.number).and
      (@steady_loopEnds resolver group query guard prefetch _
        (fun _ => False) origin _ (aging_expired resolver stale)
        (isFailure result = true))
    refine .bind (quiet_spec hsteady rfl) fun failedAt => ?_
    have hleft : ∀ clock held,
        (isFailure result = true → Expired resolver stale clock held) →
        isFailure result = true → Leftover resolver stale held := by
      intro clock held h _ hanswer hserve
      obtain ⟨_, hstale | hfailure | hoff⟩ := h hfailed
      · exact hstale
      · simp [hanswer] at hfailure
      · simp [hoff] at hserve
    cases stale with
    | none =>
      refine .bind (Triple.pre (rememberFailure_spec hframe hstored previous
        failedAt) fun world _ h => ⟨⟨h.1, h.2.leading.weaken
          (fun _ h => h hfailed) fun _ h => h⟩, h.2.unstored hfailed⟩)
        fun _ => .ret fun world _ h => ⟨⟨h.1, h.2.weaken
          (fun _ h _ => h) fun _ h => h⟩, ?_⟩
      exact ⟨fun _ => rfl, fun hgood => by simp [hfailed] at hgood⟩
    | some entry =>
      -- an expired answer is held only where it may be served
      refine .assume (fun world _ h =>
        (hknown world.core h.1 entry rfl).2.2.2) fun hserve => ?_
      obtain ⟨policy, hpolicy⟩ := Option.isSome_iff_exists.mp hserve
      rw [hpolicy]
      refine .bind (addInstant_spec hsteady _ _) fun deadline => ?_
      cases deadline with
      | none =>
        exact .ret fun world _ h => ⟨⟨h.1.1,
          h.1.2.leading.weaken (hleft _) fun _ h => h⟩, h.2 rfl⟩
      | some deadline =>
        refine Triple.pre (.bind (quiet_spec hsteady rfl)
          fun _ => .ret fun world _ h => ⟨⟨h.1,
            h.2.leading.weaken (hleft _) fun _ h => h⟩, ?_⟩)
          fun _ _ h => h.1
        exact ⟨fun _ => rfl, fun hgood => by simp [hfailed] at hgood⟩
  · refine .bind (Triple.pre (forgetPrevious_spec hframe
      (aging_imp (isFailure result = true) (aging_expired resolver stale)) stored
      previous) fun _ _ h => ⟨h.1, h.2.leading⟩)
      fun _ => .ret fun world _ h => ⟨⟨h.1, h.2.weaken
        (fun _ _ hyes => absurd hyes hfailed) fun _ h => h⟩, ?_⟩
    exact ⟨fun hyes => absurd hyes hfailed, fun _ => rfl⟩

end Settle

/-- What a leader publishes serves whatever answer is left in the store. -/
theorem settledOutcome_serves {origin : UpstreamCall}
    {result : Except Error UpstreamAnswer} {stale used : Option CachedAnswer}
    (hsettled : Settled allows result stale (.done used))
    (hproper : Proper result) {entry : CachedAnswer}
    (hleft : isFailure result = true → stale = some entry) :
    (Resolver.settledOutcome origin result used).Serves entry := by
  cases hfailed : isFailure result with
  | true =>
    rw [hsettled.1 hfailed, hleft hfailed]
    rfl
  | false =>
    rw [hsettled.2 hfailed]
    cases result with
    | error error => cases hfailed
    | ok answer =>
      unfold Resolver.settledOutcome outcomeOf
      dsimp only
      cases hentry : answer.entry with
      | none => exact hfailed
      | some cached => exact hproper answer cached rfl hentry

/-! ## Answers -/

def CallEnds (resolver : Resolver) (allows : Condition Op Resp World Job)
    (call : Call) (result : Job ⊕ Reply) (core : Core) : Prop :=
  ∃ reply, result = .inr reply ∧
    (Careful allows → ReplyOk resolver core call.query reply)

theorem callEnds_of_no_answer {call : Call} {core : Core} {reply : Reply}
    (hanswer : ∀ answer lookups, reply ≠ .answered answer lookups)
    (hpanicked : ∀ lookups, Careful allows → reply ≠ .panicked lookups) :
    CallEnds resolver allows call (.inr reply) core :=
  ⟨reply, rfl, fun hcareful => ⟨fun lookups => hpanicked lookups hcareful,
    fun answer lookups heq => absurd heq (hanswer answer lookups)⟩⟩

theorem callEnds_of_served {call : Call} {core : Core} {source : Source}
    {result : Except Error Message} {lookups : List Lookup}
    {stale : Option CachedAnswer}
    (hmatches : Matches resolver core
      (resolver.storedKey call.group call.query) lookups stale)
    (hserved : Careful allows → ∀ entry key, stale = some entry →
      StaleFound lookups entry →
      resolver.storedKey call.group call.query = some key →
      core.store.Holds key entry →
      Served entry ⟨call.group, call.decision, source, result⟩) :
    CallEnds resolver allows call
      (.inr (call.reply source result lookups)) core := by
  refine ⟨_, rfl, fun hcareful => ⟨fun _ heq => (by cases heq), ?_⟩⟩
  rintro _ _ ⟨⟩ hserve entry key hfound hkey
  obtain ⟨horigin, honly⟩ := hmatches hserve entry hfound
  exact ⟨horigin, fun hheld => hserved hcareful entry key
    (honly key hkey hheld) hfound hkey hheld⟩

theorem served_stale {group : UpstreamGroupId} {query : Message}
    {decision : Option RouteDecision} {entry : CachedAnswer}
    (hrcode : entry.message.header.rcode.failing = false) :
    Served entry ⟨group, decision, .stale entry,
      resolver.staleResult query entry⟩ := by
  refine ⟨⟨_, rfl, ?_⟩, ?_, by simp⟩
  · rw [markStaleAnswer_header, alignEdns_header]
    exact hrcode
  · rintro _ ⟨⟩
    rfl

theorem served_fresh {group : UpstreamGroupId} {query : Message}
    {decision : Option RouteDecision} {entry cached : CachedAnswer}
    (hrcode : cached.message.header.rcode.failing = false) (now : ℕ) :
    Served entry ⟨group, decision, .fresh cached,
      freshResult query cached now⟩ := by
  refine ⟨⟨_, rfl, ?_⟩, by simp, by simp⟩
  rw [alignEdns_header]
  exact hrcode

theorem followerReply_served {call : Call} {lookups : List Lookup}
    {reply : Reply} {outcome : Outcome}
    (h : resolver.FollowerReply call lookups reply outcome) :
    ∃ source result, reply = call.reply source result lookups ∧
      ∀ entry : CachedAnswer, outcome.Serves entry →
        entry.message.header.rcode.failing = false →
        Served entry ⟨call.group, call.decision, source, result⟩ := by
  cases outcome with
  | stale other =>
    refine ⟨_, _, h, ?_⟩
    rintro entry rfl hrcode
    exact served_stale hrcode
  | cached cached =>
    obtain ⟨now, rfl⟩ := h
    exact ⟨_, _, rfl, fun _ hserves _ => served_fresh hserves.2 now⟩
  | raw origin answer =>
    refine ⟨_, _, h, fun _ hserves _ => ⟨⟨_, rfl, ?_⟩, by simp, by simp⟩⟩
    rw [alignEdns_header]
    exact hserves
  | failed origin error => exact ⟨_, _, h, fun _ hserves => hserves.elim⟩

/-- The call waits for the flight, which serves the expired answer it
holds. -/
theorem follower_callEnds {call : Call} {core : Core} {id : ℕ} {key : List UInt8}
    {stale : Option CachedAnswer} {lookups : List Lookup} {reply : Reply}
    {outcome : Outcome}
    (hkey : resolver.cacheKey call.group call.query = some key)
    (hknown : Known resolver core stale)
    (hfollows : Careful allows → Follows core id key stale)
    (hmatches : Matches resolver core
      (resolver.storedKey call.group call.query) lookups stale)
    (hfated : Fated core id outcome)
    (hreply : resolver.FollowerReply call lookups reply outcome) :
    CallEnds resolver allows call (.inr reply) core := by
  obtain ⟨source, result, rfl, hserved⟩ := followerReply_served hreply
  refine callEnds_of_served hmatches ?_
  intro hcareful entry stored hentry _ hstored hheld
  obtain rfl := Option.some.inj
    (hkey.symm.trans (Resolver.storedKey_eq_some hstored).2)
  obtain ⟨flight, hflight, _, hserves⟩ := hfollows hcareful
  obtain ⟨same, hsame, hfate⟩ := hfated
  obtain rfl := Option.some.inj (hflight.symm.trans hsame)
  exact hserved entry ((hserves entry hentry).2 outcome hfate hheld)
    (hknown entry hentry).2.2.1

theorem lasting_waits (id : ℕ) (key : List UInt8)
    (stored : Option (List UInt8)) (lookups : List Lookup)
    (stale : Option CachedAnswer) :
    Lasting resolver fun core => (Known resolver core stale ∧
      (Careful allows → Follows core id key stale)) ∧
      Matches resolver core stored lookups stale :=
  (lasting_follows _ id key stale).and (lasting_matches _ _ _)

theorem awaitRefresh_spec {call : Call} {id : ℕ} {key : List UInt8}
    {stale : CachedAnswer}
    (hkey : resolver.cacheKey call.group call.query = some key)
    (lookups : List Lookup) :
    Spec resolver allows thread
      (fun core => (Known resolver core (some stale) ∧
        (Careful allows → Follows core id key (some stale))) ∧
        Matches resolver core (resolver.storedKey call.group call.query)
          lookups (some stale))
      (resolver.awaitRefresh call id stale lookups)
      (CallEnds resolver allows call) := by
  have hframe := @lasting_waits resolver allows id key
    (resolver.storedKey call.group call.query) lookups (some stale)
  have hserve : Spec resolver allows thread
      (fun core => (Known resolver core (some stale) ∧
        (Careful allows → Follows core id key (some stale))) ∧
        Matches resolver core (resolver.storedKey call.group call.query)
          lookups (some stale))
      (do return .inr (← resolver.serveStale call stale lookups))
      (CallEnds resolver allows call) := by
    refine .bind (Resolver.serveStale_triple onCore
      (stable_of_steady (hframe.steady thread.number)) call stale lookups)
      fun reply => .ret fun world _ h => ?_
    obtain ⟨⟨⟨hknown, _⟩, hmatches⟩, rfl⟩ := h
    refine callEnds_of_served hmatches ?_
    rintro _ _ _ ⟨⟩ _ _ _
    exact served_stale (hknown stale rfl).2.2.1
  refine .bind (wait_spec (hframe.steady thread.number) id true)
    fun waited => ?_
  cases waited with
  | done outcome =>
    refine Triple.pre (.bind (Resolver.finishFollower_triple onCore
      (stable_of_steady ((hframe.and (lasting_fated id outcome)).steady
        thread.number)) call outcome lookups)
      fun reply => .ret fun world _ h => ?_)
      fun _ _ h => ⟨h.1, h.2 outcome rfl⟩
    obtain ⟨⟨⟨⟨hknown, hfollows⟩, hmatches⟩, hfated⟩, hreply⟩ := h
    exact follower_callEnds hkey hknown hfollows hmatches hfated
      hreply
  | abandoned => exact hserve.pre fun _ _ h => h.1
  | timedOut => exact hserve.pre fun _ _ h => h.1
  | dropped =>
    exact .ret fun _ _ _ => callEnds_of_no_answer (by simp) (by simp)

/-! ## One call of `resolve` -/

section Call

variable {call : Call} (hcall : CallOk thread call)

include hcall

theorem leadCall_spec {guard : Option LeaderGuard} (progress : Progress) :
    Spec resolver allows thread
      (fun core => (Known resolver core progress.stale ∧
        Matches resolver core (resolver.storedKey call.group call.query)
          progress.lookups progress.stale) ∧
        Leading resolver core thread.number call.group call.query guard false
          (Expired resolver progress.stale) fun _ => False)
      (resolver.leadCall call guard progress)
      (CallEnds resolver allows call) := by
  have hframe : Lasting resolver fun core =>
      Known resolver core progress.stale ∧
        Matches resolver core (resolver.storedKey call.group call.query)
          progress.lookups progress.stale :=
    (lasting_known _).and (lasting_matches _ _ _)
  have hgood := aging_expired resolver progress.stale
  have hdrop : ∀ {good : ℕ → CachedAnswer → Prop} (reply : Reply),
      Aging good → (∀ answer lookups, reply ≠ .answered answer lookups) →
      (∀ lookups, Careful allows → reply ≠ .panicked lookups) →
      Spec resolver allows thread
        (fun core => (Known resolver core progress.stale ∧
          Matches resolver core (resolver.storedKey call.group call.query)
            progress.lookups progress.stale) ∧
          Leading resolver core thread.number call.group call.query guard
            false good fun _ => False)
        (do dropGuard guard; return .inr reply)
        (CallEnds resolver allows call) := by
    intro good reply hgood hanswer hpanicked
    exact .bind (dropGuard_spec hframe hgood) fun _ => .ret fun _ _ _ =>
      callEnds_of_no_answer hanswer hpanicked
  refine .bind (Resolver.startInstant_triple onCore
    (stable_of_steady (steady_lead hframe hgood _)) progress) fun now => ?_
  refine .bind (beginCall_spec hframe hgood fun _ _ _ h => h.1)
    fun origin => ?_
  refine Triple.pre (.bind (queryUpstream_spec hframe hgood
    (fun _ h => h) _ now _ none) fun ended => ?_)
    fun _ _ h => ⟨⟨h.1, h.2.1⟩, h.2.2.1⟩
  refine .assume (fun _ _ h => h.2) fun ⟨hproper, hpanicked⟩ =>
    .pre ?_ fun _ _ h => h.1
  refine .bind (endCall_spec ((hframe.steady thread.number).and
    (steady_loopEnds hgood (Failed ended))) origin) fun _ => ?_
  have hquiet := fun (world : World) => @LoopEnds.callEnded resolver
    call.group call.query guard false (Expired resolver progress.stale)
    origin world.core thread.number (Failed ended)
  cases ended with
  | dropped =>
    exact (hdrop .cancelled (aging_imp _ hgood) (by simp) (by simp)).pre
      fun world _ h => ⟨h.1.1, (hquiet world h.1.2 h.2).leading⟩
  | panicked =>
    -- a call has a backend to ask
    obtain ⟨hnone, _⟩ := hpanicked rfl
    have hpos := hcall.backends_pos
    rw [List.range_eq_nil] at hnone
    omega
  | done result =>
    refine Triple.pre (.bind (settleFailure_spec hframe (fun _ h => h)
      (fun _ h => h.1) progress.previousBackoff) fun settled => ?_)
      fun world _ h => ⟨h.1.1,
        propext (failed_done result) ▸ hquiet world h.1.2 h.2⟩
    have hleft : Aging fun _ held => isFailure result = true →
        Leftover resolver progress.stale held := fun _ _ _ _ h => h
    cases settled with
    | dropped =>
      exact (hdrop .cancelled hleft (by simp) (by simp)).pre
        fun _ _ h => h.1
    | panicked =>
      refine .assume (fun _ _ h => h.2) fun hcareless => ?_
      exact (hdrop (.panicked progress.lookups) hleft (by simp)
        fun _ hcareful => absurd hcareful hcareless).pre
          fun _ _ h => h.1
    | done used =>
      refine .assume (fun _ _ h => h.2) fun hsettled =>
        .pre ?_ fun _ _ h => h.1
      refine .bind (finish_spec hframe hleft ?_) fun _ => ?_
      · intro core _ _ hserve entry hleftover hanswer
        exact settledOutcome_serves hsettled (hproper result rfl)
          fun hfails => hleftover hfails hanswer hserve
      · cases used with
        | some entry =>
          have hstale : progress.stale = some entry := by
            cases hfails : isFailure result with
            | true => exact (hsettled.1 hfails).symm
            | false => cases hsettled.2 hfails
          refine .bind (Resolver.serveStale_triple onCore
            (stable_of_steady (hframe.steady thread.number)) call entry
            progress.lookups) fun reply => .ret fun world _ h => ?_
          obtain ⟨⟨hknown, hmatches⟩, rfl⟩ := h
          refine callEnds_of_served hmatches ?_
          intro _ same _ hsame _ _ _
          obtain rfl := Option.some.inj (hstale.symm.trans hsame)
          exact served_stale (hknown entry hstale).2.2.1
        | none =>
          refine .bind (Resolver.emitResult_triple onCore
            (stable_of_steady (hframe.steady thread.number)) _ _)
            fun _ => .ret fun world _ h => ?_
          refine callEnds_of_served h.2 ?_
          intro _ entry _ hstale _ _ _
          have hfails : isFailure result = false := by
            by_contra hfails
            have hnone := hsettled.1 (Bool.eq_true_of_not_eq_false hfails)
            rw [hstale] at hnone
            contradiction
          cases result with
          | error error => cases hfails
          | ok answer =>
            refine ⟨⟨_, rfl, ?_⟩, by simp, by simp⟩
            rw [alignEdns_header]
            exact hfails

end Call

/-! ## Background refreshes -/

section Refresh

variable {frame : Core → Prop} (hframe : Lasting resolver frame)

include hframe

theorem spawnStaleRefresh_spec (call : Call) (guard : LeaderGuard)
    (key : List UInt8) (stale : CachedAnswer) :
    Spec resolver allows thread
      (fun core => frame core ∧ RefreshOk resolver core thread.number
        ⟨call.query, call.group, key, some guard, some stale⟩)
      (Resolver.spawnStaleRefresh call guard key stale)
      (fun taken core => frame core ∧ (taken = false →
        RefreshOk resolver core thread.number
          ⟨call.query, call.group, key, some guard, some stale⟩)) := by
  have hsteady := (hframe.steady thread.number).and
    (@steady_refreshOk resolver thread.number
      ⟨call.query, call.group, key, some guard, some stale⟩)
  refine .bind (quiet_spec hsteady rfl) fun available => ?_
  split_ifs
  · refine .bind (quiet_spec hsteady rfl) fun running => ?_
    split_ifs
    · exact .bind (quiet_spec hsteady rfl)
        fun _ => .ret fun _ _ h => ⟨h.1, fun _ => h.2⟩
    · refine .bind (follower_spec hsteady _) fun _ => ?_
      refine .bind (spawn_spec hframe _) fun _ => ?_
      exact .bind (quiet_spec (hframe.steady thread.number) rfl)
        fun _ => .ret fun _ _ h => ⟨h, by simp⟩
  · exact .ret fun _ _ h => ⟨h.1, fun _ => h.2⟩

theorem startPrefetch_spec (hprivate : NoPrivate allows) {call : Call}
    {key : List UInt8}
    (hkey : resolver.storedKey call.group call.query = some key) :
    Spec resolver allows thread frame (resolver.startPrefetch call key)
      (fun _ => frame) := by
  have hsteady := hframe.steady thread.number
  have hcached := (Resolver.storedKey_eq_some hkey).2
  unfold Resolver.startPrefetch
  split_ifs with hcoalesce
  · refine .bind (joinOrLead_spec hsteady hprivate hcoalesce key .prefetch)
      fun join => ?_
    cases join with
    | follow flight =>
      refine Triple.pre ?_ fun _ _ h => h.1
      exact .bind (unfollow_spec hsteady flight)
        fun _ => quiet_spec hsteady rfl
    | lead guard =>
      refine Triple.pre (.bind (spawn_spec hframe _)
        fun _ => quiet_spec hsteady rfl) ?_
      rintro world _ ⟨hholds, hguarded, hquiet⟩
      refine ⟨hholds, hkey, by simp [Known], ?_, by simp,
        by simp [refreshGood], ?_⟩
      · rintro _ ⟨⟩
        exact ⟨key, hcached, hguarded⟩
      · intro _ bytes hbytes call' hcall' hkeyed
        obtain rfl := Option.some.inj (hcached.symm.trans hbytes)
        exact hquiet call' hcall' hkeyed
  · refine Triple.pre (.bind (spawn_spec hframe _)
      fun _ => quiet_spec hsteady rfl) ?_
    intro world _ hholds
    exact ⟨hholds, hkey, by simp [Known], by simp,
      fun _ hyes => absurd hyes hcoalesce,
      fun hyes => absurd hyes hcoalesce, fun hyes => absurd hyes hcoalesce⟩

theorem maybePrefetch_spec (hprivate : NoPrivate allows) (call : Call)
    (cached : CachedAnswer) (now : ℕ) :
    Spec resolver allows thread frame
      (resolver.maybePrefetch call cached now) (fun _ => frame) := by
  have hsteady := hframe.steady thread.number
  unfold Resolver.maybePrefetch
  cases resolver.cache.prefetch with
  | none => exact .ret fun _ _ h => h
  | some prefetch =>
    cases hkey : resolver.storedKey call.group call.query with
    | none => exact .ret fun _ _ h => h
    | some key =>
      refine .bind (quiet_spec hsteady rfl) fun previous => ?_
      dsimp only
      split_ifs
      · exact .ret fun _ _ h => h
      · exact .ret fun _ _ h => h
      · refine .bind (quiet_spec hsteady rfl) fun available => ?_
        split_ifs
        · refine .bind (quiet_spec hsteady rfl) fun running => ?_
          split_ifs
          · exact quiet_spec hsteady rfl
          · refine .bind (quiet_spec hsteady rfl) fun refreshing => ?_
            split_ifs
            · exact quiet_spec hsteady rfl
            · exact startPrefetch_spec hframe hprivate hkey
        · exact .ret fun _ _ h => h

theorem endRefresh_spec {group : UpstreamGroupId} {query : Message}
    {guard : Option LeaderGuard} {prefetch : Bool}
    {good : ℕ → CachedAnswer → Prop} (hgood : Aging good) :
    Spec resolver allows thread
      (fun core => frame core ∧
        Leading resolver core thread.number group query guard prefetch good
          fun _ => False)
      (Resolver.endRefresh guard)
      (fun result _ => result = .inr .ended) := by
  refine .bind (dropGuard_spec hframe hgood) fun _ => ?_
  exact .bind (quiet_spec (hframe.steady thread.number) rfl)
    fun _ => .ret fun _ _ _ => rfl

end Refresh

theorem settleRefresh_spec {job : RefreshJob} {origin : UpstreamCall}
    {result : Except Error UpstreamAnswer}
    (hstored : resolver.storedKey job.group job.query = some job.key) :
    Spec resolver allows thread
      (fun core => Known resolver core job.stale ∧
        LoopEnds resolver core thread.number job.group job.query job.guard
          job.stale.isNone (refreshGood resolver job.stale) (fun _ => False)
          origin (isFailure result = true))
      (resolver.settleRefresh origin job result)
      (fun ended core => (Known resolver core job.stale ∧
        Leading resolver core thread.number job.group job.query job.guard
          job.stale.isNone
          (fun _ held => job.stale.isSome = true →
            isFailure result = true → Leftover resolver job.stale held)
          fun _ => False) ∧
        (job.stale.isSome = true →
          Settled allows result job.stale ended)) := by
  unfold Resolver.settleRefresh
  cases hstale : job.stale with
  | none =>
    exact .ret fun _ _ h => ⟨⟨h.1, h.2.leading.weaken (by simp)
      fun _ h => h⟩, by simp⟩
  | some stale =>
    have hkey : ∀ key, some job.key = some key →
        resolver.storedKey job.group job.query = some key := by
      rintro _ ⟨⟩
      exact hstored
    have hsettle := @settleFailure_spec resolver allows thread _
      (lasting_known (some stale)) job.group job.query job.guard false
      origin _ result hkey (some stale) (fun _ h => h) none
    exact (hsettle.post fun _ _ _ h => ⟨⟨h.1.1, h.1.2.weaken
      (fun _ h _ => h) fun _ h => h⟩, fun _ => h.2⟩).pre
        fun _ _ h => ⟨h.1, h.2.leading.weaken
          (fun _ h hfailed => h hfailed rfl) fun _ h => h, h.2.unstored⟩

theorem refreshCall_spec {job : RefreshJob}
    (hfirst : thread.first = .refresh job)
    (hstored : resolver.storedKey job.group job.query = some job.key)
    (correlationId backends : ℕ) :
    Spec resolver allows thread
      (fun core => Known resolver core job.stale ∧
        Leading resolver core thread.number job.group job.query job.guard
          job.stale.isNone (refreshGood resolver job.stale) fun _ => False)
      (resolver.refreshCall job correlationId backends)
      (fun result _ => result = .inr .ended) := by
  have hframe : Lasting resolver fun core =>
      Known resolver core job.stale := lasting_known _
  have hgood := aging_refreshGood resolver job.stale
  have hkey : ∀ key, some job.key = some key →
      resolver.storedKey job.group job.query = some key := by
    rintro _ ⟨⟩
    exact hstored
  refine .bind (quiet_spec (steady_lead hframe hgood _) rfl) fun now => ?_
  refine .bind (beginCall_spec hframe hgood ?_) fun origin => ?_
  · intro hdriven clock entry h
    rw [hfirst] at hdriven
    exact (h hdriven).1
  refine Triple.pre (.bind (queryUpstream_spec hframe hgood hkey _ now _
    none) fun ended => ?_) fun _ _ h => ⟨⟨h.1, h.2.1⟩, h.2.2.1⟩
  refine .assume (fun _ _ h => h.2.1) fun hproper =>
    .pre ?_ fun _ _ h => h.1
  refine .bind (endCall_spec ((hframe.steady thread.number).and
    (steady_loopEnds hgood (Failed ended))) origin) fun _ => ?_
  have hquiet := fun (world : World) => @LoopEnds.callEnded resolver
    job.group job.query job.guard job.stale.isNone
    (refreshGood resolver job.stale) origin world.core thread.number
    (Failed ended)
  cases ended with
  | dropped =>
    exact (endRefresh_spec hframe (aging_imp _ hgood)).pre
      fun world _ h => ⟨h.1.1, (hquiet world h.1.2 h.2).leading⟩
  | panicked =>
    exact (endRefresh_spec hframe (aging_imp _ hgood)).pre
      fun world _ h => ⟨h.1.1, (hquiet world h.1.2 h.2).leading⟩
  | done result =>
    refine Triple.pre (.bind (settleRefresh_spec hstored)
      fun settled => ?_) fun world _ h => ⟨h.1.1,
        propext (failed_done result) ▸ hquiet world h.1.2 h.2⟩
    have hleft : Aging fun _ held => job.stale.isSome = true →
        isFailure result = true → Leftover resolver job.stale held :=
      fun _ _ _ _ h => h
    cases settled with
    | dropped => exact (endRefresh_spec hframe hleft).pre fun _ _ h => h.1
    | panicked => exact (endRefresh_spec hframe hleft).pre fun _ _ h => h.1
    | done used =>
      refine .assume (fun _ _ h => h.2) fun hsettled =>
        .pre ?_ fun _ _ h => h.1
      refine .bind (finish_spec hframe hleft ?_) fun _ => ?_
      · intro core _ hquery hserve entry hleftover hanswer
        have hsome : job.stale.isSome = true := by
          rwa [Option.isNone_eq_false_iff] at hquery
        exact settledOutcome_serves (hsettled hsome) (hproper result rfl)
          fun hfails => hleftover hsome hfails hanswer hserve
      · have hsteady := hframe.steady thread.number
        refine .bind (quiet_spec hsteady rfl) fun _ => ?_
        exact .bind (quiet_spec hsteady rfl) fun _ => .ret fun _ _ _ => rfl

theorem refresh_spec {job : RefreshJob} (hfirst : thread.first = .refresh job) :
    Spec resolver allows thread
      (fun core => RefreshOk resolver core thread.number job)
      (resolver.refresh job) (fun result _ => result = .inr .ended) := by
  have hframe : Lasting resolver fun core =>
      Known resolver core job.stale := lasting_known _
  have hgood := aging_refreshGood resolver job.stale
  refine .assume (fun _ _ h => h.stored) fun hstored => ?_
  have hsteady := @steady_lead resolver thread.number _ hframe job.group
    job.query job.guard job.stale.isNone _ hgood fun _ => False
  refine Triple.pre (.bind (quiet_spec hsteady rfl) fun running => ?_)
    fun _ _ h => ⟨h.known, h.leading⟩
  split_ifs
  · refine .bind (quiet_spec hsteady rfl) fun correlationId => ?_
    refine .bind (quiet_spec hsteady rfl) fun _ => ?_
    refine .bind (quiet_spec hsteady rfl) fun _ => ?_
    split
    · exact refreshCall_spec hfirst hstored correlationId _
    · exact .bind (quiet_spec hsteady rfl)
        fun _ => endRefresh_spec hframe hgood
  · exact endRefresh_spec hframe hgood

/-! ## From the lookup to the answer -/

structure Looked (resolver : Resolver) (core : Core)
    (stored : Option (List UInt8)) (lookups : List Lookup)
    (found : Option CachedAnswer) (now : ℕ) : Prop where
  now_le : now ≤ core.clock
  proper : ∀ entry, found = some entry → entry.origin ∈ core.offered ∧
    now < entry.staleUntil ∧ (entry.failure = none →
      entry.message.header.rcode.failing = false)
  agrees : Matches resolver core stored lookups found

theorem lasting_clock (now : ℕ) :
    Lasting resolver fun core => now ≤ core.clock :=
  fun _ _ hgrows h => h.trans hgrows.clock_le

theorem lasting_looked (stored : Option (List UInt8)) (lookups : List Lookup)
    (found : Option CachedAnswer) (now : ℕ) :
    Lasting resolver fun core =>
      Looked resolver core stored lookups found now := by
  intro core after hgrows h
  refine ⟨h.now_le.trans hgrows.clock_le, ?_,
    lasting_matches _ _ _ core after hgrows h.agrees⟩
  intro entry hentry
  obtain ⟨horigin, hfacts⟩ := h.proper entry hentry
  exact ⟨hgrows.offered _ horigin, hfacts⟩

section Looked

variable {core : Core} {stored : Option (List UInt8)}
  {lookups : List Lookup} {found : Option CachedAnswer} {now : ℕ}
  (hlooked : Looked resolver core stored lookups found now)

include hlooked

theorem Looked.known {stale : Option CachedAnswer} {backoff : Option ℕ}
    (hclass : resolver.Classified found now (.refresh stale backoff)) :
    Known resolver core stale := by
  rintro entry rfl
  obtain ⟨hfound, hanswer, _, hserve⟩ := hclass
  obtain ⟨horigin, _, hproper⟩ := hlooked.proper entry hfound
  exact ⟨horigin, hanswer, hproper hanswer, hserve⟩

theorem Looked.expired {stale : Option CachedAnswer} {backoff : Option ℕ}
    (hclass : resolver.Classified found now (.refresh stale backoff))
    {entry : CachedAnswer} (hentry : found = some entry) {clock : ℕ}
    (hclock : now ≤ clock) : Expired resolver stale clock entry := by
  cases stale with
  | some stale =>
    obtain ⟨hfound, _, hexpires, _⟩ := hclass
    obtain rfl := Option.some.inj (hfound.symm.trans hentry)
    exact ⟨hexpires.trans hclock, Or.inl rfl⟩
  | none =>
    obtain ⟨hexpires, hfailure⟩ := hclass entry hentry
    refine ⟨hexpires.trans hclock, Or.inr ?_⟩
    cases hserve : resolver.cache.serveStale.isSome with
    | false => exact Or.inr rfl
    | true =>
      exact Or.inl (hfailure hserve (hlooked.proper entry hentry).2.1)

theorem Looked.matches_stale {stale : Option CachedAnswer} {backoff : Option ℕ}
    (hclass : resolver.Classified found now (.refresh stale backoff)) :
    Matches resolver core stored lookups stale := by
  intro hserve entry hstale
  obtain ⟨horigin, honly⟩ := hlooked.agrees hserve entry hstale
  refine ⟨horigin, fun key hkey hheld => ?_⟩
  obtain ⟨_, _, _, hanswer, _⟩ := hstale
  obtain ⟨_, hexpired | hfailure | hoff⟩ :=
    hlooked.expired hclass (honly key hkey hheld) (le_refl now)
  · exact hexpired
  · simp [hanswer] at hfailure
  · simp [hoff] at hserve

theorem Looked.callEnds_fresh {call : Call} {cached : CachedAnswer}
    (hstored : stored = resolver.storedKey call.group call.query)
    (hclass : resolver.Classified found now (.fresh cached)) :
    CallEnds resolver allows call (.inr (call.reply (.fresh cached)
      (freshResult call.query cached now) lookups)) core := by
  subst hstored
  obtain ⟨hfound, hanswer, _⟩ := hclass
  exact callEnds_of_served hlooked.agrees fun _ _ _ _ _ _ _ =>
    served_fresh ((hlooked.proper cached hfound).2.2 hanswer) now

theorem Looked.callEnds_failure {call : Call} {cached : CachedAnswer}
    {result : Except Error Message}
    (hstored : stored = resolver.storedKey call.group call.query)
    (hclass : resolver.Classified found now (.failure cached)) :
    CallEnds resolver allows call
      (.inr (call.reply (.remembered cached) result lookups)) core := by
  subst hstored
  obtain ⟨hfound, hfailure⟩ := hclass
  -- a failure is no expired answer
  refine callEnds_of_served hlooked.agrees ?_
  rintro _ entry _ hentry ⟨_, _, _, hanswer, _⟩ _ _
  obtain rfl := Option.some.inj (hfound.symm.trans hentry)
  simp [hanswer] at hfailure

theorem Looked.callEnds_stale {call : Call} {cached : CachedAnswer}
    (hstored : stored = resolver.storedKey call.group call.query)
    (hclass : resolver.Classified found now (.staleNow cached)) :
    CallEnds resolver allows call (.inr (call.reply (.stale cached)
      (resolver.staleResult call.query cached) lookups)) core := by
  subst hstored
  obtain ⟨hfound, hanswer⟩ := hclass
  refine callEnds_of_served hlooked.agrees ?_
  intro _ entry _ hentry _ _ _
  obtain rfl := Option.some.inj (hfound.symm.trans hentry)
  exact served_stale ((hlooked.proper cached hfound).2.2 hanswer)

end Looked

theorem matches_nil (core : Core) (stored : Option (List UInt8)) :
    Matches resolver core stored [] none := by
  rintro _ entry ⟨lookup, hlookup, _⟩
  cases hlookup

theorem lookup_spec {holds : Core → Prop}
    (hsteady : Steady resolver thread.number holds) (key : List UInt8)
    (now : ℕ) {lookups : List Lookup} {stale : Option CachedAnswer}
    (hnow : ∀ core, holds core → now ≤ core.clock ∧
      Matches resolver core (some key) lookups stale) :
    Spec resolver allows thread holds (perform (.storeGet key now))
      (fun found core => (holds core ∧
        Looked resolver core (some key) (lookups ++ [⟨found, now⟩]) found
          now) ∧
        ∀ entry, core.store.Holds key entry → found = some entry) := by
  refine (storeGet_spec hsteady key now).post ?_
  rintro found world _ ⟨hholds, hfound, honly⟩
  obtain ⟨hle, hmatches⟩ := hnow world.core hholds
  refine ⟨⟨hholds, hle, hfound, ?_⟩, honly⟩
  rintro hserve entry ⟨lookup, hlookup, hentry⟩
  refine ⟨?_, ?_⟩
  · rcases List.mem_append.mp hlookup with hold | hnew
    · exact (hmatches hserve entry ⟨lookup, hold, hentry⟩).1
    · obtain rfl := List.mem_singleton.mp hnew
      exact (hfound entry hentry.1).1
  · rintro _ ⟨⟩ hheld
    exact honly entry hheld

theorem Leading.follows {core : Core} {task : ℕ} {group : UpstreamGroupId}
    {query : Message} {leader : LeaderGuard}
    {good : ℕ → CachedAnswer → Prop} {calls : UpstreamCall → Prop}
    (h : Leading resolver core task group query (some leader) false good
      calls) {key : List UInt8}
    (hkey : resolver.cacheKey group query = some key)
    (stale : Option CachedAnswer) : Follows core leader.flight key stale := by
  obtain ⟨same, hsame, hguarded⟩ := h.guarded leader rfl
  obtain rfl := Option.some.inj (hkey.symm.trans hsame)
  obtain ⟨flight, hflight, hfkey, _, hquery, hopen⟩ := hguarded.leads
  refine ⟨flight, hflight, hfkey, fun _ _ => ⟨hquery, ?_⟩⟩
  intro outcome hfate
  rw [hopen] at hfate
  contradiction

section Flight

variable {call : Call} (hcall : CallOk thread call)

include hcall

theorem leadRefresh_spec {guard : LeaderGuard} (progress : Progress) :
    Spec resolver allows thread
      (fun core => (Known resolver core progress.stale ∧
        Matches resolver core (resolver.storedKey call.group call.query)
          progress.lookups progress.stale) ∧
        Leading resolver core thread.number call.group call.query
          (some guard) false (Expired resolver progress.stale)
          fun _ => False)
      (resolver.leadRefresh call guard progress)
      (CallEnds resolver allows call) := by
  unfold Resolver.leadRefresh
  split
  · rename_i stale timeout key hstale _ hstored
    have hkey := (Resolver.storedKey_eq_some hstored).2
    have hframe := @lasting_waits resolver allows guard.flight key
      (resolver.storedKey call.group call.query) progress.lookups
      (some stale)
    refine Triple.pre (.bind (spawnStaleRefresh_spec hframe call guard key
      stale) fun taken => ?_) ?_
    · split_ifs with htaken
      · exact (awaitRefresh_spec hkey progress.lookups).pre
          fun _ _ h => h.1
      · refine (leadCall_spec hcall progress).pre ?_
        rintro world _ ⟨⟨⟨hknown, _⟩, hmatches⟩, hjob⟩
        rw [hstale]
        exact ⟨⟨hknown, hmatches⟩, (hjob (by simpa using htaken)).leading.weaken
          (fun _ h => h rfl) fun _ h => h⟩
    · rintro world _ ⟨⟨hknown, hmatches⟩, hleading⟩
      rw [hstale] at hknown hmatches hleading
      exact ⟨⟨⟨hknown, fun _ => hleading.follows hkey _⟩, hmatches⟩, hstored,
        hknown, hleading.weaken (fun _ h _ => h) fun _ h => h⟩
  · exact leadCall_spec hcall progress

omit hcall in
theorem finishFound_spec {key : List UInt8} {lookups : List Lookup}
    {found : Option CachedAnswer} {now : ℕ} {guard : LeaderGuard}
    {outcome : Outcome}
    (houtcome : ∀ core entry,
      Looked resolver core (some key) lookups found now →
      found = some entry → entry.failure = none → outcome.Serves entry) :
    Spec resolver allows thread
      (fun core => Looked resolver core (some key) lookups found now ∧
        Leading resolver core thread.number call.group call.query
          (some guard) false
          (fun clock held => found = some held ∧ now ≤ clock)
          fun _ => False)
      (finish (some guard) outcome)
      (fun _ core => Looked resolver core (some key) lookups found now) :=
  finish_spec (lasting_looked _ _ _ _)
    (fun _ _ _ hle h => ⟨h.1, h.2.trans hle⟩)
    fun core h _ _ entry hentry hanswer =>
      houtcome core entry h hentry.1 hanswer

/-- The leader looks again.  From here on nothing but what it finds is stored
under its key. -/
theorem leadFlight_spec {guard : LeaderGuard} {key : List UInt8}
    (hkey : resolver.cacheKey call.group call.query = some key)
    (progress : Progress) :
    Spec resolver allows thread
      (fun core => (Known resolver core progress.stale ∧
        Matches resolver core (resolver.storedKey call.group call.query)
          progress.lookups progress.stale) ∧
        Leading resolver core thread.number call.group call.query
          (some guard) false (fun _ _ => True) fun _ => False)
      (resolver.leadFlight call guard progress)
      (CallEnds resolver allows call) := by
  unfold Resolver.leadFlight
  cases hstored : resolver.storedKey call.group call.query with
  | none =>
    refine (leadRefresh_spec hcall progress).pre ?_
    rintro world _ ⟨hframe, hleading⟩
    rw [hstored]
    refine ⟨hframe, hleading.guarded, hleading.alone, ?_, hleading.running⟩
    intro _ bytes hbytes
    rw [hstored] at hbytes
    contradiction
  | some same =>
    obtain rfl : key = same := Option.some.inj
      (hkey.symm.trans (Resolver.storedKey_eq_some hstored).2)
    have hmatches : Lasting resolver fun core =>
        Matches resolver core (some key) progress.lookups
          progress.stale := lasting_matches _ _ _
    have htrue : Aging fun (_ : ℕ) (_ : CachedAnswer) => True :=
      fun _ _ _ _ h => h
    refine Triple.pre (.bind (now_spec (steady_lead hmatches htrue _))
      fun now => ?_) fun _ _ h => ⟨h.1.2, h.2⟩
    have hnow : Lasting resolver fun core =>
        now ≤ core.clock ∧
          Matches resolver core (some key) progress.lookups
            progress.stale :=
      (lasting_clock now).and hmatches
    refine Triple.pre (.bind (lookup_spec (steady_lead hnow htrue _) key now
      fun _ h => h.1) fun found => ?_) fun _ _ h => ⟨⟨h.2, h.1.1⟩, h.1.2⟩
    have hlooked := @lasting_looked resolver (some key)
      (progress.lookups ++ [⟨found, now⟩]) found now
    have hfound : Aging fun clock held =>
        found = some held ∧ now ≤ clock :=
      fun _ _ _ hle h => ⟨h.1, h.2.trans hle⟩
    have hleads := @steady_lead resolver thread.number _ hlooked call.group
      call.query (some guard) false _ hfound fun _ => False
    refine Triple.pre (.bind (Resolver.classify_triple onCore
      (stable_of_steady hleads) found now) fun kind => ?_) ?_
    · have hsteady := hlooked.steady thread.number
      cases kind with
      | fresh cached =>
        refine .assume (fun _ _ h => h.2) fun hclass =>
          .pre ?_ fun _ _ h => h.1
        refine .bind (finishFound_spec fun core _ h _ _ =>
          ⟨hclass.2.1, (h.proper cached hclass.1).2.2 hclass.2.1⟩)
          fun _ => ?_
        refine .bind (Resolver.emitResult_triple onCore
          (stable_of_steady hsteady) _ _)
          fun _ => .ret fun world _ h => ?_
        exact Looked.callEnds_fresh h hstored.symm hclass
      | failure cached =>
        refine .assume (fun _ _ h => h.2) fun hclass =>
          .pre ?_ fun _ _ h => h.1
        refine .bind (finishFound_spec ?_) fun _ => ?_
        · intro core entry _ hentry hanswer
          obtain rfl := Option.some.inj (hclass.1.symm.trans hentry)
          have hfailure := hclass.2
          simp [hanswer] at hfailure
        · refine .bind (Resolver.serveFailure_triple onCore
            (stable_of_steady hsteady) call cached now _)
            fun reply => .ret fun world _ h => ?_
          obtain ⟨h, rfl⟩ := h
          exact Looked.callEnds_failure h hstored.symm hclass
      | staleNow cached =>
        refine .assume (fun _ _ h => h.2) fun hclass =>
          .pre ?_ fun _ _ h => h.1
        refine .bind (finishFound_spec ?_) fun _ => ?_
        · intro core entry _ hentry _
          exact Option.some.inj (hclass.1.symm.trans hentry)
        · refine .bind (Resolver.serveStale_triple onCore
            (stable_of_steady hsteady) call cached _)
            fun reply => .ret fun world _ h => ?_
          obtain ⟨h, rfl⟩ := h
          exact Looked.callEnds_stale h hstored.symm hclass
      | refresh stale backoff =>
        refine .assume (fun _ _ h => h.2) fun hclass => ?_
        refine (leadRefresh_spec hcall _).pre ?_
        rintro world _ ⟨⟨h, hleading⟩, _⟩
        rw [hstored]
        exact ⟨⟨h.known hclass, h.matches_stale hclass⟩,
          hleading.weaken (fun entry hentry =>
            h.expired hclass hentry.1 hentry.2) fun _ h => h⟩
    · rintro world _ ⟨⟨⟨_, hleading⟩, h⟩, honly⟩
      refine ⟨h, hleading.guarded, hleading.alone, ?_, hleading.running⟩
      intro _ bytes hbytes entry hheld
      obtain rfl := Option.some.inj (hstored.symm.trans hbytes)
      exact ⟨honly entry hheld, h.now_le⟩

theorem done_of_callEnds {world : World} {result : Job ⊕ Reply}
    (h : CallEnds resolver allows call result world.core) :
    (logic resolver allows).done thread result world := by
  obtain ⟨reply, rfl, hreply⟩ := h
  change (logic resolver allows).post thread reply world
  unfold logic
  dsimp only
  rw [hcall.first]
  exact hreply

theorem followFlight_spec {key : List UInt8} {flight : ℕ}
    (hcoalesce : resolver.cache.coalesce = true)
    (hkey : resolver.cacheKey call.group call.query = some key)
    (progress : Progress) :
    Triple resolver.machine allows (logic resolver allows) thread
      (fun world => (Known resolver world.core progress.stale ∧
        (Careful allows →
          Follows world.core flight key progress.stale)) ∧
        Matches resolver world.core
          (resolver.storedKey call.group call.query) progress.lookups
          progress.stale)
      (resolver.followFlight call key progress flight)
      ((logic resolver allows).done thread) := by
  have hframe := @lasting_waits resolver allows flight key
    (resolver.storedKey call.group call.query) progress.lookups
    progress.stale
  have hsteady := hframe.steady thread.number
  refine .bind (Resolver.announce_triple onCore (stable_of_steady hsteady)
    call progress) fun _ => ?_
  refine .bind (Resolver.waitTimed_triple onCore (stable_of_steady hsteady)
    progress.stale) fun timed => ?_
  refine Triple.pre (.bind (wait_spec hsteady flight timed)
    fun waited => ?_) fun _ _ h => h.1
  cases waited with
  | done outcome =>
    refine Triple.pre (.bind (Resolver.finishFollower_triple onCore
      (stable_of_steady ((hframe.and (lasting_fated flight outcome)).steady
        thread.number)) call outcome progress.lookups)
      fun reply => .ret fun world _ h => ?_)
      fun _ _ h => ⟨h.1, h.2 outcome rfl⟩
    obtain ⟨⟨⟨⟨hknown, hfollows⟩, hmatches⟩, hfated⟩, hreply⟩ := h
    exact done_of_callEnds hcall (follower_callEnds hkey hknown hfollows
      hmatches hfated hreply)
  | timedOut =>
    dsimp only
    cases hstale : progress.stale with
    | none =>
      rw [hstale] at hframe
      exact .ret fun world _ h => ⟨hcall, hcoalesce, hkey,
        hstale ▸ h.1.1.1, hstale ▸ h.1.2⟩
    | some stale =>
      rw [hstale] at hsteady
      refine Triple.pre (.bind (Resolver.serveStale_triple onCore
        (stable_of_steady hsteady) call stale progress.lookups)
        fun reply => .ret fun world _ h => ?_) fun _ _ h => h.1
      obtain ⟨⟨⟨hknown, _⟩, hmatches⟩, rfl⟩ := h
      refine done_of_callEnds hcall (callEnds_of_served hmatches ?_)
      rintro _ _ _ ⟨⟩ _ _ _
      exact served_stale (hknown stale rfl).2.2.1
  | abandoned =>
    exact .ret fun world _ h => ⟨hcall, hcoalesce, hkey, h.1.1.1, h.1.2⟩
  | dropped =>
    exact .ret fun world _ _ => done_of_callEnds hcall
      (callEnds_of_no_answer (by simp) (by simp))

theorem joinFlight_spec (hprivate : NoPrivate allows) {key : List UInt8}
    (hcoalesce : resolver.cache.coalesce = true)
    (hkey : resolver.cacheKey call.group call.query = some key)
    (progress : Progress) :
    Triple resolver.machine allows (logic resolver allows) thread
      (fun world => Known resolver world.core progress.stale ∧
        Matches resolver world.core
          (resolver.storedKey call.group call.query) progress.lookups
          progress.stale)
      (resolver.joinFlight call key progress)
      ((logic resolver allows).done thread) := by
  have hframe : Lasting resolver fun core =>
      Known resolver core progress.stale ∧
        Matches resolver core (resolver.storedKey call.group call.query)
          progress.lookups progress.stale :=
    (lasting_known _).and (lasting_matches _ _ _)
  refine .bind (joinOrLead_spec (hframe.steady thread.number) hprivate
    hcoalesce key _) fun join => ?_
  cases join with
  | lead guard =>
    refine (Triple.post (leadFlight_spec hcall hkey progress)
      fun _ _ _ h => done_of_callEnds hcall h).pre ?_
    rintro world _ ⟨h, hguarded, hquiet⟩
    refine ⟨h, ?_, by simp, by simp, ?_⟩
    · rintro _ ⟨⟩
      exact ⟨key, hkey, hguarded⟩
    · intro _ bytes hbytes call' hcall' hkeyed
      obtain rfl := Option.some.inj (hkey.symm.trans hbytes)
      exact hquiet call' hcall' hkeyed
  | follow flight =>
    refine (followFlight_spec hcall hcoalesce hkey progress).pre ?_
    rintro world _ ⟨⟨hknown, hmatches⟩, found, hfound, hfkey, hopen, hquery⟩
    refine ⟨⟨hknown, fun hcareful => ⟨found, hfound, hfkey, ?_⟩⟩, hmatches⟩
    intro entry hentry
    refine ⟨hquery hcareful (by rw [hentry]; rfl), ?_⟩
    intro outcome hfate
    rw [hopen] at hfate
    contradiction

theorem resolveIn_spec (hprivate : NoPrivate allows) :
    Triple resolver.machine allows (logic resolver allows) thread
      (fun _ => True) (resolver.resolveIn call)
      ((logic resolver allows).done thread) := by
  refine .bind (now_spec ((Lasting.const True).steady thread.number))
    fun now => ?_
  have hnow : Lasting resolver fun core => now ≤ core.clock := lasting_clock now
  have hlook : Spec resolver allows thread (fun core => now ≤ core.clock)
      (Resolver.lookUp (resolver.storedKey call.group call.query) now)
      (fun found core => Looked resolver core
        (resolver.storedKey call.group call.query) [⟨found, now⟩] found
        now) := by
    cases resolver.storedKey call.group call.query with
    | none =>
      refine .ret fun world _ h => ⟨h, by simp, ?_⟩
      rintro _ entry ⟨lookup, hlookup, hfound, _⟩
      obtain rfl := List.mem_singleton.mp hlookup
      cases hfound
    | some key =>
      exact (lookup_spec (hnow.steady thread.number) key now
        fun core h => ⟨h, matches_nil core (some key)⟩).post
        fun _ _ _ h => h.1.2
  refine Triple.pre (.bind hlook fun found => ?_) fun _ _ h => h.2
  have hlooked := @lasting_looked resolver
    (resolver.storedKey call.group call.query) [⟨found, now⟩] found now
  have hsteady := hlooked.steady thread.number
  refine .bind (Resolver.classify_triple onCore (stable_of_steady hsteady)
    found now) fun kind => ?_
  refine .assume (fun _ _ h => h.2) fun hclass => .pre ?_ fun _ _ h => h.1
  cases kind with
  | fresh cached =>
    refine .bind (quiet_spec hsteady rfl) fun _ => ?_
    refine .bind (quiet_spec hsteady rfl) fun _ => ?_
    refine .bind (Resolver.emitResult_triple onCore
      (stable_of_steady hsteady) _ _) fun _ => ?_
    refine .bind (maybePrefetch_spec hlooked hprivate call cached now)
      fun _ => .ret fun world _ h => ?_
    exact done_of_callEnds hcall (Looked.callEnds_fresh h rfl hclass)
  | failure cached =>
    refine .bind (quiet_spec hsteady rfl) fun _ => ?_
    refine .bind (quiet_spec hsteady rfl) fun _ => ?_
    refine .bind (Resolver.serveFailure_triple onCore
      (stable_of_steady hsteady) call cached now _)
      fun reply => .ret fun world _ h => ?_
    obtain ⟨h, rfl⟩ := h
    exact done_of_callEnds hcall (Looked.callEnds_failure h rfl hclass)
  | staleNow cached =>
    refine .bind (quiet_spec hsteady rfl) fun _ => ?_
    refine .bind (quiet_spec hsteady rfl) fun _ => ?_
    refine .bind (Resolver.serveStale_triple onCore
      (stable_of_steady hsteady) call cached _)
      fun reply => .ret fun world _ h => ?_
    obtain ⟨h, rfl⟩ := h
    exact done_of_callEnds hcall (Looked.callEnds_stale h rfl hclass)
  | refresh stale backoff =>
    refine .bind (quiet_spec hsteady rfl) fun _ => ?_
    refine .bind (quiet_spec hsteady rfl) fun _ => ?_
    dsimp only
    split
    · rename_i key hcoalesce hkey
      exact .ret fun world _ h => ⟨hcall, hcoalesce, hkey, h.known hclass,
        h.matches_stale hclass⟩
    · rename_i hnot
      -- a call with a key and coalescing joins a flight
      have halone : resolver.cache.coalesce = true →
          resolver.cacheKey call.group call.query = none := by
        intro hcoalesce
        cases hkey : resolver.cacheKey call.group call.query with
        | none => rfl
        | some key => exact absurd hkey (hnot key hcoalesce)
      refine ((leadCall_spec hcall _).post fun _ _ _ h =>
        done_of_callEnds hcall h).pre ?_
      intro world _ h
      refine ⟨⟨h.known hclass, h.matches_stale hclass⟩, by simp,
        fun _ => halone, ?_, ?_⟩
      · intro hcoalesce key hkey
        rw [(Resolver.storedKey_eq_some hkey).2] at halone
        cases halone hcoalesce
      · intro hcoalesce key hkey
        rw [hkey] at halone
        cases halone hcoalesce

end Flight

/-! ## Purges -/

theorem sweepShards_spec (scope : Scope) (indices : List ℕ) :
    Spec resolver allows thread (fun _ => True)
      (Resolver.sweepShards scope indices) (fun _ _ => True) := by
  induction indices with
  | nil => exact .ret fun _ _ _ => trivial
  | cons index rest ih =>
    refine .bind (sweepShard_spec ((Lasting.const True).steady
      thread.number) scope index) fun removed => ?_
    exact .bind ih fun others => .ret fun _ _ _ => trivial

theorem purge_spec (scope : Scope) :
    Spec resolver allows thread (fun _ => True) (resolver.purge scope)
      (fun result _ => ∃ epoch removed,
        result = .inr (.purged epoch removed)) := by
  have hsteady := (@Lasting.const resolver True).steady thread.number
  refine .bind (bumpEpoch_spec hsteady) fun epoch => ?_
  have hsweep : Spec resolver allows thread (fun _ => True)
      (resolver.sweep scope) (fun _ _ => True) := by
    unfold Resolver.sweep
    split_ifs
    · exact sweepShards_spec scope _
    · exact .ret fun _ _ _ => trivial
  refine .bind hsweep fun removed => ?_
  have hcomplete : Spec resolver allows thread (fun _ => True)
      (Resolver.completeFlush scope epoch) (fun _ _ => True) := by
    cases scope with
    | all => exact flushed_spec hsteady epoch
    | named name rtype => exact .ret fun _ _ _ => trivial
    | subtree zone => exact .ret fun _ _ _ => trivial
  exact .bind hcomplete fun _ => .ret fun _ _ _ => ⟨epoch, removed, rfl⟩

/-! ## The logic is valid -/

theorem initial_inv (resolver : Resolver) (instant : ℕ) :
    Inv resolver (resolver.initial instant).core where
  sound := Store.new_sound _ _ _
  enabled := fun key entry h =>
    absurd h (Store.new_not_holds _ _ _ key entry)
  offered := fun key entry h =>
    absurd h (Store.new_not_holds _ _ _ key entry)
  offered_lt := by simp [Resolver.initial]
  proper := fun key entry h =>
    absurd h (Store.new_not_holds _ _ _ key entry)
  alone := fun _ => rfl
  registry := by simp [Resolver.initial]
  registered := by simp [Resolver.initial]
  published := by simp [Resolver.initial]
  led := by simp [Resolver.initial]
  single := by simp [Resolver.initial, loopsFor]

theorem code_safe (hprivate : NoPrivate allows) {job : Job} {world : World}
    (hinv : Inv resolver world.core)
    (hpre : (logic resolver allows).pre thread job world) :
    Safe resolver.machine allows (logic resolver allows) thread
      ((logic resolver allows).done thread) (resolver.code job) world := by
  have hsafe : ∀ {requires : World → Prop} {prog : Code (Job ⊕ Reply)},
      Triple resolver.machine allows (logic resolver allows) thread requires
        prog ((logic resolver allows).done thread) → requires world →
      Safe resolver.machine allows (logic resolver allows) thread
        ((logic resolver allows).done thread) prog world :=
    fun h hrequires => (h world hinv hrequires).mono fun _ _ h => h.2
  cases job with
  | resolve query =>
    have hfirst : thread.first = .resolve query := hpre
    have hplain : ∀ (reply : Reply) after,
        (∀ answer lookups, reply ≠ .answered answer lookups) →
        (∀ lookups, reply ≠ .panicked lookups) →
        (logic resolver allows).done thread (.inr reply) after := by
      intro reply after hanswer hpanicked
      change (logic resolver allows).post thread reply after
      unfold logic
      dsimp only
      rw [hfirst]
      exact fun _ => ⟨hpanicked, fun answer lookups heq =>
        absurd heq (hanswer answer lookups)⟩
    refine hsafe (Resolver.resolve_triple onCore (stable_of_steady
      ((Lasting.const True).steady thread.number)) query ?_ ?_ ?_) trivial
    · exact fun after result _ => hplain _ after (by simp) (by simp)
    · exact fun after _ => hplain _ after (by simp) (by simp)
    · intro question correlationId group backends decision _ _ _ _ hpos
      exact resolveIn_spec ⟨hfirst, hpos⟩ hprivate
  | join call key progress =>
    obtain ⟨hcall, hcoalesce, hkey, hknown, hmatches⟩ := hpre
    exact hsafe (joinFlight_spec hcall hprivate hcoalesce hkey progress)
      ⟨hknown, hmatches⟩
  | refresh job =>
    obtain ⟨hfirst, hok⟩ := hpre
    refine hsafe ((refresh_spec hfirst).post ?_) hok
    rintro _ after _ rfl
    change (logic resolver allows).post thread .ended after
    unfold logic
    dsimp only
    rw [hfirst]
    trivial
  | purge scope =>
    refine hsafe ((purge_spec scope).post ?_) trivial
    rintro _ after _ ⟨epoch, removed, rfl⟩
    change (logic resolver allows).post thread _ after
    unfold logic
    dsimp only
    rw [show thread.first = .purge scope from hpre]
    trivial

theorem valid (resolver : Resolver) {allows : Condition Op Resp World Job}
    (hprivate : NoPrivate allows) :
    Valid resolver.machine allows (logic resolver allows) where
  refl := fun number world => Rely.refl number world.core
  trans := fun number _ _ _ h h' => Rely.trans h h'
  tick := by
    intro world input after hinv htick
    cases input with
    | advance duration =>
      change (if _ then _ else _) = _ at htick
      split_ifs at htick
      obtain rfl := Option.some.inj htick
      have hkeeps := keeps_of_same hinv
        (Nat.le_add_right world.core.clock duration) world.core.epoch
        world.core.flushed world.core.locks world.core.history
      exact ⟨hkeeps.inv, hkeeps.rely⟩
    | _ => contradiction
  arrive := by
    intro number job world hexternal _
    cases job with
    | resolve query => rfl
    | purge scope => rfl
    | join call key progress => cases hexternal
    | refresh job => cases hexternal
  code := fun thread job world hinv hpre => code_safe hprivate hinv hpre
  pre_stable := by
    intro thread job world after hpre hrely _
    cases job with
    | resolve query => exact hpre
    | purge scope => exact hpre
    | join call key progress =>
      obtain ⟨hcall, hcoalesce, hkey, hknown, hmatches⟩ := hpre
      exact ⟨hcall, hcoalesce, hkey,
        lasting_known _ _ _ hrely.toGrows hknown,
        lasting_matches _ _ _ _ _ hrely.toGrows hmatches⟩
    | refresh job =>
      exact ⟨hpre.1, steady_refreshOk job _ _ hrely hpre.2⟩
  post_stable := by
    intro thread reply world after hpost hrely _
    unfold logic at hpost ⊢
    dsimp only at hpost ⊢
    cases hfirst : thread.first with
    | resolve query =>
      rw [hfirst] at hpost
      exact fun hcareful => lasting_replyOk query reply _ _ hrely.toGrows
        (hpost hcareful)
    | purge scope => trivial
    | join call key progress => trivial
    | refresh job => trivial

theorem start_holds (resolver : Resolver)
    (allows : Condition Op Resp World Job) (instant : ℕ) :
    Holds resolver.machine allows (logic resolver allows)
      (resolver.start instant) where
  inv := initial_inv resolver instant
  running := by simp [Resolver.start]
  finished := by simp [Resolver.start]

/-- In every state which a run without private flights can reach, leaders are
alone with their keys. -/
theorem holds_of_reaches {resolver : Resolver}
    {allows : Condition Op Resp World Job} (hprivate : NoPrivate allows)
    {instant : ℕ} {state : MachineState Op Resp World Job Reply}
    (h : resolver.machine.Reaches allows (resolver.start instant) state) :
    Holds resolver.machine allows (logic resolver allows) state :=
  (valid resolver hprivate).holds_of_reaches
    (start_holds resolver allows instant) h

end Ownership

end DnsLattice
