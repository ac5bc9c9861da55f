import DnsLattice.ProvenanceRules

/-!
# Every run keeps the provenance of its data

The programs are gone through from the inside out: the upstream call, the
refreshes, one call of `resolve` and the purges.
-/

namespace DnsLattice

open Logic

namespace Provenance

variable {resolver : Resolver} {allows : Condition Op Resp World Job}
  {thread : Thread World Job}

/-! ## The upstream call -/

section Upstream

variable {holds : Core → Prop} (hlasting : Lasting resolver holds)

include hlasting

theorem quiet_spec {op : Op} (hop : op.quiet = true) :
    Spec resolver allows thread holds (perform op) (fun _ => holds) :=
  Resolver.quiet_triple onCore (stable_of_lasting hlasting) hop

theorem finish_spec {guard : Option LeaderGuard} {outcome : Outcome}
    {key : Option (List UInt8)} {floor : ℕ}
    (hguard : ∀ core, holds core → GuardOk core key floor guard)
    (houtcome : ∀ core bytes, holds core → key = some bytes →
      OutcomeOk resolver core bytes floor outcome) :
    Spec resolver allows thread holds (finish guard outcome)
      (fun _ => holds) := by
  cases guard with
  | none => exact .ret fun _ _ h => h
  | some leader =>
    refine .bind (unregister_spec hlasting leader (some outcome))
      fun _ => ?_
    have hflight : ∀ core bytes, holds core → key = some bytes →
        FlightIs core leader.flight bytes floor := by
      rintro core bytes h rfl
      obtain ⟨same, hsame, hflight⟩ := hguard core h leader rfl
      obtain rfl := Option.some.inj hsame
      exact hflight
    cases key with
    | none =>
      intro world _ h
      obtain ⟨_, hnone, _⟩ := hguard world.core h leader rfl
      contradiction
    | some bytes =>
      exact publish_spec hlasting leader.flight
        (fun core h => hflight core bytes h rfl)
        fun core h => houtcome core bytes h rfl

theorem dropGuard_spec (guard : Option LeaderGuard) :
    Spec resolver allows thread holds (dropGuard guard) (fun _ => holds) := by
  cases guard with
  | none => exact .ret fun _ _ h => h
  | some leader =>
    refine .bind (unregister_spec hlasting leader none) fun _ => ?_
    exact abandon_spec hlasting leader.flight

/-- What the upstream call gives: something a backend returned, and an entry
made from it. -/
structure ResultOk (resolver : Resolver) (core : Core)
    (origin : UpstreamCall) (result : Except Error UpstreamAnswer) :
    Prop where
  returned : Returned core origin (result.map UpstreamAnswer.message)
  entry : ∀ answer entry, result = .ok answer → answer.entry = some entry →
    entry.origin = origin ∧
      entry.MadeFrom resolver.cache.ttlPolicy (.ok answer.message)

omit hlasting in
theorem lasting_resultOk (origin : UpstreamCall)
    (result : Except Error UpstreamAnswer) :
    Lasting resolver fun core => ResultOk resolver core origin result :=
  fun _ _ hbase h => ⟨h.returned.mono hbase, h.entry⟩

omit hlasting in
theorem lasting_ended (origin : UpstreamCall)
    (ended : Resolver.Ended (Except Error UpstreamAnswer)) :
    Lasting resolver fun core => ∀ result, ended = .done result →
      ResultOk resolver core origin result :=
  fun core after hbase h result hended =>
    lasting_resultOk origin result core after hbase (h result hended)

theorem storeAnswer_spec {origin : UpstreamCall} {stored : Option (List UInt8)}
    (hstored : ∀ key, stored = some key →
      resolver.cache.storeEnabled = true ∧
        resolver.cacheKey origin.group origin.query = some key)
    (now : ℕ) {answer : Message}
    (hreturned : ∀ core, holds core → Returned core origin (.ok answer)) :
    Spec resolver allows thread holds
      (resolver.storeAnswer origin stored now answer)
      (fun result core => holds core ∧
        ResultOk resolver core origin (.ok result)) := by
  have hplain : ∀ core, holds core →
      ResultOk resolver core origin (.ok ⟨answer, none, false⟩) := by
    intro core h
    refine ⟨hreturned core h, ?_⟩
    rintro _ entry ⟨⟩ hentry
    cases hentry
  unfold Resolver.storeAnswer
  cases stored with
  | none => exact .ret fun world _ h => ⟨h, hplain world.core h⟩
  | some key =>
    obtain ⟨henabled, hkey⟩ := hstored key rfl
    dsimp only
    cases hentry : cacheableAnswer origin answer now
        resolver.cache.ttlPolicy with
    | none => exact .ret fun world _ h => ⟨h, hplain world.core h⟩
    | some entry =>
      obtain ⟨horigin, _⟩ := cacheableAnswer_eq_some hentry
      have hmade : entry.MadeFrom resolver.cache.ttlPolicy (.ok answer) :=
        .answer hentry
      refine .bind (insertIf_spec hlasting henabled ?_ now)
        fun wasStored => .ret fun world _ h => ⟨h, ?_⟩
      · intro core h
        rw [← horigin] at hkey hreturned
        exact ⟨⟨hkey, Nat.zero_le _⟩, henabled, _, hreturned core h, hmade⟩
      · refine ⟨hreturned world.core h, ?_⟩
        rintro _ same ⟨⟩ hsame
        obtain rfl := Option.some.inj hsame
        exact ⟨horigin, hmade⟩

theorem queryUpstream_spec {origin : UpstreamCall}
    {stored : Option (List UInt8)}
    (hstored : ∀ key, stored = some key →
      resolver.cache.storeEnabled = true ∧
        resolver.cacheKey origin.group origin.query = some key)
    (correlationId : Option ℕ) (now : ℕ) (backends : List ℕ)
    (last : Option Error)
    (hlast : ∀ core error, holds core → last = some error →
      Returned core origin (.error error)) :
    Spec resolver allows thread holds
      (resolver.queryUpstream origin correlationId stored now backends last)
      (fun ended core => holds core ∧ ∀ result, ended = .done result →
        ResultOk resolver core origin result) := by
  induction backends generalizing holds last with
  | nil =>
    cases last with
    | none => exact .ret fun _ _ h => ⟨h, by simp⟩
    | some error =>
      refine .ret fun world _ h => ⟨h, ?_⟩
      rintro _ ⟨⟩
      exact ⟨hlast world.core error h rfl, by simp⟩
  | cons backend rest ih =>
    have hstable : ∀ {given : Core → Prop}, Lasting resolver given →
        Stable (logic resolver allows) thread
          fun world => given world.core := stable_of_lasting
    unfold Resolver.queryUpstream
    refine .bind (Resolver.observeUpstream_triple onCore (hstable hlasting)
      _ _) fun _ => ?_
    refine .bind (callBackend_spec hlasting origin backend)
      fun returned => ?_
    match returned with
    | none => exact .ret fun _ _ h => ⟨h.1, by simp⟩
    | some (.ok answer) =>
      have hlasting' := hlasting.and (lasting_returned origin (.ok answer))
      refine Triple.pre (.bind (Resolver.observeUpstream_triple onCore
        (hstable hlasting') _ _) fun _ => ?_)
        fun _ _ h => ⟨h.1, h.2 _ rfl⟩
      refine .bind (storeAnswer_spec hlasting' hstored now
        fun _ h => h.2) fun result => .ret fun _ _ h => ⟨h.1.1, ?_⟩
      rintro _ ⟨⟩
      exact h.2
    | some (.error error) =>
      have hlasting' := hlasting.and (lasting_returned origin (.error error))
      dsimp only
      split_ifs
      · refine Triple.pre (.bind (Resolver.observeUpstream_triple onCore
          (hstable hlasting') _ _) fun _ => ?_)
          fun _ _ h => ⟨h.1, h.2 _ rfl⟩
        refine (ih hlasting' (some error) ?_).post
          fun _ _ _ h => ⟨h.1.1, h.2⟩
        intro core same h hsame
        obtain rfl := Option.some.inj hsame
        exact h.2
      · refine Triple.pre (.bind (Resolver.observeUpstream_triple onCore
          (hstable hlasting') _ _) fun _ => .ret fun _ _ h => ⟨h.1, ?_⟩)
          fun _ _ h => ⟨h.1, h.2 _ rfl⟩
        rintro _ ⟨⟩
        exact ⟨h.2, by simp⟩

theorem rememberFailure_spec {origin : UpstreamCall}
    {result : Except Error UpstreamAnswer} {stored : Option (List UInt8)}
    (hstored : ∀ key, stored = some key →
      resolver.cache.storeEnabled = true ∧
        resolver.cacheKey origin.group origin.query = some key)
    (hresult : ∀ core, holds core → ResultOk resolver core origin result)
    (query : Message) (previous : Option ℕ) (failedAt : ℕ) :
    Spec resolver allows thread holds
      (resolver.rememberFailure origin query result stored previous failedAt)
      (fun _ => holds) := by
  unfold Resolver.rememberFailure
  cases resolver.cache.failurePolicy with
  | none => exact .ret fun _ _ h => h
  | some policy =>
    cases stored with
    | none => exact .ret fun _ _ h => h
    | some key =>
      obtain ⟨henabled, hkey⟩ := hstored key rfl
      refine .bind (insertIf_spec hlasting henabled ?_ failedAt)
        fun _ => .ret fun _ _ h => h
      intro core h
      refine ⟨⟨?_, Nat.zero_le _⟩, henabled, _, ?_,
        failureEntry_madeFrom _ _ _ _ _ _⟩
      · rw [failureEntry_origin]
        exact hkey
      · rw [failureEntry_origin]
        exact (hresult core h).returned

theorem forgetPrevious_spec (stored : Option (List UInt8))
    (previous : Option ℕ) :
    Spec resolver allows thread holds
      (Resolver.forgetPrevious stored previous) (fun _ => holds) := by
  unfold Resolver.forgetPrevious
  split
  · exact .bind (forgetFailure_spec hlasting _) fun _ => .ret fun _ _ h => h
  · exact .ret fun _ _ h => h

theorem settleFailure_spec {origin : UpstreamCall}
    {result : Except Error UpstreamAnswer} {stored : Option (List UInt8)}
    (hstored : ∀ key, stored = some key →
      resolver.cache.storeEnabled = true ∧
        resolver.cacheKey origin.group origin.query = some key)
    (hresult : ∀ core, holds core → ResultOk resolver core origin result)
    (query : Message) (stale : Option CachedAnswer) (previous : Option ℕ) :
    Spec resolver allows thread holds
      (resolver.settleFailure origin query result stale stored previous)
      (fun ended core => holds core ∧ ∀ entry,
        ended = .done (some entry) → stale = some entry) := by
  unfold Resolver.settleFailure
  split_ifs
  · refine .bind (quiet_spec hlasting rfl) fun failedAt => ?_
    split
    · refine .bind (quiet_spec hlasting rfl)
        fun deadline => ?_
      cases deadline with
      | none => exact .ret fun _ _ h => ⟨h, by simp⟩
      | some deadline =>
        refine .bind (quiet_spec hlasting rfl)
          fun _ => .ret fun _ _ h => ⟨h, ?_⟩
        rintro _ ⟨⟩
        rfl
    · exact .bind (rememberFailure_spec hlasting hstored hresult query
        previous failedAt) fun _ => .ret fun _ _ h => ⟨h, by simp⟩
  · exact .bind (forgetPrevious_spec hlasting stored previous)
      fun _ => .ret fun _ _ h => ⟨h, by simp⟩

end Upstream

theorem settledOutcome_ok {core : Core} {origin : UpstreamCall}
    {result : Except Error UpstreamAnswer} {used : Option CachedAnswer}
    {key : List UInt8} {floor : ℕ} (hfits : Fits resolver key floor origin)
    (hresult : ResultOk resolver core origin result)
    (hused : ∀ entry, used = some entry →
      EntryOk resolver core key floor entry) :
    OutcomeOk resolver core key floor
      (Resolver.settledOutcome origin result used) := by
  cases used with
  | some entry => exact (hused entry rfl).stale
  | none =>
    cases result with
    | error error =>
      exact ⟨hfits, _, hresult.returned, .failed origin error⟩
    | ok answer =>
      have hreturned := hresult.returned
      unfold Resolver.settledOutcome outcomeOf
      dsimp only
      cases hentry : answer.entry with
      | none => exact ⟨hfits, _, hreturned, .raw origin rfl⟩
      | some entry =>
        obtain ⟨rfl, hmade⟩ := hresult.entry answer entry rfl hentry
        exact ⟨hfits, _, hreturned, .cached hmade⟩

/-! ## One call of `resolve` -/

section Call

variable {call : Call} (hcall : CallOk resolver thread call)

include hcall

theorem entry_replyOk {core : Core} {key : List UInt8} {floor : ℕ}
    {entry : CachedAnswer} {source : Source}
    {result : Except Error Message} (lookups : List Lookup)
    (hkey : resolver.cacheKey call.group call.query = some key)
    (hentry : EntryOk resolver core key floor entry)
    (horigin : source.origin = entry.origin)
    (hgives : ∀ returned,
      entry.MadeFrom resolver.cache.ttlPolicy returned →
      source.Gives resolver call.query result returned) :
    ReplyOk resolver core call.query floor
      (call.reply source result lookups) := by
  rintro _ _ ⟨⟩
  obtain ⟨hfits, _, returned, hreturned, hmade⟩ := hentry
  refine ⟨hcall.effective, Or.inr ⟨key, hkey, ?_⟩, ?_, returned, ?_,
    hgives returned hmade⟩
  · exact horigin ▸ hfits.key_eq
  · exact horigin ▸ hfits.floor_le
  · exact horigin ▸ hreturned

theorem follower_replyOk {core : Core} {key : List UInt8} {floor : ℕ}
    {outcome : Outcome} {reply : Reply} {lookups : List Lookup}
    (hkey : resolver.cacheKey call.group call.query = some key)
    (houtcome : OutcomeOk resolver core key floor outcome)
    (hreply : resolver.FollowerReply call lookups reply outcome) :
    ReplyOk resolver core call.query floor reply := by
  obtain ⟨hfits, returned, hreturned, hmade⟩ := houtcome
  obtain ⟨source, result, rfl, horigin, hgives⟩ :=
    followerReply_gives hreply hmade
  rintro _ _ ⟨⟩
  refine ⟨hcall.effective, Or.inr ⟨key, hkey, ?_⟩, ?_, returned, ?_, hgives⟩
  · exact horigin ▸ hfits.key_eq
  · exact horigin ▸ hfits.floor_le
  · exact horigin ▸ hreturned

theorem own_replyOk {core : Core} {floor : ℕ} {origin : UpstreamCall}
    {result : Except Error UpstreamAnswer} (lookups : List Lookup)
    (hgroup : origin.group = call.group) (hquery : origin.query = call.query)
    (hepoch : floor ≤ origin.epoch)
    (hresult : ResultOk resolver core origin result) :
    ReplyOk resolver core call.query floor
      (call.reply (.upstream origin)
        (result.map fun answer => alignEdns call.query answer.message)
        lookups) := by
  rintro _ _ ⟨⟩
  refine ⟨hcall.effective, Or.inl ⟨hgroup, hquery⟩, hepoch, _,
    hresult.returned, ?_⟩
  cases result with
  | ok answer => rfl
  | error error => rfl

def CallEnds (resolver : Resolver) (call : Call) (floor : ℕ)
    (result : Job ⊕ Reply) (core : Core) : Prop :=
  ∃ reply, result = .inr reply ∧ ReplyOk resolver core call.query floor reply

omit hcall in
theorem callEnds_of_no_answer {core : Core} {floor : ℕ} {reply : Reply}
    (h : ∀ answer lookups, reply ≠ .answered answer lookups) :
    CallEnds resolver call floor (.inr reply) core :=
  ⟨reply, rfl, fun answer lookups heq => absurd heq (h answer lookups)⟩

theorem leadCall_spec {guard : Option LeaderGuard} {floor : ℕ}
    (progress : Progress) :
    Spec resolver allows thread
      (fun core => floor ≤ core.flushed ∧
        GuardOk core (resolver.cacheKey call.group call.query) floor guard ∧
        StaleOk resolver core (resolver.storedKey call.group call.query)
          floor progress.stale)
      (resolver.leadCall call guard progress)
      (CallEnds resolver call floor) := by
  have hlasting : Lasting resolver fun core => floor ≤ core.flushed ∧
      GuardOk core (resolver.cacheKey call.group call.query) floor guard ∧
      StaleOk resolver core (resolver.storedKey call.group call.query) floor
        progress.stale :=
    (lasting_flushed floor).and
      ((lasting_guardOk _ _ _).and (lasting_staleOk _ _ _))
  have hdrop : ∀ {holds : Core → Prop} (reply : Reply),
      Lasting resolver holds →
      (∀ answer lookups, reply ≠ .answered answer lookups) →
      Spec resolver allows thread holds
        (do dropGuard guard; return .inr reply)
        (CallEnds resolver call floor) := by
    intro holds reply hlasting hreply
    exact .bind (dropGuard_spec hlasting guard)
      fun _ => .ret fun _ _ _ => callEnds_of_no_answer hreply
  refine .bind (Resolver.startInstant_triple onCore
    (stable_of_lasting hlasting) progress) fun now => ?_
  refine .bind (beginCall_spec hlasting (fun _ h => h.1) call.group
    call.query) fun origin => ?_
  refine .assume (fun _ _ h => h.2) fun ⟨hgroup, hquery, hepoch⟩ =>
    .pre ?_ fun _ _ h => h.1
  have hstored : ∀ key,
      resolver.storedKey call.group call.query = some key →
      resolver.cache.storeEnabled = true ∧
        resolver.cacheKey origin.group origin.query = some key := by
    rw [hgroup, hquery]
    exact fun key h => Resolver.storedKey_eq_some h
  refine .bind (queryUpstream_spec hlasting hstored _ now _ none (by simp))
    fun ended => ?_
  refine .bind (endCall_spec (hlasting.and (lasting_ended origin ended)) origin)
    fun _ => ?_
  cases ended with
  | dropped =>
    refine (hdrop .cancelled hlasting (by simp)).pre fun _ _ h => h.1
  | panicked =>
    refine (hdrop (.panicked progress.lookups) hlasting (by simp)).pre
      fun _ _ h => h.1
  | done result =>
    have hresult := hlasting.and (lasting_resultOk origin result)
    refine Triple.pre (.bind (settleFailure_spec hresult hstored
      (fun _ h => h.2) call.query progress.stale progress.previousBackoff)
      fun settled => ?_) fun world _ h => ⟨h.1, h.2 result rfl⟩
    cases settled with
    | dropped =>
      refine (hdrop .cancelled hresult (by simp)).pre fun _ _ h => h.1
    | panicked =>
      refine (hdrop (.panicked progress.lookups) hresult (by simp)).pre
        fun _ _ h => h.1
    | done used =>
      refine .assume (fun _ _ h => h.2) fun hused =>
        .pre ?_ fun _ _ h => h.1
      refine .bind (finish_spec hresult (fun _ h => h.1.2.1) ?_)
        fun _ => ?_
      · intro core bytes h hkey
        refine settledOutcome_ok ⟨?_, hepoch⟩ h.2 ?_
        · rw [hgroup, hquery, hkey]
        · intro entry hentry
          obtain ⟨key, hstored', hok⟩ := h.1.2.2 entry (hused entry (hentry ▸ rfl))
          obtain rfl := Option.some.inj
            (hkey.symm.trans (Resolver.storedKey_eq_some hstored').2)
          exact hok
      · cases used with
        | some entry =>
          refine .bind (Resolver.serveStale_triple onCore
            (stable_of_lasting hresult) call entry progress.lookups)
            fun reply => .ret fun world _ h => ?_
          obtain ⟨⟨⟨_, _, hstale⟩, _⟩, rfl⟩ := h
          obtain ⟨key, hkey, hok⟩ := hstale entry (hused entry rfl)
          exact ⟨_, rfl, entry_replyOk hcall progress.lookups
            (Resolver.storedKey_eq_some hkey).2 hok rfl
            fun _ hmade => ⟨hmade, rfl⟩⟩
        | none =>
          refine .bind (Resolver.emitResult_triple onCore
            (stable_of_lasting hresult) _ _)
            fun _ => .ret fun world _ h => ?_
          exact ⟨_, rfl, own_replyOk hcall progress.lookups hgroup
            hquery hepoch h.2⟩

theorem awaitRefresh_spec {key : List UInt8} {floor id : ℕ}
    {stale : CachedAnswer}
    (hkey : resolver.cacheKey call.group call.query = some key)
    (lookups : List Lookup) :
    Spec resolver allows thread
      (fun core => FlightIs core id key floor ∧
        EntryOk resolver core key floor stale)
      (resolver.awaitRefresh call id stale lookups)
      (CallEnds resolver call floor) := by
  have hlasting : Lasting resolver fun core => FlightIs core id key floor ∧
      EntryOk resolver core key floor stale :=
    (lasting_flightIs _ _ _).and (lasting_entryOk _ _ _)
  have hserve : Spec resolver allows thread
      (fun core => FlightIs core id key floor ∧
        EntryOk resolver core key floor stale)
      (do return .inr (← resolver.serveStale call stale lookups))
      (CallEnds resolver call floor) := by
    refine .bind (Resolver.serveStale_triple onCore
      (stable_of_lasting hlasting) call stale lookups)
      fun reply => .ret fun world _ h => ?_
    obtain ⟨⟨_, hentry⟩, rfl⟩ := h
    exact ⟨_, rfl, entry_replyOk hcall lookups hkey hentry rfl
      fun _ hmade => ⟨hmade, rfl⟩⟩
  refine .bind (wait_spec hlasting (fun _ h => h.1) true) fun waited => ?_
  cases waited with
  | done outcome =>
    refine .pre ?_ fun world _ h => h.2 outcome rfl
    refine .bind (Resolver.finishFollower_triple onCore
      (stable_of_lasting (lasting_outcomeOk key floor outcome)) call
      outcome lookups) fun reply => .ret fun world _ h => ?_
    exact ⟨reply, rfl, follower_replyOk hcall hkey h.1 h.2⟩
  | abandoned => exact hserve.pre fun _ _ h => h.1
  | timedOut => exact hserve.pre fun _ _ h => h.1
  | dropped => exact .ret fun _ _ _ => callEnds_of_no_answer (by simp)

end Call

/-! ## Background refreshes -/

section Refresh

variable {holds : Core → Prop} (hlasting : Lasting resolver holds)

include hlasting

theorem spawnStaleRefresh_spec {call : Call} {guard : LeaderGuard}
    {key : List UInt8} {stale : CachedAnswer} {floor : ℕ}
    (hjob : ∀ core, holds core → RefreshOk resolver core
      ⟨call.query, call.group, key, some guard, some stale⟩ floor) :
    Spec resolver allows thread holds
      (Resolver.spawnStaleRefresh call guard key stale)
      (fun _ => holds) := by
  refine .bind (quiet_spec hlasting rfl) fun available => ?_
  split_ifs
  · refine .bind (quiet_spec hlasting rfl)
      fun running => ?_
    split_ifs
    · exact .bind (quiet_spec hlasting rfl)
        fun _ => .ret fun _ _ h => h
    · refine .bind (follower_spec hlasting _) fun _ => ?_
      refine .bind (spawn_spec hlasting fun core h => ⟨floor, hjob core h⟩)
        fun _ => ?_
      exact .bind (quiet_spec hlasting rfl)
        fun _ => .ret fun _ _ h => h
  · exact .ret fun _ _ h => h

theorem startPrefetch_spec {call : Call} {key : List UInt8}
    (hkey : resolver.storedKey call.group call.query = some key) :
    Spec resolver allows thread holds (resolver.startPrefetch call key)
      (fun _ => holds) := by
  unfold Resolver.startPrefetch
  split_ifs
  · refine .bind (joinOrLead_spec hlasting (fun _ _ => Nat.zero_le _) key
      .prefetch) fun join => ?_
    cases join with
    | follow flight =>
      refine Triple.pre ?_ fun _ _ h => h.1
      exact .bind (unfollow_spec hlasting flight) fun _ => quiet_spec hlasting rfl
    | lead guard =>
      have hlead : Lasting resolver fun core => holds core ∧
          ∃ begun, begun ≤ core.flushed ∧
            FlightIs core guard.flight key begun :=
        hlasting.and (.exists fun begun =>
          (lasting_flushed begun).and (lasting_flightIs _ _ _))
      refine Triple.pre (.bind (spawn_spec hlead ?_) fun _ =>
        (quiet_spec hlead rfl).post fun _ _ _ h => h.1) ?_
      · rintro core ⟨_, begun, hle, hflight⟩
        refine ⟨begun, hkey, hle, ?_, by simp [StaleOk]⟩
        rintro _ ⟨⟩
        exact ⟨key, rfl, hflight⟩
      · rintro world _ ⟨h, begun, _, hle, hflight⟩
        exact ⟨h, begun, hle, hflight⟩
  · refine .bind (spawn_spec hlasting fun core h => ⟨0, hkey,
      Nat.zero_le _, by simp [GuardOk], by simp [StaleOk]⟩)
      fun _ => quiet_spec hlasting rfl

theorem maybePrefetch_spec (call : Call) (cached : CachedAnswer) (now : ℕ) :
    Spec resolver allows thread holds (resolver.maybePrefetch call cached now)
      (fun _ => holds) := by
  unfold Resolver.maybePrefetch
  cases resolver.cache.prefetch with
  | none => exact .ret fun _ _ h => h
  | some prefetch =>
    cases hkey : resolver.storedKey call.group call.query with
    | none => exact .ret fun _ _ h => h
    | some key =>
      refine .bind (quiet_spec hlasting rfl) fun previous => ?_
      dsimp only
      split_ifs
      · exact .ret fun _ _ h => h
      · exact .ret fun _ _ h => h
      · refine .bind (quiet_spec hlasting rfl) fun available => ?_
        split_ifs
        · refine .bind (quiet_spec hlasting rfl) fun running => ?_
          split_ifs
          · exact quiet_spec hlasting rfl
          · refine .bind (quiet_spec hlasting rfl) fun refreshing => ?_
            split_ifs
            · exact quiet_spec hlasting rfl
            · exact startPrefetch_spec hlasting hkey
        · exact .ret fun _ _ h => h

theorem endRefresh_spec (guard : Option LeaderGuard) :
    Spec resolver allows thread holds (Resolver.endRefresh guard)
      (fun result _ => result = .inr .ended) := by
  refine .bind (dropGuard_spec hlasting guard) fun _ => ?_
  exact .bind (quiet_spec hlasting rfl) fun _ => .ret fun _ _ _ => rfl

end Refresh

theorem refreshCall_spec {job : RefreshJob} {floor : ℕ}
    (hstored : resolver.storedKey job.group job.query = some job.key)
    (correlationId backends : ℕ) :
    Spec resolver allows thread
      (fun core => RefreshOk resolver core job floor)
      (resolver.refreshCall job correlationId backends)
      (fun result _ => result = .inr .ended) := by
  have hlasting : Lasting resolver fun core =>
      RefreshOk resolver core job floor := lasting_refreshOk job floor
  obtain ⟨henabled, hkey⟩ := Resolver.storedKey_eq_some hstored
  refine .bind (quiet_spec hlasting rfl) fun now => ?_
  refine .bind (beginCall_spec hlasting (fun _ h => h.floor_le) job.group
    job.query) fun origin => ?_
  refine .assume (fun _ _ h => h.2) fun ⟨hgroup, hquery, hepoch⟩ =>
    .pre ?_ fun _ _ h => h.1
  have horigin : ∀ key, some job.key = some key →
      resolver.cache.storeEnabled = true ∧
        resolver.cacheKey origin.group origin.query = some key := by
    rintro _ ⟨⟩
    rw [hgroup, hquery]
    exact ⟨henabled, hkey⟩
  refine .bind (queryUpstream_spec hlasting horigin _ now _ none (by simp))
    fun ended => ?_
  refine .bind (endCall_spec (hlasting.and (lasting_ended origin ended)) origin)
    fun _ => ?_
  cases ended with
  | dropped => exact (endRefresh_spec hlasting _).pre fun _ _ h => h.1
  | panicked => exact (endRefresh_spec hlasting _).pre fun _ _ h => h.1
  | done result =>
    have hresult := hlasting.and (lasting_resultOk origin result)
    have hsettle : Spec resolver allows thread
        (fun core => RefreshOk resolver core job floor ∧
          ResultOk resolver core origin result)
        (resolver.settleRefresh origin job result)
        (fun ended core => (RefreshOk resolver core job floor ∧
          ResultOk resolver core origin result) ∧ ∀ entry,
            ended = .done (some entry) → job.stale = some entry) := by
      unfold Resolver.settleRefresh
      cases job.stale with
      | none => exact .ret fun _ _ h => ⟨h, by simp⟩
      | some stale =>
        exact settleFailure_spec hresult horigin (fun _ h => h.2)
          job.query (some stale) none
    refine Triple.pre (.bind hsettle fun settled => ?_)
      fun world _ h => ⟨h.1, h.2 result rfl⟩
    cases settled with
    | dropped => exact (endRefresh_spec hresult _).pre fun _ _ h => h.1
    | panicked => exact (endRefresh_spec hresult _).pre fun _ _ h => h.1
    | done used =>
      refine .assume (fun _ _ h => h.2) fun hused =>
        .pre ?_ fun _ _ h => h.1
      refine .bind (finish_spec hresult (fun _ h => h.1.guard) ?_)
        fun _ => ?_
      · rintro core _ h ⟨⟩
        refine settledOutcome_ok ⟨(horigin _ rfl).2, hepoch⟩ h.2 ?_
        intro entry hentry
        obtain ⟨_, ⟨⟩, hok⟩ := h.1.stale entry (hused entry (hentry ▸ rfl))
        exact hok
      · refine .bind (quiet_spec hresult rfl) fun _ => ?_
        exact .bind (quiet_spec hresult rfl) fun _ => .ret fun _ _ _ => rfl

theorem refresh_spec {job : RefreshJob} {floor : ℕ}
    (hstored : resolver.storedKey job.group job.query = some job.key) :
    Spec resolver allows thread
      (fun core => RefreshOk resolver core job floor)
      (resolver.refresh job) (fun result _ => result = .inr .ended) := by
  have hlasting : Lasting resolver fun core =>
      RefreshOk resolver core job floor := lasting_refreshOk job floor
  refine .bind (quiet_spec hlasting rfl) fun running => ?_
  split_ifs
  · refine .bind (quiet_spec hlasting rfl) fun correlationId => ?_
    refine .bind (quiet_spec hlasting rfl) fun _ => ?_
    refine .bind (quiet_spec hlasting rfl) fun _ => ?_
    split
    · exact refreshCall_spec hstored correlationId _
    · exact .bind (quiet_spec hlasting rfl) fun _ => endRefresh_spec hlasting _
  · exact endRefresh_spec hlasting _

/-! ## From the lookup to the answer -/

section Flight

variable {call : Call} (hcall : CallOk resolver thread call)

include hcall

theorem leadRefresh_spec {guard : LeaderGuard} {floor : ℕ}
    (progress : Progress) :
    Spec resolver allows thread
      (fun core => floor ≤ core.flushed ∧
        GuardOk core (resolver.cacheKey call.group call.query) floor
          (some guard) ∧
        StaleOk resolver core (resolver.storedKey call.group call.query)
          floor progress.stale)
      (resolver.leadRefresh call guard progress)
      (CallEnds resolver call floor) := by
  have hlasting : Lasting resolver fun core => floor ≤ core.flushed ∧
      GuardOk core (resolver.cacheKey call.group call.query) floor
        (some guard) ∧
      StaleOk resolver core (resolver.storedKey call.group call.query) floor
        progress.stale :=
    (lasting_flushed floor).and
      ((lasting_guardOk _ _ _).and (lasting_staleOk _ _ _))
  unfold Resolver.leadRefresh
  split
  · rename_i stale timeout key hstale _ hstored
    have hkey := (Resolver.storedKey_eq_some hstored).2
    have hheld : ∀ core, (floor ≤ core.flushed ∧
        GuardOk core (resolver.cacheKey call.group call.query) floor
          (some guard) ∧
        StaleOk resolver core (resolver.storedKey call.group call.query)
          floor progress.stale) →
        FlightIs core guard.flight key floor ∧
          EntryOk resolver core key floor stale := by
      rintro core ⟨_, hguard, hentry⟩
      obtain ⟨bytes, hbytes, hflight⟩ := hguard guard rfl
      obtain rfl := Option.some.inj (hkey.symm.trans hbytes)
      obtain ⟨same, hsame, hok⟩ := hentry stale hstale
      obtain rfl := Option.some.inj (hstored.symm.trans hsame)
      exact ⟨hflight, hok⟩
    refine .bind (@spawnStaleRefresh_spec _ _ _ _ hlasting _ _ _ _ floor ?_)
      fun taken => ?_
    · intro core h
      obtain ⟨hflight, hok⟩ := hheld core h
      refine ⟨hstored, h.1, ?_, ?_⟩
      · rintro _ ⟨⟩
        exact ⟨key, rfl, hflight⟩
      · rintro _ ⟨⟩
        exact ⟨key, rfl, hok⟩
    · split_ifs
      · exact (awaitRefresh_spec hcall hkey progress.lookups).pre
          fun world _ h => hheld world.core h
      · exact leadCall_spec hcall progress
  · exact leadCall_spec hcall progress

theorem leadFlight_spec {guard : LeaderGuard} {floor lower : ℕ}
    {key : List UInt8}
    (hkey : resolver.cacheKey call.group call.query = some key)
    (progress : Progress) :
    Spec resolver allows thread
      (fun core => floor ≤ core.flushed ∧
        FlightIs core guard.flight key floor ∧
        StaleOk resolver core (resolver.storedKey call.group call.query)
          lower progress.stale)
      (resolver.leadFlight call guard progress)
      (CallEnds resolver call floor) := by
  have hguard : ∀ core : Core, FlightIs core guard.flight key floor →
      GuardOk core (resolver.cacheKey call.group call.query) floor
        (some guard) := by
    rintro core hflight _ ⟨⟩
    exact ⟨key, hkey, hflight⟩
  unfold Resolver.leadFlight
  cases hstored : resolver.storedKey call.group call.query with
  | none =>
    -- without a stored key the call holds no stale entry
    refine (leadRefresh_spec hcall progress).pre ?_
    rintro world _ ⟨hfloor, hflight, hstale⟩
    refine ⟨hfloor, hguard _ hflight, ?_⟩
    intro entry hentry
    obtain ⟨_, hnone, _⟩ := hstale entry hentry
    contradiction
  | some same =>
    obtain rfl : key = same :=
      Option.some.inj (hkey.symm.trans (Resolver.storedKey_eq_some hstored).2)
    have hlasting : Lasting resolver fun core => floor ≤ core.flushed ∧
        FlightIs core guard.flight key floor :=
      (lasting_flushed floor).and (lasting_flightIs _ _ _)
    refine Triple.pre (.bind (quiet_spec hlasting rfl) fun now => ?_)
      fun _ _ h => ⟨h.1, h.2.1⟩
    refine .bind (storeGet_spec hlasting (fun _ h => h.1) key now)
      fun entry => ?_
    have hfound : Lasting resolver fun core => (floor ≤ core.flushed ∧
        FlightIs core guard.flight key floor) ∧
        ∀ found, entry = some found →
          EntryOk resolver core key floor found :=
      hlasting.and fun core after hbase h found heq =>
        (h found heq).mono hbase
    refine .bind (Resolver.classify_triple onCore
      (stable_of_lasting hfound) entry now) fun found => ?_
    have hfinish : ∀ outcome,
        (∀ core, ((floor ≤ core.flushed ∧
          FlightIs core guard.flight key floor) ∧
          ∀ found, entry = some found →
            EntryOk resolver core key floor found) →
          OutcomeOk resolver core key floor outcome) →
        Spec resolver allows thread
          (fun core => (floor ≤ core.flushed ∧
            FlightIs core guard.flight key floor) ∧
            ∀ found, entry = some found →
              EntryOk resolver core key floor found)
          (finish (some guard) outcome)
          (fun _ core => (floor ≤ core.flushed ∧
            FlightIs core guard.flight key floor) ∧
            ∀ found, entry = some found →
              EntryOk resolver core key floor found) := by
      intro outcome houtcome
      refine finish_spec hfound (fun core h => hguard core h.1.2) ?_
      intro core bytes h hbytes
      obtain rfl := Option.some.inj (hkey.symm.trans hbytes)
      exact houtcome core h
    cases found with
    | fresh cached =>
      refine .assume (fun _ _ h => h.2) fun ⟨hentry, _⟩ =>
        .pre ?_ fun _ _ h => h.1
      refine .bind (hfinish _ fun core h => (h.2 cached hentry).cached)
        fun _ => ?_
      refine .bind (Resolver.emitResult_triple onCore
        (stable_of_lasting hfound) _ _) fun _ => .ret fun world _ h => ?_
      exact ⟨_, rfl, entry_replyOk hcall _ hkey (h.2 cached hentry) rfl
        fun _ hmade => ⟨hmade, now, rfl⟩⟩
    | failure cached =>
      refine .assume (fun _ _ h => h.2) fun ⟨hentry, hfailure⟩ =>
        .pre ?_ fun _ _ h => h.1
      refine .bind (hfinish _ fun core h =>
        (h.2 cached hentry).failure hfailure) fun _ => ?_
      refine .bind (Resolver.serveFailure_triple onCore
        (stable_of_lasting hfound) call cached now _)
        fun reply => .ret fun world _ h => ?_
      obtain ⟨hholds, rfl⟩ := h
      exact ⟨_, rfl, entry_replyOk hcall _ hkey (hholds.2 cached hentry)
        rfl fun _ hmade => ⟨hmade, now, rfl⟩⟩
    | staleNow cached =>
      refine .assume (fun _ _ h => h.2) fun ⟨hentry, _⟩ =>
        .pre ?_ fun _ _ h => h.1
      refine .bind (hfinish _ fun core h => (h.2 cached hentry).stale)
        fun _ => ?_
      refine .bind (Resolver.serveStale_triple onCore
        (stable_of_lasting hfound) call cached _)
        fun reply => .ret fun world _ h => ?_
      obtain ⟨hholds, rfl⟩ := h
      exact ⟨_, rfl, entry_replyOk hcall _ hkey (hholds.2 cached hentry)
        rfl fun _ hmade => ⟨hmade, rfl⟩⟩
    | refresh stale backoff =>
      refine (leadRefresh_spec hcall _).pre ?_
      rintro world _ ⟨⟨⟨hfloor, hflight⟩, hentry⟩, hclass⟩
      refine ⟨hfloor, hguard _ hflight, ?_⟩
      rintro _ ⟨⟩
      exact ⟨key, hstored, hentry _ hclass.1⟩

theorem done_of_callEnds {world : World} {floor : ℕ} {result : Job ⊕ Reply}
    (hfloor : Strict allows → thread.born.core.flushed ≤ floor)
    (h : CallEnds resolver call floor result world.core) :
    (logic resolver allows).done thread result world := by
  obtain ⟨reply, rfl, hreply⟩ := h
  change (logic resolver allows).post thread reply world
  unfold logic
  dsimp only
  rw [hcall.first]
  exact ⟨floor, hfloor, hreply⟩

theorem followFlight_spec {key : List UInt8} {flight floor : ℕ}
    (hkey : resolver.cacheKey call.group call.query = some key)
    (hfloor : Strict allows → thread.born.core.flushed ≤ floor)
    (progress : Progress) :
    Triple resolver.machine allows (logic resolver allows) thread
      (fun world => (thread.born.core.flushed ≤ world.core.flushed ∧
        StaleOk resolver world.core
          (resolver.storedKey call.group call.query)
          thread.born.core.flushed progress.stale) ∧
        FlightIs world.core flight key floor)
      (resolver.followFlight call key progress flight)
      ((logic resolver allows).done thread) := by
  have hlasting : Lasting resolver fun core =>
      (thread.born.core.flushed ≤ core.flushed ∧
        StaleOk resolver core (resolver.storedKey call.group call.query)
          thread.born.core.flushed progress.stale) ∧
        FlightIs core flight key floor :=
    ((lasting_flushed _).and (lasting_staleOk _ _ _)).and
      (lasting_flightIs _ _ _)
  refine .bind (Resolver.announce_triple onCore (stable_of_lasting hlasting)
    call progress) fun _ => ?_
  refine .bind (Resolver.waitTimed_triple onCore (stable_of_lasting hlasting)
    progress.stale) fun timed => ?_
  refine Triple.pre (.bind (wait_spec hlasting (fun _ h => h.2) timed)
    fun waited => ?_) fun _ _ h => h.1
  cases waited with
  | done outcome =>
    refine Triple.pre (.bind (Resolver.finishFollower_triple onCore
      (stable_of_lasting (lasting_outcomeOk key floor outcome)) call
      outcome progress.lookups) fun reply => .ret fun world _ h => ?_)
      fun _ _ h => h.2 outcome rfl
    exact done_of_callEnds hcall hfloor
      ⟨reply, rfl, follower_replyOk hcall hkey h.1 h.2⟩
  | timedOut =>
    dsimp only
    cases hstale : progress.stale with
    | none =>
      exact .ret fun world _ h => ⟨hcall, hkey, h.1.1.1, h.1.1.2⟩
    | some stale =>
      rw [hstale] at hlasting
      refine Triple.pre (.bind (Resolver.serveStale_triple onCore
        (stable_of_lasting hlasting) call stale progress.lookups)
        fun reply => .ret fun world _ h => ?_) fun _ _ h => h.1
      obtain ⟨⟨⟨_, hentry⟩, _⟩, rfl⟩ := h
      obtain ⟨same, hsame, hok⟩ := hentry stale rfl
      exact done_of_callEnds hcall (fun _ => le_refl _)
        ⟨_, rfl, entry_replyOk hcall progress.lookups
          (Resolver.storedKey_eq_some hsame).2 hok rfl
          fun _ hmade => ⟨hmade, rfl⟩⟩
  | abandoned => exact .ret fun world _ h => ⟨hcall, hkey, h.1.1.1, h.1.1.2⟩
  | dropped =>
    exact .ret fun world _ _ => done_of_callEnds hcall (fun _ => le_refl _)
      (callEnds_of_no_answer (by simp))

theorem joinFlight_spec {key : List UInt8}
    (hkey : resolver.cacheKey call.group call.query = some key)
    (progress : Progress) :
    Triple resolver.machine allows (logic resolver allows) thread
      (fun world => thread.born.core.flushed ≤ world.core.flushed ∧
        StaleOk resolver world.core
          (resolver.storedKey call.group call.query)
          thread.born.core.flushed progress.stale)
      (resolver.joinFlight call key progress)
      ((logic resolver allows).done thread) := by
  have hlasting : Lasting resolver fun core =>
      thread.born.core.flushed ≤ core.flushed ∧
        StaleOk resolver core (resolver.storedKey call.group call.query)
          thread.born.core.flushed progress.stale :=
    (lasting_flushed _).and (lasting_staleOk _ _ _)
  refine .bind (joinOrLead_spec hlasting (fun _ h => h.1) key _)
    fun join => ?_
  cases join with
  | lead guard =>
    rintro world hinv ⟨h, begun, hfloor, hle, hflight⟩
    exact Triple.post (leadFlight_spec hcall hkey progress)
      (fun _ _ _ h => done_of_callEnds hcall (fun _ => hfloor) h) world
      hinv ⟨hle, hflight, h.2⟩
  | follow flight =>
    rintro world hinv ⟨h, begun, hstrict, hflight⟩
    exact followFlight_spec hcall hkey (fun hs => hstrict hs (by simp))
      progress world hinv ⟨h, hflight⟩

theorem resolveIn_spec :
    Triple resolver.machine allows (logic resolver allows) thread
      (fun world => thread.born.core.flushed ≤ world.core.flushed)
      (resolver.resolveIn call) ((logic resolver allows).done thread) := by
  have hlasting : Lasting resolver fun core =>
      thread.born.core.flushed ≤ core.flushed := lasting_flushed _
  refine .bind (quiet_spec hlasting rfl) fun now => ?_
  have hlook : Spec resolver allows thread
      (fun core => thread.born.core.flushed ≤ core.flushed)
      (Resolver.lookUp (resolver.storedKey call.group call.query) now)
      (fun entry core => thread.born.core.flushed ≤ core.flushed ∧
        StaleOk resolver core (resolver.storedKey call.group call.query)
          thread.born.core.flushed entry) := by
    cases resolver.storedKey call.group call.query with
    | none => exact .ret fun _ _ h => ⟨h, by simp [StaleOk]⟩
    | some key =>
      refine (storeGet_spec hlasting (fun _ h => h) key now).post ?_
      exact fun _ _ _ h => ⟨h.1, fun entry hentry =>
        ⟨key, rfl, h.2 entry hentry⟩⟩
  refine .bind hlook fun entry => ?_
  have hfound := hlasting.and (@lasting_staleOk resolver
    (resolver.storedKey call.group call.query) thread.born.core.flushed
    entry)
  refine .bind (Resolver.classify_triple onCore (stable_of_lasting hfound)
    entry now) fun found => ?_
  cases found with
  | fresh cached =>
    refine .assume (fun _ _ h => h.2) fun ⟨hentry, _⟩ =>
      .pre ?_ fun _ _ h => h.1
    refine .bind (quiet_spec hfound rfl) fun _ => ?_
    refine .bind (quiet_spec hfound rfl) fun _ => ?_
    refine .bind (Resolver.emitResult_triple onCore
      (stable_of_lasting hfound) _ _) fun _ => ?_
    refine .bind (maybePrefetch_spec hfound call cached now)
      fun _ => .ret fun world _ h => ?_
    obtain ⟨key, hkey, hok⟩ := h.2 cached hentry
    exact done_of_callEnds hcall (fun _ => le_refl _)
      ⟨_, rfl, entry_replyOk hcall _ (Resolver.storedKey_eq_some hkey).2 hok rfl
        fun _ hmade => ⟨hmade, now, rfl⟩⟩
  | failure cached =>
    refine .assume (fun _ _ h => h.2) fun ⟨hentry, _⟩ =>
      .pre ?_ fun _ _ h => h.1
    refine .bind (quiet_spec hfound rfl) fun _ => ?_
    refine .bind (quiet_spec hfound rfl) fun _ => ?_
    refine .bind (Resolver.serveFailure_triple onCore
      (stable_of_lasting hfound) call cached now _)
      fun reply => .ret fun world _ h => ?_
    obtain ⟨hholds, rfl⟩ := h
    obtain ⟨key, hkey, hok⟩ := hholds.2 cached hentry
    exact done_of_callEnds hcall (fun _ => le_refl _)
      ⟨_, rfl, entry_replyOk hcall _ (Resolver.storedKey_eq_some hkey).2 hok rfl
        fun _ hmade => ⟨hmade, now, rfl⟩⟩
  | staleNow cached =>
    refine .assume (fun _ _ h => h.2) fun ⟨hentry, _⟩ =>
      .pre ?_ fun _ _ h => h.1
    refine .bind (quiet_spec hfound rfl) fun _ => ?_
    refine .bind (quiet_spec hfound rfl) fun _ => ?_
    refine .bind (Resolver.serveStale_triple onCore
      (stable_of_lasting hfound) call cached _)
      fun reply => .ret fun world _ h => ?_
    obtain ⟨hholds, rfl⟩ := h
    obtain ⟨key, hkey, hok⟩ := hholds.2 cached hentry
    exact done_of_callEnds hcall (fun _ => le_refl _)
      ⟨_, rfl, entry_replyOk hcall _ (Resolver.storedKey_eq_some hkey).2 hok rfl
        fun _ hmade => ⟨hmade, rfl⟩⟩
  | refresh stale backoff =>
    refine .assume (fun _ _ h => h.2) fun hclass =>
      .pre ?_ fun _ _ h => h.1
    have hstale : ∀ core, StaleOk resolver core
        (resolver.storedKey call.group call.query)
        thread.born.core.flushed entry →
        StaleOk resolver core (resolver.storedKey call.group call.query)
          thread.born.core.flushed stale := by
      rintro core h same rfl
      exact h same hclass.1
    refine .bind (quiet_spec hfound rfl) fun _ => ?_
    refine .bind (quiet_spec hfound rfl) fun _ => ?_
    dsimp only
    split
    · rename_i key _ hkey
      exact .ret fun world _ h => ⟨hcall, hkey, h.1, hstale _ h.2⟩
    · refine ((leadCall_spec hcall _).post fun _ _ _ h =>
        done_of_callEnds hcall (fun _ => le_refl _) h).pre ?_
      exact fun world _ h => ⟨h.1, by simp [GuardOk], hstale _ h.2⟩

end Flight

/-! ## Purges -/

theorem Swept.mono {core : Core} {scope : Scope} {epoch : ℕ}
    {visited more : ℕ → Prop} (h : Swept resolver core scope epoch visited)
    (himp : ∀ key, scope.covers key = true →
      more (core.home resolver key) → visited (core.home resolver key)) :
    Swept resolver core scope epoch more where
  epoch_le := h.epoch_le
  allowed := fun key hcovers hmore =>
    h.allowed key hcovers (himp key hcovers hmore)
  holds := fun key hcovers hmore =>
    h.holds key hcovers (himp key hcovers hmore)

theorem sweepShards_spec (scope : Scope) (epoch : ℕ) (indices : List ℕ)
    (visited : ℕ → Prop) :
    Spec resolver allows thread
      (fun core => Swept resolver core scope epoch visited)
      (Resolver.sweepShards scope indices)
      (fun _ core => Swept resolver core scope epoch
        fun index => index ∈ indices ∨ visited index) := by
  induction indices generalizing visited with
  | nil =>
    refine .ret fun world _ h => ?_
    exact h.mono fun _ _ hvisited => by simpa using hvisited
  | cons index rest ih =>
    have hsweep := @sweepShard_spec resolver allows thread _
      (Lasting.const True) scope epoch index visited
    refine Triple.pre (.bind (hsweep.post fun _ _ _ h => h.2)
      fun removed => ?_) fun _ _ h => ⟨trivial, h⟩
    refine .bind (ih _) fun others => .ret fun world _ h => ?_
    apply Swept.mono h
    intro key _ hvisited
    rw [List.mem_cons] at hvisited
    tauto

theorem home_lt {core : Core} (hinv : Inv resolver core) (key : List UInt8) :
    core.home resolver key < resolver.shards := by
  rw [← hinv.shards]
  exact Nat.lt_succ_of_le Nat.and_le_right

/-- Without a store nothing is held and no shard is locked. -/
theorem swept_of_disabled {core : Core} (hinv : Inv resolver core)
    (hdisabled : ¬resolver.cache.storeEnabled = true) {scope : Scope}
    {epoch : ℕ} (hepoch : epoch ≤ core.epoch) (visited : ℕ → Prop) :
    Swept resolver core scope epoch visited := by
  refine ⟨hepoch, ?_, ?_⟩
  · intro key _ _ other hallowed
    obtain ⟨lock, hlock, _⟩ := Option.bind_eq_some_iff.mp hallowed
    exact absurd (hinv.locked _ lock hlock) hdisabled
  · intro key _ _ entry hheld
    exact absurd (hinv.held key entry hheld).enabled hdisabled

theorem sweep_spec (scope : Scope) (epoch : ℕ) :
    Spec resolver allows thread (fun core => epoch ≤ core.epoch)
      (resolver.sweep scope)
      (fun _ core => Swept resolver core scope epoch fun _ => True) := by
  unfold Resolver.sweep
  split_ifs with hsweep
  · refine Triple.pre (.post (sweepShards_spec scope epoch
      (List.range resolver.shards) fun _ => False) ?_) ?_
    · intro _ world hinv h
      refine h.mono fun key _ _ => Or.inl ?_
      exact List.mem_range.mpr (home_lt hinv key)
    · exact fun world _ h => ⟨h, by simp, by simp⟩
  · refine .ret fun world hinv h => ?_
    by_cases henabled : resolver.cache.storeEnabled = true
    · have hnone : scope.matching = none := by
        simpa [henabled] using hsweep
      have hcovers : ∀ key, scope.covers key = false := by
        simp [Scope.covers, hnone]
      exact ⟨h, by simp [hcovers], by simp [hcovers]⟩
    · exact swept_of_disabled hinv henabled h _

theorem purge_spec (scope : Scope) :
    Spec resolver allows thread (fun _ => True) (resolver.purge scope)
      (fun result core => ∃ epoch removed,
        result = .inr (.purged epoch removed) ∧
          (Swept resolver core scope epoch fun _ => True) ∧
          Recorded core scope epoch) := by
  refine .bind (bumpEpoch_spec (.const True)) fun epoch => ?_
  refine Triple.pre (.bind (sweep_spec scope epoch) fun removed => ?_)
    fun _ _ h => h.2
  have hcomplete : Spec resolver allows thread
      (fun core => Swept resolver core scope epoch fun _ => True)
      (Resolver.completeFlush scope epoch)
      (fun _ core => (Swept resolver core scope epoch fun _ => True) ∧
        Recorded core scope epoch) := by
    cases scope with
    | all =>
      exact Triple.pre (.post (flushed_spec (.const True) epoch)
        fun _ _ _ h => ⟨h.1.2, h.2⟩) fun _ _ h => ⟨trivial, h⟩
    | named name rtype => exact .ret fun _ _ h => ⟨h, trivial⟩
    | subtree zone => exact .ret fun _ _ h => ⟨h, trivial⟩
  exact .bind hcomplete fun _ => .ret fun _ _ h => ⟨epoch, removed, rfl, h⟩

/-! ## The logic is valid -/

theorem initial_inv (resolver : Resolver) (instant : ℕ) :
    Inv resolver (resolver.initial instant).core where
  sound := Store.new_sound _ _ _
  shards := Nat.sub_add_cancel (shardCount_pos _ _ _)
  held := fun key entry h => absurd h (Store.new_not_holds _ _ _ key entry)
  locked := by simp [Resolver.initial]
  allowed := by simp [Resolver.initial, Core.allowedAt]
  flushed_le := le_refl _
  registry := by simp [Resolver.initial]
  published := by simp [Resolver.initial]

theorem code_safe {job : Job} {world : World} (hinv : Inv resolver world.core)
    (hpre : (logic resolver allows).pre thread job world) :
    Safe resolver.machine allows (logic resolver allows) thread
      ((logic resolver allows).done thread) (resolver.code job) world := by
  have hsafe : ∀ {requires : World → Prop} {prog : Code (Job ⊕ Reply)},
      Triple resolver.machine allows (logic resolver allows) thread requires
        prog ((logic resolver allows).done thread) → requires world →
      Safe resolver.machine allows (logic resolver allows) thread
        ((logic resolver allows).done thread) prog world :=
    fun h hrequires => (h world hinv hrequires).mono fun _ _ h => h.2
  cases job with
  | resolve query =>
    obtain ⟨hfirst, hflushed⟩ := hpre
    have hplain : ∀ (reply : Reply) after,
        (∀ answer lookups, reply ≠ .answered answer lookups) →
        (logic resolver allows).done thread (.inr reply) after := by
      intro reply after hreply
      change (logic resolver allows).post thread reply after
      unfold logic
      dsimp only
      rw [hfirst]
      exact ⟨_, fun _ => le_refl _, fun answer lookups heq =>
        absurd heq (hreply answer lookups)⟩
    refine hsafe (Resolver.resolve_triple onCore (stable_of_lasting
      (lasting_flushed thread.born.core.flushed)) query ?_ ?_ ?_) hflushed
    · exact fun after result _ => hplain _ after (by simp)
    · exact fun after _ => hplain _ after (by simp)
    · intro question correlationId group backends decision hquestion
        heffective _ _ _
      exact resolveIn_spec ⟨hfirst, question, hquestion, heffective⟩
  | join call key progress =>
    obtain ⟨hcall, hkey, hflushed, hstale⟩ := hpre
    exact hsafe (joinFlight_spec hcall hkey progress) ⟨hflushed, hstale⟩
  | refresh job =>
    obtain ⟨hfirst, floor, hok⟩ := hpre
    refine hsafe ((refresh_spec hok.stored).post ?_) hok
    rintro _ after _ rfl
    change (logic resolver allows).post thread .ended after
    unfold logic
    dsimp only
    rw [hfirst]
    trivial
  | purge scope =>
    refine hsafe ((purge_spec scope).post ?_) trivial
    rintro _ after _ ⟨epoch, removed, rfl, hswept⟩
    change (logic resolver allows).post thread _ after
    unfold logic
    dsimp only
    rw [show thread.first = .purge scope from hpre]
    rintro _ _ ⟨⟩
    exact hswept

theorem valid (resolver : Resolver) (allows : Condition Op Resp World Job) :
    Valid resolver.machine allows (logic resolver allows) where
  refl := fun number world => ⟨Base.refl _, fun _ _ h _ => h⟩
  trans := by
    intro number first second third h h'
    exact ⟨h.1.trans h'.1, fun index lock hlock howner =>
      h'.2 index lock (h.2 index lock hlock howner) howner⟩
  tick := by
    intro world input after hinv htick
    cases input with
    | advance duration =>
      change (if _ then _ else _) = _ at htick
      split_ifs at htick
      obtain rfl := Option.some.inj htick
      have hkeeps := keeps_of_same hinv (world.core.clock + duration)
        world.core.nextCall world.core.offered world.core.loops
      exact ⟨hkeeps.inv, fun number => ⟨hkeeps.base, fun _ _ h _ => h⟩⟩
    | _ => contradiction
  arrive := by
    intro number job world hexternal _
    cases job with
    | resolve query => exact ⟨rfl, le_refl _⟩
    | purge scope => rfl
    | join call key progress => cases hexternal
    | refresh job => cases hexternal
  code := fun thread job world hinv hpre => code_safe hinv hpre
  pre_stable := by
    intro thread job world after hpre hrely _
    cases job with
    | resolve query => exact ⟨hpre.1, hpre.2.trans hrely.1.flushed_le⟩
    | purge scope => exact hpre
    | join call key progress =>
      obtain ⟨hcall, hkey, hflushed, hstale⟩ := hpre
      exact ⟨hcall, hkey, hflushed.trans hrely.1.flushed_le,
        lasting_staleOk _ _ _ _ _ hrely.1 hstale⟩
    | refresh job =>
      obtain ⟨hfirst, floor, hok⟩ := hpre
      exact ⟨hfirst, floor, lasting_refreshOk _ _ _ _ hrely.1 hok⟩
  post_stable := by
    intro thread reply world after hpost hrely _
    unfold logic at hpost ⊢
    dsimp only at hpost ⊢
    cases hfirst : thread.first with
    | resolve query =>
      rw [hfirst] at hpost
      obtain ⟨floor, hfloor, hreply⟩ := hpost
      exact ⟨floor, hfloor, lasting_replyOk _ _ _ _ _ hrely.1 hreply⟩
    | purge scope =>
      rw [hfirst] at hpost
      exact fun epoch removed heq =>
        ⟨lasting_swept _ _ _ _ _ hrely.1 (hpost epoch removed heq).1,
          lasting_recorded _ _ _ _ hrely.1 (hpost epoch removed heq).2⟩
    | join call key progress => trivial
    | refresh job => trivial

theorem start_holds (resolver : Resolver)
    (allows : Condition Op Resp World Job) (instant : ℕ) :
    Holds resolver.machine allows (logic resolver allows)
      (resolver.start instant) where
  inv := initial_inv resolver instant
  running := by simp [Resolver.start]
  finished := by simp [Resolver.start]

/-- In every state a run can reach, the invariant holds and every answer has
its provenance. -/
theorem holds_of_reaches {resolver : Resolver}
    {allows : Condition Op Resp World Job} {instant : ℕ}
    {state : MachineState Op Resp World Job Reply}
    (h : resolver.machine.Reaches allows (resolver.start instant) state) :
    Holds resolver.machine allows (logic resolver allows) state :=
  (valid resolver allows).holds_of_reaches
    (start_holds resolver allows instant) h

end Provenance

end DnsLattice
