import DnsLattice.StreamQueries
import DnsLattice.Transitions

/-!
# When a query is sent again

A call submits its query a second time only after a failure of a connection
which had answered before.  A frame which does not decode, an answer to another
question and a timeout end the call.
-/

namespace DnsLattice

namespace StreamConn

/-! ## What stays true of a connection -/

def FailedWith (conn : Conn) (query : ℕ) (failure : Failure) : Prop :=
  (conn.queries query).phase = .refused failure ∨
    .error failure ∈ (conn.queries query).inbox

structure Grows (before after : Conn) : Prop where
  log : before.log ⊆ after.log
  failed : ∀ query failure, FailedWith before query failure →
    FailedWith after query failure

theorem Grows.refl (conn : Conn) : Grows conn conn :=
  ⟨List.Subset.refl _, fun _ _ => id⟩

section Grows

variable {conn after : Conn} {query : ℕ}

theorem Conn.Inv.inbox_draw (hinv : conn.Inv) (found : ℕ) :
    (conn.queries found).inbox ⊆ (conn.draw.queries found).inbox := by
  by_cases hsame : found = conn.opened
  · have hquiet := (hinv.placed.place conn.opened).quiet (by
      rw [hinv.numbered.unopened conn.opened le_rfl]
      rfl)
    rw [hsame, hquiet]
    exact List.nil_subset _
  · rw [conn.draw_queries_of_ne hsame]
    exact List.Subset.refl _

theorem inbox_setPhase (conn : Conn) (changed : ℕ) (phase : QueryPhase)
    (found : ℕ) : (conn.queries found).inbox ⊆
      ((conn.setPhase changed phase).queries found).inbox := by
  by_cases hsame : found = changed
  · rw [hsame, conn.setPhase_queries_self]
    exact List.Subset.refl _
  · rw [conn.setPhase_queries_of_ne phase hsame]
    exact List.Subset.refl _

theorem inbox_send (conn : Conn) (sent : ℕ) (result : Except Failure Message)
    (found : ℕ) : (conn.queries found).inbox ⊆
      ((conn.send sent result).queries found).inbox := by
  rw [conn.send_queries sent result]
  by_cases hsame : found = sent
  · rw [hsame, Function.update_self, Conn.told]
    split_ifs
    · exact List.subset_append_left _ _
    · exact List.Subset.refl _
  · rw [Function.update_of_ne hsame]
    exact List.Subset.refl _

theorem log_fail (conn : Conn) (cause : Cause) :
    conn.log ⊆ (conn.fail cause).log := by
  rw [Conn.fail]
  split_ifs
  · exact List.Subset.refl _
  · exact List.subset_cons_self _ _

theorem log_dispatch (conn : Conn) (frame : List UInt8) :
    conn.log ⊆ (conn.dispatch frame).log := by
  rw [Conn.dispatch]
  split
  · exact List.Subset.refl _
  · split
    · exact List.subset_cons_self _ _
    · exact List.subset_cons_self _ _
    · exact List.subset_cons_self _ _
    · exact List.subset_cons_self _ _

theorem Step.log_subset {instantMax : ℕ} (hstep : Step instantMax conn after) :
    conn.log ⊆ after.log := by
  cases hstep with
  | tick hle => exact List.Subset.refl _
  | draw => exact List.Subset.refl _
  | @submit changed outcome state queued hphase hsubmit =>
    cases outcome with
    | accepted id => exact List.subset_cons_self _ _
    | refused failure => exact List.Subset.refl _
    | broken => exact List.Subset.refl _
  | breakOff hphase => exact log_fail conn _
  | dispatch frame hreader => exact log_dispatch conn frame
  | decoded hreader hdecode =>
    dsimp only
    split_ifs
    · exact List.subset_cons_self _ _
    · exact List.Subset.refl _
  | garbled hreader hdecode => exact List.Subset.refl _
  | readerFails hreader => exact log_fail conn _
  | lose failure => exact log_fail conn _
  | notify howed => exact List.Subset.refl _
  | read hphase hinbox => exact List.Subset.refl _
  | abandon hphase => exact List.subset_cons_self _ _
  | @dropGuard changed id hphase =>
    rw [Conn.dropGuard]
    cases guardLocked instantMax id (conn.queries changed).serial conn.clock
        conn.state with
    | mk found state =>
      cases found with
      | none => exact List.Subset.refl _
      | some waiter => exact List.subset_cons_self _ _

theorem Step.inbox_subset {instantMax : ℕ} (hstep : Step instantMax conn after)
    (hinv : conn.Inv) (found : ℕ) :
    (conn.queries found).inbox ⊆ (after.queries found).inbox := by
  cases hstep with
  | tick hle => exact List.Subset.refl _
  | draw => exact hinv.inbox_draw found
  | @submit changed outcome state queued hphase hsubmit =>
    cases outcome with
    | accepted id => exact inbox_setPhase conn changed _ found
    | refused failure => exact inbox_setPhase conn changed _ found
    | broken => exact inbox_setPhase conn changed _ found
  | @breakOff changed hphase =>
    have hset := inbox_setPhase (conn.fail .unwritable) changed
      (.refused Cause.unwritable.failure) found
    rw [fail_queries] at hset
    exact hset
  | dispatch frame hreader =>
    rw [dispatch_queries]
    exact List.Subset.refl _
  | decoded hreader hdecode => exact inbox_send conn _ _ found
  | garbled hreader hdecode => exact inbox_send conn _ _ found
  | readerFails hreader =>
    rw [fail_queries]
    exact List.Subset.refl _
  | lose failure =>
    rw [fail_queries]
    exact List.Subset.refl _
  | notify howed => exact inbox_send conn _ _ found
  | @read changed id hphase hinbox => exact inbox_setPhase conn changed _ found
  | @abandon changed id hphase => exact inbox_setPhase conn changed _ found
  | @dropGuard changed id hphase =>
    obtain ⟨log, hafter⟩ := Conn.dropGuard_eq instantMax conn changed id
    rw [hafter]
    exact inbox_setPhase conn changed _ found

theorem Step.grows {instantMax : ℕ} (hstep : Step instantMax conn after)
    (hinv : conn.Inv) : Grows conn after := by
  refine ⟨hstep.log_subset, fun query failure hfailed => ?_⟩
  refine hfailed.imp (fun hrefused => ?_)
    (fun hmem => hstep.inbox_subset hinv query hmem)
  rcases hstep.moved hinv query with hsame | hmoved
  · exact hsame.trans hrefused
  · rw [hrefused] at hmoved
    cases hmoved

theorem Classified.not_matched (h : Classified conn) {failure : Failure}
    (hfailed : FailedWith conn query failure)
    (hlevel : failure.connectionLevel = true) (id : UInt16)
    (frame : List UInt8) : .matched id frame query ∉ conn.log := by
  intro hmatched
  rcases hfailed with hrefused | htold
  · have hsubmitted := (h.spent id frame query hmatched).2.2
    rw [hrefused] at hsubmitted
    cases hsubmitted
  · rcases h.answer id frame query hmatched _ htold with
      ⟨_, _, hresult⟩ | ⟨error, _, hresult⟩
    · cases hresult
    · cases hresult
      cases hlevel

end Grows

end StreamConn

namespace StreamPool

open ConnPool (Settings Probe sweepLocked)
open StreamConn (Conn Failure Classified Grows FailedWith)

/-! ## Steps of the pool and of the connections -/

theorem round_lease {settings : Settings} {pool : ConnPool.System Unit}
    {probe : Probe Unit} {front back : List ConnPool.Call}
    {caller : ConnPool.Call} {now : ℕ} {lease : ConnPool.Lease Unit}
    (hlease : (pool.round settings probe front back caller now).leases =
      lease :: pool.leases) :
    lease.phase = .held ∧ (caller.fresh = true → lease.reused = false ∨
      settings.config.maxConnections ≤
        (sweepLocked settings probe now pool.locked).state.live) := by
  have hround := ConnPool.acquireLocked_spec settings probe now caller.fresh
    pool.locked
  have hnone : pool.leases ≠ lease :: pool.leases := fun hsame =>
    absurd (congrArg List.length hsame) (Nat.lt_succ_self _).ne
  rw [ConnPool.System.round] at hlease
  generalize ConnPool.acquireLocked settings probe now caller.fresh
    pool.locked = result at hround hlease
  cases hround with
  | lease husable hfresh =>
    obtain ⟨rfl, _⟩ := List.cons.inj hlease
    exact ⟨rfl, hfresh⟩
  | scaleUp husable hfresh hconnecting hroom =>
    obtain ⟨rfl, _⟩ := List.cons.inj hlease
    exact ⟨rfl, hfresh⟩
  | start hconnecting hroom => exact absurd hlease hnone
  | join hconnecting => exact absurd hlease hnone
  | exhausted hexhausted => exact absurd hlease hnone

section Base

variable {settings : Settings} {callBudget : ℕ} {client after : Client}

theorem ClientStep.base (hstep : ClientStep settings callBudget client after) :
    after.base = client.base ∨ Step settings client.base after.base := by
  cases hstep with
  | query query => exact .inl rfl
  | pool hstep hheld => exact .inr (.pool hstep hheld)
  | conn hstep hopened hwaiting hlost => exact .inr (.conn hstep hopened)
  | acquire probe hcalls hphase hcallers hreading hfresh hdeadline hlease =>
    exact .inr (.acquire (.round probe hcallers hreading) hlease
      (round_lease hlease).1)
  | turnAway error hcalls hphase => exact .inl rfl
  | submit hcalls hphase hattempts => exact .inr (.submit hattempts)
  | refuse hcalls hphase hcurrent hrefused => exact .inl rfl
  | read hcalls hphase hcurrent hwaiting hinbox =>
    refine .inr (.conn (.read hwaiting fun hempty => ?_) rfl)
    exact List.cons_ne_nil _ _ (hinbox.symm.trans hempty)
  | abandon hcalls hphase hcurrent hwaiting =>
    exact .inr (.conn (.abandon hwaiting) rfl)
  | fail hcalls hphase hcurrent => exact .inl rfl
  | validate hcalls hphase => exact .inl rfl
  | finish hcalls hphase hcurrent hover hattempts hleases =>
    exact .inr (.finish hattempts hover hleases rfl)
  | proceed hcalls hphase => exact .inl rfl

/-- A connection takes a step, draws a query, or is left alone. -/
theorem Step.conns {system next : System}
    (hstep : Step settings system next) (entryId : ℕ) :
    next.conns entryId = system.conns entryId ∨
      StreamConn.Step settings.instantMax (system.conns entryId)
        (next.conns entryId) := by
  cases hstep with
  | pool hstep hheld => exact .inl rfl
  | acquire hstep hleases hphase => exact .inl rfl
  | @submit front back lease hattempts =>
    by_cases hsame : entryId = lease.entryId
    · subst hsame
      refine .inr ?_
      dsimp only
      rw [Function.update_self]
      exact .draw _
    · exact .inl (Function.update_of_ne hsame _ _)
  | @conn changed conn hstep hopened =>
    by_cases hsame : entryId = changed
    · subst hsame
      refine .inr ?_
      dsimp only
      rw [Function.update_self]
      exact hstep
    · exact .inl (Function.update_of_ne hsame _ _)
  | finish hattempts hover hleases hpool =>
    subst hpool
    exact .inl rfl

theorem ClientStep.conns
    (hstep : ClientStep settings callBudget client after) (entryId : ℕ) :
    after.base.conns entryId = client.base.conns entryId ∨
      StreamConn.Step settings.instantMax (client.base.conns entryId)
        (after.base.conns entryId) := by
  rcases hstep.base with hsame | hbase
  · rw [hsame]
    exact .inl rfl
  · exact hbase.conns entryId

end Base

/-! ## The flag of a connection -/

def HasAnswered (conn : Conn) : Prop :=
  ∃ id frame query message, .matched id frame query ∈ conn.log ∧
    Message.decode frame = .ok message

theorem HasAnswered.grows {conn after : Conn} (h : HasAnswered conn)
    (hgrows : Grows conn after) : HasAnswered after := by
  obtain ⟨id, frame, query, message, hmatched, hdecode⟩ := h
  exact ⟨id, frame, query, message, hgrows.log hmatched, hdecode⟩

theorem answers_eq_false {conn after : Conn}
    (hreader : after.reader = conn.reader) : answers conn after = false := by
  rw [answers, hreader]
  cases conn.reader with
  | decoding _ _ => rfl
  | reading => rfl
  | failing _ => rfl
  | stopped => rfl

theorem fail_reader (conn : Conn) (cause : StreamConn.Cause) :
    (conn.fail cause).reader = conn.reader := by
  rw [Conn.fail]
  split_ifs
  · rfl
  · rfl

theorem hasAnswered_of_answers {instantMax : ℕ} {conn after : Conn}
    (hstep : StreamConn.Step instantMax conn after) (hinv : conn.Inv)
    (hanswers : answers conn after = true) : HasAnswered conn := by
  have hkept : after.reader ≠ conn.reader := by
    intro hsame
    rw [answers_eq_false hsame] at hanswers
    cases hanswers
  cases hstep with
  | tick hle => exact absurd rfl hkept
  | draw => exact absurd rfl hkept
  | @submit changed outcome state queued hphase hsubmit =>
    cases outcome with
    | accepted id => exact absurd rfl hkept
    | refused failure => exact absurd rfl hkept
    | broken => exact absurd rfl hkept
  | breakOff hphase => exact absurd (fail_reader conn _) hkept
  | dispatch frame hreader =>
    rw [answers, hreader] at hanswers
    cases hanswers
  | @decoded waiter frame message hreader hdecode =>
    obtain ⟨id, hmatched⟩ := hinv.matched waiter frame hreader
    exact ⟨id, frame, waiter.tx, message, hmatched, hdecode⟩
  | garbled hreader hdecode =>
    rw [answers, hreader] at hanswers
    cases hanswers
  | readerFails hreader =>
    rw [answers, hreader] at hanswers
    cases hanswers
  | lose failure => exact absurd (fail_reader conn _) hkept
  | notify howed => exact absurd rfl hkept
  | read hphase hinbox => exact absurd rfl hkept
  | abandon hphase => exact absurd rfl hkept
  | @dropGuard changed id hphase =>
    obtain ⟨log, hafter⟩ := Conn.dropGuard_eq instantMax conn changed id
    exact absurd (congrArg Conn.reader hafter) hkept

/-! ## The record of a call -/

def Sent.Retryable (sent : Sent) : Prop :=
  ∃ failure, sent.ended = some (.failed failure true) ∧
    failure.connectionLevel = true

structure Call.Valid (settings : Settings) (client : Client) (call : Call) :
    Prop where
  first : call.fresh = false → call.earlier = []
  second : call.fresh = true → (∃ sent, call.earlier = [sent] ∧
    sent.Retryable) ∧ call.query.header.opcode = .query ∧
      ∃ now, call.retriedAt = some now ∧ now < call.deadline
  idle : call.phase = .acquiring ∨
    (∃ lease live, call.phase = .leased lease live) → call.current = none
  leased : ∀ lease live, call.phase = .leased lease live → call.fresh = true →
    lease.reused = false ∨ settings.config.maxConnections ≤ live
  granted : ∀ sent, call.current = some sent → call.fresh = true →
    sent.lease.reused = false ∨ settings.config.maxConnections ≤ sent.live
  failing : ∀ failure sent, call.phase = .failing failure →
    call.current = some sent →
      FailedWith (client.conn sent) sent.query failure
  ended : ∀ sent ∈ call.sent, ∀ failure answered,
    sent.ended = some (.failed failure answered) →
      FailedWith (client.conn sent) sent.query failure
  retry : ∀ error, call.phase = .returning (.error (error, true)) ∨
    call.phase = .returned (.error (error, true)) →
      (∃ sent, call.current = some sent ∧ sent.Retryable) ∧
        call.query.header.opcode = .query

section Calls

variable {settings : Settings} {client after : Client} {call : Call}

theorem Call.valid_new (settings : Settings) (client : Client)
    (query : Message) (deadline : ℕ) :
    (Call.new query deadline).Valid settings client where
  first _ := rfl
  second hfresh := by cases hfresh
  idle _ := rfl
  leased lease live hphase := by cases hphase
  granted sent hcurrent := by cases hcurrent
  failing failure sent hphase := by cases hphase
  ended sent hsent := absurd hsent List.not_mem_nil
  retry error hphase := by
    rcases hphase with hphase | hphase
    · cases hphase
    · cases hphase

theorem Call.Valid.grows (h : call.Valid settings client)
    (hgrows : ∀ entryId, Grows (client.base.conns entryId)
      (after.base.conns entryId)) : call.Valid settings after :=
  { h with
    failing := fun failure sent hphase hcurrent =>
      (hgrows _).failed _ _ (h.failing failure sent hphase hcurrent)
    ended := fun sent hsent failure answered hended =>
      (hgrows _).failed _ _ (h.ended sent hsent failure answered hended) }

theorem Call.Valid.acquire (h : call.Valid settings client)
    (hphase : call.phase = .acquiring) {lease : ConnPool.Lease Unit} {live : ℕ}
    (hlease : call.fresh = true → lease.reused = false ∨
      settings.config.maxConnections ≤ live) :
    Call.Valid settings client { call with phase := .leased lease live } :=
  { h with
    idle := fun _ => h.idle (.inl hphase)
    leased := by
      rintro _ _ ⟨⟩
      exact hlease
    failing := by
      rintro _ _ ⟨⟩
    retry := by
      rintro _ (⟨⟨⟩⟩ | ⟨⟨⟩⟩) }

theorem Call.Valid.move (h : call.Valid settings client) {phase : Phase}
    (hbusy : phase ≠ .acquiring ∧ ∀ lease live, phase ≠ .leased lease live)
    (hfailing : ∀ failure sent, phase = .failing failure →
      call.current = some sent →
        FailedWith (client.conn sent) sent.query failure)
    (hretry : ∀ error, phase = .returning (.error (error, true)) ∨
      phase = .returned (.error (error, true)) →
        (∃ sent, call.current = some sent ∧ sent.Retryable) ∧
          call.query.header.opcode = .query) :
    Call.Valid settings client { call with phase := phase } :=
  { h with
    idle := by
      rintro (hphase | ⟨lease, live, hphase⟩)
      · exact absurd hphase hbusy.1
      · exact absurd hphase (hbusy.2 lease live)
    leased := fun lease live hphase => absurd hphase (hbusy.2 lease live)
    failing := hfailing
    retry := hretry }

/-- The attempt ends without a query, and is not retried. -/
theorem Call.Valid.turnAway (h : call.Valid settings client) (error : Error) :
    Call.Valid settings client
      { call with phase := .returned (.error (error, false)) } := by
  refine h.move ⟨by simp, by simp⟩ ?_ ?_
  · rintro _ _ ⟨⟩
  · rintro _ (⟨⟨⟩⟩ | ⟨⟨⟩⟩)

theorem Call.Valid.submit (h : call.Valid settings client)
    {lease : ConnPool.Lease Unit} {live query : ℕ}
    (hphase : call.phase = .leased lease live) :
    Call.Valid settings client
      { call with
        phase := .submitted
        current := some ⟨lease, live, query, none⟩ } :=
  { h with
    idle := by
      rintro (⟨⟨⟩⟩ | ⟨_, _, ⟨⟩⟩)
    leased := by
      rintro _ _ ⟨⟩
    granted := by
      rintro _ ⟨⟩ hfresh
      exact h.leased lease live hphase hfresh
    failing := by
      rintro _ _ ⟨⟩
    ended := by
      intro sent hsent failure answered hended
      rcases List.mem_append.mp hsent with hold | hnew
      · exact h.ended sent (List.mem_append_left _ hold) failure answered hended
      · obtain rfl := List.mem_singleton.mp hnew
        cases hended
    retry := by
      rintro _ (⟨⟨⟩⟩ | ⟨⟨⟩⟩) }

theorem Call.Valid.receive (h : call.Valid settings client)
    {result : Except Failure Message}
    (hfailed : ∀ failure sent, result = .error failure →
      call.current = some sent →
        FailedWith (client.conn sent) sent.query failure) :
    (call.receive result).Valid settings client := by
  cases result with
  | ok message =>
    refine h.move ⟨by simp, by simp⟩ ?_ ?_
    · rintro _ _ ⟨⟩
    · rintro _ (⟨⟨⟩⟩ | ⟨⟨⟩⟩)
  | error failure =>
    refine h.move ⟨by simp, by simp⟩ ?_ ?_
    · rintro _ sent ⟨⟩ hcurrent
      exact hfailed failure sent rfl hcurrent
    · rintro _ (⟨⟨⟩⟩ | ⟨⟨⟩⟩)

theorem Call.Valid.ends (h : call.Valid settings client) {ending : Ending}
    {result : Except (Error × Bool) Message}
    (hfailed : ∀ failure answered sent, ending = .failed failure answered →
      call.current = some sent →
        FailedWith (client.conn sent) sent.query failure)
    (hretry : ∀ error, result = .error (error, true) →
      (∃ failure, ending = .failed failure true ∧
        failure.connectionLevel = true) ∧ call.current.isSome = true ∧
        call.query.header.opcode = .query) :
    (call.ends ending result).Valid settings client := by
  refine { h with
    idle := ?_
    leased := ?_
    granted := ?_
    failing := ?_
    ended := ?_
    retry := ?_ }
  · rintro (⟨⟨⟩⟩ | ⟨_, _, ⟨⟩⟩)
  · rintro _ _ ⟨⟩
  · intro sent hcurrent hfresh
    obtain ⟨old, hold, rfl⟩ := Option.map_eq_some_iff.mp hcurrent
    exact h.granted old hold hfresh
  · rintro _ _ ⟨⟩
  · intro sent hsent failure answered hended
    rcases List.mem_append.mp hsent with hearlier | hcurrent
    · exact h.ended sent (List.mem_append_left _ hearlier) failure answered
        hended
    · obtain ⟨old, hold, rfl⟩ := Option.map_eq_some_iff.mp
        (Option.mem_toList.mp hcurrent)
      exact hfailed failure answered old (Option.some.inj hended) hold
  · intro error hphase
    have hresult : result = .error (error, true) := by
      rcases hphase with hphase | hphase
      · exact Phase.returning.inj hphase
      · cases hphase
    obtain ⟨⟨failure, rfl, hlevel⟩, hsome, hopcode⟩ := hretry error hresult
    obtain ⟨sent, hsent⟩ := Option.isSome_iff_exists.mp hsome
    refine ⟨⟨{ sent with ended := some (.failed failure true) }, ?_, failure,
      rfl, hlevel⟩, hopcode⟩
    rw [Call.ends, hsent]
    rfl

theorem Call.Valid.fail (h : call.Valid settings client) {failure : Failure}
    {sent : Sent} (hphase : call.phase = .failing failure)
    (hcurrent : call.current = some sent) (answered : Bool) :
    (call.fail failure answered).Valid settings client := by
  refine h.ends ?_ ?_
  · rintro _ _ found ⟨⟩ hfound
    exact h.failing failure found hphase hfound
  · intro error hresult
    have hretry := (Prod.mk.inj (Except.error.inj hresult)).2
    rw [Bool.and_eq_true, Bool.and_eq_true, decide_eq_true_iff] at hretry
    obtain ⟨⟨hlevel, rfl⟩, hopcode⟩ := hretry
    exact ⟨⟨failure, rfl, hlevel⟩, hcurrent ▸ rfl, hopcode⟩

theorem Call.Valid.validate (h : call.Valid settings client)
    (message : Message) : (call.validate message).Valid settings client := by
  rw [Call.validate]
  split
  · exact h.ends (by rintro _ _ _ ⟨⟩) (by rintro _ ⟨⟩)
  · exact h.ends (by rintro _ _ _ ⟨⟩) (by rintro _ ⟨⟩)

theorem Call.Valid.finish (h : call.Valid settings client)
    {result : Except (Error × Bool) Message}
    (hphase : call.phase = .returning result) :
    Call.Valid settings client { call with phase := .returned result } := by
  refine h.move ⟨by simp, by simp⟩ ?_ ?_
  · rintro _ _ ⟨⟩
  · rintro error (⟨⟨⟩⟩ | ⟨⟨⟩⟩)
    exact h.retry error (.inl hphase)

theorem Call.Valid.done (h : call.Valid settings client)
    (result : Except Error Message) :
    Call.Valid settings client { call with phase := .done result } := by
  refine h.move ⟨by simp, by simp⟩ ?_ ?_
  · rintro _ _ ⟨⟩
  · rintro _ (⟨⟨⟩⟩ | ⟨⟨⟩⟩)

theorem Call.Valid.proceed (h : call.Valid settings client) {now : ℕ}
    {result : Except (Error × Bool) Message}
    (hphase : call.phase = .returned result) :
    (call.proceed now result).Valid settings client := by
  rcases result with ⟨error, retry⟩ | answer
  · rw [Call.proceed]
    split_ifs with hretry
    · obtain ⟨rfl, hfirst, hlt⟩ := hretry
      obtain ⟨⟨sent, hcurrent, hretryable⟩, hopcode⟩ :=
        h.retry error (.inr hphase)
      have hsent : call.sent = [sent] := by
        rw [Call.sent, h.first hfirst, hcurrent]
        rfl
      exact { h with
        first := by rintro ⟨⟩
        second := fun _ => ⟨⟨sent, hsent, hretryable⟩, hopcode, now, rfl, hlt⟩
        idle := fun _ => rfl
        leased := by rintro _ _ ⟨⟩
        granted := by rintro _ ⟨⟩
        failing := by rintro _ _ ⟨⟩
        ended := by
          intro found hfound
          refine h.ended found ?_
          simpa [Call.sent] using hfound
        retry := by rintro _ (⟨⟨⟩⟩ | ⟨⟨⟩⟩) }
    · exact h.done _
  · exact h.done _

end Calls

/-! ## Runs -/

structure ClientInv (settings : Settings) (client : Client) : Prop where
  base : Inv settings client.base
  classified : ∀ entryId, Classified (client.base.conns entryId)
  answered : ∀ entryId, client.answered entryId = true →
    HasAnswered (client.base.conns entryId)
  lost : ∀ entryId failure,
    .closed (.lost failure) ∈ (client.base.conns entryId).log → Lost failure
  calls : ∀ call ∈ client.calls, call.Valid settings client

theorem clientInv_new (settings : Settings) (readTimeout clock : ℕ)
    (start : ℕ → UInt16) :
    ClientInv settings (.new settings readTimeout clock start) where
  base := inv_new settings readTimeout clock start
  classified _ := StreamConn.classified_spawn _ _ _ _
  answered _ hanswered := by cases hanswered
  lost _ _ hlost := absurd hlost List.not_mem_nil
  calls _ hcall := absurd hcall List.not_mem_nil

section Steps

variable {settings : Settings} {callBudget : ℕ} {client after : Client}

theorem ClientStep.inv_base (hstep : ClientStep settings callBudget client after)
    (h : Inv settings client.base) : Inv settings after.base := by
  rcases hstep.base with hsame | hbase
  · rw [hsame]
    exact h
  · exact hbase.inv h

theorem ClientStep.grows (hstep : ClientStep settings callBudget client after)
    (h : Inv settings client.base) (entryId : ℕ) :
    Grows (client.base.conns entryId) (after.base.conns entryId) := by
  rcases hstep.conns entryId with hsame | hconn
  · rw [hsame]
    exact .refl _
  · exact hconn.grows (h.tracked entryId).inv

theorem ClientStep.classified
    (hstep : ClientStep settings callBudget client after)
    (h : ClientInv settings client) (entryId : ℕ) :
    Classified (after.base.conns entryId) := by
  rcases hstep.conns entryId with hsame | hconn
  · rw [hsame]
    exact h.classified entryId
  · exact hconn.classified (h.base.tracked entryId).inv (h.classified entryId)

theorem ClientStep.answered
    (hstep : ClientStep settings callBudget client after)
    (h : ClientInv settings client) (entryId : ℕ)
    (hanswered : after.answered entryId = true) :
    HasAnswered (after.base.conns entryId) := by
  refine HasAnswered.grows ?_ (hstep.grows h.base entryId)
  cases hstep with
  | @conn changed conn hstep hopened hwaiting hlost =>
    by_cases hsame : entryId = changed
    · subst hsame
      simp only [Function.update_self, Bool.or_eq_true] at hanswered
      rcases hanswered with hold | hnew
      · exact h.answered entryId hold
      · exact hasAnswered_of_answers hstep (h.base.tracked entryId).inv hnew
    · simp only [Function.update_of_ne hsame] at hanswered
      exact h.answered entryId hanswered
  | query query => exact h.answered entryId hanswered
  | pool hstep hheld => exact h.answered entryId hanswered
  | acquire probe hcalls hphase hcallers hreading hfresh hdeadline hlease =>
    exact h.answered entryId hanswered
  | turnAway error hcalls hphase => exact h.answered entryId hanswered
  | submit hcalls hphase hattempts => exact h.answered entryId hanswered
  | refuse hcalls hphase hcurrent hrefused => exact h.answered entryId hanswered
  | read hcalls hphase hcurrent hwaiting hinbox =>
    exact h.answered entryId hanswered
  | abandon hcalls hphase hcurrent hwaiting =>
    exact h.answered entryId hanswered
  | fail hcalls hphase hcurrent => exact h.answered entryId hanswered
  | validate hcalls hphase => exact h.answered entryId hanswered
  | finish hcalls hphase hcurrent hover hattempts hleases =>
    exact h.answered entryId hanswered
  | proceed hcalls hphase => exact h.answered entryId hanswered

theorem ClientStep.lost (hstep : ClientStep settings callBudget client after)
    (h : ClientInv settings client) (entryId : ℕ) (failure : Failure)
    (hlost : .closed (.lost failure) ∈ (after.base.conns entryId).log) :
    Lost failure := by
  have hupdate : ∀ {changed : ℕ} {conn : Conn},
      (.closed (.lost failure) ∈ conn.log →
        .closed (.lost failure) ∈ (client.base.conns changed).log ∨
          Lost failure) →
      .closed (.lost failure) ∈
        (Function.update client.base.conns changed conn entryId).log →
      Lost failure := by
    intro changed conn hconn hmem
    by_cases hsame : entryId = changed
    · rw [hsame, Function.update_self] at hmem
      exact (hconn hmem).elim (h.lost changed failure) id
    · rw [Function.update_of_ne hsame] at hmem
      exact h.lost entryId failure hmem
  cases hstep with
  | conn hstep hopened hwaiting hends =>
    exact hupdate (fun hmem => .inr (hends failure hmem)) hlost
  | submit hcalls hphase hattempts =>
    refine hupdate ?_ hlost
    exact .inl
  | read hcalls hphase hcurrent hwaiting hinbox =>
    refine hupdate ?_ hlost
    exact .inl
  | abandon hcalls hphase hcurrent hwaiting =>
    refine hupdate (fun hmem => .inl ?_) hlost
    exact (List.mem_cons.mp hmem).resolve_left (by simp)
  | query query => exact h.lost entryId failure hlost
  | pool hstep hheld => exact h.lost entryId failure hlost
  | acquire probe hcalls hphase hcallers hreading hfresh hdeadline hlease =>
    exact h.lost entryId failure hlost
  | turnAway error hcalls hphase => exact h.lost entryId failure hlost
  | refuse hcalls hphase hcurrent hrefused => exact h.lost entryId failure hlost
  | fail hcalls hphase hcurrent => exact h.lost entryId failure hlost
  | validate hcalls hphase => exact h.lost entryId failure hlost
  | finish hcalls hphase hcurrent hover hattempts hleases =>
    exact h.lost entryId failure hlost
  | proceed hcalls hphase => exact h.lost entryId failure hlost

theorem ClientStep.calls (hstep : ClientStep settings callBudget client after)
    (h : ClientInv settings client) :
    ∀ call ∈ after.calls, call.Valid settings after := by
  have hgrows := hstep.grows h.base
  have hkept : ∀ call ∈ client.calls, call.Valid settings after :=
    fun call hcall => (h.calls call hcall).grows hgrows
  -- A step of one call leaves the others.
  have hreplace : ∀ {front back : List Call} {call next : Call},
      client.calls = front ++ call :: back →
      (call.Valid settings after → next.Valid settings after) →
      ∀ found ∈ front ++ next :: back, found.Valid settings after := by
    intro front back call next hcalls hnext found hfound
    rw [hcalls] at hkept
    rcases List.mem_append.mp hfound with hfront | hrest
    · exact hkept found (List.mem_append_left _ hfront)
    · rcases List.mem_cons.mp hrest with rfl | hback
      · exact hnext (hkept call (by simp))
      · exact hkept found (by simp [hback])
  cases hstep with
  | query query =>
    intro call hcall
    rcases List.mem_cons.mp hcall with rfl | hold
    · exact Call.valid_new settings _ query _
    · exact hkept call hold
  | pool hstep hheld => exact hkept
  | conn hstep hopened hwaiting hends => exact hkept
  | acquire probe hcalls hphase hcallers hreading hfresh hdeadline hlease =>
    refine hreplace hcalls fun hvalid => hvalid.acquire hphase ?_
    rw [← hfresh]
    exact (round_lease hlease).2
  | turnAway error hcalls hphase =>
    exact hreplace hcalls fun hvalid => hvalid.turnAway error
  | submit hcalls hphase hattempts =>
    exact hreplace hcalls fun hvalid => hvalid.submit hphase
  | @refuse front back call sent failure hcalls hphase hcurrent hrefused =>
    refine hreplace hcalls fun hvalid =>
      @Call.Valid.receive _ _ call hvalid (.error failure) ?_
    rintro _ found ⟨⟩ hfound
    rw [hcurrent] at hfound
    cases hfound
    exact .inl hrefused
  | @read front back call sent id result rest hcalls hphase hcurrent hwaiting
    hinbox =>
    refine hreplace hcalls fun hvalid => hvalid.receive ?_
    rintro failure found rfl hfound
    rw [hcurrent] at hfound
    cases hfound
    refine (hgrows _).failed _ _ (.inr ?_)
    change .error failure ∈ ((client.conn sent).queries sent.query).inbox
    rw [hinbox]
    exact List.mem_cons_self ..
  | abandon hcalls hphase hcurrent hwaiting =>
    refine hreplace hcalls fun hvalid => hvalid.ends ?_ ?_
    · rintro _ _ _ ⟨⟩
    · rintro _ ⟨⟩
  | fail hcalls hphase hcurrent =>
    exact hreplace hcalls fun hvalid => hvalid.fail hphase hcurrent _
  | validate hcalls hphase =>
    exact hreplace hcalls fun hvalid => hvalid.validate _
  | finish hcalls hphase hcurrent hover hattempts hleases =>
    exact hreplace hcalls fun hvalid => hvalid.finish hphase
  | proceed hcalls hphase =>
    exact hreplace hcalls fun hvalid => hvalid.proceed hphase

theorem ClientStep.inv (hstep : ClientStep settings callBudget client after)
    (h : ClientInv settings client) : ClientInv settings after :=
  ⟨hstep.inv_base h.base, hstep.classified h, hstep.answered h, hstep.lost h,
    hstep.calls h⟩

end Steps

theorem ClientInv.failure {settings : Settings} {client : Client}
    (h : ClientInv settings client) {entryId query : ℕ} {failure : Failure}
    (hfailed : FailedWith (client.base.conns entryId) query failure)
    (hlevel : failure.connectionLevel = true) :
    failure.error ≠ .timeout ∧
      ∀ id frame, .matched id frame query ∉ (client.base.conns entryId).log := by
  refine ⟨?_, (h.classified entryId).not_matched hfailed hlevel⟩
  have hclosed : ∃ reason, failure = .closed reason := by
    rcases hfailed with hrefused | htold
    · exact (h.classified entryId).refused query failure hrefused hlevel
    · rcases (h.classified entryId).told query failure htold with
        hterminal | ⟨cause, hcause, rfl⟩
      · rw [hlevel] at hterminal
        cases hterminal
      · cases cause with
        | unsolicited => exact ⟨_, rfl⟩
        | undecodable => exact ⟨_, rfl⟩
        | unwritable => exact ⟨_, rfl⟩
        | lost failure =>
          rcases h.lost entryId failure hcause with hreason | hterminal
          · exact hreason
          · rw [StreamConn.Cause.failure, hterminal] at hlevel
            cases hlevel
  obtain ⟨reason, rfl⟩ := hclosed
  simp [StreamConn.Failure.closed]

theorem ClientReaches.inv {settings : Settings} {readTimeout callBudget : ℕ}
    {client : Client}
    (hreaches : ClientReaches settings readTimeout callBudget client) :
    ClientInv settings client := by
  obtain ⟨clock, start, hsteps⟩ := hreaches
  exact invariant_of_reaches (clientInv_new settings readTimeout clock start)
    (fun _ _ h hstep => hstep.inv h) hsteps

end StreamPool

end DnsLattice
