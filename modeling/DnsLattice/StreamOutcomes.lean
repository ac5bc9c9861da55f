import DnsLattice.StreamPoolRuns

/-!
# How queries on a stream connection fail

The result a query finds in its channel is either the frame which has taken its
waiter from the table, decoded or failed to decode, or the failure with which
the connection has ended.  Only the latter, and a connection which turns the
query away, count as failures of the connection.
-/

namespace DnsLattice

namespace StreamConn

def Decodes (frame : List UInt8) (result : Except Failure Message) : Prop :=
  (∃ message, Message.decode frame = .ok message ∧ result = .ok message) ∨
    ∃ error, Message.decode frame = .err error ∧
      result = .error (.terminal error)

structure Classified (conn : Conn) : Prop where
  /-- The waiter of a query which a frame has answered is nowhere else. -/
  spent : ∀ id frame query, .matched id frame query ∈ conn.log →
    (∀ other, pendingIn conn.log other ≠ some query) ∧
      (∀ item ∈ conn.owed, item.1.tx ≠ query) ∧
      (conn.queries query).phase.submitted = true
  answer : ∀ id frame query, .matched id frame query ∈ conn.log →
    ∀ result ∈ (conn.queries query).inbox, Decodes frame result
  once : ∀ id id' frame frame' query, .matched id frame query ∈ conn.log →
    .matched id' frame' query ∈ conn.log → frame' = frame
  owed : ∀ item ∈ conn.owed, ∃ cause, .closed cause ∈ conn.log ∧
    item.2 = cause.failure
  told : ∀ query failure, .error failure ∈ (conn.queries query).inbox →
    failure.connectionLevel = false ∨ ∃ cause, .closed cause ∈ conn.log ∧
      failure = cause.failure
  refused : ∀ query failure, (conn.queries query).phase = .refused failure →
    failure.connectionLevel = true → ∃ reason, failure = .closed reason

theorem classified_spawn (maxInFlight readTimeout : ℕ) (start : UInt16)
    (clock : ℕ) : Classified (.spawn maxInFlight readTimeout start clock) where
  spent := by rintro _ _ _ ⟨⟩
  answer := by rintro _ _ _ ⟨⟩
  once := by rintro _ _ _ _ _ ⟨⟩
  owed := by rintro _ ⟨⟩
  told := by rintro _ _ ⟨⟩
  refused := by rintro _ _ ⟨⟩

section Steps

variable {conn after : Conn} {query : ℕ}

theorem Classified.setPhase (h : Classified conn) {phase : QueryPhase}
    (hsubmitted : (conn.queries query).phase.submitted = true →
      phase.submitted = true)
    (hrefused : ∀ failure, phase = .refused failure →
      failure.connectionLevel = true → ∃ reason, failure = .closed reason) :
    Classified (conn.setPhase query phase) := by
  have hinbox : ∀ found, ((conn.setPhase query phase).queries found).inbox =
      (conn.queries found).inbox := by
    intro found
    by_cases hsame : found = query
    · rw [hsame, conn.setPhase_queries_self]
    · rw [conn.setPhase_queries_of_ne phase hsame]
  refine { h with spent := ?_, answer := ?_, told := ?_, refused := ?_ }
  · intro id frame found hmatched
    obtain ⟨hpending, howed, hphase⟩ := h.spent id frame found hmatched
    refine ⟨hpending, howed, ?_⟩
    by_cases hsame : found = query
    · subst hsame
      rw [conn.setPhase_queries_self]
      exact hsubmitted hphase
    · rw [conn.setPhase_queries_of_ne phase hsame]
      exact hphase
  · intro id frame found hmatched
    rw [hinbox]
    exact h.answer id frame found hmatched
  · intro found failure
    rw [hinbox]
    exact h.told found failure
  · intro found failure hphase
    by_cases hsame : found = query
    · subst hsame
      rw [conn.setPhase_queries_self] at hphase
      exact hrefused failure hphase
    · rw [conn.setPhase_queries_of_ne phase hsame] at hphase
      exact h.refused found failure hphase

theorem Classified.record (h : Classified conn) {event : Event}
    (hpending : ∀ id found, pendingIn (event :: conn.log) id = some found →
      pendingIn conn.log id = some found)
    (hevent : ∀ id frame found, .matched id frame found ≠ event) :
    Classified { conn with log := event :: conn.log } := by
  have hold : ∀ {id frame found}, .matched id frame found ∈ event :: conn.log →
      .matched id frame found ∈ conn.log := by
    intro id frame found hmatched
    exact (List.mem_cons.mp hmatched).resolve_left (hevent id frame found)
  constructor
  · intro id frame found hmatched
    obtain ⟨hnone, howed, hphase⟩ := h.spent id frame found (hold hmatched)
    exact ⟨fun other hsome => hnone other (hpending other found hsome), howed,
      hphase⟩
  · exact fun id frame found hmatched => h.answer id frame found (hold hmatched)
  · exact fun id id' frame frame' found hmatched hmatched' =>
      h.once id id' frame frame' found (hold hmatched) (hold hmatched')
  · intro item hitem
    obtain ⟨cause, hcause, hfailure⟩ := h.owed item hitem
    exact ⟨cause, List.mem_cons_of_mem _ hcause, hfailure⟩
  · intro found failure hfailure
    refine (h.told found failure hfailure).imp id ?_
    rintro ⟨cause, hcause, hsame⟩
    exact ⟨cause, List.mem_cons_of_mem _ hcause, hsame⟩
  · exact h.refused

/-- The connection has failed: the waiters in the table are owed its failure. -/
theorem Classified.fail (h : Classified conn) (hinv : conn.Inv)
    (cause : Cause) : Classified (conn.fail cause) := by
  rw [Conn.fail]
  split_ifs with hclosed
  · exact h
  rw [failLocked, if_neg hclosed]
  have hrecord : Classified { conn with log := .closed cause :: conn.log } :=
    h.record (fun _ _ hsome => by cases hsome) (fun _ _ _ => by simp)
  refine { hrecord with spent := ?_, owed := ?_ }
  · intro id frame found hmatched
    obtain ⟨hnone, howed, hphase⟩ := hrecord.spent id frame found hmatched
    refine ⟨hnone, ?_, hphase⟩
    intro item hitem
    rcases List.mem_append.mp hitem with hold | hnew
    · exact howed item hold
    · obtain ⟨waiter, hwaiter, rfl⟩ := List.mem_map.mp hnew
      obtain ⟨other, hpending⟩ := PendingTable.mem_drainPending.mp hwaiter
      rintro rfl
      have hmatched' : .matched id frame waiter.tx ∈ conn.log := by
        simpa using hmatched
      refine (h.spent id frame _ hmatched').1 other ?_
      rw [hinv.pending, Conn.waits, ConnState.waits, hpending]
      rfl
  · intro item hitem
    rcases List.mem_append.mp hitem with hold | hnew
    · exact hrecord.owed item hold
    · obtain ⟨waiter, _, rfl⟩ := List.mem_map.mp hnew
      exact ⟨cause, List.mem_cons_self .., rfl⟩

theorem Classified.send (h : Classified conn)
    {result : Except Failure Message} {owed : List (Waiter × Failure)}
    (howed : owed ⊆ conn.owed)
    (hanswer : ∀ id frame, .matched id frame query ∈ conn.log →
      Decodes frame result)
    (htold : ∀ failure, result = .error failure →
      failure.connectionLevel = false ∨ ∃ cause, .closed cause ∈ conn.log ∧
        failure = cause.failure) (reader : Reader) :
    Classified { conn.send query result with
      reader := reader
      owed := owed } := by
  have hinbox : ∀ found sent,
      sent ∈ ((conn.send query result).queries found).inbox →
      sent ∈ (conn.queries found).inbox ∨ found = query ∧ sent = result := by
    intro found sent hsent
    rw [conn.send_queries query result] at hsent
    by_cases hsame : found = query
    · subst hsame
      rw [Function.update_self, Conn.told] at hsent
      split_ifs at hsent
      · rcases List.mem_append.mp hsent with hold | hnew
        · exact .inl hold
        · exact .inr ⟨rfl, List.mem_singleton.mp hnew⟩
      · exact .inl hsent
    · rw [Function.update_of_ne hsame] at hsent
      exact .inl hsent
  constructor
  · intro id frame found hmatched
    obtain ⟨hpending, hfree, hphase⟩ := h.spent id frame found hmatched
    refine ⟨hpending, fun item hitem => hfree item (howed hitem), ?_⟩
    change ((conn.send query result).queries found).phase.submitted = true
    rw [send_phase]
    exact hphase
  · intro id frame found hmatched sent hsent
    rcases hinbox found sent hsent with hold | ⟨rfl, rfl⟩
    · exact h.answer id frame found hmatched sent hold
    · exact hanswer id frame hmatched
  · exact h.once
  · exact fun item hitem => h.owed item (howed hitem)
  · intro found failure hsent
    rcases hinbox found _ hsent with hold | ⟨_, hsame⟩
    · exact h.told found failure hold
    · exact htold failure hsame.symm
  · intro found failure hphase
    change ((conn.send query result).queries found).phase = _ at hphase
    rw [send_phase] at hphase
    exact h.refused found failure hphase

theorem Classified.draw (h : Classified conn) (hinv : conn.Inv) :
    Classified conn.draw := by
  have hfresh : ∀ id frame found, .matched id frame found ∈ conn.log →
      conn.draw.queries found = conn.queries found := by
    intro id frame found hmatched
    refine conn.draw_queries_of_ne ?_
    rintro rfl
    have hphase := (h.spent id frame _ hmatched).2.2
    rw [hinv.numbered.unopened conn.opened le_rfl] at hphase
    cases hphase
  refine { h with spent := ?_, answer := ?_, told := ?_, refused := ?_ }
  · intro id frame found hmatched
    rw [hfresh id frame found hmatched]
    exact h.spent id frame found hmatched
  · intro id frame found hmatched
    rw [hfresh id frame found hmatched]
    exact h.answer id frame found hmatched
  · intro found failure hfailure
    by_cases hsame : found = conn.opened
    · rw [hsame, conn.draw_queries_self] at hfailure
      cases hfailure
    · rw [conn.draw_queries_of_ne hsame] at hfailure
      exact h.told found failure hfailure
  · intro found failure hphase
    by_cases hsame : found = conn.opened
    · rw [hsame, conn.draw_queries_self] at hphase
      cases hphase
    · rw [conn.draw_queries_of_ne hsame] at hphase
      exact h.refused found failure hphase

theorem Classified.accept (h : Classified conn) {id : UInt16}
    (hphase : (conn.queries query).phase = .starting) :
    Classified { conn.setPhase query (.waiting id) with
      log := .assigned id query :: conn.log } := by
  have hset : Classified (conn.setPhase query (.waiting id)) :=
    h.setPhase (fun _ => rfl) (by simp)
  have hold : ∀ {other frame found},
      .matched other frame found ∈ .assigned id query :: conn.log →
      .matched other frame found ∈ conn.log := by
    intro other frame found hmatched
    exact (List.mem_cons.mp hmatched).resolve_left (by simp)
  constructor
  · intro other frame found hmatched
    obtain ⟨hpending, howed, hsubmitted⟩ := hset.spent other frame found
      (hold hmatched)
    refine ⟨?_, howed, hsubmitted⟩
    intro slot hsome
    change (if slot = id then some query else pendingIn conn.log slot) =
      some found at hsome
    split_ifs at hsome
    · obtain rfl := Option.some.inj hsome
      have hearlier := (h.spent other frame query (hold hmatched)).2.2
      rw [hphase] at hearlier
      cases hearlier
    · exact hpending slot hsome
  · exact fun other frame found hmatched =>
      hset.answer other frame found (hold hmatched)
  · exact fun other other' frame frame' found hmatched hmatched' =>
      h.once other other' frame frame' found (hold hmatched) (hold hmatched')
  · intro item hitem
    obtain ⟨cause, hcause, hfailure⟩ := h.owed item hitem
    exact ⟨cause, List.mem_cons_of_mem _ hcause, hfailure⟩
  · intro found failure hfailure
    refine (hset.told found failure hfailure).imp_right ?_
    rintro ⟨cause, hcause, hsame⟩
    exact ⟨cause, List.mem_cons_of_mem _ hcause, hsame⟩
  · exact hset.refused

theorem Classified.match (h : Classified conn) (hinv : conn.Inv)
    {id : UInt16} {frame : List UInt8} (hwaits : conn.waits id = some query) :
    Classified { conn with log := .matched id frame query :: conn.log } := by
  obtain ⟨hguarded, hinbox⟩ := (hinv.placed.place query).waiting id hwaits
  have hpending : pendingIn conn.log id = some query := by
    rw [hinv.pending]
    exact hwaits
  have hfirst : ∀ other frame, .matched other frame query ∉ conn.log :=
    fun other frame hmatched => (h.spent other frame query hmatched).1 id hpending
  constructor
  · intro other found answered hmatched
    have hgone : ∀ slot, pendingIn (.matched id frame query :: conn.log) slot =
        some answered → slot ≠ id ∧ pendingIn conn.log slot = some answered := by
      intro slot hsome
      change (if slot = id then none else pendingIn conn.log slot) =
        some answered at hsome
      split_ifs at hsome with hsame
      exact ⟨hsame, hsome⟩
    rcases List.mem_cons.mp hmatched with heq | hold
    · obtain ⟨_, _, rfl⟩ := Event.matched.inj heq
      refine ⟨fun slot hsome => ?_, fun item hitem htx => ?_,
        QueryPhase.submitted_of_guarded hguarded⟩
      · obtain ⟨hne, hother⟩ := hgone slot hsome
        rw [hinv.pending] at hother
        have hsame := ((hinv.placed.place answered).waiting slot hother).1
        rw [hguarded] at hsame
        exact hne (Option.some.inj hsame).symm
      · have hheld : answered ∈ conn.held := by
          rw [Conn.held]
          exact List.mem_append_right _ (List.mem_map.mpr ⟨item, hitem, htx⟩)
        exact ((hinv.placed.place answered).taken hheld).2.2 id hwaits
    · obtain ⟨hnone, howed, hsubmitted⟩ := h.spent other found answered hold
      exact ⟨fun slot hsome => hnone slot (hgone slot hsome).2, howed,
        hsubmitted⟩
  · intro other found answered hmatched
    rcases List.mem_cons.mp hmatched with heq | hold
    · obtain ⟨_, _, rfl⟩ := Event.matched.inj heq
      change ∀ result ∈ (conn.queries answered).inbox, _
      rw [hinbox]
      simp
    · exact h.answer other found answered hold
  · intro other other' found found' answered hmatched hmatched'
    rcases List.mem_cons.mp hmatched with heq | hold
    · obtain ⟨_, rfl, rfl⟩ := Event.matched.inj heq
      rcases List.mem_cons.mp hmatched' with heq' | hold'
      · exact (Event.matched.inj heq').2.1
      · exact absurd hold' (hfirst other' found')
    · rcases List.mem_cons.mp hmatched' with heq' | hold'
      · obtain ⟨_, _, rfl⟩ := Event.matched.inj heq'
        exact absurd hold (hfirst other found)
      · exact h.once other other' found found' answered hold hold'
  · intro item hitem
    obtain ⟨cause, hcause, hfailure⟩ := h.owed item hitem
    exact ⟨cause, List.mem_cons_of_mem _ hcause, hfailure⟩
  · intro found failure hfailure
    refine (h.told found failure hfailure).imp_right ?_
    rintro ⟨cause, hcause, hsame⟩
    exact ⟨cause, List.mem_cons_of_mem _ hcause, hsame⟩
  · exact h.refused

theorem Classified.dispatch (h : Classified conn) (hinv : conn.Inv)
    (frame : List UInt8) : Classified (conn.dispatch frame) := by
  rw [Conn.dispatch]
  cases hid : wireId frame with
  | none => exact { h with }
  | some id =>
    dsimp only
    cases hpending : conn.state.table.pendingAt id with
    | some waiter =>
      rw [dispatchLocked_pending hpending]
      have hwaits : conn.waits id = some waiter.tx := by
        rw [Conn.waits, ConnState.waits, hpending]
        rfl
      exact { h.match hinv hwaits with }
    | none =>
      have hstray := dispatchLocked_stray hpending
      have hrecord : Classified { conn with log := .stray id :: conn.log } :=
        h.record (fun _ _ hsome => hsome) (fun _ _ _ => by simp)
      generalize dispatchLocked id conn.state = outcome at hstray
      cases hstray with
      | orphaned => exact { hrecord with }
      | unknown hslack => exact { hrecord with }
      | flooded hslack => exact { hrecord with }

theorem Step.classified {instantMax : ℕ} (hstep : Step instantMax conn after)
    (hinv : conn.Inv) (h : Classified conn) : Classified after := by
  cases hstep with
  | tick hle => exact { h with }
  | draw => exact h.draw hinv
  | @submit changed outcome state queued hphase hsubmit =>
    obtain ⟨outcome', state', hresult, hsubmitted⟩ := submitLocked_spec
      hinv.table conn.clock ⟨(conn.queries changed).serial, changed⟩ queued
    rw [hsubmit] at hresult
    obtain ⟨rfl, rfl⟩ := Prod.mk.inj (Run.ok.inj hresult)
    have haway : ∀ phase : QueryPhase,
        (∀ failure, phase = .refused failure →
          failure.connectionLevel = true →
            ∃ reason, failure = .closed reason) →
        Classified (conn.setPhase changed phase) := by
      intro phase hrefused
      refine h.setPhase (fun hold => ?_) hrefused
      rw [hphase] at hold
      cases hold
    cases hsubmitted with
    | closed hclosed =>
      refine haway _ ?_
      rintro _ ⟨⟩ _
      exact ⟨_, rfl⟩
    | full hopen hregistered =>
      have hfull := haway (.refused noFreeSlot) (by
        rintro _ ⟨⟩ hlevel
        cases hlevel)
      exact { hfull with }
    | accepted hopen hregistered => exact { h.accept hphase with }
    | broken hopen hregistered => exact { haway .broken (by simp) with }
  | @breakOff changed hphase =>
    refine (h.fail hinv .unwritable).setPhase (fun hold => ?_) ?_
    · rw [fail_queries, hphase] at hold
      cases hold
    · rintro _ ⟨⟩ _
      exact ⟨_, rfl⟩
  | dispatch frame hreader => exact h.dispatch hinv frame
  | @decoded waiter frame message hreader hdecode =>
    have hsent : Classified { conn.send waiter.tx (.ok message) with
        reader := .reading
        owed := conn.owed } := by
      refine h.send (List.Subset.refl _) (fun id found hmatched => ?_) ?_ _
      · obtain ⟨slot, hmine⟩ := hinv.matched waiter frame hreader
        obtain rfl := h.once id slot found frame _ hmatched hmine
        exact .inl ⟨message, hdecode, rfl⟩
      · rintro _ ⟨⟩
    split_ifs with hlistening
    · exact hsent.record (fun _ _ hsome => hsome) (fun _ _ _ => by simp)
    · exact hsent
  | @garbled waiter frame error hreader hdecode =>
    refine h.send (List.Subset.refl _) (fun id found hmatched => ?_) ?_ _
    · obtain ⟨slot, hmine⟩ := hinv.matched waiter frame hreader
      obtain rfl := h.once id slot found frame _ hmatched hmine
      exact .inr ⟨error, hdecode, rfl⟩
    · rintro _ ⟨⟩
      exact .inl rfl
  | readerFails hreader => exact { h.fail hinv _ with }
  | lose failure => exact h.fail hinv _
  | @notify front back waiter failure howed =>
    have hitem : (waiter, failure) ∈ conn.owed := by
      rw [howed]
      exact List.mem_append_right _ (List.mem_cons_self ..)
    refine h.send ?_ (fun id found hmatched => ?_) ?_ conn.reader
    · intro item hmem
      rw [howed, List.mem_append, List.mem_cons]
      exact (List.mem_append.mp hmem).imp id Or.inr
    · exact absurd rfl ((h.spent id found _ hmatched).2.1 _ hitem)
    · rintro _ ⟨⟩
      exact .inr (h.owed _ hitem)
  | @read changed id hphase hinbox =>
    exact h.setPhase (fun _ => rfl) (fun _ => by simp)
  | @abandon changed id hphase =>
    have hleft : Classified (conn.setPhase changed (.abandoned id)) :=
      h.setPhase (fun _ => rfl) (fun _ => by simp)
    exact hleft.record (fun _ _ hsome => hsome) (fun _ _ _ => by simp)
  | @dropGuard changed id hphase =>
    have hleft : Classified (conn.setPhase changed .settled) :=
      h.setPhase (fun _ => rfl) (fun _ => by simp)
    rw [Conn.dropGuard]
    cases guardLocked instantMax id (conn.queries changed).serial conn.clock
        conn.state with
    | mk found state =>
      cases found with
      | none => exact { hleft with }
      | some waiter =>
        have hrecord := @Classified.record _ hleft
          (.orphaned id waiter.tx changed) ?_ (fun _ _ _ => by simp)
        · exact { hrecord with }
        · intro slot query hsome
          rw [pendingIn] at hsome
          split_ifs at hsome
          exact hsome

end Steps

end StreamConn

end DnsLattice
