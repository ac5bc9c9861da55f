import DnsLattice.StreamWaiters

/-!
# Delivery of results on a stream connection

The table of a connection agrees with its log in every run, so that a frame
reaches the query which was given its id last, a guard finds no query but its
own, and a closed connection owes nobody a result for long, unless the reader
is caught in a frame which never ends to decode.
-/

namespace DnsLattice

namespace StreamConn

/-! ## Locked sections -/

def ConnState.waits (state : ConnState) (id : UInt16) : Option ℕ :=
  (state.table.pendingAt id).map Waiter.tx

/-- How `submit` ends. -/
inductive Submitted (state : ConnState) (waiter : Waiter) :
    Submission → ConnState → Prop
  | closed (hclosed : state.closed = true) :
      Submitted state waiter (.refused connectionClosed) state
  | full {table : PendingTable Waiter} (hopen : state.closed = false)
      (hregistered : state.table.Registered waiter (.error waiter) table) :
      Submitted state waiter (.refused noFreeSlot) { state with table := table }
  | accepted {id : UInt16} {table : PendingTable Waiter}
      (hopen : state.closed = false)
      (hregistered : state.table.Registered waiter (.ok id) table) :
      Submitted state waiter (.accepted id) { state with table := table }
  | broken {id : UInt16} {table : PendingTable Waiter}
      (hopen : state.closed = false)
      (hregistered : state.table.Registered waiter (.ok id) table) :
      Submitted state waiter .broken
        { state with table := (table.take id).2 }

theorem submitLocked_spec {state : ConnState} (h : state.table.Inv)
    (now : ℕ) (waiter : Waiter) (queued : Bool) :
    ∃ outcome after, submitLocked now waiter queued state =
        .ok (outcome, after) ∧ Submitted state waiter outcome after := by
  rw [submitLocked]
  by_cases hclosed : state.closed = true
  · rw [if_pos hclosed]
    exact ⟨_, _, rfl, .closed hclosed⟩
  · have hopen := Bool.eq_false_of_not_eq_true hclosed
    obtain ⟨result, table, hregister, hregistered⟩ :=
      PendingTable.register_spec h waiter now
    rw [if_neg hclosed, hregister, Run.ok_bind]
    cases hregistered with
    | refused hcleared hfull hpending =>
      exact ⟨_, _, rfl, .full hopen (.refused hcleared hfull hpending)⟩
    | accepted hcleared hroom hfree =>
      cases queued with
      | true =>
        exact ⟨_, _, rfl, .accepted hopen (.accepted hcleared hroom hfree)⟩
      | false =>
        exact ⟨_, _, rfl, .broken hopen (.accepted hcleared hroom hfree)⟩

/-- The section of `dispatch` for an id under which nobody waits. -/
inductive Stray (state : ConnState) (id : UInt16) :
    Dispatched × ConnState → Prop
  | orphaned :
      Stray state id
        (.orphaned, { state with table := (state.table.take id).2 })
  | unknown (hslack : state.slack ≠ 0) :
      Stray state id
        (.unknown,
          { state with
            table := (state.table.take id).2
            slack := state.slack - 1 })
  | flooded (hslack : state.slack = 0) :
      Stray state id
        (.flooded, { state with table := (state.table.take id).2 })

theorem dispatchLocked_pending {state : ConnState} {id : UInt16}
    {waiter : Waiter} (hpending : state.table.pendingAt id = some waiter) :
    dispatchLocked id state =
      (.pending waiter,
        { state with
          table := (state.table.take id).2
          slack := max state.slack unsolicitedLimit }) := by
  rw [dispatchLocked, PendingTable.take_of_pending hpending]

theorem dispatchLocked_stray {state : ConnState} {id : UInt16}
    (hpending : state.table.pendingAt id = none) :
    Stray state id (dispatchLocked id state) := by
  rw [dispatchLocked]
  cases htake : state.table.take id with
  | mk taken table =>
    have htable : (state.table.take id).2 = table := by rw [htake]
    cases taken with
    | pending waiter =>
      have hfound := PendingTable.take_eq_pending.mp
        (congrArg Prod.fst htake)
      rw [hpending] at hfound
      cases hfound
    | orphaned =>
      rw [← htable]
      exact .orphaned
    | unknown =>
      rw [← htable]
      simp only
      split_ifs with hslack
      · exact .flooded hslack
      · exact .unknown hslack

theorem guardLocked_own {instantMax now serial : ℕ} {state : ConnState}
    {id : UInt16} {waiter : Waiter}
    (hpending : state.table.pendingAt id = some waiter)
    (hserial : waiter.serial = serial) :
    guardLocked instantMax id serial now state =
      (some waiter,
        { state with
          table := (state.table.orphanIf instantMax id now
            fun waiter => decide (waiter.serial = serial)).2
          slack := min (min (state.slack + 1) (2 ^ 32 - 1)) state.slackCap }) := by
  rw [guardLocked,
    PendingTable.orphanIf_eq_some hpending (decide_eq_true hserial)]

theorem guardLocked_other {instantMax now serial : ℕ} {state : ConnState}
    {id : UInt16}
    (hpending : ∀ waiter, state.table.pendingAt id = some waiter →
      waiter.serial ≠ serial) :
    guardLocked instantMax id serial now state = (none, state) := by
  rw [guardLocked, PendingTable.orphanIf_eq_none]
  intro waiter hwaiter
  exact decide_eq_false (hpending waiter hwaiter)

/-! ## The invariant -/

def Reader.hands : Reader → List ℕ
  | .decoding waiter _ => [waiter.tx]
  | _ => []

theorem Reader.hands_eq_nil {reader : Reader}
    (hreader : ∀ waiter frame, reader ≠ .decoding waiter frame) :
    reader.hands = [] := by
  cases reader with
  | decoding waiter frame => exact absurd rfl (hreader waiter frame)
  | reading => rfl
  | failing cause => rfl
  | stopped => rfl

namespace Conn

def waits (conn : Conn) : UInt16 → Option ℕ := conn.state.waits

def held (conn : Conn) : List ℕ :=
  conn.reader.hands ++ conn.owed.map fun item => item.1.tx

structure Inv (conn : Conn) : Prop where
  table : conn.state.table.Inv
  numbered : Numbered conn.opened conn.nextSerial conn.queries
  owner : ∀ id waiter, conn.state.table.pendingAt id = some waiter →
    waiter.serial = waiter.tx
  placed : Placed conn.waits conn.queries conn.held
  closed : conn.state.closed = true → ∀ id, conn.waits id = none
  pending : pendingIn conn.log = conn.waits
  deaf : Deaf conn.log conn.queries
  matched : ∀ waiter frame, conn.reader = .decoding waiter frame →
    ∃ id, .matched id frame waiter.tx ∈ conn.log
  answered : Answered conn.log conn.queries
  ended : ∀ cause, .closed cause ∈ conn.log → conn.state.closed = true
  sound : Sound conn.log

theorem inv_spawn (maxInFlight readTimeout : ℕ) (start : UInt16)
    (clock : ℕ) : (spawn maxInFlight readTimeout start clock).Inv where
  table := PendingTable.inv_withStart _ _ _
  numbered := ⟨rfl, fun _ _ => rfl, fun _ hphase => absurd rfl hphase⟩
  owner id waiter hpending := by
    rw [PendingTable.pendingAt_eq_some] at hpending
    cases hpending
  placed := by
    refine ⟨List.nodup_nil, fun query => ⟨?_, by rintro ⟨⟩, by rintro _ ⟨⟩, fun _ => rfl,
      Nat.zero_le 1⟩⟩
    intro id hwaits
    cases hwaits
  closed hclosed := by cases hclosed
  pending := rfl
  deaf query hquery := by cases hquery
  matched waiter frame hreader := by cases hreader
  answered query message hmessage := by cases hmessage
  ended cause hcause := by cases hcause
  sound := trivial

section Steps

variable {conn : Conn} {query : ℕ} {id : UInt16}

theorem Inv.matched_cons (h : conn.Inv) (event : Event) (waiter : Waiter)
    (frame : List UInt8) (hreader : conn.reader = .decoding waiter frame) :
    ∃ id, .matched id frame waiter.tx ∈ event :: conn.log := by
  obtain ⟨id, hmatched⟩ := h.matched waiter frame hreader
  exact ⟨id, List.mem_cons_of_mem _ hmatched⟩

theorem Inv.ended_cons (h : conn.Inv) {event : Event}
    (hevent : ∀ cause, .closed cause ≠ event) (cause : Cause)
    (hcause : .closed cause ∈ event :: conn.log) :
    conn.state.closed = true := by
  rcases List.mem_cons.mp hcause with heq | hold
  · exact absurd heq (hevent cause)
  · exact h.ended cause hold

theorem Inv.draw (h : conn.Inv) : conn.draw.Inv := by
  have hunopened := h.numbered.unopened conn.opened le_rfl
  refine { h with
    numbered := h.numbered.draw
    placed := h.placed.update_outside ?_ rfl rfl
    deaf := h.deaf.update ?_
    answered := h.answered.update (by simp) }
  · rw [hunopened]
    rfl
  · rw [hunopened]
    rintro ⟨⟩

theorem Inv.turnAway (h : conn.Inv) {phase : QueryPhase}
    (hold : (conn.queries query).phase.submitted = false)
    (hopened : (conn.queries query).phase ≠ .unopened)
    (hphase : phase.submitted = false) : (conn.setPhase query phase).Inv := by
  refine { h with
    numbered := h.numbered.update hopened rfl
    placed := h.placed.update_outside hold hphase
      ((h.placed.place query).quiet hold)
    deaf := h.deaf.update ?_
    answered := h.answered.update fun _ => .inl }
  intro hdeaf
  rw [QueryPhase.submitted_of_deaf hdeaf] at hold
  cases hold

theorem Inv.withState (h : conn.Inv) {state : ConnState}
    (htable : state.table.Inv)
    (hpending : ∀ id, state.table.pendingAt id =
      conn.state.table.pendingAt id)
    (hclosed : state.closed = conn.state.closed) :
    Inv { conn with state := state } := by
  have hwaits : state.waits = conn.waits := by
    funext id
    rw [waits, ConnState.waits, ConnState.waits, hpending]
  refine { h with
    table := htable
    owner := ?_
    placed := ?_
    closed := ?_
    pending := h.pending.trans hwaits.symm
    ended := fun cause hcause => hclosed.trans (h.ended cause hcause) }
  · intro id waiter hwaiter
    rw [hpending] at hwaiter
    exact h.owner id waiter hwaiter
  · have hplaced := h.placed
    rw [← hwaits] at hplaced
    exact hplaced
  · intro hend
    have hnone := h.closed (hclosed.symm.trans hend)
    rw [← hwaits] at hnone
    exact hnone

theorem Inv.record (h : conn.Inv) {event : Event}
    (hpending : pendingIn (event :: conn.log) = pendingIn conn.log)
    (hcancelled : ∀ query, .cancelled query = event →
      (conn.queries query).phase.deaf = true)
    (hclosed : ∀ cause, .closed cause ≠ event)
    (hjustified : Justified event conn.log) :
    Inv { conn with log := event :: conn.log } :=
  { h with
    pending := hpending.trans h.pending
    deaf := h.deaf.record hcancelled
    matched := h.matched_cons event
    answered := h.answered.record event
    ended := h.ended_cons hclosed
    sound := ⟨hjustified, h.sound⟩ }

theorem Inv.pendingAt (h : conn.Inv) {found : ℕ}
    (hwaits : conn.waits id = some found) :
    conn.state.table.pendingAt id = some ⟨found, found⟩ := by
  obtain ⟨⟨serial, tx⟩, hwaiter, htx⟩ := Option.map_eq_some_iff.mp hwaits
  have howner : serial = tx := h.owner id _ hwaiter
  change tx = found at htx
  rw [hwaiter, howner, htx]

theorem Inv.accept (h : conn.Inv) {table : PendingTable Waiter}
    (hphase : (conn.queries query).phase = .starting)
    (hopen : conn.state.closed = false)
    (hregistered : conn.state.table.Registered
      ⟨(conn.queries query).serial, query⟩ (.ok id) table) :
    Inv { conn.setPhase query (.waiting id) with
      state := { conn.state with table := table }
      log := .assigned id query :: conn.log } := by
  have hout : (conn.queries query).phase.submitted = false := by
    rw [hphase]
    rfl
  have hopened : (conn.queries query).phase ≠ .unopened := by
    rw [hphase]
    simp
  obtain ⟨hfree, hpending⟩ := hregistered.pendingAt
  have hwaits : ConnState.waits { conn.state with table := table } =
      Function.update conn.waits id (some query) := by
    funext other
    rw [ConnState.waits, hpending, Function.update_apply]
    split_ifs
    · rfl
    · rfl
  have hnone : conn.waits id = none := by
    rw [waits, ConnState.waits, hfree]
    rfl
  have hended : ∀ cause, .closed cause ∉ conn.log := by
    intro cause hcause
    rw [h.ended cause hcause] at hopen
    cases hopen
  refine { h with
    table := hregistered.inv
    numbered := h.numbered.update hopened rfl
    owner := ?_
    placed := ?_
    closed := ?_
    pending := ?_
    deaf := (h.deaf.update ?_).record (by simp)
    matched := h.matched_cons _
    answered := (h.answered.record _).update fun _ => .inl
    ended := h.ended_cons (by simp)
    sound := ⟨⟨hended, ?_⟩, h.sound⟩ }
  · intro other waiter hwaiter
    change table.pendingAt other = some waiter at hwaiter
    rw [hpending] at hwaiter
    split_ifs at hwaiter
    · obtain rfl := Option.some.inj hwaiter
      exact h.numbered.serial query hopened
    · exact h.owner other waiter hwaiter
  · have hplaced := h.placed.accept hout hnone
    rw [← hwaits] at hplaced
    exact hplaced
  · intro hclosed
    change conn.state.closed = true at hclosed
    rw [hopen] at hclosed
    cases hclosed
  · refine Eq.trans ?_ hwaits.symm
    funext other
    rw [pendingIn, Function.update_apply, h.pending]
  · rw [hphase]
    rintro ⟨⟩
  · rw [h.pending]
    exact hnone

theorem Inv.submitted (h : conn.Inv) {outcome : Submission}
    {state : ConnState} (hphase : (conn.queries query).phase = .starting)
    (hsubmitted : Submitted conn.state ⟨(conn.queries query).serial, query⟩
      outcome state) : (conn.submitted query outcome state).Inv := by
  have haway : ∀ phase : QueryPhase, phase.submitted = false →
      (conn.setPhase query phase).Inv := by
    intro phase hnew
    refine h.turnAway ?_ ?_ hnew
    · rw [hphase]
      rfl
    · rw [hphase]
      simp
  cases hsubmitted with
  | closed hclosed => exact haway (.refused connectionClosed) rfl
  | full hopen hregistered =>
    refine (haway (.refused noFreeSlot) rfl).withState hregistered.inv ?_ rfl
    cases hregistered with
    | refused hcleared hfull hpending => exact hcleared.pending
  | accepted hopen hregistered => exact h.accept hphase hopen hregistered
  | @broken id table hopen hregistered =>
    refine (haway .broken rfl).withState
      (PendingTable.take_inv hregistered.inv) ?_ rfl
    intro other
    obtain ⟨hfree, hpending⟩ := hregistered.pendingAt
    rw [PendingTable.take_pendingAt, hpending]
    split_ifs with hsame
    · rw [hsame]
      exact hfree.symm
    · rfl

theorem Inv.match (h : conn.Inv) {frame : List UInt8} {waiter : Waiter}
    (hreader : conn.reader = .reading) (hid : wireId frame = some id)
    (hpending : conn.state.table.pendingAt id = some waiter) (slack : ℕ) :
    Inv { conn with
      state := { conn.state with
        table := (conn.state.table.take id).2
        slack := slack }
      reader := .decoding waiter frame
      log := .matched id frame waiter.tx :: conn.log } := by
  have hwaiter : conn.waits id = some waiter.tx := by
    rw [waits, ConnState.waits, hpending]
    rfl
  have hwaits : ConnState.waits { conn.state with
      table := (conn.state.table.take id).2
      slack := slack } = Function.update conn.waits id none := by
    funext other
    rw [ConnState.waits, PendingTable.take_pendingAt, Function.update_apply]
    split_ifs
    · rfl
    · rfl
  have hheld : conn.held = conn.owed.map fun item => item.1.tx := by
    rw [held, hreader]
    rfl
  refine { h with
    table := PendingTable.take_inv h.table
    owner := ?_
    placed := ?_
    closed := ?_
    pending := ?_
    deaf := h.deaf.record (by simp)
    matched := ?_
    answered := h.answered.record _
    ended := h.ended_cons (by simp)
    sound := ⟨⟨hid, ?_⟩, h.sound⟩ }
  · intro other found hfound
    change (conn.state.table.take id).2.pendingAt other = some found at hfound
    rw [PendingTable.take_pendingAt] at hfound
    split_ifs at hfound
    exact h.owner other found hfound
  · have hplaced := h.placed.take hwaiter
    rw [← hwaits, hheld] at hplaced
    exact hplaced
  · intro hclosed
    have hnone := h.closed hclosed id
    rw [hwaiter] at hnone
    cases hnone
  · refine Eq.trans ?_ hwaits.symm
    funext other
    rw [pendingIn, Function.update_apply, h.pending]
  · intro found other hfound
    obtain ⟨rfl, rfl⟩ := Reader.decoding.inj hfound
    exact ⟨id, List.mem_cons_self ..⟩
  · rw [h.pending]
    exact hwaiter

theorem Inv.withReader (h : conn.Inv) {reader : Reader}
    (hold : ∀ waiter frame, conn.reader ≠ .decoding waiter frame)
    (hnew : ∀ waiter frame, reader ≠ .decoding waiter frame) :
    Inv { conn with reader := reader } := by
  have hheld : held { conn with reader := reader } = conn.held := by
    rw [held, held, Reader.hands_eq_nil hold, Reader.hands_eq_nil hnew]
  refine { h with
    placed := ?_
    matched := fun waiter frame hreader => absurd hreader (hnew waiter frame) }
  rw [hheld]
  exact h.placed

theorem Inv.dispatch (h : conn.Inv) {frame : List UInt8}
    (hreader : conn.reader = .reading) : (conn.dispatch frame).Inv := by
  have hidle : ∀ waiter frame, conn.reader ≠ .decoding waiter frame := by
    rw [hreader]
    simp
  rw [Conn.dispatch]
  cases hid : wireId frame with
  | none => exact h.withReader hidle (by simp)
  | some id =>
    simp only
    cases hpending : conn.state.table.pendingAt id with
    | some waiter =>
      rw [dispatchLocked_pending hpending]
      exact h.match hreader hid hpending _
    | none =>
      have hstray := dispatchLocked_stray hpending
      have hsame : ∀ other, (conn.state.table.take id).2.pendingAt other =
          conn.state.table.pendingAt other := by
        intro other
        rw [PendingTable.take_pendingAt]
        split_ifs with hother
        · rw [hother, hpending]
        · rfl
      have hrecord : Inv { conn with log := .stray id :: conn.log } := by
        refine h.record rfl (by simp) (by simp) ?_
        rw [Justified, h.pending, waits, ConnState.waits, hpending]
        rfl
      have htable := @PendingTable.take_inv _ conn.state.table id h.table
      generalize dispatchLocked id conn.state = outcome at hstray
      cases hstray with
      | orphaned => exact hrecord.withState htable hsame rfl
      | unknown hslack => exact hrecord.withState htable hsame rfl
      | flooded hslack =>
        have hstate : Inv { conn with
            state := { conn.state with table := (conn.state.table.take id).2 }
            log := .stray id :: conn.log } :=
          hrecord.withState htable hsame rfl
        exact hstate.withReader hidle (by simp)

theorem Inv.fail (h : conn.Inv) (cause : Cause) : (conn.fail cause).Inv := by
  rw [Conn.fail]
  split_ifs with hclosed
  · exact h
  rw [failLocked, if_neg hclosed]
  have hnone : ConnState.waits { conn.state with
      closed := true
      table := conn.state.table.drainPending.2 } = fun _ => none := by
    funext id
    rw [ConnState.waits, PendingTable.drainPending_pendingAt]
    rfl
  have hnodup : (conn.state.table.drainPending.1.map Waiter.tx).Nodup := by
    refine PendingTable.nodup_drainPending ?_
    intro id id' waiter waiter' hwaiter hwaiter' hsame
    have hplace := h.placed.place waiter.tx
    have hguarded := (hplace.waiting id (by
      rw [waits, ConnState.waits, hwaiter]
      rfl)).1
    have hguarded' := (hplace.waiting id' (by
      rw [waits, ConnState.waits, hwaiter', hsame]
      rfl)).1
    rw [hguarded] at hguarded'
    exact Option.some.inj hguarded'
  have hdrained : ∀ found,
      found ∈ conn.state.table.drainPending.1.map Waiter.tx ↔
        ∃ id, conn.waits id = some found := by
    intro found
    rw [List.mem_map]
    constructor
    · rintro ⟨waiter, hmem, rfl⟩
      obtain ⟨id, hid⟩ := PendingTable.mem_drainPending.mp hmem
      refine ⟨id, ?_⟩
      rw [waits, ConnState.waits, hid]
      rfl
    · rintro ⟨id, hid⟩
      exact ⟨⟨found, found⟩,
        PendingTable.mem_drainPending.mpr ⟨id, h.pendingAt hid⟩, rfl⟩
  refine { h with
    table := PendingTable.drainPending_inv
    owner := ?_
    placed := ?_
    closed := fun _ id => congrFun hnone id
    pending := hnone.symm
    deaf := h.deaf.record (by simp)
    matched := h.matched_cons _
    answered := h.answered.record _
    ended := fun _ _ => rfl
    sound := ⟨trivial, h.sound⟩ }
  · intro id waiter hwaiter
    change conn.state.table.drainPending.2.pendingAt id = _ at hwaiter
    rw [PendingTable.drainPending_pendingAt] at hwaiter
    cases hwaiter
  · have hplaced := h.placed.drain hnodup hdrained
    rw [← hnone, held, List.append_assoc] at hplaced
    change Placed (ConnState.waits _) conn.queries
      (_ ++ List.map _ (conn.owed ++ _))
    rw [List.map_append, List.map_map]
    exact hplaced

theorem listening_eq_true (hlistening : conn.listening query = true) :
    ∃ id, (conn.queries query).phase = .waiting id := by
  rw [listening] at hlistening
  split at hlistening
  · exact ⟨_, by assumption⟩
  · cases hlistening

def told (conn : Conn) (query : ℕ) (result : Except Failure Message) : Query :=
  if conn.listening query then
    { conn.queries query with
      inbox := (conn.queries query).inbox ++ [result] }
  else conn.queries query

theorem send_queries (conn : Conn) (query : ℕ)
    (result : Except Failure Message) :
    (conn.send query result).queries =
      Function.update conn.queries query (conn.told query result) := by
  rw [send, told]
  by_cases hlistening : conn.listening query = true
  · simp only [if_pos hlistening]
  · simp only [if_neg hlistening, Function.update_eq_self]

theorem told_phase (conn : Conn) (query : ℕ) (result : Except Failure Message) :
    (conn.told query result).phase = (conn.queries query).phase := by
  rw [told]
  split_ifs
  · rfl
  · rfl

theorem told_serial (conn : Conn) (query : ℕ)
    (result : Except Failure Message) :
    (conn.told query result).serial = (conn.queries query).serial := by
  rw [told]
  split_ifs
  · rfl
  · rfl

theorem Inv.send (h : conn.Inv) {reader : Reader}
    {owed : List (Waiter × Failure)}
    (hperm : conn.held.Perm
      (query :: (reader.hands ++ owed.map fun item => item.1.tx)))
    (hreader : ∀ waiter frame, reader = .decoding waiter frame →
      conn.reader = .decoding waiter frame)
    {result : Except Failure Message}
    (hresult : ∀ message, result = .ok message →
      conn.listening query = true →
      ∃ frame, Message.decode frame = .ok message ∧
        .delivered frame query ∈ conn.log) :
    Inv { conn.send query result with reader := reader, owed := owed } := by
  obtain ⟨hsubmitted, hinbox, _⟩ := (h.placed.place query).taken
    (hperm.mem_iff.mpr (List.mem_cons_self ..))
  have hopened : (conn.queries query).phase ≠ .unopened := by
    intro hphase
    rw [hphase] at hsubmitted
    cases hsubmitted
  have hqueries := conn.send_queries query result
  refine { h with
    numbered := ?_
    placed := ?_
    deaf := ?_
    matched := fun waiter frame hdecoding =>
      h.matched waiter frame (hreader waiter frame hdecoding)
    answered := ?_ }
  · change Numbered conn.opened conn.nextSerial (conn.send query result).queries
    rw [hqueries]
    exact h.numbered.update hopened (conn.told_serial query result)
  · change Placed conn.waits (conn.send query result).queries
      (reader.hands ++ owed.map fun item => item.1.tx)
    rw [hqueries]
    refine h.placed.send hperm (conn.told_phase query result) ?_ ?_
    · rw [told]
      split_ifs
      · rw [hinbox]
        exact le_rfl
      · rw [hinbox]
        exact Nat.zero_le 1
    · intro id hphase
      rw [told_phase] at hphase
      have hlistening : conn.listening query = true := by
        rw [listening, hphase]
      rw [told, if_pos hlistening]
      exact List.append_ne_nil_of_right_ne_nil _ (List.cons_ne_nil _ _)
  · change Deaf conn.log (conn.send query result).queries
    rw [hqueries]
    refine h.deaf.update ?_
    rw [told_phase]
    exact id
  · change Answered conn.log (conn.send query result).queries
    rw [hqueries]
    refine h.answered.update ?_
    intro message hmessage
    rw [told] at hmessage
    split_ifs at hmessage with hlistening
    · rcases List.mem_append.mp hmessage with hold | hnew
      · exact .inl hold
      · exact .inr (hresult message (List.mem_singleton.mp hnew).symm hlistening)
    · exact .inl hmessage

theorem Inv.leave (h : conn.Inv) {phase : QueryPhase}
    (hphase : (conn.queries query).phase.submitted = true)
    (hnew : phase.deaf = true)
    (hguarded : ∀ id, conn.waits id = some query → phase.guarded = some id) :
    (conn.setPhase query phase).Inv := by
  refine { h with
    numbered := h.numbered.update ?_ rfl
    placed := h.placed.leave (QueryPhase.submitted_of_deaf hnew) ?_ hguarded
    deaf := h.deaf.update fun _ => hnew
    answered := h.answered.update fun _ => .inl }
  · intro hunopened
    rw [hunopened] at hphase
    cases hphase
  · rintro id rfl
    cases hnew

theorem Inv.dropGuard (h : conn.Inv) (instantMax : ℕ)
    (hphase : (conn.queries query).phase = .abandoned id) :
    (conn.dropGuard instantMax query id).Inv := by
  have hsubmitted : (conn.queries query).phase.submitted = true := by
    rw [hphase]
    rfl
  have hserial : (conn.queries query).serial = query := by
    refine h.numbered.serial query ?_
    rw [hphase]
    simp
  have hown : ∀ other, conn.waits other = some query → other = id := by
    intro other hother
    have hguarded := ((h.placed.place query).waiting other hother).1
    rw [hphase] at hguarded
    exact (Option.some.inj hguarded).symm
  rw [Conn.dropGuard, hserial]
  by_cases hwaits : conn.waits id = some query
  · have hpending := h.pendingAt hwaits
    rw [guardLocked_own hpending rfl]
    have htable : ∀ other, (conn.state.table.orphanIf instantMax id conn.clock
        fun waiter => decide (waiter.serial = query)).2.pendingAt other =
          if other = id then none
          else conn.state.table.pendingAt other := by
      intro other
      rw [PendingTable.orphanIf_pendingAt]
      split_ifs with hsame
      · rw [hsame, hpending, Option.filter_some, decide_eq_true rfl]
        rfl
      · rfl
    have hnone : ConnState.waits { conn.state with
        table := (conn.state.table.orphanIf instantMax id conn.clock
          fun waiter => decide (waiter.serial = query)).2
        slack := min (min (conn.state.slack + 1) (2 ^ 32 - 1))
          conn.state.slackCap } = Function.update conn.waits id none := by
      funext other
      rw [ConnState.waits, htable, Function.update_apply]
      split_ifs
      · rfl
      · rfl
    refine { h with
      table := PendingTable.orphanIf_inv h.table
      numbered := h.numbered.update ?_ rfl
      owner := ?_
      placed := ?_
      closed := ?_
      pending := ?_
      deaf := (h.deaf.update fun _ => rfl).record (by simp)
      matched := h.matched_cons _
      answered := (h.answered.record _).update fun _ => .inl
      ended := h.ended_cons (by simp)
      sound := ⟨⟨rfl, ?_⟩, h.sound⟩ }
    · rw [hphase]
      simp
    · intro other waiter hwaiter
      have hold := (htable other).symm.trans hwaiter
      split_ifs at hold
      exact h.owner other waiter hold
    · have hmine : ∀ other, Function.update conn.waits id none other =
          some query → QueryPhase.guarded .settled = some other := by
        intro other hother
        obtain ⟨hne, hother⟩ := update_none_eq_some.mp hother
        exact absurd (hown other hother) hne
      have hplaced := (h.placed.forget hwaits hphase).leave
        (@rfl _ (QueryPhase.submitted .settled)) (fun _ hwaiting => by
          cases hwaiting) hmine
      rw [← hnone] at hplaced
      exact hplaced
    · intro hclosed other
      refine (congrFun hnone other).trans ?_
      rw [Function.update_apply]
      split_ifs
      · rfl
      · exact h.closed hclosed other
    · refine Eq.trans ?_ hnone.symm
      funext other
      rw [pendingIn, Function.update_apply, h.pending]
    · rw [h.pending]
      exact hwaits
  · have hother : ∀ waiter, conn.state.table.pendingAt id = some waiter →
        waiter.serial ≠ query := by
      intro waiter hwaiter hsame
      refine hwaits ?_
      rw [waits, ConnState.waits, hwaiter, ← hsame, h.owner id waiter hwaiter]
      rfl
    rw [guardLocked_other hother]
    refine h.leave hsubmitted rfl ?_
    intro other hmine
    exact absurd (hown other hmine ▸ hmine) hwaits

end Steps

end Conn

theorem Step.inv {instantMax : ℕ} {conn after : Conn}
    (hstep : Step instantMax conn after) (h : conn.Inv) : after.Inv := by
  cases hstep with
  | tick hle => exact { h with }
  | draw => exact h.draw
  | @submit query outcome state queued hphase hsubmit =>
    obtain ⟨outcome', state', hresult, hsubmitted⟩ := submitLocked_spec
      h.table conn.clock ⟨(conn.queries query).serial, query⟩ queued
    rw [hsubmit] at hresult
    obtain ⟨rfl, rfl⟩ := Prod.mk.inj (Run.ok.inj hresult)
    exact h.submitted hphase hsubmitted
  | @breakOff query hphase =>
    have hqueries : (conn.fail .unwritable).queries = conn.queries := by
      rw [Conn.fail]
      split_ifs
      · rfl
      · rfl
    refine (h.fail .unwritable).turnAway ?_ ?_ rfl
    · rw [hqueries, hphase]
      rfl
    · rw [hqueries, hphase]
      simp
  | dispatch frame hreader => exact h.dispatch hreader
  | @decoded waiter frame message hreader hdecode =>
    have hheld : conn.held = waiter.tx :: (Reader.hands .reading ++
        conn.owed.map fun item => item.1.tx) := by
      rw [Conn.held, hreader]
      rfl
    split_ifs with hlistening
    · obtain ⟨id, hphase⟩ := Conn.listening_eq_true hlistening
      have hrecord : Conn.Inv { conn with
          log := .delivered frame waiter.tx :: conn.log } := by
        refine h.record rfl (fun _ => by simp) (fun _ => by simp)
          ⟨?_, h.matched waiter frame hreader⟩
        intro hcancelled
        have hdeaf := h.deaf waiter.tx hcancelled
        rw [hphase] at hdeaf
        cases hdeaf
      refine hrecord.send (hheld ▸ List.Perm.refl _)
        (fun _ _ hfound => by cases hfound) ?_
      rintro _ ⟨⟩ _
      exact ⟨frame, hdecode, List.mem_cons_self ..⟩
    · refine h.send (hheld ▸ List.Perm.refl _)
        (fun _ _ hfound => by cases hfound) ?_
      intro _ _ hheard
      exact absurd hheard hlistening
  | @garbled waiter frame error hreader hdecode =>
    have hheld : conn.held = waiter.tx :: (Reader.hands (.failing .undecodable)
        ++ conn.owed.map fun item => item.1.tx) := by
      rw [Conn.held, hreader]
      rfl
    exact h.send (hheld ▸ List.Perm.refl _)
      (fun _ _ hfound => by cases hfound) (fun _ => by simp)
  | @readerFails cause hreader =>
    have hreader' : (conn.fail cause).reader = conn.reader := by
      rw [Conn.fail]
      split_ifs
      · rfl
      · rfl
    refine (h.fail cause).withReader ?_ (by simp)
    rw [hreader', hreader]
    simp
  | lose failure => exact h.fail _
  | @notify front back waiter failure howed =>
    refine h.send ?_ (fun _ _ => id) (fun _ => by simp)
    rw [Conn.held, howed, List.map_append, List.map_append, List.map_cons,
      ← List.append_assoc, ← List.append_assoc]
    exact List.perm_middle
  | @read query id hphase hinbox =>
    refine h.leave ?_ rfl ?_
    · rw [hphase]
      rfl
    · intro other hother
      exact absurd ((h.placed.place query).waiting other hother).2 hinbox
  | @abandon query id hphase =>
    have hleft : (conn.setPhase query (.abandoned id)).Inv := by
      refine h.leave ?_ rfl ?_
      · rw [hphase]
        rfl
      · intro other hother
        have hguarded := ((h.placed.place query).waiting other hother).1
        rw [hphase] at hguarded
        exact hguarded
    refine hleft.record rfl ?_ (fun _ => by simp) trivial
    intro found hfound
    rw [Event.cancelled.inj hfound, Conn.setPhase_queries_self]
    rfl
  | dropGuard hphase => exact h.dropGuard instantMax hphase

theorem Reaches.inv {instantMax maxInFlight readTimeout : ℕ} {conn : Conn}
    (hreaches : Reaches instantMax maxInFlight readTimeout conn) :
    conn.Inv := by
  obtain ⟨start, clock, hsteps⟩ := hreaches
  induction hsteps with
  | refl => exact Conn.inv_spawn maxInFlight readTimeout start clock
  | tail _ hstep ih => exact hstep.inv ih

/-! ## Delivery -/

/-- A task is about to send a result to the query: one of those drained by
`fail`, or the one whose frame is being decoded. -/
def Conn.Owes (conn : Conn) (query : ℕ) : Prop :=
  (∃ item ∈ conn.owed, item.1.tx = query) ∨
    ∃ waiter frame, conn.reader = .decoding waiter frame ∧
      waiter.tx = query ∧ (Message.decode frame).Returns

/-- The waiter of a query which listens to a closed connection is in the hands
of a task. -/
theorem Conn.Inv.owes {conn : Conn} (h : conn.Inv)
    (hclosed : conn.state.closed = true)
    (hdecode : ∀ id frame query, .matched id frame query ∈ conn.log →
      (Message.decode frame).Returns) {query : ℕ} {id : UInt16}
    (hphase : (conn.queries query).phase = .waiting id) :
    (conn.queries query).inbox ≠ [] ∨ conn.Owes query := by
  rcases (h.placed.place query).served id hphase with hinbox | hwaits | hheld
  · exact .inl hinbox
  · rw [h.closed hclosed id] at hwaits
    cases hwaits
  · refine .inr ?_
    rw [Conn.held] at hheld
    rcases List.mem_append.mp hheld with hhands | howed
    · cases hreader : conn.reader with
      | decoding waiter frame =>
        rw [hreader] at hhands
        obtain ⟨other, hmatched⟩ := h.matched waiter frame hreader
        exact .inr ⟨waiter, frame, hreader, (List.mem_singleton.mp hhands).symm,
          hdecode other frame waiter.tx hmatched⟩
      | reading =>
        rw [hreader] at hhands
        cases hhands
      | failing cause =>
        rw [hreader] at hhands
        cases hhands
      | stopped =>
        rw [hreader] at hhands
        cases hhands
    · obtain ⟨item, hitem, htx⟩ := List.mem_map.mp howed
      exact .inl ⟨item, hitem, htx⟩

/-- In every run a query receives at most one result; a message it receives is
a frame which arrived while it waited under the id of the frame, given to it
last, and it had not been cancelled; a guard makes a tombstone of no other
query; and a closed connection takes no query and owes no result which a task
is not about to send, if the frames which answer queries decode or fail to. -/
theorem results_delivered (instantMax maxInFlight readTimeout : ℕ)
    (conn : Conn) (hreaches : Reaches instantMax maxInFlight readTimeout conn)
    (hdecode : ∀ id frame query, .matched id frame query ∈ conn.log →
      (Message.decode frame).Returns) :
    (∀ query, (conn.queries query).inbox.length ≤ 1) ∧
    (∀ query message, .ok message ∈ (conn.queries query).inbox →
      ∃ frame, Message.decode frame = .ok message ∧
        .delivered frame query ∈ conn.log) ∧
    (∀ frame query earlier, .delivered frame query :: earlier <:+ conn.log →
      .cancelled query ∉ earlier ∧
        ∃ id before, .matched id frame query :: before <:+ earlier ∧
          wireId frame = some id ∧ pendingIn before id = some query ∧
          lastAssigned before id = some query) ∧
    (∀ id owner guard, .orphaned id owner guard ∈ conn.log → owner = guard) ∧
    (conn.state.closed = true → ∀ query id,
      (conn.queries query).phase = .waiting id →
        (conn.queries query).inbox ≠ [] ∨ conn.Owes query) ∧
    (∀ id query earlier cause, .assigned id query :: earlier <:+ conn.log →
      .closed cause ∉ earlier) := by
  have h := hreaches.inv
  refine ⟨fun query => (h.placed.place query).once, h.answered, ?_, ?_, ?_, ?_⟩
  · intro frame query earlier hsuffix
    obtain ⟨hcancelled, id, hmatched⟩ := h.sound.justified hsuffix
    obtain ⟨later, before, hearlier⟩ := List.append_of_mem hmatched
    have hbefore : .matched id frame query :: before <:+ earlier :=
      ⟨later, hearlier.symm⟩
    have hlog := hbefore.trans ((List.suffix_cons _ _).trans hsuffix)
    obtain ⟨hid, hpending⟩ := h.sound.justified hlog
    exact ⟨hcancelled, id, before, hbefore, hid, hpending,
      lastAssigned_of_pendingIn hpending⟩
  · intro id owner guard horphaned
    obtain ⟨later, before, hlog⟩ := List.append_of_mem horphaned
    exact (h.sound.justified ⟨later, hlog.symm⟩).1
  · intro hclosed query id hphase
    exact h.owes hclosed hdecode hphase
  · intro id query earlier cause hsuffix
    exact (h.sound.justified hsuffix).1 cause

/-- A query of a connection which is lost before any frame arrives. -/
theorem lost_query_owed :
    ∃ conn, Reaches 1000 4 5 conn ∧ conn.state.closed = true ∧
      (conn.queries 0).phase = .waiting 0 ∧
      ((conn.queries 0).inbox ≠ [] ∨ conn.Owes 0) := by
  let failure : Failure := .closed "upstream closed the connection"
  have hsubmit : Step 1000 (Conn.spawn 4 5 0 0).draw _ :=
    @Step.submit 1000 (Conn.spawn 4 5 0 0).draw 0 _ _ true rfl rfl
  have hreaches : Reaches 1000 4 5 _ :=
    ⟨0, 0, ((Relation.ReflTransGen.single (.draw _)).tail hsubmit).tail
      (.lose _ failure)⟩
  refine ⟨_, hreaches, rfl, rfl, ?_⟩
  refine (results_delivered 1000 4 5 _ hreaches ?_).2.2.2.2.1 rfl 0 0 rfl
  intro id frame query hmatched
  rcases List.mem_cons.mp hmatched with heq | hrest
  · cases heq
  · cases List.mem_singleton.mp hrest

/-! ## A frame without an end -/

/-- A response whose question name points at itself. -/
def loopingFrame : List UInt8 :=
  [0, 0, 0, 0, 0, 1, 0, 0, 0, 0, 0, 0, 1, 97, 192, 12, 0, 1, 0, 1]

theorem decode_loopingFrame : Message.decode loopingFrame = .diverge := by
  decide

/-- The reader is caught in the frame of the first query, and the connection
is closed. -/
structure Caught (conn : Conn) : Prop where
  closed : conn.state.closed = true
  reader : conn.reader = .decoding ⟨0, 0⟩ loopingFrame
  owed : conn.owed = []
  inbox : (conn.queries 0).inbox = []

theorem Caught.fail {conn : Conn} (h : Caught conn) (cause : Cause) :
    conn.fail cause = conn := by
  rw [Conn.fail, if_pos h.closed]

theorem Caught.setPhase {conn : Conn} (h : Caught conn) (query : ℕ)
    (phase : QueryPhase) : Caught (conn.setPhase query phase) := by
  refine { h with inbox := ?_ }
  by_cases hsame : 0 = query
  · rw [← hsame, Conn.setPhase_queries_self]
    exact h.inbox
  · rw [Conn.setPhase_queries_of_ne conn phase hsame]
    exact h.inbox

theorem guardLocked_closed (instantMax : ℕ) (id : UInt16) (serial now : ℕ)
    (state : ConnState) :
    (guardLocked instantMax id serial now state).2.closed = state.closed := by
  rw [guardLocked]
  split
  · rfl
  · rfl

theorem Conn.dropGuard_eq (instantMax : ℕ) (conn : Conn) (query : ℕ)
    (id : UInt16) :
    ∃ log, conn.dropGuard instantMax query id =
      { conn.setPhase query .settled with
        state := (guardLocked instantMax id (conn.queries query).serial
          conn.clock conn.state).2
        log := log } := by
  rw [Conn.dropGuard]
  cases guardLocked instantMax id (conn.queries query).serial conn.clock
      conn.state with
  | mk found state =>
    cases found with
    | none => exact ⟨conn.log, rfl⟩
    | some waiter => exact ⟨_, rfl⟩

theorem Caught.step {instantMax : ℕ} {conn after : Conn} (h : Caught conn)
    (hinv : conn.Inv) (hstep : Step instantMax conn after) : Caught after := by
  cases hstep with
  | tick hle => exact { h with }
  | draw =>
    refine { h with inbox := ?_ }
    by_cases hsame : 0 = conn.opened
    · rw [hsame, Conn.draw_queries_self]
    · rw [Conn.draw_queries_of_ne conn hsame]
      exact h.inbox
  | @submit query outcome state queued hphase hsubmit =>
    obtain ⟨outcome', state', hresult, hsubmitted⟩ := submitLocked_spec
      hinv.table conn.clock ⟨(conn.queries query).serial, query⟩ queued
    rw [hsubmit] at hresult
    obtain ⟨rfl, rfl⟩ := Prod.mk.inj (Run.ok.inj hresult)
    cases hsubmitted with
    | closed _ => exact h.setPhase query _
    | full hopen _ => exact absurd (h.closed.symm.trans hopen) (by simp)
    | accepted hopen _ => exact absurd (h.closed.symm.trans hopen) (by simp)
    | broken hopen _ => exact absurd (h.closed.symm.trans hopen) (by simp)
  | breakOff hphase =>
    rw [h.fail]
    exact h.setPhase _ _
  | dispatch frame hreader => exact absurd (h.reader.symm.trans hreader) (by simp)
  | decoded hreader hdecode =>
    obtain ⟨rfl, rfl⟩ := Reader.decoding.inj (h.reader.symm.trans hreader)
    rw [decode_loopingFrame] at hdecode
    cases hdecode
  | garbled hreader hdecode =>
    obtain ⟨rfl, rfl⟩ := Reader.decoding.inj (h.reader.symm.trans hreader)
    rw [decode_loopingFrame] at hdecode
    cases hdecode
  | readerFails hreader => exact absurd (h.reader.symm.trans hreader) (by simp)
  | lose failure =>
    rw [h.fail]
    exact h
  | @notify front back waiter failure howed =>
    rw [h.owed] at howed
    exact absurd howed.symm (List.append_ne_nil_of_right_ne_nil _
      (List.cons_ne_nil _ _))
  | read hphase hinbox => exact h.setPhase _ _
  | abandon hphase => exact { h.setPhase _ _ with }
  | @dropGuard query id hphase =>
    obtain ⟨log, hafter⟩ := Conn.dropGuard_eq instantMax conn query id
    rw [hafter]
    refine { h.setPhase query .settled with closed := ?_ }
    exact (guardLocked_closed ..).trans h.closed

/-- The first query of a connection has sent its question.  A frame for it
which never ends to decode arrives, and the stream is closed: the query stays
without a result for ever. -/
theorem query_left_waiting :
    ∃ conn, Reaches 1000 4 5 conn ∧ conn.state.closed = true ∧
      (conn.queries 0).phase = .waiting 0 ∧
      (conn.queries 0).inbox = [] ∧ ¬conn.Owes 0 ∧
      ∀ after, Relation.ReflTransGen (Step 1000) conn after →
        (after.queries 0).inbox = [] := by
  let failure : Failure := .closed "upstream closed the connection"
  have hsubmit : Step 1000 (Conn.spawn 4 5 0 0).draw _ :=
    @Step.submit 1000 (Conn.spawn 4 5 0 0).draw 0 _ _ true rfl rfl
  have hreaches : Reaches 1000 4 5 _ :=
    ⟨0, 0, (((Relation.ReflTransGen.single (.draw _)).tail hsubmit).tail
      (.dispatch loopingFrame rfl)).tail (.lose _ failure)⟩
  refine ⟨_, hreaches, rfl, rfl, rfl, ?_, ?_⟩
  · rintro (⟨item, hitem, _⟩ | ⟨waiter, frame, hreader, _, hreturns⟩)
    · cases hitem
    · obtain ⟨_, rfl⟩ := Reader.decoding.inj hreader
      rw [decode_loopingFrame, Run.returns_iff] at hreturns
      exact hreturns.2 rfl
  · intro after hsteps
    have hboth : Caught after ∧ after.Inv := by
      induction hsteps with
      | refl => exact ⟨⟨rfl, rfl, rfl, rfl⟩, hreaches.inv⟩
      | tail _ hstep ih => exact ⟨ih.1.step ih.2 hstep, hstep.inv ih.2⟩
    exact hboth.1.inbox

end StreamConn

end DnsLattice
