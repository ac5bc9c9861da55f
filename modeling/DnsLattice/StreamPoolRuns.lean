import DnsLattice.ConnPoolRuns
import DnsLattice.StreamRuns

/-!
# Leases and pending queries

An attempt of a stream pool takes a lease, sends one query on the connection
of its lease, and drops the guard of the query before the lease, on every way
out.  The connection of an entry is known by the id of the entry.  The pending
queries of a connection are then at most as many as the leases on it, and a
caller with a lease finds a free slot.
-/

namespace DnsLattice

namespace StreamConn

/-! ## Queries which are over -/

def QueryPhase.over : QueryPhase → Bool
  | .refused _ => true
  | .settled => true
  | _ => false

theorem QueryPhase.of_guarded {phase : QueryPhase} {id : UInt16}
    (hguarded : phase.guarded = some id) :
    phase.over = false ∧ phase ≠ .starting ∧ phase ≠ .unopened := by
  cases phase with
  | waiting _ => exact ⟨rfl, by simp, by simp⟩
  | abandoned _ => exact ⟨rfl, by simp, by simp⟩
  | unopened => cases hguarded
  | starting => cases hguarded
  | broken => cases hguarded
  | refused _ => cases hguarded
  | settled => cases hguarded

section Over

variable {conn after : Conn} {query : ℕ}

theorem Conn.Inv.lt_opened (hinv : conn.Inv)
    (hphase : (conn.queries query).phase ≠ .unopened) :
    query < conn.opened := by
  by_contra hle
  exact hphase (hinv.numbered.unopened query (not_lt.mp hle))

inductive Moved (conn : Conn) : QueryPhase → QueryPhase → Prop
  | draw : Moved conn .unopened .starting
  | closed : Moved conn .starting (.refused connectionClosed)
  | full {waiter : Waiter} {table : PendingTable Waiter}
      (hregistered : conn.state.table.Registered waiter (.error waiter) table) :
      Moved conn .starting (.refused noFreeSlot)
  | accepted (id : UInt16) : Moved conn .starting (.waiting id)
  | broken : Moved conn .starting .broken
  | brokenOff : Moved conn .broken (.refused Cause.unwritable.failure)
  | read (id : UInt16) : Moved conn (.waiting id) .settled
  | abandoned (id : UInt16) : Moved conn (.waiting id) (.abandoned id)
  | dropped (id : UInt16) : Moved conn (.abandoned id) .settled

theorem moved_setPhase {changed : ℕ} {phase : QueryPhase}
    (hmoved : Moved conn (conn.queries changed).phase phase) (query : ℕ) :
    ((conn.setPhase changed phase).queries query).phase =
        (conn.queries query).phase ∨
      Moved conn (conn.queries query).phase
        ((conn.setPhase changed phase).queries query).phase := by
  by_cases hsame : query = changed
  · rw [hsame, conn.setPhase_queries_self]
    exact .inr hmoved
  · rw [conn.setPhase_queries_of_ne phase hsame]
    exact .inl rfl

theorem send_phase (conn : Conn) (sent : ℕ) (result : Except Failure Message)
    (query : ℕ) : ((conn.send sent result).queries query).phase =
      (conn.queries query).phase := by
  rw [conn.send_queries sent result]
  by_cases hsame : query = sent
  · rw [← hsame, Function.update_self, conn.told_phase]
  · rw [Function.update_of_ne hsame]

theorem fail_queries (conn : Conn) (cause : Cause) :
    (conn.fail cause).queries = conn.queries := by
  rw [Conn.fail]
  split_ifs
  · rfl
  · rfl

theorem dispatch_queries (conn : Conn) (frame : List UInt8) :
    (conn.dispatch frame).queries = conn.queries := by
  rw [Conn.dispatch]
  split
  · rfl
  · split
    · rfl
    · rfl
    · rfl
    · rfl

theorem Step.moved {instantMax : ℕ} (hstep : Step instantMax conn after)
    (hinv : conn.Inv) (query : ℕ) :
    (after.queries query).phase = (conn.queries query).phase ∨
      Moved conn (conn.queries query).phase (after.queries query).phase := by
  cases hstep with
  | tick hle => exact .inl rfl
  | draw =>
    by_cases hsame : query = conn.opened
    · rw [hsame, conn.draw_queries_self,
        hinv.numbered.unopened conn.opened le_rfl]
      exact .inr .draw
    · rw [conn.draw_queries_of_ne hsame]
      exact .inl rfl
  | @submit changed outcome state queued hphase hsubmit =>
    obtain ⟨outcome', state', hresult, hsubmitted⟩ := submitLocked_spec
      hinv.table conn.clock ⟨(conn.queries changed).serial, changed⟩ queued
    rw [hsubmit] at hresult
    obtain ⟨rfl, rfl⟩ := Prod.mk.inj (Run.ok.inj hresult)
    have hset : ∀ {phase : QueryPhase}, Moved conn .starting phase →
        ((conn.setPhase changed phase).queries query).phase =
            (conn.queries query).phase ∨
          Moved conn (conn.queries query).phase
            ((conn.setPhase changed phase).queries query).phase :=
      fun hmoved => moved_setPhase (hphase.symm ▸ hmoved) query
    cases hsubmitted with
    | closed hclosed => exact hset .closed
    | full hopen hregistered => exact hset (.full hregistered)
    | accepted hopen hregistered => exact hset (.accepted _)
    | broken hopen hregistered => exact hset .broken
  | @breakOff changed hphase =>
    have hqueries : ((conn.fail .unwritable).setPhase changed
        (.refused Cause.unwritable.failure)).queries =
          (conn.setPhase changed
            (.refused Cause.unwritable.failure)).queries := by
      rw [Conn.setPhase, Conn.setPhase]
      simp only [fail_queries]
    rw [hqueries]
    exact moved_setPhase (hphase.symm ▸ Moved.brokenOff) query
  | dispatch frame hreader =>
    rw [dispatch_queries]
    exact .inl rfl
  | decoded hreader hdecode => exact .inl (send_phase _ _ _ query)
  | garbled hreader hdecode => exact .inl (send_phase _ _ _ query)
  | readerFails hreader =>
    rw [fail_queries]
    exact .inl rfl
  | lose failure =>
    rw [fail_queries]
    exact .inl rfl
  | notify howed => exact .inl (send_phase _ _ _ query)
  | read hphase hinbox =>
    exact moved_setPhase (hphase.symm ▸ Moved.read _) query
  | abandon hphase =>
    exact moved_setPhase (hphase.symm ▸ Moved.abandoned _) query
  | @dropGuard changed id hphase =>
    obtain ⟨log, hafter⟩ := Conn.dropGuard_eq instantMax conn changed id
    rw [hafter]
    exact moved_setPhase (hphase.symm ▸ Moved.dropped _) query

theorem Step.over {instantMax : ℕ} (hstep : Step instantMax conn after)
    (hinv : conn.Inv) (hover : (conn.queries query).phase.over = true) :
    (after.queries query).phase.over = true := by
  rcases hstep.moved hinv query with hsame | hmoved
  · rw [hsame]
    exact hover
  · generalize (conn.queries query).phase = old at hover hmoved
    generalize (after.queries query).phase = new at hmoved
    cases hmoved with
    | draw => cases hover
    | closed => cases hover
    | full _ => cases hover
    | accepted id => cases hover
    | broken => cases hover
    | brokenOff => cases hover
    | read id => cases hover
    | abandoned id => cases hover
    | dropped id => cases hover

theorem Step.room {instantMax : ℕ} (hstep : Step instantMax conn after)
    (hinv : conn.Inv) (hroom : (conn.queries query).phase ≠ .refused noFreeSlot)
    (hfull : (conn.queries query).phase = .starting → ∀ waiter table,
      ¬conn.state.table.Registered waiter (.error waiter) table) :
    (after.queries query).phase ≠ .refused noFreeSlot := by
  rcases hstep.moved hinv query with hsame | hmoved
  · rw [hsame]
    exact hroom
  · generalize (conn.queries query).phase = old at hroom hfull hmoved
    generalize (after.queries query).phase = new at hmoved
    cases hmoved with
    | full hregistered => exact absurd hregistered (hfull rfl _ _)
    | draw => simp
    | closed => decide
    | accepted id => simp
    | broken => simp
    | brokenOff => decide
    | read id => simp
    | abandoned id => simp
    | dropped id => simp

theorem fail_capacity (conn : Conn) (cause : Cause) :
    (conn.fail cause).state.table.capacity = conn.state.table.capacity := by
  rw [Conn.fail, failLocked]
  split_ifs
  · rfl
  · rfl

theorem Step.capacity_eq {instantMax : ℕ}
    (hstep : Step instantMax conn after) (hinv : conn.Inv) :
    after.state.table.capacity = conn.state.table.capacity := by
  cases hstep with
  | tick hle => rfl
  | draw => rfl
  | @submit changed outcome state queued hphase hsubmit =>
    obtain ⟨outcome', state', hresult, hsubmitted⟩ := submitLocked_spec
      hinv.table conn.clock ⟨(conn.queries changed).serial, changed⟩ queued
    rw [hsubmit] at hresult
    obtain ⟨rfl, rfl⟩ := Prod.mk.inj (Run.ok.inj hresult)
    cases hsubmitted with
    | closed hclosed => rfl
    | full hopen hregistered => exact hregistered.capacity_eq
    | accepted hopen hregistered => exact hregistered.capacity_eq
    | broken hopen hregistered =>
      exact PendingTable.take_capacity.trans hregistered.capacity_eq
  | breakOff hphase => exact fail_capacity conn _
  | dispatch frame hreader =>
    rw [Conn.dispatch]
    cases wireId frame with
    | none => rfl
    | some id =>
      simp only
      cases hpending : conn.state.table.pendingAt id with
      | some waiter =>
        rw [dispatchLocked_pending hpending]
        exact PendingTable.take_capacity
      | none =>
        have hstray := dispatchLocked_stray hpending
        generalize dispatchLocked id conn.state = outcome at hstray
        cases hstray with
        | orphaned => exact PendingTable.take_capacity
        | unknown hslack => exact PendingTable.take_capacity
        | flooded hslack => exact PendingTable.take_capacity
  | decoded hreader hdecode => rfl
  | garbled hreader hdecode => rfl
  | readerFails hreader => exact fail_capacity conn _
  | lose failure => exact fail_capacity conn _
  | notify howed => rfl
  | read hphase hinbox => rfl
  | abandon hphase => rfl
  | @dropGuard changed id hphase =>
    obtain ⟨log, hafter⟩ := Conn.dropGuard_eq instantMax conn changed id
    rw [hafter]
    change (guardLocked instantMax id (conn.queries changed).serial
      conn.clock conn.state).2.table.capacity = _
    rw [guardLocked, ← @PendingTable.orphanIf_capacity _ conn.state.table
      instantMax conn.clock id
      fun waiter => decide (waiter.serial = (conn.queries changed).serial)]
    split
    next hguard => rw [hguard]
    next hguard => rw [hguard]

end Over

end StreamConn

namespace StreamPool

open ConnPool (Settings leasesOn)
open StreamConn (Conn)

/-! ## The pool, its connections and its attempts -/

structure Attempt where
  lease : ConnPool.Lease Unit
  query : Option ℕ

structure System where
  pool : ConnPool.System Unit
  conns : ℕ → Conn
  attempts : List Attempt

def held (leases : List (ConnPool.Lease Unit)) : List (ConnPool.Lease Unit) :=
  leases.filter fun lease => decide (lease.phase = .held)

/-- Each connection has a table for as many queries as it takes. -/
def System.new (settings : Settings) (readTimeout clock : ℕ)
    (start : ℕ → UInt16) : System where
  pool := .new settings clock
  conns entryId := .spawn settings.config.maxInFlight readTimeout
    (start entryId) clock
  attempts := []

inductive Step (settings : Settings) : System → System → Prop
  /-- A step of the pool which neither grants nor drops a lease. -/
  | pool {system : System} {pool : ConnPool.System Unit}
      (hstep : ConnPool.Step settings system.pool pool)
      (hheld : held pool.leases = held system.pool.leases) :
      Step settings system { system with pool := pool }
  | acquire {system : System} {pool : ConnPool.System Unit}
      {lease : ConnPool.Lease Unit} (hstep : ConnPool.Step settings system.pool pool)
      (hleases : pool.leases = lease :: system.pool.leases)
      (hphase : lease.phase = .held) :
      Step settings system
        { system with
          pool := pool
          attempts := ⟨lease, none⟩ :: system.attempts }
  /-- The attempt enters `submit` on the connection of its lease. -/
  | submit {system : System} {front back : List Attempt} {lease : ConnPool.Lease Unit}
      (hattempts : system.attempts = front ++ ⟨lease, none⟩ :: back) :
      Step settings system
        { system with
          conns := Function.update system.conns lease.entryId
            (system.conns lease.entryId).draw
          attempts := front ++
            ⟨lease, some (system.conns lease.entryId).opened⟩ :: back }
  /-- A step of a connection which makes no query. -/
  | conn {system : System} {entryId : ℕ} {after : Conn}
      (hstep : StreamConn.Step settings.instantMax (system.conns entryId) after)
      (hopened : after.opened = (system.conns entryId).opened) :
      Step settings system
        { system with conns := Function.update system.conns entryId after }
  /-- The attempt ends: its query is over, and the lease is dropped. -/
  | finish {system : System} {front back : List Attempt} {lease : ConnPool.Lease Unit}
      {query : ℕ} {pool : ConnPool.System Unit}
      {before after : List (ConnPool.Lease Unit)}
      (hattempts : system.attempts = front ++ ⟨lease, some query⟩ :: back)
      (hover : ((system.conns lease.entryId).queries query).phase.over = true)
      (hleases : system.pool.leases = before ++ lease :: after)
      (hpool : pool = { system.pool with
        leases := before ++
          { lease with phase := .dropping system.pool.clock } :: after }) :
      Step settings system
        { system with pool := pool, attempts := front ++ back }

def Reaches (settings : Settings) (readTimeout : ℕ) (system : System) : Prop :=
  ∃ clock start, Relation.ReflTransGen (Step settings)
    (.new settings readTimeout clock start) system

/-! ## Queries of the attempts -/

def Attempt.queryOn (entryId : ℕ) (attempt : Attempt) : Option ℕ :=
  if attempt.lease.entryId = entryId then attempt.query else none

def queriesOn (attempts : List Attempt) (entryId : ℕ) : List ℕ :=
  attempts.filterMap (Attempt.queryOn entryId)

theorem queriesOn_append (front back : List Attempt) (attempt : Attempt)
    (entryId : ℕ) :
    queriesOn (front ++ attempt :: back) entryId =
      queriesOn front entryId ++ (attempt.queryOn entryId).toList ++
        queriesOn back entryId := by
  rw [queriesOn, List.filterMap_append, List.append_assoc]
  refine congrArg _ ?_
  cases hquery : attempt.queryOn entryId with
  | none => exact List.filterMap_cons_none hquery
  | some query => exact List.filterMap_cons_some hquery

/-- A connection and the queries of the attempts on it: each query which is
not over is one of them, and none was turned away for want of a slot. -/
structure Tracked (settings : Settings) (queries : List ℕ) (conn : Conn) :
    Prop where
  inv : conn.Inv
  capacity : conn.state.table.capacity = settings.config.maxInFlight
  opened : ∀ query ∈ queries, query < conn.opened
  nodup : queries.Nodup
  covered : ∀ query, query < conn.opened →
    (conn.queries query).phase.over = false → query ∈ queries
  room : ∀ query,
    (conn.queries query).phase ≠ .refused StreamConn.noFreeSlot

section Tracked

variable {settings : Settings} {queries queries' : List ℕ} {query : ℕ}
  {conn after : Conn}

theorem Tracked.perm (h : Tracked settings queries conn)
    (hperm : queries.Perm queries') : Tracked settings queries' conn :=
  { h with
    opened := fun query hquery => h.opened query (hperm.mem_iff.mpr hquery)
    nodup := hperm.nodup_iff.mp h.nodup
    covered := fun query hlt hover =>
      hperm.mem_iff.mp (h.covered query hlt hover) }

theorem Tracked.draw (h : Tracked settings queries conn) :
    Tracked settings (conn.opened :: queries) conn.draw where
  inv := h.inv.draw
  capacity := h.capacity
  opened query hquery := by
    rcases List.mem_cons.mp hquery with rfl | hold
    · exact Nat.lt_succ_self _
    · exact (h.opened query hold).trans (Nat.lt_succ_self _)
  nodup := List.nodup_cons.mpr
    ⟨fun hmem => (h.opened _ hmem).ne rfl, h.nodup⟩
  covered query hlt hover := by
    by_cases hsame : query = conn.opened
    · exact List.mem_cons.mpr (.inl hsame)
    · rw [conn.draw_queries_of_ne hsame] at hover
      have hle : query ≤ conn.opened := Nat.le_of_lt_succ hlt
      exact List.mem_cons_of_mem _
        (h.covered query (lt_of_le_of_ne hle hsame) hover)
  room query := by
    by_cases hsame : query = conn.opened
    · rw [hsame, conn.draw_queries_self]
      simp
    · rw [conn.draw_queries_of_ne hsame]
      exact h.room query

theorem Tracked.step (h : Tracked settings queries conn)
    (hstep : StreamConn.Step settings.instantMax conn after)
    (hopened : after.opened = conn.opened)
    (hfull : ∀ query, (conn.queries query).phase = .starting →
      ∀ waiter table,
        ¬conn.state.table.Registered waiter (.error waiter) table) :
    Tracked settings queries after where
  inv := hstep.inv h.inv
  capacity := (hstep.capacity_eq h.inv).trans h.capacity
  opened query hquery := hopened ▸ h.opened query hquery
  nodup := h.nodup
  covered query hlt hover := by
    refine h.covered query (hopened ▸ hlt) ?_
    by_contra hnot
    rw [hstep.over h.inv (Bool.eq_true_of_not_eq_false hnot)] at hover
    cases hover
  room query := hstep.room h.inv (h.room query) (hfull query)

theorem Tracked.tail (h : Tracked settings (query :: queries) conn)
    (hover : (conn.queries query).phase.over = true) :
    Tracked settings queries conn where
  inv := h.inv
  capacity := h.capacity
  opened other hother := h.opened other (List.mem_cons_of_mem _ hother)
  nodup := (List.nodup_cons.mp h.nodup).2
  covered other hlt hother := by
    refine (List.mem_cons.mp (h.covered other hlt hother)).resolve_left ?_
    rintro rfl
    rw [hover] at hother
    cases hother
  room := h.room

/-- The queries which wait in a table with the waiters of the connection are
queries of attempts. -/
theorem Tracked.pendingLen_le (h : Tracked settings queries conn)
    {table : PendingTable StreamConn.Waiter}
    (htable : ∀ id, table.pendingAt id = conn.state.table.pendingAt id)
    {items : List ℕ}
    (hitems : ∀ query ∈ queries, (conn.queries query).phase ≠ .starting →
      query ∈ items) : table.pendingLen ≤ items.length := by
  have hguarded : ∀ id waiter, table.pendingAt id = some waiter →
      (conn.queries waiter.tx).phase.guarded = some id := by
    intro id waiter hwaiter
    rw [htable] at hwaiter
    refine ((h.inv.placed.place waiter.tx).waiting id ?_).1
    rw [Conn.waits, StreamConn.ConnState.waits, hwaiter]
    rfl
  refine @PendingTable.pendingLen_le_length _ table _ StreamConn.Waiter.tx
    items ?_ ?_
  · intro id id' waiter waiter' hwaiter hwaiter' hsame
    have hfirst := hguarded id waiter hwaiter
    rw [hsame, hguarded id' waiter' hwaiter'] at hfirst
    exact (Option.some.inj hfirst).symm
  · intro id waiter hwaiter
    obtain ⟨hover, hstarted, hopened⟩ :=
      StreamConn.QueryPhase.of_guarded (hguarded id waiter hwaiter)
    exact hitems _ (h.covered _ (h.inv.lt_opened hopened) hover) hstarted

/-- A query of one of at most as many attempts as the table has slots finds
room in the table. -/
theorem Tracked.not_full (h : Tracked settings queries conn)
    (hlength : queries.length ≤ settings.config.maxInFlight)
    (hphase : (conn.queries query).phase = .starting)
    {waiter : StreamConn.Waiter} {table : PendingTable StreamConn.Waiter} :
    ¬conn.state.table.Registered waiter (.error waiter) table := by
  intro hregistered
  have hmem : query ∈ queries := by
    refine h.covered query (h.inv.lt_opened ?_) ?_
    · rw [hphase]
      simp
    · rw [hphase]
      rfl
  cases hregistered with
  | refused hcleared hfull hpending =>
    -- Every slot has a pending query, and this query has none.
    have hlen := @Tracked.pendingLen_le settings queries conn h table
      hcleared.pending (queries.erase query) (by
        intro other hother hstarted
        refine (List.mem_erase_of_ne ?_).mpr hother
        rintro rfl
        exact hstarted hphase)
    rw [PendingTable.pendingLen_eq_length hpending,
      List.length_erase_of_mem hmem] at hlen
    have hpos := List.length_pos_of_mem hmem
    have hcapacity := hcleared.capacity_eq.trans h.capacity
    omega

end Tracked

structure Inv (settings : Settings) (system : System) : Prop where
  pool : ConnPool.Inv settings system.pool
  leases : (system.attempts.map Attempt.lease).Perm (held system.pool.leases)
  tracked : ∀ entryId, Tracked settings (queriesOn system.attempts entryId)
    (system.conns entryId)

theorem inv_new (settings : Settings) (readTimeout clock : ℕ)
    (start : ℕ → UInt16) :
    Inv settings (.new settings readTimeout clock start) where
  pool := ConnPool.inv_new settings clock
  leases := .refl _
  tracked entryId := by
    refine ⟨Conn.inv_spawn _ _ _ _, ?_, by rintro _ ⟨⟩, List.nodup_nil, by rintro _ ⟨⟩,
      fun _ => by rintro ⟨⟩⟩
    have hrange := settings.config.inFlight_range
    change max 1 (min settings.config.maxInFlight 65535) = _
    omega

section Steps

variable {settings : Settings} {system after : System}

theorem Inv.queriesOn_le (h : Inv settings system) (entryId : ℕ) :
    (queriesOn system.attempts entryId).length ≤
      leasesOn system.pool.leases entryId := by
  have hattempts : (queriesOn system.attempts entryId).length ≤
      (system.attempts.map Attempt.lease).countP fun lease =>
        decide (lease.entryId = entryId) := by
    rw [queriesOn, List.length_filterMap_eq_countP, List.countP_map]
    refine List.countP_mono_left ?_
    intro attempt _ hquery
    rw [Attempt.queryOn] at hquery
    split_ifs at hquery with hsame
    · exact decide_eq_true hsame
    · cases hquery
  rw [h.leases.countP_eq, held, List.countP_filter] at hattempts
  refine hattempts.trans (List.countP_mono_left ?_)
  intro lease _ hlease
  rw [Bool.and_eq_true, decide_eq_true_iff, decide_eq_true_iff] at hlease
  rw [ConnPool.Lease.on, ConnPool.Lease.outstanding, hlease.2, decide_eq_true hlease.1]
  rfl

theorem Inv.queriesOn_le_max (h : Inv settings system) (entryId : ℕ) :
    (queriesOn system.attempts entryId).length ≤
      settings.config.maxInFlight :=
  (h.queriesOn_le entryId).trans (h.pool.booked.leasesOn_le entryId)

theorem Step.inv (hstep : Step settings system after)
    (h : Inv settings system) : Inv settings after := by
  cases hstep with
  | pool hstep hheld =>
    exact { h with
      pool := hstep.inv h.pool
      leases := hheld ▸ h.leases }
  | @acquire pool lease hstep hleases hphase =>
    refine ⟨hstep.inv h.pool, ?_, ?_⟩
    · have hfilter : held pool.leases = lease :: held system.pool.leases := by
        rw [hleases]
        exact List.filter_cons_of_pos (decide_eq_true hphase)
      change (lease :: system.attempts.map Attempt.lease).Perm
        (held pool.leases)
      rw [hfilter]
      exact h.leases.cons lease
    · intro entryId
      change Tracked settings
        (queriesOn ([] ++ ⟨lease, none⟩ :: system.attempts) entryId) _
      rw [queriesOn_append, Attempt.queryOn, ite_self]
      exact h.tracked entryId
  | @submit front back lease hattempts =>
    have htracked := h.tracked
    have hleases := h.leases
    rw [hattempts] at htracked hleases
    refine ⟨h.pool, ?_, ?_⟩
    · rw [List.map_append, List.map_cons] at hleases ⊢
      exact hleases
    · refine (Function.forall_update_iff _ fun entryId conn =>
        Tracked settings (queriesOn _ entryId) conn).mpr ⟨?_, ?_⟩
      · have hold := htracked lease.entryId
        rw [queriesOn_append, Attempt.queryOn, ite_self] at hold
        rw [queriesOn_append, Attempt.queryOn, if_pos rfl]
        refine hold.draw.perm ?_
        rw [Option.toList_none, List.append_nil, Option.toList_some,
          List.append_assoc]
        exact List.perm_middle.symm
      · intro entryId hne
        have hold := htracked entryId
        rw [queriesOn_append, Attempt.queryOn, ite_self] at hold
        rw [queriesOn_append, Attempt.queryOn, if_neg (Ne.symm hne)]
        exact hold
  | @conn entryId conn hstep hopened =>
    refine ⟨h.pool, h.leases, ?_⟩
    refine (Function.forall_update_iff _ fun entryId conn =>
      Tracked settings (queriesOn _ entryId) conn).mpr
        ⟨?_, fun other _ => h.tracked other⟩
    refine (h.tracked entryId).step hstep hopened ?_
    intro query hphase waiter table
    exact (h.tracked entryId).not_full (h.queriesOn_le_max entryId) hphase
  | @finish front back lease query pool before later hattempts hover hleases
    hpool =>
    subst hpool
    have hmap := h.leases
    rw [hattempts, List.map_append, List.map_cons] at hmap
    have hphase : lease.phase = .held := by
      have hmem : lease ∈ held system.pool.leases :=
        hmap.mem_iff.mp (List.mem_append_right _ (List.mem_cons_self ..))
      exact of_decide_eq_true (List.mem_filter.mp hmem).2
    have hdrop : ConnPool.Step settings system.pool _ := .drop hleases hphase
    refine ⟨hdrop.inv h.pool, ?_, ?_⟩
    · have hheld : held system.pool.leases =
          held before ++ lease :: held later := by
        rw [hleases, held, List.filter_append]
        exact congrArg _ (List.filter_cons_of_pos (decide_eq_true hphase))
      have hdropped : held (before ++
          { lease with phase := .dropping system.pool.clock } :: later) =
            held before ++ held later := by
        rw [held, List.filter_append]
        exact congrArg _ (List.filter_cons_of_neg (by simp))
      rw [hheld] at hmap
      change (List.map Attempt.lease (front ++ back)).Perm (held (before ++ _))
      rw [hdropped, List.map_append]
      exact (List.perm_middle.symm.trans (hmap.trans List.perm_middle)).cons_inv
    · intro entryId
      have hold := h.tracked entryId
      rw [hattempts, queriesOn_append, Attempt.queryOn] at hold
      have hqueries : queriesOn (front ++ back) entryId =
          queriesOn front entryId ++ queriesOn back entryId :=
        List.filterMap_append
      change Tracked settings (queriesOn (front ++ back) entryId)
        (system.conns entryId)
      rw [hqueries]
      by_cases hsame : lease.entryId = entryId
      · rw [if_pos hsame, Option.toList_some, List.append_assoc] at hold
        rw [hsame] at hover
        exact (hold.perm List.perm_middle).tail hover
      · rw [if_neg hsame, Option.toList_none, List.append_nil] at hold
        exact hold

theorem Reaches.inv {readTimeout : ℕ}
    (hreaches : Reaches settings readTimeout system) : Inv settings system := by
  obtain ⟨clock, start, hsteps⟩ := hreaches
  induction hsteps with
  | refl => exact inv_new settings readTimeout clock start
  | tail _ hstep ih => exact hstep.inv ih

end Steps

def alive : ConnPool.Probe Unit := ⟨fun _ => true, fun _ => false⟩

end StreamPool

end DnsLattice
