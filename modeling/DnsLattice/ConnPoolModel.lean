import DnsLattice.MessageModel
import DnsLattice.RunMonad
import Mathlib.Data.List.MinMax
import Mathlib.Data.List.FinRange

/-!
# The upstream connection pool

The state of a pool stands behind one mutex.  The definitions of the first part
are the sections which run under it: the sweep, the choice of a connection, the
end of a connect and what a lease does to its connection.  The second part is
the pool among its callers: a step is one section, one reading of the clock or
one move of the admission semaphore, so that a run is an interleaving.

Whether a connection is alive, and whether the peer has closed it, is up to the
transport; a section is given the answers as a `Probe`.  Connections retired
under the lock are closed and reported after it has been released, which
changes nothing in the pool; the reports are collected.
-/

namespace DnsLattice

namespace ConnPool

/-! ## Configuration -/

def seconds (count : ℕ) : ℕ := count * 1000000000

/-- The numeric settings of an enabled pool.  The builder clamps each of them,
so that no other values exist. -/
structure PoolConfig where
  maxConnections : ℕ
  maxInFlight : ℕ
  idleTimeout : ℕ
  maxLifetime : Option ℕ
  connections_range : 1 ≤ maxConnections ∧ maxConnections ≤ 16
  inFlight_range : 1 ≤ maxInFlight ∧ maxInFlight ≤ 256
  idle_min : seconds 1 ≤ idleTimeout
  lifetime_min : ∀ lifetime, maxLifetime = some lifetime →
    seconds 1 ≤ lifetime

namespace PoolConfig

def new : PoolConfig where
  maxConnections := 4
  maxInFlight := 64
  idleTimeout := seconds 20
  maxLifetime := some (seconds (10 * 60))
  connections_range := by decide
  inFlight_range := by decide
  idle_min := by decide
  lifetime_min := by
    intro lifetime hlifetime
    obtain rfl := Option.some.inj hlifetime
    decide

def withMaxConnections (config : PoolConfig) (count : ℕ) : PoolConfig :=
  { config with
    maxConnections := max 1 (min count 16)
    connections_range := by omega }

def withMaxInFlight (config : PoolConfig) (count : ℕ) : PoolConfig :=
  { config with
    maxInFlight := max 1 (min count 256)
    inFlight_range := by omega }

def withIdleTimeout (config : PoolConfig) (timeout : ℕ) : PoolConfig :=
  { config with
    idleTimeout := max timeout (seconds 1)
    idle_min := le_max_right _ _ }

def withMaxLifetime (config : PoolConfig) (lifetime : Option ℕ) : PoolConfig :=
  { config with
    maxLifetime := lifetime.map fun lifetime => max lifetime (seconds 1)
    lifetime_min := by
      intro found hfound
      obtain ⟨_, _, rfl⟩ := Option.map_eq_some_iff.mp hfound
      exact le_max_right _ _ }

def capacity (config : PoolConfig) : ℕ :=
  config.maxConnections * config.maxInFlight

end PoolConfig

structure Settings where
  config : PoolConfig
  drainGrace : ℕ
  instantMax : ℕ

/-- `Pool::new`: a grace longer than the lifetime is cut. -/
def Settings.new (config : PoolConfig) (drainGrace instantMax : ℕ) :
    Settings where
  config := config
  drainGrace := config.maxLifetime.elim drainGrace (min drainGrace)
  instantMax := instantMax

def Settings.after (settings : Settings) (instant duration : ℕ) : Option ℕ :=
  instantAdd settings.instantMax instant duration

/-- `after(instant, duration).is_some_and(|t| now >= t)`. -/
def Settings.elapsed (settings : Settings) (instant duration now : ℕ) : Bool :=
  (settings.after instant duration).any fun due => decide (due ≤ now)

/-! ## State -/

structure Entry (C : Type) where
  id : ℕ
  conn : C
  openedAt : ℕ
  lastActive : ℕ
  inFlight : ℕ
  answered : Bool
  timeouts : ℕ
  drainingSince : Option ℕ

inductive CloseReason where
  | idle
  | lifetime
  | error
  deriving DecidableEq, Repr

inductive PoolCloseReason where
  | idle
  | lifetime
  | peerClosed
  | error
  | shutdown
  deriving DecidableEq, Repr

inductive Janitor where
  | running
  | asleep
  deriving DecidableEq, Repr

structure State (C : Type) where
  entries : List (Entry C)
  nextEntryId : ℕ
  nextEpoch : ℕ
  /-- The epoch of the connect in progress. -/
  connecting : Option ℕ
  lastConnectFailure : Option ℕ
  janitor : Option Janitor
  janitorDeadline : Option ℕ

def State.new {C : Type} : State C where
  entries := []
  nextEntryId := 0
  nextEpoch := 0
  connecting := none
  lastConnectFailure := none
  janitor := none
  janitorDeadline := none

structure Counters where
  connectionsOpen : ℕ
  connectionsOpened : ℕ
  closedIdle : ℕ
  closedLifetime : ℕ
  closedError : ℕ
  inFlight : ℕ
  queries : ℕ
  reusedQueries : ℕ
  queued : ℕ
  deriving DecidableEq, Repr

def Counters.zero : Counters := ⟨0, 0, 0, 0, 0, 0, 0, 0, 0⟩

def Counters.close (counters : Counters) : CloseReason → Counters
  | .idle => { counters with closedIdle := counters.closedIdle + 1 }
  | .lifetime =>
      { counters with closedLifetime := counters.closedLifetime + 1 }
  | .error => { counters with closedError := counters.closedError + 1 }

/-- What the transport says of the connections at one moment. -/
structure Probe (C : Type) where
  alive : C → Bool
  peerClosed : C → Bool

/-- What a section under the lock works on, and the connections it has
retired. -/
structure Locked (C : Type) where
  state : State C
  counters : Counters
  closing : List (C × PoolCloseReason)

variable {C : Type}

/-! ## Retiring -/

def reported (probe : Probe C) (entry : Entry C) :
    CloseReason → PoolCloseReason
  | .idle => .idle
  | .lifetime => .lifetime
  | .error => if probe.peerClosed entry.conn then .peerClosed else .error

/-- The part of `retire` after the entry has left the list. -/
def Locked.close (locked : Locked C) (probe : Probe C) (entry : Entry C)
    (reason : CloseReason) : Locked C where
  state := locked.state
  counters :=
    { locked.counters with
      connectionsOpen := locked.counters.connectionsOpen - 1 }.close reason
  closing := locked.closing ++ [(entry.conn, reported probe entry reason)]

def retire (probe : Probe C) (locked : Locked C)
    (idx : Fin locked.state.entries.length) (reason : CloseReason) : Locked C :=
  { locked with
    state :=
      { locked.state with
        entries := locked.state.entries.eraseIdx idx } }.close probe
    (locked.state.entries.get idx) reason

def Entry.aged (settings : Settings) (now : ℕ) (entry : Entry C) : Entry C :=
  if entry.drainingSince.isNone &&
      settings.config.maxLifetime.any
        (fun lifetime => settings.elapsed entry.openedAt lifetime now) then
    { entry with drainingSince := some now }
  else entry

def Entry.due (settings : Settings) (now : ℕ) (entry : Entry C) :
    Option CloseReason :=
  match entry.drainingSince with
  | some since =>
      if entry.inFlight = 0 ∨ settings.elapsed since settings.drainGrace now then
        some .lifetime
      else none
  | none =>
      if entry.inFlight = 0 ∧
          settings.elapsed entry.lastActive settings.config.idleTimeout now then
        some .idle
      else none

/-- One round of the loop of `sweep_locked`: the entry is retired, or it stays
and the loop goes on behind it. -/
def sweepEntry (settings : Settings) (probe : Probe C) (now : ℕ)
    (locked : Locked C) (entry : Entry C) : Locked C :=
  if probe.alive entry.conn then
    match (entry.aged settings now).due settings now with
    | some reason => locked.close probe (entry.aged settings now) reason
    | none =>
        { locked with
          state :=
            { locked.state with
              entries := locked.state.entries ++ [entry.aged settings now] } }
  else locked.close probe entry .error

def sweepLocked (settings : Settings) (probe : Probe C) (now : ℕ)
    (locked : Locked C) : Locked C :=
  locked.state.entries.foldl (sweepEntry settings probe now)
    { locked with state := { locked.state with entries := [] } }

/-- The earliest instant a connection needs attention. -/
def nextDeadlineLocked (settings : Settings) (state : State C) : Option ℕ :=
  let consider (next candidate : Option ℕ) : Option ℕ :=
    candidate.elim next fun candidate =>
      some (next.elim candidate fun next => min next candidate)
  state.entries.foldl
    (fun next entry =>
      let next := consider next <|
        match entry.drainingSince with
        | some since => settings.after since settings.drainGrace
        | none => settings.config.maxLifetime.bind
            fun lifetime => settings.after entry.openedAt lifetime
      if entry.inFlight = 0 then
        consider next
          (settings.after entry.lastActive settings.config.idleTimeout)
      else next)
    none

/-! ## Choosing -/

def scaleRetryBackoff : ℕ := seconds 1

def scaleSuppressed (settings : Settings) (state : State C) (now : ℕ) : Bool :=
  (state.lastConnectFailure.bind fun failed =>
    settings.after failed scaleRetryBackoff).any fun until_ =>
      decide (now < until_)

inductive Pick (count : ℕ) where
  | use (idx : Fin count) (scaleUp : Bool)
  | wait (start : Bool)
  | exhausted
  deriving DecidableEq, Repr

def Entry.live (entry : Entry C) : Bool := entry.drainingSince.isNone

def State.live (state : State C) : ℕ := state.entries.countP Entry.live

def Entry.usable (settings : Settings) (entry : Entry C) : Bool :=
  entry.live && decide (entry.inFlight < settings.config.maxInFlight)

def State.leastLoaded (state : State C) (qualifies : Entry C → Bool) :
    Option (Fin state.entries.length) :=
  ((List.finRange state.entries.length).filter
    fun idx => qualifies (state.entries.get idx)).argmin
      fun idx => (state.entries.get idx).inFlight

def pick (settings : Settings) (state : State C) (now : ℕ) (fresh : Bool) :
    Pick state.entries.length :=
  let threshold := max (settings.config.maxInFlight / 4) 1
  let connecting := state.connecting.isSome
  let room := decide (state.live < settings.config.maxConnections)
  let freshBest :=
    if fresh then
      state.leastLoaded fun entry => entry.usable settings && !entry.answered
    else none
  if fresh && freshBest.isNone && (connecting || room) then
    .wait !connecting
  else
    match freshBest.or (state.leastLoaded (Entry.usable settings)) with
    | some idx =>
        .use idx (decide (threshold ≤ (state.entries.get idx).inFlight) &&
          !connecting && room && !scaleSuppressed settings state now)
    | none =>
        if connecting then .wait false
        else if room then .wait true
        else .exhausted

/-! ## Connecting -/

def startConnectLocked (state : State C) : State C :=
  { state with
    nextEpoch := state.nextEpoch + 1
    connecting := some state.nextEpoch }

def ensureJanitorLocked (state : State C) : State C :=
  if state.janitor.isSome then state
  else { state with janitor := some .running, janitorDeadline := none }

def Entry.new (id : ℕ) (conn : C) (now : ℕ) : Entry C where
  id := id
  conn := conn
  openedAt := now
  lastActive := now
  inFlight := 0
  answered := false
  timeouts := 0
  drainingSince := none

/-- The part of `finish_connect` under the lock: the new state, whether the
janitor is notified, and the outcome to publish unless the task is not the one
in progress. -/
def finishConnect (epoch now : ℕ) (result : Except Error C) (state : State C)
    (counters : Counters) :
    State C × Counters × Bool × Option (Except Error Unit) :=
  if state.connecting = some epoch then
    match result with
    | .ok conn =>
        (ensureJanitorLocked
          { state with
            connecting := none
            nextEntryId := state.nextEntryId + 1
            entries :=
              state.entries ++ [Entry.new state.nextEntryId conn now] },
          { counters with
            connectionsOpen := counters.connectionsOpen + 1
            connectionsOpened := counters.connectionsOpened + 1 },
          true, some (.ok ()))
    | .error error =>
        ({ state with connecting := none, lastConnectFailure := some now },
          counters, false, some (.error error))
  else (state, counters, false, none)

/-! ## Leases -/

/-- `position(|e| e.id == entry_id)`. -/
def State.position (state : State C) (entryId : ℕ) :
    Option (Fin state.entries.length) :=
  (List.finRange state.entries.length).find?
    fun idx => (state.entries.get idx).id = entryId

def State.update (state : State C) (idx : Fin state.entries.length)
    (change : Entry C → Entry C) : State C :=
  { state with entries := state.entries.set idx (change (state.entries.get idx)) }

/-- `Lease::complete` before the lease is dropped. -/
def complete (entryId : ℕ) (state : State C) : State C :=
  match state.position entryId with
  | some idx => state.update idx
      fun entry => { entry with answered := true, timeouts := 0 }
  | none => state

def consecutiveTimeoutLimit : ℕ := 3

def noteTimeout (probe : Probe C) (entryId : ℕ) (locked : Locked C) :
    Bool × Locked C :=
  match locked.state.position entryId with
  | some idx =>
      if consecutiveTimeoutLimit ≤ (locked.state.entries.get idx).timeouts + 1 then
        (true, retire probe locked idx .error)
      else
        (false,
          { locked with
            state := locked.state.update idx
              fun entry => { entry with timeouts := entry.timeouts + 1 } })
  | none => (false, locked)

def markDead (probe : Probe C) (entryId : ℕ) (locked : Locked C) : Locked C :=
  match locked.state.position entryId with
  | some idx => retire probe locked idx .error
  | none => locked

/-- `Lease::drop`: the slot is given back, and the janitor is woken if the
connection will be idle before it looks again. -/
def releaseSlot (settings : Settings) (probe : Probe C) (entryId now : ℕ)
    (locked : Locked C) : Bool × Locked C :=
  let locked' :=
    { locked with
      counters :=
        { locked.counters with inFlight := locked.counters.inFlight - 1 } }
  match locked.state.position entryId with
  | some idx =>
      let entry := (locked.state.entries.get idx)
      let state := locked.state.update idx fun entry =>
        { entry with inFlight := entry.inFlight - 1, lastActive := now }
      if entry.inFlight - 1 = 0 then
        if entry.drainingSince.isSome then
          (false, retire probe { locked' with state := state }
            (idx.cast (by simp [state, State.update])) .lifetime)
        else
          let wake :=
            match settings.after now settings.config.idleTimeout,
              state.janitorDeadline with
            | some candidate, some deadline => decide (candidate < deadline)
            | some _, none => true
            | none, _ => false
          (wake, { locked' with state := state })
      else (false, { locked' with state := state })
  | none => (false, locked')

/-! ## Acquiring -/

/-- What one round of `acquire_inner` ends with. -/
inductive Placed (C : Type) where
  | lease (entryId : ℕ) (conn : C) (reused : Bool)
  | wait (epoch : ℕ)
  | closed

/-- The section of one round of `acquire_inner`, and the epoch of the connect
task it has started. -/
def acquireLocked (settings : Settings) (probe : Probe C) (now : ℕ)
    (fresh : Bool) (locked : Locked C) : Placed C × Option ℕ × Locked C :=
  let swept := sweepLocked settings probe now locked
  match pick settings swept.state now fresh with
  | .use idx scaleUp =>
      let entry := (swept.state.entries.get idx)
      let taken := swept.state.update idx
        fun entry => { entry with inFlight := entry.inFlight + 1 }
      let counters :=
        { swept.counters with
          inFlight := swept.counters.inFlight + 1
          queries := swept.counters.queries + 1
          reusedQueries :=
            swept.counters.reusedQueries + if entry.answered then 1 else 0 }
      (.lease entry.id entry.conn entry.answered,
        if scaleUp then some swept.state.nextEpoch else none,
        { swept with
          state := if scaleUp then startConnectLocked taken else taken
          counters := counters })
  | .wait start =>
      let state :=
        if start then startConnectLocked swept.state else swept.state
      (state.connecting.elim .closed .wait,
        if start then some swept.state.nextEpoch else none,
        { swept with state := state })
  | .exhausted => (.closed, none, swept)

/-- The section of one round of `run_janitor`. -/
def janitorLocked (settings : Settings) (probe : Probe C) (now : ℕ)
    (locked : Locked C) : Locked C :=
  let swept := sweepLocked settings probe now locked
  if swept.state.entries.isEmpty then
    { swept with
      state := { swept.state with janitor := none, janitorDeadline := none } }
  else
    { swept with
      state :=
        { swept.state with
          janitor := some .asleep
          janitorDeadline := nextDeadlineLocked settings swept.state } }

end ConnPool

end DnsLattice
