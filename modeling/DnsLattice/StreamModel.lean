import DnsLattice.MessageWire
import DnsLattice.PendingTable

/-!
# Queries on a stream connection

Callers share a connection with its reader and its writer.  Each locked
section of `submit`, `dispatch`, `fail` and the drop of a guard is one step;
what a task does between two sections (drawing a serial number, decoding a
frame, sending a result into a channel) is a step of its own, so that the
tasks interleave as they do in the source.

The log records, newest first, what happened to the ids.  No step reads it.
-/

namespace DnsLattice

namespace StreamConn

structure Failure where
  error : Error
  connectionLevel : Bool
  deriving DecidableEq, Repr

def Failure.closed (reason : String) : Failure :=
  ⟨.transport reason, true⟩

def Failure.terminal (error : Error) : Failure := ⟨error, false⟩

/-- The serial number of a query, and the channel to its caller: the number
of the query itself. -/
structure Waiter where
  serial : ℕ
  tx : ℕ
  deriving DecidableEq, Repr

structure ConnState where
  table : PendingTable Waiter
  closed : Bool
  slack : ℕ
  slackCap : ℕ

def unsolicitedLimit : ℕ := 16

/-- The largest allowance, in a `u32`. -/
def slackCap (maxInFlight : ℕ) : ℕ :=
  min (unsolicitedLimit + maxInFlight % 2 ^ 32) (2 ^ 32 - 1)

/-- The state made by `spawn`. -/
def ConnState.spawn (maxInFlight readTimeout : ℕ) (start : UInt16) :
    ConnState where
  table := .withStart maxInFlight readTimeout start
  closed := false
  slack := unsolicitedLimit
  slackCap := StreamConn.slackCap maxInFlight

/-! ## Locked sections -/

/-- How the section of `submit` ends; `broken` is a query whose frame the
queue of the writer has not taken. -/
inductive Submission where
  | accepted (id : UInt16)
  | refused (failure : Failure)
  | broken
  deriving DecidableEq, Repr

def connectionClosed : Failure := .closed "upstream connection is closed"

def noFreeSlot : Failure :=
  .terminal (.transport "upstream connection has no free query slot")

def submitLocked (now : ℕ) (waiter : Waiter) (queued : Bool)
    (state : ConnState) : Run Error (Submission × ConnState) :=
  if state.closed then .ok (.refused connectionClosed, state)
  else do
    match ← state.table.register waiter now with
    | (.error _, table) =>
        return (.refused noFreeSlot, { state with table := table })
    | (.ok id, table) =>
        if queued then return (.accepted id, { state with table := table })
        else return (.broken, { state with table := (table.take id).2 })

def failLocked (state : ConnState) : List Waiter × ConnState :=
  if state.closed then ([], state)
  else
    (state.table.drainPending.1,
      { state with closed := true, table := state.table.drainPending.2 })

/-- What the section of `dispatch` found; `flooded` is an unsolicited frame
without an allowance left. -/
inductive Dispatched where
  | pending (waiter : Waiter)
  | orphaned
  | unknown
  | flooded
  deriving DecidableEq, Repr

def dispatchLocked (id : UInt16) (state : ConnState) :
    Dispatched × ConnState :=
  match state.table.take id with
  | (.pending waiter, table) =>
      (.pending waiter,
        { state with table := table, slack := max state.slack unsolicitedLimit })
  | (.orphaned, table) => (.orphaned, { state with table := table })
  | (.unknown, table) =>
      if state.slack = 0 then (.flooded, { state with table := table })
      else (.unknown, { state with table := table, slack := state.slack - 1 })

def guardLocked (instantMax : ℕ) (id : UInt16) (serial now : ℕ)
    (state : ConnState) : Option Waiter × ConnState :=
  match state.table.orphanIf instantMax id now
      fun waiter => decide (waiter.serial = serial) with
  | (some waiter, table) =>
      (some waiter,
        { state with
          table := table
          slack := min (min (state.slack + 1) (2 ^ 32 - 1)) state.slackCap })
  | (none, table) => (none, { state with table := table })

/-! ## The connection among its tasks -/

/-- Where a query stands: not made, with a serial number, before the failure
of a connection which took no frame, turned away, waiting for its result with
the guard armed, without its receiver but with the guard still armed, or
without its guard. -/
inductive QueryPhase where
  | unopened
  | starting
  | broken
  | refused (failure : Failure)
  | waiting (id : UInt16)
  | abandoned (id : UInt16)
  | settled
  deriving DecidableEq, Repr

structure Query where
  serial : ℕ
  phase : QueryPhase
  /-- What has been sent to the caller while it had its receiver. -/
  inbox : List (Except Failure Message)

/-- Why a connection ends: by the rule on unsolicited frames, by a frame which
does not decode, by a writer which takes no frame, or from outside. -/
inductive Cause where
  | unsolicited
  | undecodable
  | unwritable
  | lost (failure : Failure)
  deriving DecidableEq, Repr

def Cause.failure : Cause → Failure
  | .unsolicited => .closed "upstream sent too many unsolicited responses"
  | .undecodable => .closed "upstream sent an undecodable response"
  | .unwritable => .closed "upstream connection cannot take more writes"
  | .lost failure => failure

inductive Reader where
  | reading
  | decoding (waiter : Waiter) (frame : List UInt8)
  | failing (cause : Cause)
  | stopped
  deriving DecidableEq, Repr

/-- Entries of the log. -/
inductive Event where
  | assigned (id : UInt16) (query : ℕ)
  | cancelled (query : ℕ)
  /-- A frame has taken a waiter from the table. -/
  | matched (id : UInt16) (frame : List UInt8) (query : ℕ)
  /-- A frame has found no waiter. -/
  | stray (id : UInt16)
  | delivered (frame : List UInt8) (query : ℕ)
  /-- The guard of a query has made a tombstone of the slot of `owner`. -/
  | orphaned (id : UInt16) (owner guard : ℕ)
  | closed (cause : Cause)
  deriving DecidableEq, Repr

structure Conn where
  clock : ℕ
  state : ConnState
  nextSerial : ℕ
  /-- The queries made. -/
  opened : ℕ
  queries : ℕ → Query
  reader : Reader
  /-- The waiters drained by `fail` which have not been told yet. -/
  owed : List (Waiter × Failure)
  log : List Event

def wireId : List UInt8 → Option UInt16
  | high :: low :: _ => some (UInt16.ofNat (networkValue [high, low]))
  | _ => none

namespace Conn

def spawn (maxInFlight readTimeout : ℕ) (start : UInt16) (clock : ℕ) :
    Conn where
  clock := clock
  state := .spawn maxInFlight readTimeout start
  nextSerial := 0
  opened := 0
  queries _ := ⟨0, .unopened, []⟩
  reader := .reading
  owed := []
  log := []

def setPhase (conn : Conn) (query : ℕ) (phase : QueryPhase) : Conn :=
  { conn with
    queries := Function.update conn.queries query
      { conn.queries query with phase := phase } }

theorem setPhase_queries_self (conn : Conn) (query : ℕ) (phase : QueryPhase) :
    (conn.setPhase query phase).queries query =
      { conn.queries query with phase := phase } :=
  Function.update_self ..

theorem setPhase_queries_of_ne (conn : Conn) {query other : ℕ}
    (phase : QueryPhase) (hne : other ≠ query) :
    (conn.setPhase query phase).queries other = conn.queries other :=
  Function.update_of_ne hne _ _

def draw (conn : Conn) : Conn :=
  { conn with
    nextSerial := conn.nextSerial + 1
    opened := conn.opened + 1
    queries := Function.update conn.queries conn.opened
      ⟨conn.nextSerial, .starting, []⟩ }

theorem draw_queries_self (conn : Conn) :
    conn.draw.queries conn.opened = ⟨conn.nextSerial, .starting, []⟩ :=
  Function.update_self ..

theorem draw_queries_of_ne (conn : Conn) {other : ℕ}
    (hne : other ≠ conn.opened) :
    conn.draw.queries other = conn.queries other :=
  Function.update_of_ne hne _ _

/-- The connection after the section of `submit`. -/
def submitted (conn : Conn) (query : ℕ) (outcome : Submission)
    (state : ConnState) : Conn :=
  match outcome with
  | .accepted id =>
      { conn.setPhase query (.waiting id) with
        state := state
        log := .assigned id query :: conn.log }
  | .refused failure =>
      { conn.setPhase query (.refused failure) with state := state }
  | .broken => { conn.setPhase query .broken with state := state }

def fail (conn : Conn) (cause : Cause) : Conn :=
  if conn.state.closed then conn
  else
    { conn with
      state := (failLocked conn.state).2
      owed := conn.owed ++ (failLocked conn.state).1.map fun waiter =>
        (waiter, cause.failure)
      log := .closed cause :: conn.log }

/-- The caller has its receiver. -/
def listening (conn : Conn) (query : ℕ) : Bool :=
  match (conn.queries query).phase with
  | .waiting _ => true
  | _ => false

/-- `tx.send`. -/
def send (conn : Conn) (query : ℕ) (result : Except Failure Message) : Conn :=
  { conn with
    queries :=
      if conn.listening query then
        Function.update conn.queries query
          { conn.queries query with
            inbox := (conn.queries query).inbox ++ [result] }
      else conn.queries }

/-- `dispatch` up to the end of its section. -/
def dispatch (conn : Conn) (frame : List UInt8) : Conn :=
  match wireId frame with
  | none => { conn with reader := .failing .undecodable }
  | some id =>
      match dispatchLocked id conn.state with
      | (.pending waiter, state) =>
          { conn with
            state := state
            reader := .decoding waiter frame
            log := .matched id frame waiter.tx :: conn.log }
      | (.orphaned, state) =>
          { conn with state := state, log := .stray id :: conn.log }
      | (.unknown, state) =>
          { conn with state := state, log := .stray id :: conn.log }
      | (.flooded, state) =>
          { conn with
            state := state
            reader := .failing .unsolicited
            log := .stray id :: conn.log }

def dropGuard (instantMax : ℕ) (conn : Conn) (query : ℕ) (id : UInt16) : Conn :=
  match guardLocked instantMax id (conn.queries query).serial conn.clock
      conn.state with
  | (some waiter, state) =>
      { conn.setPhase query .settled with
        state := state
        log := .orphaned id waiter.tx query :: conn.log }
  | (none, state) => { conn.setPhase query .settled with state := state }

end Conn

inductive Step (instantMax : ℕ) : Conn → Conn → Prop
  | tick {conn : Conn} {clock : ℕ} (hle : conn.clock ≤ clock) :
      Step instantMax conn { conn with clock := clock }
  | draw (conn : Conn) : Step instantMax conn conn.draw
  | submit {conn : Conn} {query : ℕ} {outcome : Submission}
      {state : ConnState} (queued : Bool)
      (hphase : (conn.queries query).phase = .starting)
      (hsubmit : submitLocked conn.clock ⟨(conn.queries query).serial, query⟩
        queued conn.state = .ok (outcome, state)) :
      Step instantMax conn (conn.submitted query outcome state)
  | breakOff {conn : Conn} {query : ℕ}
      (hphase : (conn.queries query).phase = .broken) :
      Step instantMax conn ((conn.fail .unwritable).setPhase query
        (.refused Cause.unwritable.failure))
  | dispatch {conn : Conn} (frame : List UInt8)
      (hreader : conn.reader = .reading) :
      Step instantMax conn (conn.dispatch frame)
  | decoded {conn : Conn} {waiter : Waiter} {frame : List UInt8}
      {message : Message} (hreader : conn.reader = .decoding waiter frame)
      (hdecode : Message.decode frame = .ok message) :
      Step instantMax conn
        { conn.send waiter.tx (.ok message) with
          reader := .reading
          log := if conn.listening waiter.tx then
            .delivered frame waiter.tx :: conn.log else conn.log }
  | garbled {conn : Conn} {waiter : Waiter} {frame : List UInt8}
      {error : Error} (hreader : conn.reader = .decoding waiter frame)
      (hdecode : Message.decode frame = .err error) :
      Step instantMax conn
        { conn.send waiter.tx (.error (.terminal error)) with
          reader := .failing .undecodable }
  | readerFails {conn : Conn} {cause : Cause}
      (hreader : conn.reader = .failing cause) :
      Step instantMax conn { conn.fail cause with reader := .stopped }
  /-- The peer closes the stream, reading or writing fails, or the pool shuts
  the connection down. -/
  | lose (conn : Conn) (failure : Failure) :
      Step instantMax conn (conn.fail (.lost failure))
  | notify {conn : Conn} {front back : List (Waiter × Failure)}
      {waiter : Waiter} {failure : Failure}
      (howed : conn.owed = front ++ (waiter, failure) :: back) :
      Step instantMax conn
        { conn.send waiter.tx (.error failure) with owed := front ++ back }
  | read {conn : Conn} {query : ℕ} {id : UInt16}
      (hphase : (conn.queries query).phase = .waiting id)
      (hinbox : (conn.queries query).inbox ≠ []) :
      Step instantMax conn (conn.setPhase query .settled)
  /-- The wait times out, or the caller is gone. -/
  | abandon {conn : Conn} {query : ℕ} {id : UInt16}
      (hphase : (conn.queries query).phase = .waiting id) :
      Step instantMax conn
        { conn.setPhase query (.abandoned id) with
          log := .cancelled query :: conn.log }
  | dropGuard {conn : Conn} {query : ℕ} {id : UInt16}
      (hphase : (conn.queries query).phase = .abandoned id) :
      Step instantMax conn (conn.dropGuard instantMax query id)

/-- The connections a run from `spawn` leads to. -/
def Reaches (instantMax maxInFlight readTimeout : ℕ) (conn : Conn) : Prop :=
  ∃ start clock, Relation.ReflTransGen (Step instantMax)
    (.spawn maxInFlight readTimeout start clock) conn

end StreamConn

end DnsLattice
