import DnsLattice.ResponseValidation
import DnsLattice.StreamOutcomes

/-!
# Calls of a stream pool

A call of `query` makes an attempt, and a second one on a fresh connection when
the first has failed with its connection.  The steps of a call go together with
the steps of the pool and of the connections which they are made of.  What an
attempt tells the pool about its connection on the way (`mark_dead`,
`note_timeout`, `complete`) is among the steps of the pool, which may happen at
any time while the lease is held.

A call keeps a record of its submissions.  No step reads how they have ended,
or how many connections the pool had when their leases were granted.
-/

namespace DnsLattice

namespace StreamPool

open ConnPool (Settings Probe sweepLocked seconds)
open StreamConn (Conn Failure)

/-! ## Calls -/

/-- How a submitted query ended for its caller.  A failure comes with what
`has_answered` said of the connection. -/
inductive Ending where
  | answered
  | timedOut
  | mismatched (error : Error)
  | failed (failure : Failure) (answered : Bool)
  deriving DecidableEq, Repr

/-- A query on the connection of a lease, and the number of connections the
pool had which were not draining when the lease was granted. -/
structure Sent where
  lease : ConnPool.Lease Unit
  live : ℕ
  query : ℕ
  ended : Option Ending

/-- Where a call stands: in the pool, with a lease, with its query on the
connection, with a message or a failure from there, before and after the lease
is dropped, or over.  A failed attempt says whether it may be retried. -/
inductive Phase where
  | acquiring
  | leased (lease : ConnPool.Lease Unit) (live : ℕ)
  | submitted
  | received (message : Message)
  | failing (failure : Failure)
  | returning (result : Except (Error × Bool) Message)
  | returned (result : Except (Error × Bool) Message)
  | done (result : Except Error Message)

structure Call where
  query : Message
  deadline : ℕ
  fresh : Bool
  phase : Phase
  /-- The query of the attempt in progress. -/
  current : Option Sent
  earlier : List Sent
  /-- When the second attempt was decided on. -/
  retriedAt : Option ℕ

namespace Call

def new (query : Message) (deadline : ℕ) : Call where
  query := query
  deadline := deadline
  fresh := false
  phase := .acquiring
  current := none
  earlier := []
  retriedAt := none

/-- All submissions, in their order. -/
def sent (call : Call) : List Sent := call.earlier ++ call.current.toList

def ends (call : Call) (ending : Ending)
    (result : Except (Error × Bool) Message) : Call :=
  { call with
    phase := .returning result
    current := call.current.map
      fun sent => { sent with ended := some ending } }

/-- `connection_failed`. -/
def fail (call : Call) (failure : Failure) (answered : Bool) : Call :=
  call.ends (.failed failure answered)
    (.error (failure.error, failure.connectionLevel && answered &&
      decide (call.query.header.opcode = .query)))

def receive (call : Call) (result : Except Failure Message) : Call :=
  { call with
    phase :=
      match result with
      | .ok message => .received message
      | .error failure => .failing failure }

def validate (call : Call) (message : Message) : Call :=
  match validateResponse call.query message .ignored with
  | .error error => call.ends (.mismatched error) (.error (error, false))
  | .ok () =>
      call.ends .answered (.ok
        { message with
          header := { message.header with id := call.query.header.id } })

/-- The loop of `query` after an attempt. -/
def proceed (call : Call) (now : ℕ) : Except (Error × Bool) Message → Call
  | .ok answer => { call with phase := .done (.ok answer) }
  | .error (error, retry) =>
      if retry ∧ call.fresh = false ∧ now < call.deadline then
        { call with
          fresh := true
          phase := .acquiring
          current := none
          earlier := call.sent
          retriedAt := some now }
      else { call with phase := .done (.error error) }

end Call

/-- A stream pool with its calls.  `answered` are the flags of its
connections. -/
structure Client where
  base : System
  answered : ℕ → Bool
  calls : List Call

namespace Client

def new (settings : Settings) (readTimeout clock : ℕ) (start : ℕ → UInt16) :
    Client where
  base := .new settings readTimeout clock start
  answered _ := false
  calls := []

/-- The longest one call may take; a budget which no instant can hold is a
year. -/
def deadline (settings : Settings) (callBudget : ℕ) (client : Client) : ℕ :=
  (settings.after client.base.pool.clock callBudget).getD
    (client.base.pool.clock + seconds (60 * 60 * 24 * 365))

def conn (client : Client) (sent : Sent) : Conn :=
  client.base.conns sent.lease.entryId

def setConn (client : Client) (entryId : ℕ) (after : Conn) : Client :=
  { client with
    base :=
      { client.base with
        conns := Function.update client.base.conns entryId after } }

end Client

/-- The reader has decoded a frame for a query, which sets the flag of the
connection. -/
def answers (before after : Conn) : Bool :=
  match before.reader, after.reader with
  | .decoding _ _, .reading => true
  | _, _ => false

/-- What the tasks of a connection and the pool end it with: the peer or an
error of the stream, or a write which takes too long. -/
def Lost (failure : Failure) : Prop :=
  (∃ reason, failure = .closed reason) ∨ failure = .terminal .timeout

inductive ClientStep (settings : Settings) (callBudget : ℕ) :
    Client → Client → Prop
  | query {client : Client} (query : Message) :
      ClientStep settings callBudget client
        { client with
          calls := .new query (client.deadline settings callBudget) ::
            client.calls }
  | pool {client : Client} {pool : ConnPool.System Unit}
      (hstep : ConnPool.Step settings client.base.pool pool)
      (hheld : held pool.leases = held client.base.pool.leases) :
      ClientStep settings callBudget client
        { client with base := { client.base with pool := pool } }
  /-- A step of a connection by which no caller gives up its receiver. -/
  | conn {client : Client} {entryId : ℕ} {after : Conn}
      (hstep : StreamConn.Step settings.instantMax (client.base.conns entryId)
        after)
      (hopened : after.opened = (client.base.conns entryId).opened)
      (hwaiting : ∀ query id,
        ((client.base.conns entryId).queries query).phase = .waiting id →
          (after.queries query).phase = .waiting id)
      (hlost : ∀ failure, .closed (.lost failure) ∈ after.log →
        Lost failure) :
      ClientStep settings callBudget client
        { client.setConn entryId after with
          answered := Function.update client.answered entryId
            (client.answered entryId ||
              answers (client.base.conns entryId) after) }
  | acquire {client : Client} {front back : List Call} {call : Call}
      {before after : List ConnPool.Call} {caller : ConnPool.Call} {now : ℕ}
      {lease : ConnPool.Lease Unit} (probe : Probe Unit)
      (hcalls : client.calls = front ++ call :: back)
      (hphase : call.phase = .acquiring)
      (hcallers : client.base.pool.calls = before ++ caller :: after)
      (hreading : caller.phase = .reading now)
      (hfresh : caller.fresh = call.fresh)
      (hdeadline : caller.deadline = call.deadline)
      (hlease : (client.base.pool.round settings probe before after caller
        now).leases = lease :: client.base.pool.leases) :
      ClientStep settings callBudget client
        { client with
          base :=
            { client.base with
              pool := client.base.pool.round settings probe before after caller
                now
              attempts := ⟨lease, none⟩ :: client.base.attempts }
          calls := front ++
            { call with
              phase := .leased lease
                (sweepLocked settings probe now
                  client.base.pool.locked).state.live } :: back }
  /-- The pool has turned the caller away, or the caller is gone. -/
  | turnAway {client : Client} {front back : List Call} {call : Call}
      (error : Error) (hcalls : client.calls = front ++ call :: back)
      (hphase : call.phase = .acquiring) :
      ClientStep settings callBudget client
        { client with
          calls := front ++
            { call with phase := .returned (.error (error, false)) } :: back }
  | submit {client : Client} {front back : List Call} {call : Call}
      {lease : ConnPool.Lease Unit} {live : ℕ} {before after : List Attempt}
      (hcalls : client.calls = front ++ call :: back)
      (hphase : call.phase = .leased lease live)
      (hattempts : client.base.attempts = before ++ ⟨lease, none⟩ :: after) :
      ClientStep settings callBudget client
        { client with
          base :=
            { client.base with
              conns := Function.update client.base.conns lease.entryId
                (client.base.conns lease.entryId).draw
              attempts := before ++
                ⟨lease, some (client.base.conns lease.entryId).opened⟩ ::
                  after }
          calls := front ++
            { call with
              phase := .submitted
              current := some ⟨lease, live,
                (client.base.conns lease.entryId).opened, none⟩ } :: back }
  | refuse {client : Client} {front back : List Call} {call : Call}
      {sent : Sent} {failure : Failure}
      (hcalls : client.calls = front ++ call :: back)
      (hphase : call.phase = .submitted) (hcurrent : call.current = some sent)
      (hrefused : ((client.conn sent).queries sent.query).phase =
        .refused failure) :
      ClientStep settings callBudget client
        { client with
          calls := front ++ { call with phase := .failing failure } :: back }
  | read {client : Client} {front back : List Call} {call : Call}
      {sent : Sent} {id : UInt16} {result : Except Failure Message}
      {rest : List (Except Failure Message)}
      (hcalls : client.calls = front ++ call :: back)
      (hphase : call.phase = .submitted) (hcurrent : call.current = some sent)
      (hwaiting : ((client.conn sent).queries sent.query).phase = .waiting id)
      (hinbox : ((client.conn sent).queries sent.query).inbox =
        result :: rest) :
      ClientStep settings callBudget client
        { client.setConn sent.lease.entryId
            ((client.conn sent).setPhase sent.query .settled) with
          calls := front ++ call.receive result :: back }
  /-- The wait times out, or the caller is gone. -/
  | abandon {client : Client} {front back : List Call} {call : Call}
      {sent : Sent} {id : UInt16}
      (hcalls : client.calls = front ++ call :: back)
      (hphase : call.phase = .submitted) (hcurrent : call.current = some sent)
      (hwaiting : ((client.conn sent).queries sent.query).phase =
        .waiting id) :
      ClientStep settings callBudget client
        { client.setConn sent.lease.entryId
            { (client.conn sent).setPhase sent.query (.abandoned id) with
              log := .cancelled sent.query :: (client.conn sent).log } with
          calls := front ++
            call.ends .timedOut (.error (.timeout, false)) :: back }
  | fail {client : Client} {front back : List Call} {call : Call}
      {sent : Sent} {failure : Failure}
      (hcalls : client.calls = front ++ call :: back)
      (hphase : call.phase = .failing failure)
      (hcurrent : call.current = some sent) :
      ClientStep settings callBudget client
        { client with
          calls := front ++
            call.fail failure (client.answered sent.lease.entryId) :: back }
  | validate {client : Client} {front back : List Call} {call : Call}
      {message : Message} (hcalls : client.calls = front ++ call :: back)
      (hphase : call.phase = .received message) :
      ClientStep settings callBudget client
        { client with calls := front ++ call.validate message :: back }
  | finish {client : Client} {front back : List Call} {call : Call}
      {sent : Sent} {result : Except (Error × Bool) Message}
      {attempted later : List Attempt} {before after : List (ConnPool.Lease Unit)}
      (hcalls : client.calls = front ++ call :: back)
      (hphase : call.phase = .returning result)
      (hcurrent : call.current = some sent)
      (hover : ((client.conn sent).queries sent.query).phase.over = true)
      (hattempts : client.base.attempts =
        attempted ++ ⟨sent.lease, some sent.query⟩ :: later)
      (hleases : client.base.pool.leases = before ++ sent.lease :: after) :
      ClientStep settings callBudget client
        { client with
          base :=
            { client.base with
              pool :=
                { client.base.pool with
                  leases := before ++
                    { sent.lease with
                      phase := .dropping client.base.pool.clock } :: after }
              attempts := attempted ++ later }
          calls := front ++ { call with phase := .returned result } :: back }
  | proceed {client : Client} {front back : List Call} {call : Call}
      {result : Except (Error × Bool) Message}
      (hcalls : client.calls = front ++ call :: back)
      (hphase : call.phase = .returned result) :
      ClientStep settings callBudget client
        { client with
          calls := front ++ call.proceed client.base.pool.clock result :: back }

def ClientReaches (settings : Settings) (readTimeout callBudget : ℕ)
    (client : Client) : Prop :=
  ∃ clock start, Relation.ReflTransGen (ClientStep settings callBudget)
    (.new settings readTimeout clock start) client

end StreamPool

end DnsLattice
