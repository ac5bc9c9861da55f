import DnsLattice.ConnPoolRuns
import DnsLattice.Transitions
import Mathlib.Data.List.Perm.Basic

/-!
# The books of the connection pool

Every section which takes an entry out of the list hands its connection to
`Locked.close`, once; the only section which adds an entry is the end of a
connect.  The counters and the reports therefore balance against the list of
the connections opened so far, in every state in which the lock is free.
-/

namespace DnsLattice

namespace ConnPool

variable {C : Type}

/-! ## Opening and dropping -/

/-- The connections a step has entered: those whose number had not been given
out before. -/
def opens (before after : System C) : List C :=
  (after.state.entries.filter
    fun entry => decide (before.state.nextEntryId ≤ entry.id)).map Entry.conn

/-- `Drop for Shared`: what has been reported when the pool is gone.  Whoever
still has a connection to report holds the pool alive. -/
def System.dropShared (system : System C) : List (C × PoolCloseReason) :=
  system.reports ++
    system.state.entries.map fun entry => (entry.conn, .shutdown)

/-! ## Counters -/

namespace Counters

variable (counters : Counters) (reason : CloseReason)

def closed : ℕ :=
  counters.closedIdle + counters.closedLifetime + counters.closedError

@[simp] theorem close_connectionsOpen :
    (counters.close reason).connectionsOpen = counters.connectionsOpen := by
  cases reason <;> rfl

@[simp] theorem close_connectionsOpened :
    (counters.close reason).connectionsOpened =
      counters.connectionsOpened := by
  cases reason <;> rfl

@[simp] theorem close_inFlight :
    (counters.close reason).inFlight = counters.inFlight := by
  cases reason <;> rfl

@[simp] theorem close_closed :
    (counters.close reason).closed = counters.closed + 1 := by
  cases reason <;> simp only [close, closed] <;> omega

end Counters

/-! ## Sections -/

/-- The books in the middle of a section.  Some entries are out of the list and
not yet treated. -/
structure Balanced (opened : List C) (reports : List (C × PoolCloseReason))
    (held : ℕ) (rest : List (Entry C)) (locked : Locked C) : Prop where
  conns : ((reports ++ locked.closing).map Prod.fst ++
    (locked.state.entries ++ rest).map Entry.conn).Perm opened
  numbered : locked.state.nextEntryId = opened.length
  gauge : locked.counters.connectionsOpen =
    (locked.state.entries ++ rest).length
  total : locked.counters.connectionsOpened = opened.length
  closed : locked.counters.closed = (reports ++ locked.closing).length
  inFlight : locked.counters.inFlight = held

namespace Balanced

variable {settings : Settings} {probe : Probe C} {now held : ℕ}
  {opened : List C} {reports : List (C × PoolCloseReason)}
  {rest : List (Entry C)} {locked : Locked C}

theorem close {entry : Entry C} {reason : CloseReason}
    (h : Balanced opened reports held (entry :: rest) locked) :
    Balanced opened reports held rest (locked.close probe entry reason) where
  conns := by
    refine List.Perm.trans ?_ h.conns
    simp only [Locked.close, List.map_append, List.map_cons, List.map_nil,
      List.append_assoc, List.singleton_append]
    exact (List.perm_middle.symm.append_left _).append_left _
  numbered := h.numbered
  gauge := by
    have hgauge := h.gauge
    simp only [Locked.close, Counters.close_connectionsOpen,
      List.length_append, List.length_cons] at hgauge ⊢
    omega
  total := by
    rw [Locked.close, Counters.close_connectionsOpened]
    exact h.total
  closed := by
    have hclosed := h.closed
    rw [Locked.close, Counters.close_closed]
    change locked.counters.closed + 1 = _
    simp only [List.length_append, List.length_cons, List.length_nil]
      at hclosed ⊢
    omega
  inFlight := by
    rw [Locked.close, Counters.close_inFlight]
    exact h.inFlight

/-- An entry which has been looked at goes back with its connection. -/
theorem keep {entry next : Entry C} (hconn : next.conn = entry.conn)
    (h : Balanced opened reports held (entry :: rest) locked) :
    Balanced opened reports held rest
      { locked with
        state :=
          { locked.state with entries := locked.state.entries ++ [next] } } where
  conns := by
    simpa [hconn] using h.conns
  numbered := h.numbered
  gauge := by
    simpa using h.gauge
  total := h.total
  closed := h.closed
  inFlight := h.inFlight

theorem sweepEntry {entry : Entry C}
    (h : Balanced opened reports held (entry :: rest) locked) :
    Balanced opened reports held rest
      (sweepEntry settings probe now locked entry) := by
  have hconn : (entry.aged settings now).conn = entry.conn := by
    rw [Entry.aged]
    split_ifs <;> rfl
  have haged : Balanced opened reports held
      (entry.aged settings now :: rest) locked :=
    ⟨by simpa [hconn] using h.conns, h.numbered, by simpa using h.gauge,
      h.total, h.closed, h.inFlight⟩
  rw [ConnPool.sweepEntry]
  by_cases halive : probe.alive entry.conn = true
  · rw [if_pos halive]
    cases (entry.aged settings now).due settings now with
    | none => exact h.keep hconn
    | some reason => exact haged.close
  · rw [if_neg halive]
    exact h.close

theorem foldl_sweepEntry {entries : List (Entry C)} :
    ∀ {locked : Locked C},
      Balanced opened reports held (entries ++ rest) locked →
        Balanced opened reports held rest
          (entries.foldl (ConnPool.sweepEntry settings probe now) locked) := by
  induction entries with
  | nil => exact id
  | cons entry others ih => exact fun h => ih h.sweepEntry

/-- The sweep takes all entries out of the list before it treats them. -/
theorem emptied (h : Balanced opened reports held rest locked) :
    Balanced opened reports held (locked.state.entries ++ rest)
      { locked with state := { locked.state with entries := [] } } :=
  ⟨h.conns, h.numbered, h.gauge, h.total, h.closed, h.inFlight⟩

theorem sweep (h : Balanced opened reports held [] locked) :
    Balanced opened reports held []
      (sweepLocked settings probe now locked) :=
  foldl_sweepEntry h.emptied

theorem retire (h : Balanced opened reports held [] locked)
    (idx : Fin locked.state.entries.length) (reason : CloseReason) :
    Balanced opened reports held [] (retire probe locked idx reason) := by
  have hperm : (locked.state.entries.eraseIdx idx ++
      [(locked.state.entries.get idx)]).Perm locked.state.entries :=
    (List.perm_append_singleton _ _).trans
      (List.getElem_cons_eraseIdx_perm idx.2)
  refine close ⟨?_, h.numbered, ?_, h.total, h.closed, h.inFlight⟩
  · refine List.Perm.trans ?_ h.conns
    refine List.Perm.append_left _ ?_
    rw [List.append_nil]
    exact hperm.map _
  · rw [hperm.length_eq]
    simpa using h.gauge

theorem update (h : Balanced opened reports held [] locked)
    {idx : Fin locked.state.entries.length} {change : Entry C → Entry C}
    (hconn : (change (locked.state.entries.get idx)).conn =
      (locked.state.entries.get idx).conn) :
    Balanced opened reports held []
      { locked with state := locked.state.update idx change } where
  conns := by
    rw [List.append_nil, map_update hconn]
    simpa using h.conns
  numbered := h.numbered
  gauge := by
    simpa [State.update] using h.gauge
  total := h.total
  closed := h.closed
  inFlight := h.inFlight

theorem complete (h : Balanced opened reports held [] locked) (entryId : ℕ) :
    Balanced opened reports held []
      { locked with state := complete entryId locked.state } := by
  rw [ConnPool.complete]
  cases locked.state.position entryId with
  | none => exact h
  | some idx => exact h.update rfl

theorem noteTimeout (h : Balanced opened reports held [] locked) (entryId : ℕ) :
    Balanced opened reports held []
      (noteTimeout probe entryId locked).2 := by
  rw [ConnPool.noteTimeout]
  cases locked.state.position entryId with
  | none => exact h
  | some idx =>
    dsimp only
    split_ifs
    · exact h.retire idx .error
    · exact h.update rfl

theorem markDead (h : Balanced opened reports held [] locked) (entryId : ℕ) :
    Balanced opened reports held [] (markDead probe entryId locked) := by
  rw [ConnPool.markDead]
  cases locked.state.position entryId with
  | none => exact h
  | some idx => exact h.retire idx .error

theorem releaseSlot (h : Balanced opened reports held [] locked) (entryId : ℕ) :
    Balanced opened reports (held - 1) []
      (releaseSlot settings probe entryId now locked).2 := by
  let released : Locked C :=
    { locked with
      counters :=
        { locked.counters with inFlight := locked.counters.inFlight - 1 } }
  have hreleased : Balanced opened reports (held - 1) [] released :=
    ⟨h.conns, h.numbered, h.gauge, h.total, h.closed,
      congrArg (· - 1) h.inFlight⟩
  rw [ConnPool.releaseSlot]
  extract_lets
  cases locked.state.position entryId with
  | none => exact hreleased
  | some idx =>
    have hupdated := @update _ (held - 1) opened reports released hreleased idx
      (fun entry =>
        { entry with inFlight := entry.inFlight - 1, lastActive := now }) rfl
    dsimp only
    split_ifs
    · exact hupdated.retire _ _
    · exact hupdated
    · exact hupdated

theorem startConnect (h : Balanced opened reports held rest locked) :
    Balanced opened reports held rest locked.startConnect :=
  ⟨h.conns, h.numbered, h.gauge, h.total, h.closed, h.inFlight⟩

theorem take (h : Balanced opened reports held [] locked)
    (idx : Fin locked.state.entries.length) :
    Balanced opened reports (held + 1) [] (locked.take idx) := by
  have htaken := @update _ held opened reports locked h idx
    (fun entry => { entry with inFlight := entry.inFlight + 1 }) rfl
  exact ⟨htaken.conns, htaken.numbered, htaken.gauge, htaken.total,
    htaken.closed, congrArg (· + 1) htaken.inFlight⟩

theorem janitor (h : Balanced opened reports held [] locked) :
    Balanced opened reports held []
      (janitorLocked settings probe now locked) := by
  have hswept := @sweep _ settings probe now held opened reports locked h
  rw [janitorLocked]
  dsimp only
  split_ifs
  · exact ⟨hswept.conns, hswept.numbered, hswept.gauge, hswept.total,
      hswept.closed, hswept.inFlight⟩
  · exact ⟨hswept.conns, hswept.numbered, hswept.gauge, hswept.total,
      hswept.closed, hswept.inFlight⟩

theorem settle (h : Balanced opened reports held [] locked) :
    Balanced opened (reports ++ locked.closing) held []
      ⟨locked.state, locked.counters, []⟩ where
  conns := by simpa using h.conns
  numbered := h.numbered
  gauge := h.gauge
  total := h.total
  closed := by simpa using h.closed
  inFlight := h.inFlight

end Balanced

/-! ## Runs -/

def System.Balanced (opened : List C) (system : System C) : Prop :=
  ConnPool.Balanced opened system.reports
    (system.leases.countP Lease.outstanding) [] system.locked

theorem balanced_new (settings : Settings) (clock : ℕ) :
    (System.new settings clock : System C).Balanced [] :=
  ⟨.refl _, rfl, rfl, rfl, rfl, rfl⟩

section Steps

variable {settings : Settings} {opened : List C} {system after : System C}

theorem outstanding_append (front back : List (Lease C)) (lease : Lease C) :
    (front ++ lease :: back).countP Lease.outstanding =
      (front ++ back).countP Lease.outstanding + lease.outstanding.toNat := by
  rw [List.countP_append, List.countP_append, List.countP_cons]
  cases lease.outstanding with
  | true => exact (Nat.add_assoc _ _ _).symm
  | false => rfl

theorem System.Balanced.congr (h : system.Balanced opened)
    (hentries : after.state.entries = system.state.entries)
    (hnext : after.state.nextEntryId = system.state.nextEntryId)
    (hcounters : after.counters = system.counters)
    (hreports : after.reports = system.reports)
    (hleases : after.leases.countP Lease.outstanding =
      system.leases.countP Lease.outstanding) :
    after.Balanced opened := by
  obtain ⟨hconns, hnumbered, hgauge, htotal, hclosed, hinFlight⟩ := h
  refine ⟨?_, hnext.trans hnumbered, ?_, ?_, ?_, ?_⟩
  · simpa [System.locked, hreports, hentries] using hconns
  · simpa [System.locked, hcounters, hentries] using hgauge
  · simpa [System.locked, hcounters] using htotal
  · simpa [System.locked, hcounters, hreports] using hclosed
  · simpa [System.locked, hcounters, hleases] using hinFlight

theorem System.Balanced.round (h : system.Balanced opened) {probe : Probe C}
    {front back : List Call} {call : Call} {now : ℕ} :
    (system.round settings probe front back call now).Balanced opened := by
  have hswept := @ConnPool.Balanced.sweep _ settings probe now _ opened
    system.reports system.locked h
  have hround := acquireLocked_spec settings probe now call.fresh system.locked
  rw [System.round]
  generalize acquireLocked settings probe now call.fresh system.locked =
    result at hround
  cases hround with
  | @lease idx husable hfresh =>
    rw [System.Balanced, List.countP_cons_of_pos rfl]
    exact (hswept.take idx).settle
  | @scaleUp idx husable hfresh hconnecting hroom =>
    rw [System.Balanced, List.countP_cons_of_pos rfl]
    exact (hswept.take idx).startConnect.settle
  | start hconnecting hroom =>
    have hsettled := hswept.startConnect.settle
    exact ⟨hsettled.conns, hsettled.numbered, hsettled.gauge, hsettled.total,
      hsettled.closed, hsettled.inFlight⟩
  | join hconnecting =>
    have hsettled := hswept.settle
    exact ⟨hsettled.conns, hsettled.numbered, hsettled.gauge, hsettled.total,
      hsettled.closed, hsettled.inFlight⟩
  | exhausted hexhausted => exact hswept.settle

theorem Balanced.add {reports : List (C × PoolCloseReason)} {held : ℕ}
    {locked : Locked C} (h : Balanced opened reports held [] locked) (conn : C)
    (now : ℕ) :
    Balanced (opened ++ [conn]) reports held []
      { locked with
        state :=
          { locked.state with
            connecting := none
            nextEntryId := locked.state.nextEntryId + 1
            entries := locked.state.entries ++
              [Entry.new locked.state.nextEntryId conn now] }
        counters :=
          { locked.counters with
            connectionsOpen := locked.counters.connectionsOpen + 1
            connectionsOpened := locked.counters.connectionsOpened + 1 } } where
  conns := by
    have hconns := h.conns.append_right [conn]
    simpa [Entry.new] using hconns
  numbered := by simpa using h.numbered
  gauge := by simpa using h.gauge
  total := by simpa using h.total
  closed := h.closed
  inFlight := h.inFlight

theorem Balanced.ensureJanitor {reports : List (C × PoolCloseReason)}
    {held : ℕ} {locked : Locked C}
    (h : Balanced opened reports held [] locked) :
    Balanced opened reports held []
      { locked with state := ensureJanitorLocked locked.state } := by
  rw [ensureJanitorLocked]
  split_ifs
  · exact h
  · exact ⟨h.conns, h.numbered, h.gauge, h.total, h.closed, h.inFlight⟩

theorem System.Balanced.finishConnect (h : system.Balanced opened)
    {epoch now : ℕ} {result : Except Error C} {state : State C}
    {counters : Counters} {wake : Bool} {outcome : Option (Except Error Unit)}
    (hfinish : finishConnect epoch now result system.state system.counters =
      (state, counters, wake, outcome)) :
    ConnPool.Balanced opened system.reports
        (system.leases.countP Lease.outstanding) [] ⟨state, counters, []⟩ ∨
    ∃ conn, state.entries = system.state.entries ++
        [Entry.new system.state.nextEntryId conn now] ∧
      ConnPool.Balanced (opened ++ [conn]) system.reports
        (system.leases.countP Lease.outstanding) [] ⟨state, counters, []⟩ := by
  unfold ConnPool.finishConnect at hfinish
  split_ifs at hfinish with hconnecting
  · cases result with
    | error error =>
      simp only [Prod.mk.injEq] at hfinish
      obtain ⟨rfl, rfl, _⟩ := hfinish
      exact .inl ⟨h.conns, h.numbered, h.gauge, h.total, h.closed, h.inFlight⟩
    | ok conn =>
      simp only [Prod.mk.injEq] at hfinish
      obtain ⟨rfl, rfl, _⟩ := hfinish
      refine .inr ⟨conn, ?_, (h.add conn now).ensureJanitor⟩
      rw [ensureJanitorLocked]
      split_ifs <;> rfl
  · simp only [Prod.mk.injEq] at hfinish
    obtain ⟨rfl, rfl, _⟩ := hfinish
    exact .inl h

/-- While no number is given out, no connection is entered. -/
theorem opens_eq_nil (hinv : Inv settings after)
    (hnext : after.state.nextEntryId = system.state.nextEntryId) :
    opens system after = [] := by
  rw [opens, List.map_eq_nil_iff, List.filter_eq_nil_iff]
  intro entry hentry hnew
  have hlt := hinv.booked.fresh entry hentry
  rw [decide_eq_true_iff] at hnew
  omega

theorem opens_opened (hinv : Inv settings system) {conn : C} {now : ℕ}
    (hentries : after.state.entries = system.state.entries ++
      [Entry.new system.state.nextEntryId conn now]) :
    opens system after = [conn] := by
  have hold : system.state.entries.filter
      (fun entry => decide (system.state.nextEntryId ≤ entry.id)) = [] := by
    rw [List.filter_eq_nil_iff]
    intro entry hentry
    simpa using hinv.booked.fresh entry hentry
  rw [opens, hentries, List.filter_append, hold]
  simp [Entry.new]

theorem Step.balanced (hstep : Step settings system after)
    (hinv : Inv settings system) (h : system.Balanced opened) :
    after.Balanced (opened ++ opens system after) := by
  have hafter := hstep.inv hinv
  -- All steps but one leave the list of the opened connections.
  suffices hcases : after.Balanced opened ∨ ∃ conn now,
      after.state.entries = system.state.entries ++
        [Entry.new system.state.nextEntryId conn now] ∧
      after.Balanced (opened ++ [conn]) by
    rcases hcases with hsame | ⟨conn, now, hentries, hopened⟩
    · rw [opens_eq_nil hafter (hsame.numbered.trans h.numbered.symm),
        List.append_nil]
      exact hsame
    · rw [opens_opened hinv hentries]
      exact hopened
  cases hstep with
  | tick hle => exact .inl h
  | enter fresh deadline hpermits => exact .inl h
  | enqueue fresh deadline hpermits =>
    exact .inl ⟨h.conns, h.numbered, h.gauge, h.total, h.closed, h.inFlight⟩
  | grant hcalls hphase hpermits => exact .inl h
  | leaveQueue hcalls hphase => exact .inl h
  | readClock hcalls hphase => exact .inl h
  | round probe hcalls hphase => exact .inl h.round
  | resume hcalls hphase hpublished => exact .inl h
  | giveUp hcalls hphase => exact .inl h
  | complete hlease hphase => exact .inl (ConnPool.Balanced.complete h _)
  | noteTimeout probe hlease hphase =>
    exact .inl (ConnPool.Balanced.noteTimeout h _).settle
  | markDead probe hlease hphase =>
    exact .inl (ConnPool.Balanced.markDead h _).settle
  | drop hleases hphase =>
    refine .inl (h.congr rfl rfl rfl rfl ?_)
    rw [hleases, outstanding_append, outstanding_append, Lease.outstanding,
      Lease.outstanding, hphase]
    rfl
  | @releaseSlot front back lease now probe hleases hphase =>
    have hheld : system.leases.countP Lease.outstanding =
        (front ++ back).countP Lease.outstanding + 1 := by
      rw [hleases, outstanding_append, Lease.outstanding, hphase]
      rfl
    rw [System.Balanced, hheld] at h
    left
    rw [System.Balanced, outstanding_append]
    exact (h.releaseSlot _).settle
  | notify hsends => exact .inl h
  | releasePermit hleases hphase =>
    refine .inl (h.congr rfl rfl rfl rfl ?_)
    rw [hleases, outstanding_append, Lease.outstanding, hphase]
    rfl
  | polled hconnects => exact .inl h
  | aborted hconnects => exact .inl h
  | connectEnds result hconnects => exact .inl h
  | @finishConnect front back epoch now result state counters wake outcome
    hconnects hfinish =>
    rcases h.finishConnect hfinish with hsame | ⟨conn, hentries, hopened⟩
    · exact .inl hsame
    · exact .inr ⟨conn, now, hentries, hopened⟩
  | publish hconnects => exact .inl h
  | janitor probe hjanitor => exact .inl (ConnPool.Balanced.janitor h).settle
  | notified hjanitor hwake =>
    exact .inl ⟨h.conns, h.numbered, h.gauge, h.total, h.closed, h.inFlight⟩
  | slept hjanitor hdeadline hdue =>
    exact .inl ⟨h.conns, h.numbered, h.gauge, h.total, h.closed, h.inFlight⟩
  | sweep probe => exact .inl (ConnPool.Balanced.sweep h).settle

theorem balanced_of_logged {clock : ℕ}
    (hrun : Logged (Step settings) opens (.new settings clock) opened system) :
    Inv settings system ∧ system.Balanced opened := by
  refine hrun.invariant
    (fun opened system => Inv settings system ∧ system.Balanced opened)
    ⟨inv_new settings clock, balanced_new settings clock⟩ ?_
  intro opened before after h hstep
  exact ⟨hstep.inv h.1, hstep.balanced h.1 h.2⟩

end Steps

/-! ## The books balance -/

inductive Retires (settings : Settings) : (Locked C → Locked C) → Prop
  | sweep (probe : Probe C) (now : ℕ) :
      Retires settings (sweepLocked settings probe now)
  | acquire (probe : Probe C) (now : ℕ) (fresh : Bool) :
      Retires settings fun locked =>
        (acquireLocked settings probe now fresh locked).2.2
  | noteTimeout (probe : Probe C) (entryId : ℕ) :
      Retires settings fun locked => (noteTimeout probe entryId locked).2
  | markDead (probe : Probe C) (entryId : ℕ) :
      Retires settings (markDead probe entryId)
  | releaseSlot (probe : Probe C) (entryId now : ℕ) :
      Retires settings fun locked =>
        (releaseSlot settings probe entryId now locked).2
  | janitor (probe : Probe C) (now : ℕ) :
      Retires settings (janitorLocked settings probe now)

theorem Retires.gauge {settings : Settings} {run : Locked C → Locked C}
    (hretires : Retires settings run) {opened : List C}
    {reports : List (C × PoolCloseReason)} {held : ℕ} {state : State C}
    {counters : Counters}
    (h : Balanced opened reports held [] ⟨state, counters, []⟩) :
    (run ⟨state, counters, []⟩).counters.connectionsOpen +
        (run ⟨state, counters, []⟩).closing.length =
      counters.connectionsOpen := by
  have hbefore := h.conns.length_eq
  have hgauge := h.gauge
  suffices hafter : ∃ held, Balanced opened reports held []
      (run ⟨state, counters, []⟩) by
    obtain ⟨held, hafter⟩ := hafter
    have hlength := hafter.conns.length_eq
    have hopen := hafter.gauge
    simp only [List.length_append, List.length_map, List.append_nil]
      at hbefore hgauge hlength hopen
    change _ + 0 + _ = _ at hbefore
    omega
  cases hretires with
  | sweep probe now => exact ⟨held, h.sweep⟩
  | acquire probe now fresh =>
    have hround := acquireLocked_spec settings probe now fresh
      ⟨state, counters, []⟩
    dsimp only
    generalize acquireLocked settings probe now fresh _ = result at hround
    cases hround with
    | lease husable hfresh => exact ⟨_, h.sweep.take _⟩
    | scaleUp husable hfresh hconnecting hroom =>
      exact ⟨_, (h.sweep.take _).startConnect⟩
    | start hconnecting hroom => exact ⟨_, h.sweep.startConnect⟩
    | join hconnecting => exact ⟨_, h.sweep⟩
    | exhausted hexhausted => exact ⟨_, h.sweep⟩
  | noteTimeout probe entryId => exact ⟨held, h.noteTimeout entryId⟩
  | markDead probe entryId => exact ⟨held, h.markDead entryId⟩
  | releaseSlot probe entryId now => exact ⟨held - 1, h.releaseSlot entryId⟩
  | janitor probe now => exact ⟨held, h.janitor⟩

theorem inFlight_pos {settings : Settings} {opened : List C}
    {system : System C} (hinv : Inv settings system)
    (h : system.Balanced opened) {lease : Lease C}
    (hlease : lease ∈ system.leases) (houtstanding : lease.outstanding = true) :
    0 < system.counters.inFlight ∧
      ∀ entry ∈ system.state.entries, entry.id = lease.entryId →
        0 < entry.inFlight := by
  have hgauge : system.counters.inFlight =
      system.leases.countP Lease.outstanding := h.inFlight
  refine ⟨?_, ?_⟩
  · rw [hgauge]
    exact List.countP_pos_iff.mpr ⟨lease, hlease, houtstanding⟩
  · intro entry hentry hid
    rw [hinv.booked.inFlight_eq entry hentry, hid]
    refine List.countP_pos_iff.mpr ⟨lease, hlease, ?_⟩
    rw [Lease.on_eq houtstanding, decide_eq_true rfl]

/-- In every run of a pool the counters of the connections add up, the gauges
are the numbers of entries and of outstanding leases, no decrement finds a zero,
and the connections reported and those still entered are together the ones
opened, so that all of them have been reported once the pool has been dropped. -/
theorem pool_books_balance (settings : Settings) (clock : ℕ)
    (opened : List C) (system : System C)
    (hrun : Logged (Step settings) opens (.new settings clock) opened system) :
    system.counters.connectionsOpened =
      system.counters.connectionsOpen + system.counters.closedIdle +
        system.counters.closedLifetime + system.counters.closedError ∧
    system.counters.connectionsOpen = system.state.entries.length ∧
    system.counters.inFlight = system.leases.countP Lease.outstanding ∧
    (∀ run, Retires settings run →
      (run system.locked).counters.connectionsOpen +
          (run system.locked).closing.length =
        system.counters.connectionsOpen) ∧
    (∀ lease ∈ system.leases, lease.outstanding = true →
      0 < system.counters.inFlight ∧
        ∀ entry ∈ system.state.entries, entry.id = lease.entryId →
          0 < entry.inFlight) ∧
    (system.reports.map Prod.fst ++
      system.state.entries.map Entry.conn).Perm opened ∧
    (system.dropShared.map Prod.fst).Perm opened := by
  obtain ⟨hinv, h⟩ := balanced_of_logged hrun
  have hconns : (system.reports.map Prod.fst ++
      system.state.entries.map Entry.conn).Perm opened := by
    simpa [System.locked] using h.conns
  have hgauge : system.counters.connectionsOpen =
      system.state.entries.length := by
    simpa [System.locked] using h.gauge
  have htotal : system.counters.connectionsOpened = opened.length := h.total
  have hclosed : system.counters.closed = system.reports.length := by
    simpa [System.locked] using h.closed
  refine ⟨?_, hgauge, h.inFlight, ?_, ?_, hconns, ?_⟩
  · have hlength := hconns.length_eq
    rw [List.length_append, List.length_map, List.length_map] at hlength
    rw [Counters.closed] at hclosed
    omega
  · exact fun run hretires => hretires.gauge h
  · exact fun lease hlease => inFlight_pos hinv h hlease
  · rw [System.dropShared, List.map_append, List.map_map]
    exact hconns

/-- A pool which has opened a connection, lost it in a sweep and opened no
other. -/
theorem lost_connection_balances :
    ∃ system : System Unit,
      Logged (Step (.new .new (seconds 5) (seconds 100))) opens
        (.new (.new .new (seconds 5) (seconds 100)) 0) [()] system ∧
      system.reports = [((), .error)] ∧
      (system.dropShared.map Prod.fst).Perm [()] := by
  let settings : Settings := .new .new (seconds 5) (seconds 100)
  let gone : Probe Unit := ⟨fun _ => false, fun _ => false⟩
  have hadmit : Logged (Step settings) opens (.new settings 0) _ _ :=
    .tail .refl (@Step.enter Unit settings _ 255 false (seconds 5) rfl)
  have hclock := hadmit.tail (@Step.readClock _ settings _ [] []
    ⟨_, _, _, _⟩ rfl rfl)
  have hround := hclock.tail (@Step.round _ settings _ [] []
    ⟨_, _, _, _⟩ 0 gone rfl rfl)
  have hpolled := hround.tail (@Step.polled _ settings _ [] [] _ rfl)
  have hconnect := hpolled.tail (@Step.connectEnds _ settings _ [] [] _
    (.ok ()) rfl)
  have hentry := hconnect.tail (@Step.finishConnect _ settings _ [] []
    _ _ _ _ _ _ _ rfl rfl)
  have hlost := hentry.tail (.sweep gone)
  exact ⟨_, hlost, rfl,
    (pool_books_balance settings 0 _ _ hlost).2.2.2.2.2.2⟩

end ConnPool

end DnsLattice
