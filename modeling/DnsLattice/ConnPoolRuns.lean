import DnsLattice.ConnPoolRules

/-!
# Runs of the connection pool

A caller holds a permit from its admission until its lease has been dropped,
and a lease holds one place on its connection from the section which grants it
until the section which gives it back.  Counting both over every interleaving
shows that a caller with a permit always finds a connection with room, or room
for a connection.
-/

namespace DnsLattice

namespace ConnPool

/-! ## The pool among its callers -/

/-- Where a call of `acquire_inner` stands: in the queue of the semaphore, at
the top of its loop, before the lock with its reading of the clock, or waiting
for the connect it has subscribed to. -/
inductive CallPhase where
  | queued
  | admitted
  | reading (now : ℕ)
  | waiting (epoch : ℕ)
  deriving DecidableEq, Repr

structure Call where
  fresh : Bool
  deadline : ℕ
  /-- The call has been counted as queued. -/
  queued : Bool
  phase : CallPhase
  deriving DecidableEq, Repr

def Call.holdsPermit (call : Call) : Bool := decide (call.phase ≠ .queued)

/-- A lease is held until it is dropped.  The drop reads the clock, gives the
place on the connection back under the lock, and lets go of the permit. -/
inductive LeasePhase where
  | held
  | dropping (now : ℕ)
  | released
  deriving DecidableEq, Repr

structure Lease (C : Type) where
  entryId : ℕ
  conn : C
  reused : Bool
  phase : LeasePhase

variable {C : Type}

def Lease.outstanding (lease : Lease C) : Bool :=
  decide (lease.phase ≠ .released)

def Lease.on (lease : Lease C) (entryId : ℕ) : Bool :=
  lease.outstanding && decide (lease.entryId = entryId)

/-- The task of a connect: spawned and not polled, so that its guard does not
exist yet, before its end, before the lock with the reading of the clock, and
before the outcome is published. -/
inductive ConnectTask (C : Type) where
  | spawned (epoch : ℕ)
  | running (epoch : ℕ)
  | finishing (epoch now : ℕ) (result : Except Error C)
  | publishing (epoch : ℕ) (outcome : Except Error Unit)

structure System (C : Type) where
  clock : ℕ
  state : State C
  counters : Counters
  permits : ℕ
  /-- The stored wake-up of the janitor. -/
  wake : Bool
  /-- The wake-ups which dropped leases are about to send. -/
  sends : ℕ
  calls : List Call
  leases : List (Lease C)
  connects : List (ConnectTask C)
  /-- The outcomes in the channels, by epoch. -/
  published : ℕ → Option (Except Error Unit)
  /-- The connections closed, with the reasons reported. -/
  reports : List (C × PoolCloseReason)

namespace System

def new (settings : Settings) (clock : ℕ) : System C where
  clock := clock
  state := .new
  counters := .zero
  permits := settings.config.capacity
  wake := false
  sends := 0
  calls := []
  leases := []
  connects := []
  published _ := none
  reports := []

def locked (system : System C) : Locked C :=
  ⟨system.state, system.counters, []⟩

def leave (system : System C) (after : Locked C) : System C :=
  { system with
    state := after.state
    counters := after.counters
    reports := system.reports ++ after.closing }

/-- One round of `acquire_inner` for a call which stands between the others. -/
def round (settings : Settings) (probe : Probe C) (system : System C)
    (front back : List Call) (call : Call) (now : ℕ) : System C :=
  match acquireLocked settings probe now call.fresh system.locked with
  | (placed, started, after) =>
      let next :=
        { system.leave after with
          connects := started.toList.map ConnectTask.spawned ++ system.connects }
      match placed with
      | .lease entryId conn reused =>
          { next with
            calls := front ++ back
            leases := ⟨entryId, conn, reused, .held⟩ :: system.leases }
      | .wait epoch =>
          { next with
            calls := front ++
              { call with queued := true, phase := .waiting epoch } :: back
            counters :=
              { next.counters with
                queued := next.counters.queued + if call.queued then 0 else 1 } }
      | .closed =>
          { next with
            calls := front ++ back
            permits := system.permits + 1 }

end System

inductive Step (settings : Settings) : System C → System C → Prop
  | tick {system : System C} {clock : ℕ} (hle : system.clock ≤ clock) :
      Step settings system { system with clock := clock }
  | enter {system : System C} {permits : ℕ} (fresh : Bool) (deadline : ℕ)
      (hpermits : system.permits = permits + 1) :
      Step settings system
        { system with
          permits := permits
          calls := ⟨fresh, deadline, false, .admitted⟩ :: system.calls }
  | enqueue {system : System C} (fresh : Bool) (deadline : ℕ)
      (hpermits : system.permits = 0) :
      Step settings system
        { system with
          counters :=
            { system.counters with queued := system.counters.queued + 1 }
          calls := ⟨fresh, deadline, true, .queued⟩ :: system.calls }
  | grant {system : System C} {permits : ℕ} {front back : List Call}
      {call : Call} (hcalls : system.calls = front ++ call :: back)
      (hphase : call.phase = .queued)
      (hpermits : system.permits = permits + 1) :
      Step settings system
        { system with
          permits := permits
          calls := front ++ { call with phase := .admitted } :: back }
  /-- The deadline has passed in the queue, or the caller is gone. -/
  | leaveQueue {system : System C} {front back : List Call} {call : Call}
      (hcalls : system.calls = front ++ call :: back)
      (hphase : call.phase = .queued) :
      Step settings system { system with calls := front ++ back }
  | readClock {system : System C} {front back : List Call} {call : Call}
      (hcalls : system.calls = front ++ call :: back)
      (hphase : call.phase = .admitted) :
      Step settings system
        { system with
          calls := front ++ { call with phase := .reading system.clock } :: back }
  | round {system : System C} {front back : List Call} {call : Call} {now : ℕ}
      (probe : Probe C) (hcalls : system.calls = front ++ call :: back)
      (hphase : call.phase = .reading now) :
      Step settings system (system.round settings probe front back call now)
  | resume {system : System C} {front back : List Call} {call : Call}
      {epoch : ℕ} (hcalls : system.calls = front ++ call :: back)
      (hphase : call.phase = .waiting epoch)
      (hpublished : system.published epoch = some (.ok ())) :
      Step settings system
        { system with
          calls := front ++ { call with phase := .admitted } :: back }
  /-- The connect has failed, the deadline has passed or the caller is gone. -/
  | giveUp {system : System C} {front back : List Call} {call : Call}
      {epoch : ℕ} (hcalls : system.calls = front ++ call :: back)
      (hphase : call.phase = .waiting epoch) :
      Step settings system
        { system with
          permits := system.permits + 1
          calls := front ++ back }
  | complete {system : System C} {lease : Lease C}
      (hlease : lease ∈ system.leases) (hphase : lease.phase = .held) :
      Step settings system
        { system with state := ConnPool.complete lease.entryId system.state }
  | noteTimeout {system : System C} {lease : Lease C} (probe : Probe C)
      (hlease : lease ∈ system.leases) (hphase : lease.phase = .held) :
      Step settings system (system.leave
        (ConnPool.noteTimeout probe lease.entryId system.locked).2)
  | markDead {system : System C} {lease : Lease C} (probe : Probe C)
      (hlease : lease ∈ system.leases) (hphase : lease.phase = .held) :
      Step settings system (system.leave
        (ConnPool.markDead probe lease.entryId system.locked))
  | drop {system : System C} {front back : List (Lease C)} {lease : Lease C}
      (hleases : system.leases = front ++ lease :: back)
      (hphase : lease.phase = .held) :
      Step settings system
        { system with
          leases := front ++ { lease with phase := .dropping system.clock } ::
            back }
  | releaseSlot {system : System C} {front back : List (Lease C)}
      {lease : Lease C} {now : ℕ} (probe : Probe C)
      (hleases : system.leases = front ++ lease :: back)
      (hphase : lease.phase = .dropping now) :
      Step settings system
        { system.leave (ConnPool.releaseSlot settings probe lease.entryId now
            system.locked).2 with
          sends := system.sends + (ConnPool.releaseSlot settings probe
            lease.entryId now system.locked).1.toNat
          leases := front ++ { lease with phase := .released } :: back }
  | notify {system : System C} {sends : ℕ}
      (hsends : system.sends = sends + 1) :
      Step settings system { system with wake := true, sends := sends }
  | releasePermit {system : System C} {front back : List (Lease C)}
      {lease : Lease C} (hleases : system.leases = front ++ lease :: back)
      (hphase : lease.phase = .released) :
      Step settings system
        { system with
          permits := system.permits + 1
          leases := front ++ back }
  | polled {system : System C} {front back : List (ConnectTask C)} {epoch : ℕ}
      (hconnects : system.connects = front ++ .spawned epoch :: back) :
      Step settings system
        { system with connects := front ++ .running epoch :: back }
  /-- The task is dropped before it has been polled. -/
  | aborted {system : System C} {front back : List (ConnectTask C)} {epoch : ℕ}
      (hconnects : system.connects = front ++ .spawned epoch :: back) :
      Step settings system { system with connects := front ++ back }
  /-- The transport answers, or the task is dropped and its guard reports. -/
  | connectEnds {system : System C} {front back : List (ConnectTask C)}
      {epoch : ℕ} (result : Except Error C)
      (hconnects : system.connects = front ++ .running epoch :: back) :
      Step settings system
        { system with
          connects := front ++ .finishing epoch system.clock result :: back }
  | finishConnect {system : System C} {front back : List (ConnectTask C)}
      {epoch now : ℕ} {result : Except Error C} {state : State C}
      {counters : Counters} {wake : Bool}
      {outcome : Option (Except Error Unit)}
      (hconnects : system.connects =
        front ++ .finishing epoch now result :: back)
      (hfinish : ConnPool.finishConnect epoch now result system.state
        system.counters = (state, counters, wake, outcome)) :
      Step settings system
        { system with
          state := state
          counters := counters
          wake := system.wake || wake
          connects := front ++ outcome.toList.map (ConnectTask.publishing epoch) ++ back }
  | publish {system : System C} {front back : List (ConnectTask C)}
      {epoch : ℕ} {outcome : Except Error Unit}
      (hconnects : system.connects = front ++ .publishing epoch outcome :: back) :
      Step settings system
        { system with
          connects := front ++ back
          published := Function.update system.published epoch (some outcome) }
  | janitor {system : System C} (probe : Probe C)
      (hjanitor : system.state.janitor = some .running) :
      Step settings system (system.leave
        (janitorLocked settings probe system.clock system.locked))
  | notified {system : System C}
      (hjanitor : system.state.janitor = some .asleep)
      (hwake : system.wake = true) :
      Step settings system
        { system with
          wake := false
          state := { system.state with janitor := some .running } }
  | slept {system : System C} {deadline : ℕ}
      (hjanitor : system.state.janitor = some .asleep)
      (hdeadline : system.state.janitorDeadline = some deadline)
      (hdue : deadline ≤ system.clock) :
      Step settings system
        { system with
          state := { system.state with janitor := some .running } }
  | sweep {system : System C} (probe : Probe C) :
      Step settings system (system.leave
        (sweepLocked settings probe system.clock system.locked))

def Reaches (settings : Settings) (system : System C) : Prop :=
  ∃ clock, Relation.ReflTransGen (Step settings) (.new settings clock) system

/-! ## Counting -/

theorem sum_countP_le_length {α κ : Type} (counted : α → κ → Bool)
    (hkey : ∀ item key key', counted item key = true →
      counted item key' = true → key = key') {keys : List κ}
    (hnodup : keys.Nodup) :
    ∀ items : List α,
      (keys.map fun key => items.countP (counted · key)).sum ≤ items.length := by
  induction keys with
  | nil => simp
  | cons key rest ih =>
    intro items
    obtain ⟨hnotin, hrest⟩ := List.nodup_cons.mp hnodup
    -- The items under the other keys are among those not under this one.
    have hothers : ∀ other ∈ rest, items.countP (counted · other) =
        (items.filter (!counted · key)).countP (counted · other) := by
      intro other hother
      rw [List.countP_filter]
      refine List.countP_congr ?_
      intro item _
      rw [Bool.and_eq_true, Bool.not_eq_true']
      refine ⟨fun hcounted => ⟨hcounted, ?_⟩, And.left⟩
      by_contra hboth
      have hsame := hkey item other key hcounted (by simpa using hboth)
      exact hnotin (hsame ▸ hother)
    have hsum := ih hrest (items.filter (!counted · key))
    have hlength := @List.length_eq_countP_add_countP _ (counted · key) items
    rw [List.map_cons, List.sum_cons, List.map_congr_left hothers]
    rw [← List.countP_eq_length_filter] at hsum
    simp only [Bool.decide_eq_false, Bool.not_eq_true] at hlength
    omega

theorem mul_countP_le_sum {α : Type} {load : ℕ} {chosen : α → Bool}
    {loads : α → ℕ} {items : List α}
    (hload : ∀ item ∈ items, chosen item = true → load ≤ loads item) :
    load * items.countP chosen ≤ (items.map loads).sum := by
  induction items with
  | nil => simp
  | cons item rest ih =>
    have hrest := ih fun other hother => hload other (by simp [hother])
    rw [List.countP_cons, List.map_cons, List.sum_cons, Nat.mul_add]
    split_ifs with hchosen
    · have := hload item (by simp) hchosen
      omega
    · omega

def leasesOn (leases : List (Lease C)) (entryId : ℕ) : ℕ :=
  leases.countP (Lease.on · entryId)

theorem leasesOn_append (front back : List (Lease C)) (lease : Lease C)
    (entryId : ℕ) :
    leasesOn (front ++ lease :: back) entryId =
      leasesOn (front ++ back) entryId + (lease.on entryId).toNat := by
  rw [leasesOn, leasesOn, List.countP_append, List.countP_append,
    List.countP_cons]
  cases lease.on entryId with
  | true => exact (Nat.add_assoc _ _ _).symm
  | false => rfl

theorem leasesOn_released (front back : List (Lease C)) (lease : Lease C)
    (entryId : ℕ) :
    leasesOn (front ++ { lease with phase := .released } :: back) entryId =
      leasesOn (front ++ back) entryId :=
  leasesOn_append front back _ entryId

theorem Lease.on_eq {lease : Lease C} (houtstanding : lease.outstanding = true)
    (entryId : ℕ) : lease.on entryId = decide (lease.entryId = entryId) := by
  rw [Lease.on, houtstanding, Bool.true_and]

/-! ## Places on connections -/

structure Booked (settings : Settings) (state : State C)
    (leases : List (Lease C)) : Prop where
  nodup : (state.entries.map Entry.id).Nodup
  fresh : ∀ entry ∈ state.entries, entry.id < state.nextEntryId
  known : ∀ lease ∈ leases, lease.entryId < state.nextEntryId
  inFlight_eq : ∀ entry ∈ state.entries,
    entry.inFlight = leasesOn leases entry.id
  leasesOn_le : ∀ entryId,
    leasesOn leases entryId ≤ settings.config.maxInFlight
  room : state.live + state.connecting.toList.length ≤
    settings.config.maxConnections

section Sections

variable {settings : Settings} {state : State C} {leases : List (Lease C)}
  {probe : Probe C} {now : ℕ}

theorem Booked.thin (h : Booked settings state leases) {after : State C}
    (hthinned : Thinned state.entries after.entries)
    (hnext : after.nextEntryId = state.nextEntryId)
    (hconnecting : after.connecting = state.connecting) :
    Booked settings after leases where
  nodup := hthinned.ids.nodup h.nodup
  fresh entry hentry := by
    obtain ⟨old, hold, hid, _⟩ := hthinned.kept entry hentry
    rw [hid, hnext]
    exact h.fresh old hold
  known lease hlease := by
    rw [hnext]
    exact h.known lease hlease
  inFlight_eq entry hentry := by
    obtain ⟨old, hold, hid, hinFlight⟩ := hthinned.kept entry hentry
    rw [hid, hinFlight]
    exact h.inFlight_eq old hold
  leasesOn_le := h.leasesOn_le
  room := by
    rw [hconnecting]
    exact (Nat.add_le_add_right hthinned.live_le _).trans h.room

theorem Booked.sweep (h : Booked settings state leases) {locked : Locked C}
    (hstate : locked.state = state) :
    Booked settings (sweepLocked settings probe now locked).state leases := by
  subst hstate
  refine h.thin (sweepLocked_thinned locked) ?_ ?_
  · rw [sweepLocked_state]
  · rw [sweepLocked_state]

theorem Booked.congr (h : Booked settings state leases)
    {leases' : List (Lease C)}
    (hknown : ∀ lease ∈ leases', lease.entryId < state.nextEntryId)
    (hsame : ∀ entryId, leasesOn leases' entryId = leasesOn leases entryId) :
    Booked settings state leases' where
  nodup := h.nodup
  fresh := h.fresh
  known := hknown
  inFlight_eq entry hentry := by
    rw [hsame]
    exact h.inFlight_eq entry hentry
  leasesOn_le entryId := by
    rw [hsame]
    exact h.leasesOn_le entryId
  room := h.room

theorem Booked.update (h : Booked settings state leases)
    {idx : Fin state.entries.length} {change : Entry C → Entry C}
    {leases' : List (Lease C)}
    (hid : (change (state.entries.get idx)).id = (state.entries.get idx).id)
    (hlive : (change (state.entries.get idx)).live = (state.entries.get idx).live)
    (hchanged : leasesOn leases' (state.entries.get idx).id =
      (change (state.entries.get idx)).inFlight)
    (hothers : ∀ entryId, entryId ≠ (state.entries.get idx).id →
      leasesOn leases' entryId = leasesOn leases entryId)
    (hle : (change (state.entries.get idx)).inFlight ≤
      settings.config.maxInFlight)
    (hknown : ∀ lease ∈ leases', lease.entryId < state.nextEntryId) :
    Booked settings (state.update idx change) leases' where
  nodup := by
    rw [map_update hid]
    exact h.nodup
  fresh entry hentry := by
    rcases mem_update h.nodup hentry with rfl | ⟨hold, _⟩
    · rw [hid]
      exact h.fresh _ (List.getElem_mem idx.2)
    · exact h.fresh entry hold
  known := hknown
  inFlight_eq entry hentry := by
    rcases mem_update h.nodup hentry with rfl | ⟨hold, hne⟩
    · rw [hid, hchanged]
    · rw [hothers _ hne]
      exact h.inFlight_eq entry hold
  leasesOn_le entryId := by
    by_cases hsame : entryId = (state.entries.get idx).id
    · rw [hsame, hchanged]
      exact hle
    · rw [hothers _ hsame]
      exact h.leasesOn_le entryId
  room := by
    rw [live_update hlive]
    exact h.room

theorem Booked.touch (h : Booked settings state leases)
    {idx : Fin state.entries.length} {change : Entry C → Entry C}
    (hid : (change (state.entries.get idx)).id = (state.entries.get idx).id)
    (hlive : (change (state.entries.get idx)).live = (state.entries.get idx).live)
    (hinFlight : (change (state.entries.get idx)).inFlight =
      (state.entries.get idx).inFlight) :
    Booked settings (state.update idx change) leases := by
  have heq := h.inFlight_eq _ (List.getElem_mem idx.2)
  refine h.update hid hlive (hinFlight.trans heq).symm (fun _ _ => rfl) ?_
    h.known
  rw [hinFlight]
  exact heq.trans_le (h.leasesOn_le _)

theorem Booked.complete (h : Booked settings state leases) (entryId : ℕ) :
    Booked settings (complete entryId state) leases := by
  rw [ConnPool.complete]
  cases state.position entryId with
  | none => exact h
  | some idx => exact h.touch rfl rfl rfl

theorem Booked.retire {locked : Locked C}
    (h : Booked settings locked.state leases)
    (idx : Fin locked.state.entries.length) (reason : CloseReason) :
    Booked settings (retire probe locked idx reason).state leases :=
  h.thin (retire_thinned locked idx reason) rfl rfl

theorem Booked.noteTimeout {locked : Locked C}
    (h : Booked settings locked.state leases) (entryId : ℕ) :
    Booked settings (noteTimeout probe entryId locked).2.state leases := by
  rw [ConnPool.noteTimeout]
  cases locked.state.position entryId with
  | none => exact h
  | some idx =>
    simp only
    split_ifs
    · exact h.retire idx .error
    · have htouched : Booked settings (locked.state.update idx fun entry =>
          { entry with timeouts := entry.timeouts + 1 }) leases :=
        h.touch rfl rfl rfl
      exact htouched

theorem Booked.markDead {locked : Locked C}
    (h : Booked settings locked.state leases) (entryId : ℕ) :
    Booked settings (markDead probe entryId locked).state leases := by
  rw [ConnPool.markDead]
  cases locked.state.position entryId with
  | none => exact h
  | some idx => exact h.retire idx .error

theorem Booked.known_phase {front back : List (Lease C)} {lease : Lease C}
    (h : Booked settings state (front ++ lease :: back)) (phase : LeasePhase) :
    ∀ found ∈ front ++ { lease with phase := phase } :: back,
      found.entryId < state.nextEntryId := by
  intro found hfound
  rcases List.mem_append.mp hfound with hfront | hrest
  · exact h.known found (by simp [hfront])
  · rcases List.mem_cons.mp hrest with rfl | hback
    · exact h.known lease (by simp)
    · exact h.known found (by simp [hback])

theorem Booked.releaseSlot {front back : List (Lease C)} {lease : Lease C}
    {locked : Locked C}
    (h : Booked settings locked.state (front ++ lease :: back))
    (houtstanding : lease.outstanding = true) :
    Booked settings
      (releaseSlot settings probe lease.entryId now locked).2.state
      (front ++ { lease with phase := .released } :: back) := by
  have hknown := h.known_phase .released
  have hothers : ∀ entryId, entryId ≠ lease.entryId →
      leasesOn (front ++ { lease with phase := .released } :: back) entryId =
        leasesOn (front ++ lease :: back) entryId := by
    intro entryId hne
    rw [leasesOn_released, leasesOn_append, Lease.on_eq houtstanding,
      decide_eq_false hne.symm]
    rfl
  have hlast : leasesOn (front ++ lease :: back) lease.entryId =
      leasesOn (front ++ { lease with phase := .released } :: back)
        lease.entryId + 1 := by
    rw [leasesOn_released, leasesOn_append, Lease.on_eq houtstanding,
      decide_eq_true rfl]
    rfl
  rw [ConnPool.releaseSlot]
  extract_lets locked'
  cases hposition : locked.state.position lease.entryId with
  | none =>
    refine ⟨h.nodup, h.fresh, hknown, ?_, ?_, h.room⟩
    · intro entry hentry
      rw [hothers _ (position_eq_none hposition hentry)]
      exact h.inFlight_eq entry hentry
    · intro entryId
      by_cases hsame : entryId = lease.entryId
      · have := h.leasesOn_le entryId
        rw [hsame] at this ⊢
        omega
      · rw [hothers _ hsame]
        exact h.leasesOn_le entryId
  | some idx =>
    have hid := position_eq_some hposition
    have hinFlight := h.inFlight_eq _ (List.getElem_mem idx.2)
    have hle := h.leasesOn_le lease.entryId
    have hupdated : Booked settings
        (locked.state.update idx fun entry =>
          { entry with inFlight := entry.inFlight - 1, lastActive := now })
        (front ++ { lease with phase := .released } :: back) := by
      change (locked.state.entries.get idx).inFlight =
        leasesOn _ (locked.state.entries.get idx).id at hinFlight
      refine h.update rfl rfl ?_ ?_ ?_ hknown
      · change _ = (locked.state.entries.get idx).inFlight - 1
        rw [hinFlight, hid]
        omega
      · rw [hid]
        exact hothers
      · change (locked.state.entries.get idx).inFlight - 1 ≤ _
        rw [hinFlight, hid]
        omega
    simp only
    split_ifs
    · exact hupdated.retire _ _
    · exact hupdated
    · exact hupdated

theorem Booked.take (h : Booked settings state leases)
    {idx : Fin state.entries.length}
    (husable : (state.entries.get idx).usable settings = true) (reused : Bool) :
    Booked settings
      (state.update idx
        fun entry => { entry with inFlight := entry.inFlight + 1 })
      (⟨(state.entries.get idx).id, (state.entries.get idx).conn, reused, .held⟩ ::
        leases) := by
  have hinFlight : (state.entries.get idx).inFlight =
      leasesOn leases (state.entries.get idx).id :=
    h.inFlight_eq _ (List.getElem_mem idx.2)
  rw [Entry.usable, Bool.and_eq_true, decide_eq_true_iff] at husable
  have hcons : ∀ entryId, leasesOn
      (⟨(state.entries.get idx).id, (state.entries.get idx).conn, reused, .held⟩ ::
        leases) entryId =
      leasesOn leases entryId +
        (decide ((state.entries.get idx).id = entryId)).toNat := by
    intro entryId
    exact leasesOn_append [] leases _ entryId
  refine h.update rfl rfl ?_ ?_ husable.2 ?_
  · rw [hcons, ← hinFlight, decide_eq_true rfl]
    rfl
  · intro entryId hne
    rw [hcons, decide_eq_false hne.symm]
    rfl
  · intro lease hlease
    rcases List.mem_cons.mp hlease with rfl | hold
    · exact h.fresh _ (List.getElem_mem idx.2)
    · exact h.known lease hold

theorem Booked.startConnect (h : Booked settings state leases)
    (hroom : state.live < settings.config.maxConnections) :
    Booked settings (startConnectLocked state) leases where
  nodup := h.nodup
  fresh := h.fresh
  known := h.known
  inFlight_eq := h.inFlight_eq
  leasesOn_le := h.leasesOn_le
  room := hroom

theorem Booked.ensureJanitor (h : Booked settings state leases) :
    Booked settings (ensureJanitorLocked state) leases := by
  rw [ensureJanitorLocked]
  split_ifs
  · exact h
  · exact ⟨h.nodup, h.fresh, h.known, h.inFlight_eq, h.leasesOn_le, h.room⟩

/-- The place of the connect in progress goes to its connection, which nobody
has leased yet. -/
theorem Booked.opened (h : Booked settings state leases) (conn : C)
    (hroom : state.live + 1 ≤ settings.config.maxConnections) :
    Booked settings
      { state with
        connecting := none
        nextEntryId := state.nextEntryId + 1
        entries := state.entries ++ [Entry.new state.nextEntryId conn now] }
      leases where
  nodup := by
    rw [List.map_append]
    refine h.nodup.append (List.nodup_singleton _) ?_
    intro id hid hnew
    obtain ⟨entry, hentry, rfl⟩ := List.mem_map.mp hid
    have hlt := h.fresh entry hentry
    rw [List.map_singleton, List.mem_singleton] at hnew
    exact hlt.ne hnew
  fresh entry hentry := by
    rcases List.mem_append.mp hentry with hold | hnew
    · exact (h.fresh entry hold).trans (Nat.lt_succ_self _)
    · obtain rfl := List.mem_singleton.mp hnew
      exact Nat.lt_succ_self _
  known lease hlease := (h.known lease hlease).trans (Nat.lt_succ_self _)
  inFlight_eq entry hentry := by
    rcases List.mem_append.mp hentry with hold | hnew
    · exact h.inFlight_eq entry hold
    · obtain rfl := List.mem_singleton.mp hnew
      refine (List.countP_eq_zero.mpr ?_).symm
      intro lease hlease hon
      rw [Lease.on, Bool.and_eq_true, decide_eq_true_iff] at hon
      exact (h.known lease hlease).ne hon.2
  leasesOn_le := h.leasesOn_le
  room := by
    rw [State.live, List.countP_append]
    exact hroom

theorem Booked.finishConnect (h : Booked settings state leases) {epoch : ℕ}
    {result : Except Error C} {counters counters' : Counters} {after : State C}
    {wake : Bool} {outcome : Option (Except Error Unit)}
    (hfinish : finishConnect epoch now result state counters =
      (after, counters', wake, outcome)) : Booked settings after leases := by
  unfold ConnPool.finishConnect at hfinish
  split_ifs at hfinish with hconnecting
  · have hroom := h.room
    rw [hconnecting, Option.toList_some, List.length_singleton] at hroom
    cases result with
    | error error =>
      obtain ⟨rfl, _⟩ := Prod.mk.inj hfinish
      exact ⟨h.nodup, h.fresh, h.known, h.inFlight_eq, h.leasesOn_le,
        Nat.le_of_succ_le hroom⟩
    | ok conn =>
      obtain ⟨rfl, _⟩ := Prod.mk.inj hfinish
      exact (h.opened conn hroom).ensureJanitor
  · obtain ⟨rfl, _⟩ := Prod.mk.inj hfinish
    exact h

theorem Booked.janitor {locked : Locked C}
    (h : Booked settings locked.state leases) :
    Booked settings (janitorLocked settings probe now locked).state leases := by
  have hswept := @Booked.sweep _ settings locked.state leases probe now h locked
    rfl
  rw [janitorLocked]
  simp only
  split_ifs
  · exact ⟨hswept.nodup, hswept.fresh, hswept.known, hswept.inFlight_eq,
      hswept.leasesOn_le, hswept.room⟩
  · exact ⟨hswept.nodup, hswept.fresh, hswept.known, hswept.inFlight_eq,
      hswept.leasesOn_le, hswept.room⟩

/-! ## The round of a caller -/

/-- With a place left in the whole pool, the choice is never exhausted. -/
theorem Booked.not_exhausted (h : Booked settings state leases)
    (hspare : leases.length < settings.config.capacity) (fresh : Bool) :
    pick settings state now fresh ≠ .exhausted := by
  intro hexhausted
  have hpicked := pick_spec settings state now fresh
  rw [hexhausted] at hpicked
  cases hpicked with
  | exhausted hconnecting hfull hloaded =>
    have hon : ∀ (lease : Lease C) (key key' : ℕ), lease.on key = true →
        lease.on key' = true → key = key' := by
      intro lease key key' hkey hkey'
      rw [Lease.on, Bool.and_eq_true, decide_eq_true_iff] at hkey hkey'
      exact hkey.2.symm.trans hkey'.2
    have hsum := sum_countP_le_length Lease.on hon h.nodup leases
    -- Every entry which takes leases has as many as it may have.
    have hloads : ∀ entry ∈ state.entries, entry.live = true →
        settings.config.maxInFlight ≤ leasesOn leases entry.id := by
      intro entry hentry hlive
      have hbusy := hloaded entry hentry
      rw [Entry.usable, hlive, Bool.true_and, decide_eq_false_iff_not,
        not_lt] at hbusy
      rw [← h.inFlight_eq entry hentry]
      exact hbusy
    have htotal := mul_countP_le_sum hloads
    have hcapacity : settings.config.capacity ≤
        settings.config.maxInFlight * state.live := by
      rw [PoolConfig.capacity, Nat.mul_comm]
      exact Nat.mul_le_mul_left _ hfull
    rw [List.map_map] at hsum
    exact absurd (hcapacity.trans (htotal.trans hsum)) (not_le.mpr hspare)

/-- How the round of a caller with a permit ends. -/
inductive Acquired (settings : Settings) (leases : List (Lease C)) :
    Placed C × Option ℕ × Locked C → Prop
  | lease {entryId : ℕ} {conn : C} {reused : Bool} {started : Option ℕ}
      {after : Locked C}
      (hbooked : Booked settings after.state
        (⟨entryId, conn, reused, .held⟩ :: leases)) :
      Acquired settings leases (.lease entryId conn reused, started, after)
  | wait {epoch : ℕ} {started : Option ℕ} {after : Locked C}
      (hconnecting : after.state.connecting = some epoch)
      (hbooked : Booked settings after.state leases) :
      Acquired settings leases (.wait epoch, started, after)

theorem Booked.acquire {locked : Locked C}
    (h : Booked settings locked.state leases)
    (hspare : leases.length < settings.config.capacity) (fresh : Bool) :
    Acquired settings leases
      (acquireLocked settings probe now fresh locked) := by
  have hswept := @Booked.sweep _ settings locked.state leases probe now h locked
    rfl
  have hround := acquireLocked_spec settings probe now fresh locked
  generalize acquireLocked settings probe now fresh locked = result at hround
  cases hround with
  | lease husable hfresh => exact .lease (hswept.take husable _)
  | scaleUp husable hfresh hconnecting hroom =>
    refine .lease ((hswept.take husable _).startConnect ?_)
    rw [live_update rfl]
    exact hroom
  | start hconnecting hroom => exact .wait rfl (hswept.startConnect hroom)
  | join hconnecting => exact .wait hconnecting hswept
  | exhausted hexhausted =>
    obtain ⟨instant, hpick⟩ := hexhausted
    exact absurd hpick (hswept.not_exhausted hspare fresh)

end Sections

/-! ## Permits -/

structure Inv (settings : Settings) (system : System C) : Prop where
  permits : system.permits + system.calls.countP Call.holdsPermit +
    system.leases.length = settings.config.capacity
  booked : Booked settings system.state system.leases

theorem holders_append (front back : List Call) (call : Call) :
    (front ++ call :: back).countP Call.holdsPermit =
      (front ++ back).countP Call.holdsPermit + call.holdsPermit.toNat := by
  rw [List.countP_append, List.countP_append, List.countP_cons]
  cases call.holdsPermit with
  | true => exact (Nat.add_assoc _ _ _).symm
  | false => rfl

theorem inv_new (settings : Settings) (clock : ℕ) :
    Inv settings (System.new settings clock : System C) where
  permits := rfl
  booked := ⟨List.nodup_nil, by simp [System.new, State.new],
    by simp [System.new], by simp [System.new, State.new],
    fun _ => Nat.zero_le _, Nat.zero_le _⟩

section Steps

variable {settings : Settings} {system after : System C}

theorem Inv.spare (h : Inv settings system) {call : Call}
    (hcall : call ∈ system.calls) (hholds : call.holdsPermit = true) :
    system.leases.length < settings.config.capacity := by
  have hpermits := h.permits
  have hpos : 0 < system.calls.countP Call.holdsPermit :=
    List.countP_pos_iff.mpr ⟨call, hcall, hholds⟩
  omega

theorem Step.inv (hstep : Step settings system after)
    (h : Inv settings system) : Inv settings after := by
  have hpermits := h.permits
  cases hstep with
  | tick hle => exact ⟨h.permits, h.booked⟩
  | @enter permits fresh deadline hcount =>
    refine ⟨?_, h.booked⟩
    rw [List.countP_cons_of_pos rfl]
    change permits + (_ + 1) + system.leases.length = _
    omega
  | enqueue fresh deadline hcount =>
    refine ⟨?_, h.booked⟩
    rw [List.countP_cons_of_neg (by simp [Call.holdsPermit])]
    exact hpermits
  | @grant permits front back call hcalls hphase hcount =>
    refine ⟨?_, h.booked⟩
    rw [hcalls, holders_append, Call.holdsPermit, hphase] at hpermits
    rw [holders_append]
    change permits + (_ + 1) + system.leases.length = _
    change _ + (_ + 0) + _ = _ at hpermits
    omega
  | leaveQueue hcalls hphase =>
    refine ⟨?_, h.booked⟩
    rw [hcalls, holders_append, Call.holdsPermit, hphase] at hpermits
    exact hpermits
  | readClock hcalls hphase =>
    refine ⟨?_, h.booked⟩
    rw [hcalls, holders_append, Call.holdsPermit, hphase] at hpermits
    rw [holders_append]
    exact hpermits
  | @round front back call now probe hcalls hphase =>
    have hholds : call.holdsPermit = true := by
      rw [Call.holdsPermit, hphase]
      rfl
    have hacquired := @Booked.acquire _ settings system.leases probe now
      system.locked h.booked (h.spare (by simp [hcalls]) hholds) call.fresh
    rw [hcalls, holders_append, hholds] at hpermits
    change _ + (_ + 1) + _ = _ at hpermits
    rw [System.round]
    generalize acquireLocked settings probe now call.fresh system.locked =
      result at hacquired
    cases hacquired with
    | lease hbooked =>
      refine ⟨?_, hbooked⟩
      change system.permits + (front ++ back).countP Call.holdsPermit +
        (system.leases.length + 1) = _
      omega
    | wait hconnecting hbooked =>
      refine ⟨?_, hbooked⟩
      simp only
      rw [holders_append]
      exact hpermits
  | resume hcalls hphase hpublished =>
    refine ⟨?_, h.booked⟩
    rw [hcalls, holders_append, Call.holdsPermit, hphase] at hpermits
    rw [holders_append]
    exact hpermits
  | @giveUp front back call epoch hcalls hphase =>
    refine ⟨?_, h.booked⟩
    rw [hcalls, holders_append, Call.holdsPermit, hphase] at hpermits
    change _ + (_ + 1) + _ = _ at hpermits
    change system.permits + 1 + (front ++ back).countP Call.holdsPermit +
      system.leases.length = _
    omega
  | complete hlease hphase => exact ⟨h.permits, h.booked.complete _⟩
  | noteTimeout probe hlease hphase => exact ⟨h.permits, h.booked.noteTimeout _⟩
  | markDead probe hlease hphase => exact ⟨h.permits, h.booked.markDead _⟩
  | @drop front back lease hleases hphase =>
    have hbooked := h.booked
    rw [hleases] at hpermits hbooked
    refine ⟨?_, ?_⟩
    · change _ + _ + (front ++ _ :: back).length = _
      rw [List.length_append, List.length_cons] at hpermits ⊢
      exact hpermits
    · refine hbooked.congr ?_ ?_
      · exact hbooked.known_phase _
      · intro entryId
        rw [leasesOn_append, leasesOn_append, Lease.on, Lease.on,
          Lease.outstanding, Lease.outstanding, hphase]
        rfl
  | @releaseSlot front back lease now probe hleases hphase =>
    have hbooked := h.booked
    rw [hleases] at hpermits hbooked
    refine ⟨?_, ?_⟩
    · change _ + _ + (front ++ _ :: back).length = _
      rw [List.length_append, List.length_cons] at hpermits ⊢
      exact hpermits
    refine @Booked.releaseSlot _ settings probe now front back lease
      system.locked hbooked ?_
    rw [Lease.outstanding, hphase]
    rfl
  | notify hsends => exact ⟨h.permits, h.booked⟩
  | @releasePermit front back lease hleases hphase =>
    have hbooked := h.booked
    rw [hleases] at hpermits hbooked
    refine ⟨?_, ?_⟩
    · change system.permits + 1 + system.calls.countP Call.holdsPermit +
        (front ++ back).length = _
      rw [List.length_append, List.length_cons] at hpermits
      rw [List.length_append]
      omega
    · refine hbooked.congr ?_ ?_
      · intro found hfound
        refine hbooked.known found ?_
        rw [List.mem_append] at hfound ⊢
        exact hfound.imp id (List.mem_cons_of_mem _)
      · intro entryId
        rw [leasesOn_append, Lease.on, Lease.outstanding, hphase]
        rfl
  | polled hconnects => exact ⟨h.permits, h.booked⟩
  | aborted hconnects => exact ⟨h.permits, h.booked⟩
  | connectEnds result hconnects => exact ⟨h.permits, h.booked⟩
  | finishConnect hconnects hfinish =>
    exact ⟨h.permits, h.booked.finishConnect hfinish⟩
  | publish hconnects => exact ⟨h.permits, h.booked⟩
  | janitor probe hjanitor => exact ⟨h.permits, h.booked.janitor⟩
  | notified hjanitor hwake =>
    exact ⟨h.permits, h.booked.nodup, h.booked.fresh, h.booked.known,
      h.booked.inFlight_eq, h.booked.leasesOn_le, h.booked.room⟩
  | slept hjanitor hdeadline hdue =>
    exact ⟨h.permits, h.booked.nodup, h.booked.fresh, h.booked.known,
      h.booked.inFlight_eq, h.booked.leasesOn_le, h.booked.room⟩
  | sweep probe => exact ⟨h.permits, h.booked.sweep rfl⟩

theorem Reaches.inv (hreaches : Reaches settings system) :
    Inv settings system := by
  obtain ⟨clock, hsteps⟩ := hreaches
  induction hsteps with
  | refl => exact inv_new settings clock
  | tail _ hstep ih => exact hstep.inv ih

end Steps

/-- In every run of a pool the load of a connection is the number of leases on
it, leases and callers stay within the permits, connections and the connect in
progress within the limit, and no caller with a permit is turned away. -/
theorem pool_within_limits (settings : Settings) (system : System C)
    (hreaches : Reaches settings system) :
    (∀ entry ∈ system.state.entries,
      entry.inFlight = leasesOn system.leases entry.id ∧
        entry.inFlight ≤ settings.config.maxInFlight) ∧
    system.leases.countP Lease.outstanding +
        system.calls.countP Call.holdsPermit ≤
      settings.config.maxConnections * settings.config.maxInFlight ∧
    system.state.live + system.state.connecting.toList.length ≤
      settings.config.maxConnections ∧
    ∀ call ∈ system.calls, call.holdsPermit = true →
      ∀ (probe : Probe C) (now : ℕ),
        pick settings (sweepLocked settings probe now system.locked).state now
            call.fresh ≠ .exhausted ∧
          (acquireLocked settings probe now call.fresh system.locked).1 ≠
            .closed := by
  have h := hreaches.inv
  refine ⟨?_, ?_, h.booked.room, ?_⟩
  · intro entry hentry
    have heq := h.booked.inFlight_eq entry hentry
    exact ⟨heq, heq.trans_le (h.booked.leasesOn_le entry.id)⟩
  · have hpermits := h.permits
    have hle := @List.countP_le_length _ Lease.outstanding system.leases
    rw [PoolConfig.capacity] at hpermits
    omega
  · intro call hcall hholds probe now
    have hspare := h.spare hcall hholds
    have hswept : Booked settings
        (sweepLocked settings probe now system.locked).state system.leases :=
      h.booked.sweep rfl
    refine ⟨hswept.not_exhausted hspare call.fresh, ?_⟩
    have hacquired := @Booked.acquire _ settings system.leases probe now
      system.locked h.booked hspare call.fresh
    generalize acquireLocked settings probe now call.fresh system.locked =
      result at hacquired
    cases hacquired with
    | lease hbooked => simp
    | wait hconnecting hbooked => simp

/-- The first caller of a new pool. -/
theorem first_caller_within_limits :
    ∃ (system : System Unit) (call : Call), call ∈ system.calls ∧
      call.holdsPermit = true ∧ ∀ probe now,
        pick (.new .new (seconds 5) (seconds 100))
          (sweepLocked (.new .new (seconds 5) (seconds 100)) probe now
            system.locked).state now call.fresh ≠ .exhausted := by
  let settings : Settings := .new .new (seconds 5) (seconds 100)
  let call : Call := ⟨false, seconds 5, false, .admitted⟩
  let system : System Unit :=
    { System.new settings 0 with permits := 255, calls := [call] }
  have hstep : Step settings (System.new settings 0) system :=
    .enter false (seconds 5) rfl
  have hcall : call ∈ system.calls := List.mem_singleton.mpr rfl
  refine ⟨system, call, hcall, rfl, fun probe now => ?_⟩
  exact ((pool_within_limits settings system ⟨0, .single hstep⟩).2.2.2 call
    hcall rfl probe now).1

end ConnPool

end DnsLattice
