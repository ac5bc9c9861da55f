import DnsLattice.ConnPoolRuns
import DnsLattice.Transitions

/-!
# The janitor of the connection pool

An entry has at most two instants at which the janitor has to look at it.  The
deadline computed after a sweep is the earliest of them all.  What callers do
to an entry while the janitor sleeps either moves its instants to later times,
or comes with a wake-up.
-/

namespace DnsLattice

namespace ConnPool

variable {C : Type} {settings : Settings} {probe : Probe C} {now : ℕ}

/-! ## Due entries -/

/-- The entry has been idle for too long with no query in flight, has reached
the maximum lifetime, or has come to the end of its grace. -/
def Entry.Due (settings : Settings) (now : ℕ) (entry : Entry C) : Prop :=
  (entry.inFlight = 0 ∧
    settings.elapsed entry.lastActive settings.config.idleTimeout now = true) ∨
  (entry.drainingSince = none ∧ ∃ lifetime,
    settings.config.maxLifetime = some lifetime ∧
      settings.elapsed entry.openedAt lifetime now = true) ∨
  ∃ since, entry.drainingSince = some since ∧
    settings.elapsed since settings.drainGrace now = true

def Entry.endsAt (settings : Settings) (entry : Entry C) : Option ℕ :=
  match entry.drainingSince with
  | some since => settings.after since settings.drainGrace
  | none => settings.config.maxLifetime.bind
      fun lifetime => settings.after entry.openedAt lifetime

def Entry.idleAt (settings : Settings) (entry : Entry C) : Option ℕ :=
  if entry.inFlight = 0 then
    settings.after entry.lastActive settings.config.idleTimeout
  else none

def Entry.dueAt (settings : Settings) (entry : Entry C) : List ℕ :=
  (entry.endsAt settings).toList ++ (entry.idleAt settings).toList

theorem mem_dueAt {entry : Entry C} {due : ℕ} :
    due ∈ entry.dueAt settings ↔
      entry.endsAt settings = some due ∨ entry.idleAt settings = some due := by
  simp [Entry.dueAt]

theorem elapsed_iff {instant duration : ℕ} :
    settings.elapsed instant duration now = true ↔
      ∃ due, settings.after instant duration = some due ∧ due ≤ now := by
  simp [Settings.elapsed, Option.any_eq_true]

theorem due_iff {entry : Entry C} :
    entry.Due settings now ↔ ∃ due ∈ entry.dueAt settings, due ≤ now := by
  have hidle : (entry.inFlight = 0 ∧
      settings.elapsed entry.lastActive settings.config.idleTimeout now =
        true) ↔
      ∃ due, entry.idleAt settings = some due ∧ due ≤ now := by
    rw [Entry.idleAt, elapsed_iff]
    by_cases hzero : entry.inFlight = 0 <;> simp [hzero]
  have hends : ((entry.drainingSince = none ∧ ∃ lifetime,
      settings.config.maxLifetime = some lifetime ∧
        settings.elapsed entry.openedAt lifetime now = true) ∨
      ∃ since, entry.drainingSince = some since ∧
        settings.elapsed since settings.drainGrace now = true) ↔
      ∃ due, entry.endsAt settings = some due ∧ due ≤ now := by
    rw [Entry.endsAt]
    cases entry.drainingSince with
    | some since => simp [elapsed_iff]
    | none =>
      cases settings.config.maxLifetime with
      | none => simp
      | some lifetime => simp [elapsed_iff]
  rw [Entry.Due, hidle, hends]
  simp only [mem_dueAt, or_and_right, exists_or]
  exact or_comm

/-! ## The sweep and the deadline -/

theorem aged_cases (settings : Settings) (now : ℕ) (entry : Entry C) :
    (entry.aged settings now = { entry with drainingSince := some now } ∧
      ∃ due, entry.endsAt settings = some due ∧ due ≤ now) ∨
    (entry.aged settings now = entry ∧ (entry.drainingSince = none →
      ∀ due, entry.endsAt settings = some due → now < due)) := by
  rw [Entry.aged]
  split_ifs with hold
  · rw [Bool.and_eq_true, Option.isNone_iff_eq_none, Option.any_eq_true] at hold
    obtain ⟨hdraining, lifetime, hlifetime, helapsed⟩ := hold
    refine .inl ⟨rfl, ?_⟩
    rw [Entry.endsAt, hdraining, hlifetime]
    exact elapsed_iff.mp helapsed
  · refine .inr ⟨rfl, ?_⟩
    intro hdraining due hdue
    rw [Entry.endsAt, hdraining] at hdue
    by_contra hle
    refine hold ?_
    obtain ⟨lifetime, hlifetime, hafter⟩ := Option.bind_eq_some_iff.mp hdue
    rw [hdraining, hlifetime, Option.isNone_none, Bool.true_and,
      Option.any_some]
    exact elapsed_iff.mpr ⟨due, hafter, not_lt.mp hle⟩

theorem survivor_eq_some {entry next : Entry C}
    (hsurvivor : survivor settings probe now entry = some next) :
    next = entry.aged settings now ∧
      (entry.aged settings now).due settings now = none := by
  rw [survivor] at hsurvivor
  split_ifs at hsurvivor with hstays
  exact ⟨(Option.some.inj hsurvivor).symm, hstays.2⟩

theorem not_due_of_survivor {entry next : Entry C}
    (hsurvivor : survivor settings probe now entry = some next) :
    ¬next.Due settings now := by
  obtain ⟨rfl, hstays⟩ := survivor_eq_some hsurvivor
  rw [Entry.due] at hstays
  rintro (⟨hidle, helapsed⟩ | ⟨hdraining, lifetime, hlifetime, helapsed⟩ |
    ⟨since, hdraining, helapsed⟩)
  · cases hdraining : (entry.aged settings now).drainingSince with
    | some since => simp [hdraining, hidle] at hstays
    | none => simp [hdraining, hidle, helapsed] at hstays
  · rcases aged_cases settings now entry with ⟨hage, _⟩ | ⟨hage, hyoung⟩
    · rw [hage] at hdraining
      cases hdraining
    · rw [hage] at hdraining helapsed
      obtain ⟨due, hafter, hle⟩ := elapsed_iff.mp helapsed
      refine absurd (hyoung hdraining due ?_) (not_lt.mpr hle)
      rw [Entry.endsAt, hdraining, hlifetime]
      exact hafter
  · simp [hdraining, helapsed] at hstays

def Earliest (times : List ℕ) (next : Option ℕ) : Prop :=
  (∀ time, next = some time → time ∈ times) ∧
    ∀ time ∈ times, ∃ first, next = some first ∧ first ≤ time

theorem Earliest.consider {times : List ℕ} {next : Option ℕ}
    (h : Earliest times next) (candidate : Option ℕ) :
    Earliest (times ++ candidate.toList)
      (candidate.elim next fun candidate =>
        some (next.elim candidate fun next => min next candidate)) := by
  cases candidate with
  | none => simpa using h
  | some candidate =>
    cases next with
    | none =>
      have hempty : times = [] :=
        List.eq_nil_iff_forall_not_mem.mpr fun time htime => by
          obtain ⟨first, hfirst, _⟩ := h.2 time htime
          cases hfirst
      simp [hempty, Earliest]
    | some first =>
      obtain ⟨hfirst, hleast⟩ := h
      have hmem : first ∈ times := hfirst first rfl
      simp only [Option.some.injEq, exists_eq_left'] at hleast
      refine ⟨?_, ?_⟩
      · intro time htime
        obtain rfl := Option.some.inj htime
        rcases min_choice first candidate with hmin | hmin
        · simp [hmin, hmem]
        · simp [hmin]
      · intro time htime
        refine ⟨min first candidate, rfl, ?_⟩
        rcases List.mem_append.mp htime with hold | hnew
        · exact (min_le_left _ _).trans (hleast time hold)
        · obtain rfl := List.mem_singleton.mp hnew
          exact min_le_right _ _

theorem nextDeadlineLocked_earliest (settings : Settings) (state : State C) :
    Earliest (state.entries.flatMap (Entry.dueAt settings))
      (nextDeadlineLocked settings state) := by
  unfold nextDeadlineLocked
  extract_lets consider
  suffices hfold : ∀ (entries : List (Entry C)) (times : List ℕ)
      (next : Option ℕ), Earliest times next →
        Earliest (times ++ entries.flatMap (Entry.dueAt settings))
          (entries.foldl (fun next entry =>
            let next := consider next (entry.endsAt settings)
            if entry.inFlight = 0 then
              consider next
                (settings.after entry.lastActive settings.config.idleTimeout)
            else next) next) by
    exact hfold state.entries [] none ⟨by simp, by simp⟩
  intro entries
  induction entries with
  | nil => simp
  | cons entry rest ih =>
    intro times next h
    rw [List.foldl_cons, List.flatMap_cons, ← List.append_assoc]
    refine ih _ _ ?_
    have hends := h.consider (entry.endsAt settings)
    rw [Entry.dueAt, Entry.idleAt, ← List.append_assoc]
    dsimp only
    split_ifs with hidle
    · exact hends.consider _
    · simpa using hends

theorem lt_nextDeadline {locked : Locked C} {deadline : ℕ}
    (hnext : nextDeadlineLocked settings
      (sweepLocked settings probe now locked).state = some deadline) :
    now < deadline := by
  by_contra hle
  have hmem := (nextDeadlineLocked_earliest settings _).1 deadline hnext
  obtain ⟨entry, hentry, hdue⟩ := List.mem_flatMap.mp hmem
  rw [sweepLocked_state] at hentry
  obtain ⟨old, _, hsurvivor⟩ := List.mem_filterMap.mp hentry
  exact not_due_of_survivor hsurvivor
    (due_iff.mpr ⟨deadline, hdue, not_lt.mp hle⟩)

/-! ## Postponing -/

structure Postponed (settings : Settings) (before after : State C) : Prop where
  janitor : after.janitor = before.janitor
  deadline : after.janitorDeadline = before.janitorDeadline
  later : ∀ entry ∈ after.entries, ∃ old ∈ before.entries,
    ∀ due ∈ entry.dueAt settings, ∃ earlier ∈ old.dueAt settings,
      earlier ≤ due

namespace Postponed

variable {state : State C} {locked : Locked C}

theorem of_subset {after : State C} (hentries : after.entries ⊆ state.entries)
    (hjanitor : after.janitor = state.janitor)
    (hdeadline : after.janitorDeadline = state.janitorDeadline) :
    Postponed settings state after where
  janitor := hjanitor
  deadline := hdeadline
  later entry hentry :=
    ⟨entry, hentries hentry, fun due hdue => ⟨due, hdue, le_refl due⟩⟩

theorem trans {before middle after : State C}
    (hfirst : Postponed settings before middle)
    (hlast : Postponed settings middle after) :
    Postponed settings before after where
  janitor := hlast.janitor.trans hfirst.janitor
  deadline := hlast.deadline.trans hfirst.deadline
  later entry hentry := by
    obtain ⟨between, hbetween, hlater⟩ := hlast.later entry hentry
    obtain ⟨old, hold, hearlier⟩ := hfirst.later between hbetween
    refine ⟨old, hold, fun due hdue => ?_⟩
    obtain ⟨middle, hmiddle, hle⟩ := hlater due hdue
    obtain ⟨earlier, hmem, hle'⟩ := hearlier middle hmiddle
    exact ⟨earlier, hmem, hle'.trans hle⟩

/-- The grace starts at the end of the lifetime or after it. -/
theorem sweep : Postponed settings locked.state
    (sweepLocked settings probe now locked).state := by
  rw [sweepLocked_state]
  refine ⟨rfl, rfl, fun entry hentry => ?_⟩
  obtain ⟨old, hold, hsurvivor⟩ := List.mem_filterMap.mp hentry
  obtain ⟨rfl, _⟩ := survivor_eq_some hsurvivor
  refine ⟨old, hold, fun due hdue => ?_⟩
  rcases aged_cases settings now old with ⟨hage, ending, hends, hle⟩ | ⟨hage, _⟩
  · rw [hage, mem_dueAt] at hdue
    rcases hdue with hgrace | hidle
    · refine ⟨ending, mem_dueAt.mpr (.inl hends), hle.trans ?_⟩
      simp only [Entry.endsAt, Settings.after, instantAdd] at hgrace
      split_ifs at hgrace
      obtain rfl := Option.some.inj hgrace
      exact Nat.le_add_right _ _
    · exact ⟨due, mem_dueAt.mpr (.inr hidle), le_refl due⟩
  · rw [hage] at hdue
    exact ⟨due, hdue, le_refl due⟩

theorem retire (idx : Fin locked.state.entries.length) (reason : CloseReason) :
    Postponed settings locked.state
      (ConnPool.retire probe locked idx reason).state :=
  of_subset (List.eraseIdx_sublist _ _).subset rfl rfl

theorem update {idx : Fin state.entries.length} {change : Entry C → Entry C}
    (hlater : ∀ due ∈ (change (state.entries.get idx)).dueAt settings,
      ∃ earlier ∈ (state.entries.get idx).dueAt settings, earlier ≤ due) :
    Postponed settings state (state.update idx change) := by
  refine ⟨rfl, rfl, fun entry hentry => ?_⟩
  rcases List.mem_or_eq_of_mem_set hentry with hold | rfl
  · exact ⟨entry, hold, fun due hdue => ⟨due, hdue, le_refl due⟩⟩
  · exact ⟨(state.entries.get idx), List.getElem_mem idx.2, hlater⟩

theorem complete (entryId : ℕ) :
    Postponed settings state (complete entryId state) := by
  rw [ConnPool.complete]
  cases state.position entryId with
  | none => exact of_subset (List.Subset.refl _) rfl rfl
  | some idx => exact update fun due hdue => ⟨due, hdue, le_refl due⟩

theorem noteTimeout (entryId : ℕ) :
    Postponed settings locked.state
      (noteTimeout probe entryId locked).2.state := by
  rw [ConnPool.noteTimeout]
  cases locked.state.position entryId with
  | none => exact of_subset (List.Subset.refl _) rfl rfl
  | some idx =>
    dsimp only
    split_ifs
    · exact retire idx .error
    · have hupdated : Postponed settings locked.state
          (locked.state.update idx
            fun entry => { entry with timeouts := entry.timeouts + 1 }) :=
        update fun due hdue => ⟨due, hdue, le_refl due⟩
      exact hupdated

theorem markDead (entryId : ℕ) :
    Postponed settings locked.state (markDead probe entryId locked).state := by
  rw [ConnPool.markDead]
  cases locked.state.position entryId with
  | none => exact of_subset (List.Subset.refl _) rfl rfl
  | some idx => exact retire idx .error

theorem take (idx : Fin locked.state.entries.length) :
    Postponed settings locked.state (locked.take idx).state := by
  have hupdated : Postponed settings locked.state
      (locked.state.update idx
        fun entry => { entry with inFlight := entry.inFlight + 1 }) := by
    refine update fun due hdue => ?_
    rw [mem_dueAt] at hdue
    rcases hdue with hends | hidle
    · exact ⟨due, mem_dueAt.mpr (.inl hends), le_refl due⟩
    · simp [Entry.idleAt] at hidle
  exact hupdated

theorem acquire {fresh : Bool} {result : Placed C × Option ℕ × Locked C}
    (hround : Rounded settings fresh locked result) :
    Postponed settings locked.state result.2.2.state := by
  cases hround with
  | @lease idx husable hfresh => exact take idx
  | @scaleUp idx husable hfresh hconnecting hroom =>
    exact (take idx).trans (of_subset (List.Subset.refl _) rfl rfl)
  | start hconnecting hroom => exact of_subset (List.Subset.refl _) rfl rfl
  | join hconnecting => exact of_subset (List.Subset.refl _) rfl rfl
  | exhausted hexhausted => exact of_subset (List.Subset.refl _) rfl rfl

end Postponed

/-! ## The sleep of the janitor -/

def State.Covered (settings : Settings) (state : State C) : Prop :=
  ∀ entry ∈ state.entries, ∀ due ∈ entry.dueAt settings,
    ∃ deadline, state.janitorDeadline = some deadline ∧ deadline ≤ due

theorem State.Covered.postpone {before after : State C}
    (h : before.Covered settings) (hlater : Postponed settings before after) :
    after.Covered settings := by
  intro entry hentry due hdue
  obtain ⟨old, hold, hearlier⟩ := hlater.later entry hentry
  obtain ⟨earlier, hmem, hle⟩ := hearlier due hdue
  obtain ⟨deadline, hdeadline, hbefore⟩ := h old hold earlier hmem
  exact ⟨deadline, hlater.deadline.trans hdeadline, hbefore.trans hle⟩

theorem State.Covered.update {state : State C} (h : state.Covered settings)
    {idx : Fin state.entries.length} {change : Entry C → Entry C}
    (hchanged : ∀ due ∈ (change (state.entries.get idx)).dueAt settings,
      ∃ deadline, state.janitorDeadline = some deadline ∧ deadline ≤ due) :
    (state.update idx change).Covered settings := by
  intro entry hentry
  rcases List.mem_or_eq_of_mem_set hentry with hold | rfl
  · exact h entry hold
  · exact hchanged

/-- A connection which a lease leaves idle is covered, or a wake-up is sent. -/
theorem State.Covered.releaseSlot {locked : Locked C}
    (h : locked.state.Covered settings) (entryId : ℕ)
    (hquiet : (releaseSlot settings probe entryId now locked).1 = false) :
    (releaseSlot settings probe entryId now locked).2.state.Covered
      settings := by
  unfold ConnPool.releaseSlot at hquiet ⊢
  cases hposition : locked.state.position entryId with
  | none => exact h
  | some idx =>
    have hold := h _ (List.getElem_mem idx.2)
    simp only [hposition] at hquiet ⊢
    by_cases hlast : (locked.state.entries.get idx).inFlight - 1 = 0
    · rw [if_pos hlast] at hquiet ⊢
      by_cases hdraining : (locked.state.entries.get idx).drainingSince.isSome
      · rw [if_pos hdraining]
        refine h.postpone (.of_subset ?_ rfl rfl)
        change (locked.state.entries.set idx.1 _).eraseIdx idx.1 ⊆ _
        rw [List.eraseIdx_set_eq]
        exact (List.eraseIdx_sublist _ _).subset
      · rw [if_neg hdraining] at hquiet ⊢
        refine h.update fun due hdue => ?_
        rcases mem_dueAt.mp hdue with hends | hidle
        · exact hold due (mem_dueAt.mpr (.inl hends))
        · simp only [Entry.idleAt, hlast, if_true] at hidle
          simp only [hidle, State.update] at hquiet
          cases hdeadline : locked.state.janitorDeadline with
          | none => simp [hdeadline] at hquiet
          | some deadline => simpa [hdeadline] using hquiet
    · rw [if_neg hlast]
      refine h.update fun due hdue => ?_
      rcases mem_dueAt.mp hdue with hends | hidle
      · exact hold due (mem_dueAt.mpr (.inl hends))
      · simp only [Entry.idleAt, hlast, if_false] at hidle
        cases hidle

theorem releaseSlot_frame (settings : Settings) (probe : Probe C)
    (entryId now : ℕ) (locked : Locked C) :
    (releaseSlot settings probe entryId now locked).2.state.janitor =
      locked.state.janitor ∧
    (releaseSlot settings probe entryId now locked).2.state.entries.length ≤
      locked.state.entries.length := by
  unfold ConnPool.releaseSlot
  cases locked.state.position entryId with
  | none => exact ⟨rfl, le_refl _⟩
  | some idx =>
    dsimp only
    split_ifs
    · refine ⟨rfl, (List.eraseIdx_sublist _ _).length_le.trans ?_⟩
      simp [State.update]
    · exact ⟨rfl, by simp [State.update]⟩
    · exact ⟨rfl, by simp [State.update]⟩

theorem State.Covered.janitor {locked : Locked C}
    (hasleep : (janitorLocked settings probe now locked).state.janitor =
      some .asleep) :
    (janitorLocked settings probe now locked).state.Covered settings := by
  unfold janitorLocked at hasleep ⊢
  dsimp only at hasleep ⊢
  split_ifs at hasleep ⊢ with hempty
  intro entry hentry due hdue
  exact (nextDeadlineLocked_earliest settings _).2 due
    (List.mem_flatMap.mpr ⟨entry, hentry, hdue⟩)

/-! ## Runs -/

structure Watched (settings : Settings) (system : System C) : Prop where
  /-- Somebody looks after the entries. -/
  manned : system.state.entries ≠ [] → system.state.janitor.isSome = true
  covered : system.state.janitor = some .asleep → system.wake = false →
    system.sends = 0 → system.state.Covered settings

theorem watched_new (settings : Settings) (clock : ℕ) :
    Watched settings (System.new settings clock : System C) :=
  ⟨absurd rfl, by rintro ⟨⟩⟩

section Steps

variable {system after : System C}

/-- While the janitor is left alone and no wake-up is taken away, it is enough
that the entries are postponed. -/
theorem Watched.postpone (h : Watched settings system)
    (hlater : Postponed settings system.state after.state)
    (hwake : after.wake = false → system.wake = false)
    (hsends : after.sends = 0 → system.sends = 0) :
    Watched settings after where
  manned hentries := by
    rw [hlater.janitor]
    refine h.manned fun hempty => hentries ?_
    refine List.eq_nil_iff_forall_not_mem.mpr fun entry hentry => ?_
    obtain ⟨old, hold, _⟩ := hlater.later entry hentry
    rw [hempty] at hold
    exact absurd hold List.not_mem_nil
  covered hasleep hquiet hnone := by
    rw [hlater.janitor] at hasleep
    exact (h.covered hasleep (hwake hquiet) (hsends hnone)).postpone hlater

theorem Watched.congr (h : Watched settings system)
    (hstate : after.state = system.state)
    (hwake : after.wake = false → system.wake = false)
    (hsends : after.sends = 0 → system.sends = 0) :
    Watched settings after := by
  refine h.postpone ?_ hwake hsends
  rw [hstate]
  exact .of_subset (List.Subset.refl _) rfl rfl

theorem Watched.round (h : Watched settings system) {front back : List Call}
    {call : Call} :
    Watched settings (system.round settings probe front back call now) := by
  have hround := acquireLocked_spec settings probe now call.fresh system.locked
  have hlater : Postponed settings system.state
      (acquireLocked settings probe now call.fresh system.locked).2.2.state :=
    Postponed.sweep.trans (.acquire hround)
  rw [System.round]
  generalize acquireLocked settings probe now call.fresh system.locked =
    result at hlater
  obtain ⟨placed, started, locked⟩ := result
  cases placed with
  | lease entryId conn reused => exact h.postpone hlater id id
  | wait epoch => exact h.postpone hlater id id
  | closed => exact h.postpone hlater id id

/-- A new connection finds a janitor which is about to look, or wakes it. -/
theorem Watched.finishConnect (h : Watched settings system) {epoch : ℕ}
    {result : Except Error C} {state : State C} {counters : Counters}
    {wake : Bool} {outcome : Option (Except Error Unit)}
    (hfinish : finishConnect epoch now result system.state system.counters =
      (state, counters, wake, outcome))
    (hstate : after.state = state) (hwake : after.wake = (system.wake || wake))
    (hsends : after.sends = system.sends) : Watched settings after := by
  have hquiet : after.wake = false → system.wake = false := by
    rw [hwake, Bool.or_eq_false_iff]
    exact And.left
  unfold ConnPool.finishConnect at hfinish
  split_ifs at hfinish
  · cases result with
    | error error =>
      simp only [Prod.mk.injEq] at hfinish
      obtain ⟨rfl, _⟩ := hfinish
      refine h.postpone ?_ hquiet hsends.symm.trans
      rw [hstate]
      exact .of_subset (List.Subset.refl _) rfl rfl
    | ok conn =>
      simp only [Prod.mk.injEq] at hfinish
      obtain ⟨rfl, _, rfl, _⟩ := hfinish
      rw [Bool.or_true] at hwake
      refine ⟨fun _ => ?_, fun _ hsilent => ?_⟩
      · rw [hstate, ensureJanitorLocked]
        split_ifs with hjanitor
        · exact hjanitor
        · rfl
      · rw [hwake] at hsilent
        cases hsilent
  · simp only [Prod.mk.injEq] at hfinish
    obtain ⟨rfl, _⟩ := hfinish
    exact h.congr hstate hquiet hsends.symm.trans

theorem Watched.releaseSlot (h : Watched settings system) (entryId : ℕ)
    {leases : List (Lease C)} :
    Watched settings
      { system.leave
          (releaseSlot settings probe entryId now system.locked).2 with
        sends := system.sends +
          (releaseSlot settings probe entryId now system.locked).1.toNat
        leases := leases } := by
  obtain ⟨hjanitor, hlength⟩ :=
    releaseSlot_frame settings probe entryId now system.locked
  refine ⟨fun hentries => ?_, fun hasleep hwake hsends => ?_⟩
  · refine hjanitor ▸ h.manned fun hempty => hentries ?_
    refine List.eq_nil_of_length_eq_zero (Nat.le_zero.mp (hlength.trans ?_))
    exact (congrArg List.length hempty).le
  · obtain ⟨hnone, hquiet⟩ := Nat.add_eq_zero_iff.mp hsends
    refine State.Covered.releaseSlot ?_ entryId ?_
    · exact h.covered (hjanitor.symm.trans hasleep) hwake hnone
    · exact Bool.toNat_eq_zero.mp hquiet

theorem watched_janitor (system : System C) :
    Watched settings (system.leave
      (janitorLocked settings probe now system.locked)) := by
  refine ⟨?_, fun hasleep _ _ => State.Covered.janitor hasleep⟩
  change (janitorLocked settings probe now system.locked).state.entries ≠ [] →
    (janitorLocked settings probe now system.locked).state.janitor.isSome = true
  unfold janitorLocked
  dsimp only
  split_ifs with hempty
  · exact fun hentries => absurd (List.isEmpty_iff.mp hempty) hentries
  · exact fun _ => rfl

theorem Step.watched (hstep : Step settings system after)
    (h : Watched settings system) : Watched settings after := by
  cases hstep with
  | tick hle => exact h.congr rfl id id
  | enter fresh deadline hpermits => exact h.congr rfl id id
  | enqueue fresh deadline hpermits => exact h.congr rfl id id
  | grant hcalls hphase hpermits => exact h.congr rfl id id
  | leaveQueue hcalls hphase => exact h.congr rfl id id
  | readClock hcalls hphase => exact h.congr rfl id id
  | round probe hcalls hphase => exact h.round
  | resume hcalls hphase hpublished => exact h.congr rfl id id
  | giveUp hcalls hphase => exact h.congr rfl id id
  | complete hlease hphase => exact h.postpone (.complete _) id id
  | noteTimeout probe hlease hphase =>
    exact h.postpone (@Postponed.noteTimeout _ _ probe system.locked _) id id
  | markDead probe hlease hphase =>
    exact h.postpone (@Postponed.markDead _ _ probe system.locked _) id id
  | drop hleases hphase => exact h.congr rfl id id
  | releaseSlot probe hleases hphase => exact h.releaseSlot _
  | notify hsends => exact ⟨h.manned, by simp⟩
  | releasePermit hleases hphase => exact h.congr rfl id id
  | polled hconnects => exact h.congr rfl id id
  | aborted hconnects => exact h.congr rfl id id
  | connectEnds result hconnects => exact h.congr rfl id id
  | finishConnect hconnects hfinish =>
    exact h.finishConnect hfinish rfl rfl rfl
  | publish hconnects => exact h.congr rfl id id
  | janitor probe hjanitor => exact watched_janitor system
  | notified hjanitor hwake => exact ⟨fun _ => rfl, by simp⟩
  | slept hjanitor hdeadline hdue => exact ⟨fun _ => rfl, by simp⟩
  | sweep probe =>
    exact h.postpone (@Postponed.sweep _ _ probe _ system.locked) id id

theorem Reaches.watched (hreaches : Reaches settings system) :
    Watched settings system := by
  obtain ⟨clock, hsteps⟩ := hreaches
  exact invariant_of_reaches (watched_new settings clock)
    (fun _ _ h hstep => hstep.watched h) hsteps

end Steps

/-- In every run of a pool a janitor is there as long as there are entries.
While it sleeps and no wake-up is stored or about to be sent, no entry is due
before its deadline, or ever if it has none; and the deadline computed after a
sweep lies after the sweep. -/
theorem janitor_wakes_in_time (settings : Settings) (system : System C)
    (hreaches : Reaches settings system) :
    (system.state.entries ≠ [] → system.state.janitor.isSome = true) ∧
    (system.state.janitor = some .asleep → system.wake = false →
      system.sends = 0 → ∀ entry ∈ system.state.entries, ∀ time,
        (∀ deadline, system.state.janitorDeadline = some deadline →
          time < deadline) →
        ¬entry.Due settings time) ∧
    ∀ (probe : Probe C) (now deadline : ℕ),
      nextDeadlineLocked settings
          (sweepLocked settings probe now system.locked).state =
        some deadline →
      now < deadline := by
  have h := hreaches.watched
  refine ⟨h.manned, ?_, fun _ _ _ => lt_nextDeadline⟩
  intro hasleep hwake hsends entry hentry time hbefore hdue
  obtain ⟨due, hmem, hle⟩ := due_iff.mp hdue
  obtain ⟨deadline, hdeadline, hearlier⟩ :=
    h.covered hasleep hwake hsends entry hentry due hmem
  have hlt := hbefore deadline hdeadline
  omega

/-- The janitor of a pool with one idle connection sleeps until that has been
idle for twenty seconds. -/
theorem first_connection_watched :
    ∃ system : System Unit,
      Reaches (.new .new (seconds 5) (seconds 1000)) system ∧
      system.state.janitor = some .asleep ∧
      system.state.janitorDeadline = some (seconds 20) ∧
      system.state.entries.length = 1 ∧
      ∀ entry ∈ system.state.entries,
        ¬entry.Due (.new .new (seconds 5) (seconds 1000)) (seconds 19) := by
  let settings : Settings := .new .new (seconds 5) (seconds 1000)
  let alive : Probe Unit := ⟨fun _ => true, fun _ => false⟩
  have hadmit : Relation.ReflTransGen (Step settings) (.new settings 0) _ :=
    .single (@Step.enter Unit settings _ 255 false (seconds 5) rfl)
  have hclock := hadmit.tail (@Step.readClock _ settings _ [] []
    ⟨_, _, _, _⟩ rfl rfl)
  have hround := hclock.tail (@Step.round _ settings _ [] []
    ⟨_, _, _, _⟩ 0 alive rfl rfl)
  have hpolled := hround.tail (@Step.polled _ settings _ [] [] _ rfl)
  have hconnect := hpolled.tail (@Step.connectEnds _ settings _ [] [] _
    (.ok ()) rfl)
  have hentry := hconnect.tail (@Step.finishConnect _ settings _ [] []
    _ _ _ _ _ _ _ rfl rfl)
  have hfirst := hentry.tail (.janitor alive rfl)
  have hwoken := hfirst.tail (.notified (by decide) rfl)
  have hasleep := hwoken.tail (.janitor alive rfl)
  have hreaches : Reaches settings _ := ⟨0, hasleep⟩
  refine ⟨_, hreaches, by decide, by decide,
    by decide, fun entry hmem => ?_⟩
  refine (janitor_wakes_in_time settings _ hreaches).2.1 (by decide)
    rfl rfl entry hmem _ fun deadline hdeadline => ?_
  have hseconds := hdeadline.symm.trans (show _ = some (seconds 20) by
    decide)
  obtain rfl := Option.some.inj hseconds
  decide

end ConnPool

end DnsLattice
