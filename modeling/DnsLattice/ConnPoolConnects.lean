import DnsLattice.ConnPoolLedger

/-!
# The connects of the connection pool

A connect is known by its epoch from the section which spawns its task to the
channel which carries its outcome.  As long as every task which is spawned is
also polled, its guard reports for it, and the slot of the connect in progress,
the tasks and the channels agree.  A task which is dropped before its first
poll has no guard, and leaves the slot behind.
-/

namespace DnsLattice

namespace ConnPool

variable {C : Type}

/-! ## Connects and what becomes of them -/

namespace ConnectTask

def epoch : ConnectTask C → ℕ
  | .spawned epoch => epoch
  | .running epoch => epoch
  | .finishing epoch _ _ => epoch
  | .publishing epoch _ => epoch

def inProgress : ConnectTask C → Option ℕ
  | .spawned epoch => some epoch
  | .running epoch => some epoch
  | .finishing epoch _ _ => some epoch
  | .publishing _ _ => none

def ending : ConnectTask C → Option (ℕ × Except Error C)
  | .finishing epoch _ result => some (epoch, result)
  | _ => none

def gain (task : ConnectTask C) : Option C :=
  task.ending.bind fun ending => ending.2.toOption

def runs (epoch : ℕ) : ConnectTask C → Bool
  | .running found => decide (found = epoch)
  | _ => false

end ConnectTask

def outcomeOf (result : Except Error C) : Except Error Unit :=
  result.map fun _ => ()

def ends (before after : System C) : List (ℕ × Except Error C) :=
  (after.connects.filterMap ConnectTask.ending).filter
    fun ended => before.connects.any (ConnectTask.runs ended.1)

inductive ConnectEvent (C : Type) where
  | ended (epoch : ℕ) (result : Except Error C)
  | entered (conn : C)

namespace ConnectEvent

def ending : ConnectEvent C → Option (ℕ × Except Error C)
  | .ended epoch result => some (epoch, result)
  | .entered _ => none

def entering : ConnectEvent C → Option C
  | .ended _ _ => none
  | .entered conn => some conn

end ConnectEvent

def connectEvents (before after : System C) : List (ConnectEvent C) :=
  (ends before after).map (fun ended => .ended ended.1 ended.2) ++
    (opens before after).map .entered

def Polls (before after : System C) : Prop :=
  ∀ epoch, .spawned epoch ∈ before.connects →
    .spawned epoch ∈ after.connects ∨ .running epoch ∈ after.connects

def PolledStep (settings : Settings) (before after : System C) : Prop :=
  Step settings before after ∧ Polls before after

/-! ## The slot -/

def State.slot (state : State C) : Option ℕ × ℕ × ℕ :=
  (state.connecting, state.nextEpoch, state.nextEntryId)

section Slot

variable {settings : Settings} {probe : Probe C} {entryId now : ℕ}
  {state : State C} {locked : Locked C}

@[simp] theorem slot_sweep :
    (sweepLocked settings probe now locked).state.slot = locked.state.slot := by
  rw [sweepLocked_state]
  rfl

@[simp] theorem slot_complete :
    (complete entryId state).slot = state.slot := by
  rw [complete]
  cases state.position entryId <;> rfl

@[simp] theorem slot_noteTimeout :
    (noteTimeout probe entryId locked).2.state.slot = locked.state.slot := by
  rw [noteTimeout]
  cases locked.state.position entryId with
  | none => rfl
  | some idx =>
    dsimp only
    split_ifs <;> rfl

@[simp] theorem slot_markDead :
    (markDead probe entryId locked).state.slot = locked.state.slot := by
  rw [markDead]
  cases locked.state.position entryId <;> rfl

@[simp] theorem slot_releaseSlot :
    (releaseSlot settings probe entryId now locked).2.state.slot =
      locked.state.slot := by
  rw [releaseSlot]
  extract_lets
  cases locked.state.position entryId with
  | none => rfl
  | some idx =>
    dsimp only
    split_ifs <;> rfl

@[simp] theorem slot_janitor :
    (janitorLocked settings probe now locked).state.slot =
      locked.state.slot := by
  rw [janitorLocked, ← @slot_sweep _ settings probe now locked]
  dsimp only
  split_ifs <;> rfl

end Slot

/-! ## The invariant -/

def ConnectTask.Told (ended : List (ℕ × Except Error C)) :
    ConnectTask C → Prop
  | .spawned epoch => epoch ∉ ended.map Prod.fst
  | .running epoch => epoch ∉ ended.map Prod.fst
  | .finishing epoch _ result => (epoch, result) ∈ ended
  | .publishing epoch outcome =>
      ∃ result, (epoch, result) ∈ ended ∧ outcome = outcomeOf result

structure Attended (ended : List (ℕ × Except Error C)) (entered : List C)
    (system : System C) : Prop where
  /-- The connect in progress is the only one. -/
  single : system.connects.filterMap ConnectTask.inProgress =
    system.state.connecting.toList
  nodup : (system.connects.map ConnectTask.epoch).Nodup
  known : ∀ task ∈ system.connects, task.epoch < system.state.nextEpoch
  /-- Every connect has its task, until its outcome is in the channel. -/
  tracked : ∀ epoch < system.state.nextEpoch,
    epoch ∈ system.connects.map ConnectTask.epoch ∨
      (system.published epoch).isSome = true
  unpublished : ∀ task ∈ system.connects, system.published task.epoch = none
  waiting : ∀ call ∈ system.calls, ∀ epoch, call.phase = .waiting epoch →
    epoch < system.state.nextEpoch
  once : (ended.map Prod.fst).Nodup
  past : ∀ epoch ∈ ended.map Prod.fst, epoch < system.state.nextEpoch
  told : ∀ task ∈ system.connects, task.Told ended
  outcome : ∀ epoch outcome, system.published epoch = some outcome →
    epoch < system.state.nextEpoch ∧
      ∃ result, (epoch, result) ∈ ended ∧ outcome = outcomeOf result
  entered : (entered ++ system.connects.filterMap ConnectTask.gain).Perm
    (ended.filterMap fun ending => ending.2.toOption)

theorem attended_new (settings : Settings) (clock : ℕ) :
    Attended [] [] (System.new settings clock : System C) where
  single := rfl
  nodup := List.nodup_nil
  known := by rintro _ ⟨⟩
  tracked := by rintro _ ⟨⟩
  unpublished := by rintro _ ⟨⟩
  waiting := by rintro _ ⟨⟩
  once := List.nodup_nil
  past := by simp
  told := by rintro _ ⟨⟩
  outcome := by rintro _ _ ⟨⟩
  entered := .refl _

section Steps

variable {settings : Settings} {ended : List (ℕ × Except Error C)}
  {entered : List C} {system after : System C}

/-- A step which leaves the slot, the tasks and the channels. -/
theorem Attended.congr (h : Attended ended entered system)
    (hslot : after.state.slot = system.state.slot)
    (hconnects : after.connects = system.connects)
    (hpublished : after.published = system.published)
    (hcalls : ∀ call ∈ after.calls, ∀ epoch, call.phase = .waiting epoch →
      epoch < system.state.nextEpoch) :
    Attended ended entered after := by
  obtain ⟨hconnecting, hepoch, _⟩ : after.state.connecting =
      system.state.connecting ∧
      after.state.nextEpoch = system.state.nextEpoch ∧
      after.state.nextEntryId = system.state.nextEntryId := by
    simpa [State.slot] using hslot
  constructor
  · simpa only [hconnects, hconnecting] using h.single
  · simpa only [hconnects] using h.nodup
  · simpa only [hconnects, hepoch] using h.known
  · simpa only [hconnects, hepoch, hpublished] using h.tracked
  · simpa only [hconnects, hpublished] using h.unpublished
  · simpa only [hepoch] using hcalls
  · exact h.once
  · simpa only [hepoch] using h.past
  · simpa only [hconnects] using h.told
  · simpa only [hepoch, hpublished] using h.outcome
  · simpa only [hconnects] using h.entered

theorem Attended.polled (h : Attended ended entered system)
    {front back : List (ConnectTask C)} {epoch : ℕ}
    (hconnects : system.connects = front ++ .spawned epoch :: back) :
    Attended ended entered
      { system with connects := front ++ .running epoch :: back } := by
  obtain ⟨hsingle, hnodup, hknown, htracked, hopen, hwaiting, honce, hpast,
    htold, houtcome, hentered⟩ := h
  rw [hconnects] at hsingle hnodup hknown htracked hopen htold hentered
  constructor
  · simpa [ConnectTask.inProgress] using hsingle
  · simpa [ConnectTask.epoch] using hnodup
  · simpa [ConnectTask.epoch, or_imp, forall_and] using hknown
  · simpa [ConnectTask.epoch] using htracked
  · simpa [ConnectTask.epoch, or_imp, forall_and] using hopen
  · exact hwaiting
  · exact honce
  · exact hpast
  · simpa [ConnectTask.Told, or_imp, forall_and] using htold
  · exact houtcome
  · simpa [List.filterMap_cons, ConnectTask.gain, ConnectTask.ending]
      using hentered

theorem epoch_ne {front back : List (ConnectTask C)} {task other : ConnectTask C}
    (hnodup : ((front ++ task :: back).map ConnectTask.epoch).Nodup)
    (hother : other ∈ front ++ back) : other.epoch ≠ task.epoch := by
  rw [List.map_append, List.map_cons, List.nodup_middle, ← List.map_append]
    at hnodup
  intro hsame
  exact (List.nodup_cons.mp hnodup).1
    (List.mem_map.mpr ⟨other, hother, hsame⟩)

theorem ConnectTask.Told.append {task : ConnectTask C} (h : task.Told ended)
    {epoch : ℕ} {result : Except Error C} (hne : task.epoch ≠ epoch) :
    task.Told (ended ++ [(epoch, result)]) := by
  have hnotin : task.epoch ∉ ended.map Prod.fst →
      task.epoch ∉ (ended ++ [(epoch, result)]).map Prod.fst := by
    intro hold
    rw [List.map_append, List.map_singleton, List.mem_append,
      List.mem_singleton]
    exact not_or.mpr ⟨hold, hne⟩
  cases task with
  | spawned _ => exact hnotin h
  | running _ => exact hnotin h
  | finishing _ _ _ => exact List.mem_append_left _ h
  | publishing _ _ =>
    obtain ⟨found, hfound, houtcome⟩ := h
    exact ⟨found, List.mem_append_left _ hfound, houtcome⟩

theorem Attended.connectEnds (h : Attended ended entered system)
    {front back : List (ConnectTask C)} {epoch now : ℕ}
    (result : Except Error C)
    (hconnects : system.connects = front ++ .running epoch :: back) :
    Attended (ended ++ [(epoch, result)]) entered
      { system with
        connects := front ++ .finishing epoch now result :: back } := by
  obtain ⟨hsingle, hnodup, hknown, htracked, hopen, hwaiting, honce, hpast,
    htold, houtcome, hentered⟩ := h
  rw [hconnects] at hsingle hnodup hknown htracked hopen htold hentered
  have hnew : epoch ∉ ended.map Prod.fst := htold (.running epoch) (by simp)
  have hothers : ∀ task ∈ front ++ back,
      task.Told (ended ++ [(epoch, result)]) := by
    intro task htask
    refine (htold task ?_).append (epoch_ne hnodup htask)
    rw [List.mem_append] at htask ⊢
    exact htask.imp id (List.mem_cons_of_mem _)
  constructor
  · simpa [ConnectTask.inProgress] using hsingle
  · simpa [ConnectTask.epoch] using hnodup
  · simpa [ConnectTask.epoch, or_imp, forall_and] using hknown
  · simpa [ConnectTask.epoch] using htracked
  · simpa [ConnectTask.epoch, or_imp, forall_and] using hopen
  · exact hwaiting
  · rw [List.map_append]
    exact honce.append (List.nodup_singleton _) (by simpa using hnew)
  · have hlt : epoch < system.state.nextEpoch :=
      hknown (.running epoch) (by simp)
    intro found hfound
    rw [List.map_append, List.mem_append] at hfound
    rcases hfound with hold | hlast
    · exact hpast found hold
    · obtain rfl := List.mem_singleton.mp hlast
      exact hlt
  · intro task htask
    rcases List.mem_append.mp htask with hfront | hrest
    · exact hothers task (List.mem_append_left _ hfront)
    · rcases List.mem_cons.mp hrest with rfl | hback
      · exact List.mem_append_right _ (List.mem_singleton.mpr rfl)
      · exact hothers task (List.mem_append_right _ hback)
  · intro found outcome hpublished
    obtain ⟨hlt, old, hold, hsame⟩ := houtcome found outcome hpublished
    exact ⟨hlt, old, List.mem_append_left _ hold, hsame⟩
  · have hperm := hentered.append_right
      (([(epoch, result)] : List (ℕ × Except Error C)).filterMap
        fun ending => ending.2.toOption)
    rw [← List.filterMap_append] at hperm
    refine List.Perm.trans ?_ hperm
    cases result with
    | error _ =>
      simp [List.filterMap_cons, ConnectTask.gain, ConnectTask.ending,
        Except.toOption]
    | ok conn =>
      simp only [List.filterMap_append, List.filterMap_cons,
        ConnectTask.gain, ConnectTask.ending, Except.toOption,
        Option.bind_some, Option.bind_none, List.filterMap_nil,
        List.append_assoc]
      exact ((List.perm_append_singleton _ _).symm.append_left _).append_left _

theorem Attended.finishing (h : Attended ended entered system)
    {front back : List (ConnectTask C)} {epoch now : ℕ}
    {result : Except Error C}
    (hconnects : system.connects =
      front ++ .finishing epoch now result :: back) :
    system.state.connecting = some epoch ∧
      front.filterMap ConnectTask.inProgress = [] ∧
      back.filterMap ConnectTask.inProgress = [] := by
  have hsingle := h.single
  rw [hconnects, List.filterMap_append, List.filterMap_cons] at hsingle
  change _ ++ epoch :: _ = _ at hsingle
  cases hconnecting : system.state.connecting with
  | none => simp [hconnecting] at hsingle
  | some found =>
    rw [hconnecting, Option.toList_some, List.append_eq_singleton_iff]
      at hsingle
    rcases hsingle with ⟨hfront, hrest⟩ | ⟨_, hrest⟩
    · obtain ⟨rfl, hback⟩ := List.cons.inj hrest
      exact ⟨rfl, hfront, hback⟩
    · cases hrest

theorem finishConnect_own {state after : State C} {counters counters' : Counters}
    {epoch now : ℕ} {result : Except Error C} {wake : Bool}
    {outcome : Option (Except Error Unit)}
    (hown : state.connecting = some epoch)
    (hfinish : finishConnect epoch now result state counters =
      (after, counters', wake, outcome)) :
    outcome = some (outcomeOf result) ∧ after.connecting = none ∧
      after.nextEpoch = state.nextEpoch ∧
      (after.nextEntryId = state.nextEntryId ∧ result.toOption = none ∨
        ∃ conn, result = .ok conn ∧ after.entries =
          state.entries ++ [Entry.new state.nextEntryId conn now]) := by
  unfold ConnPool.finishConnect at hfinish
  rw [if_pos hown] at hfinish
  cases result with
  | error error =>
    simp only [Prod.mk.injEq] at hfinish
    obtain ⟨rfl, _, _, rfl⟩ := hfinish
    exact ⟨rfl, rfl, rfl, .inl ⟨rfl, rfl⟩⟩
  | ok conn =>
    simp only [Prod.mk.injEq] at hfinish
    obtain ⟨rfl, _, _, rfl⟩ := hfinish
    rw [ensureJanitorLocked]
    split_ifs <;> exact ⟨rfl, rfl, rfl, .inr ⟨conn, rfl, rfl⟩⟩

theorem Attended.finishConnect (h : Attended ended entered system)
    {front back : List (ConnectTask C)} {epoch now : ℕ}
    {result : Except Error C} {state : State C} {counters : Counters}
    {wake : Bool} {outcome : Option (Except Error Unit)}
    (hconnects : system.connects =
      front ++ .finishing epoch now result :: back)
    (hfinish : ConnPool.finishConnect epoch now result system.state
      system.counters = (state, counters, wake, outcome))
    (hstate : after.state = state) (hcalls : after.calls = system.calls)
    (hpublished : after.published = system.published)
    (hafter : after.connects =
      front ++ outcome.toList.map (ConnectTask.publishing epoch) ++ back) :
    Attended ended (entered ++ result.toOption.toList) after := by
  obtain ⟨hown, hfront, hback⟩ := h.finishing hconnects
  obtain ⟨rfl, hcleared, hepoch, _⟩ := finishConnect_own hown hfinish
  replace hafter : after.connects =
      front ++ .publishing epoch (outcomeOf result) :: back := by
    simpa using hafter
  obtain ⟨hsingle, hnodup, hknown, htracked, hopen, hwaiting, honce, hpast,
    htold, houtcome, hentered⟩ := h
  rw [hconnects] at hnodup hknown htracked hopen htold hentered
  have hreported : (epoch, result) ∈ ended :=
    htold (.finishing epoch now result) (by simp)
  constructor
  · rw [hafter, hstate, hcleared, List.filterMap_append, hfront]
    simpa [List.filterMap_cons, ConnectTask.inProgress] using hback
  · simpa [hafter, ConnectTask.epoch] using hnodup
  · simpa [hafter, hstate, hepoch, ConnectTask.epoch, or_imp, forall_and]
      using hknown
  · simpa [hafter, hstate, hepoch, hpublished, ConnectTask.epoch]
      using htracked
  · simpa [hafter, hpublished, ConnectTask.epoch, or_imp, forall_and]
      using hopen
  · simpa only [hcalls, hstate, hepoch] using hwaiting
  · exact honce
  · simpa only [hstate, hepoch] using hpast
  · intro task htask
    rw [hafter, List.mem_append, List.mem_cons] at htask
    rcases htask with hold | rfl | hold
    · exact htold task (by simp [hold])
    · exact ⟨result, hreported, rfl⟩
    · exact htold task (by simp [hold])
  · simpa only [hstate, hepoch, hpublished] using houtcome
  · refine List.Perm.trans ?_ hentered
    rw [hafter]
    simp only [List.filterMap_append, List.filterMap_cons, ConnectTask.gain,
      ConnectTask.ending, Option.bind_some, Option.bind_none,
      List.append_assoc]
    cases result with
    | error _ => exact .refl _
    | ok conn =>
      simp only [Except.toOption, Option.toList_some, List.singleton_append]
      exact List.perm_middle.symm.append_left _

theorem Attended.publish (h : Attended ended entered system)
    {front back : List (ConnectTask C)} {epoch : ℕ}
    {outcome : Except Error Unit}
    (hconnects : system.connects = front ++ .publishing epoch outcome :: back) :
    Attended ended entered
      { system with
        connects := front ++ back
        published :=
          Function.update system.published epoch (some outcome) } := by
  obtain ⟨hsingle, hnodup, hknown, htracked, hopen, hwaiting, honce, hpast,
    htold, houtcome, hentered⟩ := h
  rw [hconnects] at hsingle hnodup hknown htracked hopen htold hentered
  have hkept : ∀ task ∈ front ++ back,
      task ∈ front ++ .publishing epoch outcome :: back := by
    intro task htask
    rw [List.mem_append] at htask ⊢
    exact htask.imp id (List.mem_cons_of_mem _)
  constructor
  · simpa [List.filterMap_cons, ConnectTask.inProgress] using hsingle
  · rw [List.map_append, List.map_cons, List.nodup_middle, ← List.map_append]
      at hnodup
    exact (List.nodup_cons.mp hnodup).2
  · exact fun task htask => hknown task (hkept task htask)
  · intro found hfound
    by_cases hsame : found = epoch
    · subst hsame
      exact .inr (by simp)
    · rcases htracked found hfound with htask | hpublished
      · refine .inl ?_
        rw [List.map_append, List.map_cons, List.mem_append, List.mem_cons]
          at htask
        rw [List.map_append, List.mem_append]
        exact htask.imp id fun hrest => hrest.resolve_left hsame
      · refine .inr ?_
        dsimp only
        rw [Function.update_of_ne hsame]
        exact hpublished
  · intro task htask
    have hne : task.epoch ≠ epoch := epoch_ne hnodup htask
    dsimp only
    rw [Function.update_of_ne hne]
    exact hopen task (hkept task htask)
  · exact hwaiting
  · exact honce
  · exact hpast
  · exact fun task htask => htold task (hkept task htask)
  · intro found result hpublished
    dsimp only at hpublished
    by_cases hsame : found = epoch
    · subst hsame
      rw [Function.update_self] at hpublished
      obtain rfl := Option.some.inj hpublished
      have hmem : .publishing found outcome ∈
          front ++ .publishing found outcome :: back := by simp
      exact ⟨hknown _ hmem, htold _ hmem⟩
    · rw [Function.update_of_ne hsame] at hpublished
      exact houtcome found result hpublished
  · simpa [List.filterMap_cons, ConnectTask.gain, ConnectTask.ending]
      using hentered

theorem Attended.start (h : Attended ended entered system)
    (hidle : system.state.connecting = none)
    (hslot : after.state.slot = (some system.state.nextEpoch,
      system.state.nextEpoch + 1, system.state.nextEntryId))
    (hconnects : after.connects =
      .spawned system.state.nextEpoch :: system.connects)
    (hpublished : after.published = system.published)
    (hcalls : ∀ call ∈ after.calls, ∀ epoch, call.phase = .waiting epoch →
      epoch < system.state.nextEpoch + 1) :
    Attended ended entered after := by
  obtain ⟨hsingle, hnodup, hknown, htracked, hopen, hwaiting, honce, hpast,
    htold, houtcome, hentered⟩ := h
  simp only [State.slot, Prod.mk.injEq] at hslot
  obtain ⟨hconnecting, hepoch, _⟩ := hslot
  rw [hidle] at hsingle
  constructor
  · rw [hconnects, hconnecting, List.filterMap_cons, hsingle]
    rfl
  · rw [hconnects, List.map_cons]
    refine List.nodup_cons.mpr ⟨fun hmem => ?_, hnodup⟩
    obtain ⟨task, htask, hsame⟩ := List.mem_map.mp hmem
    exact (hknown task htask).ne hsame
  · intro task htask
    rw [hepoch]
    rw [hconnects, List.mem_cons] at htask
    rcases htask with rfl | hold
    · exact Nat.lt_succ_self _
    · exact (hknown task hold).trans (Nat.lt_succ_self _)
  · intro epoch hlt
    rw [hepoch] at hlt
    rw [hconnects, hpublished, List.map_cons, List.mem_cons]
    rcases Nat.lt_succ_iff_lt_or_eq.mp hlt with hold | rfl
    · exact (htracked epoch hold).imp_left Or.inr
    · exact .inl (.inl rfl)
  · intro task htask
    rw [hpublished]
    rw [hconnects, List.mem_cons] at htask
    rcases htask with rfl | hold
    · refine Option.eq_none_iff_forall_ne_some.mpr fun outcome hsome => ?_
      exact (houtcome _ outcome hsome).1.ne rfl
    · exact hopen task hold
  · simpa only [hepoch] using hcalls
  · exact honce
  · intro epoch hmem
    rw [hepoch]
    exact (hpast epoch hmem).trans (Nat.lt_succ_self _)
  · intro task htask
    rw [hconnects, List.mem_cons] at htask
    rcases htask with rfl | hold
    · exact fun hmem => (hpast _ hmem).ne rfl
    · exact htold task hold
  · intro epoch outcome hsome
    rw [hpublished] at hsome
    obtain ⟨hlt, hresult⟩ := houtcome epoch outcome hsome
    rw [hepoch]
    exact ⟨hlt.trans (Nat.lt_succ_self _), hresult⟩
  · rw [hconnects, List.filterMap_cons]
    exact hentered

theorem Attended.connecting_lt (h : Attended ended entered system) {epoch : ℕ}
    (hconnecting : system.state.connecting = some epoch) :
    epoch < system.state.nextEpoch := by
  have hmem : epoch ∈ system.connects.filterMap ConnectTask.inProgress := by
    rw [h.single, hconnecting]
    exact List.mem_singleton.mpr rfl
  obtain ⟨task, htask, hprogress⟩ := List.mem_filterMap.mp hmem
  have hknown := h.known task htask
  cases task with
  | publishing _ _ => cases hprogress
  | spawned _ =>
    cases hprogress
    exact hknown
  | running _ =>
    cases hprogress
    exact hknown
  | finishing _ _ _ =>
    cases hprogress
    exact hknown

theorem Attended.others (h : Attended ended entered system)
    {front back : List Call} {call : Call}
    (hcalls : system.calls = front ++ call :: back) :
    ∀ other ∈ front ++ back, ∀ epoch, other.phase = .waiting epoch →
      epoch < system.state.nextEpoch := by
  intro other hother
  refine h.waiting other ?_
  rw [hcalls, List.mem_append, List.mem_cons]
  exact (List.mem_append.mp hother).imp id Or.inr

theorem waiting_replace {front back : List Call} {next : Call} {bound : ℕ}
    (hothers : ∀ other ∈ front ++ back, ∀ epoch,
      other.phase = .waiting epoch → epoch < bound)
    (hnext : ∀ epoch, next.phase = .waiting epoch → epoch < bound) :
    ∀ other ∈ front ++ next :: back, ∀ epoch,
      other.phase = .waiting epoch → epoch < bound := by
  intro other hother
  rcases List.mem_append.mp hother with hfront | hrest
  · exact hothers other (List.mem_append_left _ hfront)
  · rcases List.mem_cons.mp hrest with rfl | hback
    · exact hnext
    · exact hothers other (List.mem_append_right _ hback)

theorem Attended.round (h : Attended ended entered system) {probe : Probe C}
    {front back : List Call} {call : Call} {now : ℕ}
    (hcalls : system.calls = front ++ call :: back) :
    Attended ended entered
      (system.round settings probe front back call now) := by
  have hothers := h.others hcalls
  have hslot := @slot_sweep _ settings probe now system.locked
  have hround := acquireLocked_spec settings probe now call.fresh system.locked
  rw [System.round]
  generalize sweepLocked settings probe now system.locked = swept
    at hslot hround
  generalize acquireLocked settings probe now call.fresh system.locked =
    result at hround
  have hfields := hslot
  simp only [State.slot, Prod.mk.injEq] at hfields
  obtain ⟨hconnecting, hepoch, hnext⟩ := hfields
  have hlonger : ∀ other ∈ front ++ back, ∀ epoch,
      other.phase = .waiting epoch → epoch < system.state.nextEpoch + 1 :=
    fun other hother epoch hwaits =>
      (hothers other hother epoch hwaits).trans (Nat.lt_succ_self _)
  have hslot' : swept.startConnect.state.slot =
      (some system.state.nextEpoch, system.state.nextEpoch + 1,
        system.state.nextEntryId) := by
    simp only [State.slot, Locked.startConnect, startConnectLocked]
    rw [hepoch, hnext]
    rfl
  cases hround with
  | lease husable hfresh => exact h.congr hslot rfl rfl hothers
  | scaleUp husable hfresh hidle hroom =>
    refine h.start (hconnecting.symm.trans hidle) hslot' ?_ rfl hlonger
    exact congrArg (fun epoch => .spawned epoch :: system.connects) hepoch
  | start hidle hroom =>
    refine h.start (hconnecting.symm.trans hidle) hslot' ?_ rfl ?_
    · exact congrArg (fun epoch => .spawned epoch :: system.connects) hepoch
    · refine waiting_replace hlonger fun epoch hwaits => ?_
      cases hwaits
      exact hepoch ▸ Nat.lt_succ_self _
  | join hjoined =>
    refine h.congr hslot rfl rfl ?_
    refine waiting_replace hothers fun epoch hwaits => ?_
    cases hwaits
    exact h.connecting_lt (hconnecting.symm.trans hjoined)
  | exhausted hexhausted => exact h.congr hslot rfl rfl hothers

/-! ## Steps and runs -/

theorem Attended.not_runs (h : Attended ended entered system)
    {task : ConnectTask C} (htask : task ∈ system.connects)
    {ending : ℕ × Except Error C} (hending : task.ending = some ending) :
    system.connects.any (ConnectTask.runs ending.1) = false := by
  rw [List.any_eq_false]
  intro other hother hruns
  cases task with
  | spawned _ => cases hending
  | running _ => cases hending
  | publishing _ _ => cases hending
  | finishing epoch now result =>
    cases hending
    cases other with
    | spawned _ => cases hruns
    | finishing _ _ _ => cases hruns
    | publishing _ _ => cases hruns
    | running found =>
      have hsame : ConnectTask.running found = .finishing epoch now result :=
        List.inj_on_of_nodup_map h.nodup hother htask
          (of_decide_eq_true hruns)
      cases hsame

theorem Attended.ends_eq_nil (h : Attended ended entered system)
    (hold : ∀ task ∈ after.connects, task.ending ≠ none →
      task ∈ system.connects) : ends system after = [] := by
  rw [ends, List.filter_eq_nil_iff]
  intro ending hmem
  obtain ⟨task, htask, hending⟩ := List.mem_filterMap.mp hmem
  have hne : task.ending ≠ none := by
    rw [hending]
    exact Option.some_ne_none ending
  rw [h.not_runs (hold task htask hne) hending]
  exact Bool.false_ne_true

theorem Attended.ends_ended (h : Attended ended entered system)
    {front back : List (ConnectTask C)} {epoch now : ℕ}
    {result : Except Error C}
    (hconnects : system.connects = front ++ .running epoch :: back)
    (hafter : after.connects = front ++ .finishing epoch now result :: back) :
    ends system after = [(epoch, result)] := by
  have hothers : ∀ tasks : List (ConnectTask C), tasks ⊆ system.connects →
      (tasks.filterMap ConnectTask.ending).filter
        (fun ended => system.connects.any (ConnectTask.runs ended.1)) = [] := by
    intro tasks hsubset
    rw [List.filter_eq_nil_iff]
    intro ending hmem
    obtain ⟨task, htask, hending⟩ := List.mem_filterMap.mp hmem
    rw [h.not_runs (hsubset htask) hending]
    exact Bool.false_ne_true
  have hruns : system.connects.any (ConnectTask.runs epoch) = true := by
    simp [hconnects, ConnectTask.runs]
  have hending : (ConnectTask.finishing epoch now result).ending =
      some (epoch, result) := rfl
  rw [ends, hafter, List.filterMap_append, List.filter_append,
    hothers front (by simp [hconnects]), List.filterMap_cons_some hending,
    List.filter_cons, hothers back (by simp [hconnects])]
  simp [hruns]

theorem Attended.quiet (h : Attended ended entered system)
    (hafter : Attended ended entered after) (hinv : Inv settings after)
    (hold : ∀ task ∈ after.connects, task.ending ≠ none →
      task ∈ system.connects)
    (hnext : after.state.nextEntryId = system.state.nextEntryId) :
    Attended (ended ++ ends system after) (entered ++ opens system after)
      after := by
  rw [h.ends_eq_nil hold, opens_eq_nil hinv hnext, List.append_nil,
    List.append_nil]
  exact hafter

theorem opens_finishConnect (hinv : Inv settings system)
    (hafter : Inv settings after) {epoch now : ℕ}
    {result : Except Error C} {state : State C} {counters : Counters}
    {wake : Bool} {outcome : Option (Except Error Unit)}
    (hown : system.state.connecting = some epoch)
    (hfinish : finishConnect epoch now result system.state system.counters =
      (state, counters, wake, outcome)) (hstate : after.state = state) :
    opens system after = result.toOption.toList := by
  obtain ⟨_, _, _, ⟨hnext, hnone⟩ | ⟨conn, rfl, hentries⟩⟩ :=
    finishConnect_own hown hfinish
  · rw [hnone]
    exact opens_eq_nil hafter (hstate ▸ hnext)
  · rw [← hstate] at hentries
    exact opens_opened hinv hentries

theorem round_frame {probe : Probe C} {front back : List Call} {call : Call}
    {now : ℕ} :
    (∀ task ∈ (system.round settings probe front back call now).connects,
      task.ending ≠ none → task ∈ system.connects) ∧
    (system.round settings probe front back call now).state.nextEntryId =
      system.state.nextEntryId := by
  have hnext : (sweepLocked settings probe now system.locked).state.nextEntryId =
      system.state.nextEntryId := by
    rw [sweepLocked_state]
    rfl
  have hround := acquireLocked_spec settings probe now call.fresh system.locked
  have hspawned : ∀ epoch, ∀ task ∈ .spawned epoch :: system.connects,
      task.ending ≠ none → task ∈ system.connects := by
    intro epoch task htask hending
    rcases List.mem_cons.mp htask with rfl | hold
    · exact absurd rfl hending
    · exact hold
  rw [System.round]
  generalize acquireLocked settings probe now call.fresh system.locked =
    result at hround
  cases hround with
  | lease husable hfresh => exact ⟨fun _ htask _ => htask, hnext⟩
  | scaleUp husable hfresh hidle hroom => exact ⟨hspawned _, hnext⟩
  | start hidle hroom => exact ⟨hspawned _, hnext⟩
  | join hjoined => exact ⟨fun _ htask _ => htask, hnext⟩
  | exhausted hexhausted => exact ⟨fun _ htask _ => htask, hnext⟩

/-- A step which leaves the tasks, the slot and the channels. -/
theorem Attended.keep (h : Attended ended entered system)
    (hinv : Inv settings after) (hslot : after.state.slot = system.state.slot)
    (hconnects : after.connects = system.connects)
    (hpublished : after.published = system.published)
    (hcalls : ∀ call ∈ after.calls, ∀ epoch, call.phase = .waiting epoch →
      epoch < system.state.nextEpoch) :
    Attended (ended ++ ends system after) (entered ++ opens system after)
      after := by
  refine h.quiet (h.congr hslot hconnects hpublished hcalls) hinv ?_ ?_
  · exact fun task htask _ => hconnects ▸ htask
  · exact congrArg (fun slot => slot.2.2) hslot

theorem not_polls {front back : List (ConnectTask C)} {epoch : ℕ}
    (h : Attended ended entered system)
    (hconnects : system.connects = front ++ .spawned epoch :: back)
    (hafter : after.connects = front ++ back) : ¬Polls system after := by
  intro hpolls
  have hnodup := h.nodup
  rw [hconnects] at hnodup
  have hkept := hpolls epoch (by simp [hconnects])
  rw [hafter] at hkept
  rcases hkept with hspawned | hrunning
  · exact epoch_ne hnodup hspawned rfl
  · exact epoch_ne hnodup hrunning rfl

theorem PolledStep.attended (hstep : PolledStep settings system after)
    (hinv : Inv settings system) (h : Attended ended entered system) :
    Attended (ended ++ ends system after) (entered ++ opens system after)
      after := by
  obtain ⟨hstep, hpolls⟩ := hstep
  have hafter := hstep.inv hinv
  cases hstep with
  | tick hle => exact h.keep hafter rfl rfl rfl h.waiting
  | enter fresh deadline hpermits =>
    refine h.keep hafter rfl rfl rfl ?_
    exact @waiting_replace [] _ _ _ h.waiting (by simp)
  | enqueue fresh deadline hpermits =>
    refine h.keep hafter rfl rfl rfl ?_
    exact @waiting_replace [] _ _ _ h.waiting (by simp)
  | grant hcalls hphase hpermits =>
    exact h.keep hafter rfl rfl rfl
      (waiting_replace (h.others hcalls) (by simp))
  | leaveQueue hcalls hphase => exact h.keep hafter rfl rfl rfl (h.others hcalls)
  | readClock hcalls hphase =>
    exact h.keep hafter rfl rfl rfl
      (waiting_replace (h.others hcalls) (by simp))
  | round probe hcalls hphase =>
    exact h.quiet (h.round hcalls) hafter round_frame.1 round_frame.2
  | resume hcalls hphase hpublished =>
    exact h.keep hafter rfl rfl rfl
      (waiting_replace (h.others hcalls) (by simp))
  | giveUp hcalls hphase => exact h.keep hafter rfl rfl rfl (h.others hcalls)
  | complete hlease hphase => exact h.keep hafter slot_complete rfl rfl h.waiting
  | noteTimeout probe hlease hphase =>
    exact h.keep hafter slot_noteTimeout rfl rfl h.waiting
  | markDead probe hlease hphase =>
    exact h.keep hafter slot_markDead rfl rfl h.waiting
  | drop hleases hphase => exact h.keep hafter rfl rfl rfl h.waiting
  | releaseSlot probe hleases hphase =>
    exact h.keep hafter slot_releaseSlot rfl rfl h.waiting
  | notify hsends => exact h.keep hafter rfl rfl rfl h.waiting
  | releasePermit hleases hphase => exact h.keep hafter rfl rfl rfl h.waiting
  | polled hconnects =>
    refine h.quiet (h.polled hconnects) hafter ?_ rfl
    intro task htask hending
    rw [hconnects, List.mem_append, List.mem_cons]
    rw [List.mem_append, List.mem_cons] at htask
    rcases htask with hold | rfl | hold
    · exact .inl hold
    · exact absurd rfl hending
    · exact .inr (.inr hold)
  | aborted hconnects => exact absurd hpolls (not_polls h hconnects rfl)
  | connectEnds result hconnects =>
    rw [h.ends_ended hconnects rfl,
      @opens_eq_nil _ settings system _ hafter rfl, List.append_nil]
    exact h.connectEnds result hconnects
  | finishConnect hconnects hfinish =>
    have hown := (h.finishing hconnects).1
    rw [opens_finishConnect hinv hafter hown hfinish rfl, h.ends_eq_nil,
      List.append_nil]
    · exact h.finishConnect hconnects hfinish rfl rfl rfl rfl
    · intro task htask hending
      rw [hconnects, List.mem_append, List.mem_cons]
      simp only [List.mem_append, List.mem_map] at htask
      rcases htask with (hfront | ⟨_, _, rfl⟩) | hback
      · exact .inl hfront
      · exact absurd rfl hending
      · exact .inr (.inr hback)
  | publish hconnects =>
    refine h.quiet (h.publish hconnects) hafter ?_ rfl
    intro task htask _
    rw [hconnects, List.mem_append, List.mem_cons]
    exact (List.mem_append.mp htask).imp id Or.inr
  | janitor probe hjanitor => exact h.keep hafter slot_janitor rfl rfl h.waiting
  | notified hjanitor hwake => exact h.keep hafter rfl rfl rfl h.waiting
  | slept hjanitor hdeadline hdue => exact h.keep hafter rfl rfl rfl h.waiting
  | sweep probe => exact h.keep hafter slot_sweep rfl rfl h.waiting

@[simp] theorem ending_connectEvents :
    (connectEvents system after).filterMap ConnectEvent.ending =
      ends system after := by
  have hended : ConnectEvent.ending ∘
      (fun ended : ℕ × Except Error C => .ended ended.1 ended.2) = some := rfl
  have hentered : ConnectEvent.ending ∘ (.entered : C → ConnectEvent C) =
      fun _ => none := rfl
  rw [connectEvents, List.filterMap_append, List.filterMap_map,
    List.filterMap_map, hended, hentered]
  simp

@[simp] theorem entering_connectEvents :
    (connectEvents system after).filterMap ConnectEvent.entering =
      opens system after := by
  have hended : ConnectEvent.entering ∘
      (fun ended : ℕ × Except Error C => .ended ended.1 ended.2) =
      fun _ => none := rfl
  have hentered : ConnectEvent.entering ∘ (.entered : C → ConnectEvent C) =
      some := rfl
  rw [connectEvents, List.filterMap_append, List.filterMap_map,
    List.filterMap_map, hended, hentered]
  simp

theorem mem_ending {log : List (ConnectEvent C)} {epoch : ℕ}
    {result : Except Error C} :
    (epoch, result) ∈ log.filterMap ConnectEvent.ending ↔
      .ended epoch result ∈ log := by
  rw [List.mem_filterMap]
  refine ⟨?_, fun hmem => ⟨_, hmem, rfl⟩⟩
  rintro ⟨event, hmem, hending⟩
  cases event with
  | entered _ => cases hending
  | ended _ _ =>
    cases hending
    exact hmem

theorem attended_of_logged {clock : ℕ} {log : List (ConnectEvent C)}
    (hrun : Logged (PolledStep settings) connectEvents (.new settings clock)
      log system) :
    Inv settings system ∧ Attended (log.filterMap ConnectEvent.ending)
      (log.filterMap ConnectEvent.entering) system := by
  refine hrun.invariant (fun log system => Inv settings system ∧
    Attended (log.filterMap ConnectEvent.ending)
      (log.filterMap ConnectEvent.entering) system)
    ⟨inv_new settings clock, attended_new settings clock⟩ ?_
  intro log before after h hstep
  rw [List.filterMap_append, List.filterMap_append, ending_connectEvents,
    entering_connectEvents]
  exact ⟨hstep.1.inv h.1, hstep.attended h.1 h.2⟩

/-- A caller who waits for a connect waits for the one in progress, or its
outcome is on the way or in the channel. -/
theorem Attended.of_waiting (h : Attended ended entered system) {call : Call}
    (hcall : call ∈ system.calls) {epoch : ℕ}
    (hphase : call.phase = .waiting epoch) :
    system.state.connecting = some epoch ∨
      ∃ result, (epoch, result) ∈ ended ∧
        (.publishing epoch (outcomeOf result) ∈ system.connects ∨
          system.published epoch = some (outcomeOf result)) := by
  have hprogress : ∀ task ∈ system.connects,
      task.inProgress = some epoch → system.state.connecting = some epoch := by
    intro task htask hsome
    have hmem : epoch ∈ system.connects.filterMap ConnectTask.inProgress :=
      List.mem_filterMap.mpr ⟨task, htask, hsome⟩
    rw [h.single, Option.mem_toList] at hmem
    exact hmem
  rcases h.tracked epoch (h.waiting call hcall epoch hphase) with
    hmem | hpublished
  · obtain ⟨task, htask, rfl⟩ := List.mem_map.mp hmem
    cases task with
    | spawned _ => exact .inl (hprogress _ htask rfl)
    | running _ => exact .inl (hprogress _ htask rfl)
    | finishing _ _ _ => exact .inl (hprogress _ htask rfl)
    | publishing _ _ =>
      obtain ⟨result, hresult, rfl⟩ := h.told _ htask
      exact .inr ⟨result, hresult, .inl htask⟩
  · obtain ⟨outcome, hsome⟩ := Option.isSome_iff_exists.mp hpublished
    obtain ⟨_, result, hresult, rfl⟩ := h.outcome epoch outcome hsome
    exact .inr ⟨result, hresult, .inr hsome⟩

end Steps

theorem connecting_of_wait {settings : Settings} {probe : Probe C} {now : ℕ}
    {fresh : Bool} {locked : Locked C} {epoch : ℕ}
    (hwait : (acquireLocked settings probe now fresh locked).1 = .wait epoch) :
    (acquireLocked settings probe now fresh locked).2.2.state.connecting =
      some epoch := by
  have hround := acquireLocked_spec settings probe now fresh locked
  generalize acquireLocked settings probe now fresh locked = result
    at hround hwait
  cases hround with
  | lease husable hfresh => cases hwait
  | scaleUp husable hfresh hidle hroom => cases hwait
  | start hidle hroom =>
    cases hwait
    rfl
  | join hjoined =>
    cases hwait
    exact hjoined
  | exhausted hexhausted => cases hwait

/-- In every run in which no connect task is dropped before its first poll, the
slot holds the one connect in progress; callers subscribe to it and wait for
nothing else than its end and its outcome; a task which ends clears the slot;
and the connections of the connects which have succeeded have been entered, each
once, but for the task which is about to do so. -/
theorem connects_settle_when_polled (settings : Settings) (clock : ℕ)
    (log : List (ConnectEvent C)) (system : System C)
    (hrun : Logged (PolledStep settings) connectEvents (.new settings clock)
      log system) :
    system.connects.filterMap ConnectTask.inProgress =
      system.state.connecting.toList ∧
    (∀ (probe : Probe C) (now : ℕ) (fresh : Bool) (epoch : ℕ),
      (acquireLocked settings probe now fresh system.locked).1 = .wait epoch →
      (acquireLocked settings probe now fresh
        system.locked).2.2.state.connecting = some epoch) ∧
    (∀ call ∈ system.calls, ∀ epoch, call.phase = .waiting epoch →
      system.state.connecting = some epoch ∨
        ∃ result, .ended epoch result ∈ log ∧
          (.publishing epoch (outcomeOf result) ∈ system.connects ∨
            system.published epoch = some (outcomeOf result))) ∧
    (∀ epoch outcome, system.published epoch = some outcome →
      ∃ result, .ended epoch result ∈ log ∧ outcome = outcomeOf result) ∧
    ((log.filterMap ConnectEvent.ending).map Prod.fst).Nodup ∧
    (∀ epoch now result, .finishing epoch now result ∈ system.connects →
      system.state.connecting = some epoch ∧
        (finishConnect epoch now result system.state
          system.counters).1.connecting = none ∧
        (finishConnect epoch now result system.state
          system.counters).2.2.2 = some (outcomeOf result)) ∧
    (log.filterMap ConnectEvent.entering ++
      system.connects.filterMap ConnectTask.gain).Perm
        ((log.filterMap ConnectEvent.ending).filterMap
          fun ending => ending.2.toOption) := by
  obtain ⟨_, h⟩ := attended_of_logged hrun
  refine ⟨h.single, fun _ _ _ _ => connecting_of_wait, ?_, ?_, h.once, ?_,
    h.entered⟩
  · intro call hcall epoch hphase
    simpa only [mem_ending] using h.of_waiting hcall hphase
  · intro epoch outcome hsome
    simpa only [mem_ending] using (h.outcome epoch outcome hsome).2
  · intro epoch now result htask
    obtain ⟨front, back, hconnects⟩ := List.append_of_mem htask
    have hown := (h.finishing hconnects).1
    obtain ⟨houtcome, hcleared, _⟩ := finishConnect_own hown
      (show finishConnect epoch now result system.state system.counters =
        (_, _, _, _) from rfl)
    exact ⟨hown, hcleared, houtcome⟩

theorem polls_of_running {before after : System C} {tasks : List (ConnectTask C)}
    (hconnects : before.connects = tasks)
    (hnone : ∀ epoch, .spawned epoch ∉ tasks) : Polls before after := by
  intro epoch hspawned
  rw [hconnects] at hspawned
  exact absurd hspawned (hnone epoch)

theorem polls_polled {before after : System C} {epoch : ℕ}
    (hbefore : before.connects = [.spawned epoch])
    (hafter : after.connects = [.running epoch]) : Polls before after := by
  intro found hspawned
  rw [hbefore, List.mem_singleton] at hspawned
  cases hspawned
  exact .inr (hafter ▸ List.mem_singleton.mpr rfl)

/-- The first caller of a pool finds the outcome of the connect it has started
in the channel. -/
theorem first_connect_settles :
    ∃ (log : List (ConnectEvent Unit)) (system : System Unit),
      Logged (PolledStep (.new .new (seconds 5) (seconds 100))) connectEvents
        (.new (.new .new (seconds 5) (seconds 100)) 0) log system ∧
      system.calls.map Call.phase = [.waiting 0] ∧
      system.published 0 = some (.ok ()) ∧
      ∃ result, .ended 0 result ∈ log ∧ .ok () = outcomeOf result := by
  let settings : Settings := .new .new (seconds 5) (seconds 100)
  let alive : Probe Unit := ⟨fun _ => true, fun _ => false⟩
  have hadmit : Logged (PolledStep settings) connectEvents (.new settings 0)
      _ _ :=
    .tail .refl ⟨@Step.enter Unit settings _ 255 false (seconds 5) rfl, by rintro _ ⟨⟩⟩
  have hclock := hadmit.tail ⟨@Step.readClock _ settings _ [] []
    ⟨_, _, _, _⟩ rfl rfl, by rintro _ ⟨⟩⟩
  have hround := hclock.tail ⟨@Step.round _ settings _ [] []
    ⟨_, _, _, _⟩ 0 alive rfl rfl, by rintro _ ⟨⟩⟩
  have hpolled := hround.tail ⟨@Step.polled _ settings _ [] [] 0 rfl,
    polls_polled rfl rfl⟩
  have hconnect := hpolled.tail ⟨@Step.connectEnds _ settings _ [] [] 0
    (.ok ()) rfl, @polls_of_running _ _ _ [.running 0] rfl (by simp)⟩
  have hentry := hconnect.tail ⟨@Step.finishConnect _ settings _ [] []
    _ _ _ _ _ _ _ rfl rfl,
    @polls_of_running _ _ _ [.finishing 0 0 (.ok ())] rfl (by simp)⟩
  have hpublish := hentry.tail ⟨@Step.publish _ settings _ [] [] _ _ rfl,
    @polls_of_running _ _ _ [.publishing 0 (.ok ())] rfl (by simp)⟩
  exact ⟨_, _, hpublish, rfl, rfl,
    (connects_settle_when_polled settings 0 _ _ hpublish).2.2.2.1 0 _ rfl⟩

/-- The task of the first connect is dropped before its first poll: the slot
stays taken, and the caller waits for a connect which nobody makes. -/
theorem unpolled_connect_strands_caller :
    ∃ system : System Unit,
      Reaches (.new .new (seconds 5) (seconds 100)) system ∧
      system.state.connecting = some 0 ∧ system.connects.length = 0 ∧
      system.published 0 = none ∧
      ∃ call ∈ system.calls, call.phase = .waiting 0 := by
  let settings : Settings := .new .new (seconds 5) (seconds 100)
  let alive : Probe Unit := ⟨fun _ => true, fun _ => false⟩
  have hadmit : Relation.ReflTransGen (Step settings) (.new settings 0) _ :=
    .single (@Step.enter Unit settings _ 255 false (seconds 5) rfl)
  have hclock := hadmit.tail (@Step.readClock _ settings _ [] []
    ⟨_, _, _, _⟩ rfl rfl)
  have hround := hclock.tail (@Step.round _ settings _ [] []
    ⟨_, _, _, _⟩ 0 alive rfl rfl)
  have haborted := hround.tail (@Step.aborted _ settings _ [] [] _ rfl)
  exact ⟨_, ⟨0, haborted⟩, rfl, rfl, rfl, _, List.mem_singleton.mpr rfl, rfl⟩

end ConnPool

end DnsLattice
