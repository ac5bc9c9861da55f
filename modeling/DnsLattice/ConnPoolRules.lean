import DnsLattice.ConnPoolModel

/-!
# What the sections of the connection pool do

A sweep and a retirement only thin the entries out; the other sections change
one entry.  The choice of a connection is described by what each of its answers
says about the state.
-/

namespace DnsLattice

namespace ConnPool

variable {C : Type} {settings : Settings} {probe : Probe C} {now : ℕ}

/-! ## Thinning out -/

/-- Some entries are gone, and none of those left has changed its number or
its load or has stopped to drain. -/
structure Thinned (before after : List (Entry C)) : Prop where
  ids : (after.map Entry.id).Sublist (before.map Entry.id)
  kept : ∀ entry ∈ after, ∃ old ∈ before,
    entry.id = old.id ∧ entry.inFlight = old.inFlight
  live_le : after.countP Entry.live ≤ before.countP Entry.live

theorem thinned_of_sublist {before after : List (Entry C)}
    (hsublist : after.Sublist before) : Thinned before after where
  ids := hsublist.map _
  kept entry hentry := ⟨entry, hsublist.subset hentry, rfl, rfl⟩
  live_le := hsublist.countP_le

theorem thinned_filterMap (change : Entry C → Option (Entry C))
    (hchange : ∀ entry next, change entry = some next →
      next.id = entry.id ∧ next.inFlight = entry.inFlight ∧
        (next.live = true → entry.live = true))
    (entries : List (Entry C)) :
    Thinned entries (entries.filterMap change) := by
  induction entries with
  | nil => exact ⟨.slnil, by simp, by simp⟩
  | cons entry rest ih =>
    cases hnext : change entry with
    | none =>
      rw [List.filterMap_cons_none hnext]
      refine ⟨ih.ids.cons _, ?_, ih.live_le.trans ?_⟩
      · intro found hfound
        obtain ⟨old, hold, hsame⟩ := ih.kept found hfound
        exact ⟨old, List.mem_cons_of_mem _ hold, hsame⟩
      · exact (List.sublist_cons_self entry rest).countP_le
    | some next =>
      obtain ⟨hid, hinFlight, hlive⟩ := hchange entry next hnext
      rw [List.filterMap_cons_some hnext]
      refine ⟨?_, ?_, ?_⟩
      · rw [List.map_cons, List.map_cons, hid]
        exact ih.ids.cons_cons _
      · intro found hfound
        rcases List.mem_cons.mp hfound with rfl | hrest
        · exact ⟨entry, by simp, hid, hinFlight⟩
        · obtain ⟨old, hold, hsame⟩ := ih.kept found hrest
          exact ⟨old, List.mem_cons_of_mem _ hold, hsame⟩
      · have hle := ih.live_le
        rw [List.countP_cons, List.countP_cons]
        split_ifs with hnow hbefore
        · omega
        · exact absurd (hlive hnow) hbefore
        · omega
        · omega

def survivor (settings : Settings) (probe : Probe C) (now : ℕ)
    (entry : Entry C) : Option (Entry C) :=
  if probe.alive entry.conn ∧
      (entry.aged settings now).due settings now = none then
    some (entry.aged settings now)
  else none

theorem sweepEntry_state (locked : Locked C) (entry : Entry C) :
    (sweepEntry settings probe now locked entry).state =
      { locked.state with
        entries := locked.state.entries ++
          (survivor settings probe now entry).toList } := by
  rw [sweepEntry, survivor]
  by_cases halive : probe.alive entry.conn = true
  · rw [if_pos halive]
    cases hdue : (entry.aged settings now).due settings now with
    | none => simp [halive]
    | some reason => simp [Locked.close]
  · rw [if_neg halive]
    simp [halive, Locked.close]

theorem foldl_sweepEntry_state (entries : List (Entry C)) :
    ∀ locked : Locked C,
      (entries.foldl (sweepEntry settings probe now) locked).state =
        { locked.state with
          entries := locked.state.entries ++
            entries.filterMap (survivor settings probe now) } := by
  induction entries with
  | nil =>
    intro locked
    simp
  | cons entry rest ih =>
    intro locked
    rw [List.foldl_cons, ih, sweepEntry_state]
    cases hnext : survivor settings probe now entry with
    | none => simp [hnext]
    | some next => simp [hnext]

theorem sweepLocked_state (locked : Locked C) :
    (sweepLocked settings probe now locked).state =
      { locked.state with
        entries := locked.state.entries.filterMap
          (survivor settings probe now) } := by
  rw [sweepLocked, foldl_sweepEntry_state]
  rfl

theorem aged_eq (entry : Entry C) :
    (entry.aged settings now).id = entry.id ∧
      (entry.aged settings now).inFlight = entry.inFlight ∧
      ((entry.aged settings now).live = true → entry.live = true) := by
  rw [Entry.aged]
  split_ifs
  · exact ⟨rfl, rfl, by simp [Entry.live]⟩
  · exact ⟨rfl, rfl, id⟩

theorem sweepLocked_thinned (locked : Locked C) :
    Thinned locked.state.entries
      (sweepLocked settings probe now locked).state.entries := by
  rw [sweepLocked_state]
  refine thinned_filterMap _ ?_ _
  intro entry next hnext
  rw [survivor] at hnext
  split_ifs at hnext
  obtain rfl := Option.some.inj hnext
  exact aged_eq entry

theorem retire_thinned (locked : Locked C)
    (idx : Fin locked.state.entries.length) (reason : CloseReason) :
    Thinned locked.state.entries
      (retire probe locked idx reason).state.entries :=
  thinned_of_sublist (List.eraseIdx_sublist _ _)

/-! ## Changing one entry -/

theorem position_eq_some {state : State C} {entryId : ℕ}
    {idx : Fin state.entries.length}
    (hposition : state.position entryId = some idx) :
    (state.entries.get idx).id = entryId := by
  have hfound := List.find?_some hposition
  exact of_decide_eq_true hfound

theorem position_eq_none {state : State C} {entryId : ℕ}
    (hposition : state.position entryId = none) {entry : Entry C}
    (hentry : entry ∈ state.entries) : entry.id ≠ entryId := by
  obtain ⟨place, hplace, rfl⟩ := List.mem_iff_getElem.mp hentry
  have hnot := List.find?_eq_none.mp hposition ⟨place, hplace⟩
    (List.mem_finRange _)
  simpa using hnot

section Update

variable {state : State C} {idx : Fin state.entries.length}
  {change : Entry C → Entry C}

theorem map_update {β : Type} {field : Entry C → β}
    (hfield : field (change (state.entries.get idx)) = field (state.entries.get idx)) :
    (state.update idx change).entries.map field = state.entries.map field := by
  rw [State.update, List.map_set, hfield]
  refine List.ext_getElem (by simp) ?_
  intro place _ _
  rw [List.getElem_set]
  split_ifs with hsame
  · subst hsame
    simp
  · rfl

theorem live_update
    (hlive : (change (state.entries.get idx)).live = (state.entries.get idx).live) :
    (state.update idx change).live = state.live := by
  rw [State.live, State.live, State.update, List.countP_set idx.2, hlive,
    List.get_eq_getElem]
  by_cases hbefore : state.entries[idx.1].live = true
  · have hpos : 0 < state.entries.countP Entry.live :=
      List.countP_pos_iff.mpr ⟨_, List.getElem_mem idx.2, hbefore⟩
    rw [if_pos hbefore]
    omega
  · rw [if_neg hbefore]
    omega

theorem mem_update (hnodup : (state.entries.map Entry.id).Nodup)
    {entry : Entry C} (hentry : entry ∈ (state.update idx change).entries) :
    entry = change (state.entries.get idx) ∨
      (entry ∈ state.entries ∧ entry.id ≠ (state.entries.get idx).id) := by
  obtain ⟨place, hplace, rfl⟩ := List.mem_iff_getElem.mp hentry
  simp only [State.update, List.length_set] at hplace
  simp only [State.update, List.getElem_set]
  split_ifs with hsame
  · exact .inl rfl
  · refine .inr ⟨List.getElem_mem _, ?_⟩
    intro heq
    have hentries := List.inj_on_of_nodup_map hnodup (List.getElem_mem hplace)
      (List.getElem_mem idx.2) heq
    exact hsame ((List.Nodup.of_map _ hnodup).getElem_inj_iff.mp hentries).symm

end Update

/-! ## The choice -/

theorem leastLoaded_eq_some {state : State C} {qualifies : Entry C → Bool}
    {idx : Fin state.entries.length}
    (hbest : state.leastLoaded qualifies = some idx) :
    qualifies (state.entries.get idx) = true :=
  (List.mem_filter.mp (List.argmin_mem hbest)).2

theorem leastLoaded_eq_none {state : State C} {qualifies : Entry C → Bool}
    (hbest : state.leastLoaded qualifies = none) {entry : Entry C}
    (hentry : entry ∈ state.entries) : qualifies entry = false := by
  obtain ⟨place, hplace, rfl⟩ := List.mem_iff_getElem.mp hentry
  have hempty := List.argmin_eq_none.mp hbest
  by_contra hqualifies
  have hmem : (⟨place, hplace⟩ : Fin state.entries.length) ∈
      (List.finRange state.entries.length).filter
        fun idx => qualifies (state.entries.get idx) :=
    List.mem_filter.mpr ⟨List.mem_finRange _, by simpa using hqualifies⟩
  rw [hempty] at hmem
  cases hmem

inductive Picked (settings : Settings) (state : State C) :
    Pick state.entries.length → Prop
  | use {idx : Fin state.entries.length} {scaleUp : Bool}
      (husable : (state.entries.get idx).usable settings = true)
      (hscale : scaleUp = true → state.connecting = none ∧
        state.live < settings.config.maxConnections) :
      Picked settings state (.use idx scaleUp)
  | start (hconnecting : state.connecting = none)
      (hroom : state.live < settings.config.maxConnections) :
      Picked settings state (.wait true)
  | join (hconnecting : state.connecting.isSome) :
      Picked settings state (.wait false)
  | exhausted (hconnecting : state.connecting = none)
      (hfull : settings.config.maxConnections ≤ state.live)
      (hloaded : ∀ entry ∈ state.entries, entry.usable settings = false) :
      Picked settings state .exhausted

theorem pick_spec (settings : Settings) (state : State C) (now : ℕ)
    (fresh : Bool) : Picked settings state (pick settings state now fresh) := by
  unfold pick
  extract_lets threshold connecting room freshBest
  have hidle : connecting = false → state.connecting = none :=
    Option.not_isSome_iff_eq_none.mp ∘ ne_true_of_eq_false
  by_cases hwait : (fresh && freshBest.isNone && (connecting || room)) = true
  · rw [if_pos hwait]
    cases hconnecting : connecting with
    | true => exact .join hconnecting
    | false =>
      rw [hconnecting, Bool.false_or, Bool.and_eq_true] at hwait
      exact .start (hidle hconnecting) (of_decide_eq_true hwait.2)
  · rw [if_neg hwait]
    cases hbest : freshBest.or (state.leastLoaded (Entry.usable settings)) with
    | some idx =>
      refine .use ?_ ?_
      · rcases Option.or_eq_some_iff.mp hbest with hfresh | ⟨_, hany⟩
        · change (if fresh = true then _ else none) = some idx at hfresh
          split_ifs at hfresh
          have hqualifies := leastLoaded_eq_some hfresh
          rw [Bool.and_eq_true] at hqualifies
          exact hqualifies.1
        · exact leastLoaded_eq_some hany
      · intro hscale
        rw [Bool.and_eq_true, Bool.and_eq_true, Bool.and_eq_true] at hscale
        exact ⟨hidle (Bool.not_eq_true' _ ▸ hscale.1.1.2),
          of_decide_eq_true hscale.1.2⟩
    | none =>
      rw [Option.or_eq_none_iff] at hbest
      change Picked settings state (if connecting = true then .wait false
        else if room = true then .wait true else .exhausted)
      split_ifs with hconnecting hroom
      · exact .join hconnecting
      · exact .start (hidle (Bool.eq_false_of_not_eq_true hconnecting))
          (of_decide_eq_true hroom)
      · exact .exhausted (hidle (Bool.eq_false_of_not_eq_true hconnecting))
          (not_lt.mp fun hlt => hroom (decide_eq_true hlt))
          (fun entry hentry => leastLoaded_eq_none hbest.2 hentry)

/-- A caller which wants a fresh connection gets one which has answered only
from a pool which may not open another. -/
theorem pick_fresh {settings : Settings} {state : State C} {now : ℕ}
    {idx : Fin state.entries.length} {scaleUp : Bool}
    (hpick : pick settings state now true = .use idx scaleUp) :
    (state.entries.get idx).answered = false ∨
      settings.config.maxConnections ≤ state.live := by
  unfold pick at hpick
  extract_lets threshold connecting room freshBest at hpick
  by_cases hwait : (true && freshBest.isNone && (connecting || room)) = true
  · rw [if_pos hwait] at hpick
    cases hpick
  · rw [if_neg hwait] at hpick
    cases hfresh : freshBest with
    | some best =>
      -- The fresh one is preferred.
      rw [hfresh, Option.some_or] at hpick
      cases hpick
      have hbest : state.leastLoaded
          (fun entry => entry.usable settings && !entry.answered) =
            some idx := hfresh
      have hqualifies := leastLoaded_eq_some hbest
      rw [Bool.and_eq_true, Bool.not_eq_true'] at hqualifies
      exact .inl hqualifies.2
    | none =>
      rw [hfresh, Option.isNone_none, Bool.and_self, Bool.true_and,
        Bool.or_eq_true, not_or] at hwait
      exact .inr (not_lt.mp fun hlt => hwait.2 (decide_eq_true hlt))

/-! ## The round of a caller -/

/-- A caller takes a place on a connection. -/
def Locked.take (locked : Locked C) (idx : Fin locked.state.entries.length) :
    Locked C where
  state := locked.state.update idx
    fun entry => { entry with inFlight := entry.inFlight + 1 }
  counters :=
    { locked.counters with
      inFlight := locked.counters.inFlight + 1
      queries := locked.counters.queries + 1
      reusedQueries := locked.counters.reusedQueries +
        if (locked.state.entries.get idx).answered then 1 else 0 }
  closing := locked.closing

def Locked.startConnect (locked : Locked C) : Locked C :=
  { locked with state := startConnectLocked locked.state }

inductive Rounded (settings : Settings) (fresh : Bool) (swept : Locked C) :
    Placed C × Option ℕ × Locked C → Prop
  | lease {idx : Fin swept.state.entries.length}
      (husable : (swept.state.entries.get idx).usable settings = true)
      (hfresh : fresh = true → (swept.state.entries.get idx).answered = false ∨
        settings.config.maxConnections ≤ swept.state.live) :
      Rounded settings fresh swept
        (.lease (swept.state.entries.get idx).id (swept.state.entries.get idx).conn
          (swept.state.entries.get idx).answered, none, swept.take idx)
  | scaleUp {idx : Fin swept.state.entries.length}
      (husable : (swept.state.entries.get idx).usable settings = true)
      (hfresh : fresh = true → (swept.state.entries.get idx).answered = false ∨
        settings.config.maxConnections ≤ swept.state.live)
      (hconnecting : swept.state.connecting = none)
      (hroom : swept.state.live < settings.config.maxConnections) :
      Rounded settings fresh swept
        (.lease (swept.state.entries.get idx).id (swept.state.entries.get idx).conn
          (swept.state.entries.get idx).answered, some swept.state.nextEpoch,
          (swept.take idx).startConnect)
  | start (hconnecting : swept.state.connecting = none)
      (hroom : swept.state.live < settings.config.maxConnections) :
      Rounded settings fresh swept
        (.wait swept.state.nextEpoch, some swept.state.nextEpoch,
          swept.startConnect)
  | join {epoch : ℕ} (hconnecting : swept.state.connecting = some epoch) :
      Rounded settings fresh swept (.wait epoch, none, swept)
  | exhausted (hexhausted : ∃ now,
        pick settings swept.state now fresh = .exhausted) :
      Rounded settings fresh swept (.closed, none, swept)

theorem acquireLocked_spec (settings : Settings) (probe : Probe C) (now : ℕ)
    (fresh : Bool) (locked : Locked C) :
    Rounded settings fresh (sweepLocked settings probe now locked)
      (acquireLocked settings probe now fresh locked) := by
  unfold acquireLocked
  extract_lets swept
  have hpicked := pick_spec settings swept.state now fresh
  cases hpick : pick settings swept.state now fresh with
  | use idx scaleUp =>
    rw [hpick] at hpicked
    have hfresh : fresh = true →
        (swept.state.entries.get idx).answered = false ∨
          settings.config.maxConnections ≤ swept.state.live := by
      rintro rfl
      exact pick_fresh hpick
    cases hpicked with
    | use husable hscale =>
      cases scaleUp with
      | false => exact .lease husable hfresh
      | true =>
        exact .scaleUp husable hfresh (hscale rfl).1 (hscale rfl).2
  | wait start =>
    rw [hpick] at hpicked
    cases hpicked with
    | start hconnecting hroom => exact .start hconnecting hroom
    | join hconnecting =>
      obtain ⟨epoch, hepoch⟩ := Option.isSome_iff_exists.mp hconnecting
      simp only [Bool.false_eq_true, if_false, hepoch, Option.elim_some]
      exact .join hepoch
  | exhausted => exact .exhausted ⟨now, hpick⟩

end ConnPool

end DnsLattice
