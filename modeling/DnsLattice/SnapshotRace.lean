import DnsLattice.SnapshotRestore
import DnsLattice.LeaseLifetime

/-!
# Snapshots of a pool in use

`snapshot` reads the clock first and takes the lock of each family afterwards,
while `allocate` reads the clock under the lock.  A mapping which is allocated
in between is measured against the earlier instant: it has more than the time
to live left, and `restore` refuses the whole snapshot.
-/

namespace DnsLattice

namespace PoolState

/-- What other threads do while a call waits. -/
abbrev Runs (instantMax : ℕ) : PoolState → PoolState → Prop :=
  Relation.ReflTransGen fun before after =>
    ∃ event, Step instantMax before event after

variable {instantMax : ℕ} {state after : PoolState} {family : IpFamily}

theorem Runs.inv (hruns : Runs instantMax state after) (h : state.Inv)
    (hrepresentable : state.Representable instantMax) :
    after.Inv ∧ after.Representable instantMax := by
  induction hruns with
  | refl => exact ⟨h, hrepresentable⟩
  | tail _ hlast ih =>
    obtain ⟨event, hstep⟩ := hlast
    exact ⟨hstep.inv ih.1, hstep.representable ih.1 ih.2⟩

theorem Runs.clock_le (hruns : Runs instantMax state after) :
    state.clock ≤ after.clock := by
  induction hruns with
  | refl => exact le_rfl
  | tail _ hlast ih =>
    obtain ⟨event, hstep⟩ := hlast
    exact ih.trans hstep.clock_le

theorem Runs.ttl_eq (hruns : Runs instantMax state after) (h : state.Inv)
    (hrepresentable : state.Representable instantMax) :
    after.pool.ttl = state.pool.ttl := by
  induction hruns with
  | refl => rfl
  | tail hruns hlast ih =>
    obtain ⟨event, hstep⟩ := hlast
    exact (hstep.ttl_eq (Runs.inv hruns h hrepresentable).1).trans ih

theorem Step.isSome_eq {event : PoolEvent}
    (hstep : Step instantMax state event after) (h : state.Inv) :
    (after.pool.families family).isSome =
      (state.pool.families family).isSome := by
  rcases hstep.cases h with
    ⟨_, hpool, _⟩ | ⟨locked, inner, next, hinner, _, rfl⟩
  · rw [hpool]
  · by_cases hsame : family = locked
    · subst hsame
      rw [FakeIpPool.families_withFamily, hinner]
      rfl
    · rw [FakeIpPool.families_withFamily_ne next hsame]

theorem Runs.isSome_eq (hruns : Runs instantMax state after) (h : state.Inv)
    (hrepresentable : state.Representable instantMax) :
    (after.pool.families family).isSome =
      (state.pool.families family).isSome := by
  induction hruns with
  | refl => rfl
  | tail hruns hlast ih =>
    obtain ⟨event, hstep⟩ := hlast
    exact (hstep.isSome_eq (Runs.inv hruns h hrepresentable).1).trans ih

/-! ## Leases made on the way -/

/-- An allocation which read the clock later than the first state has made the
lease. -/
def MadeLater (instantMax : ℕ) (first last : PoolState) (family : IpFamily)
    (name : Name) (lease : Lease family.width) : Prop :=
  ∃ before made,
    Runs instantMax first before ∧ first.clock < before.clock ∧
    (before.pool.leaseOf family name.lowercasedLabels).filter
      (Lease.liveAt before.clock) = none ∧
    Step instantMax before (.allocate family name) made ∧
    made.pool.leaseOf family name.lowercasedLabels = some lease ∧
    Runs instantMax made last

/-- A lease which ends later than one made in the first state has been made on
the way. -/
theorem madeLater_of_expiresAt {first : PoolState} (h : first.Inv)
    (hrepresentable : first.Representable instantMax)
    (hruns : Runs instantMax first state) {key : List Label}
    {lease : Lease family.width}
    (hlease : state.pool.leaseOf family key = some lease)
    (hlong : first.clock + first.pool.ttl < lease.expiresAt) :
    ∃ name, key = name.lowercasedLabels ∧
      MadeLater instantMax first state family name lease := by
  induction hruns with
  | refl =>
    have := h.timely family key lease hlease
    omega
  | @tail middle last hruns hlast ih =>
    obtain ⟨event, hstep⟩ := hlast
    have hmiddle := (Runs.inv hruns h hrepresentable).1
    have httl := Runs.ttl_eq hruns h hrepresentable
    rcases hstep.leaseOf_eq_some hmiddle hlease with
      hbefore | ⟨name, rfl, rfl, hexpires, hnone⟩
    · obtain ⟨name, hkey, before, made, hfirst, hclock, hfree, hmade, hfound,
        hrest⟩ := ih hbefore
      exact ⟨name, hkey, before, made, hfirst, hclock, hfree, hmade, hfound,
        hrest.tail ⟨event, hstep⟩⟩
    · have hclock : first.clock < middle.clock := by omega
      exact ⟨name, rfl, middle, last, hruns, hclock, hnone, hstep, hlease,
        .refl⟩

theorem MadeLater.expiresAt {first last : PoolState} {name : Name}
    {lease : Lease family.width} (h : first.Inv)
    (hrepresentable : first.Representable instantMax)
    (hlater : MadeLater instantMax first last family name lease) :
    first.clock + first.pool.ttl < lease.expiresAt := by
  obtain ⟨before, made, hruns, hclock, hfree, hstep, hlease, _⟩ := hlater
  have hbefore := (Runs.inv hruns h hrepresentable).1
  have httl := Runs.ttl_eq hruns h hrepresentable
  cases hstep with
  | @allocate pool family name reply hcall =>
    obtain ⟨inner, next, hinner, hinv, _, hallocated, rfl⟩ :=
      allocateWithTtl_eq_ok hbefore hcall
    rw [FakeIpPool.leaseOf_withFamily] at hlease
    rw [FakeIpPool.leaseOf, hinner, Option.bind_some] at hfree
    rcases hallocated.leaseOf_eq_some hinv hlease with
      ⟨hold, hlive⟩ | ⟨_, rfl, _⟩
    · -- The name had no live lease, and the allocation purges the others.
      rw [hold, Option.filter_some,
        if_pos (Lease.liveAt_iff.mpr hlive)] at hfree
      cases hfree
    · change first.clock + first.pool.ttl < before.clock + before.pool.ttl
      omega

end PoolState

/-! ## The call -/

/-- A `snapshot` call among other calls: the state when it reads the clock, and
for each family the state when it takes the lock and the pool when it releases
it. -/
structure SnapshotCall (instantMax : ℕ) where
  read : PoolState
  reaches : PoolState.Reaches instantMax read
  locked : IpFamily → PoolState
  mappings : IpFamily → List FakeIpMappingSnapshot
  released : IpFamily → FakeIpPool
  sections : ∀ family,
    (locked family).pool.snapshotFamily family read.clock =
      .ok (mappings family, released family)
  waits4 : PoolState.Runs instantMax read (locked .ipv4)
  waits6 : PoolState.Runs instantMax
    ⟨(locked .ipv4).clock, released .ipv4⟩ (locked .ipv6)

namespace FakeIpPool

theorem purgeFamily_of_snapshotFamily {pool released : FakeIpPool}
    {family : IpFamily} {now : ℕ} {mappings : List FakeIpMappingSnapshot}
    (hsection : pool.snapshotFamily family now = .ok (mappings, released)) :
    ∃ count, pool.purgeFamily family now = .ok (count, released) := by
  rw [snapshotFamily] at hsection
  rw [purgeFamily]
  cases hstate : pool.families family with
  | none =>
    rw [hstate] at hsection
    obtain ⟨_, rfl⟩ := Prod.mk.inj (Run.ok.inj hsection)
    exact ⟨0, rfl⟩
  | some state =>
    rw [hstate] at hsection
    obtain ⟨⟨count, purged⟩, hpurge, hrest⟩ := Run.bind_eq_ok_iff.mp hsection
    obtain ⟨_, rfl⟩ := Prod.mk.inj (Run.ok.inj hrest)
    refine ⟨count, ?_⟩
    simp only [hpurge, Run.ok_bind]
    rfl

theorem remainingLifetime_le {instantMax later : ℕ}
    {snapshot : FakeIpPoolSnapshot} {restored : FakeIpPool}
    (hrestore : restore instantMax snapshot later = .ok restored)
    {mapping : FakeIpMappingSnapshot} (hmapping : mapping ∈ snapshot.mappings) :
    mapping.remainingLifetime ≤ snapshot.ttl := by
  rw [restore] at hrestore
  obtain ⟨_, _, hrest⟩ := Run.bind_eq_ok_iff.mp hrestore
  cases helapsed : durationSince later snapshot.capturedAt with
  | none => simp [helapsed] at hrest
  | some elapsed =>
    simp only [helapsed] at hrest
    obtain ⟨fresh, _, hmore⟩ := Run.bind_eq_ok_iff.mp hrest
    split_ifs at hmore
    obtain ⟨families, hfold, _⟩ := Run.bind_eq_ok_iff.mp hmore
    obtain ⟨before, after, hstep⟩ := Run.exists_step_of_foldlM hmapping hfold
    by_contra hlong
    rw [restoreMapping, if_pos (not_le.mp hlong)] at hstep
    cases hstep

end FakeIpPool

namespace SnapshotCall

variable {instantMax : ℕ} (call : SnapshotCall instantMax)

def snapshot : FakeIpPoolSnapshot where
  capturedAt := call.read.clock
  ranges family := ((call.locked family).pool.families family).map
    fun state => (state.start, state.stop)
  ttl := call.read.pool.ttl
  mappings := call.mappings .ipv4 ++ call.mappings .ipv6

def Overtaken : Prop :=
  ∃ family name lease,
    (call.locked family).pool.leaseOf family name.lowercasedLabels =
        some lease ∧
      PoolState.MadeLater instantMax call.read (call.locked family) family name
        lease

def sources : Families := fun family => (call.released family).families family

theorem runs (family : IpFamily) :
    PoolState.Runs instantMax call.read (call.locked family) := by
  cases family with
  | ipv4 => exact call.waits4
  | ipv6 =>
    obtain ⟨count, hpurge⟩ :=
      FakeIpPool.purgeFamily_of_snapshotFamily (call.sections .ipv4)
    exact (call.waits4.tail ⟨_, .purge .ipv4
      (PoolState.Runs.clock_le call.waits4) hpurge⟩).trans call.waits6

theorem locked_inv (family : IpFamily) :
    (call.locked family).Inv ∧
      (call.locked family).Representable instantMax ∧
      (call.locked family).pool.ttl = call.read.pool.ttl := by
  obtain ⟨h, hrepresentable⟩ := call.reaches.inv
  obtain ⟨hinv, hlast⟩ := PoolState.Runs.inv (call.runs family) h hrepresentable
  exact ⟨hinv, hlast, PoolState.Runs.ttl_eq (call.runs family) h hrepresentable⟩

theorem captures (family : IpFamily) :
    call.mappings family = (FakeIpPool.leasesOf call.sources family).map
        (Lease.captured call.read.clock) ∧
      FakeIpPool.PurgesTo call.read.clock
        ((call.locked family).pool.families family) (call.sources family) := by
  obtain ⟨hinv, _, _⟩ := call.locked_inv family
  obtain ⟨after, hsection, _, hpurges, _⟩ := FakeIpPool.snapshotFamily_spec
    (call.locked family).pool family call.read.clock
    (fun state hstate => (hinv.families family state hstate).1)
  obtain ⟨hmappings, hreleased⟩ := Prod.mk.inj
    (Run.ok.inj ((call.sections family).symm.trans hsection))
  subst hreleased
  exact ⟨hmappings, hpurges⟩

theorem snapshot_eq :
    call.snapshot = FakeIpPool.capturedFrom call.sources call.read.clock
      call.read.pool.ttl := by
  have hranges : ∀ family, ((call.locked family).pool.families family).map
      (fun state => (state.start, state.stop)) =
        (call.sources family).map fun state => (state.start, state.stop) := by
    intro family
    rcases (call.captures family).2 with
      ⟨hnone, hnone'⟩ | ⟨state, purged, hstate, hpurged, hpurge⟩
    · rw [hnone, hnone']
    · rw [hstate, hpurged, Option.map_some, Option.map_some, hpurge.start_eq,
        hpurge.stop_eq]
  rw [snapshot, FakeIpPool.capturedFrom, (call.captures .ipv4).1,
    (call.captures .ipv6).1]
  simp only [hranges]

theorem sources_inv (family : IpFamily) {state : FamilyState family.width}
    (hstate : call.sources family = some state) : state.Inv := by
  rcases (call.captures family).2 with
    ⟨_, hnone⟩ | ⟨before, purged, hbefore, hpurged, hpurge⟩
  · cases hnone.symm.trans hstate
  · obtain rfl := Option.some.inj (hpurged.symm.trans hstate)
    exact FamilyState.inv_of_edits
      (((call.locked_inv family).1).families family before hbefore).1
      hpurge.edits

theorem sources_configured : Configured call.sources := by
  obtain ⟨h, hrepresentable⟩ := call.reaches.inv
  obtain ⟨family, hsome⟩ := h.configured
  rw [← PoolState.Runs.isSome_eq (call.runs family) h hrepresentable] at hsome
  refine ⟨family, ?_⟩
  rcases (call.captures family).2 with ⟨hnone, _⟩ | ⟨_, _, _, hpurged, _⟩
  · simp [hnone] at hsome
  · rw [hpurged]
    rfl

/-- What the call has captured of a family: the leases which were live when it
read the clock. -/
theorem mem_sources {family : IpFamily} {lease : Lease family.width} :
    lease ∈ FakeIpPool.leasesOf call.sources family ↔
      ∃ key, (call.locked family).pool.leaseOf family key = some lease ∧
        call.read.clock < lease.expiresAt := by
  have hlist : FakeIpPool.leasesOf call.sources family =
      FakeIpPool.leasesOf (call.released family).families family := rfl
  rw [hlist, FakeIpPool.mem_leasesOf]
  refine exists_congr fun key => ?_
  rw [FakeIpPool.PurgesTo.leaseOf_eq (call.captures family).2 key,
    FamilyState.filter_liveAt_eq_some]

/-- A snapshot is accepted at any later time unless a mapping it lists was
allocated between the reading of the clock and the locking of its family, at a
later instant. -/
theorem accepted_iff_not_overtaken (later : ℕ)
    (hlater : call.read.clock ≤ later) :
    (∃ restored, FakeIpPool.restore instantMax call.snapshot later =
      .ok restored) ↔ ¬call.Overtaken := by
  obtain ⟨h, hrepresentable⟩ := call.reaches.inv
  constructor
  · rintro ⟨restored, hrestore⟩ ⟨family, name, lease, hlease, hmade⟩
    have hlong := hmade.expiresAt h hrepresentable
    have hmem : lease ∈ FakeIpPool.leasesOf call.sources family :=
      call.mem_sources.mpr ⟨_, hlease, by omega⟩
    have hmapping : lease.captured call.read.clock ∈ call.snapshot.mappings := by
      have hlist : lease.captured call.read.clock ∈ call.mappings family := by
        rw [(call.captures family).1]
        exact List.mem_map_of_mem hmem
      cases family with
      | ipv4 => exact List.mem_append_left _ hlist
      | ipv6 => exact List.mem_append_right _ hlist
    have hle := FakeIpPool.remainingLifetime_le hrestore hmapping
    change lease.expiresAt - call.read.clock ≤ call.read.pool.ttl at hle
    omega
  · intro hfree
    rw [call.snapshot_eq]
    have hadmissible : ∀ family,
        ∀ lease ∈ FakeIpPool.leasesOf call.sources family,
          FakeIpPool.Admissible instantMax call.read.clock call.read.pool.ttl
            lease := by
      intro family lease hmem
      obtain ⟨key, hlease, hlive⟩ := call.mem_sources.mp hmem
      refine ⟨hlive, ?_, (call.locked_inv family).2.1 family key lease hlease⟩
      by_contra hlong
      obtain ⟨name, rfl, hmade⟩ := PoolState.madeLater_of_expiresAt h
        hrepresentable (call.runs family) hlease (not_le.mp hlong)
      exact hfree ⟨family, name, lease, hlease, hmade⟩
    obtain ⟨restored, hrestore, _⟩ := FakeIpPool.restore_captured hlater
      h.ttl_valid call.sources_configured
      (fun family state hstate => call.sources_inv family hstate) hadmissible
    exact ⟨restored, hrestore⟩

/-! ## Calls which run to their end -/

theorem exists_call {read locked : PoolState}
    (hreaches : PoolState.Reaches instantMax read)
    (hruns : PoolState.Runs instantMax read locked) :
    ∃ call : SnapshotCall instantMax, call.read = read ∧
      call.locked .ipv4 = locked ∧
      call.locked .ipv6 = ⟨locked.clock, call.released .ipv4⟩ := by
  obtain ⟨h, hrepresentable⟩ := hreaches.inv
  have hlocked := (PoolState.Runs.inv hruns h hrepresentable).1
  obtain ⟨first, hfirst, _⟩ := FakeIpPool.snapshotFamily_spec locked.pool .ipv4
    read.clock (fun state hstate => (hlocked.families .ipv4 state hstate).1)
  obtain ⟨count, hpurge⟩ := FakeIpPool.purgeFamily_of_snapshotFamily hfirst
  have hreleased : PoolState.Inv ⟨locked.clock, first⟩ :=
    (@PoolState.Step.purge instantMax locked first .ipv4 read.clock count
      (PoolState.Runs.clock_le hruns) hpurge).inv hlocked
  obtain ⟨second, hsecond, _⟩ := FakeIpPool.snapshotFamily_spec first .ipv6
    read.clock (fun state hstate => (hreleased.families .ipv6 state hstate).1)
  refine ⟨{
    read := read
    reaches := hreaches
    locked := IpFamily.each locked ⟨locked.clock, first⟩
    mappings := IpFamily.each _ _
    released := IpFamily.each first second
    sections := IpFamily.each hfirst hsecond
    waits4 := hruns
    waits6 := .refl }, rfl, rfl, rfl⟩

theorem not_overtaken (hclock : ∀ family,
    (call.locked family).clock = call.read.clock) : ¬call.Overtaken := by
  rintro ⟨family, name, lease, _, before, made, _, hlater, _, hstep, _, hruns⟩
  have hle := hstep.clock_le.trans (PoolState.Runs.clock_le hruns)
  rw [hclock] at hle
  omega

/-- A pool with one lease, whose snapshot nothing disturbs. -/
theorem accepted_after_firstGrant :
    ∃ call : SnapshotCall PoolState.clockMax,
      (call.read.pool.leaseOf .ipv4
        FamilyState.alphaName.lowercasedLabels).isSome ∧
      ∃ restored, FakeIpPool.restore PoolState.clockMax call.snapshot
        PoolState.nanosPerSecond = .ok restored := by
  have hcheck : (PoolState.firstGrant PoolState.nanosPerSecond 0).any
      (fun grant => (grant.2.2.leaseOf .ipv4
        FamilyState.alphaName.lowercasedLabels).isSome) = true := by
    decide
  obtain ⟨⟨pool, reply, granted⟩, hgrant, hlease⟩ := Run.exists_of_any hcheck
  obtain ⟨hreaches, hcall⟩ := PoolState.firstGrant_eq_ok hgrant
  obtain ⟨first, hstarts, hruns⟩ := hreaches 0
  have hgranted : PoolState.Reaches PoolState.clockMax ⟨0, granted⟩ :=
    ⟨first, hstarts, hruns.tail ⟨_, .allocate .ipv4 _ hcall⟩⟩
  obtain ⟨call, hread, hlocked4, hlocked6⟩ := exists_call hgranted .refl
  refine ⟨call, by rw [hread]; exact hlease, (accepted_iff_not_overtaken call
    PoolState.nanosPerSecond ?_).mpr (call.not_overtaken ?_)⟩
  · rw [hread]
    exact Nat.zero_le _
  · intro family
    cases family with
    | ipv4 => rw [hlocked4, hread]
    | ipv6 => rw [hlocked6, hread]

/-- A mapping is allocated five seconds after the call has read the clock and
before it has the lock; with ten seconds to live it is listed with fifteen. -/
theorem rejected_after_firstGrant :
    ∃ (call : SnapshotCall PoolState.clockMax) (later : ℕ),
      (call.locked .ipv6).clock ≤ later ∧
      FakeIpPool.restore PoolState.clockMax call.snapshot later =
        .err .invalidFakeIpSnapshot := by
  have hcheck : (PoolState.firstGrant (10 * PoolState.nanosPerSecond)
      (5 * PoolState.nanosPerSecond)).any (fun grant =>
        (grant.2.2.snapshotFamily .ipv4 0).any fun taken4 =>
          (taken4.2.snapshotFamily .ipv6 0).any fun taken6 =>
            decide ((FakeIpPool.restore PoolState.clockMax
              ⟨0, IpFamily.each (grant.2.2.ranges .ipv4)
                (taken4.2.ranges .ipv6), grant.1.ttl, taken4.1 ++ taken6.1⟩
              (5 * PoolState.nanosPerSecond)).error? =
                some .invalidFakeIpSnapshot)) = true := by
    decide
  obtain ⟨⟨pool, reply, granted⟩, hgrant, htaken⟩ := Run.exists_of_any hcheck
  obtain ⟨⟨mappings4, released4⟩, hfirst, htaken⟩ := Run.exists_of_any htaken
  obtain ⟨⟨mappings6, released6⟩, hsecond, hrefused⟩ :=
    Run.exists_of_any htaken
  have hrestore := Run.eq_err_of_error? (of_decide_eq_true hrefused)
  obtain ⟨hreaches, hcall⟩ := PoolState.firstGrant_eq_ok hgrant
  have hwaits : PoolState.Runs PoolState.clockMax ⟨0, pool⟩
      ⟨5 * PoolState.nanosPerSecond, granted⟩ :=
    Relation.ReflTransGen.tail (.single ⟨.tick, .tick (Nat.zero_le _)⟩)
      ⟨_, .allocate .ipv4 _ hcall⟩
  let call : SnapshotCall PoolState.clockMax :=
    { read := ⟨0, pool⟩
      reaches := hreaches 0
      locked := IpFamily.each ⟨5 * PoolState.nanosPerSecond, granted⟩
        ⟨5 * PoolState.nanosPerSecond, released4⟩
      mappings := IpFamily.each mappings4 mappings6
      released := IpFamily.each released4 released6
      sections := IpFamily.each hfirst hsecond
      waits4 := hwaits
      waits6 := .refl }
  have hranges : call.snapshot.ranges =
      IpFamily.each (granted.ranges .ipv4) (released4.ranges .ipv6) := by
    funext family
    cases family <;> rfl
  refine ⟨call, 5 * PoolState.nanosPerSecond, le_rfl, ?_⟩
  rw [← hranges] at hrestore
  exact hrestore

end SnapshotCall

end DnsLattice
