import DnsLattice.FakeIpPoolRuns
import DnsLattice.LeaseTable

/-!
# Restoring a snapshot of the Fake IP pool

A snapshot lists the live leases of a pool with the time they have left, each
family in the order of last use.  Restoring it replays the list into empty
families, so that the new pool has the same table of leases as the old one,
and no sequence of calls can tell the two apart.
-/

namespace DnsLattice

def Lease.captured {family : IpFamily} (capturedAt : ℕ)
    (lease : Lease family.width) : FakeIpMappingSnapshot :=
  ⟨lease.name, ⟨family, lease.address⟩, lease.expiresAt - capturedAt⟩

namespace FamilyState

theorem snapshot_eq {family : IpFamily} {state : FamilyState family.width}
    {now : ℕ} (hlive : ∀ key lease, state.leaseOf key = some lease →
      now < lease.expiresAt) :
    state.snapshot now (IpAddr.mk family) =
      state.table.leases.map (Lease.captured now) := by
  rw [snapshot, table, List.map_map, ← List.filterMap_eq_map]
  refine List.filterMap_congr ?_
  intro entry hentry
  rw [mem_sortByKey] at hentry
  have hexpires := hlive entry.1 (leaseOfEntry entry.2)
    (leaseOf_eq_some.mpr ⟨entry.2, lookup_of_mem_entries hentry, rfl⟩)
  rw [durationSince, if_pos (show now ≤ entry.2.2.expiresAt from hexpires.le)]
  rfl

variable {w : ℕ}

structure Recordable (state : FamilyState w) (leases : List (Lease w)) :
    Prop where
  distinct : leases.Pairwise fun first second =>
    first.name.lowercasedLabels ≠ second.name.lowercasedLabels ∧
      first.address ≠ second.address
  name : ∀ lease ∈ leases, state.mappingOf lease.name = none
  address : ∀ lease ∈ leases, state.reverse.lookup lease.address = none
  inside : ∀ lease ∈ leases, state.contains lease.address = true

theorem Recordable.record {state : FamilyState w} {lease : Lease w}
    {leases : List (Lease w)} (h : Recordable state (lease :: leases)) :
    Recordable (state.record lease.name lease.address lease.expiresAt)
      leases where
  distinct := (List.pairwise_cons.mp h.distinct).2
  name other hother := by
    have hne := ((List.pairwise_cons.mp h.distinct).1 other hother).1
    rw [mappingOf, lookup_record, if_neg hne.symm]
    exact h.name other (List.mem_cons_of_mem _ hother)
  address other hother := by
    have hne := ((List.pairwise_cons.mp h.distinct).1 other hother).2
    refine (AList.lookup_insert_ne hne.symm).trans ?_
    exact h.address other (List.mem_cons_of_mem _ hother)
  inside other hother := h.inside other (List.mem_cons_of_mem _ hother)

theorem Recordable.tail {state : FamilyState w} {lease : Lease w}
    {leases : List (Lease w)} (h : Recordable state (lease :: leases)) :
    Recordable state leases where
  distinct := (List.pairwise_cons.mp h.distinct).2
  name other hother := h.name other (List.mem_cons_of_mem _ hother)
  address other hother := h.address other (List.mem_cons_of_mem _ hother)
  inside other hother := h.inside other (List.mem_cons_of_mem _ hother)

structure Replayed (state : FamilyState w) (leases : List (Lease w))
    (replayed : FamilyState w) : Prop where
  inv : replayed.Inv
  numbered : replayed.Numbered
  start_eq : replayed.start = state.start
  stop_eq : replayed.stop = state.stop
  touches_eq : replayed.touches = state.touches + leases.length
  leases_eq : replayed.touches ≤ 2 ^ 64 →
    replayed.table.leases = state.table.leases ++ leases

end FamilyState

namespace FakeIpPool

variable {instantMax capturedAt later ttl : ℕ} {family : IpFamily}

structure Admissible (instantMax capturedAt ttl : ℕ)
    (lease : Lease family.width) : Prop where
  live : capturedAt < lease.expiresAt
  timely : lease.expiresAt ≤ capturedAt + ttl
  representable : lease.expiresAt ≤ instantMax

theorem restoreMapping_captured (hlater : capturedAt ≤ later)
    {lease : Lease family.width}
    (hlease : Admissible instantMax capturedAt ttl lease)
    {families : Families} {state : FamilyState family.width}
    (hstate : families family = some state)
    (hinside : state.contains lease.address = true) :
    restoreMapping instantMax ttl (later - capturedAt) later families
        (lease.captured capturedAt) =
      if later < lease.expiresAt then
        state.restore lease.name lease.address lease.expiresAt >>= fun restored =>
          .ok (Function.update families family (some restored))
      else .ok families := by
  obtain ⟨hlive, htimely, hrepresentable⟩ := hlease
  have hremaining : (lease.captured capturedAt).remainingLifetime =
      lease.expiresAt - capturedAt := rfl
  have hshort : ¬ttl < lease.expiresAt - capturedAt := by omega
  rw [restoreMapping, hremaining, if_neg hshort]
  by_cases hrest : later < lease.expiresAt
  · have hleft : ¬lease.expiresAt - capturedAt ≤ later - capturedAt := by
      omega
    have hsum : later + (lease.expiresAt - capturedAt - (later - capturedAt)) =
        lease.expiresAt := by
      omega
    rw [if_neg hleft, if_pos hrest, instantAdd, hsum, if_pos hrepresentable]
    simp only [Lease.captured, hstate, hinside, if_true]
    rfl
  · have hover : lease.expiresAt - capturedAt ≤ later - capturedAt := by
      omega
    rw [if_pos hover, if_neg hrest]

/-- The mappings of one family are restored, those which have run out in the
meantime excepted. -/
theorem foldlM_restoreMapping (hlater : capturedAt ≤ later)
    (leases : List (Lease family.width)) :
    ∀ {families : Families} {state : FamilyState family.width},
      families family = some state → state.Inv → state.Numbered →
      state.Recordable leases →
      (∀ lease ∈ leases, Admissible instantMax capturedAt ttl lease) →
      ∃ replayed,
        (leases.map (Lease.captured capturedAt)).foldlM
            (restoreMapping instantMax ttl (later - capturedAt) later)
            families =
          .ok (Function.update families family (some replayed)) ∧
        state.Replayed (leases.filter (Lease.liveAt later)) replayed := by
  induction leases with
  | nil =>
    intro families state hstate hinv hnumbered _ _
    refine ⟨state, ?_, hinv, hnumbered, rfl, rfl, rfl, fun _ => by simp⟩
    rw [← hstate, Function.update_eq_self]
    rfl
  | cons lease rest ih =>
    intro families state hstate hinv hnumbered hrecordable hadmissible
    have hrestore := restoreMapping_captured hlater
      (hadmissible lease (by simp)) hstate
      (hrecordable.inside lease (by simp))
    have hrest : ∀ other ∈ rest, Admissible instantMax capturedAt ttl other :=
      fun other hother => hadmissible other (by simp [hother])
    rw [List.map_cons, List.foldlM_cons, hrestore]
    by_cases hlive : later < lease.expiresAt
    · have hname := hrecordable.name lease (by simp)
      have hfree := hrecordable.address lease (by simp)
      have hinside := hrecordable.inside lease (by simp)
      have hedit : FamilyState.Edit state
          (state.record lease.name lease.address lease.expiresAt) :=
        .record hname hfree hinside
      obtain ⟨replayed, hfold, hreplayed⟩ :=
        ih (Function.update_self family (some (state.record lease.name
          lease.address lease.expiresAt)) families) (hedit.inv hinv)
          (hedit.numbered hnumbered) hrecordable.record hrest
      refine ⟨replayed, ?_, ?_⟩
      · rw [if_pos hlive, FamilyState.restore, if_neg (by simp [hname, hfree]),
          Run.ok_bind, Run.ok_bind, hfold, Function.update_idem]
      · rw [List.filter_cons, if_pos (Lease.liveAt_iff.mpr hlive)]
        have htouches : replayed.touches = state.touches + 1 +
            (rest.filter (Lease.liveAt later)).length :=
          hreplayed.touches_eq
        refine ⟨hreplayed.inv, hreplayed.numbered, hreplayed.start_eq,
          hreplayed.stop_eq, ?_, ?_⟩
        · rw [htouches, List.length_cons]
          omega
        · intro hle
          rw [hreplayed.leases_eq hle, FamilyState.table_record hinv
            hnumbered (by omega) hname hfree hinside]
          simp [LeaseTable.append]
    · obtain ⟨replayed, hfold, hreplayed⟩ :=
        ih hstate hinv hnumbered hrecordable.tail hrest
      refine ⟨replayed, ?_, ?_⟩
      · rw [if_neg hlive, Run.ok_bind, hfold]
      · rw [List.filter_cons, if_neg (Lease.liveAt_iff.not.mpr hlive)]
        exact hreplayed

/-! ## The whole pool -/

theorem new_spec {w : ℕ} {start stop : BitVec w} (hle : start ≤ stop) :
    ∃ fresh, FamilyState.new (start, stop) = .ok fresh ∧ fresh.Inv ∧
      fresh.Numbered ∧ fresh.start = start ∧ fresh.stop = stop ∧
      fresh.touches = 0 ∧ fresh.table.leases = [] ∧
      (∀ name, fresh.mappingOf name = none) ∧
      ∀ address, fresh.reverse.lookup address = none := by
  have hnew : FamilyState.new (start, stop) = .ok
      { start := start
        stop := stop
        forward := ∅
        reverse := ∅
        nextRecency := 0
        nextAllocation := 0
        touches := 0 } := by
    rw [FamilyState.new, if_neg (BitVec.not_lt.mpr hle)]
  obtain ⟨hinv, hnumbered, _⟩ := FamilyState.new_eq_ok hnew
  exact ⟨_, hnew, hinv, hnumbered, rfl, rfl, rfl, rfl, fun _ => rfl,
    fun _ => rfl⟩

theorem recordable_leases {w : ℕ} {state fresh : FamilyState w}
    (h : state.Inv) (hstart : fresh.start = state.start)
    (hstop : fresh.stop = state.stop)
    (hname : ∀ name, fresh.mappingOf name = none)
    (haddress : ∀ address, fresh.reverse.lookup address = none) :
    fresh.Recordable state.table.leases where
  distinct := by
    have hnodup : (sortByKey FamilyState.age state.forward.entries).NodupKeys :=
      (List.perm_nodupKeys (sortByKey_perm _ _)).mpr state.forward.nodupKeys
    rw [FamilyState.table, List.pairwise_map]
    refine (List.pairwise_map.mp hnodup).imp_of_mem ?_
    intro first second hfirst hsecond hne
    rw [mem_sortByKey] at hfirst hsecond
    have hlookup := lookup_of_mem_entries hfirst
    have hlookup' := lookup_of_mem_entries hsecond
    refine ⟨?_, fun heq => hne (h.linked.key_eq hlookup hlookup' heq)⟩
    rw [FamilyState.leaseOfEntry, FamilyState.leaseOfEntry,
      h.key_eq hlookup, h.key_eq hlookup']
    exact hne
  name lease _ := hname lease.name
  address lease _ := haddress lease.address
  inside lease hlease := by
    obtain ⟨key, hkey⟩ := FamilyState.mem_leases.mp hlease
    obtain ⟨entry, hentry, rfl⟩ := FamilyState.leaseOf_eq_some.mp hkey
    have hinside := h.inside key entry hentry
    rw [FamilyState.contains, hstart, hstop]
    exact hinside

def leasesOf (families : Families) (family : IpFamily) :
    List (Lease family.width) :=
  (families family).elim [] fun state => state.table.leases

def capturedFrom (families : Families) (capturedAt ttl : ℕ) :
    FakeIpPoolSnapshot where
  capturedAt := capturedAt
  ranges family := (families family).map fun state => (state.start, state.stop)
  ttl := ttl
  mappings :=
    (leasesOf families .ipv4).map (Lease.captured capturedAt) ++
      (leasesOf families .ipv6).map (Lease.captured capturedAt)

def Recovers (later : ℕ) {w : ℕ} (source restored : Option (FamilyState w)) :
    Prop :=
  (source = none ∧ restored = none) ∨
    ∃ state replayed, source = some state ∧ restored = some replayed ∧
      replayed.Inv ∧ replayed.Numbered ∧ replayed.start = state.start ∧
      replayed.stop = state.stop ∧
      replayed.touches =
        (state.table.leases.filter (Lease.liveAt later)).length ∧
      (replayed.touches ≤ 2 ^ 64 → replayed.table.leases =
        state.table.leases.filter (Lease.liveAt later))

def Emptied {w : ℕ} (source fresh : Option (FamilyState w)) : Prop :=
  (source = none ∧ fresh = none) ∨
    ∃ state empty, source = some state ∧ fresh = some empty ∧ empty.Inv ∧
      empty.Numbered ∧ empty.start = state.start ∧
      empty.stop = state.stop ∧ empty.touches = 0 ∧
      empty.table.leases = [] ∧ empty.Recordable state.table.leases

theorem newFamily_emptied {w : ℕ} (source : Option (FamilyState w))
    (hinv : ∀ state, source = some state → state.Inv) :
    ∃ fresh, newFamily (source.map fun state => (state.start, state.stop)) =
      .ok fresh ∧ Emptied source fresh := by
  cases source with
  | none => exact ⟨none, rfl, .inl ⟨rfl, rfl⟩⟩
  | some state =>
    have h := hinv state rfl
    obtain ⟨fresh, hnew, hinv', hnumbered, hstart, hstop, htouches, hleases,
      hname, haddress⟩ := new_spec h.ordered
    refine ⟨some fresh, ?_, .inr ⟨state, fresh, rfl, rfl, hinv', hnumbered,
      hstart, hstop, htouches, hleases,
      recordable_leases h hstart hstop hname haddress⟩⟩
    rw [Option.map_some, newFamily]
    simp only [hnew, Run.ok_bind]
    rfl

theorem foldlM_leasesOf (family : IpFamily) (sources fresh : Families)
    (hlater : capturedAt ≤ later) (hemptied : Emptied (sources family) (fresh family))
    (hadmissible : ∀ lease ∈ leasesOf sources family,
      Admissible instantMax capturedAt ttl lease) :
    ∃ families, ((leasesOf sources family).map
        (Lease.captured capturedAt)).foldlM
          (restoreMapping instantMax ttl (later - capturedAt) later) fresh =
        .ok families ∧
      Recovers later (sources family) (families family) ∧
      ∀ other, other ≠ family → families other = fresh other := by
  rcases hemptied with ⟨hsource, hfresh⟩ | ⟨state, empty, hsource, hempty, hinv,
    hnumbered, hstart, hstop, htouches, hleases, hrecordable⟩
  · refine ⟨fresh, ?_, .inl ⟨hsource, hfresh⟩, fun _ _ => rfl⟩
    rw [leasesOf, hsource]
    rfl
  · have hlist : leasesOf sources family = state.table.leases := by
      rw [leasesOf, hsource]
      rfl
    rw [hlist] at hadmissible ⊢
    obtain ⟨replayed, hfold, hreplayed⟩ := foldlM_restoreMapping hlater
      state.table.leases hempty hinv hnumbered hrecordable hadmissible
    refine ⟨_, hfold, .inr ⟨state, replayed, hsource, Function.update_self _ _ _,
      hreplayed.inv, hreplayed.numbered, hreplayed.start_eq.trans hstart,
      hreplayed.stop_eq.trans hstop, ?_, ?_⟩, ?_⟩
    · rw [hreplayed.touches_eq, htouches, Nat.zero_add]
    · intro hle
      rw [hreplayed.leases_eq hle, hleases, List.nil_append]
    · intro other hne
      rw [Function.update_of_ne hne]

theorem restore_captured (hlater : capturedAt ≤ later)
    (hvalid : validateTtl ttl = .ok ()) {sources : Families}
    (hconfigured : Configured sources)
    (hinv : ∀ family state, sources family = some state → state.Inv)
    (hadmissible : ∀ family, ∀ lease ∈ leasesOf sources family,
      Admissible instantMax capturedAt ttl lease) :
    ∃ restored, restore instantMax (capturedFrom sources capturedAt ttl) later =
        .ok restored ∧ restored.ttl = ttl ∧
      ∀ family, Recovers later (sources family)
        (restored.families family) := by
  obtain ⟨fresh4, hfresh4, hemptied4⟩ :=
    newFamily_emptied (sources .ipv4) (hinv .ipv4)
  obtain ⟨fresh6, hfresh6, hemptied6⟩ :=
    newFamily_emptied (sources .ipv6) (hinv .ipv6)
  let fresh : Families := IpFamily.each fresh4 fresh6
  have hfresh : newFamilies (capturedFrom sources capturedAt ttl).ranges =
      .ok fresh := by
    rw [newFamilies]
    simp only [capturedFrom, hfresh4, hfresh6, Run.ok_bind]
    rfl
  obtain ⟨middle, hfold4, hrecovers4, hother4⟩ := foldlM_leasesOf .ipv4 sources
    fresh hlater hemptied4 (hadmissible .ipv4)
  have hmiddle6 : middle .ipv6 = fresh6 := hother4 .ipv6 (by decide)
  obtain ⟨families, hfold6, hrecovers6, hother6⟩ := foldlM_leasesOf .ipv6
    sources middle hlater (by rw [hmiddle6]; exact hemptied6)
    (hadmissible .ipv6)
  have hfamilies4 : families .ipv4 = middle .ipv4 := hother6 .ipv4 (by decide)
  have hsome : ¬((fresh .ipv4).isNone ∧ (fresh .ipv6).isNone) := by
    refine configured_iff.mp ?_
    obtain ⟨family, hsome⟩ := hconfigured
    have hemptied : Emptied (sources family) (fresh family) := by
      cases family with
      | ipv4 => exact hemptied4
      | ipv6 => exact hemptied6
    refine ⟨family, ?_⟩
    rcases hemptied with ⟨hnone, _⟩ | ⟨_, _, _, hempty, _⟩
    · simp [hnone] at hsome
    · rw [hempty]
      rfl
  refine ⟨⟨families, ttl⟩, ?_, rfl, ?_⟩
  · rw [restore, show (capturedFrom sources capturedAt ttl).ttl = ttl from rfl,
      hvalid, show (capturedFrom sources capturedAt ttl).capturedAt =
        capturedAt from rfl, durationSince, if_pos hlater, hfresh]
    simp only [orInvalidSnapshot, Run.ok_bind, if_neg hsome]
    rw [show (capturedFrom sources capturedAt ttl).mappings =
      (leasesOf sources .ipv4).map (Lease.captured capturedAt) ++
        (leasesOf sources .ipv6).map (Lease.captured capturedAt) from rfl,
      List.foldlM_append, hfold4, Run.ok_bind, hfold6]
    rfl
  · intro family
    cases family with
    | ipv4 =>
      change Recovers later (sources .ipv4) (families .ipv4)
      rw [hfamilies4]
      exact hrecovers4
    | ipv6 => exact hrecovers6

/-! ## Taking a snapshot -/

def PurgesTo (now : ℕ) {w : ℕ} (source purged : Option (FamilyState w)) :
    Prop :=
  (source = none ∧ purged = none) ∨
    ∃ state after, source = some state ∧ purged = some after ∧
      state.Purged now after

theorem snapshotFamily_spec (pool : FakeIpPool) (family : IpFamily) (now : ℕ)
    (hinv : ∀ state, pool.families family = some state → state.Inv) :
    ∃ after, pool.snapshotFamily family now =
        .ok ((leasesOf after.families family).map (Lease.captured now),
          after) ∧
      after.ttl = pool.ttl ∧
      PurgesTo now (pool.families family) (after.families family) ∧
      ∀ other, other ≠ family →
        after.families other = pool.families other := by
  rw [snapshotFamily]
  cases hstate : pool.families family with
  | none =>
    refine ⟨pool, ?_, rfl, .inl ⟨rfl, hstate⟩, fun _ _ => rfl⟩
    rw [leasesOf, hstate]
    rfl
  | some state =>
    obtain ⟨purged, hpurge, hpurged⟩ :=
      FamilyState.purgeExpired_spec (hinv state hstate) now
    refine ⟨pool.withFamily family purged, ?_, rfl,
      .inr ⟨state, purged, rfl, families_withFamily purged, hpurged⟩,
      fun other hne => families_withFamily_ne purged hne⟩
    have hlive : ∀ key lease, purged.leaseOf key = some lease →
        now < lease.expiresAt := by
      intro key lease hlease
      rw [hpurged.leaseOf_eq, FamilyState.filter_liveAt_eq_some] at hlease
      exact hlease.2
    simp only [hpurge, Run.ok_bind]
    rw [FamilyState.snapshot_eq hlive, leasesOf, families_withFamily]
    rfl

theorem snapshot_spec (pool : FakeIpPool) (now : ℕ)
    (hinv : ∀ family state, pool.families family = some state → state.Inv) :
    ∃ after, pool.snapshot now =
        .ok (capturedFrom after.families now pool.ttl, after) ∧
      after.ttl = pool.ttl ∧
      ∀ family, PurgesTo now (pool.families family)
        (after.families family) := by
  obtain ⟨middle, hfirst, httl, hpurges4, hother4⟩ :=
    snapshotFamily_spec pool .ipv4 now (hinv .ipv4)
  have hmiddle6 : middle.families .ipv6 = pool.families .ipv6 :=
    hother4 .ipv6 (by decide)
  obtain ⟨after, hsecond, httl', hpurges6, hother6⟩ :=
    snapshotFamily_spec middle .ipv6 now
      (fun state hstate => hinv .ipv6 state (hmiddle6.symm.trans hstate))
  have hafter4 : after.families .ipv4 = middle.families .ipv4 :=
    hother6 .ipv4 (by decide)
  have hleases4 : leasesOf after.families .ipv4 =
      leasesOf middle.families .ipv4 := by
    rw [leasesOf, leasesOf, hafter4]
  refine ⟨after, ?_, httl'.trans httl, ?_⟩
  · rw [snapshot, hfirst, Run.ok_bind]
    simp only [hsecond, Run.ok_bind]
    rw [capturedFrom, hleases4, ← httl, ← httl']
    rfl
  · intro family
    cases family with
    | ipv4 => rwa [hafter4]
    | ipv6 => rwa [hmiddle6] at hpurges6

section Purged

variable {pool after : FakeIpPool} {now : ℕ}

theorem PurgesTo.leaseOf_eq
    (hpurges : PurgesTo now (pool.families family) (after.families family))
    (key : List Label) :
    after.leaseOf family key =
      (pool.leaseOf family key).filter (Lease.liveAt now) := by
  rcases hpurges with ⟨hnone, hnone'⟩ | ⟨state, purged, hstate, hafter, hpurged⟩
  · rw [leaseOf, leaseOf, hnone, hnone']
    rfl
  · rw [leaseOf, leaseOf, hstate, hafter]
    exact hpurged.leaseOf_eq key

theorem mem_leasesOf {lease : Lease family.width} :
    lease ∈ leasesOf pool.families family ↔
      ∃ key, pool.leaseOf family key = some lease := by
  rw [leasesOf]
  cases hstate : pool.families family with
  | none => simp [leaseOf, hstate]
  | some state => simp [leaseOf, hstate, FamilyState.mem_leases]

theorem inv_of_purges (h : PoolState.Inv ⟨now, pool⟩)
    (httl : after.ttl = pool.ttl)
    (hpurges : ∀ family, PurgesTo now (pool.families family)
      (after.families family)) : PoolState.Inv ⟨now, after⟩ := by
  refine ⟨by rw [httl]; exact h.ttl_valid, ?_, ?_, ?_⟩
  · obtain ⟨family, hsome⟩ := h.configured
    refine ⟨family, ?_⟩
    rcases hpurges family with ⟨hnone, _⟩ | ⟨_, _, _, hafter, _⟩
    · simp [hnone] at hsome
    · rw [hafter]
      rfl
  · intro family found hfound
    rcases hpurges family with
      ⟨_, hnone⟩ | ⟨state, purged, hstate, hafter, hpurged⟩
    · cases hnone.symm.trans hfound
    · obtain rfl := Option.some.inj (hafter.symm.trans hfound)
      obtain ⟨hinv, hnumbered⟩ := h.families family state hstate
      exact ⟨FamilyState.inv_of_edits hinv hpurged.edits,
        FamilyState.numbered_of_edits hnumbered hpurged.edits⟩
  · intro family key lease hlease
    rw [(hpurges family).leaseOf_eq, FamilyState.filter_liveAt_eq_some]
      at hlease
    rw [httl]
    exact h.timely family key lease hlease.1

theorem admissible_of_purges (h : PoolState.Inv ⟨now, pool⟩)
    (hrepresentable : PoolState.Representable instantMax ⟨now, pool⟩)
    (hpurges : PurgesTo now (pool.families family) (after.families family))
    {lease : Lease family.width}
    (hlease : lease ∈ leasesOf after.families family) :
    Admissible instantMax now pool.ttl lease := by
  obtain ⟨key, hkey⟩ := mem_leasesOf.mp hlease
  rw [hpurges.leaseOf_eq, FamilyState.filter_liveAt_eq_some] at hkey
  exact ⟨hkey.2, h.timely family key lease hkey.1,
    hrepresentable family key lease hkey.1⟩

end Purged

end FakeIpPool

end DnsLattice
