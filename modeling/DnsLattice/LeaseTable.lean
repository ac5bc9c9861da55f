import DnsLattice.FakeIpLeases

/-!
# A Fake IP family as a list of leases

What a family is for can be said with one list: the leases in the order in
which they were last used.  A use moves a lease to the end, a new lease is
put at the end, and the first one goes when the range is full.  The two hash
maps and the counters of the code implement this list as long as fewer than
`2 ^ 64` recencies have been handed out.
-/

namespace DnsLattice

structure LeaseTable (w : ℕ) where
  start : BitVec w
  stop : BitVec w
  leases : List (Lease w)

namespace LeaseTable

variable {w : ℕ}

def purge (table : LeaseTable w) (now : ℕ) : LeaseTable w :=
  { table with leases := table.leases.filter (Lease.liveAt now) }

def find (table : LeaseTable w) (key : List Label) : Option (Lease w) :=
  table.leases.find? fun lease => lease.name.lowercasedLabels = key

def holder (table : LeaseTable w) (address : BitVec w) : Option (Lease w) :=
  table.leases.find? fun lease => lease.address = address

def without (table : LeaseTable w) (key : List Label) : LeaseTable w :=
  { table with
    leases := table.leases.filter fun lease =>
      lease.name.lowercasedLabels ≠ key }

def append (table : LeaseTable w) (lease : Lease w) : LeaseTable w :=
  { table with leases := table.leases ++ [lease] }

def use (table : LeaseTable w) (lease : Lease w) : LeaseTable w :=
  (table.without lease.name.lowercasedLabels).append lease

def lookup (table : LeaseTable w) (address : BitVec w) (now : ℕ) :
    Option (Name × ℕ) × LeaseTable w :=
  match (table.purge now).holder address with
  | none => (none, table.purge now)
  | some lease =>
      (some (lease.name, lease.expiresAt - now), (table.purge now).use lease)

section Allocation

variable [Address w]

def isFull (table : LeaseTable w) : Bool :=
  (Address.capacity table.start table.stop).any
    (Address.isFull table.leases.length)

def makeRoom (table : LeaseTable w) : LeaseTable w :=
  if table.isFull then { table with leases := table.leases.tail } else table

def probe (table : LeaseTable w) (address : BitVec w) :
    Run Error (BitVec w) :=
  Run.loop (fun address =>
    if (table.holder address).isSome then
      .ok (.inl (if address = table.stop then table.start
        else Address.advance address))
    else .ok (.inr address)) (2 ^ w + 1) address

def assign (table : LeaseTable w) (name : Name) (salt : UInt64)
    (expiresAt : ℕ) : Run Error (BitVec w × LeaseTable w) := do
  let candidate ←
    Address.candidate table.start table.stop (fnv1a name salt)
  let address ← table.makeRoom.probe candidate
  pure (address, table.makeRoom.append ⟨name, address, expiresAt⟩)

def allocate (table : LeaseTable w) (instantMax : ℕ) (name : Name)
    (salt : UInt64) (now ttl : ℕ) :
    Run Error ((BitVec w × ℕ) × LeaseTable w) :=
  if now + ttl ≤ instantMax then
    match (table.purge now).find name.lowercasedLabels with
    | some lease =>
        .ok ((lease.address, lease.expiresAt - now),
          (table.purge now).use lease)
    | none => do
        let (address, after) ← (table.purge now).assign name salt (now + ttl)
        pure ((address, ttl), after)
  else .err .fakeIpTtlOutOfRange

end Allocation

theorem purge_purge (table : LeaseTable w) {first now : ℕ}
    (hle : first ≤ now) : (table.purge first).purge now = table.purge now := by
  have hboth : (fun lease : Lease w =>
      Lease.liveAt now lease && Lease.liveAt first lease) =
        Lease.liveAt now := by
    funext lease
    simp only [Lease.liveAt]
    rw [Bool.eq_iff_iff, Bool.and_eq_true, decide_eq_true_iff,
      decide_eq_true_iff]
    omega
  rw [purge, purge, purge]
  simp only [List.filter_filter, hboth]

end LeaseTable

/-! ## The entries of a map -/

theorem entries_perm {κ β : Type} [DecidableEq κ] {map : AList fun _ : κ => β}
    {list : List (Sigma fun _ : κ => β)} (hnodup : list.NodupKeys)
    (h : ∀ key value, map.lookup key = some value ↔ ⟨key, value⟩ ∈ list) :
    map.entries.Perm list := by
  refine List.lookup_ext map.nodupKeys hnodup ?_
  intro key value
  rw [List.mem_dlookup_iff hnodup, ← h]
  rfl

namespace FamilyState

variable {w : ℕ} {state after : FamilyState w} {name : Name} {now : ℕ}

def table (state : FamilyState w) : LeaseTable w where
  start := state.start
  stop := state.stop
  leases := (sortByKey age state.forward.entries).map fun entry =>
    leaseOfEntry entry.2

theorem mem_leases {lease : Lease w} :
    lease ∈ state.table.leases ↔ ∃ key, state.leaseOf key = some lease := by
  constructor
  · intro hmem
    obtain ⟨entry, hentry, rfl⟩ := List.mem_map.mp hmem
    rw [mem_sortByKey] at hentry
    exact ⟨entry.1, leaseOf_eq_some.mpr
      ⟨entry.2, lookup_of_mem_entries hentry, rfl⟩⟩
  · rintro ⟨key, hlease⟩
    obtain ⟨entry, hentry, rfl⟩ := leaseOf_eq_some.mp hlease
    refine List.mem_map.mpr ⟨⟨key, entry⟩, ?_, rfl⟩
    rw [mem_sortByKey]
    exact AList.mem_lookup_iff.mp hentry

theorem length_leases (state : FamilyState w) :
    state.table.leases.length = state.size := by
  rw [table, List.length_map, (sortByKey_perm _ _).length_eq, size]

theorem Inv.leaseOf_name (h : state.Inv) {key : List Label} {lease : Lease w}
    (hlease : state.leaseOf key = some lease) :
    lease.name.lowercasedLabels = key := by
  obtain ⟨entry, hentry, rfl⟩ := leaseOf_eq_some.mp hlease
  exact h.key_eq hentry

theorem Inv.find_table (h : state.Inv) (key : List Label) :
    state.table.find key = state.leaseOf key := by
  cases hfind : state.table.find key with
  | none =>
    cases hlease : state.leaseOf key with
    | none => rfl
    | some lease =>
      have hnone := List.find?_eq_none.mp hfind lease
        (mem_leases.mpr ⟨key, hlease⟩)
      exact absurd (decide_eq_true (h.leaseOf_name hlease)) hnone
  | some lease =>
    obtain ⟨other, hother⟩ := mem_leases.mp (List.mem_of_find?_eq_some hfind)
    have hkey := List.find?_some hfind
    rw [decide_eq_true_iff] at hkey
    rw [← hkey, h.leaseOf_name hother, hother]

theorem Inv.holder_table (h : state.Inv) (address : BitVec w) :
    state.table.holder address =
      (state.reverse.lookup address).bind fun name =>
        state.leaseOf name.lowercasedLabels := by
  cases hholder : state.table.holder address with
  | none =>
    cases hname : state.reverse.lookup address with
    | none => rfl
    | some name =>
      obtain ⟨entry, hentry, haddress, _⟩ := h.linked.exists_value hname
      have hnone := List.find?_eq_none.mp hholder (leaseOfEntry entry)
        (mem_leases.mpr ⟨_, leaseOf_eq_some.mpr ⟨entry, hentry, rfl⟩⟩)
      exact absurd (decide_eq_true haddress) hnone
  | some lease =>
    obtain ⟨key, hlease⟩ := mem_leases.mp (List.mem_of_find?_eq_some hholder)
    have haddress := List.find?_some hholder
    rw [decide_eq_true_iff] at haddress
    obtain ⟨entry, hentry, rfl⟩ := leaseOf_eq_some.mp hlease
    rw [← haddress, show (leaseOfEntry entry).address = entry.2.address
      from rfl, h.lookup_reverse hentry, Option.bind_some, h.key_eq hentry,
      hlease]

theorem Inv.isSome_holder (h : state.Inv) (address : BitVec w) :
    (state.table.holder address).isSome =
      (state.reverse.lookup address).isSome := by
  rw [h.holder_table]
  cases hname : state.reverse.lookup address with
  | none => rfl
  | some name =>
    obtain ⟨entry, hentry, _⟩ := h.linked.exists_value hname
    rw [Option.bind_some, leaseOf, hentry]
    rfl

/-! ## The order of use -/

/-- Different mappings were last used at different touches. -/
theorem Numbered.distinct_recencies (h : state.Numbered)
    (htouches : state.touches ≤ 2 ^ 64) :
    DistinctKeys (fun entry => entry.2.2.recency.toNat)
      state.forward.entries := by
  intro first hfirst second hsecond heq
  have hlookup := lookup_of_mem_entries hfirst
  have hlookup' := lookup_of_mem_entries hsecond
  have hkey := h.distinct htouches _ _ _ _ hlookup hlookup'
    (UInt64.toNat_inj.mp heq)
  rw [hkey] at hlookup
  exact Sigma.ext hkey (heq_of_eq (Option.some.inj
    (hlookup.symm.trans hlookup')))

theorem Numbered.distinct_ages (h : state.Numbered)
    (htouches : state.touches ≤ 2 ^ 64) :
    DistinctKeys age state.forward.entries := by
  intro first hfirst second hsecond heq
  exact h.distinct_recencies htouches first hfirst second hsecond
    (congrArg Prod.fst (toLex.injective heq))

theorem Numbered.size_le_touches (h : state.Numbered)
    (htouches : state.touches ≤ 2 ^ 64) : state.size ≤ state.touches := by
  have hnodup := (List.nodup_map_iff_inj_on state.forward.nodupKeys.nodup).mpr
    (fun first hfirst second hsecond =>
      h.distinct_recencies htouches first hfirst second hsecond)
  have hsubset : state.forward.entries.map
      (fun entry => entry.2.2.recency.toNat) ⊆ List.range state.touches := by
    intro recency hrecency
    obtain ⟨entry, hentry, rfl⟩ := List.mem_map.mp hrecency
    exact List.mem_range.mpr
      (h.used htouches _ _ (lookup_of_mem_entries hentry))
  have hlength := (hnodup.subperm hsubset).length_le
  rwa [List.length_map, List.length_range] at hlength

theorem leases_of_perm {list : List (Sigma fun _ : List Label => Name × Mapping w)}
    (h : state.Numbered) (htouches : state.touches ≤ 2 ^ 64)
    (hperm : state.forward.entries.Perm list) :
    state.table.leases =
      (sortByKey age list).map fun entry => leaseOfEntry entry.2 := by
  rw [table, sortByKey_congr (h.distinct_ages htouches) hperm.symm]

theorem nodupKeys_filter (state : FamilyState w)
    (keep : (Sigma fun _ : List Label => Name × Mapping w) → Bool) :
    (state.forward.entries.filter keep).NodupKeys :=
  state.forward.nodupKeys.sublist List.filter_sublist

theorem Reduced.leases_eq {reduced : FamilyState w}
    {kept : List Label → Name × Mapping w → Bool}
    (hreduced : Reduced state reduced kept) (h : state.Numbered)
    (htouches : state.touches ≤ 2 ^ 64) :
    reduced.table.leases =
      ((sortByKey age state.forward.entries).filter fun entry =>
        kept entry.1 entry.2).map fun entry => leaseOfEntry entry.2 := by
  rw [← sortByKey_filter (h.distinct_ages htouches)]
  refine leases_of_perm (numbered_of_edits h hreduced.edits)
    (hreduced.touches_eq.trans_le htouches) ?_
  refine entries_perm (nodupKeys_filter state _) ?_
  intro key entry
  rw [hreduced.lookup, Option.filter_eq_some_iff, List.mem_filter]
  exact and_congr AList.mem_lookup_iff Iff.rfl

theorem Purged.table_eq {purged : FamilyState w}
    (hpurged : Purged state now purged) (h : state.Numbered)
    (htouches : state.touches ≤ 2 ^ 64) :
    purged.table = state.table.purge now := by
  have hleases := hpurged.leases_eq h htouches
  have hstart := hpurged.start_eq
  have hstop := hpurged.stop_eq
  rw [LeaseTable.purge, table, table]
  simp only [LeaseTable.mk.injEq]
  refine ⟨hstart, hstop, ?_⟩
  rw [table] at hleases
  simp only at hleases
  rw [hleases, List.filter_map]
  rfl

theorem Inv.leases_without (h : state.Inv) (key : List Label) :
    ((sortByKey age state.forward.entries).filter fun entry =>
        decide (entry.1 ≠ key)).map (fun entry => leaseOfEntry entry.2) =
      (state.table.without key).leases := by
  rw [LeaseTable.without, table, List.filter_map]
  congr 1
  refine List.filter_congr ?_
  intro found hfound
  rw [mem_sortByKey] at hfound
  have hkey := h.key_eq (lookup_of_mem_entries hfound)
  simp [leaseOfEntry, hkey]

theorem table_removed (h : state.Inv) (hnumbered : state.Numbered)
    (htouches : state.touches ≤ 2 ^ 64) {entry : Name × Mapping w}
    (hentry : state.mappingOf name = some entry) :
    (state.removed name entry.2).table =
      state.table.without name.lowercasedLabels := by
  have hleases := (reduced_removed hentry).leases_eq hnumbered htouches
  rw [h.leases_without] at hleases
  exact congrArg (LeaseTable.mk state.start state.stop) hleases

theorem leases_of_write (h : state.Inv) (hnumbered : state.Numbered)
    (htouches : state.touches < 2 ^ 64) {after : FamilyState w}
    {key : List Label} {written : Name × Mapping w}
    (hafter : after.Numbered) (hcount : after.touches = state.touches + 1)
    (hrecency : written.2.recency = state.nextRecency)
    (hlookup : ∀ other, after.forward.lookup other =
      if other = key then some written else state.forward.lookup other) :
    after.table.leases =
      (state.table.without key).leases ++ [leaseOfEntry written] := by
  have hperm : after.forward.entries.Perm (⟨key, written⟩ ::
      state.forward.entries.filter fun entry => decide (entry.1 ≠ key)) := by
    refine entries_perm ?_ ?_
    · rw [List.nodupKeys_cons]
      refine ⟨?_, nodupKeys_filter state _⟩
      intro hmem
      obtain ⟨entry, hentry, hkey⟩ := List.mem_map.mp hmem
      exact of_decide_eq_true (List.mem_filter.mp hentry).2 hkey
    · intro other entry
      rw [hlookup, List.mem_cons, List.mem_filter]
      by_cases hkey : other = key
      · subst hkey
        simp [eq_comm]
      · rw [if_neg hkey]
        simp only [decide_eq_true_iff, ne_eq, hkey, not_false_eq_true,
          and_true, Sigma.mk.injEq, false_and, false_or]
        exact AList.mem_lookup_iff
  rw [leases_of_perm hafter (by omega) hperm, sortByKey_cons,
    sortByKey_filter (hnumbered.distinct_ages htouches.le), List.map_append,
    h.leases_without]
  · rfl
  · intro first hfirst second hsecond
    exact hafter.distinct_ages (by omega) first (hperm.mem_iff.mpr hfirst)
      second (hperm.mem_iff.mpr hsecond)
  · intro entry hentry
    have hused := hnumbered.used htouches.le entry.1 entry.2
      (lookup_of_mem_entries (List.mem_filter.mp hentry).1)
    refine (Prod.Lex.toLex_lt_toLex.mpr (.inl ?_)).le
    rw [hrecency, hnumbered.nextRecency_toNat htouches]
    exact hused

theorem table_refreshed (h : state.Inv) (hnumbered : state.Numbered)
    (htouches : state.touches < 2 ^ 64) {entry : Name × Mapping w}
    (hentry : state.mappingOf name = some entry) :
    (state.refreshed entry.1 entry.2).table =
      state.table.use (leaseOfEntry entry) := by
  have hleases := leases_of_write h hnumbered htouches
    ((Edit.refresh hentry).numbered hnumbered) rfl rfl
    (lookup_refreshed state entry.1 entry.2)
  exact congrArg (LeaseTable.mk state.start state.stop) hleases

theorem table_record (h : state.Inv) (hnumbered : state.Numbered)
    (htouches : state.touches < 2 ^ 64) {address : BitVec w} {expiresAt : ℕ}
    (hname : state.mappingOf name = none)
    (hfree : state.reverse.lookup address = none)
    (hinside : state.contains address = true) :
    (state.record name address expiresAt).table =
      state.table.append ⟨name, address, expiresAt⟩ := by
  have hleases := leases_of_write h hnumbered htouches
    ((Edit.record hname hfree hinside).numbered hnumbered) rfl rfl
    (lookup_record state name address expiresAt)
  have hwithout : (state.table.without name.lowercasedLabels).leases =
      state.table.leases := by
    refine List.filter_eq_self.mpr ?_
    intro lease hlease
    obtain ⟨key, hkey⟩ := mem_leases.mp hlease
    rw [decide_eq_true_iff, h.leaseOf_name hkey]
    intro heq
    rw [heq, leaseOf, show state.forward.lookup name.lowercasedLabels = none
      from hname] at hkey
    cases hkey
  rw [hwithout] at hleases
  exact congrArg (LeaseTable.mk state.start state.stop) hleases

theorem Room.table_eq [Address w] [LawfulAddress w] {roomy : FamilyState w}
    (hroom : Room state roomy) (h : state.Inv) (hnumbered : state.Numbered)
    (htouches : state.touches ≤ 2 ^ 64) :
    roomy.table = state.table.makeRoom := by
  have hfull : state.table.isFull = state.isFull := by
    rw [LeaseTable.isFull, length_leases]
    rfl
  rw [LeaseTable.makeRoom, hfull]
  cases hroom with
  | spare hspare => rw [hspare, if_neg Bool.false_ne_true]
  | @evicted oldest hfull holdest =>
    rw [hfull, if_pos rfl, table_removed h hnumbered htouches
      (h.mappingOf_oldest holdest)]
    have hwithout := h.leases_without oldest.2.1.lowercasedLabels
    refine congrArg (LeaseTable.mk state.start state.stop)
      (hwithout.symm.trans ?_)
    rw [h.key_eq (lookup_of_mem_entries (List.argmin_mem holdest)), table,
      ← List.map_tail]
    congr 1
    rw [FamilyState.oldest,
      ← head?_sortByKey (hnumbered.distinct_ages htouches)] at holdest
    have hnodup : (sortByKey age state.forward.entries).NodupKeys :=
      (List.perm_nodupKeys (sortByKey_perm _ _)).mpr state.forward.nodupKeys
    cases hsorted : sortByKey age state.forward.entries with
    | nil => simp [hsorted] at holdest
    | cons first rest =>
      rw [hsorted] at holdest hnodup
      obtain rfl := Option.some.inj holdest
      rw [List.filter_cons, if_neg (by simp), List.tail_cons]
      refine List.filter_eq_self.mpr ?_
      intro entry hentry
      rw [decide_eq_true_iff]
      intro heq
      refine (List.nodupKeys_cons.mp hnodup).1 ?_
      rw [← heq]
      exact List.mem_map_of_mem hentry

/-! ## The operations -/

theorem lookupWithTtl_refines (h : state.Inv) (hnumbered : state.Numbered)
    (htouches : state.touches < 2 ^ 64) (address : BitVec w) (now : ℕ) :
    ((fun result => (result.1, result.2.table)) <$>
        state.lookupWithTtl address now) =
      .ok (state.table.lookup address now) := by
  obtain ⟨reply, after, hlookup, hlookedUp⟩ := lookupWithTtl_spec h address now
  rw [hlookup, Run.map_ok, LeaseTable.lookup]
  cases hlookedUp with
  | missing hpurged hfree =>
    rw [← hpurged.table_eq hnumbered htouches.le,
      (hpurged.inv h).holder_table, hfree]
    rfl
  | @found purged entry hpurged hentry haddress hlive =>
    have hinv := hpurged.inv h
    have hholder : purged.table.holder address =
        some (leaseOfEntry entry) := by
      rw [hinv.holder_table, ← haddress, hinv.lookup_reverse hentry,
        Option.bind_some]
      exact leaseOf_eq_some.mpr ⟨entry, hentry, rfl⟩
    rw [← hpurged.table_eq hnumbered htouches.le, hholder]
    dsimp only
    rw [← table_refreshed hinv (numbered_of_edits hnumbered hpurged.edits)
      (hpurged.touches_eq.trans_lt htouches) hentry]
    rfl

section Allocation

variable [Address w] [LawfulAddress w]

omit [LawfulAddress w] in
theorem Inv.probe_table (h : state.Inv) (address : BitVec w) :
    state.table.probe address = state.probe address := by
  have hbody : (fun address : BitVec w =>
      if (state.table.holder address).isSome then
        (.ok (.inl (if address = state.stop then state.start
          else Address.advance address)) : Run Error (BitVec w ⊕ BitVec w))
      else .ok (.inr address)) = state.probeStep := by
    funext address
    rw [h.isSome_holder]
    rfl
  rw [probe, ← hbody]
  rfl

theorem assign_refines (h : state.Inv) (hnumbered : state.Numbered)
    (htouches : state.touches < 2 ^ 64) (hname : state.mappingOf name = none)
    (salt : UInt64) (expiresAt : ℕ) :
    ((fun result => (result.1, result.2.table)) <$>
        state.assign name salt expiresAt) =
      state.table.assign name salt expiresAt := by
  obtain ⟨roomy, hmake, hroom⟩ := makeRoom_spec h
  have hedits := hroom.edits h
  have hinv := inv_of_edits h hedits
  have hcount : roomy.touches = state.touches := by
    cases hroom <;> rfl
  have hrange : (roomy.start, roomy.stop) = (state.start, state.stop) :=
    range_of_edits hedits
  have hnew : roomy.mappingOf name = none := by
    cases hroom with
    | spare hfull => exact hname
    | evicted hfull holdest =>
      rw [mappingOf, lookup_removed]
      split_ifs
      · rfl
      · exact hname
  obtain ⟨candidate, hcandidate, hinside⟩ :=
    hinv.exists_candidate (fnv1a name salt)
  have hcandidate' : Address.candidate state.start state.stop
      (fnv1a name salt) = .ok candidate := by
    obtain ⟨hstart, hstop⟩ := Prod.mk.inj hrange
    rw [← hstart, ← hstop]
    exact hcandidate
  rw [LeaseTable.assign, ← hroom.table_eq h hnumbered htouches.le, assign,
    hmake, Run.ok_bind, hcandidate, Run.ok_bind,
    show state.table.start = state.start from rfl,
    show state.table.stop = state.stop from rfl, hcandidate', Run.ok_bind,
    hinv.probe_table]
  cases hprobe : roomy.probe candidate with
  | ok address =>
    obtain ⟨hin, hfree⟩ := free_of_probe hinside hprobe
    simp only [Run.ok_bind, Run.pure_eq_ok, Run.map_ok]
    rw [table_record hinv (numbered_of_edits hnumbered hedits)
      (hcount.trans_lt htouches) hnew hfree hin]
  | err error => rfl
  | panic => rfl
  | diverge => rfl

theorem allocateWithTtl_refines (h : state.Inv) (hnumbered : state.Numbered)
    (htouches : state.touches < 2 ^ 64) (instantMax : ℕ) (name : Name)
    (salt : UInt64) (now ttl : ℕ) :
    ((fun result => (result.1, result.2.table)) <$>
        state.allocateWithTtl instantMax name salt now ttl) =
      state.table.allocate instantMax name salt now ttl := by
  rw [allocateWithTtl, LeaseTable.allocate, instantAdd]
  by_cases hfits : now + ttl ≤ instantMax
  · rw [if_pos hfits, if_pos hfits]
    obtain ⟨purged, hpurge, hpurged⟩ := purgeExpired_spec h now
    have hinv := hpurged.inv h
    have hpurgedNumbered := numbered_of_edits hnumbered hpurged.edits
    have hcount := hpurged.touches_eq.trans_lt htouches
    rw [← hpurged.table_eq hnumbered htouches.le, hinv.find_table]
    simp only [hpurge, Run.ok_bind]
    cases hname : purged.mappingOf name with
    | none =>
      have hassign := assign_refines hinv hpurgedNumbered hcount hname salt
        (now + ttl)
      have hnone : purged.leaseOf name.lowercasedLabels = none := by
        rw [leaseOf, show purged.forward.lookup name.lowercasedLabels = none
          from hname]
        rfl
      rw [hnone]
      dsimp only
      rw [← hassign]
      cases purged.assign name salt (now + ttl) <;> rfl
    | some entry =>
      have hlease : purged.leaseOf name.lowercasedLabels =
          some (leaseOfEntry entry) :=
        leaseOf_eq_some.mpr ⟨entry, hname, rfl⟩
      rw [hlease]
      simp only [(hpurged.refresh_eq hname).2, Run.ok_bind,
        Run.pure_eq_ok, Run.map_ok]
      rw [table_refreshed hinv hpurgedNumbered hcount hname]
      rfl
  · rw [if_neg hfits, if_neg hfits]
    rfl

end Allocation

end FamilyState

end DnsLattice
