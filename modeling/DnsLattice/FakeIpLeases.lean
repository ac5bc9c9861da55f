import DnsLattice.FakeIpRuns

/-!
# Leases of the Fake IP pool

A mapping is a lease of an address to a name until an instant.  A call of the
pool keeps every lease which has not run out, except for the one it may evict,
and it makes a new lease only for a name which has none.  The sections of the
calls under a family's lock are the steps of a run: an allocation and a lookup
read the clock behind the lock, a purge and a snapshot have read it before.
-/

namespace DnsLattice

structure Lease (w : ℕ) where
  name : Name
  address : BitVec w
  expiresAt : ℕ
  deriving DecidableEq, Repr

def Lease.liveAt {w : ℕ} (now : ℕ) (lease : Lease w) : Bool :=
  decide (now < lease.expiresAt)

theorem Lease.liveAt_iff {w now : ℕ} {lease : Lease w} :
    Lease.liveAt now lease = true ↔ now < lease.expiresAt := by
  rw [Lease.liveAt, decide_eq_true_iff]

namespace FamilyState

variable {w : ℕ} {state after : FamilyState w} {name : Name} {now : ℕ}

def leaseOfEntry (entry : Name × Mapping w) : Lease w :=
  ⟨entry.1, entry.2.address, entry.2.expiresAt⟩

def leaseOf (state : FamilyState w) (key : List Label) : Option (Lease w) :=
  (state.forward.lookup key).map leaseOfEntry

/-- Making the call evicts the mapping of the address: the name is not known,
the range is full, and the mapping is the least recently used one. -/
def Evicts [Address w] (state : FamilyState w) (name : Name) (now : ℕ)
    (address : BitVec w) : Prop :=
  ∃ count purged entry, state.purgeExpired now = .ok (count, purged) ∧
    purged.mappingOf name = none ∧ purged.isFull = true ∧
      purged.oldest = some entry ∧ entry.2.2.address = address

theorem leaseOf_eq_some {key : List Label} {lease : Lease w} :
    state.leaseOf key = some lease ↔
      ∃ entry, state.forward.lookup key = some entry ∧
        leaseOfEntry entry = lease :=
  Option.map_eq_some_iff

theorem Purged.leaseOf_eq {purged : FamilyState w}
    (hpurged : Purged state now purged) (key : List Label) :
    purged.leaseOf key = (state.leaseOf key).filter (Lease.liveAt now) := by
  rw [leaseOf, leaseOf, hpurged.lookup]
  cases state.forward.lookup key with
  | none => rfl
  | some entry =>
    rw [Option.map_some, Option.filter_some, Option.filter_some]
    by_cases hlive : now < entry.2.expiresAt
    · simp [Lease.liveAt, leaseOfEntry, hlive]
    · simp [Lease.liveAt, leaseOfEntry, hlive]

theorem filter_liveAt_eq_some {found : Option (Lease w)} {lease : Lease w} :
    found.filter (Lease.liveAt now) = some lease ↔
      found = some lease ∧ now < lease.expiresAt := by
  rw [Option.filter_eq_some_iff, Lease.liveAt_iff]

theorem leaseOf_refreshed {entry : Name × Mapping w}
    (hentry : state.mappingOf entry.1 = some entry) (key : List Label) :
    (state.refreshed entry.1 entry.2).leaseOf key = state.leaseOf key := by
  rw [leaseOf, leaseOf, lookup_refreshed]
  split_ifs with hkey
  · rw [hkey]
    rw [mappingOf] at hentry
    rw [hentry]
    rfl
  · rfl

theorem leaseOf_record (address : BitVec w) (expiresAt : ℕ) (key : List Label) :
    (state.record name address expiresAt).leaseOf key =
      if key = name.lowercasedLabels then some ⟨name, address, expiresAt⟩
      else state.leaseOf key := by
  rw [leaseOf, leaseOf, lookup_record]
  split_ifs <;> rfl

theorem leaseOf_removed (mapping : Mapping w) (key : List Label) :
    (state.removed name mapping).leaseOf key =
      if key = name.lowercasedLabels then none else state.leaseOf key := by
  rw [leaseOf, leaseOf, lookup_removed]
  split_ifs <;> rfl

theorem Inv.mappingOf_stored (h : state.Inv) {key : List Label}
    {entry : Name × Mapping w} (hentry : state.forward.lookup key = some entry) :
    state.mappingOf entry.1 = some entry := by
  rw [mappingOf, h.key_eq hentry, hentry]

/-- A lookup drops what has run out and changes nothing else; it finds the
lease of the address. -/
theorem LookedUp.leases {address : BitVec w} {reply : Option (Name × ℕ)}
    (hlookedUp : LookedUp state address now reply after) (key : List Label) :
    after.leaseOf key = (state.leaseOf key).filter (Lease.liveAt now) := by
  cases hlookedUp with
  | missing hpurged hfree => exact hpurged.leaseOf_eq key
  | found hpurged hentry haddress hlive =>
    rw [leaseOf_refreshed hentry, hpurged.leaseOf_eq]

theorem LookedUp.reply_iff (h : state.Inv) {address : BitVec w}
    {reply : Option (Name × ℕ)}
    (hlookedUp : LookedUp state address now reply after) (found : Name)
    (lifetime : ℕ) :
    reply = some (found, lifetime) ↔
      ∃ lease, state.leaseOf found.lowercasedLabels = some lease ∧
        lease.name = found ∧ lease.address = address ∧
        now < lease.expiresAt ∧ lifetime = lease.expiresAt - now := by
  cases hlookedUp with
  | missing hpurged hfree =>
    constructor
    · intro hreply
      cases hreply
    · rintro ⟨lease, hlease, _, rfl, hlive, _⟩
      have hkept : after.leaseOf found.lowercasedLabels = some lease := by
        rw [hpurged.leaseOf_eq, filter_liveAt_eq_some]
        exact ⟨hlease, hlive⟩
      obtain ⟨entry, hentry, rfl⟩ := leaseOf_eq_some.mp hkept
      have hthere := (hpurged.inv h).lookup_reverse hentry
      rw [show entry.2.address = (leaseOfEntry entry).address from rfl,
        hfree] at hthere
      cases hthere
  | @found purged entry hpurged hentry haddress hlive =>
    have hkept : purged.leaseOf entry.1.lowercasedLabels =
        some (leaseOfEntry entry) := leaseOf_eq_some.mpr ⟨entry, hentry, rfl⟩
    rw [hpurged.leaseOf_eq, filter_liveAt_eq_some] at hkept
    constructor
    · intro hreply
      obtain ⟨rfl, rfl⟩ := Prod.mk.inj (Option.some.inj hreply)
      exact ⟨_, hkept.1, rfl, haddress, hlive, rfl⟩
    · rintro ⟨lease, hother, rfl, hsame, hlive', rfl⟩
      -- two live leases of one address are the same
      have hother' : purged.leaseOf lease.name.lowercasedLabels =
          some lease := by
        rw [hpurged.leaseOf_eq, filter_liveAt_eq_some]
        exact ⟨hother, hlive'⟩
      obtain ⟨entry', hentry', rfl⟩ := leaseOf_eq_some.mp hother'
      have hkey := (hpurged.inv h).linked.key_eq hentry hentry'
        (haddress.trans hsame.symm)
      rw [mappingOf, hkey] at hentry
      obtain rfl := Option.some.inj (hentry.symm.trans hentry')
      rfl

/-! ## Allocation -/

section Allocation

variable [Address w] {salt : UInt64} {ttl expiresAt lifetime : ℕ}
  {address : BitVec w}

theorem Allocated.keeps (h : state.Inv)
    (hallocated : Allocated state name salt now ttl expiresAt address lifetime
      after) {key : List Label} {lease : Lease w}
    (hlease : state.leaseOf key = some lease) (hlive : now < lease.expiresAt) :
    after.leaseOf key = some lease ∨ state.Evicts name now lease.address := by
  cases hallocated with
  | @reused purged entry hpurged hentry _ =>
    left
    rw [leaseOf_refreshed ((hpurged.inv h).mappingOf_stored hentry),
      hpurged.leaseOf_eq, filter_liveAt_eq_some]
    exact ⟨hlease, hlive⟩
  | @assigned purged roomy _ hpurge hpurged hname hassigned =>
    have hkept : purged.leaseOf key = some lease := by
      rw [hpurged.leaseOf_eq, filter_liveAt_eq_some]
      exact ⟨hlease, hlive⟩
    obtain ⟨entry, hentry, rfl⟩ := leaseOf_eq_some.mp hkept
    have hne : key ≠ name.lowercasedLabels := by
      intro heq
      rw [heq, show purged.forward.lookup name.lowercasedLabels = none
        from hname] at hentry
      cases hentry
    rw [leaseOf_record, if_neg hne]
    cases hassigned.room with
    | spare hfull => exact .inl hkept
    | @evicted oldest hfull holdest =>
      rw [leaseOf_removed]
      split_ifs with hkey
      · right
        have hsame := (hpurged.inv h).mappingOf_oldest holdest
        rw [mappingOf, ← hkey, hentry] at hsame
        exact ⟨_, purged, oldest, hpurge, hname, hfull, holdest,
          congrArg (fun entry => entry.2.address)
            (Option.some.inj hsame).symm⟩
      · exact .inl hkept

/-- A lease found after the call was there before and had not run out, or the
call has made it. -/
theorem Allocated.leaseOf_eq_some (h : state.Inv)
    (hallocated : Allocated state name salt now ttl expiresAt address lifetime
      after) {key : List Label} {lease : Lease w}
    (hlease : after.leaseOf key = some lease) :
    (state.leaseOf key = some lease ∧ now < lease.expiresAt) ∨
      (key = name.lowercasedLabels ∧ lease = ⟨name, address, expiresAt⟩ ∧
        (state.leaseOf key).filter (Lease.liveAt now) = none ∧
        lifetime = ttl) := by
  cases hallocated with
  | reused hpurged hentry _ =>
    rw [leaseOf_refreshed ((hpurged.inv h).mappingOf_stored hentry),
      hpurged.leaseOf_eq, filter_liveAt_eq_some] at hlease
    exact .inl hlease
  | @assigned purged roomy _ _ hpurged hname hassigned =>
    rw [leaseOf_record] at hlease
    split_ifs at hlease with hkey
    · refine .inr ⟨hkey, (Option.some.inj hlease).symm, ?_, rfl⟩
      rw [← hpurged.leaseOf_eq, hkey, leaseOf,
        show purged.forward.lookup name.lowercasedLabels = none from hname]
      rfl
    · left
      rw [← filter_liveAt_eq_some, ← hpurged.leaseOf_eq]
      cases hassigned.room with
      | spare hfull => exact hlease
      | evicted hfull holdest =>
        rw [leaseOf_removed] at hlease
        split_ifs at hlease
        exact hlease

theorem Allocated.exists_lease (h : state.Inv)
    (hallocated : Allocated state name salt now ttl expiresAt address lifetime
      after) (hexpires : expiresAt = now + ttl) (httl : 0 < ttl) :
    ∃ lease, after.leaseOf name.lowercasedLabels = some lease ∧
      lease.name.lowercasedLabels = name.lowercasedLabels ∧
      lease.address = address ∧ lease.expiresAt = now + lifetime ∧
      0 < lifetime := by
  cases hallocated with
  | @reused purged entry hpurged hentry hlive =>
    have hinv := hpurged.inv h
    refine ⟨leaseOfEntry entry, ?_, hinv.key_eq hentry, rfl, ?_, ?_⟩
    · rw [leaseOf_refreshed (hinv.mappingOf_stored hentry)]
      exact FamilyState.leaseOf_eq_some.mpr ⟨entry, hentry, rfl⟩
    · change entry.2.expiresAt = now + (entry.2.expiresAt - now)
      omega
    · omega
  | assigned hpurge hpurged hname hassigned =>
    refine ⟨_, by rw [leaseOf_record, if_pos rfl], rfl, rfl, hexpires, httl⟩

/-- An address under a live lease is given to another name only after the
lease has been evicted by the same call. -/
theorem Allocated.ne_address (h : state.Inv)
    (hallocated : Allocated state name salt now ttl expiresAt address lifetime
      after) {key : List Label} {lease : Lease w}
    (hlease : state.leaseOf key = some lease) (hlive : now < lease.expiresAt)
    (hkey : key ≠ name.lowercasedLabels) :
    address ≠ lease.address ∨ state.Evicts name now lease.address := by
  rcases hallocated.keeps h hlease hlive with hkept | hevicts
  · left
    intro heq
    have hinv : after.Inv := inv_of_edits h (hallocated.edits h)
    obtain ⟨entry, hentry, rfl⟩ := FamilyState.leaseOf_eq_some.mp hkept
    -- both names would lead to one address
    have hother : ∃ entry', after.forward.lookup name.lowercasedLabels =
        some entry' ∧ entry'.2.address = address := by
      cases hallocated with
      | @reused purged found hpurged hfound _ =>
        have hlookup := lookup_refreshed purged found.1 found.2
          name.lowercasedLabels
        rw [if_pos ((hpurged.inv h).key_eq hfound).symm] at hlookup
        exact ⟨_, hlookup, rfl⟩
      | @assigned _ roomy _ _ _ _ _ =>
        have hlookup := lookup_record roomy name address expiresAt
          name.lowercasedLabels
        rw [if_pos rfl] at hlookup
        exact ⟨_, hlookup, rfl⟩
    obtain ⟨entry', hentry', haddress⟩ := hother
    exact hkey (hinv.linked.key_eq hentry hentry' (heq.symm.trans haddress.symm))
  · exact .inr hevicts

end Allocation

end FamilyState

end DnsLattice
