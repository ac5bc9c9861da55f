import DnsLattice.FakeIpPoolRuns

/-!
# How long a Fake IP lease lasts

Once a name has been given an address it keeps it until the instant which was
fixed when the lease was made, unless the mapping is evicted: lookups and
further allocations see the same lease with less and less time left, and no
other name is given the address.  From that instant on the address leads
nowhere until it is leased again.
-/

namespace DnsLattice

namespace FamilyState

variable {w : ℕ} [Address w] {state : FamilyState w} {name : Name} {now : ℕ}

/-- A name with a live lease is answered without a new address, provided that
the instant at which a new lease would end can be represented. -/
theorem allocateWithTtl_of_live (h : state.Inv) {instantMax ttl : ℕ}
    (salt : UInt64) {lease : Lease w}
    (hlease : state.leaseOf name.lowercasedLabels = some lease)
    (hlive : now < lease.expiresAt) (hfits : now + ttl ≤ instantMax) :
    ∃ after, state.allocateWithTtl instantMax name salt now ttl =
      .ok ((lease.address, lease.expiresAt - now), after) := by
  obtain ⟨purged, hpurge, hpurged⟩ := purgeExpired_spec h now
  have hkept : purged.leaseOf name.lowercasedLabels = some lease := by
    rw [hpurged.leaseOf_eq, filter_liveAt_eq_some]
    exact ⟨hlease, hlive⟩
  obtain ⟨entry, hentry, rfl⟩ := leaseOf_eq_some.mp hkept
  refine ⟨purged.refreshed entry.1 entry.2, ?_⟩
  rw [allocateWithTtl, instantAdd, if_pos hfits]
  simp only [hpurge, Run.ok_bind, mappingOf, hentry,
    (hpurged.refresh_eq hentry).2]
  rfl

omit [Address w] in
theorem lookupWithTtl_of_expired (h : state.Inv) {address : BitVec w}
    (hexpired : ∀ key lease, state.leaseOf key = some lease →
      lease.address = address → lease.expiresAt ≤ now) :
    ∃ after, state.lookupWithTtl address now = .ok (none, after) := by
  obtain ⟨reply, after, hlookup, hlookedUp⟩ := lookupWithTtl_spec h address now
  cases reply with
  | none => exact ⟨after, hlookup⟩
  | some found =>
    obtain ⟨lease, hlease, _, haddress, hlive, _⟩ :=
      (hlookedUp.reply_iff h found.1 found.2).mp rfl
    have := hexpired _ lease hlease haddress
    omega

end FamilyState

namespace PoolState

variable {instantMax : ℕ} {state after : PoolState} {family : IpFamily}
  {name : Name} {address : BitVec family.width} {lifetime : ℕ}

def KeepsMapping (instantMax : ℕ) (family : IpFamily)
    (address : BitVec family.width) : PoolState → PoolState → Prop :=
  Relation.ReflTransGen fun before after =>
    ∃ event, Step instantMax before event after ∧
      ∀ name, event = .allocate family name →
        ¬before.pool.Evicts family name before.clock address

def Leases (family : IpFamily) (address : BitVec family.width) (name : Name)
    (before after : PoolState) : Prop :=
  (before.pool.leaseOf family name.lowercasedLabels).filter
      (Lease.liveAt before.clock) = none ∧
    ∃ lease, after.pool.leaseOf family name.lowercasedLabels = some lease ∧
      lease.address = address

def NotLeased (instantMax : ℕ) (family : IpFamily)
    (address : BitVec family.width) : PoolState → PoolState → Prop :=
  Relation.ReflTransGen fun before after =>
    ∃ event, Step instantMax before event after ∧
      ∀ name, event = .allocate family name →
        ¬Leases family address name before after

/-- A lease which no step evicts is there until it runs out. -/
theorem KeepsMapping.leaseOf {first : PoolState} {key : List Label}
    {lease : Lease family.width}
    (hrun : KeepsMapping instantMax family lease.address first state)
    (h : first.Inv) (hlease : first.pool.leaseOf family key = some lease)
    (hlive : state.clock < lease.expiresAt) :
    state.Inv ∧ state.pool.leaseOf family key = some lease := by
  induction hrun with
  | refl => exact ⟨h, hlease⟩
  | tail _ hlast ih =>
    obtain ⟨event, hstep, hkeeps⟩ := hlast
    obtain ⟨hinv, hbefore⟩ := ih (hstep.clock_le.trans_lt hlive)
    refine ⟨hstep.inv hinv, ?_⟩
    rcases hstep.keeps hinv hbefore (hstep.clock_le.trans_lt hlive) with
      hkept | ⟨name, hevent, hevicts⟩
    · exact hkept
    · exact absurd hevicts (hkeeps name hevent)

theorem NotLeased.expiresAt_le {first : PoolState} {expiry : ℕ}
    (hrun : NotLeased instantMax family address first state) (h : first.Inv)
    (hfirst : ∀ key lease, first.pool.leaseOf family key = some lease →
      lease.address = address → lease.expiresAt ≤ expiry) :
    state.Inv ∧ ∀ key lease, state.pool.leaseOf family key = some lease →
      lease.address = address → lease.expiresAt ≤ expiry := by
  induction hrun with
  | refl => exact ⟨h, hfirst⟩
  | tail _ hlast ih =>
    obtain ⟨event, hstep, hnot⟩ := hlast
    obtain ⟨hinv, hbefore⟩ := ih
    refine ⟨hstep.inv hinv, ?_⟩
    intro key lease hlease haddress
    rcases hstep.leaseOf_eq_some hinv hlease with
      hold | ⟨name, hevent, rfl, _, hnone⟩
    · exact hbefore key lease hold haddress
    · exact absurd ⟨hnone, lease, hlease, haddress⟩ (hnot name hevent)

/-! ## Calls of a pool -/

theorem lookupWithTtl_eq_ok (h : state.Inv) {pool : FakeIpPool}
    {reply : Option (Name × ℕ)}
    (hcall : state.pool.lookupWithTtl family address state.clock =
      .ok (reply, pool)) {found : Name} (hreply : reply = some (found, lifetime)) :
    ∃ lease, state.pool.leaseOf family found.lowercasedLabels = some lease ∧
      lease.address = address ∧ state.clock < lease.expiresAt ∧
      lifetime = lease.expiresAt - state.clock := by
  subst hreply
  rw [FakeIpPool.lookupWithTtl] at hcall
  cases hinner : state.pool.families family with
  | none => simp [hinner] at hcall
  | some inner =>
    have hinv := (h.families family inner hinner).1
    obtain ⟨reply, next, hlookup, hlookedUp⟩ :=
      FamilyState.lookupWithTtl_spec hinv address state.clock
    rw [hinner] at hcall
    simp only [hlookup, Run.ok_bind] at hcall
    obtain ⟨rfl, rfl⟩ := Prod.mk.inj (Run.ok.inj hcall)
    obtain ⟨lease, hlease, _, haddress, hlive, hlifetime⟩ :=
      (hlookedUp.reply_iff hinv found lifetime).mp rfl
    exact ⟨lease, FakeIpPool.leaseOf_eq_some.mpr ⟨inner, hinner, hlease⟩,
      haddress, hlive, hlifetime⟩

/-! ## The terms of a lease -/

structure LeaseTerms (instantMax : ℕ) (granted : PoolState)
    (family : IpFamily) (name : Name) (address : BitVec family.width)
    (expiry : ℕ) : Prop where
  found : ∀ later, KeepsMapping instantMax family address granted later →
    later.clock < expiry → ∃ stored pool,
      later.pool.lookupWithTtl family address later.clock =
          .ok (some (stored, expiry - later.clock), pool) ∧
        stored.eqIgnoreCase name = true
  reused : ∀ later, KeepsMapping instantMax family address granted later →
    later.clock < expiry → ∀ variant : Name,
      variant.eqIgnoreCase name = true →
        (later.clock + later.pool.ttl ≤ instantMax → ∃ pool,
          later.pool.allocateWithTtl family instantMax variant later.clock =
            .ok ((address, expiry - later.clock), pool)) ∧
        (instantMax < later.clock + later.pool.ttl →
          later.pool.allocateWithTtl family instantMax variant later.clock =
            .err .fakeIpTtlOutOfRange)
  exclusive : ∀ later, KeepsMapping instantMax family address granted later →
    later.clock < expiry → ∀ (other : Name) (given : BitVec family.width)
      (lifetime : ℕ) (pool : FakeIpPool), other.eqIgnoreCase name = false →
        later.pool.allocateWithTtl family instantMax other later.clock =
          .ok ((given, lifetime), pool) →
        given ≠ address ∨
          later.pool.Evicts family other later.clock address
  ended : ∀ later, NotLeased instantMax family address granted later →
    expiry ≤ later.clock → ∃ pool,
      later.pool.lookupWithTtl family address later.clock = .ok (none, pool)

theorem eqIgnoreCase_iff {first second : Name} :
    first.eqIgnoreCase second = true ↔
      first.lowercasedLabels = second.lowercasedLabels := by
  rw [Name.eqIgnoreCase, beq_iff_eq]

theorem Inv.exists_inner (h : state.Inv) {key : List Label}
    {lease : Lease family.width}
    (hlease : state.pool.leaseOf family key = some lease) :
    ∃ inner, state.pool.families family = some inner ∧ inner.Inv ∧
      inner.leaseOf key = some lease := by
  obtain ⟨inner, hinner, hfound⟩ := FakeIpPool.leaseOf_eq_some.mp hlease
  exact ⟨inner, hinner, (h.families family inner hinner).1, hfound⟩

theorem leaseTerms_of_lease (h : state.Inv) {lease : Lease family.width}
    (hlease : state.pool.leaseOf family name.lowercasedLabels = some lease)
    (hname : lease.name.lowercasedLabels = name.lowercasedLabels) :
    LeaseTerms instantMax state family name lease.address
      lease.expiresAt := by
  constructor
  · intro later hrun hlive
    obtain ⟨hinv, hlater⟩ := hrun.leaseOf h hlease hlive
    obtain ⟨inner, hinner, hinner', hfound⟩ := hinv.exists_inner hlater
    obtain ⟨reply, next, hlookup, hlookedUp⟩ :=
      FamilyState.lookupWithTtl_spec hinner' lease.address later.clock
    have hreply := (hlookedUp.reply_iff hinner' lease.name
      (lease.expiresAt - later.clock)).mpr
      ⟨lease, by rw [hname]; exact hfound, rfl, rfl, hlive, rfl⟩
    refine ⟨lease.name, later.pool.withFamily family next, ?_,
      eqIgnoreCase_iff.mpr hname⟩
    rw [FakeIpPool.lookupWithTtl, hinner]
    simp only [hlookup, Run.ok_bind, hreply]
    rfl
  · intro later hrun hlive variant hvariant
    obtain ⟨hinv, hlater⟩ := hrun.leaseOf h hlease hlive
    obtain ⟨inner, hinner, hinner', hfound⟩ := hinv.exists_inner hlater
    rw [← eqIgnoreCase_iff.mp hvariant] at hfound
    rw [FakeIpPool.allocateWithTtl, hinner]
    refine ⟨?_, ?_⟩
    · intro hfits
      obtain ⟨next, hallocate⟩ := FamilyState.allocateWithTtl_of_live
        hinner' (hashSalt family) hfound hlive hfits
      simp only [hallocate, Run.ok_bind]
      exact ⟨_, rfl⟩
    · intro hover
      simp only [FamilyState.allocateWithTtl, instantAdd,
        if_neg (Nat.not_le.mpr hover), Run.err_bind]
  · intro later hrun hlive other given lifetime pool hother hcall
    obtain ⟨hinv, hlater⟩ := hrun.leaseOf h hlease hlive
    obtain ⟨inner, next, hinner, hinner', _, hallocated, _⟩ :=
      allocateWithTtl_eq_ok hinv hcall
    rw [FakeIpPool.leaseOf, hinner, Option.bind_some] at hlater
    have hkey : name.lowercasedLabels ≠ other.lowercasedLabels := by
      intro heq
      rw [eqIgnoreCase_iff.mpr heq.symm] at hother
      cases hother
    rcases hallocated.ne_address hinner' hlater hlive hkey with
      hne | hevicts
    · exact .inl hne
    · exact .inr ⟨inner, hinner, hevicts⟩
  · intro later hrun hexpired
    -- at first the lease is the only one of its address
    have hfirst : ∀ key other, state.pool.leaseOf family key = some other →
        other.address = lease.address →
          other.expiresAt ≤ lease.expiresAt := by
      intro key other hother haddress
      obtain ⟨inner, hinner, hinner', hfound⟩ := h.exists_inner hlease
      rw [FakeIpPool.leaseOf, hinner, Option.bind_some] at hother
      obtain ⟨entry, hentry, rfl⟩ := FamilyState.leaseOf_eq_some.mp hfound
      obtain ⟨entry', hentry', rfl⟩ := FamilyState.leaseOf_eq_some.mp hother
      have hkey := hinner'.linked.key_eq hentry' hentry haddress
      rw [hkey] at hentry'
      rw [Option.some.inj (hentry'.symm.trans hentry)]
    obtain ⟨hinv, hlast⟩ := hrun.expiresAt_le h hfirst
    rw [FakeIpPool.lookupWithTtl]
    cases hinner : later.pool.families family with
    | none => exact ⟨later.pool, rfl⟩
    | some inner =>
      obtain ⟨next, hlookup⟩ := FamilyState.lookupWithTtl_of_expired
        (hinv.families family inner hinner).1
        (fun key other hother haddress => (hlast key other
          (FakeIpPool.leaseOf_eq_some.mpr ⟨inner, hinner, hother⟩)
          haddress).trans hexpired)
      simp only [hlookup, Run.ok_bind]
      exact ⟨_, rfl⟩

theorem lease_lasts_until_expiry (instantMax : ℕ) (before : PoolState)
    (hreaches : Reaches instantMax before) :
    (∀ family name address lifetime pool,
      before.pool.allocateWithTtl family instantMax name before.clock =
          .ok ((address, lifetime), pool) →
        0 < lifetime ∧ lifetime ≤ before.pool.ttl ∧
          LeaseTerms instantMax ⟨before.clock, pool⟩ family name address
            (before.clock + lifetime)) ∧
    (∀ family address found lifetime pool,
      before.pool.lookupWithTtl family address before.clock =
          .ok (some (found, lifetime), pool) →
        0 < lifetime ∧ lifetime ≤ before.pool.ttl) ∧
    ∀ event after, Step instantMax before event after →
      ∀ family key lease lease',
        before.pool.leaseOf family key = some lease →
          before.clock < lease.expiresAt →
            after.pool.leaseOf family key = some lease' → lease' = lease := by
  have h := hreaches.inv.1
  refine ⟨?_, ?_, ?_⟩
  · intro family name address lifetime pool hcall
    have hgranted : Inv ⟨before.clock, pool⟩ :=
      (Step.allocate family name hcall).inv h
    obtain ⟨inner, next, hinner, hinner', _, hallocated, rfl⟩ :=
      allocateWithTtl_eq_ok h hcall
    obtain ⟨lease, hlease, hname, rfl, hexpires, hpos⟩ :=
      hallocated.exists_lease hinner' rfl (validateTtl_eq_ok h.ttl_valid)
    have hpool : (before.pool.withFamily family next).leaseOf family
        name.lowercasedLabels = some lease := by
      rw [FakeIpPool.leaseOf_withFamily, hlease]
    have htimely : lease.expiresAt ≤ before.clock + before.pool.ttl :=
      hgranted.timely family _ lease hpool
    refine ⟨hpos, by omega, ?_⟩
    rw [← hexpires]
    exact leaseTerms_of_lease hgranted hpool hname
  · intro family address found lifetime pool hcall
    obtain ⟨lease, hlease, _, hlive, hlifetime⟩ :=
      lookupWithTtl_eq_ok h hcall rfl
    have := h.timely family _ lease hlease
    omega
  · intro event after hstep family key lease lease' hlease hlive hafter
    rcases hstep.leaseOf_eq_some h hafter with
      hbefore | ⟨name, _, _, _, hnone⟩
    · exact Option.some.inj (hbefore.symm.trans hlease)
    · rw [hlease, Option.filter_some, Lease.liveAt,
        if_pos (decide_eq_true hlive)] at hnone
      cases hnone

/-! ## A pool of two addresses -/

def nanosPerSecond : ℕ := 1000000000

def clockMax : ℕ := 2 ^ 63 * nanosPerSecond - 1

def twoAddressPool (ttl : ℕ) : FakeIpPoolBuilder where
  ranges
    | .ipv4 => some (1#32, 2#32)
    | .ipv6 => none
  ttl := some ttl

def firstGrant (ttl clock : ℕ) :
    Run Error (FakeIpPool × (BitVec IpFamily.ipv4.width × ℕ) × FakeIpPool) := do
  let pool ← (twoAddressPool ttl).build
  let granted ← pool.allocateWithTtl .ipv4 clockMax FamilyState.alphaName clock
  pure (pool, granted)

theorem firstGrant_eq_ok {ttl clock : ℕ} {pool : FakeIpPool}
    {granted : (BitVec IpFamily.ipv4.width × ℕ) × FakeIpPool}
    (hgrant : firstGrant ttl clock = .ok (pool, granted)) :
    (∀ start, Reaches clockMax ⟨start, pool⟩) ∧
      pool.allocateWithTtl .ipv4 clockMax FamilyState.alphaName clock =
        .ok granted := by
  obtain ⟨made, hbuild, hrest⟩ := Run.bind_eq_ok_iff.mp hgrant
  obtain ⟨found, hcall, hlast⟩ := Run.bind_eq_ok_iff.mp hrest
  obtain ⟨rfl, rfl⟩ := Prod.mk.inj (Run.ok.inj hlast)
  exact ⟨fun start => ⟨⟨start, made⟩, .inl ⟨_, hbuild⟩, .refl⟩, hcall⟩

theorem leaseTerms_of_firstGrant :
    ∃ pool address lifetime, LeaseTerms clockMax ⟨0, pool⟩ .ipv4
      FamilyState.alphaName address (0 + lifetime) := by
  have hcheck : (firstGrant nanosPerSecond 0).any (fun _ => true) = true := by
    decide
  obtain ⟨⟨pool, ⟨address, lifetime⟩, granted⟩, hgrant, _⟩ :=
    Run.exists_of_any hcheck
  obtain ⟨hreaches, hcall⟩ := firstGrant_eq_ok hgrant
  exact ⟨granted, address, lifetime, ((lease_lasts_until_expiry clockMax
    ⟨0, pool⟩ (hreaches 0)).1 _ _ _ _ _ hcall).2.2⟩

/-- With a time to live that almost reaches the end of the clock, a name whose
lease has long to go is refused as soon as a new lease would end too late. -/
theorem reuse_refused_near_clockMax :
    ∃ before pool address lifetime later, Reaches clockMax before ∧
      before.pool.allocateWithTtl .ipv4 clockMax FamilyState.alphaName
        before.clock = .ok ((address, lifetime), pool) ∧
      KeepsMapping clockMax .ipv4 address ⟨before.clock, pool⟩ later ∧
      later.clock < before.clock + lifetime ∧
      later.pool.allocateWithTtl .ipv4 clockMax FamilyState.alphaName
        later.clock = .err .fakeIpTtlOutOfRange := by
  have hcheck : (firstGrant ((2 ^ 63 - 7) * nanosPerSecond)
      (5 * nanosPerSecond)).any (fun grant =>
        decide (8 * nanosPerSecond < 5 * nanosPerSecond + grant.2.1.2 ∧
          (grant.2.2.allocateWithTtl .ipv4 clockMax FamilyState.alphaName
            (8 * nanosPerSecond)).error? = some .fakeIpTtlOutOfRange)) =
      true := by
    decide
  obtain ⟨⟨pool, ⟨address, lifetime⟩, granted⟩, hgrant, hlater⟩ :=
    Run.exists_of_any hcheck
  obtain ⟨hreaches, hcall⟩ := firstGrant_eq_ok hgrant
  obtain ⟨hlive, hrefused⟩ := of_decide_eq_true hlater
  refine ⟨⟨5 * nanosPerSecond, pool⟩, granted, address, lifetime,
    ⟨8 * nanosPerSecond, granted⟩, hreaches _, hcall, ?_, hlive,
    Run.eq_err_of_error? hrefused⟩
  refine .single ⟨.tick, .tick ?_, ?_⟩
  · exact Nat.mul_le_mul_right _ (by omega)
  · intro name hevent
    cases hevent

end PoolState

end DnsLattice
