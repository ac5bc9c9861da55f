import DnsLattice.FakeIpLeases

/-!
# Runs of the Fake IP pool

The calls of any number of threads are interleaved by the locks of the two
families.  An allocation and a lookup read the clock while they hold the lock,
so that their readings follow the order of the run; a purge and a snapshot
read it before they take the first lock, and may use an older reading.
-/

namespace DnsLattice

structure PoolState where
  clock : ℕ
  pool : FakeIpPool

inductive PoolEvent where
  | tick
  | allocate (family : IpFamily) (name : Name)
  | lookup (family : IpFamily) (address : BitVec family.width)
  | purge (family : IpFamily) (readAt : ℕ)
  | reorder (family : IpFamily)

namespace PoolState

/-- One section, or the passing of time. -/
inductive Step (instantMax : ℕ) : PoolState → PoolEvent → PoolState → Prop
  | tick {state : PoolState} {clock : ℕ} (hle : state.clock ≤ clock) :
      Step instantMax state .tick { state with clock := clock }
  | allocate {state : PoolState} {pool : FakeIpPool} (family : IpFamily)
      (name : Name) {reply : BitVec family.width × ℕ}
      (hcall : state.pool.allocateWithTtl family instantMax name state.clock =
        .ok (reply, pool)) :
      Step instantMax state (.allocate family name) { state with pool := pool }
  | lookup {state : PoolState} {pool : FakeIpPool} (family : IpFamily)
      (address : BitVec family.width) {reply : Option (Name × ℕ)}
      (hcall : state.pool.lookupWithTtl family address state.clock =
        .ok (reply, pool)) :
      Step instantMax state (.lookup family address) { state with pool := pool }
  | purge {state : PoolState} {pool : FakeIpPool} (family : IpFamily)
      {readAt count : ℕ} (hread : readAt ≤ state.clock)
      (hcall : state.pool.purgeFamily family readAt = .ok (count, pool)) :
      Step instantMax state (.purge family readAt) { state with pool := pool }
  | reorder {state : PoolState} (family : IpFamily)
      {before : FamilyState family.width} {forward : NameMap (Mapping family.width)}
      {reverse : AList fun _ : BitVec family.width => Name}
      (hfamily : state.pool.families family = some before)
      (hforward : before.forward.entries.Perm forward.entries)
      (hreverse : before.reverse.entries.Perm reverse.entries) :
      Step instantMax state (.reorder family)
        { state with
          pool := state.pool.withFamily family
            { before with forward := forward, reverse := reverse } }

def Starts (instantMax : ℕ) (state : PoolState) : Prop :=
  (∃ builder : FakeIpPoolBuilder, builder.build = .ok state.pool) ∨
    ∃ snapshot, FakeIpPool.restore instantMax snapshot state.clock =
      .ok state.pool

def Reaches (instantMax : ℕ) (state : PoolState) : Prop :=
  ∃ first, Starts instantMax first ∧
    Relation.ReflTransGen (fun before after =>
      ∃ event, Step instantMax before event after) first state

end PoolState

namespace FakeIpPool

def leaseOf (pool : FakeIpPool) (family : IpFamily) (key : List Label) :
    Option (Lease family.width) :=
  (pool.families family).bind fun state => state.leaseOf key

def Evicts (pool : FakeIpPool) (family : IpFamily) (name : Name) (now : ℕ)
    (address : BitVec family.width) : Prop :=
  ∃ state, pool.families family = some state ∧ state.Evicts name now address

variable {pool after : FakeIpPool} {family : IpFamily}

theorem withFamily_families (state : FamilyState family.width)
    (other : IpFamily) :
    (pool.withFamily family state).families other =
      Function.update pool.families family (some state) other := rfl

theorem families_withFamily (state : FamilyState family.width) :
    (pool.withFamily family state).families family = some state := by
  rw [withFamily_families, Function.update_self]

theorem families_withFamily_ne (state : FamilyState family.width)
    {other : IpFamily} (hne : other ≠ family) :
    (pool.withFamily family state).families other = pool.families other := by
  rw [withFamily_families, Function.update_of_ne hne]

theorem leaseOf_eq_some {key : List Label} {lease : Lease family.width} :
    pool.leaseOf family key = some lease ↔
      ∃ state, pool.families family = some state ∧
        state.leaseOf key = some lease :=
  Option.bind_eq_some_iff

theorem leaseOf_withFamily (state : FamilyState family.width)
    (key : List Label) :
    (pool.withFamily family state).leaseOf family key = state.leaseOf key := by
  rw [leaseOf, families_withFamily, Option.bind_some]

theorem leaseOf_withFamily_ne (state : FamilyState family.width)
    {other : IpFamily} (hne : other ≠ family) (key : List Label) :
    (pool.withFamily family state).leaseOf other key =
      pool.leaseOf other key := by
  rw [leaseOf, leaseOf, families_withFamily_ne state hne]

end FakeIpPool

/-! ## What holds of every pool -/

def Configured (families : Families) : Prop :=
  ∃ family, (families family).isSome

theorem configured_iff {families : Families} :
    Configured families ↔
      ¬((families .ipv4).isNone ∧ (families .ipv6).isNone) := by
  rw [not_and_or, Option.isNone_iff_eq_none, Option.isNone_iff_eq_none,
    ← ne_eq, ← ne_eq, Option.ne_none_iff_isSome, Option.ne_none_iff_isSome,
    Configured]
  constructor
  · rintro ⟨family, hsome⟩
    cases family with
    | ipv4 => exact .inl hsome
    | ipv6 => exact .inr hsome
  · rintro (hsome | hsome)
    · exact ⟨.ipv4, hsome⟩
    · exact ⟨.ipv6, hsome⟩

theorem Configured.update {families : Families} (h : Configured families)
    (family : IpFamily) (inner : FamilyState family.width) :
    Configured (Function.update families family (some inner)) := by
  obtain ⟨other, hother⟩ := h
  refine ⟨other, ?_⟩
  by_cases hsame : other = family
  · subst hsame
    rw [Function.update_self]
    rfl
  · rw [Function.update_of_ne hsame]
    exact hother

/-- Both families keep their invariants, and no lease is longer than the
time to live from now on. -/
structure PoolState.Inv (state : PoolState) : Prop where
  ttl_valid : validateTtl state.pool.ttl = .ok ()
  configured : Configured state.pool.families
  families : ∀ family inner, state.pool.families family = some inner →
    inner.Inv ∧ inner.Numbered
  timely : ∀ family key lease,
    state.pool.leaseOf family key = some lease →
      lease.expiresAt ≤ state.clock + state.pool.ttl

namespace PoolState

inductive Section (clock ttl : ℕ) (family : IpFamily)
    (inner : FamilyState family.width) :
    PoolEvent → FamilyState family.width → Prop
  | allocate {name : Name} {address : BitVec family.width} {lifetime : ℕ}
      {next : FamilyState family.width}
      (hallocated : inner.Allocated name (hashSalt family) clock ttl
        (clock + ttl) address lifetime next) :
      Section clock ttl family inner (.allocate family name) next
  | lookup {address : BitVec family.width} {reply : Option (Name × ℕ)}
      {next : FamilyState family.width}
      (hlookedUp : inner.LookedUp address clock reply next) :
      Section clock ttl family inner (.lookup family address) next
  | purge {readAt : ℕ} {next : FamilyState family.width}
      (hread : readAt ≤ clock) (hpurged : inner.Purged readAt next) :
      Section clock ttl family inner (.purge family readAt) next
  | reorder {forward : NameMap (Mapping family.width)}
      {reverse : AList fun _ : BitVec family.width => Name}
      (hforward : inner.forward.entries.Perm forward.entries)
      (hreverse : inner.reverse.entries.Perm reverse.entries) :
      Section clock ttl family inner (.reorder family)
        { inner with forward := forward, reverse := reverse }

section SectionRules

variable {clock ttl : ℕ} {family : IpFamily}
  {inner next : FamilyState family.width} {event : PoolEvent}

theorem Section.edits (hsection : Section clock ttl family inner event next)
    (h : inner.Inv) :
    Relation.ReflTransGen FamilyState.Edit inner next := by
  cases hsection with
  | allocate hallocated => exact hallocated.edits h
  | lookup hlookedUp => exact hlookedUp.edits
  | purge hread hpurged => exact hpurged.edits
  | reorder hforward hreverse => exact .single (.reorder hforward hreverse)

theorem Section.keeps (hsection : Section clock ttl family inner event next)
    (h : inner.Inv) {key : List Label} {lease : Lease family.width}
    (hlease : inner.leaseOf key = some lease)
    (hlive : clock < lease.expiresAt) :
    next.leaseOf key = some lease ∨
      ∃ name, event = .allocate family name ∧
        inner.Evicts name clock lease.address := by
  cases hsection with
  | allocate hallocated =>
    rcases hallocated.keeps h hlease hlive with hkept | hevicts
    · exact .inl hkept
    · exact .inr ⟨_, rfl, hevicts⟩
  | lookup hlookedUp =>
    left
    rw [hlookedUp.leases, FamilyState.filter_liveAt_eq_some]
    exact ⟨hlease, hlive⟩
  | purge hread hpurged =>
    left
    rw [hpurged.leaseOf_eq, FamilyState.filter_liveAt_eq_some]
    exact ⟨hlease, hread.trans_lt hlive⟩
  | reorder hforward hreverse =>
    left
    rw [FamilyState.leaseOf] at hlease ⊢
    rwa [← AList.perm_lookup hforward]

/-- A lease found after a section was there before, or the section has made it
for a name without a live lease. -/
theorem Section.leaseOf_eq_some
    (hsection : Section clock ttl family inner event next) (h : inner.Inv)
    {key : List Label} {lease : Lease family.width}
    (hlease : next.leaseOf key = some lease) :
    inner.leaseOf key = some lease ∨
      ∃ name, event = .allocate family name ∧ key = name.lowercasedLabels ∧
        lease.expiresAt = clock + ttl ∧
        (inner.leaseOf key).filter (Lease.liveAt clock) = none := by
  cases hsection with
  | allocate hallocated =>
    rcases hallocated.leaseOf_eq_some h hlease with
      ⟨hbefore, _⟩ | ⟨hkey, rfl, hnone, _⟩
    · exact .inl hbefore
    · exact .inr ⟨_, rfl, hkey, rfl, hnone⟩
  | lookup hlookedUp =>
    rw [hlookedUp.leases, FamilyState.filter_liveAt_eq_some] at hlease
    exact .inl hlease.1
  | purge hread hpurged =>
    rw [hpurged.leaseOf_eq, FamilyState.filter_liveAt_eq_some] at hlease
    exact .inl hlease.1
  | reorder hforward hreverse =>
    left
    rw [FamilyState.leaseOf] at hlease ⊢
    rwa [← AList.perm_lookup hforward] at hlease

end SectionRules

section StepRules

variable {instantMax : ℕ} {state after : PoolState} {event : PoolEvent}
  {family : IpFamily} {name : Name}

theorem allocateWithTtl_eq_ok (h : state.Inv)
    {address : BitVec family.width} {lifetime : ℕ} {pool : FakeIpPool}
    (hcall : state.pool.allocateWithTtl family instantMax name state.clock =
      .ok ((address, lifetime), pool)) :
    ∃ inner next, state.pool.families family = some inner ∧ inner.Inv ∧
      state.clock + state.pool.ttl ≤ instantMax ∧
      inner.Allocated name (hashSalt family) state.clock state.pool.ttl
        (state.clock + state.pool.ttl) address lifetime next ∧
      pool = state.pool.withFamily family next := by
  rw [FakeIpPool.allocateWithTtl] at hcall
  cases hinner : state.pool.families family with
  | none => simp [hinner] at hcall
  | some inner =>
    have hinv := (h.families family inner hinner).1
    rw [hinner] at hcall
    obtain ⟨⟨reply, next⟩, hallocate, hrest⟩ := Run.bind_eq_ok_iff.mp hcall
    obtain ⟨rfl, rfl⟩ := Prod.mk.inj (Run.ok.inj hrest)
    obtain ⟨hfits, hallocated⟩ :=
      FamilyState.allocateWithTtl_eq_ok hinv hallocate
    exact ⟨inner, next, rfl, hinv, hfits, hallocated, rfl⟩

theorem Step.cases (hstep : Step instantMax state event after) (h : state.Inv) :
    (state.clock ≤ after.clock ∧ after.pool = state.pool ∧
      ∀ family name, event ≠ .allocate family name) ∨
      ∃ family inner next, state.pool.families family = some inner ∧
        Section state.clock state.pool.ttl family inner event next ∧
        after = { state with pool := state.pool.withFamily family next } := by
  cases hstep with
  | tick hle => exact .inl ⟨hle, rfl, by simp⟩
  | @allocate pool family name reply hcall =>
    right
    obtain ⟨inner, next, hinner, _, _, hallocated, rfl⟩ :=
      allocateWithTtl_eq_ok h hcall
    exact ⟨family, inner, next, hinner, .allocate hallocated, rfl⟩
  | @lookup pool family address reply hcall =>
    rw [FakeIpPool.lookupWithTtl] at hcall
    cases hinner : state.pool.families family with
    | none =>
      rw [hinner] at hcall
      obtain ⟨rfl, rfl⟩ := Prod.mk.inj (Run.ok.inj hcall)
      exact .inl ⟨le_rfl, rfl, by simp⟩
    | some inner =>
      right
      obtain ⟨found, next, hlookup, hlookedUp⟩ :=
        FamilyState.lookupWithTtl_spec (h.families family inner hinner).1
          address state.clock
      rw [hinner] at hcall
      simp only [hlookup, Run.ok_bind] at hcall
      obtain ⟨rfl, rfl⟩ := Prod.mk.inj (Run.ok.inj hcall)
      exact ⟨family, inner, next, hinner, .lookup hlookedUp, rfl⟩
  | @purge pool family readAt count hread hcall =>
    rw [FakeIpPool.purgeFamily] at hcall
    cases hinner : state.pool.families family with
    | none =>
      rw [hinner] at hcall
      obtain ⟨rfl, rfl⟩ := Prod.mk.inj (Run.ok.inj hcall)
      exact .inl ⟨le_rfl, rfl, by simp⟩
    | some inner =>
      right
      obtain ⟨next, hpurge, hpurged⟩ := FamilyState.purgeExpired_spec
        (h.families family inner hinner).1 readAt
      rw [hinner] at hcall
      simp only [hpurge, Run.ok_bind] at hcall
      obtain ⟨rfl, rfl⟩ := Prod.mk.inj (Run.ok.inj hcall)
      exact ⟨family, inner, next, hinner, .purge hread hpurged, rfl⟩
  | @reorder family before forward reverse hfamily hforward hreverse =>
    right
    exact ⟨family, before, _, hfamily, .reorder hforward hreverse, rfl⟩

theorem Step.clock_le (hstep : Step instantMax state event after) :
    state.clock ≤ after.clock := by
  cases hstep with
  | tick hle => exact hle
  | allocate family name hcall => exact le_rfl
  | lookup family address hcall => exact le_rfl
  | purge family hread hcall => exact le_rfl
  | reorder family hfamily hforward hreverse => exact le_rfl

theorem Step.keeps (hstep : Step instantMax state event after)
    (h : state.Inv) {key : List Label} {lease : Lease family.width}
    (hlease : state.pool.leaseOf family key = some lease)
    (hlive : state.clock < lease.expiresAt) :
    after.pool.leaseOf family key = some lease ∨
      ∃ name, event = .allocate family name ∧
        state.pool.Evicts family name state.clock lease.address := by
  rcases hstep.cases h with
    ⟨_, hpool, _⟩ | ⟨locked, inner, next, hinner, hsection, rfl⟩
  · left
    rw [hpool, hlease]
  · by_cases hsame : family = locked
    · subst hsame
      obtain ⟨found, hfound, hbefore⟩ := FakeIpPool.leaseOf_eq_some.mp hlease
      obtain rfl := Option.some.inj (hinner.symm.trans hfound)
      rcases hsection.keeps (h.families family inner hinner).1 hbefore
        hlive with hkept | ⟨name, hevent, hevicts⟩
      · left
        rw [FakeIpPool.leaseOf_withFamily, hkept]
      · exact .inr ⟨name, hevent, inner, hinner, hevicts⟩
    · left
      rw [FakeIpPool.leaseOf_withFamily_ne next hsame, hlease]

/-- A lease found after a step was there before, or the step has made it for a
name without a live lease. -/
theorem Step.leaseOf_eq_some (hstep : Step instantMax state event after)
    (h : state.Inv) {key : List Label} {lease : Lease family.width}
    (hlease : after.pool.leaseOf family key = some lease) :
    state.pool.leaseOf family key = some lease ∨
      ∃ name, event = .allocate family name ∧ key = name.lowercasedLabels ∧
        lease.expiresAt = state.clock + state.pool.ttl ∧
        (state.pool.leaseOf family key).filter (Lease.liveAt state.clock) =
          none := by
  rcases hstep.cases h with
    ⟨_, hpool, _⟩ | ⟨locked, inner, next, hinner, hsection, rfl⟩
  · left
    rwa [hpool] at hlease
  · by_cases hsame : family = locked
    · subst hsame
      rw [FakeIpPool.leaseOf_withFamily] at hlease
      have hbefore : state.pool.leaseOf family key = inner.leaseOf key := by
        rw [FakeIpPool.leaseOf, hinner, Option.bind_some]
      rw [hbefore]
      exact hsection.leaseOf_eq_some (h.families family inner hinner).1 hlease
    · left
      rwa [FakeIpPool.leaseOf_withFamily_ne next hsame] at hlease

theorem Step.ttl_eq (hstep : Step instantMax state event after)
    (h : state.Inv) : after.pool.ttl = state.pool.ttl := by
  rcases hstep.cases h with ⟨_, hpool, _⟩ | ⟨_, _, _, _, _, rfl⟩
  · rw [hpool]
  · rfl

theorem Step.inv (hstep : Step instantMax state event after)
    (h : state.Inv) : after.Inv := by
  have httl := hstep.ttl_eq h
  have hclock := hstep.clock_le
  refine ⟨by rw [httl]; exact h.ttl_valid, ?_, ?_, ?_⟩
  · rcases hstep.cases h with
      ⟨_, hpool, _⟩ | ⟨locked, inner, next, hinner, hsection, rfl⟩
    · rw [hpool]
      exact h.configured
    · exact h.configured.update locked next
  · intro family found hfound
    rcases hstep.cases h with
      ⟨_, hpool, _⟩ | ⟨locked, inner, next, hinner, hsection, rfl⟩
    · rw [hpool] at hfound
      exact h.families family found hfound
    · by_cases hsame : family = locked
      · subst hsame
        rw [FakeIpPool.families_withFamily] at hfound
        obtain rfl := Option.some.inj hfound
        obtain ⟨hinv, hnumbered⟩ := h.families family inner hinner
        have hedits := hsection.edits hinv
        exact ⟨FamilyState.inv_of_edits hinv hedits,
          FamilyState.numbered_of_edits hnumbered hedits⟩
      · rw [FakeIpPool.families_withFamily_ne next hsame] at hfound
        exact h.families family found hfound
  · intro family key lease hlease
    rw [httl]
    rcases hstep.leaseOf_eq_some h hlease with
      hbefore | ⟨name, _, _, hexpires, _⟩
    · have := h.timely family key lease hbefore
      omega
    · omega

end StepRules

/-! ## The first state -/

def FreshAt (instantMax now ttl : ℕ) (families : Families) : Prop :=
  ∀ family inner, families family = some inner →
    inner.Inv ∧ inner.Numbered ∧ ∀ key lease,
      inner.leaseOf key = some lease →
        lease.expiresAt ≤ now + ttl ∧ lease.expiresAt ≤ instantMax

def Made (instantMax now : ℕ) (pool : FakeIpPool) : Prop :=
  validateTtl pool.ttl = .ok () ∧ Configured pool.families ∧
    FreshAt instantMax now pool.ttl pool.families

theorem newFamily_eq_ok {w : ℕ} {range : Option (BitVec w × BitVec w)}
    {made : Option (FamilyState w)} (hnew : newFamily range = .ok made) :
    ∀ inner, made = some inner →
      FamilyState.new (range.getD (inner.start, inner.stop)) = .ok inner := by
  intro inner hmade
  subst hmade
  cases range with
  | none => cases Run.ok.inj hnew
  | some range =>
    obtain ⟨found, hfound, hrest⟩ := Run.bind_eq_ok_iff.mp hnew
    obtain rfl := Option.some.inj (Run.ok.inj hrest)
    exact hfound

theorem leaseOf_new {w : ℕ} {range : BitVec w × BitVec w}
    {first : FamilyState w} (hnew : FamilyState.new range = .ok first)
    (key : List Label) : first.leaseOf key = none := by
  rw [FamilyState.new] at hnew
  split_ifs at hnew
  obtain rfl := Run.ok.inj hnew
  rfl

theorem newFamilies_eq_ok {ranges : Ranges} {families : Families}
    (hnew : newFamilies ranges = .ok families) (instantMax now ttl : ℕ) :
    FreshAt instantMax now ttl families := by
  obtain ⟨ipv4, hipv4, hrest⟩ := Run.bind_eq_ok_iff.mp hnew
  obtain ⟨ipv6, hipv6, hlast⟩ := Run.bind_eq_ok_iff.mp hrest
  obtain rfl := Run.ok.inj hlast
  have hfresh : ∀ {w : ℕ} {range : BitVec w × BitVec w}
      {inner : FamilyState w}, FamilyState.new range = .ok inner →
      inner.Inv ∧ inner.Numbered ∧ ∀ key lease,
        inner.leaseOf key = some lease →
          lease.expiresAt ≤ now + ttl ∧ lease.expiresAt ≤ instantMax := by
    intro w range inner hinner
    obtain ⟨hinv, hnumbered, _⟩ := FamilyState.new_eq_ok hinner
    refine ⟨hinv, hnumbered, ?_⟩
    intro key lease hlease
    rw [leaseOf_new hinner] at hlease
    cases hlease
  intro family inner hinner
  cases family with
  | ipv4 => exact hfresh (newFamily_eq_ok hipv4 inner hinner)
  | ipv6 => exact hfresh (newFamily_eq_ok hipv6 inner hinner)

theorem validateTtl_eq_ok {ttl : ℕ} (hvalid : validateTtl ttl = .ok ()) :
    0 < ttl := by
  rw [validateTtl] at hvalid
  split_ifs at hvalid with hbad
  rw [not_or] at hbad
  omega

theorem orInvalidSnapshot_eq_ok {α : Type} {run : Run Error α} {value : α}
    (hrun : orInvalidSnapshot run = .ok value) : run = .ok value := by
  cases run with
  | ok found => exact hrun
  | err error => cases hrun
  | panic => cases hrun
  | diverge => cases hrun

theorem restoreMapping_eq_ok {instantMax ttl elapsed now : ℕ}
    {families next : Families} {mapping : FakeIpMappingSnapshot}
    (hrestore : FakeIpPool.restoreMapping instantMax ttl elapsed now families
      mapping = .ok next) :
    next = families ∨ ∃ inner restored expiresAt,
      families mapping.address.family = some inner ∧
      inner.contains mapping.address.bits = true ∧
      expiresAt ≤ now + ttl ∧ expiresAt ≤ instantMax ∧
      inner.restore mapping.name mapping.address.bits expiresAt =
        .ok restored ∧
      next = Function.update families mapping.address.family
        (some restored) := by
  rw [FakeIpPool.restoreMapping] at hrestore
  split_ifs at hrestore with hlong hover
  · exact .inl (Run.ok.inj hrestore).symm
  · right
    rw [instantAdd] at hrestore
    split_ifs at hrestore with hfits
    cases hinner : families mapping.address.family with
    | none => simp [hinner] at hrestore
    | some inner =>
      simp only [hinner] at hrestore
      split_ifs at hrestore with hinside
      obtain ⟨restored, hrestored, hrest⟩ := Run.bind_eq_ok_iff.mp hrestore
      exact ⟨inner, restored, _, rfl, hinside, by omega, hfits, hrestored,
        (Run.ok.inj hrest).symm⟩

theorem restoreMapping_freshAt {instantMax ttl elapsed now : ℕ}
    {families next : Families} {mapping : FakeIpMappingSnapshot}
    (h : FreshAt instantMax now ttl families)
    (hrestore : FakeIpPool.restoreMapping instantMax ttl elapsed now families
      mapping = .ok next) : FreshAt instantMax now ttl next := by
  rcases restoreMapping_eq_ok hrestore with
    rfl | ⟨inner, restored, expiresAt, hinner, hinside, htimely, hfits,
      hrestored, rfl⟩
  · exact h
  · obtain ⟨hinv, hnumbered, hleases⟩ := h _ inner hinner
    intro family found hfound
    by_cases hsame : family = mapping.address.family
    · subst hsame
      rw [Function.update_self] at hfound
      obtain rfl := Option.some.inj hfound
      have hedits := FamilyState.restore_edits hinside hrestored
      refine ⟨FamilyState.inv_of_edits hinv hedits,
        FamilyState.numbered_of_edits hnumbered hedits, ?_⟩
      intro key lease hlease
      rw [FamilyState.restore] at hrestored
      split_ifs at hrestored
      obtain rfl := Run.ok.inj hrestored
      rw [FamilyState.leaseOf_record] at hlease
      split_ifs at hlease
      · obtain rfl := Option.some.inj hlease
        exact ⟨htimely, hfits⟩
      · exact hleases key lease hlease
    · rw [Function.update_of_ne hsame] at hfound
      exact h family found hfound

theorem restoreMapping_configured {instantMax ttl elapsed now : ℕ}
    {families next : Families} {mapping : FakeIpMappingSnapshot}
    (h : Configured families)
    (hrestore : FakeIpPool.restoreMapping instantMax ttl elapsed now families
      mapping = .ok next) : Configured next := by
  rcases restoreMapping_eq_ok hrestore with
    rfl | ⟨_, restored, _, _, _, _, _, _, rfl⟩
  · exact h
  · exact h.update _ restored

theorem restore_eq_ok {instantMax now : ℕ} {snapshot : FakeIpPoolSnapshot}
    {pool : FakeIpPool}
    (hrestore : FakeIpPool.restore instantMax snapshot now = .ok pool) :
    Made instantMax now pool := by
  rw [FakeIpPool.restore] at hrestore
  obtain ⟨_, hvalid, hrest⟩ := Run.bind_eq_ok_iff.mp hrestore
  cases helapsed : durationSince now snapshot.capturedAt with
  | none => simp [helapsed] at hrest
  | some elapsed =>
    simp only [helapsed] at hrest
    obtain ⟨fresh, hfresh, hmore⟩ := Run.bind_eq_ok_iff.mp hrest
    split_ifs at hmore with hnone
    obtain ⟨families, hfold, hlast⟩ := Run.bind_eq_ok_iff.mp hmore
    obtain rfl := Run.ok.inj hlast
    refine ⟨orInvalidSnapshot_eq_ok hvalid, ?_, ?_⟩
    · exact Run.foldlM_invariant Configured
        (fun _ _ _ hbefore hstep => restoreMapping_configured hbefore hstep)
        (configured_iff.mpr hnone) hfold
    · exact Run.foldlM_invariant (FreshAt instantMax now snapshot.ttl)
        (fun _ _ _ hbefore hstep => restoreMapping_freshAt hbefore hstep)
        (newFamilies_eq_ok (orInvalidSnapshot_eq_ok hfresh) instantMax now
          snapshot.ttl) hfold

theorem build_eq_ok {builder : FakeIpPoolBuilder} {pool : FakeIpPool}
    (hbuild : builder.build = .ok pool) (instantMax now : ℕ) :
    Made instantMax now pool := by
  rw [FakeIpPoolBuilder.build] at hbuild
  cases httl : builder.ttl with
  | none => simp [httl] at hbuild
  | some ttl =>
    simp only [httl] at hbuild
    obtain ⟨_, hvalid, hrest⟩ := Run.bind_eq_ok_iff.mp hbuild
    obtain ⟨families, hnew, hlast⟩ := Run.bind_eq_ok_iff.mp hrest
    split_ifs at hlast with hnone
    obtain rfl := Run.ok.inj hlast
    exact ⟨hvalid, configured_iff.mpr hnone,
      newFamilies_eq_ok hnew instantMax now ttl⟩

def Representable (instantMax : ℕ) (state : PoolState) : Prop :=
  ∀ family key lease, state.pool.leaseOf family key = some lease →
    lease.expiresAt ≤ instantMax

theorem Starts.inv {instantMax : ℕ} {state : PoolState}
    (hstarts : Starts instantMax state) :
    state.Inv ∧ state.Representable instantMax := by
  have hmade : Made instantMax state.clock state.pool := by
    rcases hstarts with ⟨builder, hbuild⟩ | ⟨snapshot, hrestore⟩
    · exact build_eq_ok hbuild instantMax state.clock
    · exact restore_eq_ok hrestore
  obtain ⟨hvalid, hconfigured, hfresh⟩ := hmade
  refine ⟨⟨hvalid, hconfigured, ?_, ?_⟩, ?_⟩
  · intro family inner hinner
    obtain ⟨hinv, hnumbered, _⟩ := hfresh family inner hinner
    exact ⟨hinv, hnumbered⟩
  · intro family key lease hlease
    obtain ⟨inner, hinner, hfound⟩ := FakeIpPool.leaseOf_eq_some.mp hlease
    exact ((hfresh family inner hinner).2.2 key lease hfound).1
  · intro family key lease hlease
    obtain ⟨inner, hinner, hfound⟩ := FakeIpPool.leaseOf_eq_some.mp hlease
    exact ((hfresh family inner hinner).2.2 key lease hfound).2

theorem Step.representable {instantMax : ℕ} {state after : PoolState}
    {event : PoolEvent} (hstep : Step instantMax state event after)
    (h : state.Inv) (hrepresentable : state.Representable instantMax) :
    after.Representable instantMax := by
  intro family key lease hlease
  rcases hstep.leaseOf_eq_some h hlease with
    hbefore | ⟨name, rfl, _, hexpires, _⟩
  · exact hrepresentable family key lease hbefore
  · rw [hexpires]
    cases hstep with
    | allocate _ _ hcall =>
      obtain ⟨_, _, _, _, hfits, _⟩ := allocateWithTtl_eq_ok h hcall
      exact hfits

theorem Reaches.inv {instantMax : ℕ} {state : PoolState}
    (hreaches : Reaches instantMax state) :
    state.Inv ∧ state.Representable instantMax := by
  obtain ⟨first, hstarts, hsteps⟩ := hreaches
  induction hsteps with
  | refl => exact hstarts.inv
  | tail _ hlast ih =>
    obtain ⟨event, hstep⟩ := hlast
    exact ⟨hstep.inv ih.1, hstep.representable ih.1 ih.2⟩

end PoolState

end DnsLattice
