import DnsLattice.MessageModel
import DnsLattice.RunMonad
import DnsLattice.KeyOrder
import Mathlib.Data.List.AList
import Mathlib.Data.Prod.Lex

/-!
# The Fake IP pool

Each family of the pool keeps a map from names to mappings and a map from
addresses back to names.  Instants and durations are natural numbers of
nanoseconds; `instantMax` is the last instant the platform can represent.

A failed `expect` and an arithmetic overflow are the outcome `panic` and a
probe which never finds a free address is the outcome `diverge`, so that their
absence can be stated.  An error is returned before anything is changed.
-/

namespace DnsLattice

/-! ## Addresses -/

/-- The operations of `trait Address` on the integers of `w` bits. -/
class Address (w : ℕ) where
  capacity : BitVec w → BitVec w → Option (BitVec w)
  candidate : BitVec w → BitVec w → UInt64 → Run Error (BitVec w)
  advance : BitVec w → BitVec w
  isFull : ℕ → BitVec w → Bool

/-- `end.checked_sub(start)?.checked_add(1)`. -/
def checkedLength {w : ℕ} (start stop : BitVec w) : Option (BitVec w) :=
  if start ≤ stop ∧ stop.toNat - start.toNat + 1 < 2 ^ w then
    some (BitVec.ofNat w (stop.toNat - start.toNat + 1))
  else none

instance : Address 32 where
  capacity := checkedLength
  candidate start stop hash := do
    let distance ← Run.sub stop.toNat start.toNat
    let length ← Run.add (2 ^ 64) distance 1
    let offset ← Run.rem hash.toNat length
    let sum ← Run.add (2 ^ 32) start.toNat (offset % 2 ^ 32)
    pure (BitVec.ofNat 32 sum)
  advance value := value + 1
  isFull entries capacity := decide (capacity.toNat ≤ entries)

instance : Address 128 where
  capacity := checkedLength
  candidate start stop hash :=
    match checkedLength start stop with
    | some length => do
        let offset ← Run.rem hash.toNat length.toNat
        let sum ← Run.add (2 ^ 128) start.toNat offset
        pure (BitVec.ofNat 128 sum)
    | none => pure (start + BitVec.ofNat 128 hash.toNat)
  advance value := value + 1
  isFull entries capacity := decide (capacity.toNat ≤ entries)

inductive IpFamily where
  | ipv4
  | ipv6
  deriving DecidableEq, Repr

def IpFamily.each {value : IpFamily → Sort*} (ipv4 : value .ipv4)
    (ipv6 : value .ipv6) : ∀ family, value family
  | .ipv4 => ipv4
  | .ipv6 => ipv6

def IpFamily.width : IpFamily → ℕ
  | .ipv4 => 32
  | .ipv6 => 128

instance (family : IpFamily) : Address family.width :=
  match family with
  | .ipv4 => inferInstanceAs (Address 32)
  | .ipv6 => inferInstanceAs (Address 128)

structure IpAddr where
  family : IpFamily
  bits : BitVec family.width
  deriving DecidableEq, Repr

/-! ## The hash of a name -/

def hashSalt : IpFamily → UInt64
  | .ipv4 => 0x9B739F4AA5C317D1
  | .ipv6 => 0xE1D462B83F90AC75

def fnv1aByte (hash : UInt64) (byte : UInt8) : UInt64 :=
  (hash ^^^ byte.toUInt64) * 0x00000100000001B3

def fnv1aLabel (hash : UInt64) (label : Label) : UInt64 :=
  fnv1aByte (label.foldl (fun hash byte =>
    fnv1aByte hash (toAsciiLowercase byte)) hash) 0

def fnv1a (name : Name) (salt : UInt64) : UInt64 :=
  name.labels.foldl fnv1aLabel (0xcbf29ce484222325 ^^^ salt)

/-! ## One family -/

structure Mapping (w : ℕ) where
  address : BitVec w
  recency : UInt64
  allocation : UInt64
  expiresAt : ℕ
  deriving DecidableEq, Repr

/-- A `HashMap` keyed by names.  Names which differ in case only are one key;
the name which was inserted is kept beside the value. -/
abbrev NameMap (value : Type) := AList fun _ : List Label => Name × value

/-- `touches` counts the calls of `touch`; the code does not have it. -/
structure FamilyState (w : ℕ) where
  start : BitVec w
  stop : BitVec w
  forward : NameMap (Mapping w)
  reverse : AList fun _ : BitVec w => Name
  nextRecency : UInt64
  nextAllocation : UInt64
  touches : ℕ

namespace FamilyState

variable {w : ℕ}

def new (range : BitVec w × BitVec w) : Run Error (FamilyState w) :=
  if range.2 < range.1 then .err .invalidFakeIpRange
  else .ok {
    start := range.1
    stop := range.2
    forward := ∅
    reverse := ∅
    nextRecency := 0
    nextAllocation := 0
    touches := 0 }

def contains (state : FamilyState w) (address : BitVec w) : Bool :=
  decide (state.start ≤ address ∧ address ≤ state.stop)

/-- `self.forward.get(name)`. -/
def mappingOf (state : FamilyState w) (name : Name) :
    Option (Name × Mapping w) :=
  state.forward.lookup name.lowercasedLabels

def touch (state : FamilyState w) : UInt64 × FamilyState w :=
  (state.nextRecency,
    { state with
      nextRecency := state.nextRecency + 1
      touches := state.touches + 1 })

def removed (state : FamilyState w) (name : Name) (mapping : Mapping w) :
    FamilyState w :=
  { state with
    forward := state.forward.erase name.lowercasedLabels
    reverse := state.reverse.erase mapping.address }

/-- `self.forward.remove(name).expect(..)`, then the reverse direction. -/
def remove (state : FamilyState w) (name : Name) :
    Run Error (FamilyState w) :=
  match state.mappingOf name with
  | none => .panic
  | some (_, mapping) => .ok (state.removed name mapping)

/-- The names whose mappings have expired at `now`. -/
def expired (state : FamilyState w) (now : ℕ) : List Name :=
  (state.forward.entries.filter fun entry =>
    entry.2.2.expiresAt ≤ now).map fun entry => entry.2.1

def purgeExpired (state : FamilyState w) (now : ℕ) :
    Run Error (ℕ × FamilyState w) := do
  let purged ← (state.expired now).foldlM remove state
  pure ((state.expired now).length, purged)

def age (entry : Sigma fun _ : List Label => Name × Mapping w) : ℕ ×ₗ ℕ :=
  toLex (entry.2.2.recency.toNat, entry.2.2.allocation.toNat)

/-- The least recently used entry. -/
def oldest (state : FamilyState w) :
    Option (Sigma fun _ : List Label => Name × Mapping w) :=
  state.forward.entries.argmin age

def evictLru (state : FamilyState w) : Run Error (FamilyState w) :=
  match state.oldest with
  | none => .panic
  | some entry => state.remove entry.2.1

def refreshed (state : FamilyState w) (name : Name) (mapping : Mapping w) :
    FamilyState w :=
  let (recency, touched) := state.touch
  { touched with
    forward := touched.forward.insert name.lowercasedLabels
      (name, { mapping with recency := recency }) }

/-- The lifetime is read with `expect("expired mappings were purged")`. -/
def refresh (state : FamilyState w) (name : Name) (mapping : Mapping w)
    (now : ℕ) : Run Error (ℕ × FamilyState w) :=
  match durationSince mapping.expiresAt now with
  | none => .panic
  | some lifetime => .ok (lifetime, state.refreshed name mapping)

/-- Writes a mapping which neither direction holds yet. -/
def record (state : FamilyState w) (name : Name) (address : BitVec w)
    (expiresAt : ℕ) : FamilyState w :=
  let (recency, touched) := state.touch
  { touched with
    nextAllocation := touched.nextAllocation + 1
    reverse := touched.reverse.insert address name
    forward := touched.forward.insert name.lowercasedLabels
      (name, ⟨address, recency, touched.nextAllocation, expiresAt⟩) }

def lookupWithTtl (state : FamilyState w) (address : BitVec w) (now : ℕ) :
    Run Error (Option (Name × ℕ) × FamilyState w) := do
  let (_, purged) ← state.purgeExpired now
  if purged.contains address then
    match purged.reverse.lookup address with
    | none => pure (none, purged)
    | some name =>
        match purged.mappingOf name with
        -- the recency is already spent when `get_mut` finds nothing
        | none => pure (none, purged.touch.2)
        | some (stored, mapping) => do
            let (lifetime, after) ← purged.refresh stored mapping now
            pure (some (name, lifetime), after)
  else pure (none, purged)

def restore (state : FamilyState w) (name : Name) (address : BitVec w)
    (expiresAt : ℕ) : Run Error (FamilyState w) :=
  if (state.mappingOf name).isSome ∨ (state.reverse.lookup address).isSome then
    .err .invalidFakeIpSnapshot
  else .ok (state.record name address expiresAt)

end FamilyState

structure FakeIpMappingSnapshot where
  name : Name
  address : IpAddr
  remainingLifetime : ℕ
  deriving DecidableEq, Repr

namespace FamilyState

variable {w : ℕ}

def snapshot (state : FamilyState w) (now : ℕ) (address : BitVec w → IpAddr) :
    List FakeIpMappingSnapshot :=
  (sortByKey age state.forward.entries).filterMap fun entry =>
    (durationSince entry.2.2.expiresAt now).map fun remaining =>
      ⟨entry.2.1, address entry.2.2.address, remaining⟩

section Allocation

variable [Address w]

def capacity (state : FamilyState w) : Option (BitVec w) :=
  Address.capacity state.start state.stop

def isFull (state : FamilyState w) : Bool :=
  state.capacity.any (Address.isFull state.forward.entries.length)

def candidate (state : FamilyState w) (hash : UInt64) : Run Error (BitVec w) :=
  Address.candidate state.start state.stop hash

def following (state : FamilyState w) (address : BitVec w) : BitVec w :=
  if address = state.stop then state.start else Address.advance address

def probeStep (state : FamilyState w) (address : BitVec w) :
    Run Error (BitVec w ⊕ BitVec w) :=
  if (state.reverse.lookup address).isSome then
    .ok (.inl (state.following address))
  else .ok (.inr address)

/-- The circular probe.  After one iteration more than there are addresses it
has been everywhere it will ever be. -/
def probe (state : FamilyState w) (address : BitVec w) :
    Run Error (BitVec w) :=
  Run.loop state.probeStep (2 ^ w + 1) address

def makeRoom (state : FamilyState w) : Run Error (FamilyState w) :=
  if state.isFull then state.evictLru else .ok state

/-- The name is not known: an address is found for it, and the least recently
used mapping goes first if the range is full. -/
def assign (state : FamilyState w) (name : Name) (salt : UInt64)
    (expiresAt : ℕ) : Run Error (BitVec w × FamilyState w) := do
  let roomy ← state.makeRoom
  let candidate ← roomy.candidate (fnv1a name salt)
  let address ← roomy.probe candidate
  pure (address, roomy.record name address expiresAt)

def allocateWithTtl (state : FamilyState w) (instantMax : ℕ) (name : Name)
    (salt : UInt64) (now ttl : ℕ) :
    Run Error ((BitVec w × ℕ) × FamilyState w) :=
  match instantAdd instantMax now ttl with
  | none => .err .fakeIpTtlOutOfRange
  | some expiresAt => do
      let (_, purged) ← state.purgeExpired now
      match purged.mappingOf name with
      | some (stored, mapping) => do
          let (lifetime, after) ← purged.refresh stored mapping now
          pure ((mapping.address, lifetime), after)
      | none => do
          let (address, after) ← purged.assign name salt expiresAt
          pure ((address, ttl), after)

end Allocation

end FamilyState

/-! ## The pool -/

abbrev Families :=
  (family : IpFamily) → Option (FamilyState family.width)

abbrev Ranges :=
  (family : IpFamily) → Option (BitVec family.width × BitVec family.width)

structure FakeIpPool where
  families : Families
  ttl : ℕ

structure FakeIpPoolSnapshot where
  capturedAt : ℕ
  ranges : Ranges
  ttl : ℕ
  mappings : List FakeIpMappingSnapshot

def validateTtl (ttl : ℕ) : Run Error Unit :=
  if ttl = 0 ∨ ttl % 1000000000 ≠ 0 then .err .invalidFakeIpTtl else .ok ()

/-- `range.map(FamilyState::new).transpose()`. -/
def newFamily {w : ℕ} (range : Option (BitVec w × BitVec w)) :
    Run Error (Option (FamilyState w)) :=
  match range with
  | none => .ok none
  | some range => do
      let state ← FamilyState.new range
      pure (some state)

def newFamilies (ranges : Ranges) : Run Error Families := do
  let ipv4 ← newFamily (ranges .ipv4)
  let ipv6 ← newFamily (ranges .ipv6)
  pure fun
    | .ipv4 => ipv4
    | .ipv6 => ipv6

structure FakeIpPoolBuilder where
  ranges : Ranges
  ttl : Option ℕ

def FakeIpPoolBuilder.build (builder : FakeIpPoolBuilder) :
    Run Error FakeIpPool :=
  match builder.ttl with
  | none => .err .invalidFakeIpTtl
  | some ttl => do
      validateTtl ttl
      let families ← newFamilies builder.ranges
      if (families .ipv4).isNone ∧ (families .ipv6).isNone then
        .err .fakeIpPoolUnconfigured
      else pure ⟨families, ttl⟩

/-- `map_err(|_| Error::InvalidFakeIpSnapshot)`. -/
def orInvalidSnapshot {α : Type} (run : Run Error α) : Run Error α :=
  match run with
  | .err _ => .err .invalidFakeIpSnapshot
  | other => other

namespace FakeIpPool

def withFamily (pool : FakeIpPool) (family : IpFamily)
    (state : FamilyState family.width) : FakeIpPool :=
  { pool with families := Function.update pool.families family (some state) }

def allocateWithTtl (family : IpFamily) (pool : FakeIpPool) (instantMax : ℕ)
    (name : Name) (now : ℕ) :
    Run Error ((BitVec family.width × ℕ) × FakeIpPool) :=
  match pool.families family with
  | none => .err .fakeIpFamilyDisabled
  | some state => do
      let (reply, after) ←
        state.allocateWithTtl instantMax name (hashSalt family) now pool.ttl
      pure (reply, pool.withFamily family after)

def allocateIpv4WithTtl := allocateWithTtl .ipv4

def allocateIpv6WithTtl := allocateWithTtl .ipv6

def lookupWithTtl (family : IpFamily) (pool : FakeIpPool)
    (address : BitVec family.width) (now : ℕ) :
    Run Error (Option (Name × ℕ) × FakeIpPool) :=
  match pool.families family with
  | none => pure (none, pool)
  | some state => do
      let (reply, after) ← state.lookupWithTtl address now
      pure (reply, pool.withFamily family after)

def lookupIpv4WithTtl := lookupWithTtl .ipv4

def lookupIpv6WithTtl := lookupWithTtl .ipv6

def contains (family : IpFamily) (pool : FakeIpPool)
    (address : BitVec family.width) : Bool :=
  (pool.families family).any fun state => state.contains address

def containsIpv4 := contains .ipv4

def containsIpv6 := contains .ipv6

/-- The part of `purge_expired` under one family's lock. -/
def purgeFamily (pool : FakeIpPool) (family : IpFamily) (now : ℕ) :
    Run Error (ℕ × FakeIpPool) :=
  match pool.families family with
  | none => pure (0, pool)
  | some state => do
      let (count, after) ← state.purgeExpired now
      pure (count, pool.withFamily family after)

def purgeExpired (pool : FakeIpPool) (now : ℕ) :
    Run Error (ℕ × FakeIpPool) := do
  let (ipv4, pool) ← pool.purgeFamily .ipv4 now
  let (ipv6, pool) ← pool.purgeFamily .ipv6 now
  pure (ipv4 + ipv6, pool)

def ranges (pool : FakeIpPool) : Ranges :=
  fun family => (pool.families family).map fun state =>
    (state.start, state.stop)

/-- The part of `snapshot` under one family's lock. -/
def snapshotFamily (pool : FakeIpPool) (family : IpFamily) (now : ℕ) :
    Run Error (List FakeIpMappingSnapshot × FakeIpPool) :=
  match pool.families family with
  | none => pure ([], pool)
  | some state => do
      let (_, after) ← state.purgeExpired now
      pure (after.snapshot now (IpAddr.mk family),
        pool.withFamily family after)

def snapshot (pool : FakeIpPool) (now : ℕ) :
    Run Error (FakeIpPoolSnapshot × FakeIpPool) := do
  let (ipv4, pool) ← pool.snapshotFamily .ipv4 now
  let (ipv6, pool) ← pool.snapshotFamily .ipv6 now
  pure (⟨now, pool.ranges, pool.ttl, ipv4 ++ ipv6⟩, pool)

/-- The body of the loop of `restore_with_clock` over the mappings. -/
def restoreMapping (instantMax ttl elapsed now : ℕ) (families : Families)
    (mapping : FakeIpMappingSnapshot) : Run Error Families :=
  if ttl < mapping.remainingLifetime then .err .invalidFakeIpSnapshot
  else if mapping.remainingLifetime ≤ elapsed then .ok families
  else
    match instantAdd instantMax now (mapping.remainingLifetime - elapsed) with
    | none => .err .invalidFakeIpSnapshot
    | some expiresAt =>
        match families mapping.address.family with
        | none => .err .invalidFakeIpSnapshot
        | some state =>
            if state.contains mapping.address.bits then do
              let restored ←
                state.restore mapping.name mapping.address.bits expiresAt
              pure (Function.update families mapping.address.family
                (some restored))
            else .err .invalidFakeIpSnapshot

/-- `restore_with_clock`, with the clock read at `now`. -/
def restore (instantMax : ℕ) (snapshot : FakeIpPoolSnapshot) (now : ℕ) :
    Run Error FakeIpPool := do
  orInvalidSnapshot (validateTtl snapshot.ttl)
  match durationSince now snapshot.capturedAt with
  | none => .err .invalidFakeIpSnapshot
  | some elapsed => do
      let fresh ← orInvalidSnapshot (newFamilies snapshot.ranges)
      if (fresh .ipv4).isNone ∧ (fresh .ipv6).isNone then
        .err .invalidFakeIpSnapshot
      else do
        let families ← snapshot.mappings.foldlM
          (restoreMapping instantMax snapshot.ttl elapsed now) fresh
        pure ⟨families, snapshot.ttl⟩

end FakeIpPool

end DnsLattice
