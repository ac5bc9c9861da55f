import DnsLattice.ShardModel
import Mathlib.Data.Nat.Log

/-!
# The sharded store

The store is split into shards, each behind its own lock.  An operation on one
key locks one shard; a flush or a purge visits the shards one after another.
The keyed hash function is a parameter: nothing depends on which one it is.
-/

namespace DnsLattice

open Run

def minShardBytes : ℕ := 256 * 1024

def maxAutoShards : ℕ := 64

def usizeMax : ℕ := 2 ^ 64 - 1

/-- `usize::next_power_of_two`. -/
def nextPowerOfTwo (n : ℕ) : ℕ :=
  2 ^ Nat.clog 2 n

/-- The `while` loop of `default_shard_count`. -/
def reduceShards (maxBytes : ℕ) : ℕ → ℕ → ℕ
  | 0, shards => shards
  | fuel + 1, shards =>
      if 1 < shards ∧ maxBytes / shards < minShardBytes then
        reduceShards maxBytes fuel (shards / 2)
      else shards

def defaultShardCount (maxBytes parallelism : ℕ) : ℕ :=
  let shards := min (nextPowerOfTwo (min (max parallelism 1 * 4) usizeMax))
    maxAutoShards
  reduceShards maxBytes shards shards

/-- The number of shards `Store::new` creates. -/
def shardCount (maxBytes : ℕ) (shards : Option ℕ) (parallelism : ℕ) : ℕ :=
  match shards with
  | some count => nextPowerOfTwo (max count 1)
  | none => defaultShardCount maxBytes parallelism

theorem nextPowerOfTwo_pos (n : ℕ) : 0 < nextPowerOfTwo n :=
  Nat.pow_pos (by decide)

theorem reduceShards_pos (maxBytes fuel : ℕ) {shards : ℕ}
    (hshards : 0 < shards) : 0 < reduceShards maxBytes fuel shards := by
  induction fuel generalizing shards with
  | zero => exact hshards
  | succ fuel ih =>
    rw [reduceShards]
    split_ifs with hreduce
    · exact ih (by omega)
    · exact hshards

theorem shardCount_pos (maxBytes : ℕ) (shards : Option ℕ) (parallelism : ℕ) :
    0 < shardCount maxBytes shards parallelism := by
  cases shards with
  | some count => exact nextPowerOfTwo_pos _
  | none =>
    apply reduceShards_pos
    exact lt_min (nextPowerOfTwo_pos _) (by decide)

structure Store where
  shards : List Shard
  mask : ℕ
  length_eq : shards.length = mask + 1

structure StoreStats where
  entries : ℕ
  bytes : ℕ
  capacityBytes : ℕ
  inserts : ℕ
  evictions : ℕ
  expirations : ℕ
  oversizedRejected : ℕ
  deriving DecidableEq, Repr

namespace Store

def new (maxBytes : ℕ) (shards : Option ℕ) (parallelism : ℕ) : Store :=
  let count := shardCount maxBytes shards parallelism
  { shards := List.replicate count (Shard.new (maxBytes / count))
    mask := count - 1
    length_eq := by
      have hpos := shardCount_pos maxBytes shards parallelism
      simp only [List.length_replicate]
      omega }

def shardIndex (store : Store) (hash : UInt64) : ℕ :=
  (hash >>> 32).toNat &&& store.mask

def setShard (store : Store) (index : ℕ) (shard : Shard) : Store where
  shards := store.shards.set index shard
  mask := store.mask
  length_eq := by rw [List.length_set, store.length_eq]

def withShard {α : Type} (store : Store) (index : ℕ)
    (op : Shard → Run Error (α × Shard)) : Run Error (α × Store) := do
  let shard ← Run.index store.shards index
  let (result, shard) ← op shard
  return (result, store.setShard index shard)

def get (store : Store) (hash : UInt64) (key : List UInt8) (now : ℕ) :
    Run Error (Option CachedAnswer × Store) :=
  store.withShard (store.shardIndex hash) fun shard => shard.get hash key now

def forgetFailure (store : Store) (hash : UInt64) (key : List UInt8) :
    Run Error (Bool × Store) :=
  store.withShard (store.shardIndex hash) fun shard =>
    shard.forgetFailure hash key

/-- `allowed` is evaluated while the lock of the shard is held. -/
def insertIf (layout : Layout) (store : Store) (hash : UInt64)
    (key : List UInt8) (entry : CachedAnswer) (now : ℕ) (allowed : Bool) :
    Run Error (Bool × Store) :=
  store.withShard (store.shardIndex hash) fun shard =>
    if allowed then shard.insert layout hash key entry now
    else .ok (false, shard)

def sweep (op : Shard → Run Error (ℕ × Shard)) :
    List ℕ → Store → Run Error (ℕ × Store)
  | [], store => .ok (0, store)
  | index :: rest, store => do
      let (removed, store) ← store.withShard index op
      let (others, store) ← sweep op rest store
      return (removed + others, store)

def clear (store : Store) : Run Error (ℕ × Store) :=
  sweep (fun shard => .ok shard.clear) (List.range store.shards.length) store

def removeWhere (store : Store) (matching : List UInt8 → Bool) :
    Run Error (ℕ × Store) :=
  sweep (fun shard => shard.removeMatching matching)
    (List.range store.shards.length) store

/-- The keys `purge` removes. -/
def purgeMatches (wire : List UInt8) (rtype : Option UInt16)
    (key : List UInt8) : Bool :=
  decide (keyName key = some wire) &&
    rtype.all fun code => decide (keyType key = some code)

/-- The keys `purge_subtree` removes. -/
def subtreeMatches (wire key : List UInt8) : Bool :=
  (keyName key).any fun name => inSubtree name wire

def purge (store : Store) (name : Name) (rtype : Option RecordType) :
    Run Error (ℕ × Store) :=
  match wireName name with
  | none => .ok (0, store)
  | some wire => store.removeWhere (purgeMatches wire (rtype.map typeCode))

def purgeSubtree (store : Store) (zone : Name) : Run Error (ℕ × Store) :=
  match wireName zone with
  | none => .ok (0, store)
  | some wire => store.removeWhere (subtreeMatches wire)

def stats (store : Store) : StoreStats where
  entries := (store.shards.map fun shard => shard.map.entries.length).sum
  bytes := (store.shards.map Shard.totalBytes).sum
  capacityBytes := (store.shards.map Shard.budget).sum
  inserts := (store.shards.map fun shard => shard.counters.inserts).sum
  evictions := (store.shards.map fun shard => shard.counters.evictions).sum
  expirations :=
    (store.shards.map fun shard => shard.counters.expirations).sum
  oversizedRejected :=
    (store.shards.map fun shard => shard.counters.oversized).sum

end Store

/-! ## Sequences of operations -/

inductive StoreOp where
  | get (key : List UInt8) (now : ℕ)
  | insertIf (key : List UInt8) (entry : CachedAnswer) (now : ℕ)
      (allowed : Bool)
  | forgetFailure (key : List UInt8)
  | purge (name : Name) (rtype : Option RecordType)
  | purgeSubtree (zone : Name)
  | clear

/-- What an operation returns. -/
inductive StoreReply where
  | entry (found : Option CachedAnswer)
  | flag (value : Bool)
  | count (removed : ℕ)
  deriving DecidableEq, Repr

structure StoreEvent where
  op : StoreOp
  reply : StoreReply

namespace Store

def apply (layout : Layout) (hash : List UInt8 → UInt64) (store : Store) :
    StoreOp → Run Error (StoreReply × Store)
  | .get key now => do
      let (found, store) ← store.get (hash key) key now
      return (.entry found, store)
  | .insertIf key entry now allowed => do
      let (stored, store) ←
        store.insertIf layout (hash key) key entry now allowed
      return (.flag stored, store)
  | .forgetFailure key => do
      let (forgotten, store) ← store.forgetFailure (hash key) key
      return (.flag forgotten, store)
  | .purge name rtype => do
      let (removed, store) ← store.purge name rtype
      return (.count removed, store)
  | .purgeSubtree zone => do
      let (removed, store) ← store.purgeSubtree zone
      return (.count removed, store)
  | .clear => do
      let (removed, store) ← store.clear
      return (.count removed, store)

/-- A sequence of operations with what each of them returned. -/
inductive Runs (layout : Layout) (hash : List UInt8 → UInt64)
    (start : Store) : List StoreEvent → Store → Prop
  | nil : Runs layout hash start [] start
  | snoc {events : List StoreEvent} {before after : Store} {op : StoreOp}
      {reply : StoreReply} (hbefore : Runs layout hash start events before)
      (happly : before.apply layout hash op = .ok (reply, after)) :
      Runs layout hash start (events ++ [⟨op, reply⟩]) after

end Store

end DnsLattice
