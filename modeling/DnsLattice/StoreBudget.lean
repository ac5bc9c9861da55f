import DnsLattice.ShardBudget
import DnsLattice.StoreContents

/-!
# The byte budget of the store

Whatever the resolver does with the store is a sequence of operations on
single shards, each under the lock of its shard; sweeps of several callers may
interleave.
-/

namespace DnsLattice

open Run

namespace Store

def ShardStep (layout : Layout) (before after : Store) : Prop :=
  ∃ (index : ℕ) (shard changed : Shard) (op : ShardOp),
    before.shards[index]? = some shard ∧
      shard.apply layout op = .ok changed ∧
      after = before.setShard index changed

def Reaches (layout : Layout) (before after : Store) : Prop :=
  Relation.ReflTransGen (ShardStep layout) before after

section Reaches

variable {layout : Layout} {store after : Store} {index : ℕ}

end Reaches

structure WithinBudget (maxBytes : ℕ) (store : Store) : Prop where
  shards_le : store.shards.length * (maxBytes / store.shards.length) ≤ maxBytes
  shard : ∀ shard ∈ store.shards,
    shard.WithinBudget (maxBytes / store.shards.length)

theorem new_withinBudget (maxBytes : ℕ) (shards : Option ℕ) (parallelism : ℕ) :
    (new maxBytes shards parallelism).WithinBudget maxBytes := by
  refine ⟨Nat.mul_div_le _ _, ?_⟩
  intro shard hshard
  obtain rfl := List.eq_of_mem_replicate hshard
  have hlength : (new maxBytes shards parallelism).shards.length =
      shardCount maxBytes shards parallelism := List.length_replicate
  rw [hlength]
  exact Shard.new_withinBudget _

theorem withinBudget_of_reaches {layout : Layout} {maxBytes parallelism : ℕ}
    {shards : Option ℕ} {store : Store}
    (h : (new maxBytes shards parallelism).Reaches layout store) :
    store.WithinBudget maxBytes := by
  apply invariant_of_reaches (new_withinBudget maxBytes shards parallelism) _ h
  rintro before after ⟨hle, hbefore⟩ ⟨index, shard, changed, op, hshard, hop,
    rfl⟩
  refine ⟨?_, ?_⟩
  · rw [length_setShard]
    exact hle
  · intro other hother
    rw [length_setShard]
    rcases List.mem_or_eq_of_mem_set hother with hold | rfl
    · exact hbefore other hold
    · exact Shard.apply_withinBudget
        (hbefore shard (List.mem_of_getElem? hshard)) op hop

theorem WithinBudget.bytes_le {maxBytes : ℕ} {store : Store}
    (h : store.WithinBudget maxBytes) : store.stats.bytes ≤ maxBytes := by
  have hsum : (store.shards.map Shard.totalBytes).sum ≤
      (store.shards.map Shard.totalBytes).length •
        (maxBytes / store.shards.length) := by
    apply List.sum_le_card_nsmul
    intro bytes hbytes
    obtain ⟨shard, hshard, rfl⟩ := List.mem_map.mp hbytes
    exact (h.shard shard hshard).totalBytes_le
  rw [List.length_map, smul_eq_mul] at hsum
  exact hsum.trans h.shards_le

/-- The eviction loop returns from every state in which an insertion calls it,
and what a shard and the store account for stays within their budgets. -/
theorem makeRoom_halts_and_bytes_le_budget (layout : Layout) :
    (∀ budget shard, (Shard.new budget).Reaches layout shard →
      shard.totalBytes ≤ shard.budget ∧ shard.budget = budget ∧
      ∀ hash key entry prepared now,
        shard.prepareInsert layout hash key entry = .ok (true, prepared) →
        LoopHalts (Shard.makeRoomStep now) prepared) ∧
    ∀ maxBytes shards parallelism store,
      (new maxBytes shards parallelism).Reaches layout store →
      store.stats.bytes ≤ maxBytes := by
  constructor
  · intro budget shard hreaches
    have hwithin := Shard.withinBudget_of_reaches hreaches
    have hbudget := hwithin.bounded.budget_eq
    refine ⟨?_, hbudget, ?_⟩
    · rw [hbudget]
      exact hwithin.totalBytes_le
    · intro hash key entry prepared now hprepare
      exact Shard.makeRoom_halts hwithin hprepare now
  · intro maxBytes shards parallelism store hreaches
    exact (withinBudget_of_reaches hreaches).bytes_le

theorem bytes_le_budget_after_insert :
    let layout : Layout := ⟨24, 40, 80, 256, 128⟩
    ∃ shard, (Shard.new 8192).Reaches layout shard ∧
      shard.totalBytes = 465 ∧ shard.totalBytes ≤ shard.budget := by
  intro layout
  let message : Message :=
    ⟨⟨1, true, .query, false, false, true, true, .noError⟩, [], [], [], []⟩
  let entry :=
    CachedAnswer.new ⟨0, 0, ⟨[]⟩, message, 0⟩ message 0 300
  have hcheck : ((Shard.new 8192).apply layout
      (.insert 7 [1] entry 10)).any (fun shard => shard.totalBytes = 465) =
        true := by
    decide
  obtain ⟨shard, hshard, hbytes⟩ := Run.exists_of_any hcheck
  have hreaches : (Shard.new 8192).Reaches layout shard :=
    .single ⟨_, hshard⟩
  exact ⟨shard, hreaches, of_decide_eq_true hbytes,
    ((makeRoom_halts_and_bytes_le_budget layout).1 8192 shard hreaches).1⟩

end Store

end DnsLattice
