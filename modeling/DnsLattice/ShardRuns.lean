import DnsLattice.ShardOperations
import DnsLattice.Transitions

/-!
# Runs of a shard

In every state which a shard reaches by its operations, the five indices over
its slab agree and the bytes it accounts for are within its budget; no
operation panics or runs forever.
-/

namespace DnsLattice

open Run

inductive ShardOp where
  | get (hash : UInt64) (key : List UInt8) (now : ℕ)
  | insert (hash : UInt64) (key : List UInt8) (entry : CachedAnswer) (now : ℕ)
  | forgetFailure (hash : UInt64) (key : List UInt8)
  | removeMatching (matching : List UInt8 → Bool)
  | clear

namespace Shard

def apply (layout : Layout) (shard : Shard) : ShardOp → Run Error Shard
  | .get hash key now => do
      let (_, shard) ← shard.get hash key now
      return shard
  | .insert hash key entry now => do
      let (_, shard) ← shard.insert layout hash key entry now
      return shard
  | .forgetFailure hash key => do
      let (_, shard) ← shard.forgetFailure hash key
      return shard
  | .removeMatching matching => do
      let (_, shard) ← shard.removeMatching matching
      return shard
  | .clear => .ok shard.clear.2

/-- One operation which returns. -/
def Step (layout : Layout) (before after : Shard) : Prop :=
  ∃ op, before.apply layout op = .ok after

/-- `after` is reached by a sequence of operations. -/
def Reaches (layout : Layout) (before after : Shard) : Prop :=
  Relation.ReflTransGen (Step layout) before after

/-! ## Agreement of the indices -/

/-- The slots visited by following `next` from the head of a queue. -/
def forward (shard : Shard) (queue : Queue) : Option (List ℕ) :=
  follow (fun index => (shard.slotAt index).map Slot.next) nil
    (shard.slots.length + 1) (shard.list queue).head

/-- The slots visited by following `prev` from the tail of a queue. -/
def backward (shard : Shard) (queue : Queue) : Option (List ℕ) :=
  follow (fun index => (shard.slotAt index).map Slot.prev) nil
    (shard.slots.length + 1) (shard.list queue).tail

structure QueueAgrees (shard : Shard) (queue : Queue) (order : List ℕ) :
    Prop where
  forward_eq : shard.forward queue = some order
  backward_eq : shard.backward queue = some order.reverse
  nodup : order.Nodup
  mem_iff : ∀ index, index ∈ order ↔
    ∃ slot, shard.slotAt index = some slot ∧ slot.queue = queue
  tail_eq : (shard.list queue).tail = order.getLastD nil
  bytes_eq : (shard.list queue).bytes =
    (order.map fun index => ((shard.slotAt index).map Slot.cost).getD 0).sum

/-- The map, the queues, the expiry index and the free list describe the same
live slots. -/
structure IndicesAgree (shard : Shard) : Prop where
  map_iff : ∀ hash index, shard.map.lookup hash = some index ↔
    ∃ slot, shard.slotAt index = some slot ∧ slot.hash = hash
  queues : ∀ queue, ∃ order, shard.QueueAgrees queue order
  expiry_iff : ∀ expires index, toLex (expires, index) ∈ shard.expiry ↔
    ∃ slot, shard.slotAt index = some slot ∧ slot.expires = expires
  free_nodup : shard.free.Nodup
  free_iff : ∀ index, index ∈ shard.free ↔
    index < shard.slots.length ∧ shard.slotAt index = none

section Agreement

variable {shard : Shard} {order : Queue → List ℕ}

theorem exists_content_iff {index : ℕ} {holds : Slot → Prop}
    (hunlinked : ∀ slot, holds slot.unlinked ↔ holds slot) :
    (∃ slot, shard.content index = some slot ∧ holds slot) ↔
      ∃ slot, shard.slotAt index = some slot ∧ holds slot := by
  unfold content
  cases shard.slotAt index with
  | none => simp
  | some slot => simp [hunlinked]

theorem Represents.order_length_le (h : shard.Represents order)
    (queue : Queue) : (order queue).length ≤ shard.slots.length := by
  have hsubset : order queue ⊆ List.range shard.slots.length := by
    intro index hindex
    obtain ⟨slot, hslot, _⟩ := h.tagged queue index hindex
    exact List.mem_range.mpr (lt_length_of_content hslot)
  have hperm := (h.nodup queue).subperm hsubset
  simpa using hperm.length_le

theorem Represents.queueAgrees (h : shard.Represents order) (queue : Queue) :
    shard.QueueAgrees queue (order queue) := by
  have hlength := h.order_length_le queue
  have hnext : (fun index => (shard.slotAt index).map Slot.next) =
      fun index => (shard.links index).map Prod.snd := by
    funext index
    simp [links, Function.comp_def]
  have hprev : (fun index => (shard.slotAt index).map Slot.prev) =
      fun index => (shard.links index).map Prod.fst := by
    funext index
    simp [links, Function.comp_def]
  constructor
  · unfold forward
    rw [hnext, h.head_eq]
    exact (h.linked queue).follow_next h.nil_not_mem (by omega)
  · unfold backward
    rw [hprev, h.tail_eq]
    exact (h.linked queue).follow_prev h.nil_not_mem (by omega)
  · exact h.nodup queue
  · intro index
    rw [← exists_content_iff (fun _ => Iff.rfl)]
    constructor
    · exact h.tagged queue index
    · rintro ⟨slot, hslot, rfl⟩
      exact h.complete index slot hslot
  · exact h.tail_eq queue
  · rw [h.bytes_eq]
    congr 2
    funext index
    simp [costAt, content, Function.comp_def]

theorem Represents.indicesAgree (h : shard.Represents order) :
    shard.IndicesAgree := by
  constructor
  · intro hash index
    rw [h.map_iff]
    exact exists_content_iff fun _ => Iff.rfl
  · intro queue
    exact ⟨order queue, h.queueAgrees queue⟩
  · intro expires index
    rw [h.expiry_iff]
    exact exists_content_iff fun _ => Iff.rfl
  · exact h.free_nodup
  · intro index
    rw [h.free_iff]
    simp [content]

end Agreement

theorem apply_spec (layout : Layout) {shard : Shard}
    {order : Queue → List ℕ} (h : shard.Represents order) (op : ShardOp) :
    ∃ after order', shard.apply layout op = .ok after ∧
      after.Represents order' := by
  unfold apply
  cases op with
  | get hash key now =>
    obtain ⟨result, after, order', hget, hrep, _⟩ := get_spec h hash key now
    dsimp only
    rw [hget]
    exact ⟨after, order', rfl, hrep⟩
  | insert hash key entry now =>
    obtain ⟨result, _, after, order', hinsert, _, hrep, _⟩ :=
      insert_spec layout h hash key entry now
    dsimp only
    rw [hinsert]
    exact ⟨after, order', rfl, hrep⟩
  | forgetFailure hash key =>
    obtain ⟨result, after, order', hforget, hrep, _⟩ :=
      forgetFailure_spec h hash key
    dsimp only
    rw [hforget]
    exact ⟨after, order', rfl, hrep⟩
  | removeMatching matching =>
    obtain ⟨after, order', hremove, hrep, _⟩ := removeMatching_spec h matching
    dsimp only
    rw [hremove]
    exact ⟨after, order', rfl, hrep⟩
  | clear => exact ⟨_, _, rfl, clear_represents shard⟩

theorem exists_represents_of_reaches {layout : Layout} {budget : ℕ}
    {shard : Shard} (h : (new budget).Reaches layout shard) :
    ∃ order, shard.Represents order := by
  apply invariant_of_reaches ⟨_, new_represents budget⟩ _ h
  rintro before after ⟨order, hbefore⟩ ⟨op, hop⟩
  obtain ⟨result, order', hresult, hrep⟩ := apply_spec layout hbefore op
  obtain rfl := Run.ok.inj (hresult.symm.trans hop)
  exact ⟨order', hrep⟩

/-- In every state of a shard its indices agree, and so no operation hits an
`expect` on a vacant slot or an underflow. -/
theorem indicesAgree_of_reaches {layout : Layout} {budget : ℕ}
    {shard : Shard} (h : (new budget).Reaches layout shard) :
    shard.IndicesAgree ∧
      ∀ op, ∃ after, shard.apply layout op = .ok after := by
  obtain ⟨order, hrep⟩ := exists_represents_of_reaches h
  refine ⟨hrep.indicesAgree, ?_⟩
  intro op
  obtain ⟨after, _, hafter, _⟩ := apply_spec layout hrep op
  exact ⟨after, hafter⟩

theorem indicesAgree_after_insert :
    let layout : Layout := ⟨24, 40, 80, 256, 128⟩
    let message : Message :=
      ⟨⟨1, true, .query, false, false, true, true, .noError⟩, [], [], [], []⟩
    let entry :=
      CachedAnswer.new ⟨0, 0, ⟨[]⟩, message, 0⟩ message 0 300
    ∃ shard, (new 8192).Reaches layout shard ∧
      (shard.slotAt 0).map Slot.entry = some entry ∧
      shard.IndicesAgree := by
  intro layout message entry
  have hcheck : ((new 8192).apply layout (.insert 7 [1] entry 10)).any
      (fun shard => (shard.slotAt 0).map Slot.entry = some entry) = true := by
    decide
  obtain ⟨shard, hshard, hentry⟩ := Run.exists_of_any hcheck
  have hreaches : (new 8192).Reaches layout shard := .single ⟨_, hshard⟩
  exact ⟨shard, hreaches, of_decide_eq_true hentry, (indicesAgree_of_reaches hreaches).1⟩

end Shard

end DnsLattice
