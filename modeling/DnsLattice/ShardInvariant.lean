import DnsLattice.ShardQueues

/-!
# The indices of a shard agree

The map, the expiry index and the free list describe the same slab as the two
queues do.  Each operation of a shard is shown to succeed on a shard with this
invariant and to keep it; its effect is described by the content of the slots.
-/

namespace DnsLattice

open Run

namespace Shard

structure Indexed (shard : Shard) : Prop where
  map_iff : ∀ hash index, shard.map.lookup hash = some index ↔
    ∃ slot, shard.content index = some slot ∧ slot.hash = hash
  expiry_iff : ∀ expires index, toLex (expires, index) ∈ shard.expiry ↔
    ∃ slot, shard.content index = some slot ∧ slot.expires = expires
  free_nodup : shard.free.Nodup
  free_iff : ∀ index, index ∈ shard.free ↔
    index < shard.slots.length ∧ shard.content index = none

structure Represents (shard : Shard) (order : Queue → List ℕ) : Prop
    extends shard.Queued order, shard.Indexed where
  complete : ∀ index slot, shard.content index = some slot →
    index ∈ order slot.queue

/-! ## Removing -/

def history (shard : Shard) : Shard :=
  { new 0 with
    counters := shard.counters
    budget := shard.budget
    smallTarget := shard.smallTarget
    ghostCap := shard.ghostCap
    ghost := shard.ghost
    ghostOrder := shard.ghostOrder
    ghostSeq := shard.ghostSeq }

def ChangedAt (before after : Shard) (index : ℕ) (value : Option Slot) :
    Prop :=
  ∀ other, after.content other =
    if other = index then value else before.content other

section Remove

variable {shard changed : Shard} {order : Queue → List ℕ} {queue : Queue}
  {index : ℕ} {slot : Slot} {first second : List ℕ}

theorem slotAt_takeSlot (hindex : index < shard.slots.length) (other : ℕ) :
    (shard.takeSlot index slot).slotAt other =
      if other = index then none else shard.slotAt other := by
  have hset := slotAt_setSlot hindex none other
  unfold slotAt at hset ⊢
  rw [takeSlot]
  dsimp only
  rw [setSlot] at hset
  dsimp only at hset
  rw [hset]
  simp only [eq_comm]

theorem content_takeSlot (hindex : index < shard.slots.length) (other : ℕ) :
    (shard.takeSlot index slot).content other =
      if other = index then none else shard.content other := by
  unfold content
  rw [slotAt_takeSlot hindex]
  split_ifs <;> rfl

theorem Queued.takeSlot (h : shard.Queued order)
    (hindex : index < shard.slots.length)
    (hfresh : ∀ queue, index ∉ order queue) :
    (shard.takeSlot index slot).Queued order := by
  have hkeep : ∀ queue, ∀ cell ∈ order queue,
      (shard.takeSlot index slot).slotAt cell = shard.slotAt cell := by
    intro queue cell hcell
    rw [slotAt_takeSlot hindex, if_neg]
    rintro rfl
    exact hfresh queue hcell
  apply h.congr
  · simpa [Shard.takeSlot] using h.slots_le
  · intro queue
    cases queue <;> rfl
  · intro queue cell hcell
    rw [links, links, hkeep queue cell hcell]
  · intro queue cell hcell
    rw [content, content, hkeep queue cell hcell]

theorem Indexed.takeSlot (h : shard.Indexed)
    (hslot : shard.content index = some slot) :
    (shard.takeSlot index slot).Indexed := by
  have hlt := lt_length_of_content hslot
  have hmap : shard.map.lookup slot.hash = some index :=
    (h.map_iff _ _).mpr ⟨slot, hslot, rfl⟩
  constructor
  · intro hash other
    rw [content_takeSlot hlt]
    simp only [Shard.takeSlot, if_pos hmap]
    by_cases hhash : hash = slot.hash
    · subst hhash
      rw [AList.lookup_erase]
      constructor
      · intro hnone
        contradiction
      · rintro ⟨live, hlive, hsame⟩
        split_ifs at hlive with heq
        have hother := (h.map_iff slot.hash other).mpr ⟨live, hlive, hsame⟩
        exact absurd (Option.some.inj (hother.symm.trans hmap)) heq
    · rw [AList.lookup_erase_ne hhash, h.map_iff]
      constructor
      · rintro ⟨live, hlive, hsame⟩
        refine ⟨live, ?_, hsame⟩
        rw [if_neg, hlive]
        rintro rfl
        obtain rfl := Option.some.inj (hlive.symm.trans hslot)
        exact hhash hsame.symm
      · rintro ⟨live, hlive, hsame⟩
        split_ifs at hlive with heq
        exact ⟨live, hlive, hsame⟩
  · intro expires other
    rw [content_takeSlot hlt]
    simp only [Shard.takeSlot, Finset.mem_erase, h.expiry_iff]
    constructor
    · rintro ⟨hne, live, hlive, hsame⟩
      refine ⟨live, ?_, hsame⟩
      rw [if_neg, hlive]
      rintro rfl
      obtain rfl := Option.some.inj (hlive.symm.trans hslot)
      exact hne (by rw [hsame])
    · rintro ⟨live, hlive, hsame⟩
      split_ifs at hlive with heq
      refine ⟨?_, live, hlive, hsame⟩
      intro hpair
      exact heq (congrArg (fun pair => (ofLex pair).2) hpair)
  · simp only [Shard.takeSlot]
    apply List.nodup_cons.mpr ⟨?_, h.free_nodup⟩
    intro hmem
    rw [((h.free_iff index).mp hmem).2] at hslot
    contradiction
  · intro other
    rw [content_takeSlot hlt]
    simp only [Shard.takeSlot, List.mem_cons, List.length_set, h.free_iff]
    by_cases heq : other = index
    · subst heq
      simp [hlt]
    · simp [heq]

theorem Indexed.congr (h : shard.Indexed)
    (hmap : changed.map = shard.map) (hexpiry : changed.expiry = shard.expiry)
    (hfree : changed.free = shard.free)
    (hlength : changed.slots.length = shard.slots.length)
    (hcontent : ∀ other,
      (changed.content other).map (fun slot => (slot.hash, slot.expires)) =
        (shard.content other).map fun slot => (slot.hash, slot.expires)) :
    changed.Indexed := by
  have hexists : ∀ other (holds : UInt64 × ℕ → Prop),
      (∃ slot, changed.content other = some slot ∧
        holds (slot.hash, slot.expires)) ↔
      ∃ slot, shard.content other = some slot ∧
        holds (slot.hash, slot.expires) := by
    intro other holds
    have hpair := hcontent other
    cases hnew : changed.content other <;>
      cases hold : shard.content other <;>
      simp_all
  constructor
  · intro hash other
    rw [hmap, h.map_iff]
    exact (hexists other fun pair => pair.1 = hash).symm
  · intro expires other
    rw [hexpiry, h.expiry_iff]
    exact (hexists other fun pair => pair.2 = expires).symm
  · rw [hfree]
    exact h.free_nodup
  · intro other
    have hnone := congrArg Option.isNone (hcontent other)
    simp only [Option.isNone_map] at hnone
    rw [hfree, h.free_iff, hlength]
    rw [← Option.isNone_iff_eq_none, ← Option.isNone_iff_eq_none, hnone]

theorem Queued.slotAt_unlinkSlot (h : shard.Queued order)
    (hsplit : order queue = first ++ index :: second)
    (hslot : shard.slotAt index = some slot) :
    (shard.unlinkSlot index slot).slotAt index = some slot := by
  obtain ⟨live, hlive, _, hprev, hnext⟩ := h.slotAt_of_split hsplit
  obtain rfl : live = slot := Option.some.inj (hlive.symm.trans hslot)
  have hnil : index < nil := by
    apply @Queued.lt_nil _ _ queue _ h
    simp [hsplit]
  have hnodup := h.nodup queue
  rw [hsplit] at hnodup
  have hprevNe : live.prev ≠ index := by
    intro heq
    have hmem : first.getLastD nil ∈ first := by
      apply getLastD_mem_of_ne
      omega
    rw [← hprev, heq] at hmem
    exact List.disjoint_of_nodup_append hnodup hmem (by simp)
  have hnextNe : live.next ≠ index := by
    intro heq
    have hmem : second.headD nil ∈ second := by
      apply headD_mem_of_ne
      omega
    rw [← hnext, heq] at hmem
    exact (List.nodup_cons.mp hnodup.of_append_right).1 hmem
  unfold Shard.unlinkSlot bypass
  dsimp only
  rw [slotAt_setList, slotAt_modify, if_neg hnextNe, slotAt_modify,
    if_neg hprevNe, hslot]

theorem content_unlinkSlot (other : ℕ) :
    (shard.unlinkSlot index slot).content other = shard.content other := by
  have hbypass := content_bypass shard slot.prev slot.next other
  unfold content at hbypass ⊢
  unfold Shard.unlinkSlot
  dsimp only
  rw [slotAt_setList]
  exact hbypass

theorem Indexed.unlinkSlot (h : shard.Indexed) :
    (shard.unlinkSlot index slot).Indexed := by
  apply h.congr
  · unfold Shard.unlinkSlot
    cases slot.queue <;> rfl
  · unfold Shard.unlinkSlot
    cases slot.queue <;> rfl
  · unfold Shard.unlinkSlot
    cases slot.queue <;> rfl
  · simp [Shard.unlinkSlot, bypass]
  · intro other
    rw [content_unlinkSlot]

theorem content_of_slotAt (hslot : shard.slotAt index = some slot) :
    shard.content index = some slot.unlinked := by
  simp [content, hslot]

theorem Represents.mem_order (h : shard.Represents order)
    (hslot : shard.slotAt index = some slot) : index ∈ order slot.queue :=
  h.complete index slot.unlinked (content_of_slotAt hslot)

theorem unlink_spec (h : shard.Represents order)
    (hslot : shard.slotAt index = some slot) :
    shard.unlink index = .ok (shard.unlinkSlot index slot) ∧
      (shard.unlinkSlot index slot).Queued (Function.update order slot.queue
        ((order slot.queue).erase index)) ∧
      (shard.unlinkSlot index slot).slotAt index = some slot ∧
      ∀ queue, index ∉ Function.update order slot.queue
        ((order slot.queue).erase index) queue := by
  have hmem := h.mem_order hslot
  have hnodup := h.nodup slot.queue
  obtain ⟨first, second, hsplit⟩ := List.append_of_mem hmem
  have hfirst : index ∉ first := by
    rw [hsplit] at hnodup
    intro hindex
    exact List.disjoint_of_nodup_append hnodup hindex (by simp)
  have herase : (order slot.queue).erase index = first ++ second := by
    rw [hsplit, List.erase_append_right _ hfirst, List.erase_cons_head]
  refine ⟨unlink_eq h.toQueued hsplit hslot, ?_,
    h.slotAt_unlinkSlot hsplit hslot, ?_⟩
  · rw [herase]
    exact h.toQueued.unlinkSlot hsplit hslot
  · intro queue
    by_cases heq : queue = slot.queue
    · subst heq
      rw [Function.update_self]
      exact hnodup.not_mem_erase
    · rw [Function.update_of_ne heq]
      intro hother
      exact h.ne_of_other_queue heq hmem hother rfl

theorem history_unlinkSlot :
    (shard.unlinkSlot index slot).history = shard.history := by
  unfold Shard.unlinkSlot
  cases slot.queue <;> rfl

theorem mem_update_erase {other : Queue} {cell : ℕ} (hne : cell ≠ index)
    (hcell : cell ∈ order other) :
    cell ∈ Function.update order queue ((order queue).erase index) other := by
  by_cases heq : other = queue
  · subst heq
    rw [Function.update_self]
    exact (List.mem_erase_of_ne hne).mpr hcell
  · rwa [Function.update_of_ne heq]

theorem removeSlot_spec (h : shard.Represents order)
    (hslot : shard.slotAt index = some slot) :
    ∃ left, shard.removeSlot index = .ok (slot, left) ∧
      left.Represents (Function.update order slot.queue
        ((order slot.queue).erase index)) ∧
      ChangedAt shard left index none ∧ left.history = shard.history := by
  obtain ⟨hunlink, hqueued, hloose, hfresh⟩ := unlink_spec h hslot
  have hlt : index < (shard.unlinkSlot index slot).slots.length :=
    lt_length_of_slotAt hloose
  have hleft : ChangedAt shard
      ((shard.unlinkSlot index slot).takeSlot index slot) index none := by
    intro other
    rw [content_takeSlot hlt, content_unlinkSlot]
  refine ⟨(shard.unlinkSlot index slot).takeSlot index slot, ?_, ⟨?_, ?_, ?_⟩,
    hleft, history_unlinkSlot⟩
  · unfold removeSlot
    rw [hunlink, ok_bind, slot_of_slotAt hloose, ok_bind]
    rfl
  · exact hqueued.takeSlot hlt hfresh
  · have htaken := h.toIndexed.unlinkSlot.takeSlot (content_of_slotAt hloose)
    exact htaken
  · intro other live hlive
    rw [hleft] at hlive
    split_ifs at hlive with heq
    exact mem_update_erase heq (h.complete other live hlive)

end Remove

/-! ## Moving to main -/

/-- The queues after `index` has moved from `queue` to the end of main. -/
def requeuedOrder (order : Queue → List ℕ) (queue : Queue) (index : ℕ) :
    Queue → List ℕ :=
  let rest := Function.update order queue ((order queue).erase index)
  Function.update rest .main (rest .main ++ [index])

theorem mem_requeuedOrder {order : Queue → List ℕ} {queue other : Queue}
    {index cell : ℕ} (hne : cell ≠ index) (hcell : cell ∈ order other) :
    cell ∈ requeuedOrder order queue index other := by
  have hrest : cell ∈ Function.update order queue
      ((order queue).erase index) other := mem_update_erase hne hcell
  unfold requeuedOrder
  by_cases heq : other = .main
  · subst heq
    rw [Function.update_self]
    exact List.mem_append_left _ hrest
  · rwa [Function.update_of_ne heq]

section Requeue

variable {shard : Shard} {order : Queue → List ℕ} {index : ℕ} {slot : Slot}

theorem Indexed.pushSlot (h : shard.Indexed) (queue : Queue) (cost : ℕ) :
    (shard.pushSlot index queue cost).Indexed := by
  apply h.congr
  · unfold Shard.pushSlot
    cases queue <;> rfl
  · unfold Shard.pushSlot
    cases queue <;> rfl
  · unfold Shard.pushSlot
    cases queue <;> rfl
  · simp [Shard.pushSlot]
  · intro other
    rw [content_pushSlot]
    split_ifs <;> cases shard.content other <;> rfl

theorem Indexed.modify_freq (h : shard.Indexed) (freq : ℕ → ℕ) :
    (shard.modify index fun slot =>
      { slot with freq := freq slot.freq }).Indexed := by
  apply h.congr
  · rfl
  · rfl
  · rfl
  · simp
  · intro other
    unfold content
    rw [slotAt_modify]
    split_ifs <;> cases shard.slotAt other <;> rfl

theorem content_modify_freq (freq : ℕ → ℕ) (other : ℕ) :
    (shard.modify index fun slot =>
        { slot with freq := freq slot.freq }).content other =
      if index = other then
        (shard.content other).map fun slot =>
          { slot with freq := freq slot.freq }
      else shard.content other := by
  unfold content
  rw [slotAt_modify]
  split_ifs <;> cases shard.slotAt other <;> rfl

theorem requeue_spec (h : shard.Represents order)
    (hslot : shard.slotAt index = some slot) (freq : ℕ → ℕ) :
    ∃ moved, shard.requeue index freq = .ok moved ∧
      moved.Represents (requeuedOrder order slot.queue index) ∧
      ChangedAt shard moved index (some { slot.unlinked with
        freq := freq slot.freq, queue := .main }) ∧
      moved.history = shard.history := by
  obtain ⟨hunlink, hqueued, hloose, hfresh⟩ := unlink_spec h hslot
  -- between `unlink` and `push_back` the slot is in no queue
  let loose := (shard.unlinkSlot index slot).modify index fun slot =>
    { slot with freq := freq slot.freq }
  have hhit : loose.slotAt index =
      some { slot with freq := freq slot.freq } := by
    rw [slotAt_modify, if_pos rfl, hloose]
    rfl
  have hlooseQueued : loose.Queued _ := hqueued.modify_freq freq
  have hpush : loose.pushBack index .main = _ := pushBack_eq hlooseQueued hhit
  have hpushed : (loose.pushSlot index .main _).Queued _ :=
    hlooseQueued.pushSlot hhit hfresh
  have hcontent : ChangedAt shard (loose.pushSlot index .main slot.cost) index
      (some { slot.unlinked with freq := freq slot.freq, queue := .main }) := by
    intro other
    rw [content_pushSlot, content_modify_freq, content_unlinkSlot]
    by_cases heq : other = index
    · subst heq
      simp [content_of_slotAt hslot]
    · simp [heq, Ne.symm heq]
  refine ⟨loose.pushSlot index .main slot.cost, ?_, ⟨?_, ?_, ?_⟩, hcontent, ?_⟩
  · unfold requeue
    rw [hunlink, ok_bind, slotMut_of_slotAt _ hloose, ok_bind]
    exact hpush
  · exact hpushed
  · exact (h.toIndexed.unlinkSlot.modify_freq freq).pushSlot .main slot.cost
  · intro other live hlive
    rw [hcontent] at hlive
    split_ifs at hlive with heq
    · obtain rfl := Option.some.inj hlive
      subst heq
      simp [requeuedOrder]
    · exact mem_requeuedOrder heq (h.complete other live hlive)
  · exact (history_unlinkSlot : (shard.unlinkSlot index slot).history = _)

end Requeue

/-! ## Counters and ghosts -/

def indices (shard : Shard) :
    HashMap ℕ × List (Option Slot) × List ℕ × Fifo × Fifo ×
      Finset (ℕ ×ₗ ℕ) :=
  (shard.map, shard.slots, shard.free, shard.small, shard.main, shard.expiry)

section Ghosts

variable {shard changed : Shard} {order : Queue → List ℕ}

theorem content_congr (h : changed.indices = shard.indices) :
    changed.content = shard.content := by
  have hslots : changed.slots = shard.slots := by
    simp only [indices, Prod.mk.injEq] at h
    exact h.2.1
  funext index
  rw [content, content, slotAt, slotAt, hslots]

theorem Represents.congr_indices (h : shard.Represents order)
    (hsame : changed.indices = shard.indices) :
    changed.Represents order := by
  have hcontent := content_congr hsame
  simp only [indices, Prod.mk.injEq] at hsame
  obtain ⟨hmap, hslots, hfree, hsmall, hmain, hexpiry⟩ := hsame
  refine ⟨h.toQueued.congr ?_ ?_ ?_ ?_, h.toIndexed.congr hmap hexpiry hfree
    (by rw [hslots]) (by simp [hcontent]), ?_⟩
  · rw [hslots]
    exact h.slots_le
  · intro queue
    cases queue with
    | small => exact hsmall
    | main => exact hmain
  · intro queue cell _
    rw [links, links, slotAt, slotAt, hslots]
  · simp [hcontent]
  · intro index slot hslot
    rw [hcontent] at hslot
    exact h.complete index slot hslot

theorem indices_pushGhost (hash : UInt64) :
    (shard.pushGhost hash).indices = shard.indices := by
  unfold pushGhost
  split_ifs <;> rfl

end Ghosts

/-! ## Storing a new slot -/

section Store

variable {shard : Shard} {order : Queue → List ℕ} {index : ℕ} {slot : Slot}

theorem Queued.not_mem_of_content_none (h : shard.Queued order)
    (hnone : shard.content index = none) (queue : Queue) :
    index ∉ order queue := by
  intro hmem
  obtain ⟨live, hlive, _⟩ := h.tagged queue index hmem
  rw [hnone] at hlive
  contradiction

/-- `grown` is `shard` with `slot` put at the vacant `index`; the slot is in no
index yet. -/
structure Allocated (shard grown : Shard) (index : ℕ) (slot : Slot) :
    Prop where
  index_lt : index < nil
  vacant : shard.content index = none
  length_le : grown.slots.length ≤ nil
  slotAt : ∀ other, grown.slotAt other =
    if other = index then some slot else shard.slotAt other
  free_nodup : grown.free.Nodup
  free_iff : ∀ other, other ∈ grown.free ↔
    other < grown.slots.length ∧ grown.content other = none
  map : grown.map = shard.map
  expiry : grown.expiry = shard.expiry
  list : ∀ queue, grown.list queue = shard.list queue
  history : grown.history = shard.history

theorem allocate_of_free {free : List ℕ} (h : shard.Represents order)
    (slot : Slot) (hfree : shard.free = index :: free) :
    ∃ grown, shard.allocate slot = .ok (index, grown) ∧
      Allocated shard grown index slot := by
  obtain ⟨hlt, hvacant⟩ := (h.free_iff index).mp (by simp [hfree])
  let grown := { shard.setSlot index (some slot) with free := free }
  have hslotAt : ∀ other, grown.slotAt other =
      if other = index then some slot else shard.slotAt other := by
    intro other
    have hset := slotAt_setSlot hlt (some slot) other
    simp only [@eq_comm ℕ index] at hset
    exact hset
  have hnodup := h.free_nodup
  rw [hfree] at hnodup
  obtain ⟨hfresh, hnodup⟩ := List.nodup_cons.mp hnodup
  refine ⟨grown, ?_, hlt.trans_le h.slots_le, hvacant, ?_, hslotAt, hnodup,
    ?_, rfl, rfl, ?_, rfl⟩
  · unfold allocate
    rw [hfree]
    exact if_pos hlt
  · simpa [grown, setSlot] using h.slots_le
  · intro other
    have hiff := h.free_iff other
    rw [hfree, List.mem_cons] at hiff
    rw [content, hslotAt]
    by_cases heq : other = index
    · subst heq
      simpa [grown] using hfresh
    · simpa [heq, grown, setSlot, content] using hiff
  · intro queue
    cases queue <;> rfl

theorem slotAt_append (slot : Slot) (other : ℕ) :
    ({ shard with slots := shard.slots ++ [some slot] } :
        Shard).slotAt other =
      if other = shard.slots.length then some slot
      else shard.slotAt other := by
  unfold slotAt
  rw [List.getElem?_append]
  split_ifs with hin heq heq
  · omega
  · rfl
  · simp [heq]
  · rw [List.getElem?_eq_none (by simp; omega),
      List.getElem?_eq_none (by omega)]

theorem allocate_of_not_free (h : shard.Represents order) (slot : Slot)
    (hfree : shard.free = []) (hlt : shard.slots.length < nil) :
    Allocated shard { shard with slots := shard.slots ++ [some slot] }
      shard.slots.length slot := by
  refine ⟨hlt, ?_, ?_, slotAt_append slot, h.free_nodup, ?_, rfl, rfl, ?_, rfl⟩
  · simp [content, slotAt]
  · simp only [List.length_append, List.length_singleton]
    omega
  · intro other
    have hiff := h.free_iff other
    rw [content, slotAt_append]
    change other ∈ shard.free ↔ _
    rw [hfree] at hiff ⊢
    by_cases heq : other = shard.slots.length
    · simp [heq]
    · simp only [List.not_mem_nil, false_iff, content] at hiff ⊢
      rw [if_neg heq]
      rintro ⟨hin, hnone⟩
      simp only [List.length_append, List.length_singleton] at hin
      exact hiff ⟨by omega, hnone⟩
  · intro queue
    cases queue <;> rfl

/-- `allocate` finds a vacant index, except when the slab is full; then the
slot is taken off again. -/
theorem allocate_spec (h : shard.Represents order) (slot : Slot) :
    ∃ index grown, shard.allocate slot = .ok (index, grown) ∧
      ((index = nil ∧
          { grown with slots := grown.slots.dropLast } = shard) ∨
        Allocated shard grown index slot) := by
  cases hfree : shard.free with
  | cons index free =>
    obtain ⟨grown, hgrown, hallocated⟩ := allocate_of_free h slot hfree
    exact ⟨index, grown, hgrown, Or.inr hallocated⟩
  | nil =>
    have hallocate : shard.allocate slot = .ok (shard.slots.length,
        { shard with slots := shard.slots ++ [some slot] }) := by
      unfold allocate
      rw [hfree]
      simp only [List.length_append, List.length_singleton,
        Nat.add_sub_cancel, if_pos h.slots_le]
    refine ⟨_, _, hallocate, ?_⟩
    by_cases hfull : shard.slots.length = nil
    · left
      refine ⟨hfull, ?_⟩
      simp
    · right
      apply allocate_of_not_free h slot hfree
      have hle := h.slots_le
      omega

def enter (grown : Shard) (index : ℕ) (slot : Slot) : Shard :=
  { grown with
    map := grown.map.insert slot.hash index
    expiry := Insert.insert (toLex (slot.expires, index)) grown.expiry }

theorem Allocated.content {grown : Shard}
    (hgrown : Allocated shard grown index slot) (other : ℕ) :
    (grown.enter index slot).content other =
      if other = index then some slot.unlinked else shard.content other := by
  have hat := hgrown.slotAt other
  unfold Shard.content
  change (grown.slotAt other).map Slot.unlinked = _
  rw [hat]
  split_ifs <;> rfl

theorem Allocated.queued {grown : Shard} (h : shard.Represents order)
    (hgrown : Allocated shard grown index slot) :
    (grown.enter index slot).Queued order := by
  have hkeep : ∀ queue, ∀ cell ∈ order queue,
      (grown.enter index slot).slotAt cell = shard.slotAt cell := by
    intro queue cell hcell
    have hat := hgrown.slotAt cell
    rwa [if_neg] at hat
    rintro rfl
    exact h.not_mem_of_content_none hgrown.vacant queue hcell
  apply h.toQueued.congr
  · exact hgrown.length_le
  · intro queue
    rw [← hgrown.list]
    cases queue <;> rfl
  · intro queue cell hcell
    rw [links, links, hkeep queue cell hcell]
  · intro queue cell hcell
    rw [Shard.content, Shard.content, hkeep queue cell hcell]

theorem Allocated.indexed {grown : Shard} (h : shard.Represents order)
    (hgrown : Allocated shard grown index slot)
    (hhash : shard.map.lookup slot.hash = none) :
    (grown.enter index slot).Indexed := by
  have hother : ∀ other live, shard.content other = some live →
      other ≠ index := by
    rintro other live hlive rfl
    rw [hgrown.vacant] at hlive
    contradiction
  constructor
  · intro hash other
    rw [hgrown.content]
    simp only [enter, hgrown.map]
    by_cases heq : hash = slot.hash
    · subst heq
      rw [AList.lookup_insert]
      constructor
      · intro hsome
        obtain rfl := Option.some.inj hsome
        exact ⟨slot.unlinked, if_pos rfl, rfl⟩
      · rintro ⟨live, hlive, hsame⟩
        split_ifs at hlive with hindex
        · rw [hindex]
        · have hlookup := (h.map_iff slot.hash other).mpr ⟨live, hlive, hsame⟩
          rw [hhash] at hlookup
          contradiction
    · rw [AList.lookup_insert_ne heq, h.map_iff]
      constructor
      · rintro ⟨live, hlive, hsame⟩
        exact ⟨live, by rw [if_neg (hother other live hlive), hlive], hsame⟩
      · rintro ⟨live, hlive, hsame⟩
        split_ifs at hlive with hindex
        · obtain rfl := Option.some.inj hlive
          exact absurd hsame.symm heq
        · exact ⟨live, hlive, hsame⟩
  · intro expires other
    rw [hgrown.content]
    simp only [enter, hgrown.expiry, Finset.mem_insert, h.expiry_iff]
    constructor
    · rintro (hpair | ⟨live, hlive, hsame⟩)
      · obtain ⟨rfl, rfl⟩ := Prod.mk.inj (toLex.injective hpair)
        exact ⟨slot.unlinked, if_pos rfl, rfl⟩
      · exact ⟨live, by rw [if_neg (hother other live hlive), hlive], hsame⟩
    · rintro ⟨live, hlive, hsame⟩
      split_ifs at hlive with hindex
      · obtain rfl := Option.some.inj hlive
        left
        rw [hindex, ← hsame]
        rfl
      · exact Or.inr ⟨live, hlive, hsame⟩
  · exact hgrown.free_nodup
  · exact hgrown.free_iff

theorem linkSlot_spec {grown : Shard} (h : shard.Represents order)
    (hgrown : Allocated shard grown index slot)
    (hhash : shard.map.lookup slot.hash = none) :
    ∃ linked, grown.linkSlot index slot.hash slot.queue = .ok linked ∧
      linked.Represents (Function.update order slot.queue
        (order slot.queue ++ [index])) ∧
      ChangedAt shard linked index (some slot.unlinked) ∧
      linked.history = shard.history := by
  have hslot : grown.slotAt index = some slot := by
    rw [hgrown.slotAt, if_pos rfl]
  have hentered : (grown.enter index slot).slotAt index = some slot := hslot
  have hqueued := hgrown.queued h
  have hfresh := h.not_mem_of_content_none hgrown.vacant
  have hcontent : ChangedAt shard ((grown.enter index slot).pushSlot index
      slot.queue slot.cost) index (some slot.unlinked) := by
    intro other
    rw [content_pushSlot, hgrown.content]
    by_cases heq : other = index
    · subst heq
      simp only [if_true, Option.map_some]
      rfl
    · simp [heq, Ne.symm heq]
  refine ⟨(grown.enter index slot).pushSlot index slot.queue slot.cost, ?_,
    ⟨hqueued.pushSlot hentered hfresh,
      (hgrown.indexed h hhash).pushSlot slot.queue slot.cost, ?_⟩,
    hcontent, ?_⟩
  · unfold linkSlot
    dsimp only
    have hread : ({ grown with map := grown.map.insert slot.hash index } :
        Shard).slot index = .ok slot := slot_of_slotAt hslot
    rw [hread, ok_bind]
    exact pushBack_eq hqueued hentered
  · intro other live hlive
    rw [hcontent] at hlive
    split_ifs at hlive with heq
    · obtain rfl := Option.some.inj hlive
      rw [heq]
      simp
    · have hmem := h.complete other live hlive
      by_cases hqueue : live.queue = slot.queue
      · rw [hqueue] at hmem ⊢
        rw [Function.update_self]
        exact List.mem_append_left _ hmem
      · rwa [Function.update_of_ne hqueue]
  · rw [← hgrown.history]
    unfold Shard.pushSlot
    cases slot.queue <;> rfl

end Store

end Shard

end DnsLattice
