import DnsLattice.ShardModel
import DnsLattice.LinkedSegment

/-!
# The two intrusive queues of a shard

A shard is described by what its slots hold apart from their links, and by the
order of its two queues.  Unlinking and pushing are shown to change only the
order and the links.
-/

namespace DnsLattice

open Run

@[simps] def Slot.unlinked (slot : Slot) : Slot :=
  { slot with prev := nil, next := nil }

namespace Shard

def content (shard : Shard) (index : ℕ) : Option Slot :=
  (shard.slotAt index).map Slot.unlinked

def links (shard : Shard) (index : ℕ) : Option (ℕ × ℕ) :=
  (shard.slotAt index).map fun slot => (slot.prev, slot.next)

def costAt (shard : Shard) (index : ℕ) : ℕ :=
  ((shard.content index).map Slot.cost).getD 0

structure Queued (shard : Shard) (order : Queue → List ℕ) : Prop where
  slots_le : shard.slots.length ≤ nil
  nodup : ∀ queue, (order queue).Nodup
  tagged : ∀ queue, ∀ index ∈ order queue,
    ∃ slot, shard.content index = some slot ∧ slot.queue = queue
  linked : ∀ queue, Segment shard.links nil (order queue) nil
  head_eq : ∀ queue, (shard.list queue).head = (order queue).headD nil
  tail_eq : ∀ queue, (shard.list queue).tail = (order queue).getLastD nil
  bytes_eq : ∀ queue, (shard.list queue).bytes =
    ((order queue).map shard.costAt).sum

/-! ## Writes to the slab -/

def modify (shard : Shard) (index : ℕ) (update : Slot → Slot) : Shard :=
  { shard with slots := shard.slots.modify index (Option.map update) }

section Slab

variable {shard : Shard} {index other : ℕ} {slot : Slot} {queue : Queue}

theorem lt_length_of_slotAt (h : shard.slotAt index = some slot) :
    index < shard.slots.length := by
  by_contra hlt
  rw [slotAt, List.getElem?_eq_none (by omega)] at h
  contradiction

theorem lt_length_of_content (h : shard.content index = some slot) :
    index < shard.slots.length := by
  obtain ⟨live, hlive, _⟩ := Option.map_eq_some_iff.mp h
  exact lt_length_of_slotAt hlive

theorem slotAt_setSlot (hindex : index < shard.slots.length)
    (value : Option Slot) (other : ℕ) :
    (shard.setSlot index value).slotAt other =
      if index = other then value else shard.slotAt other := by
  unfold slotAt setSlot
  rw [List.getElem?_set]
  split_ifs with heq
  · rfl
  · rfl

@[simp] theorem length_modify (update : Slot → Slot) :
    (shard.modify index update).slots.length = shard.slots.length := by
  simp [modify]

theorem slotAt_modify (update : Slot → Slot) (other : ℕ) :
    (shard.modify index update).slotAt other =
      if index = other then (shard.slotAt other).map update
      else shard.slotAt other := by
  unfold slotAt modify
  rw [List.getElem?_modify]
  split_ifs with heq
  · cases shard.slots[other]? <;> rfl
  · cases shard.slots[other]? <;> rfl

theorem content_modify {update : Slot → Slot}
    (hupdate : ∀ slot, (update slot).unlinked = slot.unlinked) (other : ℕ) :
    (shard.modify index update).content other = shard.content other := by
  unfold content
  rw [slotAt_modify]
  split_ifs with heq
  · cases shard.slotAt other <;> simp [hupdate]
  · rfl

@[simp] theorem list_modify (update : Slot → Slot) (queue : Queue) :
    (shard.modify index update).list queue = shard.list queue := by
  cases queue <;> rfl

@[simp] theorem list_setList (list : Fifo) (other : Queue) :
    (shard.setList queue list).list other =
      if queue = other then list else shard.list other := by
  cases queue <;> cases other <;> rfl

@[simp] theorem slots_setList (list : Fifo) :
    (shard.setList queue list).slots = shard.slots := by
  cases queue <;> rfl

@[simp] theorem slotAt_setList (list : Fifo) (other : ℕ) :
    (shard.setList queue list).slotAt other = shard.slotAt other := by
  simp [slotAt]

theorem slot_of_slotAt (h : shard.slotAt index = some slot) :
    shard.slot index = .ok slot := by
  simp [Shard.slot, h]

theorem setSlot_eq_modify (update : Slot → Slot)
    (h : shard.slotAt index = some slot) :
    shard.setSlot index (some (update slot)) = shard.modify index update := by
  have hget : shard.slots[index]? = some (some slot) := by
    unfold slotAt at h
    cases hslot : shard.slots[index]? with
    | none => simp [hslot] at h
    | some value =>
      rw [hslot] at h
      exact congrArg some h
  have hlt := lt_length_of_slotAt h
  simp only [setSlot, modify, Shard.mk.injEq, true_and, and_true]
  apply List.ext_getElem?
  intro other
  rw [List.getElem?_set, List.getElem?_modify]
  by_cases heq : index = other
  · subst heq
    rw [hget, if_pos rfl, if_pos hlt]
    simp
  · simp [heq]

theorem slotMut_of_slotAt (update : Slot → Slot)
    (h : shard.slotAt index = some slot) :
    shard.slotMut index update = .ok (shard.modify index update) := by
  unfold slotMut
  rw [slot_of_slotAt h, ok_bind, setSlot_eq_modify update h]
  rfl

theorem relink_eq (update : Slot → Slot) (hlength : shard.slots.length ≤ nil)
    (hlive : index ≠ nil → (shard.slotAt index).isSome) :
    shard.relink index update = .ok (shard.modify index update) := by
  unfold relink
  split_ifs with hnil
  · obtain ⟨slot, hslot⟩ := Option.isSome_iff_exists.mp (hlive hnil)
    exact slotMut_of_slotAt update hslot
  · have houtside : shard.slots.length ≤ index := by
      have heq : index = nil := not_not.mp hnil
      omega
    simp only [modify, Run.ok.injEq]
    rw [List.modify_eq_self houtside]

theorem links_redirect (first second next prev : ℕ) (other : ℕ) :
    ((shard.modify first fun slot => { slot with next := next }).modify second
        fun slot => { slot with prev := prev }).links other =
      (shard.links other).map fun link =>
        (if other = second then prev else link.1,
         if other = first then next else link.2) := by
  unfold links
  rw [slotAt_modify, slotAt_modify]
  cases shard.slotAt other with
  | none => simp
  | some slot =>
    by_cases hfirst : first = other <;> by_cases hsecond : second = other <;>
      simp [hfirst, hsecond, eq_comm]

theorem isSome_slotAt_modify (update : Slot → Slot) :
    ((shard.modify index update).slotAt other).isSome =
      (shard.slotAt other).isSome := by
  rw [slotAt_modify]
  split_ifs <;> simp

theorem exists_slotAt_of_content (h : shard.content index = some slot) :
    ∃ live, shard.slotAt index = some live ∧ live.unlinked = slot := by
  simpa [content] using h

theorem isSome_slotAt_of_content (h : shard.content index = some slot) :
    (shard.slotAt index).isSome := by
  obtain ⟨live, hlive, _⟩ := exists_slotAt_of_content h
  simp [hlive]

end Slab

/-! ## Unlinking -/

def bypass (shard : Shard) (prev next : ℕ) : Shard :=
  (shard.modify prev fun slot => { slot with next := next }).modify next
    fun slot => { slot with prev := prev }

@[simp] theorem content_bypass (shard : Shard) (prev next index : ℕ) :
    (shard.bypass prev next).content index = shard.content index := by
  unfold bypass
  rw [content_modify, content_modify]
  · intro slot
    rfl
  · intro slot
    rfl

/-- What `unlink` leaves of a shard with the live slot `slot` at `index`. -/
def unlinkSlot (shard : Shard) (index : ℕ) (slot : Slot) : Shard :=
  let list := shard.list slot.queue
  (shard.bypass slot.prev slot.next).setList slot.queue
    { head := if list.head = index then slot.next else list.head
      tail := if list.tail = index then slot.prev else list.tail
      bytes := list.bytes - slot.cost }

section Unlink

variable {shard : Shard} {order : Queue → List ℕ} {queue : Queue} {index : ℕ}
  {first second : List ℕ}

theorem Queued.lt_nil (h : shard.Queued order) (hindex : index ∈ order queue) :
    index < nil := by
  obtain ⟨slot, hslot, _⟩ := h.tagged queue index hindex
  exact (lt_length_of_content hslot).trans_le h.slots_le

theorem Queued.nil_not_mem (h : shard.Queued order) : nil ∉ order queue :=
  fun hmem => (h.lt_nil hmem).ne rfl

theorem Queued.slotAt_of_split (h : shard.Queued order)
    (hsplit : order queue = first ++ index :: second) :
    ∃ slot, shard.slotAt index = some slot ∧ slot.queue = queue ∧
      slot.prev = first.getLastD nil ∧ slot.next = second.headD nil := by
  obtain ⟨slot, hslot, hqueue⟩ := h.tagged queue index (by rw [hsplit]; simp)
  obtain ⟨live, hlive, rfl⟩ := exists_slotAt_of_content hslot
  have hlinked := h.linked queue
  rw [hsplit] at hlinked
  have hlinks := hlinked.links_of_split
  simp only [links, hlive, Option.map_some, Option.some.injEq,
    Prod.mk.injEq] at hlinks
  exact ⟨live, hlive, hqueue, hlinks.1, hlinks.2⟩

theorem Queued.isSome_slotAt (h : shard.Queued order)
    (hindex : index ∈ order queue) : (shard.slotAt index).isSome := by
  obtain ⟨slot, hslot, _⟩ := h.tagged queue index hindex
  exact isSome_slotAt_of_content hslot

theorem costAt_of_slotAt {slot : Slot} (h : shard.slotAt index = some slot) :
    shard.costAt index = slot.cost := by
  simp [costAt, content, h, Slot.unlinked]

theorem Queued.cost_le_bytes (h : shard.Queued order)
    (hindex : index ∈ order queue) :
    shard.costAt index ≤ (shard.list queue).bytes := by
  rw [h.bytes_eq]
  exact List.single_le_sum (by simp) _ (List.mem_map_of_mem hindex)

theorem unlink_eq (h : shard.Queued order)
    (hsplit : order queue = first ++ index :: second) {slot : Slot}
    (hslot : shard.slotAt index = some slot) :
    shard.unlink index = .ok (shard.unlinkSlot index slot) := by
  have hmem : index ∈ order queue := by simp [hsplit]
  obtain ⟨live, hlive, hqueue, hprev, hnext⟩ := h.slotAt_of_split hsplit
  obtain rfl : live = slot := Option.some.inj (hlive.symm.trans hslot)
  have hprevLive : live.prev ≠ nil → (shard.slotAt live.prev).isSome := by
    intro hne
    rw [hprev] at hne ⊢
    apply @Queued.isSome_slotAt _ _ queue _ h
    rw [hsplit]
    exact List.mem_append_left _ (getLastD_mem_of_ne hne)
  have hnextLive : live.next ≠ nil → (shard.slotAt live.next).isSome := by
    intro hne
    rw [hnext] at hne ⊢
    apply @Queued.isSome_slotAt _ _ queue _ h
    rw [hsplit]
    exact List.mem_append_right _
      (List.mem_cons_of_mem _ (headD_mem_of_ne hne))
  have hbytes : live.cost ≤ (shard.list live.queue).bytes := by
    rw [hqueue, ← costAt_of_slotAt hlive]
    exact h.cost_le_bytes hmem
  unfold unlink
  rw [slot_of_slotAt hlive, ok_bind,
    relink_eq _ h.slots_le hprevLive, ok_bind,
    relink_eq _ (by simpa using h.slots_le)
      (by rw [isSome_slotAt_modify]; exact hnextLive), ok_bind]
  simp only [list_modify]
  rw [sub, if_pos hbytes, ok_bind]
  rfl

theorem Queued.ne_of_other_queue (h : shard.Queued order) {other : Queue}
    {cell : ℕ} (hne : other ≠ queue) (hindex : index ∈ order queue)
    (hcell : cell ∈ order other) : cell ≠ index := by
  rintro rfl
  obtain ⟨slot, hslot, hqueue⟩ := h.tagged queue cell hindex
  obtain ⟨same, hsame, hother⟩ := h.tagged other cell hcell
  obtain rfl : slot = same := Option.some.inj (hslot.symm.trans hsame)
  exact hne (hother.symm.trans hqueue)

theorem Queued.links_bypass_of_other_queue (h : shard.Queued order)
    {other : Queue} {cell prev next : ℕ} (hne : other ≠ queue)
    (hprev : prev ≠ nil → prev ∈ order queue)
    (hnext : next ≠ nil → next ∈ order queue) (hcell : cell ∈ order other) :
    (shard.bypass prev next).links cell = shard.links cell := by
  have hnil : cell ≠ nil := (h.lt_nil hcell).ne
  have hprevNe : cell ≠ prev := by
    by_cases heq : prev = nil
    · rwa [heq]
    · exact h.ne_of_other_queue hne (hprev heq) hcell
  have hnextNe : cell ≠ next := by
    by_cases heq : next = nil
    · rwa [heq]
    · exact h.ne_of_other_queue hne (hnext heq) hcell
  unfold bypass
  rw [links_redirect]
  simp [hprevNe, hnextNe]

theorem Queued.unlinkSlot (h : shard.Queued order)
    (hsplit : order queue = first ++ index :: second) {slot : Slot}
    (hslot : shard.slotAt index = some slot) :
    (shard.unlinkSlot index slot).Queued
      (Function.update order queue (first ++ second)) := by
  obtain ⟨live, hlive, hqueue, hprev, hnext⟩ := h.slotAt_of_split hsplit
  obtain rfl : live = slot := Option.some.inj (hlive.symm.trans hslot)
  have hnodup := h.nodup queue
  rw [hsplit] at hnodup
  have hcontent : ∀ other,
      (shard.unlinkSlot index live).content other = shard.content other := by
    intro other
    unfold Shard.unlinkSlot
    dsimp only
    unfold content
    rw [slotAt_setList]
    exact content_bypass shard live.prev live.next other
  have hlinks : (shard.unlinkSlot index live).links =
      (shard.bypass live.prev live.next).links := by
    funext other
    simp [Shard.unlinkSlot, links]
  have hsub : (first ++ second).Sublist (order queue) := by
    rw [hsplit]
    exact (List.Sublist.refl first).append (List.sublist_cons_self _ _)
  have hmem : ∀ other, ∀ cell ∈
      Function.update order queue (first ++ second) other,
      cell ∈ order other := by
    intro other cell hcell
    by_cases heq : other = queue
    · subst heq
      rw [Function.update_self] at hcell
      exact hsub.subset hcell
    · rwa [Function.update_of_ne heq] at hcell
  have hcost : (shard.unlinkSlot index live).costAt = shard.costAt := by
    funext other
    rw [costAt, costAt, hcontent]
  have hlist : ∀ other, other ≠ queue →
      (shard.unlinkSlot index live).list other = shard.list other := by
    intro other hne
    simp [Shard.unlinkSlot, bypass, hqueue, hne.symm]
  have hhead := h.head_eq queue
  have htail := h.tail_eq queue
  have hbytes := h.bytes_eq queue
  rw [hsplit] at hhead htail hbytes
  constructor
  · simpa [Shard.unlinkSlot, bypass] using h.slots_le
  · intro other
    by_cases heq : other = queue
    · subst heq
      rw [Function.update_self]
      exact (h.nodup other).sublist hsub
    · rw [Function.update_of_ne heq]
      exact h.nodup other
  · intro other cell hcell
    rw [hcontent]
    exact h.tagged other cell (hmem other cell hcell)
  · intro other
    rw [hlinks]
    by_cases heq : other = queue
    · subst heq
      rw [Function.update_self]
      have hlinked := h.linked other
      rw [hsplit] at hlinked
      apply hlinked.unlink hnodup
      · rw [← hsplit]
        exact h.nil_not_mem
      · rw [← hsplit]
        exact h.nil_not_mem
      · intro cell _
        unfold bypass
        rw [links_redirect, hprev, hnext]
    · rw [Function.update_of_ne heq]
      apply (h.linked other).congr
      intro cell hcell
      apply h.links_bypass_of_other_queue heq _ _ hcell
      · intro hne
        rw [hprev] at hne ⊢
        rw [hsplit]
        exact List.mem_append_left _ (getLastD_mem_of_ne hne)
      · intro hne
        rw [hnext] at hne ⊢
        rw [hsplit]
        exact List.mem_append_right _
          (List.mem_cons_of_mem _ (headD_mem_of_ne hne))
  · intro other
    by_cases heq : other = queue
    · subst heq
      rw [Function.update_self, ← headD_remove hnodup, ← hhead, ← hnext]
      simp [Shard.unlinkSlot, hqueue]
    · rw [Function.update_of_ne heq, hlist other heq]
      exact h.head_eq other
  · intro other
    by_cases heq : other = queue
    · subst heq
      rw [Function.update_self, ← getLastD_remove hnodup, ← htail, ← hprev]
      simp [Shard.unlinkSlot, hqueue]
    · rw [Function.update_of_ne heq, hlist other heq]
      exact h.tail_eq other
  · intro other
    rw [hcost]
    by_cases heq : other = queue
    · subst heq
      have hmine : live.cost = shard.costAt index :=
        (costAt_of_slotAt hlive).symm
      rw [Function.update_self]
      simp only [Shard.unlinkSlot, list_setList, hqueue, if_true, hbytes,
        hmine, List.map_append, List.map_cons, List.sum_append, List.sum_cons]
      omega
    · rw [Function.update_of_ne heq, hlist other heq]
      exact h.bytes_eq other

end Unlink

/-! ## Pushing -/

/-- What `push_back` makes of a shard whose slot at `index` costs `cost`. -/
def pushSlot (shard : Shard) (index : ℕ) (queue : Queue) (cost : ℕ) : Shard :=
  let list := shard.list queue
  ((shard.modify index fun slot =>
        { slot with prev := list.tail, next := nil, queue := queue }).modify
      list.tail fun slot => { slot with next := index }).setList queue
    { head := if list.tail = nil then index else list.head
      tail := index
      bytes := list.bytes + cost }

section Push

variable {shard : Shard} {order : Queue → List ℕ} {queue : Queue} {index : ℕ}
  {slot : Slot}

theorem Queued.tail_mem (h : shard.Queued order)
    (hne : (shard.list queue).tail ≠ nil) :
    (shard.list queue).tail ∈ order queue := by
  rw [h.tail_eq] at hne ⊢
  exact getLastD_mem_of_ne hne

theorem Queued.tail_ne (h : shard.Queued order)
    (hslot : shard.slotAt index = some slot) (hfresh : index ∉ order queue) :
    (shard.list queue).tail ≠ index := by
  intro heq
  have hlt := (lt_length_of_slotAt hslot).trans_le h.slots_le
  apply hfresh
  rw [← heq]
  apply h.tail_mem
  omega

theorem pushBack_eq (h : shard.Queued order)
    (hslot : shard.slotAt index = some slot) :
    shard.pushBack index queue = .ok (shard.pushSlot index queue slot.cost) := by
  have hlive : (shard.list queue).tail ≠ nil →
      ((shard.modify index fun slot =>
        { slot with prev := (shard.list queue).tail, next := nil,
                    queue := queue }).slotAt
          (shard.list queue).tail).isSome := by
    intro hne
    rw [isSome_slotAt_modify]
    exact h.isSome_slotAt (h.tail_mem hne)
  unfold pushBack
  rw [slot_of_slotAt hslot, ok_bind]
  dsimp only
  rw [setSlot_eq_modify (fun slot => { slot with
      prev := (shard.list queue).tail, next := nil, queue := queue }) hslot,
    relink_eq _ (by simpa using h.slots_le) hlive, ok_bind]
  simp only [list_modify]
  rfl

theorem content_pushSlot (cost other : ℕ) :
    (shard.pushSlot index queue cost).content other =
      if index = other then
        (shard.content other).map fun slot => { slot with queue := queue }
      else shard.content other := by
  unfold pushSlot
  dsimp only
  unfold content
  rw [slotAt_setList, slotAt_modify, slotAt_modify]
  cases shard.slotAt other with
  | none => simp
  | some slot =>
    by_cases htail : (shard.list queue).tail = other <;>
      by_cases hindex : index = other <;>
      simp [htail, hindex, Slot.unlinked]

theorem Queued.links_pushSlot (h : shard.Queued order)
    (hslot : shard.slotAt index = some slot) (hfresh : index ∉ order queue)
    (cost : ℕ) (other : ℕ) :
    (shard.pushSlot index queue cost).links other =
      if other = index then some ((shard.list queue).tail, nil)
      else (shard.links other).map fun link =>
        (link.1, if other = (shard.list queue).tail then index
          else link.2) := by
  have htail := h.tail_ne hslot hfresh
  unfold pushSlot
  dsimp only
  unfold links
  rw [slotAt_setList, slotAt_modify, slotAt_modify]
  by_cases hindex : other = index
  · subst hindex
    simp [htail, hslot]
  · cases shard.slotAt other with
    | none => simp [hindex, Ne.symm hindex]
    | some live =>
      by_cases heq : (shard.list queue).tail = other
      · simp [heq, hindex, Ne.symm hindex]
      · simp [heq, hindex, Ne.symm hindex, Ne.symm heq]

theorem Queued.pushSlot (h : shard.Queued order)
    (hslot : shard.slotAt index = some slot)
    (hfresh : ∀ other, index ∉ order other) :
    (shard.pushSlot index queue slot.cost).Queued
      (Function.update order queue (order queue ++ [index])) := by
  have hlinks := h.links_pushSlot hslot (hfresh queue) slot.cost
  have hother : ∀ other, ∀ cell ∈ order other, cell ≠ index := by
    rintro other cell hcell rfl
    exact hfresh other hcell
  have hkeep : ∀ other, ∀ cell ∈ order other,
      (shard.pushSlot index queue slot.cost).content cell =
        shard.content cell := by
    intro other cell hcell
    rw [content_pushSlot, if_neg (hother other cell hcell).symm]
  have hcost : (shard.pushSlot index queue slot.cost).costAt index =
      slot.cost := by
    rw [costAt, content_pushSlot, if_pos rfl]
    simp [content, hslot]
  have hlist : ∀ other, other ≠ queue →
      (shard.pushSlot index queue slot.cost).list other =
        shard.list other := by
    intro other hne
    simp [Shard.pushSlot, hne.symm]
  have hsum : ∀ other, ((order other).map
      (shard.pushSlot index queue slot.cost).costAt).sum =
        ((order other).map shard.costAt).sum := by
    intro other
    congr 1
    apply List.map_congr_left
    intro cell hcell
    rw [costAt, costAt, hkeep other cell hcell]
  constructor
  · simpa [Shard.pushSlot] using h.slots_le
  · intro other
    by_cases heq : other = queue
    · subst heq
      rw [Function.update_self]
      exact (h.nodup other).append (List.nodup_singleton index)
        (by simpa using hfresh other)
    · rw [Function.update_of_ne heq]
      exact h.nodup other
  · intro other cell hcell
    by_cases heq : other = queue
    · subst heq
      rw [Function.update_self, List.mem_append, List.mem_singleton] at hcell
      rcases hcell with hcell | rfl
      · rw [hkeep other cell hcell]
        exact h.tagged other cell hcell
      · rw [content_pushSlot, if_pos rfl]
        refine ⟨{ slot.unlinked with queue := other }, ?_, rfl⟩
        simp [content, hslot]
    · rw [Function.update_of_ne heq] at hcell
      rw [hkeep other cell hcell]
      exact h.tagged other cell hcell
  · intro other
    by_cases heq : other = queue
    · subst heq
      rw [Function.update_self]
      apply (h.linked other).push_back (h.nodup other)
      · rw [hlinks, if_pos rfl, h.tail_eq]
      · intro cell hcell
        rw [hlinks, if_neg (hother other cell hcell), h.tail_eq]
    · rw [Function.update_of_ne heq]
      apply (h.linked other).congr
      intro cell hcell
      have htail : cell ≠ (shard.list queue).tail := by
        by_cases hnil : (shard.list queue).tail = nil
        · rw [hnil]
          exact (h.lt_nil hcell).ne
        · exact h.ne_of_other_queue heq (h.tail_mem hnil) hcell
      rw [hlinks, if_neg (hother other cell hcell)]
      simp [htail]
  · intro other
    by_cases heq : other = queue
    · subst heq
      have htail := h.tail_eq other
      have hhead := h.head_eq other
      have hnil := @Queued.nil_not_mem _ _ other h
      rw [Function.update_self]
      simp only [Shard.pushSlot, list_setList, if_true]
      cases horder : order other with
      | nil => simp [htail, horder]
      | cons first rest =>
        have hne : (shard.list other).tail ≠ nil := by
          rw [htail, horder, List.getLastD_cons]
          intro heq
          apply hnil
          rw [horder, ← heq]
          exact List.getLastD_mem_cons
        rw [if_neg hne, hhead, horder]
        rfl
    · rw [Function.update_of_ne heq, hlist other heq]
      exact h.head_eq other
  · intro other
    by_cases heq : other = queue
    · subst heq
      rw [Function.update_self, List.getLastD_concat]
      simp [Shard.pushSlot]
    · rw [Function.update_of_ne heq, hlist other heq]
      exact h.tail_eq other
  · intro other
    by_cases heq : other = queue
    · subst heq
      rw [Function.update_self, List.map_append, List.sum_append, hsum]
      rw [List.map_singleton, List.sum_singleton, hcost, ← h.bytes_eq]
      simp [Shard.pushSlot]
    · rw [Function.update_of_ne heq, hlist other heq, hsum]
      exact h.bytes_eq other

end Push

/-! ## Framing -/

section Frame

variable {shard changed : Shard} {order : Queue → List ℕ} {index : ℕ}

/-- The queues depend only on the links, the tags and the costs of their own
cells. -/
theorem Queued.congr (h : shard.Queued order)
    (hlength : changed.slots.length ≤ nil)
    (hlist : ∀ queue, changed.list queue = shard.list queue)
    (hlinks : ∀ queue, ∀ cell ∈ order queue,
      changed.links cell = shard.links cell)
    (hcontent : ∀ queue, ∀ cell ∈ order queue,
      (changed.content cell).map (fun slot => (slot.queue, slot.cost)) =
        (shard.content cell).map fun slot => (slot.queue, slot.cost)) :
    changed.Queued order := by
  have hcost : ∀ queue, ∀ cell ∈ order queue,
      changed.costAt cell = shard.costAt cell := by
    intro queue cell hcell
    have hpair := congrArg (fun pair => (pair.map Prod.snd).getD 0)
      (hcontent queue cell hcell)
    simpa [costAt, Function.comp_def] using hpair
  constructor
  · exact hlength
  · exact h.nodup
  · intro queue cell hcell
    obtain ⟨slot, hslot, hqueue⟩ := h.tagged queue cell hcell
    have hpair := hcontent queue cell hcell
    rw [hslot, Option.map_some, Option.map_eq_some_iff] at hpair
    obtain ⟨same, hsame, heq⟩ := hpair
    exact ⟨same, hsame, (congrArg Prod.fst heq).trans hqueue⟩
  · intro queue
    exact (h.linked queue).congr (hlinks queue)
  · intro queue
    rw [hlist]
    exact h.head_eq queue
  · intro queue
    rw [hlist]
    exact h.tail_eq queue
  · intro queue
    rw [hlist, h.bytes_eq]
    congr 1
    apply List.map_congr_left
    intro cell hcell
    exact (hcost queue cell hcell).symm

theorem Queued.modify_freq (h : shard.Queued order) (freq : ℕ → ℕ) :
    (shard.modify index fun slot =>
      { slot with freq := freq slot.freq }).Queued order := by
  apply h.congr
  · simpa using h.slots_le
  · intro queue
    rw [list_modify]
  · intro queue cell _
    unfold links
    rw [slotAt_modify]
    split_ifs <;> cases shard.slotAt cell <;> rfl
  · intro queue cell _
    unfold content
    rw [slotAt_modify]
    split_ifs <;> cases shard.slotAt cell <;> rfl

end Frame

end Shard

end DnsLattice
