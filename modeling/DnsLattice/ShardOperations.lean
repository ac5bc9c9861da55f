import DnsLattice.ShardInvariant

/-!
# The operations of a shard

Each operation succeeds on a shard whose indices agree, keeps them so, and
changes the content of the slots as stated.  An eviction may free nothing: it
can move a slot to main or spend one of its hits.  What every eviction step
does use up is the credit of a slot, one for being stored and one for each
hit, and this is why `make_room` stops.
-/

namespace DnsLattice

open Run

namespace Shard

/-! ## Sums over the slab -/

def creditAt (shard : Shard) (index : ℕ) : ℕ :=
  ((shard.content index).map fun slot => 1 + slot.freq).getD 0

def queueBytes (shard : Shard) : ℕ :=
  shard.small.bytes + shard.main.bytes

section Sums

variable {shard changed : Shard} {order : Queue → List ℕ} {index : ℕ}
  {slot : Slot}

theorem Represents.queueBytes_eq (h : shard.Represents order) :
    shard.queueBytes = ∑ index ∈ Finset.range nil, shard.costAt index := by
  have hdisjoint : (order .small).Disjoint (order .main) := by
    intro cell hsmall hmain
    exact h.ne_of_other_queue (by decide) hmain hsmall rfl
  have hnodup : (order .small ++ order .main).Nodup :=
    (h.nodup .small).append (h.nodup .main) hdisjoint
  have hsum : shard.queueBytes =
      ((order .small ++ order .main).map shard.costAt).sum := by
    rw [List.map_append, List.sum_append, ← h.bytes_eq, ← h.bytes_eq]
    rfl
  rw [hsum, ← List.sum_toFinset _ hnodup]
  apply Finset.sum_subset
  · intro cell hcell
    rw [List.mem_toFinset, List.mem_append] at hcell
    rw [Finset.mem_range]
    rcases hcell with hcell | hcell
    · exact h.lt_nil hcell
    · exact h.lt_nil hcell
  · intro cell _ hcell
    rw [List.mem_toFinset, List.mem_append] at hcell
    have hnone : shard.content cell = none := by
      cases hslot : shard.content cell with
      | none => rfl
      | some slot =>
        have hmem := h.complete cell slot hslot
        cases hqueue : slot.queue with
        | small => exact absurd (Or.inl (hqueue ▸ hmem)) hcell
        | main => exact absurd (Or.inr (hqueue ▸ hmem)) hcell
    simp [costAt, hnone]

theorem sum_map_slots (value : Slot → ℕ) (slots : List (Option Slot)) :
    (slots.map fun slot => (slot.map value).getD 0).sum =
      ∑ index ∈ Finset.range slots.length,
        ((slots[index]?.join).map value).getD 0 := by
  induction slots with
  | nil => simp
  | cons first rest ih =>
    rw [List.map_cons, List.sum_cons, ih, List.length_cons,
      Finset.sum_range_succ']
    simp [Nat.add_comm]

theorem evictionCredit_eq (hle : shard.slots.length ≤ nil) :
    shard.evictionCredit =
      ∑ index ∈ Finset.range nil, shard.creditAt index := by
  have hlist : shard.evictionCredit = (shard.slots.map fun slot =>
      (slot.map fun slot => 1 + slot.freq).getD 0).sum := by
    unfold evictionCredit
    congr 2
    funext slot
    cases slot <;> rfl
  have hcredit : ∀ index, shard.creditAt index =
      ((shard.slots[index]?.join).map fun slot => 1 + slot.freq).getD 0 := by
    intro index
    simp [creditAt, content, slotAt, Function.comp_def]
  rw [hlist, sum_map_slots]
  simp only [hcredit]
  apply Finset.sum_subset
  · intro index hindex
    rw [Finset.mem_range] at hindex ⊢
    omega
  · intro index _ hindex
    rw [Finset.mem_range, not_lt] at hindex
    simp [hindex]

theorem sum_changedAt {value : Option Slot} (weight : Slot → ℕ)
    (hchanged : ChangedAt shard changed index value) (hindex : index < nil) :
    (∑ other ∈ Finset.range nil,
        ((changed.content other).map weight).getD 0) +
        ((shard.content index).map weight).getD 0 =
      (∑ other ∈ Finset.range nil,
        ((shard.content other).map weight).getD 0) +
        (value.map weight).getD 0 := by
  have hmem : index ∈ Finset.range nil := Finset.mem_range.mpr hindex
  rw [← Finset.add_sum_erase _ _ hmem, ← Finset.add_sum_erase _ _ hmem,
    hchanged index, if_pos rfl]
  have hrest : ∑ other ∈ (Finset.range nil).erase index,
      ((changed.content other).map weight).getD 0 =
      ∑ other ∈ (Finset.range nil).erase index,
        ((shard.content other).map weight).getD 0 := by
    apply Finset.sum_congr rfl
    intro other hother
    rw [hchanged other, if_neg (Finset.ne_of_mem_erase hother)]
  rw [hrest]
  omega

end Sums

/-! ## One eviction step -/

/-- What one round of `make_room` can do. -/
inductive EvictionStep (before after : Shard) : Prop
  | requeued (index freq : ℕ) (slot : Slot)
      (hslot : before.content index = some slot) (hfreq : freq < slot.freq)
      (hchanged : ChangedAt before after index
        (some { slot with freq := freq, queue := .main }))
      (hhistory : after.history = before.history)
  | evicted (index : ℕ) (slot : Slot)
      (hslot : before.content index = some slot)
      (hchanged : ChangedAt before after index none)
      (hhistory : after.history = before.countEviction.history ∨
        after.history = (before.countEviction.pushGhost slot.hash).history)
  | expired (index : ℕ) (slot : Slot)
      (hslot : before.content index = some slot)
      (hchanged : ChangedAt before after index none)
      (hhistory : after.history = before.countExpiration.history)

section Evict

variable {shard changed : Shard} {order : Queue → List ℕ} {index : ℕ}
  {queue : Queue}

theorem history_countEviction (h : changed.history = shard.history) :
    changed.countEviction.history = shard.countEviction.history :=
  congrArg (fun before => before.countEviction.history) h

theorem history_countExpiration (h : changed.history = shard.history) :
    changed.countExpiration.history = shard.countExpiration.history :=
  congrArg (fun before => before.countExpiration.history) h

theorem history_pushGhost (hash : UInt64) :
    (shard.pushGhost hash).history =
      (shard.history.pushGhost hash).history := by
  have hcap : shard.history.ghostCap = shard.ghostCap := rfl
  unfold pushGhost
  rw [hcap]
  split_ifs <;> rfl

theorem history_pushGhost_congr (h : changed.history = shard.history)
    (hash : UInt64) :
    (changed.pushGhost hash).history = (shard.pushGhost hash).history := by
  rw [history_pushGhost, h, ← history_pushGhost]

theorem Queued.order_eq_nil (h : shard.Queued order)
    (hhead : (shard.list queue).head = nil) : order queue = [] := by
  rw [h.head_eq] at hhead
  cases horder : order queue with
  | nil => rfl
  | cons first rest =>
    have hfirst : first ∈ order queue := by simp [horder]
    have heq : first = nil := by
      rw [horder] at hhead
      exact hhead
    exact absurd heq (h.lt_nil hfirst).ne

theorem Represents.head_slot (h : shard.Represents order)
    (hhead : (shard.list queue).head ≠ nil) :
    ∃ slot, shard.slotAt (shard.list queue).head = some slot := by
  have hmem : (shard.list queue).head ∈ order queue := by
    rw [h.head_eq] at hhead ⊢
    exact headD_mem_of_ne hhead
  exact Option.isSome_iff_exists.mp (h.isSome_slotAt hmem)

theorem Represents.pushGhost (h : shard.Represents order) (hash : UInt64) :
    (shard.pushGhost hash).Represents order :=
  h.congr_indices (indices_pushGhost hash)

theorem content_pushGhost (hash : UInt64) :
    (shard.pushGhost hash).content = shard.content :=
  content_congr (indices_pushGhost hash)

/-- `evict_one` empties nothing only when there is nothing. -/
theorem evictOne_spec (h : shard.Represents order) :
    (shard.evictOne = .ok (false, shard) ∧ ∀ queue, order queue = []) ∨
      ∃ after order', shard.evictOne = .ok (true, after) ∧
        after.Represents order' ∧ EvictionStep shard after := by
  unfold evictOne
  dsimp only
  split_ifs with hfrom hempty
  · left
    refine ⟨rfl, ?_⟩
    have hsmall : order .small = [] :=
      @Queued.order_eq_nil _ _ .small h.toQueued hempty
    have hbytes := h.bytes_eq .small
    rw [hsmall] at hbytes
    have hmain : order .main = [] := by
      rcases hfrom with hover | hhead
      · have hzero : shard.small.bytes = 0 := hbytes
        omega
      · exact @Queued.order_eq_nil _ _ .main h.toQueued hhead
    intro queue
    cases queue with
    | small => exact hsmall
    | main => exact hmain
  · right
    obtain ⟨slot, hslot⟩ := @Represents.head_slot _ _ .small h hempty
    have hcontent := content_of_slotAt hslot
    simp only [Shard.list] at hslot hcontent
    rw [slot_of_slotAt hslot, ok_bind]
    split_ifs with hfreq
    · obtain ⟨moved, hmoved, hrep, hchanged, hhistory⟩ :=
        requeue_spec h hslot fun _ => 0
      rw [hmoved]
      exact ⟨moved, _, rfl, hrep,
        .requeued _ 0 slot.unlinked hcontent hfreq hchanged hhistory⟩
    · obtain ⟨left, hleft, hrep, hchanged, hhistory⟩ := removeSlot_spec h hslot
      rw [hleft]
      refine ⟨left.countEviction.pushGhost slot.hash, _, rfl,
        (hrep.congr_indices rfl : left.countEviction.Represents _).pushGhost
          slot.hash,
        .evicted _ slot.unlinked hcontent ?_ (Or.inr
          (history_pushGhost_congr (history_countEviction hhistory) _))⟩
      intro other
      rw [content_pushGhost]
      exact hchanged other
  · right
    have hhead : shard.main.head ≠ nil := fun hnil => hfrom (Or.inr hnil)
    obtain ⟨slot, hslot⟩ := @Represents.head_slot _ _ .main h hhead
    have hcontent := content_of_slotAt hslot
    simp only [Shard.list] at hslot hcontent
    rw [slot_of_slotAt hslot, ok_bind]
    split_ifs with hfreq
    · obtain ⟨moved, hmoved, hrep, hchanged, hhistory⟩ :=
        requeue_spec h hslot fun freq => freq - 1
      rw [hmoved]
      exact ⟨moved, _, rfl, hrep,
        .requeued _ (slot.freq - 1) slot.unlinked hcontent
          (Nat.sub_lt hfreq one_pos) hchanged hhistory⟩
    · obtain ⟨left, hleft, hrep, hchanged, hhistory⟩ := removeSlot_spec h hslot
      rw [hleft]
      exact ⟨left.countEviction, _, rfl, hrep.congr_indices rfl,
        .evicted _ slot.unlinked hcontent hchanged
          (Or.inl (history_countEviction hhistory))⟩

theorem firstExpired_eq_some {now : ℕ}
    (h : shard.firstExpired now = some index) :
    ∃ expires ≤ now, toLex (expires, index) ∈ shard.expiry := by
  unfold firstExpired at h
  split at h
  · contradiction
  · rename_i first hfirst
    split_ifs at h with hdue
    obtain rfl := Option.some.inj h
    exact ⟨(ofLex first).1, hdue, Finset.mem_of_min hfirst⟩

theorem makeRoomStep_spec (h : shard.Represents order) (now : ℕ) :
    (∃ after order', shard.makeRoomStep now = .ok (.inl after) ∧
        after.Represents order' ∧ EvictionStep shard after) ∨
      (makeRoomStep now shard = .ok (.inr shard) ∧
        (shard.totalBytes ≤ shard.budget ∨ ∀ queue, order queue = [])) := by
  unfold makeRoomStep
  split_ifs with hover
  · cases hexpired : shard.firstExpired now with
    | some index =>
      left
      obtain ⟨expires, _, hmem⟩ := firstExpired_eq_some hexpired
      obtain ⟨slot, hslot, _⟩ := (h.expiry_iff expires index).mp hmem
      obtain ⟨live, hlive, rfl⟩ := exists_slotAt_of_content hslot
      obtain ⟨left, hleft, hrep, hchanged, hhistory⟩ := removeSlot_spec h hlive
      dsimp only
      rw [hleft]
      exact ⟨left.countExpiration, _, rfl, hrep.congr_indices rfl,
        .expired index live.unlinked hslot hchanged
          (history_countExpiration hhistory)⟩
    | none =>
      dsimp only
      rcases evictOne_spec h with
        ⟨hnone, hempty⟩ | ⟨after, order', hafter, hrep, hstep⟩
      · right
        rw [hnone]
        exact ⟨rfl, Or.inr hempty⟩
      · left
        rw [hafter]
        exact ⟨after, order', rfl, hrep, hstep⟩
  · right
    exact ⟨rfl, Or.inl (by omega)⟩

end Evict

/-! ## What an eviction step keeps -/

/-- Every slot of `after` holds what it held in `before`; only its frequency
and its queue may differ. -/
def Keeps (before after : Shard) : Prop :=
  ∀ index slot, after.content index = some slot →
    ∃ freq queue, before.content index =
      some { slot with freq := freq, queue := queue }

def limits (shard : Shard) : ℕ × ℕ × ℕ :=
  (shard.budget, shard.smallTarget, shard.ghostCap)

section Keeps

variable {before middle after : Shard} {index : ℕ}

theorem Keeps.refl : Keeps before before :=
  fun _ slot hslot => ⟨slot.freq, slot.queue, hslot⟩

theorem Keeps.trans (hfirst : Keeps before middle)
    (hsecond : Keeps middle after) : Keeps before after := by
  intro index slot hslot
  obtain ⟨freq, queue, hmiddle⟩ := hsecond index slot hslot
  have hbefore := hfirst index _ hmiddle
  exact hbefore

theorem keeps_of_changedAt_none (h : ChangedAt before after index none) :
    Keeps before after := by
  intro other slot hslot
  rw [h other] at hslot
  split_ifs at hslot
  exact ⟨slot.freq, slot.queue, hslot⟩

theorem limits_pushGhost (hash : UInt64) :
    (before.pushGhost hash).limits = before.limits := by
  unfold pushGhost
  split_ifs <;> rfl

theorem limits_of_history (h : after.history = before.history) :
    after.limits = before.limits := by
  have hlimits : after.history.limits = before.history.limits := by rw [h]
  exact hlimits

theorem EvictionStep.keeps (h : EvictionStep before after) :
    Keeps before after := by
  cases h with
  | requeued index freq slot hslot _ hchanged _ =>
    intro other live hlive
    rw [hchanged other] at hlive
    split_ifs at hlive with heq
    · obtain rfl := Option.some.inj hlive
      rw [heq]
      exact ⟨slot.freq, slot.queue, hslot⟩
    · exact ⟨live.freq, live.queue, hlive⟩
  | evicted index slot _ hchanged _ => exact keeps_of_changedAt_none hchanged
  | expired index slot _ hchanged _ => exact keeps_of_changedAt_none hchanged

theorem EvictionStep.credit_lt {order order' : Queue → List ℕ}
    (h : EvictionStep before after) (hbefore : before.Queued order)
    (hafter : after.Queued order') :
    after.evictionCredit < before.evictionCredit := by
  have hlt : ∀ {index slot}, before.content index = some slot →
      index < nil := by
    intro index slot hslot
    exact (lt_length_of_content hslot).trans_le hbefore.slots_le
  rw [evictionCredit_eq hbefore.slots_le, evictionCredit_eq hafter.slots_le]
  cases h with
  | requeued index freq slot hslot hfreq hchanged _ =>
    have hsum := sum_changedAt (fun slot => 1 + slot.freq) hchanged
      (hlt hslot)
    simp only [hslot, Option.map_some, Option.getD_some] at hsum
    unfold creditAt
    omega
  | evicted index slot hslot hchanged _ =>
    have hsum := sum_changedAt (fun slot => 1 + slot.freq) hchanged
      (hlt hslot)
    simp only [hslot, Option.map_some, Option.getD_some, Option.map_none,
      Option.getD_none] at hsum
    unfold creditAt
    omega
  | expired index slot hslot hchanged _ =>
    have hsum := sum_changedAt (fun slot => 1 + slot.freq) hchanged
      (hlt hslot)
    simp only [hslot, Option.map_some, Option.getD_some, Option.map_none,
      Option.getD_none] at hsum
    unfold creditAt
    omega

end Keeps

/-! ## Making room -/

/-- The states `make_room` goes through. -/
inductive MakesRoom : Shard → Shard → Prop
  | refl (shard : Shard) : MakesRoom shard shard
  | step {before middle after : Shard} (hfirst : MakesRoom before middle)
      (hstep : EvictionStep middle after) : MakesRoom before after

theorem MakesRoom.keeps {before after : Shard} (h : MakesRoom before after) :
    Keeps before after := by
  induction h with
  | refl => exact Keeps.refl
  | step _ hstep ih => exact ih.trans hstep.keeps

/-- `make_room` stops within the eviction credit, however much fuel beyond it
is given. -/
theorem makeRoom_loop_spec {shard : Shard} {order : Queue → List ℕ}
    (h : shard.Represents order) (now : ℕ) {fuel : ℕ}
    (hfuel : shard.evictionCredit < fuel) :
    ∃ after, loop (makeRoomStep now) fuel shard = .ok after ∧
      MakesRoom shard after ∧ ∃ order', after.Represents order' ∧
        (after.totalBytes ≤ after.budget ∨ ∀ queue, order' queue = []) := by
  apply exists_loop_of_measure
    (fun state => MakesRoom shard state ∧
      ∃ order', state.Represents order') evictionCredit
    (fun after => MakesRoom shard after ∧ ∃ order', after.Represents order' ∧
      (after.totalBytes ≤ after.budget ∨ ∀ queue, order' queue = []))
  · rintro state ⟨hreached, order', hrep⟩
    rcases makeRoomStep_spec hrep now with
      ⟨after, order'', hafter, hrep', hstep⟩ | ⟨hstop, hroom⟩
    · left
      exact ⟨after, hafter, ⟨hreached.step hstep, order'', hrep'⟩,
        hstep.credit_lt hrep.toQueued hrep'.toQueued⟩
    · right
      exact ⟨state, hstop, hreached, order', hrep, hroom⟩
  · exact ⟨MakesRoom.refl shard, order, h⟩
  · exact hfuel

theorem makeRoom_spec {shard : Shard} {order : Queue → List ℕ}
    (h : shard.Represents order) (now : ℕ) :
    ∃ after, shard.makeRoom now = .ok after ∧
      MakesRoom shard after ∧ ∃ order', after.Represents order' ∧
        (after.totalBytes ≤ after.budget ∨ ∀ queue, order' queue = []) :=
  makeRoom_loop_spec h now (Nat.lt_succ_self _)

/-! ## Lookups -/

/-- What `get` returns and leaves behind. -/
inductive GetOutcome (shard : Shard) (hash : UInt64) (key : List UInt8)
    (now : ℕ) : Option CachedAnswer → Shard → Prop
  | miss
      (hmiss : ∀ index slot, shard.content index = some slot →
        slot.hash = hash → slot.key ≠ key) :
      GetOutcome shard hash key now none shard
  | expired (index : ℕ) (slot : Slot) (after : Shard)
      (hslot : shard.content index = some slot) (hhash : slot.hash = hash)
      (hkey : slot.key = key) (hexpires : slot.expires ≤ now)
      (hchanged : ChangedAt shard after index none)
      (hhistory : after.history = shard.countExpiration.history ∨
        after.history = (shard.countExpiration.pushGhost slot.hash).history) :
      GetOutcome shard hash key now none after
  | hit (index : ℕ) (slot : Slot) (after : Shard)
      (hslot : shard.content index = some slot) (hhash : slot.hash = hash)
      (hkey : slot.key = key) (hexpires : now < slot.expires)
      (hchanged : ChangedAt shard after index
        (some { slot with freq := min (slot.freq + 1) maxFreq }))
      (hhistory : after.history = shard.history) :
      GetOutcome shard hash key now (some slot.entry) after

section Operations

variable {shard : Shard} {order : Queue → List ℕ} {hash : UInt64}
  {key : List UInt8} {index : ℕ}

theorem Represents.slotAt_of_lookup (h : shard.Represents order)
    (hlookup : shard.map.lookup hash = some index) :
    ∃ slot, shard.slotAt index = some slot ∧ slot.hash = hash := by
  obtain ⟨slot, hslot, hhash⟩ := (h.map_iff hash index).mp hlookup
  obtain ⟨live, hlive, rfl⟩ := exists_slotAt_of_content hslot
  exact ⟨live, hlive, hhash⟩

theorem Represents.hash_ne_of_lookup_none (h : shard.Represents order)
    (hlookup : shard.map.lookup hash = none) {slot : Slot}
    (hslot : shard.content index = some slot) : slot.hash ≠ hash := by
  intro hhash
  have hsome := (h.map_iff hash index).mpr ⟨slot, hslot, hhash⟩
  rw [hlookup] at hsome
  contradiction

theorem Represents.index_eq_of_hash (h : shard.Represents order)
    {other : ℕ} {slot same : Slot} (hslot : shard.content index = some slot)
    (hsame : shard.content other = some same)
    (hhash : slot.hash = same.hash) : index = other := by
  have hfirst := (h.map_iff same.hash index).mpr ⟨slot, hslot, hhash⟩
  have hsecond := (h.map_iff same.hash other).mpr ⟨same, hsame, rfl⟩
  exact Option.some.inj (hfirst.symm.trans hsecond)

theorem index_slots_of_slotAt {slot : Slot}
    (hslot : shard.slotAt index = some slot) :
    (Run.index shard.slots index : Run Error (Option Slot)) =
      .ok (some slot) := by
  apply index_of_getElem?
  unfold slotAt at hslot
  cases hget : shard.slots[index]? with
  | none => simp [hget] at hslot
  | some value =>
    rw [hget] at hslot
    exact congrArg some hslot

theorem Represents.modify_freq (h : shard.Represents order) (freq : ℕ → ℕ) :
    (shard.modify index fun slot =>
      { slot with freq := freq slot.freq }).Represents order := by
  refine ⟨h.toQueued.modify_freq freq, h.toIndexed.modify_freq freq, ?_⟩
  intro other slot hslot
  rw [content_modify_freq] at hslot
  split_ifs at hslot with heq
  · obtain ⟨live, hlive, rfl⟩ := Option.map_eq_some_iff.mp hslot
    exact h.complete other live hlive
  · exact h.complete other slot hslot

theorem get_spec (h : shard.Represents order) (hash : UInt64)
    (key : List UInt8) (now : ℕ) :
    ∃ result after order', shard.get hash key now = .ok (result, after) ∧
      after.Represents order' ∧
      GetOutcome shard hash key now result after := by
  unfold get
  cases hlookup : shard.map.lookup hash with
  | none =>
    refine ⟨none, shard, order, rfl, h, .miss ?_⟩
    intro index slot hslot hhash
    exact absurd hhash (h.hash_ne_of_lookup_none hlookup hslot)
  | some index =>
    obtain ⟨slot, hslot, hhash⟩ := h.slotAt_of_lookup hlookup
    have hcontent := content_of_slotAt hslot
    dsimp only
    rw [index_slots_of_slotAt hslot, ok_bind]
    dsimp only
    split_ifs with hkey hexpires
    · refine ⟨none, shard, order, rfl, h, .miss ?_⟩
      intro other same hsame hother
      have hsame' : same.hash = slot.unlinked.hash := hother.trans hhash.symm
      obtain rfl := h.index_eq_of_hash hsame hcontent hsame'
      obtain rfl := Option.some.inj (hsame.symm.trans hcontent)
      exact hkey
    · obtain ⟨left, hleft, hrep, hchanged, hhistory⟩ :=
        removeSlot_spec h hslot
      have hcount := history_countExpiration hhistory
      have hcounted : left.countExpiration.Represents _ :=
        hrep.congr_indices rfl
      rw [hleft, ok_bind]
      dsimp only
      split_ifs with hfreq
      · refine ⟨none, _, _, rfl, hcounted.pushGhost slot.hash,
          .expired index slot.unlinked _ hcontent hhash (not_not.mp hkey)
            hexpires ?_ (Or.inr (history_pushGhost_congr hcount _))⟩
        intro other
        rw [content_pushGhost]
        exact hchanged other
      · exact ⟨none, _, _, rfl, hcounted,
          .expired index slot.unlinked _ hcontent hhash (not_not.mp hkey)
            hexpires hchanged (Or.inl hcount)⟩
    · rw [setSlot_eq_modify (fun slot => { slot with
        freq := min (slot.freq + 1) maxFreq }) hslot]
      refine ⟨some slot.entry, _, _, rfl,
        h.modify_freq fun freq => min (freq + 1) maxFreq,
        .hit index slot.unlinked _ hcontent hhash (not_not.mp hkey)
          (not_le.mp hexpires) ?_ rfl⟩
      intro other
      rw [content_modify_freq fun freq => min (freq + 1) maxFreq]
      by_cases heq : other = index
      · subst heq
        simp [hcontent]
      · simp [heq, Ne.symm heq]

theorem keeps_of_changedAt_freq {after : Shard} {slot : Slot} {freq : ℕ}
    (hslot : shard.content index = some slot)
    (hchanged : ChangedAt shard after index
      (some { slot with freq := freq })) : Keeps shard after := by
  intro other live hlive
  rw [hchanged other] at hlive
  split_ifs at hlive with heq
  · obtain rfl := Option.some.inj hlive
    rw [heq]
    exact ⟨slot.freq, slot.queue, hslot⟩
  · exact ⟨live.freq, live.queue, hlive⟩

theorem GetOutcome.keeps {now : ℕ} {result : Option CachedAnswer}
    {after : Shard} (h : GetOutcome shard hash key now result after) :
    Keeps shard after := by
  cases h with
  | miss _ => exact Keeps.refl
  | expired _ _ _ _ _ _ _ hchanged _ => exact keeps_of_changedAt_none hchanged
  | hit _ _ _ hslot _ _ _ hchanged _ =>
    exact keeps_of_changedAt_freq hslot hchanged

/-- What `forget_failure` returns and leaves behind. -/
inductive ForgetOutcome (shard : Shard) (hash : UInt64) (key : List UInt8) :
    Bool → Shard → Prop
  | kept
      (hkept : ∀ index slot, shard.content index = some slot →
        slot.hash = hash → slot.key = key → slot.entry.failure = none) :
      ForgetOutcome shard hash key false shard
  | forgotten (index : ℕ) (slot : Slot) (after : Shard)
      (hslot : shard.content index = some slot) (hhash : slot.hash = hash)
      (hkey : slot.key = key) (hfailure : slot.entry.failure ≠ none)
      (hchanged : ChangedAt shard after index none)
      (hhistory : after.history = shard.history) :
      ForgetOutcome shard hash key true after

theorem forgetFailure_spec (h : shard.Represents order) (hash : UInt64)
    (key : List UInt8) :
    ∃ result after order', shard.forgetFailure hash key =
        .ok (result, after) ∧ after.Represents order' ∧
      ForgetOutcome shard hash key result after := by
  unfold forgetFailure
  cases hlookup : shard.map.lookup hash with
  | none =>
    refine ⟨false, shard, order, rfl, h, .kept ?_⟩
    intro index slot hslot hhash
    exact absurd hhash (h.hash_ne_of_lookup_none hlookup hslot)
  | some index =>
    obtain ⟨slot, hslot, hhash⟩ := h.slotAt_of_lookup hlookup
    have hcontent := content_of_slotAt hslot
    dsimp only
    rw [slot_of_slotAt hslot, ok_bind]
    split_ifs with hother
    · refine ⟨false, shard, order, rfl, h, .kept ?_⟩
      intro other same hsame hsameHash hsameKey
      have hequal : same.hash = slot.unlinked.hash := hsameHash.trans hhash.symm
      obtain rfl := h.index_eq_of_hash hsame hcontent hequal
      obtain rfl := Option.some.inj (hsame.symm.trans hcontent)
      rcases hother with hkey | hfailure
      · exact absurd hsameKey hkey
      · exact hfailure
    · obtain ⟨left, hleft, hrep, hchanged, hhistory⟩ :=
        removeSlot_spec h hslot
      rw [hleft]
      rw [not_or, not_not] at hother
      exact ⟨true, left, _, rfl, hrep, .forgotten index slot.unlinked left
        (content_of_slotAt hslot) hhash hother.1 hother.2 hchanged hhistory⟩

theorem ForgetOutcome.keeps {result : Bool} {after : Shard}
    (h : ForgetOutcome shard hash key result after) : Keeps shard after := by
  cases h with
  | kept _ => exact Keeps.refl
  | forgotten _ _ _ _ _ _ _ hchanged _ =>
    exact keeps_of_changedAt_none hchanged

/-! ## Insertion -/

/-- `base` is `shard` without the slot of one hash. -/
structure WithoutHash (shard base : Shard) (hash : UInt64) : Prop where
  lookup : base.map.lookup hash = none
  hash_ne : ∀ index slot, base.content index = some slot → slot.hash ≠ hash
  content_of : ∀ index slot, base.content index = some slot →
    shard.content index = some slot
  content : ∀ index slot, shard.content index = some slot →
    slot.hash ≠ hash → base.content index = some slot
  history : base.history = shard.history

theorem WithoutHash.keeps {base : Shard} (h : WithoutHash shard base hash) :
    Keeps shard base :=
  fun index slot hslot =>
    ⟨slot.freq, slot.queue, h.content_of index slot hslot⟩

theorem replaceOld_spec (h : shard.Represents order) (hash : UInt64)
    (key : List UInt8) :
    ∃ reused base order', shard.replaceOld hash key = .ok (reused, base) ∧
      base.Represents order' ∧ WithoutHash shard base hash := by
  unfold replaceOld
  cases hlookup : shard.map.lookup hash with
  | none =>
    exact ⟨false, shard, order, rfl, h, hlookup,
      fun _ _ hslot => h.hash_ne_of_lookup_none hlookup hslot,
      fun _ _ hslot => hslot, fun _ _ hslot _ => hslot, rfl⟩
  | some index =>
    obtain ⟨slot, hslot, hhash⟩ := h.slotAt_of_lookup hlookup
    have hcontent := content_of_slotAt hslot
    obtain ⟨left, hleft, hrep, hchanged, hhistory⟩ := removeSlot_spec h hslot
    dsimp only
    rw [hleft]
    have hne : ∀ other live, left.content other = some live →
        live.hash ≠ hash := by
      intro other live hlive hsame
      rw [hchanged other] at hlive
      split_ifs at hlive with heq
      have hsame' : live.hash = slot.unlinked.hash := hsame.trans hhash.symm
      exact heq (h.index_eq_of_hash hlive hcontent hsame')
    refine ⟨_, left, _, rfl, hrep, ?_, hne, ?_, ?_, hhistory⟩
    · cases hold : left.map.lookup hash with
      | none => rfl
      | some other =>
        obtain ⟨live, hlive, hsame⟩ := (hrep.map_iff hash other).mp hold
        exact absurd hsame (hne other live hlive)
    · intro other live hlive
      rw [hchanged other] at hlive
      split_ifs at hlive
      exact hlive
    · intro other live hlive hother
      rw [hchanged other, if_neg]
      · exact hlive
      · rintro rfl
        obtain rfl := Option.some.inj (hlive.symm.trans hcontent)
        exact hother hhash

/-- `after` is `before` with one more slot. -/
structure Stored (before after : Shard) (index : ℕ) (slot : Slot) :
    Prop where
  vacant : before.content index = none
  changed : ChangedAt before after index (some slot.unlinked)
  history : after.history = before.countInsert.history

/-- `storeSlot` fails only when the slab is full, and then changes nothing. -/
theorem storeSlot_spec {slot : Slot} (h : shard.Represents order)
    (hhash : shard.map.lookup slot.hash = none) :
    shard.storeSlot slot = .ok (false, shard) ∨
      ∃ index after order', shard.storeSlot slot = .ok (true, after) ∧
        after.Represents order' ∧ Stored shard after index slot := by
  obtain ⟨index, grown, hallocate, hgrown⟩ := allocate_spec h slot
  unfold storeSlot
  rw [hallocate, ok_bind]
  dsimp only
  rcases hgrown with ⟨rfl, hback⟩ | hgrown
  · left
    rw [if_pos rfl, hback]
    rfl
  · right
    obtain ⟨linked, hlinked, hrep, hchanged, hhistory⟩ :=
      linkSlot_spec h hgrown hhash
    rw [if_neg hgrown.index_lt.ne, hlinked, ok_bind]
    exact ⟨index, linked.countInsert, _, rfl, hrep.congr_indices rfl,
      hgrown.vacant, hchanged,
      congrArg (fun before => before.countInsert.history) hhistory⟩

/-- What `insert` has done when it calls `make_room` or returns early. -/
inductive PrepareOutcome (layout : Layout) (shard : Shard) (hash : UInt64)
    (key : List UInt8) (entry : CachedAnswer) : Bool → Shard → Prop
  | oversized (base : Shard) (hbase : WithoutHash shard base hash)
      (hcost : layout.entryCost key.length entry >
        shard.budget / oversizeDivisor) :
      PrepareOutcome layout shard hash key entry false base.countOversized
  | full (base : Shard) (hbase : WithoutHash shard base hash) :
      PrepareOutcome layout shard hash key entry false (base.forgetGhost hash)
  | stored (base after : Shard) (index : ℕ) (slot : Slot)
      (hbase : WithoutHash shard base hash)
      (hcost : layout.entryCost key.length entry ≤
        shard.budget / oversizeDivisor)
      (hkey : slot.key = key) (hhash : slot.hash = hash)
      (hentry : slot.entry = entry)
      (hslotCost : slot.cost = layout.entryCost key.length entry)
      (hexpires : slot.expires = entry.staleUntil) (hfreq : slot.freq = 0)
      (hstored : Stored (base.forgetGhost hash) after index slot) :
      PrepareOutcome layout shard hash key entry true after

theorem WithoutHash.budget_eq {base : Shard}
    (h : WithoutHash shard base hash) : base.budget = shard.budget :=
  congrArg Prod.fst (limits_of_history h.history)

theorem prepareInsert_spec (layout : Layout) (h : shard.Represents order)
    (hash : UInt64) (key : List UInt8) (entry : CachedAnswer) :
    ∃ result after order',
      shard.prepareInsert layout hash key entry = .ok (result, after) ∧
      after.Represents order' ∧
      PrepareOutcome layout shard hash key entry result after := by
  obtain ⟨reused, base, order₁, hreplace, hbaseRep, hbase⟩ :=
    replaceOld_spec h hash key
  unfold prepareInsert
  dsimp only
  rw [hreplace, ok_bind]
  dsimp only
  by_cases hcost : layout.entryCost key.length entry >
      base.budget / oversizeDivisor
  · rw [if_pos hcost]
    rw [hbase.budget_eq] at hcost
    exact ⟨false, _, order₁, rfl, hbaseRep.congr_indices rfl,
      .oversized base hbase hcost⟩
  · rw [if_neg hcost]
    rw [hbase.budget_eq, not_lt] at hcost
    have hghost : (base.forgetGhost hash).Represents order₁ :=
      hbaseRep.congr_indices rfl
    let slot : Slot :=
      { key := key
        hash := hash
        entry := entry
        cost := layout.entryCost key.length entry
        expires := entry.staleUntil
        freq := 0
        queue := if reused || (base.ghost.lookup hash).isSome then .main
          else .small
        prev := nil
        next := nil }
    change ∃ result after order', (base.forgetGhost hash).storeSlot slot = _ ∧ _
    rcases @storeSlot_spec _ _ slot hghost hbase.lookup with
      hfull | ⟨index, after, order', hafter, hrep, hstored⟩
    · exact ⟨false, _, order₁, hfull, hghost, .full base hbase⟩
    · exact ⟨true, after, order', hafter, hrep,
        .stored base after index slot hbase hcost rfl rfl rfl rfl rfl rfl
          hstored⟩

theorem insert_spec (layout : Layout) (h : shard.Represents order)
    (hash : UInt64) (key : List UInt8) (entry : CachedAnswer) (now : ℕ) :
    ∃ result prepared after order',
      shard.insert layout hash key entry now = .ok (result, after) ∧
      PrepareOutcome layout shard hash key entry result prepared ∧
      after.Represents order' ∧
      ((result = false ∧ after = prepared) ∨
        (result = true ∧ MakesRoom prepared after ∧
          (after.totalBytes ≤ after.budget ∨
            ∀ queue, order' queue = []))) := by
  obtain ⟨result, prepared, order₁, hprepare, hrep, houtcome⟩ :=
    prepareInsert_spec layout h hash key entry
  unfold insert
  rw [hprepare, ok_bind]
  cases result with
  | false =>
    exact ⟨false, prepared, prepared, order₁, rfl, houtcome, hrep,
      Or.inl ⟨rfl, rfl⟩⟩
  | true =>
    obtain ⟨after, hafter, hroom, order', hafterRep, htotal⟩ :=
      makeRoom_spec hrep now
    refine ⟨true, prepared, after, order', ?_, houtcome, hafterRep,
      Or.inr ⟨rfl, hroom, htotal⟩⟩
    dsimp only
    rw [if_pos rfl, hafter]
    rfl

/-! ## Removal -/

theorem removeAll_spec {doomed : List ℕ} (hnodup : doomed.Nodup)
    (h : shard.Represents order)
    (hlive : ∀ index ∈ doomed, (shard.content index).isSome) :
    ∃ after order', removeAll doomed shard = .ok after ∧
      after.Represents order' ∧
      (∀ index, after.content index =
        if index ∈ doomed then none else shard.content index) ∧
      after.history = shard.history := by
  induction doomed generalizing shard order with
  | nil =>
    refine ⟨shard, order, rfl, h, ?_, rfl⟩
    intro index
    simp
  | cons first rest ih =>
    obtain ⟨hfresh, hnodup⟩ := List.nodup_cons.mp hnodup
    obtain ⟨slot, hslot⟩ := Option.isSome_iff_exists.mp (hlive first (by simp))
    obtain ⟨live, hat, rfl⟩ := exists_slotAt_of_content hslot
    obtain ⟨left, hleft, hrep, hchanged, hhistory⟩ := removeSlot_spec h hat
    have hliveLeft : ∀ index ∈ rest, (left.content index).isSome := by
      intro index hindex
      rw [hchanged index, if_neg]
      · exact hlive index (by simp [hindex])
      · rintro rfl
        exact hfresh hindex
    obtain ⟨after, order', hafter, hafterRep, hcontent, hsame⟩ :=
      ih hnodup hrep hliveLeft
    refine ⟨after, order', ?_, hafterRep, ?_, hsame.trans hhistory⟩
    · rw [removeAll, hleft, ok_bind]
      exact hafter
    · intro index
      rw [hcontent, hchanged index]
      by_cases hfirst : index = first
      · simp [hfirst]
      · simp [hfirst]

theorem mem_doomed {matching : List UInt8 → Bool} (h : shard.Represents order) :
    index ∈ shard.doomed matching ↔
      ∃ slot, shard.content index = some slot ∧
        matching slot.key = true := by
  unfold doomed
  rw [List.mem_filter, List.mem_range]
  constructor
  · rintro ⟨_, hmatch⟩
    cases hslot : shard.slotAt index with
    | none => simp [hslot] at hmatch
    | some slot =>
      simp only [hslot, Bool.and_eq_true] at hmatch
      exact ⟨slot.unlinked, content_of_slotAt hslot, hmatch.1⟩
  · rintro ⟨slot, hslot, hmatch⟩
    have hlt := lt_length_of_content hslot
    obtain ⟨live, hlive, rfl⟩ := exists_slotAt_of_content hslot
    have hkey : matching live.key = true := hmatch
    refine ⟨hlt, ?_⟩
    simp [hlive, hkey, hlt.trans_le h.slots_le]

theorem removeMatching_spec (h : shard.Represents order)
    (matching : List UInt8 → Bool) :
    ∃ after order', shard.removeMatching matching =
        .ok ((shard.doomed matching).length, after) ∧
      after.Represents order' ∧
      (∀ index, after.content index =
        (shard.content index).filter fun slot => !matching slot.key) ∧
      after.history = shard.history := by
  have hnodup : (shard.doomed matching).Nodup := List.nodup_range.filter _
  obtain ⟨after, order', hafter, hrep, hcontent, hhistory⟩ :=
    removeAll_spec hnodup h (by
      intro index hindex
      obtain ⟨slot, hslot, _⟩ := (mem_doomed h).mp hindex
      simp [hslot])
  refine ⟨after, order', ?_, hrep, ?_, hhistory⟩
  · unfold removeMatching
    dsimp only
    rw [hafter]
    rfl
  · intro index
    rw [hcontent]
    cases hslot : shard.content index with
    | none => simp
    | some slot =>
      by_cases hmatch : matching slot.key = true
      · have hmem : index ∈ shard.doomed matching :=
          (mem_doomed h).mpr ⟨slot, hslot, hmatch⟩
        rw [if_pos hmem, Option.filter_some_neg (by simp [hmatch])]
      · have hmem : index ∉ shard.doomed matching := by
          intro hmem
          obtain ⟨same, hsame, htrue⟩ := (mem_doomed h).mp hmem
          obtain rfl := Option.some.inj (hslot.symm.trans hsame)
          exact hmatch htrue
        rw [if_neg hmem, Option.filter_some_pos (by simp [hmatch])]

theorem keeps_of_filter {after : Shard} {matching : List UInt8 → Bool}
    (hcontent : ∀ index, after.content index =
      (shard.content index).filter fun slot => !matching slot.key) :
    Keeps shard after := by
  intro index slot hslot
  rw [hcontent] at hslot
  exact ⟨slot.freq, slot.queue, (Option.filter_eq_some_iff.mp hslot).1⟩

theorem new_represents (budget : ℕ) :
    (new budget).Represents fun _ => [] := by
  have hcontent : ∀ index, (new budget).content index = none := by
    intro index
    rfl
  refine ⟨⟨?_, by simp, by simp, fun _ => trivial, ?_, ?_, ?_⟩,
    ⟨?_, ?_, List.nodup_nil, ?_⟩, ?_⟩
  · exact Nat.zero_le nil
  · rintro (_ | _) <;> rfl
  · rintro (_ | _) <;> rfl
  · rintro (_ | _) <;> rfl
  · intro hash index
    rw [hcontent]
    simp [new]
  · intro expires index
    rw [hcontent]
    simp [new]
  · intro index
    simp [new]
  · intro index slot hslot
    rw [hcontent] at hslot
    contradiction

theorem clear_represents (shard : Shard) :
    (shard.clear).2.Represents fun _ => [] :=
  (new_represents shard.budget).congr_indices rfl

end Operations

end Shard

end DnsLattice
