import DnsLattice.ShardRuns

/-!
# The byte budget of a shard

`make_room` may leave its loop because nothing is left to evict.  Then only
ghosts are accounted for, and these never take more than an eighth of the
budget.  A lookup which finds an expired entry may push a ghost, but it frees
a slot which costs more.
-/

namespace DnsLattice

open Run

namespace Shard

section Ghosts

variable {shard changed : Shard}

theorem length_trimGhost (cap : ℕ) (order : List (UInt64 × ℕ))
    (ghost : HashMap ℕ) :
    (trimGhost cap order ghost).1.length = min cap order.length := by
  induction order generalizing ghost with
  | nil => simp [trimGhost]
  | cons first rest ih =>
    obtain ⟨oldHash, oldSeq⟩ := first
    rw [trimGhost]
    by_cases hover : cap < rest.length + 1
    · rw [if_pos hover, ih, List.length_cons]
      omega
    · rw [if_neg hover, List.length_cons]
      omega

theorem ghosts_pushGhost (hash : UInt64) :
    (shard.pushGhost hash).ghostOrder.length ≤
        shard.ghostOrder.length + 1 ∧
      (shard.ghostOrder.length ≤ shard.ghostCap →
        (shard.pushGhost hash).ghostOrder.length ≤
          (shard.pushGhost hash).ghostCap) := by
  unfold pushGhost
  by_cases hcap : shard.ghostCap = 0
  · rw [if_pos hcap]
    exact ⟨Nat.le_succ _, id⟩
  · rw [if_neg hcap]
    dsimp only
    rw [length_trimGhost, List.length_append, List.length_singleton]
    exact ⟨min_le_right _ _, fun _ => min_le_left _ _⟩

def ring (shard : Shard) : (ℕ × ℕ × ℕ) × List (UInt64 × ℕ) :=
  (shard.limits, shard.ghostOrder)

theorem ring_of_history (h : changed.history = shard.history) :
    changed.ring = shard.ring := by
  have hring : changed.history.ring = shard.history.ring := by rw [h]
  exact hring

end Ghosts

/-! ## What bounds the accounted bytes -/

/-- The limits of a new shard, a bounded ghost ring, and slots that each cost
more than a ghost. -/
structure Bounded (budget : ℕ) (shard : Shard) : Prop where
  limits_eq : shard.limits = (new budget).limits
  ghosts_le : shard.ghostOrder.length ≤ shard.ghostCap
  cost_le : ∀ index slot, shard.content index = some slot → 64 ≤ slot.cost

section Bounded

variable {budget : ℕ} {before pushed after : Shard} {hash : UInt64}
  {order order' : Queue → List ℕ}

theorem Bounded.budget_eq (h : Bounded budget before) :
    before.budget = budget :=
  congrArg Prod.fst h.limits_eq

theorem totalBytes_eq (shard : Shard) :
    shard.totalBytes =
      shard.queueBytes + shard.ghostOrder.length * ghostCost :=
  rfl

theorem Bounded.ghostBytes_le (h : Bounded budget before) :
    before.ghostOrder.length * ghostCost ≤ budget := by
  have hcap : before.ghostCap = budget / ghostDivisor :=
    congrArg (fun limits => limits.2.2) h.limits_eq
  have hle := h.ghosts_le
  rw [hcap] at hle
  unfold ghostDivisor at hle
  unfold ghostCost
  omega

/-- Removing slots and changing their frequencies frees bytes. -/
theorem Keeps.queueBytes_le (h : Keeps before after)
    (hbefore : before.Represents order) (hafter : after.Represents order') :
    after.queueBytes ≤ before.queueBytes := by
  rw [hbefore.queueBytes_eq, hafter.queueBytes_eq]
  apply Finset.sum_le_sum
  intro index _
  unfold costAt
  cases hslot : after.content index with
  | none => exact Nat.zero_le _
  | some slot =>
    obtain ⟨freq, queue, hold⟩ := h index slot hslot
    rw [hold]
    exact le_rfl

theorem Keeps.totalBytes_le (h : Keeps before after)
    (hring : after.ring = before.ring)
    (hbefore : before.Represents order) (hafter : after.Represents order') :
    after.totalBytes ≤ before.totalBytes := by
  have hghosts : after.ghostOrder = before.ghostOrder := congrArg Prod.snd hring
  have hqueues := h.queueBytes_le hbefore hafter
  rw [totalBytes_eq, totalBytes_eq, hghosts]
  omega

theorem Bounded.of_keeps (h : Bounded budget before)
    (hkeeps : Keeps before after) (hlimits : after.limits = before.limits)
    (hghosts : after.ghostOrder.length ≤ after.ghostCap) :
    Bounded budget after := by
  refine ⟨hlimits.trans h.limits_eq, hghosts, ?_⟩
  intro index slot hslot
  obtain ⟨freq, queue, hold⟩ := hkeeps index slot hslot
  have hcost := h.cost_le index _ hold
  exact hcost

theorem Bounded.of_ring (h : Bounded budget before)
    (hkeeps : Keeps before after) (hring : after.ring = before.ring) :
    Bounded budget after := by
  simp only [ring, limits, Prod.mk.injEq] at hring
  apply h.of_keeps hkeeps
  · simp [limits, hring]
  · rw [hring.2, hring.1.2.2]
    exact h.ghosts_le

theorem Bounded.of_pushGhost (h : Bounded budget before)
    (hkeeps : Keeps before after) (hpushed : pushed.ring = before.ring)
    (hring : after.ring = (pushed.pushGhost hash).ring) :
    Bounded budget after := by
  have hlimits : (pushed.pushGhost hash).limits = before.limits :=
    (limits_pushGhost hash).trans (congrArg Prod.fst hpushed)
  have hghosts := (@ghosts_pushGhost pushed hash).2
  simp only [ring, limits, Prod.mk.injEq] at hpushed hring hlimits
  apply h.of_keeps hkeeps
  · simp [limits, hring, hlimits]
  · rw [hring.2, hring.1.2.2]
    apply hghosts
    rw [hpushed.2, hpushed.1.2.2]
    exact h.ghosts_le

end Bounded

/-! ## Each operation -/

section Operations

variable {budget : ℕ} {before after : Shard} {hash : UInt64}
  {key : List UInt8} {order order' : Queue → List ℕ} {layout : Layout}
  {entry : CachedAnswer}

theorem EvictionStep.bounded (h : EvictionStep before after)
    (hbefore : Bounded budget before) : Bounded budget after := by
  have hkeeps := h.keeps
  cases h with
  | requeued _ _ _ _ _ _ hhistory =>
    exact hbefore.of_ring hkeeps (ring_of_history hhistory)
  | evicted _ slot _ _ hhistory =>
    rcases hhistory with hhistory | hhistory
    · have hring := ring_of_history hhistory
      exact hbefore.of_ring hkeeps hring
    · have hcount : before.countEviction.ring = before.ring := rfl
      exact hbefore.of_pushGhost hkeeps hcount (ring_of_history hhistory)
  | expired _ _ _ _ hhistory =>
    have hring := ring_of_history hhistory
    exact hbefore.of_ring hkeeps hring

theorem MakesRoom.bounded (h : MakesRoom before after)
    (hbefore : Bounded budget before) : Bounded budget after := by
  induction h with
  | refl => exact hbefore
  | step _ hstep ih => exact hstep.bounded ih

theorem GetOutcome.bounded {now : ℕ} {result : Option CachedAnswer}
    (h : GetOutcome before hash key now result after)
    (hbefore : Bounded budget before) (hrep : before.Represents order)
    (hafter : after.Represents order') :
    Bounded budget after ∧ after.totalBytes ≤ before.totalBytes := by
  have hkeeps := h.keeps
  cases h with
  | miss _ => exact ⟨hbefore, le_rfl⟩
  | expired index slot _ hslot _ _ _ hchanged hhistory =>
    rcases hhistory with hhistory | hhistory
    · have hring := ring_of_history hhistory
      exact ⟨hbefore.of_ring hkeeps hring,
        hkeeps.totalBytes_le hring hrep hafter⟩
    · have hring := ring_of_history hhistory
      have hcount : before.countExpiration.ring = before.ring := rfl
      refine ⟨hbefore.of_pushGhost hkeeps hcount hring, ?_⟩
      -- the slot costs at least 64 bytes, the ghost 16
      have hcost := hbefore.cost_le index slot hslot
      have hlt : index < nil :=
        (lt_length_of_content hslot).trans_le hrep.slots_le
      have hsum := sum_changedAt Slot.cost hchanged hlt
      simp only [hslot, Option.map_some, Option.getD_some, Option.map_none,
        Option.getD_none] at hsum
      have hqueues : after.queueBytes + slot.cost = before.queueBytes := by
        rw [hrep.queueBytes_eq, hafter.queueBytes_eq]
        unfold costAt
        rw [hsum, Nat.add_zero]
      have hghosts := (@ghosts_pushGhost before.countExpiration slot.hash).1
      have hlength : after.ghostOrder.length ≤
          before.ghostOrder.length + 1 := by
        have hsame := congrArg Prod.snd hring
        simp only [ring] at hsame
        rw [hsame]
        exact hghosts
      rw [totalBytes_eq, totalBytes_eq]
      unfold ghostCost
      omega
  | hit index slot _ hslot _ _ _ hchanged hhistory =>
    have hring := ring_of_history hhistory
    exact ⟨hbefore.of_ring hkeeps hring, hkeeps.totalBytes_le hring hrep hafter⟩

theorem ForgetOutcome.bounded {result : Bool}
    (h : ForgetOutcome before hash key result after)
    (hbefore : Bounded budget before) (hrep : before.Represents order)
    (hafter : after.Represents order') :
    Bounded budget after ∧ after.totalBytes ≤ before.totalBytes := by
  have hkeeps := h.keeps
  cases h with
  | kept _ => exact ⟨hbefore, le_rfl⟩
  | forgotten index slot _ _ _ _ _ hchanged hhistory =>
    have hring := ring_of_history hhistory
    exact ⟨hbefore.of_ring hkeeps hring, hkeeps.totalBytes_le hring hrep hafter⟩

theorem PrepareOutcome.bounded {result : Bool}
    (h : PrepareOutcome layout before hash key entry result after)
    (hbefore : Bounded budget before) : Bounded budget after := by
  cases h with
  | oversized base hbase _ =>
    have hkeeps : Keeps before base.countOversized := hbase.keeps
    have hring := ring_of_history hbase.history
    exact hbefore.of_ring hkeeps hring
  | full base hbase =>
    have hkeeps : Keeps before (base.forgetGhost hash) := hbase.keeps
    have hring := ring_of_history hbase.history
    exact hbefore.of_ring hkeeps hring
  | stored base _ index slot hbase _ _ _ _ hslotCost _ _ hstored =>
    have hbaseBounded :=
      hbefore.of_ring hbase.keeps (ring_of_history hbase.history)
    have hring := ring_of_history hstored.history
    simp only [ring, limits, Prod.mk.injEq] at hring
    refine ⟨?_, ?_, ?_⟩
    · have hlimits := hbaseBounded.limits_eq
      rw [← hlimits]
      simp [limits, hring, countInsert, forgetGhost]
    · rw [hring.2, hring.1.2.2]
      exact hbaseBounded.ghosts_le
    · intro other live hlive
      rw [hstored.changed other] at hlive
      split_ifs at hlive with heq
      · obtain rfl := Option.some.inj hlive
        have hcost := layout.le_entryCost key.length entry
        rw [← hslotCost] at hcost
        exact hcost
      · exact hbaseBounded.cost_le other live hlive

theorem PrepareOutcome.totalBytes_le
    (h : PrepareOutcome layout before hash key entry false after)
    (hrep : before.Represents order) (hafter : after.Represents order') :
    after.totalBytes ≤ before.totalBytes := by
  cases h with
  | oversized base hbase _ =>
    have hkeeps : Keeps before base.countOversized := hbase.keeps
    have hring := ring_of_history hbase.history
    exact hkeeps.totalBytes_le hring hrep hafter
  | full base hbase =>
    have hkeeps : Keeps before (base.forgetGhost hash) := hbase.keeps
    have hring := ring_of_history hbase.history
    exact hkeeps.totalBytes_le hring hrep hafter

/-- Nothing is left to evict: only ghosts are accounted for. -/
theorem Represents.queueBytes_of_empty (h : before.Represents order)
    (hempty : ∀ queue, order queue = []) : before.queueBytes = 0 := by
  have hsmall := h.bytes_eq .small
  have hmain := h.bytes_eq .main
  rw [hempty] at hsmall hmain
  have hsmall' : before.small.bytes = 0 := hsmall
  have hmain' : before.main.bytes = 0 := hmain
  unfold queueBytes
  omega

end Operations

structure WithinBudget (budget : ℕ) (shard : Shard) : Prop where
  represents : ∃ order, shard.Represents order
  bounded : Bounded budget shard
  totalBytes_le : shard.totalBytes ≤ budget

section Runs

variable {budget : ℕ} {before after shard : Shard} {layout : Layout}

theorem new_withinBudget (budget : ℕ) : WithinBudget budget (new budget) := by
  refine ⟨⟨_, new_represents budget⟩, ⟨rfl, Nat.zero_le _, ?_⟩, Nat.zero_le _⟩
  intro index slot hslot
  have hnone : (new budget).content index = none := rfl
  rw [hnone] at hslot
  contradiction

theorem apply_withinBudget (h : WithinBudget budget before) (op : ShardOp)
    (hafter : before.apply layout op = .ok after) :
    WithinBudget budget after := by
  obtain ⟨⟨order, hrep⟩, hbounded, htotal⟩ := h
  unfold apply at hafter
  cases op with
  | get hash key now =>
    obtain ⟨result, changed, order', hget, hrep', houtcome⟩ :=
      get_spec hrep hash key now
    dsimp only at hafter
    rw [hget, ok_bind] at hafter
    obtain rfl := Run.ok.inj hafter
    obtain ⟨hbounded', hle⟩ := houtcome.bounded hbounded hrep hrep'
    exact ⟨⟨order', hrep'⟩, hbounded', hle.trans htotal⟩
  | insert hash key entry now =>
    obtain ⟨result, prepared, changed, order', hinsert, houtcome, hrep',
      hroom⟩ := insert_spec layout hrep hash key entry now
    dsimp only at hafter
    rw [hinsert, ok_bind] at hafter
    obtain rfl := Run.ok.inj hafter
    have hprepared := houtcome.bounded hbounded
    rcases hroom with ⟨rfl, rfl⟩ | ⟨rfl, hroom, hstop⟩
    · exact ⟨⟨order', hrep'⟩, hprepared,
        (houtcome.totalBytes_le hrep hrep').trans htotal⟩
    · have hbounded' := hroom.bounded hprepared
      refine ⟨⟨order', hrep'⟩, hbounded', ?_⟩
      rcases hstop with hfits | hempty
      · rw [hbounded'.budget_eq] at hfits
        exact hfits
      · rw [totalBytes_eq, hrep'.queueBytes_of_empty hempty, Nat.zero_add]
        exact hbounded'.ghostBytes_le
  | forgetFailure hash key =>
    obtain ⟨result, changed, order', hforget, hrep', houtcome⟩ :=
      forgetFailure_spec hrep hash key
    dsimp only at hafter
    rw [hforget, ok_bind] at hafter
    obtain rfl := Run.ok.inj hafter
    obtain ⟨hbounded', hle⟩ := houtcome.bounded hbounded hrep hrep'
    exact ⟨⟨order', hrep'⟩, hbounded', hle.trans htotal⟩
  | removeMatching matching =>
    obtain ⟨changed, order', hremove, hrep', hcontent, hhistory⟩ :=
      removeMatching_spec hrep matching
    dsimp only at hafter
    rw [hremove, ok_bind] at hafter
    obtain rfl := Run.ok.inj hafter
    have hkeeps := keeps_of_filter hcontent
    have hring := ring_of_history hhistory
    exact ⟨⟨order', hrep'⟩, hbounded.of_ring hkeeps hring,
      (hkeeps.totalBytes_le hring hrep hrep').trans htotal⟩
  | clear =>
    obtain rfl := Run.ok.inj hafter
    have hnew := new_withinBudget before.budget
    rw [hbounded.budget_eq] at hnew
    obtain ⟨_, hbounded', htotal'⟩ := hnew
    refine ⟨⟨_, clear_represents before⟩, ?_, ?_⟩
    · unfold clear
      rw [hbounded.budget_eq]
      exact ⟨hbounded'.limits_eq, hbounded'.ghosts_le, hbounded'.cost_le⟩
    · unfold clear
      rw [hbounded.budget_eq]
      exact htotal'

theorem withinBudget_of_reaches (h : (new budget).Reaches layout shard) :
    WithinBudget budget shard := by
  apply invariant_of_reaches (new_withinBudget budget) _ h
  rintro before after hbefore ⟨op, hop⟩
  exact apply_withinBudget hbefore op hop

/-- However it was reached, a shard which calls `make_room` returns from its
loop. -/
theorem makeRoom_halts (h : shard.WithinBudget budget) {hash : UInt64}
    {key : List UInt8} {entry : CachedAnswer} {prepared : Shard}
    (hprepare : shard.prepareInsert layout hash key entry =
      .ok (true, prepared)) (now : ℕ) :
    LoopHalts (makeRoomStep now) prepared := by
  obtain ⟨order, hrep⟩ := h.represents
  obtain ⟨result, after, order', hafter, hrep', _⟩ :=
    prepareInsert_spec layout hrep hash key entry
  obtain ⟨_, rfl⟩ := Prod.mk.inj (Run.ok.inj (hafter.symm.trans hprepare))
  obtain ⟨left, hleft, _⟩ := makeRoom_loop_spec hrep' now (Nat.lt_succ_self _)
  refine ⟨after.evictionCredit + 1, ?_⟩
  simp [hleft]

end Runs

end Shard

end DnsLattice
