import DnsLattice.ShardOperations

/-!
# What a shard holds

Seen from outside, a shard holds entries under keys.  Each operation is
described by the entries which a shard may hold after it.
-/

namespace DnsLattice

open Run

namespace Shard

def Holds (shard : Shard) (key : List UInt8) (entry : CachedAnswer) : Prop :=
  ∃ index slot, shard.content index = some slot ∧ slot.key = key ∧
    slot.entry = entry

/-- Every slot is filed under the hash of its key, in the shard of that hash
and until its entry is no longer to be kept. -/
def Filed (hash : List UInt8 → UInt64) (home : UInt64 → Prop)
    (shard : Shard) : Prop :=
  ∀ index slot, shard.content index = some slot →
    slot.hash = hash slot.key ∧ home slot.hash ∧
      slot.expires = slot.entry.staleUntil

structure Sound (hash : List UInt8 → UInt64) (home : UInt64 → Prop)
    (shard : Shard) : Prop where
  represents : ∃ order, shard.Represents order
  filed : shard.Filed hash home

section Keeps

variable {hash : List UInt8 → UInt64} {home : UInt64 → Prop}
  {before after : Shard} {key : List UInt8} {entry : CachedAnswer}

theorem Keeps.holds (h : Keeps before after) (hholds : after.Holds key entry) :
    before.Holds key entry := by
  obtain ⟨index, slot, hslot, hkey, hentry⟩ := hholds
  obtain ⟨freq, queue, hold⟩ := h index slot hslot
  exact ⟨index, _, hold, hkey, hentry⟩

theorem Keeps.filed (h : Keeps before after)
    (hbefore : before.Filed hash home) : after.Filed hash home := by
  intro index slot hslot
  obtain ⟨freq, queue, hold⟩ := h index slot hslot
  have hfiled := hbefore index _ hold
  exact hfiled

theorem Keeps.sound (h : Keeps before after) (hbefore : Sound hash home before)
    (hafter : ∃ order, after.Represents order) : Sound hash home after :=
  ⟨hafter, h.filed hbefore.filed⟩

theorem Sound.slot_eq (h : Sound hash home before) {index other : ℕ}
    {slot same : Slot} (hslot : before.content index = some slot)
    (hsame : before.content other = some same)
    (hhash : hash slot.key = hash same.key) : slot = same := by
  obtain ⟨order, hrep⟩ := h.represents
  have hslotHash := (h.filed index slot hslot).1
  have hsameHash := (h.filed other same hsame).1
  have hequal : slot.hash = same.hash := by
    rw [hslotHash, hsameHash, hhash]
  obtain rfl := hrep.index_eq_of_hash hslot hsame hequal
  exact Option.some.inj (hslot.symm.trans hsame)

theorem Sound.entry_eq (h : Sound hash home before) {other : CachedAnswer}
    (hentry : before.Holds key entry) (hother : before.Holds key other) :
    entry = other := by
  obtain ⟨index, slot, hslot, hkey, rfl⟩ := hentry
  obtain ⟨_, same, hsame, hsameKey, rfl⟩ := hother
  have hkeys : slot.key = same.key := hkey.trans hsameKey.symm
  rw [h.slot_eq hslot hsame (congrArg hash hkeys)]

end Keeps

section Operations

variable {hash : List UInt8 → UInt64} {home : UInt64 → Prop} {shard : Shard}
  {key : List UInt8} {entry : CachedAnswer} {now : ℕ} (layout : Layout)

theorem new_not_holds (budget : ℕ) : ¬(new budget).Holds key entry := by
  rintro ⟨index, slot, hslot, _⟩
  have hnone : (new budget).content index = none := rfl
  rw [hnone] at hslot
  contradiction

theorem new_sound (budget : ℕ) : Sound hash home (new budget) := by
  refine ⟨⟨_, new_represents budget⟩, ?_⟩
  intro index slot hslot
  have hnone : (new budget).content index = none := rfl
  rw [hnone] at hslot
  contradiction

theorem holds_of_content {index : ℕ} {slot : Slot}
    (hslot : shard.content index = some slot) :
    shard.Holds slot.key slot.entry :=
  ⟨index, slot, hslot, rfl, rfl⟩

theorem Sound.holds_of_removed (h : Sound hash home shard) {after : Shard}
    {index : ℕ} {slot : Slot} (hslot : shard.content index = some slot)
    (hchanged : ChangedAt shard after index none) (other : List UInt8)
    (entry : CachedAnswer) :
    after.Holds other entry ↔
      shard.Holds other entry ∧ other ≠ slot.key := by
  constructor
  · intro hholds
    refine ⟨(keeps_of_changedAt_none hchanged).holds hholds, ?_⟩
    rintro rfl
    obtain ⟨at', live, hlive, hkey, _⟩ := hholds
    rw [hchanged at'] at hlive
    split_ifs at hlive with heq
    obtain ⟨order, hrep⟩ := h.represents
    have hhash : live.hash = slot.hash := by
      rw [(h.filed _ _ hlive).1, (h.filed _ _ hslot).1, hkey]
    exact heq (hrep.index_eq_of_hash hlive hslot hhash)
  · rintro ⟨⟨at', live, hlive, rfl, rfl⟩, hne⟩
    refine ⟨at', live, ?_, rfl, rfl⟩
    rw [hchanged at', if_neg]
    · exact hlive
    · rintro rfl
      rw [Option.some.inj (hlive.symm.trans hslot)] at hne
      exact hne rfl

theorem holds_of_changedAt_freq {after : Shard} {index freq : ℕ}
    {slot : Slot} (hslot : shard.content index = some slot)
    (hchanged : ChangedAt shard after index
      (some { slot with freq := freq })) (other : List UInt8)
    (entry : CachedAnswer) :
    after.Holds other entry ↔ shard.Holds other entry := by
  constructor
  · exact (keeps_of_changedAt_freq hslot hchanged).holds
  · rintro ⟨at', live, hlive, hkey, hentry⟩
    by_cases heq : at' = index
    · subst heq
      obtain rfl := Option.some.inj (hlive.symm.trans hslot)
      refine ⟨at', { live with freq := freq }, ?_, hkey, hentry⟩
      rw [hchanged at', if_pos rfl]
    · refine ⟨at', live, ?_, hkey, hentry⟩
      rw [hchanged at', if_neg heq, hlive]

/-- A lookup returns what is held and still to be kept; it drops what it finds
past that time. -/
theorem Sound.get_holds (h : Sound hash home shard) (key : List UInt8)
    (now : ℕ) :
    ∃ result after, shard.get (hash key) key now = .ok (result, after) ∧
      Sound hash home after ∧
      (∀ entry, result = some entry ↔
        shard.Holds key entry ∧ now < entry.staleUntil) ∧
      ∀ other entry, after.Holds other entry ↔
        shard.Holds other entry ∧
          ¬(other = key ∧ entry.staleUntil ≤ now) := by
  obtain ⟨order, hrep⟩ := h.represents
  obtain ⟨result, after, order', hget, hrep', houtcome⟩ :=
    get_spec hrep (hash key) key now
  refine ⟨result, after, hget, houtcome.keeps.sound h ⟨order', hrep'⟩, ?_⟩
  cases houtcome with
  | miss hmiss =>
    have habsent : ∀ entry, ¬shard.Holds key entry := by
      rintro entry ⟨index, slot, hslot, hkey, _⟩
      apply hmiss index slot hslot _ hkey
      rw [(h.filed index slot hslot).1, hkey]
    refine ⟨fun entry => ?_, fun other entry => ?_⟩
    · simp [habsent]
    · refine ⟨fun hholds => ⟨hholds, ?_⟩, And.left⟩
      rintro ⟨rfl, _⟩
      exact habsent entry hholds
  | expired index slot _ hslot _ hkey hexpires hchanged _ =>
    have hstale : ∀ entry, shard.Holds key entry →
        entry.staleUntil ≤ now := by
      intro entry hholds
      rw [h.entry_eq hholds (hkey ▸ holds_of_content hslot),
        ← (h.filed index slot hslot).2.2]
      exact hexpires
    refine ⟨fun entry => ?_, fun other entry => ?_⟩
    · constructor
      · intro hnone
        contradiction
      · rintro ⟨hholds, hlt⟩
        exact absurd (hstale entry hholds) (not_le.mpr hlt)
    · rw [h.holds_of_removed hslot hchanged, hkey]
      constructor
      · rintro ⟨hholds, hne⟩
        exact ⟨hholds, fun hsame => hne hsame.1⟩
      · rintro ⟨hholds, hkept⟩
        refine ⟨hholds, ?_⟩
        rintro rfl
        exact hkept ⟨rfl, hstale entry hholds⟩
  | hit index slot _ hslot _ hkey hexpires hchanged _ =>
    have hholds : shard.Holds key slot.entry := hkey ▸ holds_of_content hslot
    have hfresh : now < slot.entry.staleUntil := by
      rw [← (h.filed index slot hslot).2.2]
      exact hexpires
    refine ⟨fun entry => ?_, fun other entry => ?_⟩
    · constructor
      · intro hentry
        obtain rfl := Option.some.inj hentry
        exact ⟨hholds, hfresh⟩
      · rintro ⟨hentry, _⟩
        rw [h.entry_eq hentry hholds]
    · rw [holds_of_changedAt_freq hslot hchanged]
      refine ⟨fun hother => ⟨hother, ?_⟩, And.left⟩
      rintro ⟨rfl, hle⟩
      rw [h.entry_eq hother hholds] at hle
      exact absurd hfresh (not_lt.mpr hle)

theorem Sound.forgetFailure_holds (h : Sound hash home shard)
    (key : List UInt8) :
    ∃ result after,
      shard.forgetFailure (hash key) key = .ok (result, after) ∧
      Sound hash home after ∧
      ∀ other entry, after.Holds other entry ↔
        shard.Holds other entry ∧
          ¬(other = key ∧ entry.failure ≠ none) := by
  obtain ⟨order, hrep⟩ := h.represents
  obtain ⟨result, after, order', hforget, hrep', houtcome⟩ :=
    forgetFailure_spec hrep (hash key) key
  refine ⟨result, after, hforget, houtcome.keeps.sound h ⟨order', hrep'⟩, ?_⟩
  intro other entry
  cases houtcome with
  | kept hkept =>
    refine ⟨fun hholds => ⟨hholds, ?_⟩, And.left⟩
    rintro ⟨rfl, hfailure⟩
    obtain ⟨index, slot, hslot, hkey, rfl⟩ := hholds
    apply hfailure
    apply hkept index slot hslot _ hkey
    rw [(h.filed index slot hslot).1, hkey]
  | forgotten index slot _ hslot _ hkey hfailure hchanged _ =>
    rw [h.holds_of_removed hslot hchanged, hkey]
    constructor
    · rintro ⟨hholds, hne⟩
      exact ⟨hholds, fun hsame => hne hsame.1⟩
    · rintro ⟨hholds, hkept⟩
      refine ⟨hholds, ?_⟩
      rintro rfl
      rw [h.entry_eq hholds (hkey ▸ holds_of_content hslot)] at hkept
      exact hkept ⟨rfl, hfailure⟩

theorem WithoutHash.holds {base : Shard}
    (hbase : WithoutHash shard base (hash key)) (h : Sound hash home shard)
    {other : List UInt8} {held : CachedAnswer}
    (hholds : base.Holds other held) :
    shard.Holds other held ∧ hash other ≠ hash key := by
  obtain ⟨index, slot, hslot, rfl, rfl⟩ := hholds
  have hold := hbase.content_of index slot hslot
  refine ⟨holds_of_content hold, ?_⟩
  rw [← (h.filed index slot hold).1]
  exact hbase.hash_ne index slot hslot

theorem PrepareOutcome.holds {result : Bool} {prepared : Shard}
    (houtcome : PrepareOutcome layout shard (hash key) key entry result
      prepared) (h : Sound hash home shard) {other : List UInt8}
    {held : CachedAnswer} (hholds : prepared.Holds other held) :
    (result = true ∧ other = key ∧ held = entry) ∨
      (shard.Holds other held ∧ hash other ≠ hash key) := by
  cases houtcome with
  | oversized base hbase _ =>
    right
    have hbaseHolds : base.Holds other held := hholds
    exact hbase.holds h hbaseHolds
  | full base hbase =>
    right
    have hbaseHolds : base.Holds other held := hholds
    exact hbase.holds h hbaseHolds
  | stored base _ index slot hbase _ hkey _ hentry _ _ _ hstored =>
    obtain ⟨at', live, hlive, rfl, rfl⟩ := hholds
    rw [hstored.changed at'] at hlive
    split_ifs at hlive
    · left
      obtain rfl := Option.some.inj hlive
      exact ⟨rfl, hkey, hentry⟩
    · right
      have hbaseHolds : base.Holds live.key live.entry := holds_of_content hlive
      exact hbase.holds h hbaseHolds

theorem PrepareOutcome.filed {result : Bool} {prepared : Shard}
    (houtcome : PrepareOutcome layout shard (hash key) key entry result
      prepared) (h : shard.Filed hash home) (hhome : home (hash key)) :
    prepared.Filed hash home := by
  cases houtcome with
  | oversized base hbase _ =>
    have hkeeps : Keeps shard base.countOversized := hbase.keeps
    exact hkeeps.filed h
  | full base hbase =>
    have hkeeps : Keeps shard (base.forgetGhost (hash key)) := hbase.keeps
    exact hkeeps.filed h
  | stored base _ index slot hbase _ hkey hhash hentry _ hexpires _ hstored =>
    intro other live hlive
    rw [hstored.changed other] at hlive
    split_ifs at hlive
    · obtain rfl := Option.some.inj hlive
      simp only [Slot.unlinked_hash, Slot.unlinked_key,
        Slot.unlinked_expires, Slot.unlinked_entry]
      rw [hhash, hkey, hexpires, hentry]
      exact ⟨rfl, hhome, rfl⟩
    · exact h other live (hbase.content_of other live hlive)

/-- Whether or not the new entry is accepted, nothing else is left under its
hash; room is made by forgetting. -/
theorem Sound.insert_holds (h : Sound hash home shard) (key : List UInt8)
    (entry : CachedAnswer) (now : ℕ) (hhome : home (hash key)) :
    ∃ result after,
      shard.insert layout (hash key) key entry now = .ok (result, after) ∧
      Sound hash home after ∧
      ∀ other held, after.Holds other held →
        (result = true ∧ other = key ∧ held = entry) ∨
          (shard.Holds other held ∧ hash other ≠ hash key) := by
  obtain ⟨order, hrep⟩ := h.represents
  obtain ⟨result, prepared, after, order', hinsert, houtcome, hrep', hroom⟩ :=
    insert_spec layout hrep (hash key) key entry now
  have hkeeps : Keeps prepared after := by
    rcases hroom with ⟨_, rfl⟩ | ⟨_, hroom, _⟩
    · exact Keeps.refl
    · exact hroom.keeps
  refine ⟨result, after, hinsert, ⟨⟨order', hrep'⟩, ?_⟩, ?_⟩
  · exact hkeeps.filed (houtcome.filed layout h.filed hhome)
  · intro other held hholds
    exact houtcome.holds layout h (hkeeps.holds hholds)

theorem Sound.removeMatching_holds (h : Sound hash home shard)
    (matching : List UInt8 → Bool) :
    ∃ result after, shard.removeMatching matching = .ok (result, after) ∧
      Sound hash home after ∧
      ∀ other entry, after.Holds other entry ↔
        shard.Holds other entry ∧ matching other = false := by
  obtain ⟨order, hrep⟩ := h.represents
  obtain ⟨after, order', hremove, hrep', hcontent, _⟩ :=
    removeMatching_spec hrep matching
  refine ⟨_, after, hremove,
    (keeps_of_filter hcontent).sound h ⟨order', hrep'⟩, ?_⟩
  intro other entry
  unfold Holds
  simp only [hcontent, Option.filter_eq_some_iff, Bool.not_eq_true']
  constructor
  · rintro ⟨index, slot, ⟨hslot, hmatch⟩, rfl, rfl⟩
    exact ⟨holds_of_content hslot, hmatch⟩
  · rintro ⟨⟨index, slot, hslot, rfl, rfl⟩, hmatch⟩
    exact ⟨index, slot, ⟨hslot, hmatch⟩, rfl, rfl⟩

theorem Sound.clear_holds (_ : Sound hash home shard) :
    ∃ result after, (.ok shard.clear : Run Error (ℕ × Shard)) =
        .ok (result, after) ∧
      Sound hash home after ∧
      ∀ other entry, after.Holds other entry ↔
        shard.Holds other entry ∧ False := by
  refine ⟨_, _, rfl, ?_, ?_⟩
  · obtain ⟨_, hfiled⟩ := @new_sound hash home shard.budget
    exact ⟨⟨_, clear_represents shard⟩, hfiled⟩
  · intro other entry
    have hnone := @new_not_holds other entry shard.budget
    exact ⟨fun hholds => absurd hholds hnone, fun h => h.2.elim⟩

end Operations

end Shard

end DnsLattice
