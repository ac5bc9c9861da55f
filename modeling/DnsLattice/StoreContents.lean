import DnsLattice.ShardContents
import DnsLattice.StoreModel
import DnsLattice.ForgetfulMap

/-!
# What the store holds

The store refines a partial map which may forget: every operation writes or
removes as its event says, and a lookup answers from the map.
-/

namespace DnsLattice

open Run

namespace Store

def Holds (store : Store) (key : List UInt8) (entry : CachedAnswer) : Prop :=
  ∃ (index : ℕ) (shard : Shard),
    store.shards[index]? = some shard ∧ shard.Holds key entry

def Sound (hash : List UInt8 → UInt64) (store : Store) : Prop :=
  ∀ (index : ℕ) (shard : Shard), store.shards[index]? = some shard →
    shard.Sound hash fun value => store.shardIndex value = index

section Shards

variable {hash : List UInt8 → UInt64} {store : Store} {index : ℕ}
  {shard after : Shard} {key : List UInt8} {entry : CachedAnswer}

theorem shardIndex_lt (store : Store) (value : UInt64) :
    store.shardIndex value < store.shards.length := by
  rw [store.length_eq]
  exact Nat.lt_succ_of_le Nat.and_le_right

theorem getElem?_setShard (hshard : store.shards[index]? = some shard)
    (other : ℕ) :
    (store.setShard index after).shards[other]? =
      if other = index then some after else store.shards[other]? := by
  have hlt : index < store.shards.length := by
    obtain ⟨hlt, _⟩ := List.getElem?_eq_some_iff.mp hshard
    exact hlt
  unfold setShard
  dsimp only
  by_cases heq : other = index
  · rw [if_pos heq, heq, List.getElem?_set_self hlt]
  · rw [if_neg heq, List.getElem?_set_ne (Ne.symm heq)]

@[simp] theorem length_setShard (store : Store) (index : ℕ) (shard : Shard) :
    (store.setShard index shard).shards.length = store.shards.length :=
  List.length_set

theorem withShard_eq {α : Type} {op : Shard → Run Error (α × Shard)}
    {result : α} (hshard : store.shards[index]? = some shard)
    (hop : op shard = .ok (result, after)) :
    store.withShard index op = .ok (result, store.setShard index after) := by
  unfold withShard
  rw [index_of_getElem? hshard, ok_bind, hop]
  rfl

theorem withShard_eq_ok_iff {α : Type} {op : Shard → Run Error (α × Shard)}
    {result : α} {changed : Store} :
    store.withShard index op = .ok (result, changed) ↔
      ∃ shard after, store.shards[index]? = some shard ∧
        op shard = .ok (result, after) ∧
        changed = store.setShard index after := by
  constructor
  · intro h
    unfold withShard Run.index at h
    cases hshard : store.shards[index]? with
    | none => simp [hshard] at h
    | some shard =>
      rw [hshard] at h
      dsimp only at h
      rw [ok_bind, bind_eq_ok_iff] at h
      obtain ⟨⟨value, after⟩, hop, hresult⟩ := h
      obtain ⟨rfl, rfl⟩ := Prod.mk.inj (Run.ok.inj hresult)
      exact ⟨shard, after, rfl, hop, rfl⟩
  · rintro ⟨shard, after, hshard, hop, rfl⟩
    exact withShard_eq hshard hop

theorem withShard_mask {α : Type} {op : Shard → Run Error (α × Shard)}
    {result : α} {changed : Store}
    (h : store.withShard index op = .ok (result, changed)) :
    changed.mask = store.mask := by
  obtain ⟨shard, after, _, _, rfl⟩ := withShard_eq_ok_iff.mp h
  rfl

theorem Sound.holds_iff (h : store.Sound hash) :
    store.Holds key entry ↔ ∃ shard : Shard,
      store.shards[store.shardIndex (hash key)]? = some shard ∧
        shard.Holds key entry := by
  constructor
  · rintro ⟨index, shard, hshard, hholds⟩
    obtain ⟨at', slot, hslot, rfl, rfl⟩ := hholds
    obtain ⟨hhash, hhome, _⟩ := (h index shard hshard).filed at' slot hslot
    rw [hhash] at hhome
    refine ⟨shard, ?_, Shard.holds_of_content hslot⟩
    rw [hhome]
    exact hshard
  · rintro ⟨shard, hshard, hholds⟩
    exact ⟨_, shard, hshard, hholds⟩

theorem Sound.setShard (h : store.Sound hash)
    (hshard : store.shards[index]? = some shard)
    (hafter : after.Sound hash fun value => store.shardIndex value = index) :
    (store.setShard index after).Sound hash := by
  intro other same hsame
  rw [getElem?_setShard hshard] at hsame
  split_ifs at hsame with heq
  · obtain rfl := Option.some.inj hsame
    rw [heq]
    exact hafter
  · exact h other same hsame

theorem Sound.holds_setShard (h : store.Sound hash)
    (hshard : store.shards[index]? = some shard)
    (hafter : after.Sound hash fun value => store.shardIndex value = index) :
    (store.setShard index after).Holds key entry ↔
      if store.shardIndex (hash key) = index then after.Holds key entry
      else store.Holds key entry := by
  rw [(h.setShard hshard hafter).holds_iff, h.holds_iff]
  change (∃ changed, (store.setShard index after).shards[
    store.shardIndex (hash key)]? = some changed ∧ _) ↔ _
  rw [getElem?_setShard hshard]
  split_ifs with heq
  · simp
  · rfl

end Shards

section Operations

variable {hash : List UInt8 → UInt64} {store : Store} (layout : Layout)

theorem exists_shard (store : Store) (value : UInt64) :
    ∃ shard, store.shards[store.shardIndex value]? = some shard :=
  ⟨_, List.getElem?_eq_getElem (store.shardIndex_lt value)⟩

/-- An operation which only concerns one key changes the store as it changes
the shard of that key. -/
theorem Sound.holds_keyed (h : store.Sound hash) {key other : List UInt8}
    {entry : CachedAnswer} {shard after : Shard} {kept : Prop}
    (hshard : store.shards[store.shardIndex (hash key)]? = some shard)
    (hafter : after.Sound hash fun value =>
      store.shardIndex value = store.shardIndex (hash key))
    (hkept : other ≠ key → kept)
    (hholds : after.Holds other entry ↔ shard.Holds other entry ∧ kept) :
    (store.setShard (store.shardIndex (hash key)) after).Holds other entry ↔
      store.Holds other entry ∧ kept := by
  rw [h.holds_setShard hshard hafter]
  split_ifs with hindex
  · rw [hholds, h.holds_iff, hindex, hshard]
    simp
  · refine ⟨fun hold => ⟨hold, hkept ?_⟩, And.left⟩
    rintro rfl
    exact hindex rfl

theorem Sound.get_holds (h : store.Sound hash) (key : List UInt8) (now : ℕ) :
    ∃ result after, store.get (hash key) key now = .ok (result, after) ∧
      after.Sound hash ∧
      (∀ entry, result = some entry ↔
        store.Holds key entry ∧ now < entry.staleUntil) ∧
      ∀ other entry, after.Holds other entry ↔
        store.Holds other entry ∧
          ¬(other = key ∧ entry.staleUntil ≤ now) := by
  obtain ⟨shard, hshard⟩ := store.exists_shard (hash key)
  obtain ⟨result, after, hget, hsound, hresult, hholds⟩ :=
    (h _ shard hshard).get_holds key now
  refine ⟨result, _, withShard_eq hshard hget, h.setShard hshard hsound, ?_, ?_⟩
  · intro entry
    rw [hresult, h.holds_iff, hshard]
    simp
  · intro other entry
    apply h.holds_keyed hshard hsound _ (hholds other entry)
    exact fun hne hsame => hne hsame.1

theorem Sound.holds_of_get (h : store.Sound hash) {key : List UInt8}
    {now : ℕ} {entry : CachedAnswer} {after : Store}
    (hget : store.get (hash key) key now = .ok (some entry, after)) :
    store.Holds key entry := by
  obtain ⟨result, changed, hresult, _, hfound, _⟩ := h.get_holds key now
  obtain ⟨rfl, _⟩ := Prod.mk.inj (Run.ok.inj (hresult.symm.trans hget))
  exact ((hfound entry).mp rfl).1

theorem Sound.forgetFailure_holds (h : store.Sound hash) (key : List UInt8) :
    ∃ result after,
      store.forgetFailure (hash key) key = .ok (result, after) ∧
      after.Sound hash ∧
      ∀ other entry, after.Holds other entry ↔
        store.Holds other entry ∧
          ¬(other = key ∧ entry.failure ≠ none) := by
  obtain ⟨shard, hshard⟩ := store.exists_shard (hash key)
  obtain ⟨result, after, hforget, hsound, hholds⟩ :=
    (h _ shard hshard).forgetFailure_holds key
  refine ⟨result, _, withShard_eq hshard hforget, h.setShard hshard hsound, ?_⟩
  intro other entry
  apply h.holds_keyed hshard hsound _ (hholds other entry)
  exact fun hne hsame => hne hsame.1

theorem Sound.insertIf_holds (h : store.Sound hash) (key : List UInt8)
    (entry : CachedAnswer) (now : ℕ) (allowed : Bool) :
    ∃ result after,
      store.insertIf layout (hash key) key entry now allowed =
        .ok (result, after) ∧
      after.Sound hash ∧
      (result = true → allowed = true) ∧
      ∀ other held, after.Holds other held →
        (result = true ∧ other = key ∧ held = entry) ∨
          (store.Holds other held ∧
            ¬(allowed = true ∧ hash key = hash other)) := by
  obtain ⟨shard, hshard⟩ := store.exists_shard (hash key)
  unfold insertIf
  cases allowed with
  | false =>
    have hop : (fun shard : Shard => if false = true then
        shard.insert layout (hash key) key entry now
        else .ok (false, shard)) shard = .ok (false, shard) := rfl
    refine ⟨false, _, withShard_eq hshard hop,
      h.setShard hshard (h _ shard hshard), id, ?_⟩
    intro other held hholds
    right
    rw [h.holds_setShard hshard (h _ shard hshard)] at hholds
    refine ⟨?_, by simp⟩
    split_ifs at hholds with hindex
    · exact ⟨_, shard, hshard, hholds⟩
    · exact hholds
  | true =>
    obtain ⟨result, after, hinsert, hsound, hafter⟩ :=
      (h _ shard hshard).insert_holds layout key entry now rfl
    refine ⟨result, _, withShard_eq hshard hinsert,
      h.setShard hshard hsound, fun _ => rfl, ?_⟩
    intro other held hholds
    rw [h.holds_setShard hshard hsound] at hholds
    split_ifs at hholds with hindex
    · rcases hafter other held hholds with hnew | ⟨hold, hne⟩
      · exact Or.inl hnew
      · exact Or.inr ⟨⟨_, shard, hshard, hold⟩, fun hsame => hne hsame.2.symm⟩
    · right
      refine ⟨hholds, ?_⟩
      rintro ⟨_, hsame⟩
      rw [hsame] at hindex
      exact hindex rfl

section Sweep

variable {op : Shard → Run Error (ℕ × Shard)} {kept : List UInt8 → Prop}
  (hop : ∀ (home : UInt64 → Prop) (shard : Shard), shard.Sound hash home →
    ∃ result after, op shard = .ok (result, after) ∧
      after.Sound hash home ∧
      ∀ other entry, after.Holds other entry ↔
        shard.Holds other entry ∧ kept other)

include hop

theorem Sound.withShard_holds (h : store.Sound hash) {index : ℕ}
    (hlt : index < store.shards.length) :
    ∃ result after, store.withShard index op = .ok (result, after) ∧
      after.Sound hash ∧
      ∀ other entry, after.Holds other entry ↔
        store.Holds other entry ∧
          (store.shardIndex (hash other) = index → kept other) := by
  have hshard : store.shards[index]? = some store.shards[index] :=
    List.getElem?_eq_getElem hlt
  obtain ⟨removed, changed, hchanged, hsound, hholds⟩ :=
    hop _ _ (h index _ hshard)
  refine ⟨removed, _, withShard_eq hshard hchanged,
    h.setShard hshard hsound, ?_⟩
  intro other entry
  rw [h.holds_setShard hshard hsound]
  split_ifs with hindex
  · rw [hholds, h.holds_iff, hindex, hshard]
    simp
  · simp [hindex]

theorem Sound.sweep_holds (h : store.Sound hash) (indices : List ℕ)
    (hindices : ∀ index ∈ indices, index < store.shards.length) :
    ∃ result after, sweep op indices store = .ok (result, after) ∧
      after.Sound hash ∧
      ∀ other entry, after.Holds other entry ↔
        store.Holds other entry ∧
          (store.shardIndex (hash other) ∈ indices → kept other) := by
  induction indices generalizing store with
  | nil => exact ⟨0, store, rfl, h, fun other entry => by simp⟩
  | cons index rest ih =>
    obtain ⟨removed, changed, hchanged, hsound, hholds⟩ :=
      h.withShard_holds hop (hindices index (by simp))
    obtain ⟨_, _, _, _, hset⟩ := withShard_eq_ok_iff.mp hchanged
    obtain ⟨others, after, hafter, hafterSound, hafterHolds⟩ :=
      ih hsound (by
        intro other hother
        rw [hset, length_setShard]
        exact hindices other (by simp [hother]))
    refine ⟨removed + others, after, ?_, hafterSound, ?_⟩
    · rw [sweep, hchanged, ok_bind]
      dsimp only
      rw [hafter]
      rfl
    · intro other entry
      have hsame : changed.shardIndex (hash other) =
          store.shardIndex (hash other) := by
        rw [hset]
        rfl
      rw [hafterHolds, hholds, hsame, List.mem_cons]
      tauto

theorem Sound.sweep_all_holds (h : store.Sound hash) :
    ∃ result after,
      sweep op (List.range store.shards.length) store =
        .ok (result, after) ∧
      after.Sound hash ∧
      ∀ other entry, after.Holds other entry ↔
        store.Holds other entry ∧ kept other := by
  obtain ⟨result, after, hsweep, hsound, hholds⟩ :=
    h.sweep_holds hop (List.range store.shards.length) (by simp)
  refine ⟨result, after, hsweep, hsound, ?_⟩
  intro other entry
  have hvisited : store.shardIndex (hash other) ∈
      List.range store.shards.length :=
    List.mem_range.mpr (store.shardIndex_lt _)
  rw [hholds]
  simp [hvisited]

end Sweep

theorem Sound.clear_holds (h : store.Sound hash) :
    ∃ result after, store.clear = .ok (result, after) ∧
      after.Sound hash ∧ ∀ other entry, ¬after.Holds other entry := by
  obtain ⟨result, after, hclear, hsound, hholds⟩ :=
    h.sweep_all_holds fun _ _ hshard => hshard.clear_holds
  exact ⟨result, after, hclear, hsound, fun other entry hholds' =>
    ((hholds other entry).mp hholds').2⟩

theorem Sound.removeWhere_holds (h : store.Sound hash)
    (matching : List UInt8 → Bool) :
    ∃ result after, store.removeWhere matching = .ok (result, after) ∧
      after.Sound hash ∧
      ∀ other entry, after.Holds other entry ↔
        store.Holds other entry ∧ matching other = false :=
  h.sweep_all_holds fun _ _ hshard => hshard.removeMatching_holds matching

/-- The keys in the scope of a purge; a name which does not fit the wire
limits has none. -/
def inPurge (name : Name) (rtype : Option RecordType) (key : List UInt8) :
    Bool :=
  (wireName name).any fun wire => purgeMatches wire (rtype.map typeCode) key

def inPurgeSubtree (zone : Name) (key : List UInt8) : Bool :=
  (wireName zone).any fun wire => subtreeMatches wire key

theorem Sound.purge_holds (h : store.Sound hash) (name : Name)
    (rtype : Option RecordType) :
    ∃ result after, store.purge name rtype = .ok (result, after) ∧
      after.Sound hash ∧
      ∀ other entry, after.Holds other entry ↔
        store.Holds other entry ∧ inPurge name rtype other = false := by
  unfold purge inPurge
  cases wireName name with
  | none => exact ⟨0, store, rfl, h, fun other entry => by simp⟩
  | some wire => exact h.removeWhere_holds _

theorem Sound.purgeSubtree_holds (h : store.Sound hash) (zone : Name) :
    ∃ result after, store.purgeSubtree zone = .ok (result, after) ∧
      after.Sound hash ∧
      ∀ other entry, after.Holds other entry ↔
        store.Holds other entry ∧ inPurgeSubtree zone other = false := by
  unfold purgeSubtree inPurgeSubtree
  cases wireName zone with
  | none => exact ⟨0, store, rfl, h, fun other entry => by simp⟩
  | some wire => exact h.removeWhere_holds _

theorem new_not_holds (maxBytes : ℕ) (shards : Option ℕ) (parallelism : ℕ)
    (key : List UInt8) (entry : CachedAnswer) :
    ¬(new maxBytes shards parallelism).Holds key entry := by
  rintro ⟨index, shard, hshard, hholds⟩
  obtain rfl := List.eq_of_mem_replicate (List.mem_of_getElem? hshard)
  exact Shard.new_not_holds _ hholds

theorem new_sound (maxBytes : ℕ) (shards : Option ℕ) (parallelism : ℕ) :
    (new maxBytes shards parallelism).Sound hash := by
  intro index shard hshard
  obtain rfl := List.eq_of_mem_replicate (List.mem_of_getElem? hshard)
  exact Shard.new_sound _

end Operations

/-! ## Refinement of a forgetful map -/

/-- The effect of an operation on the map: an accepted insertion writes, and
these events remove. -/
def mapEvents (hash : List UInt8 → UInt64) :
    MapEvents StoreEvent (List UInt8) CachedAnswer where
  writes event key entry :=
    ∃ now, event = ⟨.insertIf key entry now true, .flag true⟩
  removes event key entry :=
    match event.op with
    | .get other now => other = key ∧ entry.staleUntil ≤ now
    -- the same key, accepted or too large, or a key with the same hash
    | .insertIf other _ _ allowed => allowed = true ∧ hash other = hash key
    | .forgetFailure other => other = key ∧ entry.failure ≠ none
    | .purge name rtype => inPurge name rtype key = true
    | .purgeSubtree zone => inPurgeSubtree zone key = true
    | .clear => True

section Refinement

variable {hash : List UInt8 → UInt64} {store : Store} {layout : Layout}

theorem Sound.apply_refines (h : store.Sound hash) (op : StoreOp) :
    ∃ reply after, store.apply layout hash op = .ok (reply, after) ∧
      after.Sound hash ∧
      (mapEvents hash).Step store.Holds ⟨op, reply⟩ after.Holds := by
  unfold apply
  cases op with
  | get key now =>
    obtain ⟨found, after, hget, hsound, _, hholds⟩ := h.get_holds key now
    dsimp only
    rw [hget]
    refine ⟨.entry found, after, rfl, hsound, ?_⟩
    intro other entry hafter
    right
    obtain ⟨hold, hkept⟩ := (hholds other entry).mp hafter
    exact ⟨hold, fun hremoved => hkept ⟨hremoved.1.symm, hremoved.2⟩⟩
  | insertIf key entry now allowed =>
    obtain ⟨stored, after, hinsert, hsound, hallowed, hholds⟩ :=
      h.insertIf_holds layout key entry now allowed
    dsimp only
    rw [hinsert]
    refine ⟨.flag stored, after, rfl, hsound, ?_⟩
    intro other held hafter
    rcases hholds other held hafter with ⟨rfl, rfl, rfl⟩ | hkept
    · left
      exact ⟨now, by rw [hallowed rfl]⟩
    · right
      exact hkept
  | forgetFailure key =>
    obtain ⟨forgotten, after, hforget, hsound, hholds⟩ :=
      h.forgetFailure_holds key
    dsimp only
    rw [hforget]
    refine ⟨.flag forgotten, after, rfl, hsound, ?_⟩
    intro other entry hafter
    right
    obtain ⟨hold, hkept⟩ := (hholds other entry).mp hafter
    exact ⟨hold, fun hremoved => hkept ⟨hremoved.1.symm, hremoved.2⟩⟩
  | purge name rtype =>
    obtain ⟨removed, after, hpurge, hsound, hholds⟩ := h.purge_holds name rtype
    dsimp only
    rw [hpurge]
    refine ⟨.count removed, after, rfl, hsound, ?_⟩
    intro other entry hafter
    right
    obtain ⟨hold, hkept⟩ := (hholds other entry).mp hafter
    exact ⟨hold, Bool.eq_false_iff.mp hkept⟩
  | purgeSubtree zone =>
    obtain ⟨removed, after, hpurge, hsound, hholds⟩ := h.purgeSubtree_holds zone
    dsimp only
    rw [hpurge]
    refine ⟨.count removed, after, rfl, hsound, ?_⟩
    intro other entry hafter
    right
    obtain ⟨hold, hkept⟩ := (hholds other entry).mp hafter
    exact ⟨hold, Bool.eq_false_iff.mp hkept⟩
  | clear =>
    obtain ⟨removed, after, hclear, hsound, hholds⟩ := h.clear_holds
    dsimp only
    rw [hclear]
    refine ⟨.count removed, after, rfl, hsound, ?_⟩
    intro other entry hafter
    exact absurd hafter (hholds other entry)

theorem Runs.refines {maxBytes parallelism : ℕ} {shards : Option ℕ}
    {events : List StoreEvent}
    (h : (new maxBytes shards parallelism).Runs layout hash events store) :
    store.Sound hash ∧ (mapEvents hash).Runs events store.Holds := by
  induction h with
  | nil =>
    refine ⟨new_sound maxBytes shards parallelism, ?_⟩
    have hnone : (new maxBytes shards parallelism).Holds =
        fun _ _ => False := by
      funext key entry
      exact eq_false (new_not_holds maxBytes shards parallelism key entry)
    rw [hnone]
    exact .nil
  | snoc _ happly ih =>
    obtain ⟨reply, after, hafter, hsound, hstep⟩ := ih.1.apply_refines _
    obtain ⟨rfl, rfl⟩ := Prod.mk.inj (Run.ok.inj (hafter.symm.trans happly))
    exact ⟨hsound, ih.2.snoc hstep⟩

/-- What a lookup returns was put there by the most recent accepted insertion
under exactly this key, nothing has removed or replaced it since, and it is
still to be kept. -/
theorem get_returns_latest_insert {maxBytes parallelism : ℕ}
    {shards : Option ℕ} {events : List StoreEvent} {key : List UInt8}
    {now : ℕ} {entry : CachedAnswer} {after : Store}
    (hruns : (new maxBytes shards parallelism).Runs layout hash events store)
    (hget : store.get (hash key) key now = .ok (some entry, after)) :
    now < entry.staleUntil ∧
      ∃ earlier inserted later,
        events = earlier ++
          ⟨.insertIf key entry inserted true, .flag true⟩ :: later ∧
        ∀ event ∈ later, ¬(mapEvents hash).removes event key entry := by
  obtain ⟨hsound, hmap⟩ := hruns.refines
  obtain ⟨result, changed, hresult, _, hfound, _⟩ := hsound.get_holds key now
  obtain ⟨rfl, rfl⟩ := Prod.mk.inj (Run.ok.inj (hresult.symm.trans hget))
  obtain ⟨hholds, hkeep⟩ := (hfound entry).mp rfl
  obtain ⟨earlier, _, later, hsplit, ⟨inserted, rfl⟩, hlater⟩ :=
    hmap.exists_write hholds
  exact ⟨hkeep, earlier, inserted, later, hsplit, hlater⟩

theorem get_returns_latest_insert_one_key :
    let layout : Layout := ⟨24, 40, 80, 256, 128⟩
    let hash : List UInt8 → UInt64 := fun _ => 7
    let message : Message :=
      ⟨⟨1, true, .query, false, false, true, true, .noError⟩, [], [], [], []⟩
    let entry :=
      CachedAnswer.new ⟨0, 0, ⟨[]⟩, message, 0⟩ message 0 300
    ∃ store after,
      (new 16384 (some 2) 1).Runs layout hash
        [⟨.insertIf [1] entry 10 true, .flag true⟩] store ∧
      store.get (hash [1]) [1] 20 = .ok (some entry, after) ∧
      20 < entry.staleUntil := by
  intro layout hash message entry
  have hcheck : ((new 16384 (some 2) 1).apply layout hash
      (.insertIf [1] entry 10 true)).any (fun applied =>
        decide (applied.1 = .flag true) &&
          (applied.2.get (hash [1]) [1] 20).any fun found =>
            decide (found.1 = some entry)) = true := by
    decide
  obtain ⟨⟨reply, store⟩, happly, hfound⟩ := Run.exists_of_any hcheck
  obtain ⟨hreply, hfound⟩ := Bool.and_eq_true_iff.mp hfound
  obtain ⟨⟨found, after⟩, hget, hentry⟩ := Run.exists_of_any hfound
  obtain rfl : reply = .flag true := of_decide_eq_true hreply
  obtain rfl : found = some entry := of_decide_eq_true hentry
  have hruns : (new 16384 (some 2) 1).Runs layout hash
      ([] ++ [⟨.insertIf [1] entry 10 true, .flag true⟩]) store :=
    .snoc .nil happly
  exact ⟨store, after, hruns, hget, (get_returns_latest_insert hruns hget).1⟩

end Refinement

end Store

end DnsLattice
