import DnsLattice.FakeIpModel
import DnsLattice.InverseMaps
import DnsLattice.Transitions
import Mathlib.Order.Interval.Finset.Nat

/-!
# One family of the Fake IP pool

Every operation of a family is a sequence of three edits: a mapping is
removed, used, or recorded under a new name and a free address.  The two maps
stay inverse to each other under each edit, and so does the numbering of the
mappings by recency until its 64-bit counter has gone round.
-/

namespace DnsLattice

/-! ## Addresses -/

/-- What the family code relies on in an address type. -/
class LawfulAddress (w : ℕ) [Address w] : Prop where
  capacity_eq : ∀ start stop : BitVec w,
    Address.capacity start stop = checkedLength start stop
  exists_candidate : ∀ (start stop : BitVec w) (hash : UInt64), start ≤ stop →
    ∃ address, Address.candidate start stop hash = .ok address ∧
      start ≤ address ∧ address ≤ stop
  advance_eq : ∀ value : BitVec w, Address.advance value = value + 1
  isFull_eq : ∀ (entries : ℕ) (capacity : BitVec w),
    Address.isFull entries capacity = decide (capacity.toNat ≤ entries)

section Candidates

variable {w : ℕ} {start stop : BitVec w}

def rangeSize (start stop : BitVec w) : ℕ := stop.toNat - start.toNat + 1

theorem checkedLength_eq_some {length : BitVec w}
    (h : checkedLength start stop = some length) :
    length.toNat = rangeSize start stop := by
  unfold checkedLength at h
  split_ifs at h with hfits
  obtain rfl := Option.some.inj h
  rw [BitVec.toNat_ofNat, Nat.mod_eq_of_lt hfits.2, rangeSize]

/-- The length of a range is not representable for the whole address space
only. -/
theorem checkedLength_eq_none (hle : start ≤ stop)
    (h : checkedLength start stop = none) : rangeSize start stop = 2 ^ w := by
  unfold checkedLength at h
  have hlt := stop.isLt
  split_ifs at h with hfits
  have hlarge : 2 ^ w ≤ stop.toNat - start.toNat + 1 := by
    by_contra hsmall
    exact hfits ⟨hle, Nat.lt_of_not_le hsmall⟩
  rw [rangeSize]
  omega

theorem exists_offset {offset : ℕ} (hle : start ≤ stop)
    (hoffset : offset < rangeSize start stop) :
    ∃ address : BitVec w,
      (Run.add (2 ^ w) start.toNat offset >>= fun sum =>
        (pure (BitVec.ofNat w sum) : Run Error (BitVec w))) = .ok address ∧
      start ≤ address ∧ address ≤ stop := by
  have hlt := stop.isLt
  have hle' : start.toNat ≤ stop.toNat := hle
  rw [rangeSize] at hoffset
  have hsum : start.toNat + offset < 2 ^ w := by omega
  refine ⟨BitVec.ofNat w (start.toNat + offset), ?_, ?_, ?_⟩
  · rw [Run.add_eq_ok hsum]
    rfl
  · rw [BitVec.le_def, BitVec.toNat_ofNat, Nat.mod_eq_of_lt hsum]
    omega
  · rw [BitVec.le_def, BitVec.toNat_ofNat, Nat.mod_eq_of_lt hsum]
    omega

end Candidates

instance : LawfulAddress 32 where
  capacity_eq _ _ := rfl
  advance_eq _ := rfl
  isFull_eq _ _ := rfl
  exists_candidate start stop hash hle := by
    have hle' : start.toNat ≤ stop.toNat := hle
    have hlt := stop.isLt
    have hoffset : hash.toNat % (stop.toNat - start.toNat + 1) <
        rangeSize start stop := Nat.mod_lt _ (Nat.succ_pos _)
    have hsmall : hash.toNat % (stop.toNat - start.toNat + 1) % 2 ^ 32 =
        hash.toNat % (stop.toNat - start.toNat + 1) := by
      apply Nat.mod_eq_of_lt
      rw [rangeSize] at hoffset
      omega
    have hcandidate : Address.candidate start stop hash =
        (Run.add (2 ^ 32) start.toNat
            (hash.toNat % (stop.toNat - start.toNat + 1)) >>= fun sum =>
          (pure (BitVec.ofNat 32 sum) : Run Error (BitVec 32))) := by
      simp only [Address.candidate]
      rw [Run.sub_eq_ok hle', Run.ok_bind, Run.add_eq_ok (by omega),
        Run.ok_bind, Run.rem_eq_ok (Nat.succ_pos _), Run.ok_bind, hsmall]
    rw [hcandidate]
    exact exists_offset hle hoffset

instance : LawfulAddress 128 where
  capacity_eq _ _ := rfl
  advance_eq _ := rfl
  isFull_eq _ _ := rfl
  exists_candidate start stop hash hle := by
    simp only [Address.candidate]
    cases hlength : checkedLength start stop with
    | none =>
        have hwhole := checkedLength_eq_none hle hlength
        have hlt := stop.isLt
        rw [rangeSize] at hwhole
        -- the range is the whole space, so that every sum lies in it
        refine ⟨start + BitVec.ofNat 128 hash.toNat, rfl, ?_, ?_⟩
        · rw [BitVec.le_def]
          omega
        · have hsum := (start + BitVec.ofNat 128 hash.toNat).isLt
          rw [BitVec.le_def]
          omega
    | some length =>
        have hvalue := checkedLength_eq_some hlength
        have hpos : 0 < length.toNat := by
          rw [hvalue]
          exact Nat.succ_pos _
        dsimp only
        rw [Run.rem_eq_ok hpos, Run.ok_bind]
        refine exists_offset hle ?_
        rw [← hvalue]
        exact Nat.mod_lt _ hpos

instance (family : IpFamily) : LawfulAddress family.width :=
  match family with
  | .ipv4 => inferInstanceAs (LawfulAddress 32)
  | .ipv6 => inferInstanceAs (LawfulAddress 128)

/-! ## Edits -/

namespace FamilyState

variable {w : ℕ} {state after : FamilyState w} {name : Name}

def Linked (state : FamilyState w) : Prop :=
  InverseMaps (fun entry : Name × Mapping w => entry.2.address) Prod.fst
    Name.lowercasedLabels state.forward state.reverse

structure Inv (state : FamilyState w) : Prop where
  ordered : state.start ≤ state.stop
  linked : state.Linked
  inside : ∀ key entry, state.forward.lookup key = some entry →
    state.contains entry.2.address = true

/-- The recencies handed out are the numbers of the touches, until the counter
has gone round. -/
structure Numbered (state : FamilyState w) : Prop where
  next : state.nextRecency.toNat = state.touches % 2 ^ 64
  used : state.touches ≤ 2 ^ 64 → ∀ key entry,
    state.forward.lookup key = some entry →
      entry.2.recency.toNat < state.touches
  distinct : state.touches ≤ 2 ^ 64 → ∀ key key' entry entry',
    state.forward.lookup key = some entry →
      state.forward.lookup key' = some entry' →
        entry.2.recency = entry'.2.recency → key = key'

/-- What the operations do to a state.  A hash map may be walked in any order
at any time. -/
inductive Edit : FamilyState w → FamilyState w → Prop
  | remove {state : FamilyState w} {name : Name}
      {entry : Name × Mapping w}
      (hentry : state.mappingOf name = some entry) :
      Edit state (state.removed name entry.2)
  | refresh {state : FamilyState w} {name : Name}
      {entry : Name × Mapping w}
      (hentry : state.mappingOf name = some entry) :
      Edit state (state.refreshed entry.1 entry.2)
  | record {state : FamilyState w} {name : Name} {address : BitVec w}
      {expiresAt : ℕ} (hname : state.mappingOf name = none)
      (haddress : state.reverse.lookup address = none)
      (hinside : state.contains address = true) :
      Edit state (state.record name address expiresAt)
  | reorder {state : FamilyState w} {forward : NameMap (Mapping w)}
      {reverse : AList fun _ : BitVec w => Name}
      (hforward : state.forward.entries.Perm forward.entries)
      (hreverse : state.reverse.entries.Perm reverse.entries) :
      Edit state { state with forward := forward, reverse := reverse }

theorem Inv.key_eq (h : state.Inv) {key : List Label}
    {entry : Name × Mapping w} (hentry : state.forward.lookup key = some entry) :
    entry.1.lowercasedLabels = key :=
  (h.linked.there hentry).2

theorem Inv.lookup_reverse (h : state.Inv) {key : List Label}
    {entry : Name × Mapping w} (hentry : state.forward.lookup key = some entry) :
    state.reverse.lookup entry.2.address = some entry.1 :=
  (h.linked.there hentry).1

theorem lookup_removed (state : FamilyState w) (name : Name)
    (mapping : Mapping w) (key : List Label) :
    (state.removed name mapping).forward.lookup key =
      if key = name.lowercasedLabels then none
      else state.forward.lookup key := by
  by_cases hkey : key = name.lowercasedLabels
  · rw [if_pos hkey, hkey]
    exact AList.lookup_erase _ _
  · rw [if_neg hkey]
    exact AList.lookup_erase_ne hkey

theorem lookup_refreshed (state : FamilyState w) (name : Name)
    (mapping : Mapping w) (key : List Label) :
    (state.refreshed name mapping).forward.lookup key =
      if key = name.lowercasedLabels then
        some (name, { mapping with recency := state.nextRecency })
      else state.forward.lookup key := by
  by_cases hkey : key = name.lowercasedLabels
  · rw [if_pos hkey, hkey]
    exact AList.lookup_insert _
  · rw [if_neg hkey]
    exact AList.lookup_insert_ne hkey

theorem lookup_record (state : FamilyState w) (name : Name)
    (address : BitVec w) (expiresAt : ℕ) (key : List Label) :
    (state.record name address expiresAt).forward.lookup key =
      if key = name.lowercasedLabels then
        some (name,
          ⟨address, state.nextRecency, state.nextAllocation, expiresAt⟩)
      else state.forward.lookup key := by
  by_cases hkey : key = name.lowercasedLabels
  · rw [if_pos hkey, hkey]
    exact AList.lookup_insert _
  · rw [if_neg hkey]
    exact AList.lookup_insert_ne hkey

theorem Edit.inv (hedit : Edit state after) (h : state.Inv) : after.Inv := by
  cases hedit with
  | remove hentry =>
    refine ⟨h.ordered, h.linked.erase hentry, ?_⟩
    intro key entry hlookup
    rw [lookup_removed] at hlookup
    split_ifs at hlookup
    exact h.inside key entry hlookup
  | @refresh name entry hentry =>
    have hkey := h.key_eq hentry
    refine ⟨h.ordered, ?_, ?_⟩
    · rw [mappingOf, ← hkey] at hentry
      exact h.linked.update hentry rfl rfl
    · intro key found hlookup
      rw [lookup_refreshed] at hlookup
      split_ifs at hlookup
      · obtain rfl := Option.some.inj hlookup
        exact h.inside _ entry hentry
      · exact h.inside key found hlookup
  | record hname haddress hinside =>
    refine ⟨h.ordered, h.linked.insert hname haddress rfl, ?_⟩
    intro key found hlookup
    rw [lookup_record] at hlookup
    split_ifs at hlookup
    · obtain rfl := Option.some.inj hlookup
      exact hinside
    · exact h.inside key found hlookup
  | reorder hforward hreverse =>
    refine ⟨h.ordered, h.linked.perm hforward hreverse, ?_⟩
    intro key entry hlookup
    rw [← AList.perm_lookup hforward] at hlookup
    exact h.inside key entry hlookup

theorem Numbered.nextRecency_toNat (h : state.Numbered)
    (htouches : state.touches < 2 ^ 64) :
    state.nextRecency.toNat = state.touches := by
  rw [h.next, Nat.mod_eq_of_lt htouches]

theorem Numbered.next_touch (h : state.Numbered) :
    (state.nextRecency + 1).toNat = (state.touches + 1) % 2 ^ 64 := by
  rw [UInt64.toNat_add, h.next]
  simp [Nat.add_mod]

theorem Numbered.write (h : state.Numbered) {after : FamilyState w}
    {key : List Label} {written : Name × Mapping w}
    (hnext : after.nextRecency = state.nextRecency + 1)
    (htouches : after.touches = state.touches + 1)
    (hrecency : written.2.recency = state.nextRecency)
    (hlookup : ∀ other, after.forward.lookup other =
      if other = key then some written else state.forward.lookup other) :
    after.Numbered := by
  refine ⟨by rw [hnext, htouches, h.next_touch], ?_, ?_⟩
  · intro hle other entry hentry
    have hroom : state.touches < 2 ^ 64 := by omega
    rw [hlookup] at hentry
    split_ifs at hentry
    · obtain rfl := Option.some.inj hentry
      rw [hrecency, h.nextRecency_toNat hroom]
      omega
    · have := h.used hroom.le other entry hentry
      omega
  · intro hle first second entry entry' hfirst hsecond heq
    have hroom : state.touches < 2 ^ 64 := by omega
    -- no older mapping has the number which is handed out
    have holder : ∀ other entry, state.forward.lookup other = some entry →
        entry.2.recency ≠ state.nextRecency := by
      intro other entry hentry hsame
      have hlt := h.used hroom.le other entry hentry
      rw [hsame, h.nextRecency_toNat hroom] at hlt
      omega
    rw [hlookup] at hfirst hsecond
    split_ifs at hfirst hsecond with hkey hkey' hkey'
    · rw [hkey, hkey']
    · obtain rfl := Option.some.inj hfirst
      exact absurd (heq.symm.trans hrecency) (holder _ _ hsecond)
    · obtain rfl := Option.some.inj hsecond
      exact absurd (heq.trans hrecency) (holder _ _ hfirst)
    · exact h.distinct hroom.le _ _ _ _ hfirst hsecond heq

theorem Edit.numbered (hedit : Edit state after) (h : state.Numbered) :
    after.Numbered := by
  cases hedit with
  | remove hentry =>
    refine ⟨h.next, ?_, ?_⟩
    · intro hle key entry hlookup
      rw [lookup_removed] at hlookup
      split_ifs at hlookup
      exact h.used hle key entry hlookup
    · intro hle key key' entry entry' hlookup hlookup' heq
      rw [lookup_removed] at hlookup hlookup'
      split_ifs at hlookup hlookup'
      exact h.distinct hle _ _ _ _ hlookup hlookup' heq
  | refresh hentry => exact h.write rfl rfl rfl (lookup_refreshed _ _ _)
  | record hname haddress hinside =>
    exact h.write rfl rfl rfl (lookup_record _ _ _ _)
  | reorder hforward hreverse =>
    refine ⟨h.next, ?_, ?_⟩
    · intro hle key entry hlookup
      rw [← AList.perm_lookup hforward] at hlookup
      exact h.used hle key entry hlookup
    · intro hle key key' entry entry' hlookup hlookup' heq
      rw [← AList.perm_lookup hforward] at hlookup hlookup'
      exact h.distinct hle _ _ _ _ hlookup hlookup' heq

/-! ## Expiry -/

structure Reduced (state reduced : FamilyState w)
    (kept : List Label → Name × Mapping w → Bool) : Prop where
  edits : Relation.ReflTransGen Edit state reduced
  lookup : ∀ key, reduced.forward.lookup key =
    (state.forward.lookup key).filter (kept key)
  start_eq : reduced.start = state.start
  stop_eq : reduced.stop = state.stop
  nextRecency_eq : reduced.nextRecency = state.nextRecency
  nextAllocation_eq : reduced.nextAllocation = state.nextAllocation
  touches_eq : reduced.touches = state.touches

/-- The state without the mappings which have expired at `now`. -/
def Purged (state : FamilyState w) (now : ℕ) (purged : FamilyState w) : Prop :=
  Reduced state purged fun _ entry => decide (now < entry.2.expiresAt)

theorem filter_true_eq {α : Type} (value : Option α) :
    value.filter (fun _ => true) = value := by
  cases value <;> rfl

theorem Reduced.refl (state : FamilyState w) :
    Reduced state state fun _ _ => true :=
  ⟨.refl, fun _ => (filter_true_eq _).symm, rfl, rfl, rfl, rfl, rfl⟩

theorem inv_of_edits (h : state.Inv)
    (hedits : Relation.ReflTransGen Edit state after) : after.Inv :=
  invariant_of_reaches h (fun _ _ hinv hedit => hedit.inv hinv) hedits

theorem numbered_of_edits (h : state.Numbered)
    (hedits : Relation.ReflTransGen Edit state after) : after.Numbered :=
  invariant_of_reaches h (fun _ _ hnum hedit => hedit.numbered hnum) hedits

theorem Reduced.inv {reduced : FamilyState w}
    {kept : List Label → Name × Mapping w → Bool}
    (hreduced : Reduced state reduced kept) (h : state.Inv) : reduced.Inv :=
  inv_of_edits h hreduced.edits

theorem reduced_removed {entry : Name × Mapping w}
    (hentry : state.mappingOf name = some entry) :
    Reduced state (state.removed name entry.2) fun key _ =>
      decide (key ≠ name.lowercasedLabels) where
  edits := .single (.remove hentry)
  lookup key := by
    rw [lookup_removed]
    by_cases hkey : key = name.lowercasedLabels
    · simp [hkey]
    · simp [hkey, filter_true_eq]
  start_eq := rfl
  stop_eq := rfl
  nextRecency_eq := rfl
  nextAllocation_eq := rfl
  touches_eq := rfl

theorem Reduced.trans {middle last : FamilyState w}
    {kept kept' : List Label → Name × Mapping w → Bool}
    (h : Reduced state middle kept) (h' : Reduced middle last kept') :
    Reduced state last fun key entry => kept key entry && kept' key entry where
  edits := h.edits.trans h'.edits
  lookup key := by
    rw [h'.lookup, h.lookup, Option.filter_filter]
  start_eq := h'.start_eq.trans h.start_eq
  stop_eq := h'.stop_eq.trans h.stop_eq
  nextRecency_eq := h'.nextRecency_eq.trans h.nextRecency_eq
  nextAllocation_eq := h'.nextAllocation_eq.trans h.nextAllocation_eq
  touches_eq := h'.touches_eq.trans h.touches_eq

theorem foldlM_remove (names : List Name) :
    ∀ state : FamilyState w,
      (names.map Name.lowercasedLabels).Nodup →
      (∀ name ∈ names, (state.mappingOf name).isSome) →
      ∃ reduced, names.foldlM remove state = .ok reduced ∧
        Reduced state reduced fun key _ =>
          decide (key ∉ names.map Name.lowercasedLabels) := by
  induction names with
  | nil =>
    intro state _ _
    refine ⟨state, rfl, ?_⟩
    simpa using Reduced.refl state
  | cons name rest ih =>
    intro state hnodup hpresent
    rw [List.map_cons, List.nodup_cons] at hnodup
    obtain ⟨entry, hentry⟩ :=
      Option.isSome_iff_exists.mp (hpresent name (by simp))
    have hremoved := reduced_removed hentry
    obtain ⟨reduced, hfold, hreduced⟩ :=
      ih (state.removed name entry.2) hnodup.2 (by
        intro other hother
        have hne : other.lowercasedLabels ≠ name.lowercasedLabels := by
          intro heq
          exact hnodup.1 (heq ▸ List.mem_map_of_mem hother)
        rw [mappingOf, lookup_removed, if_neg hne]
        exact hpresent other (by simp [hother]))
    refine ⟨reduced, ?_, ?_⟩
    · rw [List.foldlM_cons, remove, hentry]
      exact hfold
    · have htrans := hremoved.trans hreduced
      simpa [not_or] using htrans

/-- The names collected for removal are the keys of the expired mappings. -/
theorem Inv.map_expired (h : state.Inv) (now : ℕ) :
    (state.expired now).map Name.lowercasedLabels =
      (state.forward.entries.filter fun entry =>
        entry.2.2.expiresAt ≤ now).map Sigma.fst := by
  rw [expired, List.map_map]
  refine List.map_congr_left ?_
  intro entry hentry
  exact h.key_eq (lookup_of_mem_entries (List.mem_filter.mp hentry).1)

theorem purgeExpired_spec (h : state.Inv) (now : ℕ) :
    ∃ purged, state.purgeExpired now =
        .ok ((state.expired now).length, purged) ∧
      Purged state now purged := by
  obtain ⟨purged, hfold, hreduced⟩ := foldlM_remove (state.expired now) state
    (by
      rw [h.map_expired]
      exact List.Nodup.sublist (List.filter_sublist.map Sigma.fst)
        state.forward.nodupKeys)
    (by
      intro name hname
      obtain ⟨entry, hentry, rfl⟩ := List.mem_map.mp hname
      have hlookup := lookup_of_mem_entries (List.mem_filter.mp hentry).1
      rw [mappingOf, h.key_eq hlookup, hlookup]
      rfl)
  refine ⟨purged, by rw [purgeExpired, hfold]; rfl, ?_⟩
  refine { hreduced with lookup := ?_ }
  intro key
  rw [hreduced.lookup, h.map_expired]
  cases hkey : state.forward.lookup key with
  | none => rfl
  | some entry =>
    have hiff : key ∉ (state.forward.entries.filter fun entry =>
        entry.2.2.expiresAt ≤ now).map Sigma.fst ↔
          now < entry.2.expiresAt := by
      rw [← Nat.not_le, not_iff_not]
      constructor
      · intro hmem
        obtain ⟨found, hfound, rfl⟩ := List.mem_map.mp hmem
        obtain ⟨hmem, hexpired⟩ := List.mem_filter.mp hfound
        have hlookup := lookup_of_mem_entries hmem
        rw [hkey] at hlookup
        rw [Option.some.inj hlookup]
        exact of_decide_eq_true hexpired
      · intro hexpired
        exact List.mem_map.mpr ⟨⟨key, entry⟩,
          List.mem_filter.mpr ⟨AList.mem_lookup_iff.mp hkey,
            decide_eq_true hexpired⟩, rfl⟩
    simp only [Option.filter_some, decide_eq_decide.mpr hiff]

/-! ## Room for one more name -/

/-- The number of mappings. -/
def size (state : FamilyState w) : ℕ := state.forward.entries.length

theorem Reduced.size_le {reduced : FamilyState w}
    {kept : List Label → Name × Mapping w → Bool}
    (h : Reduced state reduced kept) : reduced.size ≤ state.size := by
  have hsubset : reduced.forward.keys ⊆ state.forward.keys := by
    intro key hkey
    rw [← AList.mem_keys, ← AList.lookup_isSome, h.lookup] at hkey
    rw [← AList.mem_keys, ← AList.lookup_isSome]
    cases hlookup : state.forward.lookup key with
    | none => simp [hlookup] at hkey
    | some entry => rfl
  have hle := (reduced.forward.nodupKeys.subperm hsubset).length_le
  simpa [AList.keys, List.keys, size] using hle

theorem size_removed {entry : Name × Mapping w}
    (hentry : state.mappingOf name = some entry) :
    (state.removed name entry.2).size + 1 = state.size := by
  have hmem : name.lowercasedLabels ∈ state.forward.keys := by
    rw [← AList.mem_keys, ← AList.lookup_isSome]
    exact Option.isSome_of_mem hentry
  obtain ⟨_, before, behind, _, hsplit, herase⟩ := List.exists_of_kerase hmem
  change (state.forward.entries.kerase name.lowercasedLabels).length + 1 =
    state.forward.entries.length
  rw [herase, hsplit]
  simp only [List.length_append, List.length_cons]
  omega

def addresses (state : FamilyState w) : Finset (BitVec w) :=
  (Finset.Icc state.start.toNat state.stop.toNat).image (BitVec.ofNat w)

theorem contains_iff {address : BitVec w} :
    state.contains address = true ↔
      state.start.toNat ≤ address.toNat ∧
        address.toNat ≤ state.stop.toNat := by
  simp [contains, BitVec.le_def]

theorem mem_addresses {address : BitVec w} :
    address ∈ state.addresses ↔ state.contains address = true := by
  have hlt := state.stop.isLt
  rw [contains_iff]
  constructor
  · intro hmem
    obtain ⟨value, hvalue, rfl⟩ := Finset.mem_image.mp hmem
    rw [Finset.mem_Icc] at hvalue
    rw [BitVec.toNat_ofNat, Nat.mod_eq_of_lt (by omega)]
    exact hvalue
  · intro hinside
    refine Finset.mem_image.mpr ⟨address.toNat, Finset.mem_Icc.mpr hinside, ?_⟩
    exact BitVec.eq_of_toNat_eq (by simp)

theorem Inv.card_addresses (h : state.Inv) :
    state.addresses.card = rangeSize state.start state.stop := by
  have hlt := state.stop.isLt
  have hle : state.start.toNat ≤ state.stop.toNat := h.ordered
  rw [addresses, Finset.card_image_of_injOn, Nat.card_Icc, rangeSize]
  · omega
  · intro first hfirst second hsecond heq
    rw [Finset.coe_Icc, Set.mem_Icc] at hfirst hsecond
    have hvalue := congrArg BitVec.toNat heq
    rwa [BitVec.toNat_ofNat, BitVec.toNat_ofNat,
      Nat.mod_eq_of_lt (by omega), Nat.mod_eq_of_lt (by omega)] at hvalue

theorem Inv.size_le (h : state.Inv) :
    state.size ≤ rangeSize state.start state.stop := by
  rw [← h.card_addresses]
  exact h.linked.length_le_card fun key entry hentry =>
    mem_addresses.mpr (h.inside key entry hentry)

section Allocation

variable [Address w] [LawfulAddress w]

theorem isFull_eq (state : FamilyState w) :
    state.isFull = (checkedLength state.start state.stop).any fun length =>
      decide (length.toNat ≤ state.size) := by
  rw [isFull, capacity, LawfulAddress.capacity_eq]
  congr 1
  funext length
  exact LawfulAddress.isFull_eq _ _

/-- What `makeRoom` does to a state: nothing, or the least recently used
mapping goes. -/
inductive Room (state : FamilyState w) : FamilyState w → Prop
  | spare (hfull : state.isFull = false) : Room state state
  | evicted {entry : Sigma fun _ : List Label => Name × Mapping w}
      (hfull : state.isFull = true) (holdest : state.oldest = some entry) :
      Room state (state.removed entry.2.1 entry.2.2)

omit [Address w] [LawfulAddress w] in
theorem Inv.mappingOf_oldest (h : state.Inv)
    {entry : Sigma fun _ : List Label => Name × Mapping w}
    (holdest : state.oldest = some entry) :
    state.mappingOf entry.2.1 = some entry.2 := by
  have hlookup := lookup_of_mem_entries (List.argmin_mem holdest)
  rw [mappingOf, h.key_eq hlookup, hlookup]

theorem makeRoom_spec (h : state.Inv) :
    ∃ roomy, state.makeRoom = .ok roomy ∧ Room state roomy := by
  rw [makeRoom]
  cases hfull : state.isFull with
  | false => exact ⟨state, rfl, .spare hfull⟩
  | true =>
    cases holdest : state.oldest with
    | none =>
      rw [oldest, List.argmin_eq_none] at holdest
      rw [isFull_eq, size, holdest] at hfull
      cases hlength : checkedLength state.start state.stop with
      | none => simp [hlength] at hfull
      | some length =>
        have hvalue := checkedLength_eq_some hlength
        rw [rangeSize] at hvalue
        rw [hlength, Option.any_some, decide_eq_true_eq,
          List.length_nil] at hfull
        omega
    | some entry =>
      refine ⟨_, ?_, .evicted hfull holdest⟩
      rw [if_pos rfl, evictLru, holdest]
      simp only [remove]
      rw [h.mappingOf_oldest holdest]

omit [LawfulAddress w] in
theorem Room.edits {roomy : FamilyState w} (hroom : Room state roomy)
    (h : state.Inv) : Relation.ReflTransGen Edit state roomy := by
  cases hroom with
  | spare hfull => exact .refl
  | evicted hfull holdest =>
    exact .single (.remove (h.mappingOf_oldest holdest))

/-- After making room there are fewer mappings than addresses, unless all
addresses of the whole space are mapped. -/
theorem Room.size_lt {roomy : FamilyState w} (hroom : Room state roomy)
    (h : state.Inv) (hsize : state.size < 2 ^ w) :
    roomy.size < rangeSize roomy.start roomy.stop := by
  cases hroom with
  | spare hfull =>
    rw [isFull_eq] at hfull
    cases hlength : checkedLength state.start state.stop with
    | none =>
      rw [checkedLength_eq_none h.ordered hlength]
      exact hsize
    | some length =>
      rw [hlength, Option.any_some, decide_eq_false_iff_not,
        checkedLength_eq_some hlength] at hfull
      exact Nat.lt_of_not_le hfull
  | @evicted entry hfull holdest =>
    have hremoved := size_removed (h.mappingOf_oldest holdest)
    have hle := h.size_le
    have hrange : rangeSize (state.removed entry.2.1 entry.2.2).start
        (state.removed entry.2.1 entry.2.2).stop =
          rangeSize state.start state.stop := rfl
    omega

/-! ## The probe -/

def distance (state : FamilyState w) (address target : BitVec w) : ℕ :=
  if address.toNat ≤ target.toNat then target.toNat - address.toNat
  else state.stop.toNat - address.toNat + (target.toNat - state.start.toNat) + 1

/-- One step of the walk stays in the range and comes nearer to every other
address. -/
theorem walk_step {address : BitVec w}
    (hinside : state.contains address = true) :
    state.contains (state.following address) = true ∧
      ∀ target, state.contains target = true → target ≠ address →
        state.distance (state.following address) target <
          state.distance address target := by
  have hstop := state.stop.isLt
  rw [contains_iff] at hinside
  rw [following]
  by_cases hend : address = state.stop
  · subst hend
    rw [if_pos rfl]
    refine ⟨contains_iff.mpr ⟨le_rfl, hinside.1⟩, ?_⟩
    intro target htarget hne
    rw [contains_iff] at htarget
    have hne' : target.toNat ≠ state.stop.toNat :=
      fun heq => hne (BitVec.eq_of_toNat_eq heq)
    rw [distance, if_pos htarget.1, distance, if_neg (by omega)]
    omega
  · rw [if_neg hend]
    have hne' : address.toNat ≠ state.stop.toNat :=
      fun heq => hend (BitVec.eq_of_toNat_eq heq)
    have hadvance : (Address.advance address).toNat = address.toNat + 1 := by
      have hone : (1 : ℕ) < 2 ^ w := by omega
      rw [LawfulAddress.advance_eq, BitVec.toNat_add]
      simp only [BitVec.ofNat_eq_ofNat, BitVec.toNat_ofNat]
      rw [Nat.mod_eq_of_lt hone, Nat.mod_eq_of_lt (by omega)]
    refine ⟨contains_iff.mpr (by omega), ?_⟩
    intro target htarget hne
    rw [contains_iff] at htarget
    have hne' : target.toNat ≠ address.toNat :=
      fun heq => hne (BitVec.eq_of_toNat_eq heq)
    rw [distance, distance, hadvance]
    split_ifs <;> omega

theorem free_of_probe {address found : BitVec w}
    (hinside : state.contains address = true)
    (hprobe : state.probe address = .ok found) :
    state.contains found = true ∧ state.reverse.lookup found = none := by
  refine Run.loop_result (fun address => state.contains address = true)
    (fun found => state.contains found = true ∧
      state.reverse.lookup found = none) ?_ ?_ hinside hprobe
  · intro point next hpoint hstep
    rw [probeStep] at hstep
    split_ifs at hstep
    · obtain rfl := Sum.inl.inj (Run.ok.inj hstep)
      exact (walk_step hpoint).1
    · cases Run.ok.inj hstep
  · intro point value hpoint hstep
    rw [probeStep] at hstep
    split_ifs at hstep with htaken
    · cases Run.ok.inj hstep
    · obtain rfl := Sum.inr.inj (Run.ok.inj hstep)
      exact ⟨hpoint, Option.not_isSome_iff_eq_none.mp htaken⟩

theorem probe_finds {address free : BitVec w}
    (hinside : state.contains address = true)
    (hfree : state.contains free = true)
    (hnone : state.reverse.lookup free = none) :
    ∃ found, state.probe address = .ok found := by
  have hround : ∀ point, state.contains point = true →
      (∃ next, state.probeStep point = .ok (.inl next) ∧
        state.contains next = true ∧
        state.distance next free < state.distance point free) ∨
      ∃ found, state.probeStep point = .ok (.inr found) ∧ True := by
    intro point hpoint
    rw [probeStep]
    by_cases htaken : (state.reverse.lookup point).isSome
    · left
      obtain ⟨hnext, hnear⟩ := walk_step hpoint
      refine ⟨_, if_pos htaken, hnext, hnear free hfree ?_⟩
      intro heq
      rw [← heq, hnone] at htaken
      cases htaken
    · exact .inr ⟨point, if_neg htaken, trivial⟩
  have hfuel : state.distance address free < 2 ^ w + 1 := by
    have hstop := state.stop.isLt
    rw [contains_iff] at hinside hfree
    rw [distance]
    split_ifs <;> omega
  obtain ⟨found, hfound, _⟩ := Run.exists_loop_of_measure
    (fun address => state.contains address = true)
    (fun address => state.distance address free) (fun _ => True) hround
    hinside hfuel
  exact ⟨found, hfound⟩

/-! ## The operations -/

/-- What a successful `assign` has done. -/
structure Assigned (state : FamilyState w) (name : Name) (salt : UInt64)
    (address : BitVec w) (roomy : FamilyState w) : Prop where
  room : Room state roomy
  probed : ∃ candidate, roomy.candidate (fnv1a name salt) = .ok candidate ∧
    roomy.contains candidate = true ∧ roomy.probe candidate = .ok address
  inside : roomy.contains address = true
  free : roomy.reverse.lookup address = none

theorem Inv.exists_candidate (h : state.Inv) (hash : UInt64) :
    ∃ candidate, state.candidate hash = .ok candidate ∧
      state.contains candidate = true := by
  obtain ⟨candidate, hcandidate, hge, hle⟩ :=
    LawfulAddress.exists_candidate state.start state.stop hash h.ordered
  exact ⟨candidate, hcandidate, decide_eq_true ⟨hge, hle⟩⟩

theorem assign_eq_ok {salt : UInt64} {expiresAt : ℕ} {address : BitVec w}
    (h : state.Inv)
    (hok : state.assign name salt expiresAt = .ok (address, after)) :
    ∃ roomy, Assigned state name salt address roomy ∧
      after = roomy.record name address expiresAt := by
  obtain ⟨roomy, hmake, hroom⟩ := makeRoom_spec h
  have hinv := inv_of_edits h (hroom.edits h)
  obtain ⟨candidate, hcandidate, hinside⟩ :=
    hinv.exists_candidate (fnv1a name salt)
  rw [assign, hmake, Run.ok_bind, hcandidate, Run.ok_bind] at hok
  obtain ⟨found, hprobe, hrest⟩ := Run.bind_eq_ok_iff.mp hok
  obtain ⟨rfl, rfl⟩ := Prod.mk.inj (Run.ok.inj hrest)
  obtain ⟨hin, hfree⟩ := free_of_probe hinside hprobe
  exact ⟨roomy, ⟨hroom, ⟨candidate, hcandidate, hinside, hprobe⟩, hin, hfree⟩,
    rfl⟩

theorem assign_returns (h : state.Inv) (hsize : state.size < 2 ^ w)
    (name : Name) (salt : UInt64) (expiresAt : ℕ) :
    ∃ result, state.assign name salt expiresAt = .ok result := by
  obtain ⟨roomy, hmake, hroom⟩ := makeRoom_spec h
  have hinv := inv_of_edits h (hroom.edits h)
  obtain ⟨candidate, hcandidate, hinside⟩ :=
    hinv.exists_candidate (fnv1a name salt)
  obtain ⟨free, hmem, hnone⟩ := hinv.linked.exists_free (by
    rw [hinv.card_addresses]
    exact hroom.size_lt h hsize)
  obtain ⟨found, hprobe⟩ := probe_finds hinside (mem_addresses.mp hmem) hnone
  refine ⟨(found, roomy.record name found expiresAt), ?_⟩
  rw [assign, hmake, Run.ok_bind, hcandidate, Run.ok_bind, hprobe]
  rfl

/-- What a successful `allocateWithTtl` returns and leaves. -/
inductive Allocated (state : FamilyState w) (name : Name) (salt : UInt64)
    (now ttl expiresAt : ℕ) : BitVec w → ℕ → FamilyState w → Prop
  | reused {purged : FamilyState w} {entry : Name × Mapping w}
      (hpurged : Purged state now purged)
      (hentry : purged.mappingOf name = some entry)
      (hlive : now < entry.2.expiresAt) :
      Allocated state name salt now ttl expiresAt entry.2.address
        (entry.2.expiresAt - now) (purged.refreshed entry.1 entry.2)
  | assigned {purged roomy : FamilyState w} {address : BitVec w}
      (hpurge : state.purgeExpired now =
        .ok ((state.expired now).length, purged))
      (hpurged : Purged state now purged)
      (hname : purged.mappingOf name = none)
      (hassigned : Assigned purged name salt address roomy) :
      Allocated state name salt now ttl expiresAt address ttl
        (roomy.record name address expiresAt)

omit [Address w] [LawfulAddress w] in
/-- A mapping which survived the purge is read without a failed `expect`. -/
theorem Purged.refresh_eq {purged : FamilyState w} {now : ℕ}
    (hpurged : Purged state now purged) {key : List Label}
    {entry : Name × Mapping w} (hentry : purged.forward.lookup key = some entry) :
    now < entry.2.expiresAt ∧ purged.refresh entry.1 entry.2 now =
      .ok (entry.2.expiresAt - now, purged.refreshed entry.1 entry.2) := by
  rw [hpurged.lookup, Option.filter_eq_some_iff] at hentry
  have hlive : now < entry.2.expiresAt := of_decide_eq_true hentry.2
  refine ⟨hlive, ?_⟩
  rw [refresh, durationSince, if_pos hlive.le]

theorem allocateWithTtl_eq_ok {instantMax now ttl lifetime : ℕ}
    {salt : UInt64} {address : BitVec w} (h : state.Inv)
    (hok : state.allocateWithTtl instantMax name salt now ttl =
      .ok ((address, lifetime), after)) :
    now + ttl ≤ instantMax ∧
      Allocated state name salt now ttl (now + ttl) address lifetime after := by
  rw [allocateWithTtl, instantAdd] at hok
  split_ifs at hok with hfits
  refine ⟨hfits, ?_⟩
  obtain ⟨purged, hpurge, hpurged⟩ := purgeExpired_spec h now
  simp only [hpurge, Run.ok_bind] at hok
  cases hname : purged.mappingOf name with
  | none =>
    rw [hname] at hok
    obtain ⟨result, hassign, hrest⟩ := Run.bind_eq_ok_iff.mp hok
    obtain ⟨hreply, rfl⟩ := Prod.mk.inj (Run.ok.inj hrest)
    obtain ⟨rfl, rfl⟩ := Prod.mk.inj hreply
    obtain ⟨roomy, hassigned, hafter⟩ := assign_eq_ok (hpurged.inv h) hassign
    rw [hafter]
    exact .assigned hpurge hpurged hname hassigned
  | some entry =>
    obtain ⟨hlive, hrefresh⟩ := hpurged.refresh_eq hname
    simp only [hname, hrefresh, Run.ok_bind] at hok
    obtain ⟨hreply, rfl⟩ := Prod.mk.inj (Run.ok.inj hok)
    obtain ⟨rfl, rfl⟩ := Prod.mk.inj hreply
    exact .reused hpurged hname hlive

theorem allocateWithTtl_returns (h : state.Inv) (hsize : state.size < 2 ^ w)
    (instantMax : ℕ) (name : Name) (salt : UInt64) (now ttl : ℕ) :
    (state.allocateWithTtl instantMax name salt now ttl).Returns := by
  rw [allocateWithTtl]
  cases instantAdd instantMax now ttl with
  | none => exact .inr ⟨_, rfl⟩
  | some expiresAt =>
    obtain ⟨purged, hpurge, hpurged⟩ := purgeExpired_spec h now
    simp only [hpurge, Run.ok_bind]
    left
    cases hname : purged.mappingOf name with
    | none =>
      obtain ⟨result, hassign⟩ := assign_returns (hpurged.inv h)
        (hpurged.size_le.trans_lt hsize) name salt expiresAt
      simp only [hassign, Run.ok_bind]
      exact ⟨_, rfl⟩
    | some entry =>
      simp only [(hpurged.refresh_eq hname).2, Run.ok_bind]
      exact ⟨_, rfl⟩

end Allocation

/-- What `lookupWithTtl` returns and leaves. -/
inductive LookedUp (state : FamilyState w) (address : BitVec w) (now : ℕ) :
    Option (Name × ℕ) → FamilyState w → Prop
  | missing {purged : FamilyState w} (hpurged : Purged state now purged)
      (hfree : purged.reverse.lookup address = none) :
      LookedUp state address now none purged
  | found {purged : FamilyState w} {entry : Name × Mapping w}
      (hpurged : Purged state now purged)
      (hentry : purged.mappingOf entry.1 = some entry)
      (haddress : entry.2.address = address)
      (hlive : now < entry.2.expiresAt) :
      LookedUp state address now
        (some (entry.1, entry.2.expiresAt - now))
        (purged.refreshed entry.1 entry.2)

theorem Inv.contains_of_lookup_reverse (h : state.Inv) {address : BitVec w}
    (hsome : state.reverse.lookup address = some name) :
    state.contains address = true := by
  obtain ⟨entry, hentry, rfl, _⟩ := h.linked.exists_value hsome
  exact h.inside _ entry hentry

theorem lookupWithTtl_spec (h : state.Inv) (address : BitVec w) (now : ℕ) :
    ∃ reply after, state.lookupWithTtl address now = .ok (reply, after) ∧
      LookedUp state address now reply after := by
  obtain ⟨purged, hpurge, hpurged⟩ := purgeExpired_spec h now
  have hinv := hpurged.inv h
  simp only [lookupWithTtl, hpurge, Run.ok_bind]
  cases hname : purged.reverse.lookup address with
  | none => exact ⟨none, purged, by simp, .missing hpurged hname⟩
  | some name =>
    obtain ⟨entry, hentry, haddress, rfl⟩ := hinv.linked.exists_value hname
    obtain ⟨hlive, hrefresh⟩ := hpurged.refresh_eq hentry
    refine ⟨_, _, ?_, .found hpurged hentry haddress hlive⟩
    rw [if_pos (hinv.contains_of_lookup_reverse hname)]
    simp only [mappingOf, hentry, hrefresh, Run.ok_bind]
    rfl

end FamilyState

end DnsLattice
