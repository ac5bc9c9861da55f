import DnsLattice.MessageModel
import DnsLattice.RunMonad
import Mathlib.Data.List.AList

/-!
# The table of queries awaiting an answer

Each connection keeps the queries it has sent under their wire ids.  A query
which is cancelled leaves a tombstone, so that its id stays reserved for a
while; tombstones go when they expire, when their late answer arrives, or when
a full table needs a slot for a new query.

The search for a free id has no bound in the source.  It visits every id once
in `65536` rounds, so that it is given this many, and a search without success
is the outcome `diverge`.
-/

namespace DnsLattice

inductive PendingTable.Slot (T : Type) where
  | pending (value : T)
  | orphan (number : ℕ)

/-- What `take` found for an id. -/
inductive Taken (T : Type) where
  | pending (value : T)
  | orphaned
  | unknown

structure Tombstone where
  id : UInt16
  number : ℕ
  expiry : ℕ
  deriving DecidableEq, Repr

abbrev Slots (T : Type) := AList fun _ : UInt16 => PendingTable.Slot T

structure PendingTable (T : Type) where
  slots : Slots T
  /-- In the order of their creation. -/
  tombstones : List Tombstone
  nextId : UInt16
  nextTombstone : ℕ
  capacity : ℕ
  tombstoneTtl : ℕ
  capacity_range : 1 ≤ capacity ∧ capacity ≤ 65535

variable {T : Type}

def Tombstone.holds (tombstone : Tombstone) (slots : Slots T) : Bool :=
  match slots.lookup tombstone.id with
  | some (.orphan number) => decide (number = tombstone.number)
  | _ => false

namespace PendingTable

def withStart (capacity tombstoneTtl : ℕ) (start : UInt16) :
    PendingTable T where
  slots := ∅
  tombstones := []
  nextId := start
  nextTombstone := 0
  capacity := max 1 (min capacity 65535)
  tombstoneTtl := tombstoneTtl
  capacity_range := by omega

/-- The loop of `sweep`. -/
def sweepFront (now : ℕ) : List Tombstone → Slots T → List Tombstone × Slots T
  | [], slots => ([], slots)
  | tombstone :: rest, slots =>
      if now < tombstone.expiry then (tombstone :: rest, slots)
      else
        sweepFront now rest
          (if tombstone.holds slots then slots.erase tombstone.id else slots)

def sweep (table : PendingTable T) (now : ℕ) : PendingTable T :=
  { table with
    tombstones := (sweepFront now table.tombstones table.slots).1
    slots := (sweepFront now table.tombstones table.slots).2 }

/-- The loop of `evict_oldest_tombstone`. -/
def evictFront : List Tombstone → Slots T → Bool × List Tombstone × Slots T
  | [], slots => (false, [], slots)
  | tombstone :: rest, slots =>
      if tombstone.holds slots then (true, rest, slots.erase tombstone.id)
      else evictFront rest slots

def evictOldestTombstone (table : PendingTable T) : Bool × PendingTable T :=
  match evictFront table.tombstones table.slots with
  | (evicted, tombstones, slots) =>
      (evicted, { table with tombstones := tombstones, slots := slots })

/-- The loop of `register`: the first free id, and the one after it. -/
def scan (slots : Slots T) : ℕ → UInt16 → Option (UInt16 × UInt16)
  | 0, _ => none
  | fuel + 1, id =>
      if (slots.lookup id).isNone then some (id, id + 1)
      else scan slots fuel (id + 1)

/-- The part of `register` after room has been made. -/
def place (table : PendingTable T) (value : T) :
    Run Error (Except T UInt16 × PendingTable T) :=
  match scan table.slots 65536 table.nextId with
  | none => .diverge
  | some (id, nextId) =>
      .ok (.ok id,
        { table with
          slots := table.slots.insert id (.pending value)
          nextId := nextId })

def register (table : PendingTable T) (value : T) (now : ℕ) :
    Run Error (Except T UInt16 × PendingTable T) :=
  let swept := table.sweep now
  if swept.capacity ≤ swept.slots.keys.length then
    match swept.evictOldestTombstone with
    | (true, roomy) => roomy.place value
    | (false, full) => .ok (.error value, full)
  else swept.place value

def orphanIf (instantMax : ℕ) (table : PendingTable T) (id : UInt16) (now : ℕ)
    (owned : T → Bool) : Option T × PendingTable T :=
  match table.slots.lookup id with
  | some (.pending value) =>
      if owned value then
        (some value,
          { table with
            slots := table.slots.insert id (.orphan table.nextTombstone)
            nextTombstone := table.nextTombstone + 1
            tombstones := table.tombstones ++
              [⟨id, table.nextTombstone,
                (instantAdd instantMax now table.tombstoneTtl).getD now⟩] })
      else (none, table)
  | _ => (none, table)

def take (table : PendingTable T) (id : UInt16) : Taken T × PendingTable T :=
  match table.slots.lookup id with
  | some (.pending value) =>
      (.pending value, { table with slots := table.slots.erase id })
  | some (.orphan number) =>
      (.orphaned,
        { table with
          slots := table.slots.erase id
          tombstones := table.tombstones.eraseP fun tombstone =>
            tombstone.id = id ∧ tombstone.number = number })
  | none => (.unknown, table)

def drainPending (table : PendingTable T) : List T × PendingTable T :=
  (table.slots.entries.filterMap fun entry =>
    match entry.2 with
    | .pending value => some value
    | .orphan _ => none,
    { table with slots := ∅, tombstones := [] })

def pendingLen (table : PendingTable T) : ℕ :=
  table.slots.entries.countP fun entry =>
    match entry.2 with
    | .pending _ => true
    | .orphan _ => false

/-! ## Pending queries -/

def pendingAt (table : PendingTable T) (id : UInt16) : Option T :=
  match table.slots.lookup id with
  | some (.pending value) => some value
  | _ => none

theorem pendingAt_eq_some {table : PendingTable T} {id : UInt16} {value : T} :
    table.pendingAt id = some value ↔
      table.slots.lookup id = some (.pending value) := by
  rw [pendingAt]
  cases hslot : table.slots.lookup id with
  | none => simp
  | some slot =>
    cases slot with
    | pending found => simp
    | orphan number => simp

structure Inv (table : PendingTable T) : Prop where
  size_le : table.slots.keys.length ≤ table.capacity
  ordered : table.tombstones.Pairwise fun first second =>
    first.number < second.number
  numbered : ∀ tombstone ∈ table.tombstones,
    tombstone.number < table.nextTombstone
  filed : ∀ tombstone ∈ table.tombstones,
    table.slots.lookup tombstone.id = some (.orphan tombstone.number)
  queued : ∀ id number, table.slots.lookup id = some (.orphan number) →
    ∃ tombstone ∈ table.tombstones,
      tombstone.id = id ∧ tombstone.number = number

theorem inv_withStart (capacity tombstoneTtl : ℕ) (start : UInt16) :
    (withStart capacity tombstoneTtl start : PendingTable T).Inv where
  size_le := Nat.zero_le _
  ordered := List.Pairwise.nil
  numbered tombstone htombstone := by cases htombstone
  filed tombstone htombstone := by cases htombstone
  queued id number hslot := by
    rw [withStart, AList.lookup_empty] at hslot
    cases hslot

theorem holds_iff {tombstone : Tombstone} {slots : Slots T} :
    tombstone.holds slots = true ↔
      slots.lookup tombstone.id = some (.orphan tombstone.number) := by
  rw [Tombstone.holds]
  cases slots.lookup tombstone.id with
  | none => simp
  | some slot =>
    cases slot with
    | pending value => simp
    | orphan number => simp

theorem Inv.dropFront {table : PendingTable T} (h : table.Inv)
    {tombstone : Tombstone} {rest : List Tombstone}
    (htombstones : table.tombstones = tombstone :: rest) :
    Inv { table with
      tombstones := rest
      slots := table.slots.erase tombstone.id } := by
  have hordered := h.ordered
  rw [htombstones, List.pairwise_cons] at hordered
  have hfiled := h.filed
  rw [htombstones] at hfiled
  have hne : ∀ other ∈ rest, other.id ≠ tombstone.id := by
    intro other hother hsame
    have hslot := hfiled other (List.mem_cons_of_mem _ hother)
    rw [hsame, hfiled tombstone (by simp)] at hslot
    have hnumber : tombstone.number = other.number :=
      Slot.orphan.inj (Option.some.inj hslot)
    exact (hordered.1 other hother).ne hnumber
  refine ⟨?_, hordered.2, ?_, ?_, ?_⟩
  · rw [AList.keys_erase]
    exact (List.length_erase_le).trans h.size_le
  · intro other hother
    exact h.numbered other (by simp [htombstones, hother])
  · intro other hother
    rw [AList.lookup_erase_ne (hne other hother)]
    exact hfiled other (List.mem_cons_of_mem _ hother)
  · intro id number hslot
    by_cases hsame : id = tombstone.id
    · rw [hsame, AList.lookup_erase] at hslot
      cases hslot
    · rw [AList.lookup_erase_ne hsame] at hslot
      obtain ⟨found, hfound, hid, hnumber⟩ := h.queued id number hslot
      rw [htombstones] at hfound
      rcases List.mem_cons.mp hfound with rfl | hrest
      · exact absurd hid.symm hsame
      · exact ⟨found, hrest, hid, hnumber⟩

structure Cleared (before after : PendingTable T) : Prop where
  inv : after.Inv
  pending : ∀ id, after.pendingAt id = before.pendingAt id
  vacant : ∀ id, before.slots.lookup id = none →
    after.slots.lookup id = none
  size_le : after.slots.keys.length ≤ before.slots.keys.length
  nextId_eq : after.nextId = before.nextId
  capacity_eq : after.capacity = before.capacity

theorem Cleared.refl {table : PendingTable T} (h : table.Inv) :
    Cleared table table :=
  ⟨h, fun _ => rfl, fun _ => id, le_rfl, rfl, rfl⟩

theorem Cleared.trans {first second third : PendingTable T}
    (h : Cleared first second) (h' : Cleared second third) :
    Cleared first third where
  inv := h'.inv
  pending id := (h'.pending id).trans (h.pending id)
  vacant id hid := h'.vacant id (h.vacant id hid)
  size_le := h'.size_le.trans h.size_le
  nextId_eq := h'.nextId_eq.trans h.nextId_eq
  capacity_eq := h'.capacity_eq.trans h.capacity_eq

theorem cleared_dropFront {table : PendingTable T} (h : table.Inv)
    {tombstone : Tombstone} {rest : List Tombstone}
    (htombstones : table.tombstones = tombstone :: rest) :
    Cleared table { table with
      tombstones := rest
      slots := table.slots.erase tombstone.id } where
  inv := h.dropFront htombstones
  pending id := by
    rw [pendingAt, pendingAt]
    by_cases hsame : id = tombstone.id
    · have hslot := h.filed tombstone (by simp [htombstones])
      rw [hsame, AList.lookup_erase, hslot]
    · rw [AList.lookup_erase_ne hsame]
  vacant id hid := by
    by_cases hsame : id = tombstone.id
    · rw [hsame, AList.lookup_erase]
    · rw [AList.lookup_erase_ne hsame, hid]
  size_le := by
    rw [AList.keys_erase]
    exact List.length_erase_le
  nextId_eq := rfl
  capacity_eq := rfl

theorem sweep_cleared (now : ℕ) :
    ∀ (tombstones : List Tombstone) {table : PendingTable T}, table.Inv →
      table.tombstones = tombstones → Cleared table (table.sweep now) := by
  intro tombstones
  induction tombstones with
  | nil =>
    intro table h htombstones
    have hsame : table.sweep now = table := by
      rw [sweep, htombstones, sweepFront, ← htombstones]
    rw [hsame]
    exact .refl h
  | cons tombstone rest ih =>
    intro table h htombstones
    by_cases hlive : now < tombstone.expiry
    · have hsame : table.sweep now = table := by
        rw [sweep, htombstones, sweepFront, if_pos hlive, ← htombstones]
      rw [hsame]
      exact .refl h
    · have hholds : tombstone.holds table.slots = true :=
        holds_iff.mpr (h.filed tombstone (by simp [htombstones]))
      have hcleared := cleared_dropFront h htombstones
      have hsame : table.sweep now =
          sweep { table with
            tombstones := rest
            slots := table.slots.erase tombstone.id } now := by
        rw [sweep, sweep, htombstones, sweepFront, if_neg hlive, if_pos hholds]
      rw [hsame]
      exact hcleared.trans (ih hcleared.inv rfl)

/-- The oldest tombstone makes room, if there is one; a table without has
pending queries only. -/
theorem evictOldestTombstone_spec {table : PendingTable T} (h : table.Inv) :
    (∃ after, table.evictOldestTombstone = (true, after) ∧
      Cleared table after ∧
      after.slots.keys.length < table.slots.keys.length) ∨
    table.evictOldestTombstone = (false, table) ∧
      ∀ id number, table.slots.lookup id ≠ some (.orphan number) := by
  rw [evictOldestTombstone]
  cases htombstones : table.tombstones with
  | nil =>
    refine .inr ⟨?_, ?_⟩
    · rw [evictFront, ← htombstones]
    · intro id number hslot
      obtain ⟨found, hfound, _⟩ := h.queued id number hslot
      rw [htombstones] at hfound
      cases hfound
  | cons tombstone rest =>
    have hslot := h.filed tombstone (by simp [htombstones])
    refine .inl ⟨_, ?_, cleared_dropFront h htombstones, ?_⟩
    · rw [evictFront, if_pos (holds_iff.mpr hslot)]
    · have hmem : tombstone.id ∈ table.slots.keys :=
        AList.mem_keys.mp (AList.lookup_isSome.mp (by rw [hslot]; rfl))
      have hlength := List.length_erase_of_mem hmem
      have hpos := List.length_pos_of_mem hmem
      rw [AList.keys_erase]
      omega

/-! ## Registration -/

theorem scan_eq_some {slots : Slots T} {fuel : ℕ} {id found next : UInt16}
    (hscan : scan slots fuel id = some (found, next)) :
    slots.lookup found = none ∧ next = found + 1 := by
  induction fuel generalizing id with
  | zero => cases hscan
  | succ fuel ih =>
    rw [scan] at hscan
    split_ifs at hscan with hfree
    · obtain ⟨rfl, rfl⟩ := Prod.mk.inj (Option.some.inj hscan)
      exact ⟨Option.isNone_iff_eq_none.mp hfree, rfl⟩
    · exact ih hscan

theorem mem_of_scan_eq_none {slots : Slots T} {fuel : ℕ} {id : UInt16}
    (hscan : scan slots fuel id = none) {distance : ℕ}
    (hlt : distance < fuel) : id + UInt16.ofNat distance ∈ slots.keys := by
  induction fuel generalizing id distance with
  | zero => omega
  | succ fuel ih =>
    rw [scan] at hscan
    split_ifs at hscan with hfree
    cases distance with
    | zero =>
      have hsome : (slots.lookup id).isSome := by
        rw [Option.isSome_iff_ne_none]
        exact fun hnone => hfree (by rw [hnone]; rfl)
      have hid : id + UInt16.ofNat 0 = id := UInt16.add_zero id
      rw [hid]
      exact AList.mem_keys.mp (AList.lookup_isSome.mp hsome)
    | succ distance =>
      have hid : id + UInt16.ofNat (distance + 1) =
          id + 1 + UInt16.ofNat distance := by
        rw [UInt16.ofNat_add, UInt16.add_comm (UInt16.ofNat distance),
          UInt16.add_assoc]
        rfl
      rw [hid]
      exact ih hscan (by omega)

theorem exists_scan {slots : Slots T} (hsize : slots.keys.length < 65536)
    (id : UInt16) :
    ∃ found, scan slots 65536 id = some (found, found + 1) ∧
      slots.lookup found = none := by
  cases hscan : scan slots 65536 id with
  | some result =>
    obtain ⟨found, next⟩ := result
    obtain ⟨hfree, rfl⟩ := scan_eq_some hscan
    exact ⟨found, rfl, hfree⟩
  | none =>
    -- Otherwise the search has met every id.
    have hall : List.range 65536 ⊆ slots.keys.map UInt16.toNat := by
      intro number hnumber
      rw [List.mem_range] at hnumber
      refine List.mem_map.mpr ⟨UInt16.ofNat number, ?_, ?_⟩
      · have hmem := mem_of_scan_eq_none hscan
          (show (UInt16.ofNat number - id).toNat < 65536 from UInt16.toNat_lt _)
        rw [UInt16.ofNat_toNat, UInt16.add_comm, UInt16.sub_add_cancel] at hmem
        exact hmem
      · exact UInt16.toNat_ofNat_of_lt' hnumber
    have hlength := (List.nodup_range.subperm hall).length_le
    rw [List.length_range, List.length_map] at hlength
    omega

/-- What `register` does. -/
inductive Registered (table : PendingTable T) (value : T) :
    Except T UInt16 → PendingTable T → Prop
  | accepted {roomy : PendingTable T} {id : UInt16}
      (hcleared : Cleared table roomy)
      (hroom : roomy.slots.keys.length < roomy.capacity)
      (hfree : roomy.slots.lookup id = none) :
      Registered table value (.ok id)
        { roomy with
          slots := roomy.slots.insert id (.pending value)
          nextId := id + 1 }
  | refused {full : PendingTable T} (hcleared : Cleared table full)
      (hfull : full.capacity ≤ full.slots.keys.length)
      (hpending : ∀ id number, full.slots.lookup id ≠ some (.orphan number)) :
      Registered table value (.error value) full

theorem place_spec {table roomy : PendingTable T} (value : T)
    (hcleared : Cleared table roomy)
    (hroom : roomy.slots.keys.length < roomy.capacity) :
    ∃ result after, roomy.place value = .ok (result, after) ∧
      Registered table value result after := by
  have hsize : roomy.slots.keys.length < 65536 := by
    have := roomy.capacity_range.2
    omega
  obtain ⟨id, hscan, hfree⟩ := exists_scan hsize roomy.nextId
  refine ⟨_, _, ?_, .accepted hcleared hroom hfree⟩
  rw [place, hscan]

theorem register_spec {table : PendingTable T} (h : table.Inv) (value : T)
    (now : ℕ) :
    ∃ result after, table.register value now = .ok (result, after) ∧
      Registered table value result after := by
  have hswept := sweep_cleared now table.tombstones h rfl
  unfold register
  extract_lets swept
  split_ifs with hfull
  · rcases evictOldestTombstone_spec hswept.inv with
      ⟨roomy, hevict, hcleared, hless⟩ | ⟨hevict, hpending⟩
    · rw [hevict]
      refine place_spec value (hswept.trans hcleared) ?_
      rw [hcleared.capacity_eq]
      exact hless.trans_le hswept.inv.size_le
    · rw [hevict]
      exact ⟨_, _, rfl, .refused hswept hfull hpending⟩
  · exact place_spec value hswept (not_le.mp hfull)

theorem Registered.inv {table after : PendingTable T} {value : T}
    {result : Except T UInt16} (h : Registered table value result after) :
    after.Inv := by
  cases h with
  | @accepted roomy id hcleared hroom hfree =>
    have hkey : id ∉ roomy.slots.keys := by
      intro hmem
      rw [AList.lookup_eq_none] at hfree
      exact hfree (AList.mem_keys.mpr hmem)
    refine ⟨?_, hcleared.inv.ordered, hcleared.inv.numbered, ?_, ?_⟩
    · rw [AList.keys_insert, List.erase_of_not_mem hkey, List.length_cons]
      exact hroom
    · intro tombstone htombstone
      have hslot := hcleared.inv.filed tombstone htombstone
      have hne : tombstone.id ≠ id := by
        intro hsame
        rw [hsame, hfree] at hslot
        cases hslot
      rw [AList.lookup_insert_ne hne]
      exact hslot
    · intro other number hslot
      by_cases hsame : other = id
      · rw [hsame, AList.lookup_insert] at hslot
        cases hslot
      · rw [AList.lookup_insert_ne hsame] at hslot
        exact hcleared.inv.queued other number hslot
  | refused hcleared hfull hpending => exact hcleared.inv

theorem Registered.capacity_eq {table after : PendingTable T} {value : T}
    {result : Except T UInt16} (h : Registered table value result after) :
    after.capacity = table.capacity := by
  cases h with
  | accepted hcleared hroom hfree => exact hcleared.capacity_eq
  | refused hcleared hfull hpending => exact hcleared.capacity_eq

theorem Registered.pendingAt {table after : PendingTable T} {value : T}
    {id : UInt16} (h : Registered table value (.ok id) after) :
    table.pendingAt id = none ∧
      ∀ other, after.pendingAt other =
        if other = id then some value else table.pendingAt other := by
  cases h with
  | @accepted roomy id hcleared hroom hfree =>
    refine ⟨?_, ?_⟩
    · rw [← hcleared.pending, PendingTable.pendingAt, hfree]
    · intro other
      rw [PendingTable.pendingAt]
      split_ifs with hsame
      · rw [hsame, AList.lookup_insert]
      · rw [AList.lookup_insert_ne hsame, ← hcleared.pending]
        rfl

/-! ## Tombstones, answers and the end -/

section Rules

variable {table : PendingTable T} {instantMax now : ℕ} {id : UInt16}
  {owned : T → Bool}

theorem orphanIf_eq_none
    (hother : ∀ value, table.pendingAt id = some value → owned value = false) :
    table.orphanIf instantMax id now owned = (none, table) := by
  rw [orphanIf]
  cases hslot : table.slots.lookup id with
  | none => rfl
  | some slot =>
    cases slot with
    | orphan number => rfl
    | pending value =>
      simp only
      rw [if_neg]
      rw [hother value (pendingAt_eq_some.mpr hslot)]
      exact Bool.false_ne_true

theorem orphanIf_eq_some {value : T} (hpending : table.pendingAt id = some value)
    (howned : owned value = true) :
    table.orphanIf instantMax id now owned =
      (some value,
        { table with
          slots := table.slots.insert id (.orphan table.nextTombstone)
          nextTombstone := table.nextTombstone + 1
          tombstones := table.tombstones ++
            [⟨id, table.nextTombstone,
              (instantAdd instantMax now table.tombstoneTtl).getD now⟩] }) := by
  rw [orphanIf, pendingAt_eq_some.mp hpending]
  simp only
  rw [if_pos howned]

theorem orphanIf_inv (h : table.Inv) :
    (table.orphanIf instantMax id now owned).2.Inv := by
  cases hpending : table.pendingAt id with
  | none =>
    rw [orphanIf_eq_none (by simp [hpending])]
    exact h
  | some value =>
    cases howned : owned value with
    | false =>
      rw [orphanIf_eq_none (by simp [hpending, howned])]
      exact h
    | true =>
      rw [orphanIf_eq_some hpending howned]
      have hslot := pendingAt_eq_some.mp hpending
      have hmem : id ∈ table.slots.keys :=
        AList.mem_keys.mp (AList.lookup_isSome.mp (by rw [hslot]; rfl))
      refine ⟨?_, ?_, ?_, ?_, ?_⟩
      · have hlength := List.length_erase_of_mem hmem
        have hpos := List.length_pos_of_mem hmem
        have hle := h.size_le
        rw [AList.keys_insert, List.length_cons]
        change _ ≤ table.capacity
        omega
      · refine List.pairwise_append.mpr
          ⟨h.ordered, List.pairwise_singleton _ _, ?_⟩
        intro old hold new hnew
        rw [List.mem_singleton.mp hnew]
        exact h.numbered old hold
      · intro tombstone htombstone
        rcases List.mem_append.mp htombstone with hold | hnew
        · exact (h.numbered tombstone hold).trans (Nat.lt_succ_self _)
        · rw [List.mem_singleton.mp hnew]
          exact Nat.lt_succ_self _
      · intro tombstone htombstone
        rcases List.mem_append.mp htombstone with hold | hnew
        · have hfiled := h.filed tombstone hold
          have hne : tombstone.id ≠ id := by
            intro hsame
            rw [hsame, hslot] at hfiled
            cases hfiled
          rw [AList.lookup_insert_ne hne, hfiled]
        · rw [List.mem_singleton.mp hnew, AList.lookup_insert]
      · intro other number hother
        by_cases hsame : other = id
        · rw [hsame, AList.lookup_insert] at hother
          refine ⟨_, List.mem_append_right _ (List.mem_singleton_self _),
            hsame.symm, ?_⟩
          exact Slot.orphan.inj (Option.some.inj hother)
        · rw [AList.lookup_insert_ne hsame] at hother
          obtain ⟨tombstone, hold, hfound⟩ := h.queued other number hother
          exact ⟨tombstone, List.mem_append_left _ hold, hfound⟩

theorem orphanIf_pendingAt (other : UInt16) :
    (table.orphanIf instantMax id now owned).2.pendingAt other =
      if other = id then (table.pendingAt other).filter (!owned ·)
      else table.pendingAt other := by
  cases hpending : table.pendingAt id with
  | none =>
    rw [orphanIf_eq_none (by simp [hpending])]
    split_ifs with hsame
    · rw [hsame, hpending]
      rfl
    · rfl
  | some value =>
    cases howned : owned value with
    | false =>
      rw [orphanIf_eq_none (by simp [hpending, howned])]
      split_ifs with hsame
      · rw [hsame, hpending, Option.filter_some, howned]
        rfl
      · rfl
    | true =>
      rw [orphanIf_eq_some hpending howned, pendingAt]
      split_ifs with hsame
      · rw [hsame, AList.lookup_insert, hpending, Option.filter_some,
          howned]
        rfl
      · rw [AList.lookup_insert_ne hsame]
        rfl

theorem take_of_pending {value : T} (hpending : table.pendingAt id = some value) :
    table.take id =
      (.pending value, { table with slots := table.slots.erase id }) := by
  rw [take, pendingAt_eq_some.mp hpending]

theorem take_eq_pending {value : T} :
    (table.take id).1 = .pending value ↔ table.pendingAt id = some value := by
  rw [take, pendingAt]
  cases table.slots.lookup id with
  | none => simp
  | some slot =>
    cases slot with
    | pending found => simp
    | orphan number => simp

theorem not_of_mem_eraseP {α : Type} {found : α → Bool} {items : List α}
    (hunique : items.Pairwise fun first second =>
      found first = true → found second = false) :
    ∀ item ∈ items.eraseP found, found item = false := by
  induction items with
  | nil => simp
  | cons first rest ih =>
    obtain ⟨hfirst, hrest⟩ := List.pairwise_cons.mp hunique
    intro item hitem
    cases hfound : found first with
    | true =>
      rw [List.eraseP_cons_of_pos hfound] at hitem
      exact hfirst item hitem hfound
    | false =>
      rw [List.eraseP_cons_of_neg (by simp [hfound])] at hitem
      rcases List.mem_cons.mp hitem with rfl | hlater
      · exact hfound
      · exact ih hrest item hlater

theorem take_inv (h : table.Inv) : (table.take id).2.Inv := by
  have hsize : (table.slots.erase id).keys.length ≤ table.capacity := by
    rw [AList.keys_erase]
    exact List.length_erase_le.trans h.size_le
  rw [take]
  cases hslot : table.slots.lookup id with
  | none => exact h
  | some slot =>
    cases slot with
    | pending value =>
      refine ⟨hsize, h.ordered, h.numbered, ?_, ?_⟩
      · intro tombstone htombstone
        have hfiled := h.filed tombstone htombstone
        have hne : tombstone.id ≠ id := by
          intro hsame
          rw [hsame, hslot] at hfiled
          cases hfiled
        rw [AList.lookup_erase_ne hne, hfiled]
      · intro other number hother
        by_cases hsame : other = id
        · rw [hsame, AList.lookup_erase] at hother
          cases hother
        · rw [AList.lookup_erase_ne hsame] at hother
          exact h.queued other number hother
    | orphan number =>
      have hsublist := List.eraseP_sublist
        (l := table.tombstones)
        (p := fun tombstone =>
          decide (tombstone.id = id ∧ tombstone.number = number))
      have hgone := @not_of_mem_eraseP _ (fun tombstone : Tombstone =>
          decide (tombstone.id = id ∧ tombstone.number = number))
        table.tombstones (h.ordered.imp fun hlt hfirst => by
          rw [decide_eq_true_iff] at hfirst
          rw [decide_eq_false_iff_not]
          rintro ⟨_, hsecond⟩
          omega)
      refine ⟨hsize, h.ordered.sublist hsublist, ?_, ?_, ?_⟩
      · intro tombstone htombstone
        exact h.numbered tombstone (hsublist.subset htombstone)
      · intro tombstone htombstone
        have hfiled := h.filed tombstone (hsublist.subset htombstone)
        have hne : tombstone.id ≠ id := by
          intro hsame
          have hnot := hgone tombstone htombstone
          rw [hsame, hslot] at hfiled
          rw [decide_eq_false_iff_not] at hnot
          exact hnot ⟨hsame, (Slot.orphan.inj (Option.some.inj hfiled)).symm⟩
        rw [AList.lookup_erase_ne hne, hfiled]
      · intro other otherNumber hother
        by_cases hsame : other = id
        · rw [hsame, AList.lookup_erase] at hother
          cases hother
        · rw [AList.lookup_erase_ne hsame] at hother
          obtain ⟨tombstone, hold, hid, hnumber⟩ :=
            h.queued other otherNumber hother
          refine ⟨tombstone, ?_, hid, hnumber⟩
          refine (List.mem_eraseP_of_neg ?_).mpr hold
          rw [decide_eq_true_iff]
          rintro ⟨hid', _⟩
          exact hsame (hid.symm.trans hid')

theorem take_capacity : (table.take id).2.capacity = table.capacity := by
  rw [take]
  split
  · rfl
  · rfl
  · rfl

theorem orphanIf_capacity :
    (table.orphanIf instantMax id now owned).2.capacity = table.capacity := by
  rw [orphanIf]
  split
  · split_ifs
    · rfl
    · rfl
  · rfl

theorem take_pendingAt (other : UInt16) :
    (table.take id).2.pendingAt other =
      if other = id then none else table.pendingAt other := by
  have herase : ∀ tombstones, pendingAt { table with
      slots := table.slots.erase id
      tombstones := tombstones } other =
        if other = id then none else table.pendingAt other := by
    intro tombstones
    rw [pendingAt]
    split_ifs with hsame
    · rw [hsame, AList.lookup_erase]
    · rw [AList.lookup_erase_ne hsame]
      rfl
  rw [take]
  cases hslot : table.slots.lookup id with
  | none =>
    split_ifs with hsame
    · rw [hsame, pendingAt, hslot]
    · rfl
  | some slot =>
    cases slot with
    | pending value => exact herase table.tombstones
    | orphan number => exact herase _

theorem mem_drainPending {value : T} :
    value ∈ table.drainPending.1 ↔ ∃ id, table.pendingAt id = some value := by
  rw [drainPending, List.mem_filterMap]
  constructor
  · rintro ⟨⟨id, slot⟩, hentry, hvalue⟩
    cases slot with
    | orphan number => cases hvalue
    | pending found =>
      obtain rfl := Option.some.inj hvalue
      exact ⟨id, pendingAt_eq_some.mpr (AList.mem_lookup_iff.mpr hentry)⟩
  · rintro ⟨id, hpending⟩
    exact ⟨⟨id, .pending value⟩,
      AList.mem_lookup_iff.mp (pendingAt_eq_some.mp hpending), rfl⟩

theorem nodup_drainPending {κ : Type} {key : T → κ}
    (hkey : ∀ id id' value value', table.pendingAt id = some value →
      table.pendingAt id' = some value' → key value = key value' → id = id') :
    (table.drainPending.1.map key).Nodup := by
  rw [drainPending, List.Nodup, List.pairwise_map, List.pairwise_filterMap]
  have hkeys := List.nodupKeys_iff_pairwise.mp table.slots.nodupKeys
  refine hkeys.imp_of_mem ?_
  rintro ⟨id, slot⟩ ⟨id', slot'⟩ hentry hentry' hne value hvalue value' hvalue'
  cases slot with
  | orphan number => cases hvalue
  | pending found =>
    cases slot' with
    | orphan number => cases hvalue'
    | pending found' =>
      obtain rfl := Option.some.inj hvalue
      obtain rfl := Option.some.inj hvalue'
      intro hsame
      exact hne (hkey id id' _ _
        (pendingAt_eq_some.mpr (AList.mem_lookup_iff.mpr hentry))
        (pendingAt_eq_some.mpr (AList.mem_lookup_iff.mpr hentry')) hsame)

/-- The pending queries are at most as many as the items they are mapped to,
one item for each id. -/
theorem pendingLen_le_length {κ : Type} {key : T → κ} {items : List κ}
    (hkey : ∀ id id' value value', table.pendingAt id = some value →
      table.pendingAt id' = some value' → key value = key value' → id = id')
    (hitems : ∀ id value, table.pendingAt id = some value →
      key value ∈ items) : table.pendingLen ≤ items.length := by
  have hlength : table.pendingLen = table.drainPending.1.length := by
    rw [pendingLen, drainPending, List.length_filterMap_eq_countP]
    refine List.countP_congr ?_
    rintro ⟨id, slot⟩ _
    cases slot with
    | pending value => simp
    | orphan number => simp
  have hsubset : table.drainPending.1.map key ⊆ items := by
    intro item hitem
    obtain ⟨value, hvalue, rfl⟩ := List.mem_map.mp hitem
    obtain ⟨id, hid⟩ := mem_drainPending.mp hvalue
    exact hitems id value hid
  have hle := ((nodup_drainPending hkey).subperm hsubset).length_le
  rw [List.length_map] at hle
  omega

theorem pendingLen_eq_length
    (hpending : ∀ id number, table.slots.lookup id ≠ some (.orphan number)) :
    table.pendingLen = table.slots.keys.length := by
  rw [pendingLen, AList.keys, List.keys, List.length_map, List.countP_eq_length]
  rintro ⟨id, slot⟩ hentry
  cases slot with
  | pending value => rfl
  | orphan number =>
    exact absurd (AList.mem_lookup_iff.mpr hentry) (hpending id number)

theorem drainPending_inv : table.drainPending.2.Inv where
  size_le := Nat.zero_le _
  ordered := List.Pairwise.nil
  numbered tombstone htombstone := by cases htombstone
  filed tombstone htombstone := by cases htombstone
  queued id number hslot := by
    rw [drainPending, AList.lookup_empty] at hslot
    cases hslot

theorem drainPending_pendingAt (other : UInt16) :
    table.drainPending.2.pendingAt other = none := by
  rw [pendingAt, drainPending, AList.lookup_empty]

end Rules

end PendingTable

end DnsLattice
