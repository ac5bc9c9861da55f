import DnsLattice.FakeIpFamily

/-!
# Runs of one Fake IP family

A family starts with an empty inclusive range and is changed by allocations,
lookups, purges and restored mappings, in any order and at any times.  Along
every such run names and addresses stay in one-to-one correspondence, and
every call returns unless the whole address space is mapped.  The recencies
of the mappings stay different from each other until the counter they are
drawn from has gone round.
-/

namespace DnsLattice

structure FamilyConfig where
  instantMax : ℕ
  salt : UInt64
  ttl : ℕ

inductive FamilyOp (w : ℕ) where
  | allocate (name : Name) (now : ℕ)
  | lookup (address : BitVec w) (now : ℕ)
  | purgeExpired (now : ℕ)
  | restore (name : Name) (address : BitVec w) (expiresAt : ℕ)

namespace FamilyState

variable {w : ℕ}

/-- The state an operation leaves.  A mapping is restored only when its
address lies in the range. -/
def apply [Address w] (config : FamilyConfig) (state : FamilyState w) :
    FamilyOp w → Run Error (FamilyState w)
  | .allocate name now => do
      let (_, after) ← state.allocateWithTtl config.instantMax name
        config.salt now config.ttl
      pure after
  | .lookup address now => do
      let (_, after) ← state.lookupWithTtl address now
      pure after
  | .purgeExpired now => do
      let (_, after) ← state.purgeExpired now
      pure after
  | .restore name address expiresAt =>
      if state.contains address then state.restore name address expiresAt
      else .err .invalidFakeIpSnapshot

inductive Step [Address w] (config : FamilyConfig) :
    FamilyState w → FamilyState w → Prop
  | op {state after : FamilyState w} (op : FamilyOp w)
      (hop : state.apply config op = .ok after) : Step config state after
  | reorder {state : FamilyState w} {forward : NameMap (Mapping w)}
      {reverse : AList fun _ : BitVec w => Name}
      (hforward : state.forward.entries.Perm forward.entries)
      (hreverse : state.reverse.entries.Perm reverse.entries) :
      Step config state { state with forward := forward, reverse := reverse }

def Reaches [Address w] (config : FamilyConfig)
    (range : BitVec w × BitVec w) (state : FamilyState w) : Prop :=
  ∃ first, new range = .ok first ∧
    Relation.ReflTransGen (Step config) first state

section Edits

variable {state after : FamilyState w} {name : Name}

theorem LookedUp.edits {address : BitVec w} {now : ℕ}
    {reply : Option (Name × ℕ)} (h : LookedUp state address now reply after) :
    Relation.ReflTransGen Edit state after := by
  cases h with
  | missing hpurged hfree => exact hpurged.edits
  | found hpurged hentry haddress hlive =>
    exact hpurged.edits.tail (.refresh hentry)

theorem restore_edits {address : BitVec w} {expiresAt : ℕ}
    (hinside : state.contains address = true)
    (hok : state.restore name address expiresAt = .ok after) :
    Relation.ReflTransGen Edit state after := by
  rw [restore] at hok
  split_ifs at hok with hpresent
  rw [not_or, Option.not_isSome_iff_eq_none,
    Option.not_isSome_iff_eq_none] at hpresent
  obtain rfl := Run.ok.inj hok
  exact .single (.record hpresent.1 hpresent.2 hinside)

variable [Address w]

/-- Neither a purge nor an eviction brings a name or an address back. -/
theorem Assigned.edits {salt : UInt64} {address : BitVec w} {expiresAt : ℕ}
    {roomy : FamilyState w} (hassigned : Assigned state name salt address roomy)
    (h : state.Inv) (hname : state.mappingOf name = none) :
    Relation.ReflTransGen Edit state
      (roomy.record name address expiresAt) := by
  refine (hassigned.room.edits h).tail
    (.record ?_ hassigned.free hassigned.inside)
  cases hassigned.room with
  | spare hfull => exact hname
  | evicted hfull holdest =>
    rw [mappingOf, lookup_removed]
    split_ifs
    · rfl
    · exact hname

theorem Allocated.edits {salt : UInt64} {now ttl expiresAt lifetime : ℕ}
    {address : BitVec w}
    (hallocated : Allocated state name salt now ttl expiresAt address
      lifetime after) (h : state.Inv) :
    Relation.ReflTransGen Edit state after := by
  cases hallocated with
  | reused hpurged hentry hlive =>
    exact hpurged.edits.tail (.refresh hentry)
  | assigned _ hpurged hname hassigned =>
    exact hpurged.edits.trans (hassigned.edits (hpurged.inv h) hname)

variable [LawfulAddress w] {config : FamilyConfig}

theorem Step.edits (hstep : Step config state after) (h : state.Inv) :
    Relation.ReflTransGen Edit state after := by
  cases hstep with
  | reorder hforward hreverse => exact .single (.reorder hforward hreverse)
  | op op hop =>
    cases op with
    | allocate name now =>
      obtain ⟨⟨⟨address, lifetime⟩, found⟩, hallocate, hrest⟩ :=
        Run.bind_eq_ok_iff.mp hop
      obtain rfl := Run.ok.inj hrest
      exact (allocateWithTtl_eq_ok h hallocate).2.edits h
    | lookup address now =>
      obtain ⟨reply, found, hlookup, hlookedUp⟩ :=
        lookupWithTtl_spec h address now
      rw [apply, hlookup] at hop
      obtain rfl := Run.ok.inj hop
      exact hlookedUp.edits
    | purgeExpired now =>
      obtain ⟨purged, hpurge, hpurged⟩ := purgeExpired_spec h now
      rw [apply, hpurge] at hop
      obtain rfl := Run.ok.inj hop
      exact hpurged.edits
    | restore name address expiresAt =>
      rw [apply] at hop
      split_ifs at hop with hinside
      exact restore_edits hinside hop

theorem apply_returns (h : state.Inv) (hsize : state.size < 2 ^ w)
    (op : FamilyOp w) : (state.apply config op).Returns := by
  cases op with
  | allocate name now =>
    rcases allocateWithTtl_returns h hsize config.instantMax name
      config.salt now config.ttl with ⟨⟨reply, found⟩, hok⟩ | ⟨error, herr⟩
    · exact .inl ⟨found, by rw [apply, hok]; rfl⟩
    · exact .inr ⟨error, by rw [apply, herr]; rfl⟩
  | lookup address now =>
    obtain ⟨reply, found, hlookup, _⟩ := lookupWithTtl_spec h address now
    exact .inl ⟨found, by rw [apply, hlookup]; rfl⟩
  | purgeExpired now =>
    obtain ⟨purged, hpurge, _⟩ := purgeExpired_spec h now
    exact .inl ⟨purged, by rw [apply, hpurge]; rfl⟩
  | restore name address expiresAt =>
    rw [apply]
    split_ifs
    · rw [restore]
      split_ifs
      · exact .inr ⟨_, rfl⟩
      · exact .inl ⟨_, rfl⟩
    · exact .inr ⟨_, rfl⟩

end Edits

/-! ## Every state of a run -/

section Reached

variable {range : BitVec w × BitVec w} {first state after : FamilyState w}

theorem Edit.range_eq (hedit : Edit state after) :
    (after.start, after.stop) = (state.start, state.stop) := by
  cases hedit <;> rfl

theorem range_of_edits (hedits : Relation.ReflTransGen Edit state after) :
    (after.start, after.stop) = (state.start, state.stop) := by
  induction hedits with
  | refl => rfl
  | tail _ hedit ih => exact hedit.range_eq.trans ih

theorem new_eq_ok (hnew : new range = .ok first) :
    first.Inv ∧ first.Numbered ∧ (first.start, first.stop) = range := by
  rw [new] at hnew
  split_ifs at hnew with hlt
  obtain rfl := Run.ok.inj hnew
  refine ⟨⟨BitVec.not_lt.mp hlt, .empty, by simp⟩, ⟨rfl, ?_, ?_⟩, rfl⟩
  · intro _ key entry hentry
    cases hentry
  · intro _ key key' entry entry' hentry
    cases hentry

variable [Address w] [LawfulAddress w] {config : FamilyConfig}

theorem Reaches.inv (hreaches : Reaches config range state) :
    state.Inv ∧ state.Numbered ∧ (state.start, state.stop) = range := by
  obtain ⟨first, hnew, hsteps⟩ := hreaches
  induction hsteps with
  | refl => exact new_eq_ok hnew
  | tail _ hstep ih =>
    have hedits := hstep.edits ih.1
    exact ⟨inv_of_edits ih.1 hedits, numbered_of_edits ih.2.1 hedits,
      (range_of_edits hedits).trans ih.2.2⟩

end Reached

structure Sound [Address w] (config : FamilyConfig)
    (range : BitVec w × BitVec w) (state : FamilyState w) : Prop where
  there : ∀ name entry, state.mappingOf name = some entry →
    name.eqIgnoreCase entry.1 = true ∧
      state.reverse.lookup entry.2.address = some entry.1
  back : ∀ address name, state.reverse.lookup address = some name →
    ∃ mapping, state.mappingOf name = some (name, mapping) ∧
      mapping.address = address
  inside : ∀ name entry, state.mappingOf name = some entry →
    range.1 ≤ entry.2.address ∧ entry.2.address ≤ range.2
  size_le : state.size ≤ rangeSize range.1 range.2
  recency_ne : state.touches ≤ 2 ^ 64 → ∀ name other entry entry',
    state.mappingOf name = some entry → state.mappingOf other = some entry' →
      name.eqIgnoreCase other = false →
        entry.2.recency ≠ entry'.2.recency
  candidate : ∀ hash, ∃ address, state.candidate hash = .ok address ∧
    range.1 ≤ address ∧ address ≤ range.2
  probe : rangeSize range.1 range.2 < 2 ^ w ∨ state.size < 2 ^ w →
    ∀ now count purged roomy, state.purgeExpired now = .ok (count, purged) →
      purged.makeRoom = .ok roomy → ∀ address, roomy.contains address = true →
        ∃ free, roomy.probe address = .ok free ∧
          roomy.contains free = true ∧ roomy.reverse.lookup free = none
  returns : rangeSize range.1 range.2 < 2 ^ w ∨ state.size < 2 ^ w →
    ∀ op, (state.apply config op).Returns

theorem sound_of_reaches (family : IpFamily) (config : FamilyConfig)
    (range : BitVec family.width × BitVec family.width)
    (state : FamilyState family.width)
    (hreaches : Reaches config range state) : Sound config range state := by
  obtain ⟨hinv, hnumbered, hrange⟩ := hreaches.inv
  obtain ⟨hstart, hstop⟩ := Prod.mk.inj hrange
  have hsize : rangeSize range.1 range.2 < 2 ^ family.width ∨
      state.size < 2 ^ family.width → state.size < 2 ^ family.width := by
    intro hcase
    have hle := hinv.size_le
    rw [hstart, hstop] at hle
    omega
  have hinside : ∀ address, state.contains address = true →
      range.1 ≤ address ∧ address ≤ range.2 := by
    intro address hcontains
    rw [contains, decide_eq_true_iff, hstart, hstop] at hcontains
    exact hcontains
  constructor
  · intro name entry hentry
    refine ⟨?_, hinv.lookup_reverse hentry⟩
    rw [Name.eqIgnoreCase, beq_iff_eq]
    exact (hinv.key_eq hentry).symm
  · intro address name hname
    obtain ⟨⟨stored, mapping⟩, hentry, haddress, rfl⟩ :=
      hinv.linked.exists_value hname
    exact ⟨mapping, hentry, haddress⟩
  · intro name entry hentry
    exact hinside _ (hinv.inside _ _ hentry)
  · have hle := hinv.size_le
    rwa [hstart, hstop] at hle
  · intro htouches name other entry entry' hentry hentry' hne heq
    have hkey := hnumbered.distinct htouches _ _ _ _ hentry hentry' heq
    rw [Name.eqIgnoreCase, hkey, beq_self_eq_true] at hne
    cases hne
  · intro hash
    obtain ⟨address, hcandidate, hcontains⟩ := hinv.exists_candidate hash
    exact ⟨address, hcandidate, hinside address hcontains⟩
  · intro hcase now count purged roomy hpurge hmake address haddress
    obtain ⟨purged', hpurge', hpurged⟩ := purgeExpired_spec hinv now
    obtain ⟨_, rfl⟩ := Prod.mk.inj (Run.ok.inj (hpurge'.symm.trans hpurge))
    have hinv' := hpurged.inv hinv
    obtain ⟨roomy', hmake', hroom⟩ := makeRoom_spec hinv'
    obtain rfl := Run.ok.inj (hmake'.symm.trans hmake)
    have hroomy := inv_of_edits hinv' (hroom.edits hinv')
    obtain ⟨free, hmem, hfree⟩ := hroomy.linked.exists_free (by
      rw [hroomy.card_addresses]
      exact hroom.size_lt hinv' (hpurged.size_le.trans_lt (hsize hcase)))
    obtain ⟨found, hfound⟩ :=
      probe_finds haddress (mem_addresses.mp hmem) hfree
    exact ⟨found, hfound, free_of_probe haddress hfound⟩
  · intro hcase op
    exact apply_returns hinv (hsize hcase) op

/-! ## The counter goes round -/

section Repeated

variable [Address w] {state : FamilyState w} {name : Name}
  {entry : Name × Mapping w} {now : ℕ}

/-- The states before and after some lookups of one name: its recency is the
number of the last touch, and nothing else has changed. -/
structure Repeated (state after : FamilyState w) (key : List Label)
    (entry : Name × Mapping w) (count : ℕ) : Prop where
  touches : after.touches = state.touches + count + 1
  lookup : ∃ recency : UInt64,
    recency.toNat = (state.touches + count) % 2 ^ 64 ∧
      ∀ other, after.forward.lookup other =
        if other = key then some (entry.1, { entry.2 with recency := recency })
        else state.forward.lookup other

theorem exists_lookup_step (config : FamilyConfig) (h : state.Inv)
    (hnumbered : state.Numbered)
    (hlive : ∀ key entry, state.forward.lookup key = some entry →
      now < entry.2.expiresAt)
    (hentry : state.mappingOf name = some entry) :
    ∃ after, Step config state after ∧
      Repeated state after name.lowercasedLabels entry 0 := by
  obtain ⟨reply, after, hlookup, hlookedUp⟩ :=
    lookupWithTtl_spec h entry.2.address now
  refine ⟨after, .op (.lookup entry.2.address now) (by rw [apply, hlookup]; rfl),
    ?_⟩
  have hkeeps : ∀ {purged : FamilyState w}, Purged state now purged →
      ∀ key, purged.forward.lookup key = state.forward.lookup key := by
    intro purged hpurged key
    rw [hpurged.lookup]
    cases hkey : state.forward.lookup key with
    | none => rfl
    | some found =>
      rw [Option.filter_some, if_pos (decide_eq_true (hlive key found hkey))]
  have hkey := h.key_eq hentry
  cases hlookedUp with
  | missing hpurged hfree =>
    have hthere := (hpurged.inv h).lookup_reverse
      ((hkeeps hpurged name.lowercasedLabels).trans hentry)
    rw [hfree] at hthere
    cases hthere
  | @found purged found hpurged hfound haddress _ =>
    have hsame : found = entry := by
      have hother := hkeeps hpurged found.1.lowercasedLabels
      rw [mappingOf] at hfound
      rw [hfound] at hother
      have hnames := h.linked.key_eq hother.symm hentry haddress
      rw [hnames] at hother
      exact Option.some.inj (hother.trans hentry)
    subst hsame
    refine ⟨congrArg (· + 1) hpurged.touches_eq, purged.nextRecency, ?_, ?_⟩
    · rw [hpurged.nextRecency_eq]
      exact hnumbered.next
    · intro other
      rw [lookup_refreshed, hkey]
      split_ifs
      · rfl
      · exact hkeeps hpurged other

theorem exists_lookup_steps [LawfulAddress w] (config : FamilyConfig)
    (count : ℕ) :
    ∀ {state : FamilyState w} {entry : Name × Mapping w}, state.Inv →
      state.Numbered →
      (∀ key entry, state.forward.lookup key = some entry →
        now < entry.2.expiresAt) →
      state.mappingOf name = some entry →
      ∃ after, Relation.ReflTransGen (Step config) state after ∧
        Repeated state after name.lowercasedLabels entry count := by
  induction count with
  | zero =>
    intro state entry h hnumbered hlive hentry
    obtain ⟨after, hstep, hrepeated⟩ :=
      exists_lookup_step config h hnumbered hlive hentry
    exact ⟨after, .single hstep, hrepeated⟩
  | succ count ih =>
    intro state entry h hnumbered hlive hentry
    obtain ⟨middle, hstep, hrepeated⟩ :=
      exists_lookup_step config h hnumbered hlive hentry
    have hedits := hstep.edits h
    obtain ⟨recency, _, hlookup⟩ := hrepeated.lookup
    obtain ⟨after, hsteps, hafter⟩ :=
      @ih middle (entry.1, { entry.2 with recency := recency })
        (inv_of_edits h hedits) (numbered_of_edits hnumbered hedits)
        (by
          intro key found hfound
          rw [hlookup] at hfound
          split_ifs at hfound
          · obtain rfl := Option.some.inj hfound
            exact hlive _ entry hentry
          · exact hlive key found hfound)
        (by rw [mappingOf, hlookup, if_pos rfl])
    refine ⟨after, .head hstep hsteps, ?_, ?_⟩
    · rw [hafter.touches, hrepeated.touches]
      omega
    · obtain ⟨last, hlast, hlookup'⟩ := hafter.lookup
      refine ⟨last, ?_, ?_⟩
      · rw [hlast, hrepeated.touches]
        congr 1
        omega
      · intro other
        rw [hlookup', hlookup]
        split_ifs <;> rfl

end Repeated

/-! ## Two names in a range of two addresses -/

def alphaName : Name := ⟨[[97]]⟩

def bravoName : Name := ⟨[[98]]⟩

def twoAddresses : BitVec IpFamily.ipv4.width × BitVec IpFamily.ipv4.width :=
  (1#32, 2#32)

def secondConfig : FamilyConfig where
  instantMax := 2 ^ 63
  salt := hashSalt .ipv4
  ttl := 1000000000

def twoNames : Run Error (FamilyState IpFamily.ipv4.width) := do
  let first ← new twoAddresses
  let second ← first.apply secondConfig (.allocate alphaName 0)
  second.apply secondConfig (.allocate bravoName 0)

theorem exists_twoNames :
    ∃ state, twoNames = .ok state ∧ Reaches secondConfig twoAddresses state ∧
      state.touches = 2 ∧ state.size = 2 ∧
      (∀ key entry, state.forward.lookup key = some entry →
        0 < entry.2.expiresAt) ∧
      ((state.mappingOf alphaName).map fun entry => entry.2.recency) = some 0 ∧
      (state.mappingOf bravoName).isSome := by
  have hcheck : twoNames.any (fun state =>
      decide (state.touches = 2 ∧ state.size = 2 ∧
        (∀ entry ∈ state.forward.entries, 0 < entry.2.2.expiresAt) ∧
        ((state.mappingOf alphaName).map fun entry => entry.2.recency) =
          some 0 ∧
        (state.mappingOf bravoName).isSome)) = true := by
    decide
  obtain ⟨state, hrun, hstate⟩ := Run.exists_of_any hcheck
  obtain ⟨htouches, hsize, hlive, halpha, hbravo⟩ := of_decide_eq_true hstate
  refine ⟨state, hrun, ?_, htouches, hsize, ?_, halpha, hbravo⟩
  · obtain ⟨first, hnew, hrest⟩ := Run.bind_eq_ok_iff.mp hrun
    obtain ⟨second, hsecond, hlast⟩ := Run.bind_eq_ok_iff.mp hrest
    exact ⟨first, hnew, (Relation.ReflTransGen.single
      (.op _ hsecond)).tail (.op _ hlast)⟩
  · intro key entry hentry
    exact hlive ⟨key, entry⟩ (AList.mem_lookup_iff.mp hentry)

theorem sound_of_twoNames :
    ∃ state, state.size = 2 ∧ Sound secondConfig twoAddresses state := by
  obtain ⟨state, _, hreaches, _, hsize, _⟩ := exists_twoNames
  exact ⟨state, hsize,
    sound_of_reaches .ipv4 secondConfig twoAddresses state hreaches⟩

/-- After `2 ^ 64 + 1` touches two mappings have the same recency. -/
theorem recency_repeats :
    ∃ state, Reaches secondConfig twoAddresses state ∧
      state.touches = 2 ^ 64 + 1 ∧
      ∃ entry entry', state.mappingOf alphaName = some entry ∧
        state.mappingOf bravoName = some entry' ∧
        alphaName.eqIgnoreCase bravoName = false ∧
        entry.2.recency = entry'.2.recency := by
  obtain ⟨state, _, hreaches, htouches, _, hlive, halpha, hbravo⟩ :=
    exists_twoNames
  obtain ⟨hinv, hnumbered, _⟩ := hreaches.inv
  obtain ⟨alpha, hentry, hzero⟩ := Option.map_eq_some_iff.mp halpha
  obtain ⟨bravo, hentry'⟩ := Option.isSome_iff_exists.mp hbravo
  obtain ⟨after, hsteps, hrepeated⟩ := exists_lookup_steps secondConfig
    (2 ^ 64 - 2) hinv hnumbered hlive hentry'
  obtain ⟨recency, hrecency, hlookup⟩ := hrepeated.lookup
  obtain ⟨first, hnew, hbefore⟩ := hreaches
  have hdiffer : alphaName.lowercasedLabels ≠ bravoName.lowercasedLabels := by
    decide
  refine ⟨after, ⟨first, hnew, hbefore.trans hsteps⟩, ?_, alpha,
    (bravo.1, { bravo.2 with recency := recency }), ?_, ?_, by decide, ?_⟩
  · rw [hrepeated.touches, htouches]
    norm_num
  · rw [mappingOf, hlookup, if_neg hdiffer]
    exact hentry
  · rw [mappingOf, hlookup, if_pos rfl]
  · rw [htouches] at hrecency
    rw [hzero]
    exact UInt64.toNat_inj.mp hrecency.symm

end FamilyState

end DnsLattice
