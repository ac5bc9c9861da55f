import DnsLattice.AnswerRules

/-!
# The lifetimes of a stored answer

An upstream answer is stored with every record lifetime clamped into the bounds
of its class, the first authority SOA of a negative answer limited by its own
minimum as well, and it expires with its shortest record.  While it is fresh a
hit counts every record down by the whole seconds elapsed and never reaches
zero.
-/

namespace DnsLattice

/-! ## Clamping -/

namespace TtlBounds

variable (bounds : TtlBounds)

theorem toNat_clamp (ttl : UInt32) :
    (bounds.clamp ttl).toNat =
      Max.max bounds.min.toNat (Min.min bounds.max.toNat ttl.toNat) := by
  have hle : bounds.min.toNat ≤ bounds.max.toNat := bounds.min_le_max
  unfold clamp
  by_cases hlow : ttl < bounds.min
  · have hlt : ttl.toNat < bounds.min.toNat := hlow
    rw [if_pos hlow]
    omega
  have hge : bounds.min.toNat ≤ ttl.toNat := UInt32.not_lt.mp hlow
  rw [if_neg hlow]
  by_cases hhigh : bounds.max < ttl
  · have hgt : bounds.max.toNat < ttl.toNat := hhigh
    rw [if_pos hhigh]
    omega
  · have hle' : ttl.toNat ≤ bounds.max.toNat := UInt32.not_lt.mp hhigh
    rw [if_neg hhigh]
    omega

def Contains (ttl : UInt32) : Prop :=
  bounds.min ≤ ttl ∧ ttl ≤ bounds.max

theorem contains_clamp (ttl : UInt32) : bounds.Contains (bounds.clamp ttl) := by
  have hle : bounds.min.toNat ≤ bounds.max.toNat := bounds.min_le_max
  have htoNat := bounds.toNat_clamp ttl
  constructor
  · change bounds.min.toNat ≤ (bounds.clamp ttl).toNat
    omega
  · change (bounds.clamp ttl).toNat ≤ bounds.max.toNat
    omega

theorem clamp_min_clamp (first second : UInt32) :
    bounds.clamp (Min.min (bounds.clamp first) second) =
      bounds.clamp (Min.min first second) := by
  have hle : bounds.min.toNat ≤ bounds.max.toNat := bounds.min_le_max
  rw [← UInt32.toNat_inj]
  simp only [toNat_clamp, UInt32.toNat_min]
  omega

end TtlBounds

/-! ## The records of a stored answer -/

def changeTtl (change : UInt32 → UInt32) (record : ResourceRecord) :
    ResourceRecord :=
  if isOptType record then record
  else { record with ttl := change record.ttl }

/-- The sections of a normalised answer: the records of the answer in their
order, with their lifetimes clamped. -/
structure Normalised (bounds : TtlBounds) (negative : Bool)
    (answer stored : Message) : Prop where
  header : stored.header = answer.header
  answers : stored.answers = answer.answers.map (changeTtl bounds.clamp)
  additionals : stored.additionals =
    (answer.additionals.filter fun record => !record.isOpt).map
      (changeTtl bounds.clamp)
  positive : negative = false →
    stored.authorities = answer.authorities.map (changeTtl bounds.clamp)
  withoutSoa : (∀ record ∈ answer.authorities,
      soaMinimum record.rdata = none) →
    stored.authorities = answer.authorities.map (changeTtl bounds.clamp)
  withSoa : negative = true → ∀ before soa minimum after,
    answer.authorities = before ++ soa :: after →
    (∀ record ∈ before, soaMinimum record.rdata = none) →
    soaMinimum soa.rdata = some minimum →
    stored.authorities = before.map (changeTtl bounds.clamp) ++
      { soa with ttl := bounds.clamp (min soa.ttl minimum) } ::
        after.map (changeTtl bounds.clamp)

theorem changeTtl_rdata (change : UInt32 → UInt32) (record : ResourceRecord) :
    (changeTtl change record).rdata = record.rdata := by
  unfold changeTtl
  split_ifs <;> rfl

theorem isOptType_changeTtl (change : UInt32 → UInt32)
    (record : ResourceRecord) :
    isOptType (changeTtl change record) = isOptType record := by
  unfold changeTtl
  split_ifs <;> rfl

theorem changeTtl_ttl {change : UInt32 → UInt32} {record : ResourceRecord}
    (h : isOptType record = false) :
    (changeTtl change record).ttl = change record.ttl := by
  simp [changeTtl, h]

theorem limitSoa_eq_none_iff {bounds : TtlBounds}
    {records : List ResourceRecord} :
    limitSoa bounds records = none ↔
      ∀ record ∈ records, soaMinimum record.rdata = none := by
  induction records with
  | nil => simp [limitSoa]
  | cons record rest ih =>
    cases hsoa : soaMinimum record.rdata with
    | none => simp [limitSoa, hsoa, ih]
    | some minimum => simp [limitSoa, hsoa]

theorem limitSoa_append {bounds : TtlBounds} {before after : List ResourceRecord}
    {soa : ResourceRecord} {minimum : UInt32}
    (hbefore : ∀ record ∈ before, soaMinimum record.rdata = none)
    (hsoa : soaMinimum soa.rdata = some minimum) :
    limitSoa bounds (before ++ soa :: after) =
      some (bounds.clamp (min soa.ttl minimum),
        before ++ { soa with ttl := bounds.clamp (min soa.ttl minimum) } ::
          after) := by
  induction before with
  | nil => simp [limitSoa, hsoa]
  | cons record rest ih =>
    have hnone := hbefore record (by simp)
    have hrest := ih fun other hother => hbefore other (by simp [hother])
    simp [limitSoa, hnone, hrest]

theorem contains_of_limitSoa {bounds : TtlBounds}
    {records limited : List ResourceRecord} {ttl : UInt32}
    (h : limitSoa bounds records = some (ttl, limited))
    (hrecords : ∀ record ∈ records, isOptType record = false →
      bounds.Contains record.ttl) :
    ∀ record ∈ limited, isOptType record = false →
      bounds.Contains record.ttl := by
  induction records generalizing limited with
  | nil => cases h
  | cons record rest ih =>
    cases hsoa : soaMinimum record.rdata with
    | some minimum =>
      simp only [limitSoa, hsoa, Option.some.injEq, Prod.mk.injEq] at h
      obtain ⟨_, rfl⟩ := h
      intro other hother hplain
      rcases List.mem_cons.mp hother with rfl | hmem
      · exact bounds.contains_clamp _
      · exact hrecords other (by simp [hmem]) hplain
    | none =>
      simp only [limitSoa, hsoa, Option.map_eq_some_iff] at h
      obtain ⟨⟨_, others⟩, hrest, hpair⟩ := h
      obtain ⟨rfl, rfl⟩ := Prod.mk.inj hpair
      intro other hother hplain
      rcases List.mem_cons.mp hother with rfl | hmem
      · exact hrecords other (by simp) hplain
      · exact ih hrest (fun kept hkept => hrecords kept (by simp [hkept]))
          other hmem hplain

theorem soaMinimum_changeTtl (change : UInt32 → UInt32)
    {records : List ResourceRecord}
    (h : ∀ record ∈ records, soaMinimum record.rdata = none) :
    ∀ record ∈ records.map (changeTtl change),
      soaMinimum record.rdata = none := by
  intro record hrecord
  obtain ⟨original, horiginal, rfl⟩ := List.mem_map.mp hrecord
  rw [changeTtl_rdata]
  exact h original horiginal

theorem clamp_min_changeTtl (bounds : TtlBounds) (soa : ResourceRecord)
    (minimum : UInt32) :
    bounds.clamp (min (changeTtl bounds.clamp soa).ttl minimum) =
      bounds.clamp (min soa.ttl minimum) := by
  unfold changeTtl
  split_ifs with hopt
  · rfl
  · exact bounds.clamp_min_clamp soa.ttl minimum

theorem changeTtl_setTtl (change : UInt32 → UInt32) (record : ResourceRecord)
    (ttl : UInt32) :
    { changeTtl change record with ttl := ttl } =
      { record with ttl := ttl } := by
  unfold changeTtl
  split_ifs <;> rfl

/-! ## Normalising -/

def WithinBounds (bounds : TtlBounds) (message : Message) : Prop :=
  ∀ record ∈ message.records, isOptType record = false →
    bounds.Contains record.ttl

theorem mapTtl_setEdns_normalised (bounds : TtlBounds) (answer : Message) :
    Normalised bounds false answer
      (mapTtl bounds.clamp (answer.setEdns none)) where
  header := rfl
  answers := rfl
  additionals := by
    simp only [mapTtl, Message.setEdns, Option.map_none, Option.toList_none,
      List.append_nil]
    rfl
  positive := fun _ => rfl
  withoutSoa := fun _ => rfl
  withSoa := by simp

theorem mapTtl_withinBounds (bounds : TtlBounds) (message : Message) :
    WithinBounds bounds (mapTtl bounds.clamp message) := by
  have hsection : ∀ records : List ResourceRecord,
      ∀ record ∈ records.map (changeTtl bounds.clamp),
        isOptType record = false → bounds.Contains record.ttl := by
    intro records record hrecord hplain
    obtain ⟨original, _, rfl⟩ := List.mem_map.mp hrecord
    rw [isOptType_changeTtl] at hplain
    rw [changeTtl_ttl hplain]
    exact bounds.contains_clamp _
  intro record hrecord hplain
  simp only [Message.records, List.mem_append] at hrecord
  rcases hrecord with (hmem | hmem) | hmem
  · exact hsection message.answers record hmem hplain
  · exact hsection message.authorities record hmem hplain
  · exact hsection message.additionals record hmem hplain

theorem negativeTtl_eq_some {policy : TtlPolicy} {answer limited : Message}
    {ttl : UInt32}
    (h : negativeTtl policy (mapTtl policy.negative.clamp
      (answer.setEdns none)) = some (ttl, limited)) :
    Normalised policy.negative true answer limited ∧
      WithinBounds policy.negative limited := by
  have hplain := mapTtl_setEdns_normalised policy.negative answer
  have hwithin := mapTtl_withinBounds policy.negative (answer.setEdns none)
  have hsame : (mapTtl policy.negative.clamp
      (answer.setEdns none)).authorities =
        answer.authorities.map (changeTtl policy.negative.clamp) := rfl
  unfold negativeTtl at h
  cases hlimit : limitSoa policy.negative
      (mapTtl policy.negative.clamp (answer.setEdns none)).authorities with
  | some found =>
    obtain ⟨_, authorities⟩ := found
    simp only [hlimit, Option.some.injEq, Prod.mk.injEq] at h
    obtain ⟨rfl, rfl⟩ := h
    constructor
    · refine ⟨hplain.header, hplain.answers, hplain.additionals, by simp,
        ?_, ?_⟩
      · intro hnone
        rw [hsame, limitSoa_eq_none_iff.mpr
          (soaMinimum_changeTtl _ hnone)] at hlimit
        cases hlimit
      · intro _ before soa minimum after hauthorities hbefore hsoa
        rw [hsame, hauthorities, List.map_append, List.map_cons,
          limitSoa_append (soaMinimum_changeTtl _ hbefore)
            (by rw [changeTtl_rdata]; exact hsoa), clamp_min_changeTtl,
          changeTtl_setTtl] at hlimit
        exact (Prod.mk.inj (Option.some.inj hlimit)).2.symm
    · intro record hrecord
      simp only [Message.records, List.mem_append] at hrecord
      rcases hrecord with (hmem | hmem) | hmem
      · exact hwithin record (by simp [Message.records, hmem])
      · refine contains_of_limitSoa hlimit ?_ record hmem
        intro other hother
        exact hwithin other (by simp [Message.records, hother])
      · exact hwithin record (by simp [Message.records, hmem])
  | none =>
    simp only [hlimit, Option.map_eq_some_iff] at h
    obtain ⟨without, _, hpair⟩ := h
    obtain ⟨_, rfl⟩ := Prod.mk.inj hpair
    refine ⟨⟨hplain.header, hplain.answers, hplain.additionals, by simp,
      fun _ => hsame, ?_⟩, hwithin⟩
    intro _ before soa minimum after hauthorities _ hsoa
    rw [limitSoa_eq_none_iff, hsame, hauthorities] at hlimit
    have hnone := hlimit (changeTtl policy.negative.clamp soa) (by simp)
    rw [changeTtl_rdata, hsoa] at hnone
    cases hnone

theorem recordsTtl_le {message : Message} {ttl : UInt32}
    (h : recordsTtl message = some ttl) {record : ResourceRecord}
    (hrecord : record ∈ message.records) (hplain : isOptType record = false) :
    ttl ≤ record.ttl := by
  apply (List.min?_eq_some_iff.mp h).2
  refine List.mem_map.mpr ⟨record, List.mem_filter.mpr ⟨hrecord, ?_⟩, rfl⟩
  simp [hplain]

theorem exists_recordsTtl {message : Message} {record : ResourceRecord}
    (hrecord : record ∈ message.records) (hplain : isOptType record = false) :
    ∃ ttl, recordsTtl message = some ttl := by
  cases hnone : recordsTtl message with
  | some ttl => exact ⟨ttl, rfl⟩
  | none =>
    have hempty := List.min?_eq_none_iff.mp hnone
    have hmem : record.ttl ∈ ([] : List UInt32) := by
      rw [← hempty]
      refine List.mem_map.mpr ⟨record, List.mem_filter.mpr ⟨hrecord, ?_⟩, rfl⟩
      simp [hplain]
    cases hmem

def TtlPolicy.bounds (policy : TtlPolicy) (negative : Bool) : TtlBounds :=
  if negative then policy.negative else policy.positive

theorem normalise_eq_some {answer message : Message} {policy : TtlPolicy}
    {ttl : UInt32} (h : normalise answer policy = some (message, ttl)) :
    ∃ negative, isNegative answer = some negative ∧
      Normalised (policy.bounds negative) negative answer message ∧
      WithinBounds (policy.bounds negative) message ∧
      ∀ record ∈ message.records, isOptType record = false →
        ttl ≤ record.ttl := by
  unfold normalise at h
  rw [Option.bind_eq_bind, Option.bind_eq_some_iff] at h
  obtain ⟨negative, hnegative, h⟩ := h
  refine ⟨negative, hnegative, ?_⟩
  cases negative with
  | false =>
    simp only [Bool.false_eq_true, if_false, Option.bind_eq_bind,
      Option.bind_eq_some_iff] at h
    obtain ⟨found, hfound, h⟩ := h
    obtain ⟨rfl, rfl⟩ := Prod.mk.inj (Option.some.inj h)
    refine ⟨mapTtl_setEdns_normalised _ _, mapTtl_withinBounds _ _, ?_⟩
    intro record hrecord hplain
    exact recordsTtl_le hfound hrecord hplain
  | true =>
    simp only [if_true, Option.bind_eq_bind, Option.bind_eq_some_iff] at h
    obtain ⟨⟨limit, limited⟩, hlimited, h⟩ := h
    obtain ⟨rfl, rfl⟩ := Prod.mk.inj (Option.some.inj h)
    obtain ⟨hnormalised, hwithin⟩ := negativeTtl_eq_some hlimited
    refine ⟨hnormalised, hwithin, ?_⟩
    intro record hrecord hplain
    obtain ⟨found, hfound⟩ := exists_recordsTtl hrecord hplain
    have hle : found.toNat ≤ record.ttl.toNat :=
      recordsTtl_le hfound hrecord hplain
    change (((recordsTtl limited).map (min limit)).getD limit).toNat ≤
      record.ttl.toNat
    rw [hfound, Option.map_some, Option.getD_some, UInt32.toNat_min]
    omega

/-! ## Hits -/

/-- A stored message served after some whole seconds: the records in their
order, each with its lifetime reduced by these seconds and still positive. -/
structure CountedDown (elapsed : ℕ) (stored response : Message) : Prop where
  rcode : response.header.rcode = stored.header.rcode
  answers : response.answers = stored.answers.map
    (changeTtl fun ttl => UInt32.ofNat (ttl.toNat - elapsed))
  authorities : response.authorities = stored.authorities.map
    (changeTtl fun ttl => UInt32.ofNat (ttl.toNat - elapsed))
  additionals : response.additionals = stored.additionals.map
    (changeTtl fun ttl => UInt32.ofNat (ttl.toNat - elapsed))
  positive : ∀ record ∈ stored.records, isOptType record = false →
    1 ≤ record.ttl.toNat - elapsed

theorem countDown_of_lt {elapsed : ℕ} {ttl : UInt32} (h : elapsed < ttl.toNat) :
    countDown (UInt32.ofNat (min elapsed 4294967295)) ttl =
      UInt32.ofNat (ttl.toNat - elapsed) := by
  have hbound := ttl.toNat_lt
  have hmin : min elapsed 4294967295 = elapsed := by omega
  have helapsed : (UInt32.ofNat elapsed).toNat = elapsed := by
    rw [UInt32.toNat_ofNat']
    omega
  have hnot : ¬ttl ≤ UInt32.ofNat elapsed := by
    intro hle
    have hle' : ttl.toNat ≤ (UInt32.ofNat elapsed).toNat := hle
    omega
  have hle : UInt32.ofNat elapsed ≤ ttl := by
    change (UInt32.ofNat elapsed).toNat ≤ ttl.toNat
    omega
  rw [hmin, countDown, if_neg hnot, ← UInt32.toNat_inj, UInt32.toNat_max,
    UInt32.toNat_sub_of_le _ _ hle, helapsed, UInt32.toNat_ofNat']
  change max (ttl.toNat - elapsed) 1 = _
  omega

theorem changeTtl_congr {change change' : UInt32 → UInt32}
    {records : List ResourceRecord}
    (h : ∀ record ∈ records, isOptType record = false →
      change record.ttl = change' record.ttl) :
    records.map (changeTtl change) = records.map (changeTtl change') := by
  apply List.map_congr_left
  intro record hrecord
  unfold changeTtl
  split_ifs with hopt
  · rfl
  · rw [h record hrecord (by simpa using hopt)]

theorem cacheHitResponse_countedDown (query : Message) {entry : CachedAnswer}
    {now : ℕ}
    (h : ∀ record ∈ entry.message.records, isOptType record = false →
      (now - entry.inserted) / second < record.ttl.toNat) :
    CountedDown ((now - entry.inserted) / second) entry.message
      (cacheHitResponse query entry now) := by
  have hsection : ∀ records : List ResourceRecord,
      (∀ record ∈ records, record ∈ entry.message.records) →
      records.map (changeTtl
        (countDown (wholeSeconds (now - entry.inserted)))) =
      records.map (changeTtl fun ttl =>
        UInt32.ofNat (ttl.toNat - (now - entry.inserted) / second)) := by
    intro records hmem
    apply changeTtl_congr
    intro record hrecord hplain
    exact countDown_of_lt (h record (hmem record hrecord) hplain)
  refine ⟨rfl, ?_, ?_, ?_, ?_⟩
  · exact hsection entry.message.answers fun record hrecord => by
      simp [Message.records, hrecord]
  · exact hsection entry.message.authorities fun record hrecord => by
      simp [Message.records, hrecord]
  · exact hsection entry.message.additionals fun record hrecord => by
      simp [Message.records, hrecord]
  · intro record hrecord hplain
    have hlt := h record hrecord hplain
    omega

theorem isOpt_changeTtl (change : UInt32 → UInt32) (record : ResourceRecord) :
    (changeTtl change record).isOpt = record.isOpt := by
  rw [ResourceRecord.isOpt, changeTtl_rdata, ResourceRecord.isOpt]

theorem CountedDown.no_opt {bounds : TtlBounds} {negative : Bool}
    {elapsed : ℕ} {answer stored response : Message}
    (hnormalised : Normalised bounds negative answer stored)
    (h : CountedDown elapsed stored response) :
    ∀ record ∈ response.additionals, record.isOpt = false := by
  intro record hrecord
  rw [h.additionals, hnormalised.additionals] at hrecord
  simp only [List.map_map, List.mem_map, List.mem_filter,
    Function.comp_apply] at hrecord
  obtain ⟨original, ⟨_, hplain⟩, rfl⟩ := hrecord
  rw [isOpt_changeTtl, isOpt_changeTtl]
  simpa using hplain

theorem cacheableAnswer_eq_new {origin : UpstreamCall} {answer : Message}
    {inserted : ℕ} {policy : TtlPolicy} {entry : CachedAnswer}
    (h : cacheableAnswer origin answer inserted policy = some entry) :
    ∃ ttl, normalise answer policy = some (entry.message, ttl) ∧ ttl ≠ 0 ∧
      entry.inserted = inserted ∧
      entry.expires = inserted + ttl.toNat * second := by
  unfold cacheableAnswer at h
  split_ifs at h
  cases hnormalise : normalise answer policy with
  | none => simp [hnormalise] at h
  | some found =>
    obtain ⟨message, ttl⟩ := found
    simp only [hnormalise] at h
    split_ifs at h with hzero
    obtain rfl := Option.some.inj h
    exact ⟨ttl, rfl, hzero, rfl, rfl⟩

/-- An answer is stored with the lifetimes of its class, lives for at least a
second and no longer than its shortest record, and until it expires a hit
serves each record with what is left of its stored lifetime. -/
theorem stored_answer_lifetimes {origin : UpstreamCall} {answer : Message}
    {inserted : ℕ} {policy : TtlPolicy} {entry : CachedAnswer}
    (h : cacheableAnswer origin answer inserted policy = some entry) :
    ∃ negative, isNegative answer = some negative ∧
      Normalised (policy.bounds negative) negative answer entry.message ∧
      (∀ record ∈ entry.message.records, isOptType record = false →
        (policy.bounds negative).Contains record.ttl) ∧
      inserted + 1 * second ≤ entry.expires ∧
      (∀ record ∈ entry.message.records, isOptType record = false →
        entry.expires ≤ inserted + record.ttl.toNat * second) ∧
      ∀ (query : Message) (now : ℕ), inserted ≤ now → now < entry.expires →
        CountedDown ((now - inserted) / second) entry.message
          (cacheHitResponse query entry now) ∧
        ∀ record ∈ (cacheHitResponse query entry now).additionals,
          record.isOpt = false := by
  obtain ⟨ttl, hnormalise, hzero, rfl, hexpires⟩ := cacheableAnswer_eq_new h
  obtain ⟨negative, hnegative, hnormalised, hwithin, hleast⟩ :=
    normalise_eq_some hnormalise
  have hpos : 1 ≤ ttl.toNat := by
    have hne : ttl.toNat ≠ 0 := fun hnone => hzero (UInt32.toNat_inj.mp hnone)
    omega
  have hlife : ∀ record ∈ entry.message.records, isOptType record = false →
      ttl.toNat ≤ record.ttl.toNat := hleast
  refine ⟨negative, hnegative, hnormalised, hwithin, ?_, ?_, ?_⟩
  · rw [hexpires]
    exact Nat.add_le_add_left (Nat.mul_le_mul_right second hpos) _
  · intro record hrecord hplain
    rw [hexpires]
    exact Nat.add_le_add_left
      (Nat.mul_le_mul_right second (hlife record hrecord hplain)) _
  · intro query now hstart hend
    have helapsed : (now - entry.inserted) / second < ttl.toNat := by
      rw [Nat.div_lt_iff_lt_mul (by decide)]
      omega
    have hserved := cacheHitResponse_countedDown query
      fun record hrecord hplain =>
        helapsed.trans_le (hlife record hrecord hplain)
    exact ⟨hserved, hserved.no_opt hnormalised⟩

/-- An answer that a name does not exist, with an SOA which is valid for longer
than its minimum. -/
def missingName : Message where
  header := ⟨0, true, .query, false, false, true, true, .nxDomain⟩
  questions := [⟨⟨[[97]]⟩, .a, .in⟩]
  answers := []
  authorities := [⟨.root, .soa, .in, 900,
    .soa .root .root 1 2 3 4 60⟩]
  additionals := [⟨.root, .other 41, .other 1232, 0, .unknown 41 []⟩]

/-- It is stored for the sixty seconds of the minimum, and after fifty-nine of
them a hit serves what is left. -/
theorem stored_missingName_lifetimes :
    ∃ entry, cacheableAnswer ⟨0, 0, ⟨[104]⟩, missingName, 0⟩ missingName 0
        CacheConfig.new.ttlPolicy = some entry ∧
      entry.expires = 0 + 60 * second ∧
      CountedDown ((59 * second - 0) / second) entry.message
        (cacheHitResponse missingName entry (59 * second)) := by
  refine ⟨_, rfl, rfl, ?_⟩
  obtain ⟨_, _, _, _, _, _, hhit⟩ := @stored_answer_lifetimes
    ⟨0, 0, ⟨[104]⟩, missingName, 0⟩ missingName 0 CacheConfig.new.ttlPolicy _
    rfl
  exact (hhit missingName (59 * second) (by decide) (by decide)).1

end DnsLattice
