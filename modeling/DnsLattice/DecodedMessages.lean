import DnsLattice.MessageRoundTrip

/-!
# The messages the decoder returns

Whatever the bytes, with or without compression, a message which the decoder
returns is canonical.  Encoding it can fail for its length only, and decoding
the result gives the message back.
-/

namespace DnsLattice

open Run

/-! ## Names -/

theorem slice_length {α : Type} {buf part : List α} {start stop : ℕ}
    (hslice : (slice buf start stop : Run Error (List α)) = .ok part) :
    part.length = stop - start := by
  rw [slice] at hslice
  split_ifs at hslice with hrange
  rw [← Run.ok.inj hslice, List.length_take, List.length_drop]
  omega

/-- The labels read so far are neither empty nor too long. -/
def NameCursor.Labelled (cursor : NameCursor) : Prop :=
  ∀ label ∈ cursor.labels, 0 < label.length ∧ label.length ≤ 63

/-- One round reads a label, follows a pointer or ends the name. -/
theorem nameStep_labelled {buf : List UInt8} {cursor : NameCursor}
    {result : NameCursor ⊕ NameCursor} (h : cursor.Labelled)
    (hstep : nameStep buf cursor = .ok result) :
    (result.elim id id).Labelled := by
  rcases nameStep_cases buf cursor with
    ⟨len, hbyte, hpos, hle, hfit⟩ | ⟨high, low, hhigh, hlow, htop, htarget⟩ |
    hzero | ⟨error, herror⟩
  · rw [nameStep_of_label hbyte hpos hle hfit] at hstep
    obtain rfl := Run.ok.inj hstep
    intro label hlabel
    rcases List.mem_append.mp hlabel with hold | hnew
    · exact h label hold
    · rw [List.mem_singleton.mp hnew, List.length_take, List.length_drop]
      omega
  · rw [nameStep_of_pointer hhigh hlow htop htarget] at hstep
    obtain rfl := Run.ok.inj hstep
    exact h
  · rw [nameStep_of_zero hzero] at hstep
    obtain rfl := Run.ok.inj hstep
    exact h
  · rw [herror] at hstep
    cases hstep

theorem decodeName_wellFormed {buf : List UInt8} {pos next : ℕ} {name : Name}
    (hdecode : decodeName buf pos = .ok (name, next)) : name.WellFormed := by
  obtain ⟨cursor, hloop, hfinish⟩ := bind_eq_ok_iff.mp hdecode
  have hlabels : cursor.Labelled := by
    refine loop_result NameCursor.Labelled NameCursor.Labelled ?_ ?_ ?_ hloop
    · intro state following hstate hbody
      exact nameStep_labelled hstate hbody
    · intro state value hstate hbody
      exact nameStep_labelled hstate hbody
    · intro label hlabel
      cases hlabel
  obtain ⟨_, hcheck, hresult⟩ := bind_eq_ok_iff.mp hfinish
  obtain ⟨rfl, _⟩ := Prod.mk.inj (Run.ok.inj hresult)
  rw [Name.checkTotalLength] at hcheck
  split_ifs at hcheck with hlong
  exact ⟨fun label hlabel => (hlabels label hlabel).1,
    fun label hlabel => (hlabels label hlabel).2, not_lt.mp hlong⟩

/-! ## Record data -/

theorem eq_of_checkLength {α : Type} {used rdlength : ℕ} {value result : α}
    (hcheck : (if used ≠ rdlength then lengthMismatch rdlength
      else pure value) = Run.ok result) : value = result := by
  split_ifs at hcheck
  · cases hcheck
  · exact Run.ok.inj hcheck

theorem decodeCheckedName_wellFormed {buf : List UInt8}
    {pos start rdlength next : ℕ} {name : Name}
    (hdecode : decodeCheckedName buf pos start rdlength = .ok (name, next)) :
    name.WellFormed := by
  obtain ⟨⟨found, stop⟩, hname, hrest⟩ := bind_eq_ok_iff.mp hdecode
  obtain ⟨used, _, hcheck⟩ := bind_eq_ok_iff.mp hrest
  obtain ⟨rfl, _⟩ := Prod.mk.inj (eq_of_checkLength hcheck)
  exact decodeName_wellFormed hname

theorem txtStep_short {buf : List UInt8} {stop rdlength : ℕ}
    {state : List (List UInt8) × ℕ}
    {result : (List (List UInt8) × ℕ) ⊕ List (List UInt8)}
    (h : ∀ string ∈ state.1, string.length ≤ 255)
    (hstep : txtStep buf stop rdlength state = .ok result) :
    ∀ string ∈ result.elim Prod.fst id, string.length ≤ 255 := by
  obtain ⟨strings, pos⟩ := state
  simp only [txtStep] at hstep
  split_ifs at hstep with hmore
  · obtain ⟨lenByte, _, hstep⟩ := bind_eq_ok_iff.mp hstep
    split_ifs at hstep with hfits
    · cases hstep
    · obtain ⟨string, hstring, hstep⟩ := bind_eq_ok_iff.mp hstep
      have hlength := slice_length hstring
      obtain rfl := Run.ok.inj hstep
      intro found hfound
      rcases List.mem_append.mp hfound with hold | hnew
      · exact h found hold
      · rw [List.mem_singleton.mp hnew, hlength]
        have := lenByte.toNat_lt
        omega
  · obtain rfl := Run.ok.inj hstep
    exact h

structure RData.Decoded (rtype : RecordType) (rdata : RData) : Prop where
  recordType : rdata.recordType = rtype
  names : rdata.NamesWellFormed
  encodable : rdata.Encodable

theorem decoded_of_name {rtype : RecordType} (make : Name → RData)
    (hmake : ∀ name, name.WellFormed → (make name).Decoded rtype)
    {buf : List UInt8} {pos start rdlength next : ℕ} {rdata : RData}
    (hdecode : (do
      let (name, pos) ← decodeCheckedName buf pos start rdlength
      return (make name, pos)) = Run.ok (rdata, next)) :
    rdata.Decoded rtype := by
  obtain ⟨⟨name, stop⟩, hname, hresult⟩ := bind_eq_ok_iff.mp hdecode
  obtain ⟨rfl, _⟩ := Prod.mk.inj (Run.ok.inj hresult)
  exact hmake name (decodeCheckedName_wellFormed hname)

theorem rdataDecode_decoded {buf : List UInt8} {pos rdlength next : ℕ}
    {rtype : RecordType} {rdata : RData}
    (hdecode : RData.decode buf pos rtype rdlength = .ok (rdata, next)) :
    rdata.Decoded rtype := by
  unfold RData.decode at hdecode
  extract_lets start stop at hdecode
  by_cases hroom : stop > buf.length
  · rw [if_pos hroom] at hdecode
    cases hdecode
  rw [if_neg hroom] at hdecode
  cases rtype with
  | a =>
    simp only at hdecode
    by_cases hfour : rdlength ≠ 4
    · rw [if_pos hfour] at hdecode
      cases hdecode
    rw [if_neg hfour] at hdecode
    obtain ⟨_, _, hdecode⟩ := bind_eq_ok_iff.mp hdecode
    obtain ⟨_, _, hdecode⟩ := bind_eq_ok_iff.mp hdecode
    obtain ⟨_, _, hdecode⟩ := bind_eq_ok_iff.mp hdecode
    obtain ⟨_, _, hdecode⟩ := bind_eq_ok_iff.mp hdecode
    obtain ⟨rfl, _⟩ := Prod.mk.inj (Run.ok.inj hdecode)
    exact ⟨rfl, trivial, trivial⟩
  | aaaa =>
    simp only at hdecode
    by_cases hsixteen : rdlength ≠ 16
    · rw [if_pos hsixteen] at hdecode
      cases hdecode
    rw [if_neg hsixteen] at hdecode
    obtain ⟨_, _, hdecode⟩ := bind_eq_ok_iff.mp hdecode
    obtain ⟨_, _, hdecode⟩ := bind_eq_ok_iff.mp hdecode
    obtain ⟨rfl, _⟩ := Prod.mk.inj (Run.ok.inj hdecode)
    exact ⟨rfl, trivial, trivial⟩
  | cname =>
    exact decoded_of_name RData.cname (fun _ h => ⟨rfl, h, h.encodable⟩) hdecode
  | ptr =>
    exact decoded_of_name RData.ptr (fun _ h => ⟨rfl, h, h.encodable⟩) hdecode
  | ns =>
    exact decoded_of_name RData.ns (fun _ h => ⟨rfl, h, h.encodable⟩) hdecode
  | txt =>
    obtain ⟨strings, hloop, hdecode⟩ := bind_eq_ok_iff.mp hdecode
    obtain ⟨rfl, _⟩ := Prod.mk.inj (Run.ok.inj hdecode)
    refine ⟨rfl, trivial, ?_⟩
    refine loop_result
      (fun state => ∀ string ∈ state.1, string.length ≤ 255)
      (fun strings => ∀ string ∈ strings, string.length ≤ 255) ?_ ?_ ?_ hloop
    · intro state following hstate hbody
      exact txtStep_short hstate hbody
    · intro state value hstate hbody
      exact txtStep_short hstate hbody
    · intro string hstring
      cases hstring
  | mx =>
    obtain ⟨⟨preference, afterPreference⟩, _, hdecode⟩ :=
      bind_eq_ok_iff.mp hdecode
    obtain ⟨⟨exchange, afterExchange⟩, hname, hdecode⟩ :=
      bind_eq_ok_iff.mp hdecode
    obtain ⟨used, _, hcheck⟩ := bind_eq_ok_iff.mp hdecode
    obtain ⟨rfl, _⟩ := Prod.mk.inj (eq_of_checkLength hcheck)
    have hwellFormed := decodeName_wellFormed hname
    exact ⟨rfl, hwellFormed, hwellFormed.encodable⟩
  | soa =>
    obtain ⟨⟨mname, afterMname⟩, hmname, hdecode⟩ := bind_eq_ok_iff.mp hdecode
    obtain ⟨⟨rname, afterRname⟩, hrname, hdecode⟩ := bind_eq_ok_iff.mp hdecode
    obtain ⟨⟨serial, afterSerial⟩, _, hdecode⟩ := bind_eq_ok_iff.mp hdecode
    obtain ⟨⟨refresh, afterRefresh⟩, _, hdecode⟩ := bind_eq_ok_iff.mp hdecode
    obtain ⟨⟨retry, afterRetry⟩, _, hdecode⟩ := bind_eq_ok_iff.mp hdecode
    obtain ⟨⟨expire, afterExpire⟩, _, hdecode⟩ := bind_eq_ok_iff.mp hdecode
    obtain ⟨⟨minimum, afterMinimum⟩, _, hdecode⟩ := bind_eq_ok_iff.mp hdecode
    obtain ⟨used, _, hcheck⟩ := bind_eq_ok_iff.mp hdecode
    obtain ⟨rfl, _⟩ := Prod.mk.inj (eq_of_checkLength hcheck)
    have hfirst := decodeName_wellFormed hmname
    have hsecond := decodeName_wellFormed hrname
    exact ⟨rfl, ⟨hfirst, hsecond⟩, hfirst.encodable, hsecond.encodable⟩
  | other value =>
    obtain ⟨data, _, hdecode⟩ := bind_eq_ok_iff.mp hdecode
    obtain ⟨rfl, _⟩ := Prod.mk.inj (Run.ok.inj hdecode)
    exact ⟨rfl, trivial, trivial⟩

/-! ## Types, classes and codes -/

theorem RecordType.canonical_fromU16 (value : UInt16) :
    (RecordType.fromU16 value).Canonical := by
  intro found hfound
  rw [RecordType.fromU16] at hfound
  split_ifs at hfound
  obtain rfl := RecordType.other.inj hfound
  simp_all

theorem Class.canonical_fromU16 {value : UInt16} {cls : Class}
    (hcls : Class.fromU16 value = .ok cls) :
    cls.Canonical ∧ cls ≠ .other 0 := by
  rw [Class.fromU16] at hcls
  split_ifs at hcls with hzero hin hch
  · obtain rfl := Except.ok.inj hcls
    exact ⟨by rintro _ ⟨⟩, by simp⟩
  · obtain rfl := Except.ok.inj hcls
    exact ⟨by rintro _ ⟨⟩, by simp⟩
  · obtain rfl := Except.ok.inj hcls
    refine ⟨?_, fun hother => hzero (Class.other.inj hother)⟩
    intro found hfound
    obtain rfl := Class.other.inj hfound
    exact ⟨hin, hch⟩

theorem canonical_optClass (value : UInt16) : (optClass value).Canonical := by
  rw [optClass]
  cases hcls : Class.fromU16 value with
  | ok cls => exact (Class.canonical_fromU16 hcls).1
  | error error =>
    intro found hfound
    obtain rfl := Class.other.inj hfound
    rw [Class.fromU16] at hcls
    split_ifs at hcls with hzero
    rw [hzero]
    exact ⟨by decide, by decide⟩

theorem Opcode.canonical_fromU8 {value : UInt8} (hvalue : value < 16) :
    (Opcode.fromU8 value).Canonical := by
  intro found hfound
  rw [Opcode.fromU8] at hfound
  split_ifs at hfound
  obtain rfl := Opcode.other.inj hfound
  refine ⟨hvalue, ?_⟩
  simp_all

theorem Rcode.canonical_fromU8 {value : UInt8} (hvalue : value < 16) :
    (Rcode.fromU8 value).Canonical := by
  intro found hfound
  rw [Rcode.fromU8] at hfound
  split_ifs at hfound
  obtain rfl := Rcode.other.inj hfound
  refine ⟨hvalue, ?_⟩
  simp_all

theorem toUInt8_and_15_lt (value : UInt16) : (value &&& 0x0F).toUInt8 < 16 := by
  rw [UInt8.lt_iff_toNat_lt, UInt16.toNat_toUInt8, UInt16.toNat_and]
  have hle : value.toNat &&& (0x0F : UInt16).toNat ≤ (0x0F : UInt16).toNat :=
    Nat.and_le_right
  have hfifteen : (0x0F : UInt16).toNat = 15 := rfl
  have hsixteen : (16 : UInt8).toNat = 16 := rfl
  omega

theorem decodeFlags_canonical (id flags : UInt16) :
    (decodeFlags id flags).opcode.Canonical ∧
      (decodeFlags id flags).rcode.Canonical :=
  ⟨Opcode.canonical_fromU8 (toUInt8_and_15_lt _),
    Rcode.canonical_fromU8 (toUInt8_and_15_lt _)⟩

/-! ## Questions and records -/

theorem ofExcept_eq_ok {α : Type} {result : Except Error α} {value : α}
    (hresult : Run.ofExcept result = .ok value) : result = .ok value := by
  cases result with
  | ok found => rw [Run.ok.inj hresult]
  | error error => cases hresult

theorem decodeClass_canonical {isOpt : Bool} {raw : UInt16} {cls : Class}
    (hcls : decodeClass isOpt raw = .ok cls) :
    cls.Canonical ∧ (cls = .other 0 → isOpt = true) := by
  cases isOpt with
  | true =>
    obtain rfl := Run.ok.inj hcls
    exact ⟨canonical_optClass raw, fun _ => rfl⟩
  | false =>
    obtain ⟨hcanonical, hzero⟩ := Class.canonical_fromU16 (ofExcept_eq_ok hcls)
    exact ⟨hcanonical, fun hother => absurd hother hzero⟩

theorem decodeQuestion_canonical {buf : List UInt8} {pos next : ℕ}
    {question : Question}
    (hdecode : decodeQuestion buf pos = .ok (question, next)) :
    question.Canonical := by
  obtain ⟨⟨name, afterName⟩, hname, hdecode⟩ := bind_eq_ok_iff.mp hdecode
  obtain ⟨⟨qtype, afterType⟩, _, hdecode⟩ := bind_eq_ok_iff.mp hdecode
  obtain ⟨⟨rawClass, afterClass⟩, _, hdecode⟩ := bind_eq_ok_iff.mp hdecode
  obtain ⟨qclass, hqclass, hdecode⟩ := bind_eq_ok_iff.mp hdecode
  obtain ⟨rfl, _⟩ := Prod.mk.inj (Run.ok.inj hdecode)
  obtain ⟨hcanonical, hzero⟩ := Class.canonical_fromU16 (ofExcept_eq_ok hqclass)
  exact ⟨decodeName_wellFormed hname, RecordType.canonical_fromU16 qtype,
    hcanonical, hzero⟩

theorem lt_of_and_sign_bit {raw : UInt32} (h : raw &&& 0x80000000 = 0) :
    raw < 0x80000000 := by
  have hnat : raw.toNat &&& 2 ^ 31 = 0 := by
    have := congrArg UInt32.toNat h
    rwa [UInt32.toNat_and] at this
  have hbit : raw.toNat.testBit 31 = false := by
    have := congrArg (fun value => Nat.testBit value 31) hnat
    rwa [Nat.testBit_and, Nat.testBit_two_pow_self, Bool.and_true,
      Nat.zero_testBit] at this
  rw [Nat.testBit_eq_decide_div_mod_eq, decide_eq_false_iff_not] at hbit
  have hlt := raw.toNat_lt
  have htarget : raw.toNat < 2 ^ 31 := by omega
  exact htarget

theorem decodeTtl_lt (raw : UInt32) : decodeTtl false raw < 0x80000000 := by
  rw [decodeTtl, Bool.not_false, Bool.true_and]
  by_cases hsign : raw &&& 0x80000000 = 0
  · rw [if_neg (by simp [hsign])]
    exact lt_of_and_sign_bit hsign
  · rw [if_pos (by simp [hsign])]
    decide

theorem fromU16_eq_opt_iff {value : UInt16} :
    RecordType.fromU16 value = .other optRtype ↔ value = optRtype := by
  constructor
  · intro hfound
    rw [RecordType.fromU16] at hfound
    split_ifs at hfound
    exact RecordType.other.inj hfound
  · rintro rfl
    rfl

theorem decodeRr_canonical {buf : List UInt8} {pos next : ℕ}
    {rr : ResourceRecord} (hdecode : decodeRr buf pos = .ok (rr, next)) :
    rr.Canonical ∧ rr.rdata.Encodable := by
  obtain ⟨⟨name, afterName⟩, hname, hdecode⟩ := bind_eq_ok_iff.mp hdecode
  obtain ⟨⟨rawType, afterType⟩, _, hdecode⟩ := bind_eq_ok_iff.mp hdecode
  obtain ⟨⟨rawClass, afterClass⟩, _, hdecode⟩ := bind_eq_ok_iff.mp hdecode
  obtain ⟨cls, hcls, hdecode⟩ := bind_eq_ok_iff.mp hdecode
  obtain ⟨⟨rawTtl, afterTtl⟩, _, hdecode⟩ := bind_eq_ok_iff.mp hdecode
  obtain ⟨⟨rdlength, afterLength⟩, _, hdecode⟩ := bind_eq_ok_iff.mp hdecode
  obtain ⟨⟨rdata, afterData⟩, hrdata, hdecode⟩ := bind_eq_ok_iff.mp hdecode
  obtain ⟨rfl, _⟩ := Prod.mk.inj (Run.ok.inj hdecode)
  have hdecoded := rdataDecode_decoded hrdata
  refine ⟨⟨decodeName_wellFormed hname, hdecoded.names,
    hdecoded.recordType.symm, RecordType.canonical_fromU16 rawType, ?_, ?_, ?_⟩,
    hdecoded.encodable⟩
  · exact (decodeClass_canonical hcls).1
  · intro hzero
    exact fromU16_eq_opt_iff.mpr
      (eq_of_beq ((decodeClass_canonical hcls).2 hzero))
  · intro hplain
    have hfalse : (rawType == optRtype) = false :=
      beq_eq_false_iff_ne.mpr fun hopt => hplain (fromU16_eq_opt_iff.mpr hopt)
    change decodeTtl (rawType == optRtype) rawTtl < _
    rw [hfalse]
    exact decodeTtl_lt rawTtl

/-! ## Messages -/

theorem decodeMany_all {α : Type} {item : ℕ → Run Error (α × ℕ)} {P : α → Prop}
    (hitem : ∀ {pos value next}, item pos = .ok (value, next) → P value)
    {count pos next : ℕ} {items : List α}
    (hdecode : decodeMany item count pos = .ok (items, next)) :
    ∀ value ∈ items, P value := by
  induction count generalizing pos items next with
  | zero =>
    obtain ⟨rfl, _⟩ := Prod.mk.inj (Run.ok.inj hdecode)
    exact fun _ hmem => absurd hmem List.not_mem_nil
  | succ count ih =>
    obtain ⟨⟨first, _⟩, hfirst, hdecode⟩ := bind_eq_ok_iff.mp hdecode
    obtain ⟨⟨rest, _⟩, hrest, hdecode⟩ := bind_eq_ok_iff.mp hdecode
    obtain ⟨rfl, _⟩ := Prod.mk.inj (Run.ok.inj hdecode)
    exact List.forall_mem_cons.mpr ⟨hitem hfirst, ih hrest⟩

theorem decodeHeader_canonical {buf : List UInt8} {pos next : ℕ}
    {header : Header} {counts : Counts}
    (hdecode : decodeHeader buf pos = .ok ((header, counts), next)) :
    header.opcode.Canonical ∧ header.rcode.Canonical := by
  obtain ⟨⟨id, _⟩, _, hdecode⟩ := bind_eq_ok_iff.mp hdecode
  obtain ⟨⟨flags, _⟩, _, hdecode⟩ := bind_eq_ok_iff.mp hdecode
  obtain ⟨_, _, hdecode⟩ := bind_eq_ok_iff.mp hdecode
  obtain ⟨_, _, hdecode⟩ := bind_eq_ok_iff.mp hdecode
  obtain ⟨_, _, hdecode⟩ := bind_eq_ok_iff.mp hdecode
  obtain ⟨_, _, hdecode⟩ := bind_eq_ok_iff.mp hdecode
  obtain ⟨hpair, _⟩ := Prod.mk.inj (Run.ok.inj hdecode)
  obtain ⟨rfl, _⟩ := Prod.mk.inj hpair
  exact decodeFlags_canonical id flags

theorem Message.decode_canonical {bytes : List UInt8} {message : Message}
    (hdecode : Message.decode bytes = .ok message) :
    message.Canonical ∧ ∀ rr ∈ message.records, rr.rdata.Encodable := by
  obtain ⟨⟨⟨header, counts⟩, _⟩, hheader, hdecode⟩ := bind_eq_ok_iff.mp hdecode
  obtain ⟨⟨questions, _⟩, hquestions, hdecode⟩ := bind_eq_ok_iff.mp hdecode
  obtain ⟨⟨answers, _⟩, hanswers, hdecode⟩ := bind_eq_ok_iff.mp hdecode
  obtain ⟨⟨authorities, _⟩, hauthorities, hdecode⟩ := bind_eq_ok_iff.mp hdecode
  obtain ⟨⟨additionals, _⟩, hadditionals, hdecode⟩ := bind_eq_ok_iff.mp hdecode
  obtain rfl := Run.ok.inj hdecode
  obtain ⟨hopcode, hrcode⟩ := decodeHeader_canonical hheader
  have hrecords : ∀ rr ∈ answers ++ authorities ++ additionals,
      rr.Canonical ∧ rr.rdata.Encodable := by
    intro rr hmem
    rw [List.mem_append, List.mem_append] at hmem
    obtain (hmem | hmem) | hmem := hmem
    · exact decodeMany_all decodeRr_canonical hanswers rr hmem
    · exact decodeMany_all decodeRr_canonical hauthorities rr hmem
    · exact decodeMany_all decodeRr_canonical hadditionals rr hmem
  exact ⟨⟨hopcode, hrcode,
    decodeMany_all decodeQuestion_canonical hquestions,
    fun rr hmem => (hrecords rr hmem).1⟩, fun rr hmem => (hrecords rr hmem).2⟩

/-! ## Encoding fails for the length only -/

def OkOrTooLong {α : Type} (run : Run Error α) : Prop :=
  run = .err .messageTooLong ∨ ∃ value, run = .ok value

theorem OkOrTooLong.bind {α β : Type} {run : Run Error α}
    {next : α → Run Error β} (hrun : OkOrTooLong run)
    (hnext : ∀ value, run = .ok value → OkOrTooLong (next value)) :
    OkOrTooLong (run >>= next) := by
  obtain rfl | ⟨value, hvalue⟩ := hrun
  · exact .inl rfl
  · rw [hvalue, ok_bind]
    exact hnext value hvalue

theorem OkOrTooLong.ite {α : Type} {long : Prop} [Decidable long] (value : α) :
    OkOrTooLong (if long then .err .messageTooLong else .ok value) := by
  split_ifs
  · exact .inl rfl
  · exact .inr ⟨value, rfl⟩

theorem encodeMany_okOrTooLong {α : Type}
    {item : α → List UInt8 → Run Error (List UInt8)} {values : List α}
    (hitem : ∀ value ∈ values, ∀ buf, OkOrTooLong (item value buf))
    (buf : List UInt8) : OkOrTooLong (encodeMany item values buf) := by
  induction values generalizing buf with
  | nil => exact .inr ⟨buf, rfl⟩
  | cons first rest ih =>
    obtain ⟨hfirst, hrest⟩ := List.forall_mem_cons.mp hitem
    exact (hfirst buf).bind fun written _ => ih hrest written

theorem Message.encode_okOrTooLong {message : Message}
    (hquestions : ∀ question ∈ message.questions, question.name.Encodable)
    (hrecords : ∀ rr ∈ message.records,
      rr.name.Encodable ∧ rr.rdata.Encodable) :
    OkOrTooLong message.encode := by
  have hquestion : ∀ question ∈ message.questions, ∀ buf,
      OkOrTooLong (encodeQuestion question buf) := fun question hmem buf =>
    .inr ⟨_, encodeQuestion_eq_ok_iff.mpr ⟨hquestions question hmem, rfl⟩⟩
  have hrecord : ∀ rr ∈ message.records, ∀ buf,
      OkOrTooLong (encodeRr rr buf) := by
    intro rr hmem buf
    rw [encodeRr_eq (hrecords rr hmem).1 (hrecords rr hmem).2]
    exact .ite _
  have hcount : ∀ len, OkOrTooLong (toU16Count len) := fun len => .ite _
  refine (hcount _).bind fun qc _ => (hcount _).bind fun ac _ =>
    (hcount _).bind fun nsc _ => (hcount _).bind fun arc _ => ?_
  refine (encodeMany_okOrTooLong hquestion _).bind fun asked _ => ?_
  exact (encodeMany_okOrTooLong hrecord _).bind fun written _ => .ite _

/-- Decoding canonicalises: every name, type, class, code and TTL of the
message is in its one form, encoding it fails for the length only, and what it
is encoded to decodes to the same message and encodes to itself. -/
theorem decode_canonicalises {bytes : List UInt8} {message : Message}
    (hdecode : Message.decode bytes = .ok message) :
    message.Canonical ∧
      (message.encode = .err .messageTooLong ∨
        ∃ wire, message.encode = .ok wire) ∧
      ∀ wire, message.encode = .ok wire →
        Message.decode wire = .ok message ∧
          (Message.decode wire >>= Message.encode) = .ok wire := by
  obtain ⟨hcanonical, hdata⟩ := Message.decode_canonical hdecode
  refine ⟨hcanonical, ?_, ?_⟩
  · exact Message.encode_okOrTooLong
      (fun question hmem => (hcanonical.questions question hmem).name.encodable)
      (fun rr hmem =>
        ⟨(hcanonical.records rr hmem).name.encodable, hdata rr hmem⟩)
  · intro wire hencode
    obtain ⟨hencodable, _, hwire⟩ := Message.encode_eq_ok_iff.mp hencode
    have hback : Message.decode wire = .ok message :=
      Message.decode_of_holdsAt hcanonical hencodable
        (hwire ▸ List.prefix_refl _)
    exact ⟨hback, by rw [hback, ok_bind, hencode]⟩

def compressedResponse : List UInt8 :=
  [0x12, 0x34, 0x81, 0x80, 0, 1, 0, 1, 0, 0, 0, 0,
    1, 97, 0, 0, 1, 0, 1,
    0xC0, 12, 0, 1, 0, 1, 0, 0, 0, 60, 0, 4, 192, 0, 2, 1]

def compressedMessage : Message where
  header := ⟨0x1234, true, .query, false, false, true, true, .noError⟩
  questions := [⟨⟨[[97]]⟩, .a, .in⟩]
  answers := [⟨⟨[[97]]⟩, .a, .in, 60, .a #v[192, 0, 2, 1]⟩]
  authorities := []
  additionals := []

/-- The pointer is written out, and the longer form is stable. -/
theorem compressedResponse_canonicalised :
    Message.decode compressedResponse = .ok compressedMessage ∧
      ∃ wire, compressedMessage.encode = .ok wire ∧
        wire.length = compressedResponse.length + 1 ∧
        Message.decode wire = .ok compressedMessage :=
  have hdecode : Message.decode compressedResponse = .ok compressedMessage :=
    rfl
  ⟨hdecode, _, rfl, rfl, ((decode_canonicalises hdecode).2.2 _ rfl).1⟩

end DnsLattice
