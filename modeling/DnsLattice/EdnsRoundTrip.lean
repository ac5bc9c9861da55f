import DnsLattice.DecoderBounds
import DnsLattice.EdnsModel

/-!
# EDNS through the codec

What `set_edns` puts into a message is what `edns` reads, before and after the
message went through the wire.  The option parser accepts exactly the
serialisations of option lists.
-/

namespace DnsLattice

open Run

/-! ## The option parser -/

theorem u16ToBe_networkValue (high low : UInt8) :
    u16ToBe (UInt16.ofNat (networkValue [high, low])) = [high, low] := by
  have hhigh := high.toNat_lt
  have hlow := low.toNat_lt
  have hvalue : networkValue [high, low] = high.toNat * 256 + low.toNat := by
    simp [networkValue]
  have htoNat : (UInt16.ofNat (networkValue [high, low])).toNat =
      high.toNat * 256 + low.toNat := by
    rw [hvalue, toNat_ofNat_of_le_65535 (by omega)]
  have hdiv : (high.toNat * 256 + low.toNat) / 256 = high.toNat := by omega
  rw [u16ToBe, htoNat]
  simp only [networkBytes, pow_one, pow_zero, Nat.div_one, hdiv,
    UInt8.ofNat_toNat, List.cons.injEq, and_true, true_and]
  rw [← UInt8.toNat_inj, UInt8.toNat_ofNat']
  omega

/-- The first option of the data, if the data has room for one. -/
theorem parseOptions_cons (declared : UInt16) (fuel : ℕ)
    (code0 code1 len0 len1 : UInt8) (rest : List UInt8) :
    (∃ error, parseOptions declared (fuel + 1)
        (code0 :: code1 :: len0 :: len1 :: rest) = .error error ∧
        (error = .rdataLengthMismatch declared ∨
          ∃ count, parseOptions declared fuel (rest.drop count) =
            .error error)) ∨
      ∃ (option : EdnsOption) (behind : List UInt8) (options : List EdnsOption),
        code0 :: code1 :: len0 :: len1 :: rest = option.wire ++ behind ∧
        parseOptions declared fuel behind = .ok options ∧
        parseOptions declared (fuel + 1)
          (code0 :: code1 :: len0 :: len1 :: rest) =
            .ok (option :: options) := by
  simp only [parseOptions]
  by_cases hshort : rest.length <
      (UInt16.ofNat (networkValue [len0, len1])).toNat
  · rw [if_pos hshort]
    exact Or.inl ⟨_, rfl, Or.inl rfl⟩
  rw [if_neg hshort]
  cases hparse : parseOptions declared fuel
      (rest.drop (UInt16.ofNat (networkValue [len0, len1])).toNat) with
  | error error => exact Or.inl ⟨error, rfl, Or.inr ⟨_, hparse⟩⟩
  | ok options =>
    refine Or.inr ⟨_, _, options, ?_, hparse, rfl⟩
    have hlength :
        (rest.take (UInt16.ofNat (networkValue [len0, len1])).toNat).length =
          (UInt16.ofNat (networkValue [len0, len1])).toNat := by
      rw [List.length_take]
      omega
    simp only [EdnsOption.wire, hlength, UInt16.ofNat_toNat,
      u16ToBe_networkValue, List.take_append_drop, List.cons_append,
      List.nil_append]

theorem parseOptions_eq_ok {declared : UInt16} {fuel : ℕ} {data : List UInt8}
    {options : List EdnsOption} (hfuel : data.length ≤ fuel)
    (h : parseOptions declared fuel data = .ok options) :
    options.flatMap EdnsOption.wire = data := by
  induction fuel generalizing data options with
  | zero =>
    rw [List.length_eq_zero_iff.mp (Nat.le_zero.mp hfuel)] at h ⊢
    obtain rfl := Except.ok.inj h
    rfl
  | succ fuel ih =>
    match data with
    | [] =>
      obtain rfl := Except.ok.inj h
      rfl
    | [_] => cases h
    | [_, _] => cases h
    | [_, _, _] => cases h
    | code0 :: code1 :: len0 :: len1 :: rest =>
      rcases parseOptions_cons declared fuel code0 code1 len0 len1 rest with
        ⟨error, herror, _⟩ | ⟨option, behind, others, hdata, hothers, hok⟩
      · rw [herror] at h
        cases h
      · rw [hok] at h
        obtain rfl := Except.ok.inj h
        have hlength := congrArg List.length hdata
        rw [List.length_append, option.wire_length] at hlength
        rw [List.flatMap_cons, ih (by omega) hothers, hdata]

theorem parseOptions_eq_error {declared : UInt16} {fuel : ℕ}
    {data : List UInt8} {error : Error}
    (h : parseOptions declared fuel data = .error error) :
    error = .rdataLengthMismatch declared := by
  induction fuel generalizing data with
  | zero => cases h
  | succ fuel ih =>
    match data with
    | [] => cases h
    | [_] => exact (Except.error.inj h).symm
    | [_, _] => exact (Except.error.inj h).symm
    | [_, _, _] => exact (Except.error.inj h).symm
    | code0 :: code1 :: len0 :: len1 :: rest =>
      rcases parseOptions_cons declared fuel code0 code1 len0 len1 rest with
        ⟨found, hfound, hcase⟩ | ⟨option, behind, others, _, _, hok⟩
      · rw [hfound] at h
        obtain rfl := Except.error.inj h
        rcases hcase with hshort | ⟨count, hlater⟩
        · exact hshort
        · exact ih hlater
      · rw [hok] at h
        cases h

theorem parseOptions_eq_ok_iff {declared : UInt16} {data : List UInt8}
    {options : List EdnsOption} :
    parseOptions declared data.length data = .ok options ↔
      options.flatMap EdnsOption.wire = data := by
  constructor
  · exact parseOptions_eq_ok le_rfl
  · rintro rfl
    exact parseOptions_wire declared options _
      (flatMap_optionWire_length_ge options)

theorem fromRecord_options_iff {record : ResourceRecord} {data : List UInt8}
    (hroot : record.name.isRoot = true) (options : List EdnsOption) :
    (∃ edns, Edns.fromRecord record data = .ok edns ∧
      edns.options = options) ↔ options.flatMap EdnsOption.wire = data := by
  rw [← @parseOptions_eq_ok_iff (UInt16.ofNat (min data.length 65535)),
    Edns.fromRecord, hroot]
  simp only [Bool.not_true, Bool.false_eq_true, if_false]
  cases parseOptions (UInt16.ofNat (min data.length 65535)) data.length
      data with
  | error error => simp
  | ok found => simp

theorem fromRecord_eq_error {record : ResourceRecord} {data : List UInt8}
    (hroot : record.name.isRoot = true)
    (hnone : ¬∃ options : List EdnsOption,
      options.flatMap EdnsOption.wire = data) :
    Edns.fromRecord record data =
      .error (.rdataLengthMismatch (UInt16.ofNat (min data.length 65535))) := by
  rw [Edns.fromRecord, hroot]
  simp only [Bool.not_true, Bool.false_eq_true, if_false]
  cases hparse : parseOptions (UInt16.ofNat (min data.length 65535))
      data.length data with
  | error error => rw [parseOptions_eq_error hparse]
  | ok options =>
    exact absurd ⟨options, parseOptions_eq_ok_iff.mp hparse⟩ hnone

/-! ## Records on the wire -/

theorem isOpt_iff (record : ResourceRecord) :
    record.isOpt = true ↔ record.rdata.recordType = .other optRtype := by
  cases hrdata : record.rdata with
  | unknown rtype data =>
    by_cases hopt : rtype = optRtype <;>
      simp [ResourceRecord.isOpt, optData, hrdata, RData.recordType, hopt]
  | _ => simp [ResourceRecord.isOpt, optData, hrdata, RData.recordType]

theorem Edns.toRecord_canonical (edns : Edns) : edns.toRecord.Canonical where
  name := ⟨by simp [Edns.toRecord, Name.root],
    by simp [Edns.toRecord, Name.root],
    by simp [Edns.toRecord, Name.root, Name.wireLength]⟩
  rdata_names := trivial
  rtype_eq := rfl
  rtype := by
    rintro value ⟨⟩
    decide
  cls := canonical_optClass edns.udpPayloadSize
  opt_of_cls_zero := fun _ => rfl
  ttl_lt := fun h => absurd rfl h

/-- A record read from its wire form, canonical or not, ends where the wire
form does and is an OPT record if the encoded one was. -/
theorem decodeRr_of_wire {buf : List UInt8} {pos next : ℕ}
    {rr found : ResourceRecord} (hname : rr.name.WellFormed)
    (hencodable : rr.Encodable) (hbuf : HoldsAt buf pos rr.wire)
    (hdecode : decodeRr buf pos = .ok (found, next)) :
    next = pos + rr.wire.length ∧ found.isOpt = rr.isOpt := by
  have hlength : rr.wire.length =
      rr.name.wireLength + 2 + 2 + 4 + 2 + rr.rdata.wire.length := by
    simp [ResourceRecord.wire, ResourceRecord.headWire]
    omega
  simp only [ResourceRecord.wire, ResourceRecord.headWire,
    List.append_assoc] at hbuf
  have howner := decodeName_of_holdsAt hname hbuf.left
  have hrtype := readU16_of_holdsAt hbuf.right.left
  have hrdlength := readU16_of_holdsAt hbuf.right.right.right.right.left
  simp only [Name.wire_length, u16ToBe_length, u32ToBe_length]
    at hrtype hrdlength
  constructor
  · obtain ⟨⟨owner, after, rdlength, hfound, hread, hnext⟩, _⟩ :=
      (decodeRr_settled buf [] pos).value _ hdecode
    rw [howner] at hfound
    obtain ⟨_, rfl⟩ := Prod.mk.inj (Run.ok.inj hfound)
    rw [Nat.add_assoc _ 2 2, Nat.add_assoc _ (2 + 2) 4, hread] at hrdlength
    obtain ⟨rfl, _⟩ := Prod.mk.inj (Run.ok.inj hrdlength)
    rw [toNat_ofNat_of_le_65535 hencodable.length] at hnext
    change next = _ at hnext
    omega
  · obtain ⟨⟨owner, after⟩, hfound, hdecode⟩ := bind_eq_ok_iff.mp hdecode
    rw [howner] at hfound
    obtain ⟨_, rfl⟩ := Prod.mk.inj (Run.ok.inj hfound)
    obtain ⟨⟨rawType, afterType⟩, hraw, hdecode⟩ := bind_eq_ok_iff.mp hdecode
    rw [hrtype] at hraw
    obtain ⟨rfl, _⟩ := Prod.mk.inj (Run.ok.inj hraw)
    obtain ⟨_, _, hdecode⟩ := bind_eq_ok_iff.mp hdecode
    obtain ⟨_, _, hdecode⟩ := bind_eq_ok_iff.mp hdecode
    obtain ⟨_, _, hdecode⟩ := bind_eq_ok_iff.mp hdecode
    obtain ⟨_, _, hdecode⟩ := bind_eq_ok_iff.mp hdecode
    obtain ⟨⟨rdata, _⟩, hrdata, hdecode⟩ := bind_eq_ok_iff.mp hdecode
    obtain ⟨rfl, _⟩ := Prod.mk.inj (Run.ok.inj hdecode)
    rw [Bool.eq_iff_iff, isOpt_iff, isOpt_iff,
      (rdataDecode_decoded hrdata).recordType, fromU16_eq_opt_iff,
      RecordType.toU16_eq_optRtype_iff]

structure Question.ReadAs (question found : Question) : Prop where
  name : found.name = question.name
  qtype : found.qtype = .fromU16 question.qtype.toU16
  qclass : Class.fromU16 question.qclass.toU16 = .ok found.qclass

theorem decodeQuestion_of_wire {buf : List UInt8} {pos next : ℕ}
    {question found : Question} (hname : question.name.WellFormed)
    (hbuf : HoldsAt buf pos question.wire)
    (hdecode : decodeQuestion buf pos = .ok (found, next)) :
    next = pos + question.wire.length ∧ question.ReadAs found := by
  have hlength : question.wire.length = question.name.wireLength + 2 + 2 := by
    simp [Question.wire]
  simp only [Question.wire, List.append_assoc] at hbuf
  have hqtype := readU16_of_holdsAt hbuf.right.left
  have hqclass := readU16_of_holdsAt hbuf.right.right
  simp only [Name.wire_length, u16ToBe_length] at hqtype hqclass
  obtain ⟨⟨owner, after⟩, hfound, hdecode⟩ := bind_eq_ok_iff.mp hdecode
  rw [decodeName_of_holdsAt hname hbuf.left] at hfound
  obtain ⟨rfl, rfl⟩ := Prod.mk.inj (Run.ok.inj hfound)
  dsimp only at hdecode
  rw [hqtype, ok_bind] at hdecode
  dsimp only at hdecode
  rw [hqclass, ok_bind] at hdecode
  obtain ⟨cls, hcls, hdecode⟩ := bind_eq_ok_iff.mp hdecode
  obtain ⟨rfl, rfl⟩ := Prod.mk.inj (Run.ok.inj hdecode)
  exact ⟨by omega, rfl, rfl, ofExcept_eq_ok hcls⟩

theorem decodeMany_of_wire {α : Type} {buf : List UInt8}
    {item : ℕ → Run Error (α × ℕ)} {wire : α → List UInt8}
    {related : α → α → Prop} {items values : List α} {pos next : ℕ}
    (hitem : ∀ first ∈ items, ∀ pos value next, HoldsAt buf pos (wire first) →
      item pos = .ok (value, next) →
      next = pos + (wire first).length ∧ related first value)
    (hbuf : HoldsAt buf pos (items.flatMap wire))
    (hdecode : decodeMany item items.length pos = .ok (values, next)) :
    next = pos + (items.flatMap wire).length ∧
      List.Forall₂ related items values := by
  induction items generalizing pos values with
  | nil =>
    obtain ⟨rfl, rfl⟩ := Prod.mk.inj (Run.ok.inj hdecode)
    exact ⟨rfl, .nil⟩
  | cons first rest ih =>
    rw [List.flatMap_cons] at hbuf ⊢
    obtain ⟨⟨value, middle⟩, hvalue, hdecode⟩ := bind_eq_ok_iff.mp hdecode
    obtain ⟨⟨others, last⟩, hothers, hdecode⟩ := bind_eq_ok_iff.mp hdecode
    obtain ⟨rfl, rfl⟩ := Prod.mk.inj (Run.ok.inj hdecode)
    obtain ⟨rfl, hrelated⟩ := hitem first (by simp) pos value middle
      hbuf.left hvalue
    obtain ⟨hlast, hrest⟩ := ih (fun item hmem => hitem item (by simp [hmem]))
      hbuf.right hothers
    refine ⟨?_, .cons hrelated hrest⟩
    rw [List.length_append]
    change last = _ at hlast
    omega

/-! ## Messages on the wire -/

structure Message.NamesWellFormed (message : Message) : Prop where
  questions : ∀ question ∈ message.questions, question.name.WellFormed
  records : ∀ rr ∈ message.records, rr.name.WellFormed

def SameOpt (rr found : ResourceRecord) : Prop :=
  found.isOpt = rr.isOpt ∧ (rr.Canonical → found = rr)

theorem decodeSection_of_wire {buf : List UInt8} {pos next : ℕ}
    {records found : List ResourceRecord}
    (hnames : ∀ rr ∈ records, rr.name.WellFormed)
    (hencodable : ∀ rr ∈ records, rr.Encodable)
    (hbuf : HoldsAt buf pos (records.flatMap ResourceRecord.wire))
    (hdecode : decodeMany (decodeRr buf) records.length pos =
      .ok (found, next)) :
    next = pos + (records.flatMap ResourceRecord.wire).length ∧
      List.Forall₂ SameOpt records found := by
  refine decodeMany_of_wire ?_ hbuf hdecode
  intro rr hrr pos value next hwire hvalue
  obtain ⟨hnext, hopt⟩ := decodeRr_of_wire (hnames rr hrr) (hencodable rr hrr)
    hwire hvalue
  refine ⟨hnext, hopt, ?_⟩
  intro hcanonical
  rw [decodeRr_of_holdsAt hcanonical (hencodable rr hrr) hwire] at hvalue
  exact (Prod.mk.inj (Run.ok.inj hvalue)).1.symm

/-- The header and the questions of an encoding are read back, and the records
are decoded behind them. -/
theorem decode_of_questions_wire {message decoded : Message}
    {bytes : List UInt8}
    (hnames : ∀ question ∈ message.questions, question.name.WellFormed)
    (hencode : message.encode = .ok bytes)
    (hdecode : Message.decode bytes = .ok decoded) :
    decoded.header =
        decodeFlags message.header.id (encodeFlags message.header) ∧
      List.Forall₂ Question.ReadAs message.questions decoded.questions ∧
      ∃ q1 q2 q3 q4,
        HoldsAt bytes q1 (message.records.flatMap ResourceRecord.wire) ∧
        decodeMany (decodeRr bytes) message.answers.length q1 =
          .ok (decoded.answers, q2) ∧
        decodeMany (decodeRr bytes) message.authorities.length q2 =
          .ok (decoded.authorities, q3) ∧
        decodeMany (decodeRr bytes) message.additionals.length q3 =
          .ok (decoded.additionals, q4) := by
  obtain ⟨hencodable, _, hwire⟩ := Message.encode_eq_ok_iff.mp hencode
  have hbuf : HoldsAt bytes 0 message.wire := hwire ▸ List.prefix_refl _
  simp only [Message.wire, List.append_assoc] at hbuf
  have hbody := hbuf.right
  have hlength : (Message.headerWire message.header message.counts).length =
      12 := by
    simp [Message.headerWire]
  rw [hlength] at hbody
  obtain ⟨⟨⟨header, counts⟩, q0⟩, hheader, hdecode⟩ := bind_eq_ok_iff.mp hdecode
  rw [decodeHeader_counts_of_holdsAt hbuf.left] at hheader
  obtain ⟨hpair, rfl⟩ := Prod.mk.inj (Run.ok.inj hheader)
  obtain ⟨rfl, rfl⟩ := Prod.mk.inj hpair
  simp only [Message.counts, toNat_ofNat_of_le_65535 hencodable.questions_count,
    toNat_ofNat_of_le_65535 hencodable.answers_count,
    toNat_ofNat_of_le_65535 hencodable.authorities_count,
    toNat_ofNat_of_le_65535 hencodable.additionals_count] at hdecode
  obtain ⟨⟨questions, q1⟩, hquestions, hdecode⟩ := bind_eq_ok_iff.mp hdecode
  obtain ⟨⟨answers, q2⟩, hanswers, hdecode⟩ := bind_eq_ok_iff.mp hdecode
  obtain ⟨⟨authorities, q3⟩, hauthorities, hdecode⟩ := bind_eq_ok_iff.mp hdecode
  obtain ⟨⟨additionals, q4⟩, hadditionals, hdecode⟩ := bind_eq_ok_iff.mp hdecode
  obtain rfl := Run.ok.inj hdecode
  obtain ⟨rfl, hread⟩ := decodeMany_of_wire
    (fun question hmem pos value next hquestion hvalue =>
      decodeQuestion_of_wire (hnames question hmem) hquestion hvalue)
    hbody.left hquestions
  exact ⟨rfl, hread, _, q2, q3, q4, hbody.right, hanswers, hauthorities,
    hadditionals⟩

theorem additionals_of_decode_encode {message decoded : Message}
    {bytes : List UInt8} (hnames : message.NamesWellFormed)
    (hencode : message.encode = .ok bytes)
    (hdecode : Message.decode bytes = .ok decoded) :
    List.Forall₂ SameOpt message.additionals decoded.additionals := by
  obtain ⟨_, _, q1, q2, q3, q4, hbuf, hanswers, hauthorities, hadditionals⟩ :=
    decode_of_questions_wire hnames.questions hencode hdecode
  have hwell := hnames.records
  have hrecords := (Message.encode_eq_ok_iff.mp hencode).1.records
  simp only [Message.records, List.mem_append, or_imp, forall_and]
    at hwell hrecords
  simp only [Message.records, List.flatMap_append, List.append_assoc] at hbuf
  obtain ⟨rfl, _⟩ := decodeSection_of_wire hwell.1.1 hrecords.1.1
    hbuf.left hanswers
  obtain ⟨rfl, _⟩ := decodeSection_of_wire hwell.1.2 hrecords.1.2
    hbuf.right.left hauthorities
  exact (decodeSection_of_wire hwell.2 hrecords.2 hbuf.right.right
    hadditionals).2

theorem Message.NamesWellFormed.setEdns {message : Message}
    (h : message.NamesWellFormed) (edns : Edns) :
    (message.setEdns (some edns)).NamesWellFormed where
  questions := h.questions
  records := by
    intro rr hrr
    simp only [Message.records, Message.setEdns, Option.map_some,
      Option.toList_some, List.mem_append, List.mem_filter,
      List.mem_singleton] at hrr
    rcases hrr with hold | hadded | rfl
    · exact h.records rr (List.mem_append_left _ (List.mem_append.mpr hold))
    · exact h.records rr (List.mem_append_right _ hadded.1)
    · exact edns.toRecord_canonical.name

theorem exists_of_forall₂_concat {plain found : List ResourceRecord}
    {last : ResourceRecord} (h : List.Forall₂ SameOpt (plain ++ [last]) found)
    (hplain : ∀ record ∈ plain, record.isOpt = false) :
    ∃ front value, found = front ++ [value] ∧ SameOpt last value ∧
      ∀ record ∈ front, record.isOpt = false := by
  induction plain generalizing found with
  | nil =>
    obtain ⟨value, rest, hvalue, hrest, rfl⟩ := List.forall₂_cons_left_iff.mp h
    rw [List.forall₂_nil_left_iff.mp hrest]
    exact ⟨[], value, rfl, hvalue, by simp⟩
  | cons record others ih =>
    obtain ⟨value, rest, hvalue, hrest, rfl⟩ := List.forall₂_cons_left_iff.mp h
    obtain ⟨front, final, rfl, hfinal, hfront⟩ :=
      ih hrest fun other hother => hplain other (by simp [hother])
    refine ⟨value :: front, final, rfl, hfinal, ?_⟩
    intro other hother
    rcases List.mem_cons.mp hother with rfl | hmem
    · rw [hvalue.1]
      exact hplain record (by simp)
    · exact hfront other hmem

theorem edns_of_decode_encode {message decoded : Message} {edns : Edns}
    {bytes : List UInt8} (hnames : message.NamesWellFormed)
    (hencode : (message.setEdns (some edns)).encode = .ok bytes)
    (hdecode : Message.decode bytes = .ok decoded) :
    decoded.edns = .ok (some edns) := by
  have hsame := additionals_of_decode_encode (hnames.setEdns edns) hencode
    hdecode
  obtain ⟨front, value, hfound, hvalue, hfront⟩ := exists_of_forall₂_concat
    hsame (Message.filter_not_isOpt message.additionals)
  rw [hvalue.2 edns.toRecord_canonical] at hfound
  exact edns_of_additionals hfront hfound

/-- What `set_edns` puts into a message is what `edns` reads from it and from
the message its encoding decodes to, and the other additional records keep
their order; the parser of option data returns the options whose serialisation
the data is and fails with a length error if there are none. -/
theorem edns_survives_codec :
    (∀ (message : Message) (edns : Edns),
      (message.setEdns (some edns)).edns = .ok (some edns) ∧
      (message.setEdns (some edns)).additionals.filter
          (fun record => !record.isOpt) =
        message.additionals.filter (fun record => !record.isOpt) ∧
      (message.NamesWellFormed → ∀ bytes decoded,
        (message.setEdns (some edns)).encode = .ok bytes →
        Message.decode bytes = .ok decoded →
        decoded.edns = .ok (some edns))) ∧
    ∀ (record : ResourceRecord) (data : List UInt8),
      record.name.isRoot = true →
      (∀ options, (∃ edns, Edns.fromRecord record data = .ok edns ∧
        edns.options = options) ↔
          options.flatMap EdnsOption.wire = data) ∧
      ((¬∃ options : List EdnsOption,
          options.flatMap EdnsOption.wire = data) →
        Edns.fromRecord record data = .error (.rdataLengthMismatch
          (UInt16.ofNat (min data.length 65535)))) := by
  constructor
  · intro message edns
    refine ⟨message.edns_setEdns (some edns), ?_, ?_⟩
    · have hopt : edns.toRecord.isOpt = true := (isOpt_iff _).mpr rfl
      simp [Message.setEdns, hopt]
    · intro hnames bytes decoded hencode hdecode
      exact edns_of_decode_encode hnames hencode hdecode
  · intro record data hroot
    exact ⟨fromRecord_options_iff hroot, fromRecord_eq_error hroot⟩

/-- The payload sizes which are named classes or no class at all. -/
theorem edns_survives_codec_named_sizes :
    ∀ size ∈ [(0 : UInt16), 1, 3], ∃ bytes decoded,
      (compressedMessage.setEdns (some (.new size))).encode = .ok bytes ∧
      Message.decode bytes = .ok decoded ∧
      decoded.edns = .ok (some (.new size)) := by
  have hname : (⟨[[97]]⟩ : Name).WellFormed :=
    ⟨by decide, by decide, by decide⟩
  have hnames : compressedMessage.NamesWellFormed :=
    ⟨by simpa [compressedMessage] using hname,
      by simpa [compressedMessage, Message.records] using hname⟩
  intro size hsize
  simp only [List.mem_cons, List.not_mem_nil, or_false] at hsize
  rcases hsize with rfl | rfl | rfl
  · exact ⟨_, _, rfl, rfl, (edns_survives_codec.1 compressedMessage _).2.2
      hnames _ _ rfl rfl⟩
  · exact ⟨_, _, rfl, rfl, (edns_survives_codec.1 compressedMessage _).2.2
      hnames _ _ rfl rfl⟩
  · exact ⟨_, _, rfl, rfl, (edns_survives_codec.1 compressedMessage _).2.2
      hnames _ _ rfl rfl⟩

/-- A question of class zero encodes, with EDNS or without, but the decoder
rejects the encoding. -/
theorem class_zero_question_not_decoded :
    let message : Message :=
      ⟨⟨0, false, .query, false, false, true, false, .noError⟩,
        [⟨.root, .a, .other 0⟩], [], [], []⟩
    ∃ bytes, (message.setEdns (some (.new 1232))).encode = .ok bytes ∧
      Message.decode bytes = .err (.invalidClass 0) :=
  ⟨_, rfl, rfl⟩

end DnsLattice
