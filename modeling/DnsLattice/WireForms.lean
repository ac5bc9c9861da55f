import DnsLattice.MessageWire

/-!
# What the encoders append

Every encoder either fails or appends a byte string that depends on the value
alone.  The wire forms are defined here once, and each encoder gets one
specification: when it succeeds, and what it appends.
-/

namespace DnsLattice

open Run

/-! ## Names -/

def labelWire (label : List UInt8) : List UInt8 :=
  UInt8.ofNat label.length :: label

def Name.wire (name : Name) : List UInt8 :=
  name.labels.flatMap labelWire ++ [0]

/-- The limits which `encode_name` checks. -/
def Name.Encodable (name : Name) : Prop :=
  name.wireLength ≤ 255 ∧ ∀ label ∈ name.labels, label.length ≤ 63

theorem Name.WellFormed.encodable
    {name : Name} (h : name.WellFormed) : name.Encodable :=
  ⟨h.wire_le, h.label_le⟩

theorem flatMap_labelWire_length (labels : List Label) :
    (labels.flatMap labelWire).length =
      (labels.map fun label => label.length + 1).sum := by
  induction labels with
  | nil => rfl
  | cons label rest ih =>
    rw [List.flatMap_cons, List.length_append, ih]
    simp [labelWire]

@[simp] theorem Name.wire_length (name : Name) :
    name.wire.length = name.wireLength := by
  rw [Name.wire, Name.wireLength, List.length_append, flatMap_labelWire_length]
  rfl

theorem encodePrefixed_eq_ok_iff
    {limit : ℕ} {strings : List (List UInt8)} {buf out : List UInt8} :
    encodePrefixed limit strings buf = .ok out ↔
      (∀ string ∈ strings, string.length ≤ limit) ∧
        out = buf ++ strings.flatMap labelWire := by
  induction strings generalizing buf with
  | nil => simp [encodePrefixed, eq_comm]
  | cons string rest ih =>
    unfold encodePrefixed
    split_ifs with hlong
    · simp only [List.mem_cons, forall_eq_or_imp, false_iff]
      rintro ⟨⟨hle, _⟩, _⟩
      omega
    · rw [ih]
      simp only [List.mem_cons, forall_eq_or_imp, List.flatMap_cons,
        labelWire, List.append_assoc, List.cons_append, List.nil_append]
      constructor
      · rintro ⟨hrest, rfl⟩
        exact ⟨⟨by omega, hrest⟩, rfl⟩
      · rintro ⟨⟨_, hrest⟩, rfl⟩
        exact ⟨hrest, rfl⟩

theorem encodeName_eq_ok_iff {name : Name} {buf out : List UInt8} :
    encodeName name buf = .ok out ↔
      name.Encodable ∧ out = buf ++ name.wire := by
  unfold encodeName Name.checkTotalLength
  split_ifs with hlong
  · simp only [err_bind, reduceCtorEq, false_iff]
    rintro ⟨⟨hle, _⟩, _⟩
    omega
  · simp only [ok_bind, bind_eq_ok_iff, encodePrefixed_eq_ok_iff, pure_eq_ok,
      Run.ok.injEq]
    constructor
    · rintro ⟨_, ⟨hlabels, rfl⟩, rfl⟩
      exact ⟨⟨by omega, hlabels⟩, by simp [Name.wire]⟩
    · rintro ⟨⟨_, hlabels⟩, rfl⟩
      exact ⟨_, ⟨hlabels, rfl⟩, by simp [Name.wire]⟩

/-! ## Record data -/

def RData.wire : RData → List UInt8
  | .a addr => addr.toList
  | .aaaa addr => addr.toList
  | .cname name => name.wire
  | .ptr name => name.wire
  | .ns name => name.wire
  | .txt strings => strings.flatMap labelWire
  | .mx preference exchange => u16ToBe preference ++ exchange.wire
  | .soa mname rname serial refresh retry expire minimum =>
      mname.wire ++ rname.wire ++ u32ToBe serial ++ u32ToBe refresh ++
        u32ToBe retry ++ u32ToBe expire ++ u32ToBe minimum
  | .unknown _ data => data

/-- The limits which `RData::encode` checks. -/
def RData.Encodable : RData → Prop
  | .cname name => name.Encodable
  | .ptr name => name.Encodable
  | .ns name => name.Encodable
  | .txt strings => ∀ string ∈ strings, string.length ≤ 255
  | .mx _ exchange => exchange.Encodable
  | .soa mname rname _ _ _ _ _ => mname.Encodable ∧ rname.Encodable
  | .a _ => True
  | .aaaa _ => True
  | .unknown _ _ => True

theorem rdataEncode_eq_ok_iff {rdata : RData} {buf out : List UInt8} :
    rdata.encode buf = .ok out ↔
      rdata.Encodable ∧ out = buf ++ rdata.wire := by
  cases rdata with
  | a addr => simp [RData.encode, RData.Encodable, RData.wire, eq_comm]
  | aaaa addr => simp [RData.encode, RData.Encodable, RData.wire, eq_comm]
  | cname name => exact encodeName_eq_ok_iff
  | ptr name => exact encodeName_eq_ok_iff
  | ns name => exact encodeName_eq_ok_iff
  | txt strings => exact encodePrefixed_eq_ok_iff
  | mx preference exchange =>
    simp [RData.encode, RData.Encodable, RData.wire, encodeName_eq_ok_iff,
      writeU16, List.append_assoc]
  | soa mname rname serial refresh retry expire minimum =>
    simp only [RData.encode, RData.Encodable, RData.wire, bind_eq_ok_iff,
      encodeName_eq_ok_iff, pure_eq_ok, Run.ok.injEq, writeU32]
    constructor
    · rintro ⟨_, ⟨hm, rfl⟩, _, ⟨hr, rfl⟩, rfl⟩
      exact ⟨⟨hm, hr⟩, by simp [List.append_assoc]⟩
    · rintro ⟨⟨hm, hr⟩, rfl⟩
      exact ⟨_, ⟨hm, rfl⟩, _, ⟨hr, rfl⟩, by simp [List.append_assoc]⟩
  | unknown rtype data =>
    simp [RData.encode, RData.Encodable, RData.wire, eq_comm]

/-! ## Questions and records -/

def Question.wire (question : Question) : List UInt8 :=
  question.name.wire ++ u16ToBe question.qtype.toU16 ++
    u16ToBe question.qclass.toU16

theorem encodeQuestion_eq_ok_iff {question : Question} {buf out : List UInt8} :
    encodeQuestion question buf = .ok out ↔
      question.name.Encodable ∧ out = buf ++ question.wire := by
  simp only [encodeQuestion, bind_eq_ok_iff, encodeName_eq_ok_iff, pure_eq_ok,
    Run.ok.injEq, writeU16, Question.wire]
  constructor
  · rintro ⟨_, ⟨hname, rfl⟩, rfl⟩
    exact ⟨hname, by simp [List.append_assoc]⟩
  · rintro ⟨hname, rfl⟩
    exact ⟨_, ⟨hname, rfl⟩, by simp [List.append_assoc]⟩

def ResourceRecord.headWire (rr : ResourceRecord) : List UInt8 :=
  rr.name.wire ++ u16ToBe rr.rdata.recordType.toU16 ++
    u16ToBe rr.cls.toU16 ++ u32ToBe rr.ttl

def ResourceRecord.wire (rr : ResourceRecord) : List UInt8 :=
  rr.headWire ++ u16ToBe (UInt16.ofNat rr.rdata.wire.length) ++ rr.rdata.wire

structure ResourceRecord.Encodable (rr : ResourceRecord) : Prop where
  name : rr.name.Encodable
  rdata : rr.rdata.Encodable
  length : rr.rdata.wire.length ≤ 65535

@[simp] theorem u16ToBe_length (value : UInt16) :
    (u16ToBe value).length = 2 := by
  simp [u16ToBe]

@[simp] theorem u32ToBe_length (value : UInt32) :
    (u32ToBe value).length = 4 := by
  simp [u32ToBe]

theorem copyFromSlice_append {α ε : Type} {front room patch : List α}
    (h : patch.length ≤ room.length) :
    (copyFromSlice (front ++ room) front.length patch : Run ε (List α)) =
      .ok (front ++ patch ++ room.drop patch.length) := by
  unfold copyFromSlice
  rw [if_pos (by rw [List.length_append]; omega)]
  simp [List.drop_append]

theorem encodeRr_eq {rr : ResourceRecord} {buf : List UInt8}
    (hname : rr.name.Encodable) (hdata : rr.rdata.Encodable) :
    encodeRr rr buf =
      if rr.rdata.wire.length > 65535 then .err .messageTooLong
      else .ok (buf ++ rr.wire) := by
  have hhead : writeU32 (writeU16 (writeU16 (buf ++ rr.name.wire)
      rr.rdata.recordType.toU16) rr.cls.toU16) rr.ttl = buf ++ rr.headWire := by
    simp [writeU16, writeU32, ResourceRecord.headWire, List.append_assoc]
  have hlen :
      (sub (buf ++ rr.headWire ++ [0, 0] ++ rr.rdata.wire).length
        (buf ++ rr.headWire ++ [0, 0]).length : Run Error ℕ) =
        .ok rr.rdata.wire.length := by
    have hlength : (buf ++ rr.headWire ++ [0, 0] ++ rr.rdata.wire).length =
        (buf ++ rr.headWire ++ [0, 0]).length + rr.rdata.wire.length :=
      List.length_append
    rw [hlength, sub, if_pos (by omega), Nat.add_sub_cancel_left]
  have hcopy := @copyFromSlice_append _ Error (buf ++ rr.headWire)
    ([0, 0] ++ rr.rdata.wire) (u16ToBe (UInt16.ofNat rr.rdata.wire.length))
    (by simp)
  rw [← List.append_assoc] at hcopy
  unfold encodeRr
  rw [encodeName_eq_ok_iff.mpr ⟨hname, rfl⟩, ok_bind]
  dsimp only
  rw [hhead, rdataEncode_eq_ok_iff.mpr ⟨hdata, rfl⟩, ok_bind, hlen, ok_bind,
    hcopy]
  simp [ResourceRecord.wire, List.append_assoc]

theorem encodeRr_eq_ok_iff {rr : ResourceRecord} {buf out : List UInt8} :
    encodeRr rr buf = .ok out ↔ rr.Encodable ∧ out = buf ++ rr.wire := by
  constructor
  · intro h
    obtain ⟨named, hnamed, hcoded⟩ := bind_eq_ok_iff.mp h
    obtain ⟨coded, hcoded, _⟩ := bind_eq_ok_iff.mp hcoded
    have hname := (encodeName_eq_ok_iff.mp hnamed).1
    have hdata := (rdataEncode_eq_ok_iff.mp hcoded).1
    rw [encodeRr_eq hname hdata] at h
    split_ifs at h with hlong
    exact ⟨⟨hname, hdata, by omega⟩, (Run.ok.inj h).symm⟩
  · rintro ⟨⟨hname, hdata, hlong⟩, rfl⟩
    rw [encodeRr_eq hname hdata, if_neg (by omega)]

/-! ## Messages -/

theorem encodeMany_eq_ok_iff
    {α : Type} {item : α → List UInt8 → Run Error (List UInt8)}
    {Encodable : α → Prop} {wire : α → List UInt8}
    (hitem : ∀ value buf out,
      item value buf = .ok out ↔ Encodable value ∧ out = buf ++ wire value)
    {values : List α} {buf out : List UInt8} :
    encodeMany item values buf = .ok out ↔
      (∀ value ∈ values, Encodable value) ∧
        out = buf ++ values.flatMap wire := by
  induction values generalizing buf with
  | nil => simp [encodeMany, eq_comm]
  | cons value rest ih =>
    simp only [encodeMany, bind_eq_ok_iff, hitem, ih, List.mem_cons,
      forall_eq_or_imp, List.flatMap_cons]
    constructor
    · rintro ⟨_, ⟨hvalue, rfl⟩, hrest, rfl⟩
      exact ⟨⟨hvalue, hrest⟩, by simp [List.append_assoc]⟩
    · rintro ⟨⟨hvalue, hrest⟩, rfl⟩
      exact ⟨_, ⟨hvalue, rfl⟩, hrest, by simp [List.append_assoc]⟩

theorem encodeQuestions_eq_ok_iff
    {questions : List Question} {buf out : List UInt8} :
    encodeMany encodeQuestion questions buf = .ok out ↔
      (∀ question ∈ questions, question.name.Encodable) ∧
        out = buf ++ questions.flatMap Question.wire :=
  have hitem : ∀ question buf out, encodeQuestion question buf = .ok out ↔
      (fun question : Question => question.name.Encodable) question ∧
        out = buf ++ question.wire :=
    fun _ _ _ => encodeQuestion_eq_ok_iff
  encodeMany_eq_ok_iff hitem

theorem encodeRecords_eq_ok_iff
    {records : List ResourceRecord} {buf out : List UInt8} :
    encodeMany encodeRr records buf = .ok out ↔
      (∀ rr ∈ records, rr.Encodable) ∧
        out = buf ++ records.flatMap ResourceRecord.wire :=
  have hitem : ∀ rr buf out, encodeRr rr buf = .ok out ↔
      rr.Encodable ∧ out = buf ++ rr.wire :=
    fun _ _ _ => encodeRr_eq_ok_iff
  encodeMany_eq_ok_iff hitem

namespace Message

def records (message : Message) : List ResourceRecord :=
  message.answers ++ message.authorities ++ message.additionals

def counts (message : Message) : Counts where
  questions := UInt16.ofNat message.questions.length
  answers := UInt16.ofNat message.answers.length
  authorities := UInt16.ofNat message.authorities.length
  additionals := UInt16.ofNat message.additionals.length

def headerWire (header : Header) (counts : Counts) : List UInt8 :=
  u16ToBe header.id ++ u16ToBe (encodeFlags header) ++
    u16ToBe counts.questions ++ u16ToBe counts.answers ++
    u16ToBe counts.authorities ++ u16ToBe counts.additionals

def wire (message : Message) : List UInt8 :=
  headerWire message.header message.counts ++
    message.questions.flatMap Question.wire ++
    message.records.flatMap ResourceRecord.wire

/-- Everything `encode_into` checks except the final length. -/
structure Encodable (message : Message) : Prop where
  questions_count : message.questions.length ≤ 65535
  answers_count : message.answers.length ≤ 65535
  authorities_count : message.authorities.length ≤ 65535
  additionals_count : message.additionals.length ≤ 65535
  questions : ∀ question ∈ message.questions, question.name.Encodable
  records : ∀ rr ∈ message.records, rr.Encodable

theorem encodeHeader_eq (header : Header) (counts : Counts) (buf : List UInt8) :
    encodeHeader header counts buf = buf ++ headerWire header counts := by
  simp [encodeHeader, headerWire, writeU16, List.append_assoc]

theorem toU16Count_eq_ok_iff {len : ℕ} {count : UInt16} :
    toU16Count len = .ok count ↔ len ≤ 65535 ∧ count = UInt16.ofNat len := by
  unfold toU16Count
  split_ifs with hlong
  · simp only [false_iff]
    rintro ⟨hle, _⟩
    omega
  · simp only [Run.ok.injEq]
    constructor
    · rintro rfl
      exact ⟨by omega, rfl⟩
    · rintro ⟨_, rfl⟩
      rfl

/-- `encode_into` appends the wire form, or fails; the length limit is on the
whole buffer. -/
theorem encodeInto_eq_ok_iff {message : Message} {buf out : List UInt8} :
    message.encodeInto buf = .ok out ↔
      message.Encodable ∧ (buf ++ message.wire).length ≤ 65535 ∧
        out = buf ++ message.wire := by
  have hbody :
      buf ++ headerWire message.header message.counts ++
          message.questions.flatMap Question.wire ++
          (message.answers ++ message.authorities ++
            message.additionals).flatMap ResourceRecord.wire =
        buf ++ message.wire := by
    simp [wire, Message.records, List.append_assoc]
  constructor
  · intro h
    obtain ⟨qc, hcount, h⟩ := bind_eq_ok_iff.mp h
    obtain ⟨hqc, rfl⟩ := toU16Count_eq_ok_iff.mp hcount
    obtain ⟨ac, hcount, h⟩ := bind_eq_ok_iff.mp h
    obtain ⟨hac, rfl⟩ := toU16Count_eq_ok_iff.mp hcount
    obtain ⟨nsc, hcount, h⟩ := bind_eq_ok_iff.mp h
    obtain ⟨hnsc, rfl⟩ := toU16Count_eq_ok_iff.mp hcount
    obtain ⟨arc, hcount, h⟩ := bind_eq_ok_iff.mp h
    obtain ⟨harc, rfl⟩ := toU16Count_eq_ok_iff.mp hcount
    dsimp only at h
    rw [encodeHeader_eq] at h
    obtain ⟨asked, hasked, h⟩ := bind_eq_ok_iff.mp h
    obtain ⟨hquestions, rfl⟩ := encodeQuestions_eq_ok_iff.mp hasked
    obtain ⟨coded, hcoded, h⟩ := bind_eq_ok_iff.mp h
    obtain ⟨hrecords, rfl⟩ := encodeRecords_eq_ok_iff.mp hcoded
    split_ifs at h with hlong
    have hout : out = buf ++ message.wire := (Run.ok.inj h).symm.trans hbody
    refine ⟨⟨hqc, hac, hnsc, harc, hquestions, hrecords⟩, ?_, hout⟩
    rw [← hout, ← Run.ok.inj h]
    omega
  · rintro ⟨hencodable, hlong, rfl⟩
    have hrecords : ∀ rr ∈ message.answers ++ message.authorities ++
        message.additionals, rr.Encodable := hencodable.records
    unfold encodeInto
    rw [toU16Count_eq_ok_iff.mpr ⟨hencodable.questions_count, rfl⟩, ok_bind,
      toU16Count_eq_ok_iff.mpr ⟨hencodable.answers_count, rfl⟩, ok_bind,
      toU16Count_eq_ok_iff.mpr ⟨hencodable.authorities_count, rfl⟩, ok_bind,
      toU16Count_eq_ok_iff.mpr ⟨hencodable.additionals_count, rfl⟩, ok_bind]
    dsimp only
    rw [encodeHeader_eq,
      encodeQuestions_eq_ok_iff.mpr
        ⟨hencodable.questions, rfl⟩, ok_bind,
      encodeRecords_eq_ok_iff.mpr
        ⟨hrecords, rfl⟩, ok_bind]
    change (if (buf ++ headerWire message.header message.counts ++ _ ++
      _).length > 65535 then _ else _) = _
    rw [hbody, if_neg (by omega)]
    exact congrArg Run.ok hbody

theorem encode_eq_ok_iff {message : Message} {out : List UInt8} :
    message.encode = .ok out ↔
      message.Encodable ∧ message.wire.length ≤ 65535 ∧
        out = message.wire := by
  have h : message.encodeInto [] = .ok out ↔ _ := encodeInto_eq_ok_iff
  simpa [encode] using h

/-- A message is appended as it is encoded alone exactly when it still fits
behind what the buffer holds. -/
theorem encodeInto_agrees_iff (message : Message) (buf : List UInt8) :
    (((∃ out, message.encodeInto buf = .ok out) ↔
        ∃ bytes, message.encode = .ok bytes) ∧
      ∀ out, message.encodeInto buf = .ok out →
        ∃ bytes, message.encode = .ok bytes ∧ out = buf ++ bytes) ↔
      ∀ bytes, message.encode = .ok bytes →
        buf.length + bytes.length ≤ 65535 := by
  simp only [encodeInto_eq_ok_iff, encode_eq_ok_iff, List.length_append]
  constructor
  · rintro ⟨hiff, _⟩ bytes ⟨hencodable, hlength, rfl⟩
    obtain ⟨out, _, hfits, _⟩ := hiff.mpr ⟨_, hencodable, hlength, rfl⟩
    exact hfits
  · intro hfits
    refine ⟨⟨?_, ?_⟩, ?_⟩
    · rintro ⟨out, hencodable, hlength, _⟩
      exact ⟨_, hencodable, by omega, rfl⟩
    · rintro ⟨bytes, hencodable, hlength, rfl⟩
      exact ⟨_, hencodable, hfits _ ⟨hencodable, hlength, rfl⟩, rfl⟩
    · rintro out ⟨hencodable, hlength, rfl⟩
      exact ⟨_, ⟨hencodable, by omega, rfl⟩, rfl⟩

/-- Behind 65535 bytes not even a header is encoded. -/
theorem encodeInto_full_buffer :
    let message : Message :=
      ⟨⟨0, false, .query, false, false, true, false, .noError⟩, [], [], [], []⟩
    message.encode = .ok [0, 0, 1, 0, 0, 0, 0, 0, 0, 0, 0, 0] ∧
      message.encodeInto (List.replicate 65535 0) = .err .messageTooLong := by
  intro message
  have hfull : ∀ buf : List UInt8, buf.length = 65535 →
      message.encodeInto buf = .err .messageTooLong := by
    intro buf hbuf
    change (if (encodeHeader message.header ⟨0, 0, 0, 0⟩ buf).length > 65535
      then _ else _) = _
    rw [encodeHeader_eq, if_pos]
    simp [headerWire, hbuf]
  exact ⟨by decide, hfull _ List.length_replicate⟩

end Message

/-! ## Encoding never fails to return -/

theorem encodePrefixed_returns (limit : ℕ) (strings : List (List UInt8))
    (buf : List UInt8) : (encodePrefixed limit strings buf).Returns := by
  induction strings generalizing buf with
  | nil => exact .inl ⟨_, rfl⟩
  | cons string rest ih =>
    rw [encodePrefixed]
    split_ifs
    · exact .inr ⟨_, rfl⟩
    · exact ih _

theorem encodeName_returns (name : Name) (buf : List UInt8) :
    (encodeName name buf).Returns :=
  returns_ite.bind fun _ _ => (encodePrefixed_returns _ _ _).bind
    fun _ _ => .inl ⟨_, rfl⟩

theorem rdataEncode_returns (rdata : RData) (buf : List UInt8) :
    (rdata.encode buf).Returns := by
  cases rdata with
  | a addr => exact .inl ⟨_, rfl⟩
  | aaaa addr => exact .inl ⟨_, rfl⟩
  | cname name => exact encodeName_returns _ _
  | ptr name => exact encodeName_returns _ _
  | ns name => exact encodeName_returns _ _
  | txt strings => exact encodePrefixed_returns _ _ _
  | mx preference exchange => exact encodeName_returns _ _
  | soa mname rname serial refresh retry expire minimum =>
    exact (encodeName_returns _ _).bind fun _ _ =>
      (encodeName_returns _ _).bind fun _ _ => .inl ⟨_, rfl⟩
  | unknown code data => exact .inl ⟨_, rfl⟩

theorem encodeRr_returns (rr : ResourceRecord) (buf : List UInt8) :
    (encodeRr rr buf).Returns := by
  refine (encodeName_returns _ _).bind fun named hnamed =>
    (rdataEncode_returns _ _).bind fun coded hcoded => ?_
  have heq := @encodeRr_eq rr buf (encodeName_eq_ok_iff.mp hnamed).1
    (rdataEncode_eq_ok_iff.mp hcoded).1
  rw [encodeRr, hnamed, ok_bind] at heq
  dsimp only at heq
  rw [hcoded, ok_bind] at heq
  exact heq ▸ returns_ite

theorem encodeMany_returns {α : Type}
    {item : α → List UInt8 → Run Error (List UInt8)}
    (hitem : ∀ value buf, (item value buf).Returns) (values : List α)
    (buf : List UInt8) : (encodeMany item values buf).Returns := by
  induction values generalizing buf with
  | nil => exact .inl ⟨_, rfl⟩
  | cons value rest ih => exact (hitem value buf).bind fun _ _ => ih _

theorem Message.encode_returns (message : Message) :
    message.encode.Returns := by
  have hcount : ∀ len, (toU16Count len).Returns := fun _ => returns_ite
  have hquestion : ∀ question buf, (encodeQuestion question buf).Returns :=
    fun _ _ => (encodeName_returns _ _).bind fun _ _ => .inl ⟨_, rfl⟩
  exact (hcount _).bind fun _ _ => (hcount _).bind fun _ _ =>
    (hcount _).bind fun _ _ => (hcount _).bind fun _ _ =>
    (encodeMany_returns hquestion _ _).bind fun _ _ =>
    (encodeMany_returns encodeRr_returns _ _).bind fun _ _ => returns_ite

end DnsLattice
