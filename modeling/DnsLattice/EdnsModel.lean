import DnsLattice.WireForms

/-!
# EDNS(0)

The typed form of the OPT pseudo-record, how it is read from the additional
section of a message and how it is put back.  An option cannot be built with
more data than its 16-bit length field describes.
-/

namespace DnsLattice

def dnssecOkBit : UInt32 := 0x00008000

structure EdnsOption where
  code : UInt16
  data : List UInt8
  data_le : data.length ≤ 65535
  deriving DecidableEq, Repr

structure Edns where
  udpPayloadSize : UInt16
  extendedRcode : UInt8
  version : UInt8
  dnssecOk : Bool
  options : List EdnsOption
  deriving DecidableEq, Repr

namespace Edns

def new (udpPayloadSize : UInt16) : Edns where
  udpPayloadSize := udpPayloadSize
  extendedRcode := 0
  version := 0
  dnssecOk := false
  options := []

def clearOptions (edns : Edns) : Edns :=
  { edns with options := [] }

end Edns

theorem length_take_toNat_le (rest : List UInt8) (len : UInt16) :
    (rest.take len.toNat).length ≤ 65535 := by
  have hlen := len.toNat_lt
  simp only [List.length_take]
  omega

/-- The `while pos < data.len()` loop of `from_record` on the bytes from `pos`
on; every iteration consumes at least the four bytes of an option header. -/
def parseOptions (declared : UInt16) :
    ℕ → List UInt8 → Except Error (List EdnsOption)
  | 0, _ => .ok []
  | _ + 1, [] => .ok []
  | fuel + 1, code0 :: code1 :: len0 :: len1 :: rest =>
      let code := UInt16.ofNat (networkValue [code0, code1])
      let len := UInt16.ofNat (networkValue [len0, len1])
      if rest.length < len.toNat then .error (.rdataLengthMismatch declared)
      else
        match parseOptions declared fuel (rest.drop len.toNat) with
        | .error error => .error error
        | .ok options =>
            .ok (⟨code, rest.take len.toNat, length_take_toNat_le rest len⟩ ::
              options)
  | _ + 1, _ => .error (.rdataLengthMismatch declared)

def EdnsOption.wire (option : EdnsOption) : List UInt8 :=
  u16ToBe option.code ++ u16ToBe (UInt16.ofNat option.data.length) ++
    option.data

namespace Edns

def fromRecord (record : ResourceRecord) (data : List UInt8) :
    Except Error Edns :=
  if !record.name.isRoot then .error .invalidName
  else
    let declared := UInt16.ofNat (min data.length 65535)
    match parseOptions declared data.length data with
    | .error error => .error error
    | .ok options =>
        .ok
          { udpPayloadSize := record.cls.toU16
            extendedRcode := (record.ttl >>> 24).toUInt8
            version := (record.ttl >>> 16).toUInt8
            dnssecOk := record.ttl &&& dnssecOkBit != 0
            options := options }

def optTtl (edns : Edns) : UInt32 :=
  let ttl := (edns.extendedRcode.toUInt32 <<< 24) |||
    (edns.version.toUInt32 <<< 16)
  if edns.dnssecOk then ttl ||| dnssecOkBit else ttl

def toRecord (edns : Edns) : ResourceRecord where
  name := .root
  rtype := .other optRtype
  cls := optClass edns.udpPayloadSize
  ttl := edns.optTtl
  rdata := .unknown optRtype (edns.options.flatMap EdnsOption.wire)

end Edns

def ResourceRecord.isOpt (record : ResourceRecord) : Bool :=
  (optData record.rdata).isSome

/-- The loop of `Message::edns`: at most one OPT record may be found. -/
def findOpt :
    Option (ResourceRecord × List UInt8) → List ResourceRecord →
      Except Error (Option (ResourceRecord × List UInt8))
  | found, [] => .ok found
  | found, record :: rest =>
      match optData record.rdata with
      | none => findOpt found rest
      | some data =>
          if found.isSome then .error .countMismatch
          else findOpt (some (record, data)) rest

namespace Message

def edns (message : Message) : Except Error (Option Edns) :=
  match findOpt none message.additionals with
  | .error error => .error error
  | .ok none => .ok none
  | .ok (some (record, data)) =>
      match Edns.fromRecord record data with
      | .error error => .error error
      | .ok edns => .ok (some edns)

def setEdns (message : Message) (edns : Option Edns) : Message :=
  { message with
    additionals := message.additionals.filter (fun record => !record.isOpt) ++
      (edns.map Edns.toRecord).toList }

end Message

/-! ## Options -/

theorem uint16_ofNat_networkValue_u16ToBe (value : UInt16) :
    UInt16.ofNat (networkValue (u16ToBe value)) = value := by
  have hvalue : networkValue (u16ToBe value) = value.toNat :=
    networkValue_networkBytes_of_lt value.toNat_lt
  rw [hvalue, UInt16.ofNat_toNat]

theorem EdnsOption.wire_length (option : EdnsOption) :
    option.wire.length = 4 + option.data.length := by
  simp [EdnsOption.wire]
  omega

theorem parseOptions_wire (declared : UInt16) (options : List EdnsOption)
    (fuel : ℕ) (hfuel : options.length ≤ fuel) :
    parseOptions declared fuel (options.flatMap EdnsOption.wire) =
      .ok options := by
  induction options generalizing fuel with
  | nil => cases fuel <;> rfl
  | cons option rest ih =>
    obtain ⟨fuel, rfl⟩ : ∃ n, fuel = n + 1 :=
      ⟨fuel - 1, by rw [List.length_cons] at hfuel; omega⟩
    have hlen : (UInt16.ofNat option.data.length).toNat =
        option.data.length := by
      have hle := option.data_le
      rw [UInt16.toNat_ofNat']
      omega
    have hcode := uint16_ofNat_networkValue_u16ToBe option.code
    have hcount := uint16_ofNat_networkValue_u16ToBe
      (UInt16.ofNat option.data.length)
    simp only [u16ToBe, networkBytes] at hcode hcount
    rw [List.flatMap_cons]
    simp only [EdnsOption.wire, u16ToBe, networkBytes, List.cons_append,
      List.nil_append, parseOptions]
    simp only [hcode, hcount]
    simp only [hlen]
    rw [if_neg (by simp), List.drop_left, ih fuel (by simpa using hfuel)]
    simp only [List.take_left]

theorem flatMap_optionWire_length_ge (options : List EdnsOption) :
    options.length ≤ (options.flatMap EdnsOption.wire).length := by
  induction options with
  | nil => simp
  | cons option rest ih =>
    rw [List.flatMap_cons, List.length_append, option.wire_length,
      List.length_cons]
    omega

/-! ## Reading back what was set -/

theorem optTtl_shiftRight_24 (edns : Edns) :
    (edns.optTtl >>> 24).toUInt8 = edns.extendedRcode := by
  rw [← UInt8.toBitVec_inj]
  apply BitVec.eq_of_getLsbD_eq
  intro i hi
  unfold Edns.optTtl dnssecOkBit
  cases edns.dnssecOk <;> interval_cases i <;> simp

theorem optTtl_shiftRight_16 (edns : Edns) :
    (edns.optTtl >>> 16).toUInt8 = edns.version := by
  rw [← UInt8.toBitVec_inj]
  apply BitVec.eq_of_getLsbD_eq
  intro i hi
  unfold Edns.optTtl dnssecOkBit
  cases edns.dnssecOk <;> interval_cases i <;> simp

theorem optTtl_and_dnssecOkBit (edns : Edns) :
    (edns.optTtl &&& dnssecOkBit != 0) = edns.dnssecOk := by
  have hbit : dnssecOkBit.toBitVec = BitVec.twoPow 32 15 := rfl
  have hand : edns.optTtl &&& dnssecOkBit =
      if edns.dnssecOk then dnssecOkBit else 0 := by
    rw [← UInt32.toBitVec_inj, UInt32.toBitVec_and, hbit, BitVec.and_twoPow]
    unfold Edns.optTtl
    cases edns.dnssecOk <;> simp [hbit]
  rw [hand]
  cases edns.dnssecOk <;> rfl

theorem optClass_toU16 (value : UInt16) : (optClass value).toU16 = value := by
  unfold optClass Class.fromU16
  split_ifs with h0 h1 h3
  · subst h0
    rfl
  · subst h1
    rfl
  · subst h3
    rfl
  · rfl

theorem Edns.fromRecord_toRecord (edns : Edns) :
    Edns.fromRecord edns.toRecord (edns.options.flatMap EdnsOption.wire) =
      .ok edns := by
  unfold Edns.fromRecord
  rw [if_neg (by simp [Edns.toRecord, Name.isRoot, Name.root])]
  dsimp only
  rw [parseOptions_wire _ edns.options _
    (flatMap_optionWire_length_ge edns.options)]
  simp only [Edns.toRecord, optClass_toU16, optTtl_shiftRight_24,
    optTtl_shiftRight_16, optTtl_and_dnssecOkBit]

theorem findOpt_of_forall_not_isOpt
    {found : Option (ResourceRecord × List UInt8)}
    {plain rest : List ResourceRecord}
    (hplain : ∀ record ∈ plain, record.isOpt = false) :
    findOpt found (plain ++ rest) = findOpt found rest := by
  induction plain with
  | nil => rfl
  | cons record others ih =>
    have hnone : optData record.rdata = none := by
      simpa [ResourceRecord.isOpt] using hplain record (by simp)
    rw [List.cons_append, findOpt, hnone]
    exact ih (fun record hmem => hplain record (by simp [hmem]))

theorem edns_of_additionals {message : Message} {edns : Edns}
    {plain : List ResourceRecord}
    (hplain : ∀ record ∈ plain, record.isOpt = false)
    (h : message.additionals = plain ++ [edns.toRecord]) :
    message.edns = .ok (some edns) := by
  have hdata : optData edns.toRecord.rdata =
      some (edns.options.flatMap EdnsOption.wire) := by
    simp [Edns.toRecord, optData]
  unfold Message.edns
  rw [h, findOpt_of_forall_not_isOpt hplain]
  simp only [findOpt, hdata, Option.isSome_none, Bool.false_eq_true, if_false,
    Edns.fromRecord_toRecord]

namespace Message

theorem filter_not_isOpt (records : List ResourceRecord) :
    ∀ record ∈ records.filter (fun record => !record.isOpt),
      record.isOpt = false := by
  intro record hmem
  simpa using (List.mem_filter.mp hmem).2

theorem edns_setEdns (message : Message) (edns : Option Edns) :
    (message.setEdns edns).edns = .ok edns := by
  cases edns with
  | none =>
    unfold Message.edns
    simp only [Message.setEdns, Option.map_none, Option.toList_none]
    rw [findOpt_of_forall_not_isOpt (filter_not_isOpt _)]
    rfl
  | some edns => exact edns_of_additionals (filter_not_isOpt _) rfl

end Message

end DnsLattice
