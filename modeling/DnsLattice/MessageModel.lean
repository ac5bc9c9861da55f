import Mathlib.Data.List.Basic
import Mathlib.Tactic

/-!
# The DNS message data model

The types of the message crate: errors, names, record types and classes,
record data, and the message with its four sections.  `DecidableEq` on these
types is byte equality; the case-insensitive equality of names is the separate
`Name.eqIgnoreCase`.
-/

namespace DnsLattice

inductive Error where
  | truncated (len : ℕ)
  | badNamePointer (offset : ℕ)
  | labelTooLong (offset : ℕ)
  | nameTooLong
  | invalidName
  | countMismatch
  | rdataLengthMismatch (declared : UInt16)
  | invalidClass (value : UInt16)
  | messageTooLong
  | wildcardPosition
  | noRoute
  | timeout
  | transport (message : String)
  | tls (message : String)
  | hook (message : String)
  | invalidFakeIpRange
  | fakeIpPoolUnconfigured
  | fakeIpFamilyDisabled
  | invalidFakeIpTtl
  | fakeIpTtlOutOfRange
  | invalidFakeIpSnapshot
  deriving DecidableEq, Repr

abbrev Label := List UInt8

structure Name where
  labels : List Label
  deriving DecidableEq, Repr

/-- `u8::to_ascii_lowercase`. -/
def toAsciiLowercase (byte : UInt8) : UInt8 :=
  if 65 ≤ byte ∧ byte ≤ 90 then byte + 32 else byte

namespace Name

def root : Name := ⟨[]⟩

def isRoot (name : Name) : Bool := name.labels.isEmpty

def wireLength (name : Name) : ℕ :=
  (name.labels.map fun label => label.length + 1).sum + 1

def lowercasedLabels (name : Name) : List Label :=
  name.labels.map fun label => label.map toAsciiLowercase

/-- `PartialEq for Name`. -/
def eqIgnoreCase (name other : Name) : Bool :=
  name.lowercasedLabels == other.lowercasedLabels

/-- The names which `Name::from_ascii` and the decoder build. -/
structure WellFormed (name : Name) : Prop where
  label_pos : ∀ label ∈ name.labels, 0 < label.length
  label_le : ∀ label ∈ name.labels, label.length ≤ 63
  wire_le : name.wireLength ≤ 255

end Name

/-- A resource record type; `other` carries the raw wire value. -/
inductive RecordType where
  | a
  | aaaa
  | cname
  | ptr
  | ns
  | txt
  | mx
  | soa
  | other (value : UInt16)
  deriving DecidableEq, Repr

namespace RecordType

def fromU16 (value : UInt16) : RecordType :=
  if value = 1 then .a
  else if value = 2 then .ns
  else if value = 5 then .cname
  else if value = 6 then .soa
  else if value = 12 then .ptr
  else if value = 15 then .mx
  else if value = 16 then .txt
  else if value = 28 then .aaaa
  else .other value

def toU16 : RecordType → UInt16
  | .a => 1
  | .ns => 2
  | .cname => 5
  | .soa => 6
  | .ptr => 12
  | .mx => 15
  | .txt => 16
  | .aaaa => 28
  | .other value => value

/-- The type is not an `other` alias of one of the eight named types. -/
def Canonical (rtype : RecordType) : Prop :=
  ∀ value, rtype = .other value → value ∉ [1, 2, 5, 6, 12, 15, 16, 28]

theorem fromU16_toU16_of_canonical
    {rtype : RecordType} (hcanonical : rtype.Canonical) :
    fromU16 rtype.toU16 = rtype := by
  cases rtype with
  | other value =>
    have hvalue := hcanonical value rfl
    simp only [List.mem_cons, List.not_mem_nil, or_false, not_or] at hvalue
    simp [toU16, fromU16, hvalue]
  | _ => decide

end RecordType

/-- A resource record class; `other` carries the raw wire value. -/
inductive Class where
  | in
  | ch
  | other (value : UInt16)
  deriving DecidableEq, Repr

namespace Class

/-- `Class::from_u16`, with the reserved value zero rejected. -/
def fromU16 (value : UInt16) : Except Error Class :=
  if value = 0 then .error (.invalidClass 0)
  else if value = 1 then .ok .in
  else if value = 3 then .ok .ch
  else .ok (.other value)

def toU16 : Class → UInt16
  | .in => 1
  | .ch => 3
  | .other value => value

/-- The class is not an `other` alias of a named class. -/
def Canonical (cls : Class) : Prop :=
  ∀ value, cls = .other value → value ≠ 1 ∧ value ≠ 3

theorem fromU16_toU16_of_canonical
    {cls : Class} (hcanonical : cls.Canonical) (hzero : cls ≠ .other 0) :
    fromU16 cls.toU16 = .ok cls := by
  cases cls with
  | other value =>
    obtain ⟨hin, hch⟩ := hcanonical value rfl
    have hvalue : value ≠ 0 := fun h => hzero (by rw [h])
    simp [toU16, fromU16, hvalue, hin, hch]
  | _ => decide

end Class

inductive RData where
  | a (addr : Vector UInt8 4)
  | aaaa (addr : Vector UInt8 16)
  | cname (name : Name)
  | ptr (name : Name)
  | ns (name : Name)
  | txt (strings : List (List UInt8))
  | mx (preference : UInt16) (exchange : Name)
  | soa (mname rname : Name) (serial refresh retry expire minimum : UInt32)
  | unknown (rtype : UInt16) (data : List UInt8)
  deriving DecidableEq, Repr

def RData.recordType : RData → RecordType
  | .a _ => .a
  | .aaaa _ => .aaaa
  | .cname _ => .cname
  | .ptr _ => .ptr
  | .ns _ => .ns
  | .txt _ => .txt
  | .mx _ _ => .mx
  | .soa _ _ _ _ _ _ _ => .soa
  | .unknown rtype _ => .other rtype

inductive Opcode where
  | query
  | iQuery
  | status
  | notify
  | update
  | other (value : UInt8)
  deriving DecidableEq, Repr

namespace Opcode

def fromU8 (value : UInt8) : Opcode :=
  if value = 0 then .query
  else if value = 1 then .iQuery
  else if value = 2 then .status
  else if value = 4 then .notify
  else if value = 5 then .update
  else .other value

def toU8 : Opcode → UInt8
  | .query => 0
  | .iQuery => 1
  | .status => 2
  | .notify => 4
  | .update => 5
  | .other value => value &&& 0x0F

def Canonical (opcode : Opcode) : Prop :=
  ∀ value, opcode = .other value → value < 16 ∧ value ∉ [0, 1, 2, 4, 5]

end Opcode

/-- A message response code. -/
inductive Rcode where
  | noError
  | formErr
  | servFail
  | nxDomain
  | notImp
  | refused
  | other (value : UInt8)
  deriving DecidableEq, Repr

namespace Rcode

def fromU8 (value : UInt8) : Rcode :=
  if value = 0 then .noError
  else if value = 1 then .formErr
  else if value = 2 then .servFail
  else if value = 3 then .nxDomain
  else if value = 4 then .notImp
  else if value = 5 then .refused
  else .other value

def toU8 : Rcode → UInt8
  | .noError => 0
  | .formErr => 1
  | .servFail => 2
  | .nxDomain => 3
  | .notImp => 4
  | .refused => 5
  | .other value => value &&& 0x0F

def Canonical (rcode : Rcode) : Prop :=
  ∀ value, rcode = .other value → value < 16 ∧ value ∉ [0, 1, 2, 3, 4, 5]

end Rcode

structure Header where
  id : UInt16
  qr : Bool
  opcode : Opcode
  authoritative : Bool
  truncated : Bool
  recursionDesired : Bool
  recursionAvailable : Bool
  rcode : Rcode
  deriving DecidableEq, Repr

structure Question where
  name : Name
  qtype : RecordType
  qclass : Class
  deriving DecidableEq, Repr

structure ResourceRecord where
  name : Name
  rtype : RecordType
  cls : Class
  ttl : UInt32
  rdata : RData
  deriving DecidableEq, Repr

structure Message where
  header : Header
  questions : List Question
  answers : List ResourceRecord
  authorities : List ResourceRecord
  additionals : List ResourceRecord
  deriving DecidableEq, Repr

/-- The `TYPE` value of the OPT pseudo-record. -/
def optRtype : UInt16 := 41

/-- `opt_class`: the class the decoder gives an OPT record. -/
def optClass (value : UInt16) : Class :=
  match Class.fromU16 value with
  | .ok cls => cls
  | .error _ => .other value

/-- `opt_data`: the bytes of an OPT pseudo-record. -/
def optData : RData → Option (List UInt8)
  | .unknown rtype data => if rtype = optRtype then some data else none
  | _ => none

theorem optClass_toU16_of_canonical {cls : Class} (hcanonical : cls.Canonical) :
    optClass cls.toU16 = cls := by
  by_cases hzero : cls = .other 0
  · subst hzero
    decide
  · simp [optClass, Class.fromU16_toU16_of_canonical hcanonical hzero]

end DnsLattice
