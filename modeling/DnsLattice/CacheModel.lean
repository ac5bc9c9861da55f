import DnsLattice.MessageWire

/-!
# Cache keys, cached answers and their cost

Instants and durations are natural numbers of nanoseconds.  A cached answer is
shared behind an `Arc`.  The upstream call it was made from, which makes one
entry at most, stands for the allocation: two entries with the same content
are told apart by it, and the atomic cells of an entry (its hit count, the
refresh flag and the recheck deadline), which change while it is shared, are
kept by the resolver under the number of that call.
-/

namespace DnsLattice

/-! ## Keys -/

def maxKeyLen : ℕ := 4 + 2 + 2 + 1 + 255

def typeCode : RecordType → UInt16
  | .a => 1
  | .ns => 2
  | .cname => 5
  | .soa => 6
  | .ptr => 12
  | .mx => 15
  | .txt => 16
  | .aaaa => 28
  | .other value => value

def classCode : Class → UInt16
  | .in => 1
  | .ch => 3
  | .other value => value

/-- The loop of `KeyBuf::new` over the labels, behind the bytes written so
far; one byte is kept for the root label. -/
def keyLabels : List Label → List UInt8 → Option (List UInt8)
  | [], bytes => some (bytes ++ [0])
  | label :: rest, bytes =>
      if 63 < label.length then none
      else if maxKeyLen < bytes.length + 1 + label.length + 1 then none
      else
        keyLabels rest (bytes ++
          UInt8.ofNat label.length :: label.map toAsciiLowercase)

/-- The query-shape byte: bit 0 is `RD`, bit 1 is `DO`. -/
def shapeBits (recursionDesired dnssecOk : Bool) : UInt8 :=
  (if recursionDesired then (1 : UInt8) else 0) |||
    ((if dnssecOk then (1 : UInt8) else 0) <<< 1)

/-- `KeyBuf::new`, as the bytes `as_bytes` returns. -/
def keyBuf (group : UInt32) (rtype : RecordType) (cls : Class)
    (recursionDesired dnssecOk : Bool) (name : Name) : Option (List UInt8) :=
  keyLabels name.labels
    (u32ToBe group ++ u16ToBe (typeCode rtype) ++ u16ToBe (classCode cls) ++
      [shapeBits recursionDesired dnssecOk])

def keyNameOffset : ℕ := 9

/-- The loop of `wire_name` over the labels. -/
def wireLabels : List Label → Option (List UInt8)
  | [] => some [0]
  | label :: rest =>
      if 63 < label.length then none
      else
        (wireLabels rest).map fun wire =>
          UInt8.ofNat label.length :: label.map toAsciiLowercase ++ wire

def wireName (name : Name) : Option (List UInt8) :=
  match wireLabels name.labels with
  | none => none
  | some wire => if wire.length ≤ 255 then some wire else none

/-- `key.get(KEY_NAME_OFFSET..)`. -/
def keyName (key : List UInt8) : Option (List UInt8) :=
  if keyNameOffset ≤ key.length then some (key.drop keyNameOffset) else none

def keyType (key : List UInt8) : Option UInt16 :=
  match key[4]?, key[5]? with
  | some high, some low => some (UInt16.ofNat (networkValue [high, low]))
  | _, _ => none

/-- The loop of `in_subtree` on the suffix of the name from `at` on. -/
def inSubtreeFrom (zone : List UInt8) : ℕ → List UInt8 → Bool
  | 0, _ => false
  | _ + 1, [] => false
  | fuel + 1, labelLen :: rest =>
      if labelLen :: rest = zone then true
      else if labelLen = 0 then false
      else inSubtreeFrom zone fuel (rest.drop labelLen.toNat)

def inSubtree (name zone : List UInt8) : Bool :=
  inSubtreeFrom zone name.length name

/-! ## Entries -/

structure UpstreamGroupId where
  name : List UInt8
  deriving DecidableEq, Repr

/-- One resolution through the backends of a group: the task which makes it,
the query it sends and the cache epoch it has read before. -/
structure UpstreamCall where
  id : ℕ
  task : ℕ
  group : UpstreamGroupId
  query : Message
  epoch : ℕ
  deriving DecidableEq, Repr

structure FailureState where
  error : Option Error
  backoff : ℕ
  deriving DecidableEq, Repr

structure CachedAnswer where
  origin : UpstreamCall
  message : Message
  inserted : ℕ
  expires : ℕ
  staleUntil : ℕ
  failure : Option FailureState
  deriving DecidableEq, Repr

namespace CachedAnswer

def new (origin : UpstreamCall) (message : Message)
    (inserted expires : ℕ) : CachedAnswer where
  origin := origin
  message := message
  inserted := inserted
  expires := expires
  staleUntil := expires
  failure := none

def retainedFor (entry : CachedAnswer) (window : ℕ) : CachedAnswer :=
  { entry with staleUntil := entry.expires + window }

def ofFailure (origin : UpstreamCall) (message : Message)
    (error : Option Error) (inserted backoff retain : ℕ) : CachedAnswer :=
  { (new origin message inserted (inserted + backoff)).retainedFor retain with
    failure := some ⟨error, backoff⟩ }

end CachedAnswer

/-! ## Cost -/

/-- The sizes which the compiler chooses for the types of an entry. -/
structure Layout where
  vec : ℕ
  question : ℕ
  record : ℕ
  cachedAnswer : ℕ
  optionSlot : ℕ

namespace Layout

variable (layout : Layout)

def entryOverhead : ℕ := layout.optionSlot + 64

def arcHeader : ℕ := 16

def nameHeap (name : Name) : ℕ :=
  (name.labels.map fun label => layout.vec + label.length).sum

def rdataHeap : RData → ℕ
  | .a _ => 0
  | .aaaa _ => 0
  | .cname name => layout.nameHeap name
  | .ptr name => layout.nameHeap name
  | .ns name => layout.nameHeap name
  | .txt strings =>
      (strings.map fun string => layout.vec + string.length).sum
  | .mx _ exchange => layout.nameHeap exchange
  | .soa mname rname _ _ _ _ _ =>
      layout.nameHeap mname + layout.nameHeap rname
  | .unknown _ data => data.length

def recordsHeap (records : List ResourceRecord) : ℕ :=
  records.length * layout.record +
    (records.map fun record =>
      layout.nameHeap record.name + layout.rdataHeap record.rdata).sum

def messageHeap (message : Message) : ℕ :=
  message.questions.length * layout.question +
    (message.questions.map fun question =>
      layout.nameHeap question.name).sum +
    layout.recordsHeap message.answers +
    layout.recordsHeap message.authorities +
    layout.recordsHeap message.additionals

def entryCost (keyLen : ℕ) (entry : CachedAnswer) : ℕ :=
  layout.entryOverhead + keyLen + arcHeader + layout.cachedAnswer +
    layout.messageHeap entry.message

theorem le_entryCost (keyLen : ℕ) (entry : CachedAnswer) :
    64 ≤ layout.entryCost keyLen entry := by
  unfold entryCost entryOverhead
  omega

end Layout

end DnsLattice
