import DnsLattice.BigEndian
import DnsLattice.RunMonad
import DnsLattice.MessageModel

/-!
# The wire codec of DNS messages

Encoding appends to a buffer; decoding reads a buffer at a position and
returns the position after what it read.  Both run in `Run Error`, so a
decoder which indexes out of bounds or never returns is visible in its
outcome.  The loop of `decode_name` is the only one which nothing bounds:
it is given one iteration more than the buffer has offsets, after which an
offset has been visited twice and the loop never stops.
-/

namespace DnsLattice

open Run

/-- A `Result` inside a computation: `?`. -/
def Run.ofExcept {ε α : Type} : Except ε α → Run ε α
  | .ok value => .ok value
  | .error error => .err error

/-! ## Integers -/

def u16ToBe (value : UInt16) : List UInt8 := networkBytes 2 value.toNat

def u32ToBe (value : UInt32) : List UInt8 := networkBytes 4 value.toNat

def writeU16 (buf : List UInt8) (value : UInt16) : List UInt8 :=
  buf ++ u16ToBe value

def writeU32 (buf : List UInt8) (value : UInt32) : List UInt8 :=
  buf ++ u32ToBe value

def readU16 (buf : List UInt8) (pos : ℕ) : Run Error (UInt16 × ℕ) :=
  if pos + 2 > buf.length then .err (.truncated buf.length)
  else do
    let b0 ← index buf pos
    let b1 ← index buf (pos + 1)
    return (UInt16.ofNat (networkValue [b0, b1]), pos + 2)

def readU32 (buf : List UInt8) (pos : ℕ) : Run Error (UInt32 × ℕ) :=
  if pos + 4 > buf.length then .err (.truncated buf.length)
  else do
    let b0 ← index buf pos
    let b1 ← index buf (pos + 1)
    let b2 ← index buf (pos + 2)
    let b3 ← index buf (pos + 3)
    return (UInt32.ofNat (networkValue [b0, b1, b2, b3]), pos + 4)

/-! ## Names -/

def Name.checkTotalLength (name : Name) : Run Error Unit :=
  if name.wireLength > 255 then .err .nameTooLong else .ok ()

/-- The local variables of `decode_name`'s loop. -/
structure NameCursor where
  labels : List Label
  cur : ℕ
  jumped : Bool
  realEnd : ℕ
  deriving DecidableEq, Repr

def NameCursor.start (pos : ℕ) : NameCursor :=
  { labels := [], cur := pos, jumped := false, realEnd := 0 }

def pointerTarget (high low : UInt8) : ℕ :=
  ((high.toNat &&& 0x3F) <<< 8) ||| low.toNat

/-- One iteration of `decode_name`'s loop. -/
def nameStep (buf : List UInt8) (cursor : NameCursor) :
    Run Error (NameCursor ⊕ NameCursor) :=
  if cursor.cur ≥ buf.length then .err (.truncated buf.length)
  else do
    let lenByte ← index buf cursor.cur
    if lenByte &&& 0xC0 = 0xC0 then
      if cursor.cur + 1 ≥ buf.length then .err (.truncated buf.length)
      else do
        let low ← index buf (cursor.cur + 1)
        let pointer := pointerTarget lenByte low
        -- only the first jump records where the name ends in the stream
        let realEnd := if cursor.jumped then cursor.realEnd else cursor.cur + 2
        if pointer ≥ cursor.cur then .err (.badNamePointer cursor.cur)
        else
          return .inl { cursor with
            cur := pointer, jumped := true, realEnd := realEnd }
    else if lenByte &&& 0xC0 ≠ 0 then .err (.badNamePointer cursor.cur)
    else if lenByte = 0 then
      return .inr { cursor with cur := cursor.cur + 1 }
    else
      let len := lenByte.toNat
      if len > 63 then .err (.labelTooLong cursor.cur)
      else
        let cur := cursor.cur + 1
        if cur + len > buf.length then .err (.truncated buf.length)
        else do
          let label ← slice buf cur (cur + len)
          return .inl { cursor with
            labels := cursor.labels ++ [label], cur := cur + len }

/-- What `decode_name` does after its loop. -/
def finishName (cursor : NameCursor) : Run Error (Name × ℕ) := do
  let name : Name := ⟨cursor.labels⟩
  name.checkTotalLength
  return (name, if cursor.jumped then cursor.realEnd else cursor.cur)

/-- `decode_name` with its loop unrolled `fuel` times. -/
def decodeNameFuel (buf : List UInt8) (fuel pos : ℕ) : Run Error (Name × ℕ) :=
  loop (nameStep buf) fuel (.start pos) >>= finishName

/-- `decode_name`. -/
def decodeName (buf : List UInt8) (pos : ℕ) : Run Error (Name × ℕ) :=
  decodeNameFuel buf (buf.length + 1) pos

/-- Length-prefixed byte strings of at most `limit` bytes each: the loop of
`encode_name` over labels and of `RData::encode` over TXT strings. -/
def encodePrefixed (limit : ℕ) :
    List (List UInt8) → List UInt8 → Run Error (List UInt8)
  | [], buf => .ok buf
  | string :: rest, buf =>
      if string.length > limit then .err (.labelTooLong buf.length)
      else encodePrefixed limit rest
        (buf ++ [UInt8.ofNat string.length] ++ string)

/-- `encode_name`: no compression. -/
def encodeName (name : Name) (buf : List UInt8) : Run Error (List UInt8) := do
  name.checkTotalLength
  let buf ← encodePrefixed 63 name.labels buf
  return buf ++ [0]

/-! ## Record data -/

def RData.encode (rdata : RData) (buf : List UInt8) :
    Run Error (List UInt8) :=
  match rdata with
  | .a addr => .ok (buf ++ addr.toList)
  | .aaaa addr => .ok (buf ++ addr.toList)
  | .cname name => encodeName name buf
  | .ptr name => encodeName name buf
  | .ns name => encodeName name buf
  | .txt strings => encodePrefixed 255 strings buf
  | .mx preference exchange => encodeName exchange (writeU16 buf preference)
  | .soa mname rname serial refresh retry expire minimum => do
      let buf ← encodeName mname buf
      let buf ← encodeName rname buf
      return writeU32 (writeU32 (writeU32 (writeU32 (writeU32 buf
        serial) refresh) retry) expire) minimum
  | .unknown _ data => .ok (buf ++ data)

def lengthMismatch {α : Type} (rdlength : ℕ) : Run Error α :=
  .err (.rdataLengthMismatch (UInt16.ofNat rdlength))

def decodeCheckedName (buf : List UInt8) (pos start rdlength : ℕ) :
    Run Error (Name × ℕ) := do
  let (name, pos) ← decodeName buf pos
  let used ← sub pos start
  if used ≠ rdlength then lengthMismatch rdlength
  else return (name, pos)

def txtStep (buf : List UInt8) (stop rdlength : ℕ)
    (state : List (List UInt8) × ℕ) :
    Run Error ((List (List UInt8) × ℕ) ⊕ List (List UInt8)) :=
  let (strings, p) := state
  if p < stop then do
    let lenByte ← index buf p
    let len := lenByte.toNat
    let p := p + 1
    if p + len > stop then lengthMismatch rdlength
    else do
      let string ← slice buf p (p + len)
      return .inl (strings ++ [string], p + len)
  else return .inr strings

/-- `octets.copy_from_slice(..)` into a 16-byte array. -/
def octets16 (bytes : List UInt8) : Run Error (Vector UInt8 16) :=
  if h : bytes.length = 16 then .ok ⟨bytes.toArray, by simpa using h⟩
  else .panic

def RData.decode (buf : List UInt8) (pos : ℕ) (rtype : RecordType)
    (rdlength : ℕ) : Run Error (RData × ℕ) :=
  let start := pos
  let stop := start + rdlength
  if stop > buf.length then .err (.truncated buf.length)
  else match rtype with
  | .a =>
      if rdlength ≠ 4 then lengthMismatch rdlength
      else do
        let b0 ← index buf start
        let b1 ← index buf (start + 1)
        let b2 ← index buf (start + 2)
        let b3 ← index buf (start + 3)
        return (.a #v[b0, b1, b2, b3], pos + 4)
  | .aaaa =>
      if rdlength ≠ 16 then lengthMismatch rdlength
      else do
        let bytes ← slice buf start (start + 16)
        let octets ← octets16 bytes
        return (.aaaa octets, pos + 16)
  | .cname => do
      let (name, pos) ← decodeCheckedName buf pos start rdlength
      return (.cname name, pos)
  | .ptr => do
      let (name, pos) ← decodeCheckedName buf pos start rdlength
      return (.ptr name, pos)
  | .ns => do
      let (name, pos) ← decodeCheckedName buf pos start rdlength
      return (.ns name, pos)
  | .txt => do
      -- every iteration consumes at least the length byte
      let strings ← loop (txtStep buf stop rdlength) (rdlength + 1) ([], start)
      return (.txt strings, stop)
  | .mx => do
      let (preference, pos) ← readU16 buf pos
      let (exchange, pos) ← decodeName buf pos
      let used ← sub pos start
      if used ≠ rdlength then lengthMismatch rdlength
      else return (.mx preference exchange, pos)
  | .soa => do
      let (mname, pos) ← decodeName buf pos
      let (rname, pos) ← decodeName buf pos
      let (serial, pos) ← readU32 buf pos
      let (refresh, pos) ← readU32 buf pos
      let (retry, pos) ← readU32 buf pos
      let (expire, pos) ← readU32 buf pos
      let (minimum, pos) ← readU32 buf pos
      let used ← sub pos start
      if used ≠ rdlength then lengthMismatch rdlength
      else
        return (.soa mname rname serial refresh retry expire minimum, pos)
  | .other value => do
      let data ← slice buf start stop
      return (.unknown value data, stop)

/-! ## Header, questions and records -/

def decodeFlags (id flags : UInt16) : Header where
  id := id
  qr := flags &&& 0x8000 != 0
  opcode := .fromU8 ((flags >>> 11) &&& 0x0F).toUInt8
  authoritative := flags &&& 0x0400 != 0
  truncated := flags &&& 0x0200 != 0
  recursionDesired := flags &&& 0x0100 != 0
  recursionAvailable := flags &&& 0x0080 != 0
  rcode := .fromU8 (flags &&& 0x0F).toUInt8

structure Counts where
  questions : UInt16
  answers : UInt16
  authorities : UInt16
  additionals : UInt16
  deriving DecidableEq, Repr

def decodeHeader (buf : List UInt8) (pos : ℕ) :
    Run Error ((Header × Counts) × ℕ) := do
  let (id, pos) ← readU16 buf pos
  let (flags, pos) ← readU16 buf pos
  let (qdcount, pos) ← readU16 buf pos
  let (ancount, pos) ← readU16 buf pos
  let (nscount, pos) ← readU16 buf pos
  let (arcount, pos) ← readU16 buf pos
  return ((decodeFlags id flags, ⟨qdcount, ancount, nscount, arcount⟩), pos)

def encodeFlags (header : Header) : UInt16 :=
  let flags : UInt16 := if header.qr then 0x8000 else 0
  let flags := flags ||| (header.opcode.toU8.toUInt16 <<< 11)
  let flags := if header.authoritative then flags ||| 0x0400 else flags
  let flags := if header.truncated then flags ||| 0x0200 else flags
  let flags := if header.recursionDesired then flags ||| 0x0100 else flags
  let flags := if header.recursionAvailable then flags ||| 0x0080 else flags
  flags ||| header.rcode.toU8.toUInt16

def encodeHeader (header : Header) (counts : Counts) (buf : List UInt8) :
    List UInt8 :=
  writeU16 (writeU16 (writeU16 (writeU16 (writeU16 (writeU16 buf
    header.id) (encodeFlags header)) counts.questions) counts.answers)
    counts.authorities) counts.additionals

def decodeQuestion (buf : List UInt8) (pos : ℕ) :
    Run Error (Question × ℕ) := do
  let (name, pos) ← decodeName buf pos
  let (qtype, pos) ← readU16 buf pos
  let (qclass, pos) ← readU16 buf pos
  let qclass ← Run.ofExcept (Class.fromU16 qclass)
  return (⟨name, .fromU16 qtype, qclass⟩, pos)

def encodeQuestion (question : Question) (buf : List UInt8) :
    Run Error (List UInt8) := do
  let buf ← encodeName question.name buf
  return writeU16 (writeU16 buf question.qtype.toU16) question.qclass.toU16

def decodeClass (isOpt : Bool) (raw : UInt16) : Run Error Class :=
  if isOpt then .ok (optClass raw) else Run.ofExcept (Class.fromU16 raw)

def decodeTtl (isOpt : Bool) (raw : UInt32) : UInt32 :=
  if !isOpt && raw &&& 0x80000000 != 0 then 0 else raw

def decodeRr (buf : List UInt8) (pos : ℕ) :
    Run Error (ResourceRecord × ℕ) := do
  let (name, pos) ← decodeName buf pos
  let (rtypeRaw, pos) ← readU16 buf pos
  let rtype := RecordType.fromU16 rtypeRaw
  let isOpt := rtypeRaw == optRtype
  let (classRaw, pos) ← readU16 buf pos
  let cls ← decodeClass isOpt classRaw
  let (ttlRaw, pos) ← readU32 buf pos
  let ttl := decodeTtl isOpt ttlRaw
  let (rdlength, pos) ← readU16 buf pos
  let (rdata, pos) ← RData.decode buf pos rtype rdlength.toNat
  return (⟨name, rtype, cls, ttl, rdata⟩, pos)

def encodeRr (rr : ResourceRecord) (buf : List UInt8) :
    Run Error (List UInt8) := do
  let buf ← encodeName rr.name buf
  let buf := writeU16 buf rr.rdata.recordType.toU16
  let buf := writeU16 buf rr.cls.toU16
  let buf := writeU32 buf rr.ttl
  let placeholder := buf.length
  let buf := buf ++ [0, 0]
  let start := buf.length
  let buf ← rr.rdata.encode buf
  let len ← sub buf.length start
  if len > 65535 then .err .messageTooLong
  else copyFromSlice buf placeholder (u16ToBe (UInt16.ofNat len))

/-! ## Messages -/

/-- `for _ in 0..count { items.push(decode(buf, pos)?) }`. -/
def decodeMany {α : Type} (item : ℕ → Run Error (α × ℕ)) :
    ℕ → ℕ → Run Error (List α × ℕ)
  | 0, pos => .ok ([], pos)
  | count + 1, pos => do
      let (first, pos) ← item pos
      let (rest, pos) ← decodeMany item count pos
      return (first :: rest, pos)

/-- `for item in items { encode(item, buf)? }`. -/
def encodeMany {α : Type} (item : α → List UInt8 → Run Error (List UInt8)) :
    List α → List UInt8 → Run Error (List UInt8)
  | [], buf => .ok buf
  | first :: rest, buf => do
      let buf ← item first buf
      encodeMany item rest buf

def toU16Count (len : ℕ) : Run Error UInt16 :=
  if len > 65535 then .err .messageTooLong else .ok (UInt16.ofNat len)

namespace Message

def decode (bytes : List UInt8) : Run Error Message := do
  let ((header, counts), pos) ← decodeHeader bytes 0
  let (questions, pos) ←
    decodeMany (decodeQuestion bytes) counts.questions.toNat pos
  let (answers, pos) ← decodeMany (decodeRr bytes) counts.answers.toNat pos
  let (authorities, pos) ←
    decodeMany (decodeRr bytes) counts.authorities.toNat pos
  let (additionals, _) ←
    decodeMany (decodeRr bytes) counts.additionals.toNat pos
  return ⟨header, questions, answers, authorities, additionals⟩

def encodeInto (message : Message) (buf : List UInt8) :
    Run Error (List UInt8) := do
  let qc ← toU16Count message.questions.length
  let ac ← toU16Count message.answers.length
  let nsc ← toU16Count message.authorities.length
  let arc ← toU16Count message.additionals.length
  let buf := encodeHeader message.header ⟨qc, ac, nsc, arc⟩ buf
  let buf ← encodeMany encodeQuestion message.questions buf
  let buf ← encodeMany encodeRr
    (message.answers ++ message.authorities ++ message.additionals) buf
  if buf.length > 65535 then .err .messageTooLong else return buf

def encode (message : Message) : Run Error (List UInt8) :=
  message.encodeInto []

end Message

end DnsLattice
