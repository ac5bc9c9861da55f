import DnsLattice.CacheModel
import Mathlib.Data.List.AList
import Mathlib.Data.Finset.Max
import Mathlib.Data.Prod.Lex

/-!
# One shard of the answer store

A shard keeps its entries in a slab of slots and indexes them five times: by
hash, in two intrusive queues, by expiry and, for the vacant slots, in a free
list.  Operations run in `Run`, where an index out of bounds, an `expect` on a
vacant slot and an unsigned underflow all panic.
-/

namespace DnsLattice

open Run

def smallPercent : ℕ := 10

def maxFreq : ℕ := 3

def oversizeDivisor : ℕ := 8

def ghostCost : ℕ := 16

def ghostDivisor : ℕ := 128

/-- `u32::MAX`, the end of an intrusive list. -/
def nil : ℕ := 4294967295

abbrev HashMap (value : Type) := AList fun _ : UInt64 => value

inductive Queue where
  | small
  | main
  deriving DecidableEq, Repr

structure Slot where
  key : List UInt8
  hash : UInt64
  entry : CachedAnswer
  cost : ℕ
  expires : ℕ
  freq : ℕ
  queue : Queue
  prev : ℕ
  next : ℕ
  deriving DecidableEq, Repr

/-- An intrusive FIFO of slab indices; `head` is the oldest. -/
structure Fifo where
  head : ℕ
  tail : ℕ
  bytes : ℕ
  deriving DecidableEq, Repr

def Fifo.new : Fifo := ⟨nil, nil, 0⟩

structure Counters where
  inserts : ℕ
  evictions : ℕ
  expirations : ℕ
  oversized : ℕ
  deriving DecidableEq, Repr

structure Shard where
  counters : Counters
  budget : ℕ
  smallTarget : ℕ
  ghostCap : ℕ
  map : HashMap ℕ
  slots : List (Option Slot)
  free : List ℕ
  small : Fifo
  main : Fifo
  expiry : Finset (ℕ ×ₗ ℕ)
  ghost : HashMap ℕ
  ghostOrder : List (UInt64 × ℕ)
  ghostSeq : ℕ

namespace Shard

def new (budget : ℕ) : Shard where
  counters := ⟨0, 0, 0, 0⟩
  budget := budget
  smallTarget := budget / (100 / smallPercent)
  ghostCap := budget / ghostDivisor
  map := ∅
  slots := []
  free := []
  small := .new
  main := .new
  expiry := ∅
  ghost := ∅
  ghostOrder := []
  ghostSeq := 0

def totalBytes (shard : Shard) : ℕ :=
  shard.small.bytes + shard.main.bytes + shard.ghostOrder.length * ghostCost

def slotAt (shard : Shard) (index : ℕ) : Option Slot :=
  shard.slots[index]?.join

/-- `slot`: the index must refer to a live slot. -/
def slot (shard : Shard) (index : ℕ) : Run Error Slot :=
  match shard.slotAt index with
  | some slot => .ok slot
  | none => .panic

/-- An assignment to `self.slots[index]`. -/
def setSlot (shard : Shard) (index : ℕ) (slot : Option Slot) : Shard :=
  { shard with slots := shard.slots.set index slot }

/-- An update through `slot_mut`. -/
def slotMut (shard : Shard) (index : ℕ) (update : Slot → Slot) :
    Run Error Shard := do
  let slot ← shard.slot index
  return shard.setSlot index (some (update slot))

/-- `if index != NIL { update(self.slot_mut(index)) }`. -/
def relink (shard : Shard) (index : ℕ) (update : Slot → Slot) :
    Run Error Shard :=
  if index ≠ nil then shard.slotMut index update else .ok shard

/-- `list_mut`, read. -/
def list (shard : Shard) : Queue → Fifo
  | .small => shard.small
  | .main => shard.main

/-- `list_mut`, written. -/
def setList (shard : Shard) (queue : Queue) (list : Fifo) : Shard :=
  match queue with
  | .small => { shard with small := list }
  | .main => { shard with main := list }

def pushBack (shard : Shard) (index : ℕ) (queue : Queue) :
    Run Error Shard := do
  let tail := (shard.list queue).tail
  let slot ← shard.slot index
  let shard := shard.setSlot index
    (some { slot with prev := tail, next := nil, queue := queue })
  let shard ← shard.relink tail fun last => { last with next := index }
  let list := shard.list queue
  return shard.setList queue
    { head := if tail = nil then index else list.head
      tail := index
      bytes := list.bytes + slot.cost }

def unlink (shard : Shard) (index : ℕ) : Run Error Shard := do
  let slot ← shard.slot index
  let shard ← shard.relink slot.prev fun other =>
    { other with next := slot.next }
  let shard ← shard.relink slot.next fun other =>
    { other with prev := slot.prev }
  let list := shard.list slot.queue
  let bytes ← sub list.bytes slot.cost
  return shard.setList slot.queue
    { head := if list.head = index then slot.next else list.head
      tail := if list.tail = index then slot.prev else list.tail
      bytes := bytes }

def takeSlot (shard : Shard) (index : ℕ) (slot : Slot) : Shard :=
  { shard with
    slots := shard.slots.set index none
    map :=
      if shard.map.lookup slot.hash = some index then
        shard.map.erase slot.hash
      else shard.map
    expiry := shard.expiry.erase (toLex (slot.expires, index))
    free := index :: shard.free }

def removeSlot (shard : Shard) (index : ℕ) : Run Error (Slot × Shard) := do
  let shard ← shard.unlink index
  let slot ← shard.slot index
  return (slot, shard.takeSlot index slot)

/-- The `while` loop of `push_ghost`. -/
def trimGhost (cap : ℕ) :
    List (UInt64 × ℕ) → HashMap ℕ → List (UInt64 × ℕ) × HashMap ℕ
  | [], ghost => ([], ghost)
  | (oldHash, oldSeq) :: rest, ghost =>
      if cap < rest.length + 1 then
        trimGhost cap rest
          (if ghost.lookup oldHash = some oldSeq then ghost.erase oldHash
            else ghost)
      else ((oldHash, oldSeq) :: rest, ghost)

def pushGhost (shard : Shard) (hash : UInt64) : Shard :=
  if shard.ghostCap = 0 then shard
  else
    let seq := shard.ghostSeq + 1
    let trimmed := trimGhost shard.ghostCap
      (shard.ghostOrder ++ [(hash, seq)]) (shard.ghost.insert hash seq)
    { shard with
      ghostSeq := seq
      ghostOrder := trimmed.1
      ghost := trimmed.2 }

def countInsert (shard : Shard) : Shard :=
  { shard with counters := { shard.counters with
      inserts := shard.counters.inserts + 1 } }

def countEviction (shard : Shard) : Shard :=
  { shard with counters := { shard.counters with
      evictions := shard.counters.evictions + 1 } }

def countExpiration (shard : Shard) : Shard :=
  { shard with counters := { shard.counters with
      expirations := shard.counters.expirations + 1 } }

def countOversized (shard : Shard) : Shard :=
  { shard with counters := { shard.counters with
      oversized := shard.counters.oversized + 1 } }

def get (shard : Shard) (hash : UInt64) (key : List UInt8) (now : ℕ) :
    Run Error (Option CachedAnswer × Shard) :=
  match shard.map.lookup hash with
  | none => .ok (none, shard)
  | some index => do
      let found ← Run.index shard.slots index
      match found with
      | none => return (none, shard)
      | some slot =>
          if slot.key ≠ key then return (none, shard)
          else if slot.expires ≤ now then do
            let (removed, shard) ← shard.removeSlot index
            let shard := shard.countExpiration
            return (none,
              if 0 < removed.freq then shard.pushGhost removed.hash else shard)
          else
            let slot := { slot with freq := min (slot.freq + 1) maxFreq }
            return (some slot.entry, shard.setSlot index (some slot))

def forgetFailure (shard : Shard) (hash : UInt64) (key : List UInt8) :
    Run Error (Bool × Shard) :=
  match shard.map.lookup hash with
  | none => .ok (false, shard)
  | some index => do
      let slot ← shard.slot index
      if slot.key ≠ key ∨ slot.entry.failure = none then
        return (false, shard)
      else do
        let (_, shard) ← shard.removeSlot index
        return (true, shard)

/-! ## Eviction -/

def requeue (shard : Shard) (index : ℕ) (freq : ℕ → ℕ) :
    Run Error Shard := do
  let shard ← shard.unlink index
  let shard ← shard.slotMut index fun slot =>
    { slot with freq := freq slot.freq }
  shard.pushBack index .main

/-- One S3-FIFO step; `false` when there is nothing left to evict. -/
def evictOne (shard : Shard) : Run Error (Bool × Shard) :=
  if shard.small.bytes > shard.smallTarget ∨ shard.main.head = nil then
    let index := shard.small.head
    if index = nil then .ok (false, shard)
    else do
      let slot ← shard.slot index
      if 0 < slot.freq then do
        let shard ← shard.requeue index fun _ => 0
        return (true, shard)
      else do
        let (removed, shard) ← shard.removeSlot index
        return (true, shard.countEviction.pushGhost removed.hash)
  else do
    let index := shard.main.head
    let slot ← shard.slot index
    if 0 < slot.freq then do
      let shard ← shard.requeue index fun freq => freq - 1
      return (true, shard)
    else do
      let (_, shard) ← shard.removeSlot index
      return (true, shard.countEviction)

/-- The earliest entry of the expiry index, if it is due at `now`. -/
def firstExpired (shard : Shard) (now : ℕ) : Option ℕ :=
  match shard.expiry.min with
  | ⊤ => none
  | some first =>
      if (ofLex first).1 ≤ now then some (ofLex first).2 else none

/-- One round of the loop of `make_room`. -/
def makeRoomStep (now : ℕ) (shard : Shard) : Run Error (Shard ⊕ Shard) :=
  if shard.totalBytes > shard.budget then
    match shard.firstExpired now with
    | some index => do
        let (_, shard) ← shard.removeSlot index
        return .inl shard.countExpiration
    | none => do
        let (evicted, shard) ← shard.evictOne
        return if evicted then .inl shard else .inr shard
  else .ok (.inr shard)

def evictionCredit (shard : Shard) : ℕ :=
  (shard.slots.map fun slot =>
    match slot with
    | some slot => 1 + slot.freq
    | none => 0).sum

def makeRoom (shard : Shard) (now : ℕ) : Run Error Shard :=
  loop (makeRoomStep now) (shard.evictionCredit + 1) shard

/-! ## Insertion and removal -/

def allocate (shard : Shard) (slot : Slot) : Run Error (ℕ × Shard) :=
  match shard.free with
  | index :: free =>
      if index < shard.slots.length then
        .ok (index, { shard.setSlot index (some slot) with free := free })
      else .panic
  | [] =>
      let slots := shard.slots ++ [some slot]
      let index := if slots.length - 1 ≤ nil then slots.length - 1 else nil
      .ok (index, { shard with slots := slots })

/-- Removes whatever the hash maps to; `true` when it is the same key and was
used again. -/
def replaceOld (shard : Shard) (hash : UInt64) (key : List UInt8) :
    Run Error (Bool × Shard) :=
  match shard.map.lookup hash with
  | none => .ok (false, shard)
  | some oldIndex => do
      let (old, shard) ← shard.removeSlot oldIndex
      return (decide (old.key = key ∧ (0 < old.freq ∨ old.queue = .main)),
        shard)

def linkSlot (shard : Shard) (index : ℕ) (hash : UInt64) (queue : Queue) :
    Run Error Shard := do
  let shard := { shard with map := shard.map.insert hash index }
  let slot ← shard.slot index
  let shard := { shard with
    expiry := Insert.insert (toLex (slot.expires, index)) shard.expiry }
  shard.pushBack index queue

/-- `self.ghost.remove(&hash)`. -/
def forgetGhost (shard : Shard) (hash : UInt64) : Shard :=
  { shard with ghost := shard.ghost.erase hash }

def storeSlot (shard : Shard) (slot : Slot) : Run Error (Bool × Shard) := do
  let (index, shard) ← shard.allocate slot
  if index = nil then
    return (false, { shard with slots := shard.slots.dropLast })
  else do
    let shard ← shard.linkSlot index slot.hash slot.queue
    return (true, shard.countInsert)

/-- `insert` up to its call of `make_room`; `false` when it returns before. -/
def prepareInsert (layout : Layout) (shard : Shard) (hash : UInt64)
    (key : List UInt8) (entry : CachedAnswer) : Run Error (Bool × Shard) := do
  let cost := layout.entryCost key.length entry
  let (reused, shard) ← shard.replaceOld hash key
  if cost > shard.budget / oversizeDivisor then
    return (false, shard.countOversized)
  else
    let remembered := (shard.ghost.lookup hash).isSome
    (shard.forgetGhost hash).storeSlot
      { key := key
        hash := hash
        entry := entry
        cost := cost
        expires := entry.staleUntil
        freq := 0
        queue := if reused || remembered then .main else .small
        prev := nil
        next := nil }

def insert (layout : Layout) (shard : Shard) (hash : UInt64)
    (key : List UInt8) (entry : CachedAnswer) (now : ℕ) :
    Run Error (Bool × Shard) := do
  let (stored, shard) ← shard.prepareInsert layout hash key entry
  if stored then do
    let shard ← shard.makeRoom now
    return (true, shard)
  else return (false, shard)

def clear (shard : Shard) : ℕ × Shard :=
  (shard.map.entries.length,
    { new shard.budget with counters := shard.counters })

/-- The indices `remove_matching` collects before it removes anything. -/
def doomed (shard : Shard) (matching : List UInt8 → Bool) : List ℕ :=
  (List.range shard.slots.length).filter fun index =>
    match shard.slotAt index with
    | some slot => matching slot.key && decide (index < nil)
    | none => false

/-- `for index in &doomed { self.remove_slot(*index); }`. -/
def removeAll : List ℕ → Shard → Run Error Shard
  | [], shard => .ok shard
  | index :: rest, shard => do
      let (_, shard) ← shard.removeSlot index
      removeAll rest shard

def removeMatching (shard : Shard) (matching : List UInt8 → Bool) :
    Run Error (ℕ × Shard) := do
  let doomed := shard.doomed matching
  let shard ← removeAll doomed shard
  return (doomed.length, shard)

end Shard

end DnsLattice
