import DnsLattice.EdnsModel
import DnsLattice.CacheModel

/-!
# Cache keys tell queries apart

The key of a query is a header of fixed length followed by its name in
uncompressed lowercase wire form.  Both can be read back, so equal keys mean
the same group, type, class and query shape and the same name up to case.
-/

namespace DnsLattice

def keyWire (labels : List Label) : List UInt8 :=
  (labels.flatMap fun label =>
    UInt8.ofNat label.length :: label.map toAsciiLowercase) ++ [0]

theorem keyLabels_eq_some {labels : List Label} {bytes key : List UInt8}
    (h : keyLabels labels bytes = some key) :
    key = bytes ++ keyWire labels ∧
      ∀ label ∈ labels, label.length ≤ 63 := by
  induction labels generalizing bytes with
  | nil =>
    obtain rfl := Option.some.inj h
    simp [keyWire]
  | cons label rest ih =>
    rw [keyLabels] at h
    split_ifs at h with hlong hfull
    obtain ⟨rfl, hrest⟩ := ih h
    refine ⟨by simp [keyWire], ?_⟩
    intro other hother
    rcases List.mem_cons.mp hother with rfl | hmem
    · omega
    · exact hrest other hmem

theorem uint8_ofNat_inj {first second : ℕ} (hfirst : first ≤ 63)
    (hsecond : second ≤ 63) (h : UInt8.ofNat first = UInt8.ofNat second) :
    first = second := by
  have hvalue := congrArg UInt8.toNat h
  simp only [UInt8.toNat_ofNat'] at hvalue
  omega

/-- The labels can be read back up to case, since the end of the string is
known. -/
theorem keyWire_inj {labels others : List Label}
    (hlabels : ∀ label ∈ labels, label.length ≤ 63)
    (hothers : ∀ label ∈ others, label.length ≤ 63)
    (h : keyWire labels = keyWire others) :
    labels.map (fun label => label.map toAsciiLowercase) =
      others.map (fun label => label.map toAsciiLowercase) := by
  induction labels generalizing others with
  | nil =>
    cases others with
    | nil => rfl
    | cons other rest =>
      have hlength := congrArg List.length h
      simp [keyWire] at hlength
  | cons label rest ih =>
    cases others with
    | nil =>
      have hlength := congrArg List.length h
      simp [keyWire] at hlength
    | cons other others =>
      simp only [keyWire, List.flatMap_cons, List.cons_append,
        List.append_assoc, List.cons.injEq] at h
      obtain ⟨hcount, htail⟩ := h
      have hlength := uint8_ofNat_inj (hlabels label (by simp))
        (hothers other (by simp)) hcount
      obtain ⟨hlabel, hrest⟩ := List.append_inj htail (by simp [hlength])
      rw [List.map_cons, List.map_cons, hlabel,
        ih (fun _ hmem => hlabels _ (by simp [hmem]))
          (fun _ hmem => hothers _ (by simp [hmem])) hrest]

theorem keyWire_eq_iff {labels others : List Label}
    (hlabels : ∀ label ∈ labels, label.length ≤ 63)
    (hothers : ∀ label ∈ others, label.length ≤ 63) :
    keyWire labels = keyWire others ↔
      labels.map (fun label => label.map toAsciiLowercase) =
        others.map (fun label => label.map toAsciiLowercase) := by
  have hlower : ∀ labels : List Label, keyWire labels =
      ((labels.map fun label => label.map toAsciiLowercase).flatMap
        fun label => UInt8.ofNat label.length :: label) ++ [0] := by
    intro labels
    simp [keyWire, List.flatMap_map]
  refine ⟨keyWire_inj hlabels hothers, ?_⟩
  intro hequal
  rw [hlower, hlower, hequal]

theorem length_keyWire (labels : List Label) :
    (keyWire labels).length =
      (labels.map fun label => label.length + 1).sum + 1 := by
  simp [keyWire, List.length_flatMap]

theorem u32ToBe_inj {first second : UInt32}
    (h : u32ToBe first = u32ToBe second) : first = second := by
  have hvalue : ∀ value : UInt32, networkValue (u32ToBe value) = value.toNat :=
    fun value => networkValue_networkBytes_of_lt value.toNat_lt
  apply UInt32.toNat_inj.mp
  rw [← hvalue first, h, hvalue second]

theorem u16ToBe_inj {first second : UInt16}
    (h : u16ToBe first = u16ToBe second) : first = second := by
  rw [← uint16_ofNat_networkValue_u16ToBe first, h,
    uint16_ofNat_networkValue_u16ToBe second]

theorem shapeBits_inj {rd rd' dnssecOk dnssecOk' : Bool}
    (h : shapeBits rd dnssecOk = shapeBits rd' dnssecOk') :
    rd = rd' ∧ dnssecOk = dnssecOk' := by
  revert rd rd' dnssecOk dnssecOk'
  decide

theorem keyBuf_inj {group group' : UInt32} {rtype rtype' : RecordType}
    {cls cls' : Class} {rd rd' dnssecOk dnssecOk' : Bool} {name name' : Name}
    {key : List UInt8} (h : keyBuf group rtype cls rd dnssecOk name = some key)
    (h' : keyBuf group' rtype' cls' rd' dnssecOk' name' = some key) :
    group = group' ∧ typeCode rtype = typeCode rtype' ∧
      classCode cls = classCode cls' ∧ rd = rd' ∧ dnssecOk = dnssecOk' ∧
      name.eqIgnoreCase name' = true := by
  obtain ⟨hkey, hlabels⟩ := keyLabels_eq_some h
  obtain ⟨hkey', hlabels'⟩ := keyLabels_eq_some h'
  obtain ⟨hheader, hwire⟩ := List.append_inj (hkey.symm.trans hkey') (by simp)
  obtain ⟨hcodes, hshape⟩ := List.append_inj hheader (by simp)
  obtain ⟨hfirst, hclass⟩ := List.append_inj hcodes (by simp)
  obtain ⟨hgroup, htype⟩ := List.append_inj hfirst (by simp)
  obtain ⟨hrd, hdo⟩ := shapeBits_inj (List.singleton_inj.mp hshape)
  refine ⟨u32ToBe_inj hgroup, u16ToBe_inj htype, u16ToBe_inj hclass, hrd, hdo,
    ?_⟩
  rw [Name.eqIgnoreCase, beq_iff_eq]
  exact keyWire_inj hlabels hlabels' hwire

/-! ## The buffer of a key -/

structure KeyBuf where
  bytes : List UInt8
  len : ℕ
  deriving DecidableEq, Repr

namespace KeyBuf

open Run

def pushLower : List UInt8 → List UInt8 → ℕ →
    Run Error (List UInt8 × ℕ)
  | [], bytes, len => .ok (bytes, len)
  | byte :: rest, bytes, len => do
      let bytes ← copyFromSlice bytes len [toAsciiLowercase byte]
      pushLower rest bytes (len + 1)

def pushLabels : List Label → List UInt8 → ℕ → Run Error (Option KeyBuf)
  | [], bytes, len => do
      let bytes ← copyFromSlice bytes len [0]
      return some ⟨bytes, len + 1⟩
  | label :: rest, bytes, len =>
      if 63 < label.length then .ok none
      else if maxKeyLen < len + 1 + label.length + 1 then .ok none
      else do
        let bytes ← copyFromSlice bytes len [UInt8.ofNat label.length]
        let (bytes, len) ← pushLower label bytes (len + 1)
        pushLabels rest bytes len

/-- `KeyBuf::new`: a write outside the buffer panics. -/
def new (group : UInt32) (rtype : RecordType) (cls : Class)
    (recursionDesired dnssecOk : Bool) (name : Name) :
    Run Error (Option KeyBuf) := do
  let bytes := List.replicate maxKeyLen 0
  let bytes ← copyFromSlice bytes 0 (u32ToBe group)
  let bytes ← copyFromSlice bytes 4 (u16ToBe (typeCode rtype))
  let bytes ← copyFromSlice bytes 6 (u16ToBe (classCode cls))
  let bytes ← copyFromSlice bytes 8 [shapeBits recursionDesired dnssecOk]
  pushLabels name.labels bytes 9

def asBytes (key : KeyBuf) : List UInt8 := key.bytes.take key.len

theorem pushLower_eq {label front room : List UInt8}
    (h : label.length ≤ room.length) :
    pushLower label (front ++ room) front.length =
      .ok (front ++ label.map toAsciiLowercase ++ room.drop label.length,
        front.length + label.length) := by
  induction label generalizing front room with
  | nil => simp [pushLower]
  | cons byte rest ih =>
    rw [List.length_cons] at h
    have hnext := @ih (front ++ [toAsciiLowercase byte]) (room.drop 1)
      (by rw [List.length_drop]; omega)
    rw [List.length_append, List.length_singleton] at hnext
    rw [pushLower, copyFromSlice_append (by rw [List.length_singleton]; omega),
      ok_bind, List.length_singleton, hnext]
    simp [Nat.add_comm, Nat.add_left_comm]

/-- Behind the bytes written so far the loop builds the key which `keyLabels`
gives, and stays inside the buffer. -/
theorem exists_pushLabels {labels : List Label} {front room : List UInt8}
    (hlength : front.length + room.length = maxKeyLen)
    (hroom : 0 < room.length) :
    ∃ key, pushLabels labels (front ++ room) front.length = .ok key ∧
      key.map asBytes = keyLabels labels front := by
  induction labels generalizing front room with
  | nil =>
    rw [pushLabels, copyFromSlice_append (by exact hroom), ok_bind]
    refine ⟨_, rfl, ?_⟩
    simp [asBytes, keyLabels, List.take_append]
  | cons label rest ih =>
    rw [pushLabels, keyLabels]
    by_cases hlong : 63 < label.length
    · exact ⟨none, by rw [if_pos hlong], by rw [if_pos hlong]; rfl⟩
    rw [if_neg hlong, if_neg hlong]
    by_cases hfull : maxKeyLen < front.length + 1 + label.length + 1
    · exact ⟨none, by rw [if_pos hfull], by rw [if_pos hfull]; rfl⟩
    rw [if_neg hfull, if_neg hfull,
      copyFromSlice_append (by exact hroom), ok_bind]
    have hlower := @pushLower_eq label
      (front ++ [UInt8.ofNat label.length]) (room.drop 1)
      (by rw [List.length_drop]; omega)
    rw [List.length_append, List.length_singleton] at hlower
    have hnext := @ih (front ++ UInt8.ofNat label.length ::
      label.map toAsciiLowercase) ((room.drop 1).drop label.length)
      (by simp; omega) (by simp; omega)
    rw [List.length_singleton, hlower]
    simpa [Nat.add_comm, Nat.add_left_comm] using hnext

/-- The buffer never overflows, and holds what the other functions of the
cache see of the key. -/
theorem exists_new (group : UInt32) (rtype : RecordType) (cls : Class)
    (rd dnssecOk : Bool) (name : Name) :
    ∃ key, new group rtype cls rd dnssecOk name = .ok key ∧
      key.map asBytes = keyBuf group rtype cls rd dnssecOk name := by
  unfold new
  generalize hzero : (List.replicate maxKeyLen 0 : List UInt8) = room
  have hlength : room.length = 264 := by
    rw [← hzero, List.length_replicate, maxKeyLen]
  have hcopy : ∀ (front patch : List UInt8) (start stop : ℕ),
      front.length = start → start + patch.length = stop → stop ≤ 264 →
      (copyFromSlice (front ++ room.drop start) start patch :
        Run Error (List UInt8)) = .ok (front ++ patch ++ room.drop stop) := by
    rintro front patch _ _ rfl rfl hle
    rw [copyFromSlice_append (by rw [List.length_drop]; omega), List.drop_drop]
  have hgroup := hcopy [] (u32ToBe group) 0 4 rfl rfl (by decide)
  have htype := hcopy (u32ToBe group) (u16ToBe (typeCode rtype)) 4 6 rfl rfl
    (by decide)
  have hclass := hcopy (u32ToBe group ++ u16ToBe (typeCode rtype))
    (u16ToBe (classCode cls)) 6 8 rfl rfl (by decide)
  have hshape := hcopy (u32ToBe group ++ u16ToBe (typeCode rtype) ++
    u16ToBe (classCode cls)) [shapeBits rd dnssecOk] 8 9 rfl rfl (by decide)
  rw [List.nil_append, List.nil_append, List.drop_zero] at hgroup
  dsimp only
  rw [hgroup, ok_bind, htype, ok_bind, hclass, ok_bind, hshape, ok_bind]
  apply exists_pushLabels
  · simp [hlength, maxKeyLen]
  · simp [hlength]

end KeyBuf

theorem keyLabels_of_le {labels : List Label} {bytes : List UInt8}
    (hlabels : ∀ label ∈ labels, label.length ≤ 63)
    (hfits : bytes.length + (keyWire labels).length ≤ maxKeyLen) :
    keyLabels labels bytes = some (bytes ++ keyWire labels) := by
  induction labels generalizing bytes with
  | nil => rfl
  | cons label rest ih =>
    rw [List.forall_mem_cons] at hlabels
    have hwire : keyWire (label :: rest) = (UInt8.ofNat label.length ::
        label.map toAsciiLowercase) ++ keyWire rest := by simp [keyWire]
    rw [hwire, List.length_append, List.length_cons, List.length_map] at hfits
    have hpos : 0 < (keyWire rest).length := by simp [length_keyWire]
    rw [keyLabels, if_neg (by omega), if_neg (by omega), ih hlabels.2, hwire,
      List.append_assoc]
    rw [List.length_append, List.length_cons, List.length_map]
    omega

theorem keyBuf_of_wellFormed {name : Name} (hname : name.WellFormed)
    (group : UInt32) (rtype : RecordType) (cls : Class) (rd dnssecOk : Bool) :
    keyBuf group rtype cls rd dnssecOk name =
      some (u32ToBe group ++ u16ToBe (typeCode rtype) ++
        u16ToBe (classCode cls) ++ [shapeBits rd dnssecOk] ++
        keyWire name.labels) := by
  apply keyLabels_of_le hname.label_le
  have hwire := hname.wire_le
  rw [Name.wireLength, ← length_keyWire] at hwire
  simp only [List.length_append, u32ToBe_length, u16ToBe_length,
    List.length_singleton, maxKeyLen]
  omega

/-- Keys of well-formed names are built without leaving their buffer, and
have the same bytes exactly when they ask the same of the same name. -/
theorem KeyBuf.asBytes_eq_iff {name name' : Name} (hname : name.WellFormed)
    (hname' : name'.WellFormed) (group group' : UInt32)
    (rtype rtype' : RecordType) (cls cls' : Class)
    (rd rd' dnssecOk dnssecOk' : Bool) :
    ∃ key key', KeyBuf.new group rtype cls rd dnssecOk name = .ok (some key) ∧
      KeyBuf.new group' rtype' cls' rd' dnssecOk' name' = .ok (some key') ∧
      (key.asBytes = key'.asBytes ↔
        group = group' ∧ typeCode rtype = typeCode rtype' ∧
          classCode cls = classCode cls' ∧ rd = rd' ∧ dnssecOk = dnssecOk' ∧
          name.eqIgnoreCase name' = true) := by
  have hkey := keyBuf_of_wellFormed hname group rtype cls rd dnssecOk
  have hkey' := keyBuf_of_wellFormed hname' group' rtype' cls' rd' dnssecOk'
  obtain ⟨key, hnew, hbytes⟩ :=
    KeyBuf.exists_new group rtype cls rd dnssecOk name
  obtain ⟨key', hnew', hbytes'⟩ :=
    KeyBuf.exists_new group' rtype' cls' rd' dnssecOk' name'
  rw [hkey, Option.map_eq_some_iff] at hbytes
  rw [hkey', Option.map_eq_some_iff] at hbytes'
  obtain ⟨key, rfl, hbytes⟩ := hbytes
  obtain ⟨key', rfl, hbytes'⟩ := hbytes'
  refine ⟨key, key', hnew, hnew', ?_⟩
  rw [hbytes, hbytes']
  constructor
  · intro hequal
    rw [← hequal] at hkey'
    exact keyBuf_inj hkey hkey'
  · rintro ⟨rfl, htype, hclass, rfl, rfl, hequal⟩
    rw [Name.eqIgnoreCase, beq_iff_eq] at hequal
    rw [htype, hclass,
      (keyWire_eq_iff hname.label_le hname'.label_le).mpr hequal]

/-- The longest names fill the buffer; the case of their letters does not
matter, and neither does the alias of a type. -/
theorem KeyBuf.asBytes_longest_name :
    let name (letter : UInt8) : Name :=
      ⟨[List.replicate 63 letter, List.replicate 63 letter,
        List.replicate 63 letter, List.replicate 61 letter]⟩
    ∃ key key', KeyBuf.new 7 .a .in true false (name 65) = .ok (some key) ∧
      KeyBuf.new 7 (.other 1) .in true false (name 97) = .ok (some key') ∧
      key.asBytes = key'.asBytes := by
  have hname : ∀ letter, Name.WellFormed
      ⟨[List.replicate 63 letter, List.replicate 63 letter,
        List.replicate 63 letter, List.replicate 61 letter]⟩ := by
    intro letter
    refine ⟨?_, ?_, ?_⟩ <;> simp [Name.wireLength]
  obtain ⟨key, key', hkey, hkey', hequal⟩ := KeyBuf.asBytes_eq_iff (hname 65)
    (hname 97) 7 7 .a (.other 1) .in .in true true false false
  exact ⟨key, key', hkey, hkey', hequal.mpr (by decide)⟩

end DnsLattice
