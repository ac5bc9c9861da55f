import DnsLattice.WireForms
import DnsLattice.NameTermination

/-!
# Decoding an encoded message

A reader is given a buffer that holds the wire form of a value at a position;
what follows in the buffer is irrelevant.  Each reader returns the value and
the position just after it, so the readers compose along the wire form of the
whole message.
-/

namespace DnsLattice

open Run

/-- The buffer holds `bytes` at `pos`. -/
def HoldsAt (buf : List UInt8) (pos : ℕ) (bytes : List UInt8) : Prop :=
  bytes <+: buf.drop pos

section HoldsAt

variable {buf : List UInt8} {pos : ℕ} {first second : List UInt8}

theorem HoldsAt.left (h : HoldsAt buf pos (first ++ second)) :
    HoldsAt buf pos first :=
  (List.prefix_append first second).trans h

theorem HoldsAt.right (h : HoldsAt buf pos (first ++ second)) :
    HoldsAt buf (pos + first.length) second := by
  obtain ⟨rest, hrest⟩ := h
  refine ⟨rest, ?_⟩
  rw [← List.drop_drop, ← hrest, List.append_assoc, List.drop_left]

theorem HoldsAt.length_le (h : HoldsAt buf pos first)
    (hne : 0 < first.length) : pos + first.length ≤ buf.length := by
  have hle : first.length ≤ (buf.drop pos).length := List.IsPrefix.length_le h
  rw [List.length_drop] at hle
  omega

theorem HoldsAt.getElem? (h : HoldsAt buf pos first) {i : ℕ}
    (hi : i < first.length) : buf[pos + i]? = first[i]? := by
  obtain ⟨rest, hrest⟩ := h
  rw [← List.getElem?_drop, ← hrest, List.getElem?_append_left hi]

theorem HoldsAt.take (h : HoldsAt buf pos first) :
    (buf.drop pos).take first.length = first := by
  obtain ⟨rest, hrest⟩ := h
  rw [← hrest, List.take_left]

theorem HoldsAt.slice (h : HoldsAt buf pos first)
    (hfit : pos + first.length ≤ buf.length) :
    (Run.slice buf pos (pos + first.length) : Run Error (List UInt8)) =
      .ok first := by
  unfold Run.slice
  rw [if_pos ⟨by omega, hfit⟩, Nat.add_sub_cancel_left, h.take]

end HoldsAt

/-! ## Integers -/

theorem readU16_of_holdsAt {buf : List UInt8} {pos : ℕ} {value : UInt16}
    (h : HoldsAt buf pos (u16ToBe value)) :
    readU16 buf pos = .ok (value, pos + 2) := by
  have hlength := h.length_le (by simp)
  have hbytes : ∀ i < 2, buf[pos + i]? = (u16ToBe value)[i]? := by
    intro i hi
    exact h.getElem? (by simpa using hi)
  have h0 := hbytes 0 (by omega)
  have h1 := hbytes 1 (by omega)
  have hvalue : networkValue (u16ToBe value) = value.toNat :=
    networkValue_networkBytes_of_lt value.toNat_lt
  simp only [u16ToBe_length] at hlength
  simp only [u16ToBe, networkBytes, Nat.add_zero, List.getElem?_cons_zero,
    List.getElem?_cons_succ] at h0 h1 hvalue
  unfold readU16
  rw [if_neg (by omega), index_of_getElem? h0, ok_bind, index_of_getElem? h1,
    ok_bind, hvalue]
  simp

theorem readU32_of_holdsAt {buf : List UInt8} {pos : ℕ} {value : UInt32}
    (h : HoldsAt buf pos (u32ToBe value)) :
    readU32 buf pos = .ok (value, pos + 4) := by
  have hlength := h.length_le (by simp)
  have hbytes : ∀ i < 4, buf[pos + i]? = (u32ToBe value)[i]? := by
    intro i hi
    exact h.getElem? (by simpa using hi)
  have h0 := hbytes 0 (by omega)
  have h1 := hbytes 1 (by omega)
  have h2 := hbytes 2 (by omega)
  have h3 := hbytes 3 (by omega)
  have hvalue : networkValue (u32ToBe value) = value.toNat :=
    networkValue_networkBytes_of_lt value.toNat_lt
  simp only [u32ToBe_length] at hlength
  simp only [u32ToBe, networkBytes, Nat.add_zero, List.getElem?_cons_zero,
    List.getElem?_cons_succ] at h0 h1 h2 h3 hvalue
  unfold readU32
  rw [if_neg (by omega), index_of_getElem? h0, ok_bind, index_of_getElem? h1,
    ok_bind, index_of_getElem? h2, ok_bind, index_of_getElem? h3, ok_bind,
    hvalue]
  simp

/-! ## Names -/

theorem toNat_ofNat_of_le_255 {n : ℕ} (h : n ≤ 255) :
    (UInt8.ofNat n).toNat = n := by
  rw [UInt8.toNat_ofNat']
  omega

theorem toNat_ofNat_of_le_65535 {n : ℕ} (h : n ≤ 65535) :
    (UInt16.ofNat n).toNat = n := by
  rw [UInt16.toNat_ofNat']
  omega

theorem HoldsAt.head {buf rest : List UInt8} {pos : ℕ} {byte : UInt8}
    (h : HoldsAt buf pos (byte :: rest)) : buf[pos]? = some byte := by
  have h0 := h.getElem? (show 0 < (byte :: rest).length by simp)
  simpa using h0

theorem nameLoop_of_holdsAt {buf : List UInt8} {jumped : Bool} {realEnd : ℕ}
    (labels read : List Label) (pos fuel : ℕ)
    (hpos : ∀ label ∈ labels, 0 < label.length)
    (hle : ∀ label ∈ labels, label.length ≤ 63) (hfuel : labels.length < fuel)
    (hbuf : HoldsAt buf pos (labels.flatMap labelWire ++ [0])) :
    loop (nameStep buf) fuel
        { labels := read, cur := pos
          jumped := jumped, realEnd := realEnd } =
      .ok { labels := read ++ labels
            cur := pos + (labels.flatMap labelWire).length + 1
            jumped := jumped
            realEnd := realEnd } := by
  induction labels generalizing read pos fuel with
  | nil =>
    obtain ⟨fuel, rfl⟩ : ∃ n, fuel = n + 1 := ⟨fuel - 1, by omega⟩
    have hzero : buf[pos]? = some 0 := hbuf.head
    rw [loop_succ_of_break fuel (nameStep_of_zero hzero)]
    simp
  | cons label rest ih =>
    obtain ⟨fuel, rfl⟩ : ∃ n, fuel = n + 1 := ⟨fuel - 1, by omega⟩
    have hlabel := hle label (by simp)
    have hlen : (UInt8.ofNat label.length).toNat = label.length :=
      toNat_ofNat_of_le_255 (by omega)
    rw [List.flatMap_cons, List.append_assoc] at hbuf
    have hhead : buf[pos]? = some (UInt8.ofNat label.length) := hbuf.left.head
    -- the label itself lies behind its length byte
    have hbody : HoldsAt buf (pos + 1) label := by
      have hcons : HoldsAt buf pos ([UInt8.ofNat label.length] ++ label) :=
        hbuf.left
      exact hcons.right
    have hfit : pos + 1 + label.length ≤ buf.length :=
      hbody.length_le (hpos label (by simp))
    have hstep : nameStep buf
        { labels := read, cur := pos
          jumped := jumped, realEnd := realEnd } = _ :=
      nameStep_of_label hhead (by rw [hlen]; exact hpos label (by simp))
        (by omega) (by rw [hlen]; exact hfit)
    rw [loop_succ_of_continue fuel hstep]
    simp only [hlen, hbody.take]
    rw [ih (read ++ [label]) (pos + 1 + label.length) fuel
      (fun l hl => hpos l (by simp [hl])) (fun l hl => hle l (by simp [hl]))
      (by simpa using hfuel)]
    · simp only [List.append_assoc, List.singleton_append, List.flatMap_cons,
        List.length_append, labelWire, List.length_cons, Run.ok.injEq,
        NameCursor.mk.injEq, and_true, true_and]
      omega
    · have hright := hbuf.right
      simpa [labelWire, Nat.add_assoc, Nat.add_comm 1] using hright

theorem Name.labels_length_lt (name : Name) :
    name.labels.length < name.wireLength := by
  have hlabels : name.labels.length ≤
      (name.labels.map fun label => label.length + 1).sum :=
    List.length_le_sum_of_one_le _ (by simp) |>.trans_eq' (by simp)
  rw [Name.wireLength]
  omega

theorem finishName_of_wellFormed {name : Name} (hname : name.WellFormed)
    (cur : ℕ) (jumped : Bool) (realEnd : ℕ) :
    finishName ⟨name.labels, cur, jumped, realEnd⟩ =
      .ok (name, if jumped then realEnd else cur) := by
  have hcheck : name.checkTotalLength = .ok () := by
    have hle := hname.wire_le
    exact if_neg (by omega)
  change (name.checkTotalLength >>= fun _ => Run.ok (name, _)) = _
  rw [hcheck, ok_bind]

theorem decodeName_of_holdsAt
    {buf : List UInt8} {pos : ℕ} {name : Name} (hname : name.WellFormed)
    (hbuf : HoldsAt buf pos name.wire) :
    decodeName buf pos = .ok (name, pos + name.wireLength) := by
  have hlabels := name.labels_length_lt
  have hlength := hbuf.length_le (by rw [Name.wire_length]; omega)
  rw [Name.wire_length] at hlength
  have hwire : name.wireLength = (name.labels.flatMap labelWire).length + 1 := by
    rw [Name.wireLength, flatMap_labelWire_length]
  unfold decodeName decodeNameFuel NameCursor.start
  rw [nameLoop_of_holdsAt name.labels [] pos (buf.length + 1)
    hname.label_pos hname.label_le (by omega) hbuf, ok_bind, List.nil_append,
    finishName_of_wellFormed hname, hwire]
  rfl

theorem decodeName_of_pointer
    {buf : List UInt8} {pos : ℕ} {high low : UInt8} {name : Name}
    (hname : name.WellFormed) (hpointer : HoldsAt buf pos [high, low])
    (htop : 192 ≤ high.toNat)
    (htarget : high.toNat % 64 * 256 + low.toNat < pos)
    (hbuf : HoldsAt buf (high.toNat % 64 * 256 + low.toNat) name.wire) :
    decodeName buf pos = .ok (name, pos + 2) := by
  have hlabels := name.labels_length_lt
  have hlength := hbuf.length_le (by rw [Name.wire_length]; omega)
  rw [Name.wire_length] at hlength
  have hlow : HoldsAt buf pos ([high] ++ [low]) := hpointer
  have hstep := @nameStep_of_pointer buf (.start pos) high low hpointer.head
    hlow.right.head htop htarget
  unfold decodeName decodeNameFuel
  rw [loop_succ_of_continue _ hstep]
  simp only [NameCursor.start]
  rw [nameLoop_of_holdsAt name.labels [] _ buf.length hname.label_pos
    hname.label_le (by omega) hbuf, ok_bind, List.nil_append,
    finishName_of_wellFormed hname]
  rfl

/-! ## Record data -/

def RData.NamesWellFormed : RData → Prop
  | .cname name => name.WellFormed
  | .ptr name => name.WellFormed
  | .ns name => name.WellFormed
  | .mx _ exchange => exchange.WellFormed
  | .soa mname rname _ _ _ _ _ => mname.WellFormed ∧ rname.WellFormed
  | .a _ => True
  | .aaaa _ => True
  | .txt _ => True
  | .unknown _ _ => True

theorem txtLoop_of_holdsAt {buf : List UInt8} (strings read : List (List UInt8))
    (pos stop rdlength fuel : ℕ) (hle : ∀ string ∈ strings, string.length ≤ 255)
    (hfuel : strings.length < fuel)
    (hstop : stop = pos + (strings.flatMap labelWire).length)
    (hfit : stop ≤ buf.length)
    (hbuf : HoldsAt buf pos (strings.flatMap labelWire)) :
    loop (txtStep buf stop rdlength) fuel (read, pos) =
      .ok (read ++ strings) := by
  induction strings generalizing read pos fuel with
  | nil =>
    obtain ⟨fuel, rfl⟩ : ∃ n, fuel = n + 1 := ⟨fuel - 1, by omega⟩
    have hend : txtStep buf stop rdlength (read, pos) = .ok (.inr read) := by
      simp [txtStep, hstop]
    rw [loop_succ_of_break fuel hend, List.append_nil]
  | cons string rest ih =>
    obtain ⟨fuel, rfl⟩ : ∃ n, fuel = n + 1 := ⟨fuel - 1, by omega⟩
    have hlen : (UInt8.ofNat string.length).toNat = string.length :=
      toNat_ofNat_of_le_255 (hle string (by simp))
    rw [List.flatMap_cons] at hbuf hstop
    have hhead : buf[pos]? = some (UInt8.ofNat string.length) := hbuf.left.head
    have hbody : HoldsAt buf (pos + 1) string := by
      have hcons : HoldsAt buf pos ([UInt8.ofNat string.length] ++ string) :=
        hbuf.left
      exact hcons.right
    simp only [List.length_append, labelWire, List.length_cons] at hstop
    have hstep : txtStep buf stop rdlength (read, pos) =
        .ok (.inl (read ++ [string], pos + 1 + string.length)) := by
      unfold txtStep
      dsimp only
      rw [if_pos (by omega), index_of_getElem? hhead, ok_bind, hlen,
        if_neg (by omega), hbody.slice (by omega)]
      rfl
    rw [loop_succ_of_continue fuel hstep,
      ih (read ++ [string]) (pos + 1 + string.length) fuel
        (fun s hs => hle s (by simp [hs])) (by simpa using hfuel)
        (by omega)]
    · simp
    · have hright := hbuf.right
      simpa [labelWire, Nat.add_assoc, Nat.add_comm 1] using hright

theorem decodeCheckedName_of_holdsAt
    {buf : List UInt8} {pos : ℕ} {name : Name} (hname : name.WellFormed)
    (hbuf : HoldsAt buf pos name.wire) :
    decodeCheckedName buf pos pos name.wire.length =
      .ok (name, pos + name.wire.length) := by
  unfold decodeCheckedName
  rw [decodeName_of_holdsAt hname hbuf, ok_bind]
  simp [sub]

theorem octets16_toList (addr : Vector UInt8 16) :
    octets16 addr.toList = .ok addr := by
  unfold octets16
  rw [dif_pos (by simp)]
  congr 1

theorem rdataDecode_of_holdsAt {buf : List UInt8} {pos : ℕ} {rdata : RData}
    (hnames : rdata.NamesWellFormed) (hencodable : rdata.Encodable)
    (hbuf : HoldsAt buf pos rdata.wire)
    (hfit : pos + rdata.wire.length ≤ buf.length) :
    RData.decode buf pos rdata.recordType rdata.wire.length =
      .ok (rdata, pos + rdata.wire.length) := by
  unfold RData.decode
  dsimp only
  rw [if_neg (by omega)]
  cases rdata with
  | a addr =>
    simp only [RData.recordType, RData.wire, Vector.length_toList] at *
    have hbytes : ∀ i (hi : i < 4), buf[pos + i]? = some addr[i] := by
      intro i hi
      rw [hbuf.getElem? (by simpa using hi)]
      simp [hi]
    rw [if_neg (by decide),
      index_of_getElem? (by simpa using hbytes 0 (by omega)), ok_bind,
      index_of_getElem? (hbytes 1 (by omega)), ok_bind,
      index_of_getElem? (hbytes 2 (by omega)), ok_bind,
      index_of_getElem? (hbytes 3 (by omega)), ok_bind]
    simp only [pure_eq_ok, Run.ok.injEq, Prod.mk.injEq, RData.a.injEq, and_true]
    ext i hi
    interval_cases i <;> rfl
  | aaaa addr =>
    have hlength : (RData.aaaa addr).wire.length = 16 := by
      simp [RData.wire]
    have hslice := hbuf.slice hfit
    simp only [RData.recordType]
    rw [hlength] at hslice
    rw [if_neg (by simp [hlength]), hslice, ok_bind, RData.wire,
      octets16_toList, ok_bind]
    simp
  | cname name =>
    simp only [RData.recordType]
    erw [decodeCheckedName_of_holdsAt hnames hbuf]
    rfl
  | ptr name =>
    simp only [RData.recordType]
    erw [decodeCheckedName_of_holdsAt hnames hbuf]
    rfl
  | ns name =>
    simp only [RData.recordType]
    erw [decodeCheckedName_of_holdsAt hnames hbuf]
    rfl
  | txt strings =>
    simp only [RData.recordType]
    have hcount : strings.length ≤ (strings.flatMap labelWire).length := by
      rw [flatMap_labelWire_length]
      exact List.length_le_sum_of_one_le _ (by simp) |>.trans_eq' (by simp)
    have hloop := txtLoop_of_holdsAt strings [] pos
      (pos + (RData.txt strings).wire.length) (RData.txt strings).wire.length
      ((RData.txt strings).wire.length + 1) hencodable
      (by simp only [RData.wire]; omega) rfl hfit hbuf
    rw [hloop, ok_bind]
    simp
  | mx preference exchange =>
    simp only [RData.recordType, RData.wire] at *
    rw [readU16_of_holdsAt hbuf.left, ok_bind]
    dsimp only
    have hright := hbuf.right
    rw [u16ToBe_length] at hright
    rw [decodeName_of_holdsAt hnames hright, ok_bind]
    simp [sub, Nat.add_assoc]
  | soa mname rname serial refresh retry expire minimum =>
    simp only [RData.recordType]
    obtain ⟨hm, hr⟩ := hnames
    simp only [RData.wire, List.append_assoc] at hbuf
    have h0 := hbuf.left
    have hbuf := hbuf.right
    rw [Name.wire_length] at hbuf
    have h1 := hbuf.left
    have hbuf := hbuf.right
    rw [Name.wire_length] at hbuf
    have h2 := hbuf.left
    have hbuf := hbuf.right
    rw [u32ToBe_length] at hbuf
    have h3 := hbuf.left
    have hbuf := hbuf.right
    rw [u32ToBe_length] at hbuf
    have h4 := hbuf.left
    have hbuf := hbuf.right
    rw [u32ToBe_length] at hbuf
    have h5 := hbuf.left
    have h6 := hbuf.right
    rw [u32ToBe_length] at h6
    rw [decodeName_of_holdsAt hm h0, ok_bind]
    dsimp only
    rw [decodeName_of_holdsAt hr h1, ok_bind]
    dsimp only
    rw [readU32_of_holdsAt h2, ok_bind]
    dsimp only
    rw [readU32_of_holdsAt h3, ok_bind]
    dsimp only
    rw [readU32_of_holdsAt h4, ok_bind]
    dsimp only
    rw [readU32_of_holdsAt h5, ok_bind]
    dsimp only
    rw [readU32_of_holdsAt h6, ok_bind]
    simp [sub, RData.wire, Nat.add_assoc]
  | unknown rtype data =>
    simp only [RData.recordType, RData.wire] at *
    rw [hbuf.slice hfit, ok_bind]
    rfl

/-! ## Header -/

/-- The flag bits above bit ten: `QR` and the opcode. -/
def highFlags (qr : Bool) (opcode : UInt8) : UInt16 :=
  (if qr then (0x8000 : UInt16) else 0) ||| (opcode.toUInt16 <<< 11)

/-- The flag bits up to bit ten: `AA`, `TC`, `RD`, `RA` and the rcode. -/
def lowFlags (aa tc rd ra : Bool) (rcode : UInt8) : UInt16 :=
  (if aa then (0x0400 : UInt16) else 0) ||| (if tc then 0x0200 else 0) |||
    (if rd then 0x0100 else 0) ||| (if ra then 0x0080 else 0) |||
    rcode.toUInt16

theorem encodeFlags_eq (header : Header) :
    encodeFlags header =
      highFlags header.qr header.opcode.toU8 |||
        lowFlags header.authoritative header.truncated
          header.recursionDesired header.recursionAvailable
          header.rcode.toU8 := by
  unfold encodeFlags highFlags lowFlags
  cases header.authoritative <;> cases header.truncated <;>
    cases header.recursionDesired <;> cases header.recursionAvailable <;>
    simp [UInt16.or_assoc]

theorem highFlags_bits : ∀ (qr : Bool) (opcode : Fin 16),
    let high := highFlags qr (UInt8.ofNat opcode)
    (high &&& 0x8000 != 0) = qr ∧
      ((high >>> 11) &&& 0x0F).toUInt8 = UInt8.ofNat opcode ∧
      high &&& 0x07FF = 0 := by
  decide

theorem lowFlags_bits : ∀ (aa tc rd ra : Bool) (rcode : Fin 16),
    let low := lowFlags aa tc rd ra (UInt8.ofNat rcode)
    low &&& 0x8000 = 0 ∧ low >>> 11 = 0 ∧
      (low &&& 0x0400 != 0) = aa ∧ (low &&& 0x0200 != 0) = tc ∧
      (low &&& 0x0100 != 0) = rd ∧ (low &&& 0x0080 != 0) = ra ∧
      (low &&& 0x0F).toUInt8 = UInt8.ofNat rcode := by
  decide

theorem or_and_distrib_uint16 (high low mask : UInt16) :
    (high ||| low) &&& mask = (high &&& mask) ||| (low &&& mask) := by
  rw [← UInt16.toBitVec_inj]
  exact BitVec.and_or_distrib_right

theorem high_or_and {high low mask : UInt16} (hhigh : high &&& 0x07FF = 0)
    (hmask : 0x07FF &&& mask = mask) :
    (high ||| low) &&& mask = low &&& mask := by
  have hzero : high &&& mask = 0 := by
    rw [← hmask, ← UInt16.and_assoc, hhigh, UInt16.zero_and]
  rw [or_and_distrib_uint16, hzero, UInt16.zero_or]

theorem uint8_and_15_of_lt {value : UInt8} (h : value < 16) :
    value &&& 0x0F = value := by
  rw [← UInt8.toNat_inj, UInt8.toNat_and]
  exact Nat.and_two_pow_sub_one_of_lt_two_pow (n := 4) h

theorem Opcode.fromU8_toU8_of_canonical
    {opcode : Opcode} (hcanonical : opcode.Canonical) :
    opcode.toU8 < 16 ∧ fromU8 opcode.toU8 = opcode := by
  cases opcode with
  | other value =>
    obtain ⟨hlt, hvalue⟩ := hcanonical value rfl
    simp only [List.mem_cons, List.not_mem_nil, or_false, not_or] at hvalue
    simp [toU8, fromU8, uint8_and_15_of_lt hlt, hlt, hvalue]
  | _ => decide

theorem Rcode.fromU8_toU8_of_canonical
    {rcode : Rcode} (hcanonical : rcode.Canonical) :
    rcode.toU8 < 16 ∧ fromU8 rcode.toU8 = rcode := by
  cases rcode with
  | other value =>
    obtain ⟨hlt, hvalue⟩ := hcanonical value rfl
    simp only [List.mem_cons, List.not_mem_nil, or_false, not_or] at hvalue
    simp [toU8, fromU8, uint8_and_15_of_lt hlt, hlt, hvalue]
  | _ => decide

theorem decodeFlags_encodeFlags
    {header : Header} (hopcode : header.opcode.Canonical)
    (hrcode : header.rcode.Canonical) :
    decodeFlags header.id (encodeFlags header) = header := by
  obtain ⟨hop, hopcode⟩ := Opcode.fromU8_toU8_of_canonical hopcode
  obtain ⟨hrc, hrcode⟩ := Rcode.fromU8_toU8_of_canonical hrcode
  have hhigh := highFlags_bits header.qr ⟨header.opcode.toU8.toNat, hop⟩
  have hlow := lowFlags_bits header.authoritative header.truncated
    header.recursionDesired header.recursionAvailable
    ⟨header.rcode.toU8.toNat, hrc⟩
  simp only [UInt8.ofNat_toNat] at hhigh hlow
  obtain ⟨hqr, hshift, hnone⟩ := hhigh
  obtain ⟨hlqr, hlshift, haa, htc, hrd, hra, hlrc⟩ := hlow
  unfold decodeFlags
  rw [encodeFlags_eq, or_and_distrib_uint16 _ _ 0x8000, hlqr, UInt16.or_zero,
    UInt16.shiftRight_or, hlshift, UInt16.or_zero,
    high_or_and hnone (by decide), high_or_and hnone (by decide),
    high_or_and hnone (by decide), high_or_and hnone (by decide),
    high_or_and hnone (by decide), hqr, hshift, haa, htc, hrd, hra, hlrc,
    hopcode, hrcode]

theorem decodeHeader_counts_of_holdsAt
    {buf : List UInt8} {pos : ℕ} {header : Header} {counts : Counts}
    (hbuf : HoldsAt buf pos (Message.headerWire header counts)) :
    decodeHeader buf pos =
      .ok ((decodeFlags header.id (encodeFlags header), counts),
        pos + 12) := by
  simp only [Message.headerWire, List.append_assoc] at hbuf
  have hid := hbuf.left
  have hflags := hbuf.right.left
  have hquestions := hbuf.right.right.left
  have hanswers := hbuf.right.right.right.left
  have hauthorities := hbuf.right.right.right.right.left
  have hadditionals := hbuf.right.right.right.right.right
  simp only [u16ToBe_length] at *
  unfold decodeHeader
  rw [readU16_of_holdsAt hid, ok_bind]
  dsimp only
  rw [readU16_of_holdsAt hflags, ok_bind]
  dsimp only
  rw [readU16_of_holdsAt hquestions, ok_bind]
  dsimp only
  rw [readU16_of_holdsAt hanswers, ok_bind]
  dsimp only
  rw [readU16_of_holdsAt hauthorities, ok_bind]
  dsimp only
  rw [readU16_of_holdsAt hadditionals, ok_bind]
  rfl

theorem decodeHeader_of_holdsAt
    {buf : List UInt8} {pos : ℕ} {header : Header} {counts : Counts}
    (hopcode : header.opcode.Canonical) (hrcode : header.rcode.Canonical)
    (hbuf : HoldsAt buf pos (Message.headerWire header counts)) :
    decodeHeader buf pos = .ok ((header, counts), pos + 12) := by
  rw [decodeHeader_counts_of_holdsAt hbuf,
    decodeFlags_encodeFlags hopcode hrcode]

/-! ## Questions and records -/

structure Question.Canonical (question : Question) : Prop where
  name : question.name.WellFormed
  qtype : question.qtype.Canonical
  qclass : question.qclass.Canonical
  qclass_ne_zero : question.qclass ≠ .other 0

structure ResourceRecord.Canonical (rr : ResourceRecord) : Prop where
  name : rr.name.WellFormed
  rdata_names : rr.rdata.NamesWellFormed
  rtype_eq : rr.rtype = rr.rdata.recordType
  rtype : rr.rtype.Canonical
  cls : rr.cls.Canonical
  opt_of_cls_zero : rr.cls = .other 0 → rr.rtype = .other optRtype
  ttl_lt : rr.rtype ≠ .other optRtype → rr.ttl < 0x80000000

theorem decodeQuestion_of_holdsAt
    {buf : List UInt8} {pos : ℕ} {question : Question}
    (hquestion : question.Canonical) (hbuf : HoldsAt buf pos question.wire) :
    decodeQuestion buf pos = .ok (question, pos + question.wire.length) := by
  have hlength : question.wire.length = question.name.wireLength + 2 + 2 := by
    simp [Question.wire]
  simp only [Question.wire, List.append_assoc] at hbuf
  have hname := hbuf.left
  have hqtype := hbuf.right.left
  have hqclass := hbuf.right.right
  simp only [Name.wire_length, u16ToBe_length] at *
  unfold decodeQuestion
  rw [decodeName_of_holdsAt hquestion.name hname, ok_bind]
  dsimp only
  rw [readU16_of_holdsAt hqtype, ok_bind]
  dsimp only
  rw [readU16_of_holdsAt hqclass, ok_bind]
  dsimp only
  rw [Class.fromU16_toU16_of_canonical hquestion.qclass
      hquestion.qclass_ne_zero,
    RecordType.fromU16_toU16_of_canonical hquestion.qtype, hlength]
  rfl

theorem RecordType.toU16_eq_optRtype_iff {rtype : RecordType} :
    rtype.toU16 = optRtype ↔ rtype = .other optRtype := by
  cases rtype with
  | other value => simp [toU16]
  | _ => decide

theorem decodeClass_of_canonical {rr : ResourceRecord} (hrr : rr.Canonical) :
    decodeClass (rr.rtype.toU16 == optRtype) rr.cls.toU16 = .ok rr.cls := by
  unfold decodeClass
  by_cases hopt : rr.rtype = .other optRtype
  · rw [if_pos (by simp [RecordType.toU16_eq_optRtype_iff, hopt]),
      optClass_toU16_of_canonical hrr.cls]
  · have hzero : rr.cls ≠ .other 0 := fun h => hopt (hrr.opt_of_cls_zero h)
    rw [if_neg (by simp [RecordType.toU16_eq_optRtype_iff, hopt]),
      Class.fromU16_toU16_of_canonical hrr.cls hzero]
    rfl

theorem and_sign_bit_of_lt {ttl : UInt32} (h : ttl < 0x80000000) :
    ttl &&& 0x80000000 = 0 := by
  rw [← UInt32.toNat_inj, UInt32.toNat_and]
  have hlt : ttl.toNat < 2 ^ 31 := h
  rw [← Nat.and_two_pow_sub_one_of_lt_two_pow hlt, Nat.and_assoc]
  exact Nat.and_zero _

theorem decodeTtl_of_canonical {rr : ResourceRecord} (hrr : rr.Canonical) :
    decodeTtl (rr.rtype.toU16 == optRtype) rr.ttl = rr.ttl := by
  unfold decodeTtl
  by_cases hopt : rr.rtype = .other optRtype
  · simp [RecordType.toU16_eq_optRtype_iff, hopt]
  · simp [and_sign_bit_of_lt (hrr.ttl_lt hopt)]

theorem decodeRr_of_holdsAt {buf : List UInt8} {pos : ℕ} {rr : ResourceRecord}
    (hrr : rr.Canonical) (hencodable : rr.Encodable)
    (hbuf : HoldsAt buf pos rr.wire) :
    decodeRr buf pos = .ok (rr, pos + rr.wire.length) := by
  have hlength : rr.wire.length =
      rr.name.wireLength + 2 + 2 + 4 + 2 + rr.rdata.wire.length := by
    simp [ResourceRecord.wire, ResourceRecord.headWire]
    omega
  have hfit := hbuf.length_le (by omega)
  simp only [ResourceRecord.wire, ResourceRecord.headWire,
    List.append_assoc] at hbuf
  have hname := hbuf.left
  have hrtype := hbuf.right.left
  have hcls := hbuf.right.right.left
  have httl := hbuf.right.right.right.left
  have hrdlength := hbuf.right.right.right.right.left
  have hrdata := hbuf.right.right.right.right.right
  simp only [Name.wire_length, u16ToBe_length, u32ToBe_length] at *
  unfold decodeRr
  rw [decodeName_of_holdsAt hrr.name hname, ok_bind]
  dsimp only
  rw [readU16_of_holdsAt hrtype, ok_bind]
  dsimp only
  rw [readU16_of_holdsAt hcls, ok_bind, ← hrr.rtype_eq]
  dsimp only
  rw [decodeClass_of_canonical hrr, ok_bind, readU32_of_holdsAt httl, ok_bind]
  dsimp only
  rw [readU16_of_holdsAt hrdlength, ok_bind]
  dsimp only
  rw [RecordType.fromU16_toU16_of_canonical hrr.rtype,
    decodeTtl_of_canonical hrr]
  have hread := rdataDecode_of_holdsAt hrr.rdata_names hencodable.rdata hrdata
    (by omega)
  rw [← hrr.rtype_eq] at hread
  rw [toNat_ofNat_of_le_65535 hencodable.length, hread, ok_bind, hlength]
  simp only [pure_eq_ok, Nat.add_assoc]

/-! ## Messages -/

structure Message.Canonical (message : Message) : Prop where
  opcode : message.header.opcode.Canonical
  rcode : message.header.rcode.Canonical
  questions : ∀ question ∈ message.questions, question.Canonical
  records : ∀ rr ∈ message.records, rr.Canonical

theorem decodeMany_of_holdsAt
    {α : Type} {buf : List UInt8} {item : ℕ → Run Error (α × ℕ)}
    {wire : α → List UInt8} {items : List α} {pos : ℕ}
    (hitem : ∀ first ∈ items, ∀ pos, HoldsAt buf pos (wire first) →
      item pos = .ok (first, pos + (wire first).length))
    (hbuf : HoldsAt buf pos (items.flatMap wire)) :
    decodeMany item items.length pos =
      .ok (items, pos + (items.flatMap wire).length) := by
  induction items generalizing pos with
  | nil => rfl
  | cons first rest ih =>
    rw [List.flatMap_cons] at hbuf ⊢
    rw [List.length_cons, decodeMany, hitem first (by simp) pos hbuf.left,
      ok_bind]
    dsimp only
    rw [ih (fun item hmem => hitem item (by simp [hmem])) hbuf.right, ok_bind,
      List.length_append, Nat.add_assoc]
    rfl

theorem decodeSection_of_holdsAt
    {buf : List UInt8} {pos : ℕ} {records : List ResourceRecord}
    (hcanonical : ∀ rr ∈ records, rr.Canonical)
    (hencodable : ∀ rr ∈ records, rr.Encodable)
    (hbuf : HoldsAt buf pos (records.flatMap ResourceRecord.wire)) :
    decodeMany (decodeRr buf) records.length pos =
      .ok (records, pos + (records.flatMap ResourceRecord.wire).length) :=
  decodeMany_of_holdsAt (fun rr hmem _ hrr =>
    decodeRr_of_holdsAt (hcanonical rr hmem) (hencodable rr hmem) hrr) hbuf

/-- `Message::decode` with the position where it stops. -/
def Message.decodeTo (bytes : List UInt8) : Run Error (Message × ℕ) := do
  let ((header, counts), pos) ← decodeHeader bytes 0
  let (questions, pos) ←
    decodeMany (decodeQuestion bytes) counts.questions.toNat pos
  let (answers, pos) ← decodeMany (decodeRr bytes) counts.answers.toNat pos
  let (authorities, pos) ←
    decodeMany (decodeRr bytes) counts.authorities.toNat pos
  let (additionals, pos) ←
    decodeMany (decodeRr bytes) counts.additionals.toNat pos
  return (⟨header, questions, answers, authorities, additionals⟩, pos)

theorem Message.decode_eq_decodeTo (bytes : List UInt8) :
    Message.decode bytes = (do
      let read ← Message.decodeTo bytes
      return read.1) := by
  unfold Message.decode Message.decodeTo
  simp only [bind_assoc, pure_bind]

/-- The decoder reads a message back from the start of any buffer which holds
its wire form, whatever follows, and stops behind it. -/
theorem Message.decodeTo_of_holdsAt {message : Message} {buf : List UInt8}
    (hmessage : message.Canonical) (hencodable : message.Encodable)
    (hbuf : HoldsAt buf 0 message.wire) :
    Message.decodeTo buf = .ok (message, message.wire.length) := by
  have hcanonical := hmessage.records
  have hrecords := hencodable.records
  simp only [Message.records, List.mem_append, or_imp, forall_and]
    at hcanonical hrecords
  simp only [Message.wire, Message.records, List.flatMap_append,
    List.append_assoc] at hbuf
  have hheader := hbuf.left
  have hbody := hbuf.right
  have hlength : (Message.headerWire message.header message.counts).length =
      12 := by
    simp [Message.headerWire]
  rw [hlength] at hbody
  have hwire : message.wire.length = 12 +
      (message.questions.flatMap Question.wire).length +
      (message.answers.flatMap ResourceRecord.wire).length +
      (message.authorities.flatMap ResourceRecord.wire).length +
      (message.additionals.flatMap ResourceRecord.wire).length := by
    simp only [Message.wire, Message.records, List.flatMap_append,
      List.length_append, hlength]
    omega
  unfold Message.decodeTo
  rw [decodeHeader_of_holdsAt hmessage.opcode hmessage.rcode hheader, ok_bind]
  simp only [Message.counts]
  rw [toNat_ofNat_of_le_65535 hencodable.questions_count,
    toNat_ofNat_of_le_65535 hencodable.answers_count,
    toNat_ofNat_of_le_65535 hencodable.authorities_count,
    toNat_ofNat_of_le_65535 hencodable.additionals_count,
    decodeMany_of_holdsAt (fun question hmem _ hquestion =>
      decodeQuestion_of_holdsAt (hmessage.questions question hmem) hquestion)
      hbody.left, ok_bind]
  dsimp only
  rw [decodeSection_of_holdsAt hcanonical.1.1 hrecords.1.1 hbody.right.left,
    ok_bind]
  dsimp only
  rw [decodeSection_of_holdsAt hcanonical.1.2 hrecords.1.2
    hbody.right.right.left, ok_bind]
  dsimp only
  rw [decodeSection_of_holdsAt hcanonical.2 hrecords.2
    hbody.right.right.right, ok_bind, hwire]
  rfl

theorem Message.decode_of_holdsAt {message : Message} {buf : List UInt8}
    (hmessage : message.Canonical) (hencodable : message.Encodable)
    (hbuf : HoldsAt buf 0 message.wire) :
    Message.decode buf = .ok message := by
  rw [Message.decode_eq_decodeTo,
    Message.decodeTo_of_holdsAt hmessage hencodable hbuf, ok_bind]
  rfl

/-- Decoding inverts encoding on canonical messages.  Equality of messages is
equality of every byte of every label, so letter case is preserved. -/
theorem decode_encode_of_canonical
    {message : Message} {bytes : List UInt8}
    (hmessage : message.Canonical) (hencode : message.encode = .ok bytes) :
    Message.decode bytes = .ok message := by
  obtain ⟨hencodable, _, rfl⟩ := Message.encode_eq_ok_iff.mp hencode
  apply Message.decode_of_holdsAt hmessage hencodable
  exact List.prefix_refl _

/-- A response with a mixed-case name, one record with a nested name and an
OPT record. -/
def mailExchangeResponse : Message where
  header :=
    { id := 0x1234
      qr := true
      opcode := .query
      authoritative := false
      truncated := false
      recursionDesired := true
      recursionAvailable := true
      rcode := .noError }
  questions := [⟨⟨[[65, 98]]⟩, .mx, .in⟩]
  answers := [⟨⟨[[97, 66]]⟩, .mx, .in, 60, .mx 10 ⟨[[77], [97, 98]]⟩⟩]
  authorities := []
  additionals := [⟨.root, .other 41, .other 1232, 0x8000, .unknown 41 []⟩]

theorem mailExchangeResponse_canonical : mailExchangeResponse.Canonical := by
  refine ⟨by rintro _ ⟨⟩, by rintro _ ⟨⟩, ?_, ?_⟩
  · simp only [mailExchangeResponse, List.mem_singleton, forall_eq]
    exact ⟨⟨by decide, by decide, by decide⟩, by rintro _ ⟨⟩, by rintro _ ⟨⟩, by simp⟩
  · simp only [mailExchangeResponse, Message.records, List.append_nil,
      List.cons_append, List.nil_append, List.mem_cons, List.not_mem_nil,
      or_false, forall_eq_or_imp, forall_eq]
    refine ⟨⟨⟨by decide, by decide, by decide⟩,
      ⟨by decide, by decide, by decide⟩, rfl, by rintro _ ⟨⟩, by rintro _ ⟨⟩, by simp,
      by decide⟩, ⟨⟨by decide, by decide, by decide⟩, trivial, rfl, ?_, ?_,
      fun _ => rfl, fun h => absurd rfl h⟩⟩
    · rintro value ⟨⟩
      decide
    · rintro value ⟨⟩
      decide

theorem decode_encode_mailExchangeResponse :
    mailExchangeResponse.Canonical ∧
      ∃ bytes, mailExchangeResponse.encode = .ok bytes ∧
        Message.decode bytes = .ok mailExchangeResponse :=
  ⟨mailExchangeResponse_canonical, _, rfl,
    decode_encode_of_canonical mailExchangeResponse_canonical rfl⟩

/-- A question type written as an `other` alias of a named type is decoded as
the named type, although everything else about the message is canonical. -/
theorem decode_encode_alias_question_type :
    let header : Header := ⟨0, false, .query, false, false, true, false,
      .noError⟩
    let question : RecordType → Question := fun qtype => ⟨.root, qtype, .in⟩
    let message : RecordType → Message := fun qtype =>
      ⟨header, [question qtype], [], [], []⟩
    (header.opcode.Canonical ∧ header.rcode.Canonical ∧
      (question (.other 1)).name.WellFormed ∧
      (question (.other 1)).qclass.Canonical ∧
      (question (.other 1)).qclass ≠ .other 0) ∧
    ∃ bytes, (message (.other 1)).encode = .ok bytes ∧
      Message.decode bytes = .ok (message .a) ∧
      message .a ≠ message (.other 1) :=
  ⟨⟨by rintro _ ⟨⟩, by rintro _ ⟨⟩, ⟨by decide, by decide, by decide⟩, by rintro _ ⟨⟩, by simp⟩,
    _, rfl, rfl, by decide⟩

end DnsLattice
