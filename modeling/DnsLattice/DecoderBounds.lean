import DnsLattice.NameGrammar
import DnsLattice.SettledRuns

/-!
# Where the decoder reads

Each reader of the message decoder is run on a buffer and on the same buffer
with bytes added behind it.  No reader panics, none reads past the buffer, and
unless it fails the added bytes do not matter.  A record ends where its length
field says, whatever the names in its data point to.
-/

namespace DnsLattice

open Run

variable (buf extra : List UInt8)

/-! ## Integers and names -/

theorem readU16_settled (pos : ℕ) :
    Settled (fun read => read.2 = pos + 2 ∧ pos + 2 ≤ buf.length)
      (readU16 buf pos) (readU16 (buf ++ extra) pos) := by
  unfold readU16
  refine .guard (by simp; omega) fun hfit => ?_
  refine (settled_index (by omega) extra).bind fun _ _ _ => ?_
  refine (settled_index (by omega) extra).bind fun _ _ _ => ?_
  exact .ok ⟨rfl, by omega⟩

theorem readU32_settled (pos : ℕ) :
    Settled (fun read => read.2 = pos + 4 ∧ pos + 4 ≤ buf.length)
      (readU32 buf pos) (readU32 (buf ++ extra) pos) := by
  unfold readU32
  refine .guard (by simp; omega) fun hfit => ?_
  refine (settled_index (by omega) extra).bind fun _ _ _ => ?_
  refine (settled_index (by omega) extra).bind fun _ _ _ => ?_
  refine (settled_index (by omega) extra).bind fun _ _ _ => ?_
  refine (settled_index (by omega) extra).bind fun _ _ _ => ?_
  exact .ok ⟨rfl, by omega⟩

variable {buf}

theorem Expands.stop_bounds {offset stop : ℕ} {labels : List Label}
    (h : Expands buf offset labels stop) :
    offset < stop ∧ stop ≤ buf.length := by
  induction h with
  | zero hbytes => exact ⟨by omega, hbytes.length_le (by simp)⟩
  | label _ _ _ _ ih => exact ⟨by omega, ih.2⟩
  | pointer hbytes _ _ _ _ => exact ⟨by omega, hbytes.length_le (by simp)⟩

theorem LabelAt.extend {offset stop : ℕ} (h : LabelAt buf offset stop) :
    LabelAt (buf ++ extra) offset stop := by
  obtain ⟨len, hbyte, hpos, hle, hstop, hfit⟩ := h
  have hlt := lt_length_of_getElem?_eq_some hbyte
  refine ⟨len, ?_, hpos, hle, hstop, by simp; omega⟩
  rw [List.getElem?_append_left hlt, hbyte]

theorem PointerAt.extend {offset target : ℕ} (h : PointerAt buf offset target) :
    PointerAt (buf ++ extra) offset target := by
  obtain ⟨high, low, hhigh, hlow, hrest⟩ := h
  refine ⟨high, low, ?_, ?_, hrest⟩
  · rw [List.getElem?_append_left (lt_length_of_getElem?_eq_some hhigh), hhigh]
  · rw [List.getElem?_append_left (lt_length_of_getElem?_eq_some hlow), hlow]

theorem Follows.extend {offset next : ℕ} (h : Follows buf offset next) :
    Follows (buf ++ extra) offset next :=
  h.imp (LabelAt.extend extra) (PointerAt.extend extra)

/-- A walk which comes back to a pointer does so in a longer buffer too. -/
theorem PointerCycle.extend {pos : ℕ} (h : PointerCycle buf pos) :
    PointerCycle (buf ++ extra) pos := by
  obtain ⟨pointer, target, hto, hpointer, hback⟩ := h
  have hmono := Relation.ReflTransGen.mono
    (fun offset next (h : Follows buf offset next) => h.extend extra)
  exact ⟨pointer, target, hmono _ _ hto, hpointer.extend extra, hmono _ _ hback⟩

variable (buf)

theorem decodeNameFuel_ne_panic (fuel pos : ℕ) :
    decodeNameFuel buf fuel pos ≠ .panic := by
  unfold decodeNameFuel
  cases hloop : loop (nameStep buf) fuel (.start pos) with
  | ok cursor => exact (returns_iff.mp (finishName_returns cursor)).1
  | err error => simp
  | panic => exact absurd hloop (loop_ne_panic (nameStep_ne_panic buf) _ _)
  | diverge => simp

theorem decodeName_settled (pos : ℕ) :
    Settled (fun read => pos < read.2 ∧ read.2 ≤ buf.length)
      (decodeName buf pos) (decodeName (buf ++ extra) pos) := by
  refine ⟨decodeNameFuel_ne_panic buf _ pos, ?_, ?_⟩
  · rintro ⟨name, next⟩ hdecode
    exact (decodeName_eq_ok_iff.mp hdecode).1.stop_bounds
  · cases hdecode : decodeName buf pos with
    | ok read =>
      obtain ⟨name, next⟩ := read
      obtain ⟨hexpands, hshort⟩ := decodeName_eq_ok_iff.mp hdecode
      exact Or.inr (decodeName_eq_ok_iff.mpr ⟨hexpands.extend extra, hshort⟩)
    | err error => exact Or.inl ⟨error, rfl⟩
    | panic => exact absurd hdecode (decodeNameFuel_ne_panic buf _ pos)
    | diverge =>
      have hcycle := (decodeName_eq_diverge_iff buf pos).mp hdecode
      exact Or.inr ((decodeName_eq_diverge_iff _ pos).mpr (hcycle.extend extra))

/-! ## Record data -/

theorem checkLength_settled {α : Type} {pos start : ℕ} (hpos : start ≤ pos)
    (rdlength : ℕ) (value : α) :
    Settled (fun read => read.2 = start + rdlength)
      (do
        let used ← sub pos start
        if used ≠ rdlength then lengthMismatch rdlength
        else return (value, pos) : Run Error (α × ℕ))
      (do
        let used ← sub pos start
        if used ≠ rdlength then lengthMismatch rdlength
        else return (value, pos)) := by
  refine (settled_sub hpos).bind fun used _ hused => ?_
  refine .guard id fun hsame => .ok ?_
  change pos = start + rdlength
  omega

theorem decodeCheckedName_settled (pos rdlength : ℕ) :
    Settled (fun read => read.2 = pos + rdlength)
      (decodeCheckedName buf pos pos rdlength)
      (decodeCheckedName (buf ++ extra) pos pos rdlength) := by
  refine (decodeName_settled buf extra pos).bind fun read _ hread => ?_
  exact checkLength_settled hread.1.le rdlength read.1

theorem txtStep_settled {stop : ℕ} (hstop : stop ≤ buf.length) (rdlength : ℕ)
    (state : List (List UInt8) × ℕ) :
    Settled (fun round => round.elim (fun _ => True) fun _ => True)
      (txtStep buf stop rdlength state)
      (txtStep (buf ++ extra) stop rdlength state) := by
  obtain ⟨strings, p⟩ := state
  unfold txtStep
  dsimp only
  by_cases hmore : p < stop
  · rw [if_pos hmore, if_pos hmore]
    refine (settled_index (by omega) extra).bind fun len _ _ => ?_
    refine .guard id fun hfit => ?_
    refine (settled_slice (by omega) (by omega) extra).bind fun _ _ _ => ?_
    exact .ok trivial
  · rw [if_neg hmore, if_neg hmore]
    exact .ok trivial

theorem octets16_ne_panic {bytes : List UInt8} (h : bytes.length = 16) :
    octets16 bytes ≠ .panic := by
  unfold octets16
  rw [dif_pos h]
  simp

theorem rdataDecode_settled (pos : ℕ) (rtype : RecordType) (rdlength : ℕ) :
    Settled
      (fun read => read.2 = pos + rdlength ∧ pos + rdlength ≤ buf.length)
      (RData.decode buf pos rtype rdlength)
      (RData.decode (buf ++ extra) pos rtype rdlength) := by
  unfold RData.decode
  dsimp only
  refine .guard (by simp; omega) fun hfit => ?_
  have hend : pos + rdlength ≤ buf.length := by omega
  have hnamed : ∀ make : Name → RData,
      Settled
        (fun read => read.2 = pos + rdlength ∧ pos + rdlength ≤ buf.length)
        (decodeCheckedName buf pos pos rdlength >>= fun read =>
          .ok (make read.1, read.2))
        (decodeCheckedName (buf ++ extra) pos pos rdlength >>= fun read =>
          .ok (make read.1, read.2)) := by
    intro make
    refine (decodeCheckedName_settled buf extra pos rdlength).bind ?_
    rintro ⟨name, next⟩ _ hnext
    exact .ok ⟨hnext, hend⟩
  cases rtype with
  | a =>
    refine .guard id fun hfour => ?_
    refine (settled_index (by omega) extra).bind fun _ _ _ => ?_
    refine (settled_index (by omega) extra).bind fun _ _ _ => ?_
    refine (settled_index (by omega) extra).bind fun _ _ _ => ?_
    refine (settled_index (by omega) extra).bind fun _ _ _ => ?_
    refine .ok ⟨?_, hend⟩
    change pos + 4 = pos + rdlength
    omega
  | aaaa =>
    refine .guard id fun hsixteen => ?_
    refine (settled_slice (by omega) (by omega) extra).bind
      fun bytes _ hbytes => ?_
    refine (Settled.refl (octets16_ne_panic (by omega))).bind
      fun octets _ _ => ?_
    refine .ok ⟨?_, hend⟩
    change pos + 16 = pos + rdlength
    omega
  | cname => exact hnamed .cname
  | ptr => exact hnamed .ptr
  | ns => exact hnamed .ns
  | txt =>
    refine (Settled.loop (fun _ => True)
      (fun state _ => txtStep_settled buf extra hend rdlength state) _
      trivial).bind fun strings _ _ => ?_
    exact .ok ⟨rfl, hend⟩
  | mx =>
    refine (readU16_settled buf extra pos).bind ?_
    rintro ⟨preference, after⟩ _ hafter
    refine (decodeName_settled buf extra after).bind ?_
    rintro ⟨exchange, next⟩ _ hnext
    exact (checkLength_settled (by omega) rdlength _).imp
      fun _ _ hread => ⟨hread, hend⟩
  | soa =>
    refine (decodeName_settled buf extra pos).bind ?_
    rintro ⟨mname, q0⟩ _ h0
    refine (decodeName_settled buf extra q0).bind ?_
    rintro ⟨rname, q1⟩ _ h1
    refine (readU32_settled buf extra q1).bind ?_
    rintro ⟨serial, q2⟩ _ h2
    refine (readU32_settled buf extra q2).bind ?_
    rintro ⟨refresh, q3⟩ _ h3
    refine (readU32_settled buf extra q3).bind ?_
    rintro ⟨retry, q4⟩ _ h4
    refine (readU32_settled buf extra q4).bind ?_
    rintro ⟨expire, q5⟩ _ h5
    refine (readU32_settled buf extra q5).bind ?_
    rintro ⟨minimum, q6⟩ _ h6
    exact (checkLength_settled (by omega) rdlength _).imp
      fun _ _ hread => ⟨hread, hend⟩
  | other value =>
    refine (settled_slice (by omega) hend extra).bind fun data _ _ => ?_
    exact .ok ⟨rfl, hend⟩

/-! ## Questions and records -/

theorem ofExcept_ne_panic {ε α : Type} (result : Except ε α) :
    Run.ofExcept result ≠ .panic := by
  cases result <;> simp [Run.ofExcept]

theorem decodeClass_ne_panic (isOpt : Bool) (raw : UInt16) :
    decodeClass isOpt raw ≠ .panic := by
  unfold decodeClass
  split_ifs
  · simp
  · exact ofExcept_ne_panic _

theorem decodeQuestion_settled (pos : ℕ) :
    Settled (fun read => read.2 ≤ buf.length)
      (decodeQuestion buf pos) (decodeQuestion (buf ++ extra) pos) := by
  refine (decodeName_settled buf extra pos).bind ?_
  rintro ⟨name, q0⟩ _ h0
  refine (readU16_settled buf extra q0).bind ?_
  rintro ⟨qtype, q1⟩ _ h1
  refine (readU16_settled buf extra q1).bind ?_
  rintro ⟨qclass, q2⟩ _ h2
  refine (Settled.refl (ofExcept_ne_panic _)).bind fun found _ _ => .ok ?_
  change q2 ≤ buf.length
  omega

/-- A record ends behind its owner name, its ten bytes of fixed fields and as
many bytes as its length field says. -/
def RecordEnd (pos next : ℕ) : Prop :=
  ∃ owner after rdlength, decodeName buf pos = .ok (owner, after) ∧
    readU16 buf (after + 8) = .ok (rdlength, after + 10) ∧
    next = after + 10 + rdlength.toNat

theorem decodeRr_settled (pos : ℕ) :
    Settled (fun read => RecordEnd buf pos read.2 ∧ read.2 ≤ buf.length)
      (decodeRr buf pos) (decodeRr (buf ++ extra) pos) := by
  refine (decodeName_settled buf extra pos).bind ?_
  rintro ⟨owner, after⟩ howner _
  refine (readU16_settled buf extra after).bind ?_
  rintro ⟨rtype, q1⟩ _ ⟨rfl, _⟩
  refine (readU16_settled buf extra (after + 2)).bind ?_
  rintro ⟨cls, q2⟩ _ ⟨rfl, _⟩
  refine (Settled.refl (decodeClass_ne_panic _ _)).bind fun _ _ _ => ?_
  refine (readU32_settled buf extra (after + 2 + 2)).bind ?_
  rintro ⟨ttl, q3⟩ _ ⟨rfl, _⟩
  refine (readU16_settled buf extra (after + 2 + 2 + 4)).bind ?_
  rintro ⟨rdlength, q4⟩ hlength ⟨rfl, _⟩
  refine (rdataDecode_settled buf extra _ _ _).bind ?_
  rintro ⟨rdata, next⟩ _ ⟨hnext, hend⟩
  exact .ok ⟨⟨owner, after, rdlength, howner, hlength, hnext⟩,
    hnext.trans_le hend⟩

/-! ## Messages -/

theorem decodeMany_settled {α : Type}
    {item itemLater : ℕ → Run Error (α × ℕ)} {length : ℕ}
    (hitem : ∀ pos, Settled (fun read => read.2 ≤ length)
      (item pos) (itemLater pos)) (count pos : ℕ) (hpos : pos ≤ length) :
    Settled (fun read => read.2 ≤ length)
      (decodeMany item count pos) (decodeMany itemLater count pos) := by
  induction count generalizing pos with
  | zero => exact .ok hpos
  | succ count ih =>
    refine (hitem pos).bind fun first _ hfirst => ?_
    refine (ih first.2 hfirst).bind fun rest _ hrest => ?_
    exact .ok hrest

theorem decodeHeader_settled (pos : ℕ) :
    Settled (fun read => read.2 ≤ buf.length)
      (decodeHeader buf pos) (decodeHeader (buf ++ extra) pos) := by
  refine (readU16_settled buf extra _).bind fun _ _ _ => ?_
  refine (readU16_settled buf extra _).bind fun _ _ _ => ?_
  refine (readU16_settled buf extra _).bind fun _ _ _ => ?_
  refine (readU16_settled buf extra _).bind fun _ _ _ => ?_
  refine (readU16_settled buf extra _).bind fun _ _ _ => ?_
  refine (readU16_settled buf extra _).bind fun last _ hlast => .ok ?_
  exact hlast.1.trans_le hlast.2

theorem Message.decodeTo_settled :
    Settled (fun read => read.2 ≤ buf.length)
      (Message.decodeTo buf) (Message.decodeTo (buf ++ extra)) := by
  have hrecords := fun pos => (decodeRr_settled buf extra pos).imp
    fun _ _ hread => hread.2
  refine (decodeHeader_settled buf extra 0).bind fun header _ h0 => ?_
  refine (decodeMany_settled (decodeQuestion_settled buf extra) _ _ h0).bind
    fun questions _ h1 => ?_
  refine (decodeMany_settled hrecords _ _ h1).bind fun answers _ h2 => ?_
  refine (decodeMany_settled hrecords _ _ h2).bind fun authorities _ h3 => ?_
  refine (decodeMany_settled hrecords _ _ h3).bind fun additionals _ h4 => ?_
  exact .ok h4

theorem Message.decode_settled :
    Settled (fun _ => True)
      (Message.decode buf) (Message.decode (buf ++ extra)) := by
  rw [Message.decode_eq_decodeTo, Message.decode_eq_decodeTo]
  exact (Message.decodeTo_settled buf extra).bind fun _ _ _ => .ok trivial

/-! ## The boundaries of records -/

inductive NameEnds : ℕ → ℕ → Prop where
  | zero {offset : ℕ} (hbyte : buf[offset]? = some 0) :
      NameEnds offset (offset + 1)
  | label {offset stop : ℕ} {len : UInt8} (hbyte : buf[offset]? = some len)
      (hpos : 1 ≤ len.toNat) (hle : len.toNat ≤ 63)
      (hrest : NameEnds (offset + 1 + len.toNat) stop) : NameEnds offset stop
  | pointer {offset : ℕ} {high : UInt8} (hbyte : buf[offset]? = some high)
      (htop : 192 ≤ high.toNat) : NameEnds offset (offset + 2)

/-- The record number `k` from `pos` on starts at an offset, read from the
owner names and the length fields of the records before it alone. -/
inductive Boundary (pos : ℕ) : ℕ → ℕ → Prop where
  | first : Boundary pos 0 pos
  | next {k offset after : ℕ} {rdlength : UInt16} :
      Boundary pos k offset → NameEnds buf offset after →
      readU16 buf (after + 8) = .ok (rdlength, after + 10) →
      Boundary pos (k + 1) (after + 10 + rdlength.toNat)

variable {buf}

theorem Expands.nameEnds {offset stop : ℕ} {labels : List Label}
    (h : Expands buf offset labels stop) : NameEnds buf offset stop := by
  induction h with
  | zero hbytes => exact .zero hbytes.head
  | @label offset stop label rest hpos hle hbytes _ ih =>
    have hlen : (UInt8.ofNat label.length).toNat = label.length :=
      toNat_ofNat_of_le_255 (by omega)
    exact .label hbytes.head (by rwa [hlen]) (by rwa [hlen]) (by rwa [hlen])
  | pointer hbytes htop _ _ _ => exact .pointer hbytes.head htop

theorem NameEnds.unique {offset stop other : ℕ} (h : NameEnds buf offset stop)
    (hother : NameEnds buf offset other) : other = stop := by
  induction h with
  | zero hbyte =>
    cases hother with
    | zero _ => rfl
    | label hlen hpos _ _ =>
      rw [hbyte] at hlen
      simp [← Option.some.inj hlen] at hpos
    | pointer hhigh htop =>
      rw [hbyte] at hhigh
      simp [← Option.some.inj hhigh] at htop
  | label hbyte hpos hle _ ih =>
    cases hother with
    | zero hzero =>
      rw [hbyte] at hzero
      simp [Option.some.inj hzero] at hpos
    | label hlen _ _ hrest =>
      rw [hbyte] at hlen
      obtain rfl := Option.some.inj hlen
      exact ih hrest
    | pointer hhigh htop =>
      rw [hbyte] at hhigh
      obtain rfl := Option.some.inj hhigh
      omega
  | pointer hbyte htop =>
    cases hother with
    | zero hzero =>
      rw [hbyte] at hzero
      simp [Option.some.inj hzero] at htop
    | label hlen _ hle _ =>
      rw [hbyte] at hlen
      obtain rfl := Option.some.inj hlen
      omega
    | pointer _ _ => rfl

theorem Boundary.unique {pos k offset other : ℕ}
    (h : Boundary buf pos k offset) (hother : Boundary buf pos k other) :
    other = offset := by
  induction h generalizing other with
  | first =>
    cases hother
    rfl
  | next _ hends hlength ih =>
    cases hother with
    | next hstart hends' hlength' =>
      obtain rfl := ih hstart
      obtain rfl := hends.unique hends'
      rw [hlength'] at hlength
      obtain ⟨rfl, _⟩ := Prod.mk.inj (Run.ok.inj hlength)
      rfl

theorem boundary_of_itemStarts {pos k offset : ℕ}
    (h : ItemStarts (decodeRr buf) pos k offset) :
    Boundary buf pos k offset := by
  induction h with
  | first => exact .first
  | next _ hitem ih =>
    obtain ⟨⟨owner, after, rdlength, howner, hlength, rfl⟩, _⟩ :=
      (decodeRr_settled buf [] _).value _ hitem
    exact .next ih (decodeName_eq_ok_iff.mp howner).1.nameEnds hlength

/-- No read of the decoder is out of bounds, whatever the bytes and however
often the loop over a name is run; a record which decodes ends as many bytes
after the start of its data as its length field says; and so every record
starts where the owner names and the length fields before it say. -/
theorem decode_stays_in_bounds :
    (∀ bytes, Message.decode bytes ≠ .panic) ∧
    (∀ buf fuel pos, decodeNameFuel buf fuel pos ≠ .panic) ∧
    (∀ buf pos rr next, decodeRr buf pos = .ok (rr, next) →
      ∃ owner after rdlength, decodeName buf pos = .ok (owner, after) ∧
        readU16 buf (after + 8) = .ok (rdlength, after + 10) ∧
        next = after + 10 + rdlength.toNat) ∧
    ∀ buf pos k offset, ItemStarts (decodeRr buf) pos k offset →
      ∀ other, Boundary buf pos k other ↔ other = offset := by
  refine ⟨fun bytes => (Message.decode_settled bytes []).safe,
    decodeNameFuel_ne_panic, ?_, ?_⟩
  · intro buf pos rr next hdecode
    exact ((decodeRr_settled buf [] pos).value _ hdecode).1
  · intro buf pos k offset hstarts other
    have hboundary := boundary_of_itemStarts hstarts
    constructor
    · exact hboundary.unique
    · rintro rfl
      exact hboundary

/-- The answer of a response whose owner is a pointer to the question. -/
theorem compressedResponse_record_end :
    ∃ owner after rdlength,
      decodeName compressedResponse 19 = .ok (owner, after) ∧
      readU16 compressedResponse (after + 8) = .ok (rdlength, after + 10) ∧
      35 = after + 10 + rdlength.toNat :=
  decode_stays_in_bounds.2.2.1 compressedResponse 19
    ⟨⟨[[97]]⟩, .a, .in, 60, .a #v[192, 0, 2, 1]⟩ 35 rfl

end DnsLattice
