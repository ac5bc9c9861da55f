import DnsLattice.MessageWire

/-!
# When the name decoder returns

A compression pointer must point strictly below its own offset, but after the
jump the cursor moves forward again over labels.  The offsets visited by the
loop of `decode_name` therefore need not decrease, and a label followed by a
pointer back to that label is visited forever.  This file describes the walk
over the bytes of a name and shows that the decoder returns exactly when the
walk does not come back to a pointer it has followed.
-/

namespace DnsLattice

open Run

/-! ## Length bytes -/

theorem forall_uint8_of_fin
    {P : UInt8 → Prop} (h : ∀ n : Fin 256, P (UInt8.ofNat n.val))
    (byte : UInt8) : P byte := by
  have hbyte := h ⟨byte.toNat, byte.toNat_lt⟩
  simpa using hbyte

/-- The two top bits are set exactly in the bytes from 192 on. -/
theorem and_c0_eq_c0_iff (byte : UInt8) :
    byte &&& 0xC0 = 0xC0 ↔ 192 ≤ byte.toNat := by
  apply forall_uint8_of_fin (P := fun byte =>
    byte &&& 0xC0 = 0xC0 ↔ 192 ≤ byte.toNat)
  decide +kernel

theorem and_c0_eq_zero_iff (byte : UInt8) :
    byte &&& 0xC0 = 0 ↔ byte.toNat ≤ 63 := by
  apply forall_uint8_of_fin (P := fun byte =>
    byte &&& 0xC0 = 0 ↔ byte.toNat ≤ 63)
  decide +kernel

theorem pointerTarget_eq (high low : UInt8) :
    pointerTarget high low = high.toNat % 64 * 256 + low.toNat := by
  unfold pointerTarget
  have hmask : high.toNat &&& 0x3F = high.toNat % 64 :=
    Nat.and_two_pow_sub_one_eq_mod high.toNat 6
  rw [hmask, ← Nat.shiftLeft_add_eq_or_of_lt (i := 8) low.toNat_lt,
    Nat.shiftLeft_eq]

/-! ## The walk over a name -/

/-- A label of `1..=63` bytes lies at `offset` and ends before `stop`. -/
def LabelAt (buf : List UInt8) (offset stop : ℕ) : Prop :=
  ∃ len : UInt8, buf[offset]? = some len ∧
    0 < len.toNat ∧ len.toNat ≤ 63 ∧
    stop = offset + 1 + len.toNat ∧ stop ≤ buf.length

/-- A compression pointer to a strictly lower offset lies at `offset`. -/
def PointerAt (buf : List UInt8) (offset target : ℕ) : Prop :=
  ∃ high low : UInt8, buf[offset]? = some high ∧
    buf[offset + 1]? = some low ∧ 192 ≤ high.toNat ∧
    target = high.toNat % 64 * 256 + low.toNat ∧ target < offset

/-- Reading a name goes on from `offset` at `next`. -/
def Follows (buf : List UInt8) (offset next : ℕ) : Prop :=
  LabelAt buf offset next ∨ PointerAt buf offset next

/-- Reading a name from `start` comes to a pointer from whose target reading
comes back to that pointer. -/
def PointerCycle (buf : List UInt8) (start : ℕ) : Prop :=
  ∃ pointer target,
    Relation.ReflTransGen (Follows buf) start pointer ∧
    PointerAt buf pointer target ∧
    Relation.ReflTransGen (Follows buf) target pointer

theorem lt_length_of_getElem?_eq_some
    {α : Type} {list : List α} {i : ℕ} {value : α}
    (h : list[i]? = some value) : i < list.length := by
  by_contra hge
  rw [List.getElem?_eq_none (by omega)] at h
  cases h

theorem Follows.lt_length
    {buf : List UInt8} {offset next : ℕ} (h : Follows buf offset next) :
    offset < buf.length := by
  rcases h with ⟨len, hbyte, _⟩ | ⟨high, low, hbyte, _⟩
  · exact lt_length_of_getElem?_eq_some hbyte
  · exact lt_length_of_getElem?_eq_some hbyte

/-! ## One iteration -/

section Iteration

variable {buf : List UInt8} {cursor : NameCursor}

theorem nameStep_of_label {len : UInt8} (hbyte : buf[cursor.cur]? = some len)
    (hpos : 0 < len.toNat) (hle : len.toNat ≤ 63)
    (hfit : cursor.cur + 1 + len.toNat ≤ buf.length) :
    nameStep buf cursor = .ok (.inl { cursor with
      labels := cursor.labels ++ [(buf.drop (cursor.cur + 1)).take len.toNat]
      cur := cursor.cur + 1 + len.toNat }) := by
  have hcur := lt_length_of_getElem?_eq_some hbyte
  have hnotPointer : ¬ len &&& 0xC0 = 0xC0 := by
    rw [and_c0_eq_c0_iff]
    omega
  have hplain : len &&& 0xC0 = 0 := (and_c0_eq_zero_iff len).mpr hle
  have hne : len ≠ 0 := by
    rintro rfl
    simp at hpos
  unfold nameStep
  rw [if_neg (by omega), index_of_getElem? hbyte]
  simp only [ok_bind]
  rw [if_neg hnotPointer, if_neg (by simp [hplain]), if_neg hne,
    if_neg (by omega), if_neg (by omega)]
  simp [slice, hfit]

theorem nameStep_of_zero (hbyte : buf[cursor.cur]? = some 0) :
    nameStep buf cursor =
      .ok (.inr { cursor with cur := cursor.cur + 1 }) := by
  have hcur := lt_length_of_getElem?_eq_some hbyte
  unfold nameStep
  rw [if_neg (by omega), index_of_getElem? hbyte]
  simp only [ok_bind]
  rw [if_neg (by decide), if_neg (by decide)]
  simp

theorem nameStep_of_pointer
    {high low : UInt8} (hhigh : buf[cursor.cur]? = some high)
    (hlow : buf[cursor.cur + 1]? = some low) (htop : 192 ≤ high.toNat)
    (htarget : high.toNat % 64 * 256 + low.toNat < cursor.cur) :
    nameStep buf cursor = .ok (.inl { cursor with
      cur := high.toNat % 64 * 256 + low.toNat
      jumped := true
      realEnd := if cursor.jumped then cursor.realEnd
        else cursor.cur + 2 }) := by
  have hcur := lt_length_of_getElem?_eq_some hhigh
  have hcur' := lt_length_of_getElem?_eq_some hlow
  unfold nameStep
  rw [if_neg (by omega), index_of_getElem? hhigh]
  simp only [ok_bind]
  rw [if_pos ((and_c0_eq_c0_iff high).mpr htop), if_neg (by omega),
    index_of_getElem? hlow]
  simp only [ok_bind]
  rw [pointerTarget_eq, if_neg (by omega), pure_eq_ok]

theorem getElem?_eq_none_or_some (buf : List UInt8) (i : ℕ) :
    (buf.length ≤ i ∧ buf[i]? = none) ∨
      ∃ byte, i < buf.length ∧ buf[i]? = some byte := by
  rcases Nat.lt_or_ge i buf.length with hlt | hge
  · exact Or.inr ⟨buf[i], hlt, List.getElem?_eq_getElem hlt⟩
  · exact Or.inl ⟨hge, List.getElem?_eq_none hge⟩

/-- What an iteration finds at its offset: a label, a pointer, the end of the
name, or an error. -/
theorem nameStep_cases (buf : List UInt8) (cursor : NameCursor) :
    (∃ len : UInt8, buf[cursor.cur]? = some len ∧ 0 < len.toNat ∧
        len.toNat ≤ 63 ∧ cursor.cur + 1 + len.toNat ≤ buf.length) ∨
      (∃ high low : UInt8, buf[cursor.cur]? = some high ∧
        buf[cursor.cur + 1]? = some low ∧ 192 ≤ high.toNat ∧
        high.toNat % 64 * 256 + low.toNat < cursor.cur) ∨
      buf[cursor.cur]? = some 0 ∨
      ∃ error, nameStep buf cursor = .err error := by
  rcases getElem?_eq_none_or_some buf cursor.cur with
    ⟨hend, _⟩ | ⟨lenByte, hcur, hbyte⟩
  · exact Or.inr (Or.inr (Or.inr ⟨_, if_pos hend⟩))
  unfold nameStep
  rw [if_neg (by omega), index_of_getElem? hbyte]
  simp only [ok_bind]
  by_cases hpointer : 192 ≤ lenByte.toNat
  · rw [if_pos ((and_c0_eq_c0_iff lenByte).mpr hpointer)]
    rcases getElem?_eq_none_or_some buf (cursor.cur + 1) with
      ⟨hend, _⟩ | ⟨low, hcur', hlow⟩
    · rw [if_pos hend]
      exact Or.inr (Or.inr (Or.inr ⟨_, rfl⟩))
    · rw [if_neg (by omega), index_of_getElem? hlow]
      simp only [ok_bind, pointerTarget_eq]
      by_cases hlower : lenByte.toNat % 64 * 256 + low.toNat < cursor.cur
      · exact Or.inr (Or.inl ⟨lenByte, low, hbyte, hlow, hpointer, hlower⟩)
      · rw [if_pos (Nat.le_of_not_lt hlower)]
        exact Or.inr (Or.inr (Or.inr ⟨_, rfl⟩))
  rw [if_neg (by rwa [and_c0_eq_c0_iff])]
  by_cases hplain : lenByte.toNat ≤ 63
  · by_cases hzero : lenByte = 0
    · exact Or.inr (Or.inr (Or.inl (hzero ▸ hbyte)))
    · have hpos : lenByte.toNat ≠ 0 := fun h =>
        hzero (UInt8.toNat_inj.mp (by simpa using h))
      rw [if_neg (by simp [(and_c0_eq_zero_iff lenByte).mpr hplain]),
        if_neg hzero, if_neg (by omega)]
      by_cases hfit : cursor.cur + 1 + lenByte.toNat ≤ buf.length
      · exact Or.inl ⟨lenByte, hbyte, by omega, hplain, hfit⟩
      · rw [if_pos (by omega)]
        exact Or.inr (Or.inr (Or.inr ⟨_, rfl⟩))
  · rw [if_pos (by rwa [ne_eq, and_c0_eq_zero_iff])]
    exact Or.inr (Or.inr (Or.inr ⟨_, rfl⟩))

/-- An iteration which goes on has read a label or a pointer. -/
theorem follows_of_nameStep
    {next : NameCursor} (hstep : nameStep buf cursor = .ok (.inl next)) :
    Follows buf cursor.cur next.cur := by
  rcases nameStep_cases buf cursor with
    ⟨len, hbyte, hpos, hle, hfit⟩ | ⟨high, low, hhigh, hlow, htop, htarget⟩ |
    hzero | ⟨error, herror⟩
  · rw [nameStep_of_label hbyte hpos hle hfit] at hstep
    cases hstep
    exact Or.inl ⟨len, hbyte, hpos, hle, rfl, hfit⟩
  · rw [nameStep_of_pointer hhigh hlow htop htarget] at hstep
    cases hstep
    exact Or.inr ⟨high, low, hhigh, hlow, htop, rfl, htarget⟩
  · rw [nameStep_of_zero hzero] at hstep
    cases hstep
  · rw [herror] at hstep
    cases hstep

theorem nameStep_of_follows {offset : ℕ} (h : Follows buf cursor.cur offset) :
    ∃ next, nameStep buf cursor = .ok (.inl next) ∧ next.cur = offset := by
  rcases h with ⟨len, hbyte, hpos, hle, rfl, hfit⟩ |
    ⟨high, low, hhigh, hlow, htop, rfl, htarget⟩
  · exact ⟨_, nameStep_of_label hbyte hpos hle hfit, rfl⟩
  · exact ⟨_, nameStep_of_pointer hhigh hlow htop htarget, rfl⟩

theorem nameStep_ne_diverge (buf : List UInt8) (cursor : NameCursor) :
    nameStep buf cursor ≠ .diverge := by
  rcases nameStep_cases buf cursor with
    ⟨len, hbyte, hpos, hle, hfit⟩ | ⟨high, low, hhigh, hlow, htop, htarget⟩ |
    hzero | ⟨error, herror⟩
  · simp [nameStep_of_label hbyte hpos hle hfit]
  · simp [nameStep_of_pointer hhigh hlow htop htarget]
  · simp [nameStep_of_zero hzero]
  · simp [herror]

end Iteration

/-! ## The loop follows the walk -/

def nameNext (buf : List UInt8) (offset : ℕ) : Option ℕ :=
  match nameStep buf (.start offset) with
  | .ok (.inl next) => some next.cur
  | _ => none

theorem nameNext_eq_some_iff {buf : List UInt8} {offset next : ℕ} :
    nameNext buf offset = some next ↔ Follows buf offset next := by
  constructor
  · intro h
    unfold nameNext at h
    split at h
    case h_1 cursor hstep =>
      have hfollows := follows_of_nameStep hstep
      rw [← Option.some.inj h]
      exact hfollows
    case h_2 => cases h
  · intro h
    obtain ⟨cursor, hstep, hcur⟩ :
        ∃ cursor, nameStep buf (.start offset) = .ok (.inl cursor) ∧
          cursor.cur = next := nameStep_of_follows h
    simp [nameNext, hstep, hcur]

theorem moves_nameNext (buf : List UInt8) :
    Moves (nameNext buf) = Follows buf := by
  funext offset next
  exact propext nameNext_eq_some_iff

theorem nameStep_controlledBy (buf : List UInt8) :
    ControlledBy (nameStep buf) NameCursor.cur (nameNext buf) where
  continues := by
    intro cursor next hstep
    exact nameNext_eq_some_iff.mpr (follows_of_nameStep hstep)
  defined := by
    intro cursor target hnext
    obtain ⟨next, hstep, _⟩ :=
      nameStep_of_follows (nameNext_eq_some_iff.mp hnext)
    exact ⟨next, hstep⟩
  returns := nameStep_ne_diverge buf

theorem nameNext_lt_length {buf : List UInt8} (offset next : ℕ)
    (h : nameNext buf offset = some next) : offset < buf.length :=
  (nameNext_eq_some_iff.mp h).lt_length

/-! ## Cycles -/

theorem LabelAt.lt {buf : List UInt8} {offset stop : ℕ}
    (h : LabelAt buf offset stop) : offset < stop := by
  obtain ⟨len, _, hpos, _, rfl, _⟩ := h
  omega

/-- A walk that moves at least once either only moves forward over labels or
passes through a pointer. -/
theorem transGen_follows_lt_or_pointer {buf : List UInt8} {start stop : ℕ}
    (h : Relation.TransGen (Follows buf) start stop) :
    start < stop ∨
      ∃ pointer target,
        Relation.ReflTransGen (Follows buf) start pointer ∧
        PointerAt buf pointer target ∧
        Relation.ReflTransGen (Follows buf) target stop := by
  induction h with
  | single hstep =>
    rcases hstep with hlabel | hpointer
    · exact Or.inl hlabel.lt
    · exact Or.inr ⟨_, _, .refl, hpointer, .refl⟩
  | @tail mid stop hwalk hstep ih =>
    rcases ih with hlt | ⟨pointer, target, hto, hpointer, hfrom⟩
    · rcases hstep with hlabel | hpointer
      · exact Or.inl (hlt.trans hlabel.lt)
      · exact Or.inr ⟨_, _, hwalk.to_reflTransGen, hpointer, .refl⟩
    · exact Or.inr ⟨pointer, target, hto, hpointer, hfrom.tail hstep⟩

theorem exists_returnsTo_iff_pointerCycle (buf : List UInt8) (start : ℕ) :
    (∃ point, ReturnsTo (nameNext buf) start point) ↔
      PointerCycle buf start := by
  unfold ReturnsTo PointerCycle
  rw [moves_nameNext]
  constructor
  · rintro ⟨point, hreach, hcycle⟩
    -- the offsets cannot grow all the way round, so a pointer is on the cycle
    rcases transGen_follows_lt_or_pointer hcycle with
      hlt | ⟨pointer, target, hto, hpointer, hfrom⟩
    · exact absurd hlt (lt_irrefl point)
    · exact ⟨pointer, target, hreach.trans hto, hpointer, hfrom.trans hto⟩
  · rintro ⟨pointer, target, hreach, hpointer, hback⟩
    exact ⟨pointer, hreach, Relation.TransGen.head' (Or.inr hpointer) hback⟩

theorem nameStep_ne_panic (buf : List UInt8) (cursor : NameCursor) :
    nameStep buf cursor ≠ .panic := by
  rcases nameStep_cases buf cursor with
    ⟨len, hbyte, hpos, hle, hfit⟩ | ⟨high, low, hhigh, hlow, htop, htarget⟩ |
    hzero | ⟨error, herror⟩
  · simp [nameStep_of_label hbyte hpos hle hfit]
  · simp [nameStep_of_pointer hhigh hlow htop htarget]
  · simp [nameStep_of_zero hzero]
  · simp [herror]

theorem finishName_returns (cursor : NameCursor) :
    (finishName cursor).Returns := by
  rw [returns_iff]
  unfold finishName Name.checkTotalLength
  dsimp only
  split_ifs <;> simp

/-- Some number of iterations is enough for `decode_name` to return a name or
a typed error. -/
def NameDecoderReturns (buf : List UInt8) (pos : ℕ) : Prop :=
  ∃ fuel, (decodeNameFuel buf fuel pos).Returns

theorem decodeNameFuel_returns_iff (buf : List UInt8) (fuel pos : ℕ) :
    (decodeNameFuel buf fuel pos).Returns ↔
      loop (nameStep buf) fuel (.start pos) ≠ .diverge := by
  unfold decodeNameFuel
  cases hloop : loop (nameStep buf) fuel (.start pos) with
  | ok cursor => simp [finishName_returns]
  | err error => simp [Returns]
  | panic => exact absurd hloop (loop_ne_panic (nameStep_ne_panic buf) _ _)
  | diverge => simp [Returns]

theorem nameDecoderReturns_iff (buf : List UInt8) (pos : ℕ) :
    NameDecoderReturns buf pos ↔ ¬ PointerCycle buf pos := by
  unfold NameDecoderReturns
  simp only [decodeNameFuel_returns_iff]
  rw [← exists_returnsTo_iff_pointerCycle]
  exact loopHalts_iff_not_returnsTo (nameStep_controlledBy buf)
    nameNext_lt_length (.start pos)

/-- The model's `decodeName` does not return exactly when the loop never
stops: the fuel given to it is never what ends it. -/
theorem decodeName_eq_diverge_iff (buf : List UInt8) (pos : ℕ) :
    decodeName buf pos = .diverge ↔ PointerCycle buf pos := by
  have hfuel := loop_eq_diverge_iff_not_loopHalts (nameStep_controlledBy buf)
    nameNext_lt_length (.start pos)
  have hhalts := loopHalts_iff_not_returnsTo (nameStep_controlledBy buf)
    nameNext_lt_length (.start pos)
  rw [← exists_returnsTo_iff_pointerCycle]
  change _ ↔ ∃ point, ReturnsTo (nameNext buf) (NameCursor.start pos).cur point
  rw [← not_iff_not.mpr hhalts |>.trans not_not, ← hfuel]
  unfold decodeName decodeNameFuel
  rw [bind_eq_diverge_iff]
  constructor
  · rintro (hloop | ⟨cursor, _, hfinish⟩)
    · exact hloop
    · exact absurd hfinish (returns_iff.mp (finishName_returns cursor)).2
  · exact Or.inl

/-! ## Where a message is read as a name -/

/-- Reading `count` items from `pos` starts the item number `k` at
`offset`. -/
inductive ItemStarts {α : Type} (item : ℕ → Run Error (α × ℕ)) (pos : ℕ) :
    ℕ → ℕ → Prop where
  | first : ItemStarts item pos 0 pos
  | next {k offset after : ℕ} {value : α} :
      ItemStarts item pos k offset → item offset = .ok (value, after) →
      ItemStarts item pos (k + 1) after

/-- A name inside record data of type `rtype` at `pos`. -/
def RDataNameAt (buf : List UInt8) (pos : ℕ) (rtype : RecordType)
    (rdlength offset : ℕ) : Prop :=
  pos + rdlength ≤ buf.length ∧
    match rtype with
    | .cname | .ptr | .ns => offset = pos
    | .mx => pos + 2 ≤ buf.length ∧ offset = pos + 2
    | .soa => offset = pos ∨ ∃ mname, decodeName buf pos = .ok (mname, offset)
    | _ => False

/-- A name of the record at `pos`: its owner, or a name in its data once the
fields before the data were read. -/
def RrNameAt (buf : List UInt8) (pos offset : ℕ) : Prop :=
  offset = pos ∨
    ∃ owner after rtype cls ttl rdlength rclass,
      decodeName buf pos = .ok (owner, after) ∧
      readU16 buf after = .ok (rtype, after + 2) ∧
      readU16 buf (after + 2) = .ok (cls, after + 4) ∧
      decodeClass (rtype == optRtype) cls = .ok rclass ∧
      readU32 buf (after + 4) = .ok (ttl, after + 8) ∧
      readU16 buf (after + 8) = .ok (rdlength, after + 10) ∧
      RDataNameAt buf (after + 10) (.fromU16 rtype) rdlength.toNat offset

/-- An offset at which decoding the message starts reading a name: everything
before it was read without an error. -/
def MessageNameAt (bytes : List UInt8) (offset : ℕ) : Prop :=
  ∃ header counts start,
    decodeHeader bytes 0 = .ok ((header, counts), start) ∧
    ((∃ k < counts.questions.toNat,
        ItemStarts (decodeQuestion bytes) start k offset) ∨
      ∃ after,
        ItemStarts (decodeQuestion bytes) start counts.questions.toNat after ∧
        ∃ k < counts.answers.toNat + counts.authorities.toNat +
            counts.additionals.toNat,
          ∃ record, ItemStarts (decodeRr bytes) after k record ∧
            RrNameAt bytes record offset)

section Sections

variable {α : Type} {item : ℕ → Run Error (α × ℕ)}

theorem itemStarts_succ_iff {pos k after : ℕ} :
    ItemStarts item pos (k + 1) after ↔
      ∃ value second, item pos = .ok (value, second) ∧
        ItemStarts item second k after := by
  constructor
  · intro h
    induction k generalizing after with
    | zero =>
      cases h with
      | next hstart hitem =>
        cases hstart
        exact ⟨_, _, hitem, .first⟩
    | succ k ih =>
      cases h with
      | next hstart hitem =>
        obtain ⟨value, second, hfirst, hrest⟩ := ih hstart
        exact ⟨value, second, hfirst, .next hrest hitem⟩
  · rintro ⟨value, second, hfirst, hrest⟩
    induction hrest with
    | first => exact .next .first hfirst
    | next _ hitem ih => exact .next ih hitem

theorem decodeMany_eq_ok_imp_itemStarts {count pos after : ℕ} {values : List α}
    (h : decodeMany item count pos = .ok (values, after)) :
    ItemStarts item pos count after := by
  induction count generalizing pos values after with
  | zero =>
    simp only [decodeMany, Run.ok.injEq, Prod.mk.injEq] at h
    rw [h.2]
    exact .first
  | succ count ih =>
    obtain ⟨⟨first, second⟩, hfirst, h⟩ := bind_eq_ok_iff.mp h
    obtain ⟨⟨rest, last⟩, hrest, h⟩ := bind_eq_ok_iff.mp h
    simp only [pure_eq_ok, Run.ok.injEq, Prod.mk.injEq] at h
    rw [← h.2]
    exact itemStarts_succ_iff.mpr ⟨first, second, hfirst, ih hrest⟩

theorem exists_decodeMany_of_itemStarts {count pos after : ℕ}
    (h : ItemStarts item pos count after) :
    ∃ values, decodeMany item count pos = .ok (values, after) := by
  induction count generalizing pos with
  | zero =>
    cases h
    exact ⟨[], rfl⟩
  | succ count ih =>
    obtain ⟨value, second, hfirst, hrest⟩ := itemStarts_succ_iff.mp h
    obtain ⟨values, hvalues⟩ := ih hrest
    exact ⟨value :: values, by simp [decodeMany, hfirst, hvalues]⟩

/-- A section does not return exactly when one of its items, reached after
all items before it, does not. -/
theorem decodeMany_eq_diverge_iff {count pos : ℕ} :
    decodeMany item count pos = .diverge ↔
      ∃ k < count, ∃ offset, ItemStarts item pos k offset ∧
        item offset = .diverge := by
  induction count generalizing pos with
  | zero => simp [decodeMany]
  | succ count ih =>
    constructor
    · intro h
      rcases bind_eq_diverge_iff.mp h with
        hfirst | ⟨⟨value, second⟩, hfirst, h⟩
      · exact ⟨0, Nat.succ_pos _, pos, .first, hfirst⟩
      · rcases bind_eq_diverge_iff.mp h with hrest | ⟨_, _, h⟩
        · obtain ⟨k, hk, offset, hstarts, hitem⟩ := ih.mp hrest
          exact ⟨k + 1, by omega, offset,
            itemStarts_succ_iff.mpr ⟨value, second, hfirst, hstarts⟩, hitem⟩
        · simp at h
    · rintro ⟨k, hk, offset, hstarts, hitem⟩
      cases k with
      | zero =>
        cases hstarts
        simp [decodeMany, hitem]
      | succ k =>
        obtain ⟨value, second, hfirst, hrest⟩ := itemStarts_succ_iff.mp hstarts
        have hdiverge : decodeMany item count second = .diverge :=
          ih.mpr ⟨k, by omega, offset, hrest, hitem⟩
        simp [decodeMany, hfirst, hdiverge]

theorem decodeMany_add (m n pos : ℕ) :
    decodeMany item (m + n) pos = (do
      let (first, pos) ← decodeMany item m pos
      let (rest, pos) ← decodeMany item n pos
      return (first ++ rest, pos)) := by
  induction m generalizing pos with
  | zero =>
    simp only [Nat.zero_add, decodeMany, ok_bind, List.nil_append]
    cases decodeMany item n pos <;> rfl
  | succ m ih =>
    rw [show m + 1 + n = (m + n) + 1 by omega]
    simp only [decodeMany]
    cases item pos with
    | ok value =>
      obtain ⟨first, second⟩ := value
      simp only [ok_bind, ih]
      cases hfirst : decodeMany item m second with
      | ok values =>
        obtain ⟨rest, third⟩ := values
        simp only [ok_bind, pure_eq_ok, List.cons_append]
        cases decodeMany item n third <;> rfl
      | err error => rfl
      | panic => rfl
      | diverge => rfl
    | err error => rfl
    | panic => rfl
    | diverge => rfl

end Sections

/-! ## Which readers can run forever -/

theorem readU16_ne_diverge (buf : List UInt8) (pos : ℕ) :
    readU16 buf pos ≠ .diverge := by
  unfold readU16
  split_ifs with hend
  · simp
  · intro h
    rcases bind_eq_diverge_iff.mp h with h0 | ⟨b0, _, h⟩
    · exact index_ne_diverge _ _ h0
    rcases bind_eq_diverge_iff.mp h with h1 | ⟨b1, _, h⟩
    · exact index_ne_diverge _ _ h1
    · simp at h

theorem readU32_ne_diverge (buf : List UInt8) (pos : ℕ) :
    readU32 buf pos ≠ .diverge := by
  unfold readU32
  split_ifs with hend
  · simp
  · intro h
    rcases bind_eq_diverge_iff.mp h with h0 | ⟨b0, _, h⟩
    · exact index_ne_diverge _ _ h0
    rcases bind_eq_diverge_iff.mp h with h1 | ⟨b1, _, h⟩
    · exact index_ne_diverge _ _ h1
    rcases bind_eq_diverge_iff.mp h with h2 | ⟨b2, _, h⟩
    · exact index_ne_diverge _ _ h2
    rcases bind_eq_diverge_iff.mp h with h3 | ⟨b3, _, h⟩
    · exact index_ne_diverge _ _ h3
    · simp at h

theorem ofExcept_ne_diverge {ε α : Type} (result : Except ε α) :
    Run.ofExcept result ≠ .diverge := by
  cases result <;> simp [Run.ofExcept]

theorem decodeClass_ne_diverge (isOpt : Bool) (raw : UInt16) :
    decodeClass isOpt raw ≠ .diverge := by
  unfold decodeClass
  split_ifs
  · simp
  · exact ofExcept_ne_diverge _

theorem lengthMismatch_ne_diverge {α : Type} (rdlength : ℕ) :
    (lengthMismatch rdlength : Run Error α) ≠ .diverge := by
  simp [lengthMismatch]

theorem readU16_end {buf : List UInt8} {pos after : ℕ} {value : UInt16}
    (h : readU16 buf pos = .ok (value, after)) :
    after = pos + 2 ∧ pos + 2 ≤ buf.length := by
  unfold readU16 at h
  split_ifs at h with hend
  obtain ⟨b0, _, h⟩ := bind_eq_ok_iff.mp h
  obtain ⟨b1, _, h⟩ := bind_eq_ok_iff.mp h
  simp only [pure_eq_ok, Run.ok.injEq, Prod.mk.injEq] at h
  exact ⟨h.2.symm, by omega⟩

theorem readU32_end {buf : List UInt8} {pos after : ℕ} {value : UInt32}
    (h : readU32 buf pos = .ok (value, after)) :
    after = pos + 4 ∧ pos + 4 ≤ buf.length := by
  unfold readU32 at h
  split_ifs at h with hend
  obtain ⟨b0, _, h⟩ := bind_eq_ok_iff.mp h
  obtain ⟨b1, _, h⟩ := bind_eq_ok_iff.mp h
  obtain ⟨b2, _, h⟩ := bind_eq_ok_iff.mp h
  obtain ⟨b3, _, h⟩ := bind_eq_ok_iff.mp h
  simp only [pure_eq_ok, Run.ok.injEq, Prod.mk.injEq] at h
  exact ⟨h.2.symm, by omega⟩

theorem exists_readU16 {buf : List UInt8} {pos : ℕ} (h : pos + 2 ≤ buf.length) :
    ∃ value, readU16 buf pos = .ok (value, pos + 2) := by
  unfold readU16
  rw [if_neg (by omega),
    index_of_getElem? (List.getElem?_eq_getElem (by omega : pos < buf.length)),
    ok_bind, index_of_getElem?
      (List.getElem?_eq_getElem (by omega : pos + 1 < buf.length))]
  exact ⟨_, rfl⟩

theorem txtLoop_ne_diverge (buf : List UInt8) (stop rdlength fuel : ℕ)
    (strings : List (List UInt8)) (p : ℕ) (hfuel : stop - p < fuel) :
    loop (txtStep buf stop rdlength) fuel (strings, p) ≠ .diverge := by
  induction fuel generalizing strings p with
  | zero => omega
  | succ fuel ih =>
    intro hdiverge
    rcases bind_eq_diverge_iff.mp hdiverge with hstep | ⟨next, hstep, hrest⟩
    · unfold txtStep at hstep
      dsimp only at hstep
      split_ifs at hstep with hmore
      rcases bind_eq_diverge_iff.mp hstep with hindex | ⟨len, _, hstep⟩
      · exact index_ne_diverge _ _ hindex
      split_ifs at hstep
      · exact lengthMismatch_ne_diverge _ hstep
      · rcases bind_eq_diverge_iff.mp hstep with hslice | ⟨_, _, hstep⟩
        · exact slice_ne_diverge _ _ _ hslice
        · simp at hstep
    · cases next with
      | inr result => simp at hrest
      | inl state =>
        obtain ⟨read, q⟩ := state
        have hlater : p < q ∧ p < stop := by
          unfold txtStep at hstep
          dsimp only at hstep
          split_ifs at hstep with hmore
          · obtain ⟨len, _, hstep⟩ := bind_eq_ok_iff.mp hstep
            split_ifs at hstep
            · simp [lengthMismatch] at hstep
            · obtain ⟨string, _, hstep⟩ := bind_eq_ok_iff.mp hstep
              simp only [pure_eq_ok, Run.ok.injEq, Sum.inl.injEq,
                Prod.mk.injEq] at hstep
              omega
          · simp at hstep
        exact ih read q (by omega) hrest

theorem checkLength_ne_diverge {α : Type} (pos start rdlength : ℕ) (value : α) :
    (do
      let used ← sub pos start
      if used ≠ rdlength then lengthMismatch rdlength
      else return value : Run Error α) ≠ .diverge := by
  intro h
  rcases bind_eq_diverge_iff.mp h with hsub | ⟨used, _, h⟩
  · exact sub_ne_diverge _ _ hsub
  · split_ifs at h
    exact lengthMismatch_ne_diverge _ h

theorem decodeCheckedName_eq_diverge_iff
    (buf : List UInt8) (pos start rdlength : ℕ) :
    decodeCheckedName buf pos start rdlength = .diverge ↔
      decodeName buf pos = .diverge := by
  unfold decodeCheckedName
  rw [bind_eq_diverge_iff]
  constructor
  · rintro (hname | ⟨⟨name, after⟩, _, h⟩)
    · exact hname
    · exact absurd h (checkLength_ne_diverge _ _ _ _)
  · exact Or.inl

theorem octets16_ne_diverge (bytes : List UInt8) :
    octets16 bytes ≠ .diverge := by
  unfold octets16
  split_ifs <;> simp

theorem rdataDecode_eq_diverge_iff
    (buf : List UInt8) (pos : ℕ) (rtype : RecordType) (rdlength : ℕ) :
    RData.decode buf pos rtype rdlength = .diverge ↔
      ∃ offset, RDataNameAt buf pos rtype rdlength offset ∧
        decodeName buf offset = .diverge := by
  unfold RData.decode RDataNameAt
  dsimp only
  by_cases hend : pos + rdlength > buf.length
  · rw [if_pos hend]
    constructor
    · simp
    · rintro ⟨offset, ⟨hfit, _⟩, _⟩
      omega
  rw [if_neg hend]
  have hfit : pos + rdlength ≤ buf.length := by omega
  simp only [hfit, true_and]
  have hchecked : ∀ make : Name → RData,
      (decodeCheckedName buf pos pos rdlength >>= fun read =>
        (.ok (make read.1, read.2) : Run Error (RData × ℕ))) = .diverge ↔
        decodeName buf pos = .diverge := by
    intro make
    rw [bind_eq_diverge_iff, decodeCheckedName_eq_diverge_iff]
    simp
  cases rtype with
  | a =>
    simp only [false_and, exists_false, iff_false]
    split_ifs
    · exact lengthMismatch_ne_diverge _
    · intro h
      rcases bind_eq_diverge_iff.mp h with h0 | ⟨b0, _, h⟩
      · exact index_ne_diverge _ _ h0
      rcases bind_eq_diverge_iff.mp h with h1 | ⟨b1, _, h⟩
      · exact index_ne_diverge _ _ h1
      rcases bind_eq_diverge_iff.mp h with h2 | ⟨b2, _, h⟩
      · exact index_ne_diverge _ _ h2
      rcases bind_eq_diverge_iff.mp h with h3 | ⟨b3, _, h⟩
      · exact index_ne_diverge _ _ h3
      · simp at h
  | aaaa =>
    simp only [false_and, exists_false, iff_false]
    split_ifs
    · exact lengthMismatch_ne_diverge _
    · intro h
      rcases bind_eq_diverge_iff.mp h with hslice | ⟨bytes, _, h⟩
      · exact slice_ne_diverge _ _ _ hslice
      rcases bind_eq_diverge_iff.mp h with hoctets | ⟨octets, _, h⟩
      · exact octets16_ne_diverge _ hoctets
      · simp at h
  | cname => simpa using hchecked .cname
  | ptr => simpa using hchecked .ptr
  | ns => simpa using hchecked .ns
  | txt =>
    simp only [false_and, exists_false, iff_false]
    intro h
    rcases bind_eq_diverge_iff.mp h with hloop | ⟨strings, _, h⟩
    · exact txtLoop_ne_diverge buf (pos + rdlength) rdlength (rdlength + 1)
        [] pos (by omega) hloop
    · simp at h
  | mx =>
    constructor
    · intro h
      rcases bind_eq_diverge_iff.mp h with hread | ⟨⟨value, after⟩, hread, h⟩
      · exact absurd hread (readU16_ne_diverge _ _)
      obtain ⟨rfl, hlength⟩ := readU16_end hread
      rcases bind_eq_diverge_iff.mp h with hname | ⟨⟨name, after⟩, _, h⟩
      · exact ⟨pos + 2, ⟨hlength, rfl⟩, hname⟩
      · exact absurd h (checkLength_ne_diverge _ _ _ _)
    · rintro ⟨offset, ⟨hread, rfl⟩, hname⟩
      obtain ⟨value, hvalue⟩ := exists_readU16 hread
      simp [hvalue, hname]
  | soa =>
    constructor
    · intro h
      rcases bind_eq_diverge_iff.mp h with hname | ⟨⟨mname, after⟩, hname, h⟩
      · exact ⟨pos, Or.inl rfl, hname⟩
      rcases bind_eq_diverge_iff.mp h with hrname | ⟨⟨rname, q1⟩, _, h⟩
      · exact ⟨after, Or.inr ⟨mname, hname⟩, hrname⟩
      rcases bind_eq_diverge_iff.mp h with h1 | ⟨⟨_, q2⟩, _, h⟩
      · exact absurd h1 (readU32_ne_diverge _ _)
      rcases bind_eq_diverge_iff.mp h with h2 | ⟨⟨_, q3⟩, _, h⟩
      · exact absurd h2 (readU32_ne_diverge _ _)
      rcases bind_eq_diverge_iff.mp h with h3 | ⟨⟨_, q4⟩, _, h⟩
      · exact absurd h3 (readU32_ne_diverge _ _)
      rcases bind_eq_diverge_iff.mp h with h4 | ⟨⟨_, q5⟩, _, h⟩
      · exact absurd h4 (readU32_ne_diverge _ _)
      rcases bind_eq_diverge_iff.mp h with h5 | ⟨⟨_, q6⟩, _, h⟩
      · exact absurd h5 (readU32_ne_diverge _ _)
      · exact absurd h (checkLength_ne_diverge _ _ _ _)
    · rintro ⟨offset, rfl | ⟨mname, hmname⟩, hname⟩
      · simp [hname]
      · simp [hmname, hname]
  | other value =>
    simp only [false_and, exists_false, iff_false]
    intro h
    rcases bind_eq_diverge_iff.mp h with hslice | ⟨data, _, h⟩
    · exact slice_ne_diverge _ _ _ hslice
    · simp at h

theorem decodeQuestion_eq_diverge_iff (buf : List UInt8) (pos : ℕ) :
    decodeQuestion buf pos = .diverge ↔ decodeName buf pos = .diverge := by
  constructor
  · intro h
    rcases bind_eq_diverge_iff.mp h with hname | ⟨⟨name, q0⟩, _, h⟩
    · exact hname
    rcases bind_eq_diverge_iff.mp h with h1 | ⟨⟨_, q1⟩, _, h⟩
    · exact absurd h1 (readU16_ne_diverge _ _)
    rcases bind_eq_diverge_iff.mp h with h2 | ⟨⟨_, q2⟩, _, h⟩
    · exact absurd h2 (readU16_ne_diverge _ _)
    rcases bind_eq_diverge_iff.mp h with h3 | ⟨_, _, h⟩
    · exact absurd h3 (ofExcept_ne_diverge _)
    · simp at h
  · intro hname
    simp [decodeQuestion, hname]

theorem decodeRr_eq_diverge_iff (buf : List UInt8) (pos : ℕ) :
    decodeRr buf pos = .diverge ↔
      ∃ offset, RrNameAt buf pos offset ∧ decodeName buf offset = .diverge := by
  constructor
  · intro h
    rcases bind_eq_diverge_iff.mp h with hname | ⟨⟨name, q0⟩, hname, h⟩
    · exact ⟨pos, Or.inl rfl, hname⟩
    rcases bind_eq_diverge_iff.mp h with h1 | ⟨⟨rtype, q1⟩, hrtype, h⟩
    · exact absurd h1 (readU16_ne_diverge _ _)
    obtain ⟨rfl, _⟩ := readU16_end hrtype
    rcases bind_eq_diverge_iff.mp h with h2 | ⟨⟨cls, q2⟩, hcls, h⟩
    · exact absurd h2 (readU16_ne_diverge _ _)
    obtain ⟨rfl, _⟩ := readU16_end hcls
    rcases bind_eq_diverge_iff.mp h with h3 | ⟨rclass, hclass, h⟩
    · exact absurd h3 (decodeClass_ne_diverge _ _)
    rcases bind_eq_diverge_iff.mp h with h4 | ⟨⟨ttl, q3⟩, httl, h⟩
    · exact absurd h4 (readU32_ne_diverge _ _)
    obtain ⟨rfl, _⟩ := readU32_end httl
    rcases bind_eq_diverge_iff.mp h with h5 | ⟨⟨rdlength, q4⟩, hlen, h⟩
    · exact absurd h5 (readU16_ne_diverge _ _)
    obtain ⟨rfl, _⟩ := readU16_end hlen
    rcases bind_eq_diverge_iff.mp h with h6 | ⟨⟨_, _⟩, _, h⟩
    · obtain ⟨offset, hat, hdiverge⟩ :=
        (rdataDecode_eq_diverge_iff _ _ _ _).mp h6
      exact ⟨offset, Or.inr ⟨name, q0, rtype, cls, ttl, rdlength, rclass,
        hname, hrtype, hcls, hclass, httl, hlen, hat⟩, hdiverge⟩
    · simp at h
  · rintro ⟨offset, rfl | ⟨owner, after, rtype, cls, ttl, rdlength, rclass,
      hname, hrtype, hcls, hclass, httl, hlen, hat⟩, hdiverge⟩
    · simp [decodeRr, hdiverge]
    · have hrdata := (rdataDecode_eq_diverge_iff _ _ _ _).mpr
        ⟨offset, hat, hdiverge⟩
      simp [decodeRr, hname, hrtype, hcls, hclass, httl, hlen, hrdata]

theorem decodeHeader_ne_diverge (buf : List UInt8) (pos : ℕ) :
    decodeHeader buf pos ≠ .diverge := by
  intro h
  rcases bind_eq_diverge_iff.mp h with h1 | ⟨⟨_, _⟩, _, h⟩
  · exact readU16_ne_diverge _ _ h1
  rcases bind_eq_diverge_iff.mp h with h2 | ⟨⟨_, _⟩, _, h⟩
  · exact readU16_ne_diverge _ _ h2
  rcases bind_eq_diverge_iff.mp h with h3 | ⟨⟨_, _⟩, _, h⟩
  · exact readU16_ne_diverge _ _ h3
  rcases bind_eq_diverge_iff.mp h with h4 | ⟨⟨_, _⟩, _, h⟩
  · exact readU16_ne_diverge _ _ h4
  rcases bind_eq_diverge_iff.mp h with h5 | ⟨⟨_, _⟩, _, h⟩
  · exact readU16_ne_diverge _ _ h5
  rcases bind_eq_diverge_iff.mp h with h6 | ⟨⟨_, _⟩, _, h⟩
  · exact readU16_ne_diverge _ _ h6
  · simp at h

theorem messageDecode_eq_diverge_iff_sections (bytes : List UInt8) :
    Message.decode bytes = .diverge ↔
      ∃ header counts start,
        decodeHeader bytes 0 = .ok ((header, counts), start) ∧
        (decodeMany (decodeQuestion bytes) counts.questions.toNat start =
            .diverge ∨
          ∃ questions after,
            decodeMany (decodeQuestion bytes) counts.questions.toNat start =
              .ok (questions, after) ∧
            decodeMany (decodeRr bytes) (counts.answers.toNat +
              counts.authorities.toNat + counts.additionals.toNat) after =
              .diverge) := by
  unfold Message.decode
  constructor
  · intro h
    rcases bind_eq_diverge_iff.mp h with h0 | ⟨⟨⟨header, counts⟩, q0⟩, h0, h⟩
    · exact absurd h0 (decodeHeader_ne_diverge _ _)
    refine ⟨header, counts, q0, h0, ?_⟩
    rcases bind_eq_diverge_iff.mp h with h1 | ⟨⟨questions, q1⟩, h1, h⟩
    · exact Or.inl h1
    refine Or.inr ⟨questions, q1, h1, ?_⟩
    rw [decodeMany_add, decodeMany_add]
    rcases bind_eq_diverge_iff.mp h with h2 | ⟨⟨answers, q2⟩, h2, h⟩
    · simp [h2]
    rcases bind_eq_diverge_iff.mp h with h3 | ⟨⟨authorities, q3⟩, h3, h⟩
    · simp [h2, h3]
    rcases bind_eq_diverge_iff.mp h with h4 | ⟨⟨additionals, q4⟩, h4, h⟩
    · simp [h2, h3, h4]
    · simp at h
  · rintro ⟨header, counts, q0, h0, h1 | ⟨questions, q1, h1, h⟩⟩
    · simp [h0, h1]
    · rw [decodeMany_add, decodeMany_add] at h
      rcases bind_eq_diverge_iff.mp h with hfirst | ⟨⟨_, q3⟩, hfirst, h⟩
      · rcases bind_eq_diverge_iff.mp hfirst with h2 | ⟨⟨answers, q2⟩, h2, h⟩
        · simp [h0, h1, h2]
        rcases bind_eq_diverge_iff.mp h with h3 | ⟨⟨_, _⟩, _, h⟩
        · simp [h0, h1, h2, h3]
        · simp at h
      · obtain ⟨⟨answers, q2⟩, h2, hsecond⟩ := bind_eq_ok_iff.mp hfirst
        obtain ⟨⟨authorities, q4⟩, h3, hpair⟩ := bind_eq_ok_iff.mp hsecond
        simp only [pure_eq_ok, Run.ok.injEq, Prod.mk.injEq] at hpair
        obtain ⟨_, rfl⟩ := hpair
        rcases bind_eq_diverge_iff.mp h with h4 | ⟨⟨_, _⟩, _, h⟩
        · simp [h0, h1, h2, h3, h4]
        · simp at h

/-- A message is never decoded to the end exactly when decoding it starts
reading a name whose walk comes back to a pointer. -/
theorem messageDecode_eq_diverge_iff (bytes : List UInt8) :
    Message.decode bytes = .diverge ↔
      ∃ offset, MessageNameAt bytes offset ∧ PointerCycle bytes offset := by
  rw [messageDecode_eq_diverge_iff_sections]
  unfold MessageNameAt
  simp only [← decodeName_eq_diverge_iff]
  constructor
  · rintro ⟨header, counts, start, hheader, hquestions |
      ⟨questions, after, hquestions, hrecords⟩⟩
    · obtain ⟨k, hk, offset, hstarts, hitem⟩ :=
        decodeMany_eq_diverge_iff.mp hquestions
      exact ⟨offset, ⟨header, counts, start, hheader,
        Or.inl ⟨k, hk, hstarts⟩⟩,
        (decodeQuestion_eq_diverge_iff _ _).mp hitem⟩
    · obtain ⟨k, hk, record, hstarts, hitem⟩ :=
        decodeMany_eq_diverge_iff.mp hrecords
      obtain ⟨offset, hat, hdiverge⟩ := (decodeRr_eq_diverge_iff _ _).mp hitem
      exact ⟨offset, ⟨header, counts, start, hheader, Or.inr ⟨after,
        decodeMany_eq_ok_imp_itemStarts hquestions, k, hk, record, hstarts,
        hat⟩⟩, hdiverge⟩
  · rintro ⟨offset, ⟨header, counts, start, hheader, hat⟩, hdiverge⟩
    refine ⟨header, counts, start, hheader, ?_⟩
    rcases hat with ⟨k, hk, hstarts⟩ |
      ⟨after, hquestions, k, hk, record, hstarts, hat⟩
    · exact Or.inl (decodeMany_eq_diverge_iff.mpr ⟨k, hk, offset, hstarts,
        (decodeQuestion_eq_diverge_iff _ _).mpr hdiverge⟩)
    · obtain ⟨questions, hquestions⟩ :=
        exists_decodeMany_of_itemStarts hquestions
      exact Or.inr ⟨questions, after, hquestions,
        decodeMany_eq_diverge_iff.mpr ⟨k, hk, record, hstarts,
          (decodeRr_eq_diverge_iff _ _).mpr ⟨offset, hat, hdiverge⟩⟩⟩

/-- The name decoder returns exactly at the offsets from which the walk over
labels and pointers does not come back to a pointer, and the message decoder
returns exactly when this holds at every offset where it starts a name. -/
theorem decode_returns_iff_no_pointerCycle (bytes : List UInt8) :
    (∀ pos, NameDecoderReturns bytes pos ↔ ¬ PointerCycle bytes pos) ∧
      (Message.decode bytes ≠ .diverge ↔
        ∀ offset, MessageNameAt bytes offset → ¬ PointerCycle bytes offset) := by
  refine ⟨nameDecoderReturns_iff bytes, ?_⟩
  rw [ne_eq, messageDecode_eq_diverge_iff]
  push Not
  rfl

/-- A label `a` at offset 12, then a pointer back to offset 12: every
iteration of the loop goes on, and the query which carries the name is never
decoded. -/
theorem decode_runs_forever_on_label_then_pointer :
    (¬ ∀ buf pos, NameDecoderReturns buf pos) ∧
      ¬ NameDecoderReturns
        [0, 0, 0, 0, 0, 1, 0, 0, 0, 0, 0, 0, 1, 97, 192, 12, 0, 1, 0, 1] 12 ∧
      Message.decode
        [0, 0, 0, 0, 0, 1, 0, 0, 0, 0, 0, 0, 1, 97, 192, 12, 0, 1, 0, 1] =
          .diverge := by
  have hloop : ¬ NameDecoderReturns
      [0, 0, 0, 0, 0, 1, 0, 0, 0, 0, 0, 0, 1, 97, 192, 12, 0, 1, 0, 1] 12 := by
    rw [nameDecoderReturns_iff, not_not]
    have hlabel : LabelAt
        [0, 0, 0, 0, 0, 1, 0, 0, 0, 0, 0, 0, 1, 97, 192, 12, 0, 1, 0, 1]
        12 14 := ⟨1, by decide⟩
    have hpointer : PointerAt
        [0, 0, 0, 0, 0, 1, 0, 0, 0, 0, 0, 0, 1, 97, 192, 12, 0, 1, 0, 1]
        14 12 := ⟨192, 12, by decide⟩
    exact ⟨14, 12, .single (Or.inl hlabel), hpointer, .single (Or.inl hlabel)⟩
  exact ⟨fun h => hloop (h _ _), hloop, by decide⟩

end DnsLattice
