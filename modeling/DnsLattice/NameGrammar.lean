import DnsLattice.DecodedMessages

/-!
# The grammar of compressed names

A name in a buffer is a sequence of labels which ends in a zero byte or goes on
at the target of a pointer.  The grammar below says so without the cursor of
the decoder.  The decoder accepts exactly the names of the grammar which are
short enough, and it stops in the stream where the grammar says.
-/

namespace DnsLattice

open Run

/-- The bytes at an offset expand to a list of labels; the last index is the
position in the stream after them, just past the first pointer if there is one
and just past the zero byte otherwise. -/
inductive Expands (buf : List UInt8) : ℕ → List Label → ℕ → Prop where
  | zero {offset : ℕ} (hbytes : HoldsAt buf offset [0]) :
      Expands buf offset [] (offset + 1)
  | label {offset stop : ℕ} {label : Label} {rest : List Label}
      (hpos : 1 ≤ label.length) (hle : label.length ≤ 63)
      (hbytes : HoldsAt buf offset (UInt8.ofNat label.length :: label))
      (hrest : Expands buf (offset + 1 + label.length) rest stop) :
      Expands buf offset (label :: rest) stop
  | pointer {offset stop : ℕ} {high low : UInt8} {labels : List Label}
      (hbytes : HoldsAt buf offset [high, low]) (htop : 192 ≤ high.toNat)
      (hlower : high.toNat % 64 * 256 + low.toNat < offset)
      (hrest : Expands buf (high.toNat % 64 * 256 + low.toNat) labels stop) :
      Expands buf offset labels (offset + 2)

/-! ## The bytes read -/

theorem holdsAt_of_getElem? {buf : List UInt8} {pos : ℕ} {byte : UInt8}
    (h : buf[pos]? = some byte) : HoldsAt buf pos [byte] := by
  have hlt := lt_length_of_getElem?_eq_some h
  rw [List.getElem?_eq_getElem hlt] at h
  rw [HoldsAt, List.drop_eq_getElem_cons hlt, Option.some.inj h]
  simp

theorem HoldsAt.append {buf first second : List UInt8} {pos : ℕ}
    (hfirst : HoldsAt buf pos first)
    (hsecond : HoldsAt buf (pos + first.length) second) :
    HoldsAt buf pos (first ++ second) := by
  obtain ⟨rest, hrest⟩ := hfirst
  rw [HoldsAt, ← List.drop_drop, ← hrest, List.drop_left] at hsecond
  rw [HoldsAt, ← hrest]
  exact (List.prefix_append_right_inj first).mpr hsecond

theorem holdsAt_take_drop (buf : List UInt8) (pos count : ℕ) :
    HoldsAt buf pos ((buf.drop pos).take count) :=
  List.take_prefix _ _

theorem HoldsAt.extend {buf bytes : List UInt8} {pos : ℕ}
    (h : HoldsAt buf pos bytes) (hpos : pos ≤ buf.length)
    (extra : List UInt8) : HoldsAt (buf ++ extra) pos bytes := by
  rw [HoldsAt, List.drop_append_of_le_length hpos]
  exact List.IsPrefix.trans h (List.prefix_append _ _)

theorem Expands.lt_length {buf : List UInt8} {offset stop : ℕ}
    {labels : List Label} (h : Expands buf offset labels stop) :
    offset < buf.length := by
  cases h with
  | zero hbytes => exact lt_length_of_getElem?_eq_some hbytes.head
  | label _ _ hbytes _ => exact lt_length_of_getElem?_eq_some hbytes.head
  | pointer hbytes _ _ _ => exact lt_length_of_getElem?_eq_some hbytes.head

theorem Expands.extend {buf : List UInt8} {offset stop : ℕ}
    {labels : List Label} (h : Expands buf offset labels stop)
    (extra : List UInt8) : Expands (buf ++ extra) offset labels stop := by
  induction h with
  | zero hbytes =>
    have hlt := lt_length_of_getElem?_eq_some hbytes.head
    exact .zero (hbytes.extend hlt.le extra)
  | label hpos hle hbytes _ ih =>
    have hlt := lt_length_of_getElem?_eq_some hbytes.head
    exact .label hpos hle (hbytes.extend hlt.le extra) ih
  | pointer hbytes htop hlower _ ih =>
    have hlt := lt_length_of_getElem?_eq_some hbytes.head
    exact .pointer (hbytes.extend hlt.le extra) htop hlower ih

theorem Expands.prepend {buf : List UInt8} {stop : ℕ}
    {labels : List Label} (front : List Label) {offset : ℕ}
    (hpos : ∀ label ∈ front, 0 < label.length)
    (hle : ∀ label ∈ front, label.length ≤ 63)
    (hbytes : HoldsAt buf offset (front.flatMap labelWire))
    (h : Expands buf (offset + (front.flatMap labelWire).length) labels stop) :
    Expands buf offset (front ++ labels) stop := by
  induction front generalizing offset with
  | nil => exact h
  | cons label rest ih =>
    rw [List.flatMap_cons] at hbytes h
    have hright := hbytes.right
    have hlength : (labelWire label).length = 1 + label.length := by
      rw [labelWire, List.length_cons, Nat.add_comm]
    rw [List.length_append, ← Nat.add_assoc, hlength, ← Nat.add_assoc] at h
    rw [hlength, ← Nat.add_assoc] at hright
    exact .label (hpos label (by simp)) (hle label (by simp)) hbytes.left
      (ih (fun other hother => hpos other (by simp [hother]))
        (fun other hother => hle other (by simp [hother])) hright h)

/-! ## The loop reads the grammar -/

/-- Where the stream goes on after the loop. -/
def NameCursor.position (cursor : NameCursor) : ℕ :=
  if cursor.jumped then cursor.realEnd else cursor.cur

structure NameCursor.Reads (cursor : NameCursor) (labels : List Label)
    (stop : ℕ) (final : NameCursor) : Prop where
  labels : final.labels = cursor.labels ++ labels
  position :
    final.position = if cursor.jumped then cursor.realEnd else stop

theorem expands_of_loop {buf : List UInt8} {fuel : ℕ}
    {cursor final : NameCursor}
    (hloop : loop (nameStep buf) fuel cursor = .ok final) :
    ∃ labels stop, Expands buf cursor.cur labels stop ∧
      cursor.Reads labels stop final := by
  induction fuel generalizing cursor with
  | zero => cases hloop
  | succ fuel ih =>
    rcases nameStep_cases buf cursor with
      ⟨len, hbyte, hpos, hle, hfit⟩ |
      ⟨high, low, hhigh, hlow, htop, htarget⟩ | hzero | ⟨error, herror⟩
    · rw [loop_succ_of_continue fuel
        (nameStep_of_label hbyte hpos hle hfit)] at hloop
      obtain ⟨labels, stop, hexpands, hreads⟩ := ih hloop
      have hlength :
          ((buf.drop (cursor.cur + 1)).take len.toNat).length =
            len.toNat := by
        simp only [List.length_take, List.length_drop]
        omega
      refine ⟨_ :: labels, stop, .label (by rw [hlength]; exact hpos)
        (by rw [hlength]; exact hle) ?_ (by rw [hlength]; exact hexpands),
        ⟨by simp [hreads.labels], hreads.position⟩⟩
      rw [hlength, UInt8.ofNat_toNat]
      exact (holdsAt_of_getElem? hbyte).append (holdsAt_take_drop _ _ _)
    · rw [loop_succ_of_continue fuel
        (nameStep_of_pointer hhigh hlow htop htarget)] at hloop
      obtain ⟨labels, stop, hexpands, hreads⟩ := ih hloop
      exact ⟨labels, _, .pointer ((holdsAt_of_getElem? hhigh).append
        (holdsAt_of_getElem? hlow)) htop htarget hexpands,
        ⟨hreads.labels, by simpa using hreads.position⟩⟩
    · rw [loop_succ_of_break fuel (nameStep_of_zero hzero)] at hloop
      obtain rfl := Run.ok.inj hloop
      exact ⟨[], _, .zero (holdsAt_of_getElem? hzero),
        ⟨by simp, by simp [NameCursor.position]⟩⟩
    · simp [loop, herror] at hloop

theorem loop_of_expands {buf : List UInt8} {offset stop : ℕ}
    {labels : List Label} (h : Expands buf offset labels stop) :
    ∀ cursor : NameCursor, cursor.cur = offset →
      ∃ fuel final, loop (nameStep buf) fuel cursor = .ok final ∧
        cursor.Reads labels stop final := by
  induction h with
  | zero hbytes =>
    rintro cursor rfl
    exact ⟨1, _, loop_succ_of_break 0 (nameStep_of_zero hbytes.head),
      ⟨by simp, by simp [NameCursor.position]⟩⟩
  | @label offset stop label rest hpos hle hbytes _ ih =>
    rintro cursor rfl
    have hlen : (UInt8.ofNat label.length).toNat = label.length :=
      toNat_ofNat_of_le_255 (by omega)
    have hcons : HoldsAt buf cursor.cur
      ([UInt8.ofNat label.length] ++ label) := hbytes
    have hbody : HoldsAt buf (cursor.cur + 1) label := hcons.right
    have hstep := nameStep_of_label hbytes.head (by rw [hlen]; exact hpos)
      (by rw [hlen]; exact hle) (by rw [hlen]; exact hbody.length_le hpos)
    rw [hlen, hbody.take] at hstep
    obtain ⟨fuel, final, hloop, hreads⟩ := ih { cursor with
      labels := cursor.labels ++ [label]
      cur := cursor.cur + 1 + label.length } rfl
    exact ⟨fuel + 1, final, (loop_succ_of_continue fuel hstep).trans hloop,
      ⟨by simp [hreads.labels], hreads.position⟩⟩
  | @pointer offset stop high low labels hbytes htop hlower _ ih =>
    rintro cursor rfl
    have hcons : HoldsAt buf cursor.cur ([high] ++ [low]) := hbytes
    have hstep := nameStep_of_pointer hbytes.head hcons.right.head htop
      hlower
    obtain ⟨fuel, final, hloop, hreads⟩ := ih { cursor with
      cur := high.toNat % 64 * 256 + low.toNat
      jumped := true
      realEnd := if cursor.jumped then cursor.realEnd
        else cursor.cur + 2 } rfl
    exact ⟨fuel + 1, final, (loop_succ_of_continue fuel hstep).trans hloop,
      ⟨hreads.labels, by simpa using hreads.position⟩⟩

/-- The decoder's iterations are enough for every name of the grammar. -/
theorem nameLoop_of_expands {buf : List UInt8} {pos stop : ℕ}
    {labels : List Label} (h : Expands buf pos labels stop) :
    ∃ final, loop (nameStep buf) (buf.length + 1) (.start pos) = .ok final ∧
      (NameCursor.start pos).Reads labels stop final := by
  obtain ⟨fuel, final, hloop, hreads⟩ := loop_of_expands h (.start pos) rfl
  refine ⟨final, ?_, hreads⟩
  have hhalts : LoopHalts (nameStep buf) (.start pos) := ⟨fuel, by simp [hloop]⟩
  have henough : loop (nameStep buf) (buf.length + 1) (.start pos) ≠
      .diverge := by
    rw [ne_eq, loop_eq_diverge_iff_not_loopHalts (nameStep_controlledBy buf)
      nameNext_lt_length, not_not]
    exact hhalts
  rw [← loop_add_fuel henough fuel, Nat.add_comm,
    loop_add_fuel (by simp [hloop]), hloop]

theorem finishName_eq_ok_iff {cursor : NameCursor} {name : Name} {next : ℕ} :
    finishName cursor = .ok (name, next) ↔
      name.labels = cursor.labels ∧ next = cursor.position ∧
        name.wireLength ≤ 255 := by
  obtain ⟨labels⟩ := name
  unfold finishName Name.checkTotalLength NameCursor.position
  dsimp only
  by_cases hlong : (⟨cursor.labels⟩ : Name).wireLength > 255
  · rw [if_pos hlong]
    constructor
    · intro h
      cases h
    · rintro ⟨hlabels, _, hshort⟩
      rw [hlabels] at hshort
      omega
  · rw [if_neg hlong]
    simp only [ok_bind, pure_eq_ok, Run.ok.injEq, Prod.mk.injEq, Name.mk.injEq]
    constructor
    · rintro ⟨rfl, rfl⟩
      exact ⟨rfl, rfl, not_lt.mp hlong⟩
    · rintro ⟨rfl, rfl, _⟩
      exact ⟨rfl, rfl⟩

theorem decodeName_eq_ok_iff {buf : List UInt8} {pos next : ℕ} {name : Name} :
    decodeName buf pos = .ok (name, next) ↔
      Expands buf pos name.labels next ∧ name.wireLength ≤ 255 := by
  constructor
  · intro hdecode
    obtain ⟨final, hloop, hfinish⟩ := bind_eq_ok_iff.mp hdecode
    obtain ⟨labels, stop, hexpands, hreads⟩ := expands_of_loop hloop
    obtain ⟨hlabels, hnext, hshort⟩ := finishName_eq_ok_iff.mp hfinish
    have hstop : next = stop := hnext.trans hreads.position
    rw [hlabels, hreads.labels, hstop]
    exact ⟨hexpands, hshort⟩
  · rintro ⟨hexpands, hshort⟩
    obtain ⟨final, hloop, hreads⟩ := nameLoop_of_expands hexpands
    exact bind_eq_ok_iff.mpr ⟨final, hloop, finishName_eq_ok_iff.mpr
      ⟨hreads.labels.symm, hreads.position.symm, hshort⟩⟩

/-! ## Pointers in place of a suffix -/

/-- A compression pointer to `target`. -/
def pointerWire (target : ℕ) : List UInt8 :=
  [UInt8.ofNat (192 + target / 256), UInt8.ofNat (target % 256)]

theorem expands_of_pointerWire {buf : List UInt8} {offset target stop : ℕ}
    {labels : List Label} (hbytes : HoldsAt buf offset (pointerWire target))
    (hfits : target < 16384) (hlower : target < offset)
    (h : Expands buf target labels stop) :
    Expands buf offset labels (offset + 2) := by
  have hhigh : (UInt8.ofNat (192 + target / 256)).toNat =
      192 + target / 256 := toNat_ofNat_of_le_255 (by omega)
  have hlow : (UInt8.ofNat (target % 256)).toNat = target % 256 :=
    toNat_ofNat_of_le_255 (by omega)
  have htarget : (UInt8.ofNat (192 + target / 256)).toNat % 64 * 256 +
      (UInt8.ofNat (target % 256)).toNat = target := by
    rw [hhigh, hlow]
    omega
  exact .pointer hbytes (by rw [hhigh]; omega) (by rwa [htarget])
    (by rwa [htarget])

/-- A suffix may be replaced by a pointer to an earlier encoding of it,
whatever the bytes behind it. -/
theorem decodeName_pointer_suffix {before tail rest : List UInt8}
    {front suffix : List Label} {target stop after : ℕ}
    (hname : decodeName (before ++ front.flatMap labelWire ++ tail)
      before.length = .ok (⟨front ++ suffix⟩, stop))
    (hearlier : decodeName (before ++ front.flatMap labelWire) target =
      .ok (⟨suffix⟩, after))
    (hfits : target < 16384) :
    decodeName (before ++ front.flatMap labelWire ++ pointerWire target ++
        rest) before.length =
      .ok (⟨front ++ suffix⟩,
        (before ++ front.flatMap labelWire).length + 2) := by
  have hwell := decodeName_wellFormed hname
  have hshort := (decodeName_eq_ok_iff.mp hname).2
  have hsuffix := (decodeName_eq_ok_iff.mp hearlier).1
  refine decodeName_eq_ok_iff.mpr ⟨?_, hshort⟩
  refine .prepend front (fun label hlabel => hwell.label_pos label (by simp
    [hlabel])) (fun label hlabel => hwell.label_le label (by simp [hlabel]))
    ?_ ?_
  · rw [HoldsAt]
    simp
  · have hbefore : Expands (before ++ front.flatMap labelWire ++
        pointerWire target ++ rest) target suffix after := by
      rw [List.append_assoc]
      exact hsuffix.extend _
    rw [← List.length_append]
    refine expands_of_pointerWire ?_ hfits hsuffix.lt_length hbefore
    rw [HoldsAt]
    simp

/-- The decoder recognises exactly the compressed names whose uncompressed
form is at most 255 bytes long, returns their labels and the position after
them, and does not see whether a suffix is written out or pointed to. -/
theorem decodeName_recognises_compressed_names :
    (∀ (buf : List UInt8) (offset : ℕ) (name : Name) (next : ℕ),
      decodeName buf offset = .ok (name, next) ↔
        Expands buf offset name.labels next ∧ name.wireLength ≤ 255) ∧
    ∀ (before tail rest : List UInt8) (front suffix : List Label)
      (target stop after : ℕ),
      decodeName (before ++ front.flatMap labelWire ++ tail) before.length =
        .ok (⟨front ++ suffix⟩, stop) →
      decodeName (before ++ front.flatMap labelWire) target =
        .ok (⟨suffix⟩, after) →
      target < 16384 →
      decodeName (before ++ front.flatMap labelWire ++ pointerWire target ++
          rest) before.length =
        .ok (⟨front ++ suffix⟩,
          (before ++ front.flatMap labelWire).length + 2) := by
  refine ⟨fun _ _ _ _ => decodeName_eq_ok_iff, ?_⟩
  intro before tail rest front suffix target stop after hname hearlier hfits
  exact decodeName_pointer_suffix hname hearlier hfits

/-- The name `b.a` behind the name `a`, written out and with a pointer. -/
theorem decodeName_recognises_pointer_to_a :
    decodeName [1, 97, 0, 1, 98, 1, 97, 0] 3 = .ok (⟨[[98], [97]]⟩, 8) ∧
      decodeName [1, 97, 0, 1, 98, 192, 0] 3 = .ok (⟨[[98], [97]]⟩, 7) :=
  have hplain : decodeName [1, 97, 0, 1, 98, 1, 97, 0] 3 =
    .ok (⟨[[98], [97]]⟩, 8) := rfl
  have hearlier : decodeName [1, 97, 0, 1, 98] 0 = .ok (⟨[[97]]⟩, 3) := rfl
  ⟨hplain, decodeName_recognises_compressed_names.2 [1, 97, 0] [1, 97, 0] []
    [[98]] [[97]] 0 8 3 hplain hearlier (by decide)⟩

end DnsLattice
