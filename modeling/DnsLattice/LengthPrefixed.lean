import DnsLattice.BigEndian

/-!
# Length-prefixed frames

A byte stream read as a sequence of frames, each behind its length in two
bytes, and what is left of it once no complete frame remains.
-/

namespace DnsLattice

def frameWire (frame : List UInt8) : List UInt8 :=
  networkBytes 2 frame.length ++ frame

def splitFrame : List UInt8 → Option (List UInt8 × List UInt8)
  | high :: low :: body =>
      let len := networkValue [high, low]
      if len ≤ body.length then some (body.take len, body.drop len) else none
  | _ => none

@[simp] theorem length_frameWire (frame : List UInt8) :
    (frameWire frame).length = 2 + frame.length := by
  simp [frameWire]

theorem splitFrame_frameWire
    {frame : List UInt8} (hframe : frame.length < 65536) (rest : List UInt8) :
    splitFrame (frameWire frame ++ rest) = some (frame, rest) := by
  have hvalue := networkValue_networkBytes_of_lt
    (show frame.length < 256 ^ 2 by omega)
  generalize hprefix : networkBytes 2 frame.length = lengthBytes at hvalue
  have hlength : lengthBytes.length = 2 := by simp [← hprefix]
  obtain ⟨high, low, rfl⟩ := List.length_eq_two.mp hlength
  simp [frameWire, hprefix, splitFrame, hvalue]

theorem eq_frameWire_of_splitFrame {bytes frame rest : List UInt8}
    (hsplit : splitFrame bytes = some (frame, rest)) :
    bytes = frameWire frame ++ rest ∧ frame.length < 65536 := by
  match bytes, hsplit with
  | high :: low :: body, hsplit =>
    have hlt := networkValue_lt [high, low]
    have hbytes := networkBytes_networkValue [high, low]
    simp only [splitFrame] at hsplit
    split_ifs at hsplit with hlen
    obtain ⟨rfl, rfl⟩ := Prod.mk.inj (Option.some.inj hsplit)
    have htake : (body.take (networkValue [high, low])).length =
        networkValue [high, low] := List.length_take_of_le hlen
    refine ⟨?_, by simpa [htake] using hlt⟩
    simp only [List.length_cons, List.length_nil, Nat.zero_add,
      Nat.reduceAdd] at hbytes
    simp [frameWire, htake, hbytes]

/-- A byte string without a complete frame is shorter than the longest
frame. -/
theorem length_lt_of_splitFrame_none
    {bytes : List UInt8} (hsplit : splitFrame bytes = none) :
    bytes.length < 2 + 65535 := by
  match bytes, hsplit with
  | [], _ => simp
  | [_], _ => simp
  | high :: low :: body, hsplit =>
    have hlt := networkValue_lt [high, low]
    simp only [splitFrame, ite_eq_right_iff, reduceCtorEq, imp_false,
      Nat.not_le, List.length_cons, List.length_nil] at hsplit hlt ⊢
    omega

def framesOf (bytes : List UInt8) : List (List UInt8) × List UInt8 :=
  match hsplit : splitFrame bytes with
  | none => ([], bytes)
  | some (frame, rest) =>
      have : rest.length < bytes.length := by
        rw [(eq_frameWire_of_splitFrame hsplit).1]
        simp
      (frame :: (framesOf rest).1, (framesOf rest).2)
termination_by bytes.length

theorem framesOf_of_none
    {bytes : List UInt8} (hsplit : splitFrame bytes = none) :
    framesOf bytes = ([], bytes) := by
  rw [framesOf]
  split <;> simp_all

theorem framesOf_frameWire {frame : List UInt8} (hframe : frame.length < 65536)
    (rest : List UInt8) :
    framesOf (frameWire frame ++ rest) =
      (frame :: (framesOf rest).1, (framesOf rest).2) := by
  have hsplit := splitFrame_frameWire hframe rest
  rw [framesOf]
  split <;> simp_all

theorem framesOf_append {frames : List (List UInt8)}
    (hframes : ∀ frame ∈ frames, frame.length < 65536) (rest : List UInt8) :
    framesOf (frames.flatMap frameWire ++ rest) =
      (frames ++ (framesOf rest).1, (framesOf rest).2) := by
  induction frames with
  | nil => simp
  | cons frame frames ih =>
    rw [List.forall_mem_cons] at hframes
    rw [List.flatMap_cons, List.append_assoc,
      framesOf_frameWire hframes.1, ih hframes.2]
    simp

end DnsLattice
