import DnsLattice.DecoderBounds

/-!
# Truncated and extended messages

Bytes behind a message do not change what it decodes to.  An encoding is read
to its last byte, so that a truncated one is never accepted.
-/

namespace DnsLattice

open Run

theorem Message.decode_append {bytes : List UInt8} {message : Message}
    (h : Message.decode bytes = .ok message) (extra : List UInt8) :
    Message.decode (bytes ++ extra) = .ok message := by
  rcases (Message.decode_settled bytes extra).same with ⟨error, herror⟩ | hsame
  · rw [herror] at h
    cases h
  · rw [hsame, h]

/-- Decoding a truncated encoding can only fail: otherwise it would stop where
decoding the whole encoding does, at its end. -/
theorem Message.decode_of_truncated {message : Message}
    (hmessage : message.Canonical) (hencodable : message.Encodable)
    {front extra : List UInt8} (hwire : message.wire = front ++ extra)
    (hextra : extra ≠ []) : ∃ error, Message.decode front = .err error := by
  have hwhole : Message.decodeTo (front ++ extra) =
      .ok (message, message.wire.length) :=
    Message.decodeTo_of_holdsAt hmessage hencodable
      (hwire ▸ List.prefix_refl _)
  have hsettled := Message.decodeTo_settled front extra
  rcases hsettled.same with ⟨error, herror⟩ | hsame
  · refine ⟨error, ?_⟩
    rw [Message.decode_eq_decodeTo, herror]
    rfl
  · have hstop : message.wire.length ≤ front.length :=
      hsettled.value _ (hsame.symm.trans hwhole)
    have hpos := List.length_pos_iff.mpr hextra
    rw [hwire, List.length_append] at hstop
    omega

/-- What decodes still decodes to the same message with bytes added behind it,
and no strict prefix of the encoding of a canonical message decodes. -/
theorem decode_stable_and_encodings_prefix_free :
    (∀ (bytes extra : List UInt8) (message : Message),
      Message.decode bytes = .ok message →
      Message.decode (bytes ++ extra) = .ok message) ∧
    ∀ (message : Message) (bytes front : List UInt8), message.Canonical →
      message.encode = .ok bytes → front <+: bytes → front ≠ bytes →
      ∃ error, Message.decode front = .err error := by
  refine ⟨fun bytes extra message h => Message.decode_append h extra, ?_⟩
  rintro message bytes front hmessage hencode ⟨extra, rfl⟩ hstrict
  obtain ⟨hencodable, _, hwire⟩ := Message.encode_eq_ok_iff.mp hencode
  apply Message.decode_of_truncated hmessage hencodable hwire.symm
  rintro rfl
  exact hstrict (List.append_nil front).symm

/-- A response with one byte added, and without its last byte. -/
theorem mailExchangeResponse_extended_and_truncated :
    ∃ bytes, mailExchangeResponse.encode = .ok bytes ∧
      Message.decode (bytes ++ [0]) = .ok mailExchangeResponse ∧
      ∃ error, Message.decode bytes.dropLast = .err error := by
  refine ⟨_, rfl, ?_, ?_⟩
  · exact decode_stable_and_encodings_prefix_free.1 _ [0] _
      (decode_encode_of_canonical mailExchangeResponse_canonical rfl)
  · exact decode_stable_and_encodings_prefix_free.2 mailExchangeResponse _ _
      mailExchangeResponse_canonical rfl (List.dropLast_prefix _)
      (by decide)

end DnsLattice
