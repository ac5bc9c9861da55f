import DnsLattice.DecoderBounds
import DnsLattice.LengthPrefixed
import DnsLattice.UdpResponse

/-!
# Messages on a byte stream

A message is sent on a stream behind its length, and the server answers the
queries of a connection one after the other.  Whatever bytes a client sends,
what it reads back as frames are the responses to its first frames, in their
order and one for each, up to the first frame which is no query, the first
response which cannot be encoded or the first write which fails.
-/

namespace DnsLattice

open Run

/-- `read_exact` on what the peer still sends.  The stream ends with `fault`,
a timeout or an error of the connection. -/
def readExact (fault : Error) (len : ℕ) (incoming : List UInt8) :
    Run Error (List UInt8 × List UInt8) :=
  if len ≤ incoming.length then
    .ok (incoming.take len, incoming.drop len)
  else .err fault

def readFramed (fault : Error) (incoming : List UInt8) :
    Run Error (Message × List UInt8) := do
  let (lenBuf, incoming) ← readExact fault 2 incoming
  let (payload, incoming) ← readExact fault (networkValue lenBuf) incoming
  let message ← Message.decode payload
  return (message, incoming)

def writeFramed (message : Message) : Run Error (List UInt8) := do
  let payload ← message.encode
  if payload.length < 65536 then return frameWire payload
  else .err .messageTooLong

theorem readExact_two_cons (fault : Error) (high low : UInt8)
    (body : List UInt8) :
    readExact fault 2 (high :: low :: body) = .ok ([high, low], body) := by
  simp [readExact]

theorem readFramed_of_none {fault : Error} {incoming : List UInt8}
    (h : splitFrame incoming = none) :
    readFramed fault incoming = .err fault := by
  rcases incoming with _ | ⟨high, _ | ⟨low, body⟩⟩
  · rfl
  · rfl
  · simp only [splitFrame, ite_eq_right_iff, reduceCtorEq, imp_false] at h
    rw [readFramed, readExact_two_cons, ok_bind]
    dsimp only
    rw [readExact, if_neg h, err_bind]

theorem readFramed_of_some {fault : Error} {incoming frame rest : List UInt8}
    (h : splitFrame incoming = some (frame, rest)) :
    readFramed fault incoming =
      (Message.decode frame >>= fun message => .ok (message, rest)) := by
  rcases incoming with _ | ⟨high, _ | ⟨low, body⟩⟩
  · cases h
  · cases h
  · simp only [splitFrame] at h
    split_ifs at h with hlen
    obtain ⟨rfl, rfl⟩ := Prod.mk.inj (Option.some.inj h)
    rw [readFramed, readExact_two_cons, ok_bind]
    dsimp only
    rw [readExact, if_pos hlen]
    rfl

/-- The length of an encoded message always fits in its prefix. -/
theorem Message.length_lt_of_encode {message : Message} {bytes : List UInt8}
    (h : message.encode = .ok bytes) : bytes.length < 65536 := by
  obtain ⟨-, hlength, rfl⟩ := Message.encode_eq_ok_iff.mp h
  omega

theorem writeFramed_eq (message : Message) :
    writeFramed message =
      (message.encode >>= fun payload => .ok (frameWire payload)) := by
  rw [writeFramed]
  cases hencode : message.encode with
  | ok payload =>
    rw [ok_bind, ok_bind, if_pos (Message.length_lt_of_encode hencode)]
    rfl
  | err error => rfl
  | panic => rfl
  | diverge => rfl

/-! ## The server's side -/

/-- A connection between two queries: how many it has answered, what the
client still sends and what has been written. -/
structure Connection where
  answered : ℕ
  incoming : List UInt8
  written : List UInt8

section Server

variable (resolve : ℕ → Message → Except Error Message) (ednsMax : UInt16)
  (fault : Error) (breaks : ℕ → Option ℕ)

/-- One round of `handle_tcp_connection`.  The resolver may answer each query
in its own way, and `breaks` says which write fails and how many bytes of the
response it leaves on the stream. -/
def connectionStep (connection : Connection) :
    Run Error (Connection ⊕ List UInt8) :=
  match readFramed fault connection.incoming with
  | .ok (query, incoming) =>
      match writeFramed
          (answer (resolve connection.answered) query ednsMax) with
      | .ok bytes =>
          match breaks connection.answered with
          | none => .ok (.inl ⟨connection.answered + 1, incoming,
              connection.written ++ bytes⟩)
          | some count => .ok (.inr (connection.written ++ bytes.take count))
      | .err _ => .ok (.inr connection.written)
      | .panic => .panic
      | .diverge => .diverge
  | .err _ => .ok (.inr connection.written)
  | .panic => .panic
  | .diverge => .diverge

/-- What is written to a client which sends these bytes. -/
def handleTcpConnection (incoming : List UInt8) : Run Error (List UInt8) :=
  loop (connectionStep resolve ednsMax fault breaks) (incoming.length + 1)
    ⟨0, incoming, []⟩

/-- The response to a frame which is query `number`, if there is one. -/
def frameResponse (number : ℕ) (frame : List UInt8) :
    Run Error (Option (List UInt8)) :=
  letOk (Message.decode frame) fun query =>
    letOk (answer (resolve number) query ednsMax).encode fun payload =>
      .ok (some payload)

/-- The service of a connection on frames, of which the first is query
`number`: the responses, and what is left of one whose write failed. -/
def serveFrames (number : ℕ) :
    List (List UInt8) → Run Error (List (List UInt8) × List UInt8)
  | [] => .ok ([], [])
  | frame :: rest =>
      frameResponse resolve ednsMax number frame >>= fun response =>
        match response, breaks number with
        | none, _ => .ok ([], [])
        | some payload, some count =>
            .ok ([], (frameWire payload).take count)
        | some payload, none =>
            serveFrames (number + 1) rest >>= fun served =>
              .ok (payload :: served.1, served.2)

variable {resolve ednsMax fault breaks}

theorem loop_connectionStep {fuel : ℕ} {connection : Connection}
    (hfuel : connection.incoming.length < fuel) :
    loop (connectionStep resolve ednsMax fault breaks) fuel connection =
      (serveFrames resolve ednsMax breaks connection.answered
        (framesOf connection.incoming).1 >>= fun served =>
          .ok (connection.written ++ served.1.flatMap frameWire ++
            served.2)) := by
  induction fuel generalizing connection with
  | zero => exact absurd hfuel (Nat.not_lt_zero _)
  | succ fuel ih =>
    rw [loop, connectionStep]
    cases hsplit : splitFrame connection.incoming with
    | none =>
      rw [readFramed_of_none hsplit, framesOf_of_none hsplit]
      simp [serveFrames]
    | some split =>
      obtain ⟨hbytes, hframe⟩ := eq_frameWire_of_splitFrame hsplit
      have hframes : (framesOf connection.incoming).1 =
          split.1 :: (framesOf split.2).1 := by
        rw [hbytes, framesOf_frameWire hframe]
      rw [readFramed_of_some hsplit, hframes, serveFrames, frameResponse]
      cases Message.decode split.1 with
      | err error => simp [letOk]
      | panic => simp [letOk]
      | diverge => simp [letOk]
      | ok query =>
        simp only [ok_bind, writeFramed_eq, letOk]
        cases (answer (resolve connection.answered) query ednsMax).encode with
        | err error => simp
        | panic => simp
        | diverge => simp
        | ok payload =>
          simp only [ok_bind]
          cases breaks connection.answered with
          | some count => simp
          | none =>
            -- a frame has at least its prefix, so the fuel suffices
            have hrest : split.2.length < fuel := by
              rw [hbytes] at hfuel
              simp only [List.length_append, length_frameWire] at hfuel
              omega
            simp only [ok_bind, bind_assoc]
            rw [ih (by exact hrest)]
            simp

theorem handleTcpConnection_eq (incoming : List UInt8) :
    handleTcpConnection resolve ednsMax fault breaks incoming =
      (serveFrames resolve ednsMax breaks 0 (framesOf incoming).1 >>=
        fun served => .ok (served.1.flatMap frameWire ++ served.2)) :=
  loop_connectionStep (Nat.lt_succ_self _)

theorem frameResponse_returns (number : ℕ) {frame : List UInt8}
    (h : Message.decode frame ≠ .diverge) :
    ∃ response, frameResponse resolve ednsMax number frame = .ok response := by
  rw [frameResponse]
  cases hdecode : Message.decode frame with
  | panic => exact absurd hdecode (Message.decode_settled frame []).safe
  | diverge => exact absurd hdecode h
  | err error => exact ⟨none, rfl⟩
  | ok query =>
    obtain ⟨payload, hpayload⟩ | ⟨error, herror⟩ :=
      Message.encode_returns (answer (resolve number) query ednsMax)
    · exact ⟨some payload, by simp only [letOk, hpayload]⟩
    · exact ⟨none, by simp only [letOk, herror]⟩

theorem serveFrames_returns {number : ℕ} {frames : List (List UInt8)}
    (h : ∀ frame ∈ frames, Message.decode frame ≠ .diverge) :
    ∃ served,
      serveFrames resolve ednsMax breaks number frames = .ok served := by
  induction frames generalizing number with
  | nil => exact ⟨_, rfl⟩
  | cons frame rest ih =>
    rw [List.forall_mem_cons] at h
    obtain ⟨response, hresponse⟩ :=
      @frameResponse_returns resolve ednsMax number frame h.1
    obtain ⟨served, hserved⟩ := @ih (number + 1) h.2
    rw [serveFrames, hresponse, ok_bind]
    cases response with
    | none => exact ⟨_, rfl⟩
    | some payload =>
      cases breaks number with
      | some count => exact ⟨_, rfl⟩
      | none => exact ⟨_, congrArg (· >>= _) hserved⟩

theorem frameResponse_of_serveFrames {number : ℕ} {frames : List (List UInt8)}
    {served : List (List UInt8) × List UInt8}
    (h : serveFrames resolve ednsMax breaks number frames = .ok served) {i : ℕ}
    {payload : List UInt8} (hpayload : served.1[i]? = some payload) :
    ∃ frame, frames[i]? = some frame ∧
      frameResponse resolve ednsMax (number + i) frame =
        .ok (some payload) := by
  induction frames generalizing number served i with
  | nil =>
    cases h
    simp at hpayload
  | cons frame rest ih =>
    obtain ⟨response, hresponse, h⟩ := bind_eq_ok_iff.mp h
    split at h
    · cases h
      simp at hpayload
    · cases h
      simp at hpayload
    · obtain ⟨later, hlater, hserved⟩ := bind_eq_ok_iff.mp h
      cases hserved
      cases i with
      | zero =>
        cases hpayload
        exact ⟨frame, rfl, hresponse⟩
      | succ i =>
        obtain ⟨found, hfound, hlater⟩ := ih hlater hpayload
        rw [Nat.add_right_comm] at hlater
        exact ⟨found, hfound, hlater⟩

theorem length_lt_of_frameResponse {number : ℕ} {frame payload : List UInt8}
    (h : frameResponse resolve ednsMax number frame = .ok (some payload)) :
    payload.length < 65536 := by
  obtain ⟨query, -, h⟩ := letOk_eq_some_iff.mp h
  obtain ⟨found, hencode, hfound⟩ := letOk_eq_some_iff.mp h
  cases hfound
  exact Message.length_lt_of_encode hencode

/-- A connection is served in order and without loss: it returns unless the
decoder never does, and what it wrote, read as frames, are the responses to
the first frames it received, one for each, and what a failed write left of
one more. -/
theorem handleTcpConnection_in_order
    (resolve : ℕ → Message → Except Error Message) (ednsMax : UInt16)
    (fault : Error) (breaks : ℕ → Option ℕ) (incoming : List UInt8) :
    ((∀ frame ∈ (framesOf incoming).1, Message.decode frame ≠ .diverge) →
      ∃ output, handleTcpConnection resolve ednsMax fault breaks incoming =
        .ok output) ∧
    ∀ output, handleTcpConnection resolve ednsMax fault breaks incoming =
        .ok output →
      ∃ payloads cut,
        serveFrames resolve ednsMax breaks 0 (framesOf incoming).1 =
          .ok (payloads, cut) ∧
        framesOf output =
          (payloads ++ (framesOf cut).1, (framesOf cut).2) ∧
        ∀ i payload, payloads[i]? = some payload →
          ∃ frame, (framesOf incoming).1[i]? = some frame ∧
            frameResponse resolve ednsMax i frame = .ok (some payload) := by
  rw [handleTcpConnection_eq]
  refine ⟨fun h => ?_, fun output houtput => ?_⟩
  · obtain ⟨served, hserved⟩ := serveFrames_returns h
    exact ⟨_, by rw [hserved, ok_bind]⟩
  · obtain ⟨served, hserved, hout⟩ := bind_eq_ok_iff.mp houtput
    cases hout
    have horder := fun i payload => @frameResponse_of_serveFrames resolve
      ednsMax breaks 0 _ _ hserved i payload
    simp only [Nat.zero_add] at horder
    refine ⟨served.1, served.2, hserved, framesOf_append ?_ _, horder⟩
    intro payload hpayload
    obtain ⟨i, hi⟩ := List.getElem?_of_mem hpayload
    obtain ⟨frame, -, hresponse⟩ := horder i payload hi
    exact length_lt_of_frameResponse hresponse

end Server

end DnsLattice
