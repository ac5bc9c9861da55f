import DnsLattice.ResponseValidation
import DnsLattice.TcpConnections
import DnsLattice.UdpDelivery

/-!
# The UDP backend

A socket delivers what anyone sends to it, and the backend keeps receiving
until an answer to its query arrives.  Datagrams which are no such answer never
change what it returns.  Its own EDNS advertisement stays hidden from the
client, and a truncated answer is fetched again over TCP.
-/

namespace DnsLattice

open Run

/-- What successive receives give before the deadline. -/
abbrev Inbox := List (Except Error (List UInt8))

/-- What the backend meets on the way to its server: how its system calls end,
what reaches the socket after a payload was sent, and what is written to a TCP
connection which carries these bytes. -/
structure Upstream where
  socket : Except Error Unit
  send : List UInt8 → Except Error Unit
  inbox : List UInt8 → Inbox
  connect : Except Error Unit
  write : Except Error Unit
  stream : List UInt8 → List UInt8
  fault : Error

structure UdpBackend where
  ednsUdpPayloadSize : Option UInt16

def UdpBackend.withEdnsUdpPayloadSize (size : UInt16) : UdpBackend :=
  ⟨some (max size 512)⟩

/-- The response in a datagram, if it answers the query which was sent. -/
def acceptDatagram (sent : Message) (datagram : List UInt8) :
    Run Error (Option Message) :=
  letOk (Message.decode datagram) fun response =>
    match validateResponse sent response .matching with
    | .ok () => .ok (some response)
    | .error _ => .ok none

/-- The loop of `udp_exchange`. -/
def udpReceive (sent : Message) : Inbox → Run Error (Message × Inbox)
  | [] => .err .timeout
  | .error error :: _ => .err error
  | .ok datagram :: rest =>
      acceptDatagram sent datagram >>= fun accepted =>
        match accepted with
        | some response => .ok (response, rest)
        | none => udpReceive sent rest

/-- `udp_exchange`, on a socket which still holds `unread`. -/
def udpExchange (upstream : Upstream) (sent : Message) (unread : Inbox) :
    Run Error (Message × Inbox) := do
  let payload ← sent.encode
  Run.ofExcept (upstream.send payload)
  udpReceive sent (unread ++ upstream.inbox payload)

def rejectsEdns (response : Message) : Bool :=
  (response.header.rcode == .formErr || response.header.rcode == .notImp) &&
    match response.edns with
    | .ok none => true
    | _ => false

def framedQuery (upstream : Upstream) (query : Message) (idCheck : IdCheck) :
    Run Error Message := do
  let framed ← writeFramed query
  Run.ofExcept upstream.write
  let (response, _) ← readFramed upstream.fault (upstream.stream framed)
  Run.ofExcept (validateResponse query response idCheck)
  return response

def tcpQuery (upstream : Upstream) (query : Message) : Run Error Message := do
  Run.ofExcept upstream.connect
  framedQuery upstream query .matching

namespace UdpBackend

variable (backend : UdpBackend) (upstream : Upstream) (query : Message)

/-- The copy of the query with the backend's own OPT record. -/
def withOpt : Option Message :=
  match backend.ednsUdpPayloadSize, query.edns with
  | some size, .ok none => some (query.setEdns (some (Edns.new size)))
  | _, _ => none

/-- The answer to the copy, as the client sees it. -/
def stripOpt (answer : Message) : Run Error Message :=
  match answer.edns with
  | .ok (some edns) =>
      if edns.extendedRcode ≠ 0 ∧ answer.header.truncated = false then
        .err (.transport ("upstream answered with extended RCODE " ++
          s!"{edns.extendedRcode} that a query without EDNS cannot carry"))
      else .ok (answer.setEdns none)
  | _ => .ok (answer.setEdns none)

def udpAnswer : Run Error Message :=
  match backend.withOpt query with
  | some sent => do
      let (first, unread) ← udpExchange upstream sent []
      if rejectsEdns first then
        let (second, _) ← udpExchange upstream query unread
        return second
      else stripOpt first
  | none => do
      let (response, _) ← udpExchange upstream query []
      return response

def resolve : Run Error Message := do
  Run.ofExcept upstream.socket
  let response ← backend.udpAnswer upstream query
  if response.header.truncated then tcpQuery upstream query
  else return response

end UdpBackend

/-! ## Noise -/

/-- Datagrams which are no answer to the query. -/
def isNoise (query : Message) : Except Error (List UInt8) → Bool
  | .ok datagram =>
      match acceptDatagram query datagram with
      | .ok none => true
      | _ => false
  | .error _ => false

/-- The part of an inbox which is no noise. -/
def audible (query : Message) (inbox : Inbox) : Inbox :=
  inbox.filter fun item => !isNoise query item

/-- The same upstream without noise. -/
def Upstream.quiet (upstream : Upstream) (query : Message) : Upstream :=
  { upstream with
    inbox := fun payload => audible query (upstream.inbox payload) }

theorem isNoise_ok_iff {query : Message} {datagram : List UInt8} :
    isNoise query (.ok datagram) = true ↔
      acceptDatagram query datagram = .ok none := by
  rw [isNoise]
  split
  · next h => simp [h]
  · next h => simpa using h

theorem udpReceive_noise {query : Message} {noise : Inbox}
    (h : ∀ item ∈ noise, isNoise query item = true) (rest : Inbox) :
    udpReceive query (noise ++ rest) = udpReceive query rest := by
  induction noise with
  | nil => rfl
  | cons item noise ih =>
    rw [List.forall_mem_cons] at h
    cases item with
    | error error => cases h.1
    | ok datagram =>
      rw [List.cons_append, udpReceive, isNoise_ok_iff.mp h.1]
      exact ih h.2

namespace UdpBackend

variable {backend : UdpBackend} {upstream : Upstream} {query : Message}

theorem withOpt_eq_some {sent : Message}
    (h : backend.withOpt query = some sent) :
    query.edns = .ok none ∧
      ∃ size, sent = query.setEdns (some (Edns.new size)) := by
  rw [withOpt] at h
  split at h
  · next size hsize hedns => exact ⟨hedns, size, (Option.some.inj h).symm⟩
  · cases h

end UdpBackend

/-! ## What is returned -/

theorem acceptDatagram_eq_some_iff {sent response : Message}
    {datagram : List UInt8} :
    acceptDatagram sent datagram = .ok (some response) ↔
      Message.decode datagram = .ok response ∧
        validateResponse sent response .matching = .ok () := by
  rw [acceptDatagram, letOk_eq_some_iff]
  constructor
  · rintro ⟨found, hdecode, hvalid⟩
    split at hvalid
    · next h =>
      cases hvalid
      exact ⟨hdecode, h⟩
    · cases hvalid
  · rintro ⟨hdecode, hvalid⟩
    exact ⟨response, hdecode, by rw [hvalid]⟩

namespace UdpBackend

variable {backend : UdpBackend} {upstream : Upstream} {query : Message}

/-- An upstream which is the server, behind one datagram of noise. -/
def loopback (resolve : Message → Except Error Message) (ednsMax : UInt16) :
    Upstream where
  socket := .ok ()
  send _ := .ok ()
  inbox payload :=
    match handleUdpDatagram resolve payload ednsMax with
    | .ok (some reply) => [.ok [], .ok reply]
    | _ => []
  connect := .ok ()
  write := .ok ()
  stream bytes :=
    match handleTcpConnection (fun _ => resolve) ednsMax .timeout
      (fun _ => none) bytes with
    | .ok written => written
    | _ => []
  fault := .timeout

end UdpBackend

end DnsLattice
