import DnsLattice.UdpResponse

/-!
# The OPT record of a response

Every transport of the server answers through one function.  It reads the OPT
record of the query, calls the resolver or answers locally, and rewrites the
additional section: one OPT record of its own for a query with an OPT record,
none for any other query, and the other records as the resolver gave them.
-/

namespace DnsLattice

/-! ## The OPT records of a message -/

namespace Message

def optRecords (message : Message) : List ResourceRecord :=
  message.additionals.filter ResourceRecord.isOpt

def plainAdditionals (message : Message) : List ResourceRecord :=
  message.additionals.filter fun record => !record.isOpt

end Message

def ResourceRecord.toEdns (record : ResourceRecord) : Except Error Edns :=
  Edns.fromRecord record ((optData record.rdata).getD [])

theorem findOpt_filter (found : Option (ResourceRecord × List UInt8))
    (records : List ResourceRecord) :
    findOpt found (records.filter ResourceRecord.isOpt) =
      findOpt found records := by
  induction records generalizing found with
  | nil => rfl
  | cons record rest ih =>
    cases hdata : optData record.rdata with
    | none =>
      rw [List.filter_cons_of_neg (by simp [ResourceRecord.isOpt, hdata]),
        ih, findOpt, hdata]
    | some data =>
      rw [List.filter_cons_of_pos (by simp [ResourceRecord.isOpt, hdata]),
        findOpt, findOpt, hdata]
      dsimp only
      rw [ih]

theorem Message.edns_eq (message : Message) :
    message.edns =
      match message.optRecords with
      | [] => .ok none
      | [record] => record.toEdns.map some
      | _ :: _ :: _ => .error .countMismatch := by
  have hopt : ∀ record ∈ message.optRecords,
      ∃ data, optData record.rdata = some data := fun record hmem =>
    Option.isSome_iff_exists.mp (List.mem_filter.mp hmem).2
  have hfind : findOpt none message.additionals =
      findOpt none message.optRecords :=
    (findOpt_filter none message.additionals).symm
  rw [Message.edns, hfind]
  rcases hrecords : message.optRecords with _ | ⟨first, _ | ⟨second, rest⟩⟩
  · rfl
  · obtain ⟨data, hdata⟩ := hopt first (by simp [hrecords])
    simp only [findOpt, hdata, Option.isSome_none, Bool.false_eq_true,
      if_false, ResourceRecord.toEdns, Option.getD_some]
    cases Edns.fromRecord first data <;> rfl
  · obtain ⟨_, hfirst⟩ := hopt first (by simp [hrecords])
    obtain ⟨_, hsecond⟩ := hopt second (by simp [hrecords])
    simp only [findOpt, hfirst, hsecond, Option.isSome_none,
      Option.isSome_some, Bool.false_eq_true, if_false, if_true]

theorem Message.edns_eq_none_iff {message : Message} :
    message.edns = .ok none ↔ message.optRecords = [] := by
  rw [message.edns_eq]
  rcases message.optRecords with _ | ⟨record, _ | ⟨second, rest⟩⟩
  · simp
  · cases hedns : record.toEdns <;> simp [hedns, Except.map]
  · simp

theorem Message.edns_eq_some_iff {message : Message} {edns : Edns} :
    message.edns = .ok (some edns) ↔
      ∃ record, message.optRecords = [record] ∧ record.toEdns = .ok edns := by
  rw [message.edns_eq]
  rcases message.optRecords with _ | ⟨record, _ | ⟨second, rest⟩⟩
  · simp
  · cases hedns : record.toEdns <;> simp [hedns, Except.map]
  · simp

theorem toEdns_toRecord (edns : Edns) : edns.toRecord.toEdns = .ok edns := by
  have hdata : optData edns.toRecord.rdata =
      some (edns.options.flatMap EdnsOption.wire) := by
    simp [Edns.toRecord, optData]
  rw [ResourceRecord.toEdns, hdata, Option.getD_some, Edns.fromRecord_toRecord]

theorem Message.optRecords_setEdns (message : Message) (edns : Option Edns) :
    (message.setEdns edns).optRecords =
      (edns.map Edns.toRecord).toList := by
  have hplain : (message.additionals.filter fun record => !record.isOpt).filter
      ResourceRecord.isOpt = [] := by
    simp [List.filter_filter]
  rw [Message.optRecords, Message.setEdns, List.filter_append, hplain,
    List.nil_append]
  cases edns with
  | none => rfl
  | some edns => simp [isOpt_toRecord]

theorem Message.plainAdditionals_setEdns (message : Message)
    (edns : Option Edns) :
    (message.setEdns edns).plainAdditionals = message.plainAdditionals := by
  rw [Message.plainAdditionals, Message.setEdns, List.filter_append,
    List.filter_filter]
  simp only [Bool.and_self]
  cases edns with
  | none => exact List.append_nil _
  | some edns => simp [isOpt_toRecord, Message.plainAdditionals]

/-! ## Calls of the resolver -/

/-- The resolver is asked for a query without OPT record, and for a query with
a single well-formed one of version 0. -/
def ConsultsResolver (query : Message) : Prop :=
  query.optRecords = [] ∨
    ∃ record edns, query.optRecords = [record] ∧
      record.toEdns = .ok edns ∧ edns.version = 0

theorem consultsResolver_iff {query : Message} :
    ConsultsResolver query ↔
      query.edns = .ok none ∨
        ∃ edns, query.edns = .ok (some edns) ∧ edns.version = 0 := by
  simp only [ConsultsResolver, Message.edns_eq_none_iff,
    Message.edns_eq_some_iff]
  constructor
  · rintro (hnone | ⟨record, edns, hrecords, hedns, hversion⟩)
    · exact .inl hnone
    · exact .inr ⟨edns, ⟨record, hrecords, hedns⟩, hversion⟩
  · rintro (hnone | ⟨edns, ⟨record, hrecords, hedns⟩, hversion⟩)
    · exact .inl hnone
    · exact .inr ⟨record, edns, hrecords, hedns, hversion⟩

/-- `answer` with the call of the resolver as an effect. -/
def answerWith {m : Type → Type} [Monad m]
    (resolve : Message → m (Except Error Message)) (query : Message)
    (ednsMax : UInt16) : m Message :=
  match query.edns with
  | .error _ =>
      return (localResponse query .formErr).setEdns (some (Edns.new ednsMax))
  | .ok none => do
      let result ← resolve query
      return (resolvedResponse (fun _ => result) query).setEdns none
  | .ok (some queryEdns) =>
      if queryEdns.version > 0 then
        return (localResponse query .noError).setEdns
          (some { Edns.new ednsMax with
            extendedRcode := badversExtendedRcode
            dnssecOk := queryEdns.dnssecOk })
      else do
        let result ← resolve query
        let response := resolvedResponse (fun _ => result) query
        return response.setEdns (some (responseEdns response ednsMax queryEdns))

def logged (resolve : Message → Except Error Message) (query : Message) :
    StateM (List Message) (Except Error Message) :=
  fun asked => (resolve query, asked ++ [query])

inductive Answered (resolve : Message → Except Error Message)
    (query : Message) (ednsMax : UInt16) : Message × List Message → Prop
  | locally {rcode : Rcode} {edns : Edns}
      (hconsults : ¬ConsultsResolver query) (hopt : query.optRecords ≠ [])
      (hversion : edns.version = 0) (hsize : edns.udpPayloadSize = ednsMax) :
      Answered resolve query ednsMax
        ((localResponse query rcode).setEdns (some edns), [])
  | plainly (hopt : query.optRecords = []) :
      Answered resolve query ednsMax
        ((resolvedResponse resolve query).setEdns none, [query])
  | extended {edns : Edns}
      (hconsults : ConsultsResolver query) (hopt : query.optRecords ≠ [])
      (hversion : edns.version = 0) (hsize : edns.udpPayloadSize = ednsMax) :
      Answered resolve query ednsMax
        ((resolvedResponse resolve query).setEdns (some edns), [query])

theorem answerWith_logged (resolve : Message → Except Error Message)
    (query : Message) (ednsMax : UInt16) :
    Answered resolve query ednsMax
      (answerWith (logged resolve) query ednsMax []) := by
  unfold answerWith
  cases hedns : query.edns with
  | error error =>
    refine .locally ?_ ?_ rfl rfl
    · simp [consultsResolver_iff, hedns]
    · simp [← Message.edns_eq_none_iff, hedns]
  | ok queryEdns =>
    cases queryEdns with
    | none => exact .plainly (Message.edns_eq_none_iff.mp hedns)
    | some queryEdns =>
      have hopt : query.optRecords ≠ [] := by
        simp [← Message.edns_eq_none_iff, hedns]
      by_cases hversion : queryEdns.version > 0
      · have hlocal : ¬ConsultsResolver query := by
          rw [consultsResolver_iff, hedns]
          rintro (hnone | ⟨edns, hsome, hzero⟩)
          · cases hnone
          · obtain rfl := Option.some.inj (Except.ok.inj hsome)
            rw [hzero] at hversion
            exact absurd hversion (by decide)
        dsimp only
        rw [if_pos hversion]
        exact .locally hlocal hopt rfl rfl
      · have hzero : queryEdns.version = 0 := by
          rw [← UInt8.toNat_inj]
          exact Nat.eq_zero_of_not_pos hversion
        dsimp only
        rw [if_neg hversion]
        exact .extended (consultsResolver_iff.mpr
          (.inr ⟨queryEdns, hedns, hzero⟩)) hopt rfl rfl

/-- The effect changes nothing: the pure function is what is returned. -/
theorem answerWith_logged_fst (resolve : Message → Except Error Message)
    (query : Message) (ednsMax : UInt16) :
    (answerWith (logged resolve) query ednsMax []).1 =
      answer resolve query ednsMax := by
  unfold answerWith answer
  cases query.edns with
  | error error => rfl
  | ok queryEdns =>
    cases queryEdns with
    | none => rfl
    | some queryEdns =>
      dsimp only
      split_ifs
      · rfl
      · rfl

/-- The records the resolver gave for the additional section of a response,
none if the response is made up locally. -/
def resolverAdditionals (result : Except Error Message) :
    List ResourceRecord :=
  match result with
  | .ok message => message.plainAdditionals
  | .error _ => []

theorem plainAdditionals_resolvedResponse
    (resolve : Message → Except Error Message) (query : Message) :
    (resolvedResponse resolve query).plainAdditionals =
      resolverAdditionals (resolve query) := by
  rw [resolvedResponse]
  cases resolve query with
  | ok message => rfl
  | error error => rfl

/-- The additional section of a response: exactly one OPT record if the query
has any, which is well formed, of version 0 and with the server's payload
size, and otherwise the resolver's records.  The resolver is asked once, for
exactly the queries which it is for. -/
theorem answer_additionals (resolve : Message → Except Error Message)
    (query : Message) (ednsMax : UInt16) :
    let message := answer resolve query ednsMax
    (query.optRecords = [] → message.optRecords = []) ∧
      (query.optRecords ≠ [] →
        ∃ record edns, message.optRecords = [record] ∧
          record.toEdns = .ok edns ∧ edns.version = 0 ∧
          edns.udpPayloadSize = ednsMax) ∧
      (ConsultsResolver query →
        message.plainAdditionals = resolverAdditionals (resolve query) ∧
          answerWith (logged resolve) query ednsMax [] = (message, [query])) ∧
      (¬ConsultsResolver query →
        message.plainAdditionals = [] ∧
          answerWith (logged resolve) query ednsMax [] = (message, [])) := by
  intro message
  have hanswered := answerWith_logged resolve query ednsMax
  have hmessage : message = (answerWith (logged resolve) query ednsMax []).1 :=
    (answerWith_logged_fst resolve query ednsMax).symm
  clear_value message
  subst hmessage
  generalize answerWith (logged resolve) query ednsMax [] = result at hanswered
  cases hanswered with
  | locally hconsults hopt hversion hsize =>
      refine ⟨fun hnone => absurd hnone hopt, fun _ => ?_,
        fun h => absurd h hconsults, fun _ => ⟨?_, rfl⟩⟩
      · exact ⟨_, _, Message.optRecords_setEdns _ _, toEdns_toRecord _,
          hversion, hsize⟩
      · exact Message.plainAdditionals_setEdns _ _
  | plainly hopt =>
      refine ⟨fun _ => Message.optRecords_setEdns _ _,
        fun hsome => absurd hopt hsome, fun _ => ⟨?_, rfl⟩,
        fun h => absurd (.inl hopt) h⟩
      exact (Message.plainAdditionals_setEdns _ _).trans
        (plainAdditionals_resolvedResponse resolve query)
  | extended hconsults hopt hversion hsize =>
      refine ⟨fun hnone => absurd hnone hopt, fun _ => ?_,
        fun _ => ⟨?_, rfl⟩, fun h => absurd hconsults h⟩
      · exact ⟨_, _, Message.optRecords_setEdns _ _, toEdns_toRecord _,
          hversion, hsize⟩
      · exact (Message.plainAdditionals_setEdns _ _).trans
          (plainAdditionals_resolvedResponse resolve query)

end DnsLattice
