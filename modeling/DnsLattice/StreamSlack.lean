import DnsLattice.StreamRuns

/-!
# The allowance for unsolicited frames

A connection tolerates a number of frames which match nothing.  Each cancelled
query adds one to the allowance, up to a cap, since its answer may arrive after
its tombstone has gone.  An upstream which answers each query at most once
stays within the allowance as long as no more cancelled queries than the cap
await their answers.
-/

namespace DnsLattice

namespace StreamConn

/-! ## An honest upstream -/

def Event.frameId : Event → Option UInt16
  | .matched id _ _ => some id
  | .stray id => some id
  | _ => none

def Event.assignee (id : UInt16) : Event → Option ℕ
  | .assigned other query => if other = id then some query else none
  | _ => none

/-- The ids of the frames which have arrived. -/
def received (log : List Event) : List UInt16 := log.filterMap Event.frameId

def assignees (log : List Event) (id : UInt16) : List ℕ :=
  log.filterMap (Event.assignee id)

/-- Each frame answers a query sent before under its id, and no query is
answered twice.  `answered` are the ids and queries answered by the frames. -/
def honest : List Event → List (UInt16 × ℕ) → Bool
  | [], answered => answered.isEmpty
  | event :: earlier, answered =>
      match event.frameId, answered with
      | none, _ => honest earlier answered
      | some _, [] => false
      | some id, (found, query) :: rest =>
          decide (found = id ∧ .assigned id query ∈ earlier ∧
            query ∉ rest.map Prod.snd) && honest earlier rest

section Honest

variable {log : List Event} {answered : List (UInt16 × ℕ)} {event : Event}
  {id : UInt16} {query : ℕ}

theorem mem_assignees : query ∈ assignees log id ↔ .assigned id query ∈ log := by
  rw [assignees, List.mem_filterMap]
  constructor
  · rintro ⟨event, hevent, hquery⟩
    cases event with
    | assigned other found =>
      rw [Event.assignee] at hquery
      split_ifs at hquery with hsame
      obtain rfl := Option.some.inj hquery
      rw [← hsame]
      exact hevent
    | cancelled found => cases hquery
    | matched other frame found => cases hquery
    | stray other => cases hquery
    | delivered frame found => cases hquery
    | orphaned other owner guard => cases hquery
    | closed cause => cases hquery
  · intro hevent
    exact ⟨_, hevent, if_pos rfl⟩

theorem honest_cons_of_none (hevent : event.frameId = none) :
    honest (event :: log) answered = honest log answered := by
  rw [honest]
  simp only [hevent]

theorem honest_cons_of_some (hevent : event.frameId = some id) :
    honest (event :: log) answered = true ↔
      ∃ query rest, answered = (id, query) :: rest ∧
        .assigned id query ∈ log ∧ query ∉ rest.map Prod.snd ∧
        honest log rest = true := by
  cases answered with
  | nil => simp [honest, hevent]
  | cons pair rest =>
    obtain ⟨found, query⟩ := pair
    have hcons : honest (event :: log) ((found, query) :: rest) =
        (decide (found = id ∧ .assigned id query ∈ log ∧
          query ∉ rest.map Prod.snd) && honest log rest) := by
      simp only [honest, hevent]
    rw [hcons, Bool.and_eq_true, decide_eq_true_iff]
    simp only [List.cons.injEq, Prod.mk.injEq]
    constructor
    · rintro ⟨⟨rfl, hassigned, hfresh⟩, hrest⟩
      exact ⟨query, rest, ⟨⟨rfl, rfl⟩, rfl⟩, hassigned, hfresh, hrest⟩
    · rintro ⟨_, _, ⟨⟨rfl, rfl⟩, rfl⟩, hassigned, hfresh, hrest⟩
      exact ⟨⟨rfl, hassigned, hfresh⟩, hrest⟩

theorem exists_honest_of_cons (h : honest (event :: log) answered = true) :
    ∃ answered', honest log answered' = true := by
  cases hevent : event.frameId with
  | none =>
    rw [honest_cons_of_none hevent] at h
    exact ⟨answered, h⟩
  | some id =>
    obtain ⟨query, rest, _, _, _, hrest⟩ := (honest_cons_of_some hevent).mp h
    exact ⟨rest, hrest⟩

theorem exists_honest_of_suffix {earlier : List Event}
    (hsuffix : earlier <:+ log) (h : honest log answered = true) :
    ∃ answered', honest earlier answered' = true := by
  induction log generalizing answered with
  | nil =>
    rw [List.suffix_nil.mp hsuffix]
    exact ⟨answered, h⟩
  | cons event rest ih =>
    rcases List.suffix_cons_iff.mp hsuffix with rfl | hrest
    · exact ⟨answered, h⟩
    · obtain ⟨answered', h'⟩ := exists_honest_of_cons h
      exact ih hrest h'

theorem honest_answered (h : honest log answered = true) :
    (answered.map Prod.snd).Nodup ∧
      (∀ pair ∈ answered, .assigned pair.1 pair.2 ∈ log) ∧
      answered.map Prod.fst = received log := by
  induction log generalizing answered with
  | nil =>
    obtain rfl := List.isEmpty_iff.mp h
    exact ⟨List.nodup_nil, by simp, rfl⟩
  | cons event earlier ih =>
    cases hevent : event.frameId with
    | none =>
      rw [honest_cons_of_none hevent] at h
      obtain ⟨hnodup, hassigned, hreceived⟩ := ih h
      refine ⟨hnodup, fun pair hpair =>
        List.mem_cons_of_mem _ (hassigned pair hpair), ?_⟩
      rw [hreceived, received, received, List.filterMap_cons_none hevent]
    | some id =>
      obtain ⟨query, rest, rfl, hquery, hfresh, hrest⟩ :=
        (honest_cons_of_some hevent).mp h
      obtain ⟨hnodup, hassigned, hreceived⟩ := ih hrest
      refine ⟨List.nodup_cons.mpr ⟨hfresh, hnodup⟩, ?_, ?_⟩
      · intro pair hpair
        rcases List.mem_cons.mp hpair with rfl | hold
        · exact List.mem_cons_of_mem _ hquery
        · exact List.mem_cons_of_mem _ (hassigned pair hold)
      · rw [List.map_cons, hreceived, received, received,
          List.filterMap_cons_some hevent]

/-- No more frames arrive under an id than queries were sent under it. -/
theorem count_received_le (h : honest log answered = true) (id : UInt16) :
    (received log).count id ≤ (assignees log id).length := by
  obtain ⟨hnodup, hassigned, hreceived⟩ := honest_answered h
  let mine := answered.filter fun pair => decide (pair.1 = id)
  have hcount : (received log).count id = mine.length := by
    rw [← hreceived, List.count, List.countP_map, List.countP_eq_length_filter]
    refine congrArg List.length (List.filter_congr fun pair _ => ?_)
    exact beq_eq_decide _ _
  have hmine : (mine.map Prod.snd).Nodup :=
    hnodup.sublist (List.filter_sublist.map _)
  have hsubset : mine.map Prod.snd ⊆ assignees log id := by
    intro query hquery
    obtain ⟨pair, hpair, rfl⟩ := List.mem_map.mp hquery
    obtain ⟨hold, hid⟩ := List.mem_filter.mp hpair
    rw [mem_assignees, ← of_decide_eq_true hid]
    exact hassigned pair hold
  have hlength := (hmine.subperm hsubset).length_le
  rw [List.length_map] at hlength
  omega

end Honest

/-! ## Late answers -/

/-- The ids of the cancelled queries whose answers have not arrived. -/
def late : List Event → List UInt16
  | [] => []
  | .orphaned id _ _ :: earlier => id :: late earlier
  | .stray id :: earlier => (late earlier).erase id
  | _ :: earlier => late earlier

theorem late_balance {log : List Event} {answered : List (UInt16 × ℕ)}
    (hsound : Sound log) (hhonest : honest log answered = true)
    (hopen : ∀ cause, .closed cause ∉ log) (id : UInt16) :
    (late log).count id + (received log).count id +
        (pendingIn log id).toList.length = (assignees log id).length := by
  induction log generalizing answered with
  | nil => rfl
  | cons event earlier ih =>
    obtain ⟨answered', hearlier⟩ := exists_honest_of_cons hhonest
    have hbalance := ih hsound.2 hearlier fun cause hcause =>
      hopen cause (List.mem_cons_of_mem _ hcause)
    have hreceived := count_received_le hhonest id
    have hjustified := hsound.1
    cases event with
    | assigned other query =>
      have hfree := hjustified.2
      simp only [late, received, assignees, pendingIn, List.filterMap_cons,
        Event.frameId, Event.assignee] at hbalance ⊢
      by_cases hsame : other = id
      · rw [hsame] at hfree
        rw [hfree] at hbalance
        simp only [hsame, if_pos, List.length_cons, Option.toList_some]
        simp only [Option.toList_none, List.length_nil] at hbalance
        simp only [List.length_nil]
        omega
      · rw [if_neg hsame, if_neg (Ne.symm hsame)]
        exact hbalance
    | matched other frame query =>
      have hpending := hjustified.2
      simp only [late, received, assignees, pendingIn, List.filterMap_cons,
        Event.frameId, Event.assignee, List.count_cons, beq_iff_eq]
        at hbalance ⊢
      by_cases hsame : other = id
      · rw [hsame] at hpending
        rw [hpending] at hbalance
        simp only [hsame, if_pos, Option.toList_none, Option.toList_some,
          List.length_cons, List.length_nil] at hbalance ⊢
        omega
      · rw [if_neg hsame, if_neg (Ne.symm hsame)]
        exact hbalance
    | stray other =>
      have hfree : pendingIn earlier other = none := hjustified
      simp only [late, received, assignees, pendingIn, List.filterMap_cons,
        Event.frameId, Event.assignee, List.count_cons, beq_iff_eq]
        at hbalance hreceived ⊢
      by_cases hsame : other = id
      · rw [hsame] at hfree
        rw [hfree] at hbalance ⊢
        simp only [hsame, if_pos, Option.toList_none, List.length_nil,
          List.count_erase_self] at hbalance hreceived ⊢
        omega
      · rw [if_neg hsame, List.count_erase_of_ne (Ne.symm hsame)]
        exact hbalance
    | orphaned other owner guard =>
      have hpending := hjustified.2
      simp only [late, received, assignees, pendingIn, List.filterMap_cons,
        Event.frameId, Event.assignee, List.count_cons, beq_iff_eq]
        at hbalance ⊢
      by_cases hsame : other = id
      · rw [hsame] at hpending
        rw [hpending] at hbalance
        simp only [hsame, if_pos, Option.toList_none, Option.toList_some,
          List.length_cons, List.length_nil] at hbalance ⊢
        omega
      · rw [if_neg hsame, if_neg (Ne.symm hsame)]
        exact hbalance
    | closed cause => exact absurd (List.mem_cons_self ..) (hopen cause)
    | cancelled query => exact hbalance
    | delivered frame query => exact hbalance

/-! ## The allowance in a run -/

theorem fail_log (conn : Conn) (cause : Cause) :
    conn.log <:+ (conn.fail cause).log := by
  rw [Conn.fail]
  split_ifs
  · exact List.suffix_rfl
  · exact List.suffix_cons _ _

theorem Step.log_suffix {instantMax : ℕ} {conn after : Conn}
    (hstep : Step instantMax conn after) : conn.log <:+ after.log := by
  cases hstep with
  | tick hle => exact List.suffix_rfl
  | draw => exact List.suffix_rfl
  | @submit query outcome state queued hphase hsubmit =>
    cases outcome with
    | accepted id => exact List.suffix_cons _ _
    | refused failure => exact List.suffix_rfl
    | broken => exact List.suffix_rfl
  | breakOff hphase => exact fail_log conn _
  | dispatch frame hreader =>
    rw [Conn.dispatch]
    split
    · exact List.suffix_rfl
    · split
      · exact List.suffix_cons _ _
      · exact List.suffix_cons _ _
      · exact List.suffix_cons _ _
      · exact List.suffix_cons _ _
  | decoded hreader hdecode =>
    split_ifs
    · exact List.suffix_cons _ _
    · exact List.suffix_rfl
  | garbled hreader hdecode => exact List.suffix_rfl
  | readerFails hreader => exact fail_log conn _
  | lose failure => exact fail_log conn _
  | notify howed => exact List.suffix_rfl
  | read hphase hinbox => exact List.suffix_rfl
  | abandon hphase => exact List.suffix_cons _ _
  | dropGuard hphase =>
    rw [Conn.dropGuard]
    split
    · exact List.suffix_cons _ _
    · exact List.suffix_rfl

theorem guardLocked_slackCap (instantMax : ℕ) (id : UInt16) (serial now : ℕ)
    (state : ConnState) :
    (guardLocked instantMax id serial now state).2.slackCap =
      state.slackCap := by
  rw [guardLocked]
  split
  · rfl
  · rfl

structure Calm (conn : Conn) : Prop where
  slack : conn.state.closed = false →
    (late conn.log).length ≤ conn.state.slack
  reader : conn.reader = .failing .unsolicited → conn.state.closed = true
  log : .closed .unsolicited ∉ conn.log
  cap_le : conn.state.slackCap ≤ 2 ^ 32 - 1

section Calm

variable {conn : Conn} {query : ℕ} {id : UInt16}
  {answered : List (UInt16 × ℕ)}

theorem Calm.fail (h : Calm conn) {cause : Cause}
    (hcause : cause = .unsolicited → conn.state.closed = true) :
    Calm (conn.fail cause) := by
  rw [Conn.fail]
  split_ifs with hclosed
  · exact h
  rw [failLocked, if_neg hclosed]
  refine ⟨by simp, fun _ => rfl, ?_, h.cap_le⟩
  intro hlog
  rcases List.mem_cons.mp hlog with heq | hold
  · exact hclosed (hcause (Event.closed.inj heq).symm)
  · exact h.log hold

theorem Calm.setPhase (h : Calm conn) (query : ℕ) (phase : QueryPhase) :
    Calm (conn.setPhase query phase) :=
  { h with }

theorem Calm.record (h : Calm conn) {event : Event}
    (hlate : late (event :: conn.log) = late conn.log)
    (hevent : .closed .unsolicited ≠ event) :
    Calm { conn with log := event :: conn.log } where
  slack hopen := by
    change (late (event :: conn.log)).length ≤ _
    rw [hlate]
    exact h.slack hopen
  reader := h.reader
  log hlog := by
    rcases List.mem_cons.mp hlog with heq | hold
    · exact hevent heq
    · exact h.log hold
  cap_le := h.cap_le

theorem mem_late_of_stray (hinv : conn.Inv) (hopen : conn.state.closed = false)
    (hpending : conn.state.table.pendingAt id = none)
    (hhonest : honest (.stray id :: conn.log) answered = true) :
    id ∈ late conn.log := by
  have hended : ∀ cause, .closed cause ∉ conn.log := by
    intro cause hcause
    rw [hinv.ended cause hcause] at hopen
    cases hopen
  have hfree : pendingIn conn.log id = none := by
    rw [hinv.pending, Conn.waits, ConnState.waits, hpending]
    rfl
  obtain ⟨answered', hearlier⟩ := exists_honest_of_cons hhonest
  have hbalance := late_balance hinv.sound hearlier hended id
  have hreceived := count_received_le hhonest id
  simp only [received, assignees, List.filterMap_cons, Event.frameId,
    Event.assignee, List.count_cons_self] at hreceived hbalance
  rw [hfree] at hbalance
  simp only [Option.toList_none, List.length_nil] at hbalance
  refine List.count_pos_iff.mp ?_
  omega

theorem Calm.dispatch (h : Calm conn) (hinv : conn.Inv) {frame : List UInt8}
    (hhonest : honest (conn.dispatch frame).log answered = true) :
    Calm (conn.dispatch frame) := by
  rw [Conn.dispatch] at hhonest ⊢
  cases hid : wireId frame with
  | none => exact ⟨h.slack, by simp, h.log, h.cap_le⟩
  | some id =>
    rw [hid] at hhonest
    simp only at hhonest ⊢
    cases hpending : conn.state.table.pendingAt id with
    | some waiter =>
      rw [dispatchLocked_pending hpending]
      refine ⟨fun hopen => ?_, by simp, ?_, h.cap_le⟩
      · exact (h.slack hopen).trans (le_max_left _ _)
      · intro hlog
        exact h.log ((List.mem_cons.mp hlog).resolve_left (by simp))
    | none =>
      have hstray := dispatchLocked_stray hpending
      have hlog : .closed .unsolicited ∉ Event.stray id :: conn.log :=
        fun hlog => h.log ((List.mem_cons.mp hlog).resolve_left (by simp))
      generalize dispatchLocked id conn.state = outcome at hstray hhonest
      have hmem : conn.state.closed = false → id ∈ late conn.log := by
        intro hopen
        refine @mem_late_of_stray conn id answered hinv hopen hpending ?_
        cases hstray with
        | orphaned => exact hhonest
        | unknown hslack => exact hhonest
        | flooded hslack => exact hhonest
      have hlength : conn.state.closed = false →
          (late (.stray id :: conn.log)).length + 1 ≤ conn.state.slack := by
        intro hopen
        have hpos := List.length_pos_of_mem (hmem hopen)
        have hslack := h.slack hopen
        rw [late, List.length_erase_of_mem (hmem hopen)]
        omega
      cases hstray with
      | orphaned =>
        exact ⟨fun hopen => Nat.le_of_succ_le (hlength hopen), h.reader,
          hlog, h.cap_le⟩
      | unknown hslack =>
        exact ⟨fun hopen => Nat.le_sub_one_of_lt (hlength hopen),
          h.reader, hlog, h.cap_le⟩
      | flooded hslack =>
        -- An open connection has an allowance left for this frame.
        have hclosed : conn.state.closed = true := by
          by_contra hne
          have hle := hlength (Bool.eq_false_of_not_eq_true hne)
          omega
        refine ⟨fun hopen => ?_, fun _ => hclosed, hlog, h.cap_le⟩
        exact absurd (hclosed.symm.trans hopen) (by simp)

theorem Calm.dropGuard (h : Calm conn) (instantMax : ℕ)
    (hlate : (late (conn.dropGuard instantMax query id).log).length ≤
      conn.state.slackCap) : Calm (conn.dropGuard instantMax query id) := by
  rw [Conn.dropGuard] at hlate ⊢
  by_cases hown : ∃ waiter, conn.state.table.pendingAt id = some waiter ∧
      waiter.serial = (conn.queries query).serial
  · obtain ⟨waiter, hpending, hserial⟩ := hown
    rw [guardLocked_own hpending hserial] at hlate ⊢
    refine ⟨fun hopen => ?_, h.reader, ?_, h.cap_le⟩
    · have hslack := h.slack hopen
      have hcap := h.cap_le
      change (late conn.log).length + 1 ≤ _ at hlate
      change (late conn.log).length + 1 ≤
        min (min (conn.state.slack + 1) (2 ^ 32 - 1)) conn.state.slackCap
      omega
    · intro hlog
      exact h.log ((List.mem_cons.mp hlog).resolve_left (by simp))
  · rw [guardLocked_other fun waiter hpending hserial =>
      hown ⟨waiter, hpending, hserial⟩]
    exact { h with }

theorem Step.calm {instantMax : ℕ} {after : Conn}
    (hstep : Step instantMax conn after) (h : Calm conn) (hinv : conn.Inv)
    (hhonest : honest after.log answered = true)
    (hlate : (late after.log).length ≤ conn.state.slackCap) :
    Calm after ∧ after.state.slackCap = conn.state.slackCap := by
  have hfailed : ∀ cause,
      (conn.fail cause).state.slackCap = conn.state.slackCap := by
    intro cause
    rw [Conn.fail, failLocked]
    split_ifs
    · rfl
    · rfl
  cases hstep with
  | tick hle => exact ⟨{ h with }, rfl⟩
  | draw => exact ⟨{ h with }, rfl⟩
  | @submit query outcome state queued hphase hsubmit =>
    obtain ⟨outcome', state', hresult, hsubmitted⟩ := submitLocked_spec
      hinv.table conn.clock ⟨(conn.queries query).serial, query⟩ queued
    rw [hsubmit] at hresult
    obtain ⟨rfl, rfl⟩ := Prod.mk.inj (Run.ok.inj hresult)
    cases hsubmitted with
    | closed hclosed => exact ⟨{ h with }, rfl⟩
    | full hopen hregistered => exact ⟨{ h with }, rfl⟩
    | @accepted id table hopen hregistered =>
      have hrecord : Calm { conn with
          log := .assigned id query :: conn.log } := h.record rfl (by simp)
      exact ⟨{ hrecord with }, rfl⟩
    | broken hopen hregistered => exact ⟨{ h with }, rfl⟩
  | breakOff hphase =>
    have hbroken : Calm (conn.fail .unwritable) := h.fail (by simp)
    exact ⟨hbroken.setPhase _ _, hfailed _⟩
  | dispatch frame hreader =>
    refine ⟨h.dispatch hinv hhonest, ?_⟩
    rw [Conn.dispatch]
    cases wireId frame with
    | none => rfl
    | some id =>
      simp only
      cases hpending : conn.state.table.pendingAt id with
      | some waiter => rw [dispatchLocked_pending hpending]
      | none =>
        have hstray := dispatchLocked_stray hpending
        generalize dispatchLocked id conn.state = outcome at hstray
        cases hstray with
        | orphaned => rfl
        | unknown hslack => rfl
        | flooded hslack => rfl
  | @decoded waiter frame message hreader hdecode =>
    refine ⟨?_, rfl⟩
    split_ifs
    · have hrecord : Calm { conn with
          log := .delivered frame waiter.tx :: conn.log } :=
        h.record rfl (by simp)
      exact { hrecord with reader := by simp }
    · exact { h with reader := by simp }
  | garbled hreader hdecode => exact ⟨{ h with reader := by simp }, rfl⟩
  | @readerFails cause hreader =>
    refine ⟨{ h.fail ?_ with reader := by simp }, hfailed _⟩
    rintro rfl
    exact h.reader hreader
  | lose failure => exact ⟨h.fail (by simp), hfailed _⟩
  | notify howed => exact ⟨{ h with }, rfl⟩
  | read hphase hinbox => exact ⟨h.setPhase _ _, rfl⟩
  | @abandon query id hphase =>
    have hset := h.setPhase query (.abandoned id)
    exact ⟨hset.record rfl (by simp), rfl⟩
  | @dropGuard query id hphase =>
    refine ⟨h.dropGuard instantMax hlate, ?_⟩
    obtain ⟨log, hafter⟩ := Conn.dropGuard_eq instantMax conn query id
    rw [hafter]
    exact guardLocked_slackCap ..

end Calm

/-- If an upstream answers each query at most once, and at no time more
cancelled queries than the cap await their answers, then the connection is
never closed for unsolicited frames. -/
theorem late_answers_tolerated (instantMax maxInFlight readTimeout : ℕ)
    (conn : Conn) (hreaches : Reaches instantMax maxInFlight readTimeout conn)
    (answered : List (UInt16 × ℕ)) (hhonest : honest conn.log answered = true)
    (hlate : ∀ earlier, earlier <:+ conn.log →
      (late earlier).length ≤ slackCap maxInFlight) :
    .closed .unsolicited ∉ conn.log := by
  obtain ⟨start, clock, hsteps⟩ := hreaches
  have hcalm : Calm conn ∧ conn.state.slackCap = slackCap maxInFlight := by
    induction hsteps generalizing answered with
    | refl =>
        exact ⟨⟨fun _ => Nat.zero_le _, by rintro ⟨⟩, by rintro ⟨⟩, min_le_right _ _⟩, rfl⟩
    | @tail before after hsteps hstep ih =>
        have hsuffix := hstep.log_suffix
        obtain ⟨answered', hbefore⟩ := exists_honest_of_suffix hsuffix hhonest
        obtain ⟨hcalm, hcap⟩ := ih answered' hbefore fun earlier hearlier =>
          hlate earlier (hearlier.trans hsuffix)
        have hinv : before.Inv :=
          Reaches.inv ⟨start, clock, hsteps⟩
        obtain ⟨hafter, hsame⟩ := hstep.calm hcalm hinv hhonest
          (hcap ▸ hlate after.log List.suffix_rfl)
        exact ⟨hafter, hsame.trans hcap⟩
  exact hcalm.1.log

/-! ## A storm of cancellations -/

def cancelRound (instantMax : ℕ) (conn : Conn) : Option Conn :=
  let query := conn.opened
  let drawn := conn.draw
  match submitLocked drawn.clock ⟨(drawn.queries query).serial, query⟩ true
      drawn.state with
  | .ok (.accepted id, state) =>
      let sent := drawn.submitted query (.accepted id) state
      some (Conn.dropGuard instantMax
        { sent.setPhase query (.abandoned id) with
          log := .cancelled query :: sent.log } query id)
  | _ => none

/-- A response to the question for the address of `a` under an id. -/
def responseTo (id : UInt16) : List UInt8 :=
  u16ToBe id ++
    [129, 128, 0, 1, 0, 0, 0, 0, 0, 0, 1, 97, 0, 0, 1, 0, 1]

def storm (instantMax : ℕ) : ℕ → Conn → Option Conn
  | 0, conn => some conn
  | rounds + 1, conn =>
      (cancelRound instantMax conn).bind (storm instantMax rounds)

def respond : ℕ → UInt16 → Conn → Option Conn
  | 0, _, conn => some conn
  | frames + 1, id, conn =>
      if conn.reader = .reading then
        respond frames (id + 1) (conn.dispatch (responseTo id))
      else none

def giveUp (conn : Conn) : Option Conn :=
  match conn.reader with
  | .failing cause => some { conn.fail cause with reader := .stopped }
  | _ => none

/-- Nineteen queries are cancelled on a connection with room for one, and the
upstream answers the first eighteen. -/
def stormed : Option Conn :=
  (storm 1000 19 (.spawn 1 5 0 0)).bind fun conn =>
    (respond 18 0 conn).bind giveUp

def stormAnswers : List (UInt16 × ℕ) :=
  (List.range 18).reverse.map fun query => (UInt16.ofNat query, query)

theorem steps_of_cancelRound {instantMax : ℕ} {conn after : Conn}
    (hround : cancelRound instantMax conn = some after) :
    Relation.ReflTransGen (Step instantMax) conn after := by
  unfold cancelRound at hround
  extract_lets query drawn at hround
  split at hround
  case h_2 => cases hround
  next id state hsubmit =>
  obtain rfl := Option.some.inj hround
  have hstarting : (drawn.queries query).phase = .starting := by
    rw [conn.draw_queries_self]
  have hwaiting : ((drawn.submitted query (.accepted id) state).queries
      query).phase = .waiting id :=
    congrArg Query.phase (drawn.setPhase_queries_self query (.waiting id))
  have hsubmitted : Step instantMax drawn
      (drawn.submitted query (.accepted id) state) :=
    .submit true hstarting hsubmit
  refine (((Relation.ReflTransGen.single (.draw conn)).tail hsubmitted).tail
    (.abandon hwaiting)).tail (.dropGuard ?_)
  exact congrArg Query.phase (Conn.setPhase_queries_self _ query (.abandoned id))

theorem steps_of_storm {instantMax rounds : ℕ} {conn after : Conn}
    (hstorm : storm instantMax rounds conn = some after) :
    Relation.ReflTransGen (Step instantMax) conn after := by
  induction rounds generalizing conn with
  | zero =>
    obtain rfl := Option.some.inj hstorm
    exact .refl
  | succ rounds ih =>
    obtain ⟨next, hround, hrest⟩ := Option.bind_eq_some_iff.mp hstorm
    exact (steps_of_cancelRound hround).trans (ih hrest)

theorem steps_of_respond {instantMax frames : ℕ} {id : UInt16}
    {conn after : Conn} (hrespond : respond frames id conn = some after) :
    Relation.ReflTransGen (Step instantMax) conn after := by
  induction frames generalizing id conn with
  | zero =>
    obtain rfl := Option.some.inj hrespond
    exact .refl
  | succ frames ih =>
    rw [respond] at hrespond
    split_ifs at hrespond with hreader
    exact .head (.dispatch (responseTo id) hreader) (ih hrespond)

theorem step_of_giveUp {instantMax : ℕ} {conn after : Conn}
    (hgiveUp : giveUp conn = some after) : Step instantMax conn after := by
  rw [giveUp] at hgiveUp
  split at hgiveUp
  next cause hreader =>
    obtain rfl := Option.some.inj hgiveUp
    exact .readerFails hreader
  · cases hgiveUp

theorem reaches_stormed {conn : Conn} (hstormed : stormed = some conn) :
    Reaches 1000 1 5 conn := by
  obtain ⟨cancelled, hstorm, hrest⟩ := Option.bind_eq_some_iff.mp hstormed
  obtain ⟨flooded, hrespond, hgiveUp⟩ := Option.bind_eq_some_iff.mp hrest
  exact ⟨0, 0, ((steps_of_storm hstorm).trans (steps_of_respond hrespond)).tail
    (step_of_giveUp hgiveUp)⟩

/-- The late answers of an upstream which answers each query once close the
connection. -/
theorem storm_closes_connection :
    ∃ conn answered, Reaches 1000 1 5 conn ∧
      honest conn.log answered = true ∧ .closed .unsolicited ∈ conn.log := by
  have hcheck : (match stormed with
      | some conn => honest conn.log stormAnswers &&
          decide (.closed .unsolicited ∈ conn.log)
      | none => false) = true := by
    decide +kernel
  split at hcheck
  case h_2 => cases hcheck
  next conn hstormed =>
  rw [Bool.and_eq_true, decide_eq_true_iff] at hcheck
  exact ⟨conn, stormAnswers, reaches_stormed hstormed, hcheck.1, hcheck.2⟩

/-- Seventeen cancelled queries, all answered late. -/
def calmed : Option Conn :=
  (storm 1000 17 (.spawn 1 5 0 0)).bind (respond 17 0)

def calmAnswers : List (UInt16 × ℕ) :=
  (List.range 17).reverse.map fun query => (UInt16.ofNat query, query)

theorem calmed_stays_open :
    ∃ conn, calmed = some conn ∧ Reaches 1000 1 5 conn ∧
      honest conn.log calmAnswers = true ∧
      .closed .unsolicited ∉ conn.log := by
  have hcheck : (match calmed with
      | some conn => honest conn.log calmAnswers &&
          decide (∀ earlier ∈ conn.log.tails,
            (late earlier).length ≤ slackCap 1)
      | none => false) = true := by
    decide +kernel
  split at hcheck
  case h_2 => cases hcheck
  next conn hcalmed =>
  rw [Bool.and_eq_true, decide_eq_true_iff] at hcheck
  obtain ⟨hhonest, hlate⟩ := hcheck
  obtain ⟨cancelled, hstorm, hrespond⟩ := Option.bind_eq_some_iff.mp hcalmed
  have hreaches : Reaches 1000 1 5 conn :=
    ⟨0, 0, (steps_of_storm hstorm).trans (steps_of_respond hrespond)⟩
  refine ⟨conn, hcalmed, hreaches, hhonest, ?_⟩
  exact late_answers_tolerated 1000 1 5 conn hreaches calmAnswers hhonest
    fun earlier hearlier => hlate earlier ((List.mem_tails _ _).mpr hearlier)

end StreamConn

end DnsLattice
