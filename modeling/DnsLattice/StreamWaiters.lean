import DnsLattice.StreamModel

/-!
# The waiters of a stream connection

The waiter of a query is in one place at a time: in the table under the id of
the query, in the hands of the reader, or among those which `fail` has
drained.  From there it goes into the channel of the caller, once.  The log
says which id a query was given last and which query waits under an id.
-/

namespace DnsLattice

namespace StreamConn

/-! ## What the log tells -/

def pendingIn : List Event → UInt16 → Option ℕ
  | [], _ => none
  | .assigned other query :: earlier, id =>
      if id = other then some query else pendingIn earlier id
  | .matched other _ _ :: earlier, id =>
      if id = other then none else pendingIn earlier id
  | .orphaned other _ _ :: earlier, id =>
      if id = other then none else pendingIn earlier id
  | .closed _ :: _, _ => none
  | _ :: earlier, id => pendingIn earlier id

def lastAssigned : List Event → UInt16 → Option ℕ
  | [], _ => none
  | .assigned other query :: earlier, id =>
      if id = other then some query else lastAssigned earlier id
  | _ :: earlier, id => lastAssigned earlier id

theorem lastAssigned_of_pendingIn {log : List Event} {id : UInt16} {query : ℕ}
    (hpending : pendingIn log id = some query) :
    lastAssigned log id = some query := by
  induction log with
  | nil => cases hpending
  | cons event earlier ih =>
    cases event with
    | assigned other found =>
      rw [pendingIn] at hpending
      rw [lastAssigned]
      split_ifs at hpending ⊢ with hsame
      · exact hpending
      · exact ih hpending
    | matched other frame found =>
      rw [pendingIn] at hpending
      split_ifs at hpending
      exact ih hpending
    | orphaned other owner found =>
      rw [pendingIn] at hpending
      split_ifs at hpending
      exact ih hpending
    | closed cause => cases hpending
    | cancelled found => exact ih hpending
    | stray other => exact ih hpending
    | delivered frame found => exact ih hpending

def Justified : Event → List Event → Prop
  | .assigned id _, earlier =>
      (∀ cause, .closed cause ∉ earlier) ∧ pendingIn earlier id = none
  | .matched id frame query, earlier =>
      wireId frame = some id ∧ pendingIn earlier id = some query
  | .stray id, earlier => pendingIn earlier id = none
  | .delivered frame query, earlier =>
      .cancelled query ∉ earlier ∧ ∃ id, .matched id frame query ∈ earlier
  | .orphaned id owner guard, earlier =>
      owner = guard ∧ pendingIn earlier id = some owner
  | _, _ => True

def Sound : List Event → Prop
  | [] => True
  | event :: earlier => Justified event earlier ∧ Sound earlier

theorem Sound.justified {log : List Event} (h : Sound log) {event : Event}
    {earlier : List Event} (hsuffix : event :: earlier <:+ log) :
    Justified event earlier := by
  induction log with
  | nil => cases List.suffix_nil.mp hsuffix
  | cons last rest ih =>
    rcases List.suffix_cons_iff.mp hsuffix with heq | hrest
    · obtain ⟨rfl, rfl⟩ := List.cons.inj heq
      exact h.1
    · exact ih h.2 hrest

/-! ## The place of a waiter -/

def QueryPhase.submitted : QueryPhase → Bool
  | .waiting _ => true
  | .abandoned _ => true
  | .settled => true
  | _ => false

def QueryPhase.guarded : QueryPhase → Option UInt16
  | .waiting id => some id
  | .abandoned id => some id
  | _ => none

theorem QueryPhase.submitted_of_guarded {phase : QueryPhase} {id : UInt16}
    (hguarded : phase.guarded = some id) : phase.submitted = true := by
  cases phase with
  | waiting _ => rfl
  | abandoned _ => rfl
  | unopened => cases hguarded
  | starting => cases hguarded
  | broken => cases hguarded
  | refused _ => cases hguarded
  | settled => cases hguarded

/-- Where the waiter of one query is: in the table, in the hands of a task, or
used up.  A caller with its receiver has a waiter somewhere, or its result. -/
structure Place (waits : UInt16 → Prop) (held : Prop) (query : Query) :
    Prop where
  waiting : ∀ id, waits id → query.phase.guarded = some id ∧ query.inbox = []
  taken : held → query.phase.submitted = true ∧ query.inbox = [] ∧
    ∀ id, ¬waits id
  served : ∀ id, query.phase = .waiting id →
    query.inbox ≠ [] ∨ waits id ∨ held
  quiet : query.phase.submitted = false → query.inbox = []
  once : query.inbox.length ≤ 1

theorem Place.outside {waits : UInt16 → Prop} {held : Prop} {query : Query}
    (h : Place waits held query) (hphase : query.phase.submitted = false) :
    (∀ id, ¬waits id) ∧ ¬held := by
  refine ⟨fun id hwaits => ?_, fun hheld => ?_⟩
  · have := QueryPhase.submitted_of_guarded (h.waiting id hwaits).1
    rw [hphase] at this
    cases this
  · have := (h.taken hheld).1
    rw [hphase] at this
    cases this

/-- `waits` is the query under each id, and `held` are the queries whose
waiters are in the hands of a task. -/
structure Placed (waits : UInt16 → Option ℕ) (queries : ℕ → Query)
    (held : List ℕ) : Prop where
  nodup : held.Nodup
  place : ∀ query, Place (fun id => waits id = some query) (query ∈ held)
    (queries query)

section Moves

variable {waits waits' : UInt16 → Option ℕ} {queries queries' : ℕ → Query}
  {held held' : List ℕ} {query : ℕ} {id : UInt16}

theorem Placed.change (h : Placed waits queries held) (hnodup : held'.Nodup)
    (hwaits : ∀ found ≠ query, ∀ other,
      waits' other = some found ↔ waits other = some found)
    (hheld : ∀ found ≠ query, found ∈ held' ↔ found ∈ held)
    (hqueries : ∀ found ≠ query, queries' found = queries found)
    (hplace : Place (fun other => waits' other = some query) (query ∈ held')
      (queries' query)) :
    Placed waits' queries' held' := by
  refine ⟨hnodup, fun found => ?_⟩
  by_cases hsame : found = query
  · rw [hsame]
    exact hplace
  · simp only [hwaits found hsame, hheld found hsame, hqueries found hsame]
    exact h.place found

theorem Placed.update (h : Placed waits queries held) {new : Query}
    (hplace : Place (fun other => waits other = some query) (query ∈ held)
      new) :
    Placed waits (Function.update queries query new) held := by
  refine h.change h.nodup (fun _ _ _ => Iff.rfl) (fun _ _ => Iff.rfl)
    (fun found hne => Function.update_of_ne hne _ _) ?_
  rw [Function.update_self]
  exact hplace

theorem Placed.update_outside (h : Placed waits queries held)
    (hold : (queries query).phase.submitted = false) {new : Query}
    (hnew : new.phase.submitted = false) (hinbox : new.inbox = []) :
    Placed waits (Function.update queries query new) held := by
  obtain ⟨hout, hfree⟩ := (h.place query).outside hold
  refine h.update ⟨fun id hwaits => absurd hwaits (hout id),
    fun hheld => absurd hheld hfree, ?_, fun _ => hinbox, ?_⟩
  · intro id hphase
    rw [hphase] at hnew
    cases hnew
  · rw [hinbox]
    exact Nat.zero_le 1

theorem Placed.accept (h : Placed waits queries held)
    (hold : (queries query).phase.submitted = false) (hfree : waits id = none) :
    Placed (Function.update waits id (some query))
      (Function.update queries query
        { queries query with phase := .waiting id }) held := by
  obtain ⟨hout, hnot⟩ := (h.place query).outside hold
  have hquiet := (h.place query).quiet hold
  refine h.change h.nodup ?_ (fun _ _ => Iff.rfl)
    (fun found hne => Function.update_of_ne hne _ _) ?_
  · intro found hne other
    by_cases hsame : other = id
    · rw [hsame, Function.update_self, hfree]
      exact ⟨fun hsome => absurd (Option.some.inj hsome).symm hne, by simp⟩
    · rw [Function.update_of_ne hsame]
  · rw [Function.update_self]
    refine ⟨?_, fun hheld => absurd hheld hnot, ?_, by rintro ⟨⟩,
      (h.place query).once⟩
    · intro other hother
      by_cases hsame : other = id
      · exact ⟨congrArg some hsame.symm, hquiet⟩
      · rw [Function.update_of_ne hsame] at hother
        exact absurd hother (hout other)
    · intro other hphase
      obtain rfl := QueryPhase.waiting.inj hphase
      exact .inr (.inl (Function.update_self ..))

theorem update_none_eq_some {found : ℕ} {other : UInt16} :
    Function.update waits id none other = some found ↔
      other ≠ id ∧ waits other = some found := by
  by_cases hsame : other = id
  · simp [hsame]
  · simp [hsame]

/-- The waiter of a query leaves the table, whose other waiters stay. -/
theorem Placed.change_slot (h : Placed waits queries held)
    (hnodup : held'.Nodup) (hid : ∀ found, waits id = some found → found = query)
    (hheld : ∀ found ≠ query, found ∈ held' ↔ found ∈ held)
    (hplace : Place (fun other => other ≠ id ∧ waits other = some query)
      (query ∈ held') (queries query)) :
    Placed (Function.update waits id none) queries held' := by
  refine h.change hnodup ?_ hheld (fun _ _ => rfl) ?_
  · intro found hne other
    rw [update_none_eq_some]
    refine ⟨And.right, fun hwaits => ⟨?_, hwaits⟩⟩
    rintro rfl
    exact hne (hid found hwaits)
  · simp only [update_none_eq_some]
    exact hplace

/-- A waiter goes from the table into the hands of the reader. -/
theorem Placed.take (h : Placed waits queries held)
    (hwaits : waits id = some query) :
    Placed (Function.update waits id none) queries (query :: held) := by
  have hplace := h.place query
  obtain ⟨hguarded, hinbox⟩ := hplace.waiting id hwaits
  have hnot : query ∉ held := fun hheld => (hplace.taken hheld).2.2 id hwaits
  have hgone : ∀ other, ¬(other ≠ id ∧ waits other = some query) := by
    rintro other ⟨hne, hother⟩
    have hguarded' := (hplace.waiting other hother).1
    rw [hguarded] at hguarded'
    exact hne (Option.some.inj hguarded').symm
  refine h.change_slot (List.nodup_cons.mpr ⟨hnot, h.nodup⟩) ?_ ?_
    ⟨fun other hother => absurd hother (hgone other), ?_, ?_, hplace.quiet,
      hplace.once⟩
  · intro found hfound
    rw [hwaits] at hfound
    exact (Option.some.inj hfound).symm
  · intro found hne
    rw [List.mem_cons, or_iff_right hne]
  · intro _
    exact ⟨QueryPhase.submitted_of_guarded hguarded, hinbox, hgone⟩
  · intro _ _
    exact .inr (.inr (List.mem_cons_self ..))

/-- Every waiter goes from the table into the hands of the task which fails
the connection. -/
theorem Placed.drain (h : Placed waits queries held) {drained : List ℕ}
    (hnodup : drained.Nodup)
    (hdrained : ∀ found, found ∈ drained ↔ ∃ id, waits id = some found) :
    Placed (fun _ => none) queries (held ++ drained) := by
  refine ⟨?_, fun found => ?_⟩
  · refine h.nodup.append hnodup ?_
    intro found hheld hnew
    obtain ⟨id, hid⟩ := (hdrained found).mp hnew
    exact ((h.place found).taken hheld).2.2 id hid
  · have hplace := h.place found
    refine ⟨fun _ => by simp, ?_, ?_, hplace.quiet, hplace.once⟩
    · intro hfound
      rcases List.mem_append.mp hfound with hheld | hnew
      · obtain ⟨hsubmitted, hinbox, _⟩ := hplace.taken hheld
        exact ⟨hsubmitted, hinbox, fun _ => by simp⟩
      · obtain ⟨id, hid⟩ := (hdrained found).mp hnew
        obtain ⟨hguarded, hinbox⟩ := hplace.waiting id hid
        exact ⟨QueryPhase.submitted_of_guarded hguarded, hinbox,
          fun _ => by simp⟩
    · intro other hphase
      rcases hplace.served other hphase with hinbox | hother | hheld
      · exact .inl hinbox
      · exact .inr (.inr (List.mem_append_right _
          ((hdrained found).mpr ⟨other, hother⟩)))
      · exact .inr (.inr (List.mem_append_left _ hheld))

theorem Placed.send (h : Placed waits queries held)
    (hperm : held.Perm (query :: held')) {new : Query}
    (hphase : new.phase = (queries query).phase)
    (hlength : new.inbox.length ≤ 1)
    (hheard : ∀ id, new.phase = .waiting id → new.inbox ≠ []) :
    Placed waits (Function.update queries query new) held' := by
  have hnodup := List.nodup_cons.mp (hperm.nodup_iff.mp h.nodup)
  obtain ⟨hsubmitted, hinbox, hout⟩ := (h.place query).taken
    (hperm.mem_iff.mpr (List.mem_cons_self ..))
  refine h.change hnodup.2 (fun _ _ _ => Iff.rfl) ?_
    (fun found hne => Function.update_of_ne hne _ _) ?_
  · intro found hne
    rw [hperm.mem_iff, List.mem_cons, or_iff_right hne]
  · rw [Function.update_self]
    refine ⟨fun other hother => absurd hother (hout other),
      fun hheld => absurd hheld hnodup.1,
      fun other hwaiting => .inl (hheard other hwaiting), ?_, hlength⟩
    intro hquiet
    rw [hphase, hsubmitted] at hquiet
    cases hquiet

/-- A caller stops listening: its receiver is dropped, or it has its result
and the guard is disarmed. -/
theorem Placed.leave (h : Placed waits queries held) {phase : QueryPhase}
    (hnew : phase.submitted = true) (hdeaf : ∀ id, phase ≠ .waiting id)
    (hguarded : ∀ id, waits id = some query → phase.guarded = some id) :
    Placed waits
      (Function.update queries query { queries query with phase := phase })
      held := by
  have hplace := h.place query
  refine h.update ⟨?_, fun hheld => ⟨hnew, (hplace.taken hheld).2⟩,
    fun other hphase => absurd hphase (hdeaf other), ?_, hplace.once⟩
  · intro other hother
    exact ⟨hguarded other hother, (hplace.waiting other hother).2⟩
  · intro hquiet
    rw [hnew] at hquiet
    cases hquiet

/-- The guard of a query without a receiver takes its waiter out of the
table. -/
theorem Placed.forget (h : Placed waits queries held)
    (hwaits : waits id = some query)
    (hphase : (queries query).phase = .abandoned id) :
    Placed (Function.update waits id none) queries held := by
  have hplace := h.place query
  refine h.change_slot h.nodup ?_ (fun _ _ => Iff.rfl)
    ⟨fun other hother => hplace.waiting other hother.2, ?_, ?_, hplace.quiet,
      hplace.once⟩
  · intro found hfound
    rw [hwaits] at hfound
    exact (Option.some.inj hfound).symm
  · intro hheld
    exact absurd hwaits ((hplace.taken hheld).2.2 id)
  · intro other hwaiting
    rw [hphase] at hwaiting
    cases hwaiting

end Moves

/-! ## Serial numbers and cancellations -/

structure Numbered (opened nextSerial : ℕ) (queries : ℕ → Query) : Prop where
  counted : nextSerial = opened
  unopened : ∀ query, opened ≤ query → (queries query).phase = .unopened
  serial : ∀ query, (queries query).phase ≠ .unopened →
    (queries query).serial = query

theorem Numbered.draw {opened nextSerial : ℕ} {queries : ℕ → Query}
    (h : Numbered opened nextSerial queries) :
    Numbered (opened + 1) (nextSerial + 1)
      (Function.update queries opened ⟨nextSerial, .starting, []⟩) where
  counted := congrArg (· + 1) h.counted
  unopened query hquery := by
    have hlt : opened < query := hquery
    rw [Function.update_of_ne hlt.ne']
    exact h.unopened query hlt.le
  serial query hphase := by
    by_cases hsame : query = opened
    · rw [hsame, Function.update_self]
      exact h.counted
    · rw [Function.update_of_ne hsame] at hphase ⊢
      exact h.serial query hphase

theorem Numbered.update {opened nextSerial query : ℕ} {queries : ℕ → Query}
    (h : Numbered opened nextSerial queries)
    (hopened : (queries query).phase ≠ .unopened) {new : Query}
    (hserial : new.serial = (queries query).serial) :
    Numbered opened nextSerial (Function.update queries query new) where
  counted := h.counted
  unopened found hfound := by
    have hphase := h.unopened found hfound
    have hne : found ≠ query := by
      rintro rfl
      exact hopened hphase
    rw [Function.update_of_ne hne]
    exact hphase
  serial found hphase := by
    by_cases hsame : found = query
    · rw [hsame, Function.update_self, hserial]
      exact h.serial query hopened
    · rw [Function.update_of_ne hsame] at hphase ⊢
      exact h.serial found hphase

def QueryPhase.deaf : QueryPhase → Bool
  | .abandoned _ => true
  | .settled => true
  | _ => false

theorem QueryPhase.submitted_of_deaf {phase : QueryPhase}
    (hdeaf : phase.deaf = true) : phase.submitted = true := by
  cases phase with
  | abandoned _ => rfl
  | settled => rfl
  | unopened => cases hdeaf
  | starting => cases hdeaf
  | broken => cases hdeaf
  | refused _ => cases hdeaf
  | waiting _ => cases hdeaf

/-- A caller which is gone does not come back. -/
def Deaf (log : List Event) (queries : ℕ → Query) : Prop :=
  ∀ query, .cancelled query ∈ log → (queries query).phase.deaf = true

theorem Deaf.update {log : List Event} {queries : ℕ → Query} {query : ℕ}
    (h : Deaf log queries) {new : Query}
    (hnew : (queries query).phase.deaf = true → new.phase.deaf = true) :
    Deaf log (Function.update queries query new) := by
  intro found hfound
  by_cases hsame : found = query
  · rw [hsame, Function.update_self]
    rw [hsame] at hfound
    exact hnew (h query hfound)
  · rw [Function.update_of_ne hsame]
    exact h found hfound

theorem Deaf.record {log : List Event} {queries : ℕ → Query} {event : Event}
    (h : Deaf log queries)
    (hevent : ∀ query, .cancelled query = event →
      (queries query).phase.deaf = true) : Deaf (event :: log) queries := by
  intro query hquery
  rcases List.mem_cons.mp hquery with heq | hold
  · exact hevent query heq
  · exact h query hold

def Answered (log : List Event) (queries : ℕ → Query) : Prop :=
  ∀ query message, .ok message ∈ (queries query).inbox →
    ∃ frame, Message.decode frame = .ok message ∧
      .delivered frame query ∈ log

theorem Answered.update {log : List Event} {queries : ℕ → Query} {query : ℕ}
    (h : Answered log queries) {new : Query}
    (hnew : ∀ message, .ok message ∈ new.inbox →
      .ok message ∈ (queries query).inbox ∨
        ∃ frame, Message.decode frame = .ok message ∧
          .delivered frame query ∈ log) :
    Answered log (Function.update queries query new) := by
  intro found message hmessage
  by_cases hsame : found = query
  · rw [hsame, Function.update_self] at hmessage
    rw [hsame]
    exact (hnew message hmessage).elim (h query message) id
  · rw [Function.update_of_ne hsame] at hmessage
    exact h found message hmessage

theorem Answered.record {log : List Event} {queries : ℕ → Query}
    (h : Answered log queries) (event : Event) :
    Answered (event :: log) queries := by
  intro query message hmessage
  obtain ⟨frame, hdecode, hdelivered⟩ := h query message hmessage
  exact ⟨frame, hdecode, List.mem_cons_of_mem _ hdelivered⟩

end StreamConn

end DnsLattice
