import DnsLattice.Isolation

/-!
# The registry of flights

Any number of callers join, lead, follow, finish and drop flights, over any
keys and any hash.  The operations are those of the resolver; a guard finishes
or is dropped in the single steps of the code, so that others can come in
between.  Guard number `i` leads flight number `i`.
-/

namespace DnsLattice

namespace FlightRegistry

/-! ## The callers -/

/-- How far a guard has come.  After `unregistered` the receivers are counted,
and the outcome is sent only if there were any. -/
inductive GuardStatus where
  | live
  | unregistered (outcome : Outcome)
  | sending (outcome : Outcome)
  | finished (outcome : Outcome)
  | dropping
  | dropped
  deriving DecidableEq

structure Guard where
  key : List UInt8
  leader : LeaderGuard
  status : GuardStatus
  deriving DecidableEq

inductive FollowerStatus where
  | waiting
  | observed (wait : Wait)
  | gone
  deriving DecidableEq

structure Follower where
  key : List UInt8
  flight : ℕ
  status : FollowerStatus
  deriving DecidableEq

structure State where
  core : Core
  guards : List Guard
  followers : List Follower

inductive Act where
  | join (task : ℕ) (key : List UInt8) (purpose : Purpose)
  | follower (guard : ℕ)
  | finish (guard : ℕ) (outcome : Outcome)
  | count (guard : ℕ)
  | send (guard : ℕ)
  | drop (guard : ℕ)
  | abandon (guard : ℕ)
  | wait (follower : ℕ)
  | cancel (follower : ℕ)

def setState (core : Core) (id : ℕ) (state : FlightState) : Core :=
  core.setFlight id fun flight => { flight with state := state }

def receivers (core : Core) (id : ℕ) : ℕ :=
  (core.flights[id]?.map Flight.receivers).getD 0

namespace State

def moveGuard (state : State) (number : ℕ) (guard : Guard)
    (status : GuardStatus) (core : Core) : State :=
  { state with
    core := core
    guards := state.guards.set number { guard with status := status } }

def moveFollower (state : State) (number : ℕ) (follower : Follower)
    (status : FollowerStatus) (core : Core) : State :=
  { state with
    core := core
    followers :=
      state.followers.set number { follower with status := status } }

def addFollower (state : State) (key : List UInt8) (flight : ℕ)
    (core : Core) : State :=
  { state with
    core := core
    followers := state.followers ++ [⟨key, flight, .waiting⟩] }

def addGuard (state : State) (key : List UInt8) (leader : LeaderGuard)
    (core : Core) : State :=
  { state with
    core := core
    guards := state.guards ++ [⟨key, leader, .live⟩] }

variable (resolver : Resolver)

def stepGuard (state : State) (number : ℕ) (guard : Guard) :
    Act → Option State
  | .follower _ =>
      if guard.status = .live then
        some (state.addFollower guard.key guard.leader.flight
          (state.core.follow guard.leader.flight))
      else none
  | .finish _ outcome =>
      if guard.status = .live then
        some (state.moveGuard number guard (.unregistered outcome)
          (state.core.unregister guard.leader (some outcome)))
      else none
  | .count _ =>
      match guard.status with
      | .unregistered outcome =>
          if 0 < receivers state.core guard.leader.flight then
            some (state.moveGuard number guard (.sending outcome) state.core)
          else
            -- the last sender goes with the guard
            some (state.moveGuard number guard (.finished outcome)
              (setState state.core guard.leader.flight .closed))
      | _ => none
  | .send _ =>
      match guard.status with
      | .sending outcome =>
          some (state.moveGuard number guard (.finished outcome)
            (setState state.core guard.leader.flight (.done outcome)))
      | _ => none
  | .drop _ =>
      if guard.status = .live then
        some (state.moveGuard number guard .dropping
          (state.core.unregister guard.leader none))
      else none
  | .abandon _ =>
      if guard.status = .dropping then
        some (state.moveGuard number guard .dropped
          (state.core.abandon guard.leader.flight))
      else none
  | _ => none

def stepFollower (state : State) (number : ℕ) (follower : Follower) :
    Act → Option State
  | .wait _ =>
      if follower.status = .waiting then
        (state.core.wait follower.flight false .none).map
          fun (waited, core) =>
            state.moveFollower number follower (.observed waited) core
      else none
  | .cancel _ =>
      if follower.status = .waiting then
        some (state.moveFollower number follower .gone
          (state.core.unfollow follower.flight))
      else none
  | _ => none

def step (state : State) (act : Act) : Option State :=
  match act with
  | .join task key purpose =>
      let (join, core) := state.core.joinOrLead resolver task key purpose
      match join with
      | .follow flight => some (state.addFollower key flight core)
      | .lead leader => some (state.addGuard key leader core)
  | .follower guard | .finish guard _ | .count guard
  | .send guard | .drop guard | .abandon guard =>
      state.guards[guard]?.bind fun found =>
        state.stepGuard guard found act
  | .wait follower | .cancel follower =>
      state.followers[follower]?.bind fun found =>
        state.stepFollower follower found act

def Step (before after : State) : Prop :=
  ∃ act, before.step resolver act = some after

def Reaches (before after : State) : Prop :=
  Relation.ReflTransGen (Step resolver) before after

end State

/-- Nobody has joined yet. -/
def initial (resolver : Resolver) : State :=
  ⟨(resolver.initial 0).core, [], []⟩

/-! ## The invariant -/

def Agrees : GuardStatus → Flight → Prop
  | .live, flight => flight.state = .pending
  | .unregistered _, flight => flight.state = .pending
  | .sending _, flight => flight.state = .pending
  | .finished outcome, flight =>
      flight.state = .done outcome ∨
        flight.state = .closed ∧ flight.receivers = 0
  | .dropping, flight => flight.state = .pending
  | .dropped, flight => flight.state = .abandoned

def Saw : FollowerStatus → GuardStatus → Prop
  | .waiting, _ => True
  | .gone, _ => True
  | .observed (.done outcome), status => status = .finished outcome
  | .observed .abandoned, status => status = .dropped
  | .observed _, _ => False

def waiting (followers : List Follower) (id : ℕ) : ℕ :=
  followers.countP fun follower =>
    decide (follower.flight = id ∧ follower.status = .waiting)

structure Inv (resolver : Resolver) (state : State) : Prop where
  length : state.guards.length = state.core.flights.length
  leads : ∀ (id : ℕ) (guard : Guard), state.guards[id]? = some guard →
    guard.leader.flight = id ∧
      guard.leader.hash = resolver.flightHash guard.key ∧
      ∃ flight : Flight, state.core.flights[id]? = some flight ∧
        flight.key = guard.key ∧ Agrees guard.status flight
  registry : ∀ hash registered,
    state.core.registry.lookup hash = some registered →
    ∃ guard : Guard, state.guards[registered.flight]? = some guard ∧
      guard.status = .live ∧ guard.leader.registered = true ∧
      guard.leader.hash = hash ∧ guard.key = registered.key
  registered : ∀ (id : ℕ) (guard : Guard),
    state.guards[id]? = some guard → guard.status = .live →
    guard.leader.registered = true →
    state.core.registry.lookup guard.leader.hash = some ⟨guard.key, id⟩
  follows : ∀ (number : ℕ) (follower : Follower),
    state.followers[number]? = some follower →
    ∃ guard : Guard, state.guards[follower.flight]? = some guard ∧
      guard.key = follower.key ∧ Saw follower.status guard.status
  counted : ∀ (id : ℕ) (flight : Flight),
    state.core.flights[id]? = some flight →
    flight.receivers = waiting state.followers id

theorem initial_inv (resolver : Resolver) :
    Inv resolver (initial resolver) := by
  constructor <;> simp [initial, Resolver.initial]

section Lists

variable {α : Type} {items : List α} {number id : ℕ} {item found new : α}

theorem getElem?_set_cases (hitem : items[number]? = some item)
    (hfound : (items.set number new)[id]? = some found) :
    (id = number ∧ found = new) ∨ id ≠ number ∧ items[id]? = some found := by
  obtain ⟨hlt, _⟩ := List.getElem?_eq_some_iff.mp hitem
  rw [List.getElem?_set] at hfound
  by_cases heq : number = id
  · rw [if_pos heq, if_pos hlt] at hfound
    exact Or.inl ⟨heq.symm, (Option.some.inj hfound).symm⟩
  · rw [if_neg heq] at hfound
    exact Or.inr ⟨Ne.symm heq, hfound⟩

theorem getElem?_set_of_ne (hne : id ≠ number)
    (hfound : items[id]? = some found) :
    (items.set number new)[id]? = some found := by
  rw [List.getElem?_set, if_neg (Ne.symm hne)]
  exact hfound

theorem getElem?_set_of_some (hitem : items[number]? = some item) :
    (items.set number new)[number]? = some new := by
  obtain ⟨hlt, _⟩ := List.getElem?_eq_some_iff.mp hitem
  rw [List.getElem?_set, if_pos rfl, if_pos hlt]

theorem getElem?_append_cases (hfound : (items ++ [new])[id]? = some found) :
    items[id]? = some found ∨ id = items.length ∧ found = new := by
  rw [List.getElem?_append] at hfound
  split_ifs at hfound with hlt
  · exact Or.inl hfound
  · rw [List.getElem?_singleton] at hfound
    split_ifs at hfound with hzero
    exact Or.inr ⟨by omega, (Option.some.inj hfound).symm⟩

theorem getElem?_append_of_some (hfound : items[id]? = some found) :
    (items ++ [new])[id]? = some found := by
  obtain ⟨hlt, _⟩ := List.getElem?_eq_some_iff.mp hfound
  rw [List.getElem?_append_left hlt, hfound]

end Lists

theorem waiting_append (followers : List Follower) (key : List UInt8)
    (flight id : ℕ) :
    waiting (followers ++ [⟨key, flight, .waiting⟩]) id =
      waiting followers id + if flight = id then 1 else 0 := by
  unfold waiting
  rw [List.countP_append, List.countP_singleton]
  simp

theorem waiting_set {followers : List Follower} {number : ℕ}
    {follower : Follower} (hfollower : followers[number]? = some follower)
    (hwaiting : follower.status = .waiting) {status : FollowerStatus}
    (hstatus : status ≠ .waiting) (id : ℕ) :
    waiting (followers.set number { follower with status := status }) id =
      waiting followers id - if follower.flight = id then 1 else 0 := by
  obtain ⟨hlt, rfl⟩ := List.getElem?_eq_some_iff.mp hfollower
  unfold waiting
  rw [List.countP_set hlt]
  simp [hwaiting, hstatus]

/-! ## What one step keeps -/

section Steps

variable {resolver : Resolver} {state : State} (hinv : Inv resolver state)
  {number : ℕ}

include hinv

theorem inv_moveGuard {guard : Guard}
    (hguard : state.guards[number]? = some guard) {status : GuardStatus}
    {core : Core} (change : Flight → Flight)
    (hflights : core.flights = (state.core.setFlight number change).flights)
    (hchange : ∀ flight, (change flight).key = flight.key ∧
      (change flight).receivers = flight.receivers)
    (hagrees : ∀ flight, state.core.flights[number]? = some flight →
      Agrees guard.status flight → Agrees status (change flight))
    (hopen : ∀ seen, Saw (.observed seen) guard.status → False)
    (hlive : status ≠ .live)
    (hgone : ∀ hash registered,
      core.registry.lookup hash = some registered →
      state.core.registry.lookup hash = some registered ∧
        registered.flight ≠ number)
    (hkept : ∀ (id : ℕ) (other : Guard), id ≠ number →
      state.guards[id]? = some other → other.status = .live →
      other.leader.registered = true →
      core.registry.lookup other.leader.hash =
        state.core.registry.lookup other.leader.hash) :
    Inv resolver (state.moveGuard number guard status core) := by
  have hget : ∀ id, core.flights[id]? = state.core.flights[id]?.map
      fun flight => if number = id then change flight else flight := by
    intro id
    rw [hflights, Core.getElem?_setFlight]
  refine ⟨?_, ?_, ?_, ?_, ?_, ?_⟩
  · change (state.guards.set number _).length = core.flights.length
    rw [List.length_set, hflights, Core.setFlight, List.length_modify]
    exact hinv.length
  · intro id found hfound
    rcases getElem?_set_cases hguard hfound with ⟨rfl, rfl⟩ | ⟨hne, hold⟩
    · obtain ⟨hid, hhash, flight, hflight, hkey, hstate⟩ :=
        hinv.leads id guard hguard
      refine ⟨hid, hhash, change flight, ?_, ?_, hagrees flight hflight hstate⟩
      · change core.flights[id]? = _
        rw [hget, hflight]
        simp
      · exact (hchange flight).1.trans hkey
    · obtain ⟨hid, hhash, flight, hflight, hkey, hstate⟩ :=
        hinv.leads id found hold
      refine ⟨hid, hhash, flight, ?_, hkey, hstate⟩
      change core.flights[id]? = _
      rw [hget, hflight]
      simp [Ne.symm hne]
  · intro hash registered hregistered
    obtain ⟨hold, hne⟩ := hgone hash registered hregistered
    obtain ⟨found, hfound, hfacts⟩ := hinv.registry hash registered hold
    exact ⟨found, getElem?_set_of_ne hne hfound, hfacts⟩
  · intro id found hfound hstatus hregistered
    rcases getElem?_set_cases hguard hfound with ⟨rfl, rfl⟩ | ⟨hne, hold⟩
    · exact absurd hstatus hlive
    · change core.registry.lookup _ = _
      rw [hkept id found hne hold hstatus hregistered]
      exact hinv.registered id found hold hstatus hregistered
  · intro index follower hfollower
    obtain ⟨found, hfound, hkey, hsaw⟩ := hinv.follows index follower hfollower
    by_cases heq : follower.flight = number
    · rw [heq] at hfound
      obtain rfl := Option.some.inj (hguard.symm.trans hfound)
      refine ⟨{ guard with status := status }, ?_, hkey, ?_⟩
      · rw [heq]
        exact getElem?_set_of_some hguard
      cases hseen : follower.status with
      | waiting => trivial
      | gone => trivial
      | observed seen => exact (hopen seen (hseen ▸ hsaw)).elim
    · exact ⟨found, getElem?_set_of_ne heq hfound, hkey, hsaw⟩
  · intro id flight hflight
    change core.flights[id]? = _ at hflight
    rw [hget] at hflight
    obtain ⟨old, hold, rfl⟩ := Option.map_eq_some_iff.mp hflight
    change _ = waiting state.followers id
    rw [← hinv.counted id old hold]
    split_ifs
    · exact (hchange old).2
    · rfl

omit hinv in
theorem lookup_unregistered (core : Core) (leader : LeaderGuard)
    (hash : UInt64) :
    (core.unregistered leader).lookup hash =
      if leader.registered = true ∧
          (core.registry.lookup leader.hash).map Registered.flight =
            some leader.flight ∧ hash = leader.hash then none
      else core.registry.lookup hash := by
  unfold Core.unregistered
  by_cases hfirst : leader.registered = true ∧
      (core.registry.lookup leader.hash).map Registered.flight =
        some leader.flight
  · rw [if_pos hfirst]
    by_cases heq : hash = leader.hash
    · rw [if_pos ⟨hfirst.1, hfirst.2, heq⟩, heq, AList.lookup_erase]
    · rw [if_neg fun h => heq h.2.2, AList.lookup_erase_ne heq]
  · rw [if_neg hfirst, if_neg fun h => hfirst ⟨h.1, h.2.1⟩]

/-- A live guard finishes or is dropped: first its flight is unregistered,
found by the identity of its sender. -/
theorem inv_unregister {guard : Guard}
    (hguard : state.guards[number]? = some guard)
    (hstatus : guard.status = .live) {status : GuardStatus}
    (hlive : status ≠ .live) {fate : Option Outcome}
    (hagrees : ∀ flight : Flight, flight.state = .pending →
      Agrees status flight) :
    Inv resolver (state.moveGuard number guard status
      (state.core.unregister guard.leader fate)) := by
  obtain ⟨hid, hhash, _⟩ := hinv.leads number guard hguard
  refine inv_moveGuard hinv hguard
    (fun flight => { flight with fate := some fate }) ?_
    (fun _ => ⟨rfl, rfl⟩) ?_ ?_ hlive ?_ ?_
  · rw [← hid]
    rfl
  · intro flight _ hpending
    rw [hstatus] at hpending
    exact hagrees _ hpending
  · intro seen hsaw
    rw [hstatus] at hsaw
    cases seen <;> cases hsaw
  · intro hash registered hregistered
    change (state.core.unregistered guard.leader).lookup hash = _
      at hregistered
    rw [lookup_unregistered] at hregistered
    split_ifs at hregistered with herased
    refine ⟨hregistered, ?_⟩
    rintro rfl
    obtain ⟨found, hfound, _, hyes, hsame, _⟩ :=
      hinv.registry hash registered hregistered
    obtain rfl := Option.some.inj (hguard.symm.trans hfound)
    refine herased ⟨hyes, ?_, hsame.symm⟩
    rw [hsame, hregistered, hid]
    rfl
  · intro id other hne hother hotherLive hyes
    change (state.core.unregistered guard.leader).lookup _ = _
    rw [lookup_unregistered, if_neg]
    rintro ⟨_, hflight, hsame⟩
    have hregistered := hinv.registered id other hother hotherLive hyes
    rw [← hsame, hregistered, hid] at hflight
    exact hne (Option.some.inj hflight)

theorem inv_setState {guard : Guard}
    (hguard : state.guards[number]? = some guard) (hdead : guard.status ≠ .live)
    (hopen : ∀ seen, Saw (.observed seen) guard.status → False)
    {status : GuardStatus} (hlive : status ≠ .live) {flightState : FlightState}
    (hagrees : ∀ flight, state.core.flights[number]? = some flight →
      Agrees guard.status flight →
      Agrees status { flight with state := flightState }) :
    Inv resolver (state.moveGuard number guard status
      (setState state.core guard.leader.flight flightState)) := by
  obtain ⟨hid, _⟩ := hinv.leads number guard hguard
  refine inv_moveGuard hinv hguard
    (fun flight => { flight with state := flightState }) ?_
    (fun _ => ⟨rfl, rfl⟩) hagrees hopen hlive ?_ fun _ _ _ _ _ _ => rfl
  · rw [hid]
    rfl
  · intro hash registered hregistered
    refine ⟨hregistered, ?_⟩
    rintro rfl
    obtain ⟨found, hfound, hfoundLive, _⟩ :=
      hinv.registry hash registered hregistered
    obtain rfl := Option.some.inj (hguard.symm.trans hfound)
    exact hdead hfoundLive

theorem inv_follow {guard : Guard} {id : ℕ}
    (hguard : state.guards[id]? = some guard) (hlive : guard.status = .live) :
    Inv resolver (state.addFollower guard.key id (state.core.follow id)) := by
  have hget : ∀ other, (state.core.follow id).flights[other]? =
      state.core.flights[other]?.map fun flight =>
        if id = other then
          { flight with receivers := flight.receivers + 1 }
        else flight :=
    fun other => Core.getElem?_setFlight _ _ _ _
  refine ⟨?_, ?_, hinv.registry, hinv.registered, ?_, ?_⟩
  · change _ = (state.core.setFlight _ _).flights.length
    rw [Core.setFlight, List.length_modify]
    exact hinv.length
  · intro other found hfound
    obtain ⟨hid, hhash, flight, hflight, hkey, hstate⟩ :=
      hinv.leads other found hfound
    refine ⟨hid, hhash, _, (hget other).trans (by rw [hflight]; rfl), ?_, ?_⟩
    · split_ifs <;> exact hkey
    · dsimp only
      by_cases heq : id = other
      · subst heq
        obtain rfl := Option.some.inj (hguard.symm.trans hfound)
        rw [if_pos rfl]
        rw [hlive] at hstate ⊢
        exact hstate
      · rw [if_neg heq]
        exact hstate
  · intro index follower hfollower
    rcases getElem?_append_cases hfollower with hold | ⟨_, rfl⟩
    · exact hinv.follows index follower hold
    · exact ⟨guard, hguard, rfl, trivial⟩
  · intro other flight hflight
    change (state.core.follow id).flights[other]? = _ at hflight
    change _ = waiting (state.followers ++ [_]) other
    rw [hget] at hflight
    obtain ⟨old, hold, rfl⟩ := Option.map_eq_some_iff.mp hflight
    rw [waiting_append, ← hinv.counted other old hold]
    split_ifs <;> rfl

theorem inv_addGuard {key : List UInt8} {leader : LeaderGuard} {task : ℕ}
    {purpose : Purpose} {core : Core}
    (hflights : core.flights =
      (state.core.addFlight task key purpose).flights)
    (hflight : leader.flight = state.core.flights.length)
    (hhash : leader.hash = resolver.flightHash key)
    (hregistry : if leader.registered = true then
      state.core.registry.lookup leader.hash = none ∧
        core.registry = state.core.registry.insert leader.hash
          ⟨key, leader.flight⟩
      else core.registry = state.core.registry) :
    Inv resolver (state.addGuard key leader core) := by
  have hlength : state.guards.length = state.core.flights.length := hinv.length
  have hnew : state.core.flights[state.core.flights.length]? = none :=
    List.getElem?_eq_none (Nat.le_refl _)
  refine ⟨?_, ?_, ?_, ?_, ?_, ?_⟩
  · change (state.guards ++ [_]).length = core.flights.length
    rw [hflights]
    simp [Core.addFlight, hlength]
  · intro id found hfound
    change _ ∧ _ ∧ ∃ flight : Flight, core.flights[id]? = some flight ∧ _
    rw [hflights]
    rcases getElem?_append_cases hfound with hold | ⟨rfl, rfl⟩
    · obtain ⟨hid, hfhash, flight, hold, hfacts⟩ := hinv.leads id found hold
      exact ⟨hid, hfhash, flight,
        Core.getElem?_addFlight_of_some hold task key purpose, hfacts⟩
    · rw [hlength]
      exact ⟨hflight, hhash, _,
        state.core.getElem?_addFlight_length task key purpose, rfl, rfl⟩
  · intro hash registered hregistered
    change core.registry.lookup hash = _ at hregistered
    split_ifs at hregistry with hyes
    · obtain ⟨_, hinsert⟩ := hregistry
      rw [hinsert] at hregistered
      by_cases heq : hash = leader.hash
      · rw [heq, AList.lookup_insert] at hregistered
        obtain rfl := Option.some.inj hregistered
        refine ⟨⟨key, leader, .live⟩, ?_, rfl, hyes, heq.symm, rfl⟩
        change (state.guards ++ [_])[leader.flight]? = _
        rw [hflight, ← hlength, List.getElem?_append_right (Nat.le_refl _),
          Nat.sub_self]
        rfl
      · rw [AList.lookup_insert_ne heq] at hregistered
        obtain ⟨found, hfound, hfacts⟩ :=
          hinv.registry hash registered hregistered
        exact ⟨found, getElem?_append_of_some hfound, hfacts⟩
    · rw [hregistry] at hregistered
      obtain ⟨found, hfound, hfacts⟩ :=
        hinv.registry hash registered hregistered
      exact ⟨found, getElem?_append_of_some hfound, hfacts⟩
  · intro id found hfound hlive hyes
    change core.registry.lookup _ = _
    rcases getElem?_append_cases hfound with hold | ⟨rfl, rfl⟩
    · have hlookup := hinv.registered id found hold hlive hyes
      split_ifs at hregistry with hregistered
      · obtain ⟨hnone, hinsert⟩ := hregistry
        rw [hinsert, AList.lookup_insert_ne]
        · exact hlookup
        · intro heq
          rw [heq, hnone] at hlookup
          contradiction
      · rw [hregistry]
        exact hlookup
    · rw [if_pos hyes] at hregistry
      rw [hregistry.2, AList.lookup_insert, hlength, hflight]
  · intro index follower hfollower
    obtain ⟨found, hfound, hfacts⟩ := hinv.follows index follower hfollower
    exact ⟨found, getElem?_append_of_some hfound, hfacts⟩
  · intro id flight hfound
    change core.flights[id]? = _ at hfound
    rw [hflights] at hfound
    rcases Core.addFlight_cases hfound with hold | ⟨rfl, rfl⟩
    · exact hinv.counted id flight hold
    · -- nobody has joined a flight which did not exist
      symm
      refine List.countP_eq_zero.mpr ?_
      intro follower hmem
      obtain ⟨index, hindex⟩ := List.mem_iff_getElem?.mp hmem
      obtain ⟨found, hguard, _⟩ := hinv.follows index follower hindex
      obtain ⟨hlt, _⟩ := List.getElem?_eq_some_iff.mp hguard
      have hne : follower.flight ≠ state.core.flights.length := by omega
      simp [hne]

theorem inv_moveFollower {follower : Follower}
    (hfollower : state.followers[number]? = some follower)
    (hwaiting : follower.status = .waiting) {status : FollowerStatus}
    (hstatus : status ≠ .waiting)
    (hsaw : ∀ guard : Guard, state.guards[follower.flight]? = some guard →
      Saw status guard.status) :
    Inv resolver (state.moveFollower number follower status
      (state.core.unfollow follower.flight)) := by
  have hget : ∀ other, (state.core.unfollow follower.flight).flights[other]? =
      state.core.flights[other]?.map fun flight =>
        if follower.flight = other then
          { flight with receivers := flight.receivers - 1 }
        else flight :=
    fun other => Core.getElem?_setFlight _ _ _ _
  refine ⟨?_, ?_, hinv.registry, hinv.registered, ?_, ?_⟩
  · change _ = (state.core.setFlight _ _).flights.length
    rw [Core.setFlight, List.length_modify]
    exact hinv.length
  · intro other found hfound
    obtain ⟨hid, hhash, flight, hflight, hkey, hstate⟩ :=
      hinv.leads other found hfound
    refine ⟨hid, hhash, _, (hget other).trans (by rw [hflight]; rfl), ?_, ?_⟩
    · split_ifs <;> exact hkey
    · split_ifs
      · cases hguard : found.status <;> rw [hguard] at hstate
        case finished outcome =>
          rcases hstate with hdone | ⟨hclosed, hzero⟩
          · exact Or.inl hdone
          · exact Or.inr ⟨hclosed, by simp [hzero]⟩
        all_goals exact hstate
      · exact hstate
  · intro index found hfound
    rcases getElem?_set_cases hfollower hfound with ⟨rfl, rfl⟩ | ⟨_, hold⟩
    · obtain ⟨guard, hguard, hkey, _⟩ :=
        hinv.follows index follower hfollower
      exact ⟨guard, hguard, hkey, hsaw guard hguard⟩
    · exact hinv.follows index found hold
  · intro other flight hflight
    change (state.core.unfollow follower.flight).flights[other]? = _
      at hflight
    change _ = waiting (state.followers.set number _) other
    rw [hget] at hflight
    obtain ⟨old, hold, rfl⟩ := Option.map_eq_some_iff.mp hflight
    rw [waiting_set hfollower hwaiting hstatus, ← hinv.counted other old hold]
    split_ifs <;> rfl

theorem inv_join {task : ℕ} {key : List UInt8} {purpose : Purpose}
    {after : State}
    (hstep : state.step resolver (.join task key purpose) = some after) :
    Inv resolver after := by
  have hcases := state.core.joinOrLead_cases resolver task key purpose
  unfold State.step at hstep
  dsimp only at hstep
  generalize (state.core.joinOrLead resolver task key purpose).1 = join
    at hcases hstep
  generalize (state.core.joinOrLead resolver task key purpose).2 = core
    at hcases hstep
  cases hcases with
  | follow flight hlookup =>
    obtain rfl := Option.some.inj hstep
    obtain ⟨guard, hguard, hlive, _, _, rfl⟩ := hinv.registry _ _ hlookup
    exact inv_follow hinv hguard hlive
  | alone registered hlookup hne =>
    obtain rfl := Option.some.inj hstep
    exact inv_addGuard hinv rfl rfl rfl rfl
  | lead hlookup =>
    obtain rfl := Option.some.inj hstep
    exact inv_addGuard hinv rfl rfl rfl ⟨hlookup, rfl⟩

theorem inv_stepGuard {guard : Guard}
    (hguard : state.guards[number]? = some guard) {act : Act} {after : State}
    (hstep : state.stepGuard number guard act = some after) :
    Inv resolver after := by
  obtain ⟨hid, _, flight, hflight, _, _⟩ := hinv.leads number guard hguard
  unfold State.stepGuard at hstep
  cases act with
  | follower index =>
    dsimp only at hstep
    split_ifs at hstep with hlive
    obtain rfl := Option.some.inj hstep
    rw [hid]
    exact inv_follow hinv hguard hlive
  | finish index outcome =>
    dsimp only at hstep
    split_ifs at hstep with hlive
    obtain rfl := Option.some.inj hstep
    exact inv_unregister hinv hguard hlive (by simp) fun _ h => h
  | drop index =>
    dsimp only at hstep
    split_ifs at hstep with hlive
    obtain rfl := Option.some.inj hstep
    exact inv_unregister hinv hguard hlive (by simp) fun _ h => h
  | count index =>
    dsimp only at hstep
    split at hstep
    · rename_i outcome hstatus
      have hopen : ∀ seen, Saw (.observed seen) guard.status → False := by
        intro seen hsaw
        rw [hstatus] at hsaw
        cases seen <;> cases hsaw
      split_ifs at hstep with hpos
      · obtain rfl := Option.some.inj hstep
        refine inv_moveGuard hinv hguard (fun flight => flight) ?_
          (fun _ => ⟨rfl, rfl⟩) ?_ hopen (by simp) ?_
          fun _ _ _ _ _ _ => rfl
        · refine List.ext_getElem? fun id => ?_
          rw [Core.getElem?_setFlight]
          simp
        · intro flight _ hpending
          rw [hstatus] at hpending
          exact hpending
        · intro hash registered hregistered
          refine ⟨hregistered, ?_⟩
          rintro rfl
          obtain ⟨found, hfound, hlive, _⟩ :=
            hinv.registry hash registered hregistered
          obtain rfl := Option.some.inj (hguard.symm.trans hfound)
          simp [hstatus] at hlive
      · obtain rfl := Option.some.inj hstep
        refine inv_setState hinv hguard (by simp [hstatus]) hopen (by simp)
          fun found hfound _ => Or.inr ⟨rfl, ?_⟩
        rw [receivers, hid, hfound] at hpos
        simpa using hpos
    · contradiction
  | send index =>
    dsimp only at hstep
    split at hstep
    · rename_i outcome hstatus
      obtain rfl := Option.some.inj hstep
      refine inv_setState hinv hguard (by simp [hstatus]) ?_ (by simp)
        fun found hfound _ => Or.inl rfl
      intro seen hsaw
      rw [hstatus] at hsaw
      cases seen <;> cases hsaw
    · contradiction
  | abandon index =>
    dsimp only at hstep
    split_ifs at hstep with hstatus
    obtain rfl := Option.some.inj hstep
    refine inv_setState hinv hguard (by simp [hstatus]) ?_ (by simp)
      fun found hfound _ => rfl
    intro seen hsaw
    rw [hstatus] at hsaw
    cases seen <;> cases hsaw
  | _ => contradiction

theorem saw_of_wait {follower : Follower}
    (hfollower : state.followers[number]? = some follower)
    (hwaiting : follower.status = .waiting) {guard : Guard}
    (hguard : state.guards[follower.flight]? = some guard) {flight : Flight}
    (hflight : state.core.flights[follower.flight]? = some flight)
    {waited : Wait}
    (hwait : Core.waitResult false flight.state .none = some waited) :
    Saw (.observed waited) guard.status := by
  obtain ⟨_, _, same, hsame, _, hstate⟩ := hinv.leads _ guard hguard
  obtain rfl := Option.some.inj (hsame.symm.trans hflight)
  cases hstatus : guard.status with
  | finished outcome =>
    rw [hstatus] at hstate
    rcases hstate with hdone | ⟨_, hzero⟩
    · rw [hdone] at hwait
      obtain rfl := Option.some.inj hwait
      rfl
    · -- the follower itself is one of the receivers
      rw [hinv.counted _ same hflight, waiting, List.countP_eq_zero] at hzero
      have hnone := hzero follower (List.mem_of_getElem? hfollower)
      simp [hwaiting] at hnone
  | dropped =>
    rw [hstatus] at hstate
    rw [show same.state = .abandoned from hstate] at hwait
    obtain rfl := Option.some.inj hwait
    rfl
  | _ =>
    rw [hstatus] at hstate
    rw [show same.state = .pending from hstate] at hwait
    contradiction

theorem inv_stepFollower {follower : Follower}
    (hfollower : state.followers[number]? = some follower) {act : Act}
    {after : State}
    (hstep : state.stepFollower number follower act = some after) :
    Inv resolver after := by
  unfold State.stepFollower at hstep
  cases act with
  | wait index =>
    dsimp only at hstep
    split_ifs at hstep with hwaiting
    obtain ⟨⟨waited, core⟩, hwait, rfl⟩ := Option.map_eq_some_iff.mp hstep
    obtain ⟨flight, hflight, hresult, rfl⟩ := Core.wait_eq_some hwait
    exact inv_moveFollower hinv hfollower hwaiting (by simp)
      fun guard hguard => saw_of_wait hinv hfollower hwaiting hguard hflight
        hresult
  | cancel index =>
    dsimp only at hstep
    split_ifs at hstep with hwaiting
    obtain rfl := Option.some.inj hstep
    exact inv_moveFollower hinv hfollower hwaiting (by simp)
      fun _ _ => trivial
  | _ => contradiction

theorem inv_step {after : State} (hstep : State.Step resolver state after) :
    Inv resolver after := by
  obtain ⟨act, hact⟩ := hstep
  cases act with
  | join task key purpose => exact inv_join hinv hact
  | follower guard | finish guard outcome | count guard
  | send guard | drop guard | abandon guard =>
    obtain ⟨found, hfound, hmoved⟩ := Option.bind_eq_some_iff.mp hact
    exact inv_stepGuard hinv hfound hmoved
  | wait follower | cancel follower =>
    obtain ⟨found, hfound, hmoved⟩ := Option.bind_eq_some_iff.mp hact
    exact inv_stepFollower hinv hfound hmoved

end Steps

theorem inv_of_reaches {resolver : Resolver} {state : State}
    (h : State.Reaches resolver (initial resolver) state) :
    Inv resolver state :=
  invariant_of_reaches (initial_inv resolver)
    (fun _ _ hinv hstep => inv_step hinv hstep) h

/-! ## Every run -/

/-- What the follower learns if it looks now; nothing while the flight is
pending. -/
def State.sees (state : State) (follower : Follower) : Option Wait :=
  match follower.status with
  | .waiting =>
      state.core.flights[follower.flight]?.bind fun flight =>
        Core.waitResult false flight.state .none
  | .observed waited => some waited
  | .gone => none

def ending : GuardStatus → Option Wait
  | .finished outcome => some (.done outcome)
  | .dropped => some .abandoned
  | _ => none

theorem ending_of_saw {seen : Wait} {status : GuardStatus}
    (h : Saw (.observed seen) status) : ending status = some seen := by
  cases seen with
  | done outcome =>
    rw [show status = .finished outcome from h]
    rfl
  | abandoned =>
    rw [show status = .dropped from h]
    rfl
  | timedOut => exact h.elim
  | dropped => exact h.elim

theorem sees_ending {resolver : Resolver} {state : State}
    (hinv : Inv resolver state) {number : ℕ} {follower : Follower}
    (hfollower : state.followers[number]? = some follower)
    (hthere : follower.status ≠ .gone) {guard : Guard}
    (hguard : state.guards[follower.flight]? = some guard) {waited : Wait}
    (hended : ending guard.status = some waited) :
    state.sees follower = some waited := by
  obtain ⟨same, hsame, _, hsaw⟩ := hinv.follows number follower hfollower
  obtain rfl := Option.some.inj (hguard.symm.trans hsame)
  obtain ⟨_, _, flight, hflight, _, hstate⟩ := hinv.leads _ guard hguard
  unfold State.sees
  cases hstatus : follower.status with
  | gone => exact absurd hstatus hthere
  | observed seen =>
    rw [hstatus] at hsaw
    exact (ending_of_saw hsaw).symm.trans hended
  | waiting =>
    dsimp only
    rw [hflight, Option.bind_some]
    cases hresult : Core.waitResult false flight.state .none with
    | some seen =>
      exact (ending_of_saw (saw_of_wait hinv hfollower hstatus hguard
        hflight hresult)).symm.trans hended
    | none =>
      -- a flight which has ended is not pending
      cases hguardStatus : guard.status with
      | finished outcome =>
        rw [hguardStatus] at hstate
        rcases hstate with hdone | ⟨hclosed, _⟩
        · rw [hdone] at hresult
          cases hresult
        · rw [hclosed] at hresult
          cases hresult
      | dropped =>
        rw [hguardStatus] at hstate
        rw [show flight.state = .abandoned from hstate] at hresult
        cases hresult
      | _ =>
        rw [hguardStatus] at hended
        cases hended

/-- In every state which the callers can reach, followers and guards of the
registry are as they should be. -/
theorem registry_of_reaches {resolver : Resolver} {state : State}
    (hreaches : State.Reaches resolver (initial resolver) state) :
    -- a follower sees only a flight led for its own key
    (∀ (number : ℕ) (follower : Follower),
      state.followers[number]? = some follower →
      ∃ (guard : Guard) (flight : Flight),
        state.guards[follower.flight]? = some guard ∧
        guard.key = follower.key ∧
        state.core.flights[follower.flight]? = some flight ∧
        flight.key = follower.key) ∧
    -- every registered flight has a live guard, at most one for each hash
    (∀ hash registered,
      state.core.registry.lookup hash = some registered →
      ∃ guard : Guard, state.guards[registered.flight]? = some guard ∧
        guard.status = .live ∧ guard.leader.hash = hash ∧
        guard.key = registered.key) ∧
    (∀ (id other : ℕ) (guard guard' : Guard),
      state.guards[id]? = some guard → state.guards[other]? = some guard' →
      guard.status = .live → guard'.status = .live →
      guard.leader.registered = true → guard'.leader.registered = true →
      guard.leader.hash = guard'.leader.hash → id = other) ∧
    -- a guard which has ended is not registered, and whoever joined sees how
    (∀ (id : ℕ) (guard : Guard) (waited : Wait),
      state.guards[id]? = some guard → ending guard.status = some waited →
      (∀ hash registered,
        state.core.registry.lookup hash = some registered →
        registered.flight ≠ id) ∧
      ∀ (number : ℕ) (follower : Follower),
        state.followers[number]? = some follower → follower.flight = id →
        follower.status ≠ .gone → state.sees follower = some waited) ∧
    -- without a live guard nothing is registered
    ((∀ guard ∈ state.guards, guard.status ≠ .live) →
      state.core.registry = ∅) := by
  have hinv := inv_of_reaches hreaches
  refine ⟨?_, ?_, ?_, ?_, ?_⟩
  · intro number follower hfollower
    obtain ⟨guard, hguard, hkey, _⟩ := hinv.follows number follower hfollower
    obtain ⟨_, _, flight, hflight, hfkey, _⟩ := hinv.leads _ guard hguard
    exact ⟨guard, flight, hguard, hkey, hflight, hfkey.trans hkey⟩
  · intro hash registered hregistered
    obtain ⟨guard, hguard, hlive, _, hhash, hkey⟩ :=
      hinv.registry hash registered hregistered
    exact ⟨guard, hguard, hlive, hhash, hkey⟩
  · intro id other guard guard' hguard hguard' hlive hlive' hyes hyes' hhash
    have hid := hinv.registered id guard hguard hlive hyes
    have hother := hinv.registered other guard' hguard' hlive' hyes'
    rw [hhash, hother] at hid
    exact (Registered.mk.inj (Option.some.inj hid)).2.symm
  · intro id guard waited hguard hended
    refine ⟨?_, ?_⟩
    · rintro hash registered hregistered rfl
      obtain ⟨found, hfound, hlive, _⟩ :=
        hinv.registry hash registered hregistered
      obtain rfl := Option.some.inj (hguard.symm.trans hfound)
      rw [hlive] at hended
      cases hended
    · rintro number follower hfollower rfl hthere
      exact sees_ending hinv hfollower hthere hguard hended
  · intro hnone
    refine AList.ext ?_
    refine List.eq_nil_iff_forall_not_mem.mpr ?_
    rintro ⟨hash, registered⟩ hmem
    obtain ⟨guard, hguard, hlive, _⟩ := hinv.registry hash registered
      (AList.mem_lookup_iff.mpr hmem)
    exact hnone guard (List.mem_of_getElem? hguard) hlive

def State.run (resolver : Resolver) : List Act → State → Option State
  | [], state => some state
  | act :: rest, state => (state.step resolver act).bind (run resolver rest)

theorem State.reaches_of_run {resolver : Resolver} {acts : List Act}
    {before after : State} (h : before.run resolver acts = some after) :
    Reaches resolver before after := by
  induction acts generalizing before with
  | nil =>
    obtain rfl := Option.some.inj h
    exact .refl
  | cons act rest ih =>
    obtain ⟨next, hstep, hrest⟩ := Option.bind_eq_some_iff.mp h
    exact .head ⟨act, hstep⟩ (ih hrest)

def sampleOutcome : Outcome :=
  .failed ⟨0, 0, homeGroup, askAddress 97, 0⟩ .timeout

/-- Two keys have the same hash.  The second is led in private, a third caller
follows the first and sees its outcome. -/
theorem registry_after_collision :
    let resolver := homeResolver smallCache
    ∃ state guard follower,
      State.Reaches resolver (initial resolver) state ∧
      state.guards[0]? = some guard ∧
      guard.status = .finished sampleOutcome ∧
      state.followers[0]? = some follower ∧ follower.flight = 0 ∧
      follower.status = .waiting ∧
      state.sees follower = some (.done sampleOutcome) := by
  intro resolver
  let acts : List Act := [.join 0 [1] (.query false),
    .join 1 [2] (.query false), .join 2 [1] (.query false),
    .finish 0 sampleOutcome, .drop 1, .count 0, .send 0]
  have hrun : ((initial resolver).run resolver acts).any (fun state =>
      decide ((state.guards[0]?.map Guard.status) =
          some (.finished sampleOutcome)) &&
        decide ((state.followers[0]?.map fun follower =>
          (follower.flight, follower.status)) = some (0, .waiting))) =
      true := by
    decide
  obtain ⟨state, hstate, hcheck⟩ := (Option.any_eq_true _ _).mp hrun
  obtain ⟨hguard, hfollower⟩ := Bool.and_eq_true_iff.mp hcheck
  obtain ⟨guard, hguard, hstatus⟩ :=
    Option.map_eq_some_iff.mp (of_decide_eq_true hguard)
  obtain ⟨follower, hfollower, heq⟩ :=
    Option.map_eq_some_iff.mp (of_decide_eq_true hfollower)
  obtain ⟨hflight, hwaiting⟩ := Prod.mk.inj heq
  have hreaches := State.reaches_of_run hstate
  obtain ⟨_, _, _, hended, _⟩ := registry_of_reaches hreaches
  exact ⟨state, guard, follower, hreaches, hguard, hstatus, hfollower,
    hflight, hwaiting, (hended 0 guard _ hguard (by rw [hstatus]; rfl)).2 0
      follower hfollower hflight (by rw [hwaiting]; decide)⟩

end FlightRegistry

end DnsLattice
