import DnsLattice.ResolverRules

/-!
# One leader for each key

A task which leads the registered flight of a key is alone with it: as long as
the fate of the flight is open, no other task stores anything under the key or
begins an upstream call for it.  What the leader has seen in the store when it
looked again is therefore still all there is when it asks the upstream, stores
a failure or tells its followers.

An answer enters the store at most once, under the upstream call which made
it.  So an answer which was in the store and is there now was there all the
time.
-/

namespace DnsLattice

open Logic

def Outcome.Serves (entry : CachedAnswer) : Outcome → Prop
  | .cached found =>
      found.failure = none ∧ found.message.header.rcode.failing = false
  | .raw _ answer => answer.header.rcode.failing = false
  | .failed _ _ => False
  | .stale other => other = entry

namespace Ownership

def Leads (core : Core) (task id : ℕ) (key : List UInt8) (prefetch : Bool) :
    Prop :=
  ∃ flight : Flight, core.flights[id]? = some flight ∧ flight.key = key ∧
    flight.owner = task ∧ flight.prefetch = prefetch ∧ flight.fate = none

variable (resolver : Resolver)

def Keyed (key : List UInt8) (call : UpstreamCall) : Prop :=
  resolver.cacheKey call.group call.query = some key

def loopsFor (core : Core) (key : List UInt8) : List UpstreamCall :=
  core.loops.filter fun call =>
    resolver.cacheKey call.group call.query = some key

structure Inv (core : Core) : Prop where
  sound : core.store.Sound resolver.storeHash
  enabled : ∀ key entry, core.store.Holds key entry →
    resolver.cache.storeEnabled = true
  offered : ∀ key entry, core.store.Holds key entry →
    entry.origin ∈ core.offered
  offered_lt : ∀ call ∈ core.offered, call.id < core.nextCall
  proper : ∀ key entry, core.store.Holds key entry → entry.failure = none →
    entry.message.header.rcode.failing = false
  alone : resolver.cache.coalesce = false → core.flights = []
  registry : ∀ hash registered,
    core.registry.lookup hash = some registered →
    resolver.flightHash registered.key = hash ∧
      ∃ flight : Flight, core.flights[registered.flight]? = some flight ∧
        flight.key = registered.key ∧ flight.fate = none
  registered : ∀ (id : ℕ) (flight : Flight),
    core.flights[id]? = some flight → flight.fate = none →
    core.registry.lookup (resolver.flightHash flight.key) =
      some ⟨flight.key, id⟩
  published : ∀ (id : ℕ) (flight : Flight) (outcome : Outcome),
    core.flights[id]? = some flight → flight.state = .done outcome →
    flight.fate = some (some outcome)
  led : resolver.cache.coalesce = true → ∀ call ∈ core.loops, ∀ key,
    Keyed resolver key call →
    ∃ (id : ℕ) (flight : Flight), core.flights[id]? = some flight ∧
      flight.key = key ∧ flight.fate = none
  single : resolver.cache.coalesce = true → ∀ key,
    (loopsFor resolver core key).length ≤ 1

structure Grows (core after : Core) : Prop where
  clock_le : core.clock ≤ after.clock
  nextCall_le : core.nextCall ≤ after.nextCall
  mask_eq : after.store.mask = core.store.mask
  offered : ∀ call ∈ core.offered, call ∈ after.offered
  holds : ∀ key entry, after.store.Holds key entry →
    entry.origin ∈ core.offered → core.store.Holds key entry
  flights : ∀ (id : ℕ) (flight : Flight), core.flights[id]? = some flight →
    ∃ flight' : Flight, after.flights[id]? = some flight' ∧
      flight'.key = flight.key ∧ flight'.prefetch = flight.prefetch ∧
      ∀ fate, flight.fate = some fate → flight'.fate = some fate
  decided : ∀ (id : ℕ) (flight flight' : Flight) (outcome : Outcome),
    core.flights[id]? = some flight → after.flights[id]? = some flight' →
    flight.fate = none → flight'.fate = some (some outcome) →
    flight.prefetch = false → resolver.cache.serveStale.isSome = true →
    ∀ entry, entry.origin ∈ core.offered → entry.failure = none →
      after.store.Holds flight.key entry → outcome.Serves entry

structure Rely (task : ℕ) (core after : Core) : Prop
    extends Grows resolver core after where
  others : ∀ call ∈ after.offered, call ∉ core.offered → call.task ≠ task
  own : ∀ id key prefetch, Leads core task id key prefetch →
    Leads after task id key prefetch ∧
      (∀ entry, after.store.Holds key entry →
        core.store.Holds key entry) ∧
      ∀ call ∈ after.loops, Keyed resolver key call → call ∈ core.loops

variable {resolver} {task : ℕ} {core after : Core}

theorem Grows.refl (core : Core) : Grows resolver core core where
  clock_le := le_refl _
  nextCall_le := le_refl _
  mask_eq := rfl
  offered := fun _ h => h
  holds := fun _ _ h _ => h
  flights := fun _ flight h => ⟨flight, h, rfl, rfl, fun _ h => h⟩
  decided := by
    intro id flight flight' outcome hflight hflight' hopen hfate
    obtain rfl := Option.some.inj (hflight.symm.trans hflight')
    rw [hopen] at hfate
    contradiction

theorem Grows.trans {middle : Core} (h : Grows resolver core middle)
    (h' : Grows resolver middle after) : Grows resolver core after where
  clock_le := h.clock_le.trans h'.clock_le
  nextCall_le := h.nextCall_le.trans h'.nextCall_le
  mask_eq := h'.mask_eq.trans h.mask_eq
  offered := fun call hcall => h'.offered call (h.offered call hcall)
  holds := fun key entry hheld horigin =>
    h.holds key entry (h'.holds key entry hheld (h.offered _ horigin)) horigin
  flights := by
    intro id flight hflight
    obtain ⟨first, hfirst, hkey, hprefetch, hfate⟩ := h.flights id flight hflight
    obtain ⟨second, hsecond, hkey', hprefetch', hfate'⟩ :=
      h'.flights id first hfirst
    exact ⟨second, hsecond, hkey'.trans hkey, hprefetch'.trans hprefetch,
      fun fate hold => hfate' fate (hfate fate hold)⟩
  decided := by
    intro id flight flight' outcome hflight hflight' hopen hfate hquery hserve
      entry horigin hanswer hheld
    obtain ⟨first, hfirst, hkey, hprefetch, _⟩ := h.flights id flight hflight
    cases hmiddle : first.fate with
    | none =>
      rw [← hkey] at hheld
      exact h'.decided id first flight' outcome hfirst hflight' hmiddle hfate
        (hprefetch.trans hquery) hserve entry (h.offered _ horigin) hanswer
        hheld
    | some fate =>
      obtain ⟨second, hsecond, _, _, hkept⟩ := h'.flights id first hfirst
      obtain rfl := Option.some.inj (hsecond.symm.trans hflight')
      obtain rfl := Option.some.inj ((hkept fate hmiddle).symm.trans hfate)
      exact h.decided id flight first outcome hflight hfirst hopen hmiddle
        hquery hserve entry horigin hanswer
        (h'.holds _ entry hheld (h.offered _ horigin))

theorem Rely.refl (task : ℕ) (core : Core) :
    Rely resolver task core core where
  toGrows := Grows.refl core
  others := fun _ h hnot => absurd h hnot
  own := fun _ _ _ h => ⟨h, fun _ h => h, fun _ h _ => h⟩

theorem Rely.trans {middle : Core} (h : Rely resolver task core middle)
    (h' : Rely resolver task middle after) :
    Rely resolver task core after where
  toGrows := h.toGrows.trans h'.toGrows
  others := by
    intro call hcall hnot
    by_cases hmiddle : call ∈ middle.offered
    · exact h.others call hmiddle hnot
    · exact h'.others call hcall hmiddle
  own := by
    intro id key prefetch hleads
    obtain ⟨hmiddle, hheld, hloops⟩ := h.own id key prefetch hleads
    obtain ⟨hafter, hheld', hloops'⟩ := h'.own id key prefetch hmiddle
    exact ⟨hafter, fun entry hentry => hheld entry (hheld' entry hentry),
      fun call hcall hkey => hloops call (hloops' call hcall hkey) hkey⟩

theorem Inv.leader_unique (hinv : Inv resolver core) {id other : ℕ}
    {flight flight' : Flight} (hflight : core.flights[id]? = some flight)
    (hflight' : core.flights[other]? = some flight')
    (hopen : flight.fate = none) (hopen' : flight'.fate = none)
    (hkey : flight.key = flight'.key) : id = other := by
  have hid := hinv.registered id flight hflight hopen
  have hother := hinv.registered other flight' hflight' hopen'
  rw [hkey, hother] at hid
  exact (Registered.mk.inj (Option.some.inj hid)).2.symm

/-! ## Changes which everyone relies on -/

structure Alike (flight flight' : Flight) : Prop where
  key : flight'.key = flight.key
  prefetch : flight'.prefetch = flight.prefetch
  fate : flight'.fate = flight.fate
  done : ∀ outcome, flight'.state = .done outcome →
    flight.state = .done outcome ∨ flight.fate = some (some outcome)

theorem Alike.refl (flight : Flight) : Alike flight flight :=
  ⟨rfl, rfl, rfl, fun _ h => Or.inl h⟩

structure Keeps (resolver : Resolver) (core after : Core) : Prop where
  inv : Inv resolver after
  rely : ∀ task, Rely resolver task core after

section Changes

variable (hinv : Inv resolver core)

include hinv

theorem keeps_refl : Keeps resolver core core :=
  ⟨hinv, fun task => Rely.refl task core⟩

theorem keeps_of_same {clock : ℕ} (hclock : core.clock ≤ clock)
    (epoch flushed : ℕ) (locks : ℕ → Option ShardLock)
    (history : List UpstreamReturn) :
    Keeps resolver core { core with
      clock := clock
      epoch := epoch
      flushed := flushed
      locks := locks
      history := history } :=
  ⟨{ hinv with }, fun task =>
    { (Rely.refl task core : Rely resolver task core core) with
      clock_le := hclock }⟩

theorem keeps_of_loses (h : Core.StoreLoses resolver core after) :
    Keeps resolver core after := by
  rw [h.rest]
  refine ⟨{ hinv with
    sound := h.sound
    enabled := fun key entry hheld =>
      hinv.enabled key entry (h.holds key entry hheld)
    offered := fun key entry hheld =>
      hinv.offered key entry (h.holds key entry hheld)
    proper := fun key entry hheld =>
      hinv.proper key entry (h.holds key entry hheld) }, ?_⟩
  intro task
  refine { (Rely.refl task core : Rely resolver task core core) with
    mask_eq := h.mask
    holds := fun key entry hheld _ => h.holds key entry hheld
    decided := ?_
    own := fun id key prefetch hleads =>
      ⟨hleads, fun entry hentry => h.holds key entry hentry, fun _ h _ => h⟩ }
  intro id flight flight' outcome hflight hflight' hopen hfate
  obtain rfl := Option.some.inj (hflight.symm.trans hflight')
  rw [hopen] at hfate
  contradiction

omit hinv in
theorem setFlight_forth {id : ℕ} {change : Flight → Flight}
    (hchange : ∀ flight, core.flights[id]? = some flight →
      Alike flight (change flight)) {other : ℕ}
    {flight : Flight} (hflight : core.flights[other]? = some flight) :
    ∃ flight' : Flight,
      (core.setFlight id change).flights[other]? = some flight' ∧
      Alike flight flight' ∧
      (flight' = flight ∨ other = id ∧ flight' = change flight) := by
  rw [Core.getElem?_setFlight, hflight]
  refine ⟨_, rfl, ?_⟩
  dsimp only
  by_cases heq : id = other
  · rw [if_pos heq]
    exact ⟨hchange flight (heq ▸ hflight), Or.inr ⟨heq.symm, rfl⟩⟩
  · rw [if_neg heq]
    exact ⟨.refl flight, Or.inl rfl⟩

omit hinv in
theorem setFlight_back {id : ℕ} {change : Flight → Flight}
    (hchange : ∀ flight, core.flights[id]? = some flight →
      Alike flight (change flight)) {other : ℕ} {flight' : Flight}
    (hflight' : (core.setFlight id change).flights[other]? =
      some flight') :
    ∃ flight : Flight, core.flights[other]? = some flight ∧
      Alike flight flight' := by
  have hold := hflight'
  rw [Core.getElem?_setFlight] at hold
  obtain ⟨flight, hflight, _⟩ := Option.map_eq_some_iff.mp hold
  obtain ⟨same, hsame, halike, _⟩ := setFlight_forth hchange hflight
  obtain rfl := Option.some.inj (hsame.symm.trans hflight')
  exact ⟨flight, hflight, halike⟩

theorem setFlight_inv {id : ℕ} {change : Flight → Flight}
    (hchange : ∀ flight, core.flights[id]? = some flight →
      Alike flight (change flight)) :
    Inv resolver (core.setFlight id change) :=
  { hinv with
    alone := by
      intro hoff
      simp [Core.setFlight, hinv.alone hoff]
    registry := by
      intro hash registered hregistered
      obtain ⟨hhash, flight, hflight, hkey, hopen⟩ :=
        hinv.registry hash registered hregistered
      obtain ⟨flight', hflight', halike, _⟩ := setFlight_forth hchange hflight
      exact ⟨hhash, flight', hflight', halike.key.trans hkey,
        halike.fate.trans hopen⟩
    registered := by
      intro other flight' hflight' hopen
      obtain ⟨flight, hflight, halike⟩ := setFlight_back hchange hflight'
      rw [halike.key]
      exact hinv.registered other flight hflight
        (halike.fate.symm.trans hopen)
    published := by
      intro other flight' outcome hflight' hstate
      obtain ⟨flight, hflight, halike⟩ := setFlight_back hchange hflight'
      rw [halike.fate]
      rcases halike.done outcome hstate with hold | hfated
      · exact hinv.published other flight outcome hflight hold
      · exact hfated
    led := by
      intro hcoalesce call hcall key hkeyed
      obtain ⟨other, flight, hflight, hkey, hopen⟩ :=
        hinv.led hcoalesce call hcall key hkeyed
      obtain ⟨flight', hflight', halike, _⟩ := setFlight_forth hchange hflight
      exact ⟨other, flight', hflight', halike.key.trans hkey,
        halike.fate.trans hopen⟩ }

omit hinv in
theorem setFlight_rely {id : ℕ} {change : Flight → Flight}
    (hchange : ∀ flight, core.flights[id]? = some flight →
      Alike flight (change flight))
    (howner : ∀ flight : Flight, core.flights[id]? = some flight →
      flight.owner = task → (change flight).owner = task) :
    Rely resolver task core (core.setFlight id change) := by
  refine { (Rely.refl task core : Rely resolver task core core) with
    flights := ?_
    decided := ?_
    own := ?_ }
  · intro other flight hflight
    obtain ⟨flight', hflight', halike, _⟩ := setFlight_forth hchange hflight
    exact ⟨flight', hflight', halike.key, halike.prefetch,
      fun fate hold => halike.fate.trans hold⟩
  · intro other flight flight' outcome hflight hflight' hopen hfated
    obtain ⟨same, hsame, halike⟩ := setFlight_back hchange hflight'
    obtain rfl := Option.some.inj (hsame.symm.trans hflight)
    rw [halike.fate, hopen] at hfated
    contradiction
  · rintro other key prefetch ⟨flight, hflight, hkey, hmine, hprefetch, hopen⟩
    obtain ⟨flight', hflight', halike, heq⟩ := setFlight_forth hchange hflight
    have hmine' : flight'.owner = task := by
      rcases heq with rfl | ⟨rfl, rfl⟩
      · exact hmine
      · exact howner flight hflight hmine
    exact ⟨⟨flight', hflight', halike.key.trans hkey, hmine',
      halike.prefetch.trans hprefetch, halike.fate.trans hopen⟩,
      fun _ h => h, fun _ h _ => h⟩

theorem keeps_setFlight {id : ℕ} {change : Flight → Flight}
    (hchange : ∀ flight, core.flights[id]? = some flight →
      Alike flight (change flight))
    (howner : ∀ flight, (change flight).owner = flight.owner) :
    Keeps resolver core (core.setFlight id change) :=
  ⟨setFlight_inv hinv hchange, fun _ =>
    setFlight_rely hchange fun flight _ hmine =>
      (howner flight).trans hmine⟩

theorem keeps_lead (hcoalesce : resolver.cache.coalesce = true)
    {key : List UInt8}
    (hnone : core.registry.lookup (resolver.flightHash key) = none)
    (task : ℕ) (purpose : Purpose) :
    Keeps resolver core ((core.addFlight task key purpose).register
      (resolver.flightHash key) ⟨key, core.flights.length⟩) := by
  have hforth := fun (id : ℕ) (flight : Flight)
    (h : core.flights[id]? = some flight) =>
      Core.getElem?_addFlight_of_some h task key purpose
  constructor
  · exact { hinv with
      alone := by simp [hcoalesce]
      registry := by
        intro hash registered hregistered
        change (core.registry.insert _ _).lookup hash = _ at hregistered
        by_cases heq : hash = resolver.flightHash key
        · rw [heq, AList.lookup_insert] at hregistered
          obtain rfl := Option.some.inj hregistered
          exact ⟨heq.symm, _, core.getElem?_addFlight_length task key purpose,
            rfl, rfl⟩
        · rw [AList.lookup_insert_ne heq] at hregistered
          obtain ⟨hhash, flight, hflight, hkey, hopen⟩ :=
            hinv.registry hash registered hregistered
          exact ⟨hhash, flight, hforth _ flight hflight, hkey, hopen⟩
      registered := by
        intro id flight hflight hopen
        change (core.registry.insert _ _).lookup _ = _
        rcases Core.addFlight_cases hflight with hold | ⟨rfl, rfl⟩
        · have hlookup := hinv.registered id flight hold hopen
          have hne : resolver.flightHash flight.key ≠
              resolver.flightHash key := by
            intro heq
            rw [heq, hnone] at hlookup
            contradiction
          rw [AList.lookup_insert_ne hne]
          exact hlookup
        · exact AList.lookup_insert _
      published := by
        intro id flight outcome hflight hstate
        rcases Core.addFlight_cases hflight with hold | ⟨rfl, rfl⟩
        · exact hinv.published id flight outcome hold hstate
        · cases hstate
      led := by
        intro _ call hcall other hkeyed
        obtain ⟨id, flight, hflight, hkey, hopen⟩ :=
          hinv.led hcoalesce call hcall other hkeyed
        exact ⟨id, flight, hforth id flight hflight, hkey, hopen⟩ }
  · intro number
    refine { (Rely.refl number core : Rely resolver number core core) with
      flights := ?_
      decided := ?_
      own := ?_ }
    · exact fun id flight hflight =>
        ⟨flight, hforth id flight hflight, rfl, rfl, fun _ h => h⟩
    · intro id flight flight' outcome hflight hflight' hopen hfated
      obtain rfl := Option.some.inj
        ((hforth id flight hflight).symm.trans hflight')
      rw [hopen] at hfated
      contradiction
    · rintro id other prefetch ⟨flight, hflight, hfacts⟩
      exact ⟨⟨flight, hforth id flight hflight, hfacts⟩, fun _ h => h,
        fun _ h _ => h⟩

theorem keeps_endCall (origin : UpstreamCall) :
    Keeps resolver core (core.endCall origin) := by
  have hsub : ∀ call ∈ (core.endCall origin).loops, call ∈ core.loops :=
    fun call hcall => (List.mem_filter.mp hcall).1
  refine ⟨{ hinv with
    led := fun hcoalesce call hcall => hinv.led hcoalesce call
      (hsub call hcall)
    single := fun hcoalesce key =>
      (List.filter_sublist.filter _).length_le.trans
        (hinv.single hcoalesce key) }, ?_⟩
  intro task
  exact { (Rely.refl task core : Rely resolver task core core) with
    own := fun id key prefetch h =>
      ⟨h, fun _ h => h, fun call hcall _ => hsub call hcall⟩ }

end Changes

/-! ## Changes by the leader -/

def Quiet (resolver : Resolver) (core : Core) (key : List UInt8) : Prop :=
  ∀ call ∈ core.loops, ¬Keyed resolver key call

structure Guarded (resolver : Resolver) (core : Core) (task : ℕ)
    (guard : LeaderGuard) (key : List UInt8) (prefetch : Bool) : Prop where
  registered : guard.registered = true
  hash : guard.hash = resolver.flightHash key
  leads : Leads core task guard.flight key prefetch

section Leader

variable (hinv : Inv resolver core)

include hinv

theorem Inv.leads_unique {other id id' : ℕ} {key : List UInt8}
    {prefetch prefetch' : Bool} (h : Leads core task id key prefetch)
    (h' : Leads core other id' key prefetch') : task = other := by
  obtain ⟨flight, hflight, hkey, howner, _, hopen⟩ := h
  obtain ⟨flight', hflight', hkey', howner', _, hopen'⟩ := h'
  obtain rfl := hinv.leader_unique hflight hflight' hopen hopen'
    (hkey.trans hkey'.symm)
  obtain rfl := Option.some.inj (hflight.symm.trans hflight')
  exact howner.symm.trans howner'

theorem unregister_step {guard : LeaderGuard} {key : List UInt8}
    {prefetch : Bool} {fate : Option Outcome}
    (hguard : Guarded resolver core task guard key prefetch)
    (hquiet : resolver.cache.coalesce = true → Quiet resolver core key)
    (hserves : ∀ outcome, fate = some outcome → prefetch = false →
      resolver.cache.serveStale.isSome = true → ∀ entry,
      core.store.Holds key entry → entry.failure = none →
      outcome.Serves entry) :
    Inv resolver (core.unregister guard fate) ∧
      ∀ other, other ≠ task →
        Rely resolver other core (core.unregister guard fate) := by
  obtain ⟨leader, hleader, hkey, howner, hprefetch, hopen⟩ := hguard.leads
  have hlookup := hinv.registered _ leader hleader hopen
  rw [hkey, ← hguard.hash] at hlookup
  have hregistry : (core.unregister guard fate).registry =
      core.registry.erase guard.hash := by
    change core.unregistered guard = _
    unfold Core.unregistered
    rw [if_pos ⟨hguard.registered, by rw [hlookup]; rfl⟩]
  have hforth : ∀ (id : ℕ) (flight : Flight), id ≠ guard.flight →
      core.flights[id]? = some flight →
      (core.unregister guard fate).flights[id]? = some flight := by
    intro id flight hne hflight
    change (core.setFlight _ _).flights[id]? = _
    rw [Core.getElem?_setFlight, hflight]
    simp [Ne.symm hne]
  have hcases : ∀ (id : ℕ) (flight : Flight),
      (core.unregister guard fate).flights[id]? = some flight →
      (id = guard.flight ∧ flight = { leader with fate := some fate }) ∨
        id ≠ guard.flight ∧ core.flights[id]? = some flight := by
    intro id flight hflight
    change (core.setFlight _ _).flights[id]? = _ at hflight
    rw [Core.getElem?_setFlight] at hflight
    by_cases heq : guard.flight = id
    · subst heq
      rw [hleader] at hflight
      left
      simpa using hflight.symm
    · right
      refine ⟨Ne.symm heq, ?_⟩
      simpa [heq] using hflight
  have hself : (core.unregister guard fate).flights[guard.flight]? =
      some { leader with fate := some fate } := by
    change (core.setFlight _ _).flights[guard.flight]? = _
    rw [Core.getElem?_setFlight, hleader]
    simp
  constructor
  · exact { hinv with
      alone := by
        intro hoff
        rw [hinv.alone hoff] at hleader
        contradiction
      registry := by
        intro hash registered hregistered
        rw [hregistry] at hregistered
        by_cases heq : hash = guard.hash
        · rw [heq, AList.lookup_erase] at hregistered
          contradiction
        · rw [AList.lookup_erase_ne heq] at hregistered
          obtain ⟨hhash, flight, hflight, hfkey, hfopen⟩ :=
            hinv.registry hash registered hregistered
          have hne : registered.flight ≠ guard.flight := by
            intro hsame
            rw [hsame, hleader] at hflight
            obtain rfl := Option.some.inj hflight
            apply heq
            rw [← hhash, ← hfkey, hkey, hguard.hash]
          exact ⟨hhash, flight, hforth _ flight hne hflight, hfkey, hfopen⟩
      registered := by
        intro id flight hflight hfopen
        rcases hcases id flight hflight with ⟨_, rfl⟩ | ⟨hne, hold⟩
        · contradiction
        · have hother := hinv.registered id flight hold hfopen
          have hhash : resolver.flightHash flight.key ≠ guard.hash := by
            intro heq
            rw [heq, hlookup] at hother
            exact hne (Registered.mk.inj (Option.some.inj hother)).2.symm
          rw [hregistry, AList.lookup_erase_ne hhash]
          exact hother
      published := by
        intro id flight outcome hflight hstate
        rcases hcases id flight hflight with ⟨_, rfl⟩ | ⟨hne, hold⟩
        · have hpublished := hinv.published _ leader outcome hleader hstate
          rw [hopen] at hpublished
          contradiction
        · exact hinv.published id flight outcome hold hstate
      led := by
        intro hcoalesce call hcall other hkeyed
        obtain ⟨id, flight, hflight, hfkey, hfopen⟩ :=
          hinv.led hcoalesce call hcall other hkeyed
        have hne : id ≠ guard.flight := by
          rintro rfl
          obtain rfl := Option.some.inj (hleader.symm.trans hflight)
          refine hquiet hcoalesce call hcall ?_
          rw [← hkey, hfkey]
          exact hkeyed
        exact ⟨id, flight, hforth id flight hne hflight, hfkey, hfopen⟩ }
  · intro other hother
    refine { (Rely.refl other core : Rely resolver other core core) with
      flights := ?_
      decided := ?_
      own := ?_ }
    · intro id flight hflight
      by_cases heq : id = guard.flight
      · subst heq
        obtain rfl := Option.some.inj (hleader.symm.trans hflight)
        refine ⟨_, hself, rfl, rfl, ?_⟩
        intro decided hdecided
        rw [hopen] at hdecided
        contradiction
      · exact ⟨flight, hforth id flight heq hflight, rfl, rfl, fun _ h => h⟩
    · intro id flight flight' outcome hflight hflight' hfopen hfated hquery
        hserve entry _ hanswer hheld
      rcases hcases id flight' hflight' with ⟨rfl, rfl⟩ | ⟨_, hold⟩
      · obtain rfl := Option.some.inj (hleader.symm.trans hflight)
        exact hserves outcome (Option.some.inj hfated)
          (hprefetch.symm.trans hquery) hserve entry (hkey ▸ hheld) hanswer
      · obtain rfl := Option.some.inj (hold.symm.trans hflight)
        rw [hfopen] at hfated
        contradiction
    · rintro id otherKey otherPrefetch hleads
      have hne : id ≠ guard.flight := by
        rintro rfl
        obtain ⟨flight, hflight, _, hfowner, _⟩ := hleads
        obtain rfl := Option.some.inj (hleader.symm.trans hflight)
        exact hother (hfowner.symm.trans howner)
      obtain ⟨flight, hflight, hfacts⟩ := hleads
      exact ⟨⟨flight, hforth id flight hne hflight, hfacts⟩, fun _ h => h,
        fun _ h _ => h⟩

theorem beginCall_step {group : UpstreamGroupId} {query : Message}
    (hlead : resolver.cache.coalesce = true → ∀ key,
      resolver.cacheKey group query = some key →
      Quiet resolver core key ∧
        ∃ id prefetch, Leads core task id key prefetch) :
    Inv resolver (core.beginCall task group query).2 ∧
      ∀ other, other ≠ task →
        Rely resolver other core (core.beginCall task group query).2 := by
  constructor
  · exact { hinv with
      offered_lt := fun call hcall =>
        Nat.lt_succ_of_lt (hinv.offered_lt call hcall)
      led := by
        intro hcoalesce call hcall key hkeyed
        rcases List.mem_cons.mp hcall with rfl | hold
        · obtain ⟨_, id, _, flight, hflight, hkey, _, _, hopen⟩ :=
            hlead hcoalesce key hkeyed
          exact ⟨id, flight, hflight, hkey, hopen⟩
        · exact hinv.led hcoalesce call hold key hkeyed
      single := by
        intro hcoalesce key
        change (List.filter _ (_ :: core.loops)).length ≤ 1
        by_cases hkeyed : resolver.cacheKey group query = some key
        · obtain ⟨hquiet, _⟩ := hlead hcoalesce key hkeyed
          have hnone : loopsFor resolver core key = [] := by
            refine List.filter_eq_nil_iff.mpr fun call hcall => ?_
            simpa [Keyed] using hquiet call hcall
          rw [List.filter_cons_of_pos (by simpa using hkeyed)]
          exact Nat.le_of_eq (congrArg (List.length · + 1) hnone)
        · rw [List.filter_cons_of_neg (by simpa using hkeyed)]
          exact hinv.single hcoalesce key }
  · intro other hother
    refine { (Rely.refl other core : Rely resolver other core core) with
      nextCall_le := Nat.le_succ _
      own := ?_ }
    intro id key prefetch hleads
    refine ⟨hleads, fun _ h => h, ?_⟩
    intro call hcall hkeyed
    rcases List.mem_cons.mp hcall with rfl | hold
    · have hcoalesce : resolver.cache.coalesce = true := by
        by_contra hoff
        obtain ⟨flight, hflight, _⟩ := hleads
        rw [hinv.alone (Bool.eq_false_of_not_eq_true hoff)] at hflight
        contradiction
      obtain ⟨_, _, _, hmine⟩ := hlead hcoalesce key hkeyed
      exact absurd (hinv.leads_unique hleads hmine) hother
    · exact hold

theorem insert_step {key : List UInt8} {entry : CachedAnswer} {now : ℕ}
    {allowed stored : Bool}
    (h : core.insertUnlock resolver task key entry now allowed =
      some (stored, after))
    (henabled : resolver.cache.storeEnabled = true)
    (hlead : resolver.cache.coalesce = true →
      ∃ id prefetch, Leads core task id key prefetch)
    (htask : entry.origin.task = task) (hlt : entry.origin.id < core.nextCall)
    (hnew : entry.origin ∉ core.offered)
    (hproper : entry.failure = none →
      entry.message.header.rcode.failing = false) :
    Inv resolver after ∧ (∀ other, other ≠ task →
      Rely resolver other core after) ∧
      ∀ held, after.store.Holds key held →
        core.store.Holds key held ∨ held = entry := by
  obtain ⟨hsound, hmask, hallowed, hheld, hafter⟩ :=
    Core.insertUnlock_holds hinv.sound h
  have hflights : after.flights = core.flights := by rw [hafter]
  have hloops : after.loops = core.loops := by rw [hafter]
  have hoffered : after.offered =
      if allowed then entry.origin :: core.offered else core.offered := by
    rw [hafter]
  have hsub : ∀ call ∈ core.offered, call ∈ after.offered := by
    intro call hcall
    rw [hoffered]
    split_ifs
    · exact List.mem_cons_of_mem _ hcall
    · exact hcall
  have hcases : ∀ call ∈ after.offered,
      call = entry.origin ∨ call ∈ core.offered := by
    intro call hcall
    rw [hoffered] at hcall
    split_ifs at hcall
    · exact List.mem_cons.mp hcall
    · exact Or.inr hcall
  have hfresh : stored = true → entry.origin ∈ after.offered := by
    intro hstored
    rw [hoffered, if_pos (hallowed hstored)]
    exact List.mem_cons_self
  refine ⟨?_, ?_, ?_⟩
  · refine ⟨hsound, ?_, ?_, ?_, ?_, ?_, ?_, ?_, ?_, ?_, ?_⟩
    · exact fun _ _ _ => henabled
    · intro other held hother
      rcases hheld other held hother with ⟨hstored, _, rfl⟩ | hold
      · exact hfresh hstored
      · exact hsub _ (hinv.offered other held hold)
    · intro call hcall
      have hnext : after.nextCall = core.nextCall := by rw [hafter]
      rw [hnext]
      rcases hcases call hcall with rfl | hold
      · exact hlt
      · exact hinv.offered_lt call hold
    · intro other held hother
      rcases hheld other held hother with ⟨_, _, rfl⟩ | hold
      · exact hproper
      · exact hinv.proper other held hold
    · rw [hflights]
      exact hinv.alone
    · rw [hflights, show after.registry = core.registry by rw [hafter]]
      exact hinv.registry
    · rw [hflights, show after.registry = core.registry by rw [hafter]]
      exact hinv.registered
    · rw [hflights]
      exact hinv.published
    · rw [hflights, hloops]
      exact hinv.led
    · unfold loopsFor
      rw [hloops]
      exact hinv.single
  · intro other hother
    refine ⟨⟨by rw [hafter], by rw [hafter], hmask, hsub, ?_, ?_, ?_⟩, ?_, ?_⟩
    · intro otherKey held hafterHeld horigin
      rcases hheld otherKey held hafterHeld with ⟨_, _, rfl⟩ | hold
      · exact absurd horigin hnew
      · exact hold
    · rw [hflights]
      exact fun _ flight hflight => ⟨flight, hflight, rfl, rfl, fun _ h => h⟩
    · rw [hflights]
      intro id flight flight' outcome hflight hflight' hopen hfated
      obtain rfl := Option.some.inj (hflight.symm.trans hflight')
      rw [hopen] at hfated
      contradiction
    · intro call hcall hnot
      rcases hcases call hcall with rfl | hold
      · rw [htask]
        exact Ne.symm hother
      · exact absurd hold hnot
    · intro id otherKey prefetch hleads
      refine ⟨?_, ?_, ?_⟩
      · unfold Leads
        rw [hflights]
        exact hleads
      · intro held hafterHeld
        rcases hheld otherKey held hafterHeld with ⟨_, rfl, _⟩ | hold
        · have hcoalesce : resolver.cache.coalesce = true := by
            by_contra hoff
            obtain ⟨flight, hflight, _⟩ := hleads
            rw [hinv.alone (Bool.eq_false_of_not_eq_true hoff)] at hflight
            contradiction
          obtain ⟨_, _, hmine⟩ := hlead hcoalesce
          exact absurd (hinv.leads_unique hleads hmine) hother
        · exact hold
      · rw [hloops]
        exact fun _ hcall _ => hcall
  · intro held hafterHeld
    rcases hheld key held hafterHeld with ⟨_, _, heq⟩ | hold
    · exact Or.inr heq
    · exact Or.inl hold

end Leader

end Ownership

end DnsLattice
