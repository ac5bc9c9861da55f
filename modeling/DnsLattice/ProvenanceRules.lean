import DnsLattice.Provenance

/-!
# The code keeps the provenance of its data

The rely/guarantee logic of the provenance invariant.  Each operation on the
core gets one rule; the programs are then gone through once, from the insides
of the upstream call out to `resolve`, `refresh` and the purges.
-/

namespace DnsLattice

open Logic

namespace Provenance

/-! ## Assertions -/

def Lasting (resolver : Resolver) (holds : Core → Prop) : Prop :=
  ∀ core after, Base resolver core after → holds core → holds after

def FlightIs (core : Core) (id : ℕ) (key : List UInt8) (floor : ℕ) : Prop :=
  ∃ flight : Flight, core.flights[id]? = some flight ∧ flight.key = key ∧
    flight.floor = floor

section Assertions

variable (resolver : Resolver)

def StaleOk (core : Core) (stored : Option (List UInt8)) (floor : ℕ)
    (stale : Option CachedAnswer) : Prop :=
  ∀ entry, stale = some entry →
    ∃ key, stored = some key ∧ EntryOk resolver core key floor entry

def GuardOk (core : Core) (key : Option (List UInt8)) (floor : ℕ)
    (guard : Option LeaderGuard) : Prop :=
  ∀ leader, guard = some leader →
    ∃ bytes, key = some bytes ∧ FlightIs core leader.flight bytes floor

structure CallOk (thread : Thread World Job) (call : Call) : Prop where
  first : thread.first = .resolve call.query
  effective : ∃ question, call.query.questions.head? = some question ∧
    resolver.effectiveGroup question call.decision = some call.group

structure RefreshOk (core : Core) (job : RefreshJob) (floor : ℕ) :
    Prop where
  stored : resolver.storedKey job.group job.query = some job.key
  floor_le : floor ≤ core.flushed
  guard : GuardOk core (some job.key) floor job.guard
  stale : StaleOk resolver core (some job.key) floor job.stale

/-- The answer of a call: its data was made from what a backend returned in a
call for the same key, or in the call's own. -/
structure AnswerOk (core : Core) (query : Message) (answer : Answer)
    (floor : ℕ) : Prop where
  effective : ∃ question, query.questions.head? = some question ∧
    resolver.effectiveGroup question answer.decision = some answer.group
  same : (answer.source.origin.group = answer.group ∧
      answer.source.origin.query = query) ∨
    ∃ key, resolver.cacheKey answer.group query = some key ∧
      resolver.cacheKey answer.source.origin.group
        answer.source.origin.query = some key
  floor_le : floor ≤ answer.source.origin.epoch
  made : ∃ returned, Returned core answer.source.origin returned ∧
    answer.source.Gives resolver query answer.result returned

def ReplyOk (core : Core) (query : Message) (floor : ℕ) (reply : Reply) :
    Prop :=
  ∀ answer lookups, reply = .answered answer lookups →
    AnswerOk resolver core query answer floor

end Assertions

/-- Under the keys of the scope whose shard is in the list, the store has
nothing from before the epoch, and no lock lets such a thing in. -/
structure Swept (resolver : Resolver) (core : Core) (scope : Scope)
    (epoch : ℕ) (visited : ℕ → Prop) : Prop where
  epoch_le : epoch ≤ core.epoch
  allowed : ∀ key, scope.covers key = true →
    visited (core.home resolver key) →
    ∀ other, core.allowedAt (core.home resolver key) = some other →
      epoch ≤ other
  holds : ∀ key, scope.covers key = true →
    visited (core.home resolver key) →
    ∀ entry, core.store.Holds key entry → epoch ≤ entry.origin.epoch

def Recorded (core : Core) (scope : Scope) (epoch : ℕ) : Prop :=
  match scope with
  | .all => epoch ≤ core.flushed
  | _ => True

/-- Queries follow only flights which began after every flush that had
completed when they arrived. -/
def Strict (allows : Condition Op Resp World Job) : Prop :=
  ∀ job born world key stale id (flight : Flight),
    allows job born world (.joinOrLead key (.query stale)) (.follow id) =
      true →
    world.core.flights[id]? = some flight →
    born.core.flushed ≤ flight.floor

def logic (resolver : Resolver) (allows : Condition Op Resp World Job) :
    Logic Op World Job Reply where
  inv world := Inv resolver world.core
  rely number world after :=
    Base resolver world.core after.core ∧
      ∀ index lock, world.core.locks index = some lock →
        lock.owner = number → after.core.locks index = some lock
  asserts _ _ _ := True
  pre thread job world :=
    match job with
    | .resolve query =>
        thread.first = .resolve query ∧
          thread.born.core.flushed ≤ world.core.flushed
    | .join call key progress =>
        CallOk resolver thread call ∧
          resolver.cacheKey call.group call.query = some key ∧
          thread.born.core.flushed ≤ world.core.flushed ∧
          StaleOk resolver world.core
            (resolver.storedKey call.group call.query)
            thread.born.core.flushed progress.stale
    | .refresh job =>
        thread.first = .refresh job ∧
          ∃ floor, RefreshOk resolver world.core job floor
    | .purge scope => thread.first = .purge scope
  post thread reply world :=
    match thread.first with
    | .resolve query =>
        ∃ floor, (Strict allows → thread.born.core.flushed ≤ floor) ∧
          ReplyOk resolver world.core query floor reply
    | .purge scope =>
        ∀ epoch removed, reply = .purged epoch removed →
          (Swept resolver world.core scope epoch fun _ => True) ∧
            Recorded world.core scope epoch
    | _ => True

variable {resolver : Resolver} {allows : Condition Op Resp World Job}
  {thread : Thread World Job}

/-! ## What lasts -/

section Lasting

theorem Lasting.const (fact : Prop) : Lasting resolver fun _ => fact :=
  fun _ _ _ h => h

theorem Lasting.and {first second : Core → Prop}
    (h : Lasting resolver first) (h' : Lasting resolver second) :
    Lasting resolver fun core => first core ∧ second core :=
  fun core after hbase hholds =>
    ⟨h core after hbase hholds.1, h' core after hbase hholds.2⟩

theorem Lasting.exists {ι : Type} {holds : ι → Core → Prop}
    (h : ∀ index, Lasting resolver (holds index)) :
    Lasting resolver fun core => ∃ index, holds index core :=
  fun core after hbase ⟨index, hholds⟩ =>
    ⟨index, h index core after hbase hholds⟩

theorem lasting_flushed (floor : ℕ) :
    Lasting resolver fun core => floor ≤ core.flushed :=
  fun _ _ hbase h => h.trans hbase.flushed_le

theorem lasting_returned (origin : UpstreamCall)
    (returned : Except Error Message) :
    Lasting resolver fun core => Returned core origin returned :=
  fun _ _ hbase h => h.mono hbase

theorem lasting_entryOk (key : List UInt8) (floor : ℕ) (entry : CachedAnswer) :
    Lasting resolver fun core => EntryOk resolver core key floor entry :=
  fun _ _ hbase h => h.mono hbase

theorem lasting_outcomeOk (key : List UInt8) (floor : ℕ) (outcome : Outcome) :
    Lasting resolver fun core => OutcomeOk resolver core key floor outcome :=
  fun _ _ hbase h => h.mono hbase

theorem lasting_flightIs (id : ℕ) (key : List UInt8) (floor : ℕ) :
    Lasting resolver fun core => FlightIs core id key floor := by
  rintro core after hbase ⟨flight, hflight, hkey, hfloor⟩
  obtain ⟨flight', hflight', hkey', hfloor'⟩ := hbase.flights id flight hflight
  exact ⟨flight', hflight', hkey'.trans hkey, hfloor'.trans hfloor⟩

theorem lasting_staleOk (stored : Option (List UInt8)) (floor : ℕ)
    (stale : Option CachedAnswer) :
    Lasting resolver fun core =>
      StaleOk resolver core stored floor stale := by
  intro core after hbase h entry hentry
  obtain ⟨key, hkey, hok⟩ := h entry hentry
  exact ⟨key, hkey, hok.mono hbase⟩

theorem lasting_guardOk (key : Option (List UInt8)) (floor : ℕ)
    (guard : Option LeaderGuard) :
    Lasting resolver fun core => GuardOk core key floor guard := by
  intro core after hbase h leader hleader
  obtain ⟨bytes, hbytes, hflight⟩ := h leader hleader
  exact ⟨bytes, hbytes, lasting_flightIs _ _ _ core after hbase hflight⟩

theorem lasting_refreshOk (job : RefreshJob) (floor : ℕ) :
    Lasting resolver fun core => RefreshOk resolver core job floor :=
  fun core after hbase h =>
    ⟨h.stored, h.floor_le.trans hbase.flushed_le,
      lasting_guardOk _ _ _ core after hbase h.guard,
      lasting_staleOk _ _ _ core after hbase h.stale⟩

theorem lasting_replyOk (query : Message) (floor : ℕ) (reply : Reply) :
    Lasting resolver fun core =>
      ReplyOk resolver core query floor reply := by
  intro core after hbase h answer lookups hreply
  obtain ⟨heffective, hsame, hfloor, returned, hreturned, hgives⟩ :=
    h answer lookups hreply
  exact ⟨heffective, hsame, hfloor, returned, hreturned.mono hbase, hgives⟩

theorem lasting_recorded (scope : Scope) (epoch : ℕ) :
    Lasting resolver fun core => Recorded core scope epoch := by
  intro core after hbase h
  cases scope with
  | all => exact le_trans h hbase.flushed_le
  | named name rtype => trivial
  | subtree zone => trivial

theorem lasting_swept (scope : Scope) (epoch : ℕ) (visited : ℕ → Prop) :
    Lasting resolver fun core =>
      Swept resolver core scope epoch visited := by
  intro core after hbase h
  refine ⟨h.epoch_le.trans hbase.epoch_le, ?_, ?_⟩
  · intro key hcovers hvisited other hallowed
    rw [Core.home_eq resolver hbase.mask_eq] at hvisited hallowed
    rcases hbase.allowed _ _ hallowed with hbefore | hle
    · exact h.allowed key hcovers hvisited other hbefore
    · exact h.epoch_le.trans hle
  · intro key hcovers hvisited entry hholds
    rw [Core.home_eq resolver hbase.mask_eq] at hvisited
    rcases hbase.holds key entry hholds with hbefore | hallowed | hle
    · exact h.holds key hcovers hvisited entry hbefore
    · exact h.allowed key hcovers hvisited _ hallowed
    · exact h.epoch_le.trans hle

end Lasting

theorem stable_of_lasting {holds : Core → Prop} (h : Lasting resolver holds) :
    Stable (logic resolver allows) thread fun world => holds world.core :=
  fun world after hholds _ hrely _ => h world.core after.core hrely.1 hholds

theorem onCore : OnCore (logic resolver allows) where
  inv world after heq hinv := by
    change Inv resolver after.core
    rw [heq]
    exact hinv
  rely number world after heq := by
    change Base resolver world.core after.core ∧ _
    rw [heq]
    exact ⟨Base.refl _, fun _ _ h _ => h⟩
  asserts := fun _ _ _ _ => trivial

abbrev Spec (resolver : Resolver) (allows : Condition Op Resp World Job)
    (thread : Thread World Job) {α : Type} (requires : Core → Prop)
    (prog : Code α) (ensures : α → Core → Prop) : Prop :=
  Triple resolver.machine allows (logic resolver allows) thread
    (fun world => requires world.core) prog
    (fun value world => ensures value world.core)

/-! ## Rules for the operations -/

section Operations

variable {holds : Core → Prop} (hlasting : Lasting resolver holds)

include hlasting

theorem gives_spec {op : Op} {gives : Resp op → Core → Prop}
    (hspawns : Resolver.spawns op = none)
    (hop : ∀ world unused input resp after, Inv resolver world.core →
      holds world.core →
      resolver.exec thread.number unused world op input =
        some (resp, after) →
      allows thread.first thread.born world op resp = true →
      Keeps resolver world.core after.core ∧ gives resp after.core) :
    Spec resolver allows thread holds (perform op)
      (fun resp core => holds core ∧ gives resp core) := by
  apply Triple.benign (fun _ _ _ => trivial) (stable_of_lasting hlasting)
  intro world unused input resp after hinv hholds _ hexec hallows
  obtain ⟨hkeeps, hgives⟩ :=
    hop world unused input resp after hinv hholds hexec hallows
  refine ⟨hkeeps.inv, ?_, ?_, hgives⟩
  · intro number
    refine ⟨hkeeps.base, ?_⟩
    intro index lock hlock _
    rw [hkeeps.locks]
    exact hlock
  · intro job hjob
    have hsome : Resolver.spawns op = some job := hjob
    rw [hspawns] at hsome
    contradiction

theorem keeps_spec {op : Op} (hspawns : Resolver.spawns op = none)
    (hop : ∀ world unused input resp after, Inv resolver world.core →
      holds world.core →
      resolver.exec thread.number unused world op input =
        some (resp, after) →
      Keeps resolver world.core after.core) :
    Spec resolver allows thread holds (perform op) (fun _ => holds) := by
  have h : Spec resolver allows thread holds (perform op)
      (fun _ core => holds core ∧ True) := by
    apply gives_spec hlasting hspawns
    intro world unused input resp after hinv hholds hexec _
    exact ⟨hop world unused input resp after hinv hholds hexec, trivial⟩
  exact h.post fun _ _ _ hholds => hholds.1

theorem storeGet_spec {floor : ℕ}
    (hfloor : ∀ core, holds core → floor ≤ core.flushed)
    (key : List UInt8) (now : ℕ) :
    Spec resolver allows thread holds (perform (.storeGet key now))
      (fun found core => holds core ∧ ∀ entry, found = some entry →
        EntryOk resolver core key floor entry) := by
  apply gives_spec hlasting rfl
  intro world unused input found after hinv hholds hexec _
  obtain ⟨hloses, hfound, _⟩ :=
    Core.storeGet_loses hinv.sound (World.withCore?_eq_some hexec)
  have hkeeps := keeps_of_loses hinv hloses
  refine ⟨hkeeps, ?_⟩
  intro entry hentry
  have hheld := hinv.held key entry ((hfound entry).mp hentry).1
  exact (hheld.weaken (hfloor _ hholds)).mono hkeeps.base

theorem forgetFailure_spec (key : List UInt8) :
    Spec resolver allows thread holds (perform (.storeForgetFailure key))
      (fun _ => holds) := by
  apply keeps_spec hlasting rfl
  intro world unused input found after hinv _ hexec
  exact keeps_of_loses hinv (Core.storeForgetFailure_loses hinv.sound
    (World.withCore?_eq_some hexec))

omit hlasting in
theorem addFlight_flightIs {core : Core} (task : ℕ) (key : List UInt8)
    (purpose : Purpose) :
    FlightIs (core.addFlight task key purpose) core.flights.length key
      core.flushed := by
  exact ⟨_, core.getElem?_addFlight_length task key purpose, rfl, rfl⟩

omit hlasting in
theorem joinCases_keeps {core after : Core} (hinv : Inv resolver core)
    {task : ℕ} {key : List UInt8} {purpose : Purpose} {join : Join}
    (h : Core.JoinCases resolver core task key purpose join after) :
    Keeps resolver core after := by
  cases h with
  | follow flight hlookup =>
    exact keeps_setFlight_quiet hinv fun _ => ⟨rfl, rfl, fun _ h => h⟩
  | alone registered hlookup hne => exact keeps_addFlight hinv task key purpose
  | lead hlookup =>
    have hadd := keeps_addFlight hinv task key purpose
    refine hadd.trans (keeps_registry hadd.inv ?_)
    intro hash registered hregistered
    by_cases heq : hash = resolver.flightHash key
    · rw [heq, AList.lookup_insert] at hregistered
      obtain rfl := Option.some.inj hregistered
      obtain ⟨flight, hflight, hkey, _⟩ :=
        @addFlight_flightIs core task key purpose
      exact ⟨flight, hflight, hkey⟩
    · rw [AList.lookup_insert_ne heq] at hregistered
      exact hadd.inv.registry hash registered hregistered

def JoinGives (thread : Thread World Job)
    (allows : Condition Op Resp World Job) (key : List UInt8)
    (purpose : Purpose) (floor : ℕ) (core : Core) : Join → Prop
  | .follow id => ∃ begun,
      (Strict allows → purpose ≠ .prefetch →
        thread.born.core.flushed ≤ begun) ∧
        FlightIs core id key begun
  | .lead guard => ∃ begun, floor ≤ begun ∧ begun ≤ core.flushed ∧
      FlightIs core guard.flight key begun

omit hlasting in
theorem joinCases_gives {core after : Core} (hinv : Inv resolver core)
    {task floor : ℕ} {key : List UInt8} {purpose : Purpose} {join : Join}
    (hfloor : floor ≤ core.flushed)
    (hstrict : ∀ id (flight : Flight), join = .follow id →
      core.flights[id]? = some flight → Strict allows →
      purpose ≠ .prefetch → thread.born.core.flushed ≤ flight.floor)
    (h : Core.JoinCases resolver core task key purpose join after) :
    JoinGives thread allows key purpose floor after join := by
  have hkeeps := joinCases_keeps hinv h
  cases h with
  | follow id hlookup =>
    obtain ⟨flight, hflight, hkey⟩ := hinv.registry _ _ hlookup
    refine ⟨flight.floor, hstrict id flight rfl hflight, ?_⟩
    exact lasting_flightIs _ _ _ _ _ hkeeps.base ⟨flight, hflight, hkey, rfl⟩
  | alone registered hlookup hne =>
    exact ⟨core.flushed, hfloor, le_refl _, addFlight_flightIs _ _ _⟩
  | lead hlookup =>
    exact ⟨core.flushed, hfloor, le_refl _, addFlight_flightIs _ _ _⟩

theorem joinOrLead_spec {floor : ℕ}
    (hfloor : ∀ core, holds core → floor ≤ core.flushed)
    (key : List UInt8) (purpose : Purpose) :
    Spec resolver allows thread holds (perform (.joinOrLead key purpose))
      (fun join core => holds core ∧
        JoinGives thread allows key purpose floor core join) := by
  apply gives_spec hlasting rfl
  intro world unused input join after hinv hholds hexec hallows
  obtain ⟨rfl, hafter⟩ := World.withCore_eq_some hexec
  have hcases := world.core.joinOrLead_cases resolver thread.number key
    purpose
  rw [← hafter] at hcases
  refine ⟨joinCases_keeps hinv hcases,
    joinCases_gives hinv (hfloor _ hholds) ?_ hcases⟩
  intro id flight hjoin hflight hstrict hpurpose
  cases purpose with
  | prefetch => contradiction
  | query stale =>
    rw [hjoin] at hallows
    exact hstrict _ _ _ _ _ _ flight hallows hflight

theorem follower_spec (flight : ℕ) :
    Spec resolver allows thread holds (perform (.follower flight))
      (fun _ => holds) := by
  apply keeps_spec hlasting rfl
  intro world unused input _ after hinv _ hexec
  rw [(World.withCore_eq_some hexec).2]
  exact keeps_setFlight_quiet hinv fun _ => ⟨rfl, rfl, fun _ h => h⟩

theorem unfollow_spec (flight : ℕ) :
    Spec resolver allows thread holds (perform (.unfollow flight))
      (fun _ => holds) := by
  apply keeps_spec hlasting rfl
  intro world unused input _ after hinv _ hexec
  rw [(World.withCore_eq_some hexec).2]
  exact keeps_setFlight_quiet hinv fun _ => ⟨rfl, rfl, fun _ h => h⟩

theorem abandon_spec (flight : ℕ) :
    Spec resolver allows thread holds (perform (.abandon flight))
      (fun _ => holds) := by
  apply keeps_spec hlasting rfl
  intro world unused input _ after hinv _ hexec
  rw [(World.withCore_eq_some hexec).2]
  refine keeps_setFlight_quiet hinv fun flight => ⟨rfl, rfl, ?_⟩
  intro outcome h
  cases h

theorem publish_spec (id : ℕ) {key : List UInt8} {floor : ℕ} {outcome : Outcome}
    (hflight : ∀ core, holds core → FlightIs core id key floor)
    (houtcome : ∀ core, holds core →
      OutcomeOk resolver core key floor outcome) :
    Spec resolver allows thread holds (perform (.publish id outcome))
      (fun _ => holds) := by
  apply keeps_spec hlasting rfl
  intro world unused input _ after hinv hholds hexec
  rw [(World.withCore_eq_some hexec).2]
  refine keeps_setFlight hinv fun flight hfound => ⟨rfl, rfl, ?_⟩
  intro published hstate
  right
  obtain ⟨same, hsame, rfl, rfl⟩ := hflight _ hholds
  obtain rfl := Option.some.inj (hsame.symm.trans hfound)
  dsimp only at hstate
  split_ifs at hstate
  obtain rfl := FlightState.done.inj hstate
  exact houtcome _ hholds

theorem unregister_spec (guard : LeaderGuard) (fate : Option Outcome) :
    Spec resolver allows thread holds (perform (.unregister guard fate))
      (fun _ => holds) := by
  apply keeps_spec hlasting rfl
  intro world unused input _ after hinv _ hexec
  rw [(World.withCore_eq_some hexec).2]
  have hset : Keeps resolver world.core
      (world.core.setFlight guard.flight fun flight =>
        { flight with fate := some fate }) :=
    keeps_setFlight_quiet hinv fun _ => ⟨rfl, rfl, fun _ h => h⟩
  refine hset.trans (keeps_registry hset.inv ?_)
  intro hash registered hregistered
  apply hset.inv.registry hash registered
  unfold Core.unregistered at hregistered
  split_ifs at hregistered
  · by_cases heq : hash = guard.hash
    · rw [heq, AList.lookup_erase] at hregistered
      contradiction
    · rwa [AList.lookup_erase_ne heq] at hregistered
  · exact hregistered

theorem wait_spec {id : ℕ} {key : List UInt8} {floor : ℕ}
    (hflight : ∀ core, holds core → FlightIs core id key floor) (timed : Bool) :
    Spec resolver allows thread holds (perform (.wait id timed))
      (fun waited core => holds core ∧ ∀ outcome, waited = .done outcome →
        OutcomeOk resolver core key floor outcome) := by
  apply gives_spec hlasting rfl
  intro world unused input waited after hinv hholds hexec _
  obtain ⟨flight, hfound, hresult, hafter⟩ :=
    Core.wait_eq_some (World.withCore?_eq_some hexec)
  have hkeeps : Keeps resolver world.core after.core := by
    rw [hafter]
    exact keeps_setFlight_quiet hinv fun _ => ⟨rfl, rfl, fun _ h => h⟩
  refine ⟨hkeeps, ?_⟩
  rintro outcome rfl
  have hstate := Core.waitResult_done hresult
  obtain ⟨same, hsame, rfl, rfl⟩ := hflight _ hholds
  obtain rfl := Option.some.inj (hsame.symm.trans hfound)
  exact (hinv.published id same outcome hfound hstate).mono hkeeps.base

theorem beginCall_spec {floor : ℕ}
    (hfloor : ∀ core, holds core → floor ≤ core.flushed)
    (group : UpstreamGroupId) (query : Message) :
    Spec resolver allows thread holds (perform (.beginCall group query))
      (fun origin core => holds core ∧ origin.group = group ∧
        origin.query = query ∧ floor ≤ origin.epoch) := by
  apply gives_spec hlasting rfl
  intro world unused input origin after hinv hholds hexec _
  obtain ⟨rfl, hafter⟩ := World.withCore_eq_some hexec
  rw [hafter]
  exact ⟨keeps_of_same hinv _ _ _ _, rfl, rfl,
    (hfloor _ hholds).trans hinv.flushed_le⟩

theorem endCall_spec (origin : UpstreamCall) :
    Spec resolver allows thread holds (perform (.endCall origin))
      (fun _ => holds) := by
  apply keeps_spec hlasting rfl
  intro world unused input _ after hinv _ hexec
  rw [(World.withCore_eq_some hexec).2]
  exact keeps_of_same hinv _ _ _ _

theorem callBackend_spec (origin : UpstreamCall) (backend : ℕ) :
    Spec resolver allows thread holds (perform (.callBackend origin backend))
      (fun returned core => holds core ∧ ∀ result, returned = some result →
        Returned core origin result) := by
  apply gives_spec hlasting rfl
  intro world unused input returned after hinv hholds hexec _
  cases input with
  | backend result =>
    obtain ⟨rfl, hafter⟩ := World.withCore_eq_some hexec
    rw [hafter]
    refine ⟨keeps_history hinv _, ?_⟩
    intro same hsame
    obtain rfl := Option.some.inj hsame
    exact ⟨backend, by simp⟩
  | dropped =>
    obtain ⟨rfl, rfl⟩ := Prod.mk.inj (Option.some.inj hexec)
    exact ⟨keeps_refl hinv, by simp⟩
  | _ => contradiction

theorem bumpEpoch_spec :
    Spec resolver allows thread holds (perform .bumpEpoch)
      (fun epoch core => holds core ∧ epoch ≤ core.epoch) := by
  apply gives_spec hlasting rfl
  intro world unused input epoch after hinv hholds hexec _
  obtain ⟨rfl, hafter⟩ := World.withCore_eq_some hexec
  rw [hafter]
  exact ⟨keeps_epoch hinv, le_refl _⟩

theorem spawn_spec {job : RefreshJob}
    (hjob : ∀ core, holds core →
      ∃ floor, RefreshOk resolver core job floor) :
    Spec resolver allows thread holds (perform (.spawn job))
      (fun _ => holds) := by
  have h : Spec resolver allows thread holds (perform (.spawn job))
      (fun _ core => holds core ∧ True) := by
    apply Triple.benign (fun _ _ _ => trivial) (stable_of_lasting hlasting)
    intro world unused input _ after hinv hholds _ hexec _
    obtain ⟨_, rfl⟩ := Prod.mk.inj (Option.some.inj hexec)
    have hkeeps : Keeps resolver world.core
        (world.core.handOver unused job) := by
      unfold Core.handOver
      cases job.guard with
      | none => exact keeps_refl hinv
      | some guard =>
        exact keeps_setFlight_quiet hinv fun _ => ⟨rfl, rfl, fun _ h => h⟩
    refine ⟨hkeeps.inv, ?_, ?_, trivial⟩
    · intro number
      refine ⟨hkeeps.base, ?_⟩
      intro index lock hlock _
      exact hkeeps.locks ▸ hlock
    · intro started hstarted
      obtain rfl := Option.some.inj hstarted
      obtain ⟨floor, hok⟩ := hjob _ hholds
      exact ⟨rfl, floor, lasting_refreshOk job floor _ _ hkeeps.base hok⟩
  exact h.post fun _ _ _ hholds => hholds.1

/-! ### Insertions -/

def Locked (resolver : Resolver) (thread : Thread World Job)
    (key : List UInt8) (allowed : Option ℕ) (core : Core) : Prop :=
  core.locks (core.home resolver key) = some ⟨thread.number, allowed⟩

theorem stable_locked (key : List UInt8) (allowed : Option ℕ) :
    Stable (logic resolver allows) thread fun world =>
      holds world.core ∧ Locked resolver thread key allowed world.core := by
  refine (stable_of_lasting hlasting).and ?_
  intro world after hlocked _ hrely _
  unfold Locked
  rw [Core.home_eq resolver hrely.1.mask_eq]
  exact hrely.2 _ _ hlocked rfl

omit hlasting in
theorem setLock_keeps {core : Core} (hinv : Inv resolver core)
    (henabled : resolver.cache.storeEnabled = true) (index : ℕ)
    {lock : ShardLock}
    (hallowed : ∀ epoch, lock.allowed = some epoch → core.epoch ≤ epoch) :
    Inv resolver (core.setLock index (some lock)) ∧
      Base resolver core (core.setLock index (some lock)) := by
  have hat : ∀ other epoch,
      (core.setLock index (some lock)).allowedAt other = some epoch →
      core.allowedAt other = some epoch ∨ core.epoch ≤ epoch := by
    intro other epoch h
    unfold Core.setLock Core.allowedAt at h
    dsimp only at h
    by_cases heq : other = index
    · subst heq
      rw [Function.update_self] at h
      exact Or.inr (hallowed epoch h)
    · rw [Function.update_of_ne heq] at h
      exact Or.inl h
  have hbase : Base resolver core (core.setLock index (some lock)) :=
    { (Base.refl core : Base resolver core core) with allowed := hat }
  refine ⟨inv_of_base hinv hbase rfl hinv.sound hinv.held
    (fun _ _ _ => henabled) ?_ hinv.registry hinv.published, hbase⟩
  intro key epoch h
  rcases hat _ epoch h with hbefore | hle
  · exact hinv.allowed key epoch hbefore
  · exact hinv.flushed_le.trans hle

omit hlasting in
/-- A lock which is free or the thread's own is nobody else's. -/
theorem update_locks_others {core : Core} {index task other : ℕ}
    (hown : ∀ lock, core.locks index = some lock → lock.owner = task)
    (hne : other ≠ task) (new : Option ShardLock) (at' : ℕ)
    (lock : ShardLock) (hlock : core.locks at' = some lock)
    (howner : lock.owner = other) :
    Function.update core.locks index new at' = some lock := by
  by_cases heq : at' = index
  · subst heq
    exact absurd (howner.symm.trans (hown lock hlock)) hne
  · rw [Function.update_of_ne heq]
    exact hlock

theorem lockShard_spec (henabled : resolver.cache.storeEnabled = true)
    (key : List UInt8) :
    Spec resolver allows thread holds (perform (.lockShard key))
      (fun _ core => holds core ∧
        Locked resolver thread key none core) := by
  apply Triple.lift (fun _ _ _ => trivial) (stable_of_lasting hlasting)
  intro world unused input _ after hinv hholds _ hexec _
  obtain ⟨core, hlock, hafter⟩ := Option.bind_eq_some_iff.mp hexec
  obtain ⟨_, rfl⟩ := World.withCore_eq_some hafter
  obtain ⟨hfree, hcore⟩ := Core.lockShard_eq_some hlock
  obtain ⟨hinv', hbase⟩ := @setLock_keeps resolver _ hinv henabled
    (world.core.home resolver key) ⟨thread.number, none⟩ (by simp)
  rw [← hcore] at hinv' hbase
  refine ⟨hinv', ?_, by simp [Resolver.machine, Resolver.spawns],
    hlasting _ _ hbase hholds, ?_⟩
  · intro other hne
    refine ⟨hbase, ?_⟩
    rw [hcore]
    exact update_locks_others (by simp [hfree]) hne _
  · change after.core.locks (after.core.home resolver key) = _
    rw [Core.home_eq resolver hbase.mask_eq, hcore]
    exact Function.update_self ..

theorem checkEpoch_spec (henabled : resolver.cache.storeEnabled = true)
    (key : List UInt8) (epoch : ℕ) :
    Spec resolver allows thread
      (fun core => holds core ∧ Locked resolver thread key none core)
      (perform (.checkEpoch key epoch))
      (fun allowed core => holds core ∧
        Locked resolver thread key (if allowed then some epoch else none)
          core) := by
  apply Triple.lift (fun _ _ _ => trivial) (stable_locked hlasting key none)
  rintro world unused input allowed after hinv ⟨hholds, hlocked⟩ _ hexec _
  obtain ⟨hallowed, hafter⟩ := World.withCore_eq_some hexec
  unfold Core.checkEpoch at hallowed hafter
  by_cases heq : world.core.epoch = epoch
  · rw [if_pos heq] at hallowed hafter
    obtain ⟨hinv', hbase⟩ := @setLock_keeps resolver _ hinv henabled
      (world.core.home resolver key) ⟨thread.number, some epoch⟩ (by
        intro same hsame
        obtain rfl := Option.some.inj hsame
        exact heq.le)
    dsimp only at hafter
    rw [← hafter] at hinv' hbase
    refine ⟨hinv', ?_, by simp [Resolver.machine, Resolver.spawns],
      hlasting _ _ hbase hholds, ?_⟩
    · intro other hne
      refine ⟨hbase, ?_⟩
      rw [hafter]
      refine update_locks_others ?_ hne _
      intro lock hlock
      obtain rfl := Option.some.inj (hlocked.symm.trans hlock)
      rfl
    · rw [hallowed]
      change after.core.locks (after.core.home resolver key) = _
      rw [Core.home_eq resolver hbase.mask_eq, hafter]
      exact Function.update_self ..
  · rw [if_neg heq] at hallowed hafter
    refine ⟨onCore.inv world after hafter hinv,
      fun other _ => onCore.rely other world after hafter,
      by simp [Resolver.machine, Resolver.spawns], ?_⟩
    rw [hafter, hallowed]
    exact ⟨hholds, hlocked⟩

omit hlasting in
theorem insertUnlock_keeps {core after : Core} (hinv : Inv resolver core)
    {key : List UInt8} {entry : CachedAnswer} {now : ℕ}
    {allowed stored : Bool} (hentry : EntryOk resolver core key 0 entry)
    (hlocked : Locked resolver thread key
      (if allowed then some entry.origin.epoch else none) core)
    (h : core.insertUnlock resolver thread.number key entry now allowed =
      some (stored, after)) :
    Inv resolver after ∧ Base resolver core after ∧
      after.locks =
        Function.update core.locks (core.home resolver key) none := by
  obtain ⟨hsound, hmask, hallowed, hheld, hafter⟩ :=
    Core.insertUnlock_holds hinv.sound h
  have hepoch : stored = true →
      core.allowedAt (core.home resolver key) =
        some entry.origin.epoch := by
    intro hstored
    unfold Core.allowedAt
    rw [hlocked, hallowed hstored]
    rfl
  have hlocks : after.locks =
      Function.update core.locks (core.home resolver key) none := by
    rw [hafter]
  have hat : ∀ index epoch, after.allowedAt index = some epoch →
      core.allowedAt index = some epoch := by
    intro index epoch h
    unfold Core.allowedAt at h ⊢
    rw [hlocks] at h
    by_cases heq : index = core.home resolver key
    · rw [heq, Function.update_self] at h
      contradiction
    · rwa [Function.update_of_ne heq] at h
  have hflights : after.flights = core.flights := by rw [hafter]
  have hbase : Base resolver core after := by
    refine ⟨by rw [hafter], by rw [hafter], hmask,
      by rw [hafter]; simp, ?_,
      fun index epoch h => Or.inl (hat index epoch h), ?_⟩
    · rw [hflights]
      exact fun _ flight hflight => ⟨flight, hflight, rfl, rfl⟩
    · intro other held h
      rcases hheld other held h with ⟨hstored, rfl, rfl⟩ | hold
      · exact Or.inr (Or.inl (hepoch hstored))
      · exact Or.inl hold
  refine ⟨?_, hbase, hlocks⟩
  refine inv_of_base hinv hbase (by rw [hafter]) hsound ?_
    (fun _ _ _ => hentry.enabled)
    (fun key epoch h => hinv.allowed key epoch (hat _ epoch h)) ?_ ?_
  · intro other held h
    rcases hheld other held h with ⟨hstored, rfl, rfl⟩ | hold
    · exact ⟨⟨hentry.fits.key_eq, hinv.allowed _ _ (hepoch hstored)⟩,
        hentry.enabled, hentry.made⟩
    · exact hinv.held other held hold
  · rw [hflights, show after.registry = core.registry by rw [hafter]]
    exact hinv.registry
  · rw [hflights]
    exact hinv.published

theorem insertUnlock_spec {key : List UInt8} {entry : CachedAnswer}
    (hentry : ∀ core, holds core → EntryOk resolver core key 0 entry)
    (now : ℕ) (allowed : Bool) :
    Spec resolver allows thread
      (fun core => holds core ∧
        Locked resolver thread key
          (if allowed then some entry.origin.epoch else none) core)
      (perform (.insertUnlock key entry now allowed))
      (fun _ => holds) := by
  apply Triple.lift (fun _ _ _ => trivial) (stable_locked hlasting key _)
  rintro world unused input stored after hinv ⟨hholds, hlocked⟩ _ hexec _
  obtain ⟨hinv', hbase, hlocks⟩ := insertUnlock_keeps hinv
    (hentry _ hholds) hlocked (World.withCore?_eq_some hexec)
  refine ⟨hinv', ?_, by simp [Resolver.machine, Resolver.spawns],
    hlasting _ _ hbase hholds⟩
  intro other hne
  refine ⟨hbase, ?_⟩
  rw [hlocks]
  refine update_locks_others ?_ hne none
  intro lock hlock
  obtain rfl := Option.some.inj (hlocked.symm.trans hlock)
  rfl

theorem insertIf_spec {key : List UInt8} {entry : CachedAnswer}
    (henabled : resolver.cache.storeEnabled = true)
    (hentry : ∀ core, holds core → EntryOk resolver core key 0 entry)
    (now : ℕ) :
    Spec resolver allows thread holds (Resolver.insertIf key entry now)
      (fun _ => holds) := by
  refine .bind (lockShard_spec hlasting henabled key) fun _ => ?_
  refine .bind (checkEpoch_spec hlasting henabled key _) fun allowed => ?_
  exact insertUnlock_spec hlasting hentry now allowed

/-! ### Sweeps -/

theorem sweepShard_spec (scope : Scope) (epoch index : ℕ) (visited : ℕ → Prop) :
    Spec resolver allows thread
      (fun core => holds core ∧ Swept resolver core scope epoch visited)
      (perform (.sweepShard scope index))
      (fun _ core => holds core ∧
        Swept resolver core scope epoch
          fun other => other = index ∨ visited other) := by
  have h := (lasting_swept scope epoch visited :
    Lasting resolver fun core => Swept resolver core scope epoch visited)
  have hgives := @gives_spec resolver allows thread _ (hlasting.and h)
    (.sweepShard scope index)
    (fun _ core => Swept resolver core scope epoch
      fun other => other = index ∨ visited other) rfl ?_
  · exact hgives.post fun _ _ _ h => ⟨h.1.1, h.2⟩
  rintro world unused input removed after hinv ⟨_, hswept⟩ hexec _
  obtain ⟨hfree, hloses, hremoved⟩ :=
    Core.sweepShard_loses hinv.sound (World.withCore?_eq_some hexec)
  have hkeeps := keeps_of_loses hinv hloses
  have hafter := h _ _ hkeeps.base hswept
  have hhome := Core.home_eq resolver hkeeps.base.mask_eq
  refine ⟨hkeeps, hafter.epoch_le, ?_, ?_⟩
  · intro key hcovers hvisited other hallowed
    rcases hvisited with heq | hvisited
    · rw [heq, Core.allowedAt, hkeeps.locks, hfree] at hallowed
      contradiction
    · exact hafter.allowed key hcovers hvisited other hallowed
  · intro key hcovers hvisited entry hheld
    rcases hvisited with heq | hvisited
    · rw [hhome] at heq
      have hnot := hremoved key entry hheld heq
      rw [hcovers] at hnot
      contradiction
    · exact hafter.holds key hcovers hvisited entry hheld

/-- A flush which has visited every shard may be recorded. -/
theorem flushed_spec (epoch : ℕ) :
    Spec resolver allows thread
      (fun core => holds core ∧
        Swept resolver core .all epoch fun _ => True)
      (perform (.flushed epoch))
      (fun _ core => (holds core ∧
        Swept resolver core .all epoch fun _ => True) ∧
        epoch ≤ core.flushed) := by
  have h := (lasting_swept .all epoch fun _ => True :
    Lasting resolver fun core =>
      Swept resolver core .all epoch fun _ => True)
  apply Triple.lift (fun _ _ _ => trivial) (stable_of_lasting (hlasting.and h))
  rintro world unused input _ after hinv ⟨hholds, hswept⟩ _ hexec _
  obtain ⟨_, hafter⟩ := World.withCore_eq_some hexec
  have hbase : Base resolver world.core after.core := by
    rw [hafter]
    exact { (Base.refl world.core : Base resolver world.core world.core) with
      flushed_le := le_max_left _ _ }
  have hinv' : Inv resolver after.core := by
    rw [hafter]
    refine ⟨hinv.sound, hinv.shards, ?_, hinv.locked, ?_,
      max_le hinv.flushed_le hswept.epoch_le, hinv.registry, ?_⟩
    · intro key entry hheld
      have hold := hinv.held key entry hheld
      have hle := hswept.holds key rfl trivial entry hheld
      exact ⟨⟨hold.fits.key_eq, max_le hold.fits.floor_le hle⟩, hold.enabled,
        hold.made⟩
    · intro key other hallowed
      exact max_le (hinv.allowed key other hallowed)
        (hswept.allowed key rfl trivial other hallowed)
    · intro id flight outcome hflight hstate
      have hold := hinv.published id flight outcome hflight hstate
      exact ⟨hold.fits, hold.made⟩
  refine ⟨hinv', ?_, by simp [Resolver.machine, Resolver.spawns],
    ⟨hlasting _ _ hbase hholds, h _ _ hbase hswept⟩, ?_⟩
  · intro other _
    refine ⟨hbase, ?_⟩
    rw [hafter]
    exact fun _ _ hlock _ => hlock
  · rw [hafter]
    exact le_max_right _ _

end Operations

end Provenance

end DnsLattice
