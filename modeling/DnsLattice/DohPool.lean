import Mathlib.Tactic

/-!
# The pool of the DoH backend

Calls of the backend share permits, a gauge, and generations of HTTP clients.
A generation without a connection lets one call at a time start a request.
Calls may leave at any point, and nothing is lost with them.
-/

namespace DnsLattice

/-- `GenState`, whose gate is held by a call. -/
structure DohGen where
  retired : Bool
  connections : ℕ
  http1 : Bool
  gate : Option ℕ

/-- What the calls share; a generation which is not built yet is a new one. -/
structure DohShared where
  permits : ℕ
  inFlight : ℕ
  current : ℕ
  gens : ℕ → DohGen

inductive DohPhase where
  | queued
  | permitted
  | ready
  | sending (gen : ℕ)
  | waiting (gen : ℕ)
  | locked (gen : ℕ)
  | running (gen : ℕ) (guard : Bool)
  | reading
  | releasing
  | done

namespace DohPhase

/-- The call has a permit. -/
def admitted : DohPhase → Bool
  | queued | done => false
  | _ => true

/-- The call is in the gauge. -/
def counted : DohPhase → Bool
  | queued | permitted | releasing | done => false
  | _ => true

/-- The generation whose gate the call holds. -/
def gated : DohPhase → Option ℕ
  | locked gen => some gen
  | running gen guard => if guard then some gen else none
  | _ => none

/-- The generation on which its request runs. -/
def runs : DohPhase → Option ℕ
  | running gen _ => some gen
  | _ => none

/-- The attempt has sent its request. -/
def attempting : DohPhase → Bool
  | running _ _ | reading => true
  | _ => false

end DohPhase

structure DohCall where
  phase : DohPhase
  retried : Bool

structure DohPool extends DohShared where
  calls : List DohCall

def DohGen.new : DohGen := ⟨false, 0, false, none⟩

def DohPool.new (capacity : ℕ) : DohPool :=
  ⟨⟨capacity, 0, 0, fun _ => .new⟩, []⟩

namespace DohShared

def setGen (shared : DohShared) (gen : ℕ) (state : DohGen) : DohShared :=
  { shared with
    gens := fun other => if other = gen then state else shared.gens other }

/-- The gate a call holds is opened when the call moves on. -/
def openGate (shared : DohShared) (held : Option ℕ) : DohShared :=
  { shared with gens := fun gen => { shared.gens gen with
      gate := if held = some gen then none else (shared.gens gen).gate } }

end DohShared

/-- What call `number` does between two atomic accesses.  The flag marks the
retry. -/
inductive DohPhase.Step (number : ℕ) (shared : DohShared) :
    Bool → DohPhase → DohPhase → DohShared → Prop
  | acquire (hpermit : 0 < shared.permits) :
      Step number shared false .queued .permitted
        { shared with permits := shared.permits - 1 }
  | giveUp : Step number shared false .queued .done shared
  | count :
      Step number shared false .permitted .ready
        { shared with inFlight := shared.inFlight + 1 }
  | choose : Step number shared false .ready (.sending shared.current) shared
  | renew :
      Step number shared false .ready (.sending (shared.current + 1))
        { shared.setGen shared.current
            { shared.gens shared.current with retired := true } with
          current := shared.current + 1 }
  | reuse {gen} (hconnected : 0 < (shared.gens gen).connections) :
      Step number shared false (.sending gen) (.running gen false) shared
  | wait {gen} (hnone : (shared.gens gen).connections = 0) :
      Step number shared false (.sending gen) (.waiting gen) shared
  | lock {gen} (hfree : (shared.gens gen).gate = none) :
      Step number shared false (.waiting gen) (.locked gen)
        (shared.setGen gen { shared.gens gen with gate := some number })
  | join {gen} (hconnected : 0 < (shared.gens gen).connections) :
      Step number shared false (.locked gen) (.running gen false)
        (shared.openGate (some gen))
  | start {gen} (hnone : (shared.gens gen).connections = 0) :
      Step number shared false (.locked gen) (.running gen true) shared
  | unguard {gen} (hhttp1 : (shared.gens gen).http1 = true) :
      Step number shared false (.running gen true) (.running gen false)
        (shared.openGate (some gen))
  | respond {gen guard} :
      Step number shared false (.running gen guard) .reading
        (shared.openGate (running gen guard).gated)
  | retry {phase} (hattempt : phase.attempting = true) :
      Step number shared true phase .ready (shared.openGate phase.gated)
  | leave {phase} (hcounted : phase.counted = true) :
      Step number shared false phase .releasing
        { shared.openGate phase.gated with inFlight := shared.inFlight - 1 }
  | release :
      Step number shared false .releasing .done
        { shared with permits := shared.permits + 1 }

namespace DohPool

/-- A step of the pool; the label is the generation which is connected. -/
inductive Step (pool : DohPool) : Option ℕ → DohPool → Prop
  | arrive (hpermit : 0 < pool.permits) :
      Step pool none { pool with
        permits := pool.permits - 1
        calls := pool.calls ++ [⟨.permitted, false⟩] }
  | enqueue (hfull : pool.permits = 0) :
      Step pool none { pool with calls := pool.calls ++ [⟨.queued, false⟩] }
  | call (number : ℕ) {call : DohCall} {again : Bool} {next : DohPhase}
      {shared : DohShared} (hcall : pool.calls[number]? = some call)
      (honce : again = true → call.retried = false)
      (hstep : call.phase.Step number pool.toDohShared again next shared) :
      Step pool none
        ⟨shared, pool.calls.set number ⟨next, call.retried || again⟩⟩
  | connect (gen : ℕ) (hbuilt : gen ≤ pool.current) :
      Step pool (some gen) ⟨pool.setGen gen { pool.gens gen with
        connections := (pool.gens gen).connections + 1 }, pool.calls⟩
  | negotiate (gen : ℕ) (hconnected : 0 < (pool.gens gen).connections) :
      Step pool none ⟨pool.setGen gen { pool.gens gen with http1 := true },
        pool.calls⟩
  | close (gen : ℕ) (hconnected : 0 < (pool.gens gen).connections) :
      Step pool none ⟨pool.setGen gen { pool.gens gen with
        connections := (pool.gens gen).connections - 1 }, pool.calls⟩

/-- A run with the generations it has connected. -/
inductive Ran (capacity : ℕ) : List ℕ → DohPool → Prop
  | start : Ran capacity [] (new capacity)
  | step {connected : List ℕ} {before after : DohPool} {label : Option ℕ}
      (hrun : Ran capacity connected before) (hstep : before.Step label after) :
      Ran capacity (connected ++ label.toList) after

end DohPool

/-! ## What a call does to the shared state -/

attribute [grind] DohPhase.admitted DohPhase.counted DohPhase.gated
  DohPhase.runs DohPhase.attempting DohShared.setGen DohShared.openGate

@[grind →]
theorem DohPhase.counted_of_attempting {phase : DohPhase}
    (h : phase.attempting = true) : phase.counted = true := by
  cases phase <;> simp_all [counted, attempting]

@[grind →]
theorem DohPhase.admitted_of_counted {phase : DohPhase}
    (h : phase.counted = true) : phase.admitted = true := by
  cases phase <;> simp_all [counted, admitted]

namespace DohPhase.Step

variable {number : ℕ} {shared after : DohShared} {again : Bool}
  {phase next : DohPhase}

theorem permits (h : phase.Step number shared again next after) :
    after.permits + (if next.admitted then 1 else 0) =
      shared.permits + (if phase.admitted then 1 else 0) := by
  cases h <;> grind

theorem inFlight (h : phase.Step number shared again next after)
    (hcounted : phase.counted = true → 0 < shared.inFlight) :
    after.inFlight + (if phase.counted then 1 else 0) =
      shared.inFlight + (if next.counted then 1 else 0) := by
  cases h <;> grind

/-- Gates change hands only through `number`. -/
theorem gates (h : phase.Step number shared again next after)
    (hheld : ∀ gen, phase.gated = some gen →
      (shared.gens gen).gate = some number) (gen : ℕ) :
    (after.gens gen).gate =
      if next.gated = some gen then some number
      else if phase.gated = some gen then none
      else (shared.gens gen).gate := by
  cases h <;> grind

theorem gate_free (h : phase.Step number shared again next after) (gen : ℕ)
    (hnext : next.gated = some gen) :
    phase.gated = some gen ∨ (shared.gens gen).gate = none := by
  cases h <;> grind

theorem retired (h : phase.Step number shared again next after)
    (hretired : ∀ gen, (shared.gens gen).retired = true ↔ gen < shared.current)
    (gen : ℕ) : (after.gens gen).retired = true ↔ gen < after.current := by
  cases h <;> grind

theorem cold (h : phase.Step number shared again next after) {gen : ℕ}
    (hnone : (shared.gens gen).connections = 0)
    (hhttp1 : (shared.gens gen).http1 = false)
    (hcall : phase.runs = some gen → phase.gated = some gen) :
    (after.gens gen).connections = 0 ∧ (after.gens gen).http1 = false ∧
      (next.runs = some gen → next.gated = some gen) := by
  cases h <;> grind

end DohPhase.Step

/-! ## Runs of the pool -/

namespace DohPool

variable {pool before after : DohPool} {capacity : ℕ} {label : Option ℕ}

structure Inv (capacity : ℕ) (pool : DohPool) : Prop where
  permits : pool.permits + pool.calls.countP (·.phase.admitted) = capacity
  inFlight : pool.inFlight = pool.calls.countP (·.phase.counted)
  gate : ∀ gen number, (pool.gens gen).gate = some number ↔
    ∃ call, pool.calls[number]? = some call ∧ call.phase.gated = some gen
  retired : ∀ gen, (pool.gens gen).retired = true ↔ gen < pool.current

theorem countP_set_add {α : Type} (test : α → Bool) {items : List α} {i : ℕ}
    (hi : i < items.length) (item : α) :
    (items.set i item).countP test + (if test items[i] then 1 else 0) =
      items.countP test + (if test item then 1 else 0) := by
  rw [List.countP_set hi]
  split_ifs with hold
  all_goals try have := List.countP_pos_iff.mpr ⟨_, List.getElem_mem hi, hold⟩
  all_goals omega

theorem Inv.call (h : before.Inv capacity) {number : ℕ} {call next : DohCall}
    {again : Bool} {shared : DohShared}
    (hcall : before.calls[number]? = some call)
    (hstep : call.phase.Step number before.toDohShared again next.phase
      shared) :
    Inv capacity ⟨shared, before.calls.set number next⟩ := by
  obtain ⟨hlt, rfl⟩ := List.getElem?_eq_some_iff.mp hcall
  have hcounted : (before.calls[number]).phase.counted = true →
      0 < before.inFlight := by
    intro hphase
    rw [h.inFlight]
    exact List.countP_pos_iff.mpr ⟨_, List.getElem_mem hlt, hphase⟩
  have hheld := fun gen hgated => (h.gate gen number).mpr ⟨_, hcall, hgated⟩
  refine ⟨?_, ?_, ?_, hstep.retired h.retired⟩
  · have hbooks := hstep.permits
    have hset := countP_set_add (·.phase.admitted) hlt next
    have := h.permits
    dsimp only at hset ⊢
    omega
  · have hbooks := hstep.inFlight hcounted
    have hset := countP_set_add (·.phase.counted) hlt next
    have := h.inFlight
    dsimp only at hset ⊢
    omega
  · intro gen other
    have hgate := hstep.gates hheld gen
    have hold := h.gate gen
    have hfree := hstep.gate_free gen
    grind

theorem Inv.step (h : before.Inv capacity) (hstep : before.Step label after) :
    after.Inv capacity := by
  obtain ⟨hpermits, hflight, hgate, hretired⟩ := id h
  cases hstep with
  | call number hcall honce hstep => exact h.call hcall hstep
  | arrive hpermit =>
    refine ⟨?_, ?_, ?_, hretired⟩
    all_goals grind
  | enqueue hfull =>
    refine ⟨?_, ?_, ?_, hretired⟩
    all_goals grind
  | connect gen hbuilt => exact ⟨hpermits, hflight, by grind, by grind⟩
  | negotiate gen hconnected => exact ⟨hpermits, hflight, by grind, by grind⟩
  | close gen hconnected => exact ⟨hpermits, hflight, by grind, by grind⟩

theorem Ran.inv {connected : List ℕ} (h : Ran capacity connected pool) :
    pool.Inv capacity := by
  induction h with
  | start => exact ⟨by simp [new], by simp [new], by simp [new, DohGen.new],
      by simp [new, DohGen.new]⟩
  | step _ hstep ih => exact ih.step hstep

/-- Without a connection no request runs past the gate. -/
theorem Ran.cold {connected : List ℕ} (h : Ran capacity connected pool)
    {gen : ℕ} (hgen : gen ∉ connected) :
    (pool.gens gen).connections = 0 ∧ (pool.gens gen).http1 = false ∧
      ∀ call ∈ pool.calls, call.phase.runs = some gen →
        call.phase.gated = some gen := by
  induction h with
  | start => simp [new, DohGen.new]
  | @step connected before after label _ hstep ih =>
    rw [List.mem_append, not_or] at hgen
    obtain ⟨hnone, hhttp1, hcalls⟩ := ih hgen.1
    cases hstep with
    | @call number call again next shared hcall honce hstep =>
      obtain ⟨hnone', hhttp1', hnext⟩ := hstep.cold hnone hhttp1
        (hcalls call (List.mem_of_getElem? hcall))
      refine ⟨hnone', hhttp1', fun other hother => ?_⟩
      obtain hold | rfl := List.mem_or_eq_of_mem_set hother
      · exact hcalls other hold
      · exact hnext
    | connect other hbuilt => grind
    | negotiate other hconnected => grind
    | close other hconnected => grind
    | arrive hpermit => grind
    | enqueue hfull => grind

/-- In every interleaving of calls, which may leave at any point, connections
and renewals: the permits and the gauge agree with the calls that are admitted
and in flight, a gate is held by the call that holds it and by no call that has
left, only the current generation is not retired, and on a generation which has
never been connected at most one request runs. -/
theorem permits_and_cold_start {connected : List ℕ}
    (h : Ran capacity connected pool) :
    pool.permits + pool.calls.countP (·.phase.admitted) = capacity ∧
      pool.inFlight = pool.calls.countP (·.phase.counted) ∧
      pool.inFlight ≤ capacity ∧
      (∀ gen number, (pool.gens gen).gate = some number ↔
        ∃ call, pool.calls[number]? = some call ∧
          call.phase.gated = some gen) ∧
      (∀ gen, (pool.gens gen).retired = true ↔ gen < pool.current) ∧
      ∀ gen ∉ connected, ∀ (i j : ℕ) (call other : DohCall),
        pool.calls[i]? = some call → pool.calls[j]? = some other →
        call.phase.runs = some gen → other.phase.runs = some gen → i = j := by
  have hinv := h.inv
  refine ⟨hinv.permits, hinv.inFlight, ?_, hinv.gate, hinv.retired, ?_⟩
  · have hle : pool.calls.countP (·.phase.counted) ≤
        pool.calls.countP (·.phase.admitted) :=
      List.countP_mono_left fun _ _ => DohPhase.admitted_of_counted
    have := hinv.permits
    have := hinv.inFlight
    omega
  · intro gen hgen i j call other hcall hother hruns hruns'
    have hcold := (h.cold hgen).2.2
    have hi := (hinv.gate gen i).mpr
      ⟨call, hcall, hcold call (List.mem_of_getElem? hcall) hruns⟩
    have hj := (hinv.gate gen j).mpr
      ⟨other, hother, hcold other (List.mem_of_getElem? hother) hruns'⟩
    exact Option.some.inj (hi.symm.trans hj)

/-- One call starts a request, and another waits for a permit. -/
theorem cold_start_of_two_calls :
    ∃ pool : DohPool, Ran 1 [] pool ∧ pool.calls.length = 2 ∧
      pool.inFlight ≤ 1 := by
  have hrun : Ran 1 [] _ := .step (.step (.step (.step (.step (.step (.step
    .start (.arrive (by decide)))
    (.enqueue rfl)) (.call 0 rfl (by simp) .count))
    (.call 0 rfl (by simp) .choose)) (.call 0 rfl (by simp) (.wait rfl)))
    (.call 0 rfl (by simp) (.lock rfl))) (.call 0 rfl (by simp) (.start rfl))
  exact ⟨_, hrun, rfl, (permits_and_cold_start hrun).2.2.1⟩

end DohPool

end DnsLattice
