import Mathlib.Logic.Relation
import Mathlib.Data.Finset.Card
import Mathlib.Data.Fintype.Card
import Mathlib.Tactic

/-!
# Executions that return, fail, panic or run forever

A piece of imperative code either returns a value, returns an error, panics,
or never returns.  `Run` keeps the four outcomes apart, so that statements
about termination and about the absence of panics are statements about
values.  Loops are unrolled with fuel; the second half of the file relates
the fuelled loop to the orbit of its control point and shows that a loop
whose control point ranges over `N` values needs at most `N + 1` iterations,
or never stops.
-/

namespace DnsLattice

/-- The outcome of running a piece of code whose errors have type `ε`. -/
inductive Run (ε α : Type) where
  | ok (value : α)
  | err (error : ε)
  | panic
  | diverge
  deriving DecidableEq, Repr

namespace Run

variable {ε α β σ ρ : Type}

/-- Sequencing stops at the first outcome which is not `ok`. -/
def bind (run : Run ε α) (next : α → Run ε β) : Run ε β :=
  match run with
  | .ok value => next value
  | .err error => .err error
  | .panic => .panic
  | .diverge => .diverge

def any (run : Run ε α) (test : α → Bool) : Bool :=
  match run with
  | .ok value => test value
  | _ => false

def error? : Run ε α → Option ε
  | .err error => some error
  | _ => none

theorem exists_of_any {run : Run ε α} {test : α → Bool}
    (h : run.any test = true) :
    ∃ value, run = .ok value ∧ test value = true := by
  cases run with
  | ok value => exact ⟨value, rfl, h⟩
  | err error => simp [any] at h
  | panic => simp [any] at h
  | diverge => simp [any] at h

theorem eq_err_of_error? {run : Run ε α} {error : ε}
    (h : run.error? = some error) : run = .err error := by
  cases run with
  | err found => rw [Option.some.inj h]
  | ok value => simp [error?] at h
  | panic => simp [error?] at h
  | diverge => simp [error?] at h

instance : Monad (Run ε) where
  pure := .ok
  bind := bind

instance : LawfulMonad (Run ε) :=
  LawfulMonad.mk' (Run ε)
    (fun run => by cases run <;> rfl)
    (fun _ _ => rfl)
    (fun run _ _ => by cases run <;> rfl)

@[simp] theorem pure_eq_ok (value : α) : (pure value : Run ε α) = .ok value := rfl

@[simp] theorem ok_bind (value : α) (next : α → Run ε β) :
    (Run.ok value >>= next) = next value := rfl

@[simp] theorem err_bind (error : ε) (next : α → Run ε β) :
    ((Run.err error : Run ε α) >>= next) = .err error := rfl

@[simp] theorem panic_bind (next : α → Run ε β) :
    ((Run.panic : Run ε α) >>= next) = .panic := rfl

@[simp] theorem diverge_bind (next : α → Run ε β) :
    ((Run.diverge : Run ε α) >>= next) = .diverge := rfl

@[simp] theorem map_ok (f : α → β) (value : α) :
    (f <$> (Run.ok value : Run ε α)) = .ok (f value) := rfl

@[simp] theorem map_err (f : α → β) (error : ε) :
    (f <$> (Run.err error : Run ε α)) = .err error := rfl

@[simp] theorem map_panic (f : α → β) :
    (f <$> (Run.panic : Run ε α)) = .panic := rfl

@[simp] theorem map_diverge (f : α → β) :
    (f <$> (Run.diverge : Run ε α)) = .diverge := rfl

theorem bind_eq_ok_iff {run : Run ε α} {next : α → Run ε β} {result : β} :
    (run >>= next) = .ok result ↔
      ∃ value, run = .ok value ∧ next value = .ok result := by
  cases run <;> simp

theorem bind_eq_diverge_iff {run : Run ε α} {next : α → Run ε β} :
    (run >>= next) = .diverge ↔
      run = .diverge ∨ ∃ value, run = .ok value ∧ next value = .diverge := by
  cases run <;> simp

/-- `let Ok(value) = run else { return None }`. -/
def letOk (run : Run ε α) (next : α → Run ε (Option β)) : Run ε (Option β) :=
  match run with
  | .ok value => next value
  | .err _ => .ok none
  | .panic => .panic
  | .diverge => .diverge

theorem letOk_eq_some_iff
    {run : Run ε α} {next : α → Run ε (Option β)} {result : β} :
    letOk run next = .ok (some result) ↔
      ∃ value, run = .ok value ∧ next value = .ok (some result) := by
  cases run <;> simp [letOk]

def Returns (run : Run ε α) : Prop :=
  (∃ value, run = .ok value) ∨ ∃ error, run = .err error

theorem returns_iff {run : Run ε α} :
    run.Returns ↔ run ≠ .panic ∧ run ≠ .diverge := by
  cases run <;> simp [Returns]

theorem returns_ite {p : Prop} [Decidable p] {value : α} {error : ε} :
    (if p then .err error else .ok value : Run ε α).Returns := by
  split_ifs
  · exact .inr ⟨error, rfl⟩
  · exact .inl ⟨value, rfl⟩

theorem Returns.bind {run : Run ε α} {next : α → Run ε β} (hrun : run.Returns)
    (hnext : ∀ value, run = .ok value → (next value).Returns) :
    (run >>= next).Returns := by
  obtain ⟨value, rfl⟩ | ⟨error, rfl⟩ := hrun
  · exact hnext value rfl
  · exact .inr ⟨error, rfl⟩

/-- `buf[i]`: out of bounds it panics. -/
def index (buf : List α) (i : ℕ) : Run ε α :=
  match buf[i]? with
  | some value => .ok value
  | none => .panic

/-- `buf[start..stop]`: it panics unless `start ≤ stop ≤ buf.len()`. -/
def slice (buf : List α) (start stop : ℕ) : Run ε (List α) :=
  if start ≤ stop ∧ stop ≤ buf.length then
    .ok ((buf.drop start).take (stop - start))
  else .panic

/-- `buf[start..start + data.len()].copy_from_slice(data)`. -/
def copyFromSlice (buf : List α) (start : ℕ) (data : List α) :
    Run ε (List α) :=
  if start + data.length ≤ buf.length then
    .ok (buf.take start ++ data ++ buf.drop (start + data.length))
  else .panic

def sub (a b : ℕ) : Run ε ℕ :=
  if b ≤ a then .ok (a - b) else .panic

/-- Addition of unsigned integers below `bound`: an overflow panics. -/
def add (bound a b : ℕ) : Run ε ℕ :=
  if a + b < bound then .ok (a + b) else .panic

def rem (a b : ℕ) : Run ε ℕ :=
  if b = 0 then .panic else .ok (a % b)

theorem add_eq_ok {bound a b : ℕ} (h : a + b < bound) :
    (add bound a b : Run ε ℕ) = .ok (a + b) :=
  if_pos h

theorem rem_eq_ok {a b : ℕ} (h : 0 < b) :
    (rem a b : Run ε ℕ) = .ok (a % b) :=
  if_neg h.ne'

theorem sub_eq_ok {a b : ℕ} (h : b ≤ a) :
    (sub a b : Run ε ℕ) = .ok (a - b) :=
  if_pos h

theorem index_of_getElem?
    {buf : List α} {i : ℕ} {value : α} (h : buf[i]? = some value) :
    (index buf i : Run ε α) = .ok value := by
  simp [index, h]

theorem index_ne_diverge (buf : List α) (i : ℕ) :
    (index buf i : Run ε α) ≠ .diverge := by
  unfold index
  split <;> simp

theorem slice_ne_diverge (buf : List α) (start stop : ℕ) :
    (slice buf start stop : Run ε (List α)) ≠ .diverge := by
  unfold slice
  split <;> simp

theorem sub_ne_diverge (a b : ℕ) : (sub a b : Run ε ℕ) ≠ .diverge := by
  unfold sub
  split <;> simp

theorem foldlM_invariant {step : σ → α → Run ε σ} (invariant : σ → Prop)
    (hstep : ∀ state item next, invariant state →
      step state item = .ok next → invariant next)
    {items : List α} {state result : σ} (hstate : invariant state)
    (hfold : items.foldlM step state = .ok result) : invariant result := by
  induction items generalizing state with
  | nil =>
    obtain rfl := Run.ok.inj hfold
    exact hstate
  | cons item rest ih =>
    rw [List.foldlM_cons] at hfold
    obtain ⟨next, hnext, hrest⟩ := bind_eq_ok_iff.mp hfold
    exact ih (hstep state item next hstate hnext) hrest

theorem exists_step_of_foldlM {step : σ → α → Run ε σ} {items : List α}
    {item : α} (hitem : item ∈ items) {state result : σ}
    (hfold : items.foldlM step state = .ok result) :
    ∃ before after, step before item = .ok after := by
  induction items generalizing state with
  | nil => cases hitem
  | cons first rest ih =>
    rw [List.foldlM_cons] at hfold
    obtain ⟨next, hnext, hrest⟩ := bind_eq_ok_iff.mp hfold
    rcases List.mem_cons.mp hitem with rfl | hmem
    · exact ⟨state, next, hnext⟩
    · exact ih hmem hrest

/-! ## Loops -/

/-- `loop { .. }` with at most `fuel` iterations: an iteration continues with
a new state (`inl`), breaks with a result (`inr`), or leaves the function. -/
def loop (body : σ → Run ε (σ ⊕ ρ)) : ℕ → σ → Run ε ρ
  | 0, _ => .diverge
  | fuel + 1, state =>
      body state >>= fun
        | .inl next => loop body fuel next
        | .inr result => .ok result

def LoopHalts (body : σ → Run ε (σ ⊕ ρ)) (state : σ) : Prop :=
  ∃ fuel, loop body fuel state ≠ .diverge

theorem loop_zero (body : σ → Run ε (σ ⊕ ρ)) (state : σ) :
    loop body 0 state = .diverge := rfl

theorem loop_succ_of_continue
    {body : σ → Run ε (σ ⊕ ρ)} {state next : σ} (fuel : ℕ)
    (hbody : body state = .ok (.inl next)) :
    loop body (fuel + 1) state = loop body fuel next := by
  change (body state >>= _) = _
  rw [hbody, ok_bind]

theorem loop_succ_of_break
    {body : σ → Run ε (σ ⊕ ρ)} {state : σ} {result : ρ} (fuel : ℕ)
    (hbody : body state = .ok (.inr result)) :
    loop body (fuel + 1) state = .ok result := by
  change (body state >>= _) = _
  rw [hbody, ok_bind]

theorem loop_add_fuel {body : σ → Run ε (σ ⊕ ρ)} {fuel : ℕ} {state : σ}
    (hstop : loop body fuel state ≠ .diverge) (extra : ℕ) :
    loop body (fuel + extra) state = loop body fuel state := by
  induction fuel generalizing state with
  | zero => exact absurd rfl hstop
  | succ fuel ih =>
    rw [show fuel + 1 + extra = (fuel + extra) + 1 by omega]
    cases hbody : body state with
    | ok step =>
      cases step with
      | inl next =>
        rw [loop_succ_of_continue _ hbody] at hstop ⊢
        rw [loop_succ_of_continue _ hbody]
        exact ih hstop
      | inr result => simp [loop, hbody]
    | err error => simp [loop, hbody]
    | panic => simp [loop, hbody]
    | diverge => simp [loop, hbody]

/-- A loop whose measure falls with every round that does not end it stops
within the measure. -/
theorem exists_loop_of_measure
    {body : σ → Run ε (σ ⊕ ρ)} (invariant : σ → Prop) (measure : σ → ℕ)
    (result : ρ → Prop)
    (hbody : ∀ state, invariant state →
      (∃ next, body state = .ok (.inl next) ∧ invariant next ∧
        measure next < measure state) ∨
      ∃ value, body state = .ok (.inr value) ∧ result value)
    {state : σ} (hstate : invariant state) {fuel : ℕ}
    (hfuel : measure state < fuel) :
    ∃ value, loop body fuel state = .ok value ∧ result value := by
  induction fuel generalizing state with
  | zero => exact absurd hfuel (Nat.not_lt_zero _)
  | succ fuel ih =>
    rcases hbody state hstate with
      ⟨next, hnext, hinvariant, hlt⟩ | ⟨value, hvalue, hresult⟩
    · rw [loop_succ_of_continue fuel hnext]
      exact ih hinvariant (by omega)
    · exact ⟨value, loop_succ_of_break fuel hvalue, hresult⟩

theorem loop_result
    {body : σ → Run ε (σ ⊕ ρ)} (invariant : σ → Prop) (result : ρ → Prop)
    (hcontinue : ∀ state next, invariant state →
      body state = .ok (.inl next) → invariant next)
    (hbreak : ∀ state value, invariant state →
      body state = .ok (.inr value) → result value)
    {state : σ} (hstate : invariant state) {fuel : ℕ} {value : ρ}
    (hloop : loop body fuel state = .ok value) : result value := by
  induction fuel generalizing state with
  | zero => cases hloop
  | succ fuel ih =>
    obtain ⟨round, hbody, hrest⟩ := bind_eq_ok_iff.mp hloop
    cases round with
    | inl next => exact ih (hcontinue state next hstate hbody) hrest
    | inr found =>
      obtain rfl := Run.ok.inj hrest
      exact hbreak state found hstate hbody

theorem loop_ne_panic
    {body : σ → Run ε (σ ⊕ ρ)} (hbody : ∀ state, body state ≠ .panic)
    (fuel : ℕ) (state : σ) : loop body fuel state ≠ .panic := by
  induction fuel generalizing state with
  | zero => simp [loop]
  | succ fuel ih =>
    cases hstep : body state with
    | ok step =>
      cases step with
      | inl next =>
        rw [loop_succ_of_continue fuel hstep]
        exact ih next
      | inr result => simp [loop, hstep]
    | err error => simp [loop, hstep]
    | panic => exact absurd hstep (hbody state)
    | diverge => simp [loop, hstep]

/-! ## The orbit of a loop's control point -/

/-- The body's control flow is governed by a control point: an iteration
continues exactly when the partial map `next` is defined there, and then the
control point moves along `next`. -/
structure ControlledBy
    (body : σ → Run ε (σ ⊕ ρ)) (control : σ → ℕ) (next : ℕ → Option ℕ) :
    Prop where
  continues :
    ∀ state following, body state = .ok (.inl following) →
      next (control state) = some (control following)
  defined :
    ∀ state target, next (control state) = some target →
      ∃ following, body state = .ok (.inl following)
  returns : ∀ state, body state ≠ .diverge

/-- One move of the control point. -/
def Moves (next : ℕ → Option ℕ) (source target : ℕ) : Prop :=
  next source = some target

def ReturnsTo (next : ℕ → Option ℕ) (start point : ℕ) : Prop :=
  Relation.ReflTransGen (Moves next) start point ∧
    Relation.TransGen (Moves next) point point

/-- The point after `n` moves, if all of them are defined. -/
def walk (next : ℕ → Option ℕ) : ℕ → ℕ → Option ℕ
  | 0, point => some point
  | n + 1, point => next point >>= walk next n

theorem walk_succ_of_moves {next : ℕ → Option ℕ} {point target : ℕ} (n : ℕ)
    (hmove : Moves next point target) :
    walk next (n + 1) point = walk next n target := by
  simp [walk, show next point = some target from hmove]

theorem walk_add (next : ℕ → Option ℕ) (m n point : ℕ) :
    walk next (m + n) point = walk next m point >>= walk next n := by
  induction m generalizing point with
  | zero => simp [walk]
  | succ m ih =>
    rw [show m + 1 + n = (m + n) + 1 by omega]
    cases hnext : next point with
    | none => simp [walk, hnext]
    | some target => simp [walk, hnext, ih]

theorem reflTransGen_of_walk {next : ℕ → Option ℕ} {n start point : ℕ}
    (hwalk : walk next n start = some point) :
    Relation.ReflTransGen (Moves next) start point := by
  induction n generalizing start with
  | zero =>
    simp only [walk, Option.some.injEq] at hwalk
    exact hwalk ▸ .refl
  | succ n ih =>
    cases hnext : next start with
    | none => simp [walk, hnext] at hwalk
    | some target =>
      have htail : walk next n target = some point := by
        simpa [walk, hnext] using hwalk
      exact .head hnext (ih htail)

theorem transGen_of_walk_succ {next : ℕ → Option ℕ} {n start point : ℕ}
    (hwalk : walk next (n + 1) start = some point) :
    Relation.TransGen (Moves next) start point := by
  cases hnext : next start with
  | none => simp [walk, hnext] at hwalk
  | some target =>
    have htail : walk next n target = some point := by
      simpa [walk, hnext] using hwalk
    exact Relation.TransGen.head' hnext (reflTransGen_of_walk htail)

/-- From a point that still leads to a returning point every further move is
defined, and keeps leading there. -/
theorem walk_isSome_of_reaches_cycle {next : ℕ → Option ℕ} {point : ℕ}
    (hcycle : Relation.TransGen (Moves next) point point) (n : ℕ) :
    ∀ start, Relation.ReflTransGen (Moves next) start point →
      (walk next n start).isSome := by
  induction n with
  | zero => simp [walk]
  | succ n ih =>
    intro start hreach
    -- the first move exists: either towards `point`, or around the cycle
    obtain ⟨target, hmove, hrest⟩ :
        ∃ target, Moves next start target ∧
          Relation.ReflTransGen (Moves next) target point := by
      rcases Relation.ReflTransGen.cases_head hreach with heq | hstep
      · subst heq
        exact Relation.TransGen.head'_iff.mp hcycle
      · exact hstep
    rw [walk_succ_of_moves n hmove]
    exact ih target hrest

/-- A walk that visits more points than there are in its range returns to
one of them. -/
theorem exists_returnsTo_of_long_walk {next : ℕ → Option ℕ} {bound start : ℕ}
    (hbound : ∀ source target, next source = some target → source < bound)
    (hlong : (walk next (bound + 1) start).isSome) :
    ∃ point, ReturnsTo next start point := by
  have hvisit : ∀ n ≤ bound, ∃ point, walk next n start = some point ∧
      point < bound := by
    intro n hn
    rw [show bound + 1 = n + ((bound - n) + 1) by omega, walk_add] at hlong
    cases hpoint : walk next n start with
    | none => simp [hpoint] at hlong
    | some point =>
      refine ⟨point, rfl, ?_⟩
      cases hnext : next point with
      | none => simp [hpoint, walk, hnext] at hlong
      | some target => exact hbound point target hnext
  let visited : ℕ → ℕ := fun n => (walk next n start).getD 0
  obtain ⟨i, hi, j, hj, hne, heq⟩ :
      ∃ i ∈ Finset.range (bound + 1), ∃ j ∈ Finset.range (bound + 1),
        i ≠ j ∧ visited i = visited j := by
    apply Finset.exists_ne_map_eq_of_card_lt_of_maps_to
      (t := Finset.range bound)
    · simp
    · intro n hn
      obtain ⟨point, hpoint, hlt⟩ :=
        hvisit n (by simpa [Nat.lt_succ_iff] using hn)
      simp [visited, hpoint, hlt]
  wlog hlt : i < j generalizing i j
  · exact this j hj i hi hne.symm heq.symm (by omega)
  obtain ⟨point, hpoint, _⟩ := hvisit i (by simpa [Nat.lt_succ_iff] using hi)
  obtain ⟨again, hagain, _⟩ := hvisit j (by simpa [Nat.lt_succ_iff] using hj)
  have hsame : again = point := by
    simpa [visited, hpoint, hagain] using heq.symm
  subst hsame
  refine ⟨again, reflTransGen_of_walk hpoint, ?_⟩
  apply transGen_of_walk_succ (n := j - i - 1)
  rw [show j = i + ((j - i - 1) + 1) by omega, walk_add, hpoint] at hagain
  simpa using hagain

section Controlled

variable {body : σ → Run ε (σ ⊕ ρ)} {control : σ → ℕ} {next : ℕ → Option ℕ}

/-- The fuelled loop runs out of fuel exactly when all its moves are
defined. -/
theorem loop_eq_diverge_iff_walk
    (hcontrol : ControlledBy body control next) (fuel : ℕ) (state : σ) :
    loop body fuel state = .diverge ↔
      (walk next fuel (control state)).isSome := by
  induction fuel generalizing state with
  | zero => simp [loop, walk]
  | succ fuel ih =>
    cases hnext : next (control state) with
    | none =>
      have hstop : ∀ following, body state ≠ .ok (.inl following) := by
        intro following hbody
        rw [hcontrol.continues state following hbody] at hnext
        cases hnext
      have hreturns := hcontrol.returns state
      have hwalk : walk next (fuel + 1) (control state) = none := by
        simp [walk, hnext]
      rw [hwalk]
      cases hbody : body state with
      | ok step =>
        cases step with
        | inl following => exact absurd hbody (hstop following)
        | inr result => simp [loop, hbody]
      | err error => simp [loop, hbody]
      | panic => simp [loop, hbody]
      | diverge => exact absurd hbody hreturns
    | some target =>
      obtain ⟨following, hbody⟩ := hcontrol.defined state target hnext
      have htarget : target = control following := by
        have h := hcontrol.continues state following hbody
        rw [hnext] at h
        exact Option.some.inj h
      rw [loop_succ_of_continue fuel hbody, ih following,
        walk_succ_of_moves fuel (show Moves next _ target from hnext),
        htarget]

/-- A controlled loop over finitely many control points stops, exactly when
its walk never returns to a point; and then `bound + 1` iterations are
enough. -/
theorem loopHalts_iff_not_returnsTo
    (hcontrol : ControlledBy body control next) {bound : ℕ}
    (hbound : ∀ source target, next source = some target → source < bound)
    (state : σ) :
    LoopHalts body state ↔
      ¬ ∃ point, ReturnsTo next (control state) point := by
  constructor
  · rintro ⟨fuel, hstop⟩ ⟨point, hreach, hcycle⟩
    apply hstop
    rw [loop_eq_diverge_iff_walk hcontrol]
    exact walk_isSome_of_reaches_cycle hcycle fuel _ hreach
  · intro hnone
    refine ⟨bound + 1, fun hdiverge => hnone ?_⟩
    rw [loop_eq_diverge_iff_walk hcontrol] at hdiverge
    exact exists_returnsTo_of_long_walk hbound hdiverge

/-- With one iteration more than there are control points, running out of
fuel means running forever. -/
theorem loop_eq_diverge_iff_not_loopHalts
    (hcontrol : ControlledBy body control next) {bound : ℕ}
    (hbound : ∀ source target, next source = some target → source < bound)
    (state : σ) :
    loop body (bound + 1) state = .diverge ↔ ¬ LoopHalts body state := by
  constructor
  · intro hdiverge
    rw [loopHalts_iff_not_returnsTo hcontrol hbound, not_not]
    rw [loop_eq_diverge_iff_walk hcontrol] at hdiverge
    exact exists_returnsTo_of_long_walk hbound hdiverge
  · intro hnever
    by_contra hstop
    exact hnever ⟨bound + 1, hstop⟩

end Controlled

end Run

/-! ## Instants -/

/-- `Instant::checked_add`. -/
def instantAdd (instantMax instant duration : ℕ) : Option ℕ :=
  if instant + duration ≤ instantMax then some (instant + duration) else none

/-- `Instant::checked_duration_since`. -/
def durationSince (instant earlier : ℕ) : Option ℕ :=
  if earlier ≤ instant then some (instant - earlier) else none

end DnsLattice
