import DnsLattice.SnapshotRestore
import DnsLattice.LeaseLifetime

/-!
# A restored pool answers like the original

Two pools whose tables of leases agree once the leases which have run out are
left aside give the same answers, and their tables still agree afterwards.  A
pool and what is restored from its snapshot are such a pair, so that every
sequence of calls sees the same addresses, names, lifetimes and errors, as
long as the recencies of the original do not repeat.
-/

namespace DnsLattice

inductive PoolCall where
  | allocate (family : IpFamily) (name : Name)
  | lookup (family : IpFamily) (address : BitVec family.width)
  | contains (family : IpFamily) (address : BitVec family.width)

inductive PoolReply where
  | allocated (address : IpAddr) (lifetime : ℕ)
  | found (mapping : Option (Name × ℕ))
  | contained (inside : Bool)
  deriving DecidableEq, Repr

namespace FakeIpPool

def call (instantMax now : ℕ) (pool : FakeIpPool) :
    PoolCall → Run Error (PoolReply × FakeIpPool)
  | .allocate family name => do
      let ((address, lifetime), after) ←
        pool.allocateWithTtl family instantMax name now
      pure (.allocated ⟨family, address⟩ lifetime, after)
  | .lookup family address => do
      let (mapping, after) ← pool.lookupWithTtl family address now
      pure (.found mapping, after)
  | .contains family address =>
      pure (.contained (pool.contains family address), pool)

/-- What a sequence of calls returns, and the pool it leaves.  An error leaves
the pool as it was. -/
def converse (instantMax : ℕ) :
    List (ℕ × PoolCall) → FakeIpPool →
      List (Run Error PoolReply) × FakeIpPool
  | [], pool => ([], pool)
  | (now, request) :: rest, pool =>
      match pool.call instantMax now request with
      | .ok (reply, after) =>
          (.ok reply :: (converse instantMax rest after).1,
            (converse instantMax rest after).2)
      | .err error =>
          (.err error :: (converse instantMax rest pool).1,
            (converse instantMax rest pool).2)
      | .panic => ([.panic], pool)
      | .diverge => ([.diverge], pool)

end FakeIpPool

/-! ## Runs with the same outcome -/

namespace Run

/-- Two outcomes which differ in the states they leave only. -/
inductive Alike {ε α σ τ : Type} (related : σ → τ → Prop) :
    Run ε (α × σ) → Run ε (α × τ) → Prop
  | ok {value : α} {state : σ} {other : τ} (hrelated : related state other) :
      Alike related (.ok (value, state)) (.ok (value, other))
  | err (error : ε) : Alike related (.err error) (.err error)
  | panic : Alike related .panic .panic
  | diverge : Alike related .diverge .diverge

theorem Alike.map {ε α β σ τ σ' τ' : Type} {related : σ → τ → Prop}
    {related' : σ' → τ' → Prop} {run : Run ε (α × σ)} {run' : Run ε (α × τ)}
    (h : Alike related run run') (f : α → β) (left : σ → σ') (right : τ → τ')
    (himp : ∀ value state other, run = .ok (value, state) →
      run' = .ok (value, other) → related state other →
        related' (left state) (right other)) :
    Alike related'
      (run >>= fun result => .ok (f result.1, left result.2))
      (run' >>= fun result => .ok (f result.1, right result.2)) := by
  cases h with
  | ok hrelated => exact .ok (himp _ _ _ rfl rfl hrelated)
  | err error => exact .err error
  | panic => exact .panic
  | diverge => exact .diverge

/-- Outcomes which are the same up to an abstraction of the states. -/
theorem alike_of_map_eq {ε α σ τ θ : Type} {run : Run ε (α × σ)}
    {run' : Run ε (α × τ)} {left : σ → θ} {right : τ → θ}
    (h : ((fun result => (result.1, left result.2)) <$> run) =
      ((fun result => (result.1, right result.2)) <$> run')) :
    Alike (fun state other => left state = right other) run run' := by
  cases run with
  | ok result =>
    cases run' with
    | ok result' =>
      obtain ⟨value, state⟩ := result
      obtain ⟨value', other⟩ := result'
      obtain ⟨rfl, hstate⟩ := Prod.mk.inj (Run.ok.inj h)
      exact .ok hstate
    | err error => cases h
    | panic => cases h
    | diverge => cases h
  | err error =>
    cases run' with
    | ok result => cases h
    | err error' =>
      obtain rfl := Run.err.inj h
      exact .err error
    | panic => cases h
    | diverge => cases h
  | panic =>
    cases run' with
    | panic => exact .panic
    | ok result => cases h
    | err error => cases h
    | diverge => cases h
  | diverge =>
    cases run' with
    | diverge => exact .diverge
    | ok result => cases h
    | err error => cases h
    | panic => cases h

end Run

/-! ## Families with the same leases -/

namespace FamilyState

variable {w : ℕ} {state after : FamilyState w} {name : Name} {now : ℕ}

theorem Edit.touches_le (hedit : Edit state after) :
    state.touches ≤ after.touches := by
  cases hedit with
  | remove hentry => exact le_rfl
  | refresh hentry => exact Nat.le_succ _
  | record hname haddress hinside => exact Nat.le_succ _
  | reorder hforward hreverse => exact le_rfl

theorem touches_le_of_edits (hedits : Relation.ReflTransGen Edit state after) :
    state.touches ≤ after.touches := by
  induction hedits with
  | refl => exact le_rfl
  | tail _ hedit ih => exact ih.trans hedit.touches_le

theorem LookedUp.touches_eq {address : BitVec w} {reply : Option (Name × ℕ)}
    (h : LookedUp state address now reply after) :
    after.touches = state.touches + reply.toList.length := by
  cases h with
  | missing hpurged hfree => exact hpurged.touches_eq
  | found hpurged hentry haddress hlive =>
    exact congrArg (· + 1) hpurged.touches_eq

theorem Allocated.touches_eq [Address w] {salt : UInt64}
    {ttl expiresAt lifetime : ℕ} {address : BitVec w}
    (h : Allocated state name salt now ttl expiresAt address lifetime after) :
    after.touches = state.touches + 1 := by
  cases h with
  | reused hpurged hentry hlive => exact congrArg (· + 1) hpurged.touches_eq
  | assigned hpurge hpurged hname hassigned =>
    refine congrArg (· + 1) (Eq.trans ?_ hpurged.touches_eq)
    cases hassigned.room <;> rfl

/-- Two states whose live leases are the same, in the same order. -/
structure Twin (now : ℕ) (state other : FamilyState w) : Prop where
  touches_le : other.touches ≤ state.touches
  table_eq : state.table.purge now = other.table.purge now

variable {other : FamilyState w}

theorem Twin.mono {later : ℕ} (h : Twin now state other)
    (hle : now ≤ later) : Twin later state other := by
  refine ⟨h.touches_le, ?_⟩
  rw [← state.table.purge_purge hle, h.table_eq, other.table.purge_purge hle]

structure Settled (state : FamilyState w) : Prop where
  inv : state.Inv
  numbered : state.Numbered
  touches_lt : state.touches < 2 ^ 64

theorem Twin.lookup (h : Twin now state other) (hstate : state.Settled)
    (hother : other.Settled) (address : BitVec w) :
    Run.Alike (Twin now) (state.lookupWithTtl address now)
      (other.lookupWithTtl address now) := by
  have htable : state.table.lookup address now =
      other.table.lookup address now := by
    rw [LeaseTable.lookup, LeaseTable.lookup, h.table_eq]
  obtain ⟨reply, after, hlookup, hlookedUp⟩ :=
    lookupWithTtl_spec hstate.inv address now
  obtain ⟨reply', after', hlookup', hlookedUp'⟩ :=
    lookupWithTtl_spec hother.inv address now
  have hrefines := lookupWithTtl_refines hstate.inv hstate.numbered
    hstate.touches_lt address now
  have hrefines' := lookupWithTtl_refines hother.inv hother.numbered
    hother.touches_lt address now
  rw [hlookup, Run.map_ok, htable] at hrefines
  rw [hlookup', Run.map_ok] at hrefines'
  obtain ⟨hreply, htables⟩ :=
    Prod.mk.inj ((Run.ok.inj hrefines).trans (Run.ok.inj hrefines').symm)
  change reply = reply' at hreply
  subst hreply
  rw [hlookup, hlookup']
  refine .ok ⟨?_, ?_⟩
  · have := h.touches_le
    rw [hlookedUp.touches_eq, hlookedUp'.touches_eq]
    omega
  · exact congrArg (LeaseTable.purge · now) htables

theorem Twin.allocate [Address w] [LawfulAddress w] (h : Twin now state other)
    (hstate : state.Settled) (hother : other.Settled) (instantMax : ℕ)
    (name : Name) (salt : UInt64) (ttl : ℕ) :
    Run.Alike (Twin now) (state.allocateWithTtl instantMax name salt now ttl)
      (other.allocateWithTtl instantMax name salt now ttl) := by
  have htable : state.table.allocate instantMax name salt now ttl =
      other.table.allocate instantMax name salt now ttl := by
    rw [LeaseTable.allocate, LeaseTable.allocate, h.table_eq]
  have halike := Run.alike_of_map_eq
    ((allocateWithTtl_refines hstate.inv hstate.numbered hstate.touches_lt
      instantMax name salt now ttl).trans (htable.trans
        (allocateWithTtl_refines hother.inv hother.numbered hother.touches_lt
          instantMax name salt now ttl).symm))
  generalize hrun : state.allocateWithTtl instantMax name salt now ttl = run
    at halike ⊢
  generalize hrun' : other.allocateWithTtl instantMax name salt now ttl = run'
    at halike ⊢
  cases halike with
  | ok htables =>
    refine .ok ⟨?_, congrArg (LeaseTable.purge · now) htables⟩
    have := h.touches_le
    rw [(allocateWithTtl_eq_ok hstate.inv hrun).2.touches_eq,
      (allocateWithTtl_eq_ok hother.inv hrun').2.touches_eq]
    omega
  | err error => exact .err error
  | panic => exact .panic
  | diverge => exact .diverge

end FamilyState

/-! ## Pools with the same leases -/

namespace FakeIpPool

variable {instantMax now : ℕ} {pool other : FakeIpPool} {family : IpFamily}

structure Twins (now : ℕ) (pool other : FakeIpPool) : Prop where
  inv : PoolState.Inv ⟨now, pool⟩
  inv_other : PoolState.Inv ⟨now, other⟩
  ttl_eq : pool.ttl = other.ttl
  families : ∀ family,
    (pool.families family = none ∧ other.families family = none) ∨
      ∃ inner twin, pool.families family = some inner ∧
        other.families family = some twin ∧ inner.Twin now twin

def TouchesBelow (pool : FakeIpPool) : Prop :=
  ∀ family inner, pool.families family = some inner → inner.touches < 2 ^ 64

theorem Twins.mono {later : ℕ} (h : Twins now pool other)
    (hle : now ≤ later) : Twins later pool other where
  inv := (@PoolState.Step.tick 0 ⟨now, pool⟩ later hle).inv h.inv
  inv_other := (@PoolState.Step.tick 0 ⟨now, other⟩ later hle).inv h.inv_other
  ttl_eq := h.ttl_eq
  families family := by
    rcases h.families family with hnone | ⟨inner, twin, hinner, htwin, htwins⟩
    · exact .inl hnone
    · exact .inr ⟨inner, twin, hinner, htwin, htwins.mono hle⟩

theorem Twins.withFamily (h : Twins now pool other)
    {inner twin : FamilyState family.width} (htwin : inner.Twin now twin)
    (hinv : PoolState.Inv ⟨now, pool.withFamily family inner⟩)
    (hinv' : PoolState.Inv ⟨now, other.withFamily family twin⟩) :
    Twins now (pool.withFamily family inner)
      (other.withFamily family twin) where
  inv := hinv
  inv_other := hinv'
  ttl_eq := h.ttl_eq
  families place := by
    by_cases hsame : place = family
    · subst hsame
      exact .inr ⟨inner, twin, families_withFamily inner,
        families_withFamily twin, htwin⟩
    · rw [families_withFamily_ne inner hsame,
        families_withFamily_ne twin hsame]
      exact h.families place

theorem Twins.settled (h : Twins now pool other)
    (htouches : pool.TouchesBelow) {inner twin : FamilyState family.width}
    (hinner : pool.families family = some inner)
    (htwin : other.families family = some twin)
    (htwins : inner.Twin now twin) : inner.Settled ∧ twin.Settled := by
  obtain ⟨hinv, hnumbered⟩ := h.inv.families family inner hinner
  obtain ⟨hinv', hnumbered'⟩ := h.inv_other.families family twin htwin
  have hlt := htouches family inner hinner
  exact ⟨⟨hinv, hnumbered, hlt⟩,
    ⟨hinv', hnumbered', htwins.touches_le.trans_lt hlt⟩⟩

theorem Twins.allocate (h : Twins now pool other)
    (htouches : pool.TouchesBelow) (family : IpFamily) (name : Name) :
    Run.Alike (Twins now) (pool.allocateWithTtl family instantMax name now)
      (other.allocateWithTtl family instantMax name now) := by
  rcases h.families family with
    ⟨hnone, hnone'⟩ | ⟨inner, twin, hinner, htwin, htwins⟩
  · rw [allocateWithTtl, allocateWithTtl, hnone, hnone']
    exact .err _
  · obtain ⟨hsettled, hsettled'⟩ := h.settled htouches hinner htwin htwins
    have halike := htwins.allocate hsettled hsettled' instantMax name
      (hashSalt family) pool.ttl
    have hcall : pool.allocateWithTtl family instantMax name now =
        inner.allocateWithTtl instantMax name (hashSalt family) now pool.ttl >>=
          fun result => .ok (result.1, pool.withFamily family result.2) := by
      rw [allocateWithTtl, hinner]
      rfl
    have hcall' : other.allocateWithTtl family instantMax name now =
        twin.allocateWithTtl instantMax name (hashSalt family) now pool.ttl >>=
          fun result => .ok (result.1, other.withFamily family result.2) := by
      rw [allocateWithTtl, htwin, h.ttl_eq]
      rfl
    rw [hcall, hcall']
    refine halike.map id _ _ ?_
    intro value state state' hstate hstate' htwin'
    rw [hstate, Run.ok_bind] at hcall
    rw [hstate', Run.ok_bind] at hcall'
    exact h.withFamily htwin'
      ((@PoolState.Step.allocate instantMax ⟨now, pool⟩ _ family name _
        hcall).inv h.inv)
      ((@PoolState.Step.allocate instantMax ⟨now, other⟩ _ family name _
        hcall').inv h.inv_other)

theorem Twins.lookup (h : Twins now pool other)
    (htouches : pool.TouchesBelow) (family : IpFamily)
    (address : BitVec family.width) :
    Run.Alike (Twins now) (pool.lookupWithTtl family address now)
      (other.lookupWithTtl family address now) := by
  rcases h.families family with
    ⟨hnone, hnone'⟩ | ⟨inner, twin, hinner, htwin, htwins⟩
  · rw [lookupWithTtl, lookupWithTtl, hnone, hnone']
    exact .ok h
  · obtain ⟨hsettled, hsettled'⟩ := h.settled htouches hinner htwin htwins
    have hcall : pool.lookupWithTtl family address now =
        inner.lookupWithTtl address now >>=
          fun result => .ok (result.1, pool.withFamily family result.2) := by
      rw [lookupWithTtl, hinner]
      rfl
    have hcall' : other.lookupWithTtl family address now =
        twin.lookupWithTtl address now >>=
          fun result => .ok (result.1, other.withFamily family result.2) := by
      rw [lookupWithTtl, htwin]
      rfl
    rw [hcall, hcall']
    refine (htwins.lookup hsettled hsettled' address).map id _ _ ?_
    intro value state state' hstate hstate' htwin'
    rw [hstate, Run.ok_bind] at hcall
    rw [hstate', Run.ok_bind] at hcall'
    exact h.withFamily htwin'
      ((@PoolState.Step.lookup 0 ⟨now, pool⟩ _ family address _ hcall).inv
        h.inv)
      ((@PoolState.Step.lookup 0 ⟨now, other⟩ _ family address _ hcall').inv
        h.inv_other)

theorem Twins.contains_eq (h : Twins now pool other) (family : IpFamily)
    (address : BitVec family.width) :
    pool.contains family address = other.contains family address := by
  rcases h.families family with
    ⟨hnone, hnone'⟩ | ⟨inner, twin, hinner, htwin, htwins⟩
  · rw [contains, contains, hnone, hnone']
  · have hstart : inner.start = twin.start :=
      congrArg LeaseTable.start htwins.table_eq
    have hstop : inner.stop = twin.stop :=
      congrArg LeaseTable.stop htwins.table_eq
    rw [contains, contains, hinner, htwin, Option.any_some, Option.any_some,
      FamilyState.contains, FamilyState.contains, hstart, hstop]

theorem Twins.call (h : Twins now pool other) (htouches : pool.TouchesBelow)
    (request : PoolCall) :
    Run.Alike (Twins now) (pool.call instantMax now request)
      (other.call instantMax now request) := by
  cases request with
  | allocate family name =>
    exact (h.allocate htouches family name).map
      (fun reply => PoolReply.allocated ⟨family, reply.1⟩ reply.2) id id
      (fun _ _ _ _ _ htwins => htwins)
  | lookup family address =>
    exact (h.lookup htouches family address).map PoolReply.found id id
      (fun _ _ _ _ _ htwins => htwins)
  | contains family address =>
    rw [FakeIpPool.call, FakeIpPool.call, h.contains_eq]
    exact .ok h

theorem call_eq_ok {request : PoolCall} {reply : PoolReply} {after : FakeIpPool}
    (hcall : pool.call instantMax now request = .ok (reply, after)) :
    after = pool ∨ ∃ event,
      PoolState.Step instantMax ⟨now, pool⟩ event ⟨now, after⟩ := by
  cases request with
  | allocate family name =>
    obtain ⟨result, hallocate, hrest⟩ := Run.bind_eq_ok_iff.mp hcall
    obtain ⟨_, rfl⟩ := Prod.mk.inj (Run.ok.inj hrest)
    exact .inr ⟨_, @PoolState.Step.allocate instantMax ⟨now, pool⟩ _ family
      name _ hallocate⟩
  | lookup family address =>
    obtain ⟨result, hlookup, hrest⟩ := Run.bind_eq_ok_iff.mp hcall
    obtain ⟨_, rfl⟩ := Prod.mk.inj (Run.ok.inj hrest)
    exact .inr ⟨_, @PoolState.Step.lookup instantMax ⟨now, pool⟩ _ family
      address _ hlookup⟩
  | contains family address =>
    exact .inl (Prod.mk.inj (Run.ok.inj hcall)).2.symm

theorem call_touchesBelow (h : PoolState.Inv ⟨now, pool⟩)
    {request : PoolCall} {reply : PoolReply} {after : FakeIpPool}
    (hcall : pool.call instantMax now request = .ok (reply, after)) :
    PoolState.Inv ⟨now, after⟩ ∧
      (after.TouchesBelow → pool.TouchesBelow) := by
  rcases call_eq_ok hcall with rfl | ⟨event, hstep⟩
  · exact ⟨h, id⟩
  · refine ⟨hstep.inv h, ?_⟩
    intro hafter family inner hinner
    rcases hstep.cases h with
      ⟨_, hpool, _⟩ | ⟨locked, before, next, hbefore, hsection, heq⟩
    · refine hafter family inner ?_
      rw [show after = pool from hpool, hinner]
    · have hpool : after = pool.withFamily locked next :=
        congrArg PoolState.pool heq
      by_cases hsame : family = locked
      · subst hsame
        obtain rfl := Option.some.inj (hbefore.symm.trans hinner)
        have hle := FamilyState.touches_le_of_edits
          (hsection.edits (h.families family before hbefore).1)
        refine hle.trans_lt (hafter family next ?_)
        rw [hpool, families_withFamily]
      · refine hafter family inner ?_
        rw [hpool, families_withFamily_ne next hsame]
        exact hinner

theorem converse_touchesBelow (calls : List (ℕ × PoolCall)) :
    ∀ {now : ℕ} {pool : FakeIpPool}, PoolState.Inv ⟨now, pool⟩ →
      (now :: calls.map Prod.fst).Pairwise (· ≤ ·) →
      (pool.converse instantMax calls).2.TouchesBelow →
      pool.TouchesBelow := by
  induction calls with
  | nil =>
    intro now pool _ _ hlast
    exact hlast
  | cons first rest ih =>
    intro now pool h htimes hlast
    obtain ⟨later, request⟩ := first
    rw [List.map_cons, List.pairwise_cons] at htimes
    have hlater : PoolState.Inv ⟨later, pool⟩ :=
      (@PoolState.Step.tick 0 ⟨now, pool⟩ later
        (htimes.1 later (by simp))).inv h
    rw [converse] at hlast
    cases hcall : pool.call instantMax later request with
    | ok result =>
      obtain ⟨reply, after⟩ := result
      rw [hcall] at hlast
      obtain ⟨hinv, htouches⟩ := call_touchesBelow hlater hcall
      exact htouches (ih hinv htimes.2 hlast)
    | err error =>
      rw [hcall] at hlast
      exact ih hlater htimes.2 hlast
    | panic =>
      rw [hcall] at hlast
      exact hlast
    | diverge =>
      rw [hcall] at hlast
      exact hlast

theorem Twins.converse (calls : List (ℕ × PoolCall)) :
    ∀ {now : ℕ} {pool other : FakeIpPool}, Twins now pool other →
      (now :: calls.map Prod.fst).Pairwise (· ≤ ·) →
      (pool.converse instantMax calls).2.TouchesBelow →
      (other.converse instantMax calls).1 =
        (pool.converse instantMax calls).1 := by
  induction calls with
  | nil =>
    intro now pool other _ _ _
    rfl
  | cons first rest ih =>
    intro now pool other h htimes hlast
    have htouches := converse_touchesBelow (first :: rest) h.inv htimes hlast
    obtain ⟨later, request⟩ := first
    rw [List.map_cons, List.pairwise_cons] at htimes
    have hlater := h.mono (htimes.1 later (by simp))
    have halike := @Twins.call instantMax later pool other hlater htouches
      request
    rw [FakeIpPool.converse] at hlast ⊢
    rw [FakeIpPool.converse]
    generalize pool.call instantMax later request = run at halike hlast ⊢
    generalize other.call instantMax later request = run' at halike ⊢
    cases halike with
    | ok htwins => exact congrArg (List.cons _) (ih htwins htimes.2 hlast)
    | err error => exact congrArg (List.cons _) (ih hlater htimes.2 hlast)
    | panic => rfl
    | diverge => rfl

/-! ## The snapshot and what is restored from it -/

theorem twins_of_recovers {after restored : FakeIpPool}
    (hinv : PoolState.Inv ⟨now, after⟩)
    (hrestored : PoolState.Inv ⟨now, restored⟩)
    (httl : after.ttl = restored.ttl) (htouches : after.TouchesBelow)
    (hrecovers : ∀ family, Recovers now (after.families family)
      (restored.families family)) : Twins now after restored := by
  refine ⟨hinv, hrestored, httl, ?_⟩
  intro family
  rcases hrecovers family with hnone | ⟨state, replayed, hstate, hreplayed, _, _,
    hstart, hstop, hcount, hleases⟩
  · exact .inl hnone
  · have hlt := htouches family state hstate
    have hsize := (hinv.families family state hstate).2.size_le_touches hlt.le
    have hfew := List.length_filter_le (Lease.liveAt now) state.table.leases
    rw [FamilyState.length_leases] at hfew
    have hle : replayed.touches ≤ state.touches := by omega
    have htable : replayed.table = state.table.purge now := by
      have hlist := hleases (hle.trans hlt.le)
      rw [LeaseTable.purge, ← hlist, FamilyState.table, FamilyState.table,
        hstart, hstop]
    refine .inr ⟨state, replayed, hstate, hreplayed, hle, ?_⟩
    rw [htable, state.table.purge_purge le_rfl]

/-- A snapshot which nothing disturbs is restored, and no sequence of calls
tells the restored pool from the original, as long as each family of the
original has seen fewer than `2 ^ 64` touches at its end. -/
theorem restored_answers_like_original (instantMax : ℕ) (state : PoolState)
    (hreaches : PoolState.Reaches instantMax state) (later : ℕ)
    (hlater : state.clock ≤ later) :
    ∃ snapshot after restored,
      state.pool.snapshot state.clock = .ok (snapshot, after) ∧
      FakeIpPool.restore instantMax snapshot later = .ok restored ∧
      ∀ calls : List (ℕ × PoolCall),
        (later :: calls.map Prod.fst).Pairwise (· ≤ ·) →
        (after.converse instantMax calls).2.TouchesBelow →
        (restored.converse instantMax calls).1 =
          (after.converse instantMax calls).1 := by
  obtain ⟨h, hrepresentable⟩ := hreaches.inv
  obtain ⟨after, hsnapshot, httl, hpurges⟩ := snapshot_spec state.pool
    state.clock (fun family inner hinner => (h.families family inner hinner).1)
  have hafter := inv_of_purges h httl hpurges
  obtain ⟨restored, hrestore, httl', hrecovers⟩ :=
    @restore_captured instantMax state.clock later state.pool.ttl hlater
      h.ttl_valid after.families hafter.configured
      (fun family inner hinner => (hafter.families family inner hinner).1)
      (fun family lease hlease =>
        admissible_of_purges h hrepresentable (hpurges family) hlease)
  have hafter' : PoolState.Inv ⟨later, after⟩ :=
    (@PoolState.Step.tick 0 ⟨state.clock, after⟩ later hlater).inv hafter
  have hrestored : PoolState.Inv ⟨later, restored⟩ :=
    (@PoolState.Starts.inv instantMax ⟨later, restored⟩
      (.inr ⟨_, hrestore⟩)).1
  refine ⟨_, after, restored, hsnapshot, hrestore, ?_⟩
  intro calls htimes hlast
  have htouches := converse_touchesBelow calls hafter' htimes hlast
  exact (twins_of_recovers hafter' hrestored (httl.trans httl'.symm) htouches
    hrecovers).converse calls htimes hlast

/-! ## Two leases, one of them worn -/

def wornFamily (recency : UInt64) (touches : ℕ) :
    FamilyState IpFamily.ipv4.width where
  start := 1#32
  stop := 2#32
  forward := ((∅ : NameMap (Mapping 32)).insert [[97]]
    (FamilyState.alphaName, ⟨2#32, 0, 0, PoolState.nanosPerSecond⟩)).insert
      [[98]] (FamilyState.bravoName,
        ⟨1#32, recency, 1, PoolState.nanosPerSecond⟩)
  reverse := ((∅ : AList fun _ : BitVec 32 => Name).insert 2#32
    FamilyState.alphaName).insert 1#32 FamilyState.bravoName
  nextRecency := recency + 1
  nextAllocation := 2
  touches := touches

def wornPool (recency : UInt64) (touches : ℕ) : FakeIpPool where
  families
    | .ipv4 => some (wornFamily recency touches)
    | .ipv6 => none
  ttl := PoolState.nanosPerSecond

theorem eq_wornFamily {inner : FamilyState IpFamily.ipv4.width}
    (hforward : inner.forward.entries = (wornFamily 1 2).forward.entries)
    (hreverse : inner.reverse.entries = (wornFamily 1 2).reverse.entries)
    (hrange : (inner.start, inner.stop) =
      ((wornFamily 1 2).start, (wornFamily 1 2).stop))
    (hcounters : (inner.nextRecency, inner.nextAllocation, inner.touches) =
      (2, 2, 2)) : inner = wornFamily 1 2 := by
  obtain ⟨start, stop, forward, reverse, nextRecency, nextAllocation,
    touches⟩ := inner
  obtain rfl := AList.ext hforward
  obtain rfl := AList.ext hreverse
  cases hrange
  cases hcounters
  rfl

theorem eq_wornPool {pool : FakeIpPool} {recency : UInt64} {touches : ℕ}
    (hipv4 : pool.families .ipv4 = some (wornFamily recency touches))
    (hipv6 : pool.families .ipv6 = none)
    (httl : pool.ttl = PoolState.nanosPerSecond) :
    pool = wornPool recency touches := by
  obtain ⟨families, ttl⟩ := pool
  have hfamilies : families = (wornPool recency touches).families := by
    funext family
    cases family with
    | ipv4 => exact hipv4
    | ipv6 => exact hipv6
  subst hfamilies
  subst httl
  rfl

def twoLeases : Run Error FakeIpPool := do
  let pool ← (PoolState.twoAddressPool PoolState.nanosPerSecond).build
  let (_, pool) ← pool.allocateWithTtl .ipv4 PoolState.clockMax
    FamilyState.alphaName 0
  let (_, pool) ← pool.allocateWithTtl .ipv4 PoolState.clockMax
    FamilyState.bravoName 0
  pure pool

theorem twoLeases_eq : twoLeases = .ok (wornPool 1 2) := by
  have hcheck : twoLeases.any (fun pool =>
      (pool.families .ipv4).any fun inner => decide (
        inner.forward.entries = (wornFamily 1 2).forward.entries ∧
        inner.reverse.entries = (wornFamily 1 2).reverse.entries ∧
        (inner.start, inner.stop) =
          ((wornFamily 1 2).start, (wornFamily 1 2).stop) ∧
        (inner.nextRecency, inner.nextAllocation, inner.touches) =
          (2, 2, 2) ∧
        (pool.families .ipv6).isNone ∧
        pool.ttl = PoolState.nanosPerSecond)) = true := by
    decide
  obtain ⟨pool, hrun, hpool⟩ := Run.exists_of_any hcheck
  obtain ⟨inner, hinner, hfields⟩ := (Option.any_eq_true _ _).mp hpool
  obtain ⟨hforward, hreverse, hrange, hcounters, hipv6, httl⟩ :=
    of_decide_eq_true hfields
  rw [eq_wornFamily hforward hreverse hrange hcounters] at hinner
  rw [hrun, eq_wornPool hinner (Option.isNone_iff_eq_none.mp hipv6) httl]

theorem lookup_wornPool (recency : UInt64) (touches : ℕ) :
    (wornPool recency touches).lookupWithTtl .ipv4 1#32 0 =
      .ok (some (FamilyState.bravoName, PoolState.nanosPerSecond),
        wornPool (recency + 1) (touches + 1)) := by
  have hfamily : (wornFamily recency touches).lookupWithTtl 1#32 0 =
      .ok (some (FamilyState.bravoName, PoolState.nanosPerSecond),
        wornFamily (recency + 1) (touches + 1)) := rfl
  have hpool := @eq_wornPool
    ((wornPool recency touches).withFamily .ipv4
      (wornFamily (recency + 1) (touches + 1))) _ _
    (families_withFamily _) (families_withFamily_ne _ (by decide)) rfl
  have hcall : (wornPool recency touches).lookupWithTtl .ipv4 1#32 0 =
      (wornFamily recency touches).lookupWithTtl 1#32 0 >>= fun result =>
        .ok (result.1,
          (wornPool recency touches).withFamily .ipv4 result.2) := rfl
  rw [hcall, hfamily, Run.ok_bind, hpool]

theorem reaches_wornPool (count : ℕ) :
    PoolState.Reaches PoolState.clockMax
      ⟨0, wornPool (1 + UInt64.ofNat count) (2 + count)⟩ := by
  induction count with
  | zero =>
    obtain ⟨built, hbuild, hrest⟩ := Run.bind_eq_ok_iff.mp twoLeases_eq
    obtain ⟨alpha, halpha, hmore⟩ := Run.bind_eq_ok_iff.mp hrest
    obtain ⟨bravo, hbravo, hlast⟩ := Run.bind_eq_ok_iff.mp hmore
    refine ⟨⟨0, built⟩, .inl ⟨_, hbuild⟩, ?_⟩
    refine Relation.ReflTransGen.tail (.single ⟨_, .allocate .ipv4 _ halpha⟩)
      ⟨.allocate .ipv4 FamilyState.bravoName, ?_⟩
    have hpool : wornPool (1 + UInt64.ofNat 0) (2 + 0) = bravo.2 :=
      (Run.ok.inj hlast).symm
    rw [hpool]
    exact .allocate .ipv4 _ hbravo
  | succ count ih =>
    obtain ⟨first, hstarts, hsteps⟩ := ih
    refine ⟨first, hstarts, hsteps.tail ⟨.lookup .ipv4 1#32, ?_⟩⟩
    have hlookup := lookup_wornPool (1 + UInt64.ofNat count) (2 + count)
    rw [UInt64.add_assoc] at hlookup
    rw [UInt64.ofNat_add]
    exact .lookup .ipv4 1#32 hlookup

theorem touchesBelow_of_all {pool : FakeIpPool}
    (hipv4 : (pool.families .ipv4).all (·.touches < 2 ^ 64) = true)
    (hipv6 : (pool.families .ipv6).all (·.touches < 2 ^ 64) = true) :
    pool.TouchesBelow := by
  intro family inner hinner
  cases family with
  | ipv4 =>
    rw [hinner] at hipv4
    exact of_decide_eq_true hipv4
  | ipv6 =>
    rw [hinner] at hipv6
    exact of_decide_eq_true hipv6

def charlieName : Name := ⟨[[99]]⟩

def thirdName : List (ℕ × PoolCall) :=
  [(0, .lookup .ipv4 2#32), (0, .lookup .ipv4 1#32),
    (0, .allocate .ipv4 charlieName)]

theorem thirdName_of_twoLeases :
    ∃ snapshot after restored,
      (wornPool 1 2).snapshot 0 = .ok (snapshot, after) ∧
      restore PoolState.clockMax snapshot 0 = .ok restored ∧
      (restored.converse PoolState.clockMax thirdName).1 =
        (after.converse PoolState.clockMax thirdName).1 := by
  obtain ⟨snapshot, after, restored, hsnapshot, hrestore, hsame⟩ :=
    restored_answers_like_original PoolState.clockMax _ (reaches_wornPool 0) 0
      le_rfl
  refine ⟨snapshot, after, restored, hsnapshot, hrestore,
    hsame thirdName (by decide) ?_⟩
  have hcheck : ((wornPool 1 2).snapshot 0).any (fun taken =>
      let last := (taken.2.converse PoolState.clockMax thirdName).2
      (last.families .ipv4).all (·.touches < 2 ^ 64) &&
        (last.families .ipv6).all (·.touches < 2 ^ 64)) = true := by
    decide
  have hagain : (wornPool 1 2).snapshot 0 = .ok (snapshot, after) := hsnapshot
  rw [hagain] at hcheck
  obtain ⟨hipv4, hipv6⟩ := Bool.and_eq_true_iff.mp hcheck
  exact touchesBelow_of_all hipv4 hipv6

/-- The last touch before the recencies of the original start again makes its
second lease look older than the first; the restored pool has renumbered
them. -/
theorem restored_differs_after_wrap :
    ∃ state snapshot after restored calls,
      PoolState.Reaches PoolState.clockMax state ∧ state.pool.TouchesBelow ∧
      state.pool.snapshot state.clock = .ok (snapshot, after) ∧
      restore PoolState.clockMax snapshot state.clock = .ok restored ∧
      (state.clock :: calls.map Prod.fst).Pairwise (· ≤ ·) ∧
      (restored.converse PoolState.clockMax calls).1 ≠
        (after.converse PoolState.clockMax calls).1 := by
  have hcheck : ((wornPool (1 + UInt64.ofNat (2 ^ 64 - 3))
      (2 + (2 ^ 64 - 3))).snapshot 0).any (fun taken =>
        (restore PoolState.clockMax taken.1 0).any fun restored =>
          decide ((restored.converse PoolState.clockMax thirdName).1 ≠
            (taken.2.converse PoolState.clockMax thirdName).1)) = true := by
    decide
  obtain ⟨⟨snapshot, after⟩, hsnapshot, htaken⟩ := Run.exists_of_any hcheck
  obtain ⟨restored, hrestore, hdiffer⟩ := Run.exists_of_any htaken
  refine ⟨_, snapshot, after, restored, thirdName,
    reaches_wornPool (2 ^ 64 - 3), ?_, hsnapshot, hrestore, by decide,
    of_decide_eq_true hdiffer⟩
  exact touchesBelow_of_all (by decide) rfl

end FakeIpPool

end DnsLattice
