import DnsLattice.RunMonad

/-!
# Runs which more input does not change

A piece of code is run on some input and again on the same input with more
data behind it.  The first run is settled if it does not panic, if its value
has a property, and if the second run is the same unless the first one was an
error.  Settled runs compose, so a reader is settled if its parts are.
-/

namespace DnsLattice

namespace Run

variable {ε α β σ ρ : Type}

structure Settled (post : α → Prop) (run later : Run ε α) : Prop where
  safe : run ≠ .panic
  value : ∀ result, run = .ok result → post result
  same : (∃ error, run = .err error) ∨ later = run

namespace Settled

variable {post : α → Prop} {run later : Run ε α}

theorem ok {result : α} (hpost : post result) :
    Settled post (.ok result : Run ε α) (.ok result) where
  safe := by simp
  value := by
    intro found hfound
    rwa [← Run.ok.inj hfound]
  same := Or.inr rfl

theorem err (error : ε) (later : Run ε α) :
    Settled post (.err error) later where
  safe := by simp
  value := by simp
  same := Or.inl ⟨error, rfl⟩

theorem refl (hsafe : run ≠ .panic) :
    Settled (fun result => run = .ok result) run run :=
  ⟨hsafe, fun _ hresult => hresult, Or.inr rfl⟩

theorem imp {weaker : α → Prop} (h : Settled post run later)
    (hweaker : ∀ result, run = .ok result → post result → weaker result) :
    Settled weaker run later :=
  ⟨h.safe, fun result hresult =>
    hweaker result hresult (h.value result hresult), h.same⟩

theorem bind {after : β → Prop} {next nextLater : α → Run ε β}
    (h : Settled post run later)
    (hnext : ∀ result, run = .ok result → post result →
      Settled after (next result) (nextLater result)) :
    Settled after (run >>= next) (later >>= nextLater) := by
  cases hrun : run with
  | ok result =>
    have hlater : later = .ok result := by
      rcases h.same with ⟨error, herror⟩ | hsame
      · rw [herror] at hrun
        cases hrun
      · rw [hsame, hrun]
    rw [hlater]
    exact hnext result hrun (h.value result hrun)
  | err error => exact err error _
  | panic => exact absurd hrun h.safe
  | diverge =>
    have hlater : later = .diverge := by
      rcases h.same with ⟨error, herror⟩ | hsame
      · rw [herror] at hrun
        cases hrun
      · rw [hsame, hrun]
    rw [hlater]
    exact ⟨by simp, by simp, Or.inr rfl⟩

theorem guard {bad badLater : Prop} [Decidable bad] [Decidable badLater]
    {error errorLater : ε} (hmono : ¬bad → ¬badLater)
    (h : ¬bad → Settled post run later) :
    Settled post (if bad then .err error else run)
      (if badLater then .err errorLater else later) := by
  by_cases hbad : bad
  · rw [if_pos hbad]
    exact err error _
  · rw [if_neg hbad, if_neg (hmono hbad)]
    exact h hbad

theorem loop {body bodyLater : σ → Run ε (σ ⊕ ρ)} {after : ρ → Prop}
    (invariant : σ → Prop)
    (hbody : ∀ state, invariant state →
      Settled (fun round => round.elim invariant after)
        (body state) (bodyLater state))
    (fuel : ℕ) {state : σ} (hstate : invariant state) :
    Settled after (Run.loop body fuel state)
      (Run.loop bodyLater fuel state) := by
  induction fuel generalizing state with
  | zero => exact ⟨by simp [Run.loop], by simp [Run.loop], Or.inr rfl⟩
  | succ fuel ih =>
    refine (hbody state hstate).bind ?_
    intro round _ hround
    cases round with
    | inl next => exact ih hround
    | inr result => exact ok hround

end Settled

theorem index_append_of_lt {buf : List α} {i : ℕ} (h : i < buf.length)
    (extra : List α) :
    (index (buf ++ extra) i : Run ε α) = index buf i := by
  rw [index, index, List.getElem?_append_left h]

theorem slice_append_of_le {buf : List α} {start stop : ℕ}
    (h : stop ≤ buf.length) (extra : List α) :
    (slice (buf ++ extra) start stop : Run ε (List α)) =
      slice buf start stop := by
  rw [slice, slice, List.length_append]
  by_cases hstart : start ≤ stop
  · rw [if_pos ⟨hstart, by omega⟩, if_pos ⟨hstart, h⟩,
      List.drop_append_of_le_length (hstart.trans h),
      List.take_append_of_le_length (by rw [List.length_drop]; omega)]
  · rw [if_neg (fun hrange => hstart hrange.1),
      if_neg (fun hrange => hstart hrange.1)]

theorem settled_index {buf : List α} {i : ℕ} (h : i < buf.length)
    (extra : List α) :
    Settled (fun value => buf[i]? = some value)
      (index buf i : Run ε α) (index (buf ++ extra) i) := by
  rw [index_append_of_lt h, index, List.getElem?_eq_getElem h]
  exact .ok rfl

theorem settled_slice {buf : List α} {start stop : ℕ} (hstart : start ≤ stop)
    (hstop : stop ≤ buf.length) (extra : List α) :
    Settled (fun part => part.length = stop - start)
      (slice buf start stop : Run ε (List α))
      (slice (buf ++ extra) start stop) := by
  rw [slice_append_of_le hstop, slice, if_pos ⟨hstart, hstop⟩]
  refine .ok ?_
  rw [List.length_take, List.length_drop]
  omega

theorem settled_sub {a b : ℕ} (h : b ≤ a) :
    Settled (fun difference => difference = a - b)
      (sub a b : Run ε ℕ) (sub a b) := by
  rw [sub_eq_ok h]
  exact .ok rfl

end Run

end DnsLattice
