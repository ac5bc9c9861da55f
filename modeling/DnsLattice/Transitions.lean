import Mathlib.Logic.Relation

/-!
# Transition systems

An invariant of every run is proved once from what one step keeps.  A run can
also be read together with a log of what its steps have emitted.
-/

namespace DnsLattice

variable {σ : Type} {step : σ → σ → Prop}

/-- A property which holds at the start and which every step keeps holds in
every state reached. -/
theorem invariant_of_reaches {start state : σ} {invariant : σ → Prop}
    (hstart : invariant start)
    (hstep : ∀ before after, invariant before → step before after →
      invariant after)
    (hreaches : Relation.ReflTransGen step start state) :
    invariant state := by
  induction hreaches with
  | refl => exact hstart
  | tail _ hlast ih => exact hstep _ _ ih hlast

section Logs

variable {α : Type} {emits : σ → σ → List α} {start state : σ} {log : List α}

inductive Logged (step : σ → σ → Prop) (emits : σ → σ → List α) (start : σ) :
    List α → σ → Prop
  | refl : Logged step emits start [] start
  | tail {log : List α} {before after : σ}
      (hrun : Logged step emits start log before) (hlast : step before after) :
      Logged step emits start (log ++ emits before after) after

theorem Logged.invariant (h : Logged step emits start log state)
    (invariant : List α → σ → Prop) (hstart : invariant [] start)
    (hstep : ∀ log before after, invariant log before → step before after →
      invariant (log ++ emits before after) after) :
    invariant log state := by
  induction h with
  | refl => exact hstart
  | tail _ hlast ih => exact hstep _ _ _ ih hlast

end Logs

end DnsLattice
