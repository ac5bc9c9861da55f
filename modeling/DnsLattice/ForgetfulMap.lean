import Mathlib.Logic.Relation

/-!
# Maps that may forget

A cache is a partial map which may drop a key at any time.  What it must never
do is hold a value which nobody wrote under that key, or which a later event
removed.  Events are arbitrary; what each of them writes and removes is a
parameter.
-/

namespace DnsLattice

structure MapEvents (ε κ β : Type) where
  writes : ε → κ → β → Prop
  removes : ε → κ → β → Prop

namespace MapEvents

variable {ε κ β : Type} (events : MapEvents ε κ β)

/-- After the event, a value is one the event wrote or one held before which
the event did not remove; nothing says that any of them is still held. -/
def Step (before : κ → β → Prop) (event : ε) (after : κ → β → Prop) : Prop :=
  ∀ key value, after key value →
    events.writes event key value ∨
      before key value ∧ ¬events.removes event key value

inductive Runs : List ε → (κ → β → Prop) → Prop
  | nil : Runs [] fun _ _ => False
  | snoc {history : List ε} {before after : κ → β → Prop} {event : ε}
      (hbefore : Runs history before) (hstep : events.Step before event after) :
      Runs (history ++ [event]) after

variable {events}

theorem Runs.exists_write {history : List ε} {holds : κ → β → Prop}
    (h : events.Runs history holds) {key : κ} {value : β}
    (hholds : holds key value) :
    ∃ earlier event later, history = earlier ++ event :: later ∧
      events.writes event key value ∧
      ∀ next ∈ later, ¬events.removes next key value := by
  induction h with
  | nil => exact hholds.elim
  | snoc hbefore hstep ih =>
    rename_i history before after event
    rcases hstep key value hholds with hwrite | ⟨hold, hkept⟩
    · exact ⟨history, event, [], rfl, hwrite, by simp⟩
    · obtain ⟨earlier, written, later, hsplit, hwrite, hlater⟩ := ih hold
      refine ⟨earlier, written, later ++ [event], ?_, hwrite, ?_⟩
      · rw [hsplit, List.append_assoc, List.cons_append]
      · intro next hnext
        rcases List.mem_append.mp hnext with hnext | hnext
        · exact hlater next hnext
        · rw [List.mem_singleton.mp hnext]
          exact hkept

end MapEvents

end DnsLattice
