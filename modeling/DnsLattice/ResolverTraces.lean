import DnsLattice.ResolverRules
import DnsLattice.Histories

/-!
# Traces of the resolver

What the operations of the resolver return, as far as their arguments fix it,
what they do to the side of the world which no flight and no lookup reads, and
that the clock never goes back.
-/

namespace DnsLattice

abbrev ResolverAct := Act Op Resp

instance : Nonempty Input :=
  ⟨.none⟩

/-- What an operation can return. -/
def Gives : (op : Op) → Resp op → Prop
  | .beginCall group query, origin =>
      origin.group = group ∧ origin.query = query
  | .wait _ timed, waited => waited = .timedOut → timed = true
  | _, _ => True

namespace Resolver

variable {resolver : Resolver} {task unused : ℕ} {world after : World}
  {op : Op} {input : Input} {resp : Resp op}

theorem waitResult_timed {timed : Bool} {state : FlightState}
    (h : Core.waitResult timed state input = some .timedOut) :
    timed = true := by
  cases state <;> cases input <;> cases timed <;>
    simp [Core.waitResult] at h ⊢

theorem exec_gives
    (h : resolver.exec task unused world op input = some (resp, after)) :
    Gives op resp := by
  cases op with
  | beginCall group query =>
    obtain ⟨rfl, rfl⟩ := Prod.mk.inj (Option.some.inj h)
    exact ⟨rfl, rfl⟩
  | wait flight timed =>
    rintro rfl
    obtain ⟨⟨waited, core⟩, hwait, heq⟩ := Option.map_eq_some_iff.mp h
    obtain ⟨rfl, _⟩ := Prod.mk.inj heq
    obtain ⟨found, _, hresult, _⟩ := Core.wait_eq_some hwait
    exact waitResult_timed hresult
  | _ => trivial

theorem spawns_eq_some {op : Op} {job : Job} (h : spawns op = some job) :
    ∃ refresh, op = .spawn refresh ∧ job = .refresh refresh := by
  cases op <;> simp [spawns] at h
  exact ⟨_, rfl, h.symm⟩

end Resolver

end DnsLattice
