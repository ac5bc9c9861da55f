import DnsLattice.CacheModel
import DnsLattice.KeyOrder
import Mathlib.Data.Prod.Lex

/-!
# The domain matcher

Rules map domain patterns to values.  One function scans the rules for the best
match, another sorts all matches by precedence.  Both follow one order: exact
before suffix before wildcard, then more labels first, then insertion order.
-/

namespace DnsLattice

namespace Name

def labelCount (name : Name) : ℕ := name.labels.length

/-- `slice::eq_ignore_ascii_case`. -/
def eqIgnoreAsciiCase (first second : Label) : Bool :=
  first.map toAsciiLowercase == second.map toAsciiLowercase

def endsWith (name suffix : Name) : Bool :=
  if suffix.labels.length > name.labels.length then false
  else
    let offset := name.labels.length - suffix.labels.length
    ((name.labels.drop offset).zip suffix.labels).all
      fun pair => eqIgnoreAsciiCase pair.1 pair.2

end Name

/-! ## Patterns -/

inductive DomainPattern where
  | exact (name : Name)
  | suffix (name : Name)
  | wildcard (name : Name)
  deriving DecidableEq, Repr

namespace DomainPattern

def Matches (pattern : DomainPattern) (candidate : Name) : Bool :=
  match pattern with
  | .exact name => candidate.eqIgnoreCase name
  | .suffix name => candidate.endsWith name
  | .wildcard name =>
      decide (name.labelCount < candidate.labelCount) &&
        candidate.endsWith name

def specificity : DomainPattern → ℕ ×ₗ ℕ
  | .exact name => toLex (2, name.labelCount)
  | .suffix name => toLex (1, name.labelCount)
  | .wildcard name => toLex (0, name.labelCount)

end DomainPattern

/-! ## Matchers -/

structure DomainMatcher (T : Type) where
  rules : List (DomainPattern × T)

namespace DomainMatcher

variable {T : Type}

def new : DomainMatcher T := ⟨[]⟩

def insert (matcher : DomainMatcher T) (pattern : DomainPattern) (value : T) :
    DomainMatcher T :=
  ⟨matcher.rules ++ [(pattern, value)]⟩

/-- One round of the loop of `resolve`. -/
def consider (name : Name) (best : Option ((ℕ ×ₗ ℕ) × T))
    (rule : DomainPattern × T) : Option ((ℕ ×ₗ ℕ) × T) :=
  if !rule.1.Matches name then best
  else
    match best with
    | some found =>
        if rule.1.specificity ≤ found.1 then some found
        else some (rule.1.specificity, rule.2)
    | none => some (rule.1.specificity, rule.2)

/-- The value of the best rule. -/
def resolve (matcher : DomainMatcher T) (name : Name) : Option T :=
  (matcher.rules.foldl (consider name) none).map Prod.snd

def matching (matcher : DomainMatcher T) (name : Name) :
    List (DomainPattern × T) :=
  matcher.rules.filter fun rule => rule.1.Matches name

def ordered (matcher : DomainMatcher T) (name : Name) :
    List (DomainPattern × T) :=
  sortByKey (fun rule => OrderDual.toDual rule.1.specificity)
    (matcher.matching name)

variable (matcher : DomainMatcher T) (name : Name)

end DomainMatcher

end DnsLattice
