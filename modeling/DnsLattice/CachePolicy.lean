import DnsLattice.CacheModel

/-!
# The cache configuration

Durations are natural numbers of nanoseconds.  Each policy carries the bounds
which its setters enforce, so that a configuration outside them cannot be
built.
-/

namespace DnsLattice

def second : ℕ := 1000000000

/-- `Duration::MAX`. -/
def durationMax : ℕ := 2 ^ 64 * second - 1

def wholeSeconds (duration : ℕ) : UInt32 :=
  UInt32.ofNat (min (duration / second) 4294967295)

theorem le_maxOf (a b : UInt32) : b ≤ max a b := by
  change b ≤ if a ≤ b then b else a
  split_ifs with hle
  · exact UInt32.le_refl b
  · exact UInt32.le_of_lt (UInt32.not_le.mp hle)

/-! ## Lifetimes -/

structure TtlBounds where
  min : UInt32
  max : UInt32
  min_le_max : min ≤ max

namespace TtlBounds

def new (min max : ℕ) : TtlBounds where
  min := wholeSeconds min
  max := Max.max (wholeSeconds max) (wholeSeconds min)
  min_le_max := le_maxOf _ _

def clamp (bounds : TtlBounds) (ttl : UInt32) : UInt32 :=
  if ttl < bounds.min then bounds.min
  else if bounds.max < ttl then bounds.max
  else ttl

end TtlBounds

structure TtlPolicy where
  positive : TtlBounds
  negative : TtlBounds
  negativeWithoutSoa : Option UInt32
  staleWindow : ℕ

/-! ## Remembered failures -/

def minFailureTtl : ℕ := 1 * second

def maxFailureTtl : ℕ := 300 * second

/-- `Ord::clamp`, whose bounds are in order here. -/
def clampDuration (duration low high : ℕ) : ℕ :=
  min (max duration low) high

structure FailureCache where
  initial : ℕ
  max : ℕ
  initial_ge : minFailureTtl ≤ initial
  initial_le : initial ≤ maxFailureTtl
  max_ge : minFailureTtl ≤ max
  max_le : max ≤ maxFailureTtl

theorem le_clampDuration {low high : ℕ} (hle : low ≤ high) (duration : ℕ) :
    low ≤ clampDuration duration low high :=
  le_min (le_max_right _ _) hle

theorem clampDuration_le (duration low high : ℕ) :
    clampDuration duration low high ≤ high :=
  min_le_right _ _

namespace FailureCache

def new : FailureCache where
  initial := 1 * second
  max := 30 * second
  initial_ge := by decide
  initial_le := by decide
  max_ge := by decide
  max_le := by decide

def setInitial (cache : FailureCache) (duration : ℕ) : FailureCache :=
  { cache with
    initial := clampDuration duration minFailureTtl maxFailureTtl
    initial_ge := le_clampDuration (by decide) duration
    initial_le := clampDuration_le _ _ _ }

def setMax (cache : FailureCache) (duration : ℕ) : FailureCache :=
  { cache with
    max := clampDuration duration minFailureTtl maxFailureTtl
    max_ge := le_clampDuration (by decide) duration
    max_le := clampDuration_le _ _ _ }

def firstBackoff (cache : FailureCache) : ℕ :=
  cache.initial

def longestBackoff (cache : FailureCache) : ℕ :=
  Max.max cache.max cache.initial

def nextBackoff (cache : FailureCache) (previous : ℕ) : ℕ :=
  min (Max.max (min (previous * 2) durationMax) cache.initial)
    cache.longestBackoff

end FailureCache

/-! ## Serving expired answers -/

def maxStaleWindow : ℕ := 7 * 86400 * second

def defaultStaleReplyTtl : UInt32 := 30

def minStaleRecheck : ℕ := 1 * second

structure ServeStale where
  maxStale : ℕ
  replyTtl : UInt32
  failureRecheck : ℕ
  clientTimeout : Option ℕ
  maxStale_le : maxStale ≤ maxStaleWindow
  replyTtl_ge : 1 ≤ replyTtl
  failureRecheck_ge : minStaleRecheck ≤ failureRecheck

namespace ServeStale

def new : ServeStale where
  maxStale := 86400 * second
  replyTtl := defaultStaleReplyTtl
  failureRecheck := 30 * second
  clientTimeout := none
  maxStale_le := by decide
  replyTtl_ge := by decide
  failureRecheck_ge := by decide

def setMaxStale (policy : ServeStale) (duration : ℕ) : ServeStale :=
  { policy with
    maxStale := min duration maxStaleWindow
    maxStale_le := min_le_right _ _ }

def setReplyTtl (policy : ServeStale) (ttl : ℕ) : ServeStale :=
  { policy with
    replyTtl := max (wholeSeconds ttl) 1
    replyTtl_ge := le_maxOf _ _ }

def setFailureRecheck (policy : ServeStale) (duration : ℕ) : ServeStale :=
  { policy with
    failureRecheck := max duration minStaleRecheck
    failureRecheck_ge := le_max_right _ _ }

def setClientTimeout (policy : ServeStale) (timeout : Option ℕ) :
    ServeStale :=
  { policy with clientTimeout := timeout }

end ServeStale

/-! ## Refreshing popular entries -/

structure Prefetch where
  thresholdPercent : ℕ
  minHits : UInt32
  percent_ge : 1 ≤ thresholdPercent
  percent_le : thresholdPercent ≤ 50

namespace Prefetch

def new : Prefetch where
  thresholdPercent := 10
  minHits := 2
  percent_ge := by decide
  percent_le := by decide

def setThresholdPercent (policy : Prefetch) (percent : UInt8) : Prefetch :=
  { policy with
    thresholdPercent := clampDuration percent.toNat 1 50
    percent_ge := le_clampDuration (by decide) _
    percent_le := clampDuration_le _ _ _ }

def setMinHits (policy : Prefetch) (hits : UInt32) : Prefetch :=
  { policy with minHits := hits }

end Prefetch

/-! ## The configuration -/

structure CacheConfig where
  maxBytes : ℕ
  shards : Option ℕ
  positive : TtlBounds
  negative : TtlBounds
  negativeWithoutSoa : Option UInt32
  coalesce : Bool
  prefetch : Option Prefetch
  serveStale : Option ServeStale
  failureCache : Option FailureCache

namespace CacheConfig

def new : CacheConfig where
  maxBytes := 16 * 1024 * 1024
  shards := none
  positive := ⟨0, 86400, by decide⟩
  negative := ⟨0, 3600, by decide⟩
  negativeWithoutSoa := some 60
  coalesce := true
  prefetch := none
  serveStale := none
  failureCache := none

def disabled : CacheConfig :=
  { new with maxBytes := 0 }

def storeEnabled (config : CacheConfig) : Bool :=
  decide (0 < config.maxBytes)

def ttlPolicy (config : CacheConfig) : TtlPolicy where
  positive := config.positive
  negative := config.negative
  negativeWithoutSoa := config.negativeWithoutSoa
  staleWindow := (config.serveStale.map ServeStale.maxStale).getD 0

def failurePolicy (config : CacheConfig) : Option FailureCache :=
  if config.storeEnabled then config.failureCache else none

end CacheConfig

end DnsLattice
