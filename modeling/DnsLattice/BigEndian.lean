import Mathlib.Data.List.Basic
import Mathlib.Tactic

/-!
# Big-endian byte strings

The network byte order of a natural number in a fixed number of bytes, and
its inverse.  Nothing here depends on what the numbers mean.
-/

namespace DnsLattice

/-- The lowest `width` bytes of `value`, most significant first. -/
def networkBytes : ℕ → ℕ → List UInt8
  | 0, _ => []
  | width + 1, value => UInt8.ofNat (value / 256 ^ width) :: networkBytes width value

def networkValue (bytes : List UInt8) : ℕ :=
  bytes.foldl (fun acc byte => acc * 256 + byte.toNat) 0

@[simp] theorem networkBytes_length (width value : ℕ) :
    (networkBytes width value).length = width := by
  induction width with
  | zero => rfl
  | succ width ih => simp [networkBytes, ih]

theorem networkValue_foldl (bytes : List UInt8) (acc : ℕ) :
    bytes.foldl (fun acc byte => acc * 256 + byte.toNat) acc =
      acc * 256 ^ bytes.length + networkValue bytes := by
  induction bytes generalizing acc with
  | nil => simp [networkValue]
  | cons byte rest ih =>
    simp only [List.foldl_cons, networkValue, List.length_cons]
    rw [ih, ih (0 * 256 + byte.toNat)]
    ring

theorem networkValue_cons (byte : UInt8) (rest : List UInt8) :
    networkValue (byte :: rest) =
      byte.toNat * 256 ^ rest.length + networkValue rest := by
  simp only [networkValue, List.foldl_cons]
  rw [networkValue_foldl rest (0 * 256 + byte.toNat)]
  simp [networkValue]

/-- Reading back what was written keeps the value modulo the width. -/
theorem networkValue_networkBytes (width value : ℕ) :
    networkValue (networkBytes width value) = value % 256 ^ width := by
  induction width with
  | zero => simp [networkBytes, networkValue, Nat.mod_one]
  | succ width ih =>
    have hbyte : (UInt8.ofNat (value / 256 ^ width)).toNat =
        value / 256 ^ width % 256 := by simp
    have hsplit : value % 256 ^ (width + 1) =
        value % 256 ^ width + 256 ^ width * (value / 256 ^ width % 256) := by
      rw [pow_succ, Nat.mod_mul]
    rw [networkBytes, networkValue_cons, ih, networkBytes_length, hbyte, hsplit]
    ring

theorem networkValue_networkBytes_of_lt
    {width value : ℕ} (hvalue : value < 256 ^ width) :
    networkValue (networkBytes width value) = value := by
  rw [networkValue_networkBytes, Nat.mod_eq_of_lt hvalue]

theorem networkValue_lt (bytes : List UInt8) :
    networkValue bytes < 256 ^ bytes.length := by
  induction bytes with
  | nil => simp [networkValue]
  | cons byte rest ih =>
    rw [networkValue_cons, List.length_cons, pow_succ]
    have hbyte : byte.toNat < 256 := byte.toNat_lt
    nlinarith

theorem networkBytes_add (width high low : ℕ) :
    networkBytes width (high * 256 ^ width + low) = networkBytes width low := by
  induction width generalizing high with
  | zero => simp [networkBytes]
  | succ width ih =>
    have hsplit : high * 256 ^ (width + 1) + low =
        high * 256 * 256 ^ width + low := by ring
    have hdiv : (high * 256 * 256 ^ width + low) / 256 ^ width =
        low / 256 ^ width + high * 256 := by
      rw [add_comm, Nat.add_mul_div_right _ _ (by positivity)]
    have hbyte : UInt8.ofNat (low / 256 ^ width + high * 256) =
        UInt8.ofNat (low / 256 ^ width) := by
      apply UInt8.toNat_inj.mp
      simp
    rw [networkBytes, networkBytes, hsplit, hdiv, hbyte, ih]

theorem networkBytes_networkValue (bytes : List UInt8) :
    networkBytes bytes.length (networkValue bytes) = bytes := by
  induction bytes with
  | nil => rfl
  | cons byte rest ih =>
    have hdiv : (byte.toNat * 256 ^ rest.length + networkValue rest) /
        256 ^ rest.length = byte.toNat := by
      rw [add_comm, Nat.add_mul_div_right _ _ (by positivity),
        Nat.div_eq_of_lt (networkValue_lt rest), Nat.zero_add]
    rw [networkValue_cons, List.length_cons, networkBytes, hdiv,
      networkBytes_add, ih, UInt8.ofNat_toNat]

end DnsLattice
