/-!
# Integers within 32 and 64 bits

An exact result is computed over the integers and then fitted into its word: `int32?` and `int64?`
give the word, or nothing when the number lies outside it.

Model of conversions between integers that fail outside the narrower type.
-/

namespace Lakehouse

-- Bounds and scales are powers of the standard library, also beside a library with its own.
attribute [scoped instance (2000)] instPowNat

/-- The 32-bit integer of that value. -/
def int32? (n : Int) : Option Int32 :=
  if -2 ^ (31 : Nat) ≤ n ∧ n < 2 ^ (31 : Nat) then some (Int32.ofInt n) else none

/-- The 64-bit integer of that value. -/
def int64? (n : Int) : Option Int64 :=
  if -2 ^ (63 : Nat) ≤ n ∧ n < 2 ^ (63 : Nat) then some (Int64.ofInt n) else none

theorem toInt_of_int64? {n : Int} {w : Int64} (h : int64? n = some w) : w.toInt = n := by
  unfold int64? at h
  split at h
  · rename_i hn
    injection h with h
    rw [← h]
    exact Int64.toInt_ofInt_of_le (by simpa using hn.1) (by simpa using hn.2)
  · cases h

theorem int64?_toInt (w : Int64) : int64? w.toInt = some w := by
  unfold int64?
  rw [if_pos ⟨by simpa using Int64.le_toInt w, by simpa using Int64.toInt_lt w⟩, Int64.ofInt_toInt]

theorem toInt_of_int32? {n : Int} {w : Int32} (h : int32? n = some w) : w.toInt = n := by
  unfold int32? at h
  split at h
  · rename_i hn
    injection h with h
    rw [← h]
    exact Int32.toInt_ofInt_of_le (by simpa using hn.1) (by simpa using hn.2)
  · cases h

theorem int32?_toInt (w : Int32) : int32? w.toInt = some w := by
  unfold int32?
  rw [if_pos ⟨by simpa using Int32.le_toInt w, by simpa using Int32.toInt_lt w⟩, Int32.ofInt_toInt]

end Lakehouse
