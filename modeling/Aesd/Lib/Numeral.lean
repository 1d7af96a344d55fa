import Mathlib.Tactic

/-!
# Numerals, the highest place first

`Nat.toDigits b n` is the numeral of `n` to the base `b` without leading zeros. A program
that prints it first finds the highest place, a power of the base, and then divides by the
places downwards: `toDigits_eq_places`. Which place is the highest: `le_topPlace_iff`.
`foldl_places` reads the digits back.
-/

namespace Numeral

/-- The digits of `n` at the places `k`, ..., `0`. -/
def places (b n : ℕ) : ℕ → List ℕ
  | 0 => [n / b ^ 0 % b]
  | k + 1 => n / b ^ (k + 1) % b :: places b n k

/-- The highest place of `n` with a digit. -/
def topPlace (b n : ℕ) : ℕ := (Nat.toDigits b n).length - 1

variable {b n k : ℕ}

theorem length_toDigits (b n : ℕ) : (Nat.toDigits b n).length = topPlace b n + 1 := by
  have hpos : 0 < (Nat.toDigits b n).length := Nat.length_toDigits_pos
  unfold topPlace
  omega

theorem places_lt (hb : 0 < b) : ∀ d ∈ places b n k, d < b := by
  induction k with
  | zero =>
    intro d hd
    rw [List.mem_singleton.1 hd]
    exact Nat.mod_lt _ hb
  | succ k ih =>
    intro d hd
    rcases List.mem_cons.1 hd with rfl | hd
    · exact Nat.mod_lt _ hb
    · exact ih d hd

/-- **The highest place.** -/
theorem le_topPlace_iff (hb : 1 < b) : k ≤ topPlace b n ↔ k = 0 ∨ b ^ k ≤ n := by
  rcases Nat.eq_zero_or_pos k with rfl | hk
  · simp
  · have hiff := Nat.length_toDigits_le_iff (n := n) hb hk
    rw [length_toDigits] at hiff
    omega

theorem pow_topPlace_le (hb : 1 < b) : topPlace b n = 0 ∨ b ^ topPlace b n ≤ n :=
  (le_topPlace_iff hb).1 le_rfl

theorem lt_pow_topPlace (hb : 1 < b) : n < b ^ (topPlace b n + 1) := by
  by_contra hn
  have hle := (le_topPlace_iff hb).2 (.inr (not_lt.1 hn))
  omega

/-- The places above the last are those of the number without its last digit. -/
theorem places_succ (b n k : ℕ) : places b n (k + 1) = places b (n / b) k ++ [n % b] := by
  induction k with
  | zero => simp [places]
  | succ k ih =>
    rw [places, ih, places, List.cons_append, Nat.div_div_eq_div_mul, ← Nat.pow_succ']

/-- **The places from the highest down are the numeral.** -/
theorem toDigits_eq_places (hb : 1 < b) (n : ℕ) :
    Nat.toDigits b n = (places b n (topPlace b n)).map Nat.digitChar := by
  generalize hk : topPlace b n = k
  induction k generalizing n with
  | zero =>
    have hlt := lt_pow_topPlace (n := n) hb
    rw [hk, zero_add, Nat.pow_one] at hlt
    rw [Nat.toDigits_of_lt_base hlt, places, Nat.pow_zero, Nat.div_one, Nat.mod_eq_of_lt hlt]
    rfl
  | succ k ih =>
    have hle : b ^ (k + 1) ≤ n := by
      have hpow := pow_topPlace_le (n := n) hb
      rw [hk] at hpow
      exact hpow.resolve_left (Nat.succ_ne_zero k)
    have hbn : b ≤ n := le_trans (Nat.le_self_pow (Nat.succ_ne_zero k) b) hle
    have hdigits := Nat.toDigits_of_base_le hb hbn
    -- the number without its last digit has one place fewer
    have htop : topPlace b (n / b) = k := by
      have hlen := congrArg List.length hdigits
      rw [List.length_append, List.length_singleton, length_toDigits, length_toDigits, hk] at hlen
      omega
    rw [hdigits, ih (n / b) htop, places_succ, List.map_append]
    rfl

/-- Horner's rule takes the places back together. -/
theorem foldl_places (hb : 0 < b) (hn : n < b ^ (k + 1)) :
    (places b n k).foldl (fun m d => b * m + d) 0 = n := by
  induction k generalizing n with
  | zero =>
    rw [Nat.zero_add, Nat.pow_one] at hn
    simp [places, Nat.mod_eq_of_lt hn]
  | succ k ih =>
    have hdiv : n / b < b ^ (k + 1) := by
      rw [Nat.div_lt_iff_lt_mul hb, ← Nat.pow_succ]
      exact hn
    rw [places_succ, List.foldl_append, ih hdiv]
    exact Nat.div_add_mod n b

end Numeral
