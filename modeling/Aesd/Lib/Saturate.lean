import Mathlib.Tactic

/-!
# Words of two widths with a value for "unlimited"

A word with all bits set stands for "no limit". `widen` takes it to a wider word and `narrow` to
a narrower one, where what does not fit is unlimited too.

* `narrow_widen`: a widened word narrows back.
* `widen_narrow_iff`: a narrowed word widens back exactly if it fitted.
-/

namespace Saturate

variable {v w : ℕ}

def widen (v : ℕ) (x : BitVec w) : BitVec v :=
  if x = BitVec.allOnes w then BitVec.allOnes v else x.setWidth v

def narrow (w : ℕ) (x : BitVec v) : BitVec w :=
  if 2 ^ w - 1 ≤ x.toNat then BitVec.allOnes w else x.setWidth w

/-- Narrowing is cutting off at the greatest word. -/
theorem toNat_narrow (x : BitVec v) : (narrow w x).toNat = min x.toNat (2 ^ w - 1) := by
  unfold narrow
  by_cases h : 2 ^ w - 1 ≤ x.toNat
  · rw [if_pos h, BitVec.toNat_allOnes, min_eq_right h]
  · have hlt : x.toNat < 2 ^ w := by omega
    rw [if_neg h, BitVec.toNat_setWidth, Nat.mod_eq_of_lt hlt, min_eq_left (by omega)]

theorem lt_of_ne_allOnes {x : BitVec w} (h : x ≠ BitVec.allOnes w) : x.toNat < 2 ^ w - 1 := by
  have hne : x.toNat ≠ 2 ^ w - 1 := by
    rw [← BitVec.toNat_allOnes]
    exact fun heq => h (BitVec.eq_of_toNat_eq heq)
  have hlt := x.isLt
  omega

theorem toNat_widen (hw : w ≤ v) (x : BitVec w) :
    (widen v x).toNat = if x = BitVec.allOnes w then 2 ^ v - 1 else x.toNat := by
  have hpow : 2 ^ w ≤ 2 ^ v := Nat.pow_le_pow_right (by decide) hw
  unfold widen
  by_cases h : x = BitVec.allOnes w
  · rw [if_pos h, if_pos h, BitVec.toNat_allOnes]
  · have hlt := x.isLt
    rw [if_neg h, if_neg h, BitVec.toNat_setWidth, Nat.mod_eq_of_lt (by omega)]

/-- **A widened word narrows back.** -/
theorem narrow_widen (hw : w ≤ v) (x : BitVec w) : narrow w (widen v x) = x := by
  have hpow : 2 ^ w ≤ 2 ^ v := Nat.pow_le_pow_right (by decide) hw
  refine BitVec.eq_of_toNat_eq ?_
  rw [toNat_narrow, toNat_widen hw]
  by_cases h : x = BitVec.allOnes w
  · rw [if_pos h, h, BitVec.toNat_allOnes]
    exact min_eq_right (by omega)
  · have hlt := lt_of_ne_allOnes h
    rw [if_neg h]
    exact min_eq_left (by omega)

/-- What fits, and "no limit", is widened back. -/
theorem widen_narrow (hw : w ≤ v) {x : BitVec v}
    (hx : x.toNat < 2 ^ w - 1 ∨ x = BitVec.allOnes v) : widen v (narrow w x) = x := by
  have hpow : 2 ^ w ≤ 2 ^ v := Nat.pow_le_pow_right (by decide) hw
  refine BitVec.eq_of_toNat_eq ?_
  rw [toNat_widen hw]
  have hmin := toNat_narrow (w := w) x
  rcases hx with hlt | rfl
  · rw [min_eq_left (by omega)] at hmin
    have hne : narrow w x ≠ BitVec.allOnes w := by
      intro heq
      rw [heq, BitVec.toNat_allOnes] at hmin
      omega
    rw [if_neg hne, hmin]
  · rw [BitVec.toNat_allOnes, min_eq_right (by omega)] at hmin
    have heq : narrow w (BitVec.allOnes v) = BitVec.allOnes w := by
      refine BitVec.eq_of_toNat_eq ?_
      rw [hmin, BitVec.toNat_allOnes]
    rw [if_pos heq, BitVec.toNat_allOnes]

/-- **A narrowed word widens back** exactly if it fitted, or said "no limit". -/
theorem widen_narrow_iff (hw : w ≤ v) {x : BitVec v} :
    widen v (narrow w x) = x ↔ x.toNat < 2 ^ w - 1 ∨ x = BitVec.allOnes v := by
  refine ⟨?_, widen_narrow hw⟩
  intro h
  rcases lt_or_ge x.toNat (2 ^ w - 1) with hlt | hge
  · exact .inl hlt
  · refine .inr ?_
    rw [← h]
    unfold narrow widen
    rw [if_pos hge, if_pos rfl]

theorem narrow_eq_zero_iff (hw : 0 < w) {x : BitVec v} : narrow w x = 0 ↔ x = 0 := by
  have hpow : 2 ^ 1 ≤ 2 ^ w := Nat.pow_le_pow_right (by decide) hw
  have hzero : ∀ n, (0 : BitVec n).toNat = 0 := fun n => by simp
  rw [← BitVec.toNat_inj, ← BitVec.toNat_inj, toNat_narrow, hzero, hzero]
  omega

theorem widen_eq_zero_iff (h0 : 0 < w) (hw : w ≤ v) {x : BitVec w} : widen v x = 0 ↔ x = 0 := by
  rw [← narrow_widen hw x, narrow_eq_zero_iff h0, narrow_widen hw]

/-- A small number is the same in every width. -/
theorem widen_ofNat (hw : w ≤ v) {n : ℕ} (hn : n < 2 ^ w - 1) :
    widen v (BitVec.ofNat w n) = BitVec.ofNat v n := by
  have hpow : 2 ^ w ≤ 2 ^ v := Nat.pow_le_pow_right (by decide) hw
  have htoNat : (BitVec.ofNat w n).toNat = n := by
    rw [BitVec.toNat_ofNat, Nat.mod_eq_of_lt (by omega)]
  have hne : BitVec.ofNat w n ≠ BitVec.allOnes w := by
    intro heq
    rw [heq, BitVec.toNat_allOnes] at htoNat
    omega
  refine BitVec.eq_of_toNat_eq ?_
  rw [toNat_widen hw, if_neg hne, htoNat, BitVec.toNat_ofNat, Nat.mod_eq_of_lt (by omega)]

theorem narrow_ofNat (hw : w ≤ v) {n : ℕ} (hn : n < 2 ^ w - 1) :
    narrow w (BitVec.ofNat v n) = BitVec.ofNat w n := by
  rw [← widen_ofNat hw hn, narrow_widen hw]

end Saturate
