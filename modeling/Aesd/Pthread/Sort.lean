import Aesd.Lib.ExchangeSort
import Aesd.Pthread.Child1

/-!
# The sort of `child1_funct`

The suffixes that `strcmp` compares start with the two bytes in question, and where these are
equal swapping them changes nothing: the inner loop is an `ExchangeSort.pass` in the unsigned
order of the bytes.

* `outerLoop_sorts`: with an `int` for the length the bytes end up sorted, all letters small,
  but for a file of one byte, which is left as it is.
* `outerLoop_overflow`: in a longer file the loop variable overflows.
-/

namespace Aesd.Pthread

open CString ExchangeSort

/-- The bytes in their unsigned order. -/
instance : LinearOrder Byte where
  le_refl := BitVec.le_refl
  le_trans := fun _ _ _ => BitVec.le_trans
  le_antisymm := fun _ _ => BitVec.le_antisymm
  le_total := BitVec.le_total
  lt_iff_le_not_ge := fun a b => by
    rw [BitVec.le_def, BitVec.le_def, BitVec.lt_def]
    omega
  toDecidableLE := inferInstance
  toDecidableEq := inferInstance

/-- A byte with capitals turned to small letters. -/
def lower (b : Byte) : Byte := if 65 ≤ b.toInt ∧ b.toInt ≤ 90 then b + 32 else b

theorem lower_lower : ∀ b : Byte, lower (lower b) = lower b := by decide +kernel

/-! ### Two bytes of a list -/

section Index

variable {α : Type*} (pre post : List α) (x z : α)

theorem getD_at (d : α) : (pre ++ x :: post).getD pre.length d = x := by
  simp [List.getD]

theorem set_at : (pre ++ x :: post).set pre.length z = pre ++ z :: post := by
  simp [List.set_append_right]

theorem drop_at : (pre ++ x :: post).drop pre.length = x :: post := by
  rw [List.drop_left' rfl]

end Index

theorem toLower_at (pre post : List Byte) (x : Byte) :
    toLower (pre ++ x :: post) pre.length = pre ++ lower x :: post := by
  unfold toLower lower
  rw [getD_at, set_at]
  by_cases h : 65 ≤ x.toInt ∧ x.toInt ≤ 90
  · rw [if_pos h, if_pos h]
  · rw [if_neg h, if_neg h]

/-- `strcmp` decides by the first characters where they differ. -/
theorem strcmp_pos_iff {c d : Byte} (h : c ≠ d) (cs ct : List Byte) :
    0 < strcmp (c :: cs) (d :: ct) ↔ d < c := by
  rw [strcmp, List.headD_cons, if_pos h, BitVec.lt_def]
  have hne : c.toNat ≠ d.toNat := fun he => h (BitVec.eq_of_toNat_eq he)
  by_cases hlt : c.toNat < d.toNat
  · rw [if_pos hlt]
    exact iff_of_false (by decide) (by omega)
  · rw [if_neg hlt]
    exact iff_of_true (by decide) (by omega)

/-- **The body of the inner loop** leaves the smaller byte in front. -/
theorem exchange_at (pre mid post : List Byte) (x y : Byte) :
    exchange (pre ++ x :: (mid ++ y :: post)) pre.length (pre.length + 1 + mid.length) =
      pre ++ min (lower x) (lower y) :: (mid ++ max (lower x) (lower y) :: post) := by
  have hlen : ∀ z : Byte, pre.length + 1 + mid.length = (pre ++ z :: mid).length := by
    intro z
    rw [List.length_append, List.length_cons]
    omega
  have hassoc : ∀ z w : Byte, pre ++ z :: (mid ++ w :: post) = (pre ++ z :: mid) ++ w :: post := by
    simp
  have hlow : toLower (toLower (pre ++ x :: (mid ++ y :: post)) pre.length)
      (pre.length + 1 + mid.length) = pre ++ lower x :: (mid ++ lower y :: post) := by
    rw [toLower_at, hassoc, hlen (lower x), toLower_at]
    exact (hassoc _ _).symm
  unfold exchange
  simp only
  rw [hlow]
  generalize lower x = a
  generalize lower y = b
  have hdropj : (pre ++ a :: (mid ++ b :: post)).drop (pre.length + 1 + mid.length) = b :: post := by
    rw [hassoc, hlen a, drop_at]
  have hswap : ((pre ++ a :: (mid ++ b :: post)).set pre.length
      ((pre ++ a :: (mid ++ b :: post)).getD (pre.length + 1 + mid.length) 0)).set
        (pre.length + 1 + mid.length) ((pre ++ a :: (mid ++ b :: post)).getD pre.length 0) =
      pre ++ b :: (mid ++ a :: post) := by
    have hget : (pre ++ a :: (mid ++ b :: post)).getD (pre.length + 1 + mid.length) 0 = b := by
      rw [hassoc, hlen a, getD_at]
    rw [hget, getD_at, set_at, hassoc, hlen b, set_at]
    exact (hassoc _ _).symm
  rw [drop_at, hdropj, hswap]
  by_cases hab : a = b
  · -- equal bytes: the rest of the suffixes decides, and nothing changes
    subst hab
    rw [min_self, max_self]
    split <;> rfl
  · have hpos := strcmp_pos_iff hab (mid ++ b :: post) post
    by_cases hlt : b < a
    · rw [if_pos (hpos.2 hlt), min_eq_right hlt.le, max_eq_left hlt.le]
    · have hle : a ≤ b := not_lt.1 hlt
      rw [if_neg (fun hp => hlt (hpos.1 hp)), min_eq_left hle, max_eq_right hle]

/-! ### The loops -/

theorem next_ok {i : ℕ} (h : i + 1 < 2 ^ 31) : next i = .ok (i + 1) := if_pos h

theorem innerLoop_from (pre mid ys : List Byte) (x : Byte)
    (h : pre.length + 1 + mid.length + ys.length < 2 ^ 31) :
    (List.range' (pre.length + 1 + mid.length) ys.length).foldlM
        (fun data j => do
          let data := exchange data pre.length j
          let _ ← next j
          return data) (pre ++ x :: (mid ++ (ys ++ [0]))) =
      (.ok (pre ++ (pass lower x ys).1 :: (mid ++ ((pass lower x ys).2 ++ [0]))) :
        Except Stop (List Byte)) := by
  induction ys generalizing x mid with
  | nil => rfl
  | cons y ys ih =>
    rw [List.length_cons] at h ⊢
    have hnext : next (pre.length + 1 + mid.length) = .ok (pre.length + 1 + mid.length + 1) :=
      next_ok (by omega)
    have hmid : (mid ++ [max (lower x) (lower y)]).length = mid.length + 1 := by
      rw [List.length_append, List.length_singleton]
    have hih := ih (mid ++ [max (lower x) (lower y)]) (min (lower x) (lower y)) (by omega)
    rw [hmid, ← add_assoc] at hih
    rw [List.range'_succ, List.foldlM_cons, List.cons_append, exchange_at, hnext]
    rw [List.append_assoc, List.append_assoc] at hih
    exact hih

/-- **The inner loop is a pass.** -/
theorem innerLoop_pass (pre ys : List Byte) (x : Byte) (h : pre.length + 1 + ys.length < 2 ^ 31) :
    innerLoop (pre.length + 1 + ys.length) pre.length (pre ++ x :: (ys ++ [0])) =
      .ok (pre ++ (pass lower x ys).1 :: ((pass lower x ys).2 ++ [0])) := by
  unfold innerLoop
  rw [Nat.add_sub_cancel_left]
  exact innerLoop_from pre [] ys x h

/-- A loop that goes past `INT_MAX` overflows, if it comes that far. -/
theorem foldlM_overflow {σ : Type} (body : σ → ℕ → Except Stop σ) (is : List ℕ) {i : ℕ}
    (h : 2 ^ 31 ≤ i + 1) (s : σ) :
    ∃ e, (is ++ [i]).foldlM
      (fun s i => do
        let s ← body s i
        let _ ← next i
        return s) s = .error e := by
  have hnext : next i = .error .intOverflow := if_neg (by omega)
  rw [List.foldlM_append]
  cases is.foldlM (fun s i => do
      let s ← body s i
      let _ ← next i
      return s) s with
  | error e => exact ⟨e, rfl⟩
  | ok s' =>
    cases hbody : body s' i with
    | error e => exact ⟨e, by simp [List.foldlM, bind, Except.bind, hbody]⟩
    | ok s => exact ⟨.intOverflow, by simp [List.foldlM, hnext, bind, Except.bind, hbody]⟩

/-- In a longer file the loop variable overflows in the first pass. -/
theorem innerLoop_overflow {length : ℕ} (h : 2 ^ 31 ≤ length) (data : List Byte) :
    ∃ e, innerLoop length 0 data = .error e := by
  obtain ⟨n, rfl⟩ := Nat.exists_eq_add_of_le' (show 2 ≤ length by omega)
  unfold innerLoop
  rw [show n + 2 - (0 + 1) = n + 1 by omega, List.range'_1_concat]
  exact foldlM_overflow (fun data j => .ok (exchange data 0 j)) _ (by omega) data

theorem outerLoop_overflow {length : ℕ} (h : 2 ^ 31 ≤ length) (data : List Byte) :
    ∃ e, outerLoop length data = .error e := by
  obtain ⟨n, hn⟩ := Nat.exists_eq_add_of_le (show 2 ≤ length by omega)
  obtain ⟨e, he⟩ := innerLoop_overflow h data
  refine ⟨e, ?_⟩
  unfold outerLoop
  rw [show length - 1 = n + 1 by omega, List.range_succ_eq_map, List.foldlM_cons, he]
  rfl

/-- After `k` passes the first `k` bytes are in place. -/
theorem outerLoop_from (x : Byte) (ys : List Byte) (hlen : (x :: ys).length < 2 ^ 31) :
    ∀ k, 1 ≤ k → k < (x :: ys).length → ∃ pre rest, pre.length = k ∧ Sorting lower (x :: ys) pre rest ∧
      (List.range k).foldlM
        (fun data i => do
          let data ← innerLoop (x :: ys).length i data
          let _ ← next i
          return data) (x :: ys ++ [0]) =
        (.ok (pre ++ rest ++ [0]) : Except Stop (List Byte)) := by
  rw [List.length_cons] at hlen
  intro k hk
  induction k, hk using Nat.le_induction with
  | base =>
    intro hlt
    have hne : ys ≠ [] := by
      rintro rfl
      simp at hlt
    refine ⟨_, _, rfl, Sorting.first lower_lower hne, ?_⟩
    have hfirst : ([] : List Byte).length + 1 + ys.length < 2 ^ 31 := by
      rw [List.length_nil]
      omega
    have hpass := innerLoop_pass [] ys x hfirst
    rw [List.length_nil, zero_add, add_comm 1 ys.length] at hpass
    rw [List.range_one, List.foldlM_cons, List.length_cons]
    simp only [List.nil_append] at hpass
    rw [List.cons_append, hpass]
    rfl
  | succ k hk ih =>
    intro hlt
    obtain ⟨pre, rest, hpre, hsort, hrun⟩ := ih (by omega)
    have htotal : pre.length + rest.length = ys.length + 1 := by
      have hp := hsort.perm.length_eq
      rwa [List.length_append, List.length_map, List.length_cons] at hp
    rw [List.length_cons] at hlt
    cases rest with
    | nil =>
      rw [List.length_nil] at htotal
      omega
    | cons z zs =>
      rw [List.length_cons] at htotal
      refine ⟨_, _, ?_, hsort.pass lower_lower, ?_⟩
      · rw [List.length_append, List.length_singleton, hpre]
      · have hpass := innerLoop_pass pre zs z (by omega)
        rw [show pre.length + 1 + zs.length = ys.length + 1 by omega, hpre] at hpass
        rw [List.range_succ, List.foldlM_append, hrun]
        simp only [List.length_cons, bind, Except.bind, List.foldlM, List.append_assoc,
          List.cons_append]
        rw [hpass, next_ok (by omega)]
        simp [pure, Except.pure]

/-- **The bytes end up sorted**, with all letters small. A file of one byte is left alone. -/
theorem outerLoop_sorts {file : List Byte} (hlen : file.length < 2 ^ 31) :
    ∃ S, outerLoop file.length (file ++ [0]) = .ok (S ++ [0]) ∧ S.Pairwise (· ≤ ·) ∧
      (file.length < 2 → S = file) ∧ (2 ≤ file.length → S.Perm (file.map lower)) := by
  rcases Nat.lt_or_ge file.length 2 with hshort | hlong
  · refine ⟨file, ?_, ?_, fun _ => rfl, fun h => by omega⟩
    · unfold outerLoop
      rw [show file.length - 1 = 0 by omega]
      rfl
    · match file, hshort with
      | [], _ => exact List.Pairwise.nil
      | [b], _ => exact List.pairwise_singleton _ _
  · match file, hlen, hlong with
    | x :: ys, hlen, hlong =>
      obtain ⟨pre, rest, hpre, hsort, hrun⟩ :=
        outerLoop_from x ys hlen ((x :: ys).length - 1) (by omega) (by omega)
      have hperm := hsort.perm.length_eq
      rw [List.length_append, List.length_map] at hperm
      obtain ⟨z, rfl⟩ := List.length_eq_one_iff.1 (show rest.length = 1 by omega)
      exact ⟨pre ++ [z], hrun, hsort.last, fun h => absurd hlong (by omega), fun _ => hsort.perm⟩

/-- A byte that has been turned small is no capital. -/
theorem lower_not_capital (b : Byte) : ¬ (65 ≤ (lower b).toInt ∧ (lower b).toInt ≤ 90) := by
  intro h
  have hlower : lower (lower b) = lower b + 32 := if_pos h
  rw [lower_lower, left_eq_add] at hlower
  exact absurd hlower (by decide)

/-- **What the sort is to leave of a file**: its bytes up to the case of letters, sorted, without
capitals if there is something to compare. -/
structure SortOf (file S : List Byte) : Prop where
  sorted : S.Pairwise (· ≤ ·)
  perm : (S.map lower).Perm (file.map lower)
  small : 2 ≤ file.length → ∀ b ∈ S, ¬ (65 ≤ b.toInt ∧ b.toInt ≤ 90)

/-- **The exchange sort sorts**, with the terminating NUL left in place, exactly if the length
of the file is an `int`. -/
theorem outerLoop_sorts_iff (file : List Byte) :
    (∃ S, outerLoop file.length (file ++ [0]) = .ok (S ++ [0]) ∧ SortOf file S) ↔
      file.length < 2 ^ 31 := by
  constructor
  · rintro ⟨S, hS, -⟩
    by_contra hlen
    obtain ⟨e, he⟩ := outerLoop_overflow (not_lt.1 hlen) (file ++ [0])
    rw [he] at hS
    simp at hS
  · intro hlen
    obtain ⟨S, hS, hsort, hshort, hperm⟩ := outerLoop_sorts hlen
    refine ⟨S, hS, hsort, ?_, ?_⟩
    · rcases Nat.lt_or_ge file.length 2 with h | h
      · rw [hshort h]
      · have hmap := (hperm h).map lower
        rwa [List.map_map, show lower ∘ lower = lower from funext lower_lower] at hmap
    · intro h b hb
      obtain ⟨b', -, rfl⟩ := List.mem_map.1 ((hperm h).mem_iff.1 hb)
      exact lower_not_capital b'

/-- A file of `2^31` letters. -/
theorem outerLoop_overflows :
    ¬ ∀ file : List Byte,
      ∃ S, outerLoop file.length (file ++ [0]) = .ok (S ++ [0]) ∧ SortOf file S := by
  intro h
  obtain ⟨S, hS, -⟩ := h (List.replicate (2 ^ 31) 0x61)
  rw [List.length_replicate] at hS
  obtain ⟨e, he⟩ := outerLoop_overflow le_rfl (List.replicate (2 ^ 31) 0x61 ++ [0])
  rw [he] at hS
  simp at hS

end Aesd.Pthread
