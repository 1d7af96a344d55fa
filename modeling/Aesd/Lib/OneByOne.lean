import Mathlib.Logic.Function.Basic
import Mathlib.Logic.Relation
import Mathlib.Tactic

/-!
# Changing one value at a time

Values `x i` are bound by rules on single ones and by rules on pairs that a lesser first value or
a greater second one can only help, as `x i < x j` is. The greater values of two solutions are a
solution. If the rules on pairs only go forward in a list of the indices, any two solutions are
connected by changing one value after the other, with a solution at each stage: from the first
one up to the greater values, the last index first, and down to the second one.

* `Rules.raise`: from a solution to one above it.
* `Rules.connected`: from any solution to any other.
-/

namespace OneByOne

variable {ι α κ : Type*} [DecidableEq ι] [LinearOrder κ]

/-- The rules, with the `key` by which values are compared. -/
structure Rules (ι α κ : Type*) [LinearOrder κ] where
  key : α → κ
  single : ι → α → Prop
  pair : ι → ι → α → α → Prop
  pair_mono : ∀ i j a b a' b', pair i j a b → key a' ≤ key a → key b ≤ key b' → pair i j a' b'

namespace Rules

variable (R : Rules ι α κ)

structure Solution (x : ι → α) : Prop where
  single : ∀ i, R.single i (x i)
  pair : ∀ i j, R.pair i j (x i) (x j)

/-- One value changes, between solutions. -/
def Change (x y : ι → α) : Prop :=
  R.Solution x ∧ R.Solution y ∧ ∃ i a, y = Function.update x i a

/-- The rules on pairs go forward in the list: none leads from it to an index before it. -/
def Forward : List ι → Prop
  | [] => True
  | i :: l => (∀ j, j ∉ i :: l → ∀ a b, R.pair i j a b) ∧ Forward l

/-- The greater values of two families. -/
def join (x y : ι → α) : ι → α := fun i => if R.key (x i) ≤ R.key (y i) then y i else x i

/-- `z` on a list of indices, `x` elsewhere. -/
def mix (l : List ι) (x z : ι → α) : ι → α := fun i => if i ∈ l then z i else x i

variable {R} {x y z : ι → α} {l : List ι}

omit [DecidableEq ι] in
theorem le_join (x y : ι → α) (i : ι) :
    R.key (x i) ≤ R.key (R.join x y i) ∧ R.key (y i) ≤ R.key (R.join x y i) := by
  unfold join
  split_ifs with h
  · exact ⟨h, le_refl _⟩
  · exact ⟨le_refl _, (not_le.1 h).le⟩

omit [DecidableEq ι] in
/-- The greater values of two solutions are a solution. -/
theorem Solution.join (hx : R.Solution x) (hy : R.Solution y) : R.Solution (R.join x y) := by
  refine ⟨?_, ?_⟩
  · intro i
    unfold Rules.join
    split_ifs
    · exact hy.single i
    · exact hx.single i
  · intro i j
    obtain ⟨hxj, hyj⟩ := le_join (R := R) x y j
    have hi : R.join x y i = x i ∨ R.join x y i = y i := by
      unfold Rules.join
      split_ifs
      · exact .inr rfl
      · exact .inl rfl
    rcases hi with hi | hi
    · rw [hi]
      exact R.pair_mono i j _ _ _ _ (hx.pair i j) (le_refl _) hxj
    · rw [hi]
      exact R.pair_mono i j _ _ _ _ (hy.pair i j) (le_refl _) hyj

omit [DecidableEq ι] in
theorem Forward.free (hl : R.Forward l) {i j : ι} (hi : i ∈ l) (hj : j ∉ l) (a b : α) :
    R.pair i j a b := by
  induction l with
  | nil => exact absurd hi List.not_mem_nil
  | cons k l ih =>
    rcases List.mem_cons.1 hi with rfl | hi
    · exact hl.1 j hj a b
    · exact ih hl.2 hi fun hmem => hj (List.mem_cons_of_mem _ hmem)

/-- A solution that has been raised at the end of the list is one still. -/
theorem Solution.mix (hx : R.Solution x) (hz : R.Solution z)
    (hle : ∀ i, R.key (x i) ≤ R.key (z i)) (hl : R.Forward l) : R.Solution (mix l x z) := by
  refine ⟨?_, ?_⟩
  · intro i
    unfold Rules.mix
    split_ifs
    · exact hz.single i
    · exact hx.single i
  · intro i j
    unfold Rules.mix
    by_cases hi : i ∈ l
    · by_cases hj : j ∈ l
      · rw [if_pos hi, if_pos hj]
        exact hz.pair i j
      · exact hl.free hi hj _ _
    · rw [if_neg hi]
      by_cases hj : j ∈ l
      · rw [if_pos hj]
        exact R.pair_mono i j _ _ _ _ (hx.pair i j) (le_refl _) (hle j)
      · rw [if_neg hj]
        exact hx.pair i j

theorem mix_cons (i : ι) (l : List ι) (x z : ι → α) :
    mix (i :: l) x z = Function.update (mix l x z) i (z i) := by
  funext j
  unfold mix
  by_cases hj : j = i
  · rw [hj, Function.update_self, if_pos (List.mem_cons_self ..)]
  · rw [Function.update_of_ne hj]
    exact if_congr (List.mem_cons.trans (or_iff_right hj)) rfl rfl

/-- **Raising**: the values that come last go up first. -/
theorem raise (hx : R.Solution x) (hz : R.Solution z) (hle : ∀ i, R.key (x i) ≤ R.key (z i))
    (hl : R.Forward l) : Relation.ReflTransGen R.Change x (mix l x z) := by
  induction l with
  | nil => exact .refl
  | cons i l ih =>
    have hchange : R.Change (mix l x z) (mix (i :: l) x z) :=
      ⟨hx.mix hz hle hl.2, hx.mix hz hle hl, i, z i, mix_cons i l x z⟩
    exact (ih hl.2).tail hchange

theorem Change.symm (h : R.Change x y) : R.Change y x := by
  obtain ⟨hx, hy, i, a, rfl⟩ := h
  refine ⟨hy, hx, i, x i, ?_⟩
  rw [Function.update_idem, Function.update_eq_self]

/-- **One value at a time** leads from any solution to any other. -/
theorem connected (hall : ∀ i, i ∈ l) (hl : R.Forward l) (hx : R.Solution x) (hy : R.Solution y) :
    Relation.ReflTransGen R.Change x y := by
  have hz : R.Solution (R.join x y) := hx.join hy
  have hmix : ∀ v : ι → α, mix l v (R.join x y) = R.join x y :=
    fun v => funext fun i => if_pos (hall i)
  have hup := raise hx hz (fun i => (le_join x y i).1) hl
  have hdown := raise hy hz (fun i => (le_join x y i).2) hl
  rw [hmix] at hup hdown
  have hback := Relation.reflTransGen_swap.2 hdown
  exact hup.trans (Relation.ReflTransGen.mono (fun _ _ h => Change.symm h) _ _ hback)

end Rules

end OneByOne
