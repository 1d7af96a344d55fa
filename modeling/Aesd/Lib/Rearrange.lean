import Mathlib.Data.Set.Operations
import Mathlib.Data.List.Perm.Basic
import Mathlib.Data.List.Nodup
import Mathlib.Logic.Equiv.Basic
import Mathlib.Order.Lattice

/-!
# Rearrangements of an index function on a set of positions

An array is a function from positions to values. `Rearr S f g` says that `g` is
`f` with the values at the positions in `S` permuted and nothing else changed. One
notion carries both halves of what an in-place algorithm owes its caller:

* `Rearr.frame`: positions outside `S` keep their values;
* `Rearr.perm_map`: read along any list of distinct positions that covers `S`, the
  values are a permutation of what they were.

`Split` is what one partition step around a pivot position achieves, and
`Split.sorted` puts two sorted sides and the pivot together.
-/

namespace Rearrange

variable {ι α : Type*}

/-- `g` is `f` with the values at the positions in `S` permuted. -/
def Rearr (S : Set ι) (f g : ι → α) : Prop :=
  ∃ σ : Equiv.Perm ι, (∀ i, i ∉ S → σ i = i) ∧ g = f ∘ σ

variable {S T : Set ι} {f g h : ι → α}

theorem Rearr.refl (S : Set ι) (f : ι → α) : Rearr S f f :=
  ⟨Equiv.refl ι, fun _ _ => rfl, rfl⟩

theorem Rearr.trans (h₁ : Rearr S f g) (h₂ : Rearr S g h) : Rearr S f h := by
  obtain ⟨σ, hσ, rfl⟩ := h₁
  obtain ⟨τ, hτ, rfl⟩ := h₂
  refine ⟨τ.trans σ, ?_, rfl⟩
  intro i hi
  rw [Equiv.trans_apply, hτ i hi, hσ i hi]

theorem Rearr.mono (hST : S ⊆ T) (hr : Rearr S f g) : Rearr T f g := by
  obtain ⟨σ, hσ, hg⟩ := hr
  exact ⟨σ, fun i hi => hσ i (fun hS => hi (hST hS)), hg⟩

theorem Rearr.swap [DecidableEq ι] (f : ι → α) {i j : ι} (hi : i ∈ S) (hj : j ∈ S) :
    Rearr S f (f ∘ Equiv.swap i j) := by
  refine ⟨Equiv.swap i j, ?_, rfl⟩
  intro k hk
  exact Equiv.swap_apply_of_ne_of_ne (fun h => hk (h ▸ hi)) (fun h => hk (h ▸ hj))

/-- **Frame**: positions outside `S` keep their values. -/
theorem Rearr.frame (hr : Rearr S f g) {i : ι} (hi : i ∉ S) : g i = f i := by
  obtain ⟨σ, hσ, rfl⟩ := hr
  rw [Function.comp_apply, hσ i hi]

/-- Each value in `S` after the rearrangement was somewhere in `S` before it. -/
theorem Rearr.source (hr : Rearr S f g) {i : ι} (hi : i ∈ S) : ∃ j ∈ S, g i = f j := by
  obtain ⟨σ, hσ, rfl⟩ := hr
  refine ⟨σ i, ?_, rfl⟩
  by_contra hS
  have hfix : σ i = i := σ.injective (hσ (σ i) hS)
  rw [hfix] at hS
  exact hS hi

theorem Rearr.forall_mem (hr : Rearr S f g) {P : α → Prop} (hP : ∀ i ∈ S, P (f i)) :
    ∀ i ∈ S, P (g i) := by
  intro i hi
  obtain ⟨j, hj, he⟩ := hr.source hi
  rw [he]
  exact hP j hj

/-- **Permutation**: along a list of distinct positions that covers `S`, the values
are a permutation of what they were. -/
theorem Rearr.perm_map (hr : Rearr S f g) {l : List ι} (hl : l.Nodup) (hS : ∀ i ∈ S, i ∈ l) :
    (l.map g).Perm (l.map f) := by
  obtain ⟨σ, hσ, rfl⟩ := hr
  have hmem : ∀ i, σ i ∈ l ↔ i ∈ l := by
    intro i
    by_cases hi : i ∈ S
    · have hσi : σ i ∈ S := by
        by_contra hc
        have hfix : σ i = i := σ.injective (hσ (σ i) hc)
        rw [hfix] at hc
        exact hc hi
      exact ⟨fun _ => hS i hi, fun _ => hS _ hσi⟩
    · rw [hσ i hi]
  have hp : (l.map σ).Perm l := by
    rw [List.perm_ext_iff_of_nodup (hl.map σ.injective) hl]
    intro a
    rw [List.mem_map]
    constructor
    · rintro ⟨i, hi, rfl⟩
      exact (hmem i).2 hi
    · intro ha
      refine ⟨σ.symm a, ?_, σ.apply_symm_apply a⟩
      rw [← hmem, σ.apply_symm_apply]
      exact ha
  rw [← List.map_map]
  exact hp.map f

section Sorted

variable [LinearOrder ι] {r : α → α → Prop}

/-- The values at positions `lo..hi` are in `r`-order. -/
def SortedOn (r : α → α → Prop) (lo hi : ι) (f : ι → α) : Prop :=
  ∀ i j, lo ≤ i → i < j → j ≤ hi → r (f i) (f j)

/-- Read along positions in order, the values are in order. -/
theorem SortedOn.pairwise {lo hi : ι} (h : SortedOn r lo hi f) {l : List ι} (hl : l.Pairwise (· < ·))
    (hmem : ∀ i ∈ l, lo ≤ i ∧ i ≤ hi) : (l.map f).Pairwise r := by
  refine List.pairwise_map.2 (hl.imp_of_mem ?_)
  intro i j hi hj hij
  exact h i j (hmem i hi).1 hij (hmem j hj).2

/-- **One partition step**: position `p` of `lo..hi` holds the pivot, everything to its
left is `r`-before the pivot and everything to its right is `r`-after it. -/
structure Split (r : α → α → Prop) (lo hi p : ι) (f : ι → α) : Prop where
  lo_le : lo ≤ p
  le_hi : p ≤ hi
  left : ∀ i, lo ≤ i → i < p → r (f i) (f p)
  right : ∀ i, p < i → i ≤ hi → r (f p) (f i)

theorem Split.rearr {lo hi p : ι} (hs : Split r lo hi p f)
    (hl : Rearr {i | lo ≤ i ∧ i < p} f g) (hr : Rearr {i | p < i ∧ i ≤ hi} g h) :
    Split r lo hi p h := by
  have hp : h p = f p := by
    rw [hr.frame (fun hm => lt_irrefl p hm.1), hl.frame (fun hm => lt_irrefl p hm.2)]
  have hgr : ∀ i, p < i → g i = f i := fun i hi => hl.frame (fun hm => lt_asymm hi hm.2)
  have hhl : ∀ i, i < p → h i = g i := fun i hi => hr.frame (fun hm => lt_asymm hi hm.1)
  refine ⟨hs.lo_le, hs.le_hi, ?_, ?_⟩
  · intro i h1 h2
    rw [hp, hhl i h2]
    exact hl.forall_mem (P := fun a => r a (f p)) (fun j hj => hs.left j hj.1 hj.2) i ⟨h1, h2⟩
  · intro i h1 h2
    rw [hp]
    refine hr.forall_mem (P := fun a => r (f p) a) ?_ i ⟨h1, h2⟩
    intro j hj
    rw [hgr j hj.1]
    exact hs.right j hj.1 hj.2

/-- **Assembly**: a split whose two sides are sorted is sorted. -/
theorem Split.sorted [IsTrans α r] {lo hi p : ι} (hs : Split r lo hi p f)
    (hl : ∀ i j, lo ≤ i → i < j → j < p → r (f i) (f j))
    (hr : ∀ i j, p < i → i < j → j ≤ hi → r (f i) (f j)) : SortedOn r lo hi f := by
  intro i j h1 h2 h3
  rcases lt_trichotomy i p with hi | rfl | hi
  · rcases lt_trichotomy j p with hj | rfl | hj
    · exact hl i j h1 h2 hj
    · exact hs.left i h1 hi
    · exact IsTrans.trans _ _ _ (hs.left i h1 hi) (hs.right j hj h3)
  · exact hs.right j h2 h3
  · exact hr i j hi h2 h3

end Sorted

end Rearrange
