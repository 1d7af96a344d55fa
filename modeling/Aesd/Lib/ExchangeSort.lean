import Mathlib.Order.Lattice
import Mathlib.Tactic

/-!
# Exchange sort

`pass f x ys` runs over `ys` with `x` in hand: both are mapped with `f`, the smaller one stays
in hand and the larger one is left behind. When `f` is idempotent the pass leaves the mapped
elements, with the least in hand (`pass_perm`, `pass_le`).

Each pass makes the sorted part (`Sorting`) one longer.
-/

namespace ExchangeSort

open scoped List

variable {α : Type*} [LinearOrder α]

def pass (f : α → α) : α → List α → α × List α
  | x, [] => (x, [])
  | x, y :: ys =>
    let r := pass f (min (f x) (f y)) ys
    (r.1, max (f x) (f y) :: r.2)

variable {f : α → α} {x : α} {pre ys xs : List α}

/-- The element kept in hand has been mapped. -/
theorem map_min (hf : ∀ a, f (f a) = f a) (x y : α) : f (min (f x) (f y)) = min (f x) (f y) := by
  rcases min_choice (f x) (f y) with h | h
  · rw [h, hf]
  · rw [h, hf]

theorem pass_perm (hf : ∀ a, f (f a) = f a) (x : α) (ys : List α) (h : f x = x ∨ ys ≠ []) :
    ((pass f x ys).1 :: (pass f x ys).2).Perm ((x :: ys).map f) := by
  induction ys generalizing x with
  | nil =>
    have hx : f x = x := h.resolve_right fun hne => hne rfl
    rw [pass, List.map_singleton, hx]
  | cons y ys ih =>
    have hrest := ih (min (f x) (f y)) (.inl (map_min hf x y))
    rw [List.map_cons, map_min hf] at hrest
    have hpair : [max (f x) (f y), min (f x) (f y)].Perm [f x, f y] := by
      rcases le_total (f x) (f y) with hle | hle
      · rw [max_eq_right hle, min_eq_left hle]
        apply List.Perm.swap
      · rw [max_eq_left hle, min_eq_right hle]
    calc (pass f x (y :: ys)).1 :: (pass f x (y :: ys)).2
        = (pass f (min (f x) (f y)) ys).1 :: max (f x) (f y) ::
            (pass f (min (f x) (f y)) ys).2 := rfl
      _ ~ max (f x) (f y) :: (pass f (min (f x) (f y)) ys).1 ::
            (pass f (min (f x) (f y)) ys).2 := List.Perm.swap ..
      _ ~ max (f x) (f y) :: min (f x) (f y) :: ys.map f := hrest.cons _
      _ ~ (x :: y :: ys).map f := hpair.append_right (ys.map f)

/-- What a pass keeps in hand is no larger than what it leaves behind. -/
theorem pass_le (hf : ∀ a, f (f a) = f a) (x : α) (ys : List α) (h : f x = x ∨ ys ≠ []) :
    (pass f x ys).1 ≤ f x ∧ ∀ y ∈ (pass f x ys).2, (pass f x ys).1 ≤ y := by
  induction ys generalizing x with
  | nil =>
    have hx : f x = x := h.resolve_right fun hne => hne rfl
    rw [pass, hx]
    exact ⟨le_rfl, fun y hy => absurd hy List.not_mem_nil⟩
  | cons y ys ih =>
    obtain ⟨hle, hall⟩ := ih (min (f x) (f y)) (.inl (map_min hf x y))
    rw [map_min hf] at hle
    rw [pass]
    refine ⟨hle.trans (min_le_left _ _), ?_⟩
    intro z hz
    rcases List.mem_cons.1 hz with rfl | hz
    · exact hle.trans (min_le_max)
    · exact hall z hz

/-- The elements `xs`, all mapped, with the least ones sorted in front. -/
structure Sorting (f : α → α) (xs pre rest : List α) : Prop where
  perm : (pre ++ rest).Perm (xs.map f)
  sorted : pre.Pairwise (· ≤ ·)
  le : ∀ a ∈ pre, ∀ b ∈ rest, a ≤ b

/-- The first pass maps all elements. -/
theorem Sorting.first (hf : ∀ a, f (f a) = f a) (hne : ys ≠ []) :
    Sorting f (x :: ys) [(pass f x ys).1] (pass f x ys).2 := by
  refine ⟨pass_perm hf x ys (.inr hne), List.pairwise_singleton _ _, ?_⟩
  intro a ha
  rw [List.mem_singleton.1 ha]
  exact (pass_le hf x ys (.inr hne)).2

theorem Sorting.mapped {rest : List α} (h : Sorting f xs pre rest) (hf : ∀ a, f (f a) = f a) :
    ∀ b ∈ rest, f b = b := by
  intro b hb
  have hmem := h.perm.subset (List.mem_append_right pre hb)
  obtain ⟨a, -, rfl⟩ := List.mem_map.1 hmem
  exact hf a

/-- **A pass sorts one more element.** -/
theorem Sorting.pass (h : Sorting f xs pre (x :: ys)) (hf : ∀ a, f (f a) = f a) :
    Sorting f xs (pre ++ [(pass f x ys).1]) (pass f x ys).2 := by
  have hmap := h.mapped hf
  have hfx : f x = x := hmap x List.mem_cons_self
  have hperm := pass_perm hf x ys (.inl hfx)
  have hid : (x :: ys).map f = x :: ys := by
    rw [List.map_congr_left (g := id) hmap, List.map_id]
  rw [hid] at hperm
  have hle := pass_le hf x ys (.inl hfx)
  refine ⟨?_, ?_, ?_⟩
  · rw [List.append_assoc, List.singleton_append]
    exact (hperm.append_left pre).trans h.perm
  · rw [List.pairwise_append]
    refine ⟨h.sorted, List.pairwise_singleton _ _, ?_⟩
    intro a ha b hb
    rw [List.mem_singleton.1 hb]
    exact h.le a ha _ (hperm.subset List.mem_cons_self)
  · intro a ha b hb
    rcases List.mem_append.1 ha with ha | ha
    · exact h.le a ha b (hperm.subset (List.mem_cons_of_mem _ hb))
    · rw [List.mem_singleton.1 ha]
      exact hle.2 b hb

/-- With one element left the list is sorted. -/
theorem Sorting.last (h : Sorting f xs pre [x]) : (pre ++ [x]).Pairwise (· ≤ ·) := by
  rw [List.pairwise_append]
  refine ⟨h.sorted, List.pairwise_singleton _ _, ?_⟩
  intro a ha b hb
  exact h.le a ha b hb

end ExchangeSort
