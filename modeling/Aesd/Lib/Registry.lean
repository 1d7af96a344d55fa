import Mathlib.Data.List.Nodup
import Mathlib.Tactic

/-!
# Records with a key

A list of records with distinct keys, as a table of processes is: `lookup` finds the record
with a key, `update` changes it. `mem_update` says which records there are afterwards.
-/

namespace Registry

variable {α κ : Type*} [DecidableEq κ] {key : α → κ}

/-- The first record with a key. -/
def lookup (key : α → κ) (l : List α) (k : κ) : Option α := l.find? fun x => key x = k

/-- Change the record with a key. -/
def update (key : α → κ) (l : List α) (k : κ) (f : α → α) : List α :=
  l.map fun x => if key x = k then f x else x

variable {l : List α} {k : κ} {x y : α} {f : α → α}

theorem lookup_some (h : lookup key l k = some x) : x ∈ l ∧ key x = k := by
  unfold lookup at h
  have hkey := List.find?_some h
  exact ⟨List.mem_of_find?_eq_some h, of_decide_eq_true hkey⟩

omit [DecidableEq κ] in
/-- Keys tell records apart. -/
theorem eq_of_key (hl : (l.map key).Nodup) (hx : x ∈ l) (hy : y ∈ l) (h : key x = key y) : x = y :=
  List.inj_on_of_nodup_map hl hx hy h

theorem lookup_of_mem (hl : (l.map key).Nodup) (hx : x ∈ l) : lookup key l (key x) = some x := by
  cases hfind : lookup key l (key x) with
  | none =>
    have hnone := List.find?_eq_none.1 hfind x hx
    exact absurd (decide_eq_true rfl) hnone
  | some y =>
    obtain ⟨hy, hkey⟩ := lookup_some hfind
    rw [eq_of_key hl hy hx hkey]

/-- **The records after an update**: the one that has changed, and the others. -/
theorem mem_update (hl : (l.map key).Nodup) (hx : x ∈ l) :
    y ∈ update key l (key x) f ↔ y = f x ∨ (y ∈ l ∧ key y ≠ key x) := by
  unfold update
  rw [List.mem_map]
  refine ⟨?_, ?_⟩
  · rintro ⟨z, hz, rfl⟩
    by_cases h : key z = key x
    · rw [if_pos h, eq_of_key hl hz hx h]
      exact .inl rfl
    · rw [if_neg h]
      exact .inr ⟨hz, h⟩
  · rintro (rfl | ⟨hy, h⟩)
    · exact ⟨x, hx, if_pos rfl⟩
    · exact ⟨y, hy, if_neg h⟩

theorem keys_update (hf : ∀ x, key x = k → key (f x) = k) :
    (update key l k f).map key = l.map key := by
  unfold update
  rw [List.map_map]
  refine List.map_congr_left ?_
  intro x _
  rw [Function.comp_apply]
  by_cases h : key x = k
  · rw [if_pos h, h]
    exact hf x h
  · rw [if_neg h]

end Registry
