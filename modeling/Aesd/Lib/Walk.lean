import Mathlib.Data.List.Nodup
import Mathlib.Tactic

/-!
# Walks over a forest of records

Records name their parents by key. A walk from `top` visits the children of `top`, and those of
every record it visits that is `deep`; `Open` are the keys whose children it visits.

In a list of records where every record stands before its parent one pass finds the open keys,
from the last record to the first: `mem_opened_iff`. Such lists are `Ordered`; they stay so when a
record leaves and its children go to one behind it, `Ordered.remove`.
-/

namespace Walk

variable {α κ : Type*} {key parent : α → κ} {deep : α → Bool} {l l' : List α} {top k : κ} {p : α}

variable (key parent deep) in
/-- The keys whose children a walk visits. -/
inductive Open (l : List α) (top : κ) : κ → Prop
  | top : Open l top top
  | child {p : α} (hp : p ∈ l) (hparent : Open l top (parent p)) (hdeep : deep p = true) :
      Open l top (key p)

variable (key parent) in
/-- Every record stands before its parent. -/
structure Ordered (l : List α) : Prop where
  before : l.Pairwise fun p q => parent q ≠ key p
  self : ∀ p ∈ l, parent p ≠ key p

variable (key parent deep) in
/-- The open keys, found from the last record to the first. -/
def opened [DecidableEq κ] (top : κ) : List α → List κ
  | [] => [top]
  | p :: l => if parent p ∈ opened top l ∧ deep p = true then key p :: opened top l else opened top l

theorem Open.mono (hl : ∀ p ∈ l, p ∈ l') (h : Open key parent deep l top k) :
    Open key parent deep l' top k := by
  induction h with
  | top => exact .top
  | child hp _ hdeep ih => exact .child (hl _ hp) ih hdeep

/-- What is open for a walk that stops earlier is open. -/
theorem Open.deeper {deep' : α → Bool} (hdeep : ∀ p ∈ l, deep p = true → deep' p = true)
    (h : Open key parent deep l top k) : Open key parent deep' l top k := by
  induction h with
  | top => exact .top
  | child hp _ hd ih => exact .child hp ih (hdeep _ hp hd)

theorem Ordered.tail (h : Ordered key parent (p :: l)) : Ordered key parent l :=
  ⟨h.before.of_cons, fun q hq => h.self q (List.mem_cons_of_mem _ hq)⟩

theorem Ordered.cons (h : Ordered key parent l) (hself : parent p ≠ key p)
    (hl : ∀ q ∈ l, parent q ≠ key p) : Ordered key parent (p :: l) := by
  refine ⟨List.pairwise_cons.2 ⟨hl, h.before⟩, ?_⟩
  intro q hq
  rcases List.mem_cons.1 hq with rfl | hq
  · exact hself
  · exact h.self q hq

theorem Ordered.map {f : α → α} (h : Ordered key parent l) (hkey : ∀ p, key (f p) = key p)
    (hparent : ∀ p, parent (f p) = parent p) : Ordered key parent (l.map f) := by
  refine ⟨List.pairwise_map.2 (h.before.imp ?_), ?_⟩
  · intro p q hpq
    rw [hparent, hkey]
    exact hpq
  · intro p' hp'
    obtain ⟨p, hp, rfl⟩ := List.mem_map.1 hp'
    rw [hparent, hkey]
    exact h.self p hp

/-- **A record leaves**, and its children go to one that stands behind it. -/
theorem Ordered.remove [DecidableEq κ] {x y : α} {f : α → α}
    (h : Ordered key parent (l ++ x :: l')) (hnodup : ((l ++ x :: l').map key).Nodup) (hy : y ∈ l')
    (hkey : ∀ p, key (f p) = key p)
    (hparent : ∀ p, parent (f p) = if parent p = key x then key y else parent p) :
    Ordered key parent ((l ++ l').map f) := by
  obtain ⟨hl, hxl', hcross⟩ := List.pairwise_append.1 h.before
  obtain ⟨hx, hl'⟩ := List.pairwise_cons.1 hxl'
  have hne : ∀ p ∈ l, key y ≠ key p := by
    intro p hp heq
    rw [List.map_append] at hnodup
    have hmem : key y ∈ (x :: l').map key := List.mem_map_of_mem (List.mem_cons_of_mem x hy)
    exact List.disjoint_of_nodup_append hnodup (List.mem_map_of_mem hp) (heq ▸ hmem)
  -- the children of `x` stand before it
  have hlater : ∀ q ∈ l', parent (f q) = parent q := fun q hq => (hparent q).trans (if_neg (hx q hq))
  have hsooner : ∀ p ∈ l, ∀ q, parent q ≠ key p → parent (f q) ≠ key p := by
    intro p hp q hq
    rw [hparent]
    split_ifs
    · exact hne p hp
    · exact hq
  refine ⟨List.pairwise_map.2 (List.pairwise_append.2 ⟨?_, ?_, ?_⟩), ?_⟩
  · refine hl.imp_of_mem ?_
    intro p q hp hq hpq
    rw [hkey]
    exact hsooner p hp q hpq
  · refine hl'.imp_of_mem ?_
    intro p q _ hq hpq
    rw [hkey, hlater q hq]
    exact hpq
  · intro p hp q hq
    rw [hkey]
    exact hsooner p hp q (hcross p hp q (List.mem_cons_of_mem x hq))
  · intro p' hp'
    obtain ⟨p, hp, rfl⟩ := List.mem_map.1 hp'
    rw [hkey]
    rcases List.mem_append.1 hp with hp | hp
    · exact hsooner p hp p (h.self p (List.mem_append_left _ hp))
    · rw [hlater p hp]
      exact h.self p (List.mem_append_right _ (List.mem_cons_of_mem x hp))

section Opened

variable [DecidableEq κ]

theorem opened_cons_of_mem (h : k ∈ opened key parent deep top l) :
    k ∈ opened key parent deep top (p :: l) := by
  unfold opened
  split_ifs
  · exact List.mem_cons_of_mem _ h
  · exact h

theorem mem_opened_cons (h : k ∈ opened key parent deep top (p :: l)) :
    k ∈ opened key parent deep top l ∨
      (k = key p ∧ parent p ∈ opened key parent deep top l ∧ deep p = true) := by
  unfold opened at h
  split_ifs at h with hp
  · rcases List.mem_cons.1 h with rfl | h
    · exact .inr ⟨rfl, hp⟩
    · exact .inl h
  · exact .inl h

/-- A record that is deep is opened with its parent. -/
theorem opened_below (hl : Ordered key parent l) (hp : p ∈ l)
    (hparent : parent p ∈ opened key parent deep top l) (hdeep : deep p = true) :
    key p ∈ opened key parent deep top l := by
  induction l with
  | nil => exact absurd hp List.not_mem_nil
  | cons q l ih =>
    -- nothing from `q` on has `q` for its parent
    have hold : parent p ∈ opened key parent deep top l := by
      rcases mem_opened_cons hparent with hold | ⟨hq, -⟩
      · exact hold
      · rcases List.mem_cons.1 hp with rfl | hp
        · exact absurd hq (hl.self p (List.mem_cons_self ..))
        · exact absurd hq (List.rel_of_pairwise_cons hl.before hp)
    rcases List.mem_cons.1 hp with rfl | hp
    · unfold opened
      rw [if_pos ⟨hold, hdeep⟩]
      exact List.mem_cons_self ..
    · exact opened_cons_of_mem (ih hl.tail hp hold)

/-- **One pass finds the open keys.** -/
theorem mem_opened_iff (hl : Ordered key parent l) :
    k ∈ opened key parent deep top l ↔ Open key parent deep l top k := by
  refine ⟨?_, ?_⟩
  · intro h
    clear hl
    induction l generalizing k with
    | nil =>
      rw [List.mem_singleton.1 h]
      exact .top
    | cons p l ih =>
      have hmono : ∀ {k}, Open key parent deep l top k → Open key parent deep (p :: l) top k :=
        fun h => h.mono fun _ hq => List.mem_cons_of_mem _ hq
      rcases mem_opened_cons h with h | ⟨rfl, hparent, hdeep⟩
      · exact hmono (ih h)
      · exact .child (List.mem_cons_self ..) (hmono (ih hparent)) hdeep
  · intro h
    induction h with
    | top =>
      clear hl
      induction l with
      | nil => exact List.mem_singleton_self _
      | cons p l ih => exact opened_cons_of_mem ih
    | child hp _ hdeep ih => exact opened_below hl hp ih hdeep

end Opened

end Walk
