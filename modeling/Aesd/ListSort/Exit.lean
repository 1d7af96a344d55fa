import Aesd.ListSort.Init

/-!
# What `list_exit` does to the lists

`list_exit` walks each list and frees the node it stands on; the loop then reads that
node's `next` to go on. So it reads freed memory at the first node of `animal_list`, which
is never empty.

* `list_exit_reads_freed`: it does so after every load, whatever the freed memory holds.
* `list_exit_frees_once`: as long as the freed memory keeps its links, each node is freed
  once.
-/

namespace Aesd.ListSort

open CString RunLength

/-- What `list_exit` is for: each node `list_init` allocated is freed once, and none is
read after that. -/
structure Clean (s : State) (u : Unload) : Prop where
  freed_once : ∀ a < s.fresh, u.freed.count (.node a) = 1
  no_read : u.readFreed = []

variable {K : Kernel} {s : State} {m k : ℕ} {E F : List Animal} {stale : Loc → Loc}

/-! ### Reads of freed nodes -/

theorem Unload.mem_next {u : Unload} {x : Loc} (pos : Loc) (h : x ∈ u.readFreed) :
    x ∈ (u.next pos).2.readFreed := by
  show x ∈ (if pos ∈ u.freed then { u with readFreed := u.readFreed ++ [pos] } else u).readFreed
  split
  · exact List.mem_append_left _ h
  · exact h

theorem readFreed_from {head pos x : Loc} (fuel : ℕ) {u : Unload} (h : x ∈ u.readFreed) :
    x ∈ (Ring.forEachFrom Unload.next head (kfree stale) fuel pos u).2.readFreed := by
  induction fuel generalizing pos u with
  | zero => exact h
  | succ fuel ih =>
    rw [Ring.forEachFrom]
    by_cases hp : pos = head
    · rw [if_pos hp]
      exact h
    · rw [if_neg hp]
      exact ih (Unload.mem_next pos h)

/-- A walk that stands on a node reads the node's link after it has freed it. -/
theorem readFreed_first {head pos : Loc} (fuel : ℕ) (u : Unload) (hne : pos ≠ head) :
    pos ∈ (Ring.forEachFrom Unload.next head (kfree stale) (fuel + 1) pos u).2.readFreed := by
  rw [Ring.forEachFrom, if_neg hne]
  -- it is enough that this first advance is noted
  refine readFreed_from fuel ?_
  have hmem : pos ∈ (kfree stale pos u).freed := List.mem_append_right _ (List.mem_singleton_self _)
  show pos ∈ (if pos ∈ (kfree stale pos u).freed then
    { kfree stale pos u with readFreed := (kfree stale pos u).readFreed ++ [pos] }
    else kfree stale pos u).readFreed
  rw [if_pos hmem]
  exact List.mem_append_right _ (List.mem_singleton_self _)

theorem listExit_zero (stale : Loc → Loc) (s : State) : (listExit stale 0 s).2.freed = [] := rfl

theorem listExit_readFreed (h : Lists s (m + 1) k E F) (stale : Loc → Loc) (fuel : ℕ) :
    Loc.node 0 ∈ (listExit stale (fuel + 1) s).2.readFreed := by
  have hfirst : s.links.next .animal_list = .node 0 := h.animal.fwd.1
  have hwalk : Loc.node 0 ∈ (Ring.forEach Unload.next .animal_list (kfree stale) (fuel + 1)
      ⟨s, [], []⟩).2.readFreed := by
    show Loc.node 0 ∈ (Ring.forEachFrom Unload.next .animal_list (kfree stale) (fuel + 1)
      (s.links.next .animal_list) ⟨s, [], []⟩).2.readFreed
    rw [hfirst]
    exact readFreed_first fuel _ Loc.noConfusion
  -- the second walk does not undo it
  unfold listExit
  split
  · rename_i u hu
    rw [hu] at hwalk
    exact readFreed_from _ (Unload.mem_next _ hwalk)
  · rename_i u hu
    rw [hu] at hwalk
    exact hwalk

theorem not_clean (h : Lists s (m + 1) k E F) (stale : Loc → Loc) (fuel : ℕ) :
    ¬ Clean s (listExit stale fuel s).2 := by
  intro hclean
  cases fuel with
  | zero =>
    have hfresh : 0 < s.fresh := by
      rw [h.fresh]
      omega
    have h0 := hclean.freed_once 0 hfresh
    rw [listExit_zero] at h0
    exact absurd h0 (by decide)
  | succ fuel =>
    have hread := listExit_readFreed h stale fuel
    rw [hclean.no_read] at hread
    exact List.not_mem_nil hread

/-- The array is not empty, so neither is `animal_list`. -/
theorem listInit_lists (K : Kernel) {animals : List CStr} (hne : 0 < animals.length) (f : CStr)
    (kf : ℤ) (links : Ring.Links Loc) (data : Loc → Animal) {fuel : ℕ}
    (hfuel : animals.length < fuel) :
    ∃ m k E F, Lists (listInit K fuel animals hne f kf (start links data)).2 (m + 1) k E F := by
  obtain ⟨s, m, E, hs, hfil, hruns⟩ := listInit_filtered K hne f kf links data hfuel
  rw [hs]
  have hm : m ≠ 0 := by
    rintro rfl
    have hE : E = [] := List.eq_nil_of_length_eq_zero hfil.lists.length_animal
    have hlen := hruns.length_sum
    rw [hE, (K.sort_perm animals).length_eq] at hlen
    exact hne.ne hlen
  obtain ⟨m, rfl⟩ := Nat.exists_eq_succ_of_ne_zero hm
  exact ⟨m, _, E, _, hfil.lists⟩

/-- **`list_exit` is unclean after every load**, whatever the freed memory holds. -/
theorem list_exit_reads_freed (K : Kernel) {animals : List CStr} (hne : 0 < animals.length)
    (f : CStr) (kf : ℤ) (links : Ring.Links Loc) (data : Loc → Animal) {fuel : ℕ}
    (hfuel : animals.length < fuel) (stale : Loc → Loc) (fuel' : ℕ) :
    let s := (listInit K fuel animals hne f kf (start links data)).2
    ¬ Clean s (listExit stale fuel' s).2 := by
  obtain ⟨m, k, E, F, h⟩ := listInit_lists K hne f kf links data hfuel
  exact not_clean h stale fuel'

theorem list_exit_reads_freed_zoo :
    let s := (listInit kernel 11 zoo (by decide) noFilter 1 unused).2
    ¬ Clean s (listExit s.links.next 11 s).2 :=
  list_exit_reads_freed kernel (by decide) noFilter 1 _ _ (by decide) _ 11

/-- Loading ten animals and unloading, with freed memory that keeps its links. -/
theorem list_exit_unclean :
    ¬ ∀ (K : Kernel) (animals : List CStr) (hne : 0 < animals.length) (f : CStr) (kf : ℤ)
      (links : Ring.Links Loc) (data : Loc → Animal) (fuel : ℕ), animals.length < fuel →
      let s := (listInit K fuel animals hne f kf (start links data)).2
      Clean s (listExit s.links.next fuel s).2 := by
  intro h
  obtain ⟨m, k, E, F, hl⟩ := listInit_lists kernel (show 0 < zoo.length by decide) noFilter 1
    ⟨id, id⟩ (fun _ => ⟨noFilter, 0⟩) (show zoo.length < 11 by decide)
  exact not_clean hl _ 11 (h kernel zoo _ noFilter 1 _ _ 11 (by decide))

/-! ### Freed memory that keeps its links -/

theorem Unload.next_fst (pos : Loc) (u : Unload) : (u.next pos).1 = u.mem.links.next pos := rfl

theorem Unload.next_keeps (pos : Loc) (u : Unload) :
    (u.next pos).2.mem = u.mem ∧ (u.next pos).2.freed = u.freed := by
  unfold Unload.next
  dsimp only
  split <;> exact ⟨rfl, rfl⟩

theorem kfree_links {u : Unload} (hu : u.mem.links = s.links) (pos : Loc) :
    (kfree s.links.next pos u).mem.links = s.links := by
  show ({ u.mem.links with next := Function.update u.mem.links.next pos (s.links.next pos) } :
    Ring.Links Loc) = s.links
  rw [hu, Function.update_eq_self]

/-- One walk over a ring. -/
theorem walk_frees {head : Loc} {L : List Loc} (h : Ring.IsRing s.links head L) {u : Unload}
    (hu : u.mem.links = s.links) {fuel : ℕ} (hf : L.length < fuel) :
    ∃ u', Ring.forEach Unload.next head (kfree s.links.next) fuel u = (true, u') ∧
      u'.mem.links = s.links ∧ u'.freed = u.freed ++ L := by
  refine Ring.forEach_ring Unload.next (kfree s.links.next)
    (fun done u' => u'.mem.links = s.links ∧ u'.freed = u.freed ++ done) h.nodup
    ⟨?_, ?_⟩ (fun done x rest u' hL hI => ⟨?_, ?_⟩) hf
  · rw [Unload.next_fst, hu]
    exact h.next_head
  · obtain ⟨h1, h2⟩ := Unload.next_keeps head u
    rw [h1, h2, List.append_nil]
    exact ⟨hu, rfl⟩
  · rw [Unload.next_fst, kfree_links hI.1]
    exact h.next_of_split hL
  · obtain ⟨h1, h2⟩ := Unload.next_keeps x (kfree s.links.next x u')
    rw [h1, h2]
    refine ⟨kfree_links hI.1 x, ?_⟩
    rw [← List.append_assoc, ← hI.2]
    rfl

/-- **Each node is freed once** if the freed memory keeps its links: the reads of freed
nodes are all that is wrong. -/
theorem list_exit_frees_once (h : Lists s m k E F) {fuel : ℕ} (hm : m < fuel) (hk : k < fuel) :
    ∃ u, listExit s.links.next fuel s = (true, u) ∧
      ∀ a < s.fresh, u.freed.count (.node a) = 1 := by
  rw [← length_nodes 0 m] at hm
  rw [← length_nodes m k] at hk
  obtain ⟨u, hu, hlinks, hfreed⟩ := walk_frees h.animal (u := ⟨s, [], []⟩) rfl hm
  obtain ⟨u', hu', -, hfreed'⟩ := walk_frees h.filtered hlinks hk
  refine ⟨u', ?_, ?_⟩
  · unfold listExit
    rw [hu]
    exact hu'
  · intro a ha
    have hall : u'.freed = nodes 0 (m + k) := by
      rw [hfreed', hfreed, List.nil_append, nodes, nodes, nodes, ← List.map_append,
        ← List.range'_append_1, zero_add]
    rw [hall]
    refine List.count_eq_one_of_mem ?_ (mem_nodes.2 ⟨a, by omega, by rw [← h.fresh]; omega, rfl⟩)
    exact List.Nodup.map (fun _ _ => Loc.node.inj) List.nodup_range'

end Aesd.ListSort
