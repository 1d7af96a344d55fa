import Mathlib.Tactic

/-!
# Real, effective and saved ids

A process holds its real, effective and saved id; files have an id of their own.
`Reach x y` says that the ids `x` can turn into `y` without an id from outside.

* `Reach.trans`: it composes, so it is an invariant of runs.
* `settled_iff`: ids that can turn into nothing else are all the same id.
-/

namespace SavedIds

/-- The ids of a process. -/
structure Ids (κ : Type*) where
  id : κ
  eid : κ
  sid : κ
  fsid : κ
deriving DecidableEq

variable {κ : Type*}

/-- All four the same. -/
def Ids.all (k : κ) : Ids κ := ⟨k, k, k, k⟩

/-- `k` is the real, the effective or the saved id. -/
def Ids.Holds (x : Ids κ) (k : κ) : Prop := k = x.id ∨ k = x.eid ∨ k = x.sid

/-- The ids `y` come from the ids `x`: nothing has changed, or each id was held and the id
for files is held. -/
def Reach (x y : Ids κ) : Prop := y = x ∨ (∀ k, y.Holds k → x.Holds k) ∧ y.Holds y.fsid

/-- Every id that is held is the id for files. -/
def Ids.Settled (x : Ids κ) : Prop := ∀ k, x.Holds k → k = x.fsid

variable {x y z : Ids κ}

theorem Ids.holds_id (x : Ids κ) : x.Holds x.id := .inl rfl

theorem Ids.holds_eid (x : Ids κ) : x.Holds x.eid := .inr (.inl rfl)

theorem Ids.holds_sid (x : Ids κ) : x.Holds x.sid := .inr (.inr rfl)

theorem Ids.Holds.of_ids {k : κ} (hk : y.Holds k) (h1 : x.Holds y.id) (h2 : x.Holds y.eid)
    (h3 : x.Holds y.sid) : x.Holds k := by
  rcases hk with rfl | rfl | rfl
  · exact h1
  · exact h2
  · exact h3

theorem Reach.refl (x : Ids κ) : Reach x x := .inl rfl

/-- Ids that were held, with one of them for files. -/
theorem Reach.of_ids (h1 : x.Holds y.id) (h2 : x.Holds y.eid) (h3 : x.Holds y.sid)
    (hfs : y.Holds y.fsid) : Reach x y :=
  .inr ⟨fun _ hk => hk.of_ids h1 h2 h3, hfs⟩

/-- **Ids come from ids that come from ids.** -/
theorem Reach.trans (h1 : Reach x y) (h2 : Reach y z) : Reach x z := by
  rcases h2 with rfl | ⟨hyz, hfs⟩
  · exact h1
  · rcases h1 with rfl | ⟨hxy, -⟩
    · exact .inr ⟨hyz, hfs⟩
    · exact .inr ⟨fun k hk => hxy k (hyz k hk), hfs⟩

/-- Nothing is held that was not held before. -/
theorem Reach.holds (h : Reach x y) {k : κ} (hk : y.Holds k) : x.Holds k := by
  rcases h with rfl | ⟨hheld, -⟩
  · exact hk
  · exact hheld k hk

theorem Ids.settled_all (k : κ) : (Ids.all k).Settled := by
  intro k' hk
  rcases hk with h | h | h
  · exact h
  · exact h
  · exact h

theorem Ids.Settled.eq_all (h : x.Settled) : x = .all x.fsid := by
  have h1 := h x.id x.holds_id
  have h2 := h x.eid x.holds_eid
  have h3 := h x.sid x.holds_sid
  obtain ⟨id, eid, sid, fsid⟩ := x
  dsimp only at h1 h2 h3
  rw [h1, h2, h3]
  rfl

/-- **Settled for good**: exactly the ids that are all the same turn into nothing else. -/
theorem settled_iff : x.Settled ↔ ∀ y, Reach x y → y = x := by
  refine ⟨?_, ?_⟩
  · intro h y hy
    rcases hy with rfl | ⟨hheld, hfs⟩
    · rfl
    · have hy : y.Settled := by
        intro k hk
        rw [h k (hheld k hk), h y.fsid (hheld _ hfs)]
      have hfs' : y.fsid = x.fsid := h _ (hheld _ hfs)
      rw [hy.eq_all, h.eq_all, hfs']
  · intro h
    have hall : Ids.all x.id = x :=
      h _ (.of_ids x.holds_id x.holds_id x.holds_id (.inl rfl))
    rw [← hall]
    exact Ids.settled_all x.id

end SavedIds
