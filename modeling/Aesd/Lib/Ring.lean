import Mathlib.Tactic
import Mathlib.Data.List.Nodup

/-!
# Circular doubly linked lists

The links of intrusive lists over any type of locations. `IsRing l head L`: from `head`,
`next` leads through the locations `L` in order and back to `head`, and `prev` through them
backwards. `Api` states what the kernel's `INIT_LIST_HEAD` and `list_add_tail` are
documented to do to rings; `standard` is the usual implementation.

`forEach` is the loop `for (pos = head->next; pos != head; pos = pos->next)`: the link out
of `pos` is read after the body has run. `forEach_ring` is its rule.
-/

namespace Ring

variable {Loc : Type*}

structure Links (Loc : Type*) where
  next : Loc → Loc
  prev : Loc → Loc

/-- `f` leads from `a` through the list to `b`. -/
def Seg (f : Loc → Loc) : Loc → List Loc → Loc → Prop
  | a, [], b => f a = b
  | a, x :: L, b => f a = x ∧ Seg f x L b

structure IsRing (l : Links Loc) (head : Loc) (L : List Loc) : Prop where
  fwd : Seg l.next head L head
  bwd : Seg l.prev head L.reverse head
  nodup : (head :: L).Nodup

/-! ### Segments -/

theorem seg_append {f : Loc → Loc} {a b x : Loc} {L M : List Loc} :
    Seg f a (L ++ x :: M) b ↔ Seg f a L x ∧ Seg f x M b := by
  induction L generalizing a with
  | nil => exact Iff.rfl
  | cons y L ih => rw [List.cons_append, Seg, Seg, ih, and_assoc]

theorem Seg.congr {f f' : Loc → Loc} {a b : Loc} {L : List Loc} (h : Seg f a L b)
    (he : ∀ x ∈ a :: L, f' x = f x) : Seg f' a L b := by
  induction L generalizing a with
  | nil => exact (he a List.mem_cons_self).trans h
  | cons x L ih =>
    exact ⟨(he a List.mem_cons_self).trans h.1, ih h.2 fun y hy => he y (.tail _ hy)⟩

theorem IsRing.congr {l l' : Links Loc} {head : Loc} {L : List Loc} (h : IsRing l head L)
    (hn : ∀ x ∈ head :: L, l'.next x = l.next x) (hp : ∀ x ∈ head :: L, l'.prev x = l.prev x) :
    IsRing l' head L := by
  refine ⟨h.fwd.congr hn, h.bwd.congr fun x hx => hp x ?_, h.nodup⟩
  rwa [List.mem_cons, List.mem_reverse, ← List.mem_cons] at hx

/-- The link out of the last location of a ring goes to the head. -/
theorem IsRing.next_last {l : Links Loc} {head x : Loc} {L : List Loc}
    (h : IsRing l head (L ++ [x])) : l.next x = head :=
  (seg_append.1 h.fwd).2

/-- The link out of a location in a ring goes to the location behind it. -/
theorem IsRing.next_mid {l : Links Loc} {head x y : Loc} {L M : List Loc}
    (h : IsRing l head (L ++ x :: y :: M)) : l.next x = y :=
  (seg_append.1 h.fwd).2.1

/-- The last location of the ring: the head's when the list is empty. -/
theorem IsRing.prev_head {l : Links Loc} {head : Loc} {L : List Loc} (h : IsRing l head L) :
    L = [] ∧ l.prev head = head ∨ ∃ M, L = M ++ [l.prev head] := by
  rcases List.eq_nil_or_concat L with rfl | ⟨M, x, rfl⟩
  · exact .inl ⟨rfl, h.bwd⟩
  · have hb := h.bwd
    rw [List.concat_eq_append, List.reverse_append] at hb
    refine .inr ⟨M, ?_⟩
    rw [List.concat_eq_append, hb.1]

/-- The link out of each location of a ring, as `forEach_ring` asks for it. -/
theorem IsRing.next_head {l : Links Loc} {head : Loc} {L : List Loc}
    (h : IsRing l head L) :
    l.next head = (L ++ [head]).head (by simp) := by
  cases L with
  | nil => exact h.fwd
  | cons x L => exact h.fwd.1

theorem IsRing.next_of_split {l : Links Loc} {head x : Loc}
    {L done rest : List Loc}
    (h : IsRing l head L) (hL : L = done ++ x :: rest) :
    l.next x = (rest ++ [head]).head (by simp) := by
  subst hL
  cases rest with
  | nil => exact h.next_last
  | cons y rest => exact h.next_mid

/-! ### The kernel's operations -/

/-- `INIT_LIST_HEAD` and `list_add_tail`, with what they are documented to do. -/
structure Api (Loc : Type*) where
  initListHead : Loc → Links Loc → Links Loc
  listAddTail : Loc → Loc → Links Loc → Links Loc
  init_ring (l : Links Loc) (head : Loc) : IsRing (initListHead head l) head []
  init_frame (l : Links Loc) {head x : Loc} (h : x ≠ head) :
    (initListHead head l).next x = l.next x ∧ (initListHead head l).prev x = l.prev x
  add_ring {l : Links Loc} {head new : Loc} {L : List Loc} (h : IsRing l head L)
    (hnew : new ∉ head :: L) : IsRing (listAddTail new head l) head (L ++ [new])
  add_frame {l : Links Loc} {head new x : Loc} {L : List Loc} (h : IsRing l head L)
    (hx : x ∉ head :: L) (hne : x ≠ new) :
    (listAddTail new head l).next x = l.next x ∧ (listAddTail new head l).prev x = l.prev x

namespace Api

variable (api : Api Loc) {l : Links Loc} {head head' new : Loc} {L L' : List Loc}

/-- Initialising a head leaves other rings alone. -/
theorem init_other (h : IsRing l head' L') (hd : head ∉ head' :: L') :
    IsRing (api.initListHead head l) head' L' :=
  h.congr (fun _ hx => (api.init_frame l (ne_of_mem_of_not_mem hx hd)).1)
    (fun _ hx => (api.init_frame l (ne_of_mem_of_not_mem hx hd)).2)

/-- Adding to one ring leaves a ring that shares no location with it alone. -/
theorem add_other (h : IsRing l head L) (h' : IsRing l head' L')
    (hd : ∀ x ∈ head' :: L', x ∉ head :: L) (hnew : new ∉ head' :: L') :
    IsRing (api.listAddTail new head l) head' L' :=
  h'.congr (fun x hx => (api.add_frame h (hd x hx) (ne_of_mem_of_not_mem hx hnew)).1)
    (fun x hx => (api.add_frame h (hd x hx) (ne_of_mem_of_not_mem hx hnew)).2)

end Api

section Standard

variable [DecidableEq Loc]

/-- `list->next = list; list->prev = list;` -/
def initListHead (head : Loc) (l : Links Loc) : Links Loc :=
  ⟨Function.update l.next head head, Function.update l.prev head head⟩

/-- Link `new` in between the last location, `head->prev`, and the head. -/
def listAddTail (new head : Loc) (l : Links Loc) : Links Loc :=
  let prev := l.prev head
  ⟨Function.update (Function.update l.next new head) prev new,
    Function.update (Function.update l.prev head new) new prev⟩

theorem initListHead_ring (l : Links Loc) (head : Loc) : IsRing (initListHead head l) head [] :=
  ⟨Function.update_self .., Function.update_self .., List.nodup_singleton _⟩

theorem next_listAddTail (new head : Loc) (l : Links Loc) : (listAddTail new head l).next =
    Function.update (Function.update l.next new head) (l.prev head) new := rfl

theorem prev_listAddTail (new head : Loc) (l : Links Loc) : (listAddTail new head l).prev =
    Function.update (Function.update l.prev head new) new (l.prev head) := rfl

theorem listAddTail_fwd {l : Links Loc} {head new : Loc} {L : List Loc} (h : IsRing l head L)
    (hnew : new ∉ head :: L) : Seg (listAddTail new head l).next head (L ++ [new]) head := by
  have hlast : l.prev head ∈ head :: L := by
    rcases h.prev_head with ⟨-, he⟩ | ⟨M, he⟩
    · rw [he]
      exact List.mem_cons_self
    · rw [he]
      simp
  rw [next_listAddTail]
  refine seg_append.2 ⟨?_, ?_⟩
  · -- up to the last location nothing has changed, and its link goes to `new`
    rcases h.prev_head with ⟨rfl, he⟩ | ⟨M, he⟩
    · rw [he]
      exact Function.update_self ..
    · generalize l.prev head = last at he hlast ⊢
      subst he
      obtain ⟨h1, -⟩ := seg_append.1 h.fwd
      refine seg_append.2 ⟨h1.congr ?_, Function.update_self ..⟩
      intro x hx
      have hne : x ≠ last := by
        rintro rfl
        have hnd := h.nodup
        rw [← List.cons_append] at hnd
        exact (List.nodup_append.1 hnd).2.2 _ hx _ (List.mem_singleton_self _) rfl
      have hne' : x ≠ new := by
        rintro rfl
        refine hnew ?_
        rw [← List.cons_append]
        exact List.mem_append_left _ hx
      rw [Function.update_of_ne hne, Function.update_of_ne hne']
  · show Function.update (Function.update l.next new head) (l.prev head) new new = head
    rw [Function.update_of_ne (ne_of_mem_of_not_mem hlast hnew).symm, Function.update_self]

theorem listAddTail_bwd {l : Links Loc} {head new : Loc} {L : List Loc} (h : IsRing l head L)
    (hnew : new ∉ head :: L) :
    Seg (listAddTail new head l).prev head (L ++ [new]).reverse head := by
  have hb := h.bwd
  have hh : head ≠ new := ne_of_mem_of_not_mem List.mem_cons_self hnew
  rw [List.reverse_append, List.reverse_singleton, prev_listAddTail]
  refine ⟨by rw [Function.update_of_ne hh, Function.update_self], ?_⟩
  -- `new` takes over the head's old link
  have hrest : ∀ x ∈ L.reverse, Function.update (Function.update l.prev head new) new
      (l.prev head) x = l.prev x := by
    intro x hx
    rw [List.mem_reverse] at hx
    rw [Function.update_of_ne (ne_of_mem_of_not_mem (List.mem_cons_of_mem _ hx) hnew),
      Function.update_of_ne (ne_of_mem_of_not_mem hx (List.nodup_cons.1 h.nodup).1)]
  cases hr : L.reverse with
  | nil =>
    rw [hr] at hb
    exact (Function.update_self ..).trans hb
  | cons x M =>
    rw [hr] at hb hrest
    exact ⟨(Function.update_self ..).trans hb.1, hb.2.congr hrest⟩

theorem listAddTail_ring {l : Links Loc} {head new : Loc} {L : List Loc} (h : IsRing l head L)
    (hnew : new ∉ head :: L) : IsRing (listAddTail new head l) head (L ++ [new]) := by
  refine ⟨listAddTail_fwd h hnew, listAddTail_bwd h hnew, ?_⟩
  rw [← List.cons_append]
  refine List.nodup_append.2 ⟨h.nodup, List.nodup_singleton _, ?_⟩
  intro x hx y hy he
  rw [List.mem_singleton] at hy
  exact hnew (hy ▸ he ▸ hx)

theorem listAddTail_frame {l : Links Loc} {head new x : Loc} {L : List Loc} (h : IsRing l head L)
    (hx : x ∉ head :: L) (hne : x ≠ new) :
    (listAddTail new head l).next x = l.next x ∧ (listAddTail new head l).prev x = l.prev x := by
  have hhead : x ≠ head := fun he => hx (he ▸ List.mem_cons_self)
  have hlast : x ≠ l.prev head := by
    rcases h.prev_head with ⟨-, he⟩ | ⟨M, he⟩
    · rw [he]
      exact hhead
    · rintro rfl
      exact hx (List.mem_cons_of_mem _ (by rw [he]; simp))
  rw [next_listAddTail, prev_listAddTail, Function.update_of_ne hlast, Function.update_of_ne hne,
    Function.update_of_ne hne, Function.update_of_ne hhead]
  exact ⟨rfl, rfl⟩

/-- The usual implementation does what is documented. -/
def standard : Api Loc where
  initListHead := initListHead
  listAddTail := listAddTail
  init_ring := initListHead_ring
  init_frame _ _ _ h := ⟨Function.update_of_ne h .., Function.update_of_ne h ..⟩
  add_ring := listAddTail_ring
  add_frame := listAddTail_frame

end Standard

/-! ### The loop over a ring -/

section ForEach

variable {σ : Type*} [DecidableEq Loc]

/-- The loop from `pos` on: whether it has come to its end within `fuel` rounds, and the
state then. `next` reads the link out of a location. -/
def forEachFrom (next : Loc → σ → Loc × σ) (head : Loc) (body : Loc → σ → σ) :
    ℕ → Loc → σ → Bool × σ
  | 0, _, s => (false, s)
  | fuel + 1, pos, s =>
    if pos = head then (true, s)
    else
      let (pos', s) := next pos (body pos s)
      forEachFrom next head body fuel pos' s

def forEach (next : Loc → σ → Loc × σ) (head : Loc) (body : Loc → σ → σ) (fuel : ℕ) (s : σ) :
    Bool × σ :=
  let (pos, s) := next head s
  forEachFrom next head body fuel pos s

variable (next : Loc → σ → Loc × σ) {head : Loc} (body : Loc → σ → σ)

/-- **Loop rule**: if the body followed by the read of the link takes the invariant from
one location of `L` to the next, the loop visits `L` in order and ends. -/
theorem forEach_ring (I : List Loc → σ → Prop) {L : List Loc} (hnd : (head :: L).Nodup) {s : σ}
    (h0 : (next head s).1 = (L ++ [head]).head (by simp) ∧ I [] (next head s).2)
    (hs : ∀ done x rest s, L = done ++ x :: rest → I done s →
      (next x (body x s)).1 = (rest ++ [head]).head (by simp) ∧
        I (done ++ [x]) (next x (body x s)).2)
    {fuel : ℕ} (hf : L.length < fuel) :
    ∃ s', forEach next head body fuel s = (true, s') ∧ I L s' := by
  have key : ∀ (rest done : List Loc) (fuel : ℕ) (s : σ), L = done ++ rest → rest.length < fuel →
      I done s → ∃ s', forEachFrom next head body fuel ((rest ++ [head]).head (by simp)) s =
        (true, s') ∧ I L s' := by
    intro rest
    induction rest with
    | nil =>
      intro done fuel s hL hf hI
      obtain ⟨fuel, rfl⟩ : ∃ m, fuel = m + 1 := ⟨fuel - 1, by rw [List.length_nil] at hf; omega⟩
      rw [List.append_nil] at hL
      exact ⟨s, if_pos rfl, hL ▸ hI⟩
    | cons x rest ih =>
      intro done fuel s hL hf hI
      obtain ⟨fuel, rfl⟩ : ∃ m, fuel = m + 1 := ⟨fuel - 1, by omega⟩
      have hx : x ≠ head := by
        rintro rfl
        exact (List.nodup_cons.1 hnd).1 (hL ▸ by simp)
      obtain ⟨h1, h2⟩ := hs done x rest s hL hI
      have hL' : L = done ++ [x] ++ rest := by
        rw [hL, List.append_assoc, List.singleton_append]
      rw [List.length_cons] at hf
      obtain ⟨s', hs', hI'⟩ := ih (done ++ [x]) fuel (next x (body x s)).2 hL' (by omega) h2
      refine ⟨s', ?_, hI'⟩
      have hhead : ((x :: rest) ++ [head]).head (by simp) = x := rfl
      rw [hhead, forEachFrom, if_neg hx, ← h1] at *
      exact hs'
  obtain ⟨s', hs', hI⟩ := key L [] fuel (next head s).2 rfl hf h0.2
  exact ⟨s', by rw [forEach, ← hs', ← h0.1], hI⟩

end ForEach

end Ring
