import Aesd.ListSort.Init
import Mathlib.Data.List.ReduceOption

/-!
# Loading the module with fewer names (`HW3/Related Files/list_sort.c`)

`animals` is an array of `no_of_elements` pointers. `module_param_array` fills the first of
them with the names given and stores their number in `zero`, which nothing reads: the sort and
the loops run over the whole array, and the entries not given are `NULL`.

* `scanLoop_isSome`: the loop hands every entry to `strcmp`.
* `listInitEntries_map`: without `NULL` entries this is `listInit`.
* `supplied_loaded_iff`: the module loads as it should exactly if all names are given.
-/

namespace Aesd.ListSort

open CString RunLength

/-- `sizeof(animals)/sizeof(animals[0])`. -/
def no_of_elements : ℕ := 10

/-- The array once `module_param_array` has stored the names. -/
def supplied (names : List CStr) : List (Option CStr) :=
  names.map some ++ List.replicate (no_of_elements - names.length) none

/-- The kernel functions on an array that may have `NULL` entries. A function that passes `NULL`
to `strcmp` does not return: `none`. -/
structure EntryKernel extends Kernel where
  sortEntries : List (Option CStr) → Option (List (Option CStr))
  sortEntries_names (names : List CStr) :
    sortEntries (names.map some) = some ((sort names).map some)
  sortEntries_perm {animals sorted : List (Option CStr)} :
    sortEntries animals = some sorted → sorted.Perm animals

section

variable (K : EntryKernel)

/-- The `for` loop of `list_init`, from index `i` on. -/
def scanLoop (animals : List (Option CStr)) (i : ℕ) (s : State) : Option State :=
  if h : i < animals.length then
    if h' : i < animals.length - 1 then
      match animals[i], animals[i + 1] with
      | some animal, some next =>
        if strcmp animal.bytes next.bytes = 0 then
          scanLoop animals (i + 1) { s with an_ct := s.an_ct + 1, previous_animal := some animal }
        else
          let s := newNode K.toKernel .animal_list animal s.an_ct s
          scanLoop animals (i + 1) { s with an_ct := 1, no_of_nodes := s.no_of_nodes + 1 }
      | _, _ => none
    else scanLoop animals (i + 1) s
  else some s
termination_by animals.length - i

/-- `list_init`. The last entry is not `NULL` behind the loop, which has passed it to `strcmp`. -/
def listInitEntries (fuel : ℕ) (animals : List (Option CStr)) (animal_type_filter : CStr)
    (animal_count_filter : ℤ) (s : State) : Option (Bool × State) := do
  let sorted ← K.sortEntries animals
  let s ← scanLoop K sorted 0 (initHeads K.toKernel s)
  let last ← sorted[sorted.length - 1]?.join
  let s := newNode K.toKernel .animal_list last s.an_ct s
  let s := { s with no_of_nodes := s.no_of_nodes + 1 }
  return match Ring.forEach State.next .animal_list
      (filterBody K.toKernel animal_type_filter animal_count_filter) fuel s with
    | (true, s) => Ring.forEach State.next .animal_filtered_list (fun _ s => s) fuel s
    | (false, s) => (false, s)

end

variable {K : EntryKernel} {animals : List (Option CStr)} {names : List CStr} {i : ℕ} {s s' : State}

/-- **The loop hands the entries to `strcmp`**, each with the next one. -/
theorem scanLoop_isSome (h : scanLoop K animals i s = some s') :
    ∀ j, i ≤ j → (hj : j + 1 < animals.length) →
      animals[j].isSome ∧ (animals[j + 1]).isSome := by
  fun_induction scanLoop K animals i s with
  | case1 i s hlt hlast animal next hanimal hnext heq ih =>
    intro j hij hj
    rcases Nat.eq_or_lt_of_le hij with rfl | hlt
    · rw [hanimal, hnext]
      exact ⟨rfl, rfl⟩
    · exact ih h j hlt hj
  | case2 i s hlt hlast animal next hanimal hnext hne s₁ ih =>
    intro j hij hj
    rcases Nat.eq_or_lt_of_le hij with rfl | hlt
    · rw [hanimal, hnext]
      exact ⟨rfl, rfl⟩
    · exact ih h j hlt hj
  | case3 i s hlt hlast hnull => exact absurd h (Option.some_ne_none s').symm
  | case4 i s hlt hlast ih =>
    intro j hij hj
    omega
  | case5 i s hlt =>
    intro j hij hj
    omega

/-- **Without `NULL` entries** the loop is the one that counts names. -/
theorem scanLoop_map (names : List CStr) (i : ℕ) (s : State) :
    scanLoop K (names.map some) i s = some (countLoop K.toKernel names i s) := by
  have hlen : (names.map some).length = names.length := List.length_map some
  fun_induction countLoop K.toKernel names i s with
  | case1 i s hlt hlast heq ih =>
    rw [scanLoop, dif_pos (hlen ▸ hlt), dif_pos (hlen ▸ hlast)]
    simp only [List.getElem_map, if_pos heq]
    exact ih
  | case2 i s hlt hlast hne s₁ =>
    rename_i ih
    rw [scanLoop, dif_pos (hlen ▸ hlt), dif_pos (hlen ▸ hlast)]
    simp only [List.getElem_map, if_neg hne]
    exact ih
  | case3 i s hlt hlast ih =>
    rw [scanLoop, dif_pos (hlen ▸ hlt), dif_neg (hlen ▸ hlast)]
    exact ih
  | case4 i s hlt =>
    rw [scanLoop, dif_neg (hlen ▸ hlt)]

/-- **Without `NULL` entries** `list_init` is the one on names. -/
theorem listInitEntries_map (hne : 0 < names.length) (fuel : ℕ) (f : CStr) (kf : ℤ) (s : State) :
    listInitEntries K fuel (names.map some) f kf s =
      some (listInit K.toKernel fuel names hne f kf s) := by
  have hlt : (K.sort names).length - 1 < (K.sort names).length := by
    rw [(K.sort_perm names).length_eq]
    omega
  have hlast : ((K.sort names).map some)[((K.sort names).map some).length - 1]?.join =
      some (K.sort names)[(K.sort names).length - 1] := by
    rw [List.length_map, List.getElem?_map, List.getElem?_eq_getElem hlt]
    rfl
  unfold listInitEntries listInit
  simp only [K.sortEntries_names, scanLoop_map, hlast, Option.bind_eq_bind, Option.bind_some]
  rfl

/-- A `NULL` entry is handed to `strcmp`, if the sort comes to its end. -/
theorem listInitEntries_isSome {fuel : ℕ} {f : CStr} {kf : ℤ} {r : Bool × State}
    (hlen : 1 < animals.length) (h : listInitEntries K fuel animals f kf s = some r) :
    ∀ a ∈ animals, a.isSome := by
  unfold listInitEntries at h
  obtain ⟨sorted, hsort, h⟩ := Option.bind_eq_some_iff.1 h
  obtain ⟨s₁, hscan, -⟩ := Option.bind_eq_some_iff.1 h
  have hperm := K.sortEntries_perm hsort
  have hsome := scanLoop_isSome hscan
  rw [← hperm.length_eq] at hlen
  intro a ha
  obtain ⟨j, hj, rfl⟩ := List.mem_iff_getElem.1 (hperm.mem_iff.2 ha)
  -- every entry is compared with a neighbour
  rcases Nat.lt_or_ge (j + 1) sorted.length with hnext | hend
  · exact (hsome j (Nat.zero_le j) hnext).1
  · obtain ⟨n, rfl⟩ := Nat.exists_eq_add_of_le' (show 1 ≤ j by omega)
    exact (hsome n (Nat.zero_le n) hj).2

theorem length_supplied (hk : names.length ≤ no_of_elements) :
    (supplied names).length = no_of_elements := by
  rw [supplied, List.length_append, List.length_map, List.length_replicate]
  omega

/-- **When the module loads as it should**, with any number of names that fit the array: it
passes no `NULL` to `strcmp` and counts the names exactly if all of the entries are given. -/
theorem supplied_loaded_iff (K : EntryKernel) (hk : names.length ≤ no_of_elements) (f : CStr) (kf : ℤ)
    (links : Ring.Links Loc) (data : Loc → Animal) :
    (∃ fuel s L F, listInitEntries K fuel (supplied names) f kf (start links data) =
      some (true, s) ∧ Loaded names f kf s L F) ↔ names.length = no_of_elements := by
  constructor
  · rintro ⟨fuel, s, L, F, hinit, -⟩
    have hlen : 1 < (supplied names).length := by
      rw [length_supplied hk]
      decide
    have hsome := listInitEntries_isSome hlen hinit
    by_contra hne
    have hnone : none ∈ supplied names := by
      refine List.mem_append_right _ (List.mem_replicate.2 ⟨?_, rfl⟩)
      omega
    exact Bool.false_ne_true (hsome none hnone)
  · intro hall
    have hfull : supplied names = names.map some := by
      rw [supplied, hall, Nat.sub_self, List.replicate_zero, List.append_nil]
    have hne : 0 < names.length := by
      rw [hall]
      decide
    obtain ⟨s, m, E, hs, hfil, hruns⟩ :=
      listInit_filtered K.toKernel hne f kf links data (Nat.lt_succ_self names.length)
    refine ⟨names.length + 1, s, _, _, ?_, Runs.loaded (K.sort_perm names) hruns hfil⟩
    rw [hfull, listInitEntries_map hne, hs]

/-! ### Concrete kernel functions -/

/-- Insertion sort, which compares every entry. -/
def entryKernel : EntryKernel where
  toKernel := kernel
  sortEntries animals :=
    if none ∈ animals then none else some ((kernel.sort animals.reduceOption).map some)
  sortEntries_names names := by
    have hnone : none ∉ names.map some := by simp
    have hnames : (names.map some).reduceOption = names := by
      simp [List.reduceOption]
    rw [if_neg hnone, hnames]
  sortEntries_perm {animals sorted} h := by
    split_ifs at h with hnone
    obtain rfl := Option.some.inj h
    have hentries : animals.reduceOption.map some = animals := by
      clear h
      induction animals with
      | nil => rfl
      | cons a animals ih =>
        rw [List.mem_cons, not_or] at hnone
        cases a with
        | none => exact absurd rfl hnone.1
        | some a => rw [List.reduceOption_cons_of_some, List.map_cons, ih hnone.2]
    have hperm := (kernel.sort_perm animals.reduceOption).map some
    rwa [hentries] at hperm

/-- One name of ten. -/
theorem supplied_loaded_iff_one :
    (∃ fuel s L F, listInitEntries entryKernel fuel (supplied [noFilter]) noFilter 0 unused =
      some (true, s) ∧ Loaded [noFilter] noFilter 0 s L F) ↔
      [noFilter].length = no_of_elements :=
  supplied_loaded_iff entryKernel (by decide) noFilter 0 _ _

/-- One name: the other nine entries are `NULL`. -/
theorem one_name_oopses :
    ¬ ∀ names : List CStr, names.length ≤ no_of_elements →
      ∃ fuel s L F, listInitEntries entryKernel fuel (supplied names) noFilter 0 unused =
        some (true, s) ∧ Loaded names noFilter 0 s L F := by
  intro h
  obtain ⟨fuel, s, L, F, hinit, -⟩ := h [⟨ascii "cat", by decide⟩] (by decide)
  have hsome := listInitEntries_isSome (by decide) hinit
  exact Bool.false_ne_true (hsome none (by decide))

end Aesd.ListSort
