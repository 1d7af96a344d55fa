import Aesd.ListSort.Module
import Aesd.Lib.RunLength

/-!
# What `list_init` builds

The nodes are numbered in the order of their allocation: first the `m` nodes of
`animal_list`, then the `k` nodes of `animal_filtered_list` (`Lists`). The counting loop
keeps `RunLength.Runs` of the elements it has passed; the filtering loop has filtered the
nodes it has visited.

* `list_init_counts`: both lists hold what they should.
-/

namespace Aesd.ListSort

open CString RunLength

/-- The nodes `a, …, a + b - 1`. -/
def nodes (a b : ℕ) : List Loc := (List.range' a b).map .node

theorem nodes_succ (a b : ℕ) : nodes a (b + 1) = nodes a b ++ [.node (a + b)] := by
  rw [nodes, List.range'_1_concat, List.map_append]
  rfl

theorem mem_nodes {a b : ℕ} {x : Loc} : x ∈ nodes a b ↔ ∃ i, a ≤ i ∧ i < a + b ∧ x = .node i := by
  rw [nodes, List.mem_map]
  constructor
  · rintro ⟨i, hi, rfl⟩
    rw [List.mem_range'_1] at hi
    exact ⟨i, hi.1, hi.2, rfl⟩
  · rintro ⟨i, h1, h2, rfl⟩
    exact ⟨i, List.mem_range'_1.2 ⟨h1, h2⟩, rfl⟩

theorem node_notMem_nodes {a b i : ℕ} (h : a + b ≤ i) : Loc.node i ∉ nodes a b := by
  intro hm
  obtain ⟨j, -, hj, he⟩ := mem_nodes.1 hm
  obtain rfl := Loc.node.inj he
  omega

/-- Both lists: `animal_list` holds the nodes below `m` with the data `E`, the filtered
list the `k` nodes from `m` on with the data `F`. -/
structure Lists (s : State) (m k : ℕ) (E F : List Animal) : Prop where
  fresh : s.fresh = m + k
  animal : Ring.IsRing s.links .animal_list (nodes 0 m)
  filtered : Ring.IsRing s.links .animal_filtered_list (nodes m k)
  animal_data : (nodes 0 m).map s.data = E
  filtered_data : (nodes m k).map s.data = F

variable {K : Kernel} {s : State} {m k : ℕ} {E F : List Animal}

theorem newNode_data_old (head : Loc) (t : CStr) (c : ℕ) {a b : ℕ} (h : a + b ≤ s.fresh) :
    (nodes a b).map (newNode K head t c s).data = (nodes a b).map s.data := by
  refine List.map_congr_left ?_
  intro x hx
  exact Function.update_of_ne (ne_of_mem_of_not_mem hx (node_notMem_nodes h)) ..

theorem newNode_data_new (head : Loc) (t : CStr) (c : ℕ) :
    (newNode K head t c s).data (.node s.fresh) = ⟨t, c⟩ := Function.update_self ..

theorem length_nodes (a b : ℕ) : (nodes a b).length = b := by
  rw [nodes, List.length_map, List.length_range']

theorem Lists.length_animal (h : Lists s m k E F) : E.length = m := by
  rw [← h.animal_data, List.length_map, length_nodes]

/-- Both heads initialised. -/
theorem lists_start (K : Kernel) (links : Ring.Links Loc) (data : Loc → Animal) :
    Lists (initHeads K (start links data)) 0 0 [] [] := by
  refine ⟨rfl, K.toApi.init_other (K.init_ring links _) ?_, K.init_ring _ _, rfl, rfl⟩
  exact fun hm => Loc.noConfusion (List.mem_singleton.1 hm)

/-- A node for `animal_list`, before there are filtered nodes. -/
theorem Lists.addAnimal (h : Lists s m 0 E []) (t : CStr) (c : ℕ) :
    Lists (newNode K .animal_list t c s) (m + 1) 0 (E ++ [⟨t, c⟩]) [] := by
  have hf : s.fresh = 0 + m := by rw [h.fresh, zero_add]; rfl
  have hnew : Loc.node s.fresh ∉ Loc.animal_list :: nodes 0 m := by
    rw [List.mem_cons, not_or]
    exact ⟨Loc.noConfusion, node_notMem_nodes hf.ge⟩
  have hring := K.add_ring h.animal hnew
  refine ⟨?_, ?_, ?_, ?_, rfl⟩
  · show s.fresh + 1 = m + 1 + 0
    rw [h.fresh]
  · rw [nodes_succ, ← hf]
    exact hring
  · -- the filtered list is its head only
    refine K.toApi.add_other h.animal h.filtered ?_ ?_
    · intro x hx
      obtain rfl := List.mem_singleton.1 hx
      rw [List.mem_cons, not_or]
      refine ⟨Loc.noConfusion, ?_⟩
      intro hm
      obtain ⟨i, -, -, he⟩ := mem_nodes.1 hm
      exact Loc.noConfusion he
    · rw [List.mem_cons, not_or]
      exact ⟨Loc.noConfusion, List.not_mem_nil⟩
  · rw [nodes_succ, List.map_append, newNode_data_old _ _ _ hf.ge, h.animal_data, ← hf,
      List.map_singleton, newNode_data_new]

/-- A node for `animal_filtered_list`. -/
theorem Lists.addFiltered (h : Lists s m k E F) (t : CStr) (c : ℕ) :
    Lists (newNode K .animal_filtered_list t c s) m (k + 1) E (F ++ [⟨t, c⟩]) := by
  have hnew : Loc.node s.fresh ∉ Loc.animal_filtered_list :: nodes m k := by
    rw [List.mem_cons, not_or]
    exact ⟨Loc.noConfusion, node_notMem_nodes h.fresh.ge⟩
  refine ⟨?_, ?_, ?_, ?_, ?_⟩
  · show s.fresh + 1 = m + (k + 1)
    rw [h.fresh, add_assoc]
  · refine K.toApi.add_other h.filtered h.animal ?_ ?_
    · intro x hx hm
      -- the two lists share no node
      rcases List.mem_cons.1 hx with rfl | hx <;> rcases List.mem_cons.1 hm with hm | hm
      · exact Loc.noConfusion hm
      · obtain ⟨i, -, -, he⟩ := mem_nodes.1 hm
        exact Loc.noConfusion he
      · obtain ⟨i, -, -, he⟩ := mem_nodes.1 hx
        exact Loc.noConfusion (hm.symm.trans he)
      · obtain ⟨i, -, hi, rfl⟩ := mem_nodes.1 hx
        obtain ⟨j, hj, -, he⟩ := mem_nodes.1 hm
        obtain rfl := Loc.node.inj he
        omega
    · rw [List.mem_cons, not_or]
      exact ⟨Loc.noConfusion, node_notMem_nodes (by have := h.fresh; omega)⟩
  · rw [nodes_succ, ← h.fresh]
    exact K.add_ring h.filtered hnew
  · rw [newNode_data_old _ _ _ (by have := h.fresh; omega), h.animal_data]
  · rw [nodes_succ, List.map_append, newNode_data_old _ _ _ h.fresh.ge, h.filtered_data, ← h.fresh,
      List.map_singleton, newNode_data_new]

/-! ### The counting loop -/

def Animal.run (a : Animal) : CStr × ℕ := (a.animal_type, a.no_of_resp_type)

/-- At index `i`, the nodes and the current run spell out the elements up to `i`. -/
structure Counted (animals : List CStr) (i : ℕ) (s : State) (m : ℕ) (E : List Animal) (a : CStr) :
    Prop where
  lists : Lists s m 0 E []
  no_of_nodes : s.no_of_nodes = m
  number_of_filtered : s.number_of_filtered = 0
  current : animals[i]? = some a
  runs : Runs (E.map Animal.run ++ [(a, s.an_ct)]) (animals.take (i + 1))

variable {animals : List CStr} {i : ℕ} {a : CStr}

/-- The next element is equal: the run gets longer. -/
theorem Counted.more (h : Counted animals i s m E a) (hi : i + 1 < animals.length)
    (ha : a = animals[i + 1]) (p : Option CStr) :
    Counted animals (i + 1) { s with an_ct := s.an_ct + 1, previous_animal := p } m E a := by
  have hnext : animals[i + 1]? = some a := by rw [List.getElem?_eq_getElem hi, ← ha]
  refine ⟨⟨h.lists.fresh, h.lists.animal, h.lists.filtered, h.lists.animal_data, rfl⟩,
    h.no_of_nodes, h.number_of_filtered, hnext, ?_⟩
  rw [List.take_add_one, hnext]
  exact h.runs.more

/-- The next element is greater: the run gets a node. -/
theorem Counted.next (h : Counted animals i s m E a) (hi : i + 1 < animals.length)
    (ha : a < animals[i + 1]) :
    Counted animals (i + 1)
      { newNode K .animal_list a s.an_ct s with
        an_ct := 1, no_of_nodes := (newNode K .animal_list a s.an_ct s).no_of_nodes + 1 }
      (m + 1) (E ++ [⟨a, s.an_ct⟩]) animals[i + 1] := by
  have hnext : animals[i + 1]? = some animals[i + 1] := List.getElem?_eq_getElem hi
  have hl := h.lists.addAnimal (K := K) a s.an_ct
  refine ⟨⟨hl.fresh, hl.animal, hl.filtered, hl.animal_data, rfl⟩, ?_, h.number_of_filtered,
    hnext, ?_⟩
  · show s.no_of_nodes + 1 = m + 1
    rw [h.no_of_nodes]
  · rw [List.take_add_one, hnext, List.map_append]
    exact h.runs.next ha

/-- **The counting loop** passes all elements; the last run is still open at its end. -/
theorem countLoop_counted (hs : animals.Pairwise (· ≤ ·)) (h : Counted animals i s m E a)
    (hi : i < animals.length) :
    ∃ m' E' a', Counted animals (animals.length - 1) (countLoop K animals i s) m' E' a' := by
  fun_induction countLoop K animals i s generalizing m E a with
  | case1 i s hlt hlast heq ih =>
    have hi' : i + 1 < animals.length := by omega
    obtain rfl : animals[i] = a := by
      have := h.current
      rwa [List.getElem?_eq_getElem hlt, Option.some.injEq] at this
    exact ih (h.more hi' ((strcmp_zero_iff _ _).1 heq) _) hi'
  | case2 i s hlt hlast hne s' =>
    rename_i ih
    have hi' : i + 1 < animals.length := by omega
    obtain rfl : animals[i] = a := by
      have := h.current
      rwa [List.getElem?_eq_getElem hlt, Option.some.injEq] at this
    -- the array is sorted, so a different element is a greater one
    have hle : animals[i] ≤ animals[i + 1] := List.pairwise_iff_getElem.1 hs _ _ _ _ (by omega)
    have hlt' : animals[i] < animals[i + 1] :=
      lt_of_le_of_ne hle fun he => hne ((strcmp_zero_iff _ _).2 he)
    exact ih (h.next hi' hlt') hi'
  | case3 i s hlt hlast ih =>
    obtain rfl : i = animals.length - 1 := by omega
    rw [countLoop, dif_neg (by omega)]
    exact ⟨m, E, a, h⟩
  | case4 i s hlt => exact absurd hi hlt

/-! ### The filtering loop -/

/-- The nodes the filters let through. -/
def Selected (f : CStr) (k : ℤ) (a : Animal) : Bool :=
  decide ((a.no_of_resp_type : ℤ) > k ∧ (f.bytes = ascii "none" ∨ a.animal_type = f))

/-- After the nodes with the data `D`, the filtered list holds the selected ones of them. -/
structure Filtered (f : CStr) (k : ℤ) (m : ℕ) (E D : List Animal) (s : State) : Prop where
  lists : Lists s m (D.filter (Selected f k)).length E (D.filter (Selected f k))
  no_of_nodes : s.no_of_nodes = m
  number_of_filtered : s.number_of_filtered = (D.filter (Selected f k)).length

variable {f : CStr} {kf : ℤ} {D : List Animal}

/-- The final node closes the last run; nothing has been filtered yet. -/
theorem Counted.last (K : Kernel) (f : CStr) (kf : ℤ)
    (h : Counted animals (animals.length - 1) s m E a)
    (hi : animals.length - 1 < animals.length) :
    let last := animals[animals.length - 1]
    let s' := newNode K .animal_list last s.an_ct s
    Filtered f kf (m + 1) (E ++ [⟨last, s.an_ct⟩]) []
        { s' with no_of_nodes := s'.no_of_nodes + 1 } ∧
      Runs ((E ++ [Animal.mk last s.an_ct]).map Animal.run) animals := by
  obtain rfl : animals[animals.length - 1] = a := by
    have := h.current
    rwa [List.getElem?_eq_getElem (by omega), Option.some.injEq] at this
  have hl := h.lists.addAnimal (K := K) animals[animals.length - 1] s.an_ct
  have hruns := h.runs
  rw [List.take_of_length_le (by omega)] at hruns
  refine ⟨⟨⟨hl.fresh, hl.animal, hl.filtered, hl.animal_data, rfl⟩,
    congrArg (· + 1) h.no_of_nodes, h.number_of_filtered⟩, ?_⟩
  rw [List.map_append]
  exact hruns

theorem Filtered.add (h : Filtered f kf m E D s) {a : Animal} (ha : Selected f kf a = true) :
    Filtered f kf m E (D ++ [a])
      { newNode K .animal_filtered_list a.animal_type a.no_of_resp_type s with
        number_of_filtered :=
          (newNode K .animal_filtered_list a.animal_type a.no_of_resp_type s).number_of_filtered +
            1 } := by
  have hl := h.lists.addFiltered (K := K) a.animal_type a.no_of_resp_type
  have hfil : (D ++ [a]).filter (Selected f kf) = D.filter (Selected f kf) ++ [a] := by
    rw [List.filter_append, List.filter_singleton, ha]
    rfl
  refine ⟨?_, h.no_of_nodes, ?_⟩
  · rw [hfil, List.length_append]
    exact ⟨hl.fresh, hl.animal, hl.filtered, hl.animal_data, hl.filtered_data⟩
  · rw [hfil, List.length_append]
    show s.number_of_filtered + 1 = _
    rw [h.number_of_filtered]
    rfl

theorem Filtered.skip (h : Filtered f kf m E D s) {a : Animal} (ha : ¬ Selected f kf a = true) :
    Filtered f kf m E (D ++ [a]) s := by
  have hfil : (D ++ [a]).filter (Selected f kf) = D.filter (Selected f kf) := by
    rw [List.filter_append, List.filter_singleton, Bool.eq_false_of_not_eq_true ha]
    exact List.append_nil _
  exact ⟨by rw [hfil]; exact h.lists, h.no_of_nodes, by rw [hfil]; exact h.number_of_filtered⟩

theorem strcmp_none_iff (f : CStr) : strcmp f.bytes (ascii "none") = 0 ↔ f.bytes = ascii "none" := by
  rw [strcmp_eq_zero, text_eq_self f.no_nul, text_eq_self (by decide)]

/-- **The filter's body** adds a node for the one it visits, if that is selected. -/
theorem filterBody_filtered (h : Filtered f kf m E D s) (x : Loc) :
    Filtered f kf m E (D ++ [s.data x]) (filterBody K f kf x s) := by
  unfold filterBody
  by_cases hnone : strcmp f.bytes (ascii "none") = 0
  · have hany := (strcmp_none_iff f).1 hnone
    simp only [if_pos hnone]
    by_cases hct : ((s.data x).no_of_resp_type : ℤ) > kf
    · -- no filter on the type
      rw [if_pos hct]
      exact h.add (decide_eq_true ⟨hct, .inl hany⟩)
    · rw [if_neg hct]
      exact h.skip fun hsel => hct (of_decide_eq_true hsel).1
  · have hany := fun he => hnone ((strcmp_none_iff f).2 he)
    simp only [if_neg hnone]
    by_cases hsel : strcmp (s.data x).animal_type.bytes f.bytes = 0 ∧
        ((s.data x).no_of_resp_type : ℤ) > kf
    · rw [if_pos hsel]
      exact h.add (decide_eq_true ⟨hsel.2, .inr ((strcmp_zero_iff _ _).1 hsel.1)⟩)
    · rw [if_neg hsel]
      refine h.skip fun he => hsel ?_
      obtain ⟨h1, h2⟩ := of_decide_eq_true he
      exact ⟨(strcmp_zero_iff _ _).2 (h2.resolve_left hany), h1⟩

/-- The loop over `animal_list`. -/
theorem forEach_filtered {s₀ : State} (h0 : Filtered f kf m E [] s₀) {fuel : ℕ} (hfuel : m < fuel) :
    ∃ s, Ring.forEach State.next .animal_list (filterBody K f kf) fuel s₀ = (true, s) ∧
      Filtered f kf m E E s := by
  have h := h0.lists
  obtain ⟨s, hs, hI⟩ := Ring.forEach_ring State.next (filterBody K f kf)
    (fun done s => Filtered f kf m E (done.map s₀.data) s) h.animal.nodup ⟨h.animal.next_head, h0⟩
    (fun done x rest s hL hI => by
      have hx : x ∈ nodes 0 m := by rw [hL]; simp
      -- the nodes visited keep their data
      have hdata : s.data x = s₀.data x :=
        List.map_inj_left.1 (hI.lists.animal_data.trans h.animal_data.symm) x hx
      have hnext := filterBody_filtered (K := K) hI x
      refine ⟨hnext.lists.animal.next_of_split hL, ?_⟩
      rw [List.map_append, List.map_singleton, ← hdata]
      exact hnext) (by rw [length_nodes]; exact hfuel)
  rw [h.animal_data] at hI
  exact ⟨s, hs, hI⟩

/-- The loop that prints the filtered list. -/
theorem forEach_print (h : Lists s m k E F) {fuel : ℕ} (hfuel : k < fuel) :
    Ring.forEach State.next .animal_filtered_list (fun _ s => s) fuel s = (true, s) := by
  obtain ⟨s', hs', rfl⟩ := Ring.forEach_ring State.next (fun _ s => s) (fun _ s' => s' = s)
    h.filtered.nodup ⟨h.filtered.next_head, rfl⟩
    (fun done x rest s' hL hI => by
      subst hI
      exact ⟨h.filtered.next_of_split hL, rfl⟩) (by rw [length_nodes]; exact hfuel)
  exact hs'

/-! ### The whole of `list_init` -/

/-- What `list_init` is for: the lists `L` and `F` hold each name with its number of
occurrences, and those that pass the filters. -/
structure Loaded (animals : List CStr) (f : CStr) (kf : ℤ) (s : State) (L F : List Loc) : Prop where
  animal_list : Ring.IsRing s.links .animal_list L
  animal_filtered_list : Ring.IsRing s.links .animal_filtered_list F
  increasing : (L.map fun x => (s.data x).animal_type).Pairwise
    fun a b => strcmp a.bytes b.bytes < 0
  names : ∀ a, a ∈ L.map (fun x => (s.data x).animal_type) ↔ a ∈ animals
  counts : ∀ x ∈ L, (s.data x).no_of_resp_type = animals.count (s.data x).animal_type
  filtered : F.map s.data = (L.map s.data).filter (Selected f kf)
  no_of_nodes : s.no_of_nodes = L.length
  number_of_filtered : s.number_of_filtered = F.length
  total : (L.map fun x => (s.data x).no_of_resp_type).sum = animals.length

theorem Runs.loaded {sorted : List CStr} (hperm : sorted.Perm animals)
    (hr : Runs (E.map Animal.run) sorted) (h : Filtered f kf m E E s) :
    Loaded animals f kf s (nodes 0 m) (nodes m (E.filter (Selected f kf)).length) := by
  have hE := h.lists.animal_data
  have htype : (nodes 0 m).map (fun x => (s.data x).animal_type) =
      (E.map Animal.run).map Prod.fst := by
    rw [← hE, List.map_map, List.map_map]
    rfl
  have hcount : (nodes 0 m).map (fun x => (s.data x).no_of_resp_type) =
      (E.map Animal.run).map Prod.snd := by
    rw [← hE, List.map_map, List.map_map]
    rfl
  refine ⟨h.lists.animal, h.lists.filtered, ?_, ?_, ?_, ?_, ?_, ?_, ?_⟩
  · rw [htype]
    exact hr.strict.imp fun hab => (strcmp_neg_iff _ _).2 hab
  · intro a
    rw [htype, hr.mem_iff, hperm.mem_iff]
  · intro x hx
    have hmem : (s.data x).run ∈ E.map Animal.run := by
      rw [← hE]
      exact List.mem_map_of_mem (List.mem_map_of_mem hx)
    rw [← hperm.count_eq, hr.count hmem]
  · rw [h.lists.filtered_data, hE]
  · rw [h.no_of_nodes, length_nodes]
  · rw [h.number_of_filtered, length_nodes]
  · rw [hcount, hr.length_sum, hperm.length_eq]

/-- `list_init` comes to its end, with its lists holding runs of the sorted array. -/
theorem listInit_filtered (K : Kernel) {animals : List CStr} (hne : 0 < animals.length) (f : CStr)
    (kf : ℤ) (links : Ring.Links Loc) (data : Loc → Animal) {fuel : ℕ}
    (hfuel : animals.length < fuel) :
    ∃ s m E, listInit K fuel animals hne f kf (start links data) = (true, s) ∧
      Filtered f kf m E E s ∧ Runs (E.map Animal.run) (K.sort animals) := by
  have hlen := (K.sort_perm animals).length_eq
  have hpos : 0 < (K.sort animals).length := hlen ▸ hne
  have hsorted : (K.sort animals).Pairwise (· ≤ ·) :=
    (K.sort_ordered animals).imp fun {a b} h => (strcmp_nonpos_iff a b).1 h
  have hc : Counted (K.sort animals) 0 (initHeads K (start links data)) 0 []
      (K.sort animals)[0] := by
    refine ⟨lists_start K links data, rfl, rfl, List.getElem?_eq_getElem hpos, ?_⟩
    rw [List.take_add_one, List.getElem?_eq_getElem hpos]
    exact Runs.single _
  obtain ⟨m, E, a, hc⟩ := countLoop_counted (K := K) hsorted hc hpos
  -- the node behind the loop, then the filter over a list no longer than the array
  obtain ⟨h0, hruns⟩ := hc.last K f kf (Nat.sub_one_lt_of_lt hpos)
  have hlE := h0.lists.length_animal
  have hm : m + 1 < fuel := by
    have hle := hruns.length_le
    rw [List.length_map, hlE] at hle
    omega
  obtain ⟨s, hs, hfil⟩ := forEach_filtered (K := K) h0 hm
  refine ⟨s, m + 1, _, ?_, hfil, hruns⟩
  unfold listInit
  dsimp only
  rw [hs]
  refine forEach_print hfil.lists (lt_of_le_of_lt (List.length_filter_le _ _) ?_)
  rw [hlE]
  exact hm

/-- **`list_init` counts and filters**: it comes to its end with one node for each name, in
increasing order and with the number of its occurrences, and with copies of those nodes
that pass both filters. -/
theorem list_init_counts (K : Kernel) {animals : List CStr} (hne : 0 < animals.length) (f : CStr)
    (kf : ℤ) (links : Ring.Links Loc) (data : Loc → Animal) {fuel : ℕ}
    (hfuel : animals.length < fuel) :
    ∃ s L F, listInit K fuel animals hne f kf (start links data) = (true, s) ∧
      Loaded animals f kf s L F := by
  obtain ⟨s, m, E, hs, hfil, hruns⟩ := listInit_filtered K hne f kf links data hfuel
  exact ⟨s, _, _, hs, Runs.loaded (K.sort_perm animals) hruns hfil⟩

/-- The ten names that `animals` has room for, of eight types, and memory that has not been
used. -/
def zoo : List CStr :=
  [⟨ascii "cat", by decide⟩, ⟨ascii "dog", by decide⟩, ⟨ascii "horse", by decide⟩,
    ⟨ascii "dog", by decide⟩, ⟨ascii "lion", by decide⟩, ⟨ascii "tiger", by decide⟩,
    ⟨ascii "frog", by decide⟩, ⟨ascii "cat", by decide⟩, ⟨ascii "deer", by decide⟩,
    ⟨ascii "boar", by decide⟩]

def noFilter : CStr := ⟨ascii "none", by decide⟩

def unused : State := start ⟨id, id⟩ fun _ => ⟨noFilter, 0⟩

theorem list_init_counts_zoo :
    ∃ s L F, listInit kernel 11 zoo (by decide) noFilter 1 unused = (true, s) ∧
      Loaded zoo noFilter 1 s L F :=
  list_init_counts kernel (by decide) noFilter 1 _ _ (by decide)

end Aesd.ListSort
