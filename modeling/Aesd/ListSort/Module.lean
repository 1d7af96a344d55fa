import Aesd.Lib.CString
import Aesd.Lib.Ring

/-!
# The `list_sort` module (`HW3/Related Files/list_sort.c`)

`list_init` sorts the array of names, adds a node to `animal_list` for each run of equal
names and copies the nodes that pass the filters to `animal_filtered_list`; `list_exit`
frees both lists. A node is a location with the links of its `lion` and its two data
fields; `kmalloc` returns a location not used before. Names are the texts they point to.

The kernel's `sort`, `INIT_LIST_HEAD` and `list_add_tail` are a parameter (`Kernel`) with
what they are documented to do. `list_for_each` is `Ring.forEach`.
-/

namespace Aesd.ListSort

open CString

/-- The `list_head`s of the two heads and of the nodes. -/
inductive Loc
  | animal_list
  | animal_filtered_list
  | node (a : ℕ)
deriving DecidableEq

/-- The data of a `struct list_of_animals`. Counts stay below the length of the array, an
`int`, so they do not overflow. -/
structure Animal where
  animal_type : CStr
  no_of_resp_type : ℕ
deriving DecidableEq

def compare (a b : CStr) : ℤ := strcmp a.bytes b.bytes

/-- The kernel functions the module calls. -/
structure Kernel extends Ring.Api Loc where
  /-- `sort(animals, no_of_elements, size_of_each_element, compare, NULL)` -/
  sort : List CStr → List CStr
  sort_perm (animals : List CStr) : (sort animals).Perm animals
  sort_ordered (animals : List CStr) :
    (sort animals).Pairwise fun a b => compare a b ≤ 0

/-- The module's memory: its heap and its globals. -/
structure State where
  links : Ring.Links Loc
  data : Loc → Animal
  /-- `kmalloc` has returned the nodes below -/
  fresh : ℕ
  an_ct : ℕ
  previous_animal : Option CStr
  no_of_nodes : ℕ
  number_of_filtered : ℕ

/-- The module as it is loaded. -/
def start (links : Ring.Links Loc) (data : Loc → Animal) : State :=
  ⟨links, data, 0, 1, none, 0, 0⟩

variable (K : Kernel)

/-- Both calls of `INIT_LIST_HEAD`. -/
def initHeads (s : State) : State :=
  { s with
    links := K.initListHead .animal_filtered_list (K.initListHead .animal_list s.links) }

/-- `kmalloc` a node, fill it in and add it to a list. -/
def newNode (head : Loc) (animal_type : CStr) (no_of_resp_type : ℕ) (s : State) : State :=
  let temp := Loc.node s.fresh
  { s with fresh := s.fresh + 1,
           data := Function.update s.data temp ⟨animal_type, no_of_resp_type⟩,
           links := K.listAddTail temp head s.links }

/-- The `for` loop of `list_init`, from index `i` on. -/
def countLoop (animals : List CStr) (i : ℕ) (s : State) : State :=
  if h : i < animals.length then
    if h' : i < animals.length - 1 then
      if strcmp animals[i].bytes animals[i + 1].bytes = 0 then
        countLoop animals (i + 1)
          { s with an_ct := s.an_ct + 1, previous_animal := some animals[i] }
      else
        let s := newNode K .animal_list animals[i] s.an_ct s
        countLoop animals (i + 1) { s with an_ct := 1, no_of_nodes := s.no_of_nodes + 1 }
    else countLoop animals (i + 1) s
  else s
termination_by animals.length - i

/-- The body of the loop that filters. -/
def filterBody (animal_type_filter : CStr) (animal_count_filter : ℤ) (access : Loc) (s : State) :
    State :=
  let temp := s.data access
  if strcmp animal_type_filter.bytes (ascii "none") = 0 then
    if (temp.no_of_resp_type : ℤ) > animal_count_filter then
      let s := newNode K .animal_filtered_list temp.animal_type temp.no_of_resp_type s
      { s with number_of_filtered := s.number_of_filtered + 1 }
    else s
  else if strcmp temp.animal_type.bytes animal_type_filter.bytes = 0 ∧
      (temp.no_of_resp_type : ℤ) > animal_count_filter then
    let s := newNode K .animal_filtered_list temp.animal_type temp.no_of_resp_type s
    { s with number_of_filtered := s.number_of_filtered + 1 }
  else s

/-- `pos->next`. -/
def State.next (pos : Loc) (s : State) : Loc × State := (s.links.next pos, s)

/-- `list_init` on a non-empty array; the second list is walked to print it. -/
def listInit (fuel : ℕ) (animals : List CStr) (h : 0 < animals.length) (animal_type_filter : CStr)
    (animal_count_filter : ℤ) (s : State) : Bool × State :=
  let sorted := K.sort animals
  have hs : sorted.length - 1 < sorted.length := by
    rw [(K.sort_perm animals).length_eq]
    omega
  let s := countLoop K sorted 0 (initHeads K s)
  let s := newNode K .animal_list sorted[sorted.length - 1] s.an_ct s
  let s := { s with no_of_nodes := s.no_of_nodes + 1 }
  match Ring.forEach State.next .animal_list
    (filterBody K animal_type_filter animal_count_filter) fuel s with
  | (true, s) => Ring.forEach State.next .animal_filtered_list (fun _ s => s) fuel s
  | (false, s) => (false, s)

/-! ### Unloading -/

/-- The module's memory while it is unloaded. -/
structure Unload where
  mem : State
  /-- the nodes given to `kfree`, in order -/
  freed : List Loc
  /-- the freed nodes whose `next` has been read -/
  readFreed : List Loc

/-- `kfree`; what the freed memory holds in place of the link is `stale`. -/
def kfree (stale : Loc → Loc) (pos : Loc) (u : Unload) : Unload :=
  { u with
    mem := { u.mem with
      links := { u.mem.links with next := Function.update u.mem.links.next pos (stale pos) } }
    freed := u.freed ++ [pos] }

/-- `pos->next`, noted when `pos` has been freed. -/
def Unload.next (pos : Loc) (u : Unload) : Loc × Unload :=
  (u.mem.links.next pos,
    if pos ∈ u.freed then { u with readFreed := u.readFreed ++ [pos] } else u)

def listExit (stale : Loc → Loc) (fuel : ℕ) (s : State) : Bool × Unload :=
  match Ring.forEach Unload.next .animal_list (kfree stale) fuel ⟨s, [], []⟩ with
  | (true, u) => Ring.forEach Unload.next .animal_filtered_list (kfree stale) fuel u
  | (false, u) => (false, u)

/-! ### Concrete kernel functions -/

/-- Insertion sort and the usual list functions. -/
def kernel : Kernel where
  toApi := Ring.standard
  sort := List.insertionSort (· ≤ ·)
  sort_perm := List.perm_insertionSort _
  sort_ordered animals := (List.pairwise_insertionSort (· ≤ ·) animals).imp
    fun {a b} h => (strcmp_nonpos_iff a b).2 h

end Aesd.ListSort
