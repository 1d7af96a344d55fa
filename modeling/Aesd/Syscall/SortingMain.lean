import Aesd.Syscall.Sorting

/-!
# The program that calls `sorting` (`HW2/Required Files/sorting.c`)

`main` fills an array with random values and makes three calls: one with the arrays, one with
null pointers and one with a negative size. After each it prints the array `sorted`.

`sortingMain_prints`: the sorted values appear three times, since the calls that are refused
leave the array alone.
-/

namespace Aesd.SortingMain

open ByteMem

/-- The texts before the calls. -/
inductive Passing
  | correctValues
  | nullPointer
  | negativeSize
deriving DecidableEq

/-- What is printed, by and by. -/
inductive Line
  | size (size : Int32)
  | unsorted (i : ℕ) (v : Int32)
  | passing (what : Passing)
  /-- `perror`, which tells `errno` -/
  | perror (errno : ℤ)
  | sortedArray (i : ℕ) (v : Int32)
deriving DecidableEq

/-- What the program gets from outside. -/
structure Env (w : ℕ) where
  /-- `rand() % 4096` -/
  size : Int32
  to_sort : Addr w
  sorted : Addr w
  /-- `rand() % 16384` for each element -/
  value : ℕ → Int32
  /-- what `kmalloc` returns in a call -/
  kmalloc : ℕ → Addr w
  /-- the bytes left uncopied in a call -/
  from_left : ℕ → ℕ
  to_left : ℕ → ℕ
  /-- what other processes and the kernel do before a call -/
  others : ℕ → Kernel w → Kernel w
  /-- `errno` before the first call -/
  errno : ℤ

structure State (w : ℕ) where
  kernel : Kernel w
  errno : ℤ
  out : List Line

variable {w : ℕ} (e : Env w)

/-- The number of elements. -/
def Env.n : ℕ := e.size.toNatClampNeg

/-- `to_sort[i] = v` -/
def store (s : Kernel w) (i : ℕ) (v : Int32) : Kernel w :=
  { s with mem := store32 s.mem (off e.to_sort (4 * i)) v.toBitVec }

/-- The loop that fills `to_sort` and prints it, up to an index. -/
def fill (s : Kernel w) : ℕ → Kernel w × List Line
  | 0 => (s, [])
  | i + 1 =>
    let filled := fill s i
    let s := store e filled.1 i (e.value i)
    (s, filled.2 ++ [.unsorted i (s.elem e.to_sort (Int32.ofNat i))])

/-- The loop that prints `sorted`. -/
def printSorted (s : Kernel w) : List Line :=
  (List.range e.n).map fun i => .sortedArray i (s.elem e.sorted (Int32.ofNat i))

/-- The pointers and the size of a case. -/
def arguments : ℕ → Passing × Addr w × Addr w × Int32
  | 1 => (.correctValues, e.to_sort, e.sorted, e.size)
  | 2 => (.nullPointer, NULL, NULL, e.size)
  | _ => (.negativeSize, e.to_sort, e.sorted, -6)

def sortingCall (cases : ℕ) : SortingCall w where
  unsorted := (arguments e cases).2.1
  sorted := (arguments e cases).2.2.1
  size := (arguments e cases).2.2.2
  kmalloc := e.kmalloc cases
  from_left := e.from_left cases
  to_left := e.to_left cases

/-- One case of the switch. -/
def pass (cases : ℕ) (st : State w) : State w :=
  let r := sorting (sortingCall e cases) (e.others cases st.kernel)
  let errno := if r.1 < 0 then -r.1 else st.errno
  { kernel := r.2
    errno := errno
    out := st.out ++ [.passing (arguments e cases).1, .perror errno] ++ printSorted e r.2 }

/-- What the program prints. -/
def sortingMain (s : Kernel w) : List Line :=
  let filled := fill e s e.n
  let st : State w := ⟨filled.1, e.errno, .size e.size :: filled.2⟩
  ([1, 2, 3].foldl (fun st cases => pass e cases st) st).out

/-! ### The calls -/

/-- The arrays of the program lie in the user address space `U`, which nobody else writes. -/
structure OnStack (U : Set (Addr w)) : Prop where
  to_sort : e.to_sort ≠ NULL
  sorted : e.sorted ≠ NULL
  to_sort_mem : ∀ k : ℤ, 0 ≤ k → k < 4 * e.size.toInt → off e.to_sort k ∈ U
  sorted_mem : ∀ k : ℤ, 0 ≤ k → k < 4 * e.size.toInt → off e.sorted k ∈ U
  others : ∀ cases s, ∀ x ∈ U, (e.others cases s).mem x = s.mem x

section Calls

variable {e} {U : Set (Addr w)} {s s' : Kernel w}

/-- The array at `p` is the same in memories that agree on `U`. -/
theorem elems_agree {p : Addr w} (hsize : 0 ≤ e.size.toInt)
    (hp : ∀ k : ℤ, 0 ≤ k → k < 4 * e.size.toInt → off p k ∈ U)
    (h : ∀ x ∈ U, s'.mem x = s.mem x) : s'.elems p e.n = s.elems p e.n := by
  have hn : (e.n : ℤ) = e.size.toInt := Int.toNat_of_nonneg hsize
  have hlt := e.size.toInt_lt
  refine elems_congr (by omega) ?_
  intro i hi0 hi
  unfold Kernel.elem word
  congr 2
  refine load32_congr ?_
  intro k hk0 hk4
  rw [off_off]
  exact h _ (hp _ (by omega) (by omega))

/-- The array when it has been filled up to `m`. -/
theorem fill_spec (hw : 32 ≤ w) (s : Kernel w) {m : ℕ} (hm : m ≤ 4096) :
    (∀ i < m, (fill e s m).1.elem e.to_sort (Int32.ofNat i) = e.value i) ∧
      (fill e s m).2 = (List.range m).map fun i => .unsorted i (e.value i) := by
  have hpow : (2 : ℤ) ^ 32 ≤ 2 ^ w := pow_le_pow_right₀ (by norm_num) hw
  induction m with
  | zero => exact ⟨fun i hi => absurd hi (Nat.not_lt_zero i), rfl⟩
  | succ m ih =>
    obtain ⟨ihvalues, ihlines⟩ := ih (by omega)
    have hstored : ∀ i < m + 1, (fill e s (m + 1)).1.elem e.to_sort (Int32.ofNat i) =
        if i = m then e.value m else (fill e s m).1.elem e.to_sort (Int32.ofNat i) := by
      intro i hi
      have htoInt : (Int32.ofNat i).toInt = i := Int32.toInt_ofNat_of_lt (by omega)
      have hdist : |(m : ℤ) - i| ≤ 4096 := by
        rw [abs_le]
        omega
      have hfill : (fill e s (m + 1)).1 = store e (fill e s m).1 m (e.value m) := rfl
      rw [hfill]
      unfold store Kernel.elem
      dsimp only
      rw [htoInt, word_store _ _ _ (by omega) (by omega)]
      by_cases him : i = m
      · rw [if_pos him, if_pos (by omega)]
        rfl
      · rw [if_neg him, if_neg (by omega)]
    refine ⟨?_, ?_⟩
    · intro i hi
      rw [hstored i hi]
      split_ifs with him
      · rw [him]
      · exact ihvalues i (by omega)
    · have hlast := hstored m (Nat.lt_succ_self m)
      rw [if_pos rfl] at hlast
      rw [List.range_succ, List.map_append, ← ihlines, List.map_singleton, ← hlast]
      rfl

/-- A refused call leaves the array `sorted` alone. -/
theorem pass_refused {cases : ℕ} (hrefused : ¬ Checked (sortingCall e cases)) (st : State w) :
    pass e cases st =
      { kernel := e.others cases st.kernel
        errno := 14
        out := st.out ++ [.passing (arguments e cases).1, .perror 14] ++
          printSorted e (e.others cases st.kernel) } := by
  unfold pass
  rw [sorting_refused hrefused]
  rfl

/-- What `printSorted` prints depends on the values alone. -/
theorem printSorted_eq (s : Kernel w) :
    printSorted e s = (s.elems e.sorted e.n).mapIdx Line.sortedArray := by
  unfold printSorted Kernel.elems
  refine List.ext_getElem (by simp) ?_
  intro i hi hi'
  simp

/-- The first call leaves the sorted values, if there are any. -/
theorem pass_first (hw : 32 ≤ w) (hsize : 0 ≤ e.size.toInt) (hmax : e.size.toInt < 4096)
    (hstack : OnStack e U) (hgranted : 0 < e.size.toInt → Granted U (sortingCall e 1)) (s : Kernel w) :
    ∃ v : List Int32, v.Perm ((e.others 1 s).elems e.to_sort e.n) ∧ v.Pairwise (· ≥ ·) ∧
      ∀ errno out, ∃ s₁ : Kernel w, s₁.elems e.sorted e.n = v ∧ pass e 1 ⟨s, errno, out⟩ =
        { kernel := s₁
          errno := if e.n = 0 then 14 else errno
          out := out ++ [.passing .correctValues, .perror (if e.n = 0 then 14 else errno)] ++
            v.mapIdx Line.sortedArray } := by
  have hn : (e.n : ℤ) = e.size.toInt := Int.toNat_of_nonneg hsize
  by_cases hzero : e.n = 0
  · have hrefused : ¬ Checked (sortingCall e 1) := by
      intro h
      have hpos : 0 < e.size.toInt := Int32.lt_iff_toInt_lt.1 h.size
      omega
    refine ⟨[], by rw [hzero]; exact .nil, .nil, ?_⟩
    intro errno out
    refine ⟨e.others 1 s, by rw [hzero]; rfl, ?_⟩
    rw [pass_refused hrefused, printSorted_eq, hzero]
    rfl
  · have hpos : 0 < e.size.toInt := by omega
    have hc : Checked (sortingCall e 1) :=
      ⟨hstack.sorted, hstack.to_sort, Int32.lt_iff_toInt_lt.2 hpos⟩
    have hlt : (sortingCall e 1).size.toInt < 2 ^ 29 := lt_trans hmax (by norm_num)
    obtain ⟨hperm, hsorted⟩ := granted_sorts hw hc hlt (hgranted hpos) (e.others 1 s)
    refine ⟨_, hperm, hsorted, ?_⟩
    intro errno out
    have hsuccess : ¬ (0 : ℤ) < 0 := lt_irrefl 0
    refine ⟨_, rfl, ?_⟩
    unfold pass
    rw [sorting_granted hc (hgranted hpos), if_neg hzero]
    dsimp only
    rw [if_neg hsuccess, printSorted_eq]
    rfl

end Calls

/-- **What the program prints**: the values it has drawn, and three times these values sorted,
greatest first. Without elements even the first call is refused. -/
theorem sortingMain_prints {e : Env w} {U : Set (Addr w)} (hw : 32 ≤ w) (hsize : 0 ≤ e.size.toInt)
    (hmax : e.size.toInt < 4096) (hstack : OnStack e U)
    (hgranted : 0 < e.size.toInt → Granted U (sortingCall e 1)) (s : Kernel w) :
    ∃ v : List Int32, v.Perm ((List.range e.n).map e.value) ∧ v.Pairwise (· ≥ ·) ∧
      sortingMain e s =
        .size e.size :: (List.range e.n).map (fun i => .unsorted i (e.value i)) ++
        [.passing .correctValues, .perror (if e.n = 0 then 14 else e.errno)] ++
          v.mapIdx Line.sortedArray ++
        [.passing .nullPointer, .perror 14] ++ v.mapIdx Line.sortedArray ++
        [.passing .negativeSize, .perror 14] ++ v.mapIdx Line.sortedArray := by
  have hn : (e.n : ℤ) = e.size.toInt := Int.toNat_of_nonneg hsize
  obtain ⟨hvalues, hlines⟩ := fill_spec (e := e) hw s (m := e.n) (by omega)
  -- the values of the array before the first call
  have hto_sort : (e.others 1 (fill e s e.n).1).elems e.to_sort e.n =
      (List.range e.n).map e.value := by
    rw [elems_agree hsize hstack.to_sort_mem (hstack.others 1 _)]
    exact List.map_congr_left fun i hi => hvalues i (List.mem_range.1 hi)
  obtain ⟨v, hperm, hsorted, hfirst⟩ := pass_first hw hsize hmax hstack hgranted (fill e s e.n).1
  rw [hto_sort] at hperm
  obtain ⟨s₁, hv, hpass⟩ := hfirst e.errno (.size e.size :: (fill e s e.n).2)
  have hnull : ¬ Checked (sortingCall e 2) := fun h => h.unsorted rfl
  have hsix : ¬ (0 : Int32) < -6 := by decide
  have hnegative : ¬ Checked (sortingCall e 3) := fun h => hsix h.size
  -- the array `sorted` after the other two
  have hv₂ : (e.others 2 s₁).elems e.sorted e.n = v :=
    (elems_agree hsize hstack.sorted_mem (hstack.others 2 s₁)).trans hv
  have hv₃ : (e.others 3 (e.others 2 s₁)).elems e.sorted e.n = v :=
    (elems_agree hsize hstack.sorted_mem (hstack.others 3 _)).trans hv₂
  refine ⟨v, hperm, hsorted, ?_⟩
  unfold sortingMain
  dsimp only [List.foldl_cons, List.foldl_nil]
  rw [hpass, pass_refused hnull, pass_refused hnegative]
  dsimp only
  rw [printSorted_eq, printSorted_eq, hv₂, hv₃, hlines]
  simp only [List.append_assoc, List.cons_append]
  rfl

/-- Two values. -/
def twoValues : Env 32 where
  size := 2
  to_sort := 0x1000
  sorted := 0x2000
  value i := if i = 0 then 3 else 7
  kmalloc _ := 0xc0008000
  from_left _ := 0
  to_left _ := 0
  others _ s := s
  errno := 0

theorem twoValues_stack : OnStack twoValues userSpace := by
  have hsize : 4 * twoValues.size.toInt = 8 := by decide
  refine ⟨by decide, by decide, ?_, ?_, fun _ _ _ _ => rfl⟩ <;> intro k hk0 hk <;>
    rw [hsize] at hk <;> interval_cases k <;> simp [userSpace, twoValues, off]

theorem twoValues_granted : Granted userSpace (sortingCall twoValues 1) := by
  have hsize : 4 * (sortingCall twoValues 1).size.toInt = 8 := by decide
  refine ⟨by decide, rfl, rfl, twoValues_stack.to_sort_mem, twoValues_stack.sorted_mem, ?_⟩
  intro k hk0 hk
  rw [hsize] at hk
  interval_cases k <;> simp [userSpace, sortingCall, twoValues, off]

theorem sortingMain_prints_twoValues :
    ∃ v : List Int32, v.Perm [3, 7] ∧ v.Pairwise (· ≥ ·) ∧
      ∃ out, sortingMain twoValues freshKernel = out ++ v.mapIdx Line.sortedArray := by
  obtain ⟨v, hperm, hsorted, hprints⟩ := sortingMain_prints (e := twoValues) le_rfl (by decide)
    (by decide) twoValues_stack (fun _ => twoValues_granted) freshKernel
  exact ⟨v, hperm, hsorted, _, hprints⟩

end Aesd.SortingMain
