import Aesd.Lib.OneByOne
import Aesd.Syscall.MmMap

/-!
# The addresses of a process in runs of `prctl(PR_SET_MM)`

* `map_in_order`: the map that a run leaves is the one it found or is in order.
* `heap_follows_data_iff`: the heap stays behind the data on machines of 64 bits, and on no other.
* `single_calls_iff`: without a data limit, calls for single addresses lead from a valid map to
  exactly the valid ones, as one call for the whole map does.
-/

namespace Aesd.MmMap

open CRecord

variable {w : ℕ} {φ : Type}

section Runs

variable [DecidableEq φ] {k : Machine w} {m : Member → BitVec w} {s s' : Mm k φ}
  {as : List (Answers k φ × Call w)}

/-- **What a run makes of the map**: nothing, or a map in order; and of the program's file:
nothing, or a file that the caller had open and might execute. -/
theorem map_in_order (hw : w ≤ 64) (hr : Lts.Run (Lts.Steps step) s as s') :
    (s'.member = s.member ∨ InOrder k s'.member) ∧
      (s'.exeFile = s.exeFile ∨
        ∃ a ∈ as, ∃ path, Executable a.1 path ∧ s'.exeFile = some path) := by
  induction hr with
  | nil => exact ⟨.inl rfl, .inl rfl⟩
  | @snoc as s₁ s' a run next ih =>
    obtain ⟨hmember, hexe⟩ := ih
    have hkept : s₁.exeFile = s.exeFile ∨
        ∃ b ∈ as ++ [a], ∃ path, Executable b.1 path ∧ s₁.exeFile = some path := by
      rcases hexe with hexe | ⟨b, hb, hexe⟩
      · exact .inl hexe
      · exact .inr ⟨b, List.mem_append_left _ hb, hexe⟩
    have hnew : ∀ path, Executable a.1 path → ∃ b ∈ as ++ [a], ∃ path', Executable b.1 path' ∧
        some path = some path' :=
      fun path hpath => ⟨a, List.mem_append_right _ (List.mem_singleton_self _), path, hpath, rfl⟩
    obtain rfl := Option.some.inj next
    have heffect : Effect a.1 s₁ (prctlSetMm a.1 s₁ a.2) := effect hw a.2
    generalize prctlSetMm a.1 s₁ a.2 = result at heffect
    cases heffect with
    | failed | asked | auxv => exact ⟨hmember, hkept⟩
    | exe path hpath => exact ⟨hmember, .inr (hnew path hpath)⟩
    | member f addr hvalid => exact ⟨.inr hvalid.toInOrder, hkept⟩
    | map member auxv exeFile horder hafter hauxv hexe =>
      refine ⟨.inr horder, ?_⟩
      rcases hexe with rfl | ⟨path, hpath, rfl⟩
      · exact hkept
      · exact .inr (hnew path hpath)

/-- The end of the heap is moved up, and the end of the data is not moved over it. -/
theorem map_in_order_brk :
    ∃ s' : Mm wide ℕ, s'.member .brk = 0x30000 ∧ s'.member .endData = 0x20001 ∧
      (s'.member = lined 0x20000 ∨ InOrder wide s'.member) := by
  let s : Mm wide ℕ := ⟨lined 0x20000, Rec.zero, none⟩
  have hr : Lts.Run (Lts.Steps step) s
      [(willing none, setMember .brk 0x30000), (willing none, setMember .endData 0x30001)]
      (prctlSetMm (willing none) (prctlSetMm (willing none) s (setMember .brk 0x30000)).2
        (setMember .endData 0x30001)).2 :=
    (Lts.Run.nil.snoc rfl).snoc rfl
  exact ⟨_, by decide, by decide, (map_in_order (le_refl _) hr).1⟩

/-! ### The heap and the data -/

theorem valid_step (hw : w = 64) {a : Answers k φ × Call w} (h : Valid k s.member)
    (hs : step s a = some s') : Valid k s'.member := by
  subst hw
  obtain rfl := Option.some.inj hs
  have heffect : Effect a.1 s (prctlSetMm a.1 s a.2) := effect (le_refl _) a.2
  generalize prctlSetMm a.1 s a.2 = result at heffect
  cases heffect with
  | failed | asked | auxv | exe => exact h
  | member f addr hvalid => exact hvalid
  | map member auxv exeFile horder hafter hauxv hexe =>
    refine ⟨horder, ?_⟩
    simpa only [BitVec.setWidth_eq] using hafter

/-- A map that is let through is taken over. -/
theorem step_setMap (hk : k.checkpointRestore = true) {member : Member → BitVec 64}
    (horder : InOrder k fun f => (member f).setWidth w)
    (hstart : member .endData < member .startBrk) (hbrk : member .endData < member .brk)
    (mm : Mm k φ) :
    step mm (willing (some ⟨member, 0, 0, -1⟩), setMap k) =
      some { mm with member := fun f => (member f).setWidth w } := by
  have hvalid : validatePrctlMap (willing (some ⟨member, 0, 0, -1⟩) : Answers k φ)
      ⟨member, 0, 0, -1⟩ = .ok () :=
    validatePrctlMap_ok.2 ⟨horder, ⟨hstart, hbrk⟩, rfl, fun h => absurd rfl h, fun h => absurd rfl h⟩
  unfold step prctlSetMm prctlSetMmMap setMap
  dsimp only
  rw [if_neg (by simp), if_pos ⟨hk, .inl rfl⟩, if_neg (by simp), if_neg (by simp)]
  have huser : (willing (some ⟨member, 0, 0, -1⟩) : Answers k φ).userMap =
      some ⟨member, 0, 0, -1⟩ := rfl
  rw [huser]
  dsimp only
  rw [hvalid]
  rfl

/-- The same for addresses of 64 bits, of which those of the heap are low in `w` bits only. -/
def tooHigh (w : ℕ) : Member → ℕ
  | .endCode | .endData => 1
  | .startBrk | .brk => 2 ^ w
  | _ => 0

/-- What is left of them in `w` bits: a heap before the end of the data. -/
def fallen : Member → ℕ
  | .endCode | .endData => 1
  | _ => 0

section Room

-- there are three addresses to use from `a` on
variable {a : BitVec w} (hmin : k.mmapMinAddr ≤ a) (hmax : a.toNat + 2 < k.TASK_SIZE.toNat)
include hmin hmax

omit [DecidableEq φ] in
theorem inOrder_of_toNat {n : Member → ℕ} (hm : ∀ f, (m f).toNat = a.toNat + n f)
    (hn : ∀ f, n f ≤ 2) (hcode : n .startCode < n .endCode) (hdata : n .startData < n .endData)
    (hheap : n .startBrk ≤ n .brk) (hargs : n .argStart ≤ n .argEnd)
    (henvs : n .envStart ≤ n .envEnd) : InOrder k m := by
  have hlt : ∀ f g, n f < n g → m f < m g := by
    intro f g h
    rw [BitVec.lt_def, hm, hm]
    omega
  have hle : ∀ f g, n f ≤ n g → m f ≤ m g := by
    intro f g h
    rw [BitVec.le_def, hm, hm]
    omega
  refine ⟨?_, hlt _ _ hcode, hlt _ _ hdata, hle _ _ hheap, hle _ _ hargs, hle _ _ henvs⟩
  intro f
  have hf := hn f
  rw [BitVec.le_def] at hmin ⊢
  rw [BitVec.lt_def, hm]
  omega

omit [DecidableEq φ] in
theorem valid_lined : Valid k (lined a) := by
  have hsize := k.TASK_SIZE.isLt
  have hle : ∀ f, lowest f ≤ 2 := by
    intro f
    cases f <;> decide
  have hm : ∀ f, (lined a f).toNat = a.toNat + lowest f := by
    intro f
    have hf := hle f
    unfold lined
    rw [BitVec.toNat_add, BitVec.toNat_ofNat, Nat.add_mod_mod, Nat.mod_eq_of_lt (by omega)]
  refine ⟨inOrder_of_toNat hmin hmax hm hle (by decide) (by decide) (by decide) (by decide)
    (by decide), ?_⟩
  rw [BitVec.lt_def, hm, hm]
  exact Nat.add_lt_add_left (by decide) _

omit hmin

omit [DecidableEq φ] in
theorem toNat_tooHigh (hw : w < 64) (f : Member) :
    (BitVec.ofNat 64 (a.toNat + tooHigh w f)).toNat = a.toNat + tooHigh w f := by
  have hsize := k.TASK_SIZE.isLt
  have hpow : 2 ^ (w + 1) ≤ 2 ^ 64 := Nat.pow_le_pow_right (by decide) hw
  rw [pow_succ] at hpow
  have hle : tooHigh w f ≤ 2 ^ w := by
    cases f <;> simp [tooHigh, Nat.one_le_two_pow]
  rw [BitVec.toNat_ofNat, Nat.mod_eq_of_lt (by omega)]

omit [DecidableEq φ] in
theorem toNat_fallen (hw : w < 64) (f : Member) :
    ((BitVec.ofNat 64 (a.toNat + tooHigh w f)).setWidth w).toNat = a.toNat + fallen f := by
  have hsize := k.TASK_SIZE.isLt
  rw [BitVec.toNat_setWidth, toNat_tooHigh hmax hw]
  have hmod : (a.toNat + tooHigh w f) % 2 ^ w = (a.toNat + fallen f) % 2 ^ w := by
    cases f <;> simp [tooHigh, fallen]
  have hle : fallen f ≤ 1 := by
    cases f <;> decide
  rw [hmod, Nat.mod_eq_of_lt (by omega)]

end Room

/-- **The heap stays behind the data** in every run on a machine of 64 bits, and on no machine of
fewer: there the heap is compared before its high bits are cut off. -/
theorem heap_follows_data_iff (hw : w ≤ 64)
    (hroom : k.mmapMinAddr.toNat + 2 < k.TASK_SIZE.toNat) (hk : k.checkpointRestore = true) :
    (∀ (s s' : Mm k φ) as, Valid k s.member → Lts.Run (Lts.Steps step) s as s' →
      Valid k s'.member) ↔ w = 64 := by
  refine ⟨?_, ?_⟩
  · intro h
    by_contra hne
    have hw : w < 64 := by omega
    have hle : ∀ f, fallen f ≤ 2 := by
      intro f
      cases f <;> decide
    have horder : InOrder k fun f =>
        (BitVec.ofNat 64 (k.mmapMinAddr.toNat + tooHigh w f)).setWidth w :=
      inOrder_of_toNat (BitVec.le_refl _) hroom (toNat_fallen hroom hw) hle (by decide) (by decide)
        (by decide) (by decide) (by decide)
    have hpow : 1 < 2 ^ w := by
      have hsize := k.TASK_SIZE.isLt
      omega
    have hhigh : ∀ f g, tooHigh w f < tooHigh w g →
        BitVec.ofNat 64 (k.mmapMinAddr.toNat + tooHigh w f) <
          BitVec.ofNat 64 (k.mmapMinAddr.toNat + tooHigh w g) := by
      intro f g hfg
      rw [BitVec.lt_def, toNat_tooHigh hroom hw, toNat_tooHigh hroom hw]
      omega
    let s : Mm k φ := ⟨lined k.mmapMinAddr, Rec.zero, none⟩
    have hset := step_setMap hk horder (hhigh _ _ hpow) (hhigh _ _ hpow) s
    have hvalid : Valid k s.member := valid_lined (BitVec.le_refl _) hroom
    have hafter := (h s _ _ hvalid (Lts.Run.nil.snoc hset)).after
    dsimp only at hafter
    rw [BitVec.lt_def, toNat_fallen hroom hw, toNat_fallen hroom hw] at hafter
    exact Nat.not_lt_of_le (Nat.add_le_add_left (by decide) _) hafter
  · intro hw s s' as h hr
    exact hr.invariant (I := fun s => Valid k s.member) h fun h hs => valid_step hw h hs

/-- A machine of 32 bits. -/
def narrow : Machine 32 := ⟨0xbf000000, 0x1000, 44, 104, true⟩

theorem heap_follows_data_iff_narrow :
    ¬ ∀ (s s' : Mm narrow ℕ) as, Valid narrow s.member → Lts.Run (Lts.Steps step) s as s' →
      Valid narrow s'.member := by
  rw [heap_follows_data_iff (by decide) (by decide) rfl]
  decide

/-! ### Calls for single addresses -/

def strictPairs : List (Member × Member) :=
  [(.startCode, .endCode), (.startData, .endData), (.endData, .startBrk)]

def weakPairs : List (Member × Member) :=
  [(.startBrk, .brk), (.argStart, .argEnd), (.envStart, .envEnd)]

/-- A valid map as one that keeps to rules on single addresses and on pairs. -/
def rules (k : Machine w) : OneByOne.Rules Member (BitVec w) ℕ where
  key := BitVec.toNat
  single _ a := k.mmapMinAddr ≤ a ∧ a < k.TASK_SIZE
  pair f g a b := ((f, g) ∈ strictPairs → a.toNat < b.toNat) ∧
    ((f, g) ∈ weakPairs → a.toNat ≤ b.toNat)
  pair_mono _ _ _ _ _ _ h ha hb :=
    ⟨fun hfg => lt_of_le_of_lt ha (lt_of_lt_of_le (h.1 hfg) hb),
      fun hfg => le_trans ha (le_trans (h.2 hfg) hb)⟩

omit [DecidableEq φ] in
theorem solution_iff : (rules k).Solution m ↔ Valid k m := by
  refine ⟨?_, ?_⟩
  · rintro ⟨hsingle, hpair⟩
    exact ⟨⟨hsingle, (hpair _ _).1 (by decide), (hpair _ _).1 (by decide),
      (hpair _ _).2 (by decide), (hpair _ _).2 (by decide), (hpair _ _).2 (by decide)⟩,
      (hpair _ _).1 (by decide)⟩
  · intro h
    refine ⟨h.range, ?_⟩
    intro f g
    refine ⟨?_, ?_⟩
    · intro hfg
      simp only [strictPairs, List.mem_cons, Prod.mk.injEq, List.not_mem_nil, or_false] at hfg
      rcases hfg with ⟨rfl, rfl⟩ | ⟨rfl, rfl⟩ | ⟨rfl, rfl⟩
      · exact h.code
      · exact h.data
      · exact h.after
    · intro hfg
      simp only [weakPairs, List.mem_cons, Prod.mk.injEq, List.not_mem_nil, or_false] at hfg
      rcases hfg with ⟨rfl, rfl⟩ | ⟨rfl, rfl⟩ | ⟨rfl, rfl⟩
      · exact h.heap
      · exact h.args
      · exact h.envs

omit [DecidableEq φ] in
/-- In the order of the table the rules go forward. -/
theorem forward_offsets : (rules k).Forward offsets := by
  have hfree : ∀ (f : Member) (l : List Member),
      (∀ g ∉ f :: l, (f, g) ∉ strictPairs ∧ (f, g) ∉ weakPairs) →
      ∀ g, g ∉ f :: l → ∀ a b, (rules k).pair f g a b := by
    intro f l h g hg a b
    exact ⟨fun hfg => absurd hfg (h g hg).1, fun hfg => absurd hfg (h g hg).2⟩
  unfold offsets
  refine ⟨hfree _ _ ?_, hfree _ _ ?_, hfree _ _ ?_, hfree _ _ ?_, hfree _ _ ?_, hfree _ _ ?_,
    hfree _ _ ?_, hfree _ _ ?_, hfree _ _ ?_, hfree _ _ ?_, hfree _ _ ?_, trivial⟩
  all_goals
    intro g
    cases g <;> decide

/-- A call for one address, without a data limit. -/
def Single (_ : Mm k φ) (a : Answers k φ × Call w) : Prop :=
  (∃ f, a.2.opt = .member f) ∧
    ∀ brk startBrk endData startData,
      a.1.checkDataRlimit brk startBrk endData startData = true

/-- What is left of `prctl_set_mm` for one address. -/
theorem prctlSetMm_member {c : Call w} {f : Member} (hf : c.opt = .member f) (ans : Answers k φ)
    (mm : Mm k φ) :
    prctlSetMm ans mm c =
      if c.arg5 ≠ 0 ∨ c.arg4 ≠ 0 then (.error .EINVAL, mm)
      else if ans.capSysResource = false then (.error .EPERM, mm)
      else if k.TASK_SIZE ≤ c.addr ∨ c.addr < k.mmapMinAddr then (.error .EINVAL, mm)
      else prctlSetMember ans mm f c.addr := by
  unfold prctlSetMm
  simp [hf]

theorem single_step (hw : w ≤ 64) {a : Answers k φ × Call w} (h : Valid k s.member)
    (hs : step s a = some s') (hsingle : Single s a) : Valid k s'.member := by
  obtain ⟨⟨f, hf⟩, -⟩ := hsingle
  obtain rfl := Option.some.inj hs
  rw [prctlSetMm_member hf]
  split_ifs
  · exact h
  · exact h
  · exact h
  · rcases member_cases hw a.1 s f a.2.addr with ⟨e, hset⟩ | ⟨hvalid, hset⟩
    · rw [hset]
      exact h
    · rw [hset]
      exact hvalid

/-- A change from a map to a valid one is one call. -/
theorem step_setMember (hw : w ≤ 64) {f : Member} {addr : BitVec w}
    (hvalid : Valid k (Function.update s.member f addr)) :
    step s (willing none, setMember f addr) =
      some { s with member := Function.update s.member f addr } := by
  have hok : validatePrctlMap (willing none : Answers k φ)
      ⟨fun g => (Function.update s.member f addr g).setWidth 64, 0, 0, -1⟩ = .ok () := by
    refine validatePrctlMap_ok.2 ⟨?_, ⟨?_, ?_⟩, rfl, fun h => absurd rfl h, fun h => absurd rfl h⟩
    · simp only [setWidth_back hw]
      exact hvalid.toInOrder
    · exact (setWidth_lt hw).2 hvalid.after
    · exact (setWidth_lt hw).2 hvalid.brk_after
  have haddr := hvalid.range f
  rw [Function.update_self] at haddr
  have hrange : ¬ (k.TASK_SIZE ≤ (setMember f addr).addr ∨ (setMember f addr).addr < k.mmapMinAddr) := by
    rw [not_or, BitVec.not_le, BitVec.not_lt]
    exact haddr.symm
  have hargs : ¬ ((setMember f addr).arg5 ≠ 0 ∨ (setMember f addr).arg4 ≠ 0) := by
    simp [setMember]
  have hcapable : ¬ (willing none : Answers k φ).capSysResource = false := by
    simp [willing]
  have hvma : ¬ (onStack f = true ∧ (willing none : Answers k φ).findVma = false) := by
    simp [willing]
  unfold step
  rw [prctlSetMm_member rfl, if_neg hargs, if_neg hcapable, if_neg hrange]
  unfold prctlSetMember
  dsimp only [setMember]
  rw [hok]
  dsimp only
  rw [if_neg hvma]
  simp only [setWidth_back hw]

/-- **One address at a time.** Without a data limit, calls for single addresses lead from a valid
map to exactly the valid ones; on a machine of 64 bits so does one call for the whole map. -/
theorem single_calls_iff (hw : w ≤ 64) (h : Valid k s.member) (m : Member → BitVec w) :
    ((∃ as s', Lts.Run (Lts.When Single (Lts.Steps step)) s as s' ∧ s'.member = m) ↔ Valid k m) ∧
      (w = 64 → k.checkpointRestore = true →
        ((∃ ans s', step s (ans, setMap k) = some s' ∧ s'.member = m) ↔ Valid k m)) := by
  refine ⟨⟨?_, ?_⟩, ?_⟩
  · rintro ⟨as, s', hr, rfl⟩
    exact hr.invariant (I := fun s => Valid k s.member) h
      fun h hs => single_step hw h hs.1 hs.2
  · intro hm
    have hpath := OneByOne.Rules.connected mem_offsets forward_offsets (solution_iff.2 h)
      (solution_iff.2 hm)
    induction hpath with
    | refl => exact ⟨[], s, .nil, rfl⟩
    | @tail m₁ m₂ path change ih =>
      obtain ⟨hm₁, hm₂, f, addr, rfl⟩ := change
      obtain ⟨as, s₁, hr, rfl⟩ := ih (solution_iff.1 hm₁)
      refine ⟨_, _, hr.snoc ⟨step_setMember hw (solution_iff.1 hm₂), ⟨f, rfl⟩, ?_⟩, rfl⟩
      exact fun _ _ _ _ => rfl
  · intro hw64 hk
    refine ⟨?_, ?_⟩
    · rintro ⟨ans, s', hs, rfl⟩
      exact valid_step hw64 h hs
    · intro hm
      have horder : InOrder k fun f => ((m f).setWidth 64).setWidth w := by
        simp only [setWidth_back hw]
        exact hm.toInOrder
      have hset := step_setMap hk horder ((setWidth_lt hw).2 hm.after)
        ((setWidth_lt hw).2 hm.brk_after) s
      simp only [setWidth_back hw] at hset
      exact ⟨_, _, hset, rfl⟩

/-- A map is moved up, call by call. -/
theorem single_calls_iff_lined :
    ∃ as, ∃ s' : Mm wide ℕ, Lts.Run (Lts.When Single (Lts.Steps step))
      ⟨lined 0x20000, Rec.zero, none⟩ as s' ∧ s'.member = lined 0x20001 := by
  have h : Valid wide (lined 0x20000) := valid_lined (by decide) (by decide)
  exact (single_calls_iff (le_refl _) h (lined 0x20001)).1.2 (valid_lined (by decide) (by decide))

end Runs

end Aesd.MmMap
