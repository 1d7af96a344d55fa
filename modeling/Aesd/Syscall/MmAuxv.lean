import Aesd.Syscall.MmMap

/-!
# The auxiliary vector in runs of `prctl(PR_SET_MM)`

* `auxv_terminated`: the vector ends with two zero words, and shows nothing of the kernel's stack.
-/

namespace Aesd.MmMap

open CString CRecord

variable {w : ℕ} {φ : Type}

section Runs

variable [DecidableEq φ] {k : Machine w} {s s' : Mm k φ} {as : List (Answers k φ × Call w)}

/-- The last two words are zero. -/
def Terminated (auxv : Rec k.auxvSize) : Prop :=
  auxv.bytes.drop ((k.AT_VECTOR_SIZE - 2) * (w / 8)) = List.replicate (2 * (w / 8)) 0

/-- Calls that differ in nothing but the kernel's stack. -/
def SameButStack (a b : Answers k φ × Call w) : Prop :=
  ∃ stack, b = ({ a.1 with stack := stack }, a.2)

section Auxv

omit [DecidableEq φ] in
theorem Terminated.put {auxv new : Rec k.auxvSize} (h : Terminated auxv) (hnew : Terminated new)
    {n : ℕ} (hn : n ≤ k.auxvSize) : Terminated (auxv.put 0 (new.bytes.take n)) := by
  have hlen : (new.bytes.take n).length = n := by
    rw [List.length_take, new.size, min_eq_left hn]
  unfold Terminated at h hnew ⊢
  generalize (k.AT_VECTOR_SIZE - 2) * (w / 8) = o at h hnew ⊢
  rw [Rec.put_bytes _ (by omega), hlen, List.take_zero, List.nil_append, zero_add,
    List.drop_append, hlen, List.drop_take, List.drop_drop, hnew]
  have hback : auxv.bytes.drop (n + (o - n)) = (auxv.bytes.drop o).drop (n - o) := by
    rw [List.drop_drop]
    congr 1
    omega
  rw [hback, h, List.take_append_drop]

variable (hk : 2 ≤ k.AT_VECTOR_SIZE)
include hk

omit [DecidableEq φ] in
theorem auxvSize_eq : k.auxvSize = (k.AT_VECTOR_SIZE - 2) * (w / 8) + 2 * (w / 8) := by
  rw [← add_mul, Nat.sub_add_cancel hk]
  rfl

omit [DecidableEq φ] in
theorem terminated_bytes (auxv : Rec k.auxvSize) :
    (terminated auxv).bytes = auxv.bytes.take ((k.AT_VECTOR_SIZE - 2) * (w / 8)) ++
      List.replicate (2 * (w / 8)) 0 := by
  have hsize := auxvSize_eq hk
  have hnext : (k.AT_VECTOR_SIZE - 1) * (w / 8) = (k.AT_VECTOR_SIZE - 2) * (w / 8) + w / 8 := by
    rw [← Nat.succ_mul]
    congr 1
    omega
  have htake : (auxv.bytes.take ((k.AT_VECTOR_SIZE - 2) * (w / 8))).length =
      (k.AT_VECTOR_SIZE - 2) * (w / 8) := by
    rw [List.length_take, auxv.size]
    omega
  unfold terminated
  rw [hnext, Rec.put_bytes, Rec.put_bytes]
  · rw [List.length_replicate, List.take_left', List.drop_of_length_le, List.append_nil,
      List.append_assoc, List.replicate_append_replicate, two_mul]
    · simp only [List.length_append, List.length_drop, List.length_replicate, htake, auxv.size]
      omega
    · rw [List.length_append, htake, List.length_replicate]
  · rw [List.length_replicate]
    omega
  · rw [List.length_replicate]
    omega

omit [DecidableEq φ] in
theorem terminated_terminated (auxv : Rec k.auxvSize) : Terminated (terminated auxv) := by
  have hsize := auxvSize_eq hk
  unfold Terminated
  rw [terminated_bytes hk]
  refine List.drop_left' ?_
  rw [List.length_take, auxv.size]
  omega

omit [DecidableEq φ] in
/-- What is copied of a vector does not show what it was before. -/
theorem take_terminated (old old' : Rec k.auxvSize) {bytes : List Byte}
    (hlen : bytes.length ≤ k.auxvSize) :
    (terminated (old.put 0 bytes)).bytes.take bytes.length =
      (terminated (old'.put 0 bytes)).bytes.take bytes.length := by
  have hsize := auxvSize_eq hk
  have hboth : ∀ r : Rec k.auxvSize, (terminated (r.put 0 bytes)).bytes.take bytes.length =
      bytes.take (min bytes.length ((k.AT_VECTOR_SIZE - 2) * (w / 8))) ++
        (List.replicate (2 * (w / 8)) 0).take
          (bytes.length - (k.AT_VECTOR_SIZE - 2) * (w / 8)) := by
    intro r
    have htake : ((r.put 0 bytes).bytes.take ((k.AT_VECTOR_SIZE - 2) * (w / 8))).length =
        (k.AT_VECTOR_SIZE - 2) * (w / 8) := by
      rw [List.length_take, (r.put 0 bytes).size]
      omega
    rw [terminated_bytes hk, List.take_append, htake, List.take_take, Rec.put_bytes r (by omega),
      List.take_zero, List.nil_append, List.take_append_of_le_length (min_le_left _ _)]
  rw [hboth, hboth]

/-- The auxiliary vector in a call. -/
theorem terminated_step (hw : w ≤ 64) {a : Answers k φ × Call w} (h : Terminated s.savedAuxv)
    (hs : step s a = some s') : Terminated s'.savedAuxv := by
  obtain rfl := Option.some.inj hs
  have heffect : Effect a.1 s (prctlSetMm a.1 s a.2) := effect hw a.2
  generalize prctlSetMm a.1 s a.2 = result at heffect
  cases heffect with
  | failed | asked | exe | member => exact h
  | auxv bytes hlen => exact h.put (terminated_terminated hk _) hlen
  | map member auxv exeFile horder hafter hauxv hexe =>
    cases hauxv with
    | kept => exact h
    | given bytes => exact terminated_terminated hk _

omit [DecidableEq φ] in
theorem stack_auxv (ans : Answers k φ) (stack : Rec k.auxvSize) (mm : Mm k φ) (addr len : BitVec w) :
    prctlSetAuxv { ans with stack := stack } mm addr len = prctlSetAuxv ans mm addr len := by
  unfold prctlSetAuxv
  by_cases hlen : k.auxvSize < len.toNat
  · rw [if_pos hlen, if_pos hlen]
  · rw [if_neg hlen, if_neg hlen]
    have hsame : copyFromUser { ans with stack := stack } addr len.toNat =
        copyFromUser ans addr len.toNat := rfl
    rw [hsame]
    cases hcopy : copyFromUser ans addr len.toNat with
    | none => rfl
    | some bytes =>
      have hbytes : bytes.length = len.toNat := length_copyFromUser hcopy
      dsimp only
      rw [← hbytes, take_terminated hk stack ans.stack (by omega)]

/-- The stack of the kernel makes no difference. -/
theorem stack_step {a b : Answers k φ × Call w} (hab : SameButStack a b) : step s b = step s a := by
  obtain ⟨stack, rfl⟩ := hab
  unfold step prctlSetMm
  rw [stack_auxv hk]
  rfl

/-- **The auxiliary vector** ends with two zero words in every run, and what it holds does not
come from the kernel's stack, although the vector is built there. -/
theorem auxv_terminated (hw : w ≤ 64) (h : Terminated s.savedAuxv)
    (hr : Lts.Run (Lts.Steps step) s as s') :
    Terminated s'.savedAuxv ∧
      ∀ bs s'', List.Forall₂ SameButStack as bs → Lts.Run (Lts.Steps step) s bs s'' → s'' = s' := by
  refine ⟨?_, ?_⟩
  · exact hr.invariant (I := fun s => Terminated s.savedAuxv) h
      fun h hs => terminated_step hk hw h hs
  · intro bs s'' hsame hr'
    clear h
    induction hsame generalizing s with
    | nil => rw [hr.nil_inv, hr'.nil_inv]
    | @cons a b as bs hab _ ih =>
      obtain ⟨s₁, hs₁, hrest⟩ := hr.cons_inv
      obtain ⟨s₂, hs₂, hrest'⟩ := hr'.cons_inv
      have hstep : step s b = step s a := stack_step hk hab
      have heq : s₂ = s₁ := Option.some.inj (hs₂.symm.trans (hstep.trans hs₁))
      rw [heq] at hrest'
      exact ih hrest hrest'

end Auxv

theorem terminated_zero : Terminated (Rec.zero : Rec wide.auxvSize) := by
  unfold Terminated
  rw [Rec.zero, List.drop_replicate]
  congr 1

/-- The whole vector is filled with ones: its last sixteen bytes stay zero. -/
theorem auxv_terminated_ones :
    ∃ s' : Mm wide ℕ, step ⟨lined 0x20000, Rec.zero, none⟩
        ({ (willing none : Answers wide ℕ) with user := fun _ => 1, readable := fun _ _ => true },
          ⟨.auxv, 0, 368, 0⟩) = some s' ∧
      s'.savedAuxv.bytes.drop 352 = List.replicate 16 0 := by
  have hk : 2 ≤ wide.AT_VECTOR_SIZE := by decide
  refine ⟨_, rfl, ?_⟩
  exact (auxv_terminated hk (le_refl _) terminated_zero (Lts.Run.nil.snoc rfl)).1

end Runs

end Aesd.MmMap
