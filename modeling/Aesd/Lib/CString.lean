import Mathlib.Tactic
import Mathlib.Data.List.Lex
import Mathlib.Data.List.TakeWhile
import Mathlib.Data.BitVec

/-!
# NUL-terminated byte strings

A `char*` is seen as the bytes from it on; its text ends before the first NUL. `strcmp`
compares two such byte lists as unsigned characters and only its sign matters. On texts
(`CStr`: lists without NUL) it is the lexicographic order: `strcmp_eq_zero`,
`strcmp_neg_iff`.
-/

namespace CString

abbrev Byte := BitVec 8

/-- The bytes of a string literal. -/
def ascii (s : String) : List Byte := s.toList.map fun c => BitVec.ofNat 8 c.toNat

/-- The text at a pointer: the bytes before the first NUL. -/
def text (bs : List Byte) : List Byte := bs.takeWhile (· ≠ 0)

@[simp]
theorem text_nil : text [] = [] := rfl

theorem text_zero (bs : List Byte) : text (0 :: bs) = [] := rfl

theorem text_cons {b : Byte} (h : b ≠ 0) (bs : List Byte) : text (b :: bs) = b :: text bs := by
  unfold text
  rw [List.takeWhile_cons_of_pos (by simpa using h)]

theorem text_append {s : List Byte} (h : (0 : Byte) ∉ s) (rest : List Byte) :
    text (s ++ rest) = s ++ text rest := by
  induction s with
  | nil => rfl
  | cons b s ih =>
    rw [List.mem_cons, not_or] at h
    rw [List.cons_append, text_cons (fun hb => h.1 hb.symm), ih h.2, List.cons_append]

theorem text_append_nul {s : List Byte} (h : (0 : Byte) ∉ s) (rest : List Byte) :
    text (s ++ 0 :: rest) = s := by
  rw [text_append h, text_zero, List.append_nil]

theorem nul_notMem_text (bs : List Byte) : (0 : Byte) ∉ text bs := by
  intro h
  have hne := List.mem_takeWhile_imp (p := fun b : Byte => decide (b ≠ 0)) h
  exact of_decide_eq_true hne rfl

theorem text_eq_self {s : List Byte} (h : (0 : Byte) ∉ s) : text s = s := by
  have := text_append h []
  rwa [List.append_nil, text_nil, List.append_nil] at this

/-- A text that ends inside a list is not changed by what follows the list. -/
theorem text_append_of_lt {bs : List Byte} (h : (text bs).length < bs.length)
    (rest : List Byte) : text (bs ++ rest) = text bs := by
  induction bs with
  | nil => simp at h
  | cons b bs ih =>
    by_cases hb : b = 0
    · rw [hb, List.cons_append, text_zero, text_zero]
    · rw [text_cons hb, List.length_cons, List.length_cons] at h
      rw [List.cons_append, text_cons hb, text_cons hb, ih (by omega)]

/-- A text that ends before what follows the list ends inside it. -/
theorem text_of_append_lt {bs rest : List Byte} (h : (text (bs ++ rest)).length < bs.length) :
    text bs = text (bs ++ rest) := by
  induction bs with
  | nil => simp at h
  | cons b bs ih =>
    by_cases hb : b = 0
    · rw [hb, List.cons_append, text_zero, text_zero]
    · rw [List.cons_append, text_cons hb, List.length_cons, List.length_cons] at h
      rw [List.cons_append, text_cons hb, text_cons hb, ih (by omega)]

/-- A text shorter than its list is followed by a NUL. -/
theorem nul_mem_of_lt {bs : List Byte} (h : (text bs).length < bs.length) : (0 : Byte) ∈ bs := by
  by_contra hn
  rw [text_eq_self hn] at h
  exact lt_irrefl _ h

/-- The sign of `strcmp`; past the end of a list there is a NUL. -/
def strcmp : List Byte → List Byte → ℤ
  | [], ct => if ct.headD 0 = 0 then 0 else -1
  | c :: cs, ct =>
    if c ≠ ct.headD 0 then (if c.toNat < (ct.headD 0).toNat then -1 else 1)
    else if c = 0 then 0
    else strcmp cs ct.tail

/-- `strcmp` looks at the texts only. -/
theorem strcmp_eq_zero (cs ct : List Byte) : strcmp cs ct = 0 ↔ text cs = text ct := by
  induction cs generalizing ct with
  | nil =>
    cases ct with
    | nil => exact iff_of_true rfl rfl
    | cons d ct =>
      by_cases hd : d = 0
      · subst hd
        exact iff_of_true rfl rfl
      · rw [strcmp, List.headD_cons, if_neg hd, text_cons hd, text_nil]
        exact iff_of_false (by decide) (by simp)
  | cons c cs ih =>
    -- `ct` by its first character, which past its end is a NUL
    have hct : text ct = if ct.headD 0 = 0 then [] else ct.headD 0 :: text ct.tail := by
      cases ct with
      | nil => rfl
      | cons d ct =>
        by_cases hd : d = 0
        · rw [List.headD_cons, if_pos hd, hd, text_zero]
        · rw [List.headD_cons, if_neg hd, text_cons hd, List.tail_cons]
    rw [strcmp, hct]
    by_cases hc : c = ct.headD 0
    · rw [if_neg (not_not.2 hc), ← hc]
      by_cases h0 : c = 0
      · rw [if_pos h0, if_pos h0, h0, text_zero]
        exact iff_of_true rfl rfl
      · rw [if_neg h0, if_neg h0, ih, text_cons h0, List.cons.injEq]
        exact ⟨fun h => ⟨rfl, h⟩, fun h => h.2⟩
    · -- the first characters differ, and so do the texts
      rw [if_pos hc]
      refine iff_of_false (by split <;> omega) (fun he => ?_)
      by_cases h0 : c = 0
      · rw [h0, text_zero] at he
        rw [h0] at hc
        rw [if_neg (Ne.symm hc)] at he
        exact List.cons_ne_nil _ _ he.symm
      · rw [text_cons h0] at he
        by_cases hd : ct.headD 0 = 0
        · rw [if_pos hd] at he
          exact List.cons_ne_nil _ _ he
        · rw [if_neg hd, List.cons.injEq] at he
          exact hc he.1

/-- A text: a list of bytes without NUL. -/
@[ext]
structure CStr where
  bytes : List Byte
  no_nul : (0 : Byte) ∉ bytes

namespace CStr

/-- The characters as unsigned numbers, in the order `strcmp` compares them. -/
def key (s : CStr) : List ℕ := s.bytes.map BitVec.toNat

theorem key_injective : Function.Injective key := by
  intro s t h
  exact CStr.ext (List.map_injective_iff.2 (fun _ _ => BitVec.eq_of_toNat_eq) h)

/-- The lexicographic order of the characters. -/
instance : LinearOrder CStr := LinearOrder.lift' key key_injective

end CStr

theorem strcmp_neg_iff_key {cs ct : List Byte} (h1 : (0 : Byte) ∉ cs) (h2 : (0 : Byte) ∉ ct) :
    strcmp cs ct < 0 ↔ cs.map BitVec.toNat < ct.map BitVec.toNat := by
  induction cs generalizing ct with
  | nil =>
    cases ct with
    | nil => exact iff_of_false (by decide) (lt_irrefl _)
    | cons d ct =>
      have hd : d ≠ 0 := fun hd => h2 (hd ▸ List.mem_cons_self)
      rw [strcmp, List.headD_cons, if_neg hd]
      exact iff_of_true (by decide) (List.nil_lt_cons _ _)
  | cons c cs ih =>
    rw [List.mem_cons, not_or] at h1
    have hc : c ≠ 0 := fun hc => h1.1 hc.symm
    cases ct with
    | nil =>
      rw [strcmp, List.headD_nil, if_pos hc]
      refine iff_of_false (by split <;> simp_all) (List.not_lt_nil _)
    | cons d ct =>
      rw [List.mem_cons, not_or] at h2
      rw [strcmp, List.map_cons, List.map_cons, List.cons_lt_cons_iff, List.headD_cons]
      by_cases hcd : c = d
      · subst hcd
        rw [if_neg (not_not.2 rfl), if_neg hc, List.tail_cons, ih h1.2 h2.2]
        simp
      · have hne : c.toNat ≠ d.toNat := fun h => hcd (BitVec.eq_of_toNat_eq h)
        rw [if_pos hcd]
        by_cases hlt : c.toNat < d.toNat
        · simp [hlt]
        · simp [hlt, hne]

/-- **`strcmp` is the order of texts.** -/
theorem strcmp_neg_iff (s t : CStr) : strcmp s.bytes t.bytes < 0 ↔ s < t :=
  strcmp_neg_iff_key s.no_nul t.no_nul

theorem strcmp_zero_iff (s t : CStr) : strcmp s.bytes t.bytes = 0 ↔ s = t := by
  rw [strcmp_eq_zero, text_eq_self s.no_nul, text_eq_self t.no_nul]
  exact ⟨CStr.ext, fun h => by rw [h]⟩

theorem strcmp_nonpos_iff (s t : CStr) : strcmp s.bytes t.bytes ≤ 0 ↔ s ≤ t := by
  rw [le_iff_lt_or_eq, le_iff_lt_or_eq, strcmp_neg_iff, strcmp_zero_iff]

end CString
