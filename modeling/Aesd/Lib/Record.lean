import Aesd.Lib.CString

/-!
# Fixed-size byte records

A C structure or buffer of `N` bytes is the list of its bytes. Fields are slices: `put`
overwrites a slice, `field` reads a little-endian number, `text` the string that starts at
an offset. `strcpy` and `strcat` write into a `char[k]` inside the record; they are
undefined (`none`) when the text and its NUL do not fit the array.

* `slice_put`, `slice_put_before`: what a write changes.
* `field_put`: reading back a number.
* `text_strcpy`, `text_strcat`: the strings the copies leave.
-/

namespace CRecord

open CString

/-! ### Little-endian numbers -/

/-- The low `w` bytes of `v`, low byte first. -/
def toLe : ℕ → ℕ → List Byte
  | 0, _ => []
  | w + 1, v => BitVec.ofNat 8 v :: toLe w (v / 256)

def ofLe : List Byte → ℕ
  | [] => 0
  | b :: bs => b.toNat + 256 * ofLe bs

@[simp]
theorem length_toLe (w v : ℕ) : (toLe w v).length = w := by
  induction w generalizing v with
  | zero => rfl
  | succ w ih => rw [toLe, List.length_cons, ih]

theorem ofLe_toLe (w v : ℕ) : ofLe (toLe w v) = v % 256 ^ w := by
  induction w generalizing v with
  | zero => rw [pow_zero, Nat.mod_one]; rfl
  | succ w ih =>
    have h8 : 2 ^ 8 = 256 := by norm_num
    rw [toLe, ofLe, ih, BitVec.toNat_ofNat, h8, pow_succ', Nat.mod_mul]

/-! ### Records -/

/-- A record of `N` bytes. -/
@[ext]
structure Rec (N : ℕ) where
  bytes : List Byte
  size : bytes.length = N
deriving DecidableEq

namespace Rec

variable {N : ℕ}

def zero : Rec N := ⟨List.replicate N 0, List.length_replicate⟩

/-- Overwrite the bytes from offset `o` on; what would not fit is dropped. -/
def put (r : Rec N) (o : ℕ) (bs : List Byte) : Rec N where
  bytes := (r.bytes.take o ++ bs ++ r.bytes.drop (o + bs.length)).take N
  size := by
    have := r.size
    simp only [List.length_take, List.length_append, List.length_drop]
    omega

/-- The `n` bytes from offset `o` on. -/
def slice (r : Rec N) (o n : ℕ) : List Byte := (r.bytes.drop o).take n

/-- The number in the `w` bytes at offset `o`. -/
def field (r : Rec N) (o w : ℕ) : BitVec (8 * w) := BitVec.ofNat (8 * w) (ofLe (r.slice o w))

def setField (r : Rec N) (o w : ℕ) (v : BitVec (8 * w)) : Rec N := r.put o (toLe w v.toNat)

/-- The string that starts at offset `o`. -/
def text (r : Rec N) (o : ℕ) : List Byte := CString.text (r.bytes.drop o)

/-- The record at the start of a buffer. -/
def cut {M : ℕ} (buf : Rec M) (N : ℕ) (h : N ≤ M) : Rec N :=
  ⟨buf.bytes.take N, by rw [List.length_take, buf.size, min_eq_left h]⟩

/-- `strcpy` into the `char[k]` at offset `o`. -/
def strcpy (r : Rec N) (o k : ℕ) (ct : List Byte) : Option (Rec N) :=
  if (CString.text ct).length < k then some (r.put o (CString.text ct ++ [0])) else none

/-- `strcat` onto the string in the `char[k]` at offset `o`. -/
def strcat (r : Rec N) (o k : ℕ) (ct : List Byte) : Option (Rec N) :=
  if (r.text o).length + (CString.text ct).length < k then
    some (r.put (o + (r.text o).length) (CString.text ct ++ [0]))
  else none

variable (r : Rec N) {o n : ℕ} {bs : List Byte}

theorem put_bytes (h : o + bs.length ≤ N) :
    (r.put o bs).bytes = r.bytes.take o ++ bs ++ r.bytes.drop (o + bs.length) := by
  have := r.size
  refine List.take_of_length_le ?_
  simp only [List.length_take, List.length_append, List.length_drop]
  omega

/-- A write shows from its offset on. -/
theorem drop_put (h : o + bs.length ≤ N) :
    (r.put o bs).bytes.drop o = bs ++ r.bytes.drop (o + bs.length) := by
  have ho : (r.bytes.take o).length = o := by
    rw [List.length_take, r.size]
    omega
  rw [put_bytes r h, List.append_assoc, List.drop_append_of_le_length (by omega)]
  rw [List.drop_of_length_le (by omega), List.nil_append]

/-- A write leaves alone what stands behind it. -/
theorem drop_put_after {d : ℕ} (h : o + bs.length ≤ N) (hd : o + bs.length ≤ d) :
    (r.put o bs).bytes.drop d = r.bytes.drop d := by
  obtain ⟨e, rfl⟩ := Nat.exists_eq_add_of_le hd
  rw [add_assoc, ← List.drop_drop, drop_put r h, ← List.drop_drop, List.drop_left' rfl,
    List.drop_drop, add_assoc]

theorem slice_put (h : o + bs.length ≤ N) : (r.put o bs).slice o bs.length = bs := by
  rw [slice, drop_put r h, List.take_left']
  rfl

theorem take_put {m : ℕ} (h : o + bs.length ≤ N) (hm : m ≤ o) :
    (r.put o bs).bytes.take m = r.bytes.take m := by
  have ho : (r.bytes.take o).length = o := by
    rw [List.length_take, r.size]
    omega
  rw [put_bytes r h, List.append_assoc, List.take_append_of_le_length (by omega),
    List.take_take, min_eq_left hm]

theorem slice_put_before {o' n : ℕ} (h : o + bs.length ≤ N) (ho : o' + n ≤ o) :
    (r.put o bs).slice o' n = r.slice o' n := by
  rw [slice, slice, List.take_drop, List.take_drop, take_put r h ho]

theorem field_put {w : ℕ} (h : o + w ≤ N) (v : BitVec (8 * w)) :
    (r.setField o w v).field o w = v := by
  have hl : o + (toLe w v.toNat).length ≤ N := by rwa [length_toLe]
  have hs := slice_put r hl
  rw [length_toLe] at hs
  have hp : 256 ^ w = 2 ^ (8 * w) := by rw [pow_mul]; norm_num
  rw [field, setField, hs, ofLe_toLe, hp, Nat.mod_eq_of_lt v.isLt, BitVec.ofNat_toNat,
    BitVec.setWidth_eq]

theorem field_put_before {o' w : ℕ} (h : o + bs.length ≤ N) (ho : o' + w ≤ o) :
    (r.put o bs).field o' w = r.field o' w := by
  rw [field, field, slice_put_before r h ho]

/-- A text written with its NUL is read back. -/
theorem text_put {s : List Byte} (hs : (0 : Byte) ∉ s) (h : o + s.length < N) :
    (r.put o (s ++ [0])).text o = s := by
  have hl : o + (s ++ [0]).length ≤ N := by
    rw [List.length_append, List.length_singleton]
    omega
  rw [text, drop_put r hl, List.append_assoc, List.singleton_append, text_append_nul hs]

theorem text_strcpy {k : ℕ} {ct : List Byte} (hk : o + k ≤ N)
    (h : (CString.text ct).length < k) :
    ∃ r', r.strcpy o k ct = some r' ∧ r'.text o = CString.text ct ∧
      ∀ o' w, o' + w ≤ o → r'.field o' w = r.field o' w := by
  refine ⟨_, if_pos h, text_put r (nul_notMem_text ct) (by omega), ?_⟩
  intro o' w ho
  refine field_put_before r ?_ ho
  rw [List.length_append, List.length_singleton]
  omega

theorem text_strcat {k : ℕ} {ct : List Byte} (hk : o + k ≤ N)
    (h : (r.text o).length + (CString.text ct).length < k) :
    ∃ r', r.strcat o k ct = some r' ∧ r'.text o = r.text o ++ CString.text ct ∧
      ∀ o' w, o' + w ≤ o → r'.field o' w = r.field o' w := by
  have hl : o + (r.text o).length + (CString.text ct ++ [0]).length ≤ N := by
    rw [List.length_append, List.length_singleton]
    omega
  refine ⟨_, if_pos h, ?_, fun o' w ho => field_put_before r hl (by omega)⟩
  -- the old text is a prefix of what stands at `o`, and the write starts behind it
  have hpre : (r.bytes.drop o).take (r.text o).length = r.text o :=
    List.prefix_iff_eq_take.1 (List.takeWhile_prefix _) |>.symm
  have hsplit := List.take_append_drop (r.text o).length
    ((r.put (o + (r.text o).length) (CString.text ct ++ [0])).bytes.drop o)
  rw [List.take_drop, take_put r hl le_rfl, ← List.take_drop, hpre, List.drop_drop,
    drop_put r hl, List.append_assoc, List.singleton_append] at hsplit
  rw [text, ← hsplit, ← List.append_assoc, text_append_nul]
  rw [List.mem_append, not_or]
  exact ⟨nul_notMem_text _, nul_notMem_text _⟩

/-- The string copies stay in their array. -/
theorem drop_strcpy {k : ℕ} {ct : List Byte} {r' : Rec N} (hk : o + k ≤ N)
    (h : r.strcpy o k ct = some r') : r'.bytes.drop (o + k) = r.bytes.drop (o + k) := by
  unfold strcpy at h
  split_ifs at h with hfit
  have hl : (CString.text ct ++ [0]).length = (CString.text ct).length + 1 := List.length_append
  rw [← Option.some.inj h]
  exact drop_put_after r (by omega) (by omega)

theorem drop_strcat {k : ℕ} {ct : List Byte} {r' : Rec N} (hk : o + k ≤ N)
    (h : r.strcat o k ct = some r') : r'.bytes.drop (o + k) = r.bytes.drop (o + k) := by
  unfold strcat at h
  split_ifs at h with hfit
  have hl : (CString.text ct ++ [0]).length = (CString.text ct).length + 1 := List.length_append
  rw [← Option.some.inj h]
  exact drop_put_after r (by omega) (by omega)

theorem text_put_after {o' : ℕ} (h : o + bs.length ≤ N) (ho : o + bs.length ≤ o') :
    (r.put o bs).text o' = r.text o' := by
  rw [text, text, drop_put_after r h ho]

theorem length_slice (h : o + n ≤ N) : (r.slice o n).length = n := by
  rw [slice, List.length_take, List.length_drop, r.size]
  omega

/-- The bytes from an offset on, cut in two. -/
theorem drop_eq_slice_append (o n : ℕ) : r.bytes.drop o = r.slice o n ++ r.bytes.drop (o + n) := by
  rw [slice, ← List.drop_drop, List.take_append_drop]

/-- A write behind the NUL of a text leaves the text alone. -/
theorem text_put_behind {o' : ℕ} (h : o + bs.length ≤ N) (ho : o' + (r.text o').length < o) :
    (r.put o bs).text o' = r.text o' := by
  obtain ⟨d, rfl⟩ := Nat.exists_eq_add_of_le (show o' ≤ o by omega)
  have hlen : (r.slice o' d).length = d := r.length_slice (by omega)
  unfold text at ho ⊢
  rw [r.drop_eq_slice_append o' d] at ho ⊢
  -- up to the write both records agree, and there the text ends
  have hlt : (CString.text (r.slice o' d ++ r.bytes.drop (o' + d))).length < (r.slice o' d).length := by
    rw [hlen]
    omega
  have hcut := text_of_append_lt hlt
  rw [(r.put (o' + d) bs).drop_eq_slice_append o' d, slice_put_before r h le_rfl, ← hcut]
  apply text_append_of_lt
  rw [hcut, hlen]
  omega

/-- The NUL of a text that fits its array is in the array. -/
theorem nul_mem_slice {k : ℕ} (hk : o + k ≤ N) (h : (r.text o).length < k) :
    (0 : Byte) ∈ r.slice o k := by
  have hlen : (r.slice o k).length = k := r.length_slice hk
  unfold text at h
  rw [r.drop_eq_slice_append o k] at h
  apply nul_mem_of_lt
  rw [text_of_append_lt (h.trans_eq hlen.symm), hlen]
  exact h

theorem fits_start (r : Rec N) {M : ℕ} (h : N ≤ M) : 0 + r.bytes.length ≤ M := by
  rw [r.size, zero_add]
  exact h

/-- Overwriting the whole record. -/
theorem put_all (s : Rec N) : r.put 0 s.bytes = s := by
  refine Rec.ext ?_
  rw [put_bytes r (s.fits_start le_rfl), List.take_zero, List.nil_append, zero_add, s.size,
    List.drop_of_length_le r.size.le, List.append_nil]

/-- A record at the start of a buffer. -/
theorem field_put_prefix {M : ℕ} (buf : Rec M) (h : N ≤ M) {w : ℕ} (ho : o + w ≤ N) :
    (buf.put 0 r.bytes).field o w = r.field o w := by
  have hb := r.fits_start h
  have hd := drop_put buf hb
  rw [List.drop_zero] at hd
  have hdrop : o ≤ r.bytes.length := by
    rw [r.size]
    omega
  have htake : w ≤ (r.bytes.drop o).length := by
    rw [List.length_drop, r.size]
    omega
  rw [field, field, slice, slice, hd, List.drop_append_of_le_length hdrop,
    List.take_append_of_le_length htake]

theorem text_put_prefix {M : ℕ} (buf : Rec M) (h : N ≤ M)
    (ht : o + (r.text o).length < N) : (buf.put 0 r.bytes).text o = r.text o := by
  have hb := r.fits_start h
  have hd := drop_put buf hb
  rw [List.drop_zero] at hd
  have hdrop : o ≤ r.bytes.length := by
    rw [r.size]
    omega
  rw [text, hd, List.drop_append_of_le_length hdrop]
  have ht' : (r.text o).length + o < N := by omega
  apply text_append_of_lt
  rw [List.length_drop, r.size]
  exact Nat.lt_sub_of_add_lt ht'

@[simp]
theorem cut_put {M : ℕ} (buf : Rec M) (h : N ≤ M) : (buf.put 0 r.bytes).cut N h = r := by
  have hb := r.fits_start h
  have hs := slice_put buf hb
  rw [slice, List.drop_zero, r.size] at hs
  exact Rec.ext hs

/-! ### Copying byte by byte -/

/-- Byte `k`, as a list. -/
def byte (r : Rec N) (k : ℕ) : List Byte := r.slice k 1

/-- The first `k` bytes of `dst` have been copied from `src`. -/
def Copied {M : ℕ} (k : ℕ) (dst : Rec M) (src : Rec N) : Prop :=
  dst.bytes.take k = src.bytes.take k

theorem Copied.zero {M : ℕ} (dst : Rec M) (src : Rec N) : Copied 0 dst src := by
  rw [Copied, List.take_zero, List.take_zero]

theorem Copied.succ {M k : ℕ} {dst : Rec M} {src : Rec N} (h : Copied k dst src) (hM : k < M)
    (hN : k < N) : Copied (k + 1) (dst.put k (src.byte k)) src := by
  have hb : (src.byte k).length = 1 := by
    rw [byte, slice, List.length_take, List.length_drop, src.size]
    omega
  have hk : (dst.bytes.take k ++ src.byte k).length = k + 1 := by
    rw [List.length_append, List.length_take, dst.size, hb, min_eq_left (by omega)]
  rw [Copied, put_bytes dst (by omega), List.take_left' hk, List.take_add, h]
  rfl

/-- A whole record has been copied into a buffer. -/
theorem Copied.put {M : ℕ} {buf : Rec M} (h : Copied N buf r) (hM : N ≤ M) :
    buf = buf.put 0 r.bytes := by
  have hr : r.bytes.take N = r.bytes := List.take_of_length_le r.size.le
  refine Rec.ext ?_
  rw [put_bytes buf (r.fits_start hM), List.take_zero, List.nil_append,
    zero_add, r.size, ← hr, ← h, List.take_append_drop]

theorem Copied.eq {dst : Rec N} (h : Copied N dst r) : dst = r := by
  rw [h.put r le_rfl, put_all]

end Rec

end CRecord
