import Aesd.Pthread.LogStreams

/-!
# What `child2_funct` records of `/proc/stat`

One array of 10000 bytes is used for every tick. `fread` overwrites as much of it as there is
to read, and the NUL is always stored at `text_file_data1[length]`, the byte behind the array,
not behind what has been read.

* `text_bufferAfter_iff`: a record is the contents read for it exactly if no earlier contents
  were longer and the array ended there to begin with.
* `stat_recorded_iff`: a run does what is wanted of it exactly as long as nothing has been read.
-/

namespace Aesd.Pthread

open CString CRecord

/-- The indices of `text_file_data1` that are stored to: by `fread`, and for the NUL. -/
def statStores : Option (List Byte) → List ℕ
  | some contents => List.range (contents.take 10000).length ++ [10000]
  | none => []

/-- The stores of a run to `text_file_data1`. -/
def stores (as : List Act) : List ℕ :=
  as.flatMap fun
    | .child2 (.stat contents) => statStores contents
    | _ => []

/-- What is read of `/proc/stat` in a run, tick by tick. -/
def contents (as : List Act) : List (List Byte) :=
  as.filterMap fun
    | .child2 (.stat contents) => contents
    | _ => none

/-- The text of a record. -/
def Line.statText : Line → Option (List Byte)
  | .stat _ text => some text
  | _ => none

/-- The text of a record that a statement hands to `fprintf`. -/
def Act.recorded (s : State) (a : Act) : Option (List Byte) :=
  match a.onLog s with
  | some (.fprintf line) => line.statText
  | _ => none

/-- The texts recorded in a run from `s` on, tick by tick. -/
def recorded : State → List Act → List (List Byte)
  | _, [] => []
  | s, a :: as =>
    (a.recorded s).toList ++
      match step s a with
      | some s' => recorded s' as
      | none => []

/-- `/proc/stat` is read whole at each tick: it fits the array, with a byte to spare, and has no
NUL in it. -/
def ReadWhole (as : List Act) : Prop :=
  ∀ c, .child2 (.stat c) ∈ as → ∃ bs, c = some bs ∧ bs.length ≤ 9999 ∧ (0 : Byte) ∉ bs

/-! ### The array -/

/-- The array behind a sequence of ticks. -/
def bufferAfter (d : Rec 10001) (cs : List (List Byte)) : Rec 10001 :=
  cs.foldl (fun b c => readStat b (some c)) d

/-- The texts of the records, one tick after the other. -/
def texts (d : Rec 10001) : List (List Byte) → List (List Byte)
  | [] => []
  | c :: cs => (readStat d (some c)).text 0 :: texts (readStat d (some c)) cs

variable {b d : Rec 10001} {c : List Byte} {cs : List (List Byte)}

theorem bufferAfter_concat (d : Rec 10001) (cs : List (List Byte)) (c : List Byte) :
    bufferAfter d (cs ++ [c]) = readStat (bufferAfter d cs) (some c) := by
  rw [bufferAfter, List.foldl_append]
  rfl

theorem texts_concat (d : Rec 10001) (cs : List (List Byte)) (c : List Byte) :
    texts d (cs ++ [c]) = texts d cs ++ [(bufferAfter d (cs ++ [c])).text 0] := by
  induction cs generalizing d with
  | nil => rfl
  | cons c' cs ih =>
    rw [List.cons_append, texts, ih]
    rfl

theorem length_texts (d : Rec 10001) (cs : List (List Byte)) : (texts d cs).length = cs.length := by
  induction cs generalizing d with
  | nil => rfl
  | cons c cs ih => rw [texts, List.length_cons, List.length_cons, ih]

/-- The text of a tick is that of the array behind it. -/
theorem getElem_texts (d : Rec 10001) (cs : List (List Byte)) {k : ℕ} (hk : k < cs.length) :
    (texts d cs)[k]? = some ((bufferAfter d (cs.take (k + 1))).text 0) := by
  induction cs generalizing d k with
  | nil => exact absurd hk (Nat.not_lt_zero k)
  | cons c cs ih =>
    cases k with
    | zero => rfl
    | succ k =>
      rw [List.length_cons, Nat.succ_lt_succ_iff] at hk
      exact ih _ hk

/-- **The array behind a read**: what has been read, then what was there, up to the NUL. -/
theorem readStat_bytes (b : Rec 10001) (hc : c.length ≤ 9999) :
    ∃ rest, (readStat b (some c)).bytes = c ++ rest ∧ 0 < rest.length ∧
      ∀ n, c.length ≤ n → n < 10000 → (c ++ rest)[n]? = b.bytes[n]? := by
  have htake : c.take 10000 = c := List.take_of_length_le (by omega)
  have hput : (b.put 0 c).bytes = c ++ b.bytes.drop c.length := by
    rw [Rec.put_bytes b (by omega), List.take_zero, List.nil_append, zero_add]
  have hbytes : (readStat b (some c)).bytes =
      ((c ++ b.bytes.drop c.length).take 10000) ++ [0] ++
        (c ++ b.bytes.drop c.length).drop 10001 := by
    unfold readStat
    simp only
    rw [htake, Rec.put_bytes _ (by simp), hput]
    rfl
  have hsplit : (c ++ b.bytes.drop c.length).take 10000 =
      c ++ (b.bytes.drop c.length).take (10000 - c.length) := by
    rw [List.take_append, List.take_of_length_le (by omega)]
  have hlen : ((b.bytes.drop c.length).take (10000 - c.length)).length = 10000 - c.length := by
    rw [List.length_take, List.length_drop, b.size]
    omega
  refine ⟨(b.bytes.drop c.length).take (10000 - c.length) ++ [0] ++
    (c ++ b.bytes.drop c.length).drop 10001, ?_, ?_, ?_⟩
  · rw [hbytes, hsplit]
    simp only [List.append_assoc]
  · simp only [List.length_append, hlen]
    omega
  · intro n hn hlt
    rw [List.getElem?_append_right hn, List.append_assoc, List.getElem?_append_left (by omega),
      List.getElem?_take_of_lt (by omega), List.getElem?_drop]
    congr 1
    omega

/-- **A record is what has been read** exactly if a NUL was standing behind it. -/
theorem text_readStat_iff (b : Rec 10001) (hc : c.length ≤ 9999) (h0 : (0 : Byte) ∉ c) :
    (readStat b (some c)).text 0 = c ↔ b.bytes[c.length]? = some 0 := by
  obtain ⟨rest, hbytes, hpos, hrest⟩ := readStat_bytes b hc
  rw [← hrest c.length le_rfl (by omega), List.getElem?_append_right le_rfl, Nat.sub_self]
  rw [Rec.text, List.drop_zero, hbytes, text_append h0, List.append_right_eq_self]
  cases rest with
  | nil => exact absurd hpos (lt_irrefl 0)
  | cons r rest =>
    rw [List.getElem?_cons_zero, Option.some.injEq]
    by_cases hr : r = 0
    · rw [hr, text_zero]
      exact iff_of_true rfl rfl
    · rw [text_cons hr]
      exact iff_of_false (List.cons_ne_nil _ _) hr

/-- A byte of the array is still NUL exactly if nothing has been read as far as there. -/
theorem bufferAfter_zero_iff {n : ℕ} (hn : n < 10000)
    (hcs : ∀ c ∈ cs, c.length ≤ 9999 ∧ (0 : Byte) ∉ c) :
    (bufferAfter d cs).bytes[n]? = some 0 ↔ (∀ c ∈ cs, c.length ≤ n) ∧ d.bytes[n]? = some 0 := by
  induction cs using List.reverseRecOn with
  | nil => simp [bufferAfter]
  | append_singleton cs c ih =>
    obtain ⟨hc, h0⟩ := hcs c (by simp)
    have hih := ih fun c hc => hcs c (List.mem_append_left _ hc)
    obtain ⟨rest, hbytes, -, hrest⟩ := readStat_bytes (bufferAfter d cs) hc
    rw [bufferAfter_concat, hbytes, List.forall_mem_append, List.forall_mem_singleton]
    rcases Nat.lt_or_ge n c.length with hlt | hle
    · -- overwritten with a character
      rw [List.getElem?_append_left hlt, List.getElem?_eq_getElem hlt, Option.some.injEq]
      refine iff_of_false (fun he => h0 (he ▸ List.getElem_mem hlt)) ?_
      intro h
      exact absurd h.1.2 (by omega)
    · rw [hrest n hle hn, hih, and_iff_left hle]

/-- **When the record of a tick is right.** -/
theorem text_bufferAfter_iff (hcs : ∀ c ∈ cs, c.length ≤ 9999 ∧ (0 : Byte) ∉ c)
    (hc : c.length ≤ 9999) (h0 : (0 : Byte) ∉ c) :
    (bufferAfter d (cs ++ [c])).text 0 = c ↔
      (∀ c' ∈ cs, c'.length ≤ c.length) ∧ d.bytes[c.length]? = some 0 := by
  rw [bufferAfter_concat, text_readStat_iff _ hc h0]
  exact bufferAfter_zero_iff (by omega) hcs

/-! ### The runs -/

variable {s s' : State} {a : Act} {as : List Act}

theorem contents_concat (as : List Act) (a : Act) : contents (as ++ [a]) = contents as ++ contents [a] :=
  List.filterMap_append

theorem recorded_concat {s₀ : State} (hr : Lts.Run (Lts.Steps step) s₀ as s) (hs : step s a = some s') :
    recorded s₀ (as ++ [a]) = recorded s₀ as ++ (a.recorded s).toList := by
  induction as generalizing s₀ with
  | nil =>
    rw [hr.nil_inv] at hs ⊢
    rw [List.nil_append, recorded, recorded, hs]
    exact List.append_nil _
  | cons b as ih =>
    obtain ⟨m, hm, hr⟩ := hr.cons_inv
    have hb : step s₀ b = some m := hm
    rw [List.cons_append, recorded, recorded, hb]
    simp only
    rw [ih hr, List.append_assoc]

/-- Only `record` records. -/
theorem recorded_eq_none (ha : a ≠ .child2 .record) : a.recorded s = none := by
  unfold Act.recorded
  split
  · rename_i line hline
    rcases onLog_line hline with htick | ⟨hrecord, -⟩
    · cases line with
      | stat tick text => simp [Line.tick] at htick
      | _ => rfl
    · exact absurd hrecord ha
  · rfl

/-- Something has been read and is still to be recorded. -/
def Child2Pc.Pending (pc : Child2Pc) : Prop := pc = .reopen ∨ pc = .record

/-- **The records keep up with the reads**, and the array is what the reads make of it. -/
structure Recording (d : Rec 10001) (as : List Act) (s : State) : Prop where
  staged : Staged s
  buffer : s.text_file_data1 = bufferAfter d (contents as)
  pending : s.child2.Pending →
    ∃ cs c, contents as = cs ++ [c] ∧ recorded (start d) as = texts d cs
  done : ¬ s.child2.Pending → s.child2 ≠ .ended → recorded (start d) as = texts d (contents as)
  ended : recorded (start d) as <+: texts d (contents as)

theorem recording_start (d : Rec 10001) : Recording d [] (start d) := by
  refine ⟨staged_start d, rfl, ?_, fun _ _ => rfl, List.prefix_refl _⟩
  intro h
  rcases h with h | h <;> simp [start] at h

/-- A step that neither reads nor records. -/
theorem Recording.other (h : Recording d as s) (hr : Lts.Run (Lts.Steps step) (start d) as s)
    (hs : step s a = some s') (ha : a ≠ .child2 .record) (hcontents : contents [a] = [])
    (hbuffer : s'.text_file_data1 = s.text_file_data1)
    (hpc : s'.child2.Pending → s.child2.Pending)
    (hpc' : ¬ s'.child2.Pending → s'.child2 ≠ .ended → ¬ s.child2.Pending ∧ s.child2 ≠ .ended) :
    Recording d (as ++ [a]) s' := by
  have hsame : contents (as ++ [a]) = contents as := by
    rw [contents_concat, hcontents, List.append_nil]
  have hrec : recorded (start d) (as ++ [a]) = recorded (start d) as := by
    rw [recorded_concat hr hs, recorded_eq_none ha]
    exact List.append_nil _
  refine ⟨staged_step h.staged hs, ?_, ?_, ?_, ?_⟩
  · rw [hbuffer, hsame, h.buffer]
  · rw [hsame, hrec]
    exact fun hp => h.pending (hpc hp)
  · rw [hsame, hrec]
    intro hp he
    obtain ⟨hp, he⟩ := hpc' hp he
    exact h.done hp he
  · rw [hsame, hrec]
    exact h.ended

theorem mainStep_buffer {b : MainAct} (hs : mainStep s b = some s') :
    s'.text_file_data1 = s.text_file_data1 := by
  cases mainEffect hs <;> rfl

theorem child1Step_buffer {b : Child1Act} (hs : child1Step s b = some s') :
    s'.text_file_data1 = s.text_file_data1 := by
  cases child1Effect hs <;> rfl

theorem recording_step (h : Recording d as s) (hr : Lts.Run (Lts.Steps step) (start d) as s)
    (hread : ReadWhole (as ++ [a])) (hs : step s a = some s') : Recording d (as ++ [a]) s' := by
  cases effect hs with
  | main hb =>
    have hpc := (mainStep_child2 h.staged hb).2
    refine h.other hr hs (by simp) rfl (mainStep_buffer hb) ?_ ?_
    · rcases hpc with hpc | ⟨-, hpc⟩
      · rw [hpc]
        exact id
      · rw [hpc]
        simp [Child2Pc.Pending]
    · rcases hpc with hpc | ⟨hpc, -⟩
      · rw [hpc]
        exact fun hp he => ⟨hp, he⟩
      · rw [hpc]
        simp [Child2Pc.Pending]
  | child1 hb =>
    have hpc := (child1Step_others hb).2.2.2.1
    refine h.other hr hs (by simp) rfl (child1Step_buffer hb) ?_ ?_
    · rw [hpc]
      exact id
    · rw [hpc]
      exact fun hp he => ⟨hp, he⟩
  | child2 hb =>
    cases child2Effect hb with
    | fopen _ hpc | write hpc | timer hpc | taken hpc | passed hpc | reopen _ hpc | reset hpc =>
      exact h.other hr hs (by simp) rfl rfl (by simp [Child2Pc.Pending, hpc])
        (by simp [Child2Pc.Pending, hpc])
    | test null hpc =>
      refine h.other hr hs (by simp) rfl rfl ?_ ?_ <;> cases null <;> simp [Child2Pc.Pending, hpc]
    | stat c hpc =>
      obtain ⟨bs, rfl, -⟩ := hread c (by simp)
      have hcontents : contents (as ++ [.child2 (.stat (some bs))]) = contents as ++ [bs] :=
        contents_concat as _
      have hrec : recorded (start d) (as ++ [.child2 (.stat (some bs))]) =
          texts d (contents as) := by
        rw [recorded_concat hr hs, recorded_eq_none (by simp),
          h.done (by simp [Child2Pc.Pending, hpc]) (by simp [hpc])]
        exact List.append_nil _
      refine ⟨staged_step h.staged hs, ?_, fun _ => ⟨_, _, hcontents, hrec⟩, ?_, ?_⟩
      · rw [hcontents, bufferAfter_concat, ← h.buffer]
      · exact fun hp => absurd (.inl rfl) hp
      · rw [hrec, hcontents, texts_concat]
        exact List.prefix_append _ _
    | record hpc =>
      obtain ⟨cs, c, hcs, hrec⟩ := h.pending (.inr hpc)
      have hcontents : contents (as ++ [.child2 .record]) = contents as := by
        rw [contents_concat]
        exact List.append_nil _
      have hrec' : recorded (start d) (as ++ [.child2 .record]) = texts d (contents as) := by
        rw [recorded_concat hr hs, hrec, hcs, texts_concat, ← hcs, ← h.buffer]
        rfl
      refine ⟨staged_step h.staged hs, ?_, ?_, ?_, ?_⟩
      · rw [hcontents]
        exact h.buffer
      · simp [Child2Pc.Pending]
      · intro _ _
        rw [hcontents, hrec']
      · rw [hcontents, hrec']
  | tick | kill1 => exact h.other hr hs (by simp) rfl rfl id (fun hp he => ⟨hp, he⟩)
  | kill2 =>
    exact h.other hr hs (by simp) rfl rfl (by simp [Child2Pc.Pending])
      (fun _ he => absurd rfl he)

theorem recording_run (hr : Lts.Run (Lts.Steps step) (start d) as s) (hread : ReadWhole as) :
    Recording d as s := by
  induction hr with
  | nil => exact recording_start d
  | @snoc as s s' a run next ih =>
    exact recording_step (ih fun c hc => hread c (List.mem_append_left _ hc)) run hread next

/-! ### What is wanted of the records -/

theorem ReadWhole.of_mem (h : ReadWhole as) (hc : c ∈ contents as) :
    c.length ≤ 9999 ∧ (0 : Byte) ∉ c := by
  obtain ⟨a, ha, hac⟩ := List.mem_filterMap.1 hc
  split at hac
  · rename_i cs
    obtain ⟨bs, rfl, hbs⟩ := h cs ha
    rw [← Option.some.inj hac]
    exact hbs
  · simp at hac

/-- The NUL is stored behind the array at each tick. -/
theorem stores_lt_iff (as : List Act) : (∀ i ∈ stores as, i < 10000) ↔ contents as = [] := by
  constructor
  · intro h
    refine List.eq_nil_iff_forall_not_mem.2 ?_
    intro c hc
    obtain ⟨a, ha, hac⟩ := List.mem_filterMap.1 hc
    split at hac
    · subst hac
      have hstore : 10000 ∈ stores as := List.mem_flatMap.2 ⟨_, ha, by simp [statStores]⟩
      exact absurd (h _ hstore) (lt_irrefl _)
    · simp at hac
  · intro h i hi
    obtain ⟨a, ha, hia⟩ := List.mem_flatMap.1 hi
    split at hia
    · rename_i cs
      cases cs with
      | none => simp [statStores] at hia
      | some c =>
        have hc : c ∈ contents as := List.mem_filterMap.2 ⟨_, ha, rfl⟩
        rw [h] at hc
        exact absurd hc List.not_mem_nil
    · simp at hia

/-- **When one record is right.** -/
theorem Recording.record_iff (h : Recording d as s) (hread : ReadWhole as) {k : ℕ} {text : List Byte}
    (hk : (recorded (start d) as)[k]? = some text) :
    ∃ c, (contents as)[k]? = some c ∧
      (text = c ↔ (∀ c' ∈ (contents as).take k, c'.length ≤ c.length) ∧
        d.bytes[c.length]? = some 0) := by
  obtain ⟨rest, hrest⟩ := h.ended
  have htexts : (texts d (contents as))[k]? = some text := by
    rw [← hrest, List.getElem?_append_left (List.getElem?_eq_some_iff.1 hk).1, hk]
  have hlen : k < (contents as).length := by
    have hlt := (List.getElem?_eq_some_iff.1 htexts).1
    rwa [length_texts] at hlt
  have hc := hread.of_mem (List.getElem_mem hlen)
  refine ⟨(contents as)[k], List.getElem?_eq_getElem hlen, ?_⟩
  rw [getElem_texts d _ hlen, List.take_add_one, List.getElem?_eq_getElem hlen, Option.some.injEq]
    at htexts
  rw [← htexts]
  exact text_bufferAfter_iff (fun c' hc' => hread.of_mem (List.mem_of_mem_take hc')) hc.1 hc.2

/-- **What `child2_funct` records**, in every run of the threads in which `/proc/stat` is read
whole at each tick. The record of a tick is what has been read for it exactly if nothing longer
was read before and the array ended there to begin with. And all records are right, with each
store inside the array, exactly as long as nothing has been read. -/
theorem stat_recorded_iff (d : Rec 10001) {as : List Act} {s : State}
    (hr : Lts.Run (Lts.Steps step) (start d) as s) (hread : ReadWhole as) :
    (∀ k text, (recorded (start d) as)[k]? = some text → ∃ c, (contents as)[k]? = some c ∧
      (text = c ↔ (∀ c' ∈ (contents as).take k, c'.length ≤ c.length) ∧
        d.bytes[c.length]? = some 0)) ∧
    ((recorded (start d) as <+: contents as ∧ ∀ i ∈ stores as, i < 10000) ↔ contents as = []) := by
  have h := recording_run hr hread
  refine ⟨fun k text hk => h.record_iff hread hk, ?_⟩
  rw [stores_lt_iff]
  refine and_iff_right_of_imp ?_
  intro hnil
  have hended := h.ended
  rw [hnil] at hended ⊢
  exact hended

/-- Child 2 has read and recorded once. -/
def oneRecord : List Act :=
  created ++ child2Head ++
    [.tick, .child2 (.head true), .child2 (.stat (some (ascii "cpu"))), .child2 (.reopen true),
      .child2 .record, .child2 .reset]

theorem oneRecord_whole : ReadWhole oneRecord := by
  intro c hc
  simp [oneRecord, created, child2Head] at hc
  subst hc
  exact ⟨_, rfl, by decide, by decide⟩

theorem stat_recorded_iff_oneRecord :
    ∃ s, Lts.exec step (start .zero) oneRecord = some s ∧
      ((recorded (start .zero) oneRecord <+: contents oneRecord ∧
        ∀ i ∈ stores oneRecord, i < 10000) ↔ contents oneRecord = []) := by
  refine ⟨_, rfl, ?_⟩
  exact (stat_recorded_iff .zero (Lts.exec_run step oneRecord rfl) oneRecord_whole).2

/-- The NUL behind what has been read at the first tick is stored behind the array. -/
theorem stat_stores_behind_array :
    ¬ ∀ (d : Rec 10001) (as : List Act) (s : State), Lts.Run (Lts.Steps step) (start d) as s →
      ReadWhole as → recorded (start d) as <+: contents as ∧ ∀ i ∈ stores as, i < 10000 := by
  intro h
  obtain ⟨s, hs⟩ : ∃ s, Lts.exec step (start .zero) oneRecord = some s := ⟨_, rfl⟩
  have hstores := (h .zero oneRecord s (Lts.exec_run step oneRecord hs) oneRecord_whole).2
  rw [stores_lt_iff] at hstores
  revert hstores
  decide

end Aesd.Pthread
