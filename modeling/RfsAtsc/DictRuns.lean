import RfsAtsc.Dict

/-!
# Runs of the dictionary

A run of inserts and deletions from `DictCreate` always returns, with every record in
the chain of its key and the count below the size.  Its two other promises depend on
what the run does: the latest value of a key is found until a growth turns round the
records of a key that do not read the same both ways, and the count is the number of
records until a deletion finds its key.
-/

namespace RfsAtsc

open HashChains

theorem dictRun_concat (depth : ℕ) (ops : List DictOp) (op : DictOp) {d : Dict}
    (h : dictRun depth ops = some d) : dictRun depth (ops ++ [op]) = dictStep depth d op := by
  rw [dictRun, List.foldlM_append]
  rw [dictRun] at h
  rw [h]
  exact bind_pure (dictStep depth d op)

theorem length_recordsAfter_congr {as bs : List CString} (h : as.length = bs.length)
    (key : CString) (op : DictOp) :
    (recordsAfter key as op).length = (recordsAfter key bs op).length := by
  cases op with
  | insert k v =>
      by_cases hk : key = k
      · simp [recordsAfter, hk, h]
      · simpa [recordsAfter, hk] using h
  | delete k =>
      by_cases hk : key = k
      · simp [recordsAfter, hk, h]
      · simpa [recordsAfter, hk] using h

/-- One call on a dictionary in order returns one in order, and every key has as many records
as the call leaves. -/
private theorem dictStep_returns (depth : ℕ) {d : Dict} (h : d.Sound) (op : DictOp) :
    ∃ d', dictStep (depth + 3) d op = some d' ∧ d'.Sound ∧
      ∀ key, (d'.values key).length = (recordsAfter key (d.values key) op).length := by
  cases op with
  | insert key value =>
      obtain ⟨d', hrun, hsound, -, -, hvalues⟩ := dictInsert_spec depth h key value
      refine ⟨d', hrun, hsound, ?_⟩
      intro k
      rw [hvalues k]
      split_ifs <;> simp
  | delete key =>
      refine ⟨dictDelete d key, rfl, h.delete key, ?_⟩
      intro k
      rw [dictDelete_values]

theorem dictCreate_sound : dictCreate.Sound where
  placed := placed_replicate_nil hashFunction INITIAL_SIZE
  stored_le := by simp [dictCreate, internalDictCreate]
  n_lt := dictCreate.size_pos

/-- **Every run returns**, with the records placed and the count below the size; and every
key has as many records as were inserted and not deleted. -/
theorem dictRun_returns (depth : ℕ) (ops : List DictOp) :
    ∃ d, dictRun (depth + 3) ops = some d ∧ d.Sound ∧
      ∀ key, (d.values key).length = (records ops key).length := by
  induction ops using List.reverseRecOn with
  | nil =>
      refine ⟨dictCreate, rfl, dictCreate_sound, ?_⟩
      intro key
      exact congrArg List.length (stored_replicate_nil hashFunction INITIAL_SIZE key)
  | append_singleton ops op ih =>
      obtain ⟨d, hrun, hsound, hlen⟩ := ih
      obtain ⟨d', hstep, hsound', hlen'⟩ := dictStep_returns depth hsound op
      refine ⟨d', (dictRun_concat (depth + 3) ops op hrun).trans hstep, hsound', ?_⟩
      intro key
      rw [hlen' key, records_concat]
      exact length_recordsAfter_congr (hlen key) key op

/-! ## The count -/

/-- No deletion of the run finds its key. -/
def NoDeletionFinds (ops : List DictOp) : Prop :=
  ∀ pre key post, ops = pre ++ .delete key :: post → records pre key = []

theorem NoDeletionFinds.init {pre post : List DictOp} (h : NoDeletionFinds (pre ++ post)) :
    NoDeletionFinds pre := by
  intro pre' key post' hsplit
  exact h pre' key (post' ++ post) (by rw [hsplit, List.append_assoc, List.cons_append])

/-- Without a deletion that finds its key the count is the number of records. -/
private theorem NoDeletionFinds.count {ops : List DictOp} (h : NoDeletionFinds ops)
    (depth : ℕ) : ∀ d, dictRun (depth + 3) ops = some d → d.n = d.table.flatten.length := by
  induction ops using List.reverseRecOn with
  | nil =>
      intro d hd
      cases hd
      simp [dictCreate, internalDictCreate]
  | append_singleton ops op ih =>
      intro d' hd'
      obtain ⟨d, hrun, hsound, hlen⟩ := dictRun_returns depth ops
      have hcount : d.n = d.table.flatten.length := ih h.init d hrun
      rw [dictRun_concat (depth + 3) ops op hrun] at hd'
      cases op with
      | insert key value =>
          obtain ⟨e, hstep, -, -, hkeep, -⟩ := dictInsert_spec depth hsound key value
          cases hstep.symm.trans hd'
          exact hkeep hcount
      | delete key =>
          cases hd'
          have hnone : d.values key = [] := by
            rw [← List.length_eq_zero_iff, hlen key, h ops key [] rfl]
            rfl
          have hdel := dictDelete_length d key
          rw [if_pos hnone] at hdel
          exact hcount.trans hdel.symm

/-- **The dictionary is in order after every call of a run exactly when no deletion of the
run finds its key.** -/
theorem represents_along_iff (depth : ℕ) (ops : List DictOp) :
    (∀ pre, pre <+: ops → ∃ d, dictRun (depth + 3) pre = some d ∧ Represents d) ↔
      NoDeletionFinds ops := by
  constructor
  · intro h pre key post hsplit
    obtain ⟨d, hrun, hplaced, hcount, -⟩ := h pre ⟨.delete key :: post, hsplit.symm⟩
    obtain ⟨d', hrun', -, hcount', -⟩ := h (pre ++ [.delete key]) ⟨post, by simp [hsplit]⟩
    rw [dictRun_concat (depth + 3) pre _ hrun] at hrun'
    cases hrun'
    obtain ⟨e, hrune, -, hlen⟩ := dictRun_returns depth pre
    cases hrun.symm.trans hrune
    have hdel := dictDelete_length d key
    rw [dictDelete_n] at hcount'
    have hnone : d.values key = [] := by
      by_contra hsome
      rw [if_neg hsome] at hdel
      omega
    rw [← List.length_eq_zero_iff, ← hlen key, hnone]
    rfl
  · rintro h pre ⟨post, rfl⟩
    obtain ⟨d, hrun, hsound, -⟩ := dictRun_returns depth pre
    exact ⟨d, hrun, hsound.placed, h.init.count depth d hrun, hsound.n_lt⟩

/-- A record inserted and deleted is still counted. -/
theorem deleted_record_is_counted :
    ¬ ∀ (ops : List DictOp) (d : Dict), dictRun 3 ops = some d → Represents d := by
  intro h
  let key : CString := ⟨[0x6b#8], by decide⟩
  let before := dictCreate.link key key
  have hroom : dictCreate.n + 1 < dictCreate.size := by decide
  have hinsert : dictRun 3 [.insert key key] = some before := by
    rw [show [DictOp.insert key key] = [] ++ [.insert key key] from rfl,
      dictRun_concat 3 [] _ (d := dictCreate) rfl]
    exact dictInsert_of_room 2 hroom key key
  have hdelete : dictRun 3 [.insert key key, .delete key] = some (dictDelete before key) :=
    dictRun_concat 3 [.insert key key] (.delete key) hinsert
  obtain ⟨-, hcount, -⟩ := h _ _ hdelete
  have hlen : before.table.flatten.length = 1 := by
    rw [Dict.length_link]
    simp [dictCreate, internalDictCreate]
  have hdel := dictDelete_length before key
  have hsome : before.values key ≠ [] := by
    rw [Dict.values_link]
    simp [recordsAfter]
  rw [if_neg hsome, hlen] at hdel
  have hn : (dictDelete before key).n = 1 := rfl
  omega

/-! ## The latest value -/

/-- The call is the insert that fills the table. -/
def Dict.fills (d : Dict) : DictOp → Bool
  | .insert _ _ => d.size ≤ d.n + 1
  | .delete _ => false

/-- Every growth of the run meets, for every key, records that read the same both ways. -/
def GrowsOnlyPalindromes (depth : ℕ) (ops : List DictOp) : Prop :=
  ∀ pre op post, ops = pre ++ op :: post → ∀ d, dictRun depth pre = some d → d.fills op →
    ∀ k, (records (pre ++ [op]) k).reverse = records (pre ++ [op]) k

theorem GrowsOnlyPalindromes.init {depth : ℕ} {pre post : List DictOp}
    (h : GrowsOnlyPalindromes depth (pre ++ post)) : GrowsOnlyPalindromes depth pre := by
  intro pre' op post' hsplit
  exact h pre' op (post' ++ post) (by rw [hsplit, List.append_assoc, List.cons_append])

/-- One call, on chains that are the records in order. -/
private theorem dictStep_values (depth : ℕ) {pre : List DictOp} {d : Dict} (hsound : d.Sound)
    (hvalues : ∀ k, d.values k = records pre k) (op : DictOp) :
    ∃ d', dictStep (depth + 3) d op = some d' ∧ d'.Sound ∧
      ∀ k, d'.values k =
        if d.fills op then (records (pre ++ [op]) k).reverse else records (pre ++ [op]) k := by
  cases op with
  | insert key value =>
      obtain ⟨d', hrun, hsound', -, -, hv⟩ := dictInsert_spec depth hsound key value
      refine ⟨d', hrun, hsound', ?_⟩
      intro k
      rw [hv k, hvalues k, records_concat]
      simp [Dict.fills]
  | delete key =>
      refine ⟨dictDelete d key, rfl, hsound.delete key, ?_⟩
      intro k
      rw [dictDelete_values, hvalues k, records_concat]
      rfl

/-- While the growths meet palindromes, the chains are the records in order. -/
private theorem GrowsOnlyPalindromes.values {depth : ℕ} {ops : List DictOp}
    (h : GrowsOnlyPalindromes (depth + 3) ops) :
    ∃ d, dictRun (depth + 3) ops = some d ∧ d.Sound ∧ ∀ k, d.values k = records ops k := by
  induction ops using List.reverseRecOn with
  | nil => exact ⟨dictCreate, rfl, dictCreate_sound, stored_replicate_nil hashFunction INITIAL_SIZE⟩
  | append_singleton ops op ih =>
      obtain ⟨d, hrun, hsound, hvalues⟩ := ih h.init
      obtain ⟨d', hstep, hsound', hv⟩ := dictStep_values depth hsound hvalues op
      refine ⟨d', (dictRun_concat (depth + 3) ops op hrun).trans hstep, hsound', ?_⟩
      intro k
      rw [hv k]
      by_cases hfills : d.fills op
      · rw [if_pos hfills]
        exact h ops op [] rfl d hrun hfills k
      · rw [if_neg hfills]

/-- Deletions of one key take its values one after another. -/
private theorem dictRun_deletions (depth : ℕ) {pre : List DictOp} {d : Dict}
    (hrun : dictRun depth pre = some d) (key : CString) (m : ℕ) :
    ∃ d', dictRun depth (pre ++ List.replicate m (.delete key)) = some d' ∧
      d'.values key = (d.values key).drop m ∧
      records (pre ++ List.replicate m (.delete key)) key = (records pre key).drop m := by
  induction m with
  | zero => exact ⟨d, by simpa using hrun, rfl, by simp⟩
  | succ m ih =>
      obtain ⟨e, hrune, hvalues, hrecords⟩ := ih
      refine ⟨dictDelete e key, ?_, ?_, ?_⟩
      · rw [List.replicate_succ', ← List.append_assoc]
        exact dictRun_concat depth _ _ hrune
      · rw [dictDelete_values, hvalues]
        simp [recordsAfter]
      · rw [List.replicate_succ', ← List.append_assoc, records_concat, hrecords]
        simp [recordsAfter]

private theorem eq_of_head?_drop {as bs : List CString}
    (h : ∀ m, (as.drop m).head? = (bs.drop m).head?) : as = bs := by
  apply List.ext_getElem?
  intro m
  simpa using h m

/-- **The latest value of every key is found, after every call of a run and whatever number
of its records is deleted then, exactly when every growth of the run meets records that read
the same both ways.** -/
theorem dictSearch_latest_iff (depth : ℕ) (ops : List DictOp) :
    (∀ pre, pre <+: ops → ∀ key m, ∃ d,
        dictRun (depth + 3) (pre ++ List.replicate m (.delete key)) = some d ∧
        dictSearch d key = latest (pre ++ List.replicate m (.delete key)) key) ↔
      GrowsOnlyPalindromes (depth + 3) ops := by
  constructor
  · intro h
    have hvalues : ∀ pre, pre <+: ops → ∀ d, dictRun (depth + 3) pre = some d →
        ∀ key, d.values key = records pre key := by
      intro pre hpre d hrun key
      apply eq_of_head?_drop
      intro m
      obtain ⟨e, hrune, hsearch⟩ := h pre hpre key m
      obtain ⟨e', hrune', hdrop, hrecords⟩ := dictRun_deletions (depth + 3) hrun key m
      cases hrune.symm.trans hrune'
      rw [← hdrop, ← dictSearch_eq_head?, hsearch, latest, hrecords]
    intro pre op post hsplit d hrun hfills k
    obtain ⟨e, hrune, hsound, -⟩ := dictRun_returns depth pre
    cases hrun.symm.trans hrune
    have hpre : pre <+: ops := ⟨_, hsplit.symm⟩
    have hnext : pre ++ [op] <+: ops := ⟨post, by simp [hsplit]⟩
    obtain ⟨d', hstep, -, hv⟩ := dictStep_values depth hsound (hvalues pre hpre d hrun) op
    have hv' := hv k
    rw [if_pos hfills] at hv'
    rw [← hv']
    exact hvalues _ hnext d' ((dictRun_concat (depth + 3) pre _ hrun).trans hstep) k
  · rintro h pre ⟨post, rfl⟩ key m
    obtain ⟨d, hrun, -, hvalues⟩ := h.init.values
    obtain ⟨d', hrun', hdrop, hrecords⟩ := dictRun_deletions (depth + 3) hrun key m
    refine ⟨d', hrun', ?_⟩
    rw [dictSearch_eq_head?, hdrop, latest, hrecords, hvalues key]

/-! ## The first growth -/

/-- Inserts that leave the first table below its size. -/
private theorem inserts_below_size (depth : ℕ) (key : CString) (values : List CString)
    (hfew : values.length < INITIAL_SIZE) :
    ∃ d, dictRun (depth + 3) (values.map (.insert key)) = some d ∧ d.Sound ∧
      d.size = INITIAL_SIZE ∧ d.n = values.length ∧ d.values key = values.reverse := by
  induction values using List.reverseRecOn with
  | nil =>
      exact ⟨dictCreate, rfl, dictCreate_sound, rfl, rfl,
        stored_replicate_nil hashFunction INITIAL_SIZE key⟩
  | append_singleton values value ih =>
      rw [List.length_append, List.length_singleton] at hfew
      obtain ⟨d, hrun, hsound, hsize, hn, hvalues⟩ := ih (by omega)
      have hroom : d.n + 1 < d.size := by omega
      refine ⟨d.link key value, ?_, hsound.link hroom key value, hsize, ?_, ?_⟩
      · rw [List.map_append, List.map_singleton, dictRun_concat (depth + 3) _ _ hrun]
        exact dictInsert_of_room (depth + 2) hroom key value
      · rw [List.length_append, List.length_singleton, ← hn, Dict.link_n]
      · rw [Dict.values_link, hvalues]
        simp [recordsAfter]

/-- The insert that fills the first table turns round the values of its key. -/
private theorem first_growth (depth : ℕ) (key old new : CString) (rest : List CString)
    (hfills : rest.length + 2 = INITIAL_SIZE) :
    ∃ d, dictRun (depth + 3) ((old :: rest).map (.insert key) ++ [.insert key new]) = some d ∧
      dictSearch d key = some old := by
  obtain ⟨d, hrun, hsound, hsize, hn, hvalues⟩ :=
    inserts_below_size depth key (old :: rest) (by rw [List.length_cons]; omega)
  rw [List.length_cons] at hn
  obtain ⟨d', hinsert, -, -, -, hv⟩ := dictInsert_of_full depth hsound (by omega) key new
  refine ⟨d', (dictRun_concat (depth + 3) _ _ hrun).trans hinsert, ?_⟩
  rw [dictSearch_eq_head?, hv key, Dict.values_link, hvalues]
  simp [recordsAfter]

/-- A key inserted with an old value and then with new ones until the table grows has the old
value again. -/
theorem growth_uncovers_oldest :
    ¬ ∀ (ops : List DictOp) (key : CString) (d : Dict), dictRun 3 ops = some d →
      dictSearch d key = latest ops key := by
  intro h
  let key : CString := ⟨[0x6b#8], by decide⟩
  let old : CString := ⟨[0x6f#8], by decide⟩
  let new : CString := ⟨[0x6e#8], by decide⟩
  obtain ⟨d, hrun, hfound⟩ := first_growth 0 key old new (List.replicate 1022 new)
    (by rw [List.length_replicate, INITIAL_SIZE])
  have hsame := h _ key d hrun
  have hlatest : ∀ ops, latest (ops ++ [.insert key new]) key = some new := by
    intro ops
    simp [latest, recordsAfter]
  rw [hfound, hlatest] at hsame
  exact absurd hsame (by decide)

end RfsAtsc
