import Mathlib.Data.List.Basic

/-!
# Tables of chains

A hash table keeps its records in chains, each record in the chain of its key's
hash.  A chain is searched from the front, so for one key it works as a stack: a
new record goes to the front and hides the older ones, and the removal of the
first record of a key brings the next one back.  A table whose records are in
their chains is seen through `stored`, the values of each key from the front.

Moving all records to an empty table one after another, each to the front of its
new chain, turns the values of every key round (`stored_pushAll`).
-/

namespace HashChains

/-- A record of a table. -/
structure Record (K V : Type) where
  key : K
  value : V
deriving DecidableEq

variable {K V : Type}

/-! ## The table -/

variable (hash : K → ℕ)

/-- Every record is in the chain of its key. -/
def Placed (table : List (List (Record K V))) : Prop :=
  ∀ i chain, table[i]? = some chain → ∀ r ∈ chain, hash r.key % table.length = i

/-- The chain of a key. -/
def chainOf (key : K) (table : List (List (Record K V))) : List (Record K V) :=
  table.getD (hash key % table.length) []

/-- A new record at the front of its chain. -/
def push (r : Record K V) (table : List (List (Record K V))) : List (List (Record K V)) :=
  table.modify (hash r.key % table.length) (r :: ·)

/-- Records put into a table one after another. -/
def pushAll (records : List (Record K V)) (table : List (List (Record K V))) :
    List (List (Record K V)) :=
  records.foldl (fun t r => push hash r t) table

/-- The first of several records is pushed first. -/
theorem pushAll_cons (r : Record K V) (records : List (Record K V))
    (table : List (List (Record K V))) :
    pushAll hash (r :: records) table = pushAll hash records (push hash r table) := rfl

/-- Pushing a record leaves as many chains. -/
@[simp] theorem length_push (r : Record K V) (table : List (List (Record K V))) :
    (push hash r table).length = table.length := List.length_modify ..

variable {hash}

/-- A chain that is changed keeps the records placed when the new ones belong there. -/
private theorem Placed.modify {table : List (List (Record K V))} (h : Placed hash table) (i : ℕ)
    (f : List (Record K V) → List (Record K V))
    (hf : ∀ chain, ∀ r ∈ f chain, r ∈ chain ∨ hash r.key % table.length = i) :
    Placed hash (table.modify i f) := by
  intro j chain hj r hr
  rw [List.length_modify]
  by_cases hij : i = j
  · subst hij
    rw [List.getElem?_modify_eq] at hj
    obtain ⟨old, hold, rfl⟩ := Option.map_eq_some_iff.mp hj
    rcases hf old r hr with hmem | hplace
    · exact h i old hold r hmem
    · exact hplace
  · rw [List.getElem?_modify_ne _ _ hij] at hj
    exact h j chain hj r hr

/-- A record is pushed where its key belongs. -/
theorem Placed.push {table : List (List (Record K V))} (h : Placed hash table) (r : Record K V) :
    Placed hash (push hash r table) := by
  apply h.modify
  intro chain s hs
  rcases List.mem_cons.mp hs with rfl | hmem
  · exact Or.inr rfl
  · exact Or.inl hmem

variable (hash) in
/-- In empty chains everything is where it belongs. -/
theorem placed_replicate_nil (size : ℕ) :
    Placed hash (List.replicate size ([] : List (Record K V))) := by
  intro i chain hget r hr
  obtain ⟨_, rfl⟩ := List.getElem?_eq_some_iff.mp hget
  simp at hr

/-- A change of one chain, seen from each key. -/
private theorem chainOf_modify (key : K) (i : ℕ) (f : List (Record K V) → List (Record K V))
    {table : List (List (Record K V))} (hpos : 0 < table.length) :
    chainOf hash key (table.modify i f) =
      if i = hash key % table.length then f (chainOf hash key table)
      else chainOf hash key table := by
  have hlt : hash key % table.length < table.length := Nat.mod_lt _ hpos
  by_cases hi : i = hash key % table.length
  · subst hi
    simp [chainOf, List.getElem?_eq_getElem hlt]
  · simp [chainOf, List.getElem?_modify_ne _ _ hi, hi]

/-- A change of one chain, counted over the table. -/
private theorem length_flatten_modify {table : List (List (Record K V))} {i : ℕ}
    (hi : i < table.length) (f : List (Record K V) → List (Record K V)) :
    (table.modify i f).flatten.length + (table.getD i []).length =
      table.flatten.length + (f (table.getD i [])).length := by
  obtain ⟨front, chain, back, hsplit, hlen, hmod⟩ := List.exists_of_modify f hi
  have hget : table.getD i [] = chain := by
    rw [hsplit, ← hlen]
    simp
  rw [hget, hmod, hsplit]
  simp only [List.flatten_append, List.flatten_cons, List.length_append]
  omega

/-- Each record pushed is one more. -/
theorem length_flatten_push (r : Record K V) {table : List (List (Record K V))}
    (hpos : 0 < table.length) :
    (push hash r table).flatten.length = table.flatten.length + 1 := by
  have h := length_flatten_modify (Nat.mod_lt (hash r.key) hpos) (r :: ·)
  rw [List.length_cons] at h
  rw [push]
  omega

variable [DecidableEq K]

/-! ## One chain -/

/-- The values of a key in a chain, from the front. -/
def valuesOf (key : K) : List (Record K V) → List V
  | [] => []
  | r :: chain => if r.key = key then r.value :: valuesOf key chain else valuesOf key chain

/-- The value of the first record of a key. -/
def firstValue (key : K) : List (Record K V) → Option V
  | [] => none
  | r :: chain => if r.key = key then some r.value else firstValue key chain

/-- The chain without the first record of a key. -/
def unlinkFirst (key : K) : List (Record K V) → List (Record K V)
  | [] => []
  | r :: chain => if r.key = key then chain else r :: unlinkFirst key chain

/-- The values of a key in two chains one behind the other. -/
@[simp] theorem valuesOf_append (key : K) (as bs : List (Record K V)) :
    valuesOf key (as ++ bs) = valuesOf key as ++ valuesOf key bs := by
  induction as with
  | nil => rfl
  | cons r as ih => by_cases h : r.key = key <;> simp [valuesOf, h, ih]

/-- A key without values is in no record of the chain. -/
theorem valuesOf_eq_nil_iff (key : K) (chain : List (Record K V)) :
    valuesOf key chain = [] ↔ ∀ r ∈ chain, r.key ≠ key := by
  induction chain with
  | nil => simp [valuesOf]
  | cons r chain ih => by_cases h : r.key = key <;> simp [valuesOf, h, ih]

/-- The search finds the first of the values. -/
theorem firstValue_eq_head? (key : K) (chain : List (Record K V)) :
    firstValue key chain = (valuesOf key chain).head? := by
  induction chain with
  | nil => rfl
  | cons r chain ih => by_cases h : r.key = key <;> simp [valuesOf, firstValue, h, ih]

/-- The removal takes the first value of its key and no other. -/
theorem valuesOf_unlinkFirst (k key : K) (chain : List (Record K V)) :
    valuesOf k (unlinkFirst key chain) =
      if k = key then (valuesOf k chain).tail else valuesOf k chain := by
  induction chain with
  | nil => simp [valuesOf, unlinkFirst]
  | cons r chain ih =>
      by_cases hr : r.key = key
      · by_cases hk : k = key
        · simp [unlinkFirst, valuesOf, hr, hk]
        · simp [unlinkFirst, valuesOf, hr, hk, Ne.symm hk]
      · by_cases hk : k = key
        · subst hk
          simpa [unlinkFirst, valuesOf, hr] using ih
        · have hrest : valuesOf k (unlinkFirst key chain) = valuesOf k chain := by
            simpa [hk] using ih
          simp [unlinkFirst, valuesOf, hr, hk, hrest]

/-- What a deletion leaves was there. -/
theorem mem_of_mem_unlinkFirst {key : K} {r : Record K V} {chain : List (Record K V)}
    (h : r ∈ unlinkFirst key chain) : r ∈ chain := by
  induction chain with
  | nil => exact h
  | cons s chain ih =>
      by_cases hs : s.key = key
      · exact List.mem_cons_of_mem s (by simpa [unlinkFirst, hs] using h)
      · rcases List.mem_cons.mp (by simpa [unlinkFirst, hs] using h) with rfl | hrest
        · exact List.mem_cons_self
        · exact List.mem_cons_of_mem s (ih hrest)

/-- The removal takes one record exactly when the key has one. -/
theorem length_unlinkFirst (key : K) (chain : List (Record K V)) :
    (unlinkFirst key chain).length + (if valuesOf key chain = [] then 0 else 1) = chain.length := by
  induction chain with
  | nil => rfl
  | cons r chain ih =>
      by_cases hr : r.key = key
      · simp [unlinkFirst, valuesOf, hr]
      · simp only [unlinkFirst, valuesOf, hr, if_false, List.length_cons]
        omega

/-! ## The values of a key -/

variable (hash)

/-- The values of a key in its chain, from the front. -/
def stored (table : List (List (Record K V))) (key : K) : List V :=
  valuesOf key (chainOf hash key table)

/-- The first record of a key out of its chain. -/
def unlink (key : K) (table : List (List (Record K V))) : List (List (Record K V)) :=
  table.modify (hash key % table.length) (unlinkFirst key)

variable {hash}

/-- A deletion leaves the records where they belong. -/
theorem Placed.unlink {table : List (List (Record K V))} (h : Placed hash table) (key : K) :
    Placed hash (unlink hash key table) := by
  apply h.modify
  intro chain s hs
  exact Or.inl (mem_of_mem_unlinkFirst hs)

/-- **A new record hides the older ones of its key.** -/
theorem stored_push (r : Record K V) {table : List (List (Record K V))}
    (hpos : 0 < table.length) (k : K) :
    stored hash (push hash r table) k =
      if k = r.key then r.value :: stored hash table k else stored hash table k := by
  rw [stored, push, chainOf_modify k _ _ hpos]
  by_cases hk : k = r.key
  · subst hk
    simp [stored, valuesOf]
  · by_cases hplace : hash r.key % table.length = hash k % table.length
    · simp [stored, valuesOf, hplace, hk, Ne.symm hk]
    · simp [stored, hplace, hk]

/-- **A removal brings back the record that the removed one had hidden.** -/
theorem stored_unlink (key : K) {table : List (List (Record K V))}
    (hpos : 0 < table.length) (k : K) :
    stored hash (unlink hash key table) k =
      if k = key then (stored hash table k).tail else stored hash table k := by
  rw [stored, unlink, chainOf_modify k _ _ hpos]
  by_cases hk : k = key
  · subst hk
    simp [stored, valuesOf_unlinkFirst]
  · by_cases hplace : hash key % table.length = hash k % table.length
    · simp [stored, valuesOf_unlinkFirst, hplace, hk]
    · simp [stored, hplace, hk]

/-! ## All records of a table -/

/-- The records of a key are all in its chain. -/
theorem Placed.valuesOf_flatten {table : List (List (Record K V))} (h : Placed hash table)
    (hpos : 0 < table.length) (key : K) :
    valuesOf key table.flatten = stored hash table key := by
  have hlt : hash key % table.length < table.length := Nat.mod_lt _ hpos
  have houtside : ∀ part : List (List (Record K V)),
      (∀ chain ∈ part, ∃ i, i ≠ hash key % table.length ∧ table[i]? = some chain) →
      valuesOf key part.flatten = [] := by
    intro part hpart
    rw [valuesOf_eq_nil_iff]
    intro r hr hkey
    obtain ⟨chain, hchain, hmem⟩ := List.mem_flatten.mp hr
    obtain ⟨i, hi, hget⟩ := hpart chain hchain
    exact hi (by rw [← h i chain hget r hmem, hkey])
  have hsplit : table = table.take (hash key % table.length) ++
      table[hash key % table.length] :: table.drop (hash key % table.length + 1) := by
    rw [List.getElem_cons_drop, List.take_append_drop]
  have hbefore : valuesOf key (table.take (hash key % table.length)).flatten = [] := by
    apply houtside
    intro chain hchain
    obtain ⟨i, hi, rfl⟩ := List.mem_take_iff_getElem.mp hchain
    exact ⟨i, by omega, List.getElem?_eq_getElem (by omega)⟩
  have hafter : valuesOf key (table.drop (hash key % table.length + 1)).flatten = [] := by
    apply houtside
    intro chain hchain
    obtain ⟨i, hi, rfl⟩ := List.mem_drop_iff_getElem.mp hchain
    exact ⟨hash key % table.length + 1 + i, by omega, List.getElem?_eq_getElem (by omega)⟩
  calc valuesOf key table.flatten
      = valuesOf key (table.take (hash key % table.length) ++
          table[hash key % table.length] :: table.drop (hash key % table.length + 1)).flatten :=
        congrArg (fun t => valuesOf key t.flatten) hsplit
    _ = valuesOf key table[hash key % table.length] := by
        rw [List.flatten_append, List.flatten_cons, valuesOf_append, valuesOf_append, hbefore,
          hafter, List.nil_append, List.append_nil]
    _ = stored hash table key := by simp [stored, chainOf, List.getElem?_eq_getElem hlt]

/-- A deletion takes one record away if its key has any. -/
theorem length_flatten_unlink (key : K) {table : List (List (Record K V))}
    (hpos : 0 < table.length) :
    (unlink hash key table).flatten.length +
      (if stored hash table key = [] then 0 else 1) = table.flatten.length := by
  have h := length_flatten_modify (Nat.mod_lt (hash key) hpos) (unlinkFirst key)
  have hchain := length_unlinkFirst key (table.getD (hash key % table.length) [])
  rw [unlink, stored, chainOf]
  omega

variable (hash) in
/-- What is placed, stored and counted after records have been put in one after another. -/
theorem pushAll_facts (records : List (Record K V)) {table : List (List (Record K V))}
    (hplaced : Placed hash table) (hpos : 0 < table.length) :
    Placed hash (pushAll hash records table) ∧
      (pushAll hash records table).length = table.length ∧
      (pushAll hash records table).flatten.length = table.flatten.length + records.length ∧
      ∀ k, stored hash (pushAll hash records table) k =
        (valuesOf k records).reverse ++ stored hash table k := by
  induction records generalizing table with
  | nil => exact ⟨hplaced, rfl, rfl, fun k => rfl⟩
  | cons r records ih =>
      have hlen : (push hash r table).length = table.length := length_push hash r table
      obtain ⟨hp, hl, hc, hs⟩ := ih (hplaced.push r) (by omega)
      refine ⟨hp, hl.trans hlen, ?_, ?_⟩
      · rw [pushAll_cons, hc, length_flatten_push r hpos, List.length_cons]
        omega
      · intro k
        rw [pushAll_cons, hs k, stored_push r hpos k]
        by_cases hk : k = r.key
        · simp [valuesOf, hk]
        · simp [valuesOf, hk, Ne.symm hk]

variable (hash) in
/-- Empty chains store nothing. -/
theorem stored_replicate_nil (size : ℕ) (k : K) :
    stored hash (List.replicate size ([] : List (Record K V))) k = [] := by
  have hchain : chainOf hash k (List.replicate size ([] : List (Record K V))) = [] := by
    rw [chainOf, List.getD_eq_getElem?_getD, List.getElem?_replicate]
    split_ifs <;> rfl
  rw [stored, hchain]
  rfl

/-- **Records moved to an empty table in the order of the old one come out turned round**:
every key keeps its values and has them the other way. -/
theorem stored_pushAll {table : List (List (Record K V))} (hplaced : Placed hash table)
    (hpos : 0 < table.length) {size : ℕ} (hsize : 0 < size) (k : K) :
    stored hash (pushAll hash table.flatten (List.replicate size [])) k =
      (stored hash table k).reverse := by
  have hfacts := pushAll_facts hash table.flatten (placed_replicate_nil hash size)
    (by simpa using hsize)
  rw [hfacts.2.2.2 k, stored_replicate_nil, hplaced.valuesOf_flatten hpos k, List.append_nil]

end HashChains
