import Mathlib.Data.BitVec
import Mathlib.Data.List.Induction
import Mathlib.Tactic.SplitIfs
import RfsAtsc.HashChains

/-!
# The dictionary of `hash.c`

`DictInsert` puts a record at the front of its chain and counts it; when the count
reaches the size of the table, `grow` inserts every record into a table twice the
size, bucket by bucket and front to back, and takes that table's place.

The new table has every key's records the other way round, so after a growth
`DictSearch` finds the oldest value of a key and `DictDelete` removes it.
`DictDelete` leaves the count as it was: `n` counts the inserts since the last
growth together with what that growth moved, and not the records stored.
-/

namespace RfsAtsc

open HashChains

/-- A string: bytes before a terminating zero. -/
abbrev CString := { s : List (BitVec 8) // 0#8 ∉ s }

/-- `struct elt`, without the link. -/
abbrev Elt := Record CString CString

def INITIAL_SIZE : ℕ := 1024

def GROWTH_FACTOR : ℕ := 2

def MAX_LOAD_FACTOR : ℕ := 1

def MULTIPLIER : ℕ := 97

/-- `struct dict`: a table of `size` chains. -/
structure Dict where
  size : ℕ
  n : ℕ
  table : List (List Elt)
  length_table : table.length = size
  size_pos : 0 < size

/-- `internalDictCreate`. -/
def internalDictCreate (size : ℕ) (hsize : 0 < size) : Dict where
  size := size
  n := 0
  table := List.replicate size []
  length_table := List.length_replicate
  size_pos := hsize

/-- `DictCreate`. -/
def dictCreate : Dict := internalDictCreate INITIAL_SIZE (by decide)

/-- `hash_function`, in an `unsigned long` of 64 bits. -/
def hashFunction (s : CString) : ℕ :=
  s.val.foldl (fun h us => (h * MULTIPLIER + us.toNat) % 2 ^ 64) 0

/-- `DictInsert` up to the test of the load: the record is linked and counted. -/
def Dict.link (d : Dict) (key value : CString) : Dict where
  size := d.size
  n := d.n + 1
  table := d.table.modify (hashFunction key % d.size) (⟨key, value⟩ :: ·)
  length_table := by rw [List.length_modify, d.length_table]
  size_pos := d.size_pos

mutual

/-- `DictInsert`, with as many nested calls as `depth` allows. -/
def dictInsert : ℕ → Dict → CString → CString → Option Dict
  | 0, _, _, _ => none
  | depth + 1, d, key, value =>
      let d := d.link key value
      if d.size * MAX_LOAD_FACTOR ≤ d.n then grow depth d else some d

/-- `grow`, with as many nested calls as `depth` allows. -/
def grow : ℕ → Dict → Option Dict
  | 0, _ => none
  | depth + 1, d =>
      d.table.flatten.foldlM (fun d2 e => dictInsert depth d2 e.key e.value)
        (internalDictCreate (d.size * GROWTH_FACTOR) (Nat.mul_pos d.size_pos (by decide)))

end

/-- `DictSearch`; `none` is the null pointer. -/
def dictSearch (d : Dict) (key : CString) : Option CString :=
  firstValue key (d.table.getD (hashFunction key % d.size) [])

/-- `DictDelete`. -/
def dictDelete (d : Dict) (key : CString) : Dict where
  size := d.size
  n := d.n
  table := d.table.modify (hashFunction key % d.size) (unlinkFirst key)
  length_table := by rw [List.length_modify, d.length_table]
  size_pos := d.size_pos

/-- A call that changes a dictionary. -/
inductive DictOp where
  | insert (key value : CString)
  | delete (key : CString)

/-- One call. -/
def dictStep (depth : ℕ) (d : Dict) : DictOp → Option Dict
  | .insert key value => dictInsert depth d key value
  | .delete key => some (dictDelete d key)

/-- The calls of a program, one after another, from `DictCreate`. -/
def dictRun (depth : ℕ) (ops : List DictOp) : Option Dict :=
  ops.foldlM (dictStep depth) dictCreate

/-! ## What the calls are for -/

/-- The values of the records of a key that one call leaves, the latest first. -/
def recordsAfter (key : CString) (values : List CString) : DictOp → List CString
  | .insert k v => if key = k then v :: values else values
  | .delete k => if key = k then values.tail else values

/-- The values of the records of a key that are inserted and not deleted, the latest
first; a deletion takes the latest. -/
def records (ops : List DictOp) (key : CString) : List CString :=
  ops.foldl (recordsAfter key) []

/-- The value of the latest record of a key. -/
def latest (ops : List DictOp) (key : CString) : Option CString :=
  (records ops key).head?

/-- The last operation changes what is recorded of a key. -/
@[simp] theorem records_concat (ops : List DictOp) (op : DictOp) (key : CString) :
    records (ops ++ [op]) key = recordsAfter key (records ops key) op := by
  simp [records]

/-- The table is in order: every record is in the chain of its key, `n` is the number of
records, and it is below the size. -/
def Represents (d : Dict) : Prop :=
  Placed hashFunction d.table ∧ d.n = d.table.flatten.length ∧ d.n < d.size

/-- The values of a key in its chain, from the front. -/
def Dict.values (d : Dict) (key : CString) : List CString :=
  stored hashFunction d.table key

/-- What every call keeps: the records are placed, no more of them than `n`, and `n` is
below the size. -/
structure Dict.Sound (d : Dict) : Prop where
  placed : Placed hashFunction d.table
  stored_le : d.table.flatten.length ≤ d.n
  n_lt : d.n < d.size

/-! ## One call -/

/-- A search gives the first value in the key's chain. -/
theorem dictSearch_eq_head? (d : Dict) (key : CString) :
    dictSearch d key = (d.values key).head? := by
  rw [dictSearch, firstValue_eq_head?, Dict.values, stored, chainOf, d.length_table]

/-- The table is never empty. -/
theorem Dict.length_pos (d : Dict) : 0 < d.table.length := by
  rw [d.length_table]
  exact d.size_pos

@[simp] theorem Dict.link_size (d : Dict) (key value : CString) :
    (d.link key value).size = d.size := rfl

@[simp] theorem Dict.link_n (d : Dict) (key value : CString) :
    (d.link key value).n = d.n + 1 := rfl

@[simp] theorem dictDelete_n (d : Dict) (key : CString) : (dictDelete d key).n = d.n := rfl

/-- A record is put in front of its chain. -/
theorem Dict.link_table (d : Dict) (key value : CString) :
    (d.link key value).table = push hashFunction ⟨key, value⟩ d.table := by
  rw [push, d.length_table]
  rfl

/-- A deletion takes the first record of the key out of its chain. -/
theorem dictDelete_table (d : Dict) (key : CString) :
    (dictDelete d key).table = unlink hashFunction key d.table := by
  rw [unlink, d.length_table]
  rfl

/-- A value linked is the first of its key's. -/
theorem Dict.values_link (d : Dict) (key value k : CString) :
    (d.link key value).values k = recordsAfter k (d.values k) (.insert key value) := by
  rw [Dict.values, Dict.link_table, stored_push _ d.length_pos]
  rfl

/-- A deletion takes the first of the key's values away. -/
theorem dictDelete_values (d : Dict) (key k : CString) :
    (dictDelete d key).values k = recordsAfter k (d.values k) (.delete key) := by
  rw [Dict.values, dictDelete_table, stored_unlink _ d.length_pos]
  rfl

/-- Each record linked is one more. -/
theorem Dict.length_link (d : Dict) (key value : CString) :
    (d.link key value).table.flatten.length = d.table.flatten.length + 1 := by
  rw [Dict.link_table, length_flatten_push _ d.length_pos]

/-- A deletion takes one record away exactly when the key has one, and counts nothing. -/
theorem dictDelete_length (d : Dict) (key : CString) :
    (dictDelete d key).table.flatten.length + (if d.values key = [] then 0 else 1) =
      d.table.flatten.length := by
  rw [dictDelete_table]
  exact length_flatten_unlink key d.length_pos

/-- A deletion keeps a dictionary sound. -/
theorem Dict.Sound.delete {d : Dict} (h : d.Sound) (key : CString) : (dictDelete d key).Sound where
  placed := by
    rw [dictDelete_table]
    exact h.placed.unlink key
  stored_le := by
    have hlen := dictDelete_length d key
    have hle := h.stored_le
    rw [dictDelete_n]
    omega
  n_lt := h.n_lt

/-- An insert with room left links the record and is done. -/
theorem dictInsert_of_room (depth : ℕ) {d : Dict} (hroom : d.n + 1 < d.size)
    (key value : CString) : dictInsert (depth + 1) d key value = some (d.link key value) := by
  rw [dictInsert]
  have hload : ¬ (d.link key value).size * MAX_LOAD_FACTOR ≤ (d.link key value).n := by
    rw [Dict.link_size, Dict.link_n, MAX_LOAD_FACTOR]
    omega
  exact if_neg hload

/-- A record is linked where its key belongs. -/
theorem Dict.Sound.placed_link {d : Dict} (h : d.Sound) (key value : CString) :
    Placed hashFunction (d.link key value).table := by
  rw [Dict.link_table]
  exact h.placed.push _

/-- A record linked with room left keeps a dictionary sound. -/
theorem Dict.Sound.link {d : Dict} (h : d.Sound) (hroom : d.n + 1 < d.size)
    (key value : CString) : (d.link key value).Sound where
  placed := h.placed_link key value
  stored_le := by
    rw [Dict.length_link]
    exact Nat.succ_le_succ h.stored_le
  n_lt := hroom

/-- Inserts that all have room put their records in one after another. -/
private theorem insertAll_of_room (depth : ℕ) (es : List Elt) {d : Dict}
    (hroom : d.n + es.length < d.size) :
    ∃ d', es.foldlM (fun d2 e => dictInsert (depth + 1) d2 e.key e.value) d = some d' ∧
      d'.size = d.size ∧ d'.n = d.n + es.length ∧
      d'.table = pushAll hashFunction es d.table := by
  induction es generalizing d with
  | nil => exact ⟨d, rfl, rfl, rfl, rfl⟩
  | cons e es ih =>
      rw [List.length_cons] at hroom
      have hlink : (d.link e.key e.value).n + es.length < (d.link e.key e.value).size := by
        rw [Dict.link_n, Dict.link_size]
        omega
      obtain ⟨d', hrun, hsize, hn, htable⟩ := ih hlink
      refine ⟨d', ?_, hsize, ?_, ?_⟩
      · rw [List.foldlM_cons, dictInsert_of_room depth (by omega) e.key e.value]
        exact hrun
      · rw [hn, Dict.link_n, List.length_cons]
        omega
      · rw [htable, Dict.link_table, pushAll_cons]

/-- **A growth turns the records of every key round.**  It makes the table twice as large
and counts the records anew. -/
theorem dictInsert_of_full (depth : ℕ) {d : Dict} (h : d.Sound) (hfull : d.size ≤ d.n + 1)
    (key value : CString) :
    ∃ d', dictInsert (depth + 3) d key value = some d' ∧ d'.Sound ∧
      d'.n = d'.table.flatten.length ∧
      d'.table.flatten.length = d.table.flatten.length + 1 ∧
      ∀ k, d'.values k = ((d.link key value).values k).reverse := by
  have hload : (d.link key value).size * MAX_LOAD_FACTOR ≤ (d.link key value).n := by
    rw [Dict.link_size, Dict.link_n, MAX_LOAD_FACTOR]
    omega
  have hlen := d.length_link key value
  have hdouble : 0 < d.size * GROWTH_FACTOR := Nat.mul_pos d.size_pos (by decide)
  have hroom : (internalDictCreate (d.size * GROWTH_FACTOR) hdouble).n +
      (d.link key value).table.flatten.length <
        (internalDictCreate (d.size * GROWTH_FACTOR) hdouble).size := by
    have hle := h.stored_le
    have hlt := h.n_lt
    simp only [internalDictCreate, GROWTH_FACTOR]
    omega
  obtain ⟨d', hrun, hsize, hn, htable⟩ := insertAll_of_room depth _ hroom
  have hfacts := pushAll_facts hashFunction (d.link key value).table.flatten
    (placed_replicate_nil hashFunction (d.size * GROWTH_FACTOR)) (by rwa [List.length_replicate])
  have hstored : d'.table.flatten.length = d.table.flatten.length + 1 := by
    rw [htable, internalDictCreate, hfacts.2.2.1, hlen]
    simp
  have hcount : d'.n = d'.table.flatten.length := by
    rw [hn, hstored, hlen]
    simp [internalDictCreate]
  refine ⟨d', ?_, ⟨?_, hcount.ge, ?_⟩, hcount, hstored, ?_⟩
  · rw [dictInsert]
    exact (if_pos hload).trans hrun
  · rw [htable]
    exact hfacts.1
  · rw [hsize, hn]
    exact hroom
  · intro k
    rw [Dict.values, htable]
    exact stored_pushAll (h.placed_link key value) (d.link key value).length_pos hdouble k

/-- What an insert does: it links the record, and a full table grows. -/
theorem dictInsert_spec (depth : ℕ) {d : Dict} (h : d.Sound) (key value : CString) :
    ∃ d', dictInsert (depth + 3) d key value = some d' ∧ d'.Sound ∧
      d'.table.flatten.length = d.table.flatten.length + 1 ∧
      (d.n = d.table.flatten.length → d'.n = d'.table.flatten.length) ∧
      ∀ k, d'.values k =
        if d.size ≤ d.n + 1 then (recordsAfter k (d.values k) (.insert key value)).reverse
        else recordsAfter k (d.values k) (.insert key value) := by
  by_cases hfull : d.size ≤ d.n + 1
  · obtain ⟨d', hrun, hsound, hcount, hlen, hvalues⟩ := dictInsert_of_full depth h hfull key value
    refine ⟨d', hrun, hsound, hlen, fun _ => hcount, ?_⟩
    intro k
    rw [hvalues k, if_pos hfull, Dict.values_link]
  · have hroom : d.n + 1 < d.size := by omega
    refine ⟨d.link key value, dictInsert_of_room (depth + 2) hroom key value,
      h.link hroom key value, d.length_link key value, ?_, ?_⟩
    · intro hcount
      rw [Dict.length_link, ← hcount, Dict.link_n]
    · intro k
      rw [if_neg hfull, Dict.values_link]

end RfsAtsc
