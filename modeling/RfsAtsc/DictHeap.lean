import RfsAtsc.DictRuns
import RfsAtsc.SeparatedHeap
import Mathlib.Order.Lattice.Nat

/-!
# `hash.c` on its heap

The dictionary as the code has it: a block for the dictionary, one for its table of
pointers, and for each record an element with copies of the record's two strings.
`DictDelete` goes through a chain by the address of the pointer to change, and `grow`
builds a second dictionary from copies, swaps the two and destroys the one it came
from.

The fields of a block that `malloc` has just given out have no value, and a program
that reads one faults.
-/

namespace RfsAtsc.DictHeap

open SeparatedHeap HashChains

/-- What is allocated, each field with its value once it has been written. -/
inductive Block where
  /-- `struct dict` -/
  | dict (size n table : Option ℕ)
  /-- the pointer table -/
  | table (slots : List (Option ℕ))
  /-- `struct elt` -/
  | elt (next key value : Option ℕ)
  | str (s : CString)

namespace Block

def size : Block → Option ℕ
  | dict size _ _ => size
  | _ => none

def n : Block → Option ℕ
  | dict _ n _ => n
  | _ => none

def tablePtr : Block → Option ℕ
  | dict _ _ t => t
  | _ => none

def next : Block → Option ℕ
  | elt next _ _ => next
  | _ => none

def key : Block → Option ℕ
  | elt _ key _ => key
  | _ => none

def value : Block → Option ℕ
  | elt _ _ value => value
  | _ => none

def slot (i : ℕ) : Block → Option ℕ
  | table slots => slots.getD i none
  | _ => none

def text : Block → Option CString
  | str s => some s
  | _ => none

def setSize (size : ℕ) : Block → Option Block
  | dict _ n t => some (dict (some size) n t)
  | _ => none

def setN (n : ℕ) : Block → Option Block
  | dict size _ t => some (dict size (some n) t)
  | _ => none

def setTable (t : ℕ) : Block → Option Block
  | dict size n _ => some (dict size n (some t))
  | _ => none

def setNext (next : ℕ) : Block → Option Block
  | elt _ key value => some (elt (some next) key value)
  | _ => none

def setKey (key : ℕ) : Block → Option Block
  | elt next _ value => some (elt next (some key) value)
  | _ => none

def setValue (value : ℕ) : Block → Option Block
  | elt next key _ => some (elt next key (some value))
  | _ => none

def setSlot (i q : ℕ) : Block → Option Block
  | table slots => if i < slots.length then some (table (slots.set i (some q))) else none
  | _ => none

end Block

variable (A : Allocator Block)

/-- `strdup`. -/
def strdup (s : ℕ) : HeapM Block ℕ := do
  let t ← load s Block.text
  malloc A (.str t)

/-- `strcmp` finds no difference. -/
def strcmpEq (s t : ℕ) : HeapM Block Bool := do
  let a ← load s Block.text
  let b ← load t Block.text
  return a == b

/-- `internalDictCreate`. -/
def internalDictCreate (size : ℕ) : HeapM Block ℕ := do
  let d ← malloc A (.dict none none none)
  store d (Block.setSize size)
  store d (Block.setN 0)
  let t ← malloc A (.table (List.replicate size none))
  store d (Block.setTable t)
  forUpTo size fun i => do
    let t ← load d Block.tablePtr
    store t (Block.setSlot i 0)
  return d

/-- `DictCreate`. -/
def dictCreate : HeapM Block ℕ := internalDictCreate A INITIAL_SIZE

/-- The chain at one slot of the table: `for(e = d->table[i]; e != 0; e = next)`. -/
def destroyChain : ℕ → ℕ → HeapM Block Unit
  | 0, _ => fault
  | fuel + 1, e =>
      if e = 0 then pure ()
      else do
        let next ← load e Block.next
        let key ← load e Block.key
        free key
        let value ← load e Block.value
        free value
        free e
        destroyChain fuel next

/-- `DictDestroy`. -/
def dictDestroy (fuel d : ℕ) : HeapM Block Unit := do
  let size ← load d Block.size
  forUpTo size fun i => do
    let t ← load d Block.tablePtr
    let e ← load t (Block.slot i)
    destroyChain fuel e
  let t ← load d Block.tablePtr
  free t
  free d

mutual

/-- `DictInsert`. -/
def dictInsert : ℕ → ℕ → ℕ → ℕ → HeapM Block Unit
  | 0, _, _, _ => fault
  | fuel + 1, d, key, value => do
      let e ← malloc A (.elt none none none)
      let k ← strdup A key
      store e (Block.setKey k)
      let v ← strdup A value
      store e (Block.setValue v)
      let s ← load key Block.text
      let size ← load d Block.size
      let h := hashFunction s % size
      let t ← load d Block.tablePtr
      let front ← load t (Block.slot h)
      store e (Block.setNext front)
      store t (Block.setSlot h e)
      let n ← load d Block.n
      store d (Block.setN (n + 1))
      if size * MAX_LOAD_FACTOR ≤ n + 1 then grow fuel d else pure ()

/-- `grow`. -/
def grow : ℕ → ℕ → HeapM Block Unit
  | 0, _ => fault
  | fuel + 1, d => do
      let size ← load d Block.size
      let d2 ← internalDictCreate A (size * GROWTH_FACTOR)
      forUpTo size fun i => do
        let t ← load d Block.tablePtr
        let e ← load t (Block.slot i)
        copyChain fuel d2 e
      -- the guts of the two are swapped
      let swap ← load d some
      let guts ← load d2 some
      store d fun _ => some guts
      store d2 fun _ => some swap
      dictDestroy fuel d2

/-- The chain at one slot: `for(e = d->table[i]; e != 0; e = e->next)`. -/
def copyChain : ℕ → ℕ → ℕ → HeapM Block Unit
  | 0, _, _ => fault
  | fuel + 1, d2, e =>
      if e = 0 then pure ()
      else do
        let key ← load e Block.key
        let value ← load e Block.value
        dictInsert fuel d2 key value
        let next ← load e Block.next
        copyChain fuel d2 next

end

/-- The loop of `DictSearch`. -/
def searchChain : ℕ → ℕ → ℕ → HeapM Block ℕ
  | 0, _, _ => fault
  | fuel + 1, key, e =>
      if e = 0 then return 0
      else do
        let k ← load e Block.key
        let same ← strcmpEq k key
        if same then load e Block.value
        else do
          let next ← load e Block.next
          searchChain fuel key next

/-- `DictSearch`. -/
def dictSearch (fuel d key : ℕ) : HeapM Block ℕ := do
  let t ← load d Block.tablePtr
  let s ← load key Block.text
  let size ← load d Block.size
  let e ← load t (Block.slot (hashFunction s % size))
  searchChain fuel key e

/-- `struct elt **prev`: the pointer at a slot of the table, or the link of an element. -/
inductive Prev where
  | slot (table i : ℕ)
  | next (e : ℕ)

/-- The block that the pointer is in. -/
def Prev.address : Prev → ℕ
  | slot t _ => t
  | next e => e

/-- `*prev`. -/
def Prev.get : Prev → Block → Option ℕ
  | slot _ i => Block.slot i
  | next _ => Block.next

/-- `*prev = q`. -/
def Prev.set (q : ℕ) : Prev → Block → Option Block
  | slot _ i => Block.setSlot i q
  | next _ => Block.setNext q

/-- The loop of `DictDelete`. -/
def deleteChain : ℕ → ℕ → Prev → HeapM Block Unit
  | 0, _, _ => fault
  | fuel + 1, key, prev => do
      let cur ← load prev.address prev.get
      if cur = 0 then pure ()
      else do
        let k ← load cur Block.key
        let same ← strcmpEq k key
        if same then do
          let e ← load prev.address prev.get
          let next ← load e Block.next
          store prev.address (prev.set next)
          let k ← load e Block.key
          free k
          let v ← load e Block.value
          free v
          free e
        else deleteChain fuel key (.next cur)

/-- `DictDelete`. -/
def dictDelete (fuel d key : ℕ) : HeapM Block Unit := do
  let t ← load d Block.tablePtr
  let s ← load key Block.text
  let size ← load d Block.size
  deleteChain fuel key (.slot t (hashFunction s % size))

/-! ## What the heap holds -/

/-- Where the fields of an element point. -/
structure Links where
  next : ℕ
  key : ℕ
  value : ℕ

/-- The block of an element. -/
def Links.elt (l : Links) : Block := .elt (some l.next) (some l.key) (some l.value)

/-- A chain from a pointer on: an element for each record, with copies of its strings. -/
def chain : ℕ → List Elt → Assertion Block
  | q, [] => fact (q = 0)
  | q, e :: es => someOf fun l : Links =>
      pointsTo q l.elt * (pointsTo l.key (.str e.key) * (pointsTo l.value (.str e.value) *
        chain l.next es))

/-- The chains of a table. -/
def buckets (slots : List ℕ) (table : List (List Elt)) : Assertion Block :=
  (List.zipWith chain slots table).prod

/-- Where a dictionary has its table, and the pointers in it. -/
structure Layout where
  table : ℕ
  slots : List ℕ

/-- The block of the table. -/
def Layout.block (l : Layout) : Block := .table (l.slots.map some)

/-- The block of a dictionary. -/
def Layout.header (l : Layout) (d : Dict) : Block :=
  .dict (some d.size) (some d.n) (some l.table)

/-- A dictionary at an address. -/
def dictAt (p : ℕ) (d : Dict) : Assertion Block :=
  someOf fun l : Layout => fact (l.slots.length = d.table.length) *
    (pointsTo p (l.header d) * (pointsTo l.table l.block * buckets l.slots d.table))

/-- A chain of an element and more: the element's block, its two strings, and the rest. -/
theorem chain_cons_mul (q : ℕ) (e : Elt) (es : List Elt) (F : Assertion Block) :
    chain q (e :: es) * F = someOf fun l : Links =>
      pointsTo q l.elt * (pointsTo l.key (.str e.key) * (pointsTo l.value (.str e.value) *
        (chain l.next es * F))) := by
  rw [chain, someOf_mul]
  simp only [mul_assoc]

/-- The chains other than the one at a slot. -/
def others (i : ℕ) (slots : List ℕ) (table : List (List Elt)) : Assertion Block :=
  ((List.zipWith chain slots table).eraseIdx i).prod

variable {slots : List ℕ} {table : List (List Elt)}

/-- The buckets are one of them and the others. -/
theorem buckets_split {i : ℕ} (hi : i < table.length) (hlen : slots.length = table.length) :
    buckets slots table = chain (slots.getD i 0) (table.getD i []) * others i slots table := by
  have hzip : i < (List.zipWith chain slots table).length := by
    rw [List.length_zipWith, hlen, Nat.min_self]
    exact hi
  rw [buckets, ← List.CommMonoid.mul_prod_eraseIdx hzip, List.getElem_zipWith]
  simp [others, hi, hlen]

/-- A slot and its chain are changed together. -/
theorem buckets_set {i : ℕ} (hi : i < table.length) (hlen : slots.length = table.length) (q : ℕ)
    (es : List Elt) :
    buckets (slots.set i q) (table.set i es) = chain q es * others i slots table := by
  have hset : List.zipWith chain (slots.set i q) (table.set i es) =
      (List.zipWith chain slots table).set i (chain q es) := by
    apply List.ext_getElem
    · simp
    · intro j h₁ h₂
      simp only [List.getElem_zipWith, List.getElem_set]
      split <;> rfl
  rw [buckets_split (by rwa [List.length_set]) (by simpa using hlen), others, hset,
    List.eraseIdx_set_eq]
  simp [others, hi, hlen]

/-! ## Destroying -/

/-- Destroying a chain gives all of it back. -/
theorem destroyChain_spec (es : List Elt) (q : ℕ) {fuel : ℕ} (hfuel : es.length < fuel)
    (F : Assertion Block) : Triple (chain q es * F) (destroyChain fuel q) fun _ => F := by
  induction es generalizing q fuel with
  | nil =>
      obtain ⟨fuel, rfl⟩ := Nat.exists_eq_succ_of_ne_zero (Nat.ne_zero_of_lt hfuel)
      refine Triple.of_fact fun hq => ?_
      rw [destroyChain, if_pos hq]
      exact Triple.pure fun _ hpart => hpart
  | cons e es ih =>
      obtain ⟨fuel, rfl⟩ := Nat.exists_eq_succ_of_ne_zero (Nat.ne_zero_of_lt hfuel)
      rw [List.length_cons, Nat.succ_lt_succ_iff] at hfuel
      rw [chain_cons_mul]
      refine Triple.of_someOf fun l => Triple.of_pointsTo fun hq => ?_
      rw [destroyChain, if_neg hq]
      refine Triple.load ((reads_pointsTo _ _).mul_right _) rfl ?_
      refine Triple.load ((reads_pointsTo _ _).mul_right _) rfl ?_
      rw [mul_left_comm]
      refine Triple.free ?_
      refine Triple.load ((reads_pointsTo _ _).mul_right _) rfl ?_
      rw [mul_left_comm]
      refine Triple.free (Triple.free ?_)
      exact ih l.next hfuel

/-- The chains from a slot on. -/
theorem buckets_drop {i : ℕ} (hi : i < table.length) (hlen : slots.length = table.length) :
    buckets (slots.drop i) (table.drop i) =
      chain (slots.getD i 0) (table.getD i []) *
        buckets (slots.drop (i + 1)) (table.drop (i + 1)) := by
  have hi' : i < slots.length := by rwa [hlen]
  rw [List.drop_eq_getElem_cons hi, List.drop_eq_getElem_cons hi', buckets, List.zipWith_cons_cons,
    List.prod_cons]
  simp [buckets, hi, hi']

/-- The pointer to a chain is read off its slot. -/
theorem Layout.slot_block (l : Layout) {i : ℕ} (hi : i < l.slots.length) :
    l.block.slot i = some (l.slots.getD i 0) := by
  simp [Layout.block, Block.slot, hi]

/-- A program on a dictionary, whatever the dictionary's layout. -/
theorem Triple.of_dictAt {α : Type} {p : ℕ} {d : Dict} {F : Assertion Block} {c : HeapM Block α}
    {Q : α → Assertion Block}
    (h : ∀ l : Layout, l.slots.length = d.table.length →
      Triple (pointsTo p (l.header d) * (pointsTo l.table l.block * (buckets l.slots d.table * F)))
        c Q) : Triple (dictAt p d * F) c Q := by
  rw [dictAt, someOf_mul]
  refine Triple.of_someOf fun l => ?_
  simp only [mul_assoc]
  exact Triple.of_fact (h l)

/-- A dictionary lies where its header, its table and its chains do. -/
theorem dictAt_of {p : ℕ} {d : Dict} {F : Assertion Block} (l : Layout)
    (hlen : l.slots.length = d.table.length) {part : Heap Block}
    (h : (pointsTo p (l.header d) * (pointsTo l.table l.block * (buckets l.slots d.table * F)))
      part) : (dictAt p d * F) part := by
  rw [dictAt, someOf_mul]
  refine ⟨l, ?_⟩
  simp only [mul_assoc]
  exact fact_mul_apply.mpr ⟨hlen, h⟩

/-- A chain is no longer than all of them. -/
theorem length_getD_le (table : List (List Elt)) (i : ℕ) :
    (table.getD i []).length ≤ table.flatten.length := by
  by_cases hi : i < table.length
  · have hmem : table.getD i [] ∈ table := by simp [hi]
    exact (List.sublist_flatten_of_mem hmem).length_le
  · simp [hi]

/-- Destroying takes everything that belongs to a dictionary. -/
theorem dictDestroy_spec (p : ℕ) (d : Dict) {fuel : ℕ} (hfuel : d.table.flatten.length < fuel)
    (F : Assertion Block) : Triple (dictAt p d * F) (dictDestroy fuel p) fun _ => F := by
  refine Triple.of_dictAt fun l hlen => ?_
  let I : ℕ → Assertion Block := fun i => pointsTo p (l.header d) *
    (pointsTo l.table l.block * (buckets (l.slots.drop i) (d.table.drop i) * F))
  have hchain : ∀ i < d.size, Triple (I i) (do
      let t ← load p Block.tablePtr
      let e ← load t (Block.slot i)
      destroyChain fuel e) fun _ => I (i + 1) := by
    intro i hi
    have hi' : i < d.table.length := by rwa [d.length_table]
    have hsplit : I i = chain (l.slots.getD i 0) (d.table.getD i []) * I (i + 1) := by
      simp only [I]
      rw [buckets_drop hi' hlen]
      ac_rfl
    refine Triple.load ((reads_pointsTo _ _).mul_right _) rfl ?_
    refine Triple.load (((reads_pointsTo _ _).mul_right _).mul_left _)
      (l.slot_block (by rwa [hlen])) ?_
    rw [hsplit]
    exact destroyChain_spec _ _ (Nat.lt_of_le_of_lt (length_getD_le _ i) hfuel) _
  have hend : I d.size = pointsTo p (l.header d) * (pointsTo l.table l.block * F) := by
    have hslots : l.slots.length ≤ d.size := by rw [hlen, d.length_table]
    simp only [I]
    rw [List.drop_of_length_le hslots, List.drop_of_length_le d.length_table.le, buckets,
      List.zipWith_nil_left, List.prod_nil, one_mul]
  rw [dictDestroy]
  refine Triple.load ((reads_pointsTo _ _).mul_right _) rfl ?_
  refine (Triple.forUpTo hchain).bind fun _ => ?_
  rw [hend]
  refine Triple.load ((reads_pointsTo _ _).mul_right _) rfl ?_
  rw [mul_left_comm]
  exact Triple.free (Triple.last (Triple.free (Triple.pure fun _ hpart => hpart)))

/-! ## Creating -/

/-- Empty buckets take no part of the heap. -/
theorem buckets_replicate (size : ℕ) :
    buckets (List.replicate size 0) (List.replicate size []) = 1 := by
  rw [buckets, List.zipWith_replicate', List.prod_replicate, chain, fact_of rfl, one_pow]

/-- A new dictionary, with nothing in it. -/
theorem internalDictCreate_spec (size : ℕ) (hsize : 0 < size) (F : Assertion Block) :
    Triple F (internalDictCreate A size) fun p =>
      dictAt p (RfsAtsc.internalDictCreate size hsize) * F := by
  rw [internalDictCreate]
  refine Triple.malloc A fun p => Triple.store rfl (Triple.store rfl ?_)
  refine Triple.malloc A fun t => ?_
  rw [mul_left_comm]
  refine Triple.store rfl ?_
  let slotsAt : ℕ → List (Option ℕ) := fun i =>
    List.replicate i (some 0) ++ List.replicate (size - i) none
  let I : ℕ → Assertion Block := fun i =>
    pointsTo t (.table (slotsAt i)) * (pointsTo p (.dict (some size) (some 0) (some t)) * F)
  have hclear : ∀ i < size, Triple (I i) (do
      let t ← load p Block.tablePtr
      store t (Block.setSlot i 0)) fun _ => I (i + 1) := by
    intro i hi
    have hset : Block.setSlot i 0 (.table (slotsAt i)) = some (.table (slotsAt (i + 1))) := by
      obtain ⟨rest, hrest⟩ : ∃ rest, size - i = rest + 1 := ⟨size - i - 1, by omega⟩
      have hrest' : size - (i + 1) = rest := by omega
      simp only [slotsAt, hrest, hrest', Block.setSlot]
      rw [if_pos (by simp), List.set_append_right _ _ (by simp), List.length_replicate,
        Nat.sub_self, List.replicate_succ, List.set_cons_zero, List.replicate_succ',
        List.append_assoc]
      rfl
    refine Triple.load (((reads_pointsTo _ _).mul_right _).mul_left _) rfl ?_
    exact Triple.last (Triple.store hset (Triple.pure fun _ hpart => hpart))
  have hstart : pointsTo p (.dict (some size) (some 0) (some t)) *
      (pointsTo t (.table (List.replicate size none)) * F) = I 0 := by
    simp only [I, slotsAt]
    rw [mul_left_comm]
    rfl
  rw [hstart]
  refine (Triple.forUpTo hclear).bind fun _ => Triple.pure fun part hpart => ?_
  refine dictAt_of ⟨t, List.replicate size 0⟩ (by simp [RfsAtsc.internalDictCreate]) ?_
  simp only [I, slotsAt, Nat.sub_self, List.replicate_zero, List.append_nil] at hpart
  rw [RfsAtsc.internalDictCreate, buckets_replicate, one_mul, mul_left_comm, Layout.block,
    List.map_replicate]
  exact hpart

/-! ## Inserting -/

/-- `strdup` puts a copy beside the string. -/
theorem Triple.strdup {β : Type} {P : Assertion Block} {Q : β → Assertion Block} {s : ℕ}
    {x : CString} {k : ℕ → HeapM Block β} (hreads : Reads P s (.str x))
    (hk : ∀ q, Triple (pointsTo q (.str x) * P) (k q) Q) :
    Triple P (strdup A s >>= k) Q := by
  rw [DictHeap.strdup, bind_assoc]
  exact Triple.load hreads rfl (Triple.malloc A hk)

/-- The slot of a key. -/
def Dict.slotOf (d : Dict) (k : CString) : ℕ := hashFunction k % d.size

/-- A key's slot is in the table. -/
theorem Dict.slotOf_lt (d : Dict) (k : CString) : slotOf d k < d.table.length := by
  rw [d.length_table]
  exact Nat.mod_lt _ d.size_pos

/-- The layout with a new element in front of the chain of a key. -/
def Layout.link (l : Layout) (d : Dict) (k : CString) (e : ℕ) : Layout :=
  ⟨l.table, l.slots.set (Dict.slotOf d k) e⟩

/-- The blocks after an insert are those of the dictionary with its record linked. -/
theorem dictAt_link {p : ℕ} {d : Dict} {k v : CString} {F : Assertion Block} {l : Layout}
    (hlen : l.slots.length = d.table.length) {e k' v' : ℕ} :
    ∀ part, (pointsTo p ((l.link d k e).header (d.link k v)) *
      (pointsTo (l.link d k e).table (l.link d k e).block *
        (pointsTo e (Links.elt ⟨l.slots.getD (Dict.slotOf d k) 0, k', v'⟩) *
          (pointsTo k' (Block.str k) * (pointsTo v' (Block.str v) *
            (buckets l.slots d.table * F)))))) part →
      (dictAt p (d.link k v) * F) part := by
  intro part hpart
  have hh := Dict.slotOf_lt d k
  refine dictAt_of (l.link d k e) (by simp [Dict.link, Layout.link, hlen]) ?_
  have htable : (d.link k v).table =
      d.table.set (Dict.slotOf d k) (⟨k, v⟩ :: d.table.getD (Dict.slotOf d k) []) :=
    List.modify_eq_set _ _ _
  have hchain : ∀ D T C O : Assertion Block, D * (T * (C * O * F)) = C * (D * (T * (O * F))) := by
    intros
    ac_rfl
  have hpieces : ∀ E K V D T C O : Assertion Block,
      E * (K * (V * (C * (D * (T * (O * F)))))) = D * (T * (E * (K * (V * (C * O * F))))) := by
    intros
    ac_rfl
  rw [htable, Layout.link, buckets_set hh hlen, hchain, chain_cons_mul]
  refine someOf_of ⟨l.slots.getD (Dict.slotOf d k) 0, k', v'⟩ ?_
  rw [hpieces, ← buckets_split hh hlen]
  exact hpart

/-- An insert puts its record in front, and goes on with `grow` when the table is full. -/
theorem dictInsert_step {fuel p : ℕ} {d : Dict} {key value : ℕ} {k v : CString}
    {F : Assertion Block} (hkey : Reads F key (.str k)) (hvalue : Reads F value (.str v))
    {Q : Unit → Assertion Block}
    (hfull : d.size ≤ d.n + 1 → Triple (dictAt p (d.link k v) * F) (grow A fuel p) Q)
    (hroom : d.n + 1 < d.size → ∀ part, (dictAt p (d.link k v) * F) part → Q () part) :
    Triple (dictAt p d * F) (dictInsert A (fuel + 1) p key value) Q := by
  refine Triple.of_dictAt fun l hlen => ?_
  rw [dictInsert]
  refine Triple.malloc A fun e => ?_
  refine Triple.strdup A ((((hkey.mul_left _).mul_left _).mul_left _).mul_left _) fun k' => ?_
  rw [mul_left_comm]
  refine Triple.store rfl ?_
  refine Triple.strdup A
    (((((hvalue.mul_left _).mul_left _).mul_left _).mul_left _).mul_left _) fun v' => ?_
  rw [mul_left_comm]
  refine Triple.store rfl ?_
  -- what the blocks are now: the element, the value, the key, the dictionary, the table
  have hh := Dict.slotOf_lt d k
  refine Triple.load (hkey.mul_left _ |>.mul_left _ |>.mul_left _ |>.mul_left _ |>.mul_left _
    |>.mul_left _) rfl ?_
  refine Triple.load (reads_pointsTo _ _ |>.mul_right _ |>.mul_left _ |>.mul_left _
    |>.mul_left _) rfl ?_
  refine Triple.load (reads_pointsTo _ _ |>.mul_right _ |>.mul_left _ |>.mul_left _
    |>.mul_left _) rfl ?_
  refine Triple.load (reads_pointsTo _ _ |>.mul_right _ |>.mul_left _ |>.mul_left _
    |>.mul_left _ |>.mul_left _) (l.slot_block (by rwa [hlen])) ?_
  refine Triple.store rfl ?_
  have hfront : ∀ E V K D T C : Assertion Block,
      E * (V * (K * (D * (T * C)))) = T * (D * (E * (K * (V * C)))) := by
    intros
    ac_rfl
  rw [hfront]
  have hset : l.block.setSlot (Dict.slotOf d k) e = some (l.link d k e).block := by
    rw [Layout.block, Block.setSlot, List.length_map, hlen, if_pos hh, Layout.block, Layout.link,
      List.map_set]
  refine Triple.store hset ?_
  rw [mul_left_comm]
  refine Triple.load ((reads_pointsTo _ _).mul_right _) rfl ?_
  refine Triple.store rfl ?_
  by_cases hload : d.size ≤ d.n + 1
  · rw [if_pos (by rwa [MAX_LOAD_FACTOR, Nat.mul_one])]
    exact (hfull hload).conseq (dictAt_link hlen) fun _ _ hpart => hpart
  · rw [if_neg (by rwa [MAX_LOAD_FACTOR, Nat.mul_one])]
    exact Triple.pure fun part hpart =>
      hroom (Nat.lt_of_not_le hload) part (dictAt_link hlen part hpart)

/-- With room left an insert links its record and is done. -/
theorem dictInsert_of_room {fuel p : ℕ} {d : Dict} {key value : ℕ} {k v : CString}
    {F : Assertion Block} (hkey : Reads F key (.str k)) (hvalue : Reads F value (.str v))
    (hroom : d.n + 1 < d.size) :
    Triple (dictAt p d * F) (dictInsert A (fuel + 1) p key value) fun _ =>
      dictAt p (d.link k v) * F :=
  dictInsert_step A hkey hvalue (fun hfull => absurd hroom (Nat.not_lt_of_le hfull))
    fun _ _ hpart => hpart

/-! ## Growing -/

/-- Records linked one after another. -/
def linkAll (es : List Elt) (d : Dict) : Dict := es.foldl (fun d e => d.link e.key e.value) d

/-- Linking several elements is linking the first and then the rest. -/
theorem linkAll_cons (e : Elt) (es : List Elt) (d : Dict) :
    linkAll (e :: es) d = linkAll es (d.link e.key e.value) := rfl

/-- Linking goes on where it stopped. -/
theorem linkAll_append (es es' : List Elt) (d : Dict) :
    linkAll (es ++ es') d = linkAll es' (linkAll es d) := List.foldl_append

/-- Each element linked counts, and the size stays. -/
theorem linkAll_counts (es : List Elt) (d : Dict) :
    (linkAll es d).n = d.n + es.length ∧ (linkAll es d).size = d.size := by
  induction es generalizing d with
  | nil => exact ⟨rfl, rfl⟩
  | cons e es ih =>
      obtain ⟨hn, hsize⟩ := ih (d.link e.key e.value)
      rw [linkAll_cons, hn, hsize, Dict.link_n, Dict.link_size, List.length_cons]
      exact ⟨by omega, rfl⟩

/-- Inserts that have room link their records. -/
theorem foldlM_dictInsert (depth : ℕ) (es : List Elt) {d : Dict}
    (hroom : d.n + es.length < d.size) :
    es.foldlM (fun d2 e => RfsAtsc.dictInsert (depth + 1) d2 e.key e.value) d =
      some (linkAll es d) := by
  induction es generalizing d with
  | nil => rfl
  | cons e es ih =>
      rw [List.length_cons] at hroom
      rw [List.foldlM_cons, RfsAtsc.dictInsert_of_room depth (by omega) e.key e.value]
      exact ih (by rw [Dict.link_n, Dict.link_size]; omega)

/-- Copying a chain leaves the chain as it is. -/
theorem copyChain_spec (es : List Elt) (q : ℕ) {fuel p : ℕ} {d : Dict} {F : Assertion Block}
    (hfuel : es.length < fuel) (hroom : d.n + es.length < d.size) :
    Triple (dictAt p d * (chain q es * F)) (copyChain A fuel p q) fun _ =>
      dictAt p (linkAll es d) * (chain q es * F) := by
  induction es generalizing q fuel d F with
  | nil =>
      obtain ⟨fuel, rfl⟩ := Nat.exists_eq_succ_of_ne_zero (Nat.ne_zero_of_lt hfuel)
      rw [mul_left_comm]
      refine Triple.of_fact fun hq => ?_
      rw [copyChain, if_pos hq]
      refine Triple.pure fun part hpart => ?_
      rw [chain, fact_of hq, one_mul]
      exact hpart
  | cons e es ih =>
      obtain ⟨fuel, rfl⟩ := Nat.exists_eq_succ_of_ne_zero (Nat.ne_zero_of_lt hfuel)
      rw [List.length_cons] at hfuel hroom
      obtain ⟨rest, rfl⟩ := Nat.exists_eq_succ_of_ne_zero (n := fuel) (by omega)
      rw [chain_cons_mul, mul_comm, someOf_mul]
      refine Triple.of_someOf fun l => ?_
      rw [mul_assoc]
      refine Triple.of_pointsTo fun hq => ?_
      rw [copyChain, if_neg hq]
      refine Triple.load ((reads_pointsTo _ _).mul_right _) rfl ?_
      refine Triple.load ((reads_pointsTo _ _).mul_right _) rfl ?_
      -- the strings of the element are read while it stays in its chain
      have hdict : ∀ E R D : Assertion Block, E * (R * D) = D * (E * R) := by
        intros
        ac_rfl
      rw [hdict]
      have hkey := ((reads_pointsTo l.key (.str e.key)).mul_right
        (pointsTo l.value (.str e.value) * (chain l.next es * F))).mul_left (pointsTo q l.elt)
      have hvalue := (((reads_pointsTo l.value (.str e.value)).mul_right
        (chain l.next es * F)).mul_left (pointsTo l.key (.str e.key))).mul_left (pointsTo q l.elt)
      refine (dictInsert_of_room A hkey hvalue (by omega)).bind fun _ => ?_
      refine Triple.load (((reads_pointsTo _ _).mul_right _).mul_left _) rfl ?_
      have hchain : ∀ D E K V C : Assertion Block,
          D * (E * (K * (V * (C * F)))) = D * (C * (E * (K * (V * F)))) := by
        intros
        ac_rfl
      rw [hchain, linkAll_cons]
      refine (ih l.next (by omega) (by rw [Dict.link_n, Dict.link_size]; omega)).post ?_
      intro _ part hpart
      rw [← hchain, mul_comm] at hpart
      rw [mul_comm, someOf_mul]
      exact someOf_of l hpart

/-- The chains up to the next slot. -/
theorem flatten_take_succ {i : ℕ} (hi : i < table.length) :
    (table.take (i + 1)).flatten = (table.take i).flatten ++ table.getD i [] := by
  rw [List.take_succ_eq_append_getElem hi, List.flatten_append]
  simp [hi]

/-- The chains up to a slot and its own are not more than all. -/
theorem length_take_flatten (table : List (List Elt)) (i : ℕ) :
    (table.take i).flatten.length + (table.getD i []).length ≤ table.flatten.length := by
  by_cases hi : i < table.length
  · have hsplit : (table.take (i + 1)).flatten = (table.take i).flatten ++ table.getD i [] := by
      rw [List.take_succ_eq_append_getElem hi, List.flatten_append]
      simp [hi]
    have hle := (List.take_sublist (i + 1) table).flatten.length_le
    rw [hsplit, List.length_append] at hle
    exact hle
  · simp [hi, List.take_of_length_le (Nat.le_of_not_lt hi)]

/-- Growing moves every record to a table twice the size, bucket by bucket. -/
theorem grow_spec {fuel p : ℕ} {d : Dict} {F : Assertion Block}
    (hfuel : d.table.flatten.length < fuel)
    (hroom : d.table.flatten.length < d.size * GROWTH_FACTOR) :
    Triple (dictAt p d * F) (grow A (fuel + 1) p) fun _ =>
      dictAt p (linkAll d.table.flatten (RfsAtsc.internalDictCreate (d.size * GROWTH_FACTOR)
        (Nat.zero_lt_of_lt hroom))) * F := by
  refine Triple.of_dictAt fun l hlen => ?_
  rw [grow]
  refine Triple.load ((reads_pointsTo _ _).mul_right _) rfl ?_
  refine Triple.bind (internalDictCreate_spec A _ (Nat.zero_lt_of_lt hroom) _) fun p2 => ?_
  let d2 := RfsAtsc.internalDictCreate (d.size * GROWTH_FACTOR) (Nat.zero_lt_of_lt hroom)
  let I : ℕ → Assertion Block := fun i => dictAt p2 (linkAll (d.table.take i).flatten d2) *
    (pointsTo p (l.header d) * (pointsTo l.table l.block * (buckets l.slots d.table * F)))
  have hcopy : ∀ i < d.size, Triple (I i) (do
      let t ← load p Block.tablePtr
      let e ← load t (Block.slot i)
      copyChain A fuel p2 e) fun _ => I (i + 1) := by
    intro i hi
    have hi' : i < d.table.length := by rwa [d.length_table]
    have hsplit : ∀ D, D * (pointsTo p (l.header d) * (pointsTo l.table l.block *
        (buckets l.slots d.table * F))) = D * (chain (l.slots.getD i 0) (d.table.getD i []) *
          (pointsTo p (l.header d) * (pointsTo l.table l.block *
            (others i l.slots d.table * F)))) := by
      intro D
      rw [buckets_split hi' hlen]
      ac_rfl
    have hlen' := length_take_flatten d.table i
    refine Triple.load (((reads_pointsTo _ _).mul_right _).mul_left _) rfl ?_
    refine Triple.load ((((reads_pointsTo _ _).mul_right _).mul_left _).mul_left _)
      (l.slot_block (by rwa [hlen])) ?_
    simp only [I]
    rw [hsplit, hsplit, flatten_take_succ hi', linkAll_append]
    refine copyChain_spec A _ _ (by omega) ?_
    obtain ⟨hn, hsize⟩ := linkAll_counts (d.table.take i).flatten d2
    rw [hn, hsize]
    simp only [d2, RfsAtsc.internalDictCreate]
    omega
  refine (Triple.forUpTo hcopy).bind fun _ => ?_
  simp only [I]
  rw [List.take_of_length_le d.length_table.le]
  refine Triple.of_dictAt fun l2 hlen2 => ?_
  refine Triple.load ((((reads_pointsTo _ _).mul_right _).mul_left _).mul_left _ |>.mul_left _)
    rfl ?_
  refine Triple.load ((reads_pointsTo _ _).mul_right _) rfl ?_
  have hswap : ∀ D2 T2 C2 D T C : Assertion Block, D2 * (T2 * (C2 * (D * (T * (C * F))))) =
      D * (D2 * (T2 * (C2 * (T * (C * F))))) := by
    intros
    ac_rfl
  rw [hswap]
  refine Triple.store rfl ?_
  rw [mul_left_comm]
  refine Triple.store rfl ?_
  -- the new dictionary is now at the old address, and the old one is destroyed
  refine (dictDestroy_spec p2 d hfuel (dictAt p (linkAll d.table.flatten d2) * F)).conseq ?_
    fun _ _ hpart => hpart
  intro part hpart
  refine dictAt_of l hlen ?_
  have hown : ∀ D2 T2 C2 D T C : Assertion Block, D2 * (D * (T2 * (C2 * (T * (C * F))))) =
      D * (T2 * (C2 * F)) * (D2 * (T * C)) := by
    intros
    ac_rfl
  have hown' : ∀ D2 T C X : Assertion Block, D2 * (T * (C * X)) = X * (D2 * (T * C)) := by
    intros
    ac_rfl
  rw [hown] at hpart
  rw [hown']
  obtain ⟨left, right, hleft, hright, hdisj, rfl⟩ := hpart
  exact ⟨left, right, dictAt_of l2 hlen2 hleft, hright, hdisj, rfl⟩

/-- **An insert does to the heap what it does to the dictionary.** -/
theorem dictInsert_spec (depth : ℕ) {fuel p : ℕ} {d : Dict} (hd : d.Sound) {key value : ℕ}
    {k v : CString} {F : Assertion Block} (hkey : Reads F key (.str k))
    (hvalue : Reads F value (.str v)) (hfuel : d.table.flatten.length + 3 < fuel) :
    ∃ d', RfsAtsc.dictInsert (depth + 3) d k v = some d' ∧
      Triple (dictAt p d * F) (dictInsert A fuel p key value) fun _ => dictAt p d' * F := by
  obtain ⟨fuel, rfl⟩ : ∃ f, fuel = f + 2 := ⟨fuel - 2, by omega⟩
  by_cases hfull : d.size ≤ d.n + 1
  · have hlen := d.length_link k v
    have hstored := hd.stored_le
    have hlt := hd.n_lt
    have hroom : (d.link k v).table.flatten.length < (d.link k v).size * GROWTH_FACTOR := by
      rw [hlen, Dict.link_size, GROWTH_FACTOR]
      omega
    refine ⟨linkAll (d.link k v).table.flatten (RfsAtsc.internalDictCreate
      ((d.link k v).size * GROWTH_FACTOR) (Nat.zero_lt_of_lt hroom)), ?_, ?_⟩
    · have hload : (d.link k v).size * MAX_LOAD_FACTOR ≤ (d.link k v).n := by
        rwa [Dict.link_size, Dict.link_n, MAX_LOAD_FACTOR, Nat.mul_one]
      rw [RfsAtsc.dictInsert]
      refine (if_pos hload).trans ?_
      rw [RfsAtsc.grow]
      refine foldlM_dictInsert depth _ ?_
      simpa [RfsAtsc.internalDictCreate] using hroom
    · exact dictInsert_step A hkey hvalue (fun _ => grow_spec A (by omega) hroom)
        fun hlt _ _ => absurd hlt (Nat.not_lt_of_le hfull)
  · have hroom : d.n + 1 < d.size := Nat.lt_of_not_le hfull
    exact ⟨d.link k v, RfsAtsc.dictInsert_of_room (depth + 2) hroom k v,
      dictInsert_of_room A hkey hvalue hroom⟩

/-! ## Searching -/

/-- A pointer as `DictSearch` returns it: null, or the address of the value. -/
def Found (found : Option CString) (r : ℕ) (part : Heap Block) : Prop :=
  match found with
  | none => r = 0
  | some v => r ≠ 0 ∧ part.lookup r = some (.str v)

/-- `strcmp` compares two strings that can be read. -/
theorem Triple.strcmpEq {β : Type} {P : Assertion Block} {Q : β → Assertion Block} {s t : ℕ}
    {x y : CString} {k : Bool → HeapM Block β} (hs : Reads P s (.str x)) (ht : Reads P t (.str y))
    (hk : Triple P (k (x == y)) Q) : Triple P (strcmpEq s t >>= k) Q := by
  rw [DictHeap.strcmpEq, bind_assoc]
  refine Triple.load hs rfl ?_
  rw [bind_assoc]
  refine Triple.load ht rfl ?_
  rw [pure_bind]
  exact hk

/-- Searching a chain finds the first value of the key, and leaves the chain. -/
theorem searchChain_spec (es : List Elt) (q : ℕ) {fuel key : ℕ} {k : CString} {F : Assertion Block}
    (hkey : Reads F key (.str k)) (hfuel : es.length < fuel) :
    Triple (chain q es * F) (searchChain fuel key q) fun r part =>
      (chain q es * F) part ∧ Found (firstValue k es) r part := by
  induction es generalizing q fuel F with
  | nil =>
      obtain ⟨fuel, rfl⟩ := Nat.exists_eq_succ_of_ne_zero (Nat.ne_zero_of_lt hfuel)
      refine Triple.of_fact fun hq => ?_
      rw [searchChain, if_pos hq]
      refine Triple.pure fun part hpart => ?_
      rw [chain, fact_of hq, one_mul]
      exact ⟨hpart, rfl⟩
  | cons e es ih =>
      obtain ⟨fuel, rfl⟩ := Nat.exists_eq_succ_of_ne_zero (Nat.ne_zero_of_lt hfuel)
      rw [List.length_cons, Nat.succ_lt_succ_iff] at hfuel
      rw [chain_cons_mul]
      refine Triple.of_someOf fun l => Triple.of_pointsTo fun hq => ?_
      rw [searchChain, if_neg hq]
      refine Triple.load ((reads_pointsTo _ _).mul_right _) rfl ?_
      refine Triple.strcmpEq (((reads_pointsTo _ _).mul_right _).mul_left _)
        ((((hkey.mul_left _).mul_left _).mul_left _).mul_left _) ?_
      by_cases hsame : e.key = k
      · rw [if_pos (beq_iff_eq.mpr hsame), firstValue, if_pos hsame]
        refine Triple.last (Triple.load ((reads_pointsTo _ _).mul_right _) rfl ?_)
        refine Triple.pure fun part hpart => ?_
        exact ⟨someOf_of l hpart,
          (((reads_pointsTo _ _).mul_right _).mul_left _).mul_left _ part hpart⟩
      · rw [if_neg (mt beq_iff_eq.mp hsame), firstValue, if_neg hsame]
        refine Triple.load ((reads_pointsTo _ _).mul_right _) rfl ?_
        have hchain : ∀ E K V C : Assertion Block,
            E * (K * (V * (C * F))) = C * (E * (K * (V * F))) := by
          intros
          ac_rfl
        rw [hchain]
        refine (ih l.next (((hkey.mul_left _).mul_left _).mul_left _) hfuel).post ?_
        intro r part hpart
        refine ⟨someOf_of l ?_, hpart.2⟩
        rw [hchain]
        exact hpart.1

/-- **A search finds in the heap what it finds in the dictionary**, and changes nothing. -/
theorem dictSearch_spec {fuel p : ℕ} {d : Dict} {key : ℕ} {k : CString} {F : Assertion Block}
    (hkey : Reads F key (.str k)) (hfuel : d.table.flatten.length < fuel) :
    Triple (dictAt p d * F) (dictSearch fuel p key) fun r part =>
      (dictAt p d * F) part ∧ Found (RfsAtsc.dictSearch d k) r part := by
  refine Triple.of_dictAt fun l hlen => ?_
  have hh := Dict.slotOf_lt d k
  rw [dictSearch]
  refine Triple.load ((reads_pointsTo _ _).mul_right _) rfl ?_
  refine Triple.load (((hkey.mul_left _).mul_left _).mul_left _) rfl ?_
  refine Triple.load ((reads_pointsTo _ _).mul_right _) rfl ?_
  refine Triple.load (((reads_pointsTo _ _).mul_right _).mul_left _)
    (l.slot_block (by rwa [hlen])) ?_
  have hchain : ∀ D T C O : Assertion Block,
      D * (T * (C * O * F)) = C * (D * (T * (O * F))) := by
    intros
    ac_rfl
  rw [buckets_split hh hlen, hchain]
  refine (searchChain_spec _ _ (((hkey.mul_left _).mul_left _).mul_left _)
    (Nat.lt_of_le_of_lt (length_getD_le _ _) hfuel)).post ?_
  intro r part hpart
  rw [← hchain, ← buckets_split hh hlen] at hpart
  exact ⟨dictAt_of l hlen hpart.1, hpart.2⟩

/-! ## Deleting -/

/-- `*prev` is read and written in its block, whatever pointer is in it. -/
structure Prev.Holds (prev : Prev) (block : ℕ → Block) : Prop where
  get : ∀ q, prev.get (block q) = some q
  set : ∀ q r, prev.set r (block q) = some (block r)

/-- An element's `next` holds the pointer to what follows. -/
theorem Links.holds (l : Links) (e : ℕ) :
    (Prev.next e).Holds fun q => Links.elt { l with next := q } :=
  ⟨fun _ => rfl, fun _ _ => rfl⟩

/-- A slot of the table holds the pointer to its chain. -/
theorem Layout.holds (l : Layout) {i : ℕ} (hi : i < l.slots.length) :
    (Prev.slot l.table i).Holds fun q => Layout.block ⟨l.table, l.slots.set i q⟩ := by
  constructor
  · intro q
    simp [Prev.get, Layout.block, Block.slot, hi]
  · intro q r
    simp [Prev.set, Layout.block, Block.setSlot, hi]

/-- The deletion unlinks and frees the first record of its key. -/
theorem deleteChain_spec (es : List Elt) (q : ℕ) {fuel key : ℕ} {k : CString} {prev : Prev}
    {block : ℕ → Block} {F : Assertion Block} (hprev : prev.Holds block)
    (hkey : Reads F key (.str k)) (hfuel : es.length < fuel) :
    Triple (pointsTo prev.address (block q) * (chain q es * F)) (deleteChain fuel key prev)
      fun _ => someOf fun r =>
        pointsTo prev.address (block r) * (chain r (unlinkFirst k es) * F) := by
  induction es generalizing q fuel prev block F with
  | nil =>
      obtain ⟨fuel, rfl⟩ := Nat.exists_eq_succ_of_ne_zero (Nat.ne_zero_of_lt hfuel)
      rw [deleteChain]
      refine Triple.load ((reads_pointsTo _ _).mul_right _) (hprev.get q) ?_
      rw [mul_left_comm]
      refine Triple.of_fact fun hq => ?_
      rw [if_pos hq]
      refine Triple.pure fun part hpart => someOf_of q ?_
      rw [unlinkFirst, chain, fact_of hq, one_mul]
      exact hpart
  | cons e es ih =>
      obtain ⟨fuel, rfl⟩ := Nat.exists_eq_succ_of_ne_zero (Nat.ne_zero_of_lt hfuel)
      rw [List.length_cons, Nat.succ_lt_succ_iff] at hfuel
      rw [chain_cons_mul, mul_comm, someOf_mul]
      refine Triple.of_someOf fun l => ?_
      rw [mul_assoc]
      refine Triple.of_pointsTo fun hq => ?_
      rw [deleteChain]
      refine Triple.load (((reads_pointsTo _ _).mul_left _).mul_left _) (hprev.get q) ?_
      rw [if_neg hq]
      refine Triple.load ((reads_pointsTo _ _).mul_right _) rfl ?_
      refine Triple.strcmpEq ((((reads_pointsTo _ _).mul_right _).mul_right _).mul_left _)
        (((((hkey.mul_left _).mul_left _).mul_left _).mul_right _).mul_left _) ?_
      by_cases hsame : e.key = k
      · rw [if_pos (beq_iff_eq.mpr hsame), unlinkFirst, if_pos hsame]
        refine Triple.load (((reads_pointsTo _ _).mul_left _).mul_left _) (hprev.get q) ?_
        refine Triple.load ((reads_pointsTo _ _).mul_right _) rfl ?_
        have hprevFront : ∀ E X P : Assertion Block, E * (X * P) = P * (E * X) := by
          intros
          ac_rfl
        rw [hprevFront]
        refine Triple.store (hprev.set q l.next) ?_
        refine Triple.load (((reads_pointsTo _ _).mul_right _).mul_left _) rfl ?_
        have hkeyFront : ∀ E K V C P : Assertion Block,
            P * (E * (K * (V * C))) = K * (E * (V * (P * C))) := by
          intros
          ac_rfl
        rw [hkeyFront]
        refine Triple.free ?_
        refine Triple.load ((reads_pointsTo _ _).mul_right _) rfl ?_
        rw [mul_left_comm]
        refine Triple.free (Triple.last (Triple.free ?_))
        exact Triple.pure fun part hpart => someOf_of l.next hpart
      · rw [if_neg (mt beq_iff_eq.mp hsame), unlinkFirst, if_neg hsame]
        have hnext : ∀ E K V C P : Assertion Block,
            E * (K * (V * (C * F)) * P) = E * (C * (K * (V * (P * F)))) := by
          intros
          ac_rfl
        rw [hnext]
        refine (ih l.next (l.holds q) (((hkey.mul_left _).mul_left _).mul_left _) hfuel).post ?_
        rintro _ part ⟨r, hpart⟩
        refine someOf_of q ?_
        rw [← hnext, ← mul_assoc] at hpart
        rw [chain_cons_mul, mul_comm, someOf_mul]
        exact someOf_of (⟨r, l.key, l.value⟩ : Links) hpart

/-- **A deletion does to the heap what it does to the dictionary.** -/
theorem dictDelete_spec {fuel p : ℕ} {d : Dict} {key : ℕ} {k : CString} {F : Assertion Block}
    (hkey : Reads F key (.str k)) (hfuel : d.table.flatten.length < fuel) :
    Triple (dictAt p d * F) (dictDelete fuel p key) fun _ =>
      dictAt p (RfsAtsc.dictDelete d k) * F := by
  refine Triple.of_dictAt fun l hlen => ?_
  have hh := Dict.slotOf_lt d k
  have hslot : Dict.slotOf d k < l.slots.length := by rwa [hlen]
  rw [dictDelete]
  refine Triple.load ((reads_pointsTo _ _).mul_right _) rfl ?_
  refine Triple.load (((hkey.mul_left _).mul_left _).mul_left _) rfl ?_
  refine Triple.load ((reads_pointsTo _ _).mul_right _) rfl ?_
  have hblock : l.block =
      Layout.block ⟨l.table, l.slots.set (Dict.slotOf d k) (l.slots.getD (Dict.slotOf d k) 0)⟩ := by
    simp [hslot]
  have htable : ∀ D T C O : Assertion Block,
      D * (T * (C * O * F)) = T * (C * (D * (O * F))) := by
    intros
    ac_rfl
  rw [buckets_split hh hlen, htable, hblock]
  refine (deleteChain_spec _ _ (l.holds hslot) ((hkey.mul_left _).mul_left _)
    (Nat.lt_of_le_of_lt (length_getD_le _ _) hfuel)).post ?_
  rintro _ part ⟨r, hpart⟩
  refine dictAt_of ⟨l.table, l.slots.set (Dict.slotOf d k) r⟩
    (by simp [RfsAtsc.dictDelete, hlen]) ?_
  have hmodified : (RfsAtsc.dictDelete d k).table = d.table.set (Dict.slotOf d k)
      (unlinkFirst k (d.table.getD (Dict.slotOf d k) [])) :=
    List.modify_eq_set _ _ _
  rw [hmodified, buckets_set hh hlen, htable]
  exact hpart

/-! ## Whole sessions -/

/-- A call on the dictionary, its strings given by `S`. -/
inductive Call (S : Type) where
  | insert (key value : S)
  | delete (key : S)
  | search (key : S)

def Call.map {S T : Type} (f : S → T) : Call S → Call T
  | insert key value => insert (f key) (f value)
  | delete key => delete (f key)
  | search key => search (f key)

/-- The strings of a call. -/
def Call.strings {S : Type} : Call S → List S
  | insert key value => [key, value]
  | delete key => [key]
  | search key => [key]

/-- One call, its strings given by their addresses, and what a search finds, read by the
caller through the pointer that the search returns. -/
def call (fuel p : ℕ) : Call ℕ → HeapM Block (List (Option CString))
  | .insert key value => do
      dictInsert A fuel p key value
      return []
  | .delete key => do
      dictDelete fuel p key
      return []
  | .search key => do
      let r ← dictSearch fuel p key
      if r = 0 then return [none]
      else do
        let v ← load r Block.text
        return [some v]

/-- Calls one after another, and what their searches find. -/
def calls (fuel p : ℕ) : List (Call ℕ) → HeapM Block (List (Option CString))
  | [] => return []
  | c :: cs => do
      let found ← call A fuel p c
      let rest ← calls fuel p cs
      return found ++ rest

/-- A dictionary is created, used and destroyed. -/
def session (fuel : ℕ) (cs : List (Call ℕ)) : HeapM Block (List (Option CString)) := do
  let p ← dictCreate A
  let found ← calls A fuel p cs
  dictDestroy fuel p
  return found

/-- One call on the dictionary of chains, and what a search finds. -/
def callOn (depth : ℕ) (d : Dict) : Call CString → Option (Dict × List (Option CString))
  | .insert key value => (RfsAtsc.dictInsert depth d key value).map fun d => (d, [])
  | .delete key => some (RfsAtsc.dictDelete d key, [])
  | .search key => some (d, [RfsAtsc.dictSearch d key])

/-- Calls one after another on the dictionary of chains. -/
def callsOn (depth : ℕ) (d : Dict) : List (Call CString) → Option (Dict × List (Option CString))
  | [] => some (d, [])
  | c :: cs => do
      let (d, found) ← callOn depth d c
      let (d, rest) ← callsOn depth d cs
      return (d, found ++ rest)

/-- The strings of a call are in the caller's part of the heap. -/
def Call.TextsIn (h : Heap Block) (text : ℕ → CString) (c : Call ℕ) : Prop :=
  ∀ s ∈ c.strings, s ≠ 0 ∧ h.lookup s = some (.str (text s))

/-- The strings of a call can be read in the heap of its caller. -/
theorem Call.TextsIn.reads {h : Heap Block} {text : ℕ → CString} {c : Call ℕ}
    (hc : c.TextsIn h text) {s : ℕ} (hs : s ∈ c.strings) :
    Reads (exactly h) s (.str (text s)) := by
  rintro part rfl
  exact hc s hs

/-- One call finds in the heap what it finds in the dictionary. -/
theorem call_spec (depth fuel p : ℕ) {h : Heap Block} {text : ℕ → CString} {c : Call ℕ}
    {d : Dict} (hd : d.Sound) (htexts : c.TextsIn h text)
    (hfuel : d.table.flatten.length + 3 < fuel) :
    ∃ d' found, callOn (depth + 3) d (c.map text) = some (d', found) ∧ d'.Sound ∧
      d'.table.flatten.length ≤ d.table.flatten.length + 1 ∧
      Triple (dictAt p d * exactly h) (call A fuel p c) fun r =>
        fact (r = found) * (dictAt p d' * exactly h) := by
  cases c with
  | insert key value =>
      have hkey := htexts.reads (s := key) (by simp [Call.strings])
      have hvalue := htexts.reads (s := value) (by simp [Call.strings])
      obtain ⟨d', hrun, hspec⟩ := dictInsert_spec A depth (p := p) hd hkey hvalue hfuel
      obtain ⟨e, hrun', hsound, hlen, -⟩ :=
        RfsAtsc.dictInsert_spec depth hd (text key) (text value)
      cases hrun.symm.trans hrun'
      refine ⟨d', [], by rw [Call.map, callOn, hrun]; rfl, hsound, hlen.le, ?_⟩
      exact hspec.bind fun _ => Triple.pure fun part hpart => fact_mul_apply.mpr ⟨rfl, hpart⟩
  | delete key =>
      have hkey := htexts.reads (s := key) (by simp [Call.strings])
      have hlen := dictDelete_length d (text key)
      refine ⟨_, [], rfl, hd.delete (text key), by omega, ?_⟩
      exact (dictDelete_spec hkey (by omega)).bind fun _ =>
        Triple.pure fun part hpart => fact_mul_apply.mpr ⟨rfl, hpart⟩
  | search key =>
      have hkey := htexts.reads (s := key) (by simp [Call.strings])
      refine ⟨d, _, rfl, hd, Nat.le_succ _, ?_⟩
      refine (dictSearch_spec hkey (by omega)).bind fun r => ?_
      cases hfound : RfsAtsc.dictSearch d (text key) with
      | none =>
          refine Triple.given (p := r = 0) (fun part hpart => hpart.2) fun hr => ?_
          rw [if_pos hr]
          exact Triple.pure fun part hpart => fact_mul_apply.mpr ⟨rfl, hpart.1⟩
      | some v =>
          refine Triple.given (p := r ≠ 0) (fun part hpart => hpart.2.1) fun hr => ?_
          rw [if_neg hr]
          refine Triple.load (fun part hpart => hpart.2) rfl ?_
          exact Triple.pure fun part hpart => fact_mul_apply.mpr ⟨rfl, hpart.1⟩

/-- What the calls find in the heap is what they find in the dictionary. -/
theorem calls_spec (depth fuel p : ℕ) {h : Heap Block} {text : ℕ → CString}
    (cs : List (Call ℕ)) {d : Dict} (hd : d.Sound) (htexts : ∀ c ∈ cs, c.TextsIn h text)
    (hfuel : d.table.flatten.length + cs.length + 3 < fuel) :
    ∃ d' found, callsOn (depth + 3) d (cs.map (Call.map text)) = some (d', found) ∧
      d'.table.flatten.length ≤ d.table.flatten.length + cs.length ∧
      Triple (dictAt p d * exactly h) (calls A fuel p cs) fun r =>
        fact (r = found) * (dictAt p d' * exactly h) := by
  induction cs generalizing d with
  | nil =>
      refine ⟨d, [], rfl, Nat.le_refl _, ?_⟩
      exact Triple.pure fun part hpart => fact_mul_apply.mpr ⟨rfl, hpart⟩
  | cons c cs ih =>
      rw [List.length_cons] at hfuel
      obtain ⟨hc, hcs⟩ := List.forall_mem_cons.mp htexts
      obtain ⟨d₁, found, hcall, hd₁, hlen₁, hspec⟩ :=
        call_spec A depth fuel p hd hc (by omega)
      obtain ⟨d₂, rest, hcalls, hlen₂, hrest⟩ := ih hd₁ hcs (by omega)
      refine ⟨d₂, found ++ rest, ?_, by rw [List.length_cons]; omega, ?_⟩
      · rw [List.map_cons, callsOn, hcall]
        simp only [Option.bind_eq_bind, Option.bind_some, hcalls]
        rfl
      · refine hspec.bind fun r => Triple.of_fact fun hr => ?_
        refine hrest.bind fun r' => Triple.of_fact fun hr' => ?_
        rw [hr, hr']
        exact Triple.pure fun part hpart => fact_mul_apply.mpr ⟨rfl, hpart⟩

/-- **The code on its heap refines the dictionary of chains, and leaks nothing.**  Whatever
addresses `malloc` picks, a dictionary that is created, used and destroyed never touches a
block that is not its own or has been freed, its searches find what they find in the
dictionary of chains, and at the end the heap is what it was before. -/
theorem session_refines (depth : ℕ) (cs : List (Call ℕ)) (h : Heap Block) (text : ℕ → CString)
    (htexts : ∀ c ∈ cs, c.TextsIn h text) (requests : ℕ) :
    ∃ d found, callsOn (depth + 3) RfsAtsc.dictCreate (cs.map (Call.map text)) = some (d, found) ∧
      ∀ fuel, cs.length + 3 < fuel →
        ∃ requests', session A fuel cs ⟨h, requests⟩ = some (found, ⟨h, requests'⟩) := by
  have hempty : RfsAtsc.dictCreate.table.flatten.length = 0 := by
    simp [RfsAtsc.dictCreate, RfsAtsc.internalDictCreate]
  obtain ⟨d, found, hcalls, -, -⟩ :=
    calls_spec A depth (cs.length + 4) 0 cs dictCreate_sound htexts (by omega)
  refine ⟨d, found, hcalls, fun fuel hfuel => Triple.run ?_ requests⟩
  refine (internalDictCreate_spec A INITIAL_SIZE (by decide) _).bind fun p => ?_
  obtain ⟨d', found', hcalls', hlen, hspec⟩ :=
    calls_spec A depth fuel p cs dictCreate_sound htexts (by omega)
  cases hcalls.symm.trans hcalls'
  refine Triple.bind hspec fun r => Triple.of_fact fun hr => ?_
  refine (dictDestroy_spec p d (by omega) _).bind fun _ => ?_
  exact Triple.pure fun part hpart => fact_mul_apply.mpr ⟨hr, hpart⟩

/-- The address above all those in use. -/
def addressAbove (h : Heap Block) : ℕ := h.keys.sup id + 1

/-- An address above the heap is not in it. -/
theorem addressAbove_fresh (h : Heap Block) : addressAbove h ∉ h := by
  intro hmem
  have hle : id (addressAbove h) ≤ h.keys.sup id := Finset.le_sup (Finmap.mem_keys.mpr hmem)
  exact absurd hle (Nat.not_succ_le_self _)

/-- It is not the null pointer. -/
theorem addressAbove_ne_null (h : Heap Block) : addressAbove h ≠ 0 := Nat.succ_ne_zero _

/-- An allocator that goes up. -/
def above : Allocator Block where
  address _ := addressAbove
  fresh _ := addressAbove_fresh
  ne_null _ := addressAbove_ne_null

/-- A key inserted from a buffer of the caller, as its own value, searched and deleted. -/
theorem session_refines_buffer :
    let buf : CString := ⟨[0x6b#8], by decide⟩
    ∃ d found, callsOn 3 RfsAtsc.dictCreate [.insert buf buf, .search buf, .delete buf] =
        some (d, found) ∧
      ∀ fuel, 6 < fuel → ∃ requests',
        session above fuel [.insert 1 1, .search 1, .delete 1] ⟨Finmap.singleton 1 (.str buf), 0⟩ =
          some (found, ⟨Finmap.singleton 1 (.str buf), requests'⟩) := by
  intro buf
  refine session_refines above 0 [.insert 1 1, .search 1, .delete 1]
    (Finmap.singleton 1 (.str buf)) (fun _ => buf) ?_ 0
  intro c hc s hs
  have hone : s = 1 := by
    simp only [List.mem_cons, List.not_mem_nil, or_false] at hc
    rcases hc with rfl | rfl | rfl
    all_goals simpa [Call.strings] using hs
  rw [hone]
  exact ⟨Nat.one_ne_zero, Finmap.lookup_singleton_eq⟩

end RfsAtsc.DictHeap
