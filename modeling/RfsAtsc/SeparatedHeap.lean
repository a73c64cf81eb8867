import Mathlib.Algebra.BigOperators.Group.List.Basic
import Mathlib.Data.Finmap

/-!
# Programs on a heap of blocks

A program allocates, reads, writes and frees blocks, and faults when it touches a
block that is not allocated, or one that is not as it expects.  `malloc` may put a
new block at any free address: the choice is an allocator's, which may look at the
whole heap and at how many requests came before.

An assertion describes a part of a heap.  The product of two assertions describes
two parts that have no address in common, and assertions form a commutative monoid
under it, so that products are rearranged as those of numbers are.  `Triple P c Q`
says that the program `c`, started in a heap with a part that `P` describes, does not
fault, ends with a part that `Q` describes, and leaves the rest of the heap as it
was.  A block that is described by neither `Q` nor the rest has been freed: nothing
leaks.
-/

namespace SeparatedHeap

variable {Block α β ι : Type}

/-- The allocated blocks at their addresses. -/
abbrev Heap (Block : Type) := Finmap fun _ : ℕ => Block

/-- A heap, and the number of requests for a block so far. -/
structure Memory (Block : Type) where
  heap : Heap Block
  requests : ℕ

/-- The address of each new block: one that is free, and not the null pointer. -/
structure Allocator (Block : Type) where
  address : ℕ → Heap Block → ℕ
  fresh : ∀ n h, address n h ∉ h
  ne_null : ∀ n h, address n h ≠ 0

/-- A program.  It has no result when it faults. -/
abbrev HeapM (Block : Type) := StateT (Memory Block) Option

/-! ## The operations -/

def fault : HeapM Block α := fun _ => none

/-- A new block, with its contents. -/
def malloc (A : Allocator Block) (b : Block) : HeapM Block ℕ := fun m =>
  let p := A.address m.requests m.heap
  some (p, ⟨m.heap.insert p b, m.requests + 1⟩)

/-- What `f` finds in the block at an address. -/
def load (p : ℕ) (f : Block → Option α) : HeapM Block α := fun m =>
  ((m.heap.lookup p).bind f).map fun a => (a, m)

/-- The block at an address is changed as `g` says. -/
def store (p : ℕ) (g : Block → Option Block) : HeapM Block Unit := fun m =>
  ((m.heap.lookup p).bind g).map fun b => ((), { m with heap := m.heap.insert p b })

/-- `free`: nothing happens to the null pointer. -/
def free (p : ℕ) : HeapM Block Unit := fun m =>
  if p = 0 then some ((), m)
  else (m.heap.lookup p).map fun _ => ((), { m with heap := m.heap.erase p })

/-- `for (i = 0; i < n; i++)`. -/
def forUpTo : ℕ → (ℕ → HeapM Block Unit) → HeapM Block Unit
  | 0, _ => pure ()
  | n + 1, body => do
      forUpTo n body
      body n

/-! ## Assertions -/

/-- What a part of a heap is like. -/
def Assertion (Block : Type) : Type := Heap Block → Prop

/-- Assertions that hold of the same parts are the same. -/
@[ext] theorem Assertion.ext {P Q : Assertion Block} (h : ∀ part, P part ↔ Q part) : P = Q :=
  funext fun part => propext (h part)

/-- A part with no block, when `p` holds. -/
def fact (p : Prop) : Assertion Block := fun part => p ∧ part = ∅

/-- One block at an address. -/
def pointsTo (p : ℕ) (b : Block) : Assertion Block := fun part =>
  p ≠ 0 ∧ part = Finmap.singleton p b

/-- The part that is `h`. -/
def exactly (h : Heap Block) : Assertion Block := fun part => part = h

/-- A part as some `P i` describes it. -/
def someOf (P : ι → Assertion Block) : Assertion Block := fun part => ∃ i, P i part

/-- Two parts with no address in common. -/
def sep (P Q : Assertion Block) : Assertion Block := fun part =>
  ∃ left right, P left ∧ Q right ∧ left.Disjoint right ∧ part = left ∪ right

/-- Two parts stand side by side in either order. -/
private theorem sep_comm (P Q : Assertion Block) : sep P Q = sep Q P := by
  have hswap : ∀ (P Q : Assertion Block) part, sep P Q part → sep Q P part := by
    intro P Q part h
    obtain ⟨left, right, hleft, hright, hdisj, rfl⟩ := h
    exact ⟨right, left, hright, hleft, hdisj.symm, Finmap.union_comm_of_disjoint hdisj⟩
  ext part
  exact ⟨hswap P Q part, hswap Q P part⟩

/-- And three in either grouping. -/
private theorem sep_assoc (P Q R : Assertion Block) : sep (sep P Q) R = sep P (sep Q R) := by
  ext part
  constructor
  · rintro ⟨_, c, ⟨a, b, ha, hb, hab, rfl⟩, hc, habc, rfl⟩
    obtain ⟨hac, hbc⟩ := (Finmap.disjoint_union_left a b c).mp habc
    exact ⟨a, b ∪ c, ha, ⟨b, c, hb, hc, hbc, rfl⟩,
      (Finmap.disjoint_union_right a b c).mpr ⟨hab, hac⟩, Finmap.union_assoc⟩
  · rintro ⟨a, _, ha, ⟨b, c, hb, hc, hbc, rfl⟩, habc, rfl⟩
    obtain ⟨hab, hac⟩ := (Finmap.disjoint_union_right a b c).mp habc
    exact ⟨a ∪ b, c, ⟨a, b, ha, hb, hab, rfl⟩, hc,
      (Finmap.disjoint_union_left a b c).mpr ⟨hac, hbc⟩, Finmap.union_assoc.symm⟩

/-- A fact takes no part of the heap. -/
private theorem sep_fact (P : Assertion Block) (p : Prop) (part : Heap Block) :
    sep (fact p) P part ↔ p ∧ P part := by
  constructor
  · rintro ⟨_, right, ⟨hp, rfl⟩, hright, -, rfl⟩
    rw [Finmap.empty_union]
    exact ⟨hp, hright⟩
  · intro h
    exact ⟨∅, part, ⟨h.1, rfl⟩, h.2, Finmap.disjoint_empty part, Finmap.empty_union.symm⟩

instance : CommMonoid (Assertion Block) where
  mul := sep
  one := fact True
  mul_comm := sep_comm
  mul_assoc := sep_assoc
  one_mul P := by
    ext part
    exact (sep_fact P True part).trans (iff_of_eq (true_and _))
  mul_one P := by
    ext part
    have hcomm : sep P (fact True) part ↔ sep (fact True) P part :=
      iff_of_eq (congrFun (sep_comm _ _) part)
    exact hcomm.trans ((sep_fact P True part).trans (iff_of_eq (true_and _)))

/-- A fact beside an assertion: both hold. -/
theorem fact_mul_apply {P : Assertion Block} {p : Prop} {part : Heap Block} :
    (fact p * P : Assertion Block) part ↔ p ∧ P part := sep_fact P p part

/-- A fact that holds says nothing of the heap. -/
theorem fact_of {p : Prop} (h : p) : (fact p : Assertion Block) = 1 := by
  ext part
  exact and_congr_left fun _ => iff_of_true h trivial

/-- An assertion that holds of one index holds of some. -/
theorem someOf_of {P : ι → Assertion Block} (i : ι) {part : Heap Block} (h : P i part) :
    someOf P part := ⟨i, h⟩

/-- What stands beside one of several stands beside each. -/
theorem someOf_mul (P : ι → Assertion Block) (R : Assertion Block) :
    someOf P * R = someOf fun i => P i * R := by
  ext part
  constructor
  · rintro ⟨left, right, ⟨i, hleft⟩, hright, hdisj, rfl⟩
    exact ⟨i, left, right, hleft, hright, hdisj, rfl⟩
  · rintro ⟨i, left, right, hleft, hright, hdisj, rfl⟩
    exact ⟨left, right, ⟨i, hleft⟩, hright, hdisj, rfl⟩

/-! ## Reading -/

/-- The block at an address, wherever the assertion holds. -/
def Reads (P : Assertion Block) (p : ℕ) (b : Block) : Prop :=
  ∀ part, P part → p ≠ 0 ∧ part.lookup p = some b

/-- A block that an assertion points to can be read. -/
theorem reads_pointsTo (p : ℕ) (b : Block) : Reads (pointsTo p b) p b := by
  rintro part ⟨hp, rfl⟩
  exact ⟨hp, Finmap.lookup_singleton_eq⟩

/-- Also with more on its right. -/
theorem Reads.mul_right {P : Assertion Block} {p : ℕ} {b : Block} (h : Reads P p b)
    (Q : Assertion Block) : Reads (P * Q) p b := by
  rintro part ⟨left, right, hleft, -, -, rfl⟩
  obtain ⟨hp, hlookup⟩ := h left hleft
  rw [Finmap.lookup_union_left (Finmap.mem_of_lookup_eq_some hlookup)]
  exact ⟨hp, hlookup⟩

/-- Or on its left. -/
theorem Reads.mul_left {P : Assertion Block} {p : ℕ} {b : Block} (h : Reads P p b)
    (Q : Assertion Block) : Reads (Q * P) p b := by
  rw [mul_comm]
  exact h.mul_right Q

/-! ## Triples -/

/-- A block put into the heap is a part of it beside the rest. -/
private theorem insert_eq_union (p : ℕ) (b : Block) (h : Heap Block) :
    h.insert p b = Finmap.singleton p b ∪ h := by
  apply Finmap.ext_lookup
  intro x
  by_cases hx : x = p
  · subst hx
    rw [Finmap.lookup_insert, Finmap.lookup_union_left ((Finmap.mem_singleton _ _ _).mpr rfl),
      Finmap.lookup_singleton_eq]
  · rw [Finmap.lookup_insert_of_ne _ hx, Finmap.lookup_union_right]
    rwa [Finmap.mem_singleton]

/-- And taken out again leaves the rest. -/
private theorem erase_insert {p : ℕ} {b : Block} {h : Heap Block} (hp : p ∉ h) :
    (h.insert p b).erase p = h := by
  apply Finmap.ext_lookup
  intro x
  by_cases hx : x = p
  · subst hx
    rw [Finmap.lookup_erase, Finmap.lookup_eq_none.mpr hp]
  · rw [Finmap.lookup_erase_ne hx, Finmap.lookup_insert_of_ne _ hx]

/-- From a heap with a part that `P` describes the program ends with one that `Q`
describes, and the rest of the heap is as before. -/
def Triple (P : Assertion Block) (c : HeapM Block α) (Q : α → Assertion Block) : Prop :=
  ∀ (part rest : Heap Block) (n : ℕ), P part → part.Disjoint rest →
    ∃ (a : α) (part' : Heap Block) (n' : ℕ),
      c ⟨part ∪ rest, n⟩ = some (a, ⟨part' ∪ rest, n'⟩) ∧ Q a part' ∧ part'.Disjoint rest

/-- **The rule of consequence.** -/
theorem Triple.conseq {P P' : Assertion Block} {Q Q' : α → Assertion Block} {c : HeapM Block α}
    (h : Triple P c Q) (hpre : ∀ part, P' part → P part)
    (hpost : ∀ a part, Q a part → Q' a part) : Triple P' c Q' := by
  intro part rest n hpart hdisj
  obtain ⟨a, part', n', hrun, hq, hdisj'⟩ := h part rest n (hpre part hpart) hdisj
  exact ⟨a, part', n', hrun, hpost a part' hq, hdisj'⟩

/-- The postcondition alone may be weakened. -/
theorem Triple.post {P : Assertion Block} {Q Q' : α → Assertion Block} {c : HeapM Block α}
    (h : Triple P c Q) (hpost : ∀ a part, Q a part → Q' a part) : Triple P c Q' :=
  h.conseq (fun _ hpart => hpart) hpost

/-- **Returning** touches nothing. -/
theorem Triple.pure {P : Assertion Block} {Q : α → Assertion Block} {a : α}
    (h : ∀ part, P part → Q a part) : Triple P (Pure.pure a) Q := by
  intro part rest n hpart hdisj
  exact ⟨a, part, n, rfl, h part hpart, hdisj⟩

/-- **Sequencing**: what one command leaves is what the next begins with. -/
theorem Triple.bind {P : Assertion Block} {Q : α → Assertion Block} {R : β → Assertion Block}
    {c : HeapM Block α} {k : α → HeapM Block β} (h : Triple P c Q)
    (hk : ∀ a, Triple (Q a) (k a) R) : Triple P (c >>= k) R := by
  intro part rest n hpart hdisj
  obtain ⟨a, part', n', hrun, hq, hdisj'⟩ := h part rest n hpart hdisj
  obtain ⟨b, part'', n'', hrun', hr, hdisj''⟩ := hk a part' rest n' hq hdisj'
  refine ⟨b, part'', n'', ?_, hr, hdisj''⟩
  change ((c _).bind fun x => k x.1 x.2) = _
  rw [hrun]
  exact hrun'

/-- An operation at the end of a program stands in front of an empty one. -/
theorem Triple.last {P : Assertion Block} {Q : α → Assertion Block} {c : HeapM Block α}
    (h : Triple P (c >>= Pure.pure) Q) : Triple P c Q := by
  rw [bind_pure] at h
  exact h

/-- A precondition of several is met one by one. -/
theorem Triple.of_someOf {P : ι → Assertion Block} {Q : α → Assertion Block} {c : HeapM Block α}
    (h : ∀ i, Triple (P i) c Q) : Triple (someOf P) c Q := by
  rintro part rest n ⟨i, hpart⟩ hdisj
  exact h i part rest n hpart hdisj

/-- A fact in the precondition may be used. -/
theorem Triple.of_fact {p : Prop} {P : Assertion Block} {Q : α → Assertion Block}
    {c : HeapM Block α} (h : p → Triple P c Q) : Triple (fact p * P) c Q := by
  intro part rest n hpart hdisj
  obtain ⟨hp, hpart⟩ := fact_mul_apply.mp hpart
  exact h hp part rest n hpart hdisj

/-- What the assertion says of every part may be used. -/
theorem Triple.given {p : Prop} {P : Assertion Block} {Q : α → Assertion Block}
    {c : HeapM Block α} (hp : ∀ part, P part → p) (h : p → Triple P c Q) : Triple P c Q := by
  intro part rest n hpart hdisj
  exact h (hp part hpart) part rest n hpart hdisj

/-- A block is not at the null pointer. -/
theorem Triple.of_pointsTo {p : ℕ} {b : Block} {P : Assertion Block} {Q : α → Assertion Block}
    {c : HeapM Block α} (h : p ≠ 0 → Triple (pointsTo p b * P) c Q) :
    Triple (pointsTo p b * P) c Q :=
  Triple.given (fun part hpart => ((reads_pointsTo p b).mul_right P part hpart).1) h

/-- A loop with its invariant. -/
theorem Triple.forUpTo {I : ℕ → Assertion Block} {body : ℕ → HeapM Block Unit} {n : ℕ}
    (h : ∀ i < n, Triple (I i) (body i) fun _ => I (i + 1)) :
    Triple (I 0) (forUpTo n body) fun _ => I n := by
  induction n with
  | zero => exact Triple.pure fun _ hpart => hpart
  | succ n ih =>
      exact (ih fun i hi => h i (Nat.lt_succ_of_lt hi)).bind fun _ => h n (Nat.lt_succ_self n)

/-! ## The operations in front of a program -/

variable {P : Assertion Block} {Q : β → Assertion Block}

/-- **Loading** from a block that the precondition can read. -/
theorem Triple.load {p : ℕ} {b : Block} {f : Block → Option α} {a : α} {k : α → HeapM Block β}
    (hreads : Reads P p b) (hf : f b = some a) (hk : Triple P (k a) Q) :
    Triple P (load p f >>= k) Q := by
  intro part rest n hpart hdisj
  have hown := (hreads part hpart).2
  have hlookup : (part ∪ rest).lookup p = some b := by
    rw [Finmap.lookup_union_left (Finmap.mem_of_lookup_eq_some hown), hown]
  obtain ⟨c, part', n', hrun, hq, hdisj'⟩ := hk part rest n hpart hdisj
  refine ⟨c, part', n', ?_, hq, hdisj'⟩
  change ((SeparatedHeap.load p f ⟨part ∪ rest, n⟩).bind fun x => k x.1 x.2) = _
  simp only [SeparatedHeap.load, hlookup, Option.bind_some, hf, Option.map_some]
  exact hrun

/-- **Allocation** puts a new block beside what there is. -/
theorem Triple.malloc (A : Allocator Block) {b : Block} {k : ℕ → HeapM Block β}
    (hk : ∀ p, Triple (pointsTo p b * P) (k p) Q) :
    Triple P (malloc A b >>= k) Q := by
  intro part rest n hpart hdisj
  have hfresh := A.fresh n (part ∪ rest)
  rw [Finmap.mem_union, not_or] at hfresh
  have hnew : (Finmap.singleton (A.address n (part ∪ rest)) b).Disjoint part := by
    intro x hx
    rw [(Finmap.mem_singleton _ _ _).mp hx]
    exact hfresh.1
  have hrest : (Finmap.singleton (A.address n (part ∪ rest)) b ∪ part).Disjoint rest := by
    refine (Finmap.disjoint_union_left _ _ _).mpr ⟨?_, hdisj⟩
    intro x hx
    rw [(Finmap.mem_singleton _ _ _).mp hx]
    exact hfresh.2
  obtain ⟨c, part', n', hrun, hq, hdisj'⟩ := hk _ _ rest (n + 1)
    ⟨_, part, ⟨A.ne_null n (part ∪ rest), rfl⟩, hpart, hnew, rfl⟩ hrest
  refine ⟨c, part', n', ?_, hq, hdisj'⟩
  rw [← hrun, ← insert_eq_union, ← Finmap.insert_union]
  rfl

/-- **Storing** changes the block that is pointed to. -/
theorem Triple.store {p : ℕ} {b b' : Block} {g : Block → Option Block}
    {k : Unit → HeapM Block β} (hg : g b = some b') (hk : Triple (pointsTo p b' * P) (k ()) Q) :
    Triple (pointsTo p b * P) (store p g >>= k) Q := by
  rintro _ rest n ⟨_, part, ⟨hp, rfl⟩, hpart, hdisj, rfl⟩ hrest
  have hown : (Finmap.singleton p b').Disjoint part := hdisj
  have hrest' : (Finmap.singleton p b' ∪ part).Disjoint rest := by
    rw [Finmap.disjoint_union_left] at hrest ⊢
    exact ⟨hrest.1, hrest.2⟩
  obtain ⟨c, part', n', hrun, hq, hdisj'⟩ :=
    hk _ rest n ⟨_, part, ⟨hp, rfl⟩, hpart, hown, rfl⟩ hrest'
  refine ⟨c, part', n', ?_, hq, hdisj'⟩
  have hlookup : (Finmap.singleton p b ∪ part ∪ rest).lookup p = some b := by
    rw [← insert_eq_union, ← Finmap.insert_union, Finmap.lookup_insert]
  change ((SeparatedHeap.store p g ⟨Finmap.singleton p b ∪ part ∪ rest, n⟩).bind
    fun x => k x.1 x.2) = _
  simp only [SeparatedHeap.store, hlookup, Option.bind_some, hg, Option.map_some]
  rw [← hrun, ← insert_eq_union, ← insert_eq_union, Finmap.insert_union, Finmap.insert_insert]

/-- **Freeing** takes the block away. -/
theorem Triple.free {p : ℕ} {b : Block} {k : Unit → HeapM Block β}
    (hk : Triple P (k ()) Q) : Triple (pointsTo p b * P) (free p >>= k) Q := by
  rintro _ rest n ⟨_, part, ⟨hp, rfl⟩, hpart, hdisj, rfl⟩ hrest
  obtain ⟨hprest, hpartrest⟩ := (Finmap.disjoint_union_left _ _ _).mp hrest
  obtain ⟨c, part', n', hrun, hq, hdisj'⟩ := hk part rest n hpart hpartrest
  refine ⟨c, part', n', ?_, hq, hdisj'⟩
  have hlookup : (Finmap.singleton p b ∪ part ∪ rest).lookup p = some b := by
    rw [← insert_eq_union, ← Finmap.insert_union, Finmap.lookup_insert]
  have hfree : p ∉ part ∪ rest := by
    rw [Finmap.mem_union, not_or]
    exact ⟨hdisj p ((Finmap.mem_singleton _ _ _).mpr rfl),
      hprest p ((Finmap.mem_singleton _ _ _).mpr rfl)⟩
  change ((SeparatedHeap.free p ⟨Finmap.singleton p b ∪ part ∪ rest, n⟩).bind
    fun x => k x.1 x.2) = _
  simp only [SeparatedHeap.free, if_neg hp, hlookup, Option.map_some, Option.bind_some]
  rw [← hrun, ← insert_eq_union, ← Finmap.insert_union, erase_insert hfree]

/-- A program that owns nothing at its start and at its end leaves the heap as it was. -/
theorem Triple.run {c : HeapM Block α} {a : α} {h : Heap Block}
    (ht : Triple (exactly h) c fun r => fact (r = a) * exactly h) (n : ℕ) :
    ∃ n', c ⟨h, n⟩ = some (a, ⟨h, n'⟩) := by
  obtain ⟨a', part, n', hrun, hq, -⟩ := ht h ∅ n rfl fun _ _ => Finmap.notMem_empty
  obtain ⟨rfl, rfl⟩ := fact_mul_apply.mp hq
  rw [Finmap.union_empty] at hrun
  exact ⟨n', hrun⟩

end SeparatedHeap
