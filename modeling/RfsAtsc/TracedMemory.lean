import Mathlib.Data.List.Basic
import Mathlib.Tactic.Ring

/-!
# Traced memory

A flat memory of cells addressed by integers, together with the record of the
addresses stored to.  `Holds` says that a block of memory spells a list, and
`take` reads a block off; the frame lemmas say what a store leaves alone.
Addresses are integers, so that an array's base can sit at `0` and an access
below it still has an address.
-/

namespace TracedMemory

/-- A memory: the cell at every address, and the addresses stored to, the
latest first. -/
structure Mem (α : Type) where
  cell : Int → α
  stored : List Int

variable {α : Type}

/-- A memory with a list from address `0` up, `fill` elsewhere, and nothing
stored yet. -/
def Mem.ofList (fill : α) (bs : List α) : Mem α where
  cell := fun a => if 0 ≤ a then bs.getD a.toNat fill else fill
  stored := []

/-- Store `v` at address `a`. -/
def Mem.store (m : Mem α) (a : Int) (v : α) : Mem α where
  cell := fun b => if b = a then v else m.cell b
  stored := a :: m.stored

/-- The same cells, with nothing stored yet. -/
def Mem.untraced (m : Mem α) : Mem α where
  cell := m.cell
  stored := []

@[simp] theorem Mem.store_cell_same (m : Mem α) (a : Int) (v : α) :
    (m.store a v).cell a = v := by
  simp [Mem.store]

/-- A store leaves the other cells. -/
theorem Mem.store_cell_ne (m : Mem α) {a b : Int} (v : α) (h : b ≠ a) :
    (m.store a v).cell b = m.cell b := by
  simp [Mem.store, h]

@[simp] theorem Mem.store_stored (m : Mem α) (a : Int) (v : α) :
    (m.store a v).stored = a :: m.stored := rfl

/-- The `n` cells from address `a` up. -/
def Mem.take (m : Mem α) : Int → Nat → List α
  | _, 0 => []
  | a, n+1 => m.cell a :: m.take (a + 1) n

@[simp] theorem Mem.take_length (m : Mem α) (a : Int) (n : Nat) :
    (m.take a n).length = n := by
  induction n generalizing a with
  | zero => rfl
  | succ n ih => simp [Mem.take, ih]

/-- The cells from address `a` up spell the list. -/
def Mem.Holds (m : Mem α) : Int → List α → Prop
  | _, [] => True
  | a, b :: bs => m.cell a = b ∧ m.Holds (a + 1) bs

@[simp] theorem Mem.holds_nil (m : Mem α) (a : Int) : m.Holds a [] := trivial

@[simp] theorem Mem.holds_cons (m : Mem α) (a : Int) (b : α) (bs : List α) :
    m.Holds a (b :: bs) ↔ m.cell a = b ∧ m.Holds (a + 1) bs := Iff.rfl

/-- A block holds a list exactly when reading it off gives the list. -/
theorem Mem.holds_iff_take (m : Mem α) (a : Int) (bs : List α) :
    m.Holds a bs ↔ m.take a bs.length = bs := by
  induction bs generalizing a with
  | nil => simp [Mem.take]
  | cons b bs ih => simp [Mem.take, ih]

/-- A block is its two parts one behind the other. -/
theorem Mem.take_add (m : Mem α) (a : Int) (p q : Nat) :
    m.take a (p + q) = m.take a p ++ m.take (a + p) q := by
  induction p generalizing a with
  | zero => simp [Mem.take]
  | succ p ih =>
      have haddr : a + 1 + (p : Int) = a + ((p + 1 : Nat) : Int) := by
        push_cast
        ring
      rw [Nat.succ_add, Mem.take, Mem.take, ih, haddr, List.cons_append]

/-- Reading past a held block gives the block first. -/
theorem Mem.Holds.take_add {m : Mem α} {a : Int} {bs : List α} (h : m.Holds a bs) (n : Nat) :
    m.take a (bs.length + n) = bs ++ m.take (a + bs.length) n := by
  rw [Mem.holds_iff_take] at h
  rw [Mem.take_add, h]

/-- A held list is read off from its start. -/
theorem Mem.Holds.take_prefix {m : Mem α} {a : Int} {bs : List α} (h : m.Holds a bs) {n : Nat}
    (hn : n ≤ bs.length) : m.take a n <+: bs := by
  obtain ⟨k, hk⟩ := Nat.exists_eq_add_of_le hn
  have htake := (m.holds_iff_take a bs).mp h
  rw [hk, m.take_add] at htake
  exact ⟨_, htake⟩

/-- A block holds what is read off it. -/
theorem Mem.holds_take (m : Mem α) (a : Int) (n : Nat) : m.Holds a (m.take a n) := by
  rw [Mem.holds_iff_take, Mem.take_length]

/-- Adjacent blocks concatenate. -/
theorem Mem.holds_append (m : Mem α) (a : Int) (xs ys : List α) :
    m.Holds a (xs ++ ys) ↔ m.Holds a xs ∧ m.Holds (a + xs.length) ys := by
  induction xs generalizing a with
  | nil => simp
  | cons x xs ih =>
      have haddr : a + 1 + (xs.length : Int) = a + ((x :: xs).length : Int) := by
        simp only [List.length_cons]
        push_cast
        ring
      simp only [List.cons_append, Mem.holds_cons, ih, haddr, and_assoc]

/-- The cell `k` places into a held list is its `k`-th entry. -/
theorem Mem.Holds.cell_eq {m : Mem α} {a : Int} {bs : List α} (h : m.Holds a bs)
    {k : Nat} (hk : k < bs.length) : m.cell (a + k) = bs[k] := by
  induction bs generalizing a k with
  | nil => exact absurd hk (Nat.not_lt_zero k)
  | cons b bs ih =>
      cases k with
      | zero => simpa using h.1
      | succ k =>
          have haddr : a + ((k + 1 : Nat) : Int) = a + 1 + (k : Int) := by
            push_cast
            ring
          rw [haddr]
          simpa using ih h.2 (by simpa using hk)

/-- A list is held where each of its entries is. -/
theorem Mem.holds_of_cell {m : Mem α} {a : Int} {bs : List α}
    (h : ∀ (k : Nat) (hk : k < bs.length), m.cell (a + k) = bs[k]) : m.Holds a bs := by
  induction bs generalizing a with
  | nil => trivial
  | cons b bs ih =>
      have hfirst : m.cell (a + (0 : Nat)) = b := h 0 (Nat.succ_pos _)
      refine ⟨by simpa using hfirst, ih ?_⟩
      intro k hk
      have haddr : a + 1 + (k : Int) = a + ((k + 1 : Nat) : Int) := by
        push_cast
        ring
      rw [haddr]
      exact h (k + 1) (Nat.succ_lt_succ hk)

/-- Memory made of a list holds it from zero on. -/
theorem Mem.ofList_holds (fill : α) (bs : List α) : (Mem.ofList fill bs).Holds 0 bs := by
  apply Mem.holds_of_cell
  intro k hk
  simp [Mem.ofList, List.getD_eq_getElem?_getD, List.getElem?_eq_getElem hk]

/-- The trace has no part in what is held. -/
theorem Mem.untraced_holds (m : Mem α) {a : Int} {bs : List α} :
    m.untraced.Holds a bs ↔ m.Holds a bs := by
  induction bs generalizing a with
  | nil => exact Iff.rfl
  | cons b bs ih => exact and_congr Iff.rfl ih

/-- Only the block's own cells matter to what it holds. -/
theorem Mem.Holds.congr {m m' : Mem α} {a : Int} {bs : List α} (h : m.Holds a bs)
    (hsame : ∀ b, a ≤ b → b < a + bs.length → m'.cell b = m.cell b) :
    m'.Holds a bs := by
  induction bs generalizing a with
  | nil => trivial
  | cons x xs ih =>
      simp only [List.length_cons] at hsame
      refine ⟨?_, ih h.2 (fun b hlo hhi => hsame b (by omega) (by push_cast; omega))⟩
      rw [hsame a (by omega) (by push_cast; omega)]
      exact h.1

/-- A block copied `d` cells up holds there what it held before. -/
theorem Mem.Holds.moved {m m' : Mem α} {a : Int} {bs : List α} (h : m.Holds a bs) (d : Int)
    (hcopy : ∀ b, a ≤ b → b < a + bs.length → m'.cell (b + d) = m.cell b) :
    m'.Holds (a + d) bs := by
  induction bs generalizing a with
  | nil => trivial
  | cons x xs ih =>
      simp only [List.length_cons] at hcopy
      have hrest := ih h.2 (fun b hlo hhi => hcopy b (by omega) (by push_cast; omega))
      refine ⟨?_, ?_⟩
      · rw [hcopy a (by omega) (by push_cast; omega)]
        exact h.1
      · rwa [add_right_comm] at hrest

/-- A store outside a block leaves what it holds alone. -/
theorem Mem.Holds.store_outside {m : Mem α} {a b : Int} {bs : List α} (h : m.Holds a bs)
    (v : α) (hout : b < a ∨ a + bs.length ≤ b) : (m.store b v).Holds a bs :=
  h.congr (fun c hlo hhi => m.store_cell_ne v (by omega))

/-- A store just past a block extends it. -/
theorem Mem.Holds.store_end {m : Mem α} {a : Int} {bs : List α} (h : m.Holds a bs) (v : α) :
    (m.store (a + bs.length) v).Holds a (bs ++ [v]) := by
  rw [Mem.holds_append]
  exact ⟨h.store_outside v (Or.inr le_rfl), by simp⟩

/-- Two lists of one length held by one block are equal. -/
theorem Mem.Holds.unique {m : Mem α} {a : Int} {xs ys : List α} (hx : m.Holds a xs)
    (hy : m.Holds a ys) (hlen : xs.length = ys.length) : xs = ys := by
  rw [Mem.holds_iff_take] at hx hy
  rw [← hx, ← hy, hlen]

/-! ## Storing a block -/

/-- Store a list from address `a` up. -/
def Mem.write (m : Mem α) : Int → List α → Mem α
  | _, [] => m
  | a, b :: bs => (m.store a b).write (a + 1) bs

@[simp] theorem Mem.write_nil (m : Mem α) (a : Int) : m.write a [] = m := rfl

/-- A stored block leaves the cells outside it alone. -/
theorem Mem.write_cell_outside (m : Mem α) (a : Int) (bs : List α) {b : Int}
    (hout : b < a ∨ a + bs.length ≤ b) : (m.write a bs).cell b = m.cell b := by
  induction bs generalizing m a with
  | nil => rfl
  | cons x xs ih =>
      simp only [List.length_cons] at hout
      push_cast at hout
      rw [Mem.write, ih _ _ (by omega), Mem.store_cell_ne m x (by omega)]

/-- What is written is held. -/
theorem Mem.write_holds (m : Mem α) (a : Int) (bs : List α) : (m.write a bs).Holds a bs := by
  induction bs generalizing m a with
  | nil => trivial
  | cons x xs ih =>
      refine ⟨?_, ih _ _⟩
      rw [Mem.write, Mem.write_cell_outside _ _ _ (Or.inl (by omega)), Mem.store_cell_same]

/-- Storing a block touches its own addresses only. -/
theorem Mem.write_stored (m : Mem α) (a : Int) (bs : List α) {b : Int}
    (h : b ∈ (m.write a bs).stored) : b ∈ m.stored ∨ a ≤ b ∧ b < a + bs.length := by
  induction bs generalizing m a with
  | nil => exact Or.inl h
  | cons x xs ih =>
      rw [List.length_cons]
      rcases ih (m.store a x) (a + 1) h with hfirst | hrest
      · rcases List.mem_cons.mp hfirst with rfl | hold
        · exact Or.inr (by omega)
        · exact Or.inl hold
      · exact Or.inr (by omega)

/-- Every address of the block is touched. -/
theorem Mem.mem_write_stored (m : Mem α) (a : Int) (bs : List α) {b : Int} :
    b ∈ (m.write a bs).stored ↔ b ∈ m.stored ∨ a ≤ b ∧ b < a + bs.length := by
  refine ⟨m.write_stored a bs, ?_⟩
  induction bs generalizing m a with
  | nil =>
      intro h
      rcases h with hbefore | hblock
      · exact hbefore
      · simp only [List.length_nil] at hblock
        omega
  | cons x xs ih =>
      intro h
      refine ih (m.store a x) (a + 1) ?_
      rcases h with hbefore | hblock
      · exact Or.inl (List.mem_cons_of_mem _ hbefore)
      · rw [List.length_cons] at hblock
        push_cast at hblock
        rcases Int.lt_or_eq_of_le hblock.1 with hlater | rfl
        · exact Or.inr (by omega)
        · exact Or.inl List.mem_cons_self

/-- Blocks stored one behind the other are one block. -/
theorem Mem.write_append (m : Mem α) (a : Int) (xs ys : List α) :
    m.write a (xs ++ ys) = (m.write a xs).write (a + xs.length) ys := by
  induction xs generalizing m a with
  | nil => simp
  | cons x xs ih =>
      have haddr : a + 1 + (xs.length : Int) = a + ((x :: xs).length : Int) := by
        rw [List.length_cons]
        push_cast
        ring
      rw [List.cons_append, Mem.write, ih, haddr]
      rfl

/-- A block written back over itself changes nothing. -/
theorem Mem.write_take_cell (m : Mem α) (a : Int) (n : Nat) (b : Int) :
    (m.write a (m.take a n)).cell b = m.cell b := by
  by_cases hin : a ≤ b ∧ b < a + n
  · obtain ⟨k, rfl⟩ : ∃ k : Nat, b = a + k := ⟨(b - a).toNat, by omega⟩
    have hk : k < (m.take a n).length := by
      rw [Mem.take_length]
      omega
    rw [(m.write_holds a (m.take a n)).cell_eq hk, (m.holds_take a n).cell_eq hk]
  · apply Mem.write_cell_outside
    rw [Mem.take_length]
    omega

/-- A block stored elsewhere leaves what a block holds alone. -/
theorem Mem.Holds.write_outside {m : Mem α} {a b : Int} {bs : List α} (h : m.Holds a bs)
    (xs : List α) (hout : b + xs.length ≤ a ∨ a + bs.length ≤ b) :
    (m.write b xs).Holds a bs :=
  h.congr (fun c hlo hhi => m.write_cell_outside b xs (by omega))

/-! ### Blocks in different places -/

/-- Store one block after the other, each where it says. -/
def Mem.writes (m : Mem α) : List (Int × List α) → Mem α
  | [] => m
  | block :: blocks => (m.write block.1 block.2).writes blocks

/-- Two blocks have no address in common. -/
def BlocksApart (b c : Int × List α) : Prop :=
  c.1 + c.2.length ≤ b.1 ∨ b.1 + b.2.length ≤ c.1

/-- Blocks stored elsewhere leave what a block holds alone. -/
theorem Mem.Holds.writes_outside {m : Mem α} {b : Int × List α} (h : m.Holds b.1 b.2)
    {blocks : List (Int × List α)} (hout : ∀ c ∈ blocks, BlocksApart b c) :
    (m.writes blocks).Holds b.1 b.2 := by
  induction blocks generalizing m with
  | nil => exact h
  | cons c blocks ih =>
      exact ih (h.write_outside c.2 (hout c List.mem_cons_self))
        fun d hd => hout d (List.mem_cons_of_mem _ hd)

/-- The addresses touched are those of the blocks. -/
theorem Mem.mem_writes_stored (m : Mem α) (blocks : List (Int × List α)) {a : Int} :
    a ∈ (m.writes blocks).stored ↔
      a ∈ m.stored ∨ ∃ b ∈ blocks, b.1 ≤ a ∧ a < b.1 + b.2.length := by
  induction blocks generalizing m with
  | nil => simp [Mem.writes]
  | cons b blocks ih =>
      rw [Mem.writes, ih, Mem.mem_write_stored, or_assoc]
      simp only [List.mem_cons, exists_eq_or_imp]

/-- **Of blocks apart from each other, every one is held in the end.** -/
theorem Mem.writes_holds (m : Mem α) {blocks : List (Int × List α)}
    (hapart : blocks.Pairwise BlocksApart) : ∀ b ∈ blocks, (m.writes blocks).Holds b.1 b.2 := by
  induction hapart generalizing m with
  | nil => exact fun b hb => absurd hb List.not_mem_nil
  | @cons c blocks hc _ ih =>
      intro b hb
      rcases List.mem_cons.mp hb with rfl | hb
      · exact (m.write_holds b.1 b.2).writes_outside hc
      · exact ih (m.write c.1 c.2) b hb

end TracedMemory
