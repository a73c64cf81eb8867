import RfsAtsc.TracedMemory
import Mathlib.Tactic.Linarith

/-!
# Swapping fields in place

A record in memory changes its byte order by turning round some of its fields where
they lie.  Fields that are apart do not meet, so turning the same fields round twice
gives the record back: `Swapped m base fs bs` says that the memory holds the list once
the fields are turned round, and a record that was stored and swapped is so.
-/

namespace TracedMemory

variable {α : Type}

/-- Turn the block of `n` cells from `a` up round, in place. -/
def Mem.turn (m : Mem α) (a : Int) (n : Nat) : Mem α := m.write a (m.take a n).reverse

theorem Mem.cell_take (m : Mem α) (a : Int) (n k : Nat) (hk : k < n) :
    (m.take a n)[k]? = some (m.cell (a + k)) := by
  have hlen : k < (m.take a n).length := by
    rw [Mem.take_length]
    exact hk
  rw [List.getElem?_eq_getElem hlen, ← (m.holds_take a n).cell_eq hlen]

/-- Inside the block each cell is its mirror image; outside nothing changes. -/
theorem Mem.turn_cell (m : Mem α) (a : Int) (n : Nat) (b : Int) :
    (m.turn a n).cell b = if a ≤ b ∧ b < a + n then m.cell (2 * a + n - 1 - b) else m.cell b := by
  have hlen : ((m.take a n).reverse).length = n := by
    rw [List.length_reverse, Mem.take_length]
  split
  · rename_i hin
    obtain ⟨k, hk⟩ := Int.eq_ofNat_of_zero_le (show 0 ≤ b - a by omega)
    have hkn : k < n := by omega
    have hread := (m.write_holds a (m.take a n).reverse).cell_eq (by rw [hlen]; exact hkn)
    have hmirror : (m.take a n).reverse[k]? = some (m.cell (a + ((n - 1 - k : Nat) : Int))) := by
      rw [List.getElem?_reverse (by rw [Mem.take_length]; exact hkn), Mem.take_length]
      exact m.cell_take a n _ (by omega)
    rw [List.getElem?_eq_getElem (by rw [hlen]; exact hkn)] at hmirror
    have haddr : b = a + (k : Int) := by omega
    have hsource : 2 * a + (n : Int) - 1 - b = a + ((n - 1 - k : Nat) : Int) := by omega
    rw [hsource, haddr, Mem.turn, hread, Option.some.inj hmirror]
  · exact m.write_cell_outside a _ (by rw [hlen]; omega)

/-! ## Several fields -/

/-- A field: its offset in the record, and how many cells it has. -/
abbrev CellSpan := Nat × Nat

/-- Two fields have no cell in common. -/
def Apart (f g : CellSpan) : Prop := f.1 + f.2 ≤ g.1 ∨ g.1 + g.2 ≤ f.1

instance (f g : CellSpan) : Decidable (Apart f g) := inferInstanceAs (Decidable (_ ∨ _))

/-- Turn the fields of the record at `base` round, one after the other. -/
def Mem.swapFields (m : Mem α) (base : Int) (fs : List CellSpan) : Mem α :=
  fs.foldl (fun m f => m.turn (base + f.1) f.2) m

/-- The offset lies in the field. -/
def CellSpan.Has (f : CellSpan) (k : Int) : Prop := (f.1 : Int) ≤ k ∧ k < f.1 + f.2

instance (f : CellSpan) (k : Int) : Decidable (f.Has k) := inferInstanceAs (Decidable (_ ∧ _))

/-- The mirror image of an offset in a field. -/
def CellSpan.mirror (f : CellSpan) (k : Int) : Int := 2 * f.1 + f.2 - 1 - k

theorem CellSpan.has_mirror {f : CellSpan} {k : Int} (h : f.Has k) : f.Has (f.mirror k) := by
  obtain ⟨hlow, hhigh⟩ := h
  exact ⟨by rw [CellSpan.mirror]; omega, by rw [CellSpan.mirror]; omega⟩

theorem CellSpan.mirror_mirror (f : CellSpan) (k : Int) : f.mirror (f.mirror k) = k := by
  simp only [CellSpan.mirror]
  omega

/-- A cell in none of the fields stays. -/
theorem Mem.swapFields_cell_outside (m : Mem α) (base : Int) {fs : List CellSpan} {k : Int}
    (hout : ∀ f ∈ fs, ¬ f.Has k) : (m.swapFields base fs).cell (base + k) = m.cell (base + k) := by
  induction fs generalizing m with
  | nil => rfl
  | cons f fs ih =>
      have hfirst : ¬ (base + (f.1 : Int) ≤ base + k ∧ base + k < base + f.1 + f.2) := by
        intro h
        exact hout f List.mem_cons_self ⟨by omega, by omega⟩
      rw [Mem.swapFields, List.foldl_cons]
      refine (ih (m.turn (base + f.1) f.2) fun g hg => hout g (List.mem_cons_of_mem f hg)).trans ?_
      rw [Mem.turn_cell, if_neg hfirst]

/-- A cell in one of the fields, which are apart, is its mirror image there. -/
theorem Mem.swapFields_cell (m : Mem α) (base : Int) {fs : List CellSpan}
    (hapart : fs.Pairwise Apart) {f : CellSpan} (hf : f ∈ fs) {k : Int} (hk : f.Has k) :
    (m.swapFields base fs).cell (base + k) = m.cell (base + f.mirror k) := by
  induction fs generalizing m with
  | nil => exact absurd hf List.not_mem_nil
  | cons g fs ih =>
      rw [List.pairwise_cons] at hapart
      rw [Mem.swapFields, List.foldl_cons]
      rcases List.mem_cons.mp hf with heq | hrest
      · subst heq
        have hout : ∀ g ∈ fs, ¬ g.Has k := by
          intro g hg hgk
          obtain ⟨hlow, hhigh⟩ := hk
          obtain ⟨hlow', hhigh'⟩ := hgk
          rcases hapart.1 g hg with h | h
          · omega
          · omega
        refine (Mem.swapFields_cell_outside _ base hout).trans ?_
        obtain ⟨hlow, hhigh⟩ := hk
        have haddr : 2 * (base + (f.1 : Int)) + f.2 - 1 - (base + k) = base + f.mirror k := by
          rw [CellSpan.mirror]
          omega
        rw [Mem.turn_cell, if_pos ⟨by omega, by omega⟩, haddr]
      · have hmirror := CellSpan.has_mirror hk
        have hout : ¬ (base + (g.1 : Int) ≤ base + f.mirror k ∧
            base + f.mirror k < base + g.1 + g.2) := by
          intro h
          obtain ⟨hlow, hhigh⟩ := hmirror
          rcases hapart.1 f hrest with happart | happart
          · omega
          · omega
        refine (ih (m.turn (base + g.1) g.2) hapart.2 hrest).trans ?_
        rw [Mem.turn_cell, if_neg hout]

/-- The fields lie in a record of `n` cells. -/
def Within (fs : List CellSpan) (n : Nat) : Prop := ∀ f ∈ fs, f.1 + f.2 ≤ n

instance (fs : List CellSpan) (n : Nat) : Decidable (Within fs n) :=
  inferInstanceAs (Decidable (∀ f ∈ fs, _))

/-- Only the record changes. -/
theorem Mem.swapFields_cell_beyond (m : Mem α) (base : Int) {fs : List CellSpan} {n : Nat}
    (hwithin : Within fs n) {b : Int} (hout : b < base ∨ base + n ≤ b) :
    (m.swapFields base fs).cell b = m.cell b := by
  have haddr : b = base + (b - base) := by omega
  rw [haddr]
  refine m.swapFields_cell_outside base fun f hf hk => ?_
  obtain ⟨hlow, hhigh⟩ := hk
  have hend := hwithin f hf
  omega

/-- The record's own cells decide what its swapped cells are. -/
theorem Mem.swapFields_cell_congr {m m' : Mem α} {base : Int} {fs : List CellSpan} {n : Nat}
    (hapart : fs.Pairwise Apart) (hwithin : Within fs n)
    (hsame : ∀ b, base ≤ b → b < base + n → m'.cell b = m.cell b) {b : Int} (hlow : base ≤ b)
    (hhigh : b < base + n) : (m'.swapFields base fs).cell b = (m.swapFields base fs).cell b := by
  have haddr : b = base + (b - base) := by omega
  rw [haddr]
  by_cases hin : ∃ f ∈ fs, f.Has (b - base)
  · obtain ⟨f, hf, hk⟩ := hin
    have hend := hwithin f hf
    obtain ⟨hmlow, hmhigh⟩ := CellSpan.has_mirror hk
    rw [m'.swapFields_cell base hapart hf hk, m.swapFields_cell base hapart hf hk]
    exact hsame _ (by omega) (by omega)
  · have hout : ∀ f ∈ fs, ¬ f.Has (b - base) := fun f hf hk => hin ⟨f, hf, hk⟩
    rw [m'.swapFields_cell_outside base hout, m.swapFields_cell_outside base hout]
    exact hsame _ (by omega) (by omega)

/-- Swapping twice gives every cell back. -/
theorem Mem.swapFields_twice (m : Mem α) (base : Int) {fs : List CellSpan}
    (hapart : fs.Pairwise Apart) (b : Int) :
    ((m.swapFields base fs).swapFields base fs).cell b = m.cell b := by
  have haddr : b = base + (b - base) := by omega
  rw [haddr]
  by_cases hin : ∃ f ∈ fs, f.Has (b - base)
  · obtain ⟨f, hf, hk⟩ := hin
    rw [Mem.swapFields_cell _ base hapart hf hk,
      m.swapFields_cell base hapart hf (CellSpan.has_mirror hk), CellSpan.mirror_mirror]
  · have hout : ∀ f ∈ fs, ¬ f.Has (b - base) := fun f hf hk => hin ⟨f, hf, hk⟩
    rw [Mem.swapFields_cell_outside _ base hout, m.swapFields_cell_outside base hout]

/-! ## Swapped records -/

/-- The memory holds the list from `base` up, once the fields are turned round. -/
def Mem.Swapped (m : Mem α) (base : Int) (fs : List CellSpan) (bs : List α) : Prop :=
  (m.swapFields base fs).Holds base bs

/-- A list stored and swapped is held swapped. -/
theorem Mem.swapped_write_swapFields (m : Mem α) (base : Int) {fs : List CellSpan}
    (hapart : fs.Pairwise Apart) (bs : List α) :
    ((m.write base bs).swapFields base fs).Swapped base fs bs :=
  (m.write_holds base bs).congr fun b _ _ =>
    Mem.swapFields_twice (m.write base bs) base hapart b

/-- Only the record's own cells matter to what it holds swapped. -/
theorem Mem.Swapped.congr {m m' : Mem α} {base : Int} {fs : List CellSpan} {bs : List α}
    (h : m.Swapped base fs bs) (hapart : fs.Pairwise Apart) (hwithin : Within fs bs.length)
    (hsame : ∀ b, base ≤ b → b < base + bs.length → m'.cell b = m.cell b) :
    m'.Swapped base fs bs :=
  Mem.Holds.congr h fun _ hlow hhigh =>
    Mem.swapFields_cell_congr hapart hwithin hsame hlow hhigh

end TracedMemory
