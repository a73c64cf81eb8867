import Mathlib.Data.Finset.Max
import Mathlib.Data.Finset.Disjoint

/-!
# Descriptors

A process numbers what it has open, files and sockets alike: an opening takes the lowest
number that is free, and there are as many numbers as its limit allows.  What a program
leaves open stays in its table for good.

A part of a program owns the numbers that it has opened itself and keeps away from the
others (`Keeps`).  Each opening and closing then moves one number, and every count follows
from these moves.
-/

namespace Descriptors

/-- The numbers in use, all of them below the limit. -/
structure Table (limit : ℕ) where
  opened : Finset ℕ
  below : ∀ fd ∈ opened, fd < limit

namespace Table

variable {limit : ℕ}

/-- Tables with the same descriptors open are the same. -/
@[ext] theorem ext {s t : Table limit} (h : s.opened = t.opened) : s = t := by
  cases s
  cases t
  cases h
  rfl

/-- The numbers that are free. -/
def free (t : Table limit) : Finset ℕ := (Finset.range limit).filter (· ∉ t.opened)

/-- A descriptor is free below the limit unless it is open. -/
theorem mem_free {t : Table limit} {fd : ℕ} : fd ∈ t.free ↔ fd < limit ∧ fd ∉ t.opened := by
  rw [free, Finset.mem_filter, Finset.mem_range]

/-- What is open is below the limit. -/
theorem opened_subset (t : Table limit) : t.opened ⊆ Finset.range limit :=
  fun fd hfd => Finset.mem_range.mpr (t.below fd hfd)

/-- So no more than that are open. -/
theorem card_le (t : Table limit) : t.opened.card ≤ limit := by
  have hcard := Finset.card_le_card t.opened_subset
  rwa [Finset.card_range] at hcard

/-- A number is free as long as fewer are in use than the limit allows. -/
theorem free_nonempty_iff (t : Table limit) : t.free.Nonempty ↔ t.opened.card < limit := by
  constructor
  · intro hfree
    obtain ⟨fd, hfd⟩ := hfree
    obtain ⟨hlt, hnew⟩ := mem_free.mp hfd
    have hstrict : t.opened ⊂ Finset.range limit :=
      (Finset.ssubset_iff_of_subset t.opened_subset).mpr ⟨fd, Finset.mem_range.mpr hlt, hnew⟩
    have hcard := Finset.card_lt_card hstrict
    rwa [Finset.card_range] at hcard
  · intro hroom
    have hcard : t.opened.card < (Finset.range limit).card := by
      rwa [Finset.card_range]
    obtain ⟨fd, hlt, hnew⟩ := Finset.exists_mem_notMem_of_card_lt_card hcard
    exact ⟨fd, mem_free.mpr ⟨Finset.mem_range.mp hlt, hnew⟩⟩

/-- And fewer while one is free. -/
theorem card_lt_of_free {t : Table limit} {fd : ℕ} (lt : fd < limit) (new : fd ∉ t.opened) :
    t.opened.card < limit :=
  t.free_nonempty_iff.mp ⟨fd, mem_free.mpr ⟨lt, new⟩⟩

/-- The table with one more number in use. -/
def take (t : Table limit) (fd : ℕ) (h : fd < limit) : Table limit where
  opened := insert fd t.opened
  below k hk := by
    rcases Finset.mem_insert.mp hk with rfl | hk
    · exact h
    · exact t.below k hk

/-- `open` and `socket`: the lowest free number, or -1. -/
def openNext (t : Table limit) : Int × Table limit :=
  if h : t.free.Nonempty then
    (t.free.min' h, t.take (t.free.min' h) (mem_free.mp (t.free.min'_mem h)).1)
  else (-1, t)

/-- `close`; closing what is not open does nothing. -/
def close (t : Table limit) (fd : Int) : Table limit where
  opened := t.opened.filter fun k => (k : Int) ≠ fd
  below k hk := t.below k (Finset.mem_of_mem_filter k hk)

/-- Taking a descriptor opens that one. -/
@[simp] theorem opened_take (t : Table limit) {fd : ℕ} (h : fd < limit) :
    (t.take fd h).opened = insert fd t.opened := rfl

/-- What an opening can do. -/
inductive Opens (t : Table limit) : Int × Table limit → Prop where
  | full (h : t.opened.card = limit) : Opens t (-1, t)
  | lowest (fd : ℕ) (lt : fd < limit) (new : fd ∉ t.opened) (least : ∀ k < fd, k ∈ t.opened) :
      Opens t (fd, t.take fd lt)

/-- What `openNext` gives is what opening may give. -/
theorem openNext_opens (t : Table limit) : t.Opens t.openNext := by
  unfold openNext
  split
  · rename_i hfree
    obtain ⟨hlt, hnew⟩ := mem_free.mp (t.free.min'_mem hfree)
    refine .lowest _ hlt hnew fun k hk => ?_
    by_contra hout
    have hle := t.free.min'_le k (mem_free.mpr ⟨hk.trans hlt, hout⟩)
    exact absurd hk (Nat.not_lt.mpr hle)
  · rename_i hfull
    refine .full (le_antisymm t.card_le ?_)
    exact Nat.le_of_not_lt (mt t.free_nonempty_iff.mpr hfull)

/-- Closing a descriptor leaves the others open. -/
theorem close_natCast (t : Table limit) (fd : ℕ) :
    (t.close fd).opened = t.opened.erase fd := by
  ext k
  rw [close, Finset.mem_filter, Finset.mem_erase, and_comm, ne_eq, Int.natCast_inj]

/-- Closing one that is not open does nothing. -/
theorem close_of_notMem {t : Table limit} {fd : ℕ} (h : fd ∉ t.opened) : t.close fd = t := by
  apply Table.ext
  rw [close_natCast, Finset.erase_eq_of_notMem h]

/-- And so does closing what no descriptor is. -/
theorem close_neg (t : Table limit) {fd : Int} (h : fd < 0) : t.close fd = t :=
  Table.ext (Finset.filter_true_of_mem fun k _ => by omega)

/-- What was just opened is closed again. -/
theorem close_take {t : Table limit} {fd : ℕ} (lt : fd < limit) (new : fd ∉ t.opened) :
    (t.take fd lt).close fd = t := by
  apply Table.ext
  rw [close_natCast]
  exact Finset.erase_insert new

end Table

/-! ## What a program owns -/

variable {limit : ℕ}

/-- The numbers in use are a program's own and those of others. -/
structure Keeps (t : Table limit) (others own : Finset ℕ) : Prop where
  opened : t.opened = others ∪ own
  disjoint : Disjoint others own

namespace Keeps

variable {t : Table limit} {others own : Finset ℕ}

/-- Each is one of the others to the other. -/
theorem symm (h : Keeps t others own) : Keeps t own others where
  opened := by
    rw [h.opened, Finset.union_comm]
  disjoint := h.disjoint.symm

/-- What is open is counted in two parts. -/
theorem card (h : Keeps t others own) : t.opened.card = others.card + own.card := by
  rw [h.opened, Finset.card_union_of_disjoint h.disjoint]

/-- So the two parts are within the limit. -/
theorem card_le (h : Keeps t others own) : others.card + own.card ≤ limit := by
  rw [← h.card]
  exact t.card_le

/-- One's own descriptors are open. -/
theorem mem (h : Keeps t others own) {fd : ℕ} (hfd : fd ∈ own) : fd ∈ t.opened := by
  rw [h.opened]
  exact Finset.mem_union_right others hfd

/-- And are not among the others. -/
theorem notMem_others (h : Keeps t others own) {fd : ℕ} (hfd : fd ∈ own) : fd ∉ others :=
  Finset.disjoint_right.mp h.disjoint hfd

/-- A number taken is a program's own. -/
theorem take (h : Keeps t others own) {fd : ℕ} (lt : fd < limit) (new : fd ∉ t.opened) :
    Keeps (t.take fd lt) others (insert fd own) where
  opened := by
    rw [Table.opened_take, h.opened, Finset.union_insert]
  disjoint := by
    rw [h.opened, Finset.notMem_union] at new
    exact Finset.disjoint_insert_right.mpr ⟨new.1, h.disjoint⟩

/-- Closing one's own leaves those of others. -/
theorem close (h : Keeps t others own) {fd : ℕ} (hfd : fd ∈ own) :
    Keeps (t.close fd) others (own.erase fd) where
  opened := by
    rw [Table.close_natCast, h.opened, Finset.erase_union_distrib,
      Finset.erase_eq_of_notMem (h.notMem_others hfd)]
  disjoint := h.disjoint.mono_right (Finset.erase_subset fd own)

/-- Both of two are closed. -/
theorem closePair {a b : ℕ} (h : Keeps t others {a, b}) (hne : a ≠ b) :
    Keeps ((t.close a).close b) others ∅ := by
  have hfirst := h.close (Finset.mem_insert_self a {b})
  rw [Finset.erase_insert (by simpa using hne)] at hfirst
  have hsecond := hfirst.close (Finset.mem_singleton_self b)
  rwa [Finset.erase_singleton] at hsecond

/-- With room an opening succeeds. -/
theorem openNext (h : Keeps t others own) (hroom : others.card + own.card < limit) :
    ∃ fd : ℕ, t.openNext.1 = fd ∧ fd ∉ own ∧ Keeps t.openNext.2 others (insert fd own) := by
  rw [← h.card] at hroom
  have hopens := t.openNext_opens
  generalize t.openNext = r at hopens
  cases hopens with
  | full hfull => exact absurd hfull hroom.ne
  | lowest fd lt new least => exact ⟨fd, rfl, fun hfd => new (h.mem hfd), h.take lt new⟩

end Keeps

end Descriptors
