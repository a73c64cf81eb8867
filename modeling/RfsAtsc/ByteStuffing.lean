import Mathlib.Data.List.Basic

/-!
# Byte stuffing

A stuffing code reserves one symbol as a flag and one as an escape.  A flag or
an escape inside a message travels as the escape followed by a stand-in, and
every other symbol travels as itself.  `unstuff` is the strict inverse: it
refuses a raw flag, an escape in front of anything but a stand-in and an escape
at the very end, so that it accepts exactly the stuffed lists
(`unstuff_eq_some_iff`).
-/

namespace ByteStuffing

/-- The reserved symbols of a stuffing code and the stand-ins sent for them. -/
structure Code (α : Type) where
  flag : α
  esc : α
  escFlag : α
  escEsc : α
  esc_ne_flag : esc ≠ flag
  escFlag_ne_flag : escFlag ≠ flag
  escEsc_ne_flag : escEsc ≠ flag
  escEsc_ne_escFlag : escEsc ≠ escFlag

variable {α : Type} [DecidableEq α] (c : Code α)

/-- Neither reserved symbol: travels as itself. -/
def Code.Plain (b : α) : Prop := b ≠ c.flag ∧ b ≠ c.esc

instance (b : α) : Decidable (c.Plain b) := inferInstanceAs (Decidable (_ ∧ _))

/-- One symbol as it travels. -/
def stuffByte (b : α) : List α :=
  if b = c.flag then [c.esc, c.escFlag]
  else if b = c.esc then [c.esc, c.escEsc]
  else [b]

/-- A message as it travels between its flags. -/
def stuff (bs : List α) : List α := bs.flatMap (stuffByte c)

/-- The message a travelling list stands for, if it is one. -/
def unstuff : List α → Option (List α)
  | [] => some []
  | b :: bs =>
      if b = c.flag then none
      else if b = c.esc then
        match bs with
        | [] => none
        | e :: bs =>
            if e = c.escFlag then (unstuff bs).map (c.flag :: ·)
            else if e = c.escEsc then (unstuff bs).map (c.esc :: ·)
            else none
      else (unstuff bs).map (b :: ·)

@[simp] theorem stuffByte_flag : stuffByte c c.flag = [c.esc, c.escFlag] := by
  simp [stuffByte]

@[simp] theorem stuffByte_esc : stuffByte c c.esc = [c.esc, c.escEsc] := by
  simp [stuffByte, c.esc_ne_flag]

/-- A plain symbol travels as itself. -/
theorem stuffByte_plain {b : α} (h : c.Plain b) : stuffByte c b = [b] := by
  simp [stuffByte, h.1, h.2]

@[simp] theorem stuff_nil : stuff c [] = [] := rfl

@[simp] theorem stuff_cons (b : α) (bs : List α) :
    stuff c (b :: bs) = stuffByte c b ++ stuff c bs := rfl

@[simp] theorem stuff_append (xs ys : List α) :
    stuff c (xs ++ ys) = stuff c xs ++ stuff c ys :=
  List.flatMap_append

/-- A stuffed list carries no raw flag. -/
theorem flag_not_mem_stuff (bs : List α) : c.flag ∉ stuff c bs := by
  induction bs with
  | nil => simp
  | cons b bs ih =>
      rw [stuff_cons, List.mem_append, not_or]
      refine ⟨?_, ih⟩
      unfold stuffByte
      split
      · simp [c.esc_ne_flag.symm, c.escFlag_ne_flag.symm]
      · rename_i hb
        split
        · simp [c.esc_ne_flag.symm, c.escEsc_ne_flag.symm]
        · simpa using Ne.symm hb

/-- A plain symbol is taken as itself. -/
theorem unstuff_plain_cons {b : α} (h : c.Plain b) (rest : List α) :
    unstuff c (b :: rest) = (unstuff c rest).map (b :: ·) := by
  cases rest <;> simp [unstuff, h.1, h.2]

/-- The strict reader takes one stuffed symbol off the front. -/
theorem unstuff_stuffByte_append (b : α) (rest : List α) :
    unstuff c (stuffByte c b ++ rest) = (unstuff c rest).map (b :: ·) := by
  by_cases hf : b = c.flag
  · subst hf
    simp [unstuff, c.esc_ne_flag]
  · by_cases he : b = c.esc
    · subst he
      simp [unstuff, c.esc_ne_flag, c.escEsc_ne_escFlag]
    · rw [stuffByte_plain c ⟨hf, he⟩, List.singleton_append, unstuff_plain_cons c ⟨hf, he⟩]

/-- **Round trip.**  Unstuffing undoes stuffing. -/
@[simp] theorem unstuff_stuff (bs : List α) : unstuff c (stuff c bs) = some bs := by
  induction bs with
  | nil => rfl
  | cons b bs ih => rw [stuff_cons, unstuff_stuffByte_append, ih]; rfl

/-- **Canonical form.**  The strict reader accepts a list only as the stuffed
form of what it returns. -/
theorem stuff_of_unstuff {s bs : List α} (h : unstuff c s = some bs) : stuff c bs = s := by
  fun_induction unstuff c s generalizing bs with
  | case1 => simp_all
  | case2 => simp at h
  | case3 => simp at h
  | case4 rest hne ih =>
      obtain ⟨xs, hxs, rfl⟩ := Option.map_eq_some_iff.mp h
      simp [ih hxs]
  | case5 rest hne hstand ih =>
      obtain ⟨xs, hxs, rfl⟩ := Option.map_eq_some_iff.mp h
      simp [ih hxs]
  | case6 => simp at h
  | case7 b rest hflag hesc ih =>
      obtain ⟨xs, hxs, rfl⟩ := Option.map_eq_some_iff.mp h
      simp [stuffByte_plain c ⟨hflag, hesc⟩, ih hxs]

/-- **The strict reader accepts the stuffed lists and no others.** -/
theorem unstuff_eq_some_iff {s bs : List α} : unstuff c s = some bs ↔ s = stuff c bs :=
  ⟨fun h => (stuff_of_unstuff c h).symm, fun h => h ▸ unstuff_stuff c bs⟩

/-- A message does not get shorter. -/
theorem length_le_stuff (bs : List α) : bs.length ≤ (stuff c bs).length := by
  induction bs with
  | nil => simp
  | cons b bs ih =>
      rw [stuff_cons, List.length_append, List.length_cons]
      have hone : 1 ≤ (stuffByte c b).length := by
        unfold stuffByte
        split
        · simp
        · split <;> simp
      omega

/-- It gets twice as long at most. -/
theorem stuff_length_le (bs : List α) : (stuff c bs).length ≤ 2 * bs.length := by
  induction bs with
  | nil => simp
  | cons b bs ih =>
      rw [stuff_cons, List.length_append, List.length_cons]
      have htwo : (stuffByte c b).length ≤ 2 := by
        unfold stuffByte
        split
        · simp
        · split <;> simp
      omega

/-- A message of plain symbols travels as itself. -/
theorem stuff_eq_self {bs : List α} (h : ∀ b ∈ bs, c.Plain b) : stuff c bs = bs := by
  induction bs with
  | nil => rfl
  | cons b bs ih =>
      rw [stuff_cons, stuffByte_plain c (h b List.mem_cons_self),
        ih (fun x hx => h x (List.mem_cons_of_mem _ hx))]
      rfl

/-- Stuffing lengthens a message unless every symbol of it is plain. -/
theorem plain_of_stuff_length {bs : List α} (h : (stuff c bs).length = bs.length) :
    ∀ b ∈ bs, c.Plain b := by
  induction bs with
  | nil => simp
  | cons b bs ih =>
      rw [stuff_cons, List.length_append, List.length_cons] at h
      have htail := length_le_stuff c bs
      have hplain : c.Plain b := by
        unfold stuffByte at h
        split at h
        · simp only [List.length_cons, List.length_nil] at h
          omega
        · rename_i hf
          split at h
          · simp only [List.length_cons, List.length_nil] at h
            omega
          · rename_i he
            exact ⟨hf, he⟩
      rw [stuffByte_plain c hplain] at h
      intro x hx
      rcases List.mem_cons.mp hx with rfl | hx
      · exact hplain
      · exact ih (by simpa [Nat.add_comm] using h) x hx

/-! ## Where a reader stops -/

/-- What can stop a reader between two symbols: the end of what was sent, a
flag, or an escape that is cut off or in front of no stand-in. -/
def Stops (tail : List α) : Prop :=
  tail = [] ∨ tail = [c.esc] ∨ (∃ rest, tail = c.flag :: rest) ∨
    ∃ z rest, tail = c.esc :: z :: rest ∧ z ≠ c.escFlag ∧ z ≠ c.escEsc

/-- A list without a stop at its front starts with a stuffed symbol. -/
theorem stuffed_of_not_stops {u : List α} (h : ¬ Stops c u) :
    ∃ b v, u = stuffByte c b ++ v := by
  simp only [Stops, not_or, not_exists, not_and] at h
  obtain ⟨hnil, hcut, hflag, hstand⟩ := h
  rcases u with _ | ⟨b, _ | ⟨z, v⟩⟩
  · exact absurd rfl hnil
  · refine ⟨b, [], ?_⟩
    rw [stuffByte_plain c ⟨?_, ?_⟩]
    · rfl
    · intro heq
      subst heq
      exact hflag [] rfl
    · intro heq
      subst heq
      exact hcut rfl
  · by_cases hb : b = c.esc
    · subst hb
      by_cases hz : z = c.escFlag
      · subst hz
        exact ⟨c.flag, v, by simp⟩
      · have hesc : z = c.escEsc := not_not.mp (hstand z v rfl hz)
        subst hesc
        exact ⟨c.esc, v, by simp⟩
    · refine ⟨b, z :: v, ?_⟩
      rw [stuffByte_plain c ⟨?_, hb⟩]
      · rfl
      · intro heq
        subst heq
        exact hflag _ rfl

/-- Every list is a stuffed stretch up to a given length followed by what comes
then, or a shorter one followed by a stop. -/
theorem exists_stuff_prefix (n : Nat) (u : List α) :
    ∃ xs tail, u = stuff c xs ++ tail ∧
      (xs.length = n ∨ xs.length < n ∧ Stops c tail) := by
  induction n generalizing u with
  | zero => exact ⟨[], u, rfl, Or.inl rfl⟩
  | succ n ih =>
      by_cases hstop : Stops c u
      · exact ⟨[], u, rfl, Or.inr ⟨Nat.succ_pos n, hstop⟩⟩
      · obtain ⟨b, v, rfl⟩ := stuffed_of_not_stops c hstop
        obtain ⟨xs, tail, rfl, hend⟩ := ih v
        refine ⟨b :: xs, tail, by simp, ?_⟩
        rcases hend with hlen | ⟨hlen, hstop⟩
        · exact Or.inl (by simpa using hlen)
        · exact Or.inr ⟨by simpa using hlen, hstop⟩

end ByteStuffing
