import RfsAtsc.ApproachConfig

/-!
# Approaches without stop lines

Behind an approach without stop lines the reader takes the next approach's own line for a
stop line.  From there it wants more rows than the file has left.  When they run out, an
approach or a stop line has not been read at all, and its tables hold what they did before.
-/

namespace RfsAtsc.Phases

open DecimalText

/-! ## Rows wanted -/

/-- The stop lines that the reader takes for an approach with `as` behind it. -/
def stopRows (a : Approach) (as : List Approach) : Nat :=
  if as = [] then a.stopLines.length else max 1 a.stopLines.length

/-- The rows that the reader takes for approaches. -/
def rowsWanted : List Approach → Nat
  | [] => 0
  | a :: as => 1 + stopRows a as + rowsWanted as

theorem length_rows (a : Approach) : a.rows.length = 1 + a.stopLines.length := by
  rw [Approach.rows, List.length_cons, List.length_map]
  omega

theorem length_le_stopRows (a : Approach) (as : List Approach) :
    a.stopLines.length ≤ stopRows a as := by
  unfold stopRows
  split
  · exact le_rfl
  · exact le_max_right _ _

theorem rows_le_rowsWanted (as : List Approach) :
    (as.flatMap Approach.rows).length ≤ rowsWanted as := by
  induction as with
  | nil => exact le_rfl
  | cons a as ih =>
      have hstop := length_le_stopRows a as
      rw [List.flatMap_cons, List.length_append, length_rows, rowsWanted]
      omega

/-- With an empty approach before the last there are fewer rows than the reader takes. -/
theorem rows_lt_rowsWanted {as : List Approach} (h : ∃ a ∈ as.dropLast, a.stopLines = []) :
    (as.flatMap Approach.rows).length < rowsWanted as := by
  induction as with
  | nil =>
      obtain ⟨a, ha, _⟩ := h
      exact absurd ha List.not_mem_nil
  | cons a as ih =>
      obtain ⟨b, hb, hempty⟩ := h
      rw [List.flatMap_cons, List.length_append, length_rows, rowsWanted]
      cases as with
      | nil => exact absurd hb List.not_mem_nil
      | cons a' as =>
          rw [List.dropLast_cons_of_ne_nil (List.cons_ne_nil _ _)] at hb
          rcases List.mem_cons.mp hb with rfl | hlater
          · have hrest := rows_le_rowsWanted (a' :: as)
            have hone : stopRows b (a' :: as) = max 1 b.stopLines.length :=
              if_neg (List.cons_ne_nil _ _)
            rw [hone, hempty, List.length_nil]
            omega
          · have hstop := length_le_stopRows a (a' :: as)
            have hrest := ih ⟨b, hlater, hempty⟩
            omega

/-! ## What is no longer written -/

/-- The row with the number of stop lines of approach `k` has been taken. -/
structure Counted (s : ApproachReader) (k : Int) : Prop where
  body : 5 < s.line
  past : k < s.i ∨ k = s.i ∧ s.stopLineStart = false

theorem Counted.step {s : ApproachReader} {k : Int} (h : Counted s k) (vs : List Int) :
    (rowTurn s vs).1.noStop k = s.noStop k ∧
      ((rowTurn s vs).2 = false → Counted (rowTurn s vs).1 k) := by
  have hline := Nat.lt_succ_of_lt h.body
  cases hflag : s.stopLineStart with
  | true =>
      have hpast : k < s.i := by
        rcases h.past with hpast | ⟨_, hfalse⟩
        · exact hpast
        · rw [hflag] at hfalse
          exact absurd hfalse (by decide)
      have hcount : (scanApproach s (vs.take 2)).noStop k = s.noStop k :=
        Function.update_of_ne hpast.ne _ _
      rw [rowTurn, approachTurn_approach h.body hflag]
      split
      · exact ⟨hcount, fun hgoes => Bool.noConfusion hgoes⟩
      · exact ⟨hcount, fun _ => ⟨hline, Or.inl hpast⟩⟩
  | false =>
      have hcount : (scanStopLine s (vs.take 4)).noStop k = s.noStop k ∧
          (k < (scanStopLine s (vs.take 4)).i ∨ k = (scanStopLine s (vs.take 4)).i ∧
            (scanStopLine s (vs.take 4)).stopLineStart = false) := by
        have hle : k ≤ s.i := by
          rcases h.past with hpast | ⟨heq, _⟩
          · exact hpast.le
          · exact heq.le
        unfold scanStopLine
        dsimp only
        split
        · exact ⟨rfl, Or.inl (Int.lt_add_one_of_le hle)⟩
        · refine ⟨rfl, ?_⟩
          rcases lt_or_eq_of_le hle with hlt | heq
          · exact Or.inl hlt
          · exact Or.inr ⟨heq, hflag⟩
      rw [rowTurn, approachTurn_stopLine h.body hflag]
      split
      · exact ⟨hcount.1, fun hgoes => Bool.noConfusion hgoes⟩
      · exact ⟨hcount.1, fun _ => ⟨hline, hcount.2⟩⟩

/-- A number of stop lines once read stays. -/
theorem Counted.run {s : ApproachReader} {k : Int} (h : Counted s k) (rows : List (List Int)) :
    (runRows rowTurn rows s).noStop k = s.noStop k := by
  induction rows generalizing s with
  | nil => rfl
  | cons row rows ih =>
      obtain ⟨hcount, hnext⟩ := h.step row
      cases hgoes : (rowTurn s row).2 with
      | true =>
          rw [runRows_last hgoes]
          exact hcount
      | false =>
          rw [runRows_next hgoes]
          exact (ih (hnext hgoes)).trans hcount

/-! ## Running out of rows -/

/-- The tables do not hold the approach, nor any of its stop lines. -/
structure ApproachEntry.Unread (e : ApproachEntry) (a : Approach) : Prop where
  phaseNo : e.phaseNo ≠ a.phaseNo
  stopLine : ∀ (m : Nat) l, a.stopLines[m]? = some l → e.stopLine (m + 1) ≠ l

/-- The reader is at the row of approach `k + 1`, and wants more rows than are left. -/
structure ShortAtApproach (c : ApproachConfig) (rows : List (List Int)) (s : ApproachReader)
    (k : Nat) : Prop where
  body : 5 < s.line
  noApproaches : s.noApproaches = c.approaches.length
  flag : s.stopLineStart = true
  inside : k < c.approaches.length
  i_eq : s.i = k + 1
  j_eq : s.j = 1
  short : rows.length < rowsWanted (c.approaches.drop k)
  later : ∀ (m : Nat) a, k ≤ m → c.approaches[m]? = some a → (s.entry (m + 1)).Unread a

/-- The reader is at a stop line of approach `k + 1`, and wants more rows than are left. -/
structure ShortInApproach (c : ApproachConfig) (rows : List (List Int)) (s : ApproachReader)
    (k : Nat) (a : Approach) : Prop where
  body : 5 < s.line
  noApproaches : s.noApproaches = c.approaches.length
  flag : s.stopLineStart = false
  approach : c.approaches[k]? = some a
  i_eq : s.i = k + 1
  j_pos : 1 ≤ s.j
  j_le : s.j ≤ max 1 a.stopLines.length
  noStop : s.noStop s.i = a.stopLines.length
  short : rows.length + s.j <
    stopRows a (c.approaches.drop (k + 1)) + 1 + rowsWanted (c.approaches.drop (k + 1))
  left : ∀ (m : Nat) l, s.j ≤ m + 1 → a.stopLines[m]? = some l →
    (s.entry s.i).stopLine (m + 1) ≠ l
  later : ∀ (m : Nat) b, k < m → c.approaches[m]? = some b → (s.entry (m + 1)).Unread b

section Short

variable {c : ApproachConfig} {row : List Int} {rows : List (List Int)} {s : ApproachReader}
  {k : Nat} {a : Approach}

theorem drop_eq_cons_of_getElem? {as : List Approach} (h : as[k]? = some a) :
    as.drop k = a :: as.drop (k + 1) := by
  obtain ⟨hk, hget⟩ := List.getElem?_eq_some_iff.mp h
  rw [← hget]
  exact List.drop_eq_getElem_cons hk

/-- Without rows left, the approach has not been read. -/
theorem ShortAtApproach.unread (h : ShortAtApproach c [] s k) : ¬ s.Holds c := by
  intro hholds
  have hget := List.getElem?_eq_getElem h.inside
  exact (h.later k _ le_rfl hget).phaseNo (hholds.approach k _ h.inside hget).phaseNo

/-- Nor, then, has a stop line or the next approach. -/
theorem ShortInApproach.unread (h : ShortInApproach c [] s k a) : ¬ s.Holds c := by
  intro hholds
  obtain ⟨hk, _⟩ := List.getElem?_eq_some_iff.mp h.approach
  have hshort := h.short
  by_cases hlast : c.approaches.drop (k + 1) = []
  · -- the last approach: its next stop line is missing
    rw [hlast, stopRows, if_pos rfl, rowsWanted, List.length_nil] at hshort
    obtain ⟨m, hm⟩ := Int.eq_ofNat_of_zero_le (sub_nonneg.mpr h.j_pos)
    have hget := List.getElem?_eq_getElem (l := a.stopLines) (i := m) (by omega)
    refine h.left m _ (by omega) hget ?_
    rw [h.i_eq]
    exact (hholds.approach k a hk h.approach).stopLine m _ hget
  · have hnext : k + 1 < c.approaches.length := by
      by_contra hend
      exact hlast (List.drop_eq_nil_of_le (not_lt.mp hend))
    have hget := List.getElem?_eq_getElem hnext
    exact (h.later (k + 1) _ (Nat.lt_succ_self k) hget).phaseNo
      (hholds.approach (k + 1) _ hnext hget).phaseNo

/-- A count that is not the approach's is wrong to the end. -/
theorem Counted.not_holds {s : ApproachReader} {k : Nat} (h : Counted s (k + 1))
    (ha : c.approaches[k]? = some a) (hne : s.noStop (k + 1) ≠ a.stopLines.length) :
    ¬ (runRows rowTurn rows s).Holds c := by
  intro hholds
  obtain ⟨hk, _⟩ := List.getElem?_eq_some_iff.mp ha
  exact hne ((h.run rows).symm.trans (hholds.approach k a hk ha).noStop)

/-- An approach's row is taken: its count is read wrong, or its stop lines are wanted. -/
theorem ShortAtApproach.next (h : ShortAtApproach c (row :: rows) s k)
    (ha : c.approaches[k]? = some a) :
    (rowTurn s row).2 = false ∧ Counted (rowTurn s row).1 (k + 1) ∧
      ((rowTurn s row).1.noStop (k + 1) = a.stopLines.length →
        ShortInApproach c rows (rowTurn s row).1 k a) := by
  have hinside := h.inside
  have hin : s.i ≤ s.noApproaches := by
    rw [h.i_eq, h.noApproaches]
    omega
  have hline := Nat.lt_succ_of_lt h.body
  rw [rowTurn_approach h.body h.flag hin]
  refine ⟨rfl, ⟨hline, Or.inr ⟨h.i_eq.symm, rfl⟩⟩, fun hcount => ?_⟩
  refine ⟨hline, h.noApproaches, rfl, ha, h.i_eq, h.j_eq.ge, ?_, ?_, ?_, ?_, ?_⟩
  · change s.j ≤ _
    rw [h.j_eq]
    omega
  · change (scanApproach s (row.take 2)).noStop s.i = _
    rw [h.i_eq]
    exact hcount
  · have hshort := h.short
    rw [drop_eq_cons_of_getElem? ha, rowsWanted, List.length_cons] at hshort
    change rows.length + s.j < _
    rw [h.j_eq]
    omega
  · intro m l _ hl
    change (s.entry s.i).stopLine (m + 1) ≠ l
    rw [h.i_eq]
    exact (h.later k a le_rfl ha).stopLine m l hl
  · intro m b hm hb
    have hne : ((m : Int) + 1) ≠ s.i := by
      rw [h.i_eq]
      omega
    change ((scanApproach s (row.take 2)).entry (m + 1)).Unread b
    rw [scanApproach_entry_ne s _ hne]
    exact h.later m b hm.le hb

/-- A row taken for a stop line leaves the later approaches unread. -/
private theorem ShortInApproach.store_later (h : ShortInApproach c (row :: rows) s k a) (m : Nat)
    (b : Approach) (hm : k < m) (hb : c.approaches[m]? = some b) :
    ((storeStopLine s (row.take 4)).entry (m + 1)).Unread b := by
  have hne : ((m : Int) + 1) ≠ s.i := by
    rw [h.i_eq]
    omega
  rw [storeStopLine_entry_ne s _ hne]
  exact h.later m b hm hb

/-- Another stop line is wanted behind the row. -/
private theorem ShortInApproach.next_line (h : ShortInApproach c (row :: rows) s k a)
    (hmore : s.j < s.noStop s.i) :
    (rowTurn s row).2 = false ∧ ShortInApproach c rows (rowTurn s row).1 k a := by
  obtain ⟨hk, _⟩ := List.getElem?_eq_some_iff.mp h.approach
  have hshort := h.short
  have hjpos := h.j_pos
  have hline := Nat.lt_succ_of_lt h.body
  have hin : s.i ≤ s.noApproaches := by
    rw [h.i_eq, h.noApproaches]
    omega
  rw [List.length_cons] at hshort
  rw [rowTurn_stopLine h.body h.flag hin hmore]
  rw [h.noStop] at hmore
  refine ⟨rfl, hline, h.noApproaches, h.flag, h.approach, h.i_eq, ?_, ?_, h.noStop, ?_, ?_,
    h.store_later⟩
  · exact Int.le_add_one hjpos
  · change s.j + 1 ≤ _
    omega
  · change rows.length + (s.j + 1) < _
    push_cast at hshort
    omega
  · intro m l hm hl
    have hne : ((m : Int) + 1) ≠ s.j := by
      change s.j + 1 ≤ (m : Int) + 1 at hm
      omega
    refine fun heq => h.left m l ?_ hl ((storeStopLine_stopLine_ne s _ hne).symm.trans heq)
    change s.j + 1 ≤ (m : Int) + 1 at hm
    omega

/-- The next approach is wanted behind the row. -/
private theorem ShortInApproach.next_approach (h : ShortInApproach c (row :: rows) s k a)
    (hlast : s.noStop s.i ≤ s.j) :
    (rowTurn s row).2 = false ∧ ShortAtApproach c rows (rowTurn s row).1 (k + 1) := by
  have hshort := h.short
  have hjpos := h.j_pos
  have hline := Nat.lt_succ_of_lt h.body
  have hlast' := hlast
  rw [List.length_cons] at hshort
  rw [h.noStop] at hlast'
  -- were this the last approach, no row would be left
  have hne : c.approaches.drop (k + 1) ≠ [] := by
    intro hnil
    rw [hnil, stopRows, if_pos rfl, rowsWanted] at hshort
    push_cast at hshort
    omega
  have hnext : k + 1 < c.approaches.length := by
    by_contra hend
    exact hne (List.drop_eq_nil_of_le (not_lt.mp hend))
  have hgoes : ¬ (k : Int) + 1 + 1 > c.approaches.length := by omega
  rw [rowTurn_lastStopLine h.body h.flag hlast, h.i_eq, h.noApproaches, if_neg hgoes]
  refine ⟨rfl, hline, h.noApproaches, rfl, hnext, ?_, rfl, ?_, h.store_later⟩
  · change s.i + 1 = _
    rw [h.i_eq]
    push_cast
    rfl
  · rw [stopRows, if_neg hne] at hshort
    push_cast at hshort
    omega

/-- A row is taken for a stop line: another is wanted, or the next approach is. -/
theorem ShortInApproach.next (h : ShortInApproach c (row :: rows) s k a) :
    (rowTurn s row).2 = false ∧
      (ShortInApproach c rows (rowTurn s row).1 k a ∨
        ShortAtApproach c rows (rowTurn s row).1 (k + 1)) := by
  by_cases hmore : s.j < s.noStop s.i
  · obtain ⟨hgoes, hin⟩ := h.next_line hmore
    exact ⟨hgoes, .inl hin⟩
  · obtain ⟨hgoes, hat⟩ := h.next_approach (not_lt.mp hmore)
    exact ⟨hgoes, .inr hat⟩

/-- **A reader that runs out of rows** does not recover the configuration. -/
theorem not_holds_of_short (rows : List (List Int)) (s : ApproachReader) (k : Nat) :
    (ShortAtApproach c rows s k → ¬ (runRows rowTurn rows s).Holds c) ∧
      ∀ a, ShortInApproach c rows s k a → ¬ (runRows rowTurn rows s).Holds c := by
  induction rows generalizing s k with
  | nil => exact ⟨ShortAtApproach.unread, fun a => ShortInApproach.unread⟩
  | cons row rows ih =>
      constructor
      · intro h
        obtain ⟨a, ha⟩ : ∃ a, c.approaches[k]? = some a := ⟨_, List.getElem?_eq_getElem h.inside⟩
        obtain ⟨hgoes, hcounted, hnext⟩ := h.next ha
        rw [runRows_next hgoes]
        by_cases hcount : (rowTurn s row).1.noStop (k + 1) = a.stopLines.length
        · exact (ih _ k).2 _ (hnext hcount)
        · exact hcounted.not_holds ha hcount
      · intro a h
        obtain ⟨hgoes, hsame | hnext⟩ := h.next
        · rw [runRows_next hgoes]
          exact (ih _ k).2 a hsame
        · rw [runRows_next hgoes]
          exact (ih _ (k + 1)).1 hnext

end Short

/-! ## Recovery -/

/-- Variables that hold none of the configuration's approaches. -/
def foreignTables (c : ApproachConfig) : ApproachReader :=
  { blankTables with
    phaseNo := fun i => (c.approaches[(i - 1).toNat]?.elim 0 Approach.phaseNo) + 1
    stopLat := fun i j =>
      ((c.approaches[(i - 1).toNat]?.elim [] Approach.stopLines)[(j - 1).toNat]?.elim 0
        StopLine.lat) + 1 }

theorem foreignTables_unread {c : ApproachConfig} {m : Nat} {a : Approach}
    (ha : c.approaches[m]? = some a) : ((foreignTables c).entry (m + 1)).Unread a := by
  have hm : ((m : Int) + 1 - 1).toNat = m := by omega
  refine ⟨?_, fun n l hl heq => ?_⟩
  · change (c.approaches[((m : Int) + 1 - 1).toNat]?.elim 0 Approach.phaseNo) + 1 ≠ _
    rw [hm, ha, Option.elim_some]
    omega
  · have hn : ((n : Int) + 1 - 1).toNat = n := by omega
    have hlat : ((c.approaches[((m : Int) + 1 - 1).toNat]?.elim [] Approach.stopLines)[
        ((n : Int) + 1 - 1).toNat]?.elim 0 StopLine.lat) + 1 = l.lat :=
      congrArg StopLine.lat heq
    rw [hm, hn, ha, Option.elim_some, hl, Option.elim_some] at hlat
    omega

/-- With an empty approach before the last, a reader that has seen nothing of the
configuration does not recover it. -/
theorem not_holds_of_empty_approach {c : ApproachConfig} (hvalid : c.Valid)
    (hempty : ¬ StopsBeforeLast c) {file : List Char} (hfile : c.InFile file) :
    ¬ (readApproachConfig (foreignTables c) file).Holds c := by
  have hpos := hvalid.approaches_pos
  have hexists : ∃ a ∈ c.approaches.dropLast, a.stopLines = [] := by
    unfold StopsBeforeLast at hempty
    push Not at hempty
    exact hempty
  rw [readApproachConfig_rows hfile, runRows_head hpos]
  refine (not_holds_of_short _ _ 0).1 ⟨?_, rfl, rfl, hpos, rfl, rfl, ?_, ?_⟩
  · change 5 < 6
    decide
  · exact rows_lt_rowsWanted hexists
  · exact fun m a _ ha => foreignTables_unread ha

/-- **Recovery of `approach.cfg`**: the reader recovers a configuration from its file,
whatever its variables held before, exactly if only the last approach can be without stop
lines. -/
theorem readApproachConfig_holds_iff {c : ApproachConfig} (hvalid : c.Valid) {file : List Char}
    (hfile : c.InFile file) :
    (∀ uninitialised, (readApproachConfig uninitialised file).Holds c) ↔ StopsBeforeLast c := by
  constructor
  · intro h
    by_contra hempty
    exact not_holds_of_empty_approach hvalid hempty hfile (h _)
  · exact fun hstops uninitialised =>
      (readApproachConfig_recovered hvalid hstops hfile uninitialised).holds

/-- Both approaches have stop lines, and the two are recovered. -/
theorem readApproachConfig_twoApproaches :
    StopsBeforeLast twoApproaches ∧
      ∀ uninitialised,
        (readApproachConfig uninitialised twoApproaches.text).Holds twoApproaches := by
  have hvalid : twoApproaches.Valid := ⟨by decide, by decide, by decide, by decide⟩
  have hstops : StopsBeforeLast twoApproaches := by
    unfold StopsBeforeLast
    decide
  exact ⟨hstops, (readApproachConfig_holds_iff hvalid inFile_twoApproaches).mpr hstops⟩

/-- The same two, the first without its stop lines. -/
def emptyApproach : ApproachConfig :=
  { twoApproaches with approaches := [⟨4, []⟩, ⟨2, [⟨374218, -1221362, 40, 180⟩]⟩] }

/-- The second approach's own line is taken for the first one's stop line, and its stop line
for its own: whatever was there before, approach 2 gets phase 374218. -/
theorem readApproachConfig_not_always :
    ¬ ∀ (c : ApproachConfig) (file : List Char), c.Valid → c.InFile file →
      ∀ uninitialised, (readApproachConfig uninitialised file).Holds c := by
  intro h
  have hvalid : emptyApproach.Valid := ⟨by decide, by decide, by decide, by decide⟩
  have hfile : emptyApproach.InFile emptyApproach.text := ApproachConfig.inFile_text (by decide)
  have hholds := h emptyApproach _ hvalid hfile (foreignTables emptyApproach)
  rw [readApproachConfig_rows hfile] at hholds
  have hphase := (hholds.approach 1 _ (by decide) rfl).phaseNo
  exact absurd hphase (by decide)

end RfsAtsc.Phases
