import RfsAtsc.ConfigText
import RfsAtsc.IxMessages
import RfsAtsc.PhasesLoop

/-!
# The approach configuration: `approach.cfg`

`phases` reads the intersection's approaches line by line.  The number of the line says
what the first five hold; behind them a flag and two counters say whether a line is an
approach's own or one of its stop lines.  After an approach's own line the reader always
takes a stop line, so it gets out of step behind an approach that has none, unless that
is the last.
-/

namespace RfsAtsc.Phases

open DecimalText

/-! ## The reader -/

/-- The variables of the reader.  The tables start at index 1. -/
structure ApproachReader where
  line : Nat
  i : Int
  j : Int
  stopLineStart : Bool
  intersectionId : Int
  nodeId : Int
  lat1 : Int
  long1 : Int
  alt1 : Int
  lat2 : Int
  long2 : Int
  alt2 : Int
  noApproaches : Int
  totalNoStops : Int
  phaseNo : Int → Int
  noStop : Int → Int
  stopLat : Int → Int → Int
  stopLong : Int → Int → Int
  stopLength : Int → Int → Int
  stopOrient : Int → Int → Int

/-- A table of two indices with one entry changed. -/
def update2 {α : Type} (table : Int → Int → α) (i j : Int) (v : α) : Int → Int → α :=
  Function.update table i (Function.update (table i) j v)

/-- An approach's own line, of which `sscanf` has converted `vs`. -/
def scanApproach (s : ApproachReader) (vs : List Int) : ApproachReader :=
  let s :=
    { s with
      phaseNo := Function.update s.phaseNo s.i (vs.getD 0 (s.phaseNo s.i))
      noStop := Function.update s.noStop s.i (vs.getD 1 (s.noStop s.i))
      stopLineStart := false }
  { s with totalNoStops := s.totalNoStops + s.noStop s.i }

/-- A stop line's numbers are stored, `vs` being what `sscanf` has converted. -/
def storeStopLine (s : ApproachReader) (vs : List Int) : ApproachReader :=
  { s with
    stopLat := update2 s.stopLat s.i s.j (vs.getD 0 (s.stopLat s.i s.j))
    stopLong := update2 s.stopLong s.i s.j (vs.getD 1 (s.stopLong s.i s.j))
    stopLength := update2 s.stopLength s.i s.j (vs.getD 2 (s.stopLength s.i s.j))
    stopOrient := update2 s.stopOrient s.i s.j (vs.getD 3 (s.stopOrient s.i s.j))
    j := s.j + 1 }

/-- A stop line: behind the last the next approach begins. -/
def scanStopLine (s : ApproachReader) (vs : List Int) : ApproachReader :=
  let s := storeStopLine s vs
  if s.j > s.noStop s.i then { s with i := s.i + 1, j := 1, stopLineStart := true } else s

/-- The `switch` on a line.  `scan n` is what `sscanf` converts of it with `n` times
`%d`. -/
def scanApproachLine (s : ApproachReader) (scan : Nat → List Int) : ApproachReader :=
  match s.line with
  | 1 => { s with intersectionId := (scan 1).getD 0 s.intersectionId }
  | 2 => { s with nodeId := (scan 1).getD 0 s.nodeId }
  | 3 =>
      { s with
        lat1 := (scan 3).getD 0 s.lat1
        long1 := (scan 3).getD 1 s.long1
        alt1 := (scan 3).getD 2 s.alt1 }
  | 4 =>
      { s with
        lat2 := (scan 3).getD 0 s.lat2
        long2 := (scan 3).getD 1 s.long2
        alt2 := (scan 3).getD 2 s.alt2 }
  | 5 =>
      { s with
        noApproaches := (scan 1).getD 0 s.noApproaches
        stopLineStart := true
        i := 1
        j := 1 }
  | _ => if s.stopLineStart then scanApproach s (scan 2) else scanStopLine s (scan 4)

/-- A line's turn, and whether nothing is left to read. -/
def approachTurn (s : ApproachReader) (scan : Nat → List Int) : ApproachReader × Bool :=
  let s := scanApproachLine s scan
  if s.i > s.noApproaches then (s, true) else ({ s with line := s.line + 1 }, false)

/-- What the reader starts from, with anything at all in the variables that it does not
initialise. -/
def startApproaches (uninitialised : ApproachReader) : ApproachReader :=
  { uninitialised with
    line := 1
    i := 0
    j := 0
    stopLineStart := false
    noApproaches := 100
    totalNoStops := 0 }

/-- Variables that happen to be 0. -/
def blankTables : ApproachReader where
  line := 0
  i := 0
  j := 0
  stopLineStart := false
  intersectionId := 0
  nodeId := 0
  lat1 := 0
  long1 := 0
  alt1 := 0
  lat2 := 0
  long2 := 0
  alt2 := 0
  noApproaches := 0
  totalNoStops := 0
  phaseNo _ := 0
  noStop _ := 0
  stopLat _ _ := 0
  stopLong _ _ := 0
  stopLength _ _ := 0
  stopOrient _ _ := 0

/-- The reading loop over the file. -/
def readApproachConfig (uninitialised : ApproachReader) (file : List Char) : ApproachReader :=
  readLines (fun s lineinput => approachTurn s fun n => scanInts n lineinput)
    (fileLines 100 file) (startApproaches uninitialised)

/-! ## Configurations -/

structure StopLine where
  lat : Int
  long : Int
  length : Int
  orient : Int
deriving DecidableEq

structure Approach where
  phaseNo : Int
  stopLines : List StopLine
deriving DecidableEq

/-- The ids, the centre of the intersection and the antenna. -/
structure IxHeading where
  intersectionId : Int
  nodeId : Int
  lat1 : Int
  long1 : Int
  alt1 : Int
  lat2 : Int
  long2 : Int
  alt2 : Int
deriving DecidableEq

/-- What `approach.cfg` says. -/
structure ApproachConfig extends IxHeading where
  approaches : List Approach
deriving DecidableEq

def StopLine.row (l : StopLine) : List Int := [l.lat, l.long, l.length, l.orient]

/-- An approach's own row, and those of its stop lines. -/
def Approach.rows (a : Approach) : List (List Int) :=
  [a.phaseNo, a.stopLines.length] :: a.stopLines.map StopLine.row

/-- The rows of a configuration in the layout of `approach.cfg`. -/
def ApproachConfig.rows (c : ApproachConfig) : List (List Int) :=
  [[c.intersectionId], [c.nodeId], [c.lat1, c.long1, c.alt1], [c.lat2, c.long2, c.alt2],
    [(c.approaches.length : Int)]] ++ c.approaches.flatMap Approach.rows

/-- The file has the configuration in the layout of `approach.cfg`. -/
def ApproachConfig.InFile (c : ApproachConfig) (file : List Char) : Prop :=
  Renders 100 (c.rows.map (List.map Field.int)) file

/-- The configuration printed row by row. -/
def ApproachConfig.text (c : ApproachConfig) : List Char :=
  (c.rows.map (List.map printInt)).flatMap fun tokens => lineText tokens ++ ['\n']

/-- A configuration whose lines fit is in the file that it is printed to. -/
theorem ApproachConfig.inFile_text {c : ApproachConfig}
    (hfit : (c.rows.map (List.map printInt)).all (fitsLine 100) = true) : c.InFile c.text := by
  refine renders_lineText ?_ hfit
  rw [List.forall₂_map_left_iff, List.forall₂_map_right_iff]
  refine List.forall₂_same.mpr fun row _ => ?_
  rw [List.forall₂_map_left_iff, List.forall₂_map_right_iff]
  exact List.forall₂_same.mpr fun v _ => speltInteger_printInt v

/-- Two approaches with two stop lines and one. -/
def twoApproaches : ApproachConfig where
  intersectionId := 1
  nodeId := 2
  lat1 := 37
  long1 := -122
  alt1 := 5
  lat2 := 37
  long2 := -122
  alt2 := 6
  approaches :=
    [⟨4, [⟨374216, -1221360, 30, 90⟩, ⟨374217, -1221361, 35, 90⟩]⟩,
      ⟨2, [⟨374218, -1221362, 40, 180⟩]⟩]

/-- The two approaches fit. -/
theorem inFile_twoApproaches : twoApproaches.InFile twoApproaches.text :=
  ApproachConfig.inFile_text (by decide)

/-- What the tables hold of one approach. -/
structure ApproachEntry where
  phaseNo : Int
  noStop : Int
  stopLat : Int → Int
  stopLong : Int → Int
  stopLength : Int → Int
  stopOrient : Int → Int

def ApproachReader.entry (s : ApproachReader) (i : Int) : ApproachEntry :=
  ⟨s.phaseNo i, s.noStop i, s.stopLat i, s.stopLong i, s.stopLength i, s.stopOrient i⟩

def ApproachEntry.stopLine (e : ApproachEntry) (j : Int) : StopLine :=
  ⟨e.stopLat j, e.stopLong j, e.stopLength j, e.stopOrient j⟩

/-- The tables hold the approach. -/
structure ApproachEntry.Holds (e : ApproachEntry) (a : Approach) : Prop where
  phaseNo : e.phaseNo = a.phaseNo
  noStop : e.noStop = a.stopLines.length
  stopLine : ∀ (m : Nat) l, a.stopLines[m]? = some l → e.stopLine (m + 1) = l

def ApproachReader.heading (s : ApproachReader) : IxHeading :=
  { intersectionId := s.intersectionId
    nodeId := s.nodeId
    lat1 := s.lat1
    long1 := s.long1
    alt1 := s.alt1
    lat2 := s.lat2
    long2 := s.long2
    alt2 := s.alt2 }

/-- The variables hold the heading and the first `k` approaches of the configuration. -/
structure ReadSoFar (c : ApproachConfig) (s : ApproachReader) (k : Nat) : Prop where
  heading : s.heading = c.toIxHeading
  noApproaches : s.noApproaches = c.approaches.length
  approach : ∀ (m : Nat) a, m < k → c.approaches[m]? = some a → (s.entry (m + 1)).Holds a

/-- The variables hold the configuration. -/
def ApproachReader.Holds (s : ApproachReader) (c : ApproachConfig) : Prop :=
  ReadSoFar c s c.approaches.length

/-- A configuration within the reader's tables, of values of `int`. -/
structure ApproachConfig.Valid (c : ApproachConfig) : Prop where
  approaches_pos : 1 ≤ c.approaches.length
  approaches_le : c.approaches.length ≤ MAX_APPROACHES
  stopLines_le : ∀ a ∈ c.approaches, a.stopLines.length ≤ MAX_STOP_LINES
  ints : ∀ row ∈ c.rows, ∀ v ∈ row, FitsInt v

/-- Only the last approach can be without stop lines. -/
def StopsBeforeLast (c : ApproachConfig) : Prop :=
  ∀ a ∈ c.approaches.dropLast, a.stopLines ≠ []

/-! ## Rows -/

/-- A row's turn. -/
def rowTurn (s : ApproachReader) (vs : List Int) : ApproachReader × Bool :=
  approachTurn s vs.take

/-- Reading a file that has the configuration is taking its rows. -/
theorem readApproachConfig_rows {c : ApproachConfig} {file : List Char} (h : c.InFile file)
    (uninitialised : ApproachReader) :
    readApproachConfig uninitialised file =
      runRows rowTurn c.rows (startApproaches uninitialised) := by
  refine readLines_renders (fun s vs text hspells => ?_) h _
  rw [rowTurn]
  congr 1
  exact funext fun n => scanInts_spells hspells n

/-- Behind the fifth line the flag says what a line is. -/
theorem scanApproachLine_body {s : ApproachReader} (hbody : 5 < s.line) (scan : Nat → List Int) :
    scanApproachLine s scan =
      if s.stopLineStart then scanApproach s (scan 2) else scanStopLine s (scan 4) := by
  unfold scanApproachLine
  split
  all_goals first | rfl | omega

/-- The turn of an approach's own line. -/
theorem approachTurn_approach {s : ApproachReader} (hbody : 5 < s.line)
    (hflag : s.stopLineStart = true) (scan : Nat → List Int) :
    approachTurn s scan =
      if s.i > s.noApproaches then (scanApproach s (scan 2), true)
      else ({ scanApproach s (scan 2) with line := s.line + 1 }, false) := by
  rw [approachTurn, scanApproachLine_body hbody, if_pos hflag]
  rfl

/-- The turn of a stop line. -/
theorem approachTurn_stopLine {s : ApproachReader} (hbody : 5 < s.line)
    (hflag : s.stopLineStart = false) (scan : Nat → List Int) :
    approachTurn s scan =
      if (scanStopLine s (scan 4)).i > s.noApproaches then (scanStopLine s (scan 4), true)
      else ({ scanStopLine s (scan 4) with line := s.line + 1 }, false) := by
  have hnot : ¬ s.stopLineStart = true := by
    rw [hflag]
    decide
  have hsame : (scanStopLine s (scan 4)).noApproaches = s.noApproaches ∧
      (scanStopLine s (scan 4)).line = s.line := by
    unfold scanStopLine
    dsimp only
    split
    · exact ⟨rfl, rfl⟩
    · exact ⟨rfl, rfl⟩
  rw [approachTurn, scanApproachLine_body hbody, if_neg hnot]
  dsimp only
  rw [hsame.1, hsame.2]

/-- An approach's own row. -/
theorem rowTurn_approach {s : ApproachReader} (hbody : 5 < s.line) (hflag : s.stopLineStart = true)
    (hin : s.i ≤ s.noApproaches) (vs : List Int) :
    rowTurn s vs = ({ scanApproach s (vs.take 2) with line := s.line + 1 }, false) := by
  rw [rowTurn, approachTurn_approach hbody hflag, if_neg (not_lt.mpr hin)]

/-- A stop line's row, behind which the approach goes on. -/
theorem rowTurn_stopLine {s : ApproachReader} (hbody : 5 < s.line)
    (hflag : s.stopLineStart = false) (hin : s.i ≤ s.noApproaches) (hmore : s.j < s.noStop s.i)
    (vs : List Int) :
    rowTurn s vs = ({ storeStopLine s (vs.take 4) with line := s.line + 1 }, false) := by
  have hnext : scanStopLine s (vs.take 4) = storeStopLine s (vs.take 4) := by
    refine if_neg ?_
    change ¬ s.j + 1 > s.noStop s.i
    omega
  rw [rowTurn, approachTurn_stopLine hbody hflag, hnext]
  exact if_neg (not_lt.mpr hin)

/-- Behind an approach's last stop line. -/
def afterApproach (s : ApproachReader) (vs : List Int) : ApproachReader :=
  { storeStopLine s (vs.take 4) with i := s.i + 1, j := 1, stopLineStart := true }

/-- A stop line's row, behind which the approach is read. -/
theorem rowTurn_lastStopLine {s : ApproachReader} (hbody : 5 < s.line)
    (hflag : s.stopLineStart = false) (hlast : s.noStop s.i ≤ s.j) (vs : List Int) :
    rowTurn s vs =
      if s.i + 1 > s.noApproaches then (afterApproach s vs, true)
      else ({ afterApproach s vs with line := s.line + 1 }, false) := by
  have hnext : scanStopLine s (vs.take 4) = afterApproach s vs := by
    refine if_pos ?_
    change s.j + 1 > s.noStop s.i
    omega
  rw [rowTurn, approachTurn_stopLine hbody hflag, hnext]
  rfl

/-! ## Tables -/

@[simp] theorem update2_same {α : Type} (table : Int → Int → α) (i j : Int) (v : α) :
    update2 table i j v i = Function.update (table i) j v := Function.update_self _ _ _

/-- The other rows of a table stay. -/
theorem update2_ne {α : Type} (table : Int → Int → α) {i k : Int} (j : Int) (v : α) (h : k ≠ i) :
    update2 table i j v k = table k := Function.update_of_ne h _ _

/-- A stop line changes the tables of its own approach only. -/
theorem storeStopLine_entry_ne (s : ApproachReader) (vs : List Int) {k : Int} (h : k ≠ s.i) :
    (storeStopLine s vs).entry k = s.entry k := by
  simp only [ApproachReader.entry, storeStopLine, update2_ne _ _ _ h]

/-- So does an approach's own line. -/
theorem scanApproach_entry_ne (s : ApproachReader) (vs : List Int) {k : Int} (h : k ≠ s.i) :
    (scanApproach s vs).entry k = s.entry k := by
  simp only [ApproachReader.entry, scanApproach, Function.update_of_ne h]

/-- Whatever a stop line says, the approach's other stop lines are as they were. -/
theorem storeStopLine_stopLine_ne (s : ApproachReader) (vs : List Int) {j : Int} (h : j ≠ s.j) :
    ((storeStopLine s vs).entry s.i).stopLine j = (s.entry s.i).stopLine j := by
  simp only [ApproachReader.entry, ApproachEntry.stopLine, storeStopLine, update2_same,
    Function.update_of_ne h]

/-- A stop line stored is there, and the approach's other stop lines as they were. -/
theorem storeStopLine_stopLine (s : ApproachReader) (l : StopLine) (j : Int) :
    ((storeStopLine s (l.row.take 4)).entry s.i).stopLine j =
      if j = s.j then l else (s.entry s.i).stopLine j := by
  by_cases hj : j = s.j
  · subst hj
    rw [if_pos rfl]
    simp only [ApproachReader.entry, ApproachEntry.stopLine, storeStopLine, update2_same,
      Function.update_self]
    rfl
  · rw [if_neg hj]
    exact storeStopLine_stopLine_ne s _ hj

/-! ## Reading an approach -/

/-- The stop lines of some approaches. -/
def noStopLines (as : List Approach) : Int := (as.map fun a => (a.stopLines.length : Int)).sum

/-- The reader is at the row of approach `k + 1`, and its tables from there on are as they
were. -/
structure AtApproach (c : ApproachConfig) (before : Int → ApproachEntry) (s : ApproachReader)
    (k : Nat) : Prop where
  body : 5 < s.line
  soFar : ReadSoFar c s k
  total : s.totalNoStops = noStopLines (c.approaches.take k)
  flag : s.stopLineStart = true
  i_eq : s.i = k + 1
  j_eq : s.j = 1
  later : ∀ i : Int, k < i → s.entry i = before i

/-- The reader is in approach `k + 1` and has read some of its stop lines. -/
structure InApproach (c : ApproachConfig) (before : Int → ApproachEntry) (s : ApproachReader)
    (k : Nat) (a : Approach) (done : List StopLine) : Prop where
  body : 5 < s.line
  soFar : ReadSoFar c s k
  total : s.totalNoStops = noStopLines (c.approaches.take (k + 1))
  flag : s.stopLineStart = false
  i_eq : s.i = k + 1
  j_eq : s.j = done.length + 1
  phaseNo : s.phaseNo s.i = a.phaseNo
  noStop : s.noStop s.i = a.stopLines.length
  stopLine : ∀ (m : Nat) l, done[m]? = some l → (s.entry s.i).stopLine (m + 1) = l
  later : ∀ i : Int, k + 1 < i → s.entry i = before i

/-- The whole configuration has been read. -/
structure Recovered (c : ApproachConfig) (s : ApproachReader) : Prop where
  holds : s.Holds c
  total : s.totalNoStops = noStopLines c.approaches

/-- What another entry's change leaves of what has been read. -/
theorem ReadSoFar.of_entries {c : ApproachConfig} {s t : ApproachReader} {k : Nat}
    (h : ReadSoFar c s k) (hheading : t.heading = s.heading)
    (hno : t.noApproaches = s.noApproaches)
    (hentry : ∀ m : Nat, m < k → t.entry (m + 1) = s.entry (m + 1)) : ReadSoFar c t k where
  heading := hheading.trans h.heading
  noApproaches := hno.trans h.noApproaches
  approach := by
    intro m a hm ha
    rw [hentry m hm]
    exact h.approach m a hm ha

section Approaches

variable {c : ApproachConfig} {before : Int → ApproachEntry} {s : ApproachReader} {k : Nat}
  {a : Approach} {done : List StopLine}

/-- With all its stop lines, the approach has been read too. -/
theorem InApproach.complete (h : InApproach c before s k a done) (ha : c.approaches[k]? = some a)
    (hdone : a.stopLines = done) : ReadSoFar c s (k + 1) := by
  refine ⟨h.soFar.heading, h.soFar.noApproaches, fun m b hm hb => ?_⟩
  rcases Nat.lt_or_eq_of_le (Nat.le_of_lt_succ hm) with hbefore | rfl
  · exact h.soFar.approach m b hbefore hb
  · obtain rfl := Option.some.inj (ha.symm.trans hb)
    rw [← h.i_eq]
    exact ⟨h.phaseNo, h.noStop, by rw [hdone]; exact h.stopLine⟩

/-- An approach's row is read. -/
theorem AtApproach.read_approach (h : AtApproach c before s k) (ha : c.approaches[k]? = some a) :
    (rowTurn s [a.phaseNo, a.stopLines.length]).2 = false ∧
      InApproach c before (rowTurn s [a.phaseNo, a.stopLines.length]).1 k a [] := by
  obtain ⟨hk, hget⟩ := List.getElem?_eq_some_iff.mp ha
  have hin : s.i ≤ s.noApproaches := by
    rw [h.i_eq, h.soFar.noApproaches]
    omega
  rw [rowTurn_approach h.body h.flag hin]
  have hno : (Function.update s.noStop s.i (a.stopLines.length : Int)) s.i = a.stopLines.length :=
    Function.update_self _ _ _
  refine ⟨rfl, ⟨Nat.lt_succ_of_lt h.body, ?_, ?_, rfl, h.i_eq, h.j_eq, ?_, hno, ?_, ?_⟩⟩
  · refine h.soFar.of_entries rfl rfl fun m hm => ?_
    exact scanApproach_entry_ne s _ (by rw [h.i_eq]; omega)
  · change s.totalNoStops + (Function.update s.noStop s.i (a.stopLines.length : Int)) s.i = _
    rw [hno, h.total, noStopLines, noStopLines, List.take_add_one, ha, List.map_append,
      List.sum_append]
    simp
  · exact Function.update_self _ _ _
  · intro m l hl
    exact absurd hl (by simp)
  · intro i hi
    exact (scanApproach_entry_ne s _ (by rw [h.i_eq]; omega)).trans (h.later i (by omega))

/-- A stop line is stored behind the others. -/
theorem InApproach.store (h : InApproach c before s k a done) (l : StopLine) :
    InApproach c before (storeStopLine s (l.row.take 4)) k a (done ++ [l]) := by
  refine ⟨h.body, ?_, h.total, h.flag, h.i_eq, ?_, h.phaseNo, h.noStop, ?_, ?_⟩
  · refine h.soFar.of_entries rfl rfl fun m hm => ?_
    exact storeStopLine_entry_ne s _ (by rw [h.i_eq]; omega)
  · change s.j + 1 = _
    rw [h.j_eq, List.length_append, List.length_singleton]
    push_cast
    rfl
  · intro m l' hl'
    refine (storeStopLine_stopLine s l _).trans ?_
    rw [h.j_eq]
    by_cases hm : m < done.length
    · rw [if_neg (by omega)]
      rw [List.getElem?_append_left hm] at hl'
      exact h.stopLine m l' hl'
    · rw [List.getElem?_append_right (not_lt.mp hm), List.getElem?_singleton] at hl'
      split at hl'
      · rw [if_pos (by omega)]
        exact Option.some.inj hl'
      · exact absurd hl' (by simp)
  · intro i hi
    exact (storeStopLine_entry_ne s _ (by rw [h.i_eq]; omega)).trans (h.later i hi)

/-- A stop line with others behind it is read. -/
theorem InApproach.read_stopLine (h : InApproach c before s k a done)
    (hk : k < c.approaches.length) (l : StopLine) (hmore : done.length + 1 < a.stopLines.length) :
    (rowTurn s l.row).2 = false ∧ InApproach c before (rowTurn s l.row).1 k a (done ++ [l]) := by
  have hin : s.i ≤ s.noApproaches := by
    rw [h.i_eq, h.soFar.noApproaches]
    omega
  have hstored := h.store l
  rw [rowTurn_stopLine h.body h.flag hin (by rw [h.j_eq, h.noStop]; omega)]
  exact ⟨rfl, Nat.lt_succ_of_lt h.body, hstored.soFar.of_entries rfl rfl fun _ _ => rfl,
    hstored.total, hstored.flag, hstored.i_eq, hstored.j_eq, hstored.phaseNo, hstored.noStop,
    hstored.stopLine, hstored.later⟩

/-- The last stop line of an approach is read: the next approach follows, or nothing. -/
theorem InApproach.read_lastStopLine (h : InApproach c before s k a done)
    (ha : c.approaches[k]? = some a) (l : StopLine) (hlast : a.stopLines = done ++ [l]) :
    (k + 1 < c.approaches.length → (rowTurn s l.row).2 = false ∧
        AtApproach c before (rowTurn s l.row).1 (k + 1)) ∧
      (k + 1 = c.approaches.length → Recovered c (rowTurn s l.row).1) := by
  have hread : ReadSoFar c (afterApproach s l.row) (k + 1) :=
    ((h.store l).complete ha hlast).of_entries rfl rfl fun _ _ => rfl
  have hno : s.noStop s.i ≤ s.j := by
    rw [h.noStop, h.j_eq, hlast, List.length_append, List.length_singleton]
    push_cast
    exact le_rfl
  rw [rowTurn_lastStopLine h.body h.flag hno, h.i_eq, h.soFar.noApproaches]
  constructor
  · intro hmore
    rw [if_neg (by omega)]
    refine ⟨rfl, Nat.lt_succ_of_lt h.body, hread.of_entries rfl rfl fun _ _ => rfl, h.total, rfl,
      ?_, rfl, fun i hi => (h.store l).later i (by push_cast at hi; exact hi)⟩
    change s.i + 1 = _
    rw [h.i_eq]
    push_cast
    rfl
  · intro hend
    rw [if_pos (by omega)]
    refine ⟨?_, h.total.trans ?_⟩
    · rw [ApproachReader.Holds, ← hend]
      exact hread
    · rw [hend, List.take_length]

/-- The stop lines of an approach are read, one at least. -/
theorem InApproach.read_stopLines (h : InApproach c before s k a done)
    (ha : c.approaches[k]? = some a) {ls : List StopLine} (hall : a.stopLines = done ++ ls)
    (hne : ls ≠ []) :
    (k + 1 < c.approaches.length → ∃ t, AtApproach c before t (k + 1) ∧
        ∀ rest, runRows rowTurn (ls.map StopLine.row ++ rest) s = runRows rowTurn rest t) ∧
      (k + 1 = c.approaches.length → Recovered c (runRows rowTurn (ls.map StopLine.row) s)) := by
  induction ls generalizing done s with
  | nil => exact absurd rfl hne
  | cons l ls ih =>
      cases ls with
      | nil =>
          obtain ⟨hmore, hend⟩ := h.read_lastStopLine ha l hall
          constructor
          · intro hk
            obtain ⟨hnext, hat⟩ := hmore hk
            exact ⟨_, hat, fun rest => runRows_next hnext rest⟩
          · intro hk
            rw [List.map_singleton, runRows_single]
            exact hend hk
      | cons l' ls =>
          obtain ⟨hk, _⟩ := List.getElem?_eq_some_iff.mp ha
          have hmore : done.length + 1 < a.stopLines.length := by
            rw [hall, List.length_append, List.length_cons, List.length_cons]
            omega
          obtain ⟨hnext, hin⟩ := h.read_stopLine hk l hmore
          obtain ⟨hlater, hend⟩ := ih hin (by rw [hall, List.append_assoc]; rfl)
            (List.cons_ne_nil _ _)
          constructor
          · intro hk'
            obtain ⟨t, hat, hrun⟩ := hlater hk'
            exact ⟨t, hat, fun rest => (runRows_next hnext _).trans (hrun rest)⟩
          · intro hk'
            rw [List.map_cons, runRows_next hnext]
            exact hend hk'

/-- Approaches with stop lines are read as far as the next one. -/
theorem AtApproach.read_approaches (h : AtApproach c before s k) {as rest : List Approach}
    (hsplit : c.approaches.drop k = as ++ rest) (hne : rest ≠ [])
    (hstops : ∀ a ∈ as, a.stopLines ≠ []) :
    ∃ t, AtApproach c before t (k + as.length) ∧ ∀ rows,
      runRows rowTurn (as.flatMap Approach.rows ++ rows) s = runRows rowTurn rows t := by
  induction as generalizing s k with
  | nil => exact ⟨s, h, fun rows => rfl⟩
  | cons a as ih =>
      rw [List.cons_append] at hsplit
      obtain ⟨ha, hnext, hcount⟩ := next_of_drop hsplit
      have hmore : k + 1 < c.approaches.length := by
        have hrest := List.length_pos_of_ne_nil hne
        rw [List.length_append] at hcount
        omega
      obtain ⟨hgoes, hin⟩ := h.read_approach ha
      obtain ⟨t, hat, hrun⟩ := (hin.read_stopLines ha rfl (hstops a List.mem_cons_self)).1 hmore
      obtain ⟨t', hat', hrun'⟩ := ih hat hnext fun b hb => hstops b (List.mem_cons_of_mem a hb)
      refine ⟨t', ?_, fun rows => ?_⟩
      · rw [List.length_cons, Nat.add_comm as.length 1, ← Nat.add_assoc]
        exact hat'
      · rw [List.flatMap_cons, Approach.rows, List.cons_append, List.cons_append,
          runRows_next hgoes, List.append_assoc, hrun, hrun']

/-- The last approach is read, with stop lines or without. -/
theorem AtApproach.read_last (h : AtApproach c before s k) (ha : c.approaches[k]? = some a)
    (hend : k + 1 = c.approaches.length) : Recovered c (runRows rowTurn a.rows s) := by
  obtain ⟨hgoes, hin⟩ := h.read_approach ha
  rw [Approach.rows, runRows_next hgoes]
  by_cases hlines : a.stopLines = []
  · have hread := hin.complete ha hlines
    have htotal := hin.total
    rw [hend] at hread
    rw [hend, List.take_length] at htotal
    rw [hlines] at hread htotal ⊢
    exact ⟨hread, htotal⟩
  · exact (hin.read_stopLines ha rfl hlines).2 hend

end Approaches

/-! ## The first five lines -/

/-- The reader behind the first five lines. -/
def headRead (c : ApproachConfig) (uninitialised : ApproachReader) : ApproachReader :=
  { startApproaches uninitialised with
    line := 6
    i := 1
    j := 1
    stopLineStart := true
    intersectionId := c.intersectionId
    nodeId := c.nodeId
    lat1 := c.lat1
    long1 := c.long1
    alt1 := c.alt1
    lat2 := c.lat2
    long2 := c.long2
    alt2 := c.alt2
    noApproaches := c.approaches.length }

/-- The first five rows are the heading. -/
theorem runRows_head {c : ApproachConfig} (hpos : 1 ≤ c.approaches.length)
    (uninitialised : ApproachReader) :
    runRows rowTurn c.rows (startApproaches uninitialised) =
      runRows rowTurn (c.approaches.flatMap Approach.rows) (headRead c uninitialised) := by
  have hmore : ¬ (1 : Int) > c.approaches.length := by omega
  let s := startApproaches uninitialised
  let s1 := { s with line := 2, intersectionId := c.intersectionId }
  let s2 := { s1 with line := 3, nodeId := c.nodeId }
  let s3 := { s2 with line := 4, lat1 := c.lat1, long1 := c.long1, alt1 := c.alt1 }
  let s4 := { s3 with line := 5, lat2 := c.lat2, long2 := c.long2, alt2 := c.alt2 }
  have h1 : rowTurn s [c.intersectionId] = (s1, false) := rfl
  have h2 : rowTurn s1 [c.nodeId] = (s2, false) := rfl
  have h3 : rowTurn s2 [c.lat1, c.long1, c.alt1] = (s3, false) := rfl
  have h4 : rowTurn s3 [c.lat2, c.long2, c.alt2] = (s4, false) := rfl
  have h5 : rowTurn s4 [(c.approaches.length : Int)] = (headRead c uninitialised, false) :=
    if_neg hmore
  simp only [ApproachConfig.rows, List.cons_append, List.nil_append]
  rw [runRows_next (congrArg Prod.snd h1), h1, runRows_next (congrArg Prod.snd h2), h2,
    runRows_next (congrArg Prod.snd h3), h3, runRows_next (congrArg Prod.snd h4), h4,
    runRows_next (congrArg Prod.snd h5), h5]

/-- Behind the heading the reader is at the first approach. -/
theorem atApproach_headRead (c : ApproachConfig) (uninitialised : ApproachReader) :
    AtApproach c uninitialised.entry (headRead c uninitialised) 0 where
  body := by
    change 5 < 6
    decide
  soFar := ⟨rfl, rfl, fun m a hm _ => absurd hm (Nat.not_lt_zero m)⟩
  total := rfl
  flag := rfl
  i_eq := rfl
  j_eq := rfl
  later := fun _ _ => rfl

/-- A configuration without an empty approach before the last is recovered whole. -/
theorem readApproachConfig_recovered {c : ApproachConfig} (hvalid : c.Valid)
    (hstops : StopsBeforeLast c) {file : List Char} (hfile : c.InFile file)
    (uninitialised : ApproachReader) : Recovered c (readApproachConfig uninitialised file) := by
  have hpos := hvalid.approaches_pos
  have hne : c.approaches ≠ [] := List.ne_nil_of_length_pos hpos
  have hsplit := List.dropLast_append_getLast hne
  obtain ⟨t, hat, hrun⟩ := (atApproach_headRead c uninitialised).read_approaches hsplit.symm
    (List.cons_ne_nil _ _) hstops
  rw [readApproachConfig_rows hfile, runRows_head hpos]
  have hrows : c.approaches.flatMap Approach.rows =
      c.approaches.dropLast.flatMap Approach.rows ++ (c.approaches.getLast hne).rows := by
    conv_lhs => rw [← hsplit]
    rw [List.flatMap_append, List.flatMap_singleton]
  rw [hrows, hrun]
  refine hat.read_last ?_ ?_
  · rw [Nat.zero_add, List.length_dropLast, ← List.getLast?_eq_getElem?,
      List.getLast?_eq_some_getLast hne]
  · rw [Nat.zero_add, List.length_dropLast]
    omega

end RfsAtsc.Phases
