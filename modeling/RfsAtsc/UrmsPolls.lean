import Mathlib.Data.List.DropRight
import RfsAtsc.TracedMemory
import RfsAtsc.EventMachine
import RfsAtsc.UrmsTransfer

/-!
# Polls of the ramp meter: `urms_get_status` and the main loop of `urms.c`

A poll writes `URMSPOLL2` to the controller and reads up to 417 bytes back, both in the
union `gen_mess` that the polls share.  The main loop takes the status out of the union
and publishes it in four database variables, unless the write or the read fails.  It does
not learn how many bytes the read delivered.

Two of the eight stores to `queue_occ`, an array of four, land in `metering_rate` behind
it, and two land behind the record; the model keeps what is in the record.
-/

namespace RfsAtsc.UrmsPolls

open TracedMemory EventMachine
open UrmsTransfer (MAX_MAINLINES MAX_METERED_LANES MAX_QUEUE_LOOPS sizeofMainlineStat
  sizeofMeteredLaneStat sizeofQueueStat)

def MAX_OFFRAMPS : Nat := 16

/-- `sizeof(struct addl_det_stat)`. -/
def sizeofAddlDetStat : Nat := 4

/-- `sizeof(struct metered_lane_ctl)`. -/
def sizeofMeteredLaneCtl : Nat := 11

/-- `sizeof(urms_status_response_t)`, and the count `urms_get_status` asks for. -/
def sizeofUrmsStatusResponse : Nat := 417

/-! ## One poll -/

/-- What one `read` of a response delivers: nothing at the end of the file. -/
structure Response where
  bytes : List Byte
  length_le : bytes.length ≤ sizeofUrmsStatusResponse

/-- What a poll meets: whether the `write` succeeds, what the `read` gives (`none` where
it fails), the time on the clock, and the stamp of `get_current_timestamp`. -/
structure Poll (Timestamp : Type) where
  written : Bool
  read : Option Response
  currTime : Float
  ts : Timestamp

/-- `urmspoll2`. -/
def urmspoll2 : List Byte := [0x55, 0x52, 0x4d, 0x53, 0x50, 0x4f, 0x4c, 0x4c, 0x32]

variable {Timestamp : Type}

/-- `urms_get_status`: the union afterwards, and the value returned. -/
def urmsGetStatus (genMess : Mem Byte) (p : Poll Timestamp) : Mem Byte × Int :=
  let genMess := genMess.write 0 urmspoll2
  if p.written then
    match p.read with
    | none => (genMess, -2)
    | some input => (genMess.write 0 input.bytes, 0)
  else (genMess, -1)

/-- The member `urms_status_response` of the union. -/
def urmsStatusResponse (genMess : Mem Byte) : List Byte :=
  genMess.take 0 sizeofUrmsStatusResponse

/-! ## Taking the status out of the response -/

def mainlineStatAt (i : Nat) : Nat := 25 + sizeofMainlineStat * i
def additionalDetAt (i : Nat) : Nat := 187 + sizeofAddlDetStat * i
def meteredLaneStatAt (i : Nat) : Nat := 251 + sizeofMeteredLaneStat * i
def meteredLaneCtlAt (i : Nat) : Nat := 291 + sizeofMeteredLaneCtl * i
def queueStatAt (i j : Nat) : Nat := 335 + sizeofQueueStat * (MAX_METERED_LANES * i + j)

def byteAt (response : List Byte) (a : Nat) : Byte := response.getD a 0

/-- `memcpy` of `n` bytes. -/
def bytesAt (response : List Byte) (a n : Nat) : List Byte := (response.drop a).take n

/-- `(msb << 8) + (unsigned char) lsb`, of two plain `char`s. -/
def wordAt (response : List Byte) (a : Nat) : Int :=
  (byteAt response a).toInt * 256 + (byteAt response (a + 1)).toNat

/-- `0.1 * n`, as it is stored in a `float`. -/
def occ (n : Int) : Float32 := (0.1 * Float.ofInt n).toFloat32

/-- `db_urms_status_t`, less the fields that the program never sets. -/
structure DbUrmsStatus where
  numMeter : Byte
  numMain : Byte
  mainlineStat : List Byte
  meteredLaneStat : List Byte
  hour : Byte
  minute : Byte
  second : Byte

/-- `urms_datafile_t`; the last two occupancies of the queues lie in `metering_rate`. -/
structure UrmsDatafile where
  mainlineLeadOcc : List Float32
  mainlineTrailOcc : List Float32
  queueOcc : List Float32

/-- `db_urms_status2_t`. -/
structure DbUrmsStatus2 (Timestamp : Type) where
  ts : Timestamp
  queueStat : List Byte

/-- `db_urms_status3_t`. -/
structure DbUrmsStatus3 where
  mainlineDir : Byte
  numOpp : Byte
  isMetering : Byte
  cmdSrc : List Byte
  action : List Byte
  plan : List Byte
  computationFinished : Byte
  meteringRate : List Int
  planBaseLvl : List Byte
  rm2rmcCtr : Byte
  numAddlDet : Byte
  additionalDet : List Byte

def dbUrmsStatusOf (response : List Byte) : DbUrmsStatus where
  numMeter := byteAt response 21
  numMain := byteAt response 22
  mainlineStat := bytesAt response (mainlineStatAt 0) (sizeofMainlineStat * MAX_MAINLINES)
  meteredLaneStat :=
    bytesAt response (meteredLaneStatAt 0) (sizeofMeteredLaneStat * MAX_METERED_LANES)
  hour := byteAt response 18
  minute := byteAt response 19
  second := byteAt response 20

def urmsDatafileOf (response : List Byte) : UrmsDatafile where
  mainlineLeadOcc :=
    (List.range MAX_MAINLINES).map fun i => occ (wordAt response (mainlineStatAt i + 2))
  mainlineTrailOcc :=
    (List.range MAX_MAINLINES).map fun i => occ (wordAt response (mainlineStatAt i + 6))
  -- The entries from the fourth on are those of the second loop of each lane.
  queueOcc :=
    (List.range (MAX_METERED_LANES + 2)).map fun i => occ (wordAt response (queueStatAt 0 i + 1))

def queueStatOf (response : List Byte) : List Byte :=
  bytesAt response (queueStatAt 0 0) (sizeofQueueStat * MAX_METERED_LANES * MAX_QUEUE_LOOPS)

def dbUrmsStatus3Of (response : List Byte) (rm2rmcCtr computationFinished : Byte) :
    DbUrmsStatus3 where
  mainlineDir := byteAt response 105
  numOpp := byteAt response 23
  isMetering := byteAt response 283
  cmdSrc := (List.range MAX_METERED_LANES).map fun i => byteAt response (meteredLaneCtlAt i)
  action := (List.range MAX_METERED_LANES).map fun i => byteAt response (meteredLaneCtlAt i + 1)
  plan := (List.range MAX_METERED_LANES).map fun i => byteAt response (meteredLaneCtlAt i + 4)
  computationFinished := computationFinished
  meteringRate :=
    (List.range MAX_METERED_LANES).map fun i => wordAt response (meteredLaneStatAt i + 6)
  planBaseLvl :=
    (List.range MAX_METERED_LANES).map fun i => byteAt response (meteredLaneCtlAt i + 5)
  rm2rmcCtr := rm2rmcCtr
  numAddlDet := byteAt response 24
  additionalDet := bytesAt response (additionalDetAt 0) (sizeofAddlDetStat * MAX_OFFRAMPS)

/-- The locals of the loop over the metered lanes.  The sums are whole numbers, which the
program keeps in doubles. -/
structure Computation where
  compFinishedTemp : Int
  compFinishedSav : Int
  timeSav : Float
  computationFinished : Byte

/-- One metered lane: its volumes are added up, and the computation counts as finished when
the sum has changed or thirty seconds are over. -/
def Computation.lane (response : List Byte) (currTime : Float) (c : Computation) (i : Nat) :
    Computation :=
  let compFinishedTemp := c.compFinishedTemp +
    ((byteAt response (meteredLaneStatAt i)).toInt +
      (byteAt response (meteredLaneStatAt i + 2)).toInt +
      (byteAt response (mainlineStatAt i + 1)).toInt +
      (byteAt response (mainlineStatAt i + 5)).toInt +
      (byteAt response (queueStatAt i 0)).toInt)
  if compFinishedTemp ≠ c.compFinishedSav ∨ currTime + 0.025 - c.timeSav ≥ 30.0 then
    { compFinishedTemp := compFinishedTemp
      compFinishedSav :=
        if compFinishedTemp ≠ c.compFinishedSav then compFinishedTemp else c.compFinishedSav
      timeSav := currTime
      computationFinished := 1 }
  else { c with compFinishedTemp := compFinishedTemp, computationFinished := 0 }

/-! ## The main loop -/

/-- What the four variables hold. -/
structure Published (Timestamp : Type) where
  dbUrmsStatus : DbUrmsStatus
  urmsDatafile : UrmsDatafile
  dbUrmsStatus2 : DbUrmsStatus2 Timestamp
  dbUrmsStatus3 : DbUrmsStatus3

/-- The main loop between two polls, and the published variables: `none` as long as nothing
has been written to them. -/
structure State (Timestamp : Type) where
  genMess : Mem Byte
  rm2rmcCtr : Byte
  compFinishedSav : Int
  timeSav : Float
  published : Option (Published Timestamp)

/-- The main loop before its first poll, with anything in the union. -/
def initial (Timestamp : Type) (genMess : Mem Byte) : State Timestamp where
  genMess := genMess
  rm2rmcCtr := 0
  compFinishedSav := 0
  timeSav := 0
  published := none

/-- The status of a response, copied out and published. -/
def State.publish (s : State Timestamp) (genMess : Mem Byte) (p : Poll Timestamp) :
    State Timestamp × List (Published Timestamp) :=
  let response := urmsStatusResponse genMess
  let c := (List.range MAX_METERED_LANES).foldl (Computation.lane response p.currTime)
    { compFinishedTemp := 0
      compFinishedSav := s.compFinishedSav
      timeSav := s.timeSav
      computationFinished := 0 }
  let status : Published Timestamp :=
    { dbUrmsStatus := dbUrmsStatusOf response
      urmsDatafile := urmsDatafileOf response
      dbUrmsStatus2 := { ts := p.ts, queueStat := queueStatOf response }
      dbUrmsStatus3 := dbUrmsStatus3Of response s.rm2rmcCtr c.computationFinished }
  ({ genMess := genMess
     rm2rmcCtr := s.rm2rmcCtr + 1
     compFinishedSav := c.compFinishedSav
     timeSav := c.timeSav
     published := some status }, [status])

/-- A timer trigger of the main loop. -/
def State.poll (s : State Timestamp) (p : Poll Timestamp) :
    State Timestamp × List (Published Timestamp) :=
  let (genMess, status) := urmsGetStatus s.genMess p
  if status < 0 then ({ s with genMess := genMess }, [])
  else s.publish genMess p

/-- The polls of a run, with the statuses they publish. -/
def polls (Timestamp : Type) : Machine (State Timestamp) (Poll Timestamp) (Published Timestamp) :=
  { step := State.poll }

/-- The poll's read delivers a response of full length. -/
def Poll.full (p : Poll Timestamp) : Bool :=
  p.written && p.read.any fun input => input.bytes.length == sizeofUrmsStatusResponse

/-- The poll's read delivers fewer bytes than a response has. -/
def Poll.short (p : Poll Timestamp) : Bool :=
  p.written && p.read.any fun input => input.bytes.length < sizeofUrmsStatusResponse

/-- The polls of a run up to the last one with a response of full length. -/
def throughLastFull (ps : List (Poll Timestamp)) : List (Poll Timestamp) :=
  ps.rdropWhile fun p => !p.full

/-- The status that is published shows a response: all of it but the stamp, the counter
and the flag of the finished computation, which the main loop adds. -/
def Published.Shows (status : Published Timestamp) (response : List Byte) : Prop :=
  status.dbUrmsStatus = dbUrmsStatusOf response ∧
    status.urmsDatafile = urmsDatafileOf response ∧
    status.dbUrmsStatus2.queueStat = queueStatOf response ∧
    status.dbUrmsStatus3 = dbUrmsStatus3Of response status.dbUrmsStatus3.rm2rmcCtr
      status.dbUrmsStatus3.computationFinished

/-- A poll that follows others from the start: one whose read is not of full length leaves
in place what the last one of full length published, and a status that it does publish
shows what its own read brought, whatever else the union may hold. -/
def Keeps (genMess : Mem Byte) (pre : List (Poll Timestamp)) (s : State Timestamp)
    (p : Poll Timestamp) : Prop :=
  (p.full = false →
    (s.poll p).1.published =
      ((polls Timestamp).run (initial Timestamp genMess) (throughLastFull pre)).published) ∧
  ∀ status ∈ (s.poll p).2, ∃ input, p.read = some input ∧
    ∀ m : Mem Byte, m.Holds 0 input.bytes → status.Shows (urmsStatusResponse m)

/-! ## What a poll does -/

theorem Poll.full_eq_not_short {p : Poll Timestamp} {input : Response} (hwritten : p.written = true)
    (hread : p.read = some input) : p.full = !p.short := by
  have hle := input.length_le
  simp only [Poll.full, Poll.short, hwritten, hread, Option.any_some, Bool.true_and,
    Bool.eq_not_iff, beq_eq_decide]
  grind

theorem Poll.not_full_of_short {p : Poll Timestamp} (h : p.short = true) : p.full = false := by
  obtain ⟨hwritten, input, hread, -⟩ : p.written = true ∧
      ∃ input, p.read = some input ∧ input.bytes.length < sizeofUrmsStatusResponse := by
    simpa [Poll.short, Option.any_eq_true] using h
  rw [Poll.full_eq_not_short hwritten hread, h]
  rfl

theorem Poll.full_iff {p : Poll Timestamp} :
    p.full = true ↔ p.written = true ∧
      ∃ input, p.read = some input ∧ input.bytes.length = sizeofUrmsStatusResponse := by
  simp [Poll.full, Option.any_eq_true]

/-- A poll whose write or read fails leaves the published variables alone; any other one
publishes what is in the union, of full length or not. -/
theorem State.poll_cases (s : State Timestamp) (p : Poll Timestamp) :
    (p.full = false ∧ p.short = false ∧ ∃ genMess, s.poll p = ({ s with genMess := genMess }, [])) ∨
    ∃ input, p.written = true ∧ p.read = some input ∧
      s.poll p = s.publish ((s.genMess.write 0 urmspoll2).write 0 input.bytes) p := by
  cases hwritten : p.written with
  | false =>
      refine Or.inl ⟨?_, ?_, s.genMess.write 0 urmspoll2, ?_⟩
      · simp [Poll.full, hwritten]
      · simp [Poll.short, hwritten]
      · simp [State.poll, urmsGetStatus, hwritten]
  | true =>
      cases hread : p.read with
      | none =>
          refine Or.inl ⟨?_, ?_, s.genMess.write 0 urmspoll2, ?_⟩
          · simp [Poll.full, hread]
          · simp [Poll.short, hread]
          · simp [State.poll, urmsGetStatus, hwritten, hread]
      | some input =>
          refine Or.inr ⟨input, rfl, rfl, ?_⟩
          simp [State.poll, urmsGetStatus, hwritten, hread]

theorem State.publish_published (s : State Timestamp) (genMess : Mem Byte) (p : Poll Timestamp) :
    ∃ status, (s.publish genMess p).1.published = some status ∧
      (s.publish genMess p).2 = [status] ∧
      status.dbUrmsStatus3.rm2rmcCtr = s.rm2rmcCtr ∧
      (s.publish genMess p).1.rm2rmcCtr = s.rm2rmcCtr + 1 ∧
      status.Shows (urmsStatusResponse genMess) :=
  ⟨_, rfl, rfl, rfl, rfl, rfl, rfl, rfl, rfl⟩

/-- A union that holds a response of full length holds it as its response. -/
theorem urmsStatusResponse_of_holds {m : Mem Byte} {bytes : List Byte} (h : m.Holds 0 bytes)
    (hlength : bytes.length = sizeofUrmsStatusResponse) : urmsStatusResponse m = bytes := by
  rw [urmsStatusResponse, ← hlength]
  exact (m.holds_iff_take 0 bytes).mp h

/-! ## Runs of polls -/

variable (genMess : Mem Byte)

theorem throughLastFull_full (ps : List (Poll Timestamp)) {p : Poll Timestamp}
    (h : p.full = true) : throughLastFull (ps ++ [p]) = ps ++ [p] := by
  apply List.rdropWhile_concat_neg
  simp [h]

theorem throughLastFull_not_full (ps : List (Poll Timestamp)) {p : Poll Timestamp}
    (h : p.full = false) : throughLastFull (ps ++ [p]) = throughLastFull ps := by
  apply List.rdropWhile_concat_pos
  simp [h]

/-- The counter is one ahead of the published one. -/
def CounterAhead (s : State Timestamp) : Prop :=
  ∀ status, s.published = some status → s.rm2rmcCtr = status.dbUrmsStatus3.rm2rmcCtr + 1

theorem CounterAhead.poll {s : State Timestamp} (h : CounterAhead s) (p : Poll Timestamp) :
    CounterAhead (s.poll p).1 := by
  rcases s.poll_cases p with ⟨-, -, genMess, hfailed⟩ | ⟨input, -, -, hpublish⟩
  · rw [hfailed]
    exact h
  · rw [hpublish]
    obtain ⟨status, hpublished, -, hctr, hnext, -⟩ := s.publish_published
      ((s.genMess.write 0 urmspoll2).write 0 input.bytes) p
    intro status' hpublished'
    obtain rfl := Option.some.inj (hpublished.symm.trans hpublished')
    rw [hnext, hctr]

/-- After every run the counter is one ahead. -/
theorem counterAhead_run (ps : List (Poll Timestamp)) :
    CounterAhead ((polls Timestamp).run (initial Timestamp genMess) ps) := by
  let Inv : List (Poll Timestamp) → State Timestamp → Prop := fun _ => CounterAhead
  have hstart : Inv [] (initial Timestamp genMess) := by
    intro status hnone
    exact absurd hnone (by simp [initial])
  have hstep : ∀ pre s p, Inv pre s → Inv (pre ++ [p]) ((polls Timestamp).step s p).1 := by
    intro pre s p hs
    exact CounterAhead.poll hs p
  exact (polls Timestamp).inv_run hstart hstep ps

/-- A short read changes what is published: the new status has the counter after that of
the one before. -/
theorem State.poll_short {s : State Timestamp} (h : CounterAhead s) {p : Poll Timestamp}
    (hshort : p.short = true) : (s.poll p).1.published ≠ s.published := by
  rcases s.poll_cases p with ⟨-, hnot, -⟩ | ⟨input, -, -, hpublish⟩
  · rw [hnot] at hshort
    exact absurd hshort (by decide)
  · obtain ⟨status, hpublished, -, hctr, -⟩ := s.publish_published
      ((s.genMess.write 0 urmspoll2).write 0 input.bytes) p
    rw [hpublish, hpublished]
    intro hsame
    have hahead := h status hsame.symm
    rw [hctr] at hahead
    exact absurd hahead (by simp)

/-- A poll that is not short leaves alone or publishes its whole response. -/
theorem State.poll_not_short (s : State Timestamp) {p : Poll Timestamp}
    (hshort : p.short = false) :
    (p.full = false → (s.poll p).1.published = s.published) ∧
      ∀ status ∈ (s.poll p).2, ∃ input, p.read = some input ∧
        ∀ m : Mem Byte, m.Holds 0 input.bytes → status.Shows (urmsStatusResponse m) := by
  rcases s.poll_cases p with ⟨-, -, genMess, hfailed⟩ | ⟨input, hwritten, hread, hpublish⟩
  · rw [hfailed]
    exact ⟨fun _ => rfl, by simp⟩
  · have hfull : p.full = true := by
      rw [Poll.full_eq_not_short hwritten hread, hshort]
      rfl
    obtain ⟨-, input', hread', hlength⟩ := Poll.full_iff.mp hfull
    obtain rfl := Option.some.inj (hread.symm.trans hread')
    refine ⟨fun hnot => absurd (hfull.symm.trans hnot) (by decide), ?_⟩
    obtain ⟨status, -, hout, -, -, hshows⟩ := s.publish_published
      ((s.genMess.write 0 urmspoll2).write 0 input.bytes) p
    rw [hpublish, hout]
    intro status' hmem
    obtain rfl := List.mem_singleton.mp hmem
    refine ⟨input, hread, ?_⟩
    intro m hm
    rw [urmsStatusResponse_of_holds (Mem.write_holds _ 0 input.bytes) hlength] at hshows
    rw [urmsStatusResponse_of_holds hm hlength]
    exact hshows

/-- Where every poll keeps the rule, the published variables are those that the last poll
of full length left. -/
theorem published_of_keeps {ps : List (Poll Timestamp)}
    (h : (polls Timestamp).Along (initial Timestamp genMess) (Keeps genMess) ps) :
    ((polls Timestamp).run (initial Timestamp genMess) ps).published =
      ((polls Timestamp).run (initial Timestamp genMess) (throughLastFull ps)).published := by
  cases ps using List.reverseRecOn with
  | nil => rfl
  | append_singleton ps p =>
      cases hfull : p.full with
      | true => rw [throughLastFull_full ps hfull]
      | false =>
          rw [throughLastFull_not_full ps hfull, Machine.run_concat]
          exact (h ps p [] rfl).1 hfull

/-- Without short reads the published variables are those that the last poll of full length
left. -/
theorem published_of_no_short {ps : List (Poll Timestamp)} (h : ∀ p ∈ ps, p.short = false) :
    ((polls Timestamp).run (initial Timestamp genMess) ps).published =
      ((polls Timestamp).run (initial Timestamp genMess) (throughLastFull ps)).published := by
  induction ps using List.reverseRecOn with
  | nil => rfl
  | append_singleton ps p ih =>
      cases hfull : p.full with
      | true => rw [throughLastFull_full ps hfull]
      | false =>
          have hkept := ((polls Timestamp).run (initial Timestamp genMess) ps).poll_not_short
            (h p (by simp))
          rw [throughLastFull_not_full ps hfull, Machine.run_concat,
            ← ih (fun q hq => h q (List.mem_append_left [p] hq))]
          exact hkept.1 hfull

/-- **The polls keep the published status exactly without short reads.**  In a run from
the start, every poll without a response of full length leaves what the last full one
published, and every status shows its own response alone, if and only if no read delivers
fewer bytes than a response has. -/
theorem polls_keep_iff (ps : List (Poll Timestamp)) :
    (polls Timestamp).Along (initial Timestamp genMess) (Keeps genMess) ps ↔
      ∀ p ∈ ps, p.short = false := by
  constructor
  · intro h p hp
    obtain ⟨pre, post, rfl⟩ := List.append_of_mem hp
    have hkept := published_of_keeps genMess h.init
    rw [Bool.eq_false_iff]
    intro hshort
    have hstep := (h pre p post rfl).1 (Poll.not_full_of_short hshort)
    rw [← hkept] at hstep
    exact State.poll_short (counterAhead_run genMess pre) hshort hstep
  · intro h pre p post hsplit
    obtain ⟨hkeep, hshows⟩ := ((polls Timestamp).run (initial Timestamp genMess) pre).poll_not_short
      (h p (by simp [hsplit]))
    refine ⟨?_, hshows⟩
    intro hfull
    rw [hkeep hfull]
    apply published_of_no_short
    intro q hq
    exact h q (by simp [hsplit, hq])

/-! ## A connection at its end -/

/-- A poll whose read is at the end of the file. -/
def endOfFile : Poll Unit where
  written := true
  read := some ⟨[], Nat.zero_le _⟩
  currTime := 0
  ts := ()

/-- A read of no bytes makes the main loop publish a status that no response brought. -/
theorem polls_publish_at_end_of_file :
    ¬ ∀ (genMess : Mem Byte) (ps : List (Poll Unit)),
      (polls Unit).Along (initial Unit genMess) (Keeps genMess) ps := by
  intro hall
  have hfirst := (hall (Mem.ofList 0 []) [endOfFile] [] endOfFile [] rfl).1 (by decide)
  obtain ⟨status, hpublished, -⟩ := (initial Unit (Mem.ofList 0 [])).publish_published
    (((Mem.ofList 0 []).write 0 urmspoll2).write 0 []) endOfFile
  exact absurd (hpublished.symm.trans hfirst) (by simp [throughLastFull, initial])

end RfsAtsc.UrmsPolls
