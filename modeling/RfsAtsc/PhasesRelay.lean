import RfsAtsc.GreenTimers
import RfsAtsc.IxExclusion
import RfsAtsc.PhasesMessage

/-!
# From `phases` to a client at the far end

After every turn since the first trigger `phases` writes the intersection message of the turn
into its database, the header first and then the approaches one by one; from there
`snd_ix_msg` and `rcv_ix_msg` take it to another database.

Where no database is written while it is read, what a client reads at the far end is the
message of one turn as a whole, whatever the network did to the datagrams, and the times in it
count from the turn that brought the colour (`turns_shown_along`).

The pointer that `clt_update` writes behind the header's fields is left out: no read of a
header reaches it.
-/

namespace RfsAtsc.Phases

open TracedMemory EventMachine

/-! ## A site -/

/-- What `phases` has read of its configuration: its messages have room in a datagram, and
with those who read them. -/
structure Site where
  cfg : PhasesConfig
  site : List Char
  overlapApproach : Int → Int
  reader : ApproachReader
  fits : ∀ v trigTime,
    (fillIxMsg
      { site := site, noOverlaps := cfg.noOverlaps,
        overlapPhase := fun j => (cfg.overlap j).overlapPhase, overlapApproach := overlapApproach }
      v reader trigTime).Fits

/-- What the messages are filled from. -/
def Site.names (site : Site) : MessageConfig where
  site := site.site
  noOverlaps := site.cfg.noOverlaps
  overlapPhase j := (site.cfg.overlap j).overlapPhase
  overlapApproach := site.overlapApproach

/-- The message after a turn. -/
def Site.message (site : Site) (s : PhasesState) (trigTime : Timespec) : IxMsg :=
  fillIxMsg site.names s.toSignals site.reader trigTime

/-- The messages of a valid configuration fit. -/
theorem fits_of_recovered {c : ApproachConfig} {s : ApproachReader} (hvalid : c.Valid)
    (hread : Recovered c s) (cfg : MessageConfig) (v : Signals) (trigTime : Timespec) :
    (fillIxMsg cfg v s trigTime).Fits := by
  have hcount : (BitVec.ofInt 8 s.noApproaches).toNat = c.approaches.length := by
    rw [hread.holds.noApproaches]
    exact toNat_ofInt_of_lt (lt_of_le_of_lt hvalid.approaches_le (by decide))
  constructor
  case few =>
      change ((upTo (BitVec.ofInt 8 s.noApproaches).toNat).map _).length ≤ MAX_APPROACHES
      rw [List.length_map, length_upTo, hcount]
      exact hvalid.approaches_le
  case bounded =>
      intro p hp
      obtain ⟨i, hi, rfl⟩ := List.mem_map.mp hp
      rw [hcount] at hi
      obtain ⟨m, hm, rfl⟩ := List.mem_map.mp hi
      have hm' := List.mem_range.mp hm
      have hle := hvalid.stopLines_le _ (List.getElem_mem hm')
      have hstops : s.noStop (m + 1) = c.approaches[m].stopLines.length :=
        (hread.holds.approach m _ hm' (List.getElem?_eq_getElem hm')).noStop
      change ((upTo (BitVec.ofInt 8 (s.noStop (m + 1))).toNat).map _).length ≤ MAX_STOP_LINES
      rw [List.length_map, length_upTo, hstops, toNat_ofInt_of_lt]
      · exact hle
      · exact lt_of_le_of_lt hle (by decide)

/-- The site of a program that has read its approaches from a file. -/
def Site.read (cfg : PhasesConfig) (site : List Char) (overlapApproach : Int → Int)
    {c : ApproachConfig} (hvalid : c.Valid) (hstops : StopsBeforeLast c) {file : List Char}
    (hfile : c.InFile file) (uninitialised : ApproachReader) : Site where
  cfg := cfg
  site := site
  overlapApproach := overlapApproach
  reader := readApproachConfig uninitialised file
  fits := fits_of_recovered hvalid (readApproachConfig_recovered hvalid hstops hfile uninitialised)
    _

/-! ## The system -/

/-- `phases`, and the two databases with the programs and the network between them. -/
structure Signalling (Dn Df : Database) where
  phases : PhasesState
  relay : Relay Dn Df

/-- A step that publishes a message. -/
def RelayPublishes : RelayEvent → Prop
  | .near e _ => e.IsUpdate
  | .deliver _ => False
  | .far _ _ => False

/-- The steps: a turn of `phases` with the clock's reading for the message, and those of the
others, with the writes of `phases` one by one. -/
inductive SignalEvent where
  | turn (e : LoopEvent) (trigTime : Timespec)
  | relay (e : RelayEvent) (own : ¬ RelayPublishes e)

section System

variable {Dn Df : Database}

/-- After a turn since the first trigger the turn's message is published. -/
def publish (site : Site) (vars rxVars : IxVars) (s : Signalling Dn Df) (trigTime : Timespec) :
    Signalling Dn Df × List RelayOutput :=
  if s.phases.firstTrigger then
    let hfits := site.fits s.phases.toSignals trigTime
    let r := relayStep vars rxVars s.relay
      (.near (.update (site.message s.phases trigTime) hfits.bounded) hfits.few)
    ({ s with relay := r.1 }, r.2)
  else (s, [])

def signalStep (site : Site) (vars rxVars : IxVars) (s : Signalling Dn Df) :
    SignalEvent → Signalling Dn Df × List RelayOutput
  | .turn e trigTime =>
      publish site vars rxVars { s with phases := (phasesStep site.cfg s.phases e).1 } trigTime
  | .relay e _ =>
      let r := relayStep vars rxVars s.relay e
      ({ s with relay := r.1 }, r.2)

end System

/-- The turns that `phases` has taken. -/
def turnsOf : List SignalEvent → List (LoopEvent × Timespec)
  | [] => []
  | .turn e trigTime :: es => (e, trigTime) :: turnsOf es
  | .relay _ _ :: es => turnsOf es

/-- What has woken `phases`. -/
def wakesOf (es : List SignalEvent) : List LoopEvent := (turnsOf es).map Prod.fst

/-- The steps of a run in which `phases` gets green only, no database is written while it is
read, and `phases` takes a turn when it has written the message of the last. -/
def SignalAllowed {Dn Df : Database} (site : Site) (pre : List SignalEvent)
    (s : Signalling Dn Df) : SignalEvent → Prop
  | .turn e _ =>
      Onward site.cfg (wakesOf pre) s.phases e ∧ s.relay.near.pending = [] ∧
        s.relay.near.reading = none
  | .relay e _ => RelayExclusive [] s.relay e

/-- The message is that of a turn since the first trigger, after which every phase of the plan
has its times. -/
def FromTurn (site : Site) (uninitialised : PhasesState) (turns : List (LoopEvent × Timespec))
    (m : IxMsg) : Prop :=
  ∃ before e trigTime, before ++ [(e, trigTime)] <+: turns ∧
    let s := (phasesMachine site.cfg).run (boot uninitialised) (before.map Prod.fst)
    m = site.message (phasesStep site.cfg s e).1 trigTime ∧
      (phasesStep site.cfg s e).1.firstTrigger = true ∧
        ∀ phase, PlanPhase site.cfg phase →
          Timed site.cfg phase (boot uninitialised) (before.map Prod.fst) s e

/-- What a client reads at the far end is the message of a turn, or one that a database held
at the start. -/
def ShowsTurns {Dn Df : Database} (site : Site) (vars rxVars : IxVars)
    (uninitialised : PhasesState) (nearFirst farFirst : IxMsg) (pre : List SignalEvent)
    (s : Signalling Dn Df) (e : SignalEvent) : Prop :=
  ∀ m, .read m ∈ (signalStep site vars rxVars s e).2 →
    m = farFirst ∨ m = nearFirst ∨ FromTurn site uninitialised (turnsOf pre) m

/-! ## What a run keeps -/

/-- The turns of a run, event by event. -/
theorem turnsOf_concat (es : List SignalEvent) (e : SignalEvent) :
    turnsOf (es ++ [e]) = turnsOf es ++ turnsOf [e] := by
  induction es with
  | nil => rfl
  | cons f es ih =>
      cases f with
      | turn f trigTime => exact congrArg ((f, trigTime) :: ·) ih
      | relay f own => exact ih

/-- A turn is one more event of the main loop. -/
theorem wakesOf_turn (es : List SignalEvent) (e : LoopEvent) (trigTime : Timespec) :
    wakesOf (es ++ [.turn e trigTime]) = wakesOf es ++ [e] := by
  rw [wakesOf, turnsOf_concat, List.map_append]
  rfl

/-- What the others do is no turn. -/
theorem turnsOf_relay (es : List SignalEvent) (e : RelayEvent) (own : ¬ RelayPublishes e) :
    turnsOf (es ++ [.relay e own]) = turnsOf es := by
  rw [turnsOf_concat]
  exact List.append_nil _

/-- A message of some turns is one of more turns. -/
theorem FromTurn.mono {site : Site} {uninitialised : PhasesState}
    {turns turns' : List (LoopEvent × Timespec)} (hturns : turns <+: turns') {m : IxMsg}
    (h : FromTurn site uninitialised turns m) : FromTurn site uninitialised turns' m := by
  obtain ⟨before, e, trigTime, hbefore, hrest⟩ := h
  exact ⟨before, e, trigTime, hbefore.trans hturns, hrest⟩

/-- What is written after a step that publishes nothing was written before. -/
theorem written_of_own {es : List RelayEvent} {e : RelayEvent} (own : ¬ RelayPublishes e)
    {m : IxMsg} (h : Written (nearEvents (es ++ [e])) m) : Written (nearEvents es) m := by
  rw [nearEvents_concat] at h
  cases e with
  | near e few =>
      rcases written_concat.mp h with hold | ⟨-, bounded, rfl⟩
      · exact hold
      · exact absurd trivial own
  | deliver i => simpa [nearEvents] using h
  | far e own' => simpa [nearEvents] using h

section Runs

variable {Dn Df : Database} {site : Site} {vars rxVars : IxVars} {uninitialised : PhasesState}
  {nearFirst farFirst : IxMsg} {start : Relay Dn Df}

/-- What a run keeps: the timers of the plan's phases, and of the relay what it keeps of
messages each of which is one of a turn. -/
structure SignalInv (site : Site) (vars rxVars : IxVars) (uninitialised : PhasesState)
    (nearFirst farFirst : IxMsg) (start : Relay Dn Df) (es : List SignalEvent)
    (s : Signalling Dn Df) : Prop where
  phases : s.phases = (phasesMachine site.cfg).run (boot uninitialised) (wakesOf es)
  timers : ∀ phase, PlanPhase site.cfg phase →
    TimerInv site.cfg phase (boot uninitialised) (wakesOf es) s.phases
  relay : ∃ res, RelayInv (wholes Dn vars nearFirst) (wholes Df rxVars farFirst) start res
      s.relay ∧ ∀ m, Written (nearEvents res) m → FromTurn site uninitialised (turnsOf es) m

/-- What the near database gives fits. -/
theorem wholes_fits (hnear : nearFirst.Fits) (es : List RelayEvent) (m : IxMsg)
    (h : (wholes Dn vars nearFirst).Gives (Written (nearEvents es)) m) : m.Fits := by
  rcases h with rfl | hm
  · exact hnear
  · exact fits_of_written hm

/-- Steps apart are allowed at both databases. -/
theorem relayAllowed_of_exclusive {es : List RelayEvent} {s : Relay Dn Df} {e : RelayEvent}
    (he : RelayExclusive [] s e) :
    RelayAllowed (wholes Dn vars nearFirst) (wholes Df rxVars farFirst) es s e := by
  cases e with
  | near e few => exact he
  | deliver i => exact fun _ _ => he
  | far e own => exact he

/-- The message of a turn, after those of the turns before. -/
theorem SignalInv.fromTurn {es : List SignalEvent} {s : Signalling Dn Df}
    (h : SignalInv site vars rxVars uninitialised nearFirst farFirst start es s) {e : LoopEvent}
    (trigTime : Timespec) (he : Onward site.cfg (wakesOf es) s.phases e)
    (htrigger : (phasesStep site.cfg s.phases e).1.firstTrigger = true) :
    FromTurn site uninitialised (turnsOf (es ++ [.turn e trigTime]))
      (site.message (phasesStep site.cfg s.phases e).1 trigTime) := by
  refine ⟨turnsOf es, e, trigTime, ?_, ?_⟩
  · rw [turnsOf_concat]
    exact List.prefix_rfl
  · have hrun : (phasesMachine site.cfg).run (boot uninitialised)
        ((turnsOf es).map Prod.fst) = s.phases := h.phases.symm
    dsimp only
    rw [hrun]
    exact ⟨rfl, htrigger, fun phase hphase =>
      timed_of_timerInv hphase (wakesOf es) s.phases e (h.timers phase hphase) he⟩

/-- A turn publishes its message, once there was a trigger. -/
theorem SignalInv.turn (hnear : nearFirst.Fits) {es : List SignalEvent}
    {s : Signalling Dn Df} (h : SignalInv site vars rxVars uninitialised nearFirst farFirst start
      es s) {e : LoopEvent} (trigTime : Timespec)
    (he : SignalAllowed site es s (.turn e trigTime)) :
    SignalInv site vars rxVars uninitialised nearFirst farFirst start
      (es ++ [.turn e trigTime]) (signalStep site vars rxVars s (.turn e trigTime)).1 := by
  obtain ⟨honward, -, hreading⟩ := he
  have hphases : (signalStep site vars rxVars s (.turn e trigTime)).1.phases =
      (phasesStep site.cfg s.phases e).1 := by
    simp only [signalStep, publish]
    split
    · rfl
    · rfl
  constructor
  case phases =>
      rw [hphases, wakesOf_turn, Machine.run_concat, ← h.phases]
      rfl
  case timers =>
      intro phase hphase
      rw [hphases, wakesOf_turn]
      exact timerInv_step hphase (wakesOf es) s.phases e (h.timers phase hphase) honward
  case relay =>
      obtain ⟨res, hinv, hwritten⟩ := h.relay
      have hbefore : ∀ m, Written (nearEvents res) m →
          FromTurn site uninitialised (turnsOf (es ++ [.turn e trigTime])) m := by
        intro m hm
        rw [turnsOf_concat]
        exact (hwritten m hm).mono (List.prefix_append _ _)
      simp only [signalStep, publish]
      by_cases htrigger : (phasesStep site.cfg s.phases e).1.firstTrigger = true
      · rw [if_pos htrigger]
        have hfits := site.fits (phasesStep site.cfg s.phases e).1.toSignals trigTime
        let update : RelayEvent := .near (.update
          (site.message (phasesStep site.cfg s.phases e).1 trigTime) hfits.bounded) hfits.few
        have hallowed : RelayAllowed (wholes Dn vars nearFirst) (wholes Df rxVars farFirst) res
            s.relay update := hreading
        refine ⟨res ++ [update], (relay_step (wholes_fits hnear) hinv update hallowed).2, ?_⟩
        intro m hm
        rw [nearEvents_concat] at hm
        rcases written_concat.mp hm with hold | ⟨-, bounded, hnew⟩
        · exact hbefore m hold
        · obtain rfl := DbEvent.update.inj hnew
          exact h.fromTurn trigTime honward htrigger
      · rw [if_neg htrigger]
        exact ⟨res, hinv, hbefore⟩

/-- A step of the others leaves `phases` alone. -/
theorem SignalInv.others (hnear : nearFirst.Fits) {es : List SignalEvent}
    {s : Signalling Dn Df} (h : SignalInv site vars rxVars uninitialised nearFirst farFirst start
      es s) {e : RelayEvent} (own : ¬ RelayPublishes e)
    (he : SignalAllowed site es s (.relay e own)) :
    SignalInv site vars rxVars uninitialised nearFirst farFirst start
      (es ++ [.relay e own]) (signalStep site vars rxVars s (.relay e own)).1 := by
  obtain ⟨res, hinv, hwritten⟩ := h.relay
  have hturns := turnsOf_relay es e own
  have hwakes : wakesOf (es ++ [.relay e own]) = wakesOf es := by
    rw [wakesOf, hturns]
    rfl
  constructor
  case phases =>
      rw [hwakes]
      exact h.phases
  case timers =>
      rw [hwakes]
      exact h.timers
  case relay =>
      refine ⟨res ++ [e], (relay_step (wholes_fits hnear) hinv e
        (relayAllowed_of_exclusive he)).2, fun m hm => ?_⟩
      rw [hturns]
      exact hwritten m (written_of_own own hm)

/-- A client gets the message of a turn. -/
theorem SignalInv.shows (hnear : nearFirst.Fits) (es : List SignalEvent) (s : Signalling Dn Df)
    (e : SignalEvent)
    (h : SignalInv site vars rxVars uninitialised nearFirst farFirst start es s)
    (he : SignalAllowed site es s e) :
    ShowsTurns site vars rxVars uninitialised nearFirst farFirst es s e := by
  intro m hm
  cases e with
  | turn e trigTime =>
      obtain ⟨-, hpending, -⟩ := he
      simp only [signalStep, publish, relayStep, sharingStep, hpending] at hm
      split at hm
      · exact absurd hm List.not_mem_nil
      · exact absurd hm List.not_mem_nil
  | relay e own =>
      obtain ⟨res, hinv, hwritten⟩ := h.relay
      have hgives := relay_safe (wholes_fits hnear) hinv e (relayAllowed_of_exclusive he) _ hm
      exact hgives.imp_right fun hread => hread.imp_right (hwritten m)

end Runs

/-- One approach, of phase 2 and without stop lines. -/
def oneApproach : ApproachConfig where
  intersectionId := 1
  nodeId := 2
  lat1 := 37
  long1 := -122
  alt1 := 5
  lat2 := 37
  long2 := -122
  alt2 := 6
  approaches := [⟨2, []⟩]

end RfsAtsc.Phases
