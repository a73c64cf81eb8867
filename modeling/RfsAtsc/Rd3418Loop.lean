import RfsAtsc.ColorInference
import RfsAtsc.Rd3418
import RfsAtsc.RoundTrip

/-!
# From the serial port to the colours: `rd3418` and `phases`

The main loop of `rd3418` reads one message after another, takes the greens out of
each long status, and writes them to the database when they are not those of the
status before.  Every write triggers the main loop of `phases`, which infers the
colours.

The two are put together here: bytes come in at the port of the one, and the other
shows colours.  What it shows is then a matter of what the controller's messages have
said (`shown_along_iff`), although most of them never reach it.
-/

namespace RfsAtsc.Rd3418

open TracedMemory ByteStuffing EventMachine Phases

/-! ## The main loop of `rd3418` -/

/-- What the loop keeps: the bytes at the port, and its variables. -/
structure LoopState where
  port : List Byte
  readBuff : Mem Byte
  atsc : AtscTyp
  lastGreens : Byte

/-- The active phases, without those of a ring in one of its last four intervals. -/
def decodeGreens (activePhase interval : Byte) : Byte :=
  let greens := activePhase
  let intervalMask := interval &&& 0x0f
  let greens :=
    if intervalMask = 0x0c ∨ intervalMask = 0x0d ∨ intervalMask = 0x0e ∨ intervalMask = 0x0f then
      greens &&& 0xf0
    else greens
  let intervalMask := interval &&& 0xf0
  if intervalMask = 0xc0 ∨ intervalMask = 0xd0 ∨ intervalMask = 0xe0 ∨ intervalMask = 0xf0 then
    greens &&& 0x0f
  else greens

/-- The record with new greens of phases 1 to 8; nothing else in it is ever set. -/
def record (atsc : AtscTyp) (greens : Byte) : AtscTyp :=
  { atsc with
    phaseStatusGreens := Function.update atsc.phaseStatusGreens 0 greens
    infoSource := ATSC_SOURCE_AB3418 }

/-- `switch (readBuff.data[4])`, with the records written to the database. -/
def takeMessage (s : LoopState) : LoopState × List AtscTyp :=
  if s.readBuff.cell 4 = 0xcc then
    let atsc := record s.atsc (decodeGreens (s.readBuff.cell 12) (s.readBuff.cell 13))
    ({ s with atsc := atsc, lastGreens := atsc.phaseStatusGreens 0 },
      if atsc.phaseStatusGreens 0 ≠ s.lastGreens then [atsc] else [])
  else (s, [])

/-- One turn of the loop, once the request is out; none while the port is silent. -/
def turn (s : LoopState) (stack : Mem Byte) : Option (LoopState × List AtscTyp) :=
  let r := serDriverRead s.port s.readBuff stack
  let s := { s with port := r.port, readBuff := r.messagebuff }
  r.ret.map fun ok => if ok then takeMessage s else (s, [])

/-! ## Messages at the port -/

/-- A message behind anything but a flag, with its opening flag doubled or not; its
check may be wrong. -/
structure Arrival where
  junk : List Byte
  doubled : Bool
  address : Byte
  rest : List Byte
  flagless : 0x7e ∉ junk
  plain : hdlc.Plain address
  fits : (address :: rest).length ≤ 94

namespace Arrival

def content (a : Arrival) : List Byte := a.address :: a.rest

/-- The bytes on the line. -/
def wire (a : Arrival) : List Byte :=
  a.junk ++ 0x7e :: ((if a.doubled then [0x7e] else []) ++ stuff hdlc a.content ++ [0x7e])

/-- A byte of the message that is delivered. -/
def byte (a : Arrival) (i : ℕ) : Byte := (messageData 0x7e a.content).getD i 0

/-- The greens that the message says there are, if it is a long status and its check is
right. -/
def greens (a : Arrival) : Option Byte :=
  if checkModframeString a.content = PPPGOODFCS ∧ a.byte 4 = 0xcc then
    some (decodeGreens (a.byte 12) (a.byte 13))
  else none

end Arrival

theorem Arrival.spells (a : Arrival) :
    ∃ u, a.wire = a.junk ++ 0x7e :: u ∧ Spells (0x7e :: u) 0x7e a.content [0x7e] := by
  refine ⟨_, rfl, ?_⟩
  cases a.doubled with
  | true => exact ⟨0x7e, a.content, by simp, rfl⟩
  | false => exact spells_stuffed a.plain 0x7e a.rest [0x7e]

/-- What the loop holds after a message with the greens it says, and what it writes. -/
def afterGreens (s : LoopState) (readBuff : Mem Byte) : Option Byte → LoopState × List AtscTyp
  | none => ({ s with port := [], readBuff := readBuff }, [])
  | some greens =>
      ({ port := [], readBuff := readBuff, atsc := record s.atsc greens, lastGreens := greens },
        if greens ≠ s.lastGreens then [record s.atsc greens] else [])

/-- **One message, one turn.**  The turn takes the message off the port, and writes its
greens when they are new. -/
theorem turn_arrival {s : LoopState} (hport : s.port = []) (a : Arrival) (stack : Mem Byte) :
    ∃ readBuff, turn { s with port := s.port ++ a.wire } stack =
      some (afterGreens s readBuff a.greens) := by
  obtain ⟨u, hwire, hspells⟩ := a.spells
  obtain ⟨hret, hrest, hheld⟩ := serDriverRead_flag a.flagless hspells a.fits s.readBuff stack
  rw [← hwire] at hret hrest hheld
  refine ⟨(serDriverRead a.wire s.readBuff stack).messagebuff, ?_⟩
  have hbyte : ∀ i : ℕ, i < 100 →
      (serDriverRead a.wire s.readBuff stack).messagebuff.cell i = a.byte i := by
    intro i hi
    have hfits : a.content.length ≤ 98 := Nat.le_trans a.fits (by decide)
    have hlen : i < (messageData 0x7e a.content).length := by
      rwa [messageData_length 0x7e hfits]
    have hcell := hheld.cell_eq hlen
    rw [zero_add] at hcell
    rw [hcell, Arrival.byte, List.getD_eq_getElem?_getD, List.getElem?_eq_getElem hlen]
    rfl
  rw [turn, hport, List.nil_append, hret, hrest, Option.map_some, Arrival.greens]
  by_cases hgood : checkModframeString a.content = PPPGOODFCS
  · simp only [hgood, decide_true, if_true, takeMessage, true_and]
    rw [show (4 : Int) = (4 : ℕ) from rfl, show (12 : Int) = (12 : ℕ) from rfl,
      show (13 : Int) = (13 : ℕ) from rfl, hbyte 4 (by decide), hbyte 12 (by decide),
      hbyte 13 (by decide)]
    by_cases htype : a.byte 4 = 0xcc
    · rw [if_pos htype, if_pos htype]
      rfl
    · rw [if_neg htype, if_neg htype]
      rfl
  · simp only [hgood, decide_false, false_and, if_false, Bool.false_eq_true]
    rfl

/-! ## Both programs together -/

/-- A message comes in, with whatever is on the stack of its reader, or the timer of
`phases` goes off. -/
inductive Occurrence where
  | message (a : Arrival) (stack : Mem Byte)
  | timer

/-- What happens, the clock of `phases` when it began to wait for it, and the clock
then. -/
structure SystemEvent where
  clock : ℚ≥0
  what : Occurrence
  time : ℚ≥0

structure SystemState where
  reader : LoopState
  loop : PhasesState

/-- What `rd3418` holds after an event, and the turns of `phases` that the event brings:
one for each write, and one for the timer. -/
def SystemEvent.turns (j : SystemEvent) (reader : LoopState) : LoopState × List LoopEvent :=
  match j.what with
  | .message a stack =>
      let reader := { reader with port := reader.port ++ a.wire }
      match turn reader stack with
      | none => (reader, [])
      | some (reader, records) =>
          (reader, records.map fun r => { clock := j.clock, trigger := .atsc r, time := j.time })
  | .timer => (reader, [{ clock := j.clock, trigger := .timer, time := j.time }])

/-- The two programs, with the turns of `phases` as what they give out. -/
def system (cfg : PhasesConfig) : Machine SystemState SystemEvent LoopEvent where
  step s j :=
    let (reader, turns) := j.turns s.reader
    ({ reader := reader, loop := (phasesMachine cfg).run s.loop turns }, turns)

/-- Before the first event: nothing at the port, and anything at all in the variables
that are not initialised. -/
def SystemState.initial (readBuff : Mem Byte) (atsc : AtscTyp) (uninitialised : PhasesState) :
    SystemState where
  reader := { port := [], readBuff := readBuff, atsc := atsc, lastGreens := 0 }
  loop := boot uninitialised

/-! ## What the messages have shown -/

/-- A phase's green as the messages have shown it.  `off` has the clocks of the message
that first showed it clear. -/
inductive Shown where
  | unseen
  | on
  | off (clock time : ℚ≥0)

/-- The greens say that the phase is green. -/
def IsGreen (greens : Byte) (phase : Int) : Prop := greens.getLsbD (phase - 1).toNat = true

instance (greens : Byte) (phase : Int) : Decidable (IsGreen greens phase) :=
  inferInstanceAs (Decidable (_ = _))

def Shown.seeGreens (phase : Int) (view : Shown) (clock time : ℚ≥0) (greens : Byte) : Shown :=
  if IsGreen greens phase then .on
  else
    match view with
    | .unseen => .unseen
    | .on => .off clock time
    | .off clock time => .off clock time

def Shown.see (phase : Int) (view : Shown) (j : SystemEvent) : Shown :=
  match j.what with
  | .message a _ =>
      match a.greens with
      | none => view
      | some greens => view.seeGreens phase j.clock j.time greens
  | .timer => view

def shown (phase : Int) (history : List SystemEvent) : Shown :=
  history.foldl (Shown.see phase) .unseen

theorem shown_concat (phase : Int) (history : List SystemEvent) (j : SystemEvent) :
    shown phase (history ++ [j]) = (shown phase history).see phase j := by
  rw [shown, List.foldl_append]
  rfl

/-- The colour after a turn is the one to infer from what has been shown. -/
def Shown.Color (cfg : PhasesConfig) (phase : Int) (view : Shown) (loop : PhasesState)
    (e : LoopEvent) : Prop :=
  let color := (phasesStep cfg loop e).1.signalColor phase
  match view with
  | .unseen => e.IsAtsc → color = SIGNAL_STATE_UNKNOWN
  | .on => color = SIGNAL_STATE_GREEN
  | .off _ time =>
      color = if (e.time : ℚ) - time ≤ cfg.plan.yellowOf phase then SIGNAL_STATE_YELLOW
        else SIGNAL_STATE_RED

/-- Nothing decoded before the first green stands in the way, and the readings of the clock
put the turn on the side of the yellow's end on which its own time does. -/
def Shown.InStep (cfg : PhasesConfig) (phase : Int) (view : Shown) (loop : PhasesState)
    (e : LoopEvent) : Prop :=
  match view with
  | .unseen => e.IsAtsc → loop.Unmarked phase
  | .on => True
  | .off clock time =>
      (e.clock : ℚ) - clock ≤ cfg.plan.yellowOf phase ↔
        (e.time : ℚ) - time ≤ cfg.plan.yellowOf phase

/-- In every turn of `phases` that the event brings, the phase gets the colour to infer
from the messages. -/
def ColorShown (cfg : PhasesConfig) (phase : Int) (pre : List SystemEvent) (s : SystemState)
    (j : SystemEvent) : Prop :=
  ∀ e ∈ ((system cfg).step s j).2, (shown phase (pre ++ [j])).Color cfg phase s.loop e

/-- In every turn that the event brings, the decoder is in step with the messages. -/
def ShownInStep (cfg : PhasesConfig) (phase : Int) (pre : List SystemEvent) (s : SystemState)
    (j : SystemEvent) : Prop :=
  ∀ e ∈ ((system cfg).step s j).2, (shown phase (pre ++ [j])).InStep cfg phase s.loop e

/-! ## Most messages do not matter -/

/-- The triggers have shown what the messages have. -/
def Agrees : GreenView → Shown → Prop
  | .unseen, .unseen => True
  | .on, .on => True
  | .off since, .off clock time => since.clock = clock ∧ since.time = time
  | _, _ => False

/-- The greens written last are the ones the messages have shown last. -/
def Shown.Last (phase : Int) (view : Shown) (greens : Byte) : Prop :=
  view = .on ↔ IsGreen greens phase

/-- The same greens once more show nothing new. -/
theorem Shown.Last.again {phase : Int} {view : Shown} {greens : Byte} (h : view.Last phase greens)
    (clock time : ℚ≥0) : view.seeGreens phase clock time greens = view := by
  unfold Shown.seeGreens
  by_cases hgreen : IsGreen greens phase
  · rw [if_pos hgreen]
    exact (h.mpr hgreen).symm
  · rw [if_neg hgreen]
    cases view with
    | unseen => rfl
    | on => exact absurd (h.mp rfl) hgreen
    | off clock time => rfl

theorem Shown.seeGreens_last (phase : Int) (view : Shown) (clock time : ℚ≥0) (greens : Byte) :
    (view.seeGreens phase clock time greens).Last phase greens := by
  unfold Shown.seeGreens Shown.Last
  by_cases hgreen : IsGreen greens phase
  · rw [if_pos hgreen]
    exact iff_of_true rfl hgreen
  · rw [if_neg hgreen]
    refine iff_of_false ?_ hgreen
    cases view
    all_goals exact nofun

/-- What one event does: it brings no turn of `phases`, because nothing is new, or one. -/
inductive Stepped (cfg : PhasesConfig) (s : SystemState) (j : SystemEvent) : Prop where
  /-- A message without greens, or with those written last. -/
  | idle (reader : LoopState)
      (step : (system cfg).step s j = ({ reader := reader, loop := s.loop }, []))
      (port : reader.port = []) (lastGreens : reader.lastGreens = s.reader.lastGreens)
      (same : ∀ phase (view : Shown), view.Last phase s.reader.lastGreens →
        view.see phase j = view)
  /-- A message with new greens. -/
  | published (reader : LoopState) (greens : Byte)
      (step : (system cfg).step s j =
        ({ reader := reader, loop := (phasesStep cfg s.loop
            ⟨j.clock, .atsc (record s.reader.atsc greens), j.time⟩).1 },
          [⟨j.clock, .atsc (record s.reader.atsc greens), j.time⟩]))
      (port : reader.port = []) (lastGreens : reader.lastGreens = greens)
      (seen : ∀ phase (view : Shown),
        view.see phase j = view.seeGreens phase j.clock j.time greens)
  | timer
      (step : (system cfg).step s j =
        ({ reader := s.reader, loop := (phasesStep cfg s.loop ⟨j.clock, .timer, j.time⟩).1 },
          [⟨j.clock, .timer, j.time⟩]))
      (seen : ∀ phase (view : Shown), view.see phase j = view)

theorem system_stepped (cfg : PhasesConfig) {s : SystemState} (hport : s.reader.port = [])
    (j : SystemEvent) : Stepped cfg s j := by
  obtain ⟨clock, what, time⟩ := j
  cases what with
  | timer => exact .timer rfl fun _ _ => rfl
  | message a stack =>
      obtain ⟨readBuff, hturn⟩ := turn_arrival hport a stack
      have hstep : (system cfg).step s ⟨clock, .message a stack, time⟩ =
          let after := afterGreens s.reader readBuff a.greens
          let turns := after.2.map fun r => (⟨clock, .atsc r, time⟩ : LoopEvent)
          ({ reader := after.1, loop := (phasesMachine cfg).run s.loop turns }, turns) := by
        simp only [system, SystemEvent.turns, hturn]
      cases hgreens : a.greens with
      | none =>
          refine .idle { s.reader with port := [], readBuff := readBuff } ?_ rfl rfl ?_
          · rw [hstep, hgreens]
            rfl
          · intro phase view _
            simp only [Shown.see, hgreens]
      | some greens =>
          rw [hgreens] at hstep
          have hsee : ∀ phase (view : Shown), view.see phase ⟨clock, .message a stack, time⟩ =
              view.seeGreens phase clock time greens := by
            intro phase view
            simp only [Shown.see, hgreens]
          let reader : LoopState :=
            { port := [], readBuff := readBuff, atsc := record s.reader.atsc greens,
              lastGreens := greens }
          by_cases hnew : greens = s.reader.lastGreens
          · refine .idle reader ?_ rfl hnew ?_
            · rw [hstep]
              simp only [afterGreens, if_neg (not_not_intro hnew)]
              rfl
            · intro phase view hlast
              rw [hsee, hnew]
              exact hlast.again clock time
          · refine .published reader greens ?_ rfl rfl hsee
            rw [hstep]
            simp only [afterGreens, if_pos hnew]
            rfl

/-- Both programs agree on a phase: the triggers have shown what the messages have, and the
last greens written are the last that were shown. -/
def SystemInv (cfg : PhasesConfig) (phase : Int) (pre : List SystemEvent) (s : SystemState) :
    Prop :=
  s.reader.port = [] ∧ (shown phase pre).Last phase s.reader.lastGreens ∧
    ∃ triggers, ColorInv cfg phase triggers s.loop ∧
      Agrees (greenView phase triggers) (shown phase pre)

theorem systemInv_initial (cfg : PhasesConfig) (phase : Int) (readBuff : Mem Byte)
    (atsc : AtscTyp) (uninitialised : PhasesState) :
    SystemInv cfg phase [] (SystemState.initial readBuff atsc uninitialised) := by
  refine ⟨rfl, ?_, [], colorInv_boot cfg phase uninitialised, trivial⟩
  refine iff_of_false nofun ?_
  simp [IsGreen, SystemState.initial]

/-- A record of `rd3418` shows a phase green as its greens do. -/
theorem isSet_record (atsc : AtscTyp) (greens : Byte) {phase : Int} (hlow : 1 ≤ phase)
    (hhigh : phase ≤ 8) :
    atscPhaseIsSet (record atsc greens).phaseStatusGreens phase = 1 ↔ IsGreen greens phase := by
  obtain ⟨k, hk, rfl⟩ : ∃ k : ℕ, k < 8 ∧ phase = k + 1 := ⟨(phase - 1).toNat, by omega, by omega⟩
  rw [atscPhaseIsSet_iff _ (by omega), Nat.div_eq_of_lt hk, Nat.mod_eq_of_lt hk, IsGreen]
  simp [record]

/-- A record and the message it comes from show the same. -/
theorem agrees_published {phase : Int} (hlow : 1 ≤ phase) (hhigh : phase ≤ 8) {view : GreenView}
    {view' : Shown} (h : Agrees view view') (clock time : ℚ≥0) (atsc : AtscTyp) (greens : Byte) :
    Agrees (view.see phase ⟨clock, .atsc (record atsc greens), time⟩)
      (view'.seeGreens phase clock time greens) := by
  have hset := isSet_record atsc greens hlow hhigh
  unfold Shown.seeGreens
  by_cases hgreen : IsGreen greens phase
  · simp only [GreenView.see, hset.mpr hgreen, if_true, hgreen]
    trivial
  · simp only [GreenView.see, mt hset.mp hgreen, if_false, hgreen]
    cases view with
    | unseen =>
        cases view' with
        | unseen => trivial
        | on => exact h
        | off clock time => exact h
    | on =>
        cases view' with
        | unseen => exact h
        | on => exact ⟨rfl, rfl⟩
        | off clock time => exact absurd h id
    | off since =>
        cases view' with
        | unseen => exact h
        | on => exact absurd h id
        | off clock time => exact h

/-- An event of `phases` that brings a record of `rd3418` brings green only. -/
theorem bringsGreenOnly_record (cfg : PhasesConfig) (clock time : ℚ≥0) (atsc : AtscTyp)
    (greens : Byte) :
    (⟨clock, .atsc (record atsc greens), time⟩ : LoopEvent).BringsGreenOnly cfg := .inr rfl

/-- Each event keeps the agreement. -/
theorem systemInv_step {cfg : PhasesConfig} {phase : Int} (hphase : PlanPhase cfg phase)
    (hhigh : phase ≤ 8) (pre : List SystemEvent) (s : SystemState) (j : SystemEvent)
    (h : SystemInv cfg phase pre s) :
    SystemInv cfg phase (pre ++ [j]) ((system cfg).step s j).1 := by
  obtain ⟨hport, hlast, triggers, hcolor, hagrees⟩ := h
  rw [SystemInv, shown_concat]
  cases system_stepped cfg hport j with
  | idle reader hstep hreader hgreens hsame =>
      rw [hstep, hsame phase _ hlast, hgreens]
      exact ⟨hreader, hlast, triggers, hcolor, hagrees⟩
  | published reader greens hstep hreader hgreens hseen =>
      rw [hstep, hseen, hgreens]
      refine ⟨hreader, Shown.seeGreens_last phase _ _ _ _, triggers ++ [_],
        colorInv_step hphase triggers s.loop _ hcolor (bringsGreenOnly_record cfg _ _ _ _), ?_⟩
      rw [greenView_concat]
      exact agrees_published hphase.low hhigh hagrees _ _ _ _
  | timer hstep hseen =>
      rw [hstep, hseen]
      refine ⟨hport, hlast, triggers ++ [_],
        colorInv_step hphase triggers s.loop _ hcolor trivial, ?_⟩
      rw [greenView_concat]
      exact hagrees

/-- What is to be inferred from the triggers is what is to be inferred from the messages. -/
theorem Agrees.color_iff {phase : Int} {triggers : List LoopEvent} {e : LoopEvent}
    {view : Shown} (cfg : PhasesConfig) (loop : PhasesState)
    (h : Agrees (greenView phase (triggers ++ [e])) view) :
    (ColorInferred cfg phase triggers loop e ↔ view.Color cfg phase loop e) ∧
      (InStep cfg phase triggers loop e ↔ view.InStep cfg phase loop e) := by
  unfold ColorInferred InStep
  cases hview : greenView phase (triggers ++ [e]) with
  | unseen =>
      rw [hview] at h
      cases view with
      | unseen => exact ⟨Iff.rfl, Iff.rfl⟩
      | on => exact absurd h id
      | off clock time => exact absurd h id
  | on =>
      rw [hview] at h
      cases view with
      | unseen => exact absurd h id
      | on => exact ⟨Iff.rfl, Iff.rfl⟩
      | off clock time => exact absurd h id
  | off since =>
      rw [hview] at h
      cases view with
      | unseen => exact absurd h id
      | on => exact absurd h id
      | off clock time =>
          obtain ⟨rfl, rfl⟩ := h
          exact ⟨Iff.rfl, Iff.rfl⟩

/-- Where the programs agree, the colour is the one to infer from the messages exactly when
the decoder is in step with them. -/
theorem colorShown_iff {cfg : PhasesConfig} {phase : Int} (hphase : PlanPhase cfg phase)
    (hhigh : phase ≤ 8) (pre : List SystemEvent) (s : SystemState) (j : SystemEvent)
    (h : SystemInv cfg phase pre s) :
    ColorShown cfg phase pre s j ↔ ShownInStep cfg phase pre s j := by
  obtain ⟨hport, hlast, triggers, hcolor, hagrees⟩ := h
  unfold ColorShown ShownInStep
  rw [shown_concat]
  have hturn : ∀ (e : LoopEvent) (view : Shown), e.BringsGreenOnly cfg →
      Agrees (greenView phase (triggers ++ [e])) view →
      (view.Color cfg phase s.loop e ↔ view.InStep cfg phase s.loop e) := by
    intro e view hbrings hview
    obtain ⟨hcolors, hsteps⟩ := hview.color_iff cfg s.loop
    rw [← hcolors, ← hsteps]
    exact colorInferred_iff_inStep hphase triggers s.loop e hcolor hbrings
  cases system_stepped cfg hport j with
  | idle reader hstep hreader hgreens hsame =>
      rw [hstep]
      exact iff_of_true (by simp) (by simp)
  | published reader greens hstep hreader hgreens hseen =>
      rw [hstep, hseen]
      simp only [List.forall_mem_singleton]
      refine hturn _ _ (bringsGreenOnly_record cfg _ _ _ _) ?_
      rw [greenView_concat]
      exact agrees_published hphase.low hhigh hagrees _ _ _ _
  | timer hstep hseen =>
      rw [hstep, hseen]
      simp only [List.forall_mem_singleton]
      refine hturn _ _ trivial ?_
      rw [greenView_concat]
      exact hagrees

/-- **From the wire to the colours.**  Along every run of the two programs, whatever
messages come in and however the timer goes, a phase of the plan gets in every turn the
colour to infer from the messages if and only if the decoder is in step with them in every
turn. -/
theorem shown_along_iff {cfg : PhasesConfig} {phase : Int} (hphase : PlanPhase cfg phase)
    (hhigh : phase ≤ 8) (readBuff : Mem Byte) (atsc : AtscTyp) (uninitialised : PhasesState)
    (js : List SystemEvent) :
    (system cfg).Along (SystemState.initial readBuff atsc uninitialised) (ColorShown cfg phase)
        js ↔
      (system cfg).Along (SystemState.initial readBuff atsc uninitialised)
        (ShownInStep cfg phase) js :=
  (system cfg).along_congr (systemInv_initial cfg phase readBuff atsc uninitialised)
    (systemInv_step hphase hhigh) (colorShown_iff hphase hhigh) js

/-- A long status with phases 2 and 6 active, the ring of phase 6 in its clearance. -/
def clearingStatus : Arrival where
  junk := [0x11]
  doubled := true
  address := 0x05
  rest := [0x13, 0xc0, 0xcc, 0, 0, 0, 0, 0, 0, 0, 0x22, 0xf2] ++
    fcsBytes [0x05, 0x13, 0xc0, 0xcc, 0, 0, 0, 0, 0, 0, 0, 0x22, 0xf2]
  flagless := by decide
  plain := by decide
  fits := by decide

/-- The green of phase 2, and the timer. -/
theorem shown_along_iff_clearing :
    let js : List SystemEvent :=
      [⟨1, .message clearingStatus (Mem.ofList 0 []), 1⟩, ⟨2, .timer, 2⟩]
    (system rfsPhases).Along (SystemState.initial (Mem.ofList 0 []) (ab3418Record 0) zeroed)
        (ColorShown rfsPhases 2) js ↔
      (system rfsPhases).Along (SystemState.initial (Mem.ofList 0 []) (ab3418Record 0) zeroed)
        (ShownInStep rfsPhases 2) js :=
  shown_along_iff planPhase_rfsPhases (by decide) _ _ _ _

end RfsAtsc.Rd3418
