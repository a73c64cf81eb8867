import RfsAtsc.EventMachine
import RfsAtsc.UrmsSetMeter

/-!
# When the ramp meter is commanded

The main loop of `urms` in database mode, as a machine of two events: a metering
command read from the database, and a poll of the controller.  A poll inside the
metering window opens the gate, any other successful poll closes it and sends
SKIP, and a failed poll leaves it.  A command goes out while the gate is open; its
own `no_control` flag is not looked at until the next poll.
-/

namespace RfsAtsc

open EventMachine

/-- The variables of the loop.  `noControlStartup` is set before the loop and stays. -/
structure Loop where
  noControlStartup : UChar
  noControlRuntime : UChar
  dbUrms : DbUrms
  running : Bool

/-- What a successful poll brings: the day of the week by the local clock, Sunday
first, and the controller's hour, a `char`. -/
structure Poll where
  dow : Fin 7
  hour : UChar

/-- What the loop waits for.  A command comes with whether the connection opens and
what `urms_set_meter` returns; a poll with whether the connection opens, what it
brings, and whether the connection opens again after a failed one. -/
inductive Event where
  | command (db : DbUrms) (opens : Bool) (ret : Int)
  | poll (opens : Bool) (status : Option Poll) (reopens : Bool)

/-- `db_urms` before the loop: cleared. -/
def clearedDbUrms : DbUrms where
  lane1 := ⟨0, 0, 0⟩
  lane2 := ⟨0, 0, 0⟩
  lane3 := ⟨0, 0, 0⟩
  lane4 := ⟨0, 0, 0⟩
  noControl := 0

/-- The loop at its start. -/
def startLoop (noControlStartup : UChar) : Loop where
  noControlStartup := noControlStartup
  noControlRuntime := 1
  dbUrms := clearedDbUrms
  running := true

/-- The check of the metering windows. -/
def outsideWindow (p : Poll) : Prop :=
  p.dow = 0 ∨ p.dow = 6 ∨ p.hour.toInt < 7 ∨ p.hour.toInt ≥ 10

instance (p : Poll) : Decidable (outsideWindow p) := inferInstanceAs (Decidable (_ ∨ _ ∨ _ ∨ _))

/-- All four lanes set to SKIP. -/
def skipAllLanes (db : DbUrms) : DbUrms :=
  { db with
    lane1 := { db.lane1 with action := URMS_ACTION_SKIP }
    lane2 := { db.lane2 with action := URMS_ACTION_SKIP }
    lane3 := { db.lane3 with action := URMS_ACTION_SKIP }
    lane4 := { db.lane4 with action := URMS_ACTION_SKIP } }

/-- One turn of `while(1)`: the new variables, and the messages sent to the
controller.  A turn after an `exit` does nothing. -/
def loopStep (addr2070 : UChar) (s : Loop) : Event → Loop × List (List UChar)
  | .command db opens ret =>
      if s.running then
        let s := { s with dbUrms := db }
        if s.noControlStartup = 0 ∧ s.noControlRuntime = 0 then
          if opens then
            let set := urmsSetMeter s.dbUrms addr2070
            ({ s with dbUrms := set.db, running := decide (0 ≤ ret) }, [set.sent])
          else ({ s with running := false }, [])
        else (s, [])
      else (s, [])
  | .poll opens status reopens =>
      if s.running then
        if opens then
          match status with
          | none => ({ s with running := reopens }, [])
          | some p =>
              if outsideWindow p ∨ s.dbUrms.noControl ≠ 0 ∨ s.noControlStartup ≠ 0 then
                let set := urmsSetMeter (skipAllLanes s.dbUrms) addr2070
                ({ s with noControlRuntime := 1, dbUrms := set.db }, [set.sent])
              else ({ s with noControlRuntime := 0 }, [])
        else ({ s with running := false }, [])
      else (s, [])

/-- The loop as a machine. -/
def urmsLoop (addr2070 : UChar) : Machine Loop Event (List UChar) := ⟨loopStep addr2070⟩

/-! ## The gate -/

/-- The message carries SKIP in all four lanes. -/
def SkipsAll (bytes : List UChar) : Prop := ∀ k, actionAt bytes k = URMS_ACTION_SKIP

/-- The flag an event reads from the database. -/
def Event.readNoControl : Event → Option UChar
  | .command db _ _ => some db.noControl
  | .poll _ _ _ => none

/-- What an event polls successfully. -/
def Event.polled : Event → Option Poll
  | .poll true (some p) _ => some p
  | _ => none

/-- The `no_control` flag most recently read, clear if none was. -/
def lastNoControl (es : List Event) : UChar := (es.filterMap Event.readNoControl).getLast?.getD 0

/-- The latest successful poll. -/
def lastPoll (es : List Event) : Option Poll := (es.filterMap Event.polled).getLast?

/-- Monday to Friday, from seven to ten by the controller's clock. -/
def InWindow (p : Poll) : Prop := 1 ≤ p.dow ∧ p.dow ≤ 5 ∧ 7 ≤ p.hour.toInt ∧ p.hour.toInt < 10

/-- Metering is permitted: no flag is set, and the latest successful poll was in the
window. -/
def Permitted (noControlStartup : UChar) (es : List Event) : Prop :=
  noControlStartup = 0 ∧ lastNoControl es = 0 ∧ ∃ p, lastPoll es = some p ∧ InWindow p

/-- A step is gated: whatever it sends carries SKIP in all lanes, unless metering is
permitted by the events up to and including it. -/
def Gated (addr2070 noControlStartup : UChar) (pre : List Event) (s : Loop) (e : Event) : Prop :=
  ∀ bytes ∈ ((urmsLoop addr2070).step s e).2,
    SkipsAll bytes ∨ Permitted noControlStartup (pre ++ [e])

/-- A step is harmless: a command that finds the gate open and the connection up
has no `no_control` flag set, or asks in every lane for SKIP or for an action that
becomes SKIP. -/
def HarmlessStep (_pre : List Event) (s : Loop) : Event → Prop
  | .command db opens _ =>
      s.running = true → s.noControlStartup = 0 → s.noControlRuntime = 0 → opens = true →
        db.noControl = 0 ∨
          ∀ k, (db.lane k).action = URMS_ACTION_SKIP ∨ (db.lane k).action < 1 ∨
            7 < (db.lane k).action
  | .poll _ _ _ => True

theorem not_outsideWindow_iff (p : Poll) : ¬ outsideWindow p ↔ InWindow p := by
  obtain ⟨dow, hour⟩ := p
  have hdow : (dow ≠ 0 ∧ dow ≠ 6) ↔ (1 ≤ dow ∧ dow ≤ 5) := by
    revert dow
    decide
  simp only [outsideWindow, InWindow, not_or, ← and_assoc, hdow]
  constructor
  · intro hwindow
    obtain ⟨⟨hdays, hlow⟩, hhigh⟩ := hwindow
    exact ⟨⟨hdays, by omega⟩, by omega⟩
  · intro hwindow
    obtain ⟨⟨hdays, hlow⟩, hhigh⟩ := hwindow
    exact ⟨⟨hdays, by omega⟩, by omega⟩

theorem lastNoControl_concat (es : List Event) (e : Event) :
    lastNoControl (es ++ [e]) = e.readNoControl.getD (lastNoControl es) := by
  cases h : e.readNoControl with
  | none => simp [lastNoControl, List.filterMap_append, h]
  | some c => simp [lastNoControl, List.filterMap_append, h]

theorem lastPoll_concat (es : List Event) (e : Event) :
    lastPoll (es ++ [e]) = e.polled.or (lastPoll es) := by
  cases h : e.polled with
  | none => simp [lastPoll, List.filterMap_append, h]
  | some p => simp [lastPoll, List.filterMap_append, h]

/-- A message carries SKIP in all lanes exactly when every lane asked for SKIP or for
an action the controller does not know. -/
theorem skipsAll_urmsSetMeter_iff (db : DbUrms) (addr2070 : UChar) :
    SkipsAll (urmsSetMeter db addr2070).sent ↔
      ∀ k, (db.lane k).action = URMS_ACTION_SKIP ∨ (db.lane k).action < 1 ∨
        7 < (db.lane k).action := by
  apply forall_congr'
  intro k
  rw [(urmsSetMeter_lane db addr2070 k).1, validAction, URMS_ACTION_SKIP]
  split
  · omega
  · omega

theorem skipsAll_skipAllLanes (db : DbUrms) (addr2070 : UChar) :
    SkipsAll (urmsSetMeter (skipAllLanes db) addr2070).sent := by
  rw [skipsAll_urmsSetMeter_iff]
  intro k
  refine Or.inl ?_
  match k with
  | 0 => rfl
  | 1 => rfl
  | 2 => rfl
  | 3 => rfl

/-! ## The invariant of the loop -/

/-- What a running loop knows: the flag it last read, and that an open gate was opened
by the latest poll. -/
structure GateInv (noControlStartup : UChar) (es : List Event) (s : Loop) : Prop where
  startup : s.noControlStartup = noControlStartup
  read : s.running = true → s.dbUrms.noControl = lastNoControl es
  gate : s.running = true → s.noControlRuntime = 0 → ∃ p, lastPoll es = some p ∧ InWindow p

theorem gateInv_start (noControlStartup : UChar) :
    GateInv noControlStartup [] (startLoop noControlStartup) where
  startup := rfl
  read := fun _ => rfl
  gate := fun _ hopen => absurd (show (1 : UChar) = 0 from hopen) (by decide)

/-- A loop that has stopped keeps the invariant. -/
theorem gateInv_of_stopped {noControlStartup : UChar} {es : List Event} {s : Loop}
    (hstartup : s.noControlStartup = noControlStartup) (h : s.running = false) :
    GateInv noControlStartup es s where
  startup := hstartup
  read := fun hrun => absurd hrun (by rw [h]; decide)
  gate := fun hrun => absurd hrun (by rw [h]; decide)

/-- A command read by a running loop changes the flag last read, and leaves the gate. -/
theorem GateInv.command {noControlStartup : UChar} {es : List Event} {s s' : Loop}
    (h : GateInv noControlStartup es s) (hrun : s.running = true) {db : DbUrms} {opens : Bool}
    {ret : Int} (hstartup : s'.noControlStartup = s.noControlStartup)
    (hruntime : s'.noControlRuntime = s.noControlRuntime)
    (hread : s'.dbUrms.noControl = db.noControl) :
    GateInv noControlStartup (es ++ [.command db opens ret]) s' := by
  refine ⟨hstartup.trans h.startup, fun _ => ?_, fun _ hopen => ?_⟩
  · rw [lastNoControl_concat]
    exact hread
  · rw [lastPoll_concat]
    exact h.gate hrun (hruntime.symm.trans hopen)

/-- What a command can do to the loop. -/
theorem command_cases (addr2070 : UChar) (s : Loop) (db : DbUrms) (opens : Bool) (ret : Int) :
    (s.running = false ∧ (urmsLoop addr2070).step s (.command db opens ret) = (s, [])) ∨
      (s.running = true ∧ ¬ (s.noControlStartup = 0 ∧ s.noControlRuntime = 0) ∧
        (urmsLoop addr2070).step s (.command db opens ret) = ({ s with dbUrms := db }, [])) ∨
      (s.running = true ∧ s.noControlStartup = 0 ∧ s.noControlRuntime = 0 ∧ opens = false ∧
        (urmsLoop addr2070).step s (.command db opens ret)
          = ({ s with dbUrms := db, running := false }, [])) ∨
      (s.running = true ∧ s.noControlStartup = 0 ∧ s.noControlRuntime = 0 ∧ opens = true ∧
        (urmsLoop addr2070).step s (.command db opens ret)
          = ({ s with dbUrms := (urmsSetMeter db addr2070).db, running := decide (0 ≤ ret) },
              [(urmsSetMeter db addr2070).sent])) := by
  cases hrun : s.running with
  | false => exact Or.inl ⟨rfl, by simp [urmsLoop, loopStep, hrun]⟩
  | true =>
      by_cases hgate : s.noControlStartup = 0 ∧ s.noControlRuntime = 0
      · cases opens with
        | false =>
            exact Or.inr (Or.inr (Or.inl ⟨rfl, hgate.1, hgate.2, rfl, by
              simp [urmsLoop, loopStep, hrun, hgate.1, hgate.2]⟩))
        | true =>
            exact Or.inr (Or.inr (Or.inr ⟨rfl, hgate.1, hgate.2, rfl, by
              simp [urmsLoop, loopStep, hrun, hgate.1, hgate.2]⟩))
      · refine Or.inr (Or.inl ⟨rfl, hgate, ?_⟩)
        simp only [urmsLoop, loopStep, hrun, if_true, if_neg hgate]

/-- What a poll can do to the loop. -/
theorem poll_cases (addr2070 : UChar) (s : Loop) (opens : Bool) (status : Option Poll)
    (reopens : Bool) :
    (s.running = false ∧ (urmsLoop addr2070).step s (.poll opens status reopens) = (s, [])) ∨
      (s.running = true ∧ opens = false ∧
        (urmsLoop addr2070).step s (.poll opens status reopens)
          = ({ s with running := false }, [])) ∨
      (s.running = true ∧ status = none ∧
        (urmsLoop addr2070).step s (.poll opens status reopens)
          = ({ s with running := reopens }, [])) ∨
      (s.running = true ∧ opens = true ∧ ∃ p, status = some p ∧
        (urmsLoop addr2070).step s (.poll opens status reopens)
          = ({ s with
                noControlRuntime := 1
                dbUrms := (urmsSetMeter (skipAllLanes s.dbUrms) addr2070).db },
              [(urmsSetMeter (skipAllLanes s.dbUrms) addr2070).sent])) ∨
      (s.running = true ∧ opens = true ∧ ∃ p, status = some p ∧ InWindow p ∧
        (urmsLoop addr2070).step s (.poll opens status reopens)
          = ({ s with noControlRuntime := 0 }, [])) := by
  cases hrun : s.running with
  | false => exact Or.inl ⟨rfl, by simp [urmsLoop, loopStep, hrun]⟩
  | true =>
      cases opens with
      | false => exact Or.inr (Or.inl ⟨rfl, rfl, by simp [urmsLoop, loopStep, hrun]⟩)
      | true =>
          cases status with
          | none => exact Or.inr (Or.inr (Or.inl ⟨rfl, rfl, by simp [urmsLoop, loopStep, hrun]⟩))
          | some p =>
              by_cases hclose : outsideWindow p ∨ s.dbUrms.noControl ≠ 0 ∨ s.noControlStartup ≠ 0
              · refine Or.inr (Or.inr (Or.inr (Or.inl ⟨rfl, rfl, p, rfl, ?_⟩)))
                simp only [urmsLoop, loopStep, hrun, if_true, if_pos hclose]
              · refine Or.inr (Or.inr (Or.inr (Or.inr ⟨rfl, rfl, p, rfl, ?_, ?_⟩)))
                · exact (not_outsideWindow_iff p).mp fun hout => hclose (Or.inl hout)
                · simp only [urmsLoop, loopStep, hrun, if_true, if_neg hclose]

/-- **Step.**  One turn of the loop keeps the invariant. -/
theorem gateInv_step (addr2070 noControlStartup : UChar) (es : List Event) (s : Loop) (e : Event)
    (h : GateInv noControlStartup es s) :
    GateInv noControlStartup (es ++ [e]) ((urmsLoop addr2070).step s e).1 := by
  cases e with
  | command db opens ret =>
      rcases command_cases addr2070 s db opens ret with ⟨hrun, hstep⟩ | ⟨hrun, -, hstep⟩ |
        ⟨-, -, -, -, hstep⟩ | ⟨hrun, -, -, -, hstep⟩
      · rw [hstep]
        exact gateInv_of_stopped h.startup hrun
      · rw [hstep]
        exact h.command hrun rfl rfl rfl
      · rw [hstep]
        exact gateInv_of_stopped h.startup rfl
      · rw [hstep]
        exact h.command hrun rfl rfl rfl
  | poll opens status reopens =>
      have hread : lastNoControl (es ++ [.poll opens status reopens]) = lastNoControl es :=
        lastNoControl_concat es _
      rcases poll_cases addr2070 s opens status reopens with ⟨hrun, hstep⟩ | ⟨-, -, hstep⟩ |
        ⟨hrun, rfl, hstep⟩ | ⟨hrun, rfl, p, rfl, hstep⟩ | ⟨hrun, rfl, p, rfl, hwindow, hstep⟩
      · rw [hstep]
        exact gateInv_of_stopped h.startup hrun
      · rw [hstep]
        exact gateInv_of_stopped h.startup rfl
      · have hpoll : lastPoll (es ++ [.poll opens none reopens]) = lastPoll es := by
          rw [lastPoll_concat]
          cases opens <;> rfl
        rw [hstep]
        exact ⟨h.startup, fun _ => by rw [hread]; exact h.read hrun,
          fun _ hopen => by rw [hpoll]; exact h.gate hrun hopen⟩
      · rw [hstep]
        refine ⟨h.startup, fun _ => ?_, fun _ hopen => ?_⟩
        · rw [hread]
          exact h.read hrun
        · exact absurd (show (1 : UChar) = 0 from hopen) (by decide)
      · rw [hstep]
        refine ⟨h.startup, fun _ => ?_, fun _ _ => ⟨p, lastPoll_concat es _, hwindow⟩⟩
        rw [hread]
        exact h.read hrun

/-! ## Runs -/

/-- Under the invariant a step is gated exactly when it is harmless. -/
theorem gated_iff_harmless (addr2070 noControlStartup : UChar) (es : List Event) (s : Loop)
    (e : Event) (h : GateInv noControlStartup es s) :
    Gated addr2070 noControlStartup es s e ↔ HarmlessStep es s e := by
  cases e with
  | poll opens status reopens =>
      refine iff_of_true ?_ trivial
      intro bytes hbytes
      rcases poll_cases addr2070 s opens status reopens with ⟨-, hstep⟩ | ⟨-, -, hstep⟩ |
        ⟨-, -, hstep⟩ | ⟨-, -, p, -, hstep⟩ | ⟨-, -, p, -, -, hstep⟩
      · simp [hstep] at hbytes
      · simp [hstep] at hbytes
      · simp [hstep] at hbytes
      · rw [hstep, List.mem_singleton] at hbytes
        rw [hbytes]
        exact Or.inl (skipsAll_skipAllLanes _ _)
      · simp [hstep] at hbytes
  | command db opens ret =>
      rcases command_cases addr2070 s db opens ret with ⟨hrun, hstep⟩ | ⟨hrun, hclosed, hstep⟩ |
        ⟨hrun, hstartup, hruntime, hopens, hstep⟩ | ⟨hrun, hstartup, hruntime, hopens, hstep⟩
      · refine iff_of_true (by simp [Gated, hstep]) ?_
        intro hrun'
        exact absurd (hrun.symm.trans hrun') (by decide)
      · refine iff_of_true (by simp [Gated, hstep]) ?_
        intro _ hstartup hruntime
        exact absurd ⟨hstartup, hruntime⟩ hclosed
      · refine iff_of_true (by simp [Gated, hstep]) ?_
        intro _ _ _ hopens'
        exact absurd (hopens.symm.trans hopens') (by decide)
      · have hpermitted : Permitted noControlStartup (es ++ [.command db opens ret]) ↔
            db.noControl = 0 := by
          have hread : lastNoControl (es ++ [.command db opens ret]) = db.noControl :=
            lastNoControl_concat es _
          have hpoll : lastPoll (es ++ [.command db opens ret]) = lastPoll es :=
            lastPoll_concat es _
          rw [Permitted, hread, hpoll, ← h.startup]
          constructor
          · intro hpermits
            obtain ⟨-, hclear, -⟩ := hpermits
            exact hclear
          · intro hclear
            exact ⟨hstartup, hclear, h.gate hrun hruntime⟩
        have hsent : Gated addr2070 noControlStartup es s (.command db opens ret) ↔
            SkipsAll (urmsSetMeter db addr2070).sent ∨ db.noControl = 0 := by
          simp [Gated, hstep, hpermitted]
        rw [hsent, skipsAll_urmsSetMeter_iff, or_comm]
        simp [HarmlessStep, hrun, hstartup, hruntime, hopens]

/-- **Gating, exactly.**  Over a whole run every message the loop sends carries SKIP
in all lanes or is permitted exactly when every step of the run is harmless. -/
theorem gated_along_iff (addr2070 noControlStartup : UChar) (es : List Event) :
    (urmsLoop addr2070).Along (startLoop noControlStartup) (Gated addr2070 noControlStartup) es ↔
      (urmsLoop addr2070).Along (startLoop noControlStartup) HarmlessStep es :=
  (urmsLoop addr2070).along_congr (gateInv_start noControlStartup)
    (gateInv_step addr2070 noControlStartup) (gated_iff_harmless addr2070 noControlStartup) es

/-- A poll on a Monday at eight, and then a command that asks for control to stop. -/
def stopRequest : List Event :=
  [.poll true (some ⟨1, 8⟩) true, .command { fixedRate900 with noControl := 1 } true 0]

/-- The command that asks for control to stop is sent on to the controller. -/
theorem stopRequest_sent :
    ((urmsLoop 2).step ((urmsLoop 2).run (startLoop 0) [.poll true (some ⟨1, 8⟩) true])
        (.command { fixedRate900 with noControl := 1 } true 0)).2
      = [(urmsSetMeter { fixedRate900 with noControl := 1 } 2).sent] ∧
      ¬ (urmsLoop 2).Along (startLoop 0) (Gated 2 0) stopRequest := by
  refine ⟨by decide +kernel, fun hgated => ?_⟩
  have hstep := hgated [.poll true (some ⟨1, 8⟩) true] _ [] rfl
  have hinv := (urmsLoop 2).inv_run (gateInv_start 0) (gateInv_step 2 0)
    [.poll true (some ⟨1, 8⟩) true]
  have hharmless := (gated_iff_harmless 2 0 _ _ _ hinv).mp hstep
  have hskip := hharmless (by decide +kernel) (by decide +kernel) (by decide +kernel) rfl
  exact absurd hskip (by decide +kernel)

end RfsAtsc
