import RfsAtsc.UrmsPolls
import RfsAtsc.UrmsSetMeter

/-!
# A metering command from the command line: standalone mode of `urms.c`

In standalone mode the program polls the controller once, fills in the lanes that the
command line does not give from what the controller reports, and sends the command.  The
blocks of the third and the fourth lane take the high byte of the rate from the first.
-/

namespace RfsAtsc.UrmsStandalone

open UrmsPolls (wordAt meteredLaneStatAt meteredLaneCtlAt)

/-- The options of one lane.  A rate of zero leaves the lane to the controller. -/
structure LaneArgs where
  releaseRate : Int
  action : UChar
  plan : UChar
deriving DecidableEq

/-- `metered_lane_ctl[i].cmd_src`, a plain `char`. -/
def cmdSrc (response : List UChar) (i : Nat) : Int :=
  (UrmsPolls.byteAt response (meteredLaneCtlAt i)).toInt

/-- `metered_lane_ctl[i].action`. -/
def laneAction (response : List UChar) (i : Nat) : Int :=
  (UrmsPolls.byteAt response (meteredLaneCtlAt i + 1)).toInt

/-- `metered_lane_ctl[i].plan`. -/
def lanePlan (response : List UChar) (i : Nat) : Int :=
  (UrmsPolls.byteAt response (meteredLaneCtlAt i + 4)).toInt

/-- `metered_lane_stat[i].metered_lane_rate_msb`. -/
def rateMsb (response : List UChar) (i : Nat) : Int :=
  (UrmsPolls.byteAt response (meteredLaneStatAt i + 6)).toInt

/-- `(unsigned char) metered_lane_stat[i].metered_lane_rate_lsb`. -/
def rateLsb (response : List UChar) (i : Nat) : Int :=
  (UrmsPolls.byteAt response (meteredLaneStatAt i + 7)).toNat

/-- The rate a lane reports. -/
def laneRate (response : List UChar) (i : Nat) : Int := wordAt response (meteredLaneStatAt i + 6)

/-- The block of lane index `i`, with the high byte of the rate taken from lane index `m`. -/
def laneBlock (m i : Nat) (args : LaneArgs) (response : List UChar) : Lane :=
  if args.releaseRate ≠ 0 then
    { action := args.action.toNat, releaseRate := args.releaseRate, plan := args.plan.toNat }
  else
    { action := laneAction response i
      releaseRate := rateMsb response m * 256 + rateLsb response i
      plan := lanePlan response i }

/-- A command source of 1 or 2 in some lane has priority over the program. -/
def higherPriority (response : List UChar) : Bool :=
  (cmdSrc response 0 < 3 ∧ cmdSrc response 0 > 0) ∨
    (cmdSrc response 1 < 3 ∧ cmdSrc response 1 > 0) ∨
    (cmdSrc response 2 < 3 ∧ cmdSrc response 2 > 0) ∨
    (cmdSrc response 3 < 3 ∧ cmdSrc response 3 > 0)

/-- `db_urms` in standalone mode: cleared, and then filled lane by lane. -/
def standaloneDb (args : Fin 4 → LaneArgs) (response : List UChar) : DbUrms where
  lane1 := laneBlock 0 0 (args 0) response
  lane2 := laneBlock 1 1 (args 1) response
  lane3 := laneBlock 0 2 (args 2) response
  lane4 := laneBlock 0 3 (args 3) response
  noControl := 0

/-- What standalone mode sends to the controller after a status response; `none` where it
exits. -/
def standaloneSet (args : Fin 4 → LaneArgs) (response : List UChar) (addr2070 : UChar) :
    Option (List UChar) :=
  if higherPriority response then none
  else some (urmsSetMeter (standaloneDb args response) addr2070).sent

/-! ## What is to be sent -/

/-- Every lane reports a rate and an action in range. -/
def ReportsInRange (response : List UChar) : Prop :=
  ∀ k : Fin 4, (150 ≤ laneRate response k ∧ laneRate response k ≤ 1100) ∧
    1 ≤ laneAction response k ∧ laneAction response k ≤ 7

instance (response : List UChar) : Decidable (ReportsInRange response) :=
  inferInstanceAs (Decidable (∀ _ : Fin 4, _ ∧ _))

/-- A lane not given is sent back as it was reported, and one given as it was requested, as
far as that is in range. -/
def LaneSentRight (args : LaneArgs) (response sent : List UChar) (k : Fin 4) : Prop :=
  if args.releaseRate = 0 then
    rateAt sent k = laneRate response k ∧ actionAt sent k = laneAction response k ∧
      planAt sent k = (UrmsPolls.byteAt response (meteredLaneCtlAt k + 4)).toNat
  else
    (150 ≤ args.releaseRate ∧ args.releaseRate ≤ 1100 → rateAt sent k = args.releaseRate) ∧
      (1 ≤ args.action.toNat ∧ args.action.toNat ≤ 7 → actionAt sent k = args.action.toNat) ∧
      planAt sent k = args.plan.toNat

/-- All four lanes are sent right. -/
def SentRight (args : Fin 4 → LaneArgs) (response sent : List UChar) : Prop :=
  ∀ k, LaneSentRight (args k) response sent k

/-- The lane whose high byte goes into the rate of lane index `k`. -/
def msbLane (k : Fin 4) : Nat := if k = 1 then 1 else 0

theorem standaloneDb_lane (args : Fin 4 → LaneArgs) (response : List UChar) (k : Fin 4) :
    (standaloneDb args response).lane k = laneBlock (msbLane k) k (args k) response := by
  match k with
  | 0 => rfl
  | 1 => rfl
  | 2 => rfl
  | 3 => rfl

theorem laneRate_eq (response : List UChar) (i : Nat) :
    laneRate response i = rateMsb response i * 256 + rateLsb response i := rfl

theorem rateLsb_range (response : List UChar) (i : Nat) :
    0 ≤ rateLsb response i ∧ rateLsb response i < 256 := by
  have hlt := (UrmsPolls.byteAt response (meteredLaneStatAt i + 7)).isLt
  rw [rateLsb]
  omega

/-- A `char` that is sent as a byte is the same byte. -/
private theorem toInt_emod (b : UChar) : b.toInt % 256 = b.toNat := by
  rw [BitVec.toInt_eq_toNat_cond]
  split <;> omega

/-- A lane not given is sent with the high byte that was taken for it. -/
private theorem rate_sent_iff {response : List UChar} (hrange : ReportsInRange response)
    (m k : Fin 4) :
    clampRate (rateMsb response m * 256 + rateLsb response k) = laneRate response k ↔
      rateMsb response m = rateMsb response k := by
  have hk := (hrange k).1
  have hm := (hrange m).1
  have hlsb := rateLsb_range response k
  have hlsbm := rateLsb_range response m
  rw [laneRate_eq] at hk hm ⊢
  rw [clampRate]
  constructor
  · intro hsame
    omega
  · intro hmsb
    omega

/-- One lane is sent right unless it is not given and the high byte was another's. -/
private theorem lane_sent_iff (args : Fin 4 → LaneArgs) {response : List UChar}
    (hrange : ReportsInRange response) (addr2070 : UChar) (k : Fin 4) :
    LaneSentRight (args k) response (urmsSetMeter (standaloneDb args response) addr2070).sent k ↔
      ((args k).releaseRate = 0 → rateMsb response (msbLane k) = rateMsb response k) := by
  obtain ⟨haction, hrate, hplan⟩ := urmsSetMeter_lane (standaloneDb args response) addr2070 k
  rw [LaneSentRight, haction, hrate, hplan, standaloneDb_lane, laneBlock]
  by_cases hgiven : (args k).releaseRate = 0
  · have hlt : msbLane k < 4 := by
      rw [msbLane]
      split <;> omega
    obtain ⟨m, hm⟩ : ∃ m : Fin 4, (m : Nat) = msbLane k := ⟨⟨msbLane k, hlt⟩, rfl⟩
    have hvalid : validAction (laneAction response k) = laneAction response k := by
      rw [validAction, if_pos (hrange k).2]
    simp only [hgiven, ne_eq, not_true, if_true, if_false, forall_const]
    rw [← hm, rate_sent_iff hrange m k, hvalid, lanePlan, toInt_emod]
    exact and_iff_left ⟨rfl, rfl⟩
  · simp only [hgiven, ne_eq, not_false_eq_true, if_true, if_false, false_implies, iff_true]
    have hplanByte := (args k).plan.isLt
    refine ⟨?_, ?_, by omega⟩
    · intro hin
      rw [clampRate]
      omega
    · intro hin
      rw [validAction, if_pos (by omega)]

/-- **The command that is sent, exactly.**  Unless a higher-priority source keeps the program
from sending, every lane is sent right exactly when the third and the fourth lane, where not
given, report the same high byte of the rate as the first. -/
theorem standaloneSet_right_iff (args : Fin 4 → LaneArgs) (response : List UChar)
    (addr2070 : UChar) (hrange : ReportsInRange response) :
    (∀ sent, standaloneSet args response addr2070 = some sent → SentRight args response sent) ↔
      higherPriority response = true ∨
        (((args 2).releaseRate = 0 → rateMsb response 0 = rateMsb response 2) ∧
          ((args 3).releaseRate = 0 → rateMsb response 0 = rateMsb response 3)) := by
  by_cases hpriority : higherPriority response = true
  · simp [standaloneSet, hpriority]
  · have hsent : standaloneSet args response addr2070
        = some (urmsSetMeter (standaloneDb args response) addr2070).sent := by
      rw [standaloneSet, if_neg hpriority]
    have hlanes :
        SentRight args response (urmsSetMeter (standaloneDb args response) addr2070).sent ↔
          ∀ k : Fin 4, (args k).releaseRate = 0 →
            rateMsb response (msbLane k) = rateMsb response k :=
      forall_congr' fun k => lane_sent_iff args hrange addr2070 k
    rw [or_iff_right hpriority, hsent]
    constructor
    · intro h
      have hall := hlanes.mp (h _ rfl)
      exact ⟨hall 2, hall 3⟩
    · rintro ⟨hthird, hfourth⟩ sent hsome
      cases hsome
      apply hlanes.mpr
      intro k
      match k with
      | 0 => exact fun _ => rfl
      | 1 => exact fun _ => rfl
      | 2 => exact hthird
      | 3 => exact hfourth

/-- A response of 417 bytes: the rates and the plans of four lanes at a fixed rate, under the
command source 3. -/
private def reporting (rates : List (UChar × UChar)) : List UChar :=
  List.replicate 251 0 ++
    rates.flatMap (fun r => [0, 0, 0, 0, 0, 0, r.1, r.2]) ++ List.replicate 8 0 ++
    rates.flatMap (fun _ => [3, 3, 0, 0, 1, 0, 0, 0, 0, 0, 0]) ++ List.replicate 82 0

/-- No lane given. -/
private def nothingGiven : Fin 4 → LaneArgs := fun _ => ⟨0, 0, 0⟩

/-- The third lane reports 200 vehicles an hour and the others 900: the third is sent 968. -/
theorem third_lane_sent_wrong :
    ¬ ∀ (args : Fin 4 → LaneArgs) (response : List UChar) (addr2070 : UChar),
      ReportsInRange response →
      ∀ sent, standaloneSet args response addr2070 = some sent → SentRight args response sent := by
  intro h
  let response := reporting [(3, 0x84), (3, 0x84), (0, 0xc8), (3, 0x84)]
  have hfree : ¬higherPriority response = true := by decide +kernel
  have hlane := h nothingGiven response 2 (by decide +kernel) _ (if_neg hfree) 2
  have hnotGiven : (nothingGiven 2).releaseRate = 0 := rfl
  rw [LaneSentRight, if_pos hnotGiven] at hlane
  have hsent : rateAt (urmsSetMeter (standaloneDb nothingGiven response) 2).sent 2 = 968 := by
    decide +kernel
  have hreported : laneRate response 2 = 200 := by decide +kernel
  have hrate : (968 : Int) = 200 := hsent.symm.trans (hlane.1.trans hreported)
  exact absurd hrate (by decide)

/-- Four rates with the high byte 3. -/
private def sameMsb : List UChar := reporting [(3, 0x84), (3, 0x80), (3, 0x20), (3, 0xff)]

/-- With one high byte in all lanes they are sent back as they were reported. -/
theorem standaloneSet_right_same_msb :
    higherPriority sameMsb = false ∧
      ∀ sent, standaloneSet nothingGiven sameMsb 2 = some sent →
        SentRight nothingGiven sameMsb sent := by
  refine ⟨by decide +kernel, ?_⟩
  apply (standaloneSet_right_iff nothingGiven sameMsb 2 (by decide +kernel)).mpr
  have hthird : rateMsb sameMsb 0 = rateMsb sameMsb 2 := by decide +kernel
  have hfourth : rateMsb sameMsb 0 = rateMsb sameMsb 3 := by decide +kernel
  exact Or.inr ⟨fun _ => hthird, fun _ => hfourth⟩

end RfsAtsc.UrmsStandalone
