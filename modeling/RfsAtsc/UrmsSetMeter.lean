import Mathlib.Data.BitVec
import Mathlib.Data.List.Basic
import Mathlib.Tactic.SplitIfs

/-!
# The metering message: `urms_set_meter`

`urms_set_meter` corrects the four lanes of a metering command in place, packs
them into a 25-byte `urmsctl_t`, adds up the first 21 bytes and stores the sum by
byte index.  The sum belongs at offset 21 and is stored at offset 22.
-/

namespace RfsAtsc

/-- `unsigned char`. -/
abbrev UChar := BitVec 8

/-- `URMS_ACTION_SKIP`. -/
def URMS_ACTION_SKIP : Int := 6

/-- One lane of `db_urms_t`. -/
structure Lane where
  action : Int
  releaseRate : Int
  plan : Int
deriving DecidableEq

/-- `db_urms_t`. -/
structure DbUrms where
  lane1 : Lane
  lane2 : Lane
  lane3 : Lane
  lane4 : Lane
  noControl : UChar
deriving DecidableEq

/-- The lanes by number. -/
def DbUrms.lane (db : DbUrms) : Fin 4 → Lane
  | 0 => db.lane1
  | 1 => db.lane2
  | 2 => db.lane3
  | 3 => db.lane4

/-- One lane of `urmsctl_t`, in the order of its bytes. -/
structure LaneCtl where
  action : UChar
  releaseRateMSB : UChar
  releaseRateLSB : UChar
  plan : UChar

/-- `urmsctl_t`. -/
structure Urmsctl where
  addr : BitVec 4
  hdr1 : BitVec 4
  hdr2 : UChar
  hdr3 : UChar
  hdr4 : UChar
  hdr5 : UChar
  lane1 : LaneCtl
  lane2 : LaneCtl
  lane3 : LaneCtl
  lane4 : LaneCtl
  checksum : UChar
  tail0 : UChar
  tail1 : UChar
  tail2 : UChar

def LaneCtl.bytes (l : LaneCtl) : List UChar :=
  [l.action, l.releaseRateMSB, l.releaseRateLSB, l.plan]

/-- The message as it lies in memory: packed, the low bits of the first byte
first. -/
def Urmsctl.bytes (c : Urmsctl) : List UChar :=
  [c.hdr1 ++ c.addr, c.hdr2, c.hdr3, c.hdr4, c.hdr5] ++ c.lane1.bytes ++ c.lane2.bytes ++
    c.lane3.bytes ++ c.lane4.bytes ++ [c.checksum, c.tail0, c.tail1, c.tail2]

/-- The check of one lane, the same for each of the four. -/
def correctLane (l : Lane) : Lane :=
  if l.releaseRate < 150 ∨ l.action < 1 ∨ l.releaseRate > 1100 ∨ l.action > 7 then
    let l := if l.releaseRate < 150 then { l with releaseRate := 150 } else l
    let l := if l.releaseRate > 1100 then { l with releaseRate := 1100 } else l
    if l.action < 1 ∨ l.action > 7 then { l with action := URMS_ACTION_SKIP } else l
  else l

/-- An `int` stored into an `unsigned char`. -/
def narrow (n : Int) : UChar := BitVec.ofInt 8 n

/-- The fields of one lane: `action`, `plan`, `(rate & 0xFF00) >> 8` and
`rate & 0x00FF`. -/
def laneCtl (l : Lane) : LaneCtl where
  action := narrow l.action
  releaseRateMSB := ((BitVec.ofInt 32 l.releaseRate &&& 0xFF00) >>> 8).setWidth 8
  releaseRateLSB := (BitVec.ofInt 32 l.releaseRate &&& 0x00FF).setWidth 8
  plan := narrow l.plan

/-- `for(i=0; i<=20; i++) csum += msgbuf[i];` over `char`, which is signed. -/
def csum (msgbuf : List UChar) : Int := ((msgbuf.take 21).map BitVec.toInt).sum

/-- What `urms_set_meter` leaves of the command, and the bytes it writes. -/
structure SetMeter where
  db : DbUrms
  sent : List UChar

/-- `urms_set_meter` up to its `write`. -/
def urmsSetMeter (db : DbUrms) (addr2070 : UChar) : SetMeter :=
  let db := { db with
    lane1 := correctLane db.lane1
    lane2 := correctLane db.lane2
    lane3 := correctLane db.lane3
    lane4 := correctLane db.lane4 }
  let urmsctl : Urmsctl :=
    { addr := addr2070.setWidth 4
      hdr1 := 0xe
      hdr2 := 0x15
      hdr3 := 0x70
      hdr4 := 0x01
      hdr5 := 0x11
      lane1 := laneCtl db.lane1
      lane2 := laneCtl db.lane2
      lane3 := laneCtl db.lane3
      lane4 := laneCtl db.lane4
      checksum := 0
      tail0 := 0x00
      tail1 := 0xaa
      tail2 := 0x55 }
  let msgbuf := urmsctl.bytes
  { db := db, sent := msgbuf.set 22 (narrow (csum msgbuf)) }

/-! ## The lanes -/

/-- A rate brought into the range the controller takes. -/
def clampRate (rate : Int) : Int := max 150 (min rate 1100)

/-- An action the controller knows, or SKIP. -/
def validAction (action : Int) : Int := if 1 ≤ action ∧ action ≤ 7 then action else 6

theorem correctLane_action (l : Lane) : (correctLane l).action = validAction l.action := by
  unfold correctLane validAction URMS_ACTION_SKIP
  dsimp only
  split_ifs <;> (try dsimp only at *) <;> omega

theorem correctLane_releaseRate (l : Lane) :
    (correctLane l).releaseRate = clampRate l.releaseRate := by
  unfold correctLane clampRate
  dsimp only
  split_ifs <;> (try dsimp only at *) <;> omega

theorem correctLane_plan (l : Lane) : (correctLane l).plan = l.plan := by
  unfold correctLane
  dsimp only
  split_ifs <;> rfl

theorem clampRate_mem (rate : Int) : 150 ≤ clampRate rate ∧ clampRate rate ≤ 1100 := by
  unfold clampRate
  omega

theorem validAction_mem (action : Int) : 1 ≤ validAction action ∧ validAction action ≤ 7 := by
  unfold validAction
  split_ifs <;> omega

/-- Narrowing keeps the low byte. -/
theorem narrow_toNat (n : Int) : ((narrow n).toNat : Int) = n % 256 := by
  rw [narrow, BitVec.toNat_ofInt]
  omega

private theorem rate_bytes : ∀ n : Nat, n < 1101 →
    ((BitVec.ofInt 32 (n : Int) &&& 0xFF00) >>> 8 : BitVec 32).setWidth 8
        = BitVec.ofNat 8 (n / 256) ∧
      (BitVec.ofInt 32 (n : Int) &&& 0x00FF : BitVec 32).setWidth 8 = BitVec.ofNat 8 (n % 256) := by
  decide +kernel

/-- The four bytes of a corrected lane: the action, the rate in two bytes, high
byte first, and the plan. -/
theorem laneCtl_correctLane (l : Lane) :
    ((laneCtl (correctLane l)).action.toNat : Int) = validAction l.action ∧
      ((laneCtl (correctLane l)).releaseRateMSB.toNat : Int) = clampRate l.releaseRate / 256 ∧
      ((laneCtl (correctLane l)).releaseRateLSB.toNat : Int) = clampRate l.releaseRate % 256 ∧
      ((laneCtl (correctLane l)).plan.toNat : Int) = l.plan % 256 := by
  have hrate := clampRate_mem l.releaseRate
  have haction := validAction_mem l.action
  obtain ⟨n, hn⟩ := Int.eq_ofNat_of_zero_le (show 0 ≤ clampRate l.releaseRate by omega)
  have hbytes := rate_bytes n (by omega)
  simp only [laneCtl, correctLane_action, correctLane_releaseRate, correctLane_plan, narrow_toNat]
  refine ⟨by omega, ?_, ?_, trivial⟩
  · rw [hn, hbytes.1, BitVec.toNat_ofNat]
    omega
  · rw [hn, hbytes.2, BitVec.toNat_ofNat]
    omega

/-! ## The message -/

/-- Byte `i` of a message. -/
def byteAt (bytes : List UChar) (i : Nat) : Int := (bytes.getD i 0).toNat

/-- The fields of lane `k` at their offsets. -/
def actionAt (bytes : List UChar) (k : Fin 4) : Int := byteAt bytes (5 + 4 * k)
def rateAt (bytes : List UChar) (k : Fin 4) : Int :=
  256 * byteAt bytes (6 + 4 * k) + byteAt bytes (7 + 4 * k)
def planAt (bytes : List UChar) (k : Fin 4) : Int := byteAt bytes (8 + 4 * k)

/-- The bytes that are sent. -/
theorem urmsSetMeter_sent (db : DbUrms) (addr2070 : UChar) :
    ∃ sum, (urmsSetMeter db addr2070).sent
      = [0xe#4 ++ addr2070.setWidth 4, 0x15, 0x70, 0x01, 0x11] ++
        (laneCtl (correctLane db.lane1)).bytes ++ (laneCtl (correctLane db.lane2)).bytes ++
        (laneCtl (correctLane db.lane3)).bytes ++ (laneCtl (correctLane db.lane4)).bytes ++
        [0x00, sum, 0xaa, 0x55] ∧
      sum = narrow (csum (urmsSetMeter db addr2070).sent) :=
  ⟨_, rfl, rfl⟩

/-- The checksum a message should carry: its first 21 bytes added up. -/
def byteSum (bytes : List UChar) : Int := ((bytes.take 21).map fun b => (b.toNat : Int)).sum

/-- Adding up signed bytes gives the same low byte. -/
theorem narrow_csum (bytes : List UChar) :
    ((narrow (csum bytes)).toNat : Int) = byteSum bytes % 256 := by
  rw [narrow_toNat, csum, byteSum]
  induction bytes.take 21 with
  | nil => rfl
  | cons b bs ih =>
      simp only [List.map_cons, List.sum_cons]
      have hb : b.toInt % 256 = (b.toNat : Int) % 256 := by
        rw [BitVec.toInt_eq_toNat_bmod]
        exact Int.bmod_emod
      omega

/-- A well-formed `urmsctl_t` for a command and an address: the header, the fields
of the four corrected lanes at their offsets, the checksum at offset 21, and the
tail. -/
structure WellFormedUrmsctl (db : DbUrms) (addr2070 : UChar) (bytes : List UChar) : Prop where
  length : bytes.length = 25
  header : bytes.take 5 = [0xe#4 ++ addr2070.setWidth 4, 0x15, 0x70, 0x01, 0x11]
  lanes : ∀ k, actionAt bytes k = validAction (db.lane k).action ∧
    rateAt bytes k = clampRate (db.lane k).releaseRate ∧ planAt bytes k = (db.lane k).plan % 256
  checksum : byteAt bytes 21 = byteSum bytes % 256
  tail : bytes.drop 22 = [0x00, 0xaa, 0x55]

/-- The bytes of a lane lie at its offsets. -/
private theorem sent_lane (db : DbUrms) (addr2070 : UChar) (k : Fin 4) :
    actionAt (urmsSetMeter db addr2070).sent k
        = ((laneCtl (correctLane (db.lane k))).action.toNat : Int) ∧
      byteAt (urmsSetMeter db addr2070).sent (6 + 4 * k)
        = ((laneCtl (correctLane (db.lane k))).releaseRateMSB.toNat : Int) ∧
      byteAt (urmsSetMeter db addr2070).sent (7 + 4 * k)
        = ((laneCtl (correctLane (db.lane k))).releaseRateLSB.toNat : Int) ∧
      planAt (urmsSetMeter db addr2070).sent k
        = ((laneCtl (correctLane (db.lane k))).plan.toNat : Int) := by
  obtain ⟨sum, hsent, -⟩ := urmsSetMeter_sent db addr2070
  rw [hsent]
  match k with
  | 0 => exact ⟨rfl, rfl, rfl, rfl⟩
  | 1 => exact ⟨rfl, rfl, rfl, rfl⟩
  | 2 => exact ⟨rfl, rfl, rfl, rfl⟩
  | 3 => exact ⟨rfl, rfl, rfl, rfl⟩

/-- The lanes of the message are the corrected lanes. -/
theorem urmsSetMeter_lane (db : DbUrms) (addr2070 : UChar) (k : Fin 4) :
    actionAt (urmsSetMeter db addr2070).sent k = validAction (db.lane k).action ∧
      rateAt (urmsSetMeter db addr2070).sent k = clampRate (db.lane k).releaseRate ∧
      planAt (urmsSetMeter db addr2070).sent k = (db.lane k).plan % 256 := by
  obtain ⟨haction, hmsb, hlsb, hplan⟩ := laneCtl_correctLane (db.lane k)
  obtain ⟨haction', hmsb', hlsb', hplan'⟩ := sent_lane db addr2070 k
  refine ⟨haction'.trans haction, ?_, hplan'.trans hplan⟩
  rw [rateAt, hmsb', hlsb', hmsb, hlsb]
  omega

/-- The command after the call has its lanes corrected. -/
theorem urmsSetMeter_db_lane (db : DbUrms) (addr2070 : UChar) (k : Fin 4) :
    (urmsSetMeter db addr2070).db.lane k = correctLane (db.lane k) := by
  match k with
  | 0 => rfl
  | 1 => rfl
  | 2 => rfl
  | 3 => rfl

/-- What a lane adds to the checksum. -/
def laneSum (l : Lane) : Int :=
  validAction l.action + clampRate l.releaseRate / 256 + clampRate l.releaseRate % 256 +
    l.plan % 256

/-- The first 21 bytes of the message, added up. -/
theorem byteSum_urmsSetMeter (db : DbUrms) (addr2070 : UChar) :
    byteSum (urmsSetMeter db addr2070).sent
      = 375 + (addr2070.toNat : Int) % 16 + laneSum db.lane1 + laneSum db.lane2 +
        laneSum db.lane3 + laneSum db.lane4 := by
  have hlane : ∀ l : Lane,
      (((laneCtl (correctLane l)).bytes.map fun b => (b.toNat : Int)).sum : Int) = laneSum l := by
    intro l
    obtain ⟨haction, hmsb, hlsb, hplan⟩ := laneCtl_correctLane l
    simp only [LaneCtl.bytes, List.map_cons, List.map_nil, List.sum_cons, List.sum_nil, haction,
      hmsb, hlsb, hplan, laneSum]
    omega
  have hfirst : ((0xe#4 ++ addr2070.setWidth 4).toNat : Int)
      = 224 + (addr2070.toNat : Int) % 16 := by
    have hnibble : ∀ x : BitVec 4, (0xe#4 ++ x).toNat = 224 + x.toNat := by decide
    rw [hnibble, BitVec.toNat_setWidth]
    omega
  obtain ⟨sum, hsent, -⟩ := urmsSetMeter_sent db addr2070
  have htake : (urmsSetMeter db addr2070).sent.take 21
      = [0xe#4 ++ addr2070.setWidth 4, 0x15, 0x70, 0x01, 0x11] ++
        (laneCtl (correctLane db.lane1)).bytes ++ (laneCtl (correctLane db.lane2)).bytes ++
        (laneCtl (correctLane db.lane3)).bytes ++ (laneCtl (correctLane db.lane4)).bytes := by
    rw [hsent]
    rfl
  rw [byteSum, htake]
  simp only [List.map_append, List.sum_append, hlane]
  simp only [List.map_cons, List.map_nil, List.sum_cons, List.sum_nil, hfirst]
  have hrest : (((0x15 : UChar).toNat : Int) + ((0x70 : UChar).toNat + ((0x01 : UChar).toNat +
      ((0x11 : UChar).toNat + 0)))) = 151 := by decide
  omega

/-- **The checksum, exactly.**  The message is well formed exactly when its first 21
bytes add up to a multiple of 256: the sum goes to offset 22, where a zero belongs,
and offset 21 keeps the zero it was cleared to. -/
theorem urmsSetMeter_wellFormed_iff (db : DbUrms) (addr2070 : UChar) :
    WellFormedUrmsctl db addr2070 (urmsSetMeter db addr2070).sent ↔
      (375 + (addr2070.toNat : Int) % 16 + laneSum db.lane1 + laneSum db.lane2 +
        laneSum db.lane3 + laneSum db.lane4) % 256 = 0 := by
  rw [← byteSum_urmsSetMeter]
  have hsum := narrow_csum (urmsSetMeter db addr2070).sent
  obtain ⟨sum, hsent, hval⟩ := urmsSetMeter_sent db addr2070
  rw [← hval] at hsum
  constructor
  · intro hformed
    have hchecksum := hformed.checksum
    rw [← hchecksum, hsent]
    rfl
  · intro hzero
    have hsumZero : sum = 0x00 := by
      apply BitVec.eq_of_toNat_eq
      have htoNat : (0x00 : UChar).toNat = 0 := rfl
      omega
    refine ⟨?_, ?_, urmsSetMeter_lane db addr2070, ?_, ?_⟩
    · rw [hsent]
      rfl
    · rw [hsent]
      rfl
    · rw [hzero, hsent]
      rfl
    · rw [hsent, hsumZero]
      rfl

/-- A plain command: 900 vehicles an hour at a fixed rate in every lane. -/
def fixedRate900 : DbUrms where
  lane1 := ⟨3, 900, 1⟩
  lane2 := ⟨3, 900, 1⟩
  lane3 := ⟨3, 900, 1⟩
  lane4 := ⟨3, 900, 1⟩
  noControl := 0

/-- The message of a plain command carries no checksum, and a changed tail. -/
theorem fixedRate900_not_wellFormed :
    (urmsSetMeter fixedRate900 2).sent.drop 21 = [0x00, 0xa5, 0xaa, 0x55] ∧
      ¬ WellFormedUrmsctl fixedRate900 2 (urmsSetMeter fixedRate900 2).sent := by
  have hdrop : (urmsSetMeter fixedRate900 2).sent.drop 21 = [0x00, 0xa5, 0xaa, 0x55] := by
    decide +kernel
  refine ⟨hdrop, fun hformed => ?_⟩
  have htail : (urmsSetMeter fixedRate900 2).sent.drop 22 ≠ [0x00, 0xaa, 0x55] := by
    decide +kernel
  exact htail hformed.tail

/-! ## Lanes are independent -/

/-- **The lanes, for every command.**  The rate in the message is in range and the
action is one the controller knows; what was in range is sent as requested, the plan
modulo 256, a rate out of range goes to the nearest bound and an unknown action to
SKIP; and neither the message nor the corrected command has anything of another lane
in this one. -/
theorem urmsSetMeter_lanes (db : DbUrms) (addr2070 : UChar) (k : Fin 4) :
    (150 ≤ rateAt (urmsSetMeter db addr2070).sent k ∧
        rateAt (urmsSetMeter db addr2070).sent k ≤ 1100) ∧
      (1 ≤ actionAt (urmsSetMeter db addr2070).sent k ∧
        actionAt (urmsSetMeter db addr2070).sent k ≤ 7) ∧
      (150 ≤ (db.lane k).releaseRate ∧ (db.lane k).releaseRate ≤ 1100 →
        rateAt (urmsSetMeter db addr2070).sent k = (db.lane k).releaseRate) ∧
      ((db.lane k).releaseRate < 150 → rateAt (urmsSetMeter db addr2070).sent k = 150) ∧
      (1100 < (db.lane k).releaseRate → rateAt (urmsSetMeter db addr2070).sent k = 1100) ∧
      (1 ≤ (db.lane k).action ∧ (db.lane k).action ≤ 7 →
        actionAt (urmsSetMeter db addr2070).sent k = (db.lane k).action) ∧
      ((db.lane k).action < 1 ∨ 7 < (db.lane k).action →
        actionAt (urmsSetMeter db addr2070).sent k = URMS_ACTION_SKIP) ∧
      planAt (urmsSetMeter db addr2070).sent k = (db.lane k).plan % 256 ∧
      ∀ db' : DbUrms, db'.lane k = db.lane k →
        actionAt (urmsSetMeter db' addr2070).sent k = actionAt (urmsSetMeter db addr2070).sent k ∧
          rateAt (urmsSetMeter db' addr2070).sent k = rateAt (urmsSetMeter db addr2070).sent k ∧
          planAt (urmsSetMeter db' addr2070).sent k = planAt (urmsSetMeter db addr2070).sent k ∧
          (urmsSetMeter db' addr2070).db.lane k = (urmsSetMeter db addr2070).db.lane k := by
  obtain ⟨haction, hrate, hplan⟩ := urmsSetMeter_lane db addr2070 k
  rw [haction, hrate, hplan]
  have hclamp : clampRate (db.lane k).releaseRate
      = max 150 (min (db.lane k).releaseRate 1100) := rfl
  refine ⟨clampRate_mem _, validAction_mem _, ?_, ?_, ?_, ?_, ?_, rfl, ?_⟩
  · intro hrange
    obtain ⟨hlow, hhigh⟩ := hrange
    omega
  · intro hlow
    omega
  · intro hhigh
    omega
  · intro hin
    rw [validAction, if_pos hin]
  · intro hout
    rw [validAction, if_neg (by omega), URMS_ACTION_SKIP]
  · intro db' hsame
    obtain ⟨haction', hrate', hplan'⟩ := urmsSetMeter_lane db' addr2070 k
    rw [haction', hrate', hplan', urmsSetMeter_db_lane, urmsSetMeter_db_lane, hsame]
    exact ⟨rfl, rfl, rfl, rfl⟩

end RfsAtsc
