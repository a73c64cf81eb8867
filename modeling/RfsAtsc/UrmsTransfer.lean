import Mathlib.Data.List.GetD
import RfsAtsc.Fcs

/-!
# Ramp status over TCP: `send_urms_data` and `receive_urms_data`

At a status trigger `send_urms_data` reads the status of the ramp meter, fills in its
checksum, and writes to the socket a record of another structure.  The receiver reads
up to one status at a time and publishes it when a whole one came in with a good
checksum.  The size of `timestamp_t` is a parameter; it holds four numbers.
-/

namespace RfsAtsc.UrmsTransfer

def MAX_MAINLINES : Nat := 8
def MAX_METERED_LANES : Nat := 4
def MAX_QUEUE_LOOPS : Nat := 4

/-- `sizeof(struct mainline_stat)`. -/
def sizeofMainlineStat : Nat := 10

/-- `sizeof(struct metered_lane_stat)`. -/
def sizeofMeteredLaneStat : Nat := 8

/-- `sizeof(struct queue_stat)`. -/
def sizeofQueueStat : Nat := 5

/-- `sizeof(db_urms_status_t)`: two counts, the lanes, the time and `no_control`, the
checksum. -/
def sizeofDbUrmsStatus : Nat :=
  2 + MAX_MAINLINES * sizeofMainlineStat + MAX_METERED_LANES * sizeofMeteredLaneStat + 4 + 2

/-- `sizeof(db_urms_status2_t)`. -/
def sizeofDbUrmsStatus2 (sizeofTimestamp : Nat) : Nat :=
  sizeofTimestamp + MAX_QUEUE_LOOPS * MAX_METERED_LANES * sizeofQueueStat

/-- The bytes of a `db_urms_status_t`. -/
structure DbUrmsStatus where
  bytes : List Byte
  length_eq : bytes.length = sizeofDbUrmsStatus

/-- The bytes of a `db_urms_status2_t`. -/
structure DbUrmsStatus2 (sizeofTimestamp : Nat) where
  bytes : List Byte
  length_eq : bytes.length = sizeofDbUrmsStatus2 sizeofTimestamp

/-- `for (i=0; i < sizeof(db_urms_status_t) - 2; i++) checksum += buf[i];` -/
def checksumOf (buf : List Byte) : U16 :=
  (buf.take (sizeofDbUrmsStatus - 2)).foldl (fun checksum b => checksum + b.setWidth 16) 0

/-- The field `checksum`, the last two bytes, low byte first. -/
def DbUrmsStatus.checksum (r : DbUrmsStatus) : U16 :=
  r.bytes.getD (sizeofDbUrmsStatus - 1) 0 ++ r.bytes.getD (sizeofDbUrmsStatus - 2) 0

/-- `db_urms_status.checksum = checksum;` -/
def DbUrmsStatus.withChecksum (r : DbUrmsStatus) : DbUrmsStatus where
  bytes := r.bytes.take (sizeofDbUrmsStatus - 2) ++
    [TableCrc.lowByte (checksumOf r.bytes), TableCrc.highByte (checksumOf r.bytes)]
  length_eq := by
    rw [List.length_append, List.length_take, r.length_eq]
    rfl

/-! ## The sender -/

/-- What `send_urms_data` reads at a status trigger. -/
structure Trigger (sizeofTimestamp : Nat) where
  dbUrmsStatus : DbUrmsStatus
  dbUrmsStatus2 : DbUrmsStatus2 sizeofTimestamp

/-- A status trigger: the record with its checksum, and what goes out on the socket. -/
def sendUrmsData {sizeofTimestamp : Nat} (t : Trigger sizeofTimestamp) : DbUrmsStatus × List Byte :=
  (t.dbUrmsStatus.withChecksum, t.dbUrmsStatus2.bytes)

/-- The records of a run of the sender. -/
def records {sizeofTimestamp : Nat} (ts : List (Trigger sizeofTimestamp)) : List DbUrmsStatus :=
  ts.map fun t => (sendUrmsData t).1

/-- The bytes a run of the sender puts on the stream. -/
def stream {sizeofTimestamp : Nat} (ts : List (Trigger sizeofTimestamp)) : List Byte :=
  ts.flatMap fun t => (sendUrmsData t).2

/-! ## The receiver -/

/-- What one `read` delivers: at least a byte, and at most a `db_urms_status_t`. -/
structure Read where
  bytes : List Byte
  nonempty : bytes ≠ []
  length_le : bytes.length ≤ sizeofDbUrmsStatus

/-- The buffer once a read is in. -/
def DbUrmsStatus.overlay (r : DbUrmsStatus) (input : Read) : DbUrmsStatus where
  bytes := input.bytes ++ r.bytes.drop input.bytes.length
  length_eq := by
    have hle := input.length_le
    rw [List.length_append, List.length_drop, r.length_eq]
    omega

/-- A read of `receive_urms_data`: its buffer afterwards, and what it publishes. -/
def receiveUrmsData (dbUrmsStatus : DbUrmsStatus) (input : Read) :
    DbUrmsStatus × Option DbUrmsStatus :=
  let nread := input.bytes.length
  let dbUrmsStatus := dbUrmsStatus.overlay input
  if nread = sizeofDbUrmsStatus then
    if checksumOf dbUrmsStatus.bytes = dbUrmsStatus.checksum then (dbUrmsStatus, some dbUrmsStatus)
    else (dbUrmsStatus, none)
  else (dbUrmsStatus, none)

/-- What a run of the receiver publishes in `DB_URMS_STATUS_VAR`. -/
def published : DbUrmsStatus → List Read → List DbUrmsStatus
  | _, [] => []
  | dbUrmsStatus, input :: inputs =>
      let (dbUrmsStatus, record) := receiveUrmsData dbUrmsStatus input
      record.toList ++ published dbUrmsStatus inputs

/-- A way to cut a stream into reads. -/
structure Segmentation (bytes : List Byte) where
  reads : List Read
  flatten_eq : reads.flatMap Read.bytes = bytes

/-! ## Whole records -/

/-! ## What the stream can carry -/

/-- Only a read of a whole record publishes anything. -/
theorem receiveUrmsData_length {dbUrmsStatus r : DbUrmsStatus} {input : Read}
    (h : (receiveUrmsData dbUrmsStatus input).2 = some r) :
    input.bytes.length = sizeofDbUrmsStatus := by
  by_contra hlen
  simp only [receiveUrmsData, if_neg hlen] at h
  exact absurd h (by simp)

/-- Every record published takes its size off the stream. -/
theorem published_length (dbUrmsStatus : DbUrmsStatus) (inputs : List Read) :
    (published dbUrmsStatus inputs).length * sizeofDbUrmsStatus
      ≤ (inputs.flatMap Read.bytes).length := by
  induction inputs generalizing dbUrmsStatus with
  | nil => simp [published]
  | cons input inputs ih =>
      have hrest := ih (receiveUrmsData dbUrmsStatus input).1
      rw [published, List.length_append, List.flatMap_cons, List.length_append, Nat.add_mul]
      cases hrecord : (receiveUrmsData dbUrmsStatus input).2 with
      | none =>
          simp only [Option.toList_none, List.length_nil]
          omega
      | some r =>
          have hlen := receiveUrmsData_length hrecord
          simp only [Option.toList_some, List.length_singleton]
          omega

variable {sizeofTimestamp : Nat}

/-- Every trigger puts one second structure on the stream. -/
theorem stream_length (ts : List (Trigger sizeofTimestamp)) :
    (stream ts).length = ts.length * sizeofDbUrmsStatus2 sizeofTimestamp := by
  induction ts with
  | nil => simp [stream]
  | cons t ts ih =>
      rw [stream, List.flatMap_cons, List.length_append, ← stream, ih, sendUrmsData,
        t.dbUrmsStatus2.length_eq, List.length_cons, Nat.succ_mul, Nat.add_comm]

/-- **Nothing but nothing is transferred.**  With a time of four numbers the receiver
publishes exactly the sender's records only where there are none, however the stream
is cut into reads. -/
theorem transfer_iff (hts : sizeofTimestamp ≤ 16) (ts : List (Trigger sizeofTimestamp))
    (cut : Segmentation (stream ts)) (dbUrmsStatus : DbUrmsStatus) :
    published dbUrmsStatus cut.reads = records ts ↔ ts = [] := by
  have hsize : sizeofDbUrmsStatus2 sizeofTimestamp < sizeofDbUrmsStatus := by
    simp only [sizeofDbUrmsStatus2, sizeofDbUrmsStatus, MAX_MAINLINES, MAX_METERED_LANES,
      MAX_QUEUE_LOOPS, sizeofMainlineStat, sizeofMeteredLaneStat, sizeofQueueStat]
    omega
  have hcarried := published_length dbUrmsStatus cut.reads
  rw [cut.flatten_eq, stream_length] at hcarried
  constructor
  · intro hall
    rw [hall, records, List.length_map] at hcarried
    by_contra hsome
    have hpos := List.length_pos_of_ne_nil hsome
    exact absurd hcarried (Nat.not_le.mpr (Nat.mul_lt_mul_of_pos_left hsize hpos))
  · intro hnone
    subst hnone
    simp only [List.length_nil, Nat.zero_mul, Nat.le_zero, Nat.mul_eq_zero] at hcarried
    exact List.length_eq_zero_iff.mp (hcarried.resolve_right (by decide))

/-! ## One trigger -/

/-- A status and a second structure that are all zero. -/
def zeroTrigger : Trigger 16 where
  dbUrmsStatus := ⟨List.replicate 120 0, by decide⟩
  dbUrmsStatus2 := ⟨List.replicate 96 0, by decide⟩

/-- The second structure in a single read. -/
def oneRead : Segmentation (stream [zeroTrigger]) where
  reads := [⟨List.replicate 96 0, by decide, by decide⟩]
  flatten_eq := by decide

theorem transfer_iff_one :
    published zeroTrigger.dbUrmsStatus oneRead.reads = records [zeroTrigger] ↔
      [zeroTrigger] = [] :=
  transfer_iff (by decide) [zeroTrigger] oneRead zeroTrigger.dbUrmsStatus

/-- The record of a single trigger is lost. -/
theorem transfer_loses_record :
    ¬ ∀ (ts : List (Trigger 16)) (cut : Segmentation (stream ts)) (dbUrmsStatus : DbUrmsStatus),
      published dbUrmsStatus cut.reads = records ts := by
  intro hall
  have hnone : published zeroTrigger.dbUrmsStatus oneRead.reads = [] := by
    have hshort : ¬ (List.replicate 96 (0 : Byte)).length = sizeofDbUrmsStatus := by decide
    simp only [oneRead, published, receiveUrmsData, if_neg hshort]
    rfl
  have hone := hall [zeroTrigger] oneRead zeroTrigger.dbUrmsStatus
  rw [hnone] at hone
  exact absurd hone (by simp [records])

end RfsAtsc.UrmsTransfer
