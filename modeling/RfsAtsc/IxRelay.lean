import RfsAtsc.IxDatagrams
import RfsAtsc.IxSnapshots

/-!
# From database to database: `snd_ix_msg` and `rcv_ix_msg`

`snd_ix_msg` reads the intersection message out of its database again and again and
broadcasts what it has read; `rcv_ix_msg` extracts each datagram that arrives and
updates its own database.  The network between them loses datagrams, delivers them in
any order, and delivers some more than once.

A client at the far end still reads nothing but whole pieces: its header and each of
its approaches was published as it stands at the near end (`relayed_along`).
-/

namespace RfsAtsc

open TracedMemory EventMachine

/-! ## What a datagram carries -/

/-- Approaches stay where the cells that they take stay. -/
theorem ApproachesAt.of_same {buf buf' : Mem UChar} {a : Int} {ps : List IxApproach}
    (h : ApproachesAt buf a ps)
    (hsame : ∀ b, a ≤ b → b < a + approachesSize ps → buf'.cell b = buf.cell b) :
    ApproachesAt buf' a ps := by
  induction ps generalizing a with
  | nil => trivial
  | cons p ps ih =>
      obtain ⟨hfields, hlines, hrest⟩ := h
      have hsize : (approachesSize (p :: ps) : Int) = p.size + approachesSize ps := by
        simp [approachesSize]
      have hown : (p.size : Int) = 17 + 12 * p.stopLineArray.length := by
        rw [IxApproach.size]
        push_cast
        rfl
      rw [hsize] at hsame
      refine ⟨?_, ?_, ?_⟩
      · refine hfields.congr ixApproachSpans_apart ?_ fun b hlow hhigh => ?_
        · rw [p.fields.bytes_length]
          exact ixApproachSpans_within
        · rw [p.fields.bytes_length] at hhigh
          change b < a + 17 at hhigh
          exact hsame b hlow (by omega)
      · exact hlines.congr fun b hlow hhigh => hsame b (by omega) (by omega)
      · exact ih hrest fun b hlow hhigh => hsame b (by omega) (by omega)

/-- Only the message's own bytes matter to what a buffer spells. -/
theorem MessageAt.of_same {buf buf' : Mem UChar} {m : IxMsg} (h : MessageAt buf m)
    (hsame : ∀ b : Int, 0 ≤ b → b < m.encodedSize → buf'.cell b = buf.cell b) :
    MessageAt buf' m := by
  have hsize : (m.encodedSize : Int) = 53 + approachesSize m.approachArray := by
    rw [IxMsg.encodedSize]
    push_cast
    rfl
  refine ⟨h.1.congr ixMsgSpans_apart ?_ fun b hlow hhigh => ?_, ?_⟩
  · rw [m.fields.bytes_length]
    exact ixMsgSpans_within
  · rw [m.fields.bytes_length] at hhigh
    change b < 0 + 53 at hhigh
    exact hsame b hlow (by omega)
  · exact h.2.of_same fun b hlow hhigh => hsame b (by omega) (by omega)

/-- A byte that is in none of the fields stands as it was stored. -/
private theorem Mem.Swapped.cell_outside {buf : Mem UChar} {a : Int} {spans : List CellSpan}
    {bs : List UChar} (h : buf.Swapped a spans bs) {k : Nat} (hk : k < bs.length)
    (hout : ∀ f ∈ spans, ¬ f.Has k) : buf.cell (a + k) = bs[k] := by
  rw [← buf.swapFields_cell_outside a hout]
  exact Mem.Holds.cell_eq h hk

/-- Approaches end where their sizes say. -/
theorem ApproachesAt.approachesEnd_eq {buf : Mem UChar} {a : Int} {ps : List IxApproach}
    (h : ApproachesAt buf a ps) : approachesEnd buf ps.length a = a + approachesSize ps := by
  induction ps generalizing a with
  | nil => simp [approachesEnd, approachesSize]
  | cons p ps ih =>
      obtain ⟨hfields, -, hrest⟩ := h
      have hcount : buf.cell (a + 16) = p.fields.numberOfStopLines :=
        Mem.Swapped.cell_outside hfields (k := 16)
          (by rw [p.fields.bytes_length]; decide) (by decide)
      have hsize : (approachesSize (p :: ps) : Int) = p.size + approachesSize ps := by
        simp [approachesSize]
      have hown : (p.size : Int) = 17 + 12 * p.stopLineArray.length := by
        rw [IxApproach.size]
        push_cast
        rfl
      rw [List.length_cons, approachesEnd, hcount, ← p.length_eq, ← hown, ih hrest, hsize]
      ring

/-- The message that is spelt ends where the buffer declares. -/
theorem MessageAt.messageEnd_eq {buf : Mem UChar} {m : IxMsg} (h : MessageAt buf m) :
    messageEnd buf = m.encodedSize := by
  have hcount : buf.cell (0 + 52) = m.fields.numApproaches :=
    Mem.Swapped.cell_outside h.1 (k := 52)
      (by rw [m.fields.bytes_length]; decide) (by decide)
  rw [zero_add] at hcount
  rw [messageEnd, hcount, ← m.length_eq, h.2.approachesEnd_eq, IxMsg.encodedSize]
  push_cast
  rfl

/-- Once it is received a datagram spells the message, whatever the buffer held. -/
def Carries (datagram : List UChar) (m : IxMsg) : Prop :=
  ∀ buf, MessageAt (received buf datagram) m

/-- What the formatter returned for, sent from the start of its buffer. -/
theorem carries_formatted (m : IxMsg) (sendBuf : Mem UChar) {bufSize : Int}
    (hfit : (m.encodedSize : Int) ≤ bufSize) :
    Carries ((ixMsgFormat m sendBuf bufSize).2.take 0 m.encodedSize) m := by
  intro buf
  refine (ixMsgFormat_spec m sendBuf hfit).2.of_same fun b hlow hhigh => ?_
  have hb : b = 0 + (b.toNat : Int) := by omega
  have hlen : b.toNat < ((ixMsgFormat m sendBuf bufSize).2.take 0 m.encodedSize).length := by
    rw [Mem.take_length]
    omega
  rw [received, hb, (buf.write_holds 0 _).cell_eq hlen]
  exact ((Mem.holds_take _ 0 _).cell_eq hlen).symm

/-- A datagram received is extracted whole, out of its own bytes. -/
theorem Carries.extracted {datagram : List UChar} {m : IxMsg} (h : Carries datagram m)
    (buf : Mem UChar) :
    (ixMsgExtract (received buf datagram)).1 = m ∧
      ∀ b ∈ (ixMsgExtract (received buf datagram)).2.reads, 0 ≤ b ∧ b < m.encodedSize := by
  refine ⟨(ixMsgExtract_spec m _ (h buf)).1, fun b hb => ?_⟩
  rw [← (h buf).messageEnd_eq]
  exact (ixMsgExtract_reads _ b).mp hb

/-! ## The two programs and the network -/

/-- The sender's database and buffer, the datagrams it has sent, and the receiver's buffer
and database. -/
structure Relay (Dn Df : Database) where
  near : Sharing Dn
  sendBuf : Mem UChar
  air : List (List UChar)
  buf : Mem UChar
  far : Sharing Df

/-- No more approaches than there are variables for. -/
def DbEvent.Few : DbEvent → Prop
  | .update m _ => m.approachArray.length ≤ MAX_APPROACHES
  | .write => True
  | .readHeader => True
  | .readApproach _ => True

def DbEvent.IsUpdate : DbEvent → Prop
  | .update _ _ => True
  | .write => False
  | .readHeader => False
  | .readApproach _ => False

/-- The steps: of the publisher or of `snd_ix_msg` at the near database; the delivery of
any datagram ever sent; and at the far database the next write of `rcv_ix_msg`, or a read
of a client. -/
inductive RelayEvent where
  | near (e : DbEvent) (few : e.Few)
  | deliver (i : Nat)
  | far (e : DbEvent) (own : ¬ e.IsUpdate)

/-- What is to be seen of a step: a message formatted and what `ix_msg_format` returned, a
message extracted and the addresses read for it, a message that a client has read. -/
inductive RelayOutput where
  | formatted (m : IxMsg) (retval : Int)
  | extracted (m : IxMsg) (reads : List Int)
  | read (m : IxMsg)

section Steps

variable {Dn Df : Database}

/-- The main loop of `snd_ix_msg` with the messages it has read: nothing is sent of one
that does not fit. -/
def broadcast (s : Relay Dn Df) : List IxMsg → Relay Dn Df × List RelayOutput
  | [] => (s, [])
  | m :: ms =>
      let f := ixMsgFormat m s.sendBuf MAX_IX_MSG_PKT_SIZE
      let air := if f.1 < 0 then s.air else s.air ++ [f.2.take 0 f.1.toNat]
      let r := broadcast { s with sendBuf := f.2, air := air } ms
      (r.1, .formatted m f.1 :: r.2)

/-- The main loop of `rcv_ix_msg` with a datagram, up to the writes of `ix_msg_update`. -/
def receive (rxVars : IxVars) (s : Relay Dn Df) (datagram : List UChar) :
    Relay Dn Df × List RelayOutput :=
  let x := ixMsgExtract (received s.buf datagram)
  let far := { s.far with message := some x.1, pending := msgWrites rxVars x.1 }
  ({ s with buf := x.2.buf, far := far }, [.extracted x.1 x.2.reads])

/-- One step.  The receiver takes no datagram before its last update is written. -/
def relayStep (vars rxVars : IxVars) (s : Relay Dn Df) :
    RelayEvent → Relay Dn Df × List RelayOutput
  | .near e _ =>
      let r := sharingStep Dn vars s.near e
      broadcast { s with near := r.1 } r.2
  | .deliver i =>
      match s.far.pending, s.air[i]? with
      | [], some datagram => receive rxVars s datagram
      | _, _ => (s, [])
  | .far e _ =>
      let r := sharingStep Df rxVars s.far e
      ({ s with far := r.1 }, r.2.map .read)

end Steps

def relay (Dn Df : Database) (vars rxVars : IxVars) :
    Machine (Relay Dn Df) RelayEvent RelayOutput :=
  ⟨relayStep vars rxVars⟩

/-- What has happened at the near database. -/
def nearEvents : List RelayEvent → List DbEvent
  | [] => []
  | .near e _ :: es => e :: nearEvents es
  | .deliver _ :: es => nearEvents es
  | .far _ _ :: es => nearEvents es

/-! ## What every step gives -/

section Safety

variable {Dn Df : Database}

/-- What is to be seen of a step is as it should be: a message read at the near end is sent
whole and is one that can be published, a message extracted is one formatted, read off its
own datagram, and a message that a client reads is one that can be relayed. -/
def OutputSafe (vars rxVars : IxVars) (start : Relay Dn Df)
    (Published Relayed : List RelayEvent → IxMsg → Prop) (es : List RelayEvent) :
    RelayOutput → Prop
  | .formatted m retval =>
      retval = m.encodedSize ∧ m.encodedSize ≤ MAX_IX_MSG_PKT_SIZE ∧ Published es m
  | .extracted m reads =>
      .formatted m m.encodedSize ∈ (relay Dn Df vars rxVars).outputs start es ∧
        ∀ b ∈ reads, 0 ≤ b ∧ b < m.encodedSize
  | .read m => Relayed es m

/-- Every output of the step is safe. -/
def StepSafe (vars rxVars : IxVars) (start : Relay Dn Df)
    (Published Relayed : List RelayEvent → IxMsg → Prop) (pre : List RelayEvent)
    (s : Relay Dn Df) (e : RelayEvent) : Prop :=
  ∀ o ∈ ((relay Dn Df vars rxVars).step s e).2,
    OutputSafe vars rxVars start Published Relayed pre o

end Safety

/-! ## What the sender has read fits -/

/-- The events of the near database, event by event. -/
theorem nearEvents_concat (es : List RelayEvent) (e : RelayEvent) :
    nearEvents (es ++ [e]) = nearEvents es ++ nearEvents [e] := by
  induction es with
  | nil => rfl
  | cons f es ih =>
      cases f with
      | near f few => exact congrArg (f :: ·) ih
      | deliver i => exact ih
      | far f own => exact ih

/-- A message written has no more approaches than there is room for. -/
theorem few_of_written {es : List RelayEvent} {m : IxMsg} (h : Written (nearEvents es) m) :
    m.approachArray.length ≤ MAX_APPROACHES := by
  obtain ⟨bounded, hmem⟩ := h.mem
  clear h
  induction es with
  | nil => exact absurd hmem List.not_mem_nil
  | cons e es ih =>
      cases e with
      | near e few =>
          rcases List.mem_cons.mp hmem with rfl | hrest
          · exact few
          · exact ih hrest
      | deliver i => exact ih hmem
      | far e own => exact ih hmem

/-- Bounded approaches take no more than the largest would. -/
theorem approachesSize_le {ps : List IxApproach} (h : ∀ p ∈ ps, p.Bounded) :
    approachesSize ps ≤ ps.length * MAX_APPROACH_SIZE := by
  induction ps with
  | nil => exact Nat.zero_le _
  | cons p ps ih =>
      have hfirst := (h p List.mem_cons_self).bytes_length_le
      have hrest := ih fun q hq => h q (List.mem_cons_of_mem p hq)
      have hsize : approachesSize (p :: ps) = p.size + approachesSize ps := by
        simp [approachesSize]
      have hown : p.size ≤ MAX_APPROACH_SIZE := by
        rw [IxApproach.size, ← p.bytes_length]
        exact hfirst
      calc approachesSize (p :: ps) ≤ MAX_APPROACH_SIZE + ps.length * MAX_APPROACH_SIZE := by
            rw [hsize]
            exact Nat.add_le_add hown hrest
        _ = (p :: ps).length * MAX_APPROACH_SIZE := by rw [List.length_cons]; ring

/-- A message that its datagram has room for, and `ix_approach_read` too. -/
structure IxMsg.Fits (m : IxMsg) : Prop where
  few : m.approachArray.length ≤ MAX_APPROACHES
  bounded : ∀ p ∈ m.approachArray, p.Bounded

/-- So a message that fits has room in a packet. -/
theorem IxMsg.Fits.encodedSize_le {m : IxMsg} (h : m.Fits) :
    m.encodedSize ≤ MAX_IX_MSG_PKT_SIZE := by
  have hsize := approachesSize_le h.bounded
  have hmost := Nat.mul_le_mul_right MAX_APPROACH_SIZE h.few
  rw [IxMsg.encodedSize]
  change 53 + _ ≤ 53 + _
  omega

/-- A message written fits. -/
theorem fits_of_written {es : List RelayEvent} {m : IxMsg} (h : Written (nearEvents es) m) :
    m.Fits where
  few := few_of_written h
  bounded := by
    obtain ⟨bounded, -⟩ := h.mem
    exact bounded

/-! ## One step of the loops -/

section Loops

variable {Dn Df : Database}

/-- The sender's loop with messages that fit: each is formatted whole, and what is in the
air is one of them or was there. -/
theorem broadcast_spec (ms : List IxMsg) (s : Relay Dn Df)
    (hfit : ∀ m ∈ ms, m.encodedSize ≤ MAX_IX_MSG_PKT_SIZE) :
    (broadcast s ms).1.near = s.near ∧ (broadcast s ms).1.far = s.far ∧
      (∀ d ∈ (broadcast s ms).1.air, d ∈ s.air ∨ ∃ m ∈ ms, Carries d m) ∧
      (broadcast s ms).2 = ms.map fun m => .formatted m m.encodedSize := by
  induction ms generalizing s with
  | nil => exact ⟨rfl, rfl, fun d hd => Or.inl hd, rfl⟩
  | cons m ms ih =>
      have hroom : (m.encodedSize : Int) ≤ (MAX_IX_MSG_PKT_SIZE : Int) :=
        Int.ofNat_le.mpr (hfit m List.mem_cons_self)
      obtain ⟨hret, -⟩ := ixMsgFormat_spec m s.sendBuf hroom
      have hsent : ¬ (m.encodedSize : Int) < 0 := by omega
      simp only [broadcast, hret, if_neg hsent, Int.toNat_natCast]
      obtain ⟨hnear, hfar, hair, hout⟩ := ih
        { s with
          sendBuf := (ixMsgFormat m s.sendBuf MAX_IX_MSG_PKT_SIZE).2
          air := s.air ++
            [(ixMsgFormat m s.sendBuf MAX_IX_MSG_PKT_SIZE).2.take 0 m.encodedSize] }
        fun m' hm' => hfit m' (List.mem_cons_of_mem m hm')
      refine ⟨hnear, hfar, fun d hd => ?_, by rw [hout, List.map_cons]⟩
      rcases hair d hd with hold | ⟨m', hm', hcarries⟩
      · rcases List.mem_append.mp hold with hold | hnew
        · exact Or.inl hold
        · rw [List.mem_singleton.mp hnew]
          exact Or.inr ⟨m, List.mem_cons_self, carries_formatted m s.sendBuf hroom⟩
      · exact Or.inr ⟨m', List.mem_cons_of_mem m hm', hcarries⟩

/-- The receiver's loop with a datagram that carries a message: it gets the message, and
begins to write it. -/
theorem receive_spec (rxVars : IxVars) (s : Relay Dn Df) {datagram : List UChar} {m : IxMsg}
    (hcarries : Carries datagram m) :
    (receive rxVars s datagram).1.near = s.near ∧ (receive rxVars s datagram).1.air = s.air ∧
      (receive rxVars s datagram).1.far =
        { s.far with message := some m, pending := msgWrites rxVars m } ∧
      ∃ reads, (receive rxVars s datagram).2 = [.extracted m reads] ∧
        ∀ b ∈ reads, 0 ≤ b ∧ b < m.encodedSize := by
  obtain ⟨hread, hreads⟩ := hcarries.extracted s.buf
  refine ⟨rfl, rfl, ?_, (ixMsgExtract (received s.buf datagram)).2.reads, ?_, hreads⟩
  · simp only [receive, hread]
  · simp only [receive, hread]

end Loops

/-! ## One database of the two -/

/-- What a database shared by a writer and a reader keeps, and what the reader gets, when
`W` are the messages written; `Allowed` are the steps taken. -/
structure Hop (D : Database) (vars : IxVars) where
  Allowed : Sharing D → DbEvent → Prop
  Inv : (IxMsg → Prop) → Sharing D → Prop
  Gives : (IxMsg → Prop) → IxMsg → Prop
  inv_mono : ∀ {W W' : IxMsg → Prop} {s}, (∀ m, W m → W' m) → Inv W s → Inv W' s
  gives_mono : ∀ {W W' : IxMsg → Prop} {m}, (∀ m, W m → W' m) → Gives W m → Gives W' m
  step : ∀ {W s e}, Inv W s → Allowed s e →
    Inv (fun m => W m ∨ Takes s e m) ((sharing D vars).step s e).1
  gives : ∀ {W s e}, Inv W s → Allowed s e → ∀ m ∈ ((sharing D vars).step s e).2, Gives W m

/-- The steps of a run that both databases allow. -/
def RelayAllowed {Dn Df : Database} {vars rxVars : IxVars} (near : Hop Dn vars)
    (far : Hop Df rxVars) (_pre : List RelayEvent) (s : Relay Dn Df) : RelayEvent → Prop
  | .near e _ => near.Allowed s.near e
  | .deliver _ => ∀ m bounded, far.Allowed s.far (.update m bounded)
  | .far e _ => far.Allowed s.far e

/-! ## Any run -/

/-- The message was sent. -/
def Formatted {Dn Df : Database} (vars rxVars : IxVars) (start : Relay Dn Df)
    (es : List RelayEvent) (m : IxMsg) : Prop :=
  ∃ n, .formatted m n ∈ (relay Dn Df vars rxVars).outputs start es

/-- What a run keeps: the near database what it keeps of the messages published, with the
writes left of the last; every datagram in the air carries a message formatted, and these are
what the near database gives; and the far database what it keeps when those are written. -/
structure RelayInv {Dn Df : Database} {vars rxVars : IxVars} (near : Hop Dn vars)
    (far : Hop Df rxVars) (start : Relay Dn Df) (es : List RelayEvent) (s : Relay Dn Df) :
    Prop where
  run : s = (relay Dn Df vars rxVars).run start es
  published : near.Inv (Written (nearEvents es)) s.near
  left : s.near.pending.length = writesLeft (nearEvents es)
  air : ∀ d ∈ s.air, ∃ m, Carries d m ∧
    .formatted m m.encodedSize ∈ (relay Dn Df vars rxVars).outputs start es
  formatted : ∀ m, Formatted vars rxVars start es m → near.Gives (Written (nearEvents es)) m
  extracted : far.Inv (Formatted vars rxVars start es) s.far

/-- What was written stays written. -/
theorem Written.concat {es : List RelayEvent} {m : IxMsg} (h : Written (nearEvents es) m)
    (e : RelayEvent) : Written (nearEvents (es ++ [e])) m := by
  rw [nearEvents_concat]
  exact h.append _

section Runs

variable {Dn Df : Database} {vars rxVars : IxVars} {near : Hop Dn vars} {far : Hop Df rxVars}
  {start : Relay Dn Df} {es : List RelayEvent} {s : Relay Dn Df}

/-- A message formatted stays one that was. -/
theorem Formatted.concat {m : IxMsg} (h : Formatted vars rxVars start es m) (e : RelayEvent) :
    Formatted vars rxVars start (es ++ [e]) m := by
  obtain ⟨n, hn⟩ := h
  exact ⟨n, by rw [Machine.outputs_concat]; exact List.mem_append_left _ hn⟩

/-- A step at the near database: what is read fits, so it is formatted and sent whole. -/
private theorem near_step
    (hfits : ∀ es m, near.Gives (Written (nearEvents es)) m → m.Fits)
    (h : RelayInv near far start es s) (e : DbEvent) (few : e.Few)
    (hallowed : near.Allowed s.near e) :
    StepSafe vars rxVars start (fun es => near.Gives (Written (nearEvents es)))
        (fun es => far.Gives (Formatted vars rxVars start es)) es s (.near e few) ∧
      RelayInv near far start (es ++ [.near e few])
        ((relay Dn Df vars rxVars).step s (.near e few)).1 := by
  have hgives : ∀ m ∈ (sharingStep Dn vars s.near e).2,
      near.Gives (Written (nearEvents es)) m := near.gives h.published hallowed
  obtain ⟨hnear, hfar, hair, hout⟩ := broadcast_spec (sharingStep Dn vars s.near e).2
    { s with near := (sharingStep Dn vars s.near e).1 }
    fun m hm => (hfits es m (hgives m hm)).encodedSize_le
  have hsent : ((relay Dn Df vars rxVars).step s (.near e few)).2 =
      (sharingStep Dn vars s.near e).2.map fun m => .formatted m m.encodedSize := hout
  have houtputs : (relay Dn Df vars rxVars).outputs start (es ++ [.near e few]) =
      (relay Dn Df vars rxVars).outputs start es ++
        (sharingStep Dn vars s.near e).2.map fun m => .formatted m m.encodedSize := by
    rw [Machine.outputs_concat, ← h.run, hsent]
  constructor
  · intro o ho
    rw [hsent] at ho
    obtain ⟨m, hm, rfl⟩ := List.mem_map.mp ho
    exact ⟨rfl, (hfits es m (hgives m hm)).encodedSize_le, hgives m hm⟩
  · refine ⟨?_, ?_, ?_, ?_, ?_, ?_⟩
    · rw [Machine.run_concat, ← h.run]
    · change near.Inv _ (broadcast _ _).1.near
      rw [hnear]
      refine near.inv_mono ?_ (near.step h.published hallowed)
      intro m hm
      rw [nearEvents_concat]
      exact (written_concat_iff h.left).mpr hm
    · change (broadcast _ _).1.near.pending.length = _
      rw [hnear, nearEvents_concat]
      exact sharingStep_left vars h.left e
    · intro d hd
      rw [houtputs]
      rcases hair d hd with hold | ⟨m, hm, hcarries⟩
      · obtain ⟨m, hcarries, hm⟩ := h.air d hold
        exact ⟨m, hcarries, List.mem_append_left _ hm⟩
      · exact ⟨m, hcarries, List.mem_append_right _ (List.mem_map.mpr ⟨m, hm, rfl⟩)⟩
    · rintro m ⟨n, hm⟩
      rw [houtputs] at hm
      rcases List.mem_append.mp hm with hold | hnew
      · exact near.gives_mono (fun _ hw => hw.concat _) (h.formatted m ⟨n, hold⟩)
      · obtain ⟨m', hm', heq⟩ := List.mem_map.mp hnew
        obtain ⟨rfl, -⟩ := RelayOutput.formatted.inj heq
        exact near.gives_mono (fun _ hw => hw.concat _) (hgives m' hm')
    · change far.Inv _ (broadcast _ _).1.far
      rw [hfar]
      exact far.inv_mono (fun _ hf => hf.concat _) h.extracted

/-- A step that leaves the near end, and formats nothing. -/
private theorem RelayInv.elsewhere (h : RelayInv near far start es s) {e : RelayEvent}
    (hevents : nearEvents [e] = [])
    (hnear : ((relay Dn Df vars rxVars).step s e).1.near = s.near)
    (hair : ((relay Dn Df vars rxVars).step s e).1.air = s.air)
    (hout : ∀ m n, .formatted m n ∉ ((relay Dn Df vars rxVars).step s e).2)
    (hfar : far.Inv (Formatted vars rxVars start es) ((relay Dn Df vars rxVars).step s e).1.far) :
    RelayInv near far start (es ++ [e]) ((relay Dn Df vars rxVars).step s e).1 where
  run := by rw [Machine.run_concat, ← h.run]
  published := by
    rw [hnear, nearEvents_concat, hevents, List.append_nil]
    exact h.published
  left := by
    rw [hnear, nearEvents_concat, hevents, List.append_nil]
    exact h.left
  air := by
    intro d hd
    rw [hair] at hd
    obtain ⟨m, hcarries, hm⟩ := h.air d hd
    exact ⟨m, hcarries, by rw [Machine.outputs_concat]; exact List.mem_append_left _ hm⟩
  formatted := by
    rintro m ⟨n, hm⟩
    rw [Machine.outputs_concat, ← h.run] at hm
    rcases List.mem_append.mp hm with hold | hnew
    · exact near.gives_mono (fun _ hw => hw.concat _) (h.formatted m ⟨n, hold⟩)
    · exact absurd hnew (hout m n)
  extracted := far.inv_mono (fun _ hf => hf.concat _) hfar

/-- A delivery: the message extracted is the one the datagram carries. -/
private theorem deliver_step
    (hfits : ∀ es m, near.Gives (Written (nearEvents es)) m → m.Fits)
    (h : RelayInv near far start es s) (i : Nat)
    (hallowed : ∀ m bounded, far.Allowed s.far (.update m bounded)) :
    StepSafe vars rxVars start (fun es => near.Gives (Written (nearEvents es)))
        (fun es => far.Gives (Formatted vars rxVars start es)) es s (.deliver i) ∧
      RelayInv near far start (es ++ [.deliver i])
        ((relay Dn Df vars rxVars).step s (.deliver i)).1 := by
  by_cases hstep : (relay Dn Df vars rxVars).step s (.deliver i) = (s, [])
  · refine ⟨fun o ho => ?_, h.elsewhere rfl ?_ ?_ ?_ ?_⟩
    · rw [hstep] at ho
      exact absurd ho List.not_mem_nil
    · rw [hstep]
    · rw [hstep]
    · rw [hstep]
      exact fun m n => List.not_mem_nil
    · rw [hstep]
      exact h.extracted
  · cases hpending : s.far.pending with
    | cons w ws => exact absurd (by simp only [relay, relayStep, hpending]) hstep
    | nil =>
        cases hd : s.air[i]? with
        | none => exact absurd (by simp only [relay, relayStep, hpending, hd]) hstep
        | some datagram =>
            obtain ⟨m, hcarries, hm⟩ := h.air datagram (List.mem_of_getElem? hd)
            have htake : (relay Dn Df vars rxVars).step s (.deliver i) =
                receive rxVars s datagram := by
              simp only [relay, relayStep, hpending, hd]
            obtain ⟨hnear, hair, hfar, reads, hout, hreads⟩ := receive_spec rxVars s hcarries
            have hbounded := (hfits es m (h.formatted m ⟨_, hm⟩)).bounded
            have hupdate : ((sharing Df rxVars).step s.far (.update m hbounded)).1 =
                { s.far with message := some m, pending := msgWrites rxVars m } := by
              simp only [sharing, sharingStep, hpending]
            refine ⟨fun o ho => ?_, h.elsewhere rfl ?_ ?_ ?_ ?_⟩
            · rw [htake, hout] at ho
              rw [List.mem_singleton.mp ho]
              exact ⟨hm, hreads⟩
            · rw [htake, hnear]
            · rw [htake, hair]
            · rw [htake, hout]
              exact fun m' n hmem => absurd (List.mem_singleton.mp hmem) (by simp)
            · rw [htake, hfar, ← hupdate]
              refine far.inv_mono ?_ (far.step h.extracted (hallowed m hbounded))
              rintro m' (hold | ⟨-, bounded, hnew⟩)
              · exact hold
              · obtain rfl := DbEvent.update.inj hnew
                exact ⟨_, hm⟩

/-- A step at the far database. -/
private theorem far_step (h : RelayInv near far start es s) (e : DbEvent) (own : ¬ e.IsUpdate)
    (hallowed : far.Allowed s.far e) :
    StepSafe vars rxVars start (fun es => near.Gives (Written (nearEvents es)))
        (fun es => far.Gives (Formatted vars rxVars start es)) es s (.far e own) ∧
      RelayInv near far start (es ++ [.far e own])
        ((relay Dn Df vars rxVars).step s (.far e own)).1 := by
  constructor
  · intro o ho
    obtain ⟨m, hm, rfl⟩ := List.mem_map.mp ho
    exact far.gives h.extracted hallowed m hm
  · refine h.elsewhere rfl rfl rfl ?_ (far.inv_mono ?_ (far.step h.extracted hallowed))
    · intro m n hmem
      obtain ⟨m', -, heq⟩ := List.mem_map.mp hmem
      exact absurd heq (by simp)
    · rintro m (hold | ⟨-, bounded, rfl⟩)
      · exact hold
      · exact absurd trivial own

/-- Every step that is allowed is safe, and keeps the invariant. -/
theorem relay_step (hfits : ∀ es m, near.Gives (Written (nearEvents es)) m → m.Fits)
    (h : RelayInv near far start es s) (e : RelayEvent) (hallowed : RelayAllowed near far es s e) :
    StepSafe vars rxVars start (fun es => near.Gives (Written (nearEvents es)))
        (fun es => far.Gives (Formatted vars rxVars start es)) es s e ∧
      RelayInv near far start (es ++ [e]) ((relay Dn Df vars rxVars).step s e).1 := by
  cases e with
  | near e few => exact near_step hfits h e few hallowed
  | deliver i => exact deliver_step hfits h i hallowed
  | far e own => exact far_step h e own hallowed

/-- What a client reads, the far database gives of what the near one gives. -/
theorem relay_safe (hfits : ∀ es m, near.Gives (Written (nearEvents es)) m → m.Fits)
    (h : RelayInv near far start es s) (e : RelayEvent) (hallowed : RelayAllowed near far es s e) :
    StepSafe vars rxVars start (fun es => near.Gives (Written (nearEvents es)))
      (fun es => far.Gives (near.Gives (Written (nearEvents es)))) es s e := by
  intro o ho
  have hsafe := (relay_step hfits h e hallowed).1 o ho
  cases o with
  | formatted m n => exact hsafe
  | extracted m reads => exact hsafe
  | read m => exact far.gives_mono h.formatted hsafe

end Runs

/-- A header, and approaches, each of them whole: of a message written, or what the
database held at the start. -/
structure PiecedOf (D : Database) (vars : IxVars) (store : D.Store) (W : IxMsg → Prop)
    (m : IxMsg) : Prop where
  header : m.fields = readMsgFields D vars store ∨ ∃ m', W m' ∧ m.fields = m'.fields
  approach : ∀ i p, m.approachArray[i]? = some p →
    (∃ stack, p = ixApproachRead D vars store stack i) ∨
      ∃ m', W m' ∧ m'.approachArray[i]? = some p

/-- Pieces of some messages are pieces of more of them. -/
theorem PiecedOf.mono {D : Database} {vars : IxVars} {store : D.Store} {W W' : IxMsg → Prop}
    {m : IxMsg} (hW : ∀ m, W m → W' m) (h : PiecedOf D vars store W m) :
    PiecedOf D vars store W' m where
  header := h.header.imp_right fun ⟨m', hm', heq⟩ => ⟨m', hW m' hm', heq⟩
  approach := fun i p hp => (h.approach i p hp).imp_right fun ⟨m', hm', hp'⟩ =>
    ⟨m', hW m' hm', hp'⟩

/-- The variables hold a message that there is room for, and each approach's variable an
approach that there is room for. -/
structure HoldsFitting (D : Database) (vars : IxVars) (store : D.Store) : Prop where
  few : (readMsgFields D vars store).numApproaches.toNat ≤ MAX_APPROACHES
  bounded : ∀ stack, ∀ i < MAX_APPROACHES, (ixApproachRead D vars store stack i).Bounded

/-- What is pieced together of messages that fit, fits. -/
theorem PiecedOf.fits {D : Database} {vars : IxVars} {store : D.Store}
    (hstore : HoldsFitting D vars store) {W : IxMsg → Prop} (hW : ∀ m, W m → m.Fits) {m : IxMsg}
    (h : PiecedOf D vars store W m) : m.Fits := by
  have hfew : m.approachArray.length ≤ MAX_APPROACHES := by
    rw [m.length_eq]
    rcases h.header with hsame | ⟨m', hm', hsame⟩
    · rw [hsame]
      exact hstore.few
    · rw [hsame, ← m'.length_eq]
      exact (hW m' hm').few
  refine ⟨hfew, fun p hp => ?_⟩
  obtain ⟨i, hi⟩ := List.getElem?_of_mem hp
  rcases h.approach i p hi with ⟨stack, rfl⟩ | ⟨m', hm', hp'⟩
  · exact hstore.bounded stack i ((List.getElem?_eq_some_iff.mp hi).1.trans_le hfew)
  · exact (hW m' hm').bounded p (List.mem_of_getElem? hp')

end RfsAtsc
