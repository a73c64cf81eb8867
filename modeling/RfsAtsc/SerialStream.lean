import RfsAtsc.RoundTrip

/-!
# Streams of frames

What successive calls of `ser_driver_read` make of a serial stream: of frames
back to back, and of a frame behind line noise.  Every call has a stack of its
own; the caller's message and the port go from one call to the next.
-/

namespace RfsAtsc

open TracedMemory ByteStuffing

/-- Successive calls of `ser_driver_read`, one for each stack.  A call that waits
for ever is the last. -/
def serDriverReads : List (Mem Byte) → List Byte → Mem Byte → List ReadResult
  | [], _, _ => []
  | stack :: locals, port, messagebuff =>
      let r := serDriverRead port messagebuff stack
      match r.ret with
      | none => [r]
      | some _ => r :: serDriverReads locals r.port r.messagebuff

/-- A call that returns is followed by the others. -/
theorem serDriverReads_cons {port : List Byte} {messagebuff stack : Mem Byte} {ret : Bool}
    (h : (serDriverRead port messagebuff stack).ret = some ret) (locals : List (Mem Byte)) :
    serDriverReads (stack :: locals) port messagebuff
      = serDriverRead port messagebuff stack :: serDriverReads locals
          (serDriverRead port messagebuff stack).port
          (serDriverRead port messagebuff stack).messagebuff := by
  simp only [serDriverReads, h]

/-- On a silent port every call returns FALSE. -/
theorem serDriverReads_silent (locals : List (Mem Byte)) (messagebuff : Mem Byte) :
    ∀ r ∈ serDriverReads locals [] messagebuff, r.ret = some false := by
  induction locals generalizing messagebuff with
  | nil => simp [serDriverReads]
  | cons stack locals ih =>
      have hread : serDriverRead [] messagebuff stack = ⟨some false, messagebuff, []⟩ :=
        serDriverRead_short (by simp) messagebuff stack
      have hret : (serDriverRead [] messagebuff stack).ret = some false := by rw [hread]
      rw [serDriverReads_cons hret, hread]
      intro r hr
      rcases List.mem_cons.mp hr with rfl | hr
      · rfl
      · exact ih messagebuff r hr

/-! ## Frames back to back -/

/-- The call returned TRUE with exactly the body and its check behind the first
byte of the message. -/
def Delivers (r : ReadResult) (body : List Byte) : Prop :=
  r.ret = some true ∧ ∃ opening, r.messagebuff.Holds 0 (messageData opening (withFcs body))

/-- One call for each body returns TRUE and delivers it, in order, and the calls
after these do not return TRUE. -/
def DeliversAll (results : List ReadResult) (bodies : List (List Byte)) : Prop :=
  List.Forall₂ Delivers (results.take bodies.length) bodies ∧
    ∀ r ∈ results.drop bodies.length, r.ret ≠ some true

/-- The frames of the bodies, back to back. -/
def frames (bodies : List (List Byte)) : List Byte := bodies.flatMap hdlcFrame

/-- The address byte of a body needs no escape. -/
def PlainAddress (body : List Byte) : Prop := ∀ addr ∈ body.head?, hdlc.Plain addr

instance (body : List Byte) : Decidable (PlainAddress body) := by
  unfold PlainAddress
  cases body.head? with
  | none => exact isTrue (by simp)
  | some addr => exact decidable_of_iff (hdlc.Plain addr) (by simp)

/-- An escaped byte travels as the escape and a stand-in, and neither is what
the check of the byte runs over. -/
private theorem stuffByte_of_not_plain {addr : Byte} (h : ¬ hdlc.Plain addr) :
    ∃ e, stuffByte hdlc addr = [0x7d, e] ∧ hdlc.Plain e ∧
      pppfcs PPPINITFCS [0x7d, e] ≠ pppfcs PPPINITFCS [addr] := by
  by_cases hflag : addr = 0x7e
  · subst hflag
    exact ⟨0x5e, by decide, by decide, by decide +kernel⟩
  · have hesc : addr = 0x7d := by
      by_contra hesc
      exact h ⟨hflag, hesc⟩
    subst hesc
    exact ⟨0x5d, by decide, by decide, by decide +kernel⟩

/-- **An escaped address is refused.**  The reader keeps the escape as the
address, and with it the check fails. -/
theorem escaped_address_refused {addr : Byte} {body : List Byte} (h : ¬ hdlc.Plain addr)
    (hlen : (addr :: body).length ≤ 92) (rest : List Byte) (messagebuff stack : Mem Byte) :
    (serDriverRead (hdlcFrame (addr :: body) ++ rest) messagebuff stack).ret = some false := by
  obtain ⟨e, hstuff, he, hfcs⟩ := stuffByte_of_not_plain h
  obtain ⟨w, hw⟩ : ∃ w, withFcs (addr :: body) = addr :: w := ⟨_, rfl⟩
  have hwlen := congrArg List.length hw
  rw [withFcs_length, List.length_cons] at hwlen
  rw [List.length_cons] at hlen hwlen
  have hspells :
      Spells (hdlcFrame (addr :: body) ++ rest) 0x7e (0x7d :: e :: w) (0x7e :: rest) := by
    refine ⟨0x7d, e :: w, ?_, rfl⟩
    rw [hdlcFrame, hw, stuff_cons, hstuff, stuff_cons, stuffByte_plain hdlc he]
    simp
  by_cases hfit : (0x7d :: e :: w).length ≤ 94
  · have hbad : checkModframeString (0x7d :: e :: w) ≠ PPPGOODFCS := by
      intro hgood
      have hown := checkModframeString_withFcs (addr :: body)
      rw [← hown, hw] at hgood
      apply hfcs
      exact TableCrc.run_injective fcstab_high_injective w hgood
    rw [(serDriverRead_flag hspells hfit messagebuff stack).1]
    simpa using hbad
  · have hfull : (0x7d :: e :: w).length = 95 := by
      rw [List.length_cons, List.length_cons] at hfit ⊢
      omega
    rw [serDriverRead_tooLong hspells hfull]

theorem delivers_hdlcFrame {addr : Byte} {body : List Byte} (h : hdlc.Plain addr)
    (hlen : (addr :: body).length ≤ 92) (rest : List Byte) (messagebuff stack : Mem Byte) :
    Delivers (serDriverRead (hdlcFrame (addr :: body) ++ rest) messagebuff stack) (addr :: body) ∧
      (serDriverRead (hdlcFrame (addr :: body) ++ rest) messagebuff stack).port = rest := by
  obtain ⟨hret, hport, hheld⟩ := (accepts_hdlcFrame h hlen rest).reads messagebuff stack
  exact ⟨⟨hret, 0x7e, hheld⟩, hport⟩

/-- **Streams of frames, exactly.**  Frames back to back are all delivered, in
order, exactly when no address byte needs an escape. -/
theorem deliversAll_iff (bodies : List (List Byte)) (locals : List (Mem Byte))
    (messagebuff : Mem Byte) (hbodies : ∀ body ∈ bodies, 1 ≤ body.length ∧ body.length ≤ 92)
    (hcalls : bodies.length ≤ locals.length) :
    DeliversAll (serDriverReads locals (frames bodies) messagebuff) bodies ↔
      ∀ body ∈ bodies, PlainAddress body := by
  induction bodies generalizing locals messagebuff with
  | nil =>
      have hsilent := serDriverReads_silent locals messagebuff
      refine ⟨by simp, fun _ => ⟨by simp, ?_⟩⟩
      intro r hr
      rw [hsilent r (by simpa [frames] using hr)]
      decide
  | cons body bodies ih =>
      obtain ⟨stack, locals, rfl⟩ := List.exists_cons_of_length_pos
        (Nat.lt_of_lt_of_le (Nat.succ_pos _) hcalls)
      obtain ⟨hsome, hlen⟩ := hbodies body List.mem_cons_self
      obtain ⟨addr, body, rfl⟩ := List.exists_cons_of_length_pos hsome
      have hstream : frames ((addr :: body) :: bodies)
          = hdlcFrame (addr :: body) ++ frames bodies := rfl
      have haddress : PlainAddress (addr :: body) ↔ hdlc.Plain addr := by
        simp [PlainAddress]
      rw [hstream]
      by_cases hplain : hdlc.Plain addr
      · obtain ⟨hfirst, hport⟩ := delivers_hdlcFrame hplain hlen (frames bodies) messagebuff stack
        rw [serDriverReads_cons hfirst.1, hport]
        have hmore := ih locals
          (serDriverRead (hdlcFrame (addr :: body) ++ frames bodies) messagebuff stack).messagebuff
          (fun b hb => hbodies b (List.mem_cons_of_mem _ hb))
          (Nat.le_of_succ_le_succ hcalls)
        rw [List.forall_mem_cons, haddress, ← hmore]
        simp [DeliversAll, hfirst, hplain]
      · have hfirst := escaped_address_refused hplain hlen (frames bodies) messagebuff stack
        refine iff_of_false ?_ ?_
        · intro hdelivered
          obtain ⟨hall, -⟩ := hdelivered
          rw [serDriverReads_cons hfirst, List.length_cons, List.take_succ_cons,
            List.forall₂_cons] at hall
          exact absurd (hfirst.symm.trans hall.1.1) (by decide)
        · intro hall
          exact hplain (haddress.mp (hall _ List.mem_cons_self))

/-- Two frames with plain addresses are delivered. -/
theorem deliversAll_iff_pair :
    DeliversAll (serDriverReads [Mem.ofList 0 [], Mem.ofList 0 []] (frames [[0x05], [0x05, 0x7d]])
        (Mem.ofList 0 [])) [[0x05], [0x05, 0x7d]] ↔
      ∀ body ∈ [[0x05], [0x05, 0x7d]], PlainAddress body :=
  deliversAll_iff [[0x05], [0x05, 0x7d]] [Mem.ofList 0 [], Mem.ofList 0 []] (Mem.ofList 0 [])
    (by decide) (by decide)

/-- The frame of a body whose address is the escape is lost. -/
theorem escape_address_lost :
    (serDriverRead (frames [[0x7d]]) (Mem.ofList 0 []) (Mem.ofList 0 [])).ret = some false ∧
      ¬ DeliversAll (serDriverReads [Mem.ofList 0 []] (frames [[0x7d]]) (Mem.ofList 0 []))
        [[0x7d]] := by
  have hread : (serDriverRead (frames [[0x7d]]) (Mem.ofList 0 []) (Mem.ofList 0 [])).ret
      = some false := by
    decide +kernel
  refine ⟨hread, ?_⟩
  intro hdelivered
  obtain ⟨hall, -⟩ := hdelivered
  rw [serDriverReads_cons hread, List.length_cons, List.take_succ_cons, List.forall₂_cons] at hall
  exact absurd (hread.symm.trans hall.1.1) (by decide)

/-! ## A frame behind noise -/

/-- One of the calls delivers the frame. -/
def Resyncs (results : List ReadResult) (body : List Byte) : Prop :=
  ∃ r ∈ results, Delivers r body

/-- Noise that one call takes off the port, and no more: up to the byte behind an
escape it cannot undo, or up to the byte that overruns the buffer. -/
def JunkChunk (junk : List Byte) : Prop :=
  ∃ x y c tail, junk = x :: y :: (stuff hdlc c ++ tail) ∧
    ((c.length ≤ 93 ∧ ∃ z, tail = [0x7d, z] ∧ z ≠ 0x5e ∧ z ≠ 0x5d) ∨
      (c.length = 94 ∧ ∃ b, tail = [b]))

/-- Noise that leaves the frame alone: whole chunks of junk, and then at most one
byte, or one byte and a copy of what the frame carries. -/
def Harmless (noise body : List Byte) : Prop :=
  ∃ (chunks : List (List Byte)) (tail : List Byte), noise = chunks.flatten ++ tail ∧
    (∀ junk ∈ chunks, JunkChunk junk) ∧
    (tail.length ≤ 1 ∨ ∃ x, tail = x :: stuff hdlc (withFcs body))

/-- A call on a chunk of junk returns FALSE and leaves what follows. -/
theorem junkChunk_refused {junk : List Byte} (h : JunkChunk junk) (hnoise : 0x7e ∉ junk)
    (rest : List Byte) (messagebuff stack : Mem Byte) :
    serDriverRead (junk ++ rest) messagebuff stack = ⟨some false, messagebuff, rest⟩ := by
  obtain ⟨x, y, c, tail, rfl, hend⟩ := h
  have hy : y ≠ 0x7e := by
    intro heq
    subst heq
    exact hnoise (by simp)
  have hspells : Spells (x :: y :: (stuff hdlc c ++ tail) ++ rest) x (y :: c) (tail ++ rest) := by
    refine ⟨y, c, ?_, by rw [lead, if_pos hy]; rfl⟩
    simp
  rcases hend with ⟨hlen, z, rfl, hflag, hesc⟩ | ⟨hlen, b, rfl⟩
  · exact serDriverRead_illegal hspells (by rw [List.length_cons]; omega) hflag hesc _ _
  · exact serDriverRead_tooLong hspells (by rw [List.length_cons, hlen]) _ _

/-- Noise of at most one byte, or one byte and a copy of the frame, is followed by
the frame's delivery. -/
theorem delivers_of_tail {addr : Byte} {body tail : List Byte} (haddr : hdlc.Plain addr)
    (hlen : (addr :: body).length ≤ 92)
    (htail : tail.length ≤ 1 ∨ ∃ x, tail = x :: stuff hdlc (withFcs (addr :: body)))
    (messagebuff stack : Mem Byte) :
    Delivers (serDriverRead (tail ++ hdlcFrame (addr :: body)) messagebuff stack)
      (addr :: body) := by
  have hgood := checkModframeString_withFcs (addr :: body)
  have hsize : (withFcs (addr :: body)).length ≤ 94 := by
    rw [withFcs_length]
    omega
  have hdeliver : ∀ {port x rest}, Spells port x (withFcs (addr :: body)) (0x7e :: rest) →
      Delivers (serDriverRead port messagebuff stack) (addr :: body) := by
    intro port x rest hspells
    have hread := Accepts.reads ⟨hspells, hsize, hgood⟩ messagebuff stack
    exact ⟨hread.1, x, hread.2.2⟩
  rcases htail with hshort | ⟨x, rfl⟩
  · match tail, hshort with
    | [], _ =>
        exact hdeliver (spells_stuffed haddr 0x7e _ _)
    | [x], _ =>
        -- the opening flag is the second byte, and stands for nothing
        have hspells : Spells ([x] ++ hdlcFrame (addr :: body)) x (withFcs (addr :: body))
            [0x7e] := by
          refine ⟨0x7e, withFcs (addr :: body), ?_, rfl⟩
          simp [hdlcFrame]
        exact hdeliver hspells
  · have hcopy := spells_stuffed haddr x (body ++ fcsBytes (addr :: body))
      (hdlcFrame (addr :: body))
    exact hdeliver hcopy

/-- A call that takes in another message does not deliver this one. -/
theorem content_eq_of_delivers {port content rest body : List Byte} {x : Byte}
    (hspells : Spells port x content (0x7e :: rest)) (hlen : content.length ≤ 94)
    (hbody : body.length ≤ 92) {messagebuff stack : Mem Byte}
    (h : Delivers (serDriverRead port messagebuff stack) body) : content = withFcs body := by
  obtain ⟨-, opening, hheld⟩ := h
  have hown := (serDriverRead_flag hspells hlen messagebuff stack).2.2
  have hsize : (withFcs body).length ≤ 94 := by
    rw [withFcs_length]
    omega
  have hdata := hown.unique hheld (by
    rw [messageData_length _ (by omega), messageData_length _ (by omega)])
  exact (messageData_injective (by omega) (by omega) hdata).2

/-- A frame without its opening flag is taken in as another message: its address
goes for the opening byte. -/
theorem spells_headless {addr : Byte} {body : List Byte} (haddr : hdlc.Plain addr)
    (hlen : (addr :: body).length ≤ 92) :
    ∃ content, Spells (stuff hdlc (withFcs (addr :: body)) ++ [0x7e]) addr content [0x7e] ∧
      content.length ≤ 94 ∧ content ≠ withFcs (addr :: body) := by
  obtain ⟨b, w, hw⟩ : ∃ b w, withFcs (addr :: body) = addr :: b :: w := by
    cases body with
    | nil => exact ⟨_, _, rfl⟩
    | cons b body => exact ⟨b, _, rfl⟩
  have hsize : (addr :: b :: w).length ≤ 94 := by
    rw [← hw, withFcs_length]
    omega
  rw [List.length_cons, List.length_cons] at hsize
  rw [hw, stuff_address haddr]
  by_cases hb : hdlc.Plain b
  · refine ⟨b :: w, spells_stuffed hb addr w [0x7e], by rw [List.length_cons]; omega, ?_⟩
    intro heq
    have hlengths := congrArg List.length heq
    simp only [List.length_cons] at hlengths
    omega
  · obtain ⟨e, hstuff, he, -⟩ := stuffByte_of_not_plain hb
    refine ⟨0x7d :: e :: w, ⟨0x7d, e :: w, ?_, rfl⟩, ?_, ?_⟩
    · rw [stuff_cons, hstuff, stuff_cons, stuffByte_plain hdlc he]
      simp
    · rw [List.length_cons, List.length_cons]
      omega
    · intro heq
      exact haddr.2 (List.cons.inj heq).1.symm

/-- A frame without its opening flag is not delivered by any call. -/
theorem not_resyncs_of_headless {addr : Byte} {body : List Byte} (haddr : hdlc.Plain addr)
    (hlen : (addr :: body).length ≤ 92) (locals : List (Mem Byte)) (messagebuff : Mem Byte) :
    ¬ Resyncs (serDriverReads locals (stuff hdlc (withFcs (addr :: body)) ++ [0x7e]) messagebuff)
      (addr :: body) := by
  intro hresyncs
  obtain ⟨r, hr, hdelivers⟩ := hresyncs
  cases locals with
  | nil => simp [serDriverReads] at hr
  | cons stack locals =>
      obtain ⟨content, hspells, hfit, hne⟩ := spells_headless haddr hlen
      obtain ⟨hret, hport, -⟩ := serDriverRead_flag hspells hfit messagebuff stack
      rw [serDriverReads_cons hret, hport] at hr
      rcases List.mem_cons.mp hr with rfl | hr
      · exact hne (content_eq_of_delivers hspells hfit hlen hdelivers)
      · have hfalse := serDriverReads_silent _ _ r hr
        exact absurd (hfalse.symm.trans hdelivers.1) (by decide)

/-- After a first call that leaves the frame without its opening flag, only that
call can have delivered it. -/
theorem delivers_of_resyncs {port body : List Byte} {addr : Byte} {ret : Bool}
    {stack messagebuff : Mem Byte} {locals : List (Mem Byte)} (haddr : hdlc.Plain addr)
    (hlen : (addr :: body).length ≤ 92)
    (hret : (serDriverRead port messagebuff stack).ret = some ret)
    (hport : (serDriverRead port messagebuff stack).port
      = stuff hdlc (withFcs (addr :: body)) ++ [0x7e])
    (h : Resyncs (serDriverReads (stack :: locals) port messagebuff) (addr :: body)) :
    Delivers (serDriverRead port messagebuff stack) (addr :: body) := by
  obtain ⟨r, hr, hdelivers⟩ := h
  rw [serDriverReads_cons hret, hport] at hr
  rcases List.mem_cons.mp hr with rfl | hlater
  · exact hdelivers
  · exact absurd ⟨r, hlater, hdelivers⟩ (not_resyncs_of_headless haddr hlen _ _)

/-- Noise that one call takes in up to the opening flag of the frame, or up to an
escape in front of it. -/
theorem copy_of_swallowed {x y addr : Byte} {u body : List Byte} {stack messagebuff : Mem Byte}
    {locals : List (Mem Byte)} (haddr : hdlc.Plain addr) (hlen : (addr :: body).length ≤ 92)
    (hy : y ≠ 0x7e)
    (hu : ∃ c, (u = stuff hdlc c ∧ c.length ≤ 94) ∨ (u = stuff hdlc c ++ [0x7d] ∧ c.length ≤ 93))
    (h : Resyncs (serDriverReads (stack :: locals) (x :: y :: u ++ hdlcFrame (addr :: body))
      messagebuff) (addr :: body)) :
    y :: u = stuff hdlc (withFcs (addr :: body)) := by
  rcases hu with ⟨c, ⟨rfl, hc⟩ | ⟨rfl, hc⟩⟩
  · have hspells : Spells (x :: y :: stuff hdlc c ++ hdlcFrame (addr :: body)) x (y :: c)
        (0x7e :: (stuff hdlc (withFcs (addr :: body)) ++ [0x7e])) :=
      Spells.of_lead_ne hy c
    by_cases hfit : (y :: c).length ≤ 94
    · obtain ⟨hret, hport, -⟩ := serDriverRead_flag hspells hfit messagebuff stack
      have hcopy := content_eq_of_delivers hspells hfit hlen
        (delivers_of_resyncs haddr hlen hret hport h)
      have hplain : hdlc.Plain y := by
        rw [(List.cons.inj hcopy).1]
        exact haddr
      rw [← hcopy, stuff_address hplain]
    · have hread := serDriverRead_tooLong hspells
        (by rw [List.length_cons] at hfit ⊢; omega) messagebuff stack
      have hret : (serDriverRead (x :: y :: stuff hdlc c ++ hdlcFrame (addr :: body))
          messagebuff stack).ret = some false := by rw [hread]
      have hdelivers := delivers_of_resyncs haddr hlen hret (by rw [hread]) h
      rw [hread] at hdelivers
      exact absurd hdelivers.1 (by simp)
  · -- the escape takes the opening flag with it
    have hspells : Spells (x :: y :: (stuff hdlc c ++ [0x7d]) ++ hdlcFrame (addr :: body)) x
        (y :: c) (0x7d :: 0x7e :: (stuff hdlc (withFcs (addr :: body)) ++ [0x7e])) := by
      refine ⟨y, c, ?_, by rw [lead, if_pos hy]; rfl⟩
      simp [hdlcFrame]
    have hread := serDriverRead_illegal hspells (by rw [List.length_cons]; omega)
      (by decide) (by decide) messagebuff stack
    have hret : (serDriverRead (x :: y :: (stuff hdlc c ++ [0x7d]) ++ hdlcFrame (addr :: body))
        messagebuff stack).ret = some false := by rw [hread]
    have hdelivers := delivers_of_resyncs haddr hlen hret (by rw [hread]) h
    rw [hread] at hdelivers
    exact absurd hdelivers.1 (by simp)

/-- How noise of two bytes or more ends the first call: it starts with a chunk of
junk, or it is taken in to its end. -/
theorem noise_cases {x y : Byte} {u : List Byte} (hu : 0x7e ∉ u) :
    (∃ junk rest, x :: y :: u = junk ++ rest ∧ JunkChunk junk) ∨
      ∃ c, (u = stuff hdlc c ∧ c.length ≤ 94) ∨ (u = stuff hdlc c ++ [0x7d] ∧ c.length ≤ 93) := by
  obtain ⟨c, tail, rfl, hend⟩ := exists_stuff_prefix hdlc 94 u
  have hchunk : ∀ t rest, tail = t ++ rest →
      ((c.length ≤ 93 ∧ ∃ z, t = [0x7d, z] ∧ z ≠ 0x5e ∧ z ≠ 0x5d) ∨
        (c.length = 94 ∧ ∃ b, t = [b])) →
      ∃ junk rest, x :: y :: (stuff hdlc c ++ tail) = junk ++ rest ∧ JunkChunk junk := by
    intro t rest htail hkind
    exact ⟨x :: y :: (stuff hdlc c ++ t), rest, by simp [htail], ⟨x, y, c, t, rfl, hkind⟩⟩
  rcases hend with hfull | ⟨hlen, rfl | rfl | ⟨rest, rfl⟩ | ⟨z, rest, rfl, hflag, hesc⟩⟩
  · cases tail with
    | nil => exact Or.inr ⟨c, Or.inl ⟨by simp, hfull.le⟩⟩
    | cons b rest =>
        exact Or.inl (hchunk [b] rest rfl (Or.inr ⟨hfull, b, rfl⟩))
  · exact Or.inr ⟨c, Or.inl ⟨by simp, hlen.le⟩⟩
  · exact Or.inr ⟨c, Or.inr ⟨rfl, by omega⟩⟩
  · exact absurd (by simp) hu
  · exact Or.inl (hchunk [0x7d, z] rest rfl (Or.inl ⟨by omega, z, rfl, hflag, hesc⟩))

theorem JunkChunk.three_le {junk : List Byte} (h : JunkChunk junk) : 3 ≤ junk.length := by
  rcases h with ⟨x, y, c, tail, rfl, ⟨-, z, rfl, -⟩ | ⟨-, b, rfl⟩⟩
  · simp only [List.length_cons, List.length_append]
    omega
  · simp only [List.length_cons, List.length_append]
    omega

/-- A chunk of junk in front of harmless noise is harmless. -/
theorem Harmless.cons {junk noise body : List Byte} (hjunk : JunkChunk junk)
    (h : Harmless noise body) : Harmless (junk ++ noise) body := by
  obtain ⟨chunks, tail, rfl, hchunks, htail⟩ := h
  exact ⟨junk :: chunks, tail, by simp, List.forall_mem_cons.mpr ⟨hjunk, hchunks⟩, htail⟩

theorem resyncs_cons_of_refused {port rest body : List Byte} {stack messagebuff : Mem Byte}
    (hread : serDriverRead port messagebuff stack = ⟨some false, messagebuff, rest⟩)
    (locals : List (Mem Byte)) :
    Resyncs (serDriverReads (stack :: locals) port messagebuff) body ↔
      Resyncs (serDriverReads locals rest messagebuff) body := by
  have hret : (serDriverRead port messagebuff stack).ret = some false := by rw [hread]
  rw [serDriverReads_cons hret, hread]
  constructor
  · intro hresyncs
    obtain ⟨r, hr, hdelivers⟩ := hresyncs
    rcases List.mem_cons.mp hr with rfl | hr
    · exact absurd hdelivers.1 (by simp)
    · exact ⟨r, hr, hdelivers⟩
  · intro hresyncs
    obtain ⟨r, hr, hdelivers⟩ := hresyncs
    exact ⟨r, List.mem_cons_of_mem _ hr, hdelivers⟩

/-- Harmless noise is passed over, and the frame behind it delivered. -/
theorem resyncs_of_harmless {noise body : List Byte} {addr : Byte} (haddr : hdlc.Plain addr)
    (hlen : (addr :: body).length ≤ 92) (hnoise : 0x7e ∉ noise)
    (h : Harmless noise (addr :: body)) {locals : List (Mem Byte)}
    (hcalls : noise.length < locals.length) (messagebuff : Mem Byte) :
    Resyncs (serDriverReads locals (noise ++ hdlcFrame (addr :: body)) messagebuff)
      (addr :: body) := by
  obtain ⟨chunks, tail, rfl, hchunks, htail⟩ := h
  induction chunks generalizing locals with
  | nil =>
      obtain ⟨stack, locals, rfl⟩ := List.exists_cons_of_length_pos (Nat.zero_lt_of_lt hcalls)
      have hfirst := delivers_of_tail haddr hlen htail messagebuff stack
      rw [List.flatten_nil, List.nil_append, serDriverReads_cons hfirst.1]
      exact ⟨_, List.mem_cons_self, hfirst⟩
  | cons junk chunks ih =>
      obtain ⟨hjunk, hchunks⟩ := List.forall_mem_cons.mp hchunks
      obtain ⟨stack, locals, rfl⟩ := List.exists_cons_of_length_pos (Nat.zero_lt_of_lt hcalls)
      rw [List.flatten_cons, List.append_assoc, List.mem_append, not_or] at hnoise
      rw [List.flatten_cons, List.append_assoc, List.length_append, List.length_cons] at hcalls
      have hread := junkChunk_refused hjunk hnoise.1
        (chunks.flatten ++ tail ++ hdlcFrame (addr :: body)) messagebuff stack
      have hstream : (junk :: chunks).flatten ++ tail ++ hdlcFrame (addr :: body)
          = junk ++ (chunks.flatten ++ tail ++ hdlcFrame (addr :: body)) := by
        simp
      rw [hstream, resyncs_cons_of_refused hread]
      exact ih hnoise.2 (by have := hjunk.three_le; omega) hchunks

/-- Noise in front of a frame that is delivered was harmless. -/
theorem harmless_of_resyncs {noise body : List Byte} {addr : Byte} (haddr : hdlc.Plain addr)
    (hlen : (addr :: body).length ≤ 92) (hnoise : 0x7e ∉ noise) {locals : List (Mem Byte)}
    {messagebuff : Mem Byte}
    (h : Resyncs (serDriverReads locals (noise ++ hdlcFrame (addr :: body)) messagebuff)
      (addr :: body)) : Harmless noise (addr :: body) := by
  induction locals generalizing noise with
  | nil =>
      obtain ⟨r, hr, -⟩ := h
      simp [serDriverReads] at hr
  | cons stack locals ih =>
      match noise with
      | [] => exact ⟨[], [], rfl, by simp, Or.inl (by simp)⟩
      | [x] => exact ⟨[], [x], rfl, by simp, Or.inl (by simp)⟩
      | x :: y :: u =>
          simp only [List.mem_cons, not_or] at hnoise
          rcases noise_cases (x := x) (y := y) hnoise.2.2 with ⟨junk, rest, hsplit, hjunk⟩ | hu
          · have hparts : 0x7e ∉ junk ∧ 0x7e ∉ rest := by
              rw [← not_or, ← List.mem_append, ← hsplit]
              simpa using hnoise
            rw [hsplit, List.append_assoc, resyncs_cons_of_refused
              (junkChunk_refused hjunk hparts.1 _ messagebuff stack)] at h
            rw [hsplit]
            exact (ih hparts.2 h).cons hjunk
          · have hcopy := copy_of_swallowed haddr hlen (Ne.symm hnoise.2.1) hu h
            exact ⟨[], x :: y :: u, rfl, by simp, Or.inr ⟨x, by rw [← hcopy]⟩⟩

/-- **Resynchronisation, exactly.**  With noise in front of it a frame with a plain
address is delivered exactly when the noise leaves it alone. -/
theorem resyncs_iff (noise : List Byte) (addr : Byte) (body : List Byte)
    (locals : List (Mem Byte)) (messagebuff : Mem Byte) (hnoise : 0x7e ∉ noise)
    (haddr : hdlc.Plain addr) (hlen : (addr :: body).length ≤ 92)
    (hcalls : noise.length < locals.length) :
    Resyncs (serDriverReads locals (noise ++ hdlcFrame (addr :: body)) messagebuff)
        (addr :: body) ↔
      Harmless noise (addr :: body) :=
  ⟨harmless_of_resyncs haddr hlen hnoise,
    fun h => resyncs_of_harmless haddr hlen hnoise h hcalls messagebuff⟩

/-- A frame behind one byte of noise is delivered. -/
theorem resyncs_iff_single :
    Resyncs (serDriverReads [Mem.ofList 0 [], Mem.ofList 0 []] ([0x00] ++ hdlcFrame [0x05])
        (Mem.ofList 0 [])) [0x05] ↔ Harmless [0x00] [0x05] :=
  resyncs_iff [0x00] 0x05 [] [Mem.ofList 0 [], Mem.ofList 0 []] (Mem.ofList 0 [])
    (by decide) (by decide) (by decide) (by decide)

/-- Two bytes of noise cost the frame behind them, however often the reader is
called. -/
theorem two_bytes_lose_frame :
    ¬ ∃ (locals : List (Mem Byte)) (messagebuff : Mem Byte),
      Resyncs (serDriverReads locals ([0x00, 0x00] ++ hdlcFrame [0x05]) messagebuff) [0x05] := by
  intro hresyncs
  obtain ⟨locals, messagebuff, h⟩ := hresyncs
  obtain ⟨chunks, tail, hnoise, hchunks, htail⟩ :=
    harmless_of_resyncs (by decide) (by decide) (by decide) h
  have hlen := congrArg List.length hnoise
  rw [List.length_append] at hlen
  cases chunks with
  | nil =>
      rcases htail with hshort | ⟨x, rfl⟩
      · simp at hlen
        omega
      · have hcarried := length_le_stuff hdlc (withFcs [0x05])
        simp at hlen hcarried
        omega
  | cons junk chunks =>
      have hthree := (hchunks junk List.mem_cons_self).three_le
      simp at hlen
      omega

end RfsAtsc
