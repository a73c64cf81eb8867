import RfsAtsc.PmppFrames

/-!
# What the PMPP receiver reads and stores

Every byte of a frame is read the same way, with its escape undone, and stored behind the
one before.  On any stream at all the receiver therefore stores at the places below its
index only, and the index goes by the count that the message announces.  The wait for the
opening flag is the one loop that no counter ends.
-/

namespace RfsAtsc

open TracedMemory ByteStuffing BerEncoding

/-! ## One byte -/

/-- A byte read into a variable that holds `old`, its escape undone. -/
def Port.take (stale : Nat → Byte) (p : Port) (old : Byte) : Byte × Port :=
  let r := p.read old
  if r.1 = escapeChar then collapseEscape stale r.2 else r

/-- Reading a byte takes one from the port. -/
theorem Receiving.get_eq (stale : Nat → Byte) (s : Receiving) :
    s.get stale = { s with tmp := (s.port.take stale s.tmp).1
                           port := (s.port.take stale s.tmp).2 } := by
  simp only [Receiving.get, Port.take]
  split
  · rfl
  · rfl

/-- The code of the length is read where the header ends. -/
theorem Receiving.readByteCode_eq (stale : Nat → Byte) (s : Receiving) :
    s.readByteCode stale =
      ((s.port.take stale (stale s.port.reads)).1,
        { s with buf := s.buf.store s.i (s.port.take stale (stale s.port.reads)).1
                 i := s.i + 1
                 port := (s.port.take stale (stale s.port.reads)).2 }) := rfl

/-- A read takes the first byte of the port's input, if there is one. -/
theorem Port.read_input (p : Port) (old : Byte) : (p.read old).2.input = p.input.tail := by
  obtain ⟨input, reads⟩ := p
  cases input with
  | nil => rfl
  | cons b bs => rfl

/-- Whatever is not the stand-in of the flag is taken for that of the escape. -/
theorem collapseEscape_eq (stale : Nat → Byte) (p : Port) :
    collapseEscape stale p =
      (if (p.read (stale p.reads)).1 = escapeDelimiter then delimiterFlag else escapeChar,
        (p.read (stale p.reads)).2) := by
  have hassigned : escapeEscape ≠ 0 := by decide
  simp only [collapseEscape, if_pos hassigned]
  split
  · rfl
  · rfl

/-- A byte as it may stand on the line: itself, or behind an escape, where only the
stand-in of the flag is looked at. -/
def Spelling (w : List Byte) (b : Byte) : Prop :=
  (w = [b] ∧ b ≠ escapeChar) ∨
    ∃ x, w = [escapeChar, x] ∧ b = if x = escapeDelimiter then delimiterFlag else escapeChar

/-- A spelled byte is read as the byte. -/
theorem take_spelling (stale : Nat → Byte) {w : List Byte} {b : Byte} (h : Spelling w b)
    (u : List Byte) (reads : Nat) (old : Byte) :
    Port.take stale ⟨w ++ u, reads⟩ old = (b, ⟨u, reads + w.length⟩) := by
  rcases h with ⟨rfl, hb⟩ | ⟨x, rfl, rfl⟩
  · exact if_neg hb
  · exact collapseEscape_eq stale ⟨x :: u, reads + 1⟩

/-- A read that leaves something on the port has read a spelled byte. -/
theorem take_eq (stale : Nat → Byte) {p q : Port} {old b : Byte}
    (h : p.take stale old = (b, q)) (hq : q.input ≠ []) :
    ∃ w, Spelling w b ∧ p.input = w ++ q.input ∧ q.reads = p.reads + w.length := by
  have hcollapse : ∀ p : Port, (collapseEscape stale p).2.input = p.input.tail := by
    intro p
    rw [collapseEscape_eq]
    exact p.read_input _
  have hinput := congrArg (fun r => r.2.input) h
  obtain ⟨input, reads⟩ := p
  rcases input with _ | ⟨x, u⟩
  · refine absurd ?_ hq
    rw [← hinput]
    simp only [Port.take]
    split
    · rw [hcollapse, Port.read_input]
      rfl
    · rw [Port.read_input]
      rfl
  · by_cases hx : x = escapeChar
    · subst hx
      rcases u with _ | ⟨y, u⟩
      · refine absurd ?_ hq
        rw [← hinput]
        exact hcollapse ⟨[], reads + 1⟩
      · have hspells : Spelling [escapeChar, y]
            (if y = escapeDelimiter then delimiterFlag else escapeChar) := Or.inr ⟨y, rfl, rfl⟩
        have htake := take_spelling stale hspells u reads old
        rw [List.cons_append, List.singleton_append, h] at htake
        obtain ⟨rfl, rfl⟩ := Prod.mk.inj htake
        exact ⟨_, hspells, rfl, rfl⟩
    · have hspells : Spelling [x] x := Or.inl ⟨rfl, hx⟩
      have htake := take_spelling stale hspells u reads old
      rw [List.singleton_append, h] at htake
      obtain ⟨rfl, rfl⟩ := Prod.mk.inj htake
      exact ⟨_, hspells, rfl, rfl⟩

/-! ## The header -/

/-- The port without the second of two opening flags. -/
def Port.behindFlag (p : Port) : Port :=
  if (p.read delimiterFlag).1 = delimiterFlag then (p.read delimiterFlag).2 else p

/-- Behind the flag the first byte is read over a second flag. -/
theorem Receiving.firstByte_eq (stale : Nat → Byte) {s : Receiving} (htmp : s.tmp = delimiterFlag) :
    s.firstByte stale = { s with tmp := (s.port.behindFlag.take stale delimiterFlag).1
                                 port := (s.port.behindFlag.take stale delimiterFlag).2 } := by
  have hundo : ∀ r : Byte × Port,
      (if r.1 = escapeChar then
        { s with tmp := (collapseEscape stale r.2).1, port := (collapseEscape stale r.2).2 }
        else { s with tmp := r.1, port := r.2 }) =
      { s with tmp := (if r.1 = escapeChar then collapseEscape stale r.2 else r).1
               port := (if r.1 = escapeChar then collapseEscape stale r.2 else r).2 } := by
    intro r
    split
    · rfl
    · rfl
  simp only [Receiving.firstByte, Port.behindFlag, htmp]
  by_cases hdouble : (s.port.read delimiterFlag).1 = delimiterFlag
  · simp only [hdouble, if_true]
    exact hundo ((s.port.read delimiterFlag).2.read delimiterFlag)
  · simp only [hdouble, if_false]
    exact hundo (s.port.read delimiterFlag)

/-- The three bytes of the header: the address, the control byte and the protocol. -/
def headerBytes (stale : Nat → Byte) (p : Port) : (Byte × Port) × (Byte × Port) × (Byte × Port) :=
  let address := p.behindFlag.take stale delimiterFlag
  let ctrl := address.2.take stale address.1
  let ipi := ctrl.2.take stale ctrl.1
  (address, ctrl, ipi)

/-- The receiver behind the header. -/
def headerRead (stale : Nat → Byte) (buf : Mem Byte) (p : Port) : Receiving :=
  let header := headerBytes stale p
  { buf := (((buf.untraced.store 0 delimiterFlag).store 1 header.1.1).store 2 header.2.1.1).store 3
      header.2.2.1
    i := 4
    tmp := header.2.2.1
    port := header.2.2.2 }

/-- The receiver waits for the flag, reads the header and then the rest. -/
theorem receiveMessage_eq (stale : Nat → Byte) (buf : Mem Byte) (input : List Byte) :
    receiveMessage stale buf input =
      (awaitFlag input 0).map fun p => (headerRead stale buf p).rest stale := by
  have hheader : ∀ p : Port, Receiving.fill stale (PMPP_HEADER_SIZE - 2)
      ((Receiving.put { buf := buf.untraced, i := 0, tmp := delimiterFlag, port := p }).firstByte
        stale).put = headerRead stale buf p := by
    intro p
    rw [Receiving.firstByte_eq stale rfl]
    change (Receiving.get stale (Receiving.put (Receiving.get stale _))).put = _
    rw [Receiving.get_eq, Receiving.get_eq]
    rfl
  unfold receiveMessage
  simp only [hheader]

/-- What the receiver tests of the header and the tag. -/
def Passes (stale : Nat → Byte) (p : Port) : Prop :=
  (headerBytes stale p).2.1.1 = PMPP_CTRL_VAL ∧ (headerBytes stale p).2.2.1 = PMPP_STMF_VAL ∧
    ((headerBytes stale p).2.2.2.read PMPP_STMF_VAL).1 = SNMP_SEQUENCE

/-- The receiver behind the tag. -/
def tagRead (stale : Nat → Byte) (buf : Mem Byte) (p : Port) : Receiving :=
  { buf := (headerRead stale buf p).buf.store 4 SNMP_SEQUENCE
    i := 5
    tmp := SNMP_SEQUENCE
    port := ((headerBytes stale p).2.2.2.read PMPP_STMF_VAL).2 }

/-- The count a message announces, and the receiver behind it. -/
def countRead (stale : Nat → Byte) (s : Receiving) : Nat × Receiving :=
  (s.readByteCode stale).2.readByteCount stale (s.readByteCode stale).1

/-- The receiver behind the message and its check. -/
def messageRead (stale : Nat → Byte) (s : Receiving) : Receiving :=
  (countRead stale s).2.fill stale ((countRead stale s).1 + 2)

/-- A stream whose header or tag is refused. -/
theorem rest_refused (stale : Nat → Byte) (buf : Mem Byte) {p : Port} (h : ¬ Passes stale p) :
    ((headerRead stale buf p).rest stale).handed = none ∧
      ((headerRead stale buf p).rest stale).buf = (headerRead stale buf p).buf := by
  unfold Receiving.rest
  split
  · exact ⟨rfl, rfl⟩
  · rename_i hheader
    rw [not_or, not_or, not_not, not_not, not_not] at hheader
    obtain ⟨-, hctrl, hipi⟩ := hheader
    have hctrl' : (headerBytes stale p).2.1.1 = PMPP_CTRL_VAL := hctrl
    have hipi' : (headerBytes stale p).2.2.1 = PMPP_STMF_VAL := hipi
    have htag : ¬ ((headerRead stale buf p).port.read (headerRead stale buf p).tmp).1 =
        SNMP_SEQUENCE := by
      intro htag
      have hread : ((headerBytes stale p).2.2.2.read (headerBytes stale p).2.2.1).1 =
          SNMP_SEQUENCE := htag
      rw [hipi'] at hread
      exact h ⟨hctrl', hipi', hread⟩
    simp only [ne_eq, htag, not_false_eq_true, if_true]
    exact ⟨trivial, trivial⟩

/-- A stream whose header and tag pass. -/
theorem rest_passes (stale : Nat → Byte) (buf : Mem Byte) {p : Port} (h : Passes stale p) :
    (headerRead stale buf p).rest stale =
      let s := tagRead stale buf p
      let n := (countRead stale s).1 + (countRead stale s).2.i
      { ret := 1
        buf := (messageRead stale s).buf
        handed :=
          if computeFcs ((messageRead stale s).buf.take 1 (n + 1)) ≠ PMPP_FCS_MAGIC then none
          else some (((countRead stale s).1 + (countRead stale s).2.i : Int) - PMPP_HEADER_SIZE)
        port := ((messageRead stale s).port.read (messageRead stale s).tmp).2 } := by
  obtain ⟨hctrl, hipi, htag⟩ := h
  have hpass : ¬ ((headerRead stale buf p).buf.cell 0 ≠ PMPP_FLAG_VAL ∨
      (headerRead stale buf p).buf.cell 2 ≠ PMPP_CTRL_VAL ∨
      (headerRead stale buf p).buf.cell 3 ≠ PMPP_STMF_VAL) := by
    rw [not_or, not_or, not_not, not_not, not_not]
    exact ⟨rfl, hctrl, hipi⟩
  have hread : (headerRead stale buf p).port.read (headerRead stale buf p).tmp =
      (SNMP_SEQUENCE, ((headerBytes stale p).2.2.2.read PMPP_STMF_VAL).2) := by
    change (headerBytes stale p).2.2.2.read (headerBytes stale p).2.2.1 = _
    rw [hipi]
    exact Prod.ext htag rfl
  rw [Receiving.rest, if_neg hpass]
  simp only [hread, ne_eq, not_true_eq_false, if_false]
  rfl

/-! ## The count -/

/-- The byte code announces a count of two bytes. -/
def TwoByteCode (code : Byte) : Prop :=
  code &&& 0x80 ≠ 0 ∧ code &&& 1 = 0 ∧ code &&& 2 ≠ 0

instance (code : Byte) : Decidable (TwoByteCode code) :=
  inferInstanceAs (Decidable (_ ∧ _ ∧ _))

/-- The byte code and the two bytes behind it, whether they are a count or not.  A byte
the port does not have is the one before it, and the code what its variable held. -/
def countBytes (stale : Nat → Byte) (p : Port) : (Byte × Port) × (Byte × Port) × (Byte × Port) :=
  let code := p.take stale (stale p.reads)
  let hi := code.2.take stale SNMP_SEQUENCE
  let lo := hi.2.take stale hi.1
  (code, hi, lo)

/-- The count by the byte code, and how many bytes it takes. -/
def announced (code hi lo : Byte) : Nat × Nat :=
  if code &&& 0x80 = 0 then (code.toNat, 0)
  else if code &&& 1 ≠ 0 then (hi.toNat, 1)
  else if code &&& 2 ≠ 0 then (hi.toNat * 256 + lo.toNat, 2)
  else (0, 0)

/-- The length is read in as many bytes as its code says. -/
theorem readByteCount_eq (stale : Nat → Byte) (code : Byte) (s : Receiving) :
    let hi := s.port.take stale s.tmp
    let lo := hi.2.take stale hi.1
    (s.readByteCount stale code).1 = (announced code hi.1 lo.1).1 ∧
      (s.readByteCount stale code).2.i = s.i + (announced code hi.1 lo.1).2 := by
  simp only [Receiving.readByteCount, announced, Receiving.put, Receiving.get_eq]
  split
  · exact ⟨rfl, rfl⟩
  · split
    · exact ⟨rfl, rfl⟩
    · split
      · have hhi : ((s.i + 1 + 1 : Nat) : Int) - 2 = s.i := by omega
        have hlo : ((s.i + 1 + 1 : Nat) : Int) - 1 = (s.i + 1 : Nat) := by omega
        have hne : (s.i : Int) ≠ (s.i + 1 : Nat) := by omega
        rw [hhi, hlo, Mem.store_cell_ne _ _ hne, Mem.store_cell_same, Mem.store_cell_same]
        exact ⟨rfl, rfl⟩
      · exact ⟨rfl, rfl⟩

/-- The count and the index behind the tag. -/
theorem countRead_eq (stale : Nat → Byte) {s : Receiving} (htmp : s.tmp = SNMP_SEQUENCE) :
    let bytes := countBytes stale s.port
    (countRead stale s).1 = (announced bytes.1.1 bytes.2.1.1 bytes.2.2.1).1 ∧
      (countRead stale s).2.i = s.i + 1 + (announced bytes.1.1 bytes.2.1.1 bytes.2.2.1).2 := by
  have hcount := readByteCount_eq stale (s.readByteCode stale).1 (s.readByteCode stale).2
  have htmp' : (s.readByteCode stale).2.tmp = SNMP_SEQUENCE := htmp
  rw [htmp'] at hcount
  exact hcount

/-- A count of one byte stays far from the end of the packet buffer. -/
theorem announced_long_iff (code hi lo : Byte) :
    1500 < (announced code hi lo).1 + (6 + (announced code hi lo).2) + 2 ↔
      TwoByteCode code ∧ 1490 < hi.toNat * 256 + lo.toNat := by
  have hcode := code.isLt
  have hhi := hi.isLt
  unfold announced TwoByteCode
  by_cases hlong : code &&& 0x80 = 0
  · rw [if_pos hlong]
    refine iff_of_false ?_ (fun h => h.1.1 hlong)
    change ¬ 1500 < code.toNat + (6 + 0) + 2
    omega
  · rw [if_neg hlong]
    by_cases hone : code &&& 1 = 0
    · rw [if_neg (not_not.mpr hone)]
      by_cases htwo : code &&& 2 = 0
      · rw [if_neg (not_not.mpr htwo)]
        exact iff_of_false (by decide) (fun h => h.1.2.2 htwo)
      · rw [if_pos htwo, and_iff_right ⟨hlong, hone, htwo⟩]
        change 1500 < hi.toNat * 256 + lo.toNat + (6 + 2) + 2 ↔ _
        omega
    · rw [if_pos hone]
      refine iff_of_false ?_ (fun h => hone h.1.2.1)
      change ¬ 1500 < hi.toNat + (6 + 1) + 2
      omega

/-! ## The places stored to -/

/-- The places stored to are those below the index. -/
def FilledTo (s : Receiving) : Prop := ∀ a, a ∈ s.buf.stored ↔ 0 ≤ a ∧ a < s.i

/-- A byte stored at the index fills the buffer by one. -/
theorem FilledTo.store {s : Receiving} (h : FilledTo s) (b tmp : Byte) (port : Port) :
    FilledTo { buf := s.buf.store s.i b, i := s.i + 1, tmp := tmp, port := port } := by
  intro a
  rw [Mem.store_stored, List.mem_cons, h a]
  push_cast
  omega

/-- A byte read and put fills the buffer by one. -/
theorem FilledTo.get_put {s : Receiving} (h : FilledTo s) (stale : Nat → Byte) :
    FilledTo (s.get stale).put := by
  rw [Receiving.get_eq]
  exact h.store _ _ _

/-- `n` bytes read and put fill it by `n`. -/
theorem FilledTo.fill {s : Receiving} (h : FilledTo s) (stale : Nat → Byte) (n : Nat) :
    FilledTo (s.fill stale n) ∧ (s.fill stale n).i = s.i + n := by
  induction n generalizing s with
  | zero => exact ⟨h, rfl⟩
  | succ n ih =>
      have hnext := ih (h.get_put stale)
      have hindex : (s.get stale).put.i = s.i + 1 := by
        rw [Receiving.get_eq]
        rfl
      refine ⟨hnext.1, ?_⟩
      rw [Receiving.fill, hnext.2, hindex]
      omega

/-- Reading the length fills the buffer. -/
theorem FilledTo.countRead {s : Receiving} (h : FilledTo s) (stale : Nat → Byte) :
    FilledTo (countRead stale s).2 := by
  have hcode := h.store (s.port.take stale (stale s.port.reads)).1 s.tmp
    (s.port.take stale (stale s.port.reads)).2
  rw [RfsAtsc.countRead, Receiving.readByteCode_eq, Receiving.readByteCount]
  split
  · exact hcode
  · split
    · exact hcode.get_put stale
    · split
      · exact (hcode.get_put stale).get_put stale
      · exact hcode

/-- Behind the header the buffer is filled up to the index. -/
theorem headerRead_filled (stale : Nat → Byte) (buf : Mem Byte) (p : Port) :
    FilledTo (headerRead stale buf p) := by
  have hstart : FilledTo { buf := buf.untraced, i := 0, tmp := delimiterFlag, port := p } := by
    intro a
    refine iff_of_false (List.not_mem_nil) ?_
    change ¬ (0 ≤ a ∧ a < ((0 : Nat) : Int))
    omega
  have hflag := hstart.store delimiterFlag delimiterFlag p
  have haddress := hflag.store (headerBytes stale p).1.1 (headerBytes stale p).1.1
    (headerBytes stale p).1.2
  have hctrl := haddress.store (headerBytes stale p).2.1.1 (headerBytes stale p).2.1.1
    (headerBytes stale p).2.1.2
  exact hctrl.store (headerBytes stale p).2.2.1 (headerBytes stale p).2.2.1
    (headerBytes stale p).2.2.2

/-- So it is behind the tag. -/
theorem tagRead_filled (stale : Nat → Byte) (buf : Mem Byte) (p : Port) :
    FilledTo (tagRead stale buf p) :=
  (headerRead_filled stale buf p).store SNMP_SEQUENCE SNMP_SEQUENCE _

/-- The places are all in the packet buffer exactly when the index is. -/
theorem FilledTo.bounded_iff {s : Receiving} (h : FilledTo s) :
    (∀ a ∈ s.buf.stored, 0 ≤ a ∧ a < STMF_MAX_PACKET) ↔ s.i ≤ STMF_MAX_PACKET := by
  constructor
  · intro hbound
    by_contra hover
    have hlast : ((STMF_MAX_PACKET : Nat) : Int) ∈ s.buf.stored := (h _).mpr (by omega)
    have hlt := (hbound _ hlast).2
    omega
  · intro hindex a ha
    have hrange := (h a).mp ha
    omega

/-- The message behind the tag is too long for the packet buffer. -/
def LongCount (stale : Nat → Byte) (p : Port) : Prop :=
  let bytes := countBytes stale p
  TwoByteCode bytes.1.1 ∧ 1490 < bytes.2.1.1.toNat * 256 + bytes.2.2.1.toNat

/-- The receiver keeps to its packet buffer unless header and tag pass and the count is
too long. -/
theorem rest_bounded_iff (stale : Nat → Byte) (buf : Mem Byte) (p : Port) :
    (∀ a ∈ ((headerRead stale buf p).rest stale).buf.stored, 0 ≤ a ∧ a < STMF_MAX_PACKET) ↔
      ¬ (Passes stale p ∧
        LongCount stale ((headerBytes stale p).2.2.2.read PMPP_STMF_VAL).2) := by
  by_cases hpass : Passes stale p
  · obtain ⟨hcount, hindex⟩ := countRead_eq (s := tagRead stale buf p) stale rfl
    obtain ⟨hfilled, hend⟩ := ((tagRead_filled stale buf p).countRead stale).fill stale
      ((countRead stale (tagRead stale buf p)).1 + 2)
    have hlong := announced_long_iff (countBytes stale (tagRead stale buf p).port).1.1
      (countBytes stale (tagRead stale buf p).port).2.1.1
      (countBytes stale (tagRead stale buf p).port).2.2.1
    have htag : (tagRead stale buf p).i = 5 := rfl
    rw [rest_passes stale buf hpass, and_iff_right hpass]
    change (∀ a ∈ (messageRead stale (tagRead stale buf p)).buf.stored, _) ↔
      ¬ LongCount stale (tagRead stale buf p).port
    rw [messageRead, hfilled.bounded_iff, hend, hindex, hcount, htag, LongCount, ← hlong,
      STMF_MAX_PACKET]
    omega
  · rw [(rest_refused stale buf hpass).2, (headerRead_filled stale buf p).bounded_iff]
    have hindex : (headerRead stale buf p).i = 4 := rfl
    rw [hindex, STMF_MAX_PACKET]
    exact iff_of_true (by omega) (fun h => hpass h.1)

/-! ## The stream in front of the message -/

/-- The wait ends behind the first flag. -/
theorem awaitFlag_eq_some_iff (input : List Byte) (reads : Nat) (p : Port) :
    awaitFlag input reads = some p ↔
      ∃ junk, input = junk ++ delimiterFlag :: p.input ∧ delimiterFlag ∉ junk ∧
        p.reads = reads + junk.length + 1 := by
  induction input generalizing reads with
  | nil => simp [awaitFlag]
  | cons b bs ih =>
      rw [awaitFlag]
      by_cases hb : b = delimiterFlag
      · subst hb
        rw [if_pos rfl, Option.some.injEq]
        constructor
        · intro hport
          subst hport
          exact ⟨[], rfl, List.not_mem_nil, rfl⟩
        · intro hjunk
          obtain ⟨junk, hinput, hclean, hreads⟩ := hjunk
          cases junk with
          | nil =>
              obtain ⟨input, reads'⟩ := p
              obtain ⟨-, rfl⟩ := List.cons.inj hinput
              rw [show reads' = reads + 1 from hreads]
          | cons c junk =>
              obtain ⟨rfl, -⟩ := List.cons.inj hinput
              exact absurd List.mem_cons_self hclean
      · rw [if_neg hb, ih]
        constructor
        · intro hjunk
          obtain ⟨junk, hinput, hclean, hreads⟩ := hjunk
          refine ⟨b :: junk, by rw [hinput]; rfl, ?_, ?_⟩
          · rw [List.mem_cons, not_or]
            exact ⟨Ne.symm hb, hclean⟩
          · rw [List.length_cons]
            omega
        · intro hjunk
          obtain ⟨junk, hinput, hclean, hreads⟩ := hjunk
          cases junk with
          | nil => exact absurd (List.cons.inj hinput).1 hb
          | cons c junk =>
              refine ⟨junk, (List.cons.inj hinput).2, fun hmem => ?_, ?_⟩
              · exact hclean (List.mem_cons_of_mem _ hmem)
              · rw [List.length_cons] at hreads
                omega

/-- What comes behind the first opening flag: a second one or none, and then `w`. -/
def Opening (double w : List Byte) : Prop :=
  double = [delimiterFlag] ∨ double = [] ∧ w.head? ≠ some delimiterFlag

/-- A port that spells the address behind the opening flags has lost the second flag. -/
theorem behindFlag_opening {double w u : List Byte} (hopening : Opening double w)
    (hw : w ≠ []) (reads : Nat) :
    Port.behindFlag ⟨double ++ (w ++ u), reads⟩ = ⟨w ++ u, reads + double.length⟩ := by
  rcases hopening with rfl | ⟨rfl, hflag⟩
  · rfl
  · obtain ⟨x, w, rfl⟩ := List.exists_cons_of_ne_nil hw
    have hx : x ≠ delimiterFlag := by simpa using hflag
    exact if_neg hx

/-- What is read behind a flag is the frame, with a second flag in front or none. -/
theorem opening_of_behindFlag {p : Port} {w u : List Byte} (hw : w ≠ [])
    (h : p.behindFlag.input = w ++ u) :
    ∃ double, Opening double w ∧ p.input = double ++ (w ++ u) ∧
      p.behindFlag.reads = p.reads + double.length := by
  obtain ⟨input, reads⟩ := p
  obtain ⟨y, w, rfl⟩ := List.exists_cons_of_ne_nil hw
  rcases input with _ | ⟨x, input⟩
  · exact absurd h (by simp [Port.behindFlag, Port.read])
  · by_cases hx : x = delimiterFlag
    · subst hx
      have hinput : input = y :: w ++ u := h
      subst hinput
      exact ⟨[delimiterFlag], Or.inl rfl, rfl, rfl⟩
    · have hsame : Port.behindFlag ⟨x :: input, reads⟩ = ⟨x :: input, reads⟩ := if_neg hx
      rw [hsame] at h ⊢
      have hxy : x = y := (List.cons.inj h).1
      refine ⟨[], Or.inr ⟨rfl, ?_⟩, h, rfl⟩
      rw [← hxy, List.head?_cons, Ne, Option.some.injEq]
      exact hx

/-- A byte that stands for neither flag nor escape is spelled as itself. -/
theorem Spelling.plain {w : List Byte} {b : Byte} (h : Spelling w b) (hflag : b ≠ delimiterFlag)
    (hesc : b ≠ escapeChar) : w = [b] := by
  rcases h with ⟨rfl, -⟩ | ⟨x, -, hb⟩
  · rfl
  · split at hb
    · exact absurd hb hflag
    · exact absurd hb hesc

/-- A byte is spelled in one byte at least. -/
theorem Spelling.ne_nil {w : List Byte} {b : Byte} (h : Spelling w b) : w ≠ [] := by
  rcases h with ⟨rfl, -⟩ | ⟨x, rfl, -⟩
  · exact List.cons_ne_nil _ _
  · exact List.cons_ne_nil _ _

/-- What header and tag are on the stream when they pass: an address, and the control
byte, the protocol and the tag as they are. -/
theorem spelled_of_passes {stale : Nat → Byte} {p : Port} (hpass : Passes stale p) :
    ∃ double w a more, Opening double w ∧ Spelling w a ∧
      p.input = double ++ (w ++ PMPP_CTRL_VAL :: PMPP_STMF_VAL :: SNMP_SEQUENCE :: more) ∧
      ((headerBytes stale p).2.2.2.read PMPP_STMF_VAL).2 =
        ⟨more, p.reads + (double ++ w).length + 3⟩ := by
  obtain ⟨hctrl, hipi, htag⟩ := hpass
  obtain ⟨more, hmore⟩ : ∃ more, (headerBytes stale p).2.2.2.input = SNMP_SEQUENCE :: more := by
    generalize (headerBytes stale p).2.2.2 = q at htag
    obtain ⟨input, reads⟩ := q
    cases input with
    | nil =>
        have hother : PMPP_STMF_VAL ≠ SNMP_SEQUENCE := by decide
        exact absurd htag hother
    | cons x more =>
        have hx : x = SNMP_SEQUENCE := htag
        exact ⟨more, by rw [hx]⟩
  -- the port was not at its end, and so every byte before was there
  obtain ⟨wipi, hspells, hinput, hreads⟩ := take_eq stale (p := (headerBytes stale p).2.1.2)
    (q := (headerBytes stale p).2.2.2) (Prod.ext hipi rfl) (by rw [hmore]; simp)
  rw [hspells.plain (by decide) (by decide), hmore] at hinput
  rw [hspells.plain (by decide) (by decide)] at hreads
  obtain ⟨wctrl, hspells', hinput', hreads'⟩ := take_eq stale (p := (headerBytes stale p).1.2)
    (q := (headerBytes stale p).2.1.2) (Prod.ext hctrl rfl) (by rw [hinput]; simp)
  rw [hspells'.plain (by decide) (by decide), hinput] at hinput'
  rw [hspells'.plain (by decide) (by decide)] at hreads'
  obtain ⟨w, haddress, hinput'', hreads''⟩ := take_eq stale (p := p.behindFlag)
    (q := (headerBytes stale p).1.2) (Prod.ext rfl rfl) (by rw [hinput']; simp)
  rw [hinput'] at hinput''
  obtain ⟨double, hopening, hstream, hdouble⟩ := opening_of_behindFlag haddress.ne_nil hinput''
  refine ⟨double, w, _, more, hopening, haddress, hstream, ?_⟩
  generalize hq : (headerBytes stale p).2.2.2 = q at hmore hreads
  obtain ⟨input, reads⟩ := q
  have hmore' : input = SNMP_SEQUENCE :: more := hmore
  subst hmore'
  have hcount : reads + 1 = p.reads + (double ++ w).length + 3 := by
    simp only [List.length_append, List.length_singleton] at hreads hreads' ⊢
    omega
  rw [← hcount]
  rfl

/-- Such a stream passes. -/
theorem passes_of_spelled (stale : Nat → Byte) {double w : List Byte} {a : Byte}
    (hopening : Opening double w) (hspells : Spelling w a) (more : List Byte) (reads : Nat) :
    let p : Port :=
      ⟨double ++ (w ++ PMPP_CTRL_VAL :: PMPP_STMF_VAL :: SNMP_SEQUENCE :: more), reads⟩
    Passes stale p ∧
      ((headerBytes stale p).2.2.2.read PMPP_STMF_VAL).2 =
        ⟨more, reads + (double ++ w).length + 3⟩ := by
  intro p
  have haddress : (headerBytes stale p).1 =
      (a, ⟨PMPP_CTRL_VAL :: PMPP_STMF_VAL :: SNMP_SEQUENCE :: more,
        reads + double.length + w.length⟩) := by
    change p.behindFlag.take stale _ = _
    rw [behindFlag_opening hopening hspells.ne_nil]
    exact take_spelling stale hspells _ _ _
  have hctrl : (headerBytes stale p).2.1 =
      (PMPP_CTRL_VAL, ⟨PMPP_STMF_VAL :: SNMP_SEQUENCE :: more,
        reads + double.length + w.length + 1⟩) := by
    change Port.take stale (headerBytes stale p).1.2 (headerBytes stale p).1.1 = _
    rw [haddress]
    rfl
  have hipi : (headerBytes stale p).2.2 =
      (PMPP_STMF_VAL, ⟨SNMP_SEQUENCE :: more, reads + double.length + w.length + 2⟩) := by
    change Port.take stale (headerBytes stale p).2.1.2 (headerBytes stale p).2.1.1 = _
    rw [hctrl]
    rfl
  unfold Passes
  rw [hctrl, hipi, List.length_append, ← Nat.add_assoc]
  exact ⟨⟨rfl, rfl, rfl⟩, rfl⟩

/-! ## The packet buffer -/

/-- The stream announces a message that the packet buffer cannot hold: behind its first
flag, or two, come an address, the control byte, the protocol and the tag, then a code for
a count of two bytes, and a count over 1490.  Of a count that the stream breaks off the
bytes missing are those `read` leaves. -/
def TooLong (stale : Nat → Byte) (input : List Byte) : Prop :=
  ∃ junk double w a more, delimiterFlag ∉ junk ∧ Opening double w ∧ Spelling w a ∧
    input = junk ++ delimiterFlag ::
      (double ++ (w ++ PMPP_CTRL_VAL :: PMPP_STMF_VAL :: SNMP_SEQUENCE :: more)) ∧
    LongCount stale ⟨more, junk.length + 1 + (double ++ w).length + 3⟩

/-- A message too long is stored past the end of the packet buffer. -/
theorem TooLong.overflows {stale : Nat → Byte} {input : List Byte} (h : TooLong stale input)
    (buf : Mem Byte) :
    ∃ r, receiveMessage stale buf input = some r ∧
      ¬ ∀ a ∈ r.buf.stored, 0 ≤ a ∧ a < STMF_MAX_PACKET := by
  obtain ⟨junk, double, w, a, more, hclean, hopening, hspells, rfl, hcount⟩ := h
  obtain ⟨hpass, hport⟩ := passes_of_spelled stale hopening hspells more (junk.length + 1)
  have hawait := (awaitFlag_eq_some_iff _ 0 ⟨double ++ (w ++ PMPP_CTRL_VAL :: PMPP_STMF_VAL ::
    SNMP_SEQUENCE :: more), junk.length + 1⟩).mpr ⟨junk, rfl, hclean, by rw [Nat.zero_add]⟩
  refine ⟨_, by rw [receiveMessage_eq, hawait, Option.map_some], fun hbound => ?_⟩
  refine (rest_bounded_iff stale buf _).mp hbound ⟨hpass, ?_⟩
  rw [hport]
  exact hcount

/-- **The receiver stores in its packet buffer alone, unless the stream announces a
message of over 1490 bytes.** -/
theorem receiveMessage_bounded_iff (stale : Nat → Byte) (buf : Mem Byte) (input : List Byte) :
    (∀ r, receiveMessage stale buf input = some r →
      ∀ a ∈ r.buf.stored, 0 ≤ a ∧ a < STMF_MAX_PACKET) ↔ ¬ TooLong stale input := by
  constructor
  · intro hbound hlong
    obtain ⟨r, hr, hover⟩ := hlong.overflows buf
    exact hover (hbound r hr)
  · intro hfits r hr
    rw [receiveMessage_eq] at hr
    obtain ⟨p, hawait, rfl⟩ := Option.map_eq_some_iff.mp hr
    refine (rest_bounded_iff stale buf p).mpr fun hlong => hfits ?_
    obtain ⟨junk, hinput, hclean, hreads⟩ := (awaitFlag_eq_some_iff _ _ _).mp hawait
    obtain ⟨double, w, a, more, hopening, hspells, hstream, hport⟩ := spelled_of_passes hlong.1
    have hcount := hlong.2
    rw [hport, hreads, Nat.zero_add] at hcount
    exact ⟨junk, double, w, a, more, hclean, hopening, hspells, by rw [hinput, hstream], hcount⟩

/-- The header of a message of 1491 bytes is enough. -/
theorem receiveMessage_overflows :
    ¬ ∀ (stale : Nat → Byte) (buf : Mem Byte) (input : List Byte) (r : Received),
      receiveMessage stale buf input = some r →
      ∀ a ∈ r.buf.stored, 0 ≤ a ∧ a < STMF_MAX_PACKET := by
  intro hall
  have hlong : TooLong (fun _ => 0) [0x7e, 0x05, 0x13, 0xc1, 0x30, 0x82, 0x05, 0xd3] :=
    ⟨[], [], [0x05], 0x05, [0x82, 0x05, 0xd3], List.not_mem_nil,
      Or.inr ⟨rfl, by decide⟩, Or.inl ⟨rfl, by decide⟩, rfl, by decide, by decide⟩
  obtain ⟨r, hr, hover⟩ := hlong.overflows (Mem.ofList 0 [])
  exact hover (hall _ _ _ r hr)

/-! ## The wait for the opening flag -/

/-- `while (tmp != delimiter_flag) read(fd, &tmp, 1);`, as long as the fuel lasts.  At the
end of the stream a read leaves `tmp` as it was. -/
def awaitFlagLoop : Nat → Byte → Port → Option Port
  | 0, _, _ => none
  | fuel + 1, tmp, p =>
      if tmp ≠ delimiterFlag then awaitFlagLoop fuel (p.read tmp).1 (p.read tmp).2 else some p

/-- `receive_message` with its wait for the flag step by step.  The other loops count. -/
def receiveMessageLoop (fuel : Nat) (stale : Nat → Byte) (buf : Mem Byte) (input : List Byte) :
    Option Received :=
  (awaitFlagLoop fuel 0 { input := input, reads := 0 }).map fun port =>
    let s : Receiving := { buf := buf.untraced, i := 0, tmp := delimiterFlag, port := port }
    Receiving.rest stale (Receiving.fill stale (PMPP_HEADER_SIZE - 2)
      (s.put.firstByte stale).put)

/-- The loop ends with what `awaitFlag` says, as long as it has fuel. -/
theorem awaitFlagLoop_iff {tmp : Byte} (htmp : tmp ≠ delimiterFlag) (input : List Byte)
    (reads : Nat) (p : Port) :
    (∃ fuel, awaitFlagLoop fuel tmp ⟨input, reads⟩ = some p) ↔ awaitFlag input reads = some p := by
  induction input generalizing tmp reads with
  | nil =>
      -- the variable keeps what is no flag
      have hnever : ∀ fuel reads, awaitFlagLoop fuel tmp ⟨[], reads⟩ = none := by
        intro fuel
        induction fuel with
        | zero => exact fun _ => rfl
        | succ fuel ih =>
            intro reads
            rw [awaitFlagLoop, if_pos htmp]
            exact ih (reads + 1)
      simp [hnever, awaitFlag]
  | cons b bs ih =>
      have hstep : (∃ fuel, awaitFlagLoop fuel tmp ⟨b :: bs, reads⟩ = some p) ↔
          ∃ fuel, awaitFlagLoop fuel b ⟨bs, reads + 1⟩ = some p := by
        constructor
        · intro hends
          obtain ⟨fuel, hfuel⟩ := hends
          cases fuel with
          | zero => exact absurd hfuel (by simp [awaitFlagLoop])
          | succ fuel =>
              rw [awaitFlagLoop, if_pos htmp] at hfuel
              exact ⟨fuel, hfuel⟩
        · intro hends
          obtain ⟨fuel, hfuel⟩ := hends
          refine ⟨fuel + 1, ?_⟩
          rw [awaitFlagLoop, if_pos htmp]
          exact hfuel
      rw [hstep, awaitFlag]
      by_cases hb : b = delimiterFlag
      · rw [if_pos hb]
        constructor
        · intro hends
          obtain ⟨fuel, hfuel⟩ := hends
          cases fuel with
          | zero => exact absurd hfuel (by simp [awaitFlagLoop])
          | succ fuel =>
              rw [awaitFlagLoop, if_neg (not_not.mpr hb)] at hfuel
              exact hfuel
        · intro hport
          exact ⟨1, by rw [awaitFlagLoop, if_neg (not_not.mpr hb), hport]⟩
      · rw [if_neg hb]
        exact ih hb (reads + 1)

/-- What the receiver returns, if it does, is what `receiveMessage` says. -/
theorem receiveMessageLoop_iff (stale : Nat → Byte) (buf : Mem Byte) (input : List Byte)
    (r : Received) :
    (∃ fuel, receiveMessageLoop fuel stale buf input = some r) ↔
      receiveMessage stale buf input = some r := by
  have hwait := awaitFlagLoop_iff (show (0 : Byte) ≠ delimiterFlag by decide) input 0
  unfold receiveMessageLoop receiveMessage
  simp only [Option.map_eq_some_iff]
  constructor
  · intro hends
    obtain ⟨fuel, p, hp, hr⟩ := hends
    exact ⟨p, (hwait p).mp ⟨fuel, hp⟩, hr⟩
  · intro hends
    obtain ⟨p, hp, hr⟩ := hends
    obtain ⟨fuel, hfuel⟩ := (hwait p).mpr hp
    exact ⟨fuel, p, hfuel, hr⟩

/-- **The receiver returns exactly on the streams with a flag in them.** -/
theorem receiveMessageLoop_returns_iff (stale : Nat → Byte) (buf : Mem Byte)
    (input : List Byte) :
    (∃ fuel r, receiveMessageLoop fuel stale buf input = some r) ↔ delimiterFlag ∈ input := by
  have hreturns : (∃ fuel r, receiveMessageLoop fuel stale buf input = some r) ↔
      ∃ r, receiveMessage stale buf input = some r := by
    rw [exists_comm]
    exact exists_congr fun r => receiveMessageLoop_iff stale buf input r
  rw [hreturns, receiveMessage_eq]
  constructor
  · intro hr
    obtain ⟨r, hr⟩ := hr
    obtain ⟨p, hp, -⟩ := Option.map_eq_some_iff.mp hr
    obtain ⟨junk, rfl, -, -⟩ := (awaitFlag_eq_some_iff _ _ _).mp hp
    exact List.mem_append_right _ List.mem_cons_self
  · intro hflag
    obtain ⟨junk, rest, rfl, hclean⟩ := List.eq_append_cons_of_mem hflag
    have hawait := (awaitFlag_eq_some_iff _ 0 ⟨rest, 0 + junk.length + 1⟩).mpr
      ⟨junk, rfl, hclean, rfl⟩
    exact ⟨_, by rw [hawait, Option.map_some]⟩

/-- At the end of an empty stream the receiver reads for ever. -/
theorem receiveMessageLoop_empty :
    ¬ ∀ (stale : Nat → Byte) (buf : Mem Byte) (input : List Byte),
      ∃ fuel r, receiveMessageLoop fuel stale buf input = some r := by
  intro hall
  obtain ⟨fuel, r, hr⟩ := hall (fun _ => 0) (Mem.ofList 0 []) []
  have hnone := (receiveMessageLoop_iff _ _ _ r).mp ⟨fuel, hr⟩
  exact absurd hnone (by simp [receiveMessage, awaitFlag])

end RfsAtsc
