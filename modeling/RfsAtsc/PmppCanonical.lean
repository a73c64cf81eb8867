import RfsAtsc.PmppReceiver

/-!
# Canonical PMPP frames

Where the bytes of a frame are stuffed as they should be, the receiver reads the frame that
was meant.  It does not see to it that they are: any byte behind an escape, a raw flag
inside the frame and any byte in place of the closing flag are taken as well.
-/

namespace RfsAtsc

open TracedMemory ByteStuffing BerEncoding

/-! ## Statement -/

/-- What the receiver consumed behind the opening flag, or two, is the stuffed form of a
header of three bytes, the message handed to the parser and their check, and one flag. -/
def CanonicalFrame (input : List Byte) (r : Received) : Prop :=
  ∃ junk double header payload, delimiterFlag ∉ junk ∧
    (double = [] ∨ double = [delimiterFlag]) ∧ header.length = 3 ∧
    r.handed = some (payload.length : Int) ∧
    input = junk ++ delimiterFlag ::
      (double ++ (stuff hdlc (withFcs (header ++ payload)) ++ delimiterFlag :: r.port.input))

/-- The length of a frame, from the count that the message in it announces: header, tag,
code and count, and the message with its check. -/
def announcedLength (frame : List Byte) : Nat :=
  let count := announced (frame.getD 4 0) (frame.getD 5 0) (frame.getD 6 0)
  5 + count.2 + count.1 + 2

/-- Behind its first flag, or two, the stream has a stretch without a flag and without an
escape in front of anything but a stand-in, which undone is as long as it announces, and
then a flag. -/
def StrictFrame (input : List Byte) : Prop :=
  ∃ junk double sent frame rest, delimiterFlag ∉ junk ∧
    (double = [] ∨ double = [delimiterFlag]) ∧ unstuff hdlc sent = some frame ∧
    frame.length = announcedLength frame ∧
    input = junk ++ delimiterFlag :: (double ++ (sent ++ delimiterFlag :: rest))

/-! ## Reading what is stuffed -/

theorem stuffByte_spelling (b : Byte) : Spelling (stuffByte hdlc b) b := by
  by_cases hflag : b = delimiterFlag
  · subst hflag
    exact Or.inr ⟨escapeDelimiter, by decide, by decide⟩
  · by_cases hesc : b = escapeChar
    · subst hesc
      exact Or.inr ⟨escapeEscape, by decide, by decide⟩
    · exact Or.inl ⟨stuffByte_plain hdlc ⟨hflag, hesc⟩, hesc⟩

theorem take_stuff (stale : Nat → Byte) (b : Byte) (bs tail : List Byte) (reads : Nat)
    (old : Byte) :
    Port.take stale ⟨stuff hdlc (b :: bs) ++ tail, reads⟩ old =
      (b, ⟨stuff hdlc bs ++ tail, reads + (stuffByte hdlc b).length⟩) := by
  rw [stuff_cons, List.append_assoc]
  exact take_spelling stale (stuffByte_spelling b) _ _ _

/-- Behind one flag or two a stuffed frame is read from its first byte. -/
theorem behindFlag_stuff {double : List Byte} (hdouble : double = [] ∨ double = [delimiterFlag])
    {frame : List Byte} (hframe : frame ≠ []) (tail : List Byte) (reads : Nat) :
    Port.behindFlag ⟨double ++ (stuff hdlc frame ++ tail), reads⟩ =
      ⟨stuff hdlc frame ++ tail, reads + double.length⟩ := by
  have hlen := length_le_stuff hdlc frame
  have hpos := List.length_pos_of_ne_nil hframe
  apply behindFlag_opening
  · rcases hdouble with rfl | rfl
    · refine Or.inr ⟨rfl, fun hhead => ?_⟩
      exact flag_not_mem_stuff hdlc frame (List.mem_of_mem_head? hhead)
    · exact Or.inl rfl
  · exact List.ne_nil_of_length_pos (by omega)

/-- The three bytes of a stuffed header, each with its escape undone. -/
theorem headerBytes_stuff (stale : Nat → Byte) {double : List Byte}
    (hdouble : double = [] ∨ double = [delimiterFlag]) (a b c : Byte) (bs tail : List Byte)
    (reads : Nat) {p : Port}
    (hp : p = ⟨double ++ (stuff hdlc (a :: b :: c :: bs) ++ tail), reads⟩) :
    (headerBytes stale p).1.1 = a ∧ (headerBytes stale p).2.1.1 = b ∧
      (headerBytes stale p).2.2 = (c, ⟨stuff hdlc bs ++ tail,
        reads + double.length + (stuffByte hdlc a).length + (stuffByte hdlc b).length +
          (stuffByte hdlc c).length⟩) := by
  have haddress : (headerBytes stale p).1 = (a, ⟨stuff hdlc (b :: c :: bs) ++ tail,
      reads + double.length + (stuffByte hdlc a).length⟩) := by
    change p.behindFlag.take stale _ = _
    rw [hp, behindFlag_stuff hdouble (List.cons_ne_nil _ _)]
    exact take_stuff stale a _ _ _ _
  have hctrl : (headerBytes stale p).2.1 = (b, ⟨stuff hdlc (c :: bs) ++ tail,
      reads + double.length + (stuffByte hdlc a).length + (stuffByte hdlc b).length⟩) := by
    change Port.take stale (headerBytes stale p).1.2 (headerBytes stale p).1.1 = _
    rw [haddress]
    exact take_stuff stale b _ _ _ _
  have hipi : (headerBytes stale p).2.2 = (c, ⟨stuff hdlc bs ++ tail,
      reads + double.length + (stuffByte hdlc a).length + (stuffByte hdlc b).length +
        (stuffByte hdlc c).length⟩) := by
    change Port.take stale (headerBytes stale p).2.1.2 (headerBytes stale p).2.1.1 = _
    rw [hctrl]
    exact take_stuff stale c _ _ _ _
  exact ⟨congrArg Prod.fst haddress, congrArg Prod.fst hctrl, hipi⟩

/-- The receiver behind the tag of a stuffed frame, if header and tag pass. -/
theorem tagRead_progress (stale : Nat → Byte) (buf : Mem Byte) {double : List Byte}
    (hdouble : double = [] ∨ double = [delimiterFlag]) (a b c t : Byte) (bs tail : List Byte)
    (reads : Nat)
    (hpass : Passes stale ⟨double ++ (stuff hdlc (a :: b :: c :: t :: bs) ++ tail), reads⟩) :
    Progress (tagRead stale buf ⟨double ++ (stuff hdlc (a :: b :: c :: t :: bs) ++ tail), reads⟩)
      [delimiterFlag, a, b, c, t] (stuff hdlc bs ++ tail) := by
  generalize hp : (⟨double ++ (stuff hdlc (a :: b :: c :: t :: bs) ++ tail), reads⟩ : Port) = p
    at hpass
  obtain ⟨haddress, hctrl, hipi⟩ :=
    headerBytes_stuff stale hdouble a b c (t :: bs) tail reads hp.symm
  obtain ⟨-, -, htag⟩ := hpass
  -- the tag is read as it comes, and so it is no reserved byte
  have hplain : t = SNMP_SEQUENCE ∧
      ((headerBytes stale p).2.2.2.read PMPP_STMF_VAL).2.input = stuff hdlc bs ++ tail := by
    rw [hipi] at htag ⊢
    rw [Port.read_input]
    simp only [stuff_cons, List.append_assoc] at htag ⊢
    rcases stuffByte_spelling t with ⟨hplain, -⟩ | ⟨x, hescaped, -⟩
    · rw [hplain] at htag ⊢
      exact ⟨htag, rfl⟩
    · rw [hescaped] at htag
      have hother : escapeChar ≠ SNMP_SEQUENCE := by decide
      exact absurd htag hother
  have hstart : Progress { buf := buf.untraced, i := 0, tmp := delimiterFlag, port := p } []
      p.input := ⟨rfl, trivial, rfl, fun _ ha => absurd ha List.not_mem_nil⟩
  have hflag := hstart.store delimiterFlag delimiterFlag p rfl
  have h1 := hflag.store (headerBytes stale p).1.1 (headerBytes stale p).1.1
    (headerBytes stale p).1.2 rfl
  have h2 := h1.store (headerBytes stale p).2.1.1 (headerBytes stale p).2.1.1
    (headerBytes stale p).2.1.2 rfl
  have h3 := h2.store (headerBytes stale p).2.2.1 (headerBytes stale p).2.2.1
    (headerBytes stale p).2.2.2 rfl
  have h4 := h3.store SNMP_SEQUENCE SNMP_SEQUENCE
    ((headerBytes stale p).2.2.2.read PMPP_STMF_VAL).2 hplain.2
  have hbytes : [delimiterFlag, (headerBytes stale p).1.1, (headerBytes stale p).2.1.1,
      (headerBytes stale p).2.2.1, SNMP_SEQUENCE] = [delimiterFlag, a, b, c, t] := by
    rw [haddress, hctrl, hipi, hplain.1]
  rw [← hbytes]
  exact h4

/-! ## The count of a stuffed frame -/

theorem countBytes_stuff (stale : Nat → Byte) (code hi lo : Byte) (bs tail : List Byte)
    (reads : Nat) :
    let bytes := countBytes stale ⟨stuff hdlc (code :: hi :: lo :: bs) ++ tail, reads⟩
    bytes.1.1 = code ∧ bytes.2.1.1 = hi ∧ bytes.2.2.1 = lo := by
  simp only [countBytes, take_stuff]
  exact ⟨trivial, trivial, trivial⟩

/-- The bytes of the count go into the buffer. -/
theorem Progress.readByteCount {s : Receiving} {done bs tail : List Byte} (stale : Nat → Byte)
    (h : Progress s done (stuff hdlc bs ++ tail)) (code hi lo : Byte)
    (hlen : (announced code hi lo).2 ≤ bs.length) :
    Progress (s.readByteCount stale code).2 (done ++ bs.take (announced code hi lo).2)
      (stuff hdlc (bs.drop (announced code hi lo).2) ++ tail) := by
  have hone : ∀ {s : Receiving} {done bs : List Byte}, Progress s done (stuff hdlc bs ++ tail) →
      1 ≤ bs.length → Progress (s.get stale).put (done ++ bs.take 1)
        (stuff hdlc (bs.drop 1) ++ tail) := by
    intro s done bs h hlen
    obtain ⟨b, bs, rfl⟩ := List.exists_cons_of_length_pos hlen
    rw [stuff_cons, List.append_assoc] at h
    exact (h.get_put stale).1
  have hnone : Progress s (done ++ bs.take 0) (stuff hdlc (bs.drop 0) ++ tail) := by
    rw [List.take_zero, List.append_nil]
    exact h
  unfold announced at hlen ⊢
  unfold Receiving.readByteCount
  split
  · exact hnone
  · rename_i hlong
    simp only [if_neg hlong] at hlen
    split
    · rename_i hcode
      simp only [if_pos hcode] at hlen
      exact hone h hlen
    · rename_i hcode
      simp only [if_neg hcode] at hlen
      split
      · rename_i hcode'
        simp only [if_pos hcode'] at hlen
        have hfirst := hone h (by omega)
        have hsecond := hone hfirst (by rw [List.length_drop]; omega)
        rw [List.append_assoc, List.drop_drop, ← List.take_add] at hsecond
        exact hsecond
      · exact hnone

/-- The count of a stuffed frame is the frame's, and the receiver is behind it. -/
theorem countRead_stuff (stale : Nat → Byte) {s : Receiving} (htmp : s.tmp = SNMP_SEQUENCE)
    {done bs tail : List Byte} {code hi lo : Byte}
    (h : Progress s done (stuff hdlc (code :: hi :: lo :: bs) ++ tail)) :
    let width := (announced code hi lo).2
    (countRead stale s).1 = (announced code hi lo).1 ∧
      (countRead stale s).2.i = done.length + 1 + width ∧
      (width ≤ (hi :: lo :: bs).length →
        Progress (countRead stale s).2 (done ++ [code] ++ (hi :: lo :: bs).take width)
          (stuff hdlc ((hi :: lo :: bs).drop width) ++ tail)) := by
  intro width
  obtain ⟨hcount, hindex⟩ := countRead_eq stale htmp
  have hport : s.port = ⟨stuff hdlc (code :: hi :: lo :: bs) ++ tail, s.port.reads⟩ := by
    rw [← h.input]
  obtain ⟨hcode, hhi, hlo⟩ := countBytes_stuff stale code hi lo bs tail s.port.reads
  rw [← hport] at hcode hhi hlo
  rw [hcode, hhi, hlo] at hcount hindex
  refine ⟨hcount, by rw [hindex, h.index], fun hlen => ?_⟩
  rw [stuff_cons, List.append_assoc] at h
  obtain ⟨hbyte, hread⟩ := h.readByteCode stale
  rw [countRead, hbyte]
  exact hread.readByteCount stale code hi lo hlen

/-! ## Frames taken -/

/-- A stream on which the parser is called. -/
theorem called_rest {stale : Nat → Byte} {buf : Mem Byte} {p : Port}
    (hcalled : ((headerRead stale buf p).rest stale).handed ≠ none) :
    let s := tagRead stale buf p
    let n := (countRead stale s).1 + (countRead stale s).2.i
    Passes stale p ∧ computeFcs ((messageRead stale s).buf.take 1 (n + 1)) = PMPP_FCS_MAGIC ∧
      ((headerRead stale buf p).rest stale).handed = some ((n : Int) - PMPP_HEADER_SIZE) ∧
      ((headerRead stale buf p).rest stale).port =
        ((messageRead stale s).port.read (messageRead stale s).tmp).2 := by
  intro s n
  by_cases hpass : Passes stale p
  · have hrest := rest_passes stale buf hpass
    have hgood : computeFcs ((messageRead stale s).buf.take 1 (n + 1)) = PMPP_FCS_MAGIC := by
      by_contra hbad
      apply hcalled
      rw [hrest]
      exact if_pos hbad
    refine ⟨hpass, hgood, ?_, ?_⟩
    · rw [hrest]
      simp only [n, s] at hgood
      simp only [hgood, ne_eq, not_true_eq_false, if_false, n, s]
      push_cast
      rfl
    · rw [hrest]
  · exact absurd (rest_refused stale buf hpass).1 hcalled

private theorem seven_bytes {frame : List Byte} (hlen : 7 ≤ frame.length) :
    ∃ a b c t code hi lo bs, frame = a :: b :: c :: t :: code :: hi :: lo :: bs := by
  obtain ⟨front, bs, hfront, rfl⟩ : ∃ front bs, front.length = 7 ∧ frame = front ++ bs :=
    ⟨frame.take 7, frame.drop 7, List.length_take_of_le hlen, (List.take_append_drop 7 frame).symm⟩
  rcases front with _ | ⟨a, _ | ⟨b, _ | ⟨c, _ | ⟨t, _ | ⟨code, _ | ⟨hi, _ | ⟨lo, front⟩⟩⟩⟩⟩⟩⟩
  any_goals simp at hfront
  subst hfront
  exact ⟨a, b, c, t, code, hi, lo, bs, rfl⟩

/-- A stuffed frame of seven bytes or more: its count and, if it is as long as it
announces, all of it. -/
theorem messageRead_stuff (stale : Nat → Byte) (buf : Mem Byte) {double : List Byte}
    (hdouble : double = [] ∨ double = [delimiterFlag]) {frame : List Byte}
    (hlen : 7 ≤ frame.length) (tail : List Byte) (reads : Nat)
    (hpass : Passes stale ⟨double ++ (stuff hdlc frame ++ tail), reads⟩) :
    let s := tagRead stale buf ⟨double ++ (stuff hdlc frame ++ tail), reads⟩
    (countRead stale s).1 + (countRead stale s).2.i + 1 = announcedLength frame ∧
      (frame.length = announcedLength frame →
        Progress (messageRead stale s) (delimiterFlag :: frame) tail) := by
  obtain ⟨a, b, c, t, code, hi, lo, bs, rfl⟩ := seven_bytes hlen
  intro s
  have hprogress := tagRead_progress stale buf hdouble a b c t (code :: hi :: lo :: bs) tail
    reads hpass
  obtain ⟨hcount, hindex, hread⟩ := countRead_stuff stale rfl hprogress
  have hannounced : announcedLength (a :: b :: c :: t :: code :: hi :: lo :: bs) =
      5 + (announced code hi lo).2 + (announced code hi lo).1 + 2 := rfl
  refine ⟨?_, fun hsize => ?_⟩
  · rw [hannounced, hcount, hindex]
    simp only [List.length_cons, List.length_nil]
    omega
  · rw [hannounced] at hsize
    simp only [List.length_cons] at hsize
    have hroom : (announced code hi lo).2 ≤ (hi :: lo :: bs).length := by
      simp only [List.length_cons]
      omega
    have hfilled := @Progress.fill _ _ tail ((hi :: lo :: bs).drop (announced code hi lo).2) stale
      (hread hroom)
    have hmany : ((hi :: lo :: bs).drop (announced code hi lo).2).length =
        (countRead stale s).1 + 2 := by
      rw [List.length_drop, hcount]
      simp only [List.length_cons]
      omega
    rw [hmany, List.append_assoc _ (List.take _ _), List.take_append_drop] at hfilled
    exact hfilled

/-- The receiver at work on a stream that spells something behind its opening flags. -/
private theorem receiveMessage_behind {stale : Nat → Byte} {buf : Mem Byte}
    {junk behind : List Byte} (hclean : delimiterFlag ∉ junk) {r : Received}
    (hr : receiveMessage stale buf (junk ++ delimiterFlag :: behind) = some r) :
    r = (headerRead stale buf ⟨behind, junk.length + 1⟩).rest stale := by
  have hawait := (awaitFlag_eq_some_iff (junk ++ delimiterFlag :: behind) 0
    ⟨behind, junk.length + 1⟩).mpr ⟨junk, rfl, hclean, by rw [Nat.zero_add]⟩
  rw [receiveMessage_eq, hawait, Option.map_some, Option.some.injEq] at hr
  exact hr.symm

private theorem countRead_index (stale : Nat → Byte) (buf : Mem Byte) (p : Port) :
    6 ≤ (countRead stale (tagRead stale buf p)).2.i := by
  have hindex := (countRead_eq (s := tagRead stale buf p) stale rfl).2
  have htag : (tagRead stale buf p).i = 5 := rfl
  omega

/-- A canonical frame comes from a strict stream: its length is the one it announces. -/
theorem StrictFrame.of_canonical {stale : Nat → Byte} {buf : Mem Byte} {input : List Byte}
    {r : Received} (hr : receiveMessage stale buf input = some r)
    (hcanonical : CanonicalFrame input r) : StrictFrame input := by
  obtain ⟨junk, double, header, payload, hclean, hdouble, hheader, hhanded, hinput⟩ := hcanonical
  refine ⟨junk, double, stuff hdlc (withFcs (header ++ payload)), withFcs (header ++ payload),
    r.port.input, hclean, hdouble, unstuff_stuff hdlc _, ?_, hinput⟩
  rw [hinput] at hr
  have hrest := receiveMessage_behind hclean hr
  generalize delimiterFlag :: r.port.input = tail at hrest
  rw [hrest] at hhanded
  obtain ⟨hpass, -, hcount, -⟩ := called_rest (by rw [hhanded]; simp)
  rw [hcount, Option.some.injEq, PMPP_HEADER_SIZE] at hhanded
  have hframe : (withFcs (header ++ payload)).length = 5 + payload.length := by
    rw [withFcs_length, List.length_append, hheader]
    omega
  have hindex := countRead_index stale buf
    ⟨double ++ (stuff hdlc (withFcs (header ++ payload)) ++ tail), junk.length + 1⟩
  have hlen : 7 ≤ (withFcs (header ++ payload)).length := by
    rw [hframe]
    omega
  have hannounced := (messageRead_stuff stale buf hdouble hlen tail _ hpass).1
  rw [← hannounced, hframe]
  omega

/-- On a strict stream the receiver takes the whole frame and its closing flag. -/
theorem CanonicalFrame.of_strict {stale : Nat → Byte} {buf : Mem Byte} {input : List Byte}
    {r : Received} (hr : receiveMessage stale buf input = some r) (hcalled : r.handed ≠ none)
    (hstrict : StrictFrame input) : CanonicalFrame input r := by
  obtain ⟨junk, double, sent, frame, rest, hclean, hdouble, hsent, hsize, rfl⟩ := hstrict
  rw [unstuff_eq_some_iff] at hsent
  subst hsent
  obtain rfl := receiveMessage_behind hclean hr
  obtain ⟨hpass, hgood, hcount, hport⟩ := called_rest hcalled
  have hlen : 7 ≤ frame.length := by
    rw [hsize, announcedLength]
    omega
  obtain ⟨hannounced, hread⟩ :=
    messageRead_stuff stale buf hdouble hlen (delimiterFlag :: rest) _ hpass
  have hprogress := hread hsize
  -- the check is over the frame, whose last two bytes are therefore its own check
  rw [hannounced, ← hsize] at hgood
  have hheld := (Mem.holds_iff_take _ _ _).mp hprogress.holds.2
  rw [zero_add] at hheld
  rw [hheld] at hgood
  obtain ⟨front, x, y, hfront⟩ : ∃ front x y, frame = front ++ [x, y] := by
    obtain ⟨init, y, rfl⟩ := (List.eq_nil_or_concat' frame).resolve_left
      (List.ne_nil_of_length_pos (by omega))
    obtain ⟨front, x, rfl⟩ := (List.eq_nil_or_concat' init).resolve_left
      (List.ne_nil_of_length_pos (by rw [List.length_append, List.length_singleton] at hlen; omega))
    exact ⟨front, x, y, by simp⟩
  have hcheck : [x, y] = fcsBytes front := by
    rw [hfront] at hgood
    exact (checkModframeString_pair front x y).mp hgood
  have hframe : frame = withFcs (front.take 3 ++ front.drop 3) := by
    rw [List.take_append_drop, withFcs, ← hcheck, hfront]
  have hlength : frame.length = front.length + 2 := by
    rw [hfront, List.length_append]
    rfl
  refine ⟨junk, double, front.take 3, front.drop 3, hclean, hdouble,
    List.length_take_of_le (by omega), ?_, ?_⟩
  · rw [hcount, List.length_drop, Option.some.injEq, PMPP_HEADER_SIZE]
    omega
  · rw [hport, Port.read_input, hprogress.input, ← hframe]
    rfl

/-- **The frames taken are canonical exactly on the strict streams.** -/
theorem receiveMessage_canonical_iff {stale : Nat → Byte} {buf : Mem Byte} {input : List Byte}
    {r : Received} (hr : receiveMessage stale buf input = some r) (hcalled : r.handed ≠ none) :
    CanonicalFrame input r ↔ StrictFrame input :=
  ⟨StrictFrame.of_canonical hr, CanonicalFrame.of_strict hr hcalled⟩

/-- A message of one byte that is a flag, in its frame. -/
def escapedFlag : List Byte := [0x7e, 0x05, 0x13, 0xc1, 0x30, 0x01, 0x7d, 0x5e, 0x69, 0x68, 0x7e]

/-- The receiver hands over the three bytes of the message. -/
theorem receiveMessage_canonical_flag_inside :
    ∃ r, receiveMessage (fun _ => 0) (Mem.ofList 0 []) escapedFlag = some r ∧
      r.handed = some 3 ∧ CanonicalFrame escapedFlag r := by
  have hcalled : ((receiveMessage (fun _ => 0) (Mem.ofList 0 []) escapedFlag).bind
      Received.handed) = some 3 := by decide +kernel
  obtain ⟨r, hr, hhanded⟩ := Option.bind_eq_some_iff.mp hcalled
  refine ⟨r, hr, hhanded, (receiveMessage_canonical_iff hr (by rw [hhanded]; simp)).mpr ?_⟩
  exact ⟨[], [], [0x05, 0x13, 0xc1, 0x30, 0x01, 0x7d, 0x5e, 0x69, 0x68],
    [0x05, 0x13, 0xc1, 0x30, 0x01, 0x7e, 0x69, 0x68], [], List.not_mem_nil, Or.inl rfl,
    by decide, by decide, rfl⟩

/-- The stretch in front of the first flag is the only one without a flag. -/
theorem takeWhile_flag {xs : List Byte} (h : delimiterFlag ∉ xs) (ys : List Byte) :
    (xs ++ delimiterFlag :: ys).takeWhile (fun b => b ≠ delimiterFlag) = xs := by
  rw [List.takeWhile_append_of_pos]
  · simp
  · intro b hb
    exact decide_eq_true fun hflag => h (hflag ▸ hb)

/-- A frame whose one escape stands in front of a zero. -/
def escapedZero : List Byte := [0x7e, 0x05, 0x13, 0xc1, 0x30, 0x01, 0x7d, 0x00, 0xf2, 0x5a, 0x7e]

theorem escapedZero_not_strict : ¬ StrictFrame escapedZero := by
  intro hstrict
  obtain ⟨junk, double, sent, frame, rest, hclean, hdouble, hsent, -, hinput⟩ := hstrict
  have hsentClean : delimiterFlag ∉ sent := by
    rw [← stuff_of_unstuff hdlc hsent]
    exact flag_not_mem_stuff hdlc frame
  have hjunk := takeWhile_flag hclean (double ++ (sent ++ delimiterFlag :: rest))
  rw [← hinput, show escapedZero.takeWhile (fun b => b ≠ delimiterFlag) = [] by decide] at hjunk
  subst hjunk
  have hbehind := (List.cons.inj hinput).2
  rcases hdouble with rfl | rfl
  · have hfront := takeWhile_flag hsentClean rest
    rw [List.nil_append] at hbehind
    rw [← hbehind] at hfront
    rw [← hfront] at hsent
    exact absurd hsent (by decide +revert)
  · exact absurd (List.cons.inj hbehind).1 (by decide)

/-- The escape in front of a zero is taken for an escaped escape, and the parser is
called. -/
theorem receiveMessage_escapedZero :
    ¬ ∀ (stale : Nat → Byte) (buf : Mem Byte) (input : List Byte) (r : Received),
      receiveMessage stale buf input = some r → r.handed ≠ none → CanonicalFrame input r := by
  intro hall
  have hcalled : ((receiveMessage (fun _ => 0) (Mem.ofList 0 []) escapedZero).bind
      Received.handed) = some 3 := by decide +kernel
  obtain ⟨r, hr, hhanded⟩ := Option.bind_eq_some_iff.mp hcalled
  have hcanonical := hall _ _ escapedZero r hr (by rw [hhanded]; simp)
  exact escapedZero_not_strict (StrictFrame.of_canonical hr hcanonical)

end RfsAtsc
