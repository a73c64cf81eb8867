import RfsAtsc.UdpStatus

/-!
# Two readers of one frame

`ser_driver_read_udp` is a copy of `ser_driver_read` over a buffer of `char`.  Both
take the same bytes off a port and come to the same end; only the check can tell
them apart.  Over signed bytes its starting value is short of `0xffff` by as much
as the last byte but one says, as soon as the last byte has its high bit set.
-/

namespace RfsAtsc

open TracedMemory ByteStuffing

/-- A byte that counts as negative when it is a `char`. -/
theorem msb_iff (b : Byte) : b.msb = true ↔ 0x80 ≤ b := by
  rw [BitVec.msb_eq_true_iff_two_mul_ge, BitVec.le_def]
  simp
  omega

/-- Every bit of the initial value is set. -/
private theorem initial_bit {k : Nat} (hk : k < 16) : PPPINITFCS.getLsbD k = true := by
  have hones : PPPINITFCS = BitVec.allOnes 16 := by decide
  rw [hones, BitVec.getLsbD_allOnes]
  simpa using hk

private theorem ones_bit {k : Nat} (hk : k < 8) : (0xff#8).getLsbD k = true := by
  have hones : 0xff#8 = BitVec.allOnes 8 := by decide
  rw [hones, BitVec.getLsbD_allOnes]
  simpa using hk

/-- Over signed bytes the check starts from its initial value, unless the last byte
counts as negative; then its high byte is the complement of the byte before. -/
theorem oldfcsUdp_eq (a b : Byte) :
    oldfcsUdp a b = if 0x80 ≤ b then ~~~ a ++ 0xff#8 else PPPINITFCS := by
  apply BitVec.eq_of_getLsbD_eq
  intro k hk
  simp only [oldfcsUdp, BitVec.getLsbD_setWidth, BitVec.getLsbD_or, BitVec.getLsbD_not,
    BitVec.getLsbD_shiftLeft, BitVec.getLsbD_signExtend, ← msb_iff]
  have hwide : k < 32 := by omega
  by_cases hb : b.msb = true
  · rw [if_pos hb, BitVec.getLsbD_append]
    by_cases hbyte : k < 8
    · rw [if_pos hbyte, ones_bit hbyte]
      simp [hbyte, hk, hwide]
    · simp [hbyte, hk, hb, hwide, show k - 8 < 8 by omega, show k - 8 < 32 by omega]
  · rw [if_neg hb, initial_bit hk]
    by_cases hbyte : k < 8
    · simp [hbyte, hk, hwide]
    · simp [hbyte, hk, hb, hwide]

/-- The other starting value is the initial one only behind a zero byte. -/
theorem seed_eq_initial_iff (a : Byte) : ~~~ a ++ 0xff#8 = PPPINITFCS ↔ a = 0 := by
  constructor
  · intro heq
    apply BitVec.eq_of_getLsbD_eq
    intro k hk
    have hbit := congrArg (fun w : U16 => w.getLsbD (k + 8)) heq
    simp only [initial_bit (show k + 8 < 16 by omega), BitVec.getLsbD_append] at hbit
    simpa [hk] using hbit
  · intro hzero
    rw [hzero]
    decide

/-! ## What the UDP reader does with a message -/

variable {port content rest : List Byte} {x : Byte}

/-- The end of a message that its reader gives up, whatever the buffer held. -/
private theorem serDriverReadUdp_gives_up {m m' : Mem Byte} {i : Nat} {e : LoopEnd}
    (hm : m.cell 0 ≠ 0x7e) (hread : readMessage port m = ⟨e, m', i, rest⟩)
    (hflag : e ≠ .flag) (hblocked : e ≠ .blocked) :
    serDriverReadUdp port m = ⟨some false, m', rest⟩ := by
  unfold serDriverReadUdp
  simp only [if_pos hm, hread]

private theorem serDriverReadUdp_waits {m m' : Mem Byte} {i : Nat}
    (hm : m.cell 0 ≠ 0x7e) (hread : readMessage port m = ⟨.blocked, m', i, rest⟩) :
    serDriverReadUdp port m = ⟨none, m', rest⟩ := by
  unfold serDriverReadUdp
  simp only [if_pos hm, hread]

/-- A message in time for its closing flag is left in the caller's buffer with its
closing flag, and the port behind it. -/
theorem serDriverReadUdp_delivers {m : Mem Byte} (hm : m.cell 0 ≠ 0x7e)
    (h : Spells port x content (0x7e :: rest)) (hlen : content.length ≤ 94) :
    (serDriverReadUdp port m).ret ≠ none ∧ (serDriverReadUdp port m).port = rest ∧
      (readMessage port m).i = content.length + 1 ∧
      (serDriverReadUdp port m).messagebuff.Holds 0 (x :: content ++ [0x7e]) := by
  obtain ⟨m', hread, hheld, -⟩ := readMessage_flag h hlen m
  have hcopy : (m'.write 0 (m'.take 0 100)).Holds 0 (x :: content ++ [0x7e]) :=
    hheld.congr fun b _ _ => m'.write_take_cell 0 100 b
  unfold serDriverReadUdp
  simp only [if_pos hm, hread]
  split
  · exact ⟨by simp, rfl, trivial, hcopy⟩
  · exact ⟨by simp, rfl, trivial, hcopy⟩

/-! ## Agreement -/

/-- The readers agree on a port: one verdict, the same bytes consumed, and with TRUE
the same bytes delivered up to the closing flag, at index `i` of the UDP reader. -/
structure ReadersAgree (port : List Byte) (messagebuff stack : Mem Byte) : Prop where
  verdict : (serDriverRead port messagebuff stack).ret = (serDriverReadUdp port messagebuff).ret
  consumed :
    (serDriverRead port messagebuff stack).port = (serDriverReadUdp port messagebuff).port
  delivered : (serDriverRead port messagebuff stack).ret = some true →
    (serDriverRead port messagebuff stack).messagebuff.take 0 ((readMessage port messagebuff).i + 1)
      = (serDriverReadUdp port messagebuff).messagebuff.take 0
          ((readMessage port messagebuff).i + 1)

/-- The port spells a message on which the sign of a `char` counts: its last byte is
negative, the byte before it is not zero, and its check is good from one of the two
starting values. -/
def SignCounts (port : List Byte) : Prop :=
  ∃ x content rest front a b, Spells port x content (0x7e :: rest) ∧ content.length ≤ 94 ∧
    x :: content = front ++ [a, b] ∧ 0x80 ≤ b ∧ a ≠ 0 ∧
    (pppfcs PPPINITFCS content = PPPGOODFCS ∨ pppfcs (~~~ a ++ 0xff#8) content = PPPGOODFCS)

/-- Of two starting values at most one makes a check good. -/
theorem pppfcs_injective (content : List Byte) :
    Function.Injective fun fcs => pppfcs fcs content :=
  TableCrc.run_injective fcstab_high_injective content

/-- Where the message ends in an error, the readers agree. -/
private theorem agree_of_error {m messagebuff stack : Mem Byte} {e : LoopEnd} {i : Nat}
    (hm : messagebuff.cell 0 ≠ 0x7e)
    (hfirst : serDriverRead port messagebuff stack = ⟨some false, messagebuff, rest⟩)
    (hread : readMessage port messagebuff = ⟨e, m, i, rest⟩)
    (hflag : e ≠ .flag) (hblocked : e ≠ .blocked) : ReadersAgree port messagebuff stack := by
  have hsecond := serDriverReadUdp_gives_up hm hread hflag hblocked
  refine ⟨?_, ?_, ?_⟩
  · rw [hfirst, hsecond]
  · rw [hfirst, hsecond]
  · intro htrue
    rw [hfirst] at htrue
    exact absurd htrue (by simp)

/-- Where the last byte counts as positive or the one before it is zero, the two
checks start from one value. -/
private theorem good_iff_of_not_signCounts {front : List Byte} {a b : Byte}
    (hspells : Spells port x content (0x7e :: rest)) (hlen : content.length ≤ 94)
    (hsplit : x :: content = front ++ [a, b]) (hsign : ¬ SignCounts port) :
    pppfcs PPPINITFCS content = PPPGOODFCS ↔ pppfcs (oldfcsUdp a b) content = PPPGOODFCS := by
  rw [oldfcsUdp_eq]
  by_cases hb : 0x80 ≤ b
  · rw [if_pos hb]
    by_cases ha : a = 0
    · rw [(seed_eq_initial_iff a).mpr ha]
    · have hneither : ¬ (pppfcs PPPINITFCS content = PPPGOODFCS ∨
          pppfcs (~~~ a ++ 0xff#8) content = PPPGOODFCS) := fun hgood =>
        hsign ⟨x, content, rest, front, a, b, hspells, hlen, hsplit, hb, ha, hgood⟩
      rw [not_or] at hneither
      exact iff_of_false hneither.1 hneither.2
  · rw [if_neg hb]

/-- A message in time for its closing flag: the readers agree as soon as their
verdicts do. -/
private theorem agree_of_flag {messagebuff : Mem Byte} (hm : messagebuff.cell 0 ≠ 0x7e)
    (hspells : Spells port x content (0x7e :: rest)) (hlen : content.length ≤ 94)
    (stack : Mem Byte)
    (hverdict : checkModframeString content = PPPGOODFCS ↔
      (serDriverReadUdp port messagebuff).ret = some true) :
    ReadersAgree port messagebuff stack := by
  obtain ⟨hret, hport, hheld⟩ := serDriverRead_flag hspells hlen messagebuff stack
  obtain ⟨hreturns, hport', hi, hheld'⟩ := serDriverReadUdp_delivers hm hspells hlen
  refine ⟨?_, ?_, ?_⟩
  · rw [hret]
    by_cases hgood : checkModframeString content = PPPGOODFCS
    · rw [hverdict.mp hgood, decide_eq_true hgood]
    · have hnot := mt hverdict.mpr hgood
      rw [decide_eq_false hgood]
      obtain ⟨verdict, hsome⟩ := Option.ne_none_iff_exists'.mp hreturns
      rw [hsome] at hnot ⊢
      cases verdict with
      | false => rfl
      | true => exact absurd rfl hnot
  · rw [hport, hport']
  · intro _
    rw [hi]
    have hlength : (x :: content ++ [0x7e]).length = content.length + 1 + 1 := by simp
    have hfront : (serDriverRead port messagebuff stack).messagebuff.Holds 0
        (x :: content ++ [0x7e]) := by
      have hsplit : messageData x content
          = (x :: content ++ [0x7e]) ++ List.replicate (98 - content.length) 0 := by
        simp [messageData]
      rw [hsplit, Mem.holds_append] at hheld
      exact hheld.1
    rw [Mem.holds_iff_take, hlength] at hfront hheld'
    rw [hfront, hheld']

/-- Where no sign counts, the checks of a message agree. -/
private theorem verdict_iff {messagebuff : Mem Byte} (hm : messagebuff.cell 0 ≠ 0x7e)
    (hspells : Spells port x content (0x7e :: rest)) (hlen : content.length ≤ 94)
    (hsign : ¬ SignCounts port) :
    checkModframeString content = PPPGOODFCS ↔
      (serDriverReadUdp port messagebuff).ret = some true := by
  rw [serDriverReadUdp_flag hm hspells hlen]
  constructor
  · intro hgood
    have hne : content ≠ [] := by
      intro hnil
      rw [hnil] at hgood
      exact absurd hgood (by decide)
    obtain ⟨front, a, b, hsplit⟩ := list_last_two x hne
    exact ⟨front, a, b, hsplit,
      (good_iff_of_not_signCounts hspells hlen hsplit hsign).mp hgood⟩
  · intro hends
    obtain ⟨front, a, b, hsplit, hgood⟩ := hends
    exact (good_iff_of_not_signCounts hspells hlen hsplit hsign).mpr hgood

/-- Readers that agree read no message on which the sign counts. -/
theorem ReadersAgree.not_signCounts {port : List Byte} {messagebuff stack : Mem Byte}
    (hagree : ReadersAgree port messagebuff stack) (hm : messagebuff.cell 0 ≠ 0x7e) :
    ¬ SignCounts port := by
  intro hsign
  obtain ⟨x, content, rest, front, a, b, hspells, hlen, hsplit, hb, ha, hgood⟩ := hsign
  have hfirst := (serDriverRead_flag hspells hlen messagebuff stack).1
  have hsecond := serDriverReadUdp_flag hm hspells hlen
  rw [← hagree.verdict, hfirst, Option.some.injEq, decide_eq_true_iff] at hsecond
  have hseed : oldfcsUdp a b = ~~~ a ++ 0xff#8 := by rw [oldfcsUdp_eq, if_pos hb]
  -- both starting values would make the check good
  have hboth : pppfcs PPPINITFCS content = PPPGOODFCS ∧
      pppfcs (~~~ a ++ 0xff#8) content = PPPGOODFCS := by
    rcases hgood with hinitial | hother
    · obtain ⟨front', a', b', hsplit', hgood'⟩ := hsecond.mp hinitial
      obtain ⟨rfl, rfl⟩ := last_two_unique (hsplit.symm.trans hsplit')
      rw [hseed] at hgood'
      exact ⟨hinitial, hgood'⟩
    · exact ⟨hsecond.mpr ⟨front, a, b, hsplit, by rw [hseed]; exact hother⟩, hother⟩
  have hsame := pppfcs_injective content (hboth.2.trans hboth.1.symm)
  exact ha ((seed_eq_initial_iff a).mp hsame)

/-- On every other port they agree, however the message ends. -/
theorem agree_of_not_signCounts {messagebuff : Mem Byte} (hm : messagebuff.cell 0 ≠ 0x7e)
    {port : List Byte} (stack : Mem Byte) (hsign : ¬ SignCounts port) :
    ReadersAgree port messagebuff stack := by
  rcases port_cases port with hshort | ⟨x, content, tail, hspells, hend⟩
  · obtain ⟨m', hread⟩ := readMessage_short hshort messagebuff
    exact agree_of_error hm (serDriverRead_short hshort messagebuff stack) hread
      (by decide) (by decide)
  · rcases hend with hfull | ⟨hlen, rfl | rfl | ⟨rest, rfl⟩ | ⟨z, rest, rfl, hflag, hesc⟩⟩
    · cases tail with
      | nil =>
          obtain ⟨m', hread⟩ := readMessage_silent hspells hfull.le messagebuff
          exact agree_of_error hm (serDriverRead_silent hspells hfull.le messagebuff stack) hread
            (by decide) (by decide)
      | cons b rest =>
          obtain ⟨m', hread⟩ := readMessage_tooLong hspells hfull messagebuff
          exact agree_of_error hm (serDriverRead_tooLong hspells hfull messagebuff stack) hread
            (by decide) (by decide)
    · obtain ⟨m', hread⟩ := readMessage_silent hspells hlen.le messagebuff
      exact agree_of_error hm (serDriverRead_silent hspells hlen.le messagebuff stack) hread
        (by decide) (by decide)
    · obtain ⟨m', hread⟩ := readMessage_blocked hspells (by omega) messagebuff
      have hfirst := serDriverRead_blocked hspells (by omega) messagebuff stack
      have hsecond := serDriverReadUdp_waits hm hread
      refine ⟨by rw [hfirst, hsecond], by rw [hfirst, hsecond], fun htrue => ?_⟩
      rw [hfirst] at htrue
      exact absurd htrue (by simp)
    · exact agree_of_flag hm hspells (by omega) stack (verdict_iff hm hspells (by omega) hsign)
    · obtain ⟨m', hread⟩ := readMessage_illegal hspells (by omega) hflag hesc messagebuff
      exact agree_of_error hm
        (serDriverRead_illegal hspells (by omega) hflag hesc messagebuff stack) hread
        (by decide) (by decide)

/-- **Agreement, exactly.**  Over a buffer that does not start with the flag the two
readers agree on a port exactly when it spells no message on which the sign of a
`char` counts. -/
theorem readers_agree_iff {messagebuff : Mem Byte} (hm : messagebuff.cell 0 ≠ 0x7e)
    (port : List Byte) (stack : Mem Byte) :
    ReadersAgree port messagebuff stack ↔ ¬ SignCounts port := by
  exact ⟨fun hagree => hagree.not_signCounts hm, agree_of_not_signCounts hm stack⟩

/-- A port with the closed message `00 08` and its check `0f 83`. -/
theorem readers_agree_iff_frame :
    ReadersAgree [0x7e, 0x00, 0x08, 0x0f, 0x83, 0x7e] (Mem.ofList 0 []) (Mem.ofList 0 []) ↔
      ¬ SignCounts [0x7e, 0x00, 0x08, 0x0f, 0x83, 0x7e] :=
  readers_agree_iff (by decide) _ _

/-- The message `00 08` with its check `0f 83` passes one reader and fails the
other. -/
theorem readers_disagree :
    ¬ ∀ port : List Byte, ∀ messagebuff stack : Mem Byte, messagebuff.cell 0 ≠ 0x7e →
      ReadersAgree port messagebuff stack := by
  intro hall
  have hagree := hall [0x7e, 0x00, 0x08, 0x0f, 0x83, 0x7e] (Mem.ofList 0 []) (Mem.ofList 0 [])
    (by decide)
  have hfirst : (serDriverRead [0x7e, 0x00, 0x08, 0x0f, 0x83, 0x7e] (Mem.ofList 0 [])
      (Mem.ofList 0 [])).ret = some true := by
    decide +kernel
  have hsecond : (serDriverReadUdp [0x7e, 0x00, 0x08, 0x0f, 0x83, 0x7e]
      (Mem.ofList 0 [])).ret = some false := by
    decide +kernel
  have hverdict := hagree.verdict
  rw [hfirst, hsecond] at hverdict
  exact absurd hverdict (by decide)

end RfsAtsc
