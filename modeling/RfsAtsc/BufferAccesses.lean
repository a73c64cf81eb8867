import RfsAtsc.Rd3418

/-!
# What the frame readers touch in `msgbuf`

Both readers of `ser_driver_read` store byte by byte into a hundred bytes on the
stack and start the check from the two bytes in front of the closing flag.  The
loop is bounded, the test for more than 95 bytes stops it in time for the
look-ahead, and the two bytes exist unless the closing flag follows right on a
doubled opening flag.
-/

namespace RfsAtsc

open TracedMemory ByteStuffing

/-- The addresses of `msgbuf` that reading a message touches: the stores, and once
the closing flag is in the two bytes the check starts from. -/
def Parse.accesses (p : Parse) : List Int :=
  p.msgbuf.stored ++ if p.ended = .flag then [(p.i : Int) - 2, (p.i : Int) - 1] else []

/-- The buffer behind `memset(msgbuf, 0x0, 100)`, with these stores as its first. -/
def clearedBuffer (stack : Mem Byte) : Mem Byte :=
  stack.untraced.write 0 (List.replicate 100 0)

/-- What `ser_driver_read` of `ab3418_lib.c` touches. -/
def serDriverReadAccesses (port : List Byte) (stack : Mem Byte) : List Int :=
  (readMessage port (clearedBuffer stack)).accesses

/-- What `ser_driver_read` of `rd3418.c` touches. -/
def Rd3418.serDriverReadAccesses (port : List Byte) (stack : Mem Byte) : List Int :=
  (Rd3418.readMessage port (clearedBuffer stack)).accesses

/-- Every address is one of the hundred bytes. -/
def InBuffer (accesses : List Int) : Prop := ∀ a ∈ accesses, 0 ≤ a ∧ a ≤ 99

/-- The loop stores from its index up to 96. -/
theorem readLoop_stored (port : List Byte) (i : Nat) (m : Mem Byte) (hi : i ≤ 96) :
    ∀ a ∈ (readLoop port i m).msgbuf.stored, a ∈ m.stored ∨ (i : Int) ≤ a ∧ a ≤ 96 := by
  fun_induction readLoop port i m with
  | case1 i m h => exact fun a ha => Or.inl ha
  | case2 i m h => exact fun a ha => Or.inl ha
  | case3 b port i m h m' hlong => grind [Mem.store_stored]
  | case4 port i m h hshort m' => grind [Mem.store_stored]
  | case5 i m h hshort m' hflag => grind [Mem.store_stored]
  | case6 i m h hshort port m' hflag m'' ih => grind [Mem.store_stored]
  | case7 i m h hshort e port hstand hesc m' hflag m'' => grind [Mem.store_stored]
  | case8 i m h hshort e port hstand hesc m' hflag m'' ih => grind [Mem.store_stored]
  | case9 b port i m h m' hshort hflag hesc ih => grind [Mem.store_stored]
  | case10 b port i m h => exact fun a ha => Or.inl ha

/-- The loop ends at a closing flag no further than 95, and at the index it starts
from only if the flag comes first. -/
theorem readLoop_flag_index (port : List Byte) (i : Nat) (m : Mem Byte) (hi : i ≤ 96)
    (hended : (readLoop port i m).ended = .flag) :
    (readLoop port i m).i ≤ 95 ∧
      (i < (readLoop port i m).i ∨ i = (readLoop port i m).i ∧ port.head? = some 0x7e) := by
  fun_induction readLoop port i m with
  | case1 i m h => exact absurd hended (by simp)
  | case2 i m h => omega
  | case3 b port i m h m' hlong => exact absurd hended (by simp)
  | case4 port i m h hshort m' => exact ⟨Nat.not_lt.mp hshort, Or.inr ⟨rfl, rfl⟩⟩
  | case5 i m h hshort m' hflag => exact absurd hended (by simp)
  | case6 i m h hshort port m' hflag m'' ih =>
      have hrest := ih (by omega) hended
      omega
  | case7 i m h hshort e port hstand hesc m' hflag m'' => exact absurd hended (by simp)
  | case8 i m h hshort e port hstand hesc m' hflag m'' ih =>
      have hrest := ih (by omega) hended
      omega
  | case9 b port i m h m' hshort hflag hesc ih =>
      have hrest := ih (by omega) hended
      omega
  | case10 b port i m h => omega

/-- Behind its two opening bytes a message is read from the first place, or from the
second where there is content. -/
private theorem readMessage_opening (x y : Byte) (u : List Byte) (m : Mem Byte) :
    ∃ ii, readMessage (x :: y :: u) m = readLoop u ii ((m.store 0 x).store 1 y) ∧
      1 ≤ ii ∧ ii ≤ 2 ∧ (y ≠ 0x7e → ii = 2) := by
  refine ⟨_, rfl, ?_⟩
  split
  · exact ⟨by omega, by omega, fun _ => rfl⟩
  · rename_i hy
    exact ⟨by omega, by omega, fun hne => absurd hne hy⟩

/-- The stores of a message stay in the buffer. -/
private theorem readLoop_inBuffer {m : Mem Byte} (hm : InBuffer m.stored) (x y : Byte)
    (u : List Byte) {ii : Nat} (hlow : 1 ≤ ii) (hhigh : ii ≤ 2) :
    InBuffer (readLoop u ii ((m.store 0 x).store 1 y)).msgbuf.stored := by
  intro a ha
  rcases readLoop_stored u ii ((m.store 0 x).store 1 y) (by omega) a ha with hold | hnew
  · simp only [Mem.store_stored, List.mem_cons] at hold
    rcases hold with rfl | rfl | hold
    · exact ⟨by decide, by decide⟩
    · exact ⟨by decide, by decide⟩
    · exact hm a hold
  · omega

/-- **Reading a message stays in the buffer**, unless its opening flag is doubled and
the closing flag follows at once. -/
theorem readMessage_inBuffer_iff (port : List Byte) {m : Mem Byte} (hm : InBuffer m.stored) :
    InBuffer (readMessage port m).accesses ↔
      ¬ ∃ x rest, port = x :: 0x7e :: 0x7e :: rest := by
  constructor
  · intro hin hdoubled
    obtain ⟨x, rest, rfl⟩ := hdoubled
    have hbelow : (-1 : Int) ∈ (readMessage (x :: 0x7e :: 0x7e :: rest) m).accesses := by
      simp [readMessage, readLoop, Parse.accesses]
    exact absurd (hin (-1) hbelow).1 (by decide)
  · intro hsingle
    rcases port with _ | ⟨x, _ | ⟨y, u⟩⟩
    · simpa [readMessage, Parse.accesses] using hm
    · simpa [readMessage, Parse.accesses, InBuffer] using hm
    · obtain ⟨ii, hread, hlow, hhigh, hcontent⟩ := readMessage_opening x y u m
      have hindex := readLoop_flag_index u ii ((m.store 0 x).store 1 y) (by omega)
      intro a ha
      rw [Parse.accesses, hread, List.mem_append] at ha
      rcases ha with hstore | hseed
      · exact readLoop_inBuffer hm x y u hlow hhigh a hstore
      · by_cases hended : (readLoop u ii ((m.store 0 x).store 1 y)).ended = .flag
        · obtain ⟨htop, hpast⟩ := hindex hended
          -- a message with content leaves room for the two bytes
          have hsecond : 2 ≤ (readLoop u ii ((m.store 0 x).store 1 y)).i := by
            rcases hpast with hpast | ⟨heq, hhead⟩
            · omega
            · by_cases hy : y = 0x7e
              · obtain ⟨rest, hrest⟩ := List.head?_eq_some_iff.mp hhead
                exact absurd ⟨x, rest, by rw [hy, hrest]⟩ hsingle
              · rw [← heq, hcontent hy]
          rw [if_pos hended] at hseed
          simp only [List.mem_cons, List.not_mem_nil, or_false] at hseed
          omega
        · rw [if_neg hended] at hseed
          exact absurd hseed List.not_mem_nil

/-- Clearing the buffer stays in it. -/
theorem clearedBuffer_inBuffer (stack : Mem Byte) : InBuffer (clearedBuffer stack).stored := by
  intro a ha
  rcases Mem.write_stored _ _ _ ha with hold | hcleared
  · exact absurd hold List.not_mem_nil
  · rw [List.length_replicate] at hcleared
    omega

theorem clearedBuffer_cell (stack : Mem Byte) : (clearedBuffer stack).cell 0 ≠ 0x7e :=
  serDriverRead_enters stack.untraced

/-- What comes in front of the flag is stored at the start of the buffer. -/
theorem overwritten_inBuffer {m : Mem Byte} (hm : InBuffer m.stored) (junk : List Byte) :
    InBuffer (Rd3418.overwritten m junk).stored := by
  induction junk generalizing m with
  | nil => exact hm
  | cons b junk ih =>
      apply ih
      intro a ha
      rcases List.mem_cons.mp ha with rfl | hold
      · exact ⟨by decide, by decide⟩
      · exact hm a hold

theorem Parse.accesses_waiting (p : Parse) : p.waiting.accesses = p.accesses := by
  unfold Parse.waiting
  split
  · rename_i hsilent
    simp [Parse.accesses, hsilent]
  · rfl

/-- Dropping what is no flag leads to the first flag. -/
private theorem dropWhile_junk {junk u : List Byte} (hjunk : 0x7e ∉ junk) :
    (junk ++ 0x7e :: u).dropWhile (· != 0x7e) = 0x7e :: u := by
  induction junk with
  | nil => rfl
  | cons b junk ih =>
      rw [List.mem_cons, not_or] at hjunk
      rw [List.cons_append, List.dropWhile_cons_of_pos (by simpa using Ne.symm hjunk.1)]
      exact ih hjunk.2

/-- **The accesses, exactly.**  On every port the readers touch only the hundred bytes
of `msgbuf`, the library's unless the second and the third byte are flags, and the
blocking one unless three flags follow what comes before the first. -/
theorem accesses_inBuffer_iff (port : List Byte) (stack : Mem Byte) :
    (InBuffer (serDriverReadAccesses port stack) ↔
        ¬ ∃ x rest, port = x :: 0x7e :: 0x7e :: rest) ∧
      (InBuffer (Rd3418.serDriverReadAccesses port stack) ↔
        ¬ ∃ junk rest, 0x7e ∉ junk ∧ port = junk ++ 0x7e :: 0x7e :: 0x7e :: rest) := by
  refine ⟨readMessage_inBuffer_iff port (clearedBuffer_inBuffer stack), ?_⟩
  have hm := clearedBuffer_inBuffer stack
  by_cases hflag : 0x7e ∈ port
  · obtain ⟨junk, u, rfl, hjunk⟩ := List.eq_append_cons_of_mem hflag
    have hmessage : InBuffer (Rd3418.serDriverReadAccesses (junk ++ 0x7e :: u) stack) ↔
        ¬ ∃ x rest, 0x7e :: u = x :: 0x7e :: 0x7e :: rest := by
      rw [Rd3418.serDriverReadAccesses, Rd3418.readMessage_junk hjunk u (clearedBuffer_cell stack),
        Parse.accesses_waiting]
      exact readMessage_inBuffer_iff _ (overwritten_inBuffer hm junk)
    rw [hmessage]
    apply not_congr
    constructor
    · intro hdoubled
      obtain ⟨x, rest, hrest⟩ := hdoubled
      exact ⟨junk, rest, hjunk, by rw [(List.cons.inj hrest).2]⟩
    · intro hdoubled
      obtain ⟨junk', rest, hjunk', hsplit⟩ := hdoubled
      have hbehind := congrArg (List.dropWhile (· != 0x7e)) hsplit
      rw [dropWhile_junk hjunk, dropWhile_junk hjunk'] at hbehind
      exact ⟨0x7e, rest, hbehind⟩
  · refine iff_of_true ?_ ?_
    · rw [Rd3418.serDriverReadAccesses, Rd3418.readMessage_no_flag hflag (clearedBuffer_cell stack)]
      simpa [Parse.accesses] using overwritten_inBuffer hm port
    · intro hdoubled
      obtain ⟨junk, rest, -, rfl⟩ := hdoubled
      exact hflag (by simp)

/-- Behind a doubled flag a third one makes the check start below the buffer. -/
theorem accesses_below_buffer :
    ¬ ((∀ port : List Byte, ∀ stack : Mem Byte, InBuffer (serDriverReadAccesses port stack)) ∧
      ∀ port : List Byte, ∀ stack : Mem Byte,
        InBuffer (Rd3418.serDriverReadAccesses port stack)) := by
  intro hall
  have hbelow : (-1 : Int) ∈ serDriverReadAccesses [0x7e, 0x7e, 0x7e] (Mem.ofList 0 []) := by
    decide +kernel
  exact absurd (hall.1 _ _ (-1) hbelow).1 (by decide)

end RfsAtsc
