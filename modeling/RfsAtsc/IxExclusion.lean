import RfsAtsc.IxRelay

/-!
# Whole messages

Nothing keeps `ix_msg_update` and `ix_msg_read` apart at either end.  Where the two do keep
out of each other's way, what goes from database to database is whole messages: what is
sent and what a client reads was published as one message (`relayed_whole_along`).
-/

namespace RfsAtsc

open TracedMemory EventMachine

/-! ## Steps apart -/

/-- The steps that do not fall into another's: the writer's when no read is under way, the
reader's when no update is. -/
def Exclusive {D : Database} (s : Sharing D) : DbEvent → Prop
  | .update _ _ => s.reading = none
  | .write => s.reading = none
  | .readHeader => s.pending = []
  | .readApproach _ => s.pending = []

/-- One message is the last: its update is under way and no read is, or all of it is shown
and a read under way is of it. -/
def Calm {D : Database} (vars : IxVars) (W : IxMsg → Prop) (s : Sharing D) : Prop :=
  ∃ m, W m ∧ (∀ p ∈ m.approachArray, p.Bounded) ∧
    ((s.pending = [] ∧ Quiet vars m s) ∨
      s.reading = none ∧ ∃ done, msgWrites vars m = done ++ s.pending ∧ AllShown D s.store done)

section Exclusion

variable {D : Database} {vars : IxVars} {W : IxMsg → Prop} {s : Sharing D}

/-- An update brings its message among those written. -/
theorem Calm.update (h : Calm vars W s) {m : IxMsg} (bounded : ∀ p ∈ m.approachArray, p.Bounded)
    (hreading : s.reading = none) :
    Calm vars (fun m' => W m' ∨ Takes s (.update m bounded) m')
      ((sharing D vars).step s (.update m bounded)).1 := by
  obtain ⟨last, hlast, hbounded, hstate⟩ := h
  cases hpending : s.pending with
  | nil =>
      simp only [sharing, sharingStep, hpending]
      exact ⟨m, Or.inr ⟨hpending, bounded, rfl⟩, bounded, Or.inr ⟨hreading, [], rfl,
        fun _ hw => absurd hw List.not_mem_nil⟩⟩
  | cons w ws =>
      simp only [sharing, sharingStep, hpending]
      exact ⟨last, Or.inl hlast, hbounded, hstate⟩

/-- A write while nothing is read changes nothing of that. -/
theorem Calm.write (h : Calm vars W s) (hreading : s.reading = none) :
    Calm vars W ((sharing D vars).step s .write).1 := by
  obtain ⟨last, hlast, hbounded, hstate⟩ := h
  cases hpending : s.pending with
  | nil =>
      simp only [sharing, sharingStep, hpending]
      exact ⟨last, hlast, hbounded, hstate⟩
  | cons w ws =>
      simp only [sharing, sharingStep, hpending]
      rcases hstate with ⟨hnone, -⟩ | ⟨-, done, hsplit, hshown⟩
      · rw [hpending] at hnone
        exact absurd hnone (by simp)
      · rw [hpending] at hsplit
        refine ⟨last, hlast, hbounded, Or.inr ⟨hreading, done ++ [w], ?_, hshown.concat hsplit⟩⟩
        rw [hsplit, List.append_assoc]
        rfl

/-- Between updates all of the last message is shown. -/
theorem Calm.quiet (h : Calm vars W s) (hpending : s.pending = []) :
    ∃ m, W m ∧ (∀ p ∈ m.approachArray, p.Bounded) ∧ Quiet vars m s := by
  obtain ⟨last, hlast, hbounded, hstate⟩ := h
  refine ⟨last, hlast, hbounded, ?_⟩
  rcases hstate with ⟨-, hquiet⟩ | ⟨hreading, done, hsplit, hshown⟩
  · exact hquiet
  · rw [hpending, List.append_nil] at hsplit
    refine ⟨by rw [hsplit]; exact hshown, fun r hr => ?_⟩
    rw [hreading] at hr
    exact absurd hr (by simp)

/-- A reader's step leaves the writer alone. -/
theorem read_pending {e : DbEvent} (he : IsRead [] s e) :
    ((sharing D vars).step s e).1.pending = s.pending := by
  cases e with
  | update m bounded => exact he.elim
  | write => exact he.elim
  | readHeader =>
      cases hreading : s.reading with
      | none => simp only [sharing, sharingStep, hreading]
      | some r => simp only [sharing, sharingStep, hreading]
  | readApproach stack =>
      cases hreading : s.reading with
      | none => simp only [sharing, sharingStep, hreading]
      | some r => simp only [sharing, sharingStep, hreading]

/-- A read while nothing is written gives one of the messages written. -/
theorem Calm.read (h : Calm vars W s) {e : DbEvent} (he : IsRead [] s e)
    (hpending : s.pending = []) :
    Calm vars W ((sharing D vars).step s e).1 ∧ ∀ m ∈ ((sharing D vars).step s e).2, W m := by
  obtain ⟨last, hlast, hbounded, hquiet⟩ := h.quiet hpending
  obtain ⟨hrest, hout⟩ := quiet_step hbounded hquiet he
  refine ⟨⟨last, hlast, hbounded, Or.inl ⟨(read_pending he).trans hpending, hrest⟩⟩, ?_⟩
  intro m hm
  rw [hout m hm]
  exact hlast

/-- It holds of more messages too. -/
theorem Calm.mono {W' : IxMsg → Prop} (hW : ∀ m, W m → W' m) (h : Calm vars W s) :
    Calm vars W' s := by
  obtain ⟨last, hlast, hrest⟩ := h
  exact ⟨last, hW last hlast, hrest⟩

end Exclusion

/-- When no step falls into another's, a reader gets a message that was written, or `first`,
which the database held at the start. -/
def wholes (D : Database) (vars : IxVars) (first : IxMsg) : Hop D vars where
  Allowed := Exclusive
  Inv := fun W s => Calm vars (fun m => m = first ∨ W m) s
  Gives := fun W m => m = first ∨ W m
  inv_mono := fun hW h => h.mono fun m hm => hm.imp_right (hW m)
  gives_mono := fun hW h => h.imp_right (hW _)
  step := by
    intro W s e h hallowed
    cases e with
    | update m bounded =>
        refine (h.update bounded hallowed).mono fun m' hm' => ?_
        rcases hm' with hold | htakes
        · exact hold.imp_right Or.inl
        · exact Or.inr (Or.inr htakes)
    | write => exact (h.write hallowed).mono fun m hm => hm.imp_right Or.inl
    | readHeader =>
        exact (h.read (e := .readHeader) trivial hallowed).1.mono fun m hm => hm.imp_right Or.inl
    | readApproach stack =>
        exact (h.read (e := .readApproach stack) trivial hallowed).1.mono
          fun m hm => hm.imp_right Or.inl
  gives := by
    intro W s e h hallowed m hm
    cases e with
    | update m' bounded => exact absurd hm (writer_silent s id m)
    | write => exact absurd hm (writer_silent s id m)
    | readHeader => exact (h.read (e := .readHeader) trivial hallowed).2 m hm
    | readApproach stack => exact (h.read (e := .readApproach stack) trivial hallowed).2 m hm

/-- The steps of a run in which neither database is written while it is read. -/
def RelayExclusive {Dn Df : Database} (_pre : List RelayEvent) (s : Relay Dn Df) :
    RelayEvent → Prop
  | .near e _ => Exclusive s.near e
  | .deliver _ => s.far.reading = none
  | .far e _ => Exclusive s.far e

end RfsAtsc
