import RfsAtsc.EventMachine
import RfsAtsc.IxDatabase

/-!
# Reading a message while it is written

A writer calls `ix_msg_update` and a reader calls `ix_msg_read`, each database operation
of either being one step, and the steps come in any order.  Nothing keeps the two apart.
What a reader gets is pieced together: its header and each of its approaches are whole,
each from the last write to its variable when it was read.  It is one message when no
write falls into the read and the writer is between two updates.
-/

namespace RfsAtsc

open TracedMemory EventMachine

/-- A read under way: the header it has read, and the approaches so far. -/
structure Reading where
  header : IxMsgFields
  approaches : List IxApproach

/-- The database, the message of the writer's last call with the writes it still has to
make, and the read under way. -/
structure Sharing (D : Database) where
  store : D.Store
  message : Option IxMsg
  pending : List (Int × List UChar)
  reading : Option Reading

/-- The steps: the writer calls `ix_msg_update`, or makes the next write of the call; the
reader reads the header, or the next approach, with what its stack holds.  A message's
approaches have no more stop lines than the reader has room for. -/
inductive DbEvent where
  | update (m : IxMsg) (bounded : ∀ p ∈ m.approachArray, p.Bounded)
  | write
  | readHeader
  | readApproach (stack : Mem UChar)

/-- A read is over when it has as many approaches as the header declares. -/
def Reading.finish (r : Reading) : Option Reading × List IxMsg :=
  if h : r.approaches.length = r.header.numApproaches.toNat then
    (none, [⟨r.header, r.approaches, h⟩])
  else (some r, [])

/-- One step: what it leaves, and the message that the reader has read when it ends a
read.  A step out of turn does nothing. -/
def sharingStep (D : Database) (vars : IxVars) (s : Sharing D) : DbEvent → Sharing D × List IxMsg
  | .update m _ =>
      match s.pending with
      | [] => ({ s with message := some m, pending := msgWrites vars m }, [])
      | _ :: _ => (s, [])
  | .write =>
      match s.pending with
      | [] => (s, [])
      | w :: ws => ({ s with store := D.write s.store w.1 w.2, pending := ws }, [])
  | .readHeader =>
      match s.reading with
      | some _ => (s, [])
      | none =>
          let r := Reading.finish ⟨readMsgFields D vars s.store, []⟩
          ({ s with reading := r.1 }, r.2)
  | .readApproach stack =>
      match s.reading with
      | none => (s, [])
      | some r =>
          let p := ixApproachRead D vars s.store stack r.approaches.length
          let r := Reading.finish ⟨r.header, r.approaches ++ [p]⟩
          ({ s with reading := r.1 }, r.2)

/-- Writer, reader and database as a machine. -/
def sharing (D : Database) (vars : IxVars) : Machine (Sharing D) DbEvent IxMsg :=
  ⟨sharingStep D vars⟩

/-- Before the first call. -/
def startSharing (D : Database) (store : D.Store) : Sharing D := ⟨store, none, [], none⟩

/-! ## What was written -/

/-- The writes left of the writer's last call after a step, when `n` were before it. -/
def leftAfter (n : Nat) : DbEvent → Nat
  | .update m _ => if n = 0 then 1 + m.approachArray.length else n
  | .write => n - 1
  | .readHeader => n
  | .readApproach _ => n

/-- How many writes the writer's last call still has to make. -/
def writesLeft (es : List DbEvent) : Nat := es.foldl leftAfter 0

/-- The writer has called `ix_msg_update` with the message, after all the writes of the call
before. -/
def Written (es : List DbEvent) (m : IxMsg) : Prop :=
  ∃ pre bounded post, es = pre ++ .update m bounded :: post ∧ writesLeft pre = 0

/-- The writes left, event by event. -/
theorem writesLeft_concat (es : List DbEvent) (e : DbEvent) :
    writesLeft (es ++ [e]) = leftAfter (writesLeft es) e := by
  rw [writesLeft, List.foldl_append]
  rfl

/-- A message written stays one that was. -/
theorem Written.append {es : List DbEvent} {m : IxMsg} (h : Written es m) (es' : List DbEvent) :
    Written (es ++ es') m := by
  obtain ⟨pre, bounded, post, rfl, hleft⟩ := h
  exact ⟨pre, bounded, post ++ es', by rw [List.append_assoc, List.cons_append], hleft⟩

/-- A message written is one of an update. -/
theorem Written.mem {es : List DbEvent} {m : IxMsg} (h : Written es m) :
    ∃ bounded, DbEvent.update m bounded ∈ es := by
  obtain ⟨pre, bounded, post, rfl, -⟩ := h
  exact ⟨bounded, List.mem_append_right pre List.mem_cons_self⟩

/-- A message is written by the call that a step begins, or was before. -/
theorem written_concat {es : List DbEvent} {e : DbEvent} {m : IxMsg} :
    Written (es ++ [e]) m ↔
      Written es m ∨ writesLeft es = 0 ∧ ∃ bounded, e = .update m bounded := by
  constructor
  · rintro ⟨pre, bounded, post, hsplit, hleft⟩
    induction post using List.reverseRecOn with
    | nil =>
        obtain ⟨rfl, hlast⟩ := List.append_inj' hsplit rfl
        exact Or.inr ⟨hleft, bounded, (List.cons.inj hlast).1⟩
    | append_singleton post last _ =>
        rw [← List.cons_append, ← List.append_assoc] at hsplit
        obtain ⟨rfl, -⟩ := List.append_inj' hsplit rfl
        exact Or.inl ⟨pre, bounded, post, rfl, hleft⟩
  · rintro (h | ⟨hleft, bounded, rfl⟩)
    · exact h.append [e]
    · exact ⟨es, bounded, [], rfl, hleft⟩

/-- The step begins the message's update. -/
def Takes {D : Database} (s : Sharing D) (e : DbEvent) (m : IxMsg) : Prop :=
  s.pending = [] ∧ ∃ bounded, e = .update m bounded

/-- Of each variable the message whose write was stored in it last, after a step. -/
def storedAfter {D : Database} (s : Sharing D) (last : Int → Option IxMsg) :
    DbEvent → Int → Option IxMsg
  | .update _ _ => last
  | .write =>
      match s.pending with
      | [] => last
      | w :: _ => Function.update last w.1 s.message
  | .readHeader => last
  | .readApproach _ => last

/-- The same after a run of steps. -/
def storedBy (D : Database) (vars : IxVars) (s : Sharing D) (last : Int → Option IxMsg) :
    List DbEvent → Int → Option IxMsg
  | [] => last
  | e :: es => storedBy D vars (sharingStep D vars s e).1 (storedAfter s last e) es

/-- Of each variable the message of the last write that the database has stored in it, if it
has stored any. -/
def lastStored (D : Database) (vars : IxVars) (store : D.Store) (es : List DbEvent) :
    Int → Option IxMsg :=
  storedBy D vars (startSharing D store) (fun _ => none) es

/-- The last event stores its message if it completes a write. -/
theorem lastStored_concat (D : Database) (vars : IxVars) (store : D.Store) (es : List DbEvent)
    (e : DbEvent) :
    lastStored D vars store (es ++ [e]) =
      storedAfter ((sharing D vars).run (startSharing D store) es)
        (lastStored D vars store es) e := by
  rw [lastStored, lastStored]
  generalize startSharing D store = s
  generalize (fun _ => none : Int → Option IxMsg) = last
  induction es generalizing s last with
  | nil => rfl
  | cons f es ih => exact ih _ _

/-! ## Where the pieces come from -/

/-- A header is that of the message last stored, or what the database held at the start
if none was. -/
def HeaderOf (D : Database) (vars : IxVars) (store : D.Store) : Option IxMsg → IxMsgFields → Prop
  | some m, h => h = m.fields
  | none, h => h = readMsgFields D vars store

/-- An approach is the `i`-th of the message last stored, or what the database held. -/
def ApproachOf (D : Database) (vars : IxVars) (store : D.Store) (stack : Mem UChar) (i : Nat) :
    Option IxMsg → IxApproach → Prop
  | some m, p => m.approachArray[i]? = some p
  | none, p => p = ixApproachRead D vars store stack i

/-- What a read has got by the end of a history: the header, and then, until it has as many as
the header declares, one approach after the other, each as its variable was last written when
it was read. -/
inductive ReadOff (D : Database) (vars : IxVars) (store : D.Store) :
    List DbEvent → IxMsgFields → List IxApproach → Prop
  | header {es h} : HeaderOf D vars store (lastStored D vars store es vars.ixDbVar) h →
      ReadOff D vars store (es ++ [.readHeader]) h []
  | approach {es h ps stack p} : ReadOff D vars store es h ps →
      ps.length ≠ h.numApproaches.toNat → ApproachOf D vars store stack ps.length
        (lastStored D vars store es (vars.approachStart + ps.length)) p →
      ReadOff D vars store (es ++ [.readApproach stack]) h (ps ++ [p])
  | other {es h ps e} : ReadOff D vars store es h ps → ps.length ≠ h.numApproaches.toNat →
      (∀ stack, e ≠ .readApproach stack) → ReadOff D vars store (es ++ [e]) h ps

/-- A read that is not over, and what it has got. -/
structure UnderWay (D : Database) (vars : IxVars) (store : D.Store) (es : List DbEvent)
    (r : Reading) : Prop where
  more : r.approaches.length ≠ r.header.numApproaches.toNat
  readOff : ReadOff D vars store es r.header r.approaches

/-- It goes on while the others make their steps. -/
theorem UnderWay.other {D : Database} {vars : IxVars} {store : D.Store} {es : List DbEvent}
    {r : Reading} (h : UnderWay D vars store es r) {e : DbEvent}
    (he : ∀ stack, e ≠ .readApproach stack) : UnderWay D vars store (es ++ [e]) r :=
  ⟨h.more, h.readOff.other h.more he⟩

/-- The header's variable shows the message last stored in it. -/
def HeaderShown (D : Database) (vars : IxVars) (store s : D.Store) : Option IxMsg → Prop
  | some m => Shows D s vars.ixDbVar msgSize m.fields.bytes
  | none => D.read s vars.ixDbVar msgSize = D.read store vars.ixDbVar msgSize

/-- So does an approach's, if the message has that approach. -/
def ApproachShown (D : Database) (vars : IxVars) (store s : D.Store) (i : Nat) :
    Option IxMsg → Prop
  | some m => ∃ p, m.approachArray[i]? = some p ∧
      Shows D s (vars.approachStart + i) MAX_APPROACH_SIZE p.bytes
  | none => D.read s (vars.approachStart + i) MAX_APPROACH_SIZE =
      D.read store (vars.approachStart + i) MAX_APPROACH_SIZE

/-- What a run keeps of the variables, of the writer and of the reader. -/
structure SharingInv (D : Database) (vars : IxVars) (store : D.Store) (es : List DbEvent)
    (s : Sharing D) : Prop where
  run : s = (sharing D vars).run (startSharing D store) es
  header : HeaderShown D vars store s.store (lastStored D vars store es vars.ixDbVar)
  approach : ∀ i : Nat,
    ApproachShown D vars store s.store i (lastStored D vars store es (vars.approachStart + i))
  stored : ∀ v m, lastStored D vars store es v = some m → Written es m
  left : s.pending.length = writesLeft es
  pending : s.pending ≠ [] → ∃ m, s.message = some m
  message : ∀ m, s.message = some m → Written es m ∧
    ∃ done, msgWrites vars m = done ++ s.pending ∧
      ∀ w ∈ done, ∀ n, w.2.length ≤ n → Shows D s.store w.1 n w.2
  reading : ∀ r, s.reading = some r → UnderWay D vars store es r

section Pieces

variable {D : Database} {vars : IxVars} {store : D.Store}

/-- The variables of a message's writes are all different. -/
theorem msgWrites_nodup (vars : IxVars) (m : IxMsg) : ((msgWrites vars m).map Prod.fst).Nodup := by
  rw [msgWrites, List.map_cons, List.nodup_cons]
  constructor
  · intro h
    obtain ⟨w, hw, hvar⟩ := List.mem_map.mp h
    obtain ⟨i, hi, rfl⟩ := List.mem_mapIdx.mp hw
    have hapart := vars.apart
    change vars.approachStart + (i : Int) = vars.ixDbVar at hvar
    omega
  · rw [List.nodup_iff_pairwise_ne, List.pairwise_iff_getElem]
    intro i j hi hj hlt heq
    simp only [List.getElem_map, List.getElem_mapIdx, approachWrite] at heq
    omega

/-- An update writes the header and each approach. -/
theorem msgWrites_length (vars : IxVars) (m : IxMsg) :
    (msgWrites vars m).length = 1 + m.approachArray.length := by
  rw [msgWrites, List.length_cons, List.length_mapIdx, Nat.add_comm]

/-- The writes left are counted as the writer makes them. -/
theorem sharingStep_left (vars : IxVars) {es : List DbEvent} {s : Sharing D}
    (hleft : s.pending.length = writesLeft es) (e : DbEvent) :
    ((sharing D vars).step s e).1.pending.length = writesLeft (es ++ [e]) := by
  rw [writesLeft_concat, ← hleft]
  cases e with
  | update m bounded =>
      cases hpending : s.pending with
      | nil =>
          simp only [sharing, sharingStep, hpending, msgWrites_length]
          rfl
      | cons w ws =>
          simp only [sharing, sharingStep, hpending]
          rfl
  | write =>
      cases hpending : s.pending with
      | nil =>
          simp only [sharing, sharingStep, hpending]
          rfl
      | cons w ws =>
          simp only [sharing, sharingStep, hpending]
          rfl
  | readHeader =>
      cases hreading : s.reading with
      | none => simp only [sharing, sharingStep, hreading, leftAfter]
      | some r => simp only [sharing, sharingStep, hreading, leftAfter]
  | readApproach stack =>
      cases hreading : s.reading with
      | none => simp only [sharing, sharingStep, hreading, leftAfter]
      | some r => simp only [sharing, sharingStep, hreading, leftAfter]

/-- Where they are counted, a message is written when its update begins. -/
theorem written_concat_iff {es : List DbEvent} {s : Sharing D}
    (hleft : s.pending.length = writesLeft es) {e : DbEvent} {m : IxMsg} :
    Written (es ++ [e]) m ↔ Written es m ∨ Takes s e m := by
  rw [written_concat, ← hleft, List.length_eq_zero_iff]
  rfl

/-- A step that stores nothing and begins no update keeps all but the read under way. -/
private theorem SharingInv.reader {es : List DbEvent} {s : Sharing D}
    (h : SharingInv D vars store es s) {e : DbEvent} {reading : Option Reading}
    (hstep : ((sharing D vars).step s e).1 = { s with reading := reading })
    (hstored : storedAfter s (lastStored D vars store es) e = lastStored D vars store es)
    (hreading : ∀ r, reading = some r → UnderWay D vars store (es ++ [e]) r) :
    SharingInv D vars store (es ++ [e]) ((sharing D vars).step s e).1 := by
  have hlast : lastStored D vars store (es ++ [e]) = lastStored D vars store es := by
    rw [lastStored_concat, ← h.run, hstored]
  have hrun : ((sharing D vars).step s e).1 =
      (sharing D vars).run (startSharing D store) (es ++ [e]) := by
    rw [Machine.run_concat, ← h.run]
  have hleft := sharingStep_left vars h.left e
  rw [hstep] at hrun hleft ⊢
  constructor
  case run => exact hrun
  case header => rw [hlast]; exact h.header
  case approach => rw [hlast]; exact h.approach
  case stored =>
      intro v m hm
      rw [hlast] at hm
      exact (h.stored v m hm).append [e]
  case left => exact hleft
  case pending => exact h.pending
  case message =>
      intro m hm
      obtain ⟨hwritten, hdone⟩ := h.message m hm
      exact ⟨hwritten.append [e], hdone⟩
  case reading => exact hreading

/-- The writes are shown. -/
def AllShown (D : Database) (s : D.Store) (ws : List (Int × List UChar)) : Prop :=
  ∀ w ∈ ws, ∀ n, w.2.length ≤ n → Shows D s w.1 n w.2

/-- The next write of an update is shown with those before it. -/
theorem AllShown.concat {D : Database} {vars : IxVars} {m : IxMsg} {s : D.Store}
    {done ws : List (Int × List UChar)} {w : Int × List UChar}
    (hsplit : msgWrites vars m = done ++ w :: ws) (h : AllShown D s done) :
    AllShown D (D.write s w.1 w.2) (done ++ [w]) := by
  intro v hv n hn
  rcases List.mem_append.mp hv with hv | hv
  · have hnodup := msgWrites_nodup vars m
    rw [hsplit, List.map_append, List.map_cons] at hnodup
    have hne : v.1 ≠ w.1 := (List.nodup_append.mp hnodup).2.2 v.1 (List.mem_map_of_mem hv) w.1
      List.mem_cons_self
    exact (h v hv n hn).write_other hne _
  · obtain rfl := List.mem_singleton.mp hv
    exact shows_write_same D _ _ hn

/-- A step of the reader. -/
def IsRead (_pre : List DbEvent) (_s : Sharing D) : DbEvent → Prop
  | .update _ _ => False
  | .write => False
  | .readHeader => True
  | .readApproach _ => True

/-- A step of the writer gives the reader nothing. -/
theorem writer_silent (s : Sharing D) {e : DbEvent} (he : ¬ IsRead [] s e) (m : IxMsg) :
    m ∉ ((sharing D vars).step s e).2 := by
  cases e with
  | readHeader => exact absurd trivial he
  | readApproach stack => exact absurd trivial he
  | update _ _ =>
      cases hpending : s.pending with
      | nil => simp only [sharing, sharingStep, hpending]; exact List.not_mem_nil
      | cons w ws => simp only [sharing, sharingStep, hpending]; exact List.not_mem_nil
  | write =>
      cases hpending : s.pending with
      | nil => simp only [sharing, sharingStep, hpending]; exact List.not_mem_nil
      | cons w ws => simp only [sharing, sharingStep, hpending]; exact List.not_mem_nil

/-- The variables show all of a message, and a read under way has its header and its
first approaches. -/
structure Quiet (vars : IxVars) (m : IxMsg) (s : Sharing D) : Prop where
  shown : ∀ w ∈ msgWrites vars m, ∀ n, w.2.length ≤ n → Shows D s.store w.1 n w.2
  reading : ∀ r, s.reading = some r → r.header = m.fields ∧
    ∃ k < m.approachArray.length, r.approaches = m.approachArray.take k

/-- A read that has the first `k` approaches of the message goes on, or ends with it. -/
private theorem finish_quiet {m : IxMsg} {k : Nat} (hk : k ≤ m.approachArray.length) :
    (∀ r, (Reading.finish ⟨m.fields, m.approachArray.take k⟩).1 = some r →
        r.header = m.fields ∧ ∃ k < m.approachArray.length, r.approaches = m.approachArray.take k) ∧
      ∀ m' ∈ (Reading.finish ⟨m.fields, m.approachArray.take k⟩).2, m' = m := by
  have hlen : (m.approachArray.take k).length = k := by
    rw [List.length_take, Nat.min_eq_left hk]
  rw [Reading.finish]
  split
  · rename_i hall
    refine ⟨fun r hr => absurd hr (by simp), fun m' hm' => ?_⟩
    obtain rfl := List.mem_singleton.mp hm'
    simp only [hlen, ← m.length_eq] at hall
    obtain ⟨fields, approaches, hlength⟩ := m
    simp only [IxMsg.mk.injEq, true_and]
    exact List.take_of_length_le (Nat.le_of_eq hall.symm)
  · rename_i hmore
    refine ⟨fun r hr => ?_, fun m' hm' => absurd hm' List.not_mem_nil⟩
    obtain rfl := Option.some.inj hr
    simp only [hlen, ← m.length_eq] at hmore
    exact ⟨rfl, k, by omega, rfl⟩

/-- A step of the reader keeps the message shown, and a read that ends gives it. -/
theorem quiet_step {m : IxMsg} (hbounded : ∀ p ∈ m.approachArray, p.Bounded)
    {s : Sharing D} (h : Quiet vars m s) {e : DbEvent} (he : IsRead [] s e) :
    Quiet vars m ((sharing D vars).step s e).1 ∧
      ∀ m' ∈ ((sharing D vars).step s e).2, m' = m := by
  cases e with
  | update m' bounded => exact he.elim
  | write => exact he.elim
  | readHeader =>
      cases hreading : s.reading with
      | some r =>
          simp only [sharing, sharingStep, hreading]
          exact ⟨h, fun m' hm' => absurd hm' List.not_mem_nil⟩
      | none =>
          have hheader : readMsgFields D vars s.store = m.fields :=
            readMsgFields_of_shows (h.shown _ List.mem_cons_self msgSize
              (by rw [IxMsgFields.bytes_length]))
          obtain ⟨hrest, hout⟩ := finish_quiet (m := m) (Nat.zero_le _)
          rw [List.take_zero] at hrest hout
          simp only [sharing, sharingStep, hreading, hheader]
          exact ⟨⟨h.shown, hrest⟩, hout⟩
  | readApproach stack =>
      cases hreading : s.reading with
      | none =>
          simp only [sharing, sharingStep, hreading]
          exact ⟨h, fun m' hm' => absurd hm' List.not_mem_nil⟩
      | some r =>
          obtain ⟨hheader, k, hk, happroaches⟩ := h.reading r hreading
          have hlen : r.approaches.length = k := by
            rw [happroaches, List.length_take, Nat.min_eq_left (Nat.le_of_lt hk)]
          have hwrite : approachWrite vars k m.approachArray[k] ∈ msgWrites vars m :=
            List.mem_cons_of_mem _ (List.mem_mapIdx.mpr ⟨k, hk, rfl⟩)
          have hread : ixApproachRead D vars s.store stack k = m.approachArray[k] :=
            ixApproachRead_of_shows stack (h.shown _ hwrite MAX_APPROACH_SIZE
              (hbounded _ (List.getElem_mem hk)).bytes_length_le)
          obtain ⟨hrest, hout⟩ := finish_quiet (m := m) (Nat.succ_le_of_lt hk)
          have hnext : m.approachArray.take k ++ [m.approachArray[k]] =
              m.approachArray.take (k + 1) := List.take_append_getElem hk
          simp only [sharing, sharingStep, hreading]
          rw [hlen, hread, hheader, happroaches, hnext]
          exact ⟨⟨h.shown, hrest⟩, hout⟩

end Pieces

/-- A database whose variables are arrays of bytes: a write changes the first of them. -/
def cellDatabase : Database where
  Store := Int → Nat → UChar
  write := fun s v bs => Function.update s v fun k => bs.getD k (s v k)
  read := fun s v n => (List.range n).map (s v)
  read_length := fun s v n => by rw [List.length_map, List.length_range]
  read_write := by
    intro s v bs n hlen
    apply List.ext_getElem
    · rw [List.length_take, List.length_map, List.length_range, Nat.min_eq_left hlen]
    · intro k _ hk
      rw [List.getElem_take, List.getElem_map, List.getElem_range, Function.update_self,
        List.getD_eq_getElem?_getD, List.getElem?_eq_getElem hk, Option.getD_some]
  read_write_other := by
    intro s v w bs n hne
    rw [Function.update_of_ne hne]

end RfsAtsc
