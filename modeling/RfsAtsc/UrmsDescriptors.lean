import RfsAtsc.Descriptors
import RfsAtsc.UrmsGating

/-!
# The connections of `urms`

The main loop of `urms` opens a connection for each metering command that it carries out,
and each poll closes the connection in use and opens another.  A command does not close the
connection that it finds: the call of `close` in front of its `OpenURMSConnection` is
commented out, and so is the one behind it.  That connection stays open for good.

Whether a connection opens was left open in the loop itself (`loopStep`); here it depends on
the descriptors of the process.  The process behaves as a loop with a budget of connections,
one spent by each command (`process_refines`): polls cost nothing, and when the budget is
spent, the next command ends the program.
-/

namespace RfsAtsc

open EventMachine Descriptors

variable {limit : ℕ}

/-! ## `OpenURMSConnection` -/

/-- What comes of one of the addresses that `getaddrinfo` finds: `socket` does not know its
family, `connect` fails, or it accepts. -/
inductive Address where
  | unsupported
  | refuses
  | accepts
deriving DecidableEq

/-- `OpenURMSConnection`.  Where `getaddrinfo` fails it ends the program itself, which is what
its callers do on a negative return: no addresses. -/
def openURMSConnection : List Address → Table limit → Int × Table limit
  | [], t => (-1, t)
  | .unsupported :: rest, t => openURMSConnection rest t
  | .refuses :: rest, t =>
      let socket := t.openNext
      if socket.1 = -1 then openURMSConnection rest t
      else openURMSConnection rest (socket.2.close socket.1)
  | .accepts :: rest, t =>
      let socket := t.openNext
      if socket.1 = -1 then openURMSConnection rest t else socket

/-! ## The loop and its descriptors -/

/-- The variables of the loop, the descriptors of the process, and the one of the
connection. -/
structure Process (limit : ℕ) where
  loop : Loop
  table : Table limit
  urmsfd : Int

/-- What the loop waits for, with the addresses that its attempts to connect find. -/
inductive UrmsEvent where
  | command (db : DbUrms) (addresses : List Address) (ret : Int)
  | poll (addresses : List Address) (status : Option Poll) (again : List Address)

/-- The loop is running, and commands are carried out. -/
def GateOpen (s : Loop) : Prop :=
  s.running = true ∧ s.noControlStartup = 0 ∧ s.noControlRuntime = 0

instance (s : Loop) : Decidable (GateOpen s) := inferInstanceAs (Decidable (_ ∧ _ ∧ _))

/-- One turn of `while(1)` with its descriptors. -/
def processStep (addr2070 : UChar) (p : Process limit) :
    UrmsEvent → Process limit × List (List UChar)
  | .command db addresses ret =>
      if GateOpen p.loop then
        -- the connection in use is left open
        let connection := openURMSConnection addresses p.table
        let turn := loopStep addr2070 p.loop (.command db (0 ≤ connection.1) ret)
        ({ loop := turn.1, table := connection.2, urmsfd := connection.1 }, turn.2)
      else
        let turn := loopStep addr2070 p.loop (.command db false ret)
        ({ p with loop := turn.1 }, turn.2)
  | .poll addresses status again =>
      if p.loop.running then
        let first := openURMSConnection addresses (p.table.close p.urmsfd)
        if first.1 < 0 then
          let turn := loopStep addr2070 p.loop (.poll false status false)
          ({ loop := turn.1, table := first.2, urmsfd := first.1 }, turn.2)
        else
          match status with
          | none =>
              let second := openURMSConnection again (first.2.close first.1)
              let turn := loopStep addr2070 p.loop (.poll true none (0 ≤ second.1))
              ({ loop := turn.1, table := second.2, urmsfd := second.1 }, turn.2)
          | some poll =>
              let turn := loopStep addr2070 p.loop (.poll true (some poll) false)
              ({ loop := turn.1, table := first.2, urmsfd := first.1 }, turn.2)
      else (p, [])

/-- The process as a machine. -/
def urmsProcess (limit : ℕ) (addr2070 : UChar) :
    Machine (Process limit) UrmsEvent (List UChar) := ⟨processStep addr2070⟩

/-! ## A budget of connections -/

/-- The loop, and how many more connections can be opened. -/
structure Budgeted where
  loop : Loop
  left : ℕ

/-- A command is carried out when an address accepts and the budget is not spent; a poll when
an address accepts. -/
def budgetedStep (addr2070 : UChar) (b : Budgeted) :
    UrmsEvent → Budgeted × List (List UChar)
  | .command db addresses ret =>
      let opens := decide (.accepts ∈ addresses ∧ 0 < b.left)
      let turn := loopStep addr2070 b.loop (.command db opens ret)
      ({ loop := turn.1, left := if GateOpen b.loop ∧ opens then b.left - 1 else b.left }, turn.2)
  | .poll addresses status again =>
      let turn := loopStep addr2070 b.loop
        (.poll (.accepts ∈ addresses) status (.accepts ∈ again))
      ({ b with loop := turn.1 }, turn.2)

/-- The loop with its budget as a machine. -/
def budgetedLoop (addr2070 : UChar) : Machine Budgeted UrmsEvent (List UChar) :=
  ⟨budgetedStep addr2070⟩

/-! ## Connecting -/

/-- One descriptor, the lowest, when an address accepts and there is room; otherwise
whatever was opened on the way is closed again. -/
theorem openURMSConnection_eq (addresses : List Address) (t : Table limit) :
    openURMSConnection addresses t =
      if .accepts ∈ addresses ∧ t.opened.card < limit then t.openNext else (-1, t) := by
  induction addresses with
  | nil => simp [openURMSConnection]
  | cons a rest ih =>
      have hopens := t.openNext_opens
      cases a with
      | unsupported =>
          rw [openURMSConnection, ih]
          simp
      | refuses =>
          have hleft : openURMSConnection (.refuses :: rest) t = openURMSConnection rest t := by
            rw [openURMSConnection]
            generalize t.openNext = r at hopens
            cases hopens with
            | full hfull => exact if_pos rfl
            | lowest fd lt new least =>
                have hfd : ¬ (fd : Int) = -1 := by omega
                exact (if_neg hfd).trans
                  (congrArg (openURMSConnection rest) (Table.close_take lt new))
          rw [hleft, ih]
          simp
      | accepts =>
          rw [openURMSConnection]
          generalize t.openNext = r at hopens ih ⊢
          cases hopens with
          | full hfull =>
              rw [if_pos rfl, ih]
              simp
          | lowest fd lt new least =>
              have hfd : ¬ (fd : Int) = -1 := by omega
              rw [if_neg hfd, if_pos ⟨List.mem_cons_self, Table.card_lt_of_free lt new⟩]

section Connecting

variable {t : Table limit} {others own : Finset ℕ} (h : Keeps t others own)
  (addresses : List Address)

include h

/-- With an address that accepts and a descriptor to spare a connection is opened. -/
theorem openURMSConnection_opens (haccepts : .accepts ∈ addresses)
    (hroom : others.card + own.card < limit) :
    ∃ fd : ℕ, (openURMSConnection addresses t).1 = fd ∧ fd ∉ own ∧
      Keeps (openURMSConnection addresses t).2 others (insert fd own) := by
  rw [openURMSConnection_eq, if_pos ⟨haccepts, by rwa [h.card]⟩]
  exact h.openNext hroom

/-- Without either none is, and the table stays. -/
theorem openURMSConnection_fails
    (hfails : ¬ (.accepts ∈ addresses ∧ others.card + own.card < limit)) :
    openURMSConnection addresses t = (-1, t) := by
  rw [← h.card] at hfails
  rw [openURMSConnection_eq, if_neg hfails]

variable {addresses} {fd : ℕ} (hfd : fd ∈ own)

include hfd

/-- A connection is closed and another one opened: there is room for it. -/
theorem reconnect_opens (haccepts : .accepts ∈ addresses) :
    ∃ own' fd', (openURMSConnection addresses (t.close fd)).1 = (fd' : ℕ) ∧ fd' ∈ own' ∧
      own'.card = own.card ∧ Keeps (openURMSConnection addresses (t.close fd)).2 others own' := by
  have hcard := Finset.card_erase_add_one hfd
  have hle := h.card_le
  obtain ⟨fd', hfirst, hnew, hkeeps⟩ :=
    openURMSConnection_opens (h.close hfd) addresses haccepts (by omega)
  refine ⟨_, fd', hfirst, Finset.mem_insert_self _ _, ?_, hkeeps⟩
  rw [Finset.card_insert_of_notMem hnew, hcard]

/-- With no address that accepts the old connection is closed and none opened. -/
theorem reconnect_fails (hfails : .accepts ∉ addresses) :
    openURMSConnection addresses (t.close fd) = (-1, t.close fd) :=
  openURMSConnection_fails (h.close hfd) addresses fun hboth => hfails hboth.1

/-- So reconnecting succeeds exactly when an address accepts: the old descriptor has just
become free. -/
theorem reconnect_decide (addresses : List Address) :
    decide (0 ≤ (openURMSConnection addresses (t.close fd)).1) =
      decide (.accepts ∈ addresses) := by
  by_cases haccepts : .accepts ∈ addresses
  · obtain ⟨_, fd', hfirst, -⟩ := reconnect_opens h hfd haccepts
    rw [hfirst, decide_eq_true haccepts]
    exact decide_eq_true (Int.natCast_nonneg fd')
  · rw [reconnect_fails h hfd haccepts, decide_eq_false haccepts]
    rfl

end Connecting

/-! ## The process keeps to its budget -/

/-- The process and the loop with a budget have the same variables, and while they run the
process has its connection, and as many descriptors free as the budget has left. -/
structure ProcessRefines (others : Finset ℕ) (p : Process limit) (b : Budgeted) : Prop where
  loop : p.loop = b.loop
  owns : p.loop.running = true → ∃ own fd, Keeps p.table others own ∧ fd ∈ own ∧
    p.urmsfd = (fd : ℕ) ∧ others.card + own.card + b.left = limit

/-- A loop that has stopped has nothing to keep. -/
theorem processRefines_of_stopped {others : Finset ℕ} {p : Process limit} {b : Budgeted}
    (hloop : p.loop = b.loop) (hstopped : p.loop.running = false) : ProcessRefines others p b where
  loop := hloop
  owns hrun := absurd (hstopped.symm.trans hrun) Bool.false_ne_true

/-- A command that finds no connection ends the loop. -/
theorem command_unopened {s : Loop} (hopen : GateOpen s) (addr2070 : UChar) (db : DbUrms)
    (ret : Int) : (loopStep addr2070 s (.command db false ret)).1.running = false := by
  obtain ⟨hrun, hstartup, hruntime⟩ := hopen
  simp [loopStep, hrun, hstartup, hruntime]

/-- A command behind a closed gate needs no connection. -/
theorem command_gated {s : Loop} (hclosed : ¬ GateOpen s) (addr2070 : UChar) (db : DbUrms)
    (opens opens' : Bool) (ret : Int) :
    loopStep addr2070 s (.command db opens ret) = loopStep addr2070 s (.command db opens' ret) ∧
      (loopStep addr2070 s (.command db opens ret)).1.running = s.running := by
  unfold loopStep
  by_cases hrun : s.running = true
  · have hgate : ¬ (s.noControlStartup = 0 ∧ s.noControlRuntime = 0) :=
      fun hgate => hclosed ⟨hrun, hgate⟩
    simp only [hrun, if_true, if_neg hgate, and_self]
  · simp only [if_neg hrun, and_self]

/-- A poll that finds no connection ends the loop, whatever would have come. -/
theorem poll_unopened (addr2070 : UChar) (s : Loop) (status status' : Option Poll)
    (reopens reopens' : Bool) :
    loopStep addr2070 s (.poll false status reopens) =
      loopStep addr2070 s (.poll false status' reopens') ∧
      (loopStep addr2070 s (.poll false status reopens)).1.running = false := by
  unfold loopStep
  by_cases hrun : s.running = true
  · simp [hrun]
  · simp [hrun]

section Step

variable {others : Finset ℕ} {p : Process limit} {b : Budgeted} (h : ProcessRefines others p b)
  (addr2070 : UChar)

include h

/-- A command costs the connection that it opens. -/
theorem ProcessRefines.command (db : DbUrms) (addresses : List Address) (ret : Int) :
    (processStep addr2070 p (.command db addresses ret)).2 =
        (budgetedStep addr2070 b (.command db addresses ret)).2 ∧
      ProcessRefines others (processStep addr2070 p (.command db addresses ret)).1
        (budgetedStep addr2070 b (.command db addresses ret)).1 := by
  unfold processStep budgetedStep
  rw [← h.loop]
  by_cases hgate : GateOpen p.loop
  · obtain ⟨own, fd, hkeeps, hfd, hurmsfd, hcount⟩ := h.owns hgate.1
    by_cases hopens : .accepts ∈ addresses ∧ 0 < b.left
    · obtain ⟨fd', hfirst, hnew, hkeeps'⟩ :=
        openURMSConnection_opens hkeeps addresses hopens.1 (by omega)
      have hdecide : decide (0 ≤ (openURMSConnection addresses p.table).1) =
          decide (.accepts ∈ addresses ∧ 0 < b.left) := by
        rw [hfirst, decide_eq_true hopens]
        exact decide_eq_true (Int.natCast_nonneg fd')
      have hspent : GateOpen p.loop ∧ decide (.accepts ∈ addresses ∧ 0 < b.left) = true :=
        ⟨hgate, decide_eq_true hopens⟩
      have hcount' : others.card + (insert fd' own).card + (b.left - 1) = limit := by
        have hleft := hopens.2
        rw [Finset.card_insert_of_notMem hnew]
        omega
      simp only [if_pos hgate, hdecide, if_pos hspent]
      exact ⟨trivial, rfl, fun _ => ⟨_, fd', hkeeps', Finset.mem_insert_self _ _, hfirst,
        hcount'⟩⟩
    · have hfails := openURMSConnection_fails hkeeps addresses
        (fun hboth => hopens ⟨hboth.1, by omega⟩)
      have hdecide : decide (0 ≤ (openURMSConnection addresses p.table).1) =
          decide (.accepts ∈ addresses ∧ 0 < b.left) := by
        rw [hfails, decide_eq_false hopens]
        rfl
      simp only [if_pos hgate, hdecide, decide_eq_false hopens]
      exact ⟨trivial, processRefines_of_stopped rfl (command_unopened hgate addr2070 db ret)⟩
  · simp only [hgate, false_and, if_false]
    obtain ⟨hsame, hrunning⟩ := command_gated hgate addr2070 db false
      (decide (.accepts ∈ addresses ∧ 0 < b.left)) ret
    rw [← hsame]
    exact ⟨rfl, rfl, fun hrun => h.owns (hrunning.symm.trans hrun)⟩

/-- A poll gives back the connection that it takes. -/
theorem ProcessRefines.poll (addresses : List Address) (status : Option Poll)
    (again : List Address) :
    (processStep addr2070 p (.poll addresses status again)).2 =
        (budgetedStep addr2070 b (.poll addresses status again)).2 ∧
      ProcessRefines others (processStep addr2070 p (.poll addresses status again)).1
        (budgetedStep addr2070 b (.poll addresses status again)).1 := by
  unfold processStep budgetedStep
  rw [← h.loop]
  by_cases hrun : p.loop.running = true
  · obtain ⟨own, fd, hkeeps, hfd, hurmsfd, hcount⟩ := h.owns hrun
    simp only [if_pos hrun, hurmsfd]
    by_cases haccepts : .accepts ∈ addresses
    · obtain ⟨own', fd', hfirst, hfd', hcard, hkeeps'⟩ := reconnect_opens hkeeps hfd haccepts
      have hpos : ¬ (fd' : Int) < 0 := by omega
      simp only [hfirst, if_neg hpos, decide_eq_true haccepts]
      rw [← hcard] at hcount
      cases status with
      | some poll =>
          refine ⟨?_, ?_, fun _ => ⟨own', fd', hkeeps', hfd', rfl, hcount⟩⟩
          all_goals
            unfold loopStep
            rfl
      | none =>
          simp only [reconnect_decide hkeeps' hfd' again]
          refine ⟨trivial, rfl, fun hrunning => ?_⟩
          have haccepts' : .accepts ∈ again := by
            simpa [loopStep, hrun] using hrunning
          obtain ⟨own'', fd'', hsecond, hfd'', hcard', hkeeps''⟩ :=
            reconnect_opens hkeeps' hfd' haccepts'
          rw [← hcard'] at hcount
          exact ⟨own'', fd'', hkeeps'', hfd'', hsecond, hcount⟩
    · have hneg : (-1 : Int) < 0 := by decide
      simp only [reconnect_fails hkeeps hfd haccepts, if_pos hneg, decide_eq_false haccepts]
      obtain ⟨hsame, hstopped⟩ := poll_unopened addr2070 p.loop status status false
        (decide (.accepts ∈ again))
      rw [← hsame]
      exact ⟨rfl, processRefines_of_stopped rfl hstopped⟩
  · have hidle : loopStep addr2070 p.loop
        (.poll (.accepts ∈ addresses) status (.accepts ∈ again)) = (p.loop, []) := by
      unfold loopStep
      simp [hrun]
    simp only [if_neg hrun, hidle]
    exact ⟨trivial, processRefines_of_stopped rfl (Bool.eq_false_of_not_eq_true hrun)⟩

/-- A turn of the process is one of the loop with its budget. -/
theorem ProcessRefines.step (e : UrmsEvent) :
    ((urmsProcess limit addr2070).step p e).2 = ((budgetedLoop addr2070).step b e).2 ∧
      ProcessRefines others ((urmsProcess limit addr2070).step p e).1
        ((budgetedLoop addr2070).step b e).1 := by
  cases e with
  | command db addresses ret => exact h.command addr2070 db addresses ret
  | poll addresses status again => exact h.poll addr2070 addresses status again

end Step

/-! ## Runs -/

def UrmsEvent.isCommand : UrmsEvent → Bool
  | .command _ _ _ => true
  | .poll _ _ _ => false

/-- A command is sent on to the controller. -/
def Commands {State : Type} (m : Machine State UrmsEvent (List UChar)) (s : State)
    (e : UrmsEvent) : Prop :=
  e.isCommand = true ∧ (m.step s e).2 ≠ []

instance {State : Type} (m : Machine State UrmsEvent (List UChar)) (s : State)
    (e : UrmsEvent) : Decidable (Commands m s e) :=
  inferInstanceAs (Decidable (_ ∧ _ ≠ _))

/-- A command is sent on when the gate is open and a connection opens. -/
theorem command_sends_iff (addr2070 : UChar) (s : Loop) (db : DbUrms) (opens : Bool)
    (ret : Int) :
    (loopStep addr2070 s (.command db opens ret)).2 ≠ [] ↔ GateOpen s ∧ opens = true := by
  have hcases := command_cases addr2070 s db opens ret
  simp only [urmsLoop] at hcases
  rcases hcases with ⟨hrun, hstep⟩ | ⟨-, hclosed, hstep⟩ | ⟨-, -, -, hopens, hstep⟩ |
    ⟨hrun, hstartup, hruntime, hopens, hstep⟩
  · rw [hstep]
    simp [GateOpen, hrun]
  · rw [hstep]
    exact iff_of_false (by simp) fun hsends => hclosed hsends.1.2
  · rw [hstep]
    simp [hopens]
  · rw [hstep]
    exact iff_of_true (List.cons_ne_nil _ _) ⟨⟨hrun, hstartup, hruntime⟩, hopens⟩

/-- Each command that is sent on costs one connection. -/
theorem budgetedLoop_spends (addr2070 : UChar) (b : Budgeted) (e : UrmsEvent) :
    (if Commands (budgetedLoop addr2070) b e then 1 else 0) +
      ((budgetedLoop addr2070).step b e).1.left = b.left := by
  cases e with
  | poll addresses status again => simp [Commands, UrmsEvent.isCommand, budgetedLoop, budgetedStep]
  | command db addresses ret =>
      have hsends := command_sends_iff addr2070 b.loop db
        (decide (.accepts ∈ addresses ∧ 0 < b.left)) ret
      simp only [Commands, UrmsEvent.isCommand, budgetedLoop, budgetedStep, hsends, true_and]
      by_cases hspent :
          GateOpen b.loop ∧ decide (.accepts ∈ addresses ∧ 0 < b.left) = true
      · have hleft := (of_decide_eq_true hspent.2).2
        rw [if_pos hspent, if_pos hspent]
        omega
      · rw [if_neg hspent, if_neg hspent, Nat.zero_add]

/-- The loop at its start, with its connection open in a table that others use too. -/
def startProcess (noControlStartup : UChar) (table : Table limit) (urmsfd : ℕ) :
    Process limit where
  loop := startLoop noControlStartup
  table := table
  urmsfd := urmsfd

/-- The loop at its start, with all the connections that the table has room for. -/
def startBudget (noControlStartup : UChar) (table : Table limit) : Budgeted where
  loop := startLoop noControlStartup
  left := limit - table.opened.card

/-- **Every command costs a connection for good.**  In every run the process sends what the
loop with a budget sends, and has as many descriptors free as the budget has left: polls cost
nothing, each command that is sent on costs one, and when none is left the next one ends the
program. -/
theorem process_refines (addr2070 noControlStartup : UChar) {others : Finset ℕ} {urmsfd : ℕ}
    {table : Table limit} (hkeeps : Keeps table others {urmsfd}) (es : List UrmsEvent) :
    let p := startProcess noControlStartup table urmsfd
    let b := startBudget noControlStartup table
    (urmsProcess limit addr2070).outputs p es = (budgetedLoop addr2070).outputs b es ∧
      ProcessRefines others ((urmsProcess limit addr2070).run p es)
        ((budgetedLoop addr2070).run b es) ∧
      (urmsProcess limit addr2070).count (Commands (urmsProcess limit addr2070)) p es +
        ((budgetedLoop addr2070).run b es).left = limit - table.opened.card := by
  intro p b
  have hstart : ProcessRefines others p b := by
    refine ⟨rfl, fun _ => ⟨{urmsfd}, urmsfd, hkeeps, Finset.mem_singleton_self urmsfd, rfl, ?_⟩⟩
    have hle := table.card_le
    change _ + _ + (limit - table.opened.card) = limit
    rw [← hkeeps.card]
    omega
  have hstep := fun (p : Process limit) (b : Budgeted) (e : UrmsEvent)
    (h : ProcessRefines others p b) => h.step addr2070 e
  obtain ⟨houtputs, hend⟩ := Machine.simulates hstep hstart es
  have hcommands : ∀ p b e, ProcessRefines others p b →
      (Commands (urmsProcess limit addr2070) p e ↔ Commands (budgetedLoop addr2070) b e) := by
    intro p b e h
    rw [Commands, Commands, (hstep p b e h).1]
  have hcount : (urmsProcess limit addr2070).count (Commands (urmsProcess limit addr2070)) p es =
      (budgetedLoop addr2070).count (Commands (budgetedLoop addr2070)) b es :=
    Machine.count_eq (fun p b e h => (hstep p b e h).2) hcommands hstart es
  rw [hcount]
  exact ⟨houtputs, hend, Machine.count_add _ (budgetedLoop_spends addr2070) b es⟩

/-- The open descriptors are below the limit. -/
private theorem roomForOne_below : ∀ fd ∈ ({0, 1, 2, 3} : Finset ℕ), fd < 5 := by decide

/-- A table with the standard streams, the connection, and room for one more. -/
def roomForOne : Table 5 := ⟨{0, 1, 2, 3}, roomForOne_below⟩

/-- The standard streams and the connection are all that is open. -/
theorem roomForOne_keeps : Keeps roomForOne {0, 1, 2} {3} where
  opened := by decide
  disjoint := by decide

/-- A poll in the window and two commands: the second finds no connection left. -/
theorem process_refines_roomForOne :
    let p := startProcess 0 roomForOne 3
    let b := startBudget 0 roomForOne
    let es : List UrmsEvent :=
      [.poll [.accepts] (some ⟨1, 8⟩) [], .command fixedRate900 [.refuses, .accepts] 0,
        .command fixedRate900 [.accepts] 0]
    (urmsProcess 5 2).outputs p es = (budgetedLoop 2).outputs b es ∧
      ProcessRefines {0, 1, 2} ((urmsProcess 5 2).run p es) ((budgetedLoop 2).run b es) ∧
      (urmsProcess 5 2).count (Commands (urmsProcess 5 2)) p es + ((budgetedLoop 2).run b es).left =
        5 - roomForOne.opened.card :=
  process_refines 2 0 roomForOne_keeps _

end RfsAtsc
