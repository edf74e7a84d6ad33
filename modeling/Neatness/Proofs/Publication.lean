import Neatness.Proofs.Histories

/-!
# What the editor is shown

A handler rescans under the lock and sends what it has found afterwards, message by message.  While
it sends, other handlers may change the state, rescan and send messages of their own.

* `Exchange` is the server with its handlers in progress, the messages that have been sent and what
  the rescans have found.  `Exchange.run` lets the handlers take turns in any order, `step_cases`
  says what one turn can do, and `sent_serve` that a notification that is served on its own sends
  the messages of its response.
* `perm_statuses_waiting` says that no status is lost and none is made up, and `found_current` that
  the last rescan has found what the state now asks for.
* `filterMap_sent_run` follows messages of one kind to the end of a run: as long as only one of them
  waits to be sent, they arrive in order.
-/

namespace Neatness
namespace Server

/-! ## Handlers in progress -/

/-- A handler in progress: the messages that it has to send, and then the rescan that it owes. -/
structure Task where
  /-- What is to be sent next. -/
  messages : List Message
  /-- The rescan that comes when all this has been sent. -/
  rescan : Option Trigger
deriving DecidableEq

/-- The messages that a handler sends before its rescan. -/
def Handler.announces (s : State) : Handler → List Message
  | .didOpen _ _ => []
  | .didChange _ _ => []
  | .didClose uri => [.diagnostics uri []]
  | .didConfigure d editor =>
    match (s.didConfigure d editor).2 with
    | some e => [.log .warning ("Grade Guardian config not reloaded: " ++ e.message)]
    | none => []

/-- The server and its editor. -/
structure Exchange where
  state : State
  /-- The handlers, in the order in which they have started; some may be done. -/
  tasks : List Task := []
  /-- The messages that the editor has been sent. -/
  sent : List Message := []
  /-- What the rescans have found, the first one first. -/
  found : List Findings := []

/-- A turn. -/
inductive Turn where
  | start (h : Handler)
  /-- A handler sends its next message, or does the rescan that it owes. -/
  | proceed (i : Nat)

namespace Exchange

/-- One of the handlers proceeds; one that is done has nothing to do. -/
def proceed (e : Exchange) (i : Nat) : Task → Exchange
  | ⟨m :: messages, rescan⟩ =>
    { e with tasks := e.tasks.set i ⟨messages, rescan⟩, sent := e.sent ++ [m] }
  | ⟨[], some trigger⟩ =>
    { e with
      state := (e.state.rescan trigger).1
      tasks := e.tasks.set i ⟨(e.state.rescan trigger).2.messages, none⟩
      found := e.found ++ [(e.state.rescan trigger).2] }
  | ⟨[], none⟩ => e

/-- The exchange after a turn. -/
def step (e : Exchange) : Turn → Exchange
  | .start h =>
    { e with
      state := (h.enter e.state).1
      tasks := e.tasks ++ [⟨h.announces e.state, (h.enter e.state).2⟩] }
  | .proceed i =>
    match e.tasks[i]? with
    | some task => e.proceed i task
    | none => e

/-- The exchange after several turns, the first one first. -/
def run (e : Exchange) (turns : List Turn) : Exchange :=
  turns.foldl step e

/-- All handlers are done. -/
def Finished (e : Exchange) : Prop :=
  ∀ task ∈ e.tasks, task.messages = [] ∧ task.rescan = none

instance (e : Exchange) : Decidable e.Finished :=
  inferInstanceAs (Decidable (∀ task ∈ e.tasks, task.messages = [] ∧ task.rescan = none))

/-- The messages that wait to be sent. -/
def waiting (e : Exchange) : List Message :=
  e.tasks.flatMap (·.messages)

/-- The sections behind an exchange. -/
def traffic (e : Exchange) : Traffic :=
  ⟨e.state, e.tasks.filterMap (·.rescan)⟩

/-- The exchanges that a server comes to when it has loaded its configuration. -/
inductive Reached : Exchange → Prop where
  | start (atGreeting atLoading : Disk) (root : Option Uri) (editor : Option EditorSettings) :
      Reached ⟨(Traffic.started atGreeting atLoading root editor).state, [], [], []⟩
  | step {e : Exchange} (h : Reached e) (turn : Turn) : Reached (e.step turn)

theorem Reached.run {e : Exchange} (h : e.Reached) (turns : List Turn) : (e.run turns).Reached := by
  induction turns generalizing e with
  | nil => exact h
  | cons turn turns ih => exact ih (h.step turn)

theorem waiting_of_finished {e : Exchange} (h : e.Finished) : e.waiting = [] := by
  rw [waiting, List.flatMap_eq_nil_iff]
  exact fun task htask => (h task htask).1

theorem due_of_finished {e : Exchange} (h : e.Finished) : e.traffic.due = [] := by
  rw [traffic, List.filterMap_eq_nil_iff]
  exact fun task htask => (h task htask).2

/-! ## One turn -/

/-- The handlers before and behind one of them, which stay as they are when it proceeds. -/
theorem exists_tasks_split {e : Exchange} {i : Nat} {task : Task}
    (htask : e.tasks[i]? = some task) :
    ∃ front back, e.tasks = front ++ task :: back ∧
      ∀ next, e.tasks.set i next = front ++ next :: back := by
  obtain ⟨hi, hget⟩ := List.getElem?_eq_some_iff.1 htask
  refine ⟨e.tasks.take i, e.tasks.drop (i + 1), ?_, fun next => ?_⟩
  · rw [← hget, ← List.drop_eq_getElem_cons hi, List.take_append_drop]
  · exact List.set_eq_take_append_cons_drop.trans (if_pos hi)

/-- What a turn does: nothing, or a handler starts, or sends a message, or rescans. -/
theorem step_cases (e : Exchange) (turn : Turn) :
    e.step turn = e ∨
    (∃ h, turn = .start h) ∨
    (∃ front m messages rescan back, e.tasks = front ++ ⟨m :: messages, rescan⟩ :: back ∧
      e.step turn =
        { e with tasks := front ++ ⟨messages, rescan⟩ :: back, sent := e.sent ++ [m] }) ∨
    ∃ front trigger back, e.tasks = front ++ ⟨[], some trigger⟩ :: back ∧
      e.step turn =
        { e with
          state := (e.state.rescan trigger).1
          tasks := front ++ ⟨(e.state.rescan trigger).2.messages, none⟩ :: back
          found := e.found ++ [(e.state.rescan trigger).2] } := by
  cases turn with
  | start h => exact .inr (.inl ⟨h, rfl⟩)
  | proceed i =>
      rw [step]
      cases htask : e.tasks[i]? with
      | none => exact .inl rfl
      | some task =>
          obtain ⟨front, back, hsplit, hset⟩ := exists_tasks_split htask
          obtain ⟨_ | ⟨m, messages⟩, rescan⟩ := task
          · cases rescan with
            | none => exact .inl rfl
            | some trigger =>
                refine .inr (.inr (.inr ⟨front, trigger, back, hsplit, ?_⟩))
                rw [← hset]
                rfl
          · refine .inr (.inr (.inl ⟨front, m, messages, rescan, back, hsplit, ?_⟩))
            rw [← hset]
            rfl

/-- The turns of an exchange are sections of the server, with messages sent in between. -/
theorem traffic_step {e : Exchange} (h : e.traffic.Reached) (turn : Turn) :
    (e.step turn).traffic.Reached := by
  have hsection : ∀ x, (e.traffic.step x).Reached := by
    obtain ⟨atGreeting, atLoading, root, editor, sections, heq⟩ := h
    intro x
    refine ⟨atGreeting, atLoading, root, editor, sections ++ [x], ?_⟩
    rw [heq, Traffic.run, Traffic.run, List.foldl_append]
    rfl
  rcases e.step_cases turn with heq | ⟨handler, rfl⟩ |
    ⟨front, m, messages, rescan, back, htasks, heq⟩ | ⟨front, trigger, back, htasks, heq⟩
  · rw [heq]
    exact h
  · have hstart : (e.step (.start handler)).traffic = e.traffic.step (.enter handler) := by
      simp only [step, traffic, Traffic.step, List.filterMap_append]
      cases (handler.enter e.state).2 <;> rfl
    rw [hstart]
    exact hsection _
  · have hsame : (e.step turn).traffic = e.traffic := by
      rw [heq, traffic, traffic, htasks]
      simp [List.filterMap_append, List.filterMap_cons]
    rw [hsame]
    exact h
  · have hrescan : (e.step turn).traffic =
        e.traffic.step (.rescan (front.filterMap (·.rescan)).length) := by
      rw [heq]
      simp only [traffic, Traffic.step, htasks, List.filterMap_append, List.filterMap_cons]
      simp [List.eraseIdx_append_of_length_le]
    rw [hrescan]
    exact hsection _

theorem Reached.traffic {e : Exchange} (h : e.Reached) : e.traffic.Reached := by
  induction h with
  | start atGreeting atLoading root editor => exact ⟨atGreeting, atLoading, root, editor, [], rfl⟩
  | step h turn ih => exact traffic_step ih turn

theorem Reached.inStep {e : Exchange} (h : e.Reached) : e.state.InStep :=
  h.traffic.coherent.inStep

/-! ## A handler on its own -/

/-- A handler that owes no rescan sends its messages. -/
theorem run_messages (s : State) (messages sent : List Message) (found : List Findings) {n : Nat}
    (hn : messages.length ≤ n) :
    run ⟨s, [⟨messages, none⟩], sent, found⟩ (List.replicate n (.proceed 0)) =
      ⟨s, [⟨[], none⟩], sent ++ messages, found⟩ := by
  induction n generalizing messages sent with
  | zero =>
      obtain rfl := List.length_eq_zero_iff.1 (Nat.le_zero.1 hn)
      rw [List.append_nil]
      rfl
  | succ n ih =>
      cases messages with
      | nil => exact ih [] sent (Nat.zero_le n)
      | cons m messages =>
          have hrest := ih messages (sent ++ [m]) (Nat.le_of_succ_le_succ hn)
          rw [List.append_assoc, List.singleton_append] at hrest
          exact hrest

/-- A handler that owes a rescan sends its messages, rescans, and sends what it has found. -/
theorem run_rescan (s : State) (trigger : Trigger) (messages sent : List Message)
    (found : List Findings) {n : Nat}
    (hn : messages.length + 1 + (s.rescan trigger).2.messages.length ≤ n) :
    run ⟨s, [⟨messages, some trigger⟩], sent, found⟩ (List.replicate n (.proceed 0)) =
      ⟨(s.rescan trigger).1, [⟨[], none⟩], sent ++ (messages ++ (s.rescan trigger).2.messages),
        found ++ [(s.rescan trigger).2]⟩ := by
  induction n generalizing messages sent with
  | zero => omega
  | succ n ih =>
      cases messages with
      | nil =>
          have hfindings : (s.rescan trigger).2.messages.length ≤ n := by
            rw [List.length_nil] at hn
            omega
          exact run_messages _ _ _ _ hfindings
      | cons m messages =>
          rw [List.length_cons] at hn
          have hrest := ih messages (sent ++ [m]) (by omega)
          rw [List.append_assoc, List.singleton_append] at hrest
          exact hrest

end Exchange

theorem Findings.length_messages_le (f : Findings) : f.messages.length ≤ 2 := by
  obtain ⟨status, _ | ⟨uri, list⟩⟩ := f <;> simp [messages]

theorem Handler.length_announces_le (s : State) (h : Handler) : (h.announces s).length ≤ 1 := by
  cases h with
  | didOpen uri text => exact Nat.zero_le 1
  | didChange uri texts => exact Nat.zero_le 1
  | didClose uri => exact Nat.le_refl 1
  | didConfigure d editor =>
      rw [announces]
      split
      · exact Nat.le_refl 1
      · exact Nat.zero_le 1

/-- The response to a notification is what its handler says, and what the rescan finds. -/
theorem serve_eq_publish (s : State) (d : Disk) {request : Request} {h : Handler}
    (hrequest : request.handler? d = some h) :
    s.serve d request = (h.enter s).1.publish (h.enter s).2 (h.announces s) := by
  cases request with
  | hello root options => cases hrequest
  | ready => cases hrequest
  | execute command => cases hrequest
  | shutdown => cases hrequest
  | didOpen uri text =>
      obtain ⟨u, hu, rfl⟩ := Option.map_eq_some_iff.1 hrequest
      simp only [State.serve, State.about, hu]
      rfl
  | didChange uri texts =>
      obtain ⟨u, hu, rfl⟩ := Option.map_eq_some_iff.1 hrequest
      simp only [State.serve, State.about, hu]
      rfl
  | didClose uri =>
      obtain ⟨u, hu, rfl⟩ := Option.map_eq_some_iff.1 hrequest
      simp only [State.serve, State.about, hu]
      rfl
  | didConfigure settings =>
      obtain rfl := Option.some.inj hrequest
      rfl

/-- A notification that is served on its own sends the messages of its response and is done. -/
theorem sent_serve (s : State) (d : Disk) {request : Request} {h : Handler}
    (hrequest : request.handler? d = some h) :
    (Exchange.run ⟨s, [], [], []⟩ (.start h :: List.replicate 4 (.proceed 0))).Finished ∧
    (Exchange.run ⟨s, [], [], []⟩ (.start h :: List.replicate 4 (.proceed 0))).sent =
      (s.serve d request).2.messages := by
  have hannounces := h.length_announces_le s
  have hdone : ∀ (s : State) (sent : List Message) (found : List Findings),
      (⟨s, [⟨[], none⟩], sent, found⟩ : Exchange).Finished := by
    intro s sent found task htask
    obtain rfl := List.mem_singleton.1 htask
    exact ⟨rfl, rfl⟩
  have hstart : Exchange.run ⟨s, [], [], []⟩ (.start h :: List.replicate 4 (.proceed 0)) =
      Exchange.run ⟨(h.enter s).1, [⟨h.announces s, (h.enter s).2⟩], [], []⟩
        (List.replicate 4 (.proceed 0)) := rfl
  rw [serve_eq_publish s d hrequest, hstart]
  cases (h.enter s).2 with
  | none =>
      rw [Exchange.run_messages _ _ _ _ (by omega)]
      exact ⟨hdone _ _ _, rfl⟩
  | some trigger =>
      have hfindings := ((h.enter s).1.rescan trigger).2.length_messages_le
      rw [Exchange.run_rescan _ _ _ _ _ (by omega)]
      exact ⟨hdone _ _ _, rfl⟩

/-! ## What the rescans have found -/

/-- The status that a message shows. -/
def Message.status? : Message → Option StatusUpdate
  | .status update => some update
  | _ => none

/-- The diagnostics that a message shows for a document. -/
def Message.listFor? (uri : Uri) : Message → Option (List Diagnostic)
  | .diagnostics u list => if u = uri then some list else none
  | _ => none

/-- The diagnostics that a rescan has found for a document. -/
def Findings.listFor? (uri : Uri) (f : Findings) : Option (List Diagnostic) :=
  f.diagnostics.bind fun found => if found.1 = uri then some found.2 else none

theorem Findings.filterMap_status?_messages (f : Findings) :
    f.messages.filterMap Message.status? = [f.status] := by
  obtain ⟨status, _ | ⟨uri, list⟩⟩ := f <;> rfl

theorem Findings.filterMap_listFor?_messages (uri : Uri) (f : Findings) :
    f.messages.filterMap (Message.listFor? uri) = (f.listFor? uri).toList := by
  obtain ⟨status, _ | ⟨u, list⟩⟩ := f
  · rfl
  · by_cases hu : u = uri <;> simp [messages, Message.listFor?, listFor?, hu]

/-- What a handler says before its rescan is no status. -/
theorem Handler.filterMap_status?_announces (s : State) (h : Handler) :
    (h.announces s).filterMap Message.status? = [] := by
  cases h with
  | didOpen uri text => rfl
  | didChange uri texts => rfl
  | didClose uri => rfl
  | didConfigure d editor =>
      rw [announces]
      split <;> rfl

/-- Only a document that is not active is closed without a rescan. -/
theorem Handler.exists_close_of_no_rescan {s : State} {h : Handler}
    (hdue : (h.enter s).2 = none) :
    ∃ uri, h.announces s = [.diagnostics uri []] ∧ s.active ≠ some uri ∧
      (h.enter s).1.active = s.active := by
  cases h with
  | didOpen uri text => cases hdue
  | didChange uri texts => cases hdue
  | didConfigure d editor => cases hdue
  | didClose uri =>
      simp only [enter, State.didClose] at hdue ⊢
      by_cases hactive : s.active = some uri
      · simp [hactive] at hdue
      · exact ⟨uri, rfl, hactive, by rw [if_neg hactive]⟩

/-- A first section that leaves no rescan to do changes nothing that a rescan would find. -/
theorem State.findings_enter_of_no_rescan {s : State} (hstep : s.InStep) {h : Handler}
    (hdue : (h.enter s).2 = none) (trigger other : Trigger) :
    ((h.enter s).1.rescan trigger).2 = (s.rescan other).2 := by
  obtain ⟨hcontroller, hsettings⟩ := s.controller_enter h
  obtain ⟨hactive, htext⟩ := enter_of_no_rescan hdue
  obtain ⟨uri, -, -, hsame⟩ := Handler.exists_close_of_no_rescan hdue
  have hinStep : (h.enter s).1.InStep := by
    rw [InStep, hcontroller, hsettings]
    exact hstep
  rw [findings_rescan_eq hinStep, findings_rescan_eq hstep, settings_refresh_eq,
    settings_refresh_eq, hactive, hsettings, hsame, htext]

/-- A rescan that follows another one finds the same. -/
theorem State.findings_rescan_rescan {s : State} (hstep : s.InStep) (trigger other : Trigger) :
    ((s.rescan trigger).1.rescan other).2 = (s.rescan trigger).2 := by
  have hactive : (s.rescan trigger).1.activeSettings = s.activeSettings := by
    rw [state_rescan]
    exact activeSettings_refresh s
  have hsettings : (s.rescan trigger).1.settings = s.refresh.settings := by rw [state_rescan]
  have htext : (s.rescan trigger).1.activeText? = s.activeText? := by
    rw [state_rescan]
    exact activeText?_refresh s
  have hsame : (s.rescan trigger).1.active = s.active := by
    rw [state_rescan]
    exact active_refresh s
  rw [findings_rescan_eq (inStep_rescan hstep trigger), findings_rescan_eq hstep,
    settings_refresh_eq, hactive, hsettings, htext, hsame, settings_refresh_eq]
  cases s.activeSettings <;> rfl

namespace Exchange

/-- Every rescan's status is sent once, or waits to be sent. -/
theorem perm_statuses_waiting {e : Exchange} (h : e.Reached) :
    ((e.sent ++ e.waiting).filterMap Message.status?).Perm (e.found.map (·.status)) := by
  induction h with
  | start => exact .refl _
  | @step e h turn ih =>
      rcases e.step_cases turn with heq | ⟨handler, rfl⟩ |
        ⟨front, m, messages, rescan, back, htasks, heq⟩ | ⟨front, trigger, back, htasks, heq⟩
      · rw [heq]
        exact ih
      · have hwaiting : (e.step (.start handler)).waiting =
            e.waiting ++ handler.announces e.state := by
          simp [step, waiting]
        show ((e.sent ++ _).filterMap _).Perm (e.found.map _)
        rw [hwaiting, ← List.append_assoc, List.filterMap_append,
          handler.filterMap_status?_announces, List.append_nil]
        exact ih
      · rw [heq]
        refine List.Perm.trans (List.Perm.filterMap _ ?_) ih
        simp only [waiting, htasks, List.flatMap_append, List.flatMap_cons, List.append_assoc,
          List.cons_append, List.nil_append]
        exact List.perm_middle.symm.append_left e.sent
      · rw [heq]
        simp only [waiting, htasks, List.flatMap_append, List.flatMap_cons, List.nil_append,
          List.filterMap_append, Findings.filterMap_status?_messages, List.map_append,
          List.map_cons, List.map_nil] at ih ⊢
        rw [← List.append_assoc] at ih ⊢
        exact List.perm_middle.trans
          ((List.perm_append_singleton _ _).symm.trans (ih.append_right _))

/-- When no handler owes a rescan, another rescan would find what the last one has found. -/
theorem found_current {e : Exchange} (h : e.Reached) (hdue : e.traffic.due = []) {f : Findings}
    (hlast : e.found.getLast? = some f) (trigger : Trigger) : (e.state.rescan trigger).2 = f := by
  induction h generalizing f trigger with
  | start => cases hlast
  | @step e h turn ih =>
      rcases e.step_cases turn with heq | ⟨handler, rfl⟩ |
        ⟨front, m, messages, rescan, back, htasks, heq⟩ | ⟨front, other, back, htasks, heq⟩
      · rw [heq] at hdue hlast ⊢
        exact ih hdue hlast trigger
      · have hrescan : e.traffic.due = [] ∧ (handler.enter e.state).2 = none := by
          simpa [step, traffic, List.filterMap_append] using hdue
        exact (State.findings_enter_of_no_rescan h.inStep hrescan.2 trigger trigger).trans
          (ih hrescan.1 hlast trigger)
      · have hsame : e.traffic.due = [] := by
          rw [heq] at hdue
          simpa [traffic, htasks, List.filterMap_append, List.filterMap_cons] using hdue
        rw [heq] at hlast ⊢
        exact ih hsame hlast trigger
      · rw [heq] at hlast ⊢
        simp only [List.getLast?_append, List.getLast?_singleton, Option.some_or,
          Option.some.injEq] at hlast
        rw [← hlast]
        exact State.findings_rescan_rescan h.inStep other trigger

/-! ## The last rescan -/

/-- The rescans that have been done and those that are owed. -/
def rescans (e : Exchange) : Nat :=
  e.found.length + e.traffic.due.length

/-- No turn takes back a rescan, done or owed. -/
theorem rescans_step (e : Exchange) (turn : Turn) :
    e.found <+: (e.step turn).found ∧ e.rescans ≤ (e.step turn).rescans := by
  rcases e.step_cases turn with heq | ⟨handler, rfl⟩ |
    ⟨front, m, messages, rescan, back, htasks, heq⟩ | ⟨front, trigger, back, htasks, heq⟩
  · rw [heq]
    exact ⟨List.prefix_rfl, Nat.le_refl _⟩
  · refine ⟨List.prefix_rfl, ?_⟩
    simp [rescans, traffic, step, List.filterMap_append]
  · rw [heq]
    simp [rescans, traffic, htasks, List.filterMap_append, List.filterMap_cons]
  · rw [heq]
    refine ⟨List.prefix_append _ _, ?_⟩
    simp [rescans, traffic, htasks, List.filterMap_append]
    omega

theorem rescans_run (e : Exchange) (turns : List Turn) :
    e.found <+: (e.run turns).found ∧ e.rescans ≤ (e.run turns).rescans := by
  induction turns generalizing e with
  | nil => exact ⟨List.prefix_rfl, Nat.le_refl _⟩
  | cons turn turns ih =>
      obtain ⟨hfound, hrescans⟩ := e.rescans_step turn
      obtain ⟨hfoundLater, hrescansLater⟩ := ih (e.step turn)
      exact ⟨hfound.trans hfoundLater, Nat.le_trans hrescans hrescansLater⟩

/-- If the handlers finish without another rescan, none is owed. -/
theorem due_eq_nil_of_finishes {e : Exchange} {turns : List Turn} (hdone : (e.run turns).Finished)
    (hlast : (e.run turns).found = e.found) : e.traffic.due = [] := by
  have hmore := (e.rescans_run turns).2
  rw [rescans, rescans, due_of_finished hdone, hlast, List.length_nil] at hmore
  exact List.length_eq_zero_iff.1 (by omega)

section Kind

variable {β : Type} (kind : Message → Option β) {e : Exchange}
  (hone : (e.waiting.filterMap kind).length ≤ 1)
  (hclosed : ∀ uri, e.state.active ≠ some uri → kind (.diagnostics uri []) = none)

include hone hclosed in
/-- A turn without a rescan keeps messages of one kind in order, if only one of them waits to be
sent and what is said about documents that are closed meanwhile is of another kind. -/
theorem filterMap_step {turn : Turn} (hlast : (e.step turn).found = e.found)
    (hdue : (e.step turn).traffic.due = []) :
    (e.step turn).sent.filterMap kind ++ (e.step turn).waiting.filterMap kind =
        e.sent.filterMap kind ++ e.waiting.filterMap kind ∧
      ((e.step turn).waiting.filterMap kind).length ≤ 1 ∧
      (e.step turn).state.active = e.state.active := by
  rcases e.step_cases turn with heq | ⟨handler, rfl⟩ |
    ⟨front, m, messages, rescan, back, htasks, heq⟩ | ⟨front, trigger, back, htasks, heq⟩
  · rw [heq]
    exact ⟨rfl, hone, rfl⟩
  · -- The handler owes no rescan, so a document that is not active is closed.
    have hrescan : e.traffic.due = [] ∧ (handler.enter e.state).2 = none := by
      simpa [step, traffic, List.filterMap_append] using hdue
    obtain ⟨uri, hannounces, hother, hactive⟩ := Handler.exists_close_of_no_rescan hrescan.2
    have hwaiting : (e.step (.start handler)).waiting.filterMap kind =
        e.waiting.filterMap kind := by
      simp [step, waiting, hannounces, hclosed uri hother]
    rw [hwaiting]
    exact ⟨rfl, hone, hactive⟩
  · have hbefore : e.waiting.filterMap kind =
        (front.flatMap (·.messages)).filterMap kind ++ ((kind m).toList ++
          (messages ++ back.flatMap (·.messages)).filterMap kind) := by
      rw [waiting, htasks]
      cases hm : kind m <;> simp [List.filterMap_append, hm]
    have hafter : (e.step turn).waiting.filterMap kind =
        (front.flatMap (·.messages)).filterMap kind ++
          (messages ++ back.flatMap (·.messages)).filterMap kind := by
      rw [heq, waiting]
      simp [List.filterMap_append]
    have hsent : (e.step turn).sent.filterMap kind =
        e.sent.filterMap kind ++ (kind m).toList := by
      rw [heq]
      cases hm : kind m <;> simp [List.filterMap_append, hm]
    rw [hbefore, List.length_append, List.length_append] at hone
    rw [hsent, hafter, hbefore, List.length_append, List.append_assoc]
    refine ⟨?_, by omega, by rw [heq]⟩
    cases hm : kind m with
    | none => rfl
    | some b =>
        -- The message is the only one of its kind, so it overtakes none.
        rw [hm, Option.toList_some, List.length_singleton] at hone
        have hfront : (front.flatMap (·.messages)).filterMap kind = [] :=
          List.length_eq_zero_iff.1 (by omega)
        rw [hfront, List.nil_append, List.nil_append]
  · have hgrown := congrArg (fun e => List.length e.found) heq
    simp [hlast] at hgrown

include hone hclosed in
/-- So do all turns up to the end, if the handlers finish without another rescan. -/
theorem filterMap_sent_run {turns : List Turn} (hdone : (e.run turns).Finished)
    (hlast : (e.run turns).found = e.found) :
    (e.run turns).sent.filterMap kind = e.sent.filterMap kind ++ e.waiting.filterMap kind ∧
      (e.run turns).state.active = e.state.active := by
  induction turns generalizing e with
  | nil =>
      have hnone : e.waiting = [] := waiting_of_finished hdone
      rw [hnone, List.filterMap_nil, List.append_nil]
      exact ⟨rfl, rfl⟩
  | cons turn turns ih =>
      have hfirst := (e.rescans_step turn).1
      have hlater := ((e.step turn).rescans_run turns).1
      have hsame : (e.step turn).found = e.found :=
        (hfirst.eq_of_length (Nat.le_antisymm hfirst.length_le (hlast ▸ hlater.length_le))).symm
      have hend : ((e.step turn).run turns).found = (e.step turn).found := hlast.trans hsame.symm
      obtain ⟨hkept, hfew, hactive⟩ :=
        filterMap_step kind hone hclosed hsame (due_eq_nil_of_finishes hdone hend)
      obtain ⟨hsent, hstill⟩ := ih hfew (by rwa [hactive]) hdone hend
      exact ⟨hsent.trans hkept, hstill.trans hactive⟩

end Kind

/-! ## What is shown in the end -/

/-- The status that the editor shows. -/
def shownStatus? (e : Exchange) : Option StatusUpdate :=
  (e.sent.filterMap Message.status?).getLast?

/-- The diagnostics that the editor shows for a document. -/
def shownList? (e : Exchange) (uri : Uri) : Option (List Diagnostic) :=
  (e.sent.filterMap (Message.listFor? uri)).getLast?

/-- The editor shows the status that the last rescan has found. -/
def StatusIsLatest (e : Exchange) : Prop :=
  e.shownStatus? = e.found.getLast?.map (·.status)

/-- The editor shows the diagnostics that the last rescan of a document has found. -/
def ListIsLatest (e : Exchange) (uri : Uri) : Prop :=
  e.shownList? uri = (e.found.filterMap (·.listFor? uri)).getLast?

instance (e : Exchange) : Decidable e.StatusIsLatest :=
  inferInstanceAs (Decidable (_ = _))

instance (e : Exchange) (uri : Uri) : Decidable (e.ListIsLatest uri) :=
  inferInstanceAs (Decidable (_ = _))

/-- After a rescan while nothing waits to be sent, only what it has found waits. -/
theorem step_of_quiet {e : Exchange} {i : Nat} {trigger : Trigger}
    (htask : e.tasks[i]? = some ⟨[], some trigger⟩) (hquiet : e.waiting = []) :
    (e.step (.proceed i)).found = e.found ++ [(e.state.rescan trigger).2] ∧
      (e.step (.proceed i)).waiting = (e.state.rescan trigger).2.messages := by
  obtain ⟨front, back, hsplit, hset⟩ := exists_tasks_split htask
  have hstep : e.step (.proceed i) = e.proceed i ⟨[], some trigger⟩ := by rw [step, htask]
  rw [waiting, hsplit, List.flatMap_append, List.flatMap_cons, List.nil_append,
    List.append_eq_nil_iff] at hquiet
  rw [hstep]
  refine ⟨rfl, ?_⟩
  show List.flatMap _ (e.tasks.set i _) = _
  rw [hset, List.flatMap_append, List.flatMap_cons, hquiet.1, hquiet.2, List.nil_append,
    List.append_nil]

section Quiet

variable {e : Exchange} {i : Nat} {trigger : Trigger} {turns : List Turn}
  (htask : e.tasks[i]? = some ⟨[], some trigger⟩) (hquiet : e.waiting = [])
  (hdone : ((e.step (.proceed i)).run turns).Finished)
  (hlast : ((e.step (.proceed i)).run turns).found = e.found ++ [(e.state.rescan trigger).2])

include htask hquiet hdone hlast

/-- The status of a last rescan that is done while nothing waits to be sent is the last one that is
sent, and the active document stays the same. -/
theorem status_of_quiet :
    ((e.step (.proceed i)).run turns).StatusIsLatest ∧
      ((e.step (.proceed i)).run turns).state.active = (e.step (.proceed i)).state.active := by
  obtain ⟨hfound, hwaiting⟩ := step_of_quiet htask hquiet
  have hone : (e.step (.proceed i)).waiting.filterMap Message.status? =
      [(e.state.rescan trigger).2.status] := by
    rw [hwaiting, Findings.filterMap_status?_messages]
  have hshort : ((e.step (.proceed i)).waiting.filterMap Message.status?).length ≤ 1 := by
    rw [hone]
    exact Nat.le_refl 1
  obtain ⟨hsent, hactive⟩ := filterMap_sent_run Message.status? hshort (fun _ _ => rfl) hdone
    (hlast.trans hfound.symm)
  refine ⟨?_, hactive⟩
  rw [StatusIsLatest, shownStatus?, hsent, hone, hlast, List.getLast?_concat, List.getLast?_concat]
  rfl

/-- So are its diagnostics for the active document, if that has a text. -/
theorem list_of_quiet (h : e.Reached) {uri : Uri} {text : String}
    (hactive : ((e.step (.proceed i)).run turns).state.active = some uri)
    (htext : ((e.step (.proceed i)).run turns).state.textOf? uri = some text) :
    ((e.step (.proceed i)).run turns).ListIsLatest uri := by
  obtain ⟨hfound, hwaiting⟩ := step_of_quiet htask hquiet
  have hreached := (h.step (.proceed i)).run turns
  -- Another rescan would be about this document, and find what the last one has found.
  obtain ⟨list, hlist⟩ : ∃ list, (e.state.rescan trigger).2.listFor? uri = some list := by
    have hactiveText : ((e.step (.proceed i)).run turns).state.activeText? = some text := by
      rw [State.activeText?, hactive]
      exact htext
    have hcurrent := found_current hreached (due_of_finished hdone)
      (by rw [hlast, List.getLast?_concat]) trigger
    rw [State.findings_rescan_eq hreached.inStep, hactive, hactiveText] at hcurrent
    rw [← hcurrent]
    exact ⟨_, if_pos rfl⟩
  have hone : (e.step (.proceed i)).waiting.filterMap (Message.listFor? uri) = [list] := by
    rw [hwaiting, Findings.filterMap_listFor?_messages, hlist]
    rfl
  have hshort : ((e.step (.proceed i)).waiting.filterMap (Message.listFor? uri)).length ≤ 1 := by
    rw [hone]
    exact Nat.le_refl 1
  have hclosed : ∀ other, (e.step (.proceed i)).state.active ≠ some other →
      Message.listFor? uri (.diagnostics other []) = none := by
    intro other hother
    rw [← (status_of_quiet htask hquiet hdone hlast).2, hactive] at hother
    exact if_neg fun heq => hother (congrArg some heq.symm)
  obtain ⟨hsent, -⟩ := filterMap_sent_run (Message.listFor? uri) hshort hclosed hdone
    (hlast.trans hfound.symm)
  rw [ListIsLatest, shownList?, hsent, hone, List.getLast?_concat, hlast, List.filterMap_append,
    List.filterMap_cons_some hlist, List.filterMap_nil, List.getLast?_concat]

end Quiet

/-- What the editor is shown when all handlers are done.  Every status that a rescan has found was
sent once, and another rescan would find what the last one has found; but handlers may send in
another order than they have rescanned.  If nothing waits to be sent when the last rescan is done,
the editor shows the status that this rescan has found and, if the active document has a text, the
diagnostics that it has found for that document.  And a notification that is served on its own sends
the messages of its response. -/
theorem shown_of_quiet_last_rescan {e : Exchange} (h : e.Reached) :
    (e.Finished →
      (e.sent.filterMap Message.status?).Perm (e.found.map (·.status)) ∧
      ∀ f trigger, e.found.getLast? = some f → (e.state.rescan trigger).2 = f) ∧
    (∀ i trigger turns, e.tasks[i]? = some ⟨[], some trigger⟩ → e.waiting = [] →
      ((e.step (.proceed i)).run turns).Finished →
      ((e.step (.proceed i)).run turns).found = e.found ++ [(e.state.rescan trigger).2] →
      ((e.step (.proceed i)).run turns).StatusIsLatest ∧
      ∀ uri text, ((e.step (.proceed i)).run turns).state.active = some uri →
        ((e.step (.proceed i)).run turns).state.textOf? uri = some text →
        ((e.step (.proceed i)).run turns).ListIsLatest uri) ∧
    ∀ d request handler, Request.handler? d request = some handler →
      (run ⟨e.state, [], [], []⟩ (.start handler :: List.replicate 4 (.proceed 0))).Finished ∧
      (run ⟨e.state, [], [], []⟩ (.start handler :: List.replicate 4 (.proceed 0))).sent =
        (e.state.serve d request).2.messages := by
  refine ⟨fun hdone => ⟨?_, fun f trigger hlast => ?_⟩,
    fun i trigger turns htask hquiet hdone hlast => ⟨?_, fun uri text hactive htext => ?_⟩,
    fun d _ _ => sent_serve e.state d⟩
  · have hperm := perm_statuses_waiting h
    rwa [waiting_of_finished hdone, List.append_nil] at hperm
  · exact found_current h (due_of_finished hdone) hlast trigger
  · exact (status_of_quiet htask hquiet hdone hlast).1
  · exact list_of_quiet htask hquiet hdone hlast h hactive htext

/-- A server without a configuration. -/
def fresh : Exchange :=
  ⟨(Traffic.started { tree := {} } { tree := {} } none none).state, [], [], []⟩

/-- Two documents are opened at once; the first one is shown before the second one is rescanned. -/
def inTurn : Exchange :=
  fresh.run [.start (.didOpen (Traffic.page "a") "print(1)\n"),
    .start (.didOpen (Traffic.page "b") "x = 1\n"), .proceed 0, .proceed 0, .proceed 0]

/-- The rest of it: the second document is rescanned last, and meanwhile the first one is closed. -/
theorem shown_of_quiet_last_rescan_inTurn :
    inTurn.Reached ∧ inTurn.waiting = [] ∧
    ((inTurn.step (.proceed 1)).run [.start (.didClose (Traffic.page "a")), .proceed 1, .proceed 2,
      .proceed 1]).StatusIsLatest ∧
    ((inTurn.step (.proceed 1)).run [.start (.didClose (Traffic.page "a")), .proceed 1, .proceed 2,
      .proceed 1]).ListIsLatest (Traffic.page "b") := by
  have hreached : inTurn.Reached := (Reached.start _ _ none none).run _
  have hquiet : inTurn.waiting = [] := by decide +kernel
  obtain ⟨-, hshown, -⟩ := shown_of_quiet_last_rescan hreached
  obtain ⟨hstatus, hlist⟩ := hshown 1 .activeDocument
    [.start (.didClose (Traffic.page "a")), .proceed 1, .proceed 2, .proceed 1]
    (by decide +kernel) hquiet (by decide +kernel) (by decide +kernel)
  exact ⟨hreached, hquiet, hstatus, hlist _ "x = 1\n" (by decide +kernel) (by decide +kernel)⟩

/-- A document is opened and edited at once, and the handler of the edit is faster. -/
def overtaken : Exchange :=
  fresh.run [.start (.didOpen (Traffic.page "a") "print(1)\n"), .proceed 0,
    .start (.didChange (Traffic.page "a") ["x = 1\n"]), .proceed 1, .proceed 1, .proceed 1,
    .proceed 0, .proceed 0]

/-- A document is opened, closed, and then edited without a text, each on its own. -/
def closedPage : Exchange :=
  fresh.run [.start (.didOpen (Traffic.page "a") "print(1)\n"), .proceed 0, .proceed 0, .proceed 0,
    .start (.didClose (Traffic.page "a")), .proceed 1, .proceed 1, .proceed 1,
    .start (.didChange (Traffic.page "a") []), .proceed 2, .proceed 2]

/-- A handler that is overtaken between its rescan and its messages leaves the editor with an old
status and with old diagnostics of the active document.  And the diagnostics of a closed document
stay cleared when it is made the active one without a text. -/
theorem stale_status_shown :
    (overtaken.Reached ∧ overtaken.Finished ∧ ¬overtaken.StatusIsLatest ∧
      overtaken.state.active = some (Traffic.page "a") ∧
      ¬overtaken.ListIsLatest (Traffic.page "a")) ∧
    closedPage.Reached ∧ closedPage.Finished ∧
      closedPage.state.active = some (Traffic.page "a") ∧
      ¬closedPage.ListIsLatest (Traffic.page "a") := by
  refine ⟨⟨(Reached.start _ _ none none).run _, ?_⟩, (Reached.start _ _ none none).run _, ?_⟩
  · decide +kernel
  · decide +kernel

end Exchange
end Server
end Neatness
