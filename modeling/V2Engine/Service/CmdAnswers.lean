import V2Engine.Service.CmdActor

/-! Who gets which answer, and whose connection is closed with it. -/
namespace Service.CmdActor

open Text

/-- The command that asks for a reading of the PMU. -/
def IsStatus (cmd : Str) : Prop :=
  ∃ word rest, parse cmd = .ok (.pmu, word :: rest) ∧ word = "status".toList

/-- The responses for a connection that close it. -/
def closing (conn : ConnHandle) : List Output → List Output :=
  List.filter fun
    | .toIpcServer m _ => m.conn = conn ∧ m.closeOnSend
    | _ => false

/-- The connections from which the commands of some inputs came. -/
def requesters : List Input → List ConnHandle :=
  List.filterMap fun
    | .cmdRequest m _ => some m.conn
    | _ => none

/-- Every text goes to a connection for whose command it was made, and each connection that
gave a command is closed by one response. -/
structure Answered (inputs : List Input) (sent : List Output) : Prop where
  own : ∀ m madeFor, .toIpcServer m madeFor ∈ sent → m.conn ∈ madeFor
  once : ∀ conn ∈ requesters inputs, (closing conn sent).length = 1

/-- After each command that asks for a reading, the reading is the next thing that comes. -/
def ReadingNext (inputs : List Input) : Prop :=
  ∀ before m reply after, inputs = before ++ .cmdRequest m reply :: after → IsStatus m.cmd →
    ∃ body rest, after = .pmuDataUpdate body :: rest

section Handle

variable {m : CmdRequest} {reply : Handler → List Str → Str} {s : State} {conn : ConnHandle}

theorem dispatch_of_isStatus (h : IsStatus m.cmd) :
    dispatch m reply s = ("Reading...\n".toList, [.pmuDataSubscribe],
      { s with pmuStatusPending := true, waiting := m.conn :: s.waiting }) := by
  obtain ⟨word, rest, hParse, hWord⟩ := h
  rw [dispatch, hParse]
  exact if_pos hWord

/-- Any other command leaves the reading alone and sends nothing but its answer. -/
theorem dispatch_of_not_isStatus (reply : Handler → List Str → Str) (s : State) (h : ¬IsStatus m.cmd) :
    ∃ response, dispatch m reply s = (response, [], s) := by
  rw [dispatch]
  cases hParse : parse m.cmd with
  | error text => exact ⟨text, rfl⟩
  | ok parsed =>
      obtain ⟨handler, args⟩ := parsed
      cases handler with
      | pmu =>
          cases args with
          | nil => exact ⟨_, rfl⟩
          | cons cmd rest =>
              have hCmd : cmd ≠ "status".toList := fun hWord => h ⟨cmd, rest, hParse, hWord⟩
              exact ⟨_, if_neg hCmd⟩
      | actor => exact ⟨_, rfl⟩
      | wifi => exact ⟨_, rfl⟩
      | metrics => exact ⟨_, rfl⟩

theorem handleCmdRequest_of_isStatus (h : IsStatus m.cmd) :
    handleCmdRequest m reply s =
      ([.pmuDataSubscribe, .toIpcServer ⟨m.conn, "Reading...\n".toList, false⟩ [m.conn]],
        ⟨true, m.conn, m.conn :: s.waiting⟩) := by
  rw [handleCmdRequest, dispatch_of_isStatus h]
  rfl

theorem handleCmdRequest_of_not_isStatus (reply : Handler → List Str → Str) (s : State) (h : ¬IsStatus m.cmd) :
    ∃ response, handleCmdRequest m reply s =
      ([.toIpcServer ⟨m.conn, response, !s.pmuStatusPending⟩ [m.conn]],
        if s.pmuStatusPending then { s with pendingConn := m.conn } else s) := by
  obtain ⟨response, hDispatch⟩ := dispatch_of_not_isStatus reply s h
  refine ⟨response, ?_⟩
  rw [handleCmdRequest, hDispatch]
  cases hPending : s.pmuStatusPending with
  | false => simp [hPending]
  | true => simp [hPending]

/-- A command that finds a reading asked for never closes its connection, and takes the
reading over. -/
theorem handleCmdRequest_of_pending (m : CmdRequest) (reply : Handler → List Str → Str) (conn : ConnHandle)
    (hPending : s.pmuStatusPending = true) :
    closing conn (handleCmdRequest m reply s).1 = [] ∧
      (handleCmdRequest m reply s).2.pmuStatusPending = true ∧
        (handleCmdRequest m reply s).2.pendingConn = m.conn := by
  by_cases h : IsStatus m.cmd
  · rw [handleCmdRequest_of_isStatus h]
    simp [closing]
  · obtain ⟨response, hHandled⟩ := handleCmdRequest_of_not_isStatus reply s h
    rw [hHandled, if_pos hPending]
    simp [closing, hPending]

end Handle

section Runs

variable {inputs before after : List Input} {s : State} {conn : ConnHandle} {sent more : List Output}

/-- The state in which a run of messages leaves the actor. -/
def finalState (inputs : List Input) (s : State) : State :=
  inputs.foldl (fun s input => (handle input s).2) s

theorem outputs_append (before after : List Input) (s : State) :
    outputs (before ++ after) s = outputs before s ++ outputs after (finalState before s) := by
  induction before generalizing s with
  | nil => rfl
  | cons input before ih =>
      rw [List.cons_append, outputs, outputs, ih, List.append_assoc]
      rfl

theorem closing_append (sent more : List Output) :
    closing conn (sent ++ more) = closing conn sent ++ closing conn more := List.filter_append ..

theorem requesters_append (before after : List Input) :
    requesters (before ++ after) = requesters before ++ requesters after := List.filterMap_append

/-- Nobody else is closed: neither one that gives no command nor waits for the reading. -/
theorem closing_outputs_eq_nil (hNot : conn ∉ requesters inputs)
    (hPending : s.pmuStatusPending = true → s.pendingConn ≠ conn) :
    closing conn (outputs inputs s) = [] := by
  induction inputs generalizing s with
  | nil => rfl
  | cons input rest ih =>
      rw [outputs, closing_append]
      cases input with
      | cmdRequest m reply =>
          have hOther : m.conn ≠ conn := by
            rintro rfl
            exact hNot List.mem_cons_self
          have hRest : conn ∉ requesters rest := fun h => hNot (List.mem_cons_of_mem _ h)
          by_cases h : IsStatus m.cmd
          · rw [handle, handleCmdRequest_of_isStatus h, ih hRest fun _ => hOther]
            simp [closing]
          · obtain ⟨response, hHandled⟩ := handleCmdRequest_of_not_isStatus reply s h
            rw [handle, hHandled, ih hRest]
            · simp [closing, hOther]
            · split
              · exact fun _ => hOther
              · exact hPending
      | pmuDataUpdate body =>
          rw [handle, handlePmuDataUpdate]
          split
          · rw [ih hNot (by simp)]
            simp [closing, hPending (by assumption)]
          · rw [ih hNot hPending]
            rfl
      | reopen =>
          rw [handle, reopen]
          split
          · rw [ih hNot (by simp)]
            rfl
          · rw [ih hNot hPending]
            rfl

/-- A connection that asks for a reading is never closed unless the reading comes next. -/
theorem closing_of_status {m : CmdRequest} {reply : Handler → List Str → Str}
    (hNodup : (requesters (before ++ .cmdRequest m reply :: after)).Nodup) (hStatus : IsStatus m.cmd)
    (hNext : ∀ body rest, after ≠ .pmuDataUpdate body :: rest) (hIdle : s.pmuStatusPending = false) :
    closing m.conn (outputs (before ++ .cmdRequest m reply :: after) s) = [] := by
  have hSplit : (requesters before ++ m.conn :: requesters after).Nodup := by
    rw [requesters_append] at hNodup
    exact hNodup
  obtain ⟨_, hRest, hDisjoint⟩ := List.nodup_append.mp hSplit
  have hBefore : m.conn ∉ requesters before := fun h => hDisjoint _ h _ List.mem_cons_self rfl
  have hAfter : m.conn ∉ requesters after := (List.nodup_cons.mp hRest).1
  rw [outputs_append, outputs, closing_append, closing_append,
    closing_outputs_eq_nil hBefore (by simp [hIdle]), handle, handleCmdRequest_of_isStatus hStatus]
  cases after with
  | nil => simp [closing, outputs]
  | cons input rest =>
      rw [outputs, closing_append]
      cases input with
      | pmuDataUpdate body => exact absurd rfl (hNext body rest)
      | cmdRequest other reply' =>
          have hOther : other.conn ≠ m.conn := by
            rintro hSame
            exact hAfter (hSame ▸ List.mem_cons_self)
          have hLater : m.conn ∉ requesters rest := fun h => hAfter (List.mem_cons_of_mem _ h)
          have hPending : (⟨true, m.conn, m.conn :: (finalState before s).waiting⟩ : State).pmuStatusPending = true :=
            rfl
          obtain ⟨hNone, _, hConn⟩ := handleCmdRequest_of_pending other reply' m.conn hPending
          rw [handle, hNone, closing_outputs_eq_nil hLater]
          · simp [closing]
          · rw [hConn]
            exact fun _ => hOther
      | reopen =>
          have hLater : m.conn ∉ requesters rest := hAfter
          rw [handle, closing_outputs_eq_nil hLater (by simp [reopen])]
          simp [closing, reopen]

/-- Messages after which no reading is awaited can be looked at on their own. -/
theorem Answered.append (hNodup : (requesters (before ++ after)).Nodup) (hIdle : s.pmuStatusPending = false)
    (hLeft : (finalState before s).pmuStatusPending = false) (first : Answered before (outputs before s))
    (second : Answered after (outputs after (finalState before s))) :
    Answered (before ++ after) (outputs (before ++ after) s) := by
  rw [requesters_append] at hNodup
  obtain ⟨_, _, hDisjoint⟩ := List.nodup_append.mp hNodup
  rw [outputs_append]
  constructor
  · intro m madeFor hMem
    rcases List.mem_append.mp hMem with h | h
    · exact first.own m madeFor h
    · exact second.own m madeFor h
  · intro conn hMem
    rw [requesters_append] at hMem
    rw [closing_append]
    rcases List.mem_append.mp hMem with h | h
    · have hElsewhere : conn ∉ requesters after := fun h' => hDisjoint _ h _ h' rfl
      rw [closing_outputs_eq_nil hElsewhere (by simp [hLeft]), List.append_nil]
      exact first.once conn h
    · have hElsewhere : conn ∉ requesters before := fun h' => hDisjoint _ h' _ h rfl
      rw [closing_outputs_eq_nil hElsewhere (by simp [hIdle]), List.nil_append]
      exact second.once conn h

theorem answered_singleton_of_not_isStatus {m : CmdRequest} (reply : Handler → List Str → Str)
    (hStatus : ¬IsStatus m.cmd) (hIdle : s.pmuStatusPending = false) :
    Answered [.cmdRequest m reply] (outputs [.cmdRequest m reply] s) ∧
      finalState [.cmdRequest m reply] s = s := by
  obtain ⟨response, hHandled⟩ := handleCmdRequest_of_not_isStatus reply s hStatus
  rw [hIdle] at hHandled
  simp only [outputs, finalState, List.foldl_cons, List.foldl_nil, handle, hHandled]
  refine ⟨⟨?_, ?_⟩, rfl⟩
  · intro m' madeFor hMem
    cases List.mem_singleton.mp hMem
    exact List.mem_singleton_self _
  · intro conn hMem
    cases List.mem_singleton.mp hMem
    simp [closing]

theorem answered_pair_of_isStatus {m : CmdRequest} (reply : Handler → List Str → Str) (body : Str)
    (hStatus : IsStatus m.cmd) (hWaiting : s.waiting = []) :
    Answered [.cmdRequest m reply, .pmuDataUpdate body] (outputs [.cmdRequest m reply, .pmuDataUpdate body] s) ∧
      finalState [.cmdRequest m reply, .pmuDataUpdate body] s = ⟨false, m.conn, []⟩ := by
  simp only [outputs, finalState, List.foldl_cons, List.foldl_nil, handle, handleCmdRequest_of_isStatus hStatus,
    handlePmuDataUpdate, hWaiting]
  refine ⟨⟨?_, ?_⟩, rfl⟩
  · intro m' madeFor hMem
    simp at hMem
    rcases hMem with ⟨rfl, rfl⟩ | ⟨rfl, rfl⟩
    · exact List.mem_singleton_self _
    · exact List.mem_singleton_self _
  · intro conn hMem
    cases List.mem_singleton.mp hMem
    simp [closing]

theorem ReadingNext.of_append (hNext : ReadingNext (before ++ after)) : ReadingNext after := by
  intro front m reply rest hSplit hStatus
  exact hNext (before ++ front) m reply rest (by rw [hSplit, List.append_assoc]) hStatus

/-- Messages are answered in blocks: one that leaves no reading behind, or a command that asks
for a reading together with the reading. -/
theorem answered_of_readingNext (hNodup : (requesters inputs).Nodup) (hNext : ReadingNext inputs)
    (hIdle : s.pmuStatusPending = false) (hWaiting : s.waiting = []) : Answered inputs (outputs inputs s) := by
  induction hLength : inputs.length using Nat.strong_induction_on generalizing inputs s with
  | h n ih =>
      subst hLength
      -- a block at the front is answered, and what follows is shorter
      have hBlock : ∀ before after, inputs = before ++ after → before ≠ [] →
          Answered before (outputs before s) → (finalState before s).pmuStatusPending = false →
          (finalState before s).waiting = [] → Answered inputs (outputs inputs s) := by
        rintro before after rfl hNonempty hFirst hLeft hNone
        apply Answered.append hNodup hIdle hLeft hFirst
        apply ih after.length
        · rw [List.length_append]
          exact Nat.lt_add_of_pos_left (List.length_pos_iff.mpr hNonempty)
        · rw [requesters_append] at hNodup
          exact (List.nodup_append.mp hNodup).2.1
        · exact hNext.of_append
        · exact hLeft
        · exact hNone
        · rfl
      cases inputs with
      | nil => exact ⟨nofun, nofun⟩
      | cons input rest =>
          cases input with
          | pmuDataUpdate body =>
              have hSame : handle (.pmuDataUpdate body) s = ([], s) := by
                rw [handle, handlePmuDataUpdate, hIdle]
                rfl
              apply hBlock [.pmuDataUpdate body] rest rfl (List.cons_ne_nil _ _)
              · rw [outputs, hSame]
                exact ⟨nofun, nofun⟩
              · simpa [finalState, hSame] using hIdle
              · simpa [finalState, hSame] using hWaiting
          | reopen =>
              have hSame : handle .reopen s = ([], s) := by
                rw [handle, reopen, hIdle]
                rfl
              apply hBlock [.reopen] rest rfl (List.cons_ne_nil _ _)
              · rw [outputs, hSame]
                exact ⟨nofun, nofun⟩
              · simpa [finalState, hSame] using hIdle
              · simpa [finalState, hSame] using hWaiting
          | cmdRequest m reply =>
              by_cases hStatus : IsStatus m.cmd
              · obtain ⟨body, rest, rfl⟩ := hNext [] m reply rest rfl hStatus
                obtain ⟨hFirst, hFinal⟩ := answered_pair_of_isStatus reply body hStatus hWaiting
                exact hBlock [.cmdRequest m reply, .pmuDataUpdate body] rest rfl (List.cons_ne_nil _ _) hFirst
                  (by rw [hFinal]) (by rw [hFinal])
              · obtain ⟨hFirst, hFinal⟩ := answered_singleton_of_not_isStatus reply hStatus hIdle
                exact hBlock [.cmdRequest m reply] rest rfl (List.cons_ne_nil _ _) hFirst
                  (by rw [hFinal, hIdle]) (by rw [hFinal, hWaiting])

/-- Connections that give one command each are answered as they should be if and only if each
command that asks for a reading is followed at once by the reading. -/
theorem answered_iff (hNodup : (requesters inputs).Nodup) :
    Answered inputs (outputs inputs .initial) ↔ ReadingNext inputs := by
  constructor
  · rintro answered before m reply after rfl hStatus
    by_contra hNot
    have hNext : ∀ body rest, after ≠ .pmuDataUpdate body :: rest := fun body rest h => hNot ⟨body, rest, h⟩
    have hOnce := answered.once m.conn (by rw [requesters_append]; simp [requesters])
    rw [closing_of_status hNodup hStatus hNext rfl] at hOnce
    cases hOnce
  · intro hNext
    exact answered_of_readingNext hNodup hNext rfl rfl

end Runs

section Clients

theorem isStatus_pmuStatus : IsStatus "pmu status".toList := by
  have hName : "pmu status".toList.takeWhile (· ≠ ' ') = Handler.pmu.name := by decide +kernel
  have hFound : findHandler Handler.pmu.name = some .pmu := by decide +kernel
  have hDrop : "pmu status".toList.dropWhile (· ≠ ' ') = ' ' :: "status".toList := by decide +kernel
  have hArgs : splitArgs "status".toList = ["status".toList] := by
    rw [splitArgs_eq]
    decide +kernel
  refine ⟨"status".toList, [], ?_, rfl⟩
  rw [parse, hName, hFound, hDrop, ← hArgs]

/-- Two clients, each with its own reading. -/
def oneByOne : List Input :=
  [.cmdRequest ⟨5, "pmu status".toList⟩ fun _ _ => [], .pmuDataUpdate "ARM".toList,
    .cmdRequest ⟨6, "pmu status".toList⟩ fun _ _ => [], .pmuDataUpdate "ARM".toList]

theorem answered_oneByOne : Answered oneByOne (outputs oneByOne .initial) := by
  refine (answered_iff (by decide)).mpr fun before m reply after hSplit _ => ?_
  rcases before with _ | ⟨_, _ | ⟨_, _ | ⟨_, _ | ⟨_, before⟩⟩⟩⟩
  · cases hSplit
    exact ⟨_, _, rfl⟩
  · cases hSplit
  · cases hSplit
    exact ⟨_, _, rfl⟩
  · cases hSplit
  · simp [oneByOne] at hSplit

/-- The second client comes before the reading of the first. -/
def overlapping : List Input :=
  [.cmdRequest ⟨5, "pmu status".toList⟩ fun _ _ => [], .cmdRequest ⟨6, "pmu status".toList⟩ fun _ _ => [],
    .pmuDataUpdate "ARM".toList]

theorem not_answered_overlapping :
    (requesters overlapping).Nodup ∧ ¬Answered overlapping (outputs overlapping .initial) := by
  refine ⟨by decide, fun answered => ?_⟩
  have hOnce := answered.once 5 (by decide)
  have hNone : closing 5 (outputs ([] ++ overlapping) .initial) = [] :=
    closing_of_status (m := ⟨5, "pmu status".toList⟩) (by decide) isStatus_pmuStatus nofun rfl
  rw [List.nil_append] at hNone
  rw [hNone] at hOnce
  cases hOnce

end Clients

end Service.CmdActor
