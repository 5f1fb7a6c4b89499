import NonceSearch.Proofs.Backlog

/-!
# How often a result is pushed

The service of an interrupt leaves the status of the core as it is, and interrupts have no numbers. So
an interrupt that was raised for one search and is served after the next has ended reports the result
of that one, and the interrupt of the next reports it again. There is no other way to a second message:
each push uses an interrupt up, and a search raises only one. `Rig.debt` counts the interrupts that can
still be used up.
-/

namespace NonceSearch

namespace Rig

variable {config : CoreConfig} {rig next : Rig} {past events : List Event} {move : Move}

/-! ### Pushes and starts -/

def Event.pushed? : Event → Option CompletionMessage
  | .pushed message => some message
  | _ => none

def Event.started? : Event → Option Job
  | .started job => some job
  | _ => none

def pushes (past : List Event) : List CompletionMessage := past.filterMap Event.pushed?

def starts (past : List Event) : List Job := past.filterMap Event.started?

@[simp] theorem pushes_append (events past : List Event) :
    pushes (events ++ past) = pushes events ++ pushes past := List.filterMap_append

@[simp] theorem starts_append (events past : List Event) :
    starts (events ++ past) = starts events ++ starts past := List.filterMap_append

@[simp] theorem pushes_searchEvents (core next : Core) : pushes (searchEvents core next) = [] := by
  unfold searchEvents
  split
  · rfl
  · split <;> rfl
  · rfl

theorem mem_pushes {message : CompletionMessage} {past : List Event} :
    message ∈ pushes past ↔ .pushed message ∈ past := by
  simp only [pushes, List.mem_filterMap]
  constructor
  · rintro ⟨event, hevent, hpushed⟩
    cases event with
    | pushed other => exact Option.some.inj hpushed ▸ hevent
    | _ => exact absurd hpushed nofun
  · exact fun h => ⟨_, h, rfl⟩

theorem mem_starts {job : Job} {past : List Event} : job ∈ starts past ↔ .started job ∈ past := by
  simp only [starts, List.mem_filterMap]
  constructor
  · rintro ⟨event, hevent, hstarted⟩
    cases event with
    | started other => exact Option.some.inj hstarted ▸ hevent
    | _ => exact absurd hstarted nofun
  · exact fun h => ⟨_, h, rfl⟩

/-! ### Interrupts that can be used up -/

def serving (rig : Rig) : Bool :=
  match rig.lock with
  | some (.service _) => true
  | _ => false

/-- Interrupts that have been raised and whose service has not ended. -/
def unserved (rig : Rig) : Nat := rig.pending + rig.called.toNat + rig.serving.toNat

def debt (rig : Rig) : Nat := rig.unserved + rig.core.job.isSome.toNat

/-- Where a search ends its interrupt takes its place, and where one starts there is one more to
    come. -/
theorem due_le {core next : Core} (h : core.RaisesAtEnd next) :
    next.raised + next.job.isSome.toNat ≤
      core.raised + core.job.isSome.toNat + (starts (searchEvents core next)).length := by
  rcases h with hsame | ⟨hraised, hsearching, hended⟩
  · cases hjob : core.job with
    | some job =>
      have hbound := Bool.toNat_le next.job.isSome
      simp only [Option.isSome_some, Bool.toNat_true]
      omega
    | none =>
      cases hnext : next.job with
      | none => simp [hsame]
      | some job => simp [searchEvents, hjob, hnext, hsame, starts, Event.started?]
  · simp [hraised, hsearching, hended]

/-- Nothing but a spurious interrupt is raised before a search ends. -/
theorem act_raises (rig : Rig) (hmove : move ≠ .raiseSpurious) :
    rig.core.RaisesAtEnd (rig.act config move).core := by
  cases move with
  | raiseSpurious => exact absurd rfl hmove
  | release =>
    simp only [act]
    split <;> exact .inl rfl
  | request asked =>
    simp only [act, beginRequest]
    split <;> exact .inl rfl
  | proceed =>
    simp only [act, proceed]
    split
    · exact .inl rfl
    · exact Core.advance_raises _
    · exact .inl rfl
  | serve =>
    simp only [act, serve, answerCall]
    split
    · exact .inl rfl
    · exact Core.advance_raises _
    · split
      · split <;> exact .inl rfl
      · split <;> exact .inl rfl
  | search run =>
    simp only [act, search]
    split
    · split <;> exact .inl rfl
    · exact Core.commit_raises _ _ _
  | read room =>
    simp only [act]
    split <;> exact .inl rfl
  | _ => exact .inl rfl

/-- A push uses up an interrupt, and only the start of a search makes one more to come. -/
theorem debt_step (hstep : Step config rig move next events)
    (hraises : rig.core.RaisesAtEnd next.core) (hcounted : rig.taken ≤ rig.core.raised) :
    (pushes events).length + next.debt ≤
      rig.debt + (starts (searchEvents rig.core next.core)).length := by
  have hdue := due_le hraises
  have hraised : rig.core.raised ≤ next.core.raised := by
    rcases hraises with hsame | ⟨hmore, -⟩ <;> omega
  unfold debt unserved pending
  cases hstep with
  | elsewhere core lock queue taken called =>
    simp only [serving, core, lock, taken, called, searchEvents_self]
    exact Nat.le_of_eq (Nat.zero_add _)
  | begins held free granted => simp [serving, free, pushes]
  | accesses lock unfinished access =>
    have hpushed : (pushes []).length = 0 := rfl
    simp only [serving, lock] at hdue hraised ⊢
    omega
  | @returns asked reply lock =>
    have hnone : pushes (if asked = .reset then [.reset] else []) = [] := by split <;> rfl
    simp [serving, lock, hnone]
  | takes raised =>
    have hpushed : (pushes []).length = 0 := rfl
    simp only [serving, Bool.toNat_true]
    omega
  | answers called free => simp [serving, called, free, pushes]
  | inspects lock unfinished access =>
    have hpushed : (pushes []).length = 0 := rfl
    simp only [serving, lock] at hdue hraised ⊢
    omega
  | @reports report lock =>
    have hpushed : (pushes (report.toList.map .pushed)).length ≤ 1 := by
      cases report <;> simp [pushes, Event.pushed?]
    simp only [serving, lock, Bool.toNat_true, Bool.toNat_false]
    omega
  | @reads room message rest queue =>
    have hpushed : (pushes [.taken message]).length = 0 := rfl
    simp only [serving]
    omega
  | unlocked drifts change hashing =>
    have hpushed : (pushes []).length = 0 := rfl
    simp only [serving] at hdue hraised ⊢
    omega
  | stalls =>
    have hpushed : (pushes []).length = 0 := rfl
    simp only [serving] at hdue hraised ⊢
    omega

/-! ### From a start to the next reset -/

/-- What moves the core does nothing else. -/
theorem Step.core_or_events (hstep : Step config rig move next events) :
    next.core = rig.core ∨ events = [] := by
  cases hstep with
  | elsewhere core => exact .inl core
  | accesses => exact .inr rfl
  | inspects => exact .inr rfl
  | unlocked => exact .inr rfl
  | stalls => exact .inr rfl
  | _ => exact .inl rfl

/-- Where a search starts, nothing else happens, and none has been started since the last reset. -/
theorem Reached.start (h : Reached config rig past) {job : Job}
    (hstarted : .started job ∈ rig.events config move) :
    rig.events config move = [.started job] ∧ rig.core.job = none ∧
      (rig.act config move).core.job = some job ∧ searches past = [] := by
  have hstep := @act_step config rig move
  have hnext := (h.move move).sound.holding
  unfold events at hstarted hnext ⊢
  rcases hstep.core_or_events with hcore | hevents
  · rw [hcore, searchEvents_self, List.append_nil] at hstarted
    rcases rig.driverEvents_cases move with hnone | hreset | ⟨_, -, hpushed⟩ | ⟨_, htaken⟩
    · simp [hnone] at hstarted
    · simp [hreset] at hstarted
    · simp [hpushed] at hstarted
    · simp [htaken] at hstarted
  · rw [hevents, List.nil_append] at hstarted hnext ⊢
    have hsearch : searchEvents rig.core (rig.act config move).core = [.started job] ∧
        rig.core.job = none ∧ (rig.act config move).core.job = some job := by
      rcases searchEvents_cases rig.core (rig.act config move).core with hnone
        | ⟨other, hcore, hnext, hother⟩ | hlatched
      · simp [hnone] at hstarted
      · obtain rfl : job = other := by simpa [hother] using hstarted
        exact ⟨hother, hcore, hnext⟩
      · simp [hlatched] at hstarted
    obtain ⟨hevents, hidle, hsearching⟩ := hsearch
    refine ⟨hevents, hidle, hsearching, ?_⟩
    rw [hevents, List.singleton_append, searches_started] at hnext
    have hepoch : Epoch (rig.act config move).core (.started job :: searches past) := by
      generalize Event.started job :: searches past = history at hnext
      generalize (rig.act config move).lock = lock at hnext
      cases hnext with
      | reset hjob => simp [hjob] at hsearching
      | _ => assumption
    generalize searches past = history at hepoch
    cases hepoch with
    | searching => rfl
    | broken => rfl

/-- Where a reset returns, nothing else happens. -/
theorem events_of_reset (hreset : .reset ∈ rig.events config move) :
    rig.events config move = [.reset] := by
  have hsearch : .reset ∉ searchEvents rig.core (rig.act config move).core := by
    rcases searchEvents_cases rig.core (rig.act config move).core with hnone | ⟨_, -, -, hstarted⟩
      | hlatched
    · simp [hnone]
    · simp [hstarted]
    · simp [hlatched]
  have hdriver := (List.mem_append.mp hreset).resolve_right hsearch
  have hstep := @act_step config rig move
  have hsingle : rig.driverEvents move = [.reset] := by
    rcases rig.driverEvents_cases move with hnone | hreset | ⟨_, -, hpushed⟩ | ⟨_, htaken⟩
    · simp [hnone] at hdriver
    · exact hreset
    · simp [hpushed] at hdriver
    · simp [htaken] at hdriver
  unfold events
  rcases hstep.core_or_events with hcore | hevents
  · rw [hcore, searchEvents_self, hsingle, List.append_nil]
  · rw [hsingle] at hevents
    exact absurd hevents (List.cons_ne_nil _ _)

def sinceReset (past : List Event) : List Event := past.takeWhile (· != .reset)

theorem sinceReset_append (hreset : .reset ∉ events) :
    sinceReset (events ++ past) = events ++ sinceReset past := by
  refine List.takeWhile_append_of_pos fun event hevent => ?_
  simp only [bne_iff_ne, ne_eq]
  rintro rfl
  exact hreset hevent

theorem searches_append (hreset : .reset ∉ events) :
    searches (events ++ past) = events.filter Event.isSearch ++ searches past := by
  rw [searches, ← sinceReset, sinceReset_append hreset, List.filter_append]
  rfl

/-- Whatever has been pushed since the last reset is what the search since then has brought out. -/
theorem Reached.pushed (h : Reached config rig past) {message : CompletionMessage}
    (hmessage : message ∈ pushes (sinceReset past)) :
    ∃ started, searches past = [.latched message, .started started] := by
  induction h with
  | bound => exact absurd hmessage List.not_mem_nil
  | @move rig past move hreached ih =>
    by_cases hreset : .reset ∈ rig.events config move
    · rw [events_of_reset hreset] at hmessage
      exact absurd hmessage List.not_mem_nil
    · have hresult : ∃ started, searches past = [.latched message, .started started] := by
        rw [sinceReset_append hreset, pushes_append, List.mem_append] at hmessage
        rcases hmessage with hnew | hold
        · have hdriver : .pushed message ∈ rig.driverEvents move := by
            rw [events, pushes_append, pushes_searchEvents, List.append_nil] at hnew
            exact mem_pushes.mp hnew
          have hlock : rig.lock = some (.service (.done (some message))) := by
            rcases rig.driverEvents_cases move with hnone | hreset | ⟨other, hlock, hpushed⟩
              | ⟨_, htaken⟩
            · simp [hnone] at hdriver
            · simp [hreset] at hdriver
            · obtain rfl : message = other := by simpa [hpushed] using hdriver
              exact hlock
            · simp [htaken] at hdriver
          have hholding := hreached.sound.holding
          rw [hlock] at hholding
          exact hholding.report
        · exact ih hold
      -- A history as long as that is not made longer.
      obtain ⟨started, hsearches⟩ := hresult
      have hnext := (hreached.move move).sound.holding
      rw [searches_append hreset] at hnext ⊢
      rw [hnext.closed (by rw [hsearches]; rfl)]
      exact ⟨started, hsearches⟩

/-- Moves, and what happens with them. -/
theorem follow_append (moves : List Move) (rig : Rig) (past : List Event) :
    follow config moves rig past =
      ((follow config moves rig []).1, (follow config moves rig []).2 ++ past) := by
  induction moves generalizing rig past with
  | nil => rfl
  | cons move moves ih =>
    unfold follow
    rw [ih, ih _ (rig.events config move ++ [])]
    simp

theorem follow_moves_append (moves more : List Move) (rig : Rig) (past : List Event) :
    follow config (moves ++ more) rig past =
      follow config more (follow config moves rig past).1 (follow config moves rig past).2 := by
  induction moves generalizing rig past with
  | nil => rfl
  | cons move moves ih => exact ih _ _

/-- As long as no reset returns, a rig in which a search has been started pushes no more messages than
    there are interrupts to be used up. -/
theorem Reached.pushes_le (h : Reached config rig past) (hsearch : searches past ≠ [])
    {moves : List Move} (hspurious : .raiseSpurious ∉ moves)
    (hreset : .reset ∉ (Rig.follow config moves rig []).2) :
    (pushes (Rig.follow config moves rig []).2).length + (Rig.follow config moves rig []).1.debt ≤
      rig.debt := by
  induction moves generalizing rig past with
  | nil => exact Nat.le_of_eq (Nat.zero_add _)
  | cons move moves ih =>
    rw [Rig.follow, follow_append, List.append_nil] at hreset ⊢
    rw [List.mem_append, not_or] at hreset
    rw [List.mem_cons, not_or] at hspurious
    have hstarts : starts (searchEvents rig.core (rig.act config move).core) = [] := by
      refine List.eq_nil_iff_forall_not_mem.mpr fun job hjob => hsearch ?_
      obtain ⟨-, -, -, hnone⟩ := h.start (List.mem_append_right _ (mem_starts.mp hjob))
      exact hnone
    have hfirst := debt_step (@act_step config rig move)
      (rig.act_raises fun h => hspurious.1 h.symm) h.attended.counted
    have hsearch' : searches (rig.events config move ++ past) ≠ [] := by
      rw [searches_append hreset.2]
      exact List.append_ne_nil_of_right_ne_nil _ hsearch
    have hrest := ih (h.move move) hsearch' hspurious.2 hreset.1
    rw [hstarts, List.length_nil] at hfirst
    rw [events, pushes_append, pushes_append, pushes_searchEvents, List.append_nil,
      List.length_append]
    dsimp only
    omega

/-- **Results are pushed once per interrupt.** Between the start of a search and the next reset there are
    no more messages than the interrupts that were unserved at the start, and one; and all of them
    are the result of this search. -/
theorem results_are_pushed_once_per_interrupt (h : Reached config rig past) {start : Move} {job : Job}
    (hstart : .started job ∈ rig.events config start) {moves : List Move}
    (hspurious : .raiseSpurious ∉ moves) {since : List Event}
    (hsince : (follow config moves (rig.act config start) []).2 = since)
    (hreset : .reset ∉ since) :
    ∃ count message, pushes since = List.replicate count message ∧ count ≤ 1 + rig.unserved ∧
      (0 < count → .latched message ∈ since) := by
  obtain ⟨hevents, hidle, -, hnone⟩ := h.start hstart
  have hstarted := h.move start
  have hsearches : searches (rig.events config start ++ past) = [.started job] := by
    rw [hevents, List.singleton_append, searches_started, hnone]
  -- the search adds one interrupt to those that were unserved, and every push uses one up
  have hcount : (pushes since).length ≤ 1 + rig.unserved := by
    have hmove : start ≠ .raiseSpurious := by
      rintro rfl
      simp [events, driverEvents, searchEvents, act, Core.raiseSpurious, hidle] at hstart
    have hone : (starts (searchEvents rig.core (rig.act config start).core)).length ≤ 1 := by
      have hsublist := List.length_filterMap_le Event.started?
        (searchEvents rig.core (rig.act config start).core)
      have hsingle := congrArg List.length hevents
      rw [events, List.length_append, List.length_singleton] at hsingle
      unfold starts
      omega
    have hrun := hstarted.pushes_le (by rw [hsearches]; simp) hspurious (by rw [hsince]; exact hreset)
    have hstep := debt_step (@act_step config rig start) (rig.act_raises hmove) h.attended.counted
    have hdebt : rig.debt = rig.unserved := by simp [debt, hidle]
    rw [hsince] at hrun
    omega
  -- what is pushed belongs to the one search since the last reset, and this is it
  have hresult : ∀ message ∈ pushes since, .latched message ∈ since ∧ ∃ started,
      searches (since ++ (rig.events config start ++ past)) =
        [.latched message, .started started] := by
    intro message hmessage
    have hlast := hstarted.follow moves
    rw [follow_append, hsince] at hlast
    have hsinceReset : message ∈
        pushes (sinceReset (since ++ (rig.events config start ++ past))) := by
      rw [sinceReset_append hreset, pushes_append]
      exact List.mem_append_left _ hmessage
    obtain ⟨started, hboth⟩ := hlast.pushed hsinceReset
    refine ⟨?_, started, hboth⟩
    rw [searches_append hreset, hsearches] at hboth
    have hmember : .latched message ∈ since.filter Event.isSearch ++ [.started job] := by
      rw [hboth]
      exact List.mem_cons_self
    simpa [Event.isSearch] using hmember
  cases hpushes : pushes since with
  | nil => exact ⟨0, ⟨0, 0⟩, rfl, Nat.zero_le _, fun hnone => absurd hnone (Nat.lt_irrefl 0)⟩
  | cons message rest =>
    rw [hpushes] at hcount hresult
    obtain ⟨hlatched, _, hfirst⟩ := hresult message List.mem_cons_self
    refine ⟨_, message, List.eq_replicate_iff.mpr ⟨rfl, fun other hother => ?_⟩, hcount, fun _ => hlatched⟩
    obtain ⟨-, _, hsecond⟩ := hresult other hother
    rw [hfirst] at hsecond
    simpa using (And.left (List.cons.inj hsecond)).symm

/-! The first search finds a nonce, and its interrupt stays on the line until the second search has
ended. -/

def untilSecondStart : List Move :=
  [.acquire, .request .reset, .proceed, .proceed, .request .start, .proceed, .proceed,
    .search 1, .search 1, .request .reset, .proceed, .proceed,
    .request (.setLeadingZeros 255), .proceed, .proceed, .request .start]

def fromSecondStart : List Move :=
  [.proceed, .search 2, .search 2, .serve, .serve, .serve, .serve, .serve, .serve,
    .serve, .serve, .serve, .serve, .serve, .serve]

def overdueService : Rig × List Event := follow singleNonce untilSecondStart {} []

def bothServices : Rig × List Event :=
  follow singleNonce fromSecondStart (overdueService.1.act singleNonce .proceed) []

def unreachableJob : Job :=
  { midstate := .zero 32, tail := .zero 12, mask := (DifficultyMask.ofLeadingZeros 255).bytes, next := 0 }

theorem overdueService_start :
    overdueService.1.events singleNonce .proceed = [.started unreachableJob] ∧
      overdueService.1.unserved = 1 := by decide +kernel

theorem bothServices_events :
    bothServices.2 = [.pushed ⟨0x20, 0⟩, .pushed ⟨0x20, 0⟩, .latched ⟨0x20, 0⟩] := by decide +kernel

theorem overdue_service_repeats_the_result :
    Reached singleNonce overdueService.1 overdueService.2 ∧
      .started unreachableJob ∈ overdueService.1.events singleNonce .proceed ∧
      .reset ∉ bothServices.2 ∧ overdueService.1.unserved = 1 ∧
      ∃ message, pushes bothServices.2 = [message, message] ∧ .latched message ∈ bothServices.2 := by
  have hreached : Reached singleNonce overdueService.1 overdueService.2 := Reached.bound.follow _
  have hstart : .started unreachableJob ∈ overdueService.1.events singleNonce .proceed := by
    rw [overdueService_start.1]
    exact List.mem_cons_self
  have hspurious : .raiseSpurious ∉ fromSecondStart := by decide
  have hreset : .reset ∉ bothServices.2 := by
    rw [bothServices_events]
    decide
  have hsince : (follow singleNonce fromSecondStart
      (overdueService.1.act singleNonce .proceed) []).2 = bothServices.2 := rfl
  obtain ⟨count, message, hpushes, -, hlatched⟩ :=
    results_are_pushed_once_per_interrupt hreached hstart hspurious hsince hreset
  obtain rfl : count = 2 := by
    have hreplicate := congrArg List.length hpushes
    rw [List.length_replicate, bothServices_events] at hreplicate
    exact hreplicate.symm
  exact ⟨hreached, hstart, hreset, overdueService_start.2, message, hpushes, hlatched (by decide)⟩

theorem result_may_be_pushed_twice : ¬ ∀ (config : CoreConfig) (moves : List Move) (job : Job)
    (newer older : List Event), .raiseSpurious ∉ moves →
      (follow config moves {} []).2 = newer ++ .started job :: older → .reset ∉ newer →
      (pushes newer).length ≤ 1 := by
  intro h
  have hsplit : (follow singleNonce (untilSecondStart ++ .proceed :: fromSecondStart) {} []).2 =
      bothServices.2 ++ .started unreachableJob :: overdueService.2 := by
    rw [follow_moves_append, follow, ← overdueService, follow_append, overdueService_start.1]
    rfl
  have honce := h _ _ _ _ _ (by decide) hsplit
  rw [bothServices_events] at honce
  exact absurd (honce (by decide)) (by decide)

end Rig

end NonceSearch
