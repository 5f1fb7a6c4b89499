import NonceSearch.Proofs.ScanSteps

/-!
# The order of a scan's requests

Every scan that gets its device open issues a beginning of one and the same program, reads the search
counter and gives the device back, whichever of its many ways it ends (`ScanTask.Stands.begins`). It
breaks the program off after the first failure, and it loads parameters only after the device has
shown READY. When a call is to blame for a fault, then the device has failed it: a session never
refuses what its scan asks.
-/

namespace NonceSearch

/-! ### What a device sees of a scan -/

namespace Operation

def requests (course : List Operation) : List Request :=
  course.filterMap fun
    | .asked request _ => some request
    | _ => none

@[simp] theorem requests_append (course more : List Operation) :
    requests (course ++ more) = requests course ++ requests more :=
  List.filterMap_append

/-- A status reply with READY set, and nothing else that has a meaning. -/
def ShowsReady : Operation → Prop
  | .asked .getStatus (.ok (.word bits)) => (Status.mk bits).isReady = true
  | _ => False

def IsUse : Operation → Prop
  | .opened _ | .closed => False
  | _ => True

end Operation

open Operation (requests)

/-- A scan drives its device from the opening until the outcome is settled. -/
def ScanPhase.IsDriving : ScanPhase → Prop
  | .opening | .calling (.counter _) | .closing _ | .ended _ => False
  | _ => True

namespace ScanTask

section Program

variable (task : ScanTask)

def settingUp : List Request := task.config.clockSpeed.toList.map .setClockSpeed ++ [.reset]

def loading : List Request :=
  [.setStateIn task.work.midstate, .setTail task.work.tail,
    (task.layout.difficulty task.work.mask).request, .start]

/-- All that a scan may ask before it is settled: set up, see whether the device is ready, load and
    start, see whether the search goes on. -/
def program (polls ticks : Nat) : List Request :=
  task.settingUp ++ List.replicate (polls + 1) .getStatus ++ task.loading ++
    List.replicate ticks .getStatus

/-- How much of the program has been answered in a phase that belongs to it. -/
def answered (polls ticks : Nat) : ScanPhase → Option (List Request)
  | .calling (.clock mhz) => if task.config.clockSpeed = some mhz then some [] else none
  | .calling .reset => some (task.config.clockSpeed.toList.map .setClockSpeed)
  | .calling (.poll _) | .pausing _ => some (task.settingUp ++ List.replicate polls .getStatus)
  | .calling .stateIn => some (task.settingUp ++ List.replicate (polls + 1) .getStatus)
  | .calling .tail =>
    some (task.settingUp ++ List.replicate (polls + 1) .getStatus ++ task.loading.take 1)
  | .calling .difficulty =>
    some (task.settingUp ++ List.replicate (polls + 1) .getStatus ++ task.loading.take 2)
  | .calling .start =>
    some (task.settingUp ++ List.replicate (polls + 1) .getStatus ++ task.loading.take 3)
  | .calling .tick | .waiting _ | .reading _ | .sensing => some (task.program polls ticks)
  | _ => none

/-- Whether the device has been ready by then. -/
def IsLoaded : ScanPhase → Prop
  | .calling .stateIn | .calling .tail | .calling .difficulty | .calling .start | .calling .tick
  | .waiting _ | .reading _ | .sensing => True
  | _ => False

/-- The states that have been published since the opening. -/
def published : ScanPhase → List ScanState
  | .calling .stateIn | .calling .tail | .calling .difficulty | .calling .start => [.ready]
  | .calling .tick | .waiting _ | .reading _ | .sensing => [.ready, .running]
  | _ => []

/-- What has been done with an open device keeps to the rules: parameters are loaded, and the search is
    started, only after a status that shows READY. -/
structure Orders (course : List Operation) : Prop where
  uses : ∀ operation ∈ course, operation.IsUse
  ready : ∀ before request reply, before ++ [.asked request reply] <+: course →
    request ∈ task.loading → ∃ earlier ∈ before, earlier.ShowsReady

/-- All that is done with an open device until the outcome is settled. -/
structure Transcript (course : List Operation) : Prop extends task.Orders course where
  requests : ∃ polls ticks, requests course <+: task.program polls ticks
  /-- A failure is the last thing that happens. -/
  failure : course.Pairwise fun earlier _ => earlier.failure? = none

/-- An outcome that blames a call, a wait or a read goes back to a failure of the device. -/
def Blames (course : List Operation) (outcome : ScanOutcome) : Prop :=
  ∀ reason, outcome = .faulted (.protocol reason) →
    ∃ operation cause, course.getLast? = some operation ∧ operation.failure? = some cause ∧
      reason = cause.message

/-- What has been done in a phase that belongs to the program. -/
structure Driving (phase : ScanPhase) (course : List Operation) : Prop extends task.Orders course where
  answered : ∃ polls ticks, task.answered polls ticks phase = some (requests course)
  sound : ∀ operation ∈ course, operation.failure? = none
  shown : IsLoaded phase → ∃ operation ∈ course, operation.ShowsReady

end Program

variable {task : ScanTask} {cancelled : Bool} {phase next : ScanPhase} {operation : Option Operation}
  {news states : List ScanState} {course : List Operation}

/-! ### The program -/

/-- What has been answered is the beginning of a program. -/
theorem answered_isPrefix {polls ticks : Nat} {done : List Request}
    (h : task.answered polls ticks phase = some done) : done <+: task.program polls ticks := by
  unfold answered at h
  split at h
  · split at h
    · simp only [Option.some.injEq] at h
      subst h
      exact List.nil_prefix
    · exact absurd h nofun
  case h_13 => exact absurd h nofun
  all_goals
    simp only [Option.some.injEq] at h
    subst h
    simp [program, settingUp, loading, List.replicate_succ', List.append_assoc]

/-- The next call is the next request of a program. -/
theorem request_isPrefix {polls ticks : Nat} {call : ScanCall} {done : List Request}
    (h : task.answered polls ticks (.calling call) = some done) :
    ∃ ticks', done ++ [task.request call] <+: task.program polls ticks' := by
  cases call with
  | clock mhz =>
    simp only [answered, Option.ite_none_right_eq_some, Option.some.injEq] at h
    obtain ⟨hclock, rfl⟩ := h
    exact ⟨0, by simp [program, settingUp, request, hclock]⟩
  | counter outcome => exact absurd h nofun
  | tick =>
    obtain rfl := Option.some.inj h
    exact ⟨ticks + 1, by simp [program, request, List.replicate_succ', List.append_assoc]⟩
  | _ =>
    obtain rfl := Option.some.inj h
    exact ⟨0, by simp [program, settingUp, loading, request, List.replicate_succ', List.append_assoc]⟩

/-- Parameters and starts are asked for only where the device has been ready. -/
theorem isLoaded_of_loading {call : ScanCall} (h : task.request call ∈ task.loading) :
    IsLoaded (.calling call) := by
  cases call with
  | clock mhz => cases hlayout : task.layout <;>
      simp [request, loading, RegisterLayout.difficulty, Difficulty.request, hlayout] at h
  | reset => cases hlayout : task.layout <;>
      simp [request, loading, RegisterLayout.difficulty, Difficulty.request, hlayout] at h
  | poll deadline => cases hlayout : task.layout <;>
      simp [request, loading, RegisterLayout.difficulty, Difficulty.request, hlayout] at h
  | counter outcome => cases hlayout : task.layout <;>
      simp [request, loading, RegisterLayout.difficulty, Difficulty.request, hlayout] at h
  | stateIn => trivial
  | tail => trivial
  | difficulty => trivial
  | start => trivial
  | tick => trivial

/-! ### Getting on -/

theorem Orders.append {operation : Operation} (h : task.Orders course) (huse : operation.IsUse)
    (hready : ∀ request reply, operation = .asked request reply → request ∈ task.loading →
      ∃ earlier ∈ course, earlier.ShowsReady) : task.Orders (course ++ [operation]) where
  uses := by
    intro other hother
    rcases List.mem_append.mp hother with hother | hother
    · exact h.uses other hother
    · obtain rfl := List.mem_singleton.mp hother
      exact huse
  ready := by
    intro before request reply hbefore hloading
    rcases List.prefix_concat_iff.mp hbefore with hlast | hearlier
    · obtain ⟨rfl, hsame⟩ := List.append_inj' hlast rfl
      exact hready request reply (List.singleton_inj.mp hsame).symm hloading
    · exact h.ready before request reply hearlier hloading

/-- What a scan wants in a phase is done with an open device, and is asked for in turn. -/
theorem Driving.append {operation : Operation} (h : task.Driving phase course)
    (hmeets : task.Meets phase operation) : task.Orders (course ++ [operation]) := by
  apply h.toOrders.append
  · cases hmeets <;> trivial
  · rintro asked reply rfl hloading
    cases hmeets with
    | call => exact h.shown (isLoaded_of_loading hloading)

theorem Driving.requests_append {operation : Operation} (h : task.Driving phase course)
    (hmeets : task.Meets phase operation) :
    ∃ polls ticks, requests (course ++ [operation]) <+: task.program polls ticks := by
  obtain ⟨polls, ticks, hanswered⟩ := h.answered
  rw [Operation.requests_append]
  cases hmeets with
  | call => exact ⟨polls, request_isPrefix hanswered⟩
  | wait =>
    refine ⟨polls, ticks, ?_⟩
    simpa [requests] using answered_isPrefix hanswered
  | read =>
    refine ⟨polls, ticks, ?_⟩
    simpa [requests] using answered_isPrefix hanswered

theorem Driving.toTranscript (h : task.Driving phase course) : task.Transcript course where
  toOrders := h.toOrders
  requests := by
    obtain ⟨polls, ticks, hdone⟩ := h.answered
    exact ⟨polls, ticks, answered_isPrefix hdone⟩
  failure := List.Pairwise.imp_of_mem (fun hearlier _ _ => h.sound _ hearlier)
    (List.pairwise_of_forall fun _ _ => trivial)

/-- The operation that settles the outcome ends the transcript. -/
theorem Driving.settle {operation : Operation} (h : task.Driving phase course)
    (hmeets : task.Meets phase operation) : task.Transcript (course ++ [operation]) where
  toOrders := h.append hmeets
  requests := h.requests_append hmeets
  failure := by
    rw [List.pairwise_append]
    exact ⟨h.toTranscript.failure, List.pairwise_singleton _ _,
      fun earlier hearlier _ _ => h.sound earlier hearlier⟩

theorem Accounts.blames {operation : Operation} {outcome : ScanOutcome}
    (h : Accounts cancelled operation outcome) : Blames (course ++ [operation]) outcome := by
  intro reason hreason
  obtain ⟨cause, hfailure, hmessage⟩ := h.blame reason hreason
  exact ⟨operation, cause, List.getLast?_concat, hfailure, hmessage⟩

/-- The device is used by what a phase wants, and nothing has failed. -/
theorem Advances.meets {operation : Operation}
    (h : task.Advances phase (some operation) next news) :
    task.Meets phase operation ∧ operation.failure? = none := by
  cases h with
  | passed hprecedes hanswer =>
    refine ⟨.call (fun outcome hcall => ?_) _, Operation.failure?_asked hanswer⟩
    subst hcall
    cases hprecedes
  | @ready deadline => exact ⟨@Meets.call task (.poll deadline) nofun _, rfl⟩
  | @unready deadline => exact ⟨@Meets.call task (.poll deadline) nofun _, rfl⟩
  | started hanswer => exact ⟨@Meets.call task .start nofun _, Operation.failure?_asked hanswer⟩
  | ticked => exact ⟨@Meets.call task .tick nofun _, rfl⟩
  | announced last => exact ⟨.wait last _, rfl⟩
  | lapsed hlapses =>
    cases hlapses with
    | wait last => exact ⟨.wait last _, rfl⟩
    | read last hresult => exact ⟨.read last _, by simp [Operation.failure?, hresult]⟩

theorem Advances.answered {polls ticks : Nat} {done : List Request}
    (h : task.Advances phase operation next news)
    (hdone : task.answered polls ticks phase = some done) :
    ∃ polls ticks, task.answered polls ticks next = some (done ++ requests operation.toList) := by
  cases h with
  | passed hprecedes hanswer =>
    cases hprecedes with
    | clock mhz =>
      simp only [ScanTask.answered, Option.ite_none_right_eq_some, Option.some.injEq] at hdone
      obtain ⟨hclock, rfl⟩ := hdone
      exact ⟨0, 0, by simp [ScanTask.answered, requests, request, hclock]⟩
    | reset deadline =>
      obtain rfl := Option.some.inj hdone
      exact ⟨0, 0, by simp [ScanTask.answered, requests, request, settingUp]⟩
    | stateIn =>
      obtain rfl := Option.some.inj hdone
      exact ⟨polls, 0, by simp [ScanTask.answered, requests, request, loading]⟩
    | tail =>
      obtain rfl := Option.some.inj hdone
      exact ⟨polls, 0, by simp [ScanTask.answered, requests, request, loading]⟩
    | difficulty =>
      obtain rfl := Option.some.inj hdone
      exact ⟨polls, 0, by simp [ScanTask.answered, requests, request, loading]⟩
  | ready =>
    obtain rfl := Option.some.inj hdone
    exact ⟨polls, 0, by simp [ScanTask.answered, requests, List.replicate_succ']⟩
  | unready =>
    obtain rfl := Option.some.inj hdone
    exact ⟨polls + 1, 0, by simp [ScanTask.answered, requests, List.replicate_succ']⟩
  | paused => exact ⟨polls, ticks, by simpa [ScanTask.answered, requests] using hdone⟩
  | started =>
    obtain rfl := Option.some.inj hdone
    exact ⟨polls, 0, by simp [ScanTask.answered, requests, program, loading]⟩
  | ticked hnext =>
    obtain rfl := Option.some.inj hdone
    refine ⟨polls, ticks + 1, ?_⟩
    split at hnext <;>
      simp [hnext, ScanTask.answered, requests, program, List.replicate_succ', List.append_assoc]
  | sensed => exact ⟨polls, ticks, by simpa [ScanTask.answered, requests] using hdone⟩
  | announced => exact ⟨polls, ticks, by simpa [ScanTask.answered, requests] using hdone⟩
  | lapsed hlapses =>
    refine ⟨polls, ticks, ?_⟩
    cases hlapses <;> simpa [ScanTask.answered, requests] using hdone

/-- A scan is loaded once READY has been shown, and stays so. -/
theorem Advances.shown (h : task.Advances phase operation next news) (hloaded : IsLoaded next) :
    IsLoaded phase ∨ ∃ last ∈ operation, last.ShowsReady := by
  cases h with
  | passed hprecedes => cases hprecedes <;> first | exact .inl trivial | exact hloaded.elim
  | ready hready => exact .inr ⟨_, rfl, hready⟩
  | unready => exact hloaded.elim
  | paused => exact hloaded.elim
  | lapsed hlapses => cases hlapses <;> exact .inl trivial
  | started | ticked | sensed | announced => exact .inl trivial

theorem Advances.published (h : task.Advances phase operation next news) :
    published next = published phase ++ news := by
  cases h with
  | passed hprecedes => cases hprecedes <;> rfl
  | ticked hnext => split at hnext <;> simp [hnext, ScanTask.published]
  | lapsed hlapses => cases hlapses <;> rfl
  | ready | unready | paused | started | sensed | announced => rfl

theorem published_isPrefix (phase : ScanPhase) : published phase <+: [.ready, .running] := by
  unfold published
  split <;> simp

theorem Driving.advances (h : task.Driving phase course)
    (hadvances : task.Advances phase operation next news) :
    task.Driving next (course ++ operation.toList) := by
  obtain ⟨polls, ticks, hdone⟩ := h.answered
  have horders : task.Orders (course ++ operation.toList) := by
    cases operation with
    | none => simpa using h.toOrders
    | some operation => exact h.append hadvances.meets.1
  refine ⟨horders, ?_, ?_, ?_⟩
  · rw [Operation.requests_append]
    exact hadvances.answered hdone
  · intro other hother
    rcases List.mem_append.mp hother with hother | hother
    · exact h.sound other hother
    · obtain rfl := Option.mem_toList.mp hother
      exact hadvances.meets.2
  · intro hloaded
    rcases hadvances.shown hloaded with hbefore | ⟨last, hlast, hready⟩
    · obtain ⟨earlier, hearlier, hready⟩ := h.shown hbefore
      exact ⟨earlier, List.mem_append_left _ hearlier, hready⟩
    · exact ⟨last, List.mem_append_right _ (Option.mem_toList.mpr hlast), hready⟩

/-! ### A whole scan -/

/-- A whole scan whose device could be opened: what it brings back, what it has done, and which states it
    has published. -/
inductive Passage (task : ScanTask) : ScanReport → List Operation → List ScanState → Prop where
  | intro {course : List Operation} {outcome : ScanOutcome} {middle : List ScanState}
    (reply : Except DeviceError Reply) :
    task.Transcript course → Blames course outcome → middle <+: [.ready, .running] →
    Passage task ⟨outcome, hashesOf reply⟩
      (.opened (.ok ()) :: course ++ [.asked .getNonceCurrent reply, .closed])
      (.configuring :: middle ++ [outcome.state, .closed])

/-- What has been done, and what has been published, when a scan is in a phase. -/
inductive Stands (task : ScanTask) : ScanPhase → List Operation → List ScanState → Prop where
  | unopened : Stands task .opening [] [.configuring]
  | denied (cause : DeviceError) :
    Stands task (.ended (.error cause)) [.opened (.error cause)] [.configuring, .closed]
  | driving {phase : ScanPhase} {course : List Operation} : task.Driving phase course →
    Stands task phase (.opened (.ok ()) :: course) (.configuring :: published phase)
  | settled {outcome : ScanOutcome} {course : List Operation} {middle : List ScanState} :
    task.Transcript course → Blames course outcome → middle <+: [.ready, .running] →
    Stands task (.calling (.counter outcome)) (.opened (.ok ()) :: course)
      (.configuring :: middle ++ [outcome.state])
  | counted {outcome : ScanOutcome} {course : List Operation} {middle : List ScanState}
    (reply : Except DeviceError Reply) :
    task.Transcript course → Blames course outcome → middle <+: [.ready, .running] →
    Stands task (.closing ⟨outcome, hashesOf reply⟩)
      (.opened (.ok ()) :: course ++ [.asked .getNonceCurrent reply])
      (.configuring :: middle ++ [outcome.state])
  | returned {report : ScanReport} {whole : List Operation} {all : List ScanState} :
    task.Passage report whole all → Stands task (.ended (.ok report)) whole all

theorem firstCall_published : published (.calling task.firstCall) = [] := by
  unfold firstCall
  split <;> rfl

theorem driving_firstCall (task : ScanTask) : task.Driving (.calling task.firstCall) [] where
  uses := by simp
  ready := by simp
  answered := by
    refine ⟨0, 0, ?_⟩
    cases hclock : task.config.clockSpeed <;> simp [firstCall, ScanTask.answered, requests, hclock]
  sound := by simp
  shown := by
    unfold firstCall
    split <;> exact False.elim

/-- A scan that drives its device goes on driving it, or settles on an outcome. -/
theorem Driving.goes (h : task.Driving phase course)
    (hgoes : task.Goes cancelled phase operation next news) :
    task.Stands next (.opened (.ok ()) :: course ++ operation.toList)
      (.configuring :: published phase ++ news) := by
  obtain ⟨polls, ticks, hdone⟩ := h.answered
  cases hgoes with
  | denied => cases hdone
  | opened => cases hdone
  | advanced hadvances =>
    rw [List.cons_append, List.cons_append, ← hadvances.published]
    exact .driving (h.advances hadvances)
  | concluded hmeets haccounts =>
    exact .settled (h.settle hmeets) haccounts.blames (published_isPrefix phase)
  | counted => cases hdone
  | closed => cases hdone

/-- Only a phase that belongs to the program gets on with it, or settles. -/
theorem Advances.isDriving (h : task.Advances phase operation next news) : phase.IsDriving := by
  cases h with
  | passed hprecedes => cases hprecedes <;> trivial
  | lapsed hlapses => cases hlapses <;> trivial
  | _ => trivial

theorem Meets.isDriving {operation : Operation} (h : task.Meets phase operation) :
    phase.IsDriving := by
  cases h with
  | @call call unsettled =>
    cases call with
    | counter outcome => exact absurd rfl (unsettled outcome)
    | _ => trivial
  | wait => trivial
  | read => trivial

/-- Whatever happens next is in order. -/
theorem Stands.goes {past : List Operation} (h : task.Stands phase past states)
    (hgoes : task.Goes cancelled phase operation next news) :
    task.Stands next (past ++ operation.toList) (states ++ news) := by
  cases h with
  | unopened =>
    cases hgoes with
    | denied cause => exact .denied cause
    | opened => simpa [firstCall_published] using Stands.driving (driving_firstCall task)
    | advanced hadvances => exact hadvances.isDriving.elim
    | concluded hmeets => exact hmeets.isDriving.elim
  | denied cause =>
    cases hgoes with
    | advanced hadvances => exact hadvances.isDriving.elim
    | concluded hmeets => exact hmeets.isDriving.elim
  | driving hdriving => exact hdriving.goes hgoes
  | settled htranscript hblames hmiddle =>
    cases hgoes with
    | advanced hadvances => exact hadvances.isDriving.elim
    | concluded hmeets => exact hmeets.isDriving.elim
    | counted _ reply => simpa using Stands.counted reply htranscript hblames hmiddle
  | counted reply htranscript hblames hmiddle =>
    cases hgoes with
    | advanced hadvances => exact hadvances.isDriving.elim
    | concluded hmeets => exact hmeets.isDriving.elim
    | closed => simpa using Stands.returned (.intro reply htranscript hblames hmiddle)
  | returned =>
    cases hgoes with
    | advanced hadvances => exact hadvances.isDriving.elim
    | concluded hmeets => exact hmeets.isDriving.elim

/-! ### What follows -/

theorem Orders.mem_iff (h : task.Orders course) {operation : Operation} {after : List Operation}
    (hnouse : ¬ operation.IsUse) :
    operation ∈ .opened (.ok ()) :: course ++ after ↔
      operation = .opened (.ok ()) ∨ operation ∈ after := by
  have hcourse : operation ∉ course := fun hmem => hnouse (h.uses operation hmem)
  simp [hcourse]

/-- A scan holds its device from the opening until it has ended. -/
theorem Stands.holds {past : List Operation} (h : task.Stands phase past states)
    (hbegun : phase ≠ .opening) (hgoing : ∀ result, phase ≠ .ended result) :
    .opened (.ok ()) ∈ past ∧ .closed ∉ past := by
  cases h with
  | unopened => exact absurd rfl hbegun
  | denied cause => exact absurd rfl (hgoing _)
  | driving hdriving =>
    refine ⟨List.mem_cons_self, fun hclosed => ?_⟩
    rcases List.mem_cons.mp hclosed with hclosed | hclosed
    · cases hclosed
    · exact hdriving.uses _ hclosed
  | settled htranscript =>
    refine ⟨List.mem_cons_self, fun hclosed => ?_⟩
    rcases List.mem_cons.mp hclosed with hclosed | hclosed
    · cases hclosed
    · exact htranscript.uses _ hclosed
  | counted reply htranscript =>
    refine ⟨by simp, fun hclosed => ?_⟩
    rcases (htranscript.mem_iff id).mp hclosed with hclosed | hclosed
    · cases hclosed
    · cases List.mem_singleton.mp hclosed
  | returned => exact absurd rfl (hgoing _)

/-- A scan has not begun, or has been denied its device, or has done what a whole scan begins with, and
    all of that once it has ended. -/
theorem Stands.begins {past : List Operation} (h : task.Stands phase past states) :
    (phase = .opening ∧ past = []) ∨
    (∃ cause, phase = .ended (.error cause) ∧ past = [.opened (.error cause)] ∧
      states = [.configuring, .closed]) ∨
    .opened (.ok ()) ∈ past ∧ ∃ report whole all, task.Passage report whole all ∧ past <+: whole ∧
      states <+: all ∧
      ∀ result, phase = .ended result → result = .ok report ∧ past = whole ∧ states = all := by
  cases h with
  | unopened => exact .inl ⟨rfl, rfl⟩
  | denied cause => exact .inr (.inl ⟨cause, rfl, rfl, rfl⟩)
  | driving hdriving =>
    have hpassage := @Passage.intro task _ .noResult _ (.ok .done) hdriving.toTranscript nofun
      (published_isPrefix phase)
    refine .inr (.inr ⟨List.mem_cons_self, _, _, _, hpassage, ?_, ?_, ?_⟩)
    · exact List.prefix_append _ _
    · exact List.prefix_append _ _
    · rintro result rfl
      obtain ⟨polls, ticks, hdone⟩ := hdriving.answered
      cases hdone
  | settled htranscript hblames hmiddle =>
    have hpassage := Passage.intro (.ok .done) htranscript hblames hmiddle
    refine .inr (.inr ⟨List.mem_cons_self, _, _, _, hpassage, ?_, ?_, nofun⟩)
    · exact List.prefix_append _ _
    · exact ⟨[.closed], by simp⟩
  | counted reply htranscript hblames hmiddle =>
    have hpassage := Passage.intro reply htranscript hblames hmiddle
    refine .inr (.inr ⟨by simp, _, _, _, hpassage, ?_, ?_, nofun⟩)
    · exact ⟨[.closed], by simp⟩
    · exact ⟨[.closed], by simp⟩
  | returned hpassage =>
    refine .inr (.inr ⟨?_, _, _, _, hpassage, List.prefix_rfl, List.prefix_rfl, ?_⟩)
    · cases hpassage
      exact List.mem_cons_self
    · intro result hresult
      cases hresult
      exact ⟨rfl, rfl, rfl⟩

end ScanTask

end NonceSearch
