import NonceSearch.Device.Script
import NonceSearch.Proofs.ScanProtocol

/-!
# Scans under observation

A scan shows its session to whoever asks for a status line, from the opening of the device until the
counter has been read. An observer who has found the session holds it until both of their requests have
been answered, and the scan waits for all of them before it gives the device back.

The scanner goes on side by side with any number of observers. What is seen of them is kept, oldest
first: the scan's own operations, those of observers, and the lines that they get.
-/

namespace NonceSearch

open Decimal (Binary64)

/-- Somebody who has found a session and reads a status line from it. -/
structure Observer where
  temperature : Option Binary64
  /-- What came of the first request, once it has been made. -/
  status : Option (Except DeviceError UInt32) := none

inductive Sight where
  /-- The scan itself has done something to its device. -/
  | done (operation : Operation)
  | looked (operation : Operation)
  | line (text : String)

namespace Sight

def own? : Sight → Option Operation
  | .done operation => some operation
  | .looked _ | .line _ => none

def own (past : List Sight) : List Operation := past.filterMap own?

@[simp] theorem own_append (past news : List Sight) : own (past ++ news) = own past ++ own news :=
  List.filterMap_append

@[simp] theorem own_done (operation : Option Operation) :
    own (operation.toList.map .done) = operation.toList := by
  cases operation <;> rfl

@[simp] theorem own_looked (operation : Operation) (rest : List Sight) :
    own (.looked operation :: rest) = own rest := rfl

@[simp] theorem own_line (text : String) (rest : List Sight) : own (.line text :: rest) = own rest :=
  rfl

@[simp] theorem own_nil : own [] = [] := rfl

end Sight

open Sight (own)

/-- A scan and its observers. -/
structure Watch (δ : Type) where
  run : ScanRun δ
  /-- Whether whoever looks finds a session. -/
  shown : Bool := false
  observers : List Observer := []

namespace Watch

variable {δ : Type}

inductive Move (δ : Type) where
  /-- The scan has its demand answered. -/
  | scan
  /-- The session is shown after the opening, and hidden again before the device is given back. -/
  | publish
  /-- Somebody asks for the status line. -/
  | look
  /-- An observer has a request answered. -/
  | glance (index : Nat)
  | restart
  | around (change : Bench δ → Bench δ)

/-- An observer's next request: the status first, then the counter, and with that comes the line. -/
def glance (index : Nat) (observer : Observer) (watch : Watch δ) : List Sight × Watch δ :=
  match observer.status with
  | none =>
    let (reply, run) := watch.run.withState
      (watch.run.bench.device.request watch.run.bench.now .getStatus)
    ([.looked (.asked .getStatus reply)],
      { watch with
        run := run
        observers := watch.observers.set index
          { observer with status := some (reply.bind Reply.toWord) } })
  | some status =>
    let (reply, run) := watch.run.withState
      (watch.run.bench.device.request watch.run.bench.now .getNonceCurrent)
    ([.looked (.asked .getNonceCurrent reply),
        .line (statusLineText observer.temperature status (reply.bind Reply.toWord))],
      { watch with run := run, observers := watch.observers.eraseIdx index })

def perform? (watch : Watch δ) : Move δ → Option (List Sight × Watch δ)
  | .scan =>
    if watch.shown = watch.run.scan.isOpen then
      watch.run.step?.map fun run =>
        (watch.run.operation?.toList.map .done, { watch with run := run })
    else none
  | .publish =>
    if watch.run.scan.isOpen then some ([], { watch with shown := true })
    else if watch.observers.isEmpty then some ([], { watch with shown := false })
    else none
  | .look =>
    if watch.shown then
      some ([], { watch with observers := watch.observers ++ [⟨watch.run.bench.temperature, none⟩] })
    else some ([.line "closed"], watch)
  | .glance index => watch.observers[index]?.map fun observer => watch.glance index observer
  | .restart => some ([], { watch with run := watch.run.restart })
  | .around change =>
    some ([], { watch with run := { watch.run with bench := change watch.run.bench } })

/-- The scans of one scanner, one after the other: the one that is going on, and what has been seen since
    it was launched. -/
inductive Reached : ScanTask → Watch δ → List Sight → Prop where
  | launched (bench : Bench δ) (config : ScanConfig) (work : WorkItem) (fires : Option Nat) :
    Reached ⟨bench.device.layout, config, work⟩ { run := .launch bench config work fires } []
  | again {task : ScanTask} {watch : Watch δ} {past : List Sight}
    {result : Except DeviceError ScanReport} (work : WorkItem) (fires : Option Nat) :
    Reached task watch past → watch.run.scan.result? = some result →
    Reached ⟨watch.run.bench.device.layout, task.config, work⟩
      { watch with run := .launch watch.run.bench task.config work fires } []
  | move {task : ScanTask} {watch next : Watch δ} {past news : List Sight} (move : Move δ) :
    Reached task watch past → watch.perform? move = some (news, next) →
    Reached task next (past ++ news)

/-- What is known of a scan under observation. -/
structure Sound (task : ScanTask) (watch : Watch δ) (past : List Sight) : Prop where
  tasked : watch.run.scan.task = task
  inTurn : watch.run.scan.InTurn
  stands : task.Stands watch.run.scan.phase (own past) watch.run.states
  /-- Nobody finds a session that is not open yet, or not any more. -/
  hidden : watch.run.scan.phase = .opening ∨ (∃ result, watch.run.scan.phase = .ended result) →
    watch.shown = false
  free : watch.shown = false → watch.observers = []

/-- What is seen is in order, after all that has been seen before: observers use the session while the
    scan holds the device, and find nothing once it has given it back. -/
def Sees (past : List Sight) : Sight → Prop
  | .done _ => True
  | .looked _ => .opened (.ok ()) ∈ own past ∧ .closed ∉ own past
  | .line text => .closed ∈ own past → text = "closed"

variable {task : ScanTask} {watch next : Watch δ} {past news : List Sight}

/-! ### One move -/

/-- A scan is never about to open its device again, and it ends where it has no session open. -/
theorem goes_hidden {cancelled : Bool} {phase after : ScanPhase} {operation : Option Operation}
    {states : List ScanState} (h : task.Goes cancelled phase operation after states) :
    after ≠ .opening ∧
      ∀ result, after = .ended result → phase = .opening ∨ ∃ report, phase = .closing report := by
  cases h with
  | denied cause => exact ⟨nofun, fun _ _ => .inl rfl⟩
  | opened => exact ⟨nofun, nofun⟩
  | advanced hadvances => cases hadvances with
    | ticked hnext => split at hnext <;> simp [hnext]
    | _ => exact ⟨nofun, nofun⟩
  | concluded => exact ⟨nofun, nofun⟩
  | counted => exact ⟨nofun, nofun⟩
  | closed report => exact ⟨nofun, fun _ _ => .inr ⟨report, rfl⟩⟩

theorem isOpen_eq_false {scan : Scan}
    (h : scan.phase = .opening ∨ ∃ result, scan.phase = .ended result) : scan.isOpen = false := by
  rcases h with hphase | ⟨result, hphase⟩
  · simp [Scan.isOpen, hphase]
  · simp [Scan.isOpen, hphase]

theorem Sound.scan {run : ScanRun δ} (h : Sound task watch past)
    (hslot : watch.shown = watch.run.scan.isOpen) (hstep : watch.run.step? = some run) :
    Sound task { watch with run := run } (past ++ watch.run.operation?.toList.map .done) := by
  obtain ⟨hturn, htask, states, hstates, hgoes⟩ := ScanRun.step?_goes h.inTurn hstep
  rw [h.tasked] at hgoes
  obtain ⟨hbegun, hended⟩ := goes_hidden hgoes
  refine ⟨htask.trans h.tasked, hturn, ?_, ?_, h.free⟩
  · rw [Sight.own_append, Sight.own_done, hstates]
    exact h.stands.goes hgoes
  · rintro (hopening | ⟨result, hresult⟩)
    · exact absurd hopening hbegun
    · rcases hended result hresult with hphase | ⟨report, hphase⟩
      · exact h.hidden (.inl hphase)
      · simpa [Scan.isOpen, hphase] using hslot

/-- What does not move the scan changes nothing else either, as long as observers are where a session is
    shown. -/
theorem Sound.of_eq (h : Sound task watch past) (hscan : next.run.scan = watch.run.scan)
    (hnotes : next.run.notes = watch.run.notes) (hown : own news = [])
    (hhidden : next.run.scan.phase = .opening ∨ (∃ result, next.run.scan.phase = .ended result) →
      next.shown = false)
    (hfree : next.shown = false → next.observers = []) : Sound task next (past ++ news) := by
  refine ⟨?_, ?_, ?_, hhidden, hfree⟩
  · rw [hscan]
    exact h.tasked
  · rw [hscan]
    exact h.inTurn
  · have hstates : next.run.states = watch.run.states := by
      rw [ScanRun.states_eq, ScanRun.states_eq, hnotes]
    rw [Sight.own_append, hown, List.append_nil, hscan, hstates]
    exact h.stands

theorem Sound.shown_of_getElem? (h : Sound task watch past) {index : Nat} {observer : Observer}
    (hobserver : watch.observers[index]? = some observer) : watch.shown = true := by
  by_contra hshown
  rw [h.free (by simpa using hshown)] at hobserver
  cases hobserver

/-- Whoever is shown a session sees a device that the scan holds. -/
theorem Sound.holds (h : Sound task watch past) (hshown : watch.shown = true) :
    .opened (.ok ()) ∈ own past ∧ .closed ∉ own past := by
  apply h.stands.holds
  · intro hopening
    exact absurd (hshown.symm.trans (h.hidden (.inl hopening))) nofun
  · intro result hended
    exact absurd (hshown.symm.trans (h.hidden (.inr ⟨result, hended⟩))) nofun

theorem glance_run (index : Nat) (observer : Observer) (watch : Watch δ) :
    (watch.glance index observer).2.run.scan = watch.run.scan ∧
      (watch.glance index observer).2.run.notes = watch.run.notes ∧
      (watch.glance index observer).2.shown = watch.shown ∧
      own (watch.glance index observer).1 = [] := by
  unfold glance
  split <;> exact ⟨rfl, rfl, rfl, rfl⟩

theorem Sound.perform {move : Move δ} (h : Sound task watch past)
    (hmove : watch.perform? move = some (news, next)) : Sound task next (past ++ news) := by
  cases move with
  | scan =>
    simp only [perform?, Option.ite_none_right_eq_some, Option.map_eq_some_iff] at hmove
    obtain ⟨hslot, run, hstep, hnext⟩ := hmove
    obtain ⟨rfl, rfl⟩ := Prod.mk.inj hnext
    exact h.scan hslot hstep
  | publish =>
    simp only [perform?] at hmove
    split at hmove
    · next hopen =>
      obtain ⟨rfl, rfl⟩ := Prod.mk.inj (Option.some.inj hmove)
      refine h.of_eq rfl rfl rfl (fun hphase => ?_) nofun
      exact absurd (hopen.symm.trans (isOpen_eq_false hphase)) nofun
    · split at hmove
      · next hnobody =>
        obtain ⟨rfl, rfl⟩ := Prod.mk.inj (Option.some.inj hmove)
        exact h.of_eq rfl rfl rfl (fun _ => rfl) (fun _ => List.isEmpty_iff.mp hnobody)
      · cases hmove
  | look =>
    simp only [perform?] at hmove
    split at hmove
    · next hshown =>
      obtain ⟨rfl, rfl⟩ := Prod.mk.inj (Option.some.inj hmove)
      exact h.of_eq rfl rfl rfl h.hidden (fun hhidden => absurd (hshown.symm.trans hhidden) nofun)
    · obtain ⟨rfl, rfl⟩ := Prod.mk.inj (Option.some.inj hmove)
      exact h.of_eq rfl rfl rfl h.hidden h.free
  | glance index =>
    obtain ⟨observer, hobserver, hnext⟩ := Option.map_eq_some_iff.mp hmove
    obtain ⟨hscan, hnotes, hslot, hown⟩ := glance_run index observer watch
    have hshown := h.shown_of_getElem? hobserver
    rw [hnext] at hscan hnotes hslot hown
    refine h.of_eq hscan hnotes hown ?_ ?_
    · rw [hscan, hslot]
      exact h.hidden
    · rw [hslot, hshown]
      exact nofun
  | restart =>
    obtain ⟨rfl, rfl⟩ := Prod.mk.inj (Option.some.inj hmove)
    exact h.of_eq rfl rfl rfl h.hidden h.free
  | around change =>
    obtain ⟨rfl, rfl⟩ := Prod.mk.inj (Option.some.inj hmove)
    exact h.of_eq rfl rfl rfl h.hidden h.free

/-- All that is seen of a move is in order. -/
theorem Sound.sees {move : Move δ} (h : Sound task watch past)
    (hmove : watch.perform? move = some (news, next)) {before after : List Sight} {sight : Sight}
    (hsplit : news = before ++ sight :: after) : Sees (past ++ before) sight := by
  cases move with
  | scan =>
    simp only [perform?, Option.ite_none_right_eq_some, Option.map_eq_some_iff] at hmove
    obtain ⟨-, run, -, hnext⟩ := hmove
    obtain ⟨rfl, -⟩ := Prod.mk.inj hnext
    have hsight : sight ∈ watch.run.operation?.toList.map Sight.done := by simp [hsplit]
    obtain ⟨operation, -, rfl⟩ := List.mem_map.mp hsight
    trivial
  | look =>
    simp only [perform?] at hmove
    split at hmove
    · obtain ⟨rfl, -⟩ := Prod.mk.inj (Option.some.inj hmove)
      simp at hsplit
    · obtain ⟨rfl, -⟩ := Prod.mk.inj (Option.some.inj hmove)
      have hsight : sight ∈ [Sight.line "closed"] := by simp [hsplit]
      obtain rfl := List.mem_singleton.mp hsight
      exact fun _ => rfl
  | glance index =>
    obtain ⟨observer, hobserver, hnext⟩ := Option.map_eq_some_iff.mp hmove
    obtain ⟨hopened, hclosed⟩ := h.holds (h.shown_of_getElem? hobserver)
    have hown : own before = [] := by
      have hnews := (glance_run index observer watch).2.2.2
      rw [hnext, hsplit, Sight.own_append] at hnews
      exact (List.append_eq_nil_iff.mp hnews).1
    have hsight : sight ∈ (watch.glance index observer).1 := by simp [hnext, hsplit]
    have hdone : ∀ operation, sight ≠ .done operation := by
      unfold glance at hsight
      rintro operation rfl
      split at hsight <;> simp at hsight
    cases sight with
    | done operation => exact absurd rfl (hdone operation)
    | looked operation => simpa [Sees, hown] using ⟨hopened, hclosed⟩
    | line text => simpa [Sees, hown] using fun hback => absurd hback hclosed
  | publish =>
    simp only [perform?] at hmove
    split at hmove
    · obtain ⟨rfl, -⟩ := Prod.mk.inj (Option.some.inj hmove)
      simp at hsplit
    · simp only [Option.ite_none_right_eq_some] at hmove
      obtain ⟨rfl, -⟩ := Prod.mk.inj (Option.some.inj hmove.2)
      simp at hsplit
  | restart =>
    obtain ⟨rfl, -⟩ := Prod.mk.inj (Option.some.inj hmove)
    simp at hsplit
  | around change =>
    obtain ⟨rfl, -⟩ := Prod.mk.inj (Option.some.inj hmove)
    simp at hsplit

/-! ### Histories -/

theorem Sound.launch (bench : Bench δ) (config : ScanConfig) (work : WorkItem)
    (fires : Option Nat) :
    Sound ⟨bench.device.layout, config, work⟩ { run := .launch bench config work fires } [] where
  tasked := rfl
  inTurn := rfl
  stands := .unopened
  hidden := fun _ => rfl
  free := fun _ => rfl

/-- A scan that has ended leaves nothing behind. -/
theorem Sound.left (h : Sound task watch past) {result : Except DeviceError ScanReport}
    (hresult : watch.run.scan.result? = some result) :
    watch.run.scan.phase = .ended result ∧ watch.shown = false ∧ watch.observers = [] := by
  have hended : watch.run.scan.phase = .ended result := by
    unfold Scan.result? at hresult
    split at hresult
    · next hphase => rw [hphase, Option.some.inj hresult]
    · cases hresult
  have hhidden := h.hidden (.inr ⟨result, hended⟩)
  exact ⟨hended, hhidden, h.free hhidden⟩

theorem Reached.sound (h : Reached task watch past) :
    Sound task watch past ∧
      ∀ before sight after, past = before ++ sight :: after → Sees before sight := by
  induction h with
  | launched bench config work fires => exact ⟨.launch bench config work fires, by simp⟩
  | @again task watch past result work fires _ hresult ih =>
    obtain ⟨-, hhidden, hfree⟩ := ih.1.left hresult
    have hlaunch := Sound.launch watch.run.bench task.config work fires
    refine ⟨⟨hlaunch.tasked, hlaunch.inTurn, hlaunch.stands, fun _ => hhidden, fun _ => hfree⟩, by simp⟩
  | @move task watch next past news move _ hmove ih =>
    obtain ⟨hsound, hseen⟩ := ih
    refine ⟨hsound.perform hmove, ?_⟩
    intro before sight after hsplit
    rcases List.append_eq_append_iff.mp hsplit with ⟨rest, rfl, hnews⟩ | ⟨rest, rfl, hrest⟩
    · exact hsound.sees hmove hnews
    · rcases rest with _ | ⟨first, rest⟩
      · have hfirst : news = [] ++ sight :: after := hrest.symm
        simpa using hsound.sees hmove hfirst
      · obtain ⟨rfl, -⟩ := List.cons.inj hrest
        exact hseen before _ rest rfl

def follow : List (Move δ) → Watch δ → List Sight → Option (Watch δ × List Sight)
  | [], watch, past => some (watch, past)
  | move :: moves, watch, past =>
    (watch.perform? move).bind fun made => follow moves made.2 (past ++ made.1)

theorem Reached.follow {moves : List (Move δ)} {last : Watch δ × List Sight}
    (h : Reached task watch past) (hfollow : watch.follow moves past = some last) :
    Reached task last.1 last.2 := by
  induction moves generalizing watch past with
  | nil =>
    obtain rfl := Option.some.inj hfollow
    exact h
  | cons move moves ih =>
    obtain ⟨⟨news, next⟩, hmove, hrest⟩ := Option.bind_eq_some_iff.mp hfollow
    exact ih (.move move h hmove) hrest

/-! ### Scans that nobody looks at, and whole status lines -/

/-- As long as nobody looks, a step of the scan is a history of its own. -/
theorem Reached.step (h : Reached task watch past) (hslot : watch.shown = watch.run.scan.isOpen)
    (hnobody : watch.observers = []) {run : ScanRun δ} (hstep : watch.run.step? = some run) :
    ∃ seen, Reached task { run := run, shown := run.scan.isOpen } seen := by
  obtain ⟨before, shown, observers⟩ := watch
  obtain rfl : observers = [] := hnobody
  have hscan : ({ run := before, shown := shown } : Watch δ).perform? .scan =
      some (before.operation?.toList.map .done, { run := run, shown := shown }) := by
    simp [perform?, show shown = before.scan.isOpen from hslot,
      show before.step? = some run from hstep]
  have hpublish : ({ run := run, shown := shown } : Watch δ).perform? .publish =
      some ([], { run := run, shown := run.scan.isOpen }) := by
    cases hopen : run.scan.isOpen <;> simp [perform?, hopen]
  exact ⟨_, .move .publish (.move .scan h hscan) hpublish⟩

/-- A scan that is left to itself until a condition holds is a history, too. -/
theorem Reached.goUntil {run : ScanRun δ} (stop : ScanRun δ → Bool) (fuel : Nat)
    (h : Reached task { run := run, shown := run.scan.isOpen } past) :
    ∃ seen, Reached task
      { run := run.goUntil stop fuel, shown := (run.goUntil stop fuel).scan.isOpen } seen := by
  induction fuel generalizing run past with
  | zero => exact ⟨past, h⟩
  | succ fuel ih =>
    simp only [ScanRun.goUntil]
    split
    · exact ⟨past, h⟩
    · rcases hadvance : run.advance? with _ | next
      · exact ⟨past, h⟩
      · unfold ScanRun.advance? at hadvance
        rcases hstep : run.step? with _ | after
        · simp only [hstep, Option.map_eq_some_iff] at hadvance
          obtain ⟨later, -, rfl⟩ := hadvance
          exact ih (.move (.around fun bench => bench.passTo later) h rfl)
        · simp only [hstep, Option.some.injEq] at hadvance
          obtain rfl := hadvance
          obtain ⟨seen, hnext⟩ := h.step rfl rfl hstep
          exact ih hnext

/-- A status line that is read in one go. -/
theorem Reached.statusLine {run : ScanRun δ}
    (h : Reached task { run := run, shown := run.scan.isOpen } past) :
    ∃ looks, Reached task { run := run.statusLine.2, shown := run.scan.isOpen }
      (past ++ looks ++ [.line run.statusLine.1]) := by
  cases hopen : run.scan.isOpen with
  | false =>
    rw [hopen] at h
    refine ⟨[], ?_⟩
    have hline : run.statusLine = ("closed", run) := by simp [ScanRun.statusLine, hopen]
    rw [hline, List.append_nil]
    exact .move .look h rfl
  | true =>
    rw [hopen] at h
    have hnonce := h.move .look rfl |>.move (.glance 0) rfl |>.move (.glance 0) rfl
    let status := run.bench.device.request run.bench.now .getStatus run.bench.state
    let nonce := run.bench.device.request run.bench.now .getNonceCurrent status.2
    refine ⟨[.looked (.asked .getStatus status.1), .looked (.asked .getNonceCurrent nonce.1)], ?_⟩
    simpa [ScanRun.statusLine, hopen, Device.statusLine] using hnonce

/-! ### The result -/

/-- Every scan keeps to its protocol, on any device at all, whenever its token fires and whoever looks at
    it meanwhile. Either its device has not been opened yet; or it could not be, and then the scan fails
    and does nothing else; or what the scan has done is the beginning of a passage, and the whole of it
    once the scan has returned. No call is made out of turn. Observers use the session only while the
    scan holds the device, and a scan that has returned has left nobody with it. -/
theorem scans_keep_protocol (h : Reached task watch past) :
    ((own past = [] ∧ watch.run.scan.result? = none) ∨
      (∃ cause, own past = [.opened (.error cause)] ∧
        watch.run.scan.result? = some (.error cause) ∧ watch.run.states = [.configuring, .closed]) ∨
      .opened (.ok ()) ∈ own past ∧ ∃ report whole all, task.Passage report whole all ∧
        own past <+: whole ∧ watch.run.states <+: all ∧
        ∀ result, watch.run.scan.result? = some result →
          result = .ok report ∧ own past = whole ∧ watch.run.states = all) ∧
    (∀ call, watch.run.scan.phase = .calling call →
      (watch.run.scan.sessionCall call).allowed watch.run.scan.session = true) ∧
    (∀ before sight after, past = before ++ sight :: after → Sees before sight) ∧
    (∀ result, watch.run.scan.result? = some result →
      watch.shown = false ∧ watch.observers = []) := by
  obtain ⟨hsound, hseen⟩ := h.sound
  refine ⟨?_, fun call hphase => hsound.inTurn.allowed hphase, hseen,
    fun result hresult => (hsound.left hresult).2⟩
  rcases hsound.stands.begins with
    ⟨hphase, hnothing⟩ | ⟨cause, hphase, hdenied, hstates⟩ |
    ⟨hopened, report, whole, all, hpassage, hwhole, hall, hended⟩
  · exact .inl ⟨hnothing, by simp [Scan.result?, hphase]⟩
  · exact .inr (.inl ⟨cause, hdenied, by simp [Scan.result?, hphase], hstates⟩)
  · refine .inr (.inr ⟨hopened, report, whole, all, hpassage, hwhole, hall, ?_⟩)
    intro result hresult
    exact hended result (hsound.left hresult).1

/-! A device that is ready when it is asked a second time and has a result at once; somebody asks for the
status line twice, the first time in the middle of the setting up. -/

def secondTimeReady : Bench ScriptedDevice where
  device := ScriptedDevice.device "slow" .mask
  state := { scripts := [{
    idle := [.ok (.word 0), .ok (.word 1)]
    records := [(0, .bytes (CompletionMessage.toBytes ⟨0x20, 0⟩))] }] }

def watchedMoves : List (Move ScriptedDevice) :=
  List.flatten [[.scan, .publish, .scan, .look, .scan, .scan,
      .around fun bench => bench.passTo (bench.now + 1), .scan, .scan, .glance 0, .scan, .glance 0],
    List.replicate 5 .scan, [.look, .scan, .glance 0, .glance 0, .publish, .scan, .look]]

def slowLaunch : Watch ScriptedDevice :=
  { run := .launch secondTimeReady { clockSpeed := some 100 } ⟨Bytes.zero 32, Bytes.zero 12, 0⟩ none }

def isLook : Sight → Bool
  | .looked _ => true
  | .done _ | .line _ => false

theorem watched_scan_gives_device_back :
    ∃ (watch : Watch ScriptedDevice) (past : List Sight) (report : ScanReport),
      Reached slowLaunch.run.scan.task watch past ∧
      (∃ sight ∈ past, isLook sight) ∧ watch.run.scan.result? = some (.ok report) ∧
      slowLaunch.run.scan.task.Passage report (own past) watch.run.states ∧
      watch.observers = [] := by
  have hrun : (slowLaunch.follow watchedMoves []).any (fun reached =>
      reached.1.run.scan.result?.any Except.isOk && reached.2.any isLook) = true := by
    decide +kernel
  obtain ⟨⟨watch, past⟩, hfollow, hseen⟩ := (Option.any_eq_true _ _).mp hrun
  obtain ⟨hreturned, hlooked⟩ := Bool.and_eq_true_iff.mp hseen
  obtain ⟨result, hresult, hok⟩ := (Option.any_eq_true _ _).mp hreturned
  have hreached : Reached slowLaunch.run.scan.task watch past :=
    (Reached.launched secondTimeReady { clockSpeed := some 100 } _ none).follow hfollow
  obtain ⟨hpassage, -, -, hleft⟩ := scans_keep_protocol hreached
  obtain ⟨-, hnobody⟩ := hleft result hresult
  rcases hpassage with ⟨-, hnothing⟩ | ⟨cause, -, hdenied, -⟩ |
    ⟨-, report, whole, all, hpassage, -, -, hended⟩
  · exact absurd (hresult.symm.trans hnothing) nofun
  · obtain rfl := Option.some.inj (hresult.symm.trans hdenied)
    cases hok
  · obtain ⟨rfl, rfl, rfl⟩ := hended result hresult
    exact ⟨watch, past, report, hreached, List.any_eq_true.mp hlooked, hresult, hpassage, hnobody⟩

end Watch

end NonceSearch
