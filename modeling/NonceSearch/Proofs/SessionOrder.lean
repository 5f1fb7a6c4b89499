import NonceSearch.Device.Script
import NonceSearch.Session.Run

/-!
# The order of a session's requests

Any device may stand behind a session, and whatever it answers, the session keeps its order. What has
been done with the session is kept with what came of it, latest first; which requests are due is said in
terms of that history alone, and what gets to the device is taken down by the device itself
(`Device.logged`).

The session's state and the history say the same (`Tells`): the session is in READY exactly if READY has
been seen since the last reset and no search has been started since, and in RUNNING exactly between a
start and the next reset or the next status without RUNNING.
-/

namespace NonceSearch

open Decimal (Binary64)

variable {δ : Type}

/-! ### Devices that take down their requests -/

/-- The state of a device, and the requests that have got to it, latest first. -/
structure Logged (δ : Type) where
  inner : δ
  asked : List Request := []

def Logged.lift {α : Type} (act : δ → α × δ) (s : Logged δ) : α × Logged δ :=
  let (result, inner) := act s.inner
  (result, { s with inner := inner })

def Device.logged (device : Device δ) : Device (Logged δ) where
  name := device.name
  layout := device.layout
  acquire := fun now => Logged.lift (device.acquire now)
  request := fun now request s =>
    let (reply, inner) := device.request now request s.inner
    (reply, ⟨inner, request :: s.asked⟩)
  tryRead := fun now room => Logged.lift (device.tryRead now room)
  poll := fun now s => device.poll now s.inner
  readable? := fun now => Logged.lift (device.readable? now)
  read? := fun now room => Logged.lift (device.read? now room)
  nextChange? := fun now s => device.nextChange? now s.inner
  elapse := fun now later s => { s with inner := device.elapse now later s.inner }
  release := fun now s => { s with inner := device.release now s.inner }

/-- Waiting is no request either. -/
theorem Device.await_logged {α : Type} (device : Device δ) (attempt : Nat → δ → Option α × δ)
    (deadline now : Nat) (inner : δ) (asked : List Request) :
    device.logged.await (fun now => Logged.lift (attempt now)) deadline now ⟨inner, asked⟩ =
      ((device.await attempt deadline now inner).1,
        (device.await attempt deadline now inner).2.1,
        ⟨(device.await attempt deadline now inner).2.2, asked⟩) := by
  fun_induction device.await attempt deadline now inner with
  | case1 now inner result after hattempt =>
    rw [Device.await]
    simp [Logged.lift, hattempt]
  | case2 now inner after hattempt hlate later ih =>
    rw [Device.await]
    simp only [Logged.lift, hattempt, hlate, dif_pos]
    exact ih
  | case3 now inner after hattempt hlate =>
    rw [Device.await]
    simp [Logged.lift, hattempt, hlate]

/-! ### Uses of a session -/

namespace Session

inductive Use where
  | call (call : SessionCall)
  | tryCompletion
  | waitCompletion (timeout : Nat)
  | nextCompletion (fires : Nat)
  | statusLine (temperature : Option Binary64)
  deriving DecidableEq

inductive Outcome where
  | answer (result : Except DeviceError Reply)
  | message (result : Except DeviceError (Option CompletionMessage))
  | line (text : String)

/-- A status line tells of a failure in its text, and never fails. -/
def Outcome.Fails : Outcome → Prop
  | .answer (.error _) | .message (.error _) => True
  | _ => False

def perform (use : Use) (session : Session δ) : Outcome × Session δ :=
  match use with
  | .call made => (session.call made).map .answer id
  | .tryCompletion => session.tryCompletion.map .message id
  | .waitCompletion timeout => (session.waitCompletion timeout).map .message id
  | .nextCompletion fires =>
    (session.nextCompletion fires).map (fun result => .message (result.map some)) id
  | .statusLine temperature => (session.statusLine temperature).map .line id

/-- The requests that are made for a use, in order. Reading takes none. -/
def Use.requests : Use → List Request
  | .call made => [made.request]
  | .statusLine _ => [.getStatus, .getNonceCurrent]
  | _ => []

/-- The same session on a device that takes down its requests. -/
def logged (asked : List Request) (session : Session δ) : Session (Logged δ) :=
  { device := session.device.logged, port := ⟨session.port, asked⟩, now := session.now,
    state := session.state }

/-! ### What has been done -/

structure Note where
  use : Use
  outcome : Outcome

namespace Note

def resets : Note → Bool
  | ⟨.call .reset, .answer (.ok _)⟩ => true
  | _ => false

def starts : Note → Bool
  | ⟨.call .start, .answer (.ok _)⟩ => true
  | _ => false

def showsReady : Note → Bool
  | ⟨.call .status, .answer (.ok (.word bits))⟩ => (Status.mk bits).isReady
  | _ => false

def showsIdle : Note → Bool
  | ⟨.call .status, .answer (.ok (.word bits))⟩ => !(Status.mk bits).isRunning
  | _ => false

/-- Since the latest note of a kind, if there is one. -/
def since? (marks : Note → Bool) : List Note → Option (List Note)
  | [] => none
  | note :: past => if marks note then some [] else (since? marks past).map (note :: ·)

end Note

/-- Since the last reset READY has been seen, and no search has been started. -/
def ReadySeen (past : List Note) : Prop :=
  ∃ later, Note.since? Note.resets past = some later ∧ (∃ note ∈ later, note.showsReady) ∧
    ∀ note ∈ later, note.starts = false

/-- Since the last start there has been no reset, and no status without RUNNING. -/
def Searching (past : List Note) : Prop :=
  ∃ later, Note.since? Note.starts past = some later ∧
    ∀ note ∈ later, note.resets = false ∧ note.showsIdle = false

/-- A request is due after some history: what a search is about, and its start, once READY has been seen;
    the clock while no search goes on; anything else at any time. -/
def Due (past : List Note) : Request → Prop
  | .setStateIn _ | .setTail _ | .setLeadingZeros _ | .setDifficultyMask _ | .start => ReadySeen past
  | .setClockSpeed _ => ¬ Searching past
  | .reset | .getNonceCurrent | .getStatus | .getDebugRegisters | .step => True

/-- The histories of the sessions on a device. The device may change in any way between two uses. -/
inductive Reached (device : Device δ) : Session δ → List Note → Prop where
  | opened (s : δ) {session : Session δ} : (acquire device s).1 = .ok session →
    Reached device session []
  | disturbed {session : Session δ} {past : List Note} (port : δ) (now : Nat) :
    Reached device session past → Reached device { session with port := port, now := now } past
  | used {session : Session δ} {past : List Note} (use : Use) : Reached device session past →
    Reached device (session.perform use).2 (⟨use, (session.perform use).1⟩ :: past)

variable {device : Device δ} {session : Session δ} {past : List Note}

/-! ### One use -/

/-- What gets to the device by a use: everything that the state allows. -/
def sent (state : SessionState) : Use → List Request
  | .call made => if made.allowed state then [made.request] else []
  | use => use.requests

/-- Taking down its requests changes nothing about a device, and what is taken down is what the state
    allows. -/
theorem perform_logged (use : Use) (session : Session δ) (asked : List Request) :
    (session.logged asked).perform use =
      ((session.perform use).1,
        (session.perform use).2.logged ((sent session.state use).reverse ++ asked)) := by
  cases use with
  | call made =>
    by_cases hallowed : made.allowed session.state = true
    · simp only [perform, call, sent, logged, hallowed, if_true]
      rfl
    · simp only [perform, call, sent, logged, hallowed, Bool.false_eq_true, if_false]
      rfl
  | tryCompletion => rfl
  | waitCompletion timeout =>
    have hwait : (session.logged asked).awaitReadable timeout =
        ((session.awaitReadable timeout).1, (session.awaitReadable timeout).2.logged asked) := by
      unfold awaitReadable await
      exact congrArg (fun wait => (wait.2.1, { session.logged asked with
        port := wait.2.2, now := wait.1 }))
        (session.device.await_logged session.device.readable? (session.now + timeout) session.now
          session.port asked)
    simp only [perform, waitCompletion, hwait, sent, Use.requests]
    rcases session.awaitReadable timeout with ⟨_ | _ | _, waited⟩ <;> rfl
  | nextCompletion fires =>
    have hread : (session.logged asked).readUntil fires CompletionMessage.size =
        ((session.readUntil fires CompletionMessage.size).1,
          (session.readUntil fires CompletionMessage.size).2.logged asked) := by
      unfold readUntil await
      exact congrArg (fun wait => (wait.2.1.getD (.error .interrupted), { session.logged asked with
        port := wait.2.2, now := wait.1 }))
        (session.device.await_logged
          (fun now => session.device.read? now CompletionMessage.size) (session.now + fires)
          session.now session.port asked)
    simp only [perform, nextCompletion, hread, sent, Use.requests]
    rfl
  | statusLine temperature => rfl

theorem call_of_allowed {made : SessionCall} (h : made.allowed session.state = true) :
    ∃ result, (session.call made).1 = (made.settle session.state result).1 ∧
      (session.call made).2.state = (made.settle session.state result).2 := by
  unfold call
  simp only [h, if_true]
  exact ⟨_, rfl, rfl⟩

/-- A call that is out of turn does not touch the session. -/
theorem perform_of_refused {made : SessionCall} (h : made.allowed session.state = false) :
    session.perform (.call made) = (.answer (.error (made.refusal session.state)), session) := by
  simp [perform, call, h]

/-- Only calls move the state. -/
theorem state_of_not_call {use : Use} (h : ∀ made, use ≠ .call made) :
    (session.perform use).2.state = session.state := by
  cases use with
  | call made => exact absurd rfl (h made)
  | tryCompletion => rfl
  | waitCompletion timeout =>
    simp only [perform, waitCompletion, awaitReadable, await]
    split <;> next hwait => (obtain ⟨-, rfl⟩ := Prod.mk.inj hwait; rfl)
  | nextCompletion fires => rfl
  | statusLine temperature => rfl

/-- Something that fails leaves the state as it was. -/
theorem state_of_fails {use : Use} (h : (session.perform use).1.Fails) :
    (session.perform use).2.state = session.state := by
  by_cases hcall : ∃ made, use = .call made
  · obtain ⟨made, rfl⟩ := hcall
    cases hallowed : made.allowed session.state with
    | false => rw [perform_of_refused hallowed]
    | true =>
      obtain ⟨result, houtcome, hstate⟩ := call_of_allowed hallowed
      have hfails : (Outcome.answer (made.settle session.state result).1).Fails := by
        rwa [← houtcome]
      cases hsettle : (made.settle session.state result).1 with
      | ok answer =>
        rw [hsettle] at hfails
        exact absurd hfails id
      | error cause =>
        have herror : made.settle session.state result =
            (.error cause, (made.settle session.state result).2) := by
          rw [← hsettle]
        exact hstate.trans (SessionCall.settle_error herror)
  · exact state_of_not_call fun made hmade => hcall ⟨made, hmade⟩

/-! ### The state and the history -/

/-- Since the last reset no search has been started. -/
def Awaiting (past : List Note) : Prop :=
  ∃ later, Note.since? Note.resets past = some later ∧ ∀ note ∈ later, note.starts = false

variable {note : Note}

theorem awaiting_cons :
    Awaiting (note :: past) ↔ note.resets = true ∨ note.starts = false ∧ Awaiting past := by
  unfold Awaiting
  cases hresets : note.resets with
  | true => simp [Note.since?, hresets]
  | false =>
    simp only [Note.since?, hresets, Bool.false_eq_true, if_false, Option.map_eq_some_iff, false_or]
    constructor
    · rintro ⟨_, ⟨later, hlater, rfl⟩, hstarts⟩
      obtain ⟨hnote, hrest⟩ := List.forall_mem_cons.mp hstarts
      exact ⟨hnote, later, hlater, hrest⟩
    · rintro ⟨hnote, later, hlater, hrest⟩
      exact ⟨note :: later, ⟨later, hlater, rfl⟩, List.forall_mem_cons.mpr ⟨hnote, hrest⟩⟩

theorem readySeen_cons :
    ReadySeen (note :: past) ↔ note.resets = false ∧ note.starts = false ∧
      (ReadySeen past ∨ note.showsReady = true ∧ Awaiting past) := by
  unfold ReadySeen Awaiting
  cases hresets : note.resets with
  | true => simp [Note.since?, hresets]
  | false =>
    simp only [Note.since?, hresets, Bool.false_eq_true, if_false, Option.map_eq_some_iff, true_and]
    constructor
    · rintro ⟨_, ⟨later, hlater, rfl⟩, ⟨shown, hshown, hready⟩, hstarts⟩
      obtain ⟨hnote, hrest⟩ := List.forall_mem_cons.mp hstarts
      rcases List.mem_cons.mp hshown with rfl | hbefore
      · exact ⟨hnote, .inr ⟨hready, later, hlater, hrest⟩⟩
      · exact ⟨hnote, .inl ⟨later, hlater, ⟨shown, hbefore, hready⟩, hrest⟩⟩
    · rintro ⟨hnote, ⟨later, hlater, ⟨shown, hshown, hready⟩, hrest⟩ | ⟨hready, later, hlater, hrest⟩⟩
      · exact ⟨note :: later, ⟨later, hlater, rfl⟩, ⟨shown, .tail _ hshown, hready⟩,
          List.forall_mem_cons.mpr ⟨hnote, hrest⟩⟩
      · exact ⟨note :: later, ⟨later, hlater, rfl⟩, ⟨note, .head _, hready⟩,
          List.forall_mem_cons.mpr ⟨hnote, hrest⟩⟩

theorem searching_cons :
    Searching (note :: past) ↔ note.starts = true ∨
      note.resets = false ∧ note.showsIdle = false ∧ Searching past := by
  unfold Searching
  cases hstarts : note.starts with
  | true => simp [Note.since?, hstarts]
  | false =>
    simp only [Note.since?, hstarts, Bool.false_eq_true, if_false, Option.map_eq_some_iff, false_or]
    constructor
    · rintro ⟨_, ⟨later, hlater, rfl⟩, hgoing⟩
      obtain ⟨⟨hresets, hidle⟩, hrest⟩ := List.forall_mem_cons.mp hgoing
      exact ⟨hresets, hidle, later, hlater, hrest⟩
    · rintro ⟨hresets, hidle, later, hlater, hrest⟩
      exact ⟨note :: later, ⟨later, hlater, rfl⟩,
        List.forall_mem_cons.mpr ⟨⟨hresets, hidle⟩, hrest⟩⟩

/-- The state tells the same as the history. -/
structure Tells (state : SessionState) (past : List Note) : Prop where
  ready : state = .ready ↔ ReadySeen past
  running : state = .running ↔ Searching past
  awaiting : state = .resetting ∨ state = .ready ↔ Awaiting past

variable {state : SessionState} {made : SessionCall}

theorem Tells.opened : Tells .unknown [] := by
  constructor
  · simp [ReadySeen, Note.since?]
  · simp [Searching, Note.since?]
  · simp [Awaiting, Note.since?]

/-- What neither resets nor starts and shows no status leaves everything as it was. -/
theorem Tells.unmarked (h : Tells state past) (hresets : note.resets = false)
    (hstarts : note.starts = false) (hready : note.showsReady = false)
    (hidle : note.showsIdle = false) : Tells state (note :: past) := by
  constructor
  · rw [h.ready, readySeen_cons]
    simp [hresets, hstarts, hready]
  · rw [h.running, searching_cons]
    simp [hresets, hstarts, hidle]
  · rw [h.awaiting, awaiting_cons]
    simp [hresets, hstarts]

theorem Tells.reset (answer : Reply) :
    Tells .resetting (⟨.call .reset, .answer (.ok answer)⟩ :: past) := by
  constructor
  · simp [readySeen_cons, Note.resets]
  · simp [searching_cons, Note.resets, Note.starts]
  · simp [awaiting_cons, Note.resets]

theorem Tells.start (answer : Reply) :
    Tells .running (⟨.call .start, .answer (.ok answer)⟩ :: past) := by
  constructor
  · simp [readySeen_cons, Note.starts]
  · simp [searching_cons, Note.starts]
  · simp [awaiting_cons, Note.resets, Note.starts]

/-- A status ends a reset by READY and a search by the absence of RUNNING. -/
theorem Tells.status (h : Tells state past) (bits : UInt32) :
    Tells (SessionCall.status.advance state (.word bits))
      (⟨.call .status, .answer (.ok (.word bits))⟩ :: past) := by
  constructor
  · rw [readySeen_cons, ← h.ready, ← h.awaiting]
    cases state with
    | resetting =>
      by_cases hready : (Status.mk bits).isReady = true <;>
        simp [SessionCall.advance, Note.resets, Note.starts, Note.showsReady, hready]
    | running =>
      by_cases hrunning : (Status.mk bits).isRunning = true <;>
        simp [SessionCall.advance, Note.resets, Note.starts, hrunning]
    | _ => simp [SessionCall.advance, Note.resets, Note.starts]
  · rw [searching_cons, ← h.running]
    cases state with
    | resetting =>
      by_cases hready : (Status.mk bits).isReady = true <;>
        simp [SessionCall.advance, Note.starts, hready]
    | running =>
      by_cases hrunning : (Status.mk bits).isRunning = true <;>
        simp [SessionCall.advance, Note.resets, Note.starts, Note.showsIdle, hrunning]
    | _ => simp [SessionCall.advance, Note.starts]
  · rw [awaiting_cons, ← h.awaiting]
    cases state with
    | resetting =>
      by_cases hready : (Status.mk bits).isReady = true <;>
        simp [SessionCall.advance, Note.resets, Note.starts, hready]
    | running =>
      by_cases hrunning : (Status.mk bits).isRunning = true <;>
        simp [SessionCall.advance, Note.resets, Note.starts, hrunning]
    | _ => simp [SessionCall.advance, Note.resets, Note.starts]

theorem Tells.answered (h : Tells state past) (made : SessionCall) (answer : Reply) :
    Tells (made.advance state answer) (⟨.call made, .answer (.ok answer)⟩ :: past) := by
  cases made with
  | reset => exact .reset answer
  | start => exact .start answer
  | status =>
    cases answer with
    | word bits => exact h.status bits
    | _ => exact h.unmarked rfl rfl rfl rfl
  | _ => exact h.unmarked rfl rfl rfl rfl

/-- A use keeps the state and the history together. -/
theorem Tells.used (h : Tells session.state past) (use : Use) :
    Tells (session.perform use).2.state (⟨use, (session.perform use).1⟩ :: past) := by
  cases use with
  | call made =>
    cases hallowed : made.allowed session.state with
    | false =>
      rw [perform_of_refused hallowed]
      exact h.unmarked (by cases made <;> rfl) (by cases made <;> rfl) (by cases made <;> rfl)
        (by cases made <;> rfl)
    | true =>
      obtain ⟨result, houtcome, hstate⟩ := call_of_allowed hallowed
      show Tells (session.call made).2.state (⟨.call made, .answer (session.call made).1⟩ :: past)
      rw [houtcome, hstate]
      unfold SessionCall.settle
      cases result.bind made.answer with
      | ok answer => exact h.answered made answer
      | error cause =>
        exact h.unmarked (by cases made <;> rfl) (by cases made <;> rfl) (by cases made <;> rfl)
          (by cases made <;> rfl)
  | waitCompletion timeout =>
    have hstate : (session.perform (.waitCompletion timeout)).2.state = session.state :=
      state_of_not_call fun _ => nofun
    rw [hstate]
    exact h.unmarked rfl rfl rfl rfl
  | _ => exact h.unmarked rfl rfl rfl rfl

theorem Reached.tells (h : Reached device session past) : Tells session.state past := by
  induction h with
  | @opened s session hopened =>
    have hstate : session.state = .unknown := by
      unfold acquire at hopened
      cases hdevice : (device.acquire 0 s).1 with
      | error cause => simp [hdevice, Except.map] at hopened
      | ok done =>
        simp only [hdevice, Except.map, Except.ok.injEq] at hopened
        rw [← hopened]
    rw [hstate]
    exact .opened
  | disturbed port now hreached ih => exact ih
  | used use hreached ih => exact ih.used use

/-- A call is in turn exactly if its request is due. -/
theorem Tells.allowed_iff (h : Tells state past) (made : SessionCall) :
    made.allowed state = true ↔ Due past made.request := by
  have hready : (state == .ready) = true ↔ ReadySeen past := beq_iff_eq.trans h.ready
  have hquiet : (state != .running) = true ↔ ¬ Searching past :=
    bne_iff_ne.trans (not_congr h.running)
  cases made with
  | setStateIn midstate => exact hready
  | setTail tail => exact hready
  | setDifficulty difficulty => cases difficulty <;> exact hready
  | start => exact hready
  | setClockSpeed mhz => exact hquiet
  | _ => exact iff_of_true rfl trivial

/-- A use of which all requests are due has them all made. -/
theorem Tells.sent_of_due (h : Tells state past) {use : Use}
    (hdue : ∀ request ∈ use.requests, Due past request) : sent state use = use.requests := by
  cases use with
  | call made =>
    have hallowed := (h.allowed_iff made).mpr (hdue _ (.head _))
    simp [sent, hallowed, Use.requests]
  | _ => rfl

/-- Only a call can have a request that is not due, and then it is out of turn. -/
theorem Tells.refused_of_not_due (h : Tells state past) {use : Use} {request : Request}
    (hrequest : request ∈ use.requests) (hdue : ¬ Due past request) :
    ∃ made, use = .call made ∧ made.allowed state = false := by
  cases use with
  | call made =>
    obtain rfl := List.mem_singleton.mp hrequest
    exact ⟨made, rfl, by simpa using mt (h.allowed_iff made).mp hdue⟩
  | statusLine temperature =>
    rcases List.mem_cons.mp hrequest with rfl | hrequest
    · exact absurd trivial hdue
    · obtain rfl := List.mem_singleton.mp hrequest
      exact absurd trivial hdue
  | _ => exact absurd hrequest List.not_mem_nil

/-- Whatever a device answers and however it fails, a request gets to it when it is due after what has
    been done before, and not otherwise: a use with a request that is not due sends nothing, changes
    nothing and fails with the request and the state it was refused in. Whatever fails leaves the
    session's state as it was, and so does every status line. -/
theorem requests_keep_order (h : Reached device session past) (use : Use) (asked : List Request) :
    ((∀ request ∈ use.requests, Due past request) →
      (session.logged asked).perform use = ((session.perform use).1,
        (session.perform use).2.logged (use.requests.reverse ++ asked))) ∧
    (∀ request ∈ use.requests, ¬ Due past request →
      (session.logged asked).perform use =
        (.answer (.error (.violation (.outOfTurn request.code session.state))),
          session.logged asked)) ∧
    ((session.perform use).1.Fails → (session.perform use).2.state = session.state) ∧
    (∀ temperature, use = .statusLine temperature →
      (session.perform use).2.state = session.state) := by
  have htells := h.tells
  refine ⟨fun hdue => ?_, fun request hrequest hdue => ?_, ?_, ?_⟩
  · rw [perform_logged, htells.sent_of_due hdue]
  · obtain ⟨made, rfl, hrefused⟩ := htells.refused_of_not_due hrequest hdue
    obtain rfl := List.mem_singleton.mp hrequest
    have hlogged : made.allowed (session.logged asked).state = false := hrefused
    exact perform_of_refused hlogged
  · exact state_of_fails
  · rintro temperature rfl
    exact state_of_not_call fun _ => nofun

def rehearse (session : Session δ) (past : List Note) : List Use → Session δ × List Note
  | [] => (session, past)
  | use :: uses =>
    rehearse (session.perform use).2 (⟨use, (session.perform use).1⟩ :: past) uses

theorem Reached.rehearse (h : Reached device session past) (uses : List Use) :
    Reached device (session.rehearse past uses).1 (session.rehearse past uses).2 := by
  induction uses generalizing session past with
  | nil => exact h
  | cons use uses ih => exact ih (h.used use)

def underway : Session ScriptedDevice × List Note :=
  let device := ScriptedDevice.device "bench" .mask
  rehearse { device := device, port := (device.acquire 0 { scripts := [{}] }).2 } []
    [.call (.setTail default), .call .reset, .statusLine none, .call .start, .call .status,
      .call (.setTail default), .call .start]

/-- The clock has to wait for the end of the search. -/
theorem clock_is_refused_while_searching :
    Reached (ScriptedDevice.device "bench" .mask) underway.1 underway.2 ∧
    underway.1.state = .running ∧
    ∀ asked, (underway.1.logged asked).perform (.call (.setClockSpeed 110)) =
      (.answer (.error (.violation (.outOfTurn .setClockSpeed underway.1.state))),
        underway.1.logged asked) := by
  have hreached : Reached (ScriptedDevice.device "bench" .mask) underway.1 underway.2 :=
    .rehearse (.opened { scripts := [{}] } rfl) _
  have hrunning : underway.1.state = .running := by decide +kernel
  have hsearching : Searching underway.2 := hreached.tells.running.mp hrunning
  refine ⟨hreached, hrunning, ?_⟩
  intro asked
  obtain ⟨-, hrefused, -⟩ := requests_keep_order hreached (.call (.setClockSpeed 110)) asked
  exact hrefused _ (.head _) (not_not_intro hsearching)

end Session

end NonceSearch
