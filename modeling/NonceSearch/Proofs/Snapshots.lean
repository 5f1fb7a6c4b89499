import NonceSearch.Proofs.Configuration
import NonceSearch.Proofs.HeldCores
import NonceSearch.Proofs.Plays

/-!
# Dumps of a held core

A dump halts the core and then reads one register after another. The core is held for all that time,
so every word shows the core as it was when it was halted, or as the one batch has made it that its
searcher had in hand. The words change over at one place: those before it are of the one core, those
from it on of the other (`Seen`).
-/

namespace NonceSearch

namespace Core

variable {config : CoreConfig} {core next : Core}

/-- All that registers show of a core, apart from the selected bank. -/
def face (core : Core) : Core :=
  { core with run := 0, job := none, bank := none, cursor := 0, raised := 0 }

theorem bankWord_face (bank : Bank) (index : Nat) (core : Core) :
    core.bankWord bank index = core.face.bankWord bank index := by
  unfold bankWord
  cases bank <;> rfl

theorem readCount_face (word : Nat) (core : Core) :
    core.readCount word = core.face.readCount word := by
  have hhalted : core.face.halted = core.halted := rfl
  unfold readCount
  rw [hhalted]
  simp only [face]

theorem Stands.face (h : core.Stands next) (hparameters : next.parameters = core.parameters)
    (hhalted : next.halted = core.halted) : next.face = core.face := by
  obtain ⟨hstatus, hready, hcurrent, hcandidate, -, -⟩ := h
  simp only [parameters, Parameters.mk.injEq] at hparameters
  obtain ⟨hstateIn, htail, hmask, hcount, hclock⟩ := hparameters
  simp only [Core.face, hstatus, hready, hcurrent, hcandidate, hstateIn, htail, hmask, hcount, hclock,
    hhalted]

/-- What happens to a held core between two accesses of a dump: it keeps its face, or changes it from
    one to the other. -/
structure Turns (before after core next : Core) : Prop where
  bank : next.bank = core.bank
  cursor : next.cursor = core.cursor
  face : next.face = core.face ∨ core.face = before ∧ next.face = after

theorem Turns.refl (before after core : Core) : Turns before after core core := ⟨rfl, rfl, .inl rfl⟩

theorem Turns.at {before after : Core} {bank : Bank} {k : Nat} (h : Turns before after core next)
    (hplace : core.At bank k) : next.At bank k :=
  ⟨h.bank.trans hplace.bank, h.cursor.trans hplace.cursor⟩

/-- Reading changes no face. -/
theorem read_face (hready : core.readyAt = none) (now word : Nat) :
    (core.read config now word).2.face = core.face := by
  have hsame := refresh_of_readyAt hready now
  rcases @read_snd config core now word with h | h
  · rw [h, hsame]
  · rw [h, hsame]
    rfl

end Core

theorem Bus.bind_assoc {α β γ : Type} (program : Bus α) (f : α → Bus β) (g : β → Bus γ) :
    (program.bind f).bind g = program.bind fun value => (f value).bind g := by
  induction program with
  | done value => rfl
  | read word next ih => exact congrArg (Bus.read word) (funext ih)
  | write word value next ih => exact congrArg (Bus.write word value) ih
  | writeByte word value next ih => exact congrArg (Bus.writeByte word value) ih

theorem Bus.Secures.run {α : Type} {config : CoreConfig} {times : Nat → Prop}
    {rely : Core → Core → Prop} {post : α → Core → Prop} {program : Bus α} {core : Core}
    (h : program.Secures config times rely post core) (hrefl : ∀ a, rely a a) {now : Nat}
    (hnow : times now) :
    post (program.run (Core.registerFile config now) core).1
      (program.run (Core.registerFile config now) core).2 := by
  induction program generalizing core with
  | done value => exact h core (hrefl core)
  | read word next ih => exact ih _ (h core now hnow (hrefl core))
  | write word value next ih => exact ih (h core now hnow (hrefl core))
  | writeByte word value next ih => exact ih (h core now hnow (hrefl core))

/-! ### Words of two cores -/

section Words

variable {before after core next : Core} {first second words : List UInt32}

/-- What has been read so far, where the one core would have given the first words and the other the
    second. -/
structure Seen (before after : Core) (first second words : List UInt32) (core : Core) : Prop where
  length : first.length = second.length
  words : core.face = before ∧ words = first ∨
    core.face = after ∧ ∃ k, k ≤ first.length ∧ words = first.take k ++ second.drop k

theorem Seen.begin (hface : core.face = before) : Seen before after [] [] [] core :=
  ⟨rfl, .inl ⟨hface, rfl⟩⟩

theorem Seen.mixed (h : Seen before after first second words core) :
    ∃ k, words = first.take k ++ second.drop k := by
  rcases h.words with ⟨-, rfl⟩ | ⟨-, k, -, hwords⟩
  · refine ⟨words.length, ?_⟩
    rw [List.take_length, h.length, List.drop_length, List.append_nil]
  · exact ⟨k, hwords⟩

theorem Seen.turn (h : Seen before after first second words core)
    (hturn : Core.Turns before after core next) : Seen before after first second words next := by
  refine ⟨h.length, ?_⟩
  rcases h.words with ⟨hface, hwords⟩ | ⟨hface, hwords⟩
  · rcases hturn.face with hsame | ⟨-, hafter⟩
    · exact .inl ⟨hsame.trans hface, hwords⟩
    -- The words that have been read are all of the one core, and the rest will be of the other.
    · refine .inr ⟨hafter, first.length, Nat.le_refl _, ?_⟩
      rw [List.take_length, h.length, List.drop_length, List.append_nil, hwords]
  · rcases hturn.face with hsame | ⟨-, hafter⟩
    · exact .inr ⟨hsame.trans hface, hwords⟩
    · exact .inr ⟨hafter, hwords⟩

theorem Seen.readyAt (h : Seen before after first second words core)
    (hready : before.readyAt = none ∧ after.readyAt = none) : core.readyAt = none := by
  have hface : core.face.readyAt = none := by
    rcases h.words with ⟨hbefore, -⟩ | ⟨hafter, -⟩
    · exact hbefore ▸ hready.1
    · exact hafter ▸ hready.2
  exact hface

theorem Seen.word (h : Seen before after first second words core) (hface : next.face = core.face)
    (shows : Core → UInt32) :
    Seen before after (first ++ [shows before]) (second ++ [shows after])
      (words ++ [shows core.face]) next := by
  refine ⟨by simp [h.length], ?_⟩
  rcases h.words with ⟨hbefore, hwords⟩ | ⟨hafter, k, hk, hwords⟩
  · exact .inl ⟨hface.trans hbefore, by rw [hwords, hbefore]⟩
  · refine .inr ⟨hface.trans hafter, k, by simp; omega, ?_⟩
    rw [List.take_append_of_le_length hk, List.drop_append_of_le_length (h.length ▸ hk), hwords, hafter,
      List.append_assoc]

end Words

/-! ### Reading all registers -/

namespace Driver

variable {config : CoreConfig} {times : Nat → Prop} {before after core : Core}
  {first second words : List UInt32}

def bankWords (bank : Bank) (core : Core) : List UInt32 :=
  (List.range' 0 bank.size).map fun index => core.bankWord bank index

def registerWords (layout : RegisterLayout) (core : Core) : List UInt32 :=
  match layout with
  | .count => (List.range' 0 CountWindow.size).map fun word => core.readCount word
  | .mask =>
    core.status.bits :: core.nonceCurrent :: Bank.all.flatMap fun bank => bankWords bank core

/-- A program reads words of a held core on top of those that have been read. -/
def ReadsOn (config : CoreConfig) (times : Nat → Prop) (before after : Core)
    (program : Bus (List UInt32)) (shows : Core → List UInt32) : Prop :=
  ∀ first second words core, Seen before after first second words core →
    program.Secures config times (Core.Turns before after)
      (fun more core => Seen before after (first ++ shows before) (second ++ shows after)
        (words ++ more) core) core

theorem ReadsOn.cons {program : Bus (List UInt32)} {shows : Core → List UInt32} (word : Nat)
    (first : Core → UInt32) (hready : before.readyAt = none ∧ after.readyAt = none)
    (hvalue : ∀ (core : Core) now, core.readyAt = none →
      (core.read config now word).1 = first core.face)
    (h : ReadsOn config times before after program shows) :
    ReadsOn config times before after
      (.read word fun value => program.bind fun values => .done (value :: values))
      fun core => first core :: shows core := by
  intro left right words core hseen next now _ hturn
  have hseen' := hseen.turn hturn
  have hnext := hseen'.readyAt hready
  have hword := hseen'.word (@Core.read_face config next hnext now word) first
  rw [← hvalue next now hnext] at hword
  refine Bus.Secures.bind ((h _ _ _ _ hword).mono ?_) (Core.Turns.refl _ _)
  intro values last hlast final hfinal
  simpa using hlast.turn hfinal

section Gets

variable (gets : Nat → Nat → Bus (List UInt32)) (address : Nat → Nat) (stage : Nat → Core → Prop)
  (shows : Nat → Core → UInt32)

theorem gets_seen {start more : Nat} (hnil : ∀ k, gets k 0 = .done [])
    (hcons : ∀ k count, gets k (count + 1) = .read (address k) fun value =>
      (gets (k + 1) count).bind fun values => .done (value :: values))
    (hquiet : ∀ k core next, stage k core → Core.Turns before after core next → stage k next)
    (hread : ∀ k core now, stage k core → core.readyAt = none →
      stage (k + 1) (core.read config now (address k)).2 ∧
        (core.read config now (address k)).1 = shows k core.face)
    (hready : before.readyAt = none ∧ after.readyAt = none) (hstage : stage start core)
    (hseen : Seen before after first second words core) :
    (gets start more).Secures config times (Core.Turns before after)
      (fun values core => Seen before after
        (first ++ (List.range' start more).map fun k => shows k before)
        (second ++ (List.range' start more).map fun k => shows k after) (words ++ values) core)
      core := by
  induction more generalizing start first second words core with
  | zero =>
    rw [hnil]
    intro next hturn
    simpa using hseen.turn hturn
  | succ more ih =>
    rw [hcons]
    intro next now _ hturn
    have hseen' := hseen.turn hturn
    have hnext := hseen'.readyAt hready
    obtain ⟨hstage', hvalue⟩ := hread start next now (hquiet _ _ _ hstage hturn) hnext
    have hword := hseen'.word (@Core.read_face config next hnext now (address start)) (shows start)
    rw [← hvalue] at hword
    refine Bus.Secures.bind ((ih hstage' hword).mono ?_) (Core.Turns.refl _ _)
    intro values last hlast final hfinal
    have hall := hlast.turn hfinal
    simpa [List.range'_succ] using hall

end Gets

theorem readAll_mask : readAll .mask = .read MaskWindow.status fun status =>
    .read MaskWindow.nonceCurrent fun current =>
      (readBanks Bank.all).bind fun words => .done (status :: current :: words) := by
  unfold readAll
  generalize readBanks Bank.all = banks
  rfl

section Programs

variable (hready : before.readyAt = none ∧ after.readyAt = none)
include hready

theorem readBank_seen (hlayout : config.layout = .mask) (bank : Bank) :
    ReadsOn config times before after (readBank bank) (bankWords bank) := by
  intro first second words core hseen next now _ hturn
  rw [Core.write_select hlayout]
  have hselected : Seen before after first second words { next with bank := some bank, cursor := 0 } :=
    ⟨hseen.length, (hseen.turn hturn).words⟩
  have hplace : Core.At bank 0 { next with bank := some bank, cursor := 0 } := ⟨rfl, rfl⟩
  refine gets_seen (fun _ => Bus.getAll MaskWindow.data) (fun _ => MaskWindow.data) (Core.At bank)
    (fun k core => core.bankWord bank k) (fun _ => rfl) (fun _ _ => rfl)
    (fun k core next hplace hturn => hturn.at hplace) ?_ hready hplace hselected
  intro k core now hplace hnone
  obtain ⟨hnext, hvalue⟩ := hplace.read_data hlayout now
  rw [hvalue, Core.refresh_of_readyAt hnone]
  exact ⟨hnext, Core.bankWord_face bank k core⟩

theorem readBanks_seen (hlayout : config.layout = .mask) (banks : List Bank) :
    ReadsOn config times before after (readBanks banks)
      fun core => banks.flatMap fun bank => bankWords bank core := by
  induction banks with
  | nil =>
    intro first second words core hseen next hturn
    simpa using hseen.turn hturn
  | cons bank banks ih =>
    intro first second words core hseen
    have hbank := @readBank_seen config times before after hready hlayout bank _ _ _ _ hseen
    refine Bus.Secures.bind (hbank.mono ?_) (Core.Turns.refl _ _)
    intro head core hhead
    refine Bus.Secures.bind ((ih _ _ _ core hhead).mono ?_) (Core.Turns.refl _ _)
    intro rest core hrest next hturn
    simpa [List.flatMap_cons] using hrest.turn hturn

theorem readAll_seen : ReadsOn config times before after (readAll config.layout)
    (registerWords config.layout) := by
  cases hlayout : config.layout with
  | count =>
    intro first second words core hseen
    have hread : ∀ word (core : Core) now, True → core.readyAt = none → True ∧
        (core.read config now word).1 = core.face.readCount word := by
      intro word core now _ hnone
      rw [Core.read, hlayout, Core.refresh_of_readyAt hnone]
      dsimp only
      exact ⟨trivial, Core.readCount_face word core⟩
    have hall := @gets_seen config times before after core first second words Bus.getFrom id
      (fun _ _ => True) (fun word core => core.readCount word) 0 CountWindow.size (fun _ => rfl)
      (fun _ _ => rfl) (fun _ _ _ _ _ => trivial) hread hready trivial hseen
    simp only [readAll, registerWords]
    with_reducible exact hall
  | mask =>
    have hcurrent : ∀ (core : Core) now, core.readyAt = none →
        (core.read config now MaskWindow.nonceCurrent).1 = core.face.nonceCurrent := by
      intro core now hnone
      have hread := read_nonceCurrentWord config now core
      rw [hlayout, Core.refresh_of_readyAt hnone] at hread
      exact congrArg Prod.fst hread
    have hstatus : ∀ (core : Core) now, core.readyAt = none →
        (core.read config now MaskWindow.status).1 = core.face.status.bits := by
      intro core now hnone
      have hread := read_statusWord config now core
      rw [hlayout, Core.refresh_of_readyAt hnone] at hread
      exact congrArg Prod.fst hread
    have hbanks := @readBanks_seen config times before after hready hlayout Bank.all
    have hrest := @ReadsOn.cons config times before after _ _ MaskWindow.nonceCurrent
      (fun core => core.nonceCurrent) hready hcurrent hbanks
    have hall := @ReadsOn.cons config times before after _ _ MaskWindow.status
      (fun core => core.status.bits) hready hstatus hrest
    simp only [Bus.bind, Bus.bind_assoc] at hall
    have hwords : registerWords .mask = fun core => core.status.bits :: core.nonceCurrent ::
        Bank.all.flatMap fun bank => bankWords bank core := rfl
    rw [readAll_mask, hwords]
    exact hall

end Programs

/-- The words of all registers, read with nothing in between. -/
theorem run_readAll {core : Core} (hready : core.readyAt = none) (now : Nat) :
    ((readAll config.layout).run (Core.registerFile config now) core).1 =
      registerWords config.layout core.face := by
  have hnone : core.face.readyAt = none ∧ core.face.readyAt = none := ⟨hready, hready⟩
  have hsecures := @readAll_seen config (fun _ => True) _ _ hnone [] [] [] core (Seen.begin rfl)
  obtain ⟨k, hwords⟩ := (@Bus.Secures.run _ _ _ _ _ _ _ hsecures (Core.Turns.refl _ _) now trivial).mixed
  simpa using hwords

def closing (layout : RegisterLayout) (words : List UInt32) : Bus Reply :=
  (setDebugEnable layout true).bind fun _ => .done (.registers words)

def afterHalt (layout : RegisterLayout) : Bus Reply := (readAll layout).bind (closing layout)

theorem program_dump (layout : RegisterLayout) : Driver.program layout .getDebugRegisters =
    .ok ((setDebugEnable layout false).bind fun _ => afterHalt layout) := by
  have hdump : dump layout = (setDebugEnable layout false).bind fun _ =>
      (readAll layout).bind fun words => (setDebugEnable layout true).bind fun _ => .done words := rfl
  have hclosing : closing layout = fun words =>
      (setDebugEnable layout true).bind fun _ => .done (.registers words) := rfl
  cases layout <;> simp only [program, hdump, hclosing, afterHalt, Bus.bind_assoc, Bus.bind]

/-- The only writes of a reading program are selections. -/
def Selects (config : CoreConfig) (word : Nat) (value : UInt32) : Prop :=
  config.layout = .mask ∧ word = MaskWindow.command ∧ ∃ bank, value = Bank.select bank

theorem readAll_selects (config : CoreConfig) :
    (readAll config.layout).Writes (Selects config) := by
  cases hlayout : config.layout with
  | count => exact Bus.writes_getFrom _
  | mask =>
    rw [readAll_mask]
    intro status current
    refine (writes_readBanks (fun bank => ⟨hlayout, rfl, bank, rfl⟩) _).bind fun words => trivial

/-- An access of a reading program leaves the search of a held core where it is. -/
theorem advance_selecting {α : Type} {program : Bus α} {core : Core} (hcore : core.Unready)
    (h : program.Writes (Selects config)) (now : Nat) :
    core.Stands (program.advance (Core.registerFile config now) core).2 ∧
      (program.advance (Core.registerFile config now) core).2.face = core.face := by
  cases program with
  | done value => exact ⟨.refl core, rfl⟩
  | read word next => exact ⟨Core.read_stands hcore word, Core.read_face hcore.readyAt now word⟩
  | write word value next =>
    obtain ⟨⟨hlayout, rfl, bank, rfl⟩, -⟩ := h
    have hwrite := @Core.write_select config core now hlayout bank
    rw [Bus.advance, Core.registerFile]
    simp only [hwrite]
    exact ⟨⟨rfl, rfl, rfl, rfl, rfl, rfl⟩, rfl⟩
  | writeByte word value next =>
    obtain ⟨⟨hlayout, rfl, bank, hvalue⟩, -⟩ := h
    have hwrite := @Core.write_select config core now hlayout bank
    rw [Bus.advance, Core.registerFile]
    simp only [hvalue, hwrite]
    exact ⟨⟨rfl, rfl, rfl, rfl, rfl, rfl⟩, rfl⟩

end Driver

theorem Bus.advance_bind {α β σ : Type} {program : Bus α} (h : ∀ value, program ≠ .done value)
    (f : α → Bus β) (file : RegisterFile σ) (s : σ) :
    (program.bind f).advance file s =
      ((program.advance file s).1.bind f, (program.advance file s).2) := by
  cases program with
  | done value => exact absurd rfl (h value)
  | read word next => rfl
  | write word value next => rfl
  | writeByte word value next => rfl

/-! ### A dump among everything else -/

namespace Rig

variable (config : CoreConfig)

def engine (rig : Rig) : Engine := { core := rig.core, now := rig.now, hashing := rig.hashing }

def readout (rig : Rig) (core : Core) : List UInt32 :=
  ((Driver.readAll config.layout).run (rig.window config) core).1

def afterBatch (rig : Rig) : Core :=
  match rig.hashing rig.core.run with
  | some job => rig.core.commit config rig.core.run job.next (Core.hashBatch config job)
  | none => rig.core

/-- Whatever happens while a request keeps the lock, except that a hook stalls or releases the core. -/
inductive Occupied (rig : Rig) : Rig → Prop where
  | here : Occupied rig rig
  | move {mid : Rig} (before : Occupied rig mid) (move : Move)
    (busy : (mid.act config move).lock.isSome) (stall : move ≠ .stall)
    (release : move ≠ .setHalted false) : Occupied rig (mid.act config move)

/-- What a dump that is still reading relies on. -/
structure Steady (rig mid : Rig) : Prop where
  standing : Engine.Standing config rig.engine mid.engine
  parameters : mid.core.parameters = rig.core.parameters
  halted : mid.core.halted = true

/-- A dump of a core that was held from one moment on: it is still reading, or it has read its
    words. -/
inductive Dump (rig mid : Rig) : Prop where
  | reading (program : Bus (List UInt32))
    (lock : mid.lock = some (.request .getDebugRegisters (program.bind (Driver.closing config.layout))))
    (unfinished : ∀ words, program ≠ .done words) (selects : program.Writes (Driver.Selects config))
    (secures : program.Secures config (fun _ => True)
      (Core.Turns rig.core.face (rig.afterBatch config).face)
      (Seen rig.core.face (rig.afterBatch config).face (Driver.registerWords config.layout rig.core.face)
        (Driver.registerWords config.layout (rig.afterBatch config).face)) mid.core)
    (steady : Steady config rig mid)
  | closing (words : List UInt32) (rest : Bus Reply)
    (lock : mid.lock = some (.request .getDebugRegisters rest))
    (mixed : ∃ k, words = (Driver.registerWords config.layout rig.core.face).take k ++
      (Driver.registerWords config.layout (rig.afterBatch config).face).drop k)
    (ends : rest.Secures config (fun _ => True) (fun _ _ => True)
      (fun reply _ => reply = .registers words) mid.core)

variable {config} {rig mid : Rig}

theorem search_engine (rig : Rig) (run : Nat) :
    (rig.search config run).engine = rig.engine.search config run := by
  unfold search Engine.search
  cases hhashing : rig.hashing run with
  | some job =>
    have hengine : rig.engine.hashing run = some job := hhashing
    rw [hengine]
    rfl
  | none =>
    have hengine : rig.engine.hashing run = none := hhashing
    rw [hengine]
    have htake : rig.engine.core.take run = rig.core.take run := rfl
    rw [htake]
    cases rig.core.take run <;> rfl

theorem search_lock (rig : Rig) (run : Nat) : (rig.search config run).lock = rig.lock := by
  unfold search
  split
  · split <;> rfl
  · rfl

/-- What does not concern the core leaves a request, the core and the searchers as they are. -/
theorem act_aside {rest : Bus Reply} {asked : Request} (hlock : rig.lock = some (.request asked rest))
    {move : Move} (hproceed : move ≠ .proceed) (hsearch : ∀ run, move ≠ .search run)
    (hspurious : move ≠ .raiseSpurious) (hstall : move ≠ .stall)
    (hhalt : ∀ halted, move ≠ .setHalted halted) :
    (rig.act config move).lock = rig.lock ∧ (rig.act config move).core = rig.core ∧
      (rig.act config move).hashing = rig.hashing := by
  cases move with
  | pass duration => exact ⟨rfl, rfl, rfl⟩
  | acquire => exact ⟨rfl, rfl, rfl⟩
  | release =>
    have hsame : rig.act config .release = rig := by simp only [act, hlock]
    rw [hsame]
    exact ⟨rfl, rfl, rfl⟩
  | request other =>
    have hsame : rig.act config (.request other) = rig := by
      simp only [act, beginRequest, hlock]
      split <;> simp_all
    rw [hsame]
    exact ⟨rfl, rfl, rfl⟩
  | serve =>
    have hcall : rig.act config .serve = rig.answerCall config := by simp only [act, serve, hlock]
    rw [hcall, answerCall]
    split
    · split
      · next hfree =>
        rw [hlock] at hfree
        cases hfree
      · exact ⟨rfl, rfl, rfl⟩
    · split
      · exact ⟨rfl, rfl, rfl⟩
      · exact ⟨rfl, rfl, rfl⟩
  | read room =>
    simp only [act]
    split
    · exact ⟨rfl, rfl, rfl⟩
    · exact ⟨rfl, rfl, rfl⟩
  | proceed => exact absurd rfl hproceed
  | search run => exact absurd rfl (hsearch run)
  | raiseSpurious => exact absurd rfl hspurious
  | stall => exact absurd rfl hstall
  | setHalted halted => exact absurd rfl (hhalt halted)

variable {next : Rig}

theorem Steady.same (h : Steady config rig mid) (hcore : next.core = mid.core)
    (hhashing : next.hashing = mid.hashing) : Steady config rig next := by
  have hstands : mid.core.Stands next.core := by
    rw [hcore]
    exact .refl mid.core
  exact ⟨h.standing.trans_stands hstands hhashing, hcore ▸ h.parameters, hcore ▸ h.halted⟩

theorem Steady.search (h : Steady config rig mid) (hrig : rig.core.halted = true) (run : Nat) :
    Steady config rig (mid.search config run) ∧
      Core.Turns rig.core.face (rig.afterBatch config).face mid.core (mid.search config run).core := by
  have hstanding : Engine.Standing config rig.engine (mid.search config run).engine := by
    rw [search_engine]
    exact h.standing.search h.halted run
  have hcases := h.standing.search_cases h.halted run
  rw [← search_engine] at hcases
  -- Only a batch that the searcher had in hand when the core was halted makes the core turn.
  rcases hcases with ⟨hsame, -⟩ | ⟨job, hhand, hstands, hcommit, -⟩
  · have hcore : (mid.search config run).core = mid.core := hsame
    exact ⟨⟨hstanding, hcore ▸ h.parameters, hcore ▸ h.halted⟩, hcore ▸ .refl _ _ _⟩
  · have hcore : (mid.search config run).core =
        mid.core.commit config rig.core.run job.next (Core.hashBatch config job) := hcommit
    have hafter : rig.afterBatch config =
        rig.core.commit config rig.core.run job.next (Core.hashBatch config job) := by
      have hhashing : rig.hashing rig.core.run = some job := hhand
      rw [afterBatch, hhashing]
    have hdrifts := @Core.commit_drifts config mid.core rig.core.run job.next (Core.hashBatch config job)
    have hbefore := @Core.commit_drifts config rig.core rig.core.run job.next (Core.hashBatch config job)
    have hhalted := h.halted.trans hrig.symm
    rw [hcore, hafter]
    refine ⟨⟨hstanding, ?_, ?_⟩, hdrifts.bank, hdrifts.cursor, .inr ⟨?_, ?_⟩⟩
    · rw [hcore]
      exact hdrifts.parameters.trans h.parameters
    · rw [hcore, Core.commit_halted]
      exact h.halted
    · exact Core.Stands.face hstands h.parameters hhalted
    · refine (hstands.commit _ _ _).face ?_ ?_
      · exact (hdrifts.parameters.trans h.parameters).trans hbefore.parameters.symm
      · rw [Core.commit_halted, Core.commit_halted]
        exact hhalted

/-- While a dump is still reading, whatever others do is a turn of the core. -/
theorem Steady.others (h : Steady config rig mid) (hrig : rig.core.halted = true) {asked : Request}
    {rest : Bus Reply} (hlock : mid.lock = some (.request asked rest)) {move : Move}
    (hproceed : move ≠ .proceed) (hstall : move ≠ .stall) (hrelease : move ≠ .setHalted false) :
    (mid.act config move).lock = mid.lock ∧ Steady config rig (mid.act config move) ∧
      Core.Turns rig.core.face (rig.afterBatch config).face mid.core (mid.act config move).core := by
  by_cases hsearch : ∃ run, move = .search run
  · obtain ⟨run, rfl⟩ := hsearch
    exact ⟨mid.search_lock run, h.search hrig run⟩
  by_cases hspurious : move = .raiseSpurious
  · subst hspurious
    have hstands : mid.core.Stands mid.core.raiseSpurious := ⟨rfl, rfl, rfl, rfl, rfl, rfl⟩
    exact ⟨rfl, ⟨h.standing.trans_stands hstands rfl, h.parameters, h.halted⟩, rfl, rfl, .inl rfl⟩
  by_cases hhalt : ∃ halted, move = .setHalted halted
  · obtain ⟨halted, rfl⟩ := hhalt
    cases halted with
    | false => exact absurd rfl hrelease
    | true =>
      have hcore : mid.core.setHalted true = mid.core := by
        rw [Core.setHalted, ← h.halted]
      exact ⟨rfl, h.same hcore rfl, hcore ▸ .refl _ _ _⟩
  · obtain ⟨hlock', hcore, hhashing⟩ := @act_aside config mid rest asked hlock move hproceed
      (fun run hmove => hsearch ⟨run, hmove⟩) hspurious hstall fun halted hmove => hhalt ⟨halted, hmove⟩
    exact ⟨hlock', h.same hcore hhashing, hcore ▸ .refl _ _ _⟩

/-- A dump reads on, or has read all its words. -/
theorem Dump.of_reading {program : Bus (List UInt32)}
    (hlock : mid.lock =
      some (.request .getDebugRegisters (program.bind (Driver.closing config.layout))))
    (hselects : program.Writes (Driver.Selects config))
    (hsecures : program.Secures config (fun _ => True)
      (Core.Turns rig.core.face (rig.afterBatch config).face)
      (Seen rig.core.face (rig.afterBatch config).face (Driver.registerWords config.layout rig.core.face)
        (Driver.registerWords config.layout (rig.afterBatch config).face)) mid.core)
    (hsteady : Steady config rig mid) : Dump config rig mid := by
  by_cases hdone : ∃ words, program = .done words
  · obtain ⟨words, rfl⟩ := hdone
    have hseen := hsecures mid.core (.refl _ _ _)
    exact .closing words _ hlock hseen.mixed (Bus.secures_bind_done (fun _ => rfl) _ _)
  · exact .reading program hlock (fun words hwords => hdone ⟨words, hwords⟩) hselects hsecures hsteady

theorem afterBatch_readyAt (hcore : rig.core.Unready) : (rig.afterBatch config).readyAt = none := by
  unfold afterBatch
  split
  · exact (Core.commit_unready hcore _ _ _).readyAt
  · exact hcore.readyAt

theorem Dump.begin (hcore : rig.core.Unready) (hrig : rig.core.halted = true)
    (hlock : rig.lock = some (.request .getDebugRegisters (Driver.afterHalt config.layout))) :
    Dump config rig rig := by
  have hready : rig.core.face.readyAt = none ∧ (rig.afterBatch config).face.readyAt = none :=
    ⟨hcore.readyAt, afterBatch_readyAt hcore⟩
  have hsecures := @Driver.readAll_seen config (fun _ => True) _ _ hready [] [] [] rig.core (.begin rfl)
  exact .of_reading hlock (Driver.readAll_selects config) hsecures ⟨.refl _, rfl, hrig⟩

theorem Dump.access {program : Bus (List UInt32)} (hcore : rig.core.Unready)
    (hlock : mid.lock =
      some (.request .getDebugRegisters (program.bind (Driver.closing config.layout))))
    (hunfinished : ∀ words, program ≠ .done words)
    (hselects : program.Writes (Driver.Selects config))
    (hsecures : program.Secures config (fun _ => True)
      (Core.Turns rig.core.face (rig.afterBatch config).face)
      (Seen rig.core.face (rig.afterBatch config).face (Driver.registerWords config.layout rig.core.face)
        (Driver.registerWords config.layout (rig.afterBatch config).face)) mid.core)
    (hsteady : Steady config rig mid) : Dump config rig (mid.act config .proceed) := by
  have hmid : mid.core.Unready := hsteady.standing.unready hcore
  obtain ⟨hstands, hface⟩ := Driver.advance_selecting hmid hselects mid.now
  have hrest : ∀ reply, program.bind (Driver.closing config.layout) ≠ .done reply := by
    cases program with
    | done words => exact absurd rfl (hunfinished words)
    | _ => exact nofun
  rw [act_access hlock hrest, Bus.advance_bind hunfinished]
  refine .of_reading rfl hselects.advance (hsecures.advance (.refl _ _) mid.now trivial) ?_
  refine ⟨hsteady.standing.trans_stands hstands rfl, ?_, ?_⟩
  · have hsame := congrArg Core.parameters hface
    exact Eq.trans hsame hsteady.parameters
  · have hsame := congrArg Core.halted hface
    exact Eq.trans hsame hsteady.halted

/-- Nothing but its own moves ends a request. -/
theorem lock_of_others {asked : Request} {rest : Bus Reply}
    (hlock : mid.lock = some (.request asked rest)) {move : Move} (hproceed : move ≠ .proceed) :
    (mid.act config move).lock = mid.lock := by
  by_cases hsearch : ∃ run, move = .search run
  · obtain ⟨run, rfl⟩ := hsearch
    exact mid.search_lock run
  by_cases hhook : move = .raiseSpurious ∨ move = .stall ∨ ∃ halted, move = .setHalted halted
  · obtain rfl | rfl | ⟨halted, rfl⟩ := hhook <;> rfl
  · simp only [not_or, not_exists] at hhook hsearch
    exact (act_aside hlock hproceed hsearch hhook.1 hhook.2.1 hhook.2.2).1

theorem Dump.step (h : Dump config rig mid) (hcore : rig.core.Unready)
    (hrig : rig.core.halted = true) {move : Move} (hbusy : (mid.act config move).lock.isSome)
    (hstall : move ≠ .stall) (hrelease : move ≠ .setHalted false) :
    Dump config rig (mid.act config move) := by
  cases h with
  | reading program lock unfinished selects secures steady =>
    by_cases hproceed : move = .proceed
    · subst hproceed
      exact .access hcore lock unfinished selects secures steady
    · obtain ⟨hlock, hsteady, hturn⟩ := steady.others hrig lock hproceed hstall hrelease
      refine .of_reading (hlock.trans lock) selects (secures.drift ?_ hturn) hsteady
      -- The core turns once: it cannot turn again when its face is no longer the first.
      intro first second third hfirst hsecond
      refine ⟨hsecond.bank.trans hfirst.bank, hsecond.cursor.trans hfirst.cursor, ?_⟩
      rcases hsecond.face with hsame | ⟨hbefore, hafter⟩
      · rw [hsame]
        exact hfirst.face
      · rcases hfirst.face with hsame | ⟨hwas, -⟩
        · exact .inr ⟨hsame.symm.trans hbefore, hafter⟩
        · exact .inr ⟨hwas, hafter⟩
  | closing words rest lock mixed ends =>
    by_cases hproceed : move = .proceed
    · subst hproceed
      by_cases hdone : ∃ reply, rest = .done reply
      · obtain ⟨reply, rfl⟩ := hdone
        rw [act_returns lock] at hbusy
        cases hbusy
      · rw [act_access lock fun reply hreply => hdone ⟨reply, hreply⟩]
        exact .closing words _ rfl mixed (ends.advance (fun _ => trivial) mid.now trivial)
    · exact .closing words rest ((lock_of_others lock hproceed).trans lock) mixed
        (ends.drift (fun _ _ _ _ _ => trivial) trivial)

theorem Occupied.dump {last : Rig} (h : Occupied config rig last) (hcore : rig.core.Unready)
    (hrig : rig.core.halted = true)
    (hlock : rig.lock = some (.request .getDebugRegisters (Driver.afterHalt config.layout))) :
    Dump config rig last := by
  induction h with
  | here => exact .begin hcore hrig hlock
  | move before move busy stall release ih => exact ih.step hcore hrig busy stall release

/-- The words of a dump are those of the halted core up to some place, and from there on those of the
    core after the batch that its searcher had in hand. -/
theorem Occupied.words {last : Rig} {reply : Reply} (h : Occupied config rig last)
    (hcore : rig.core.Unready) (hrig : rig.core.halted = true)
    (hlock : rig.lock = some (.request .getDebugRegisters (Driver.afterHalt config.layout)))
    (hreply : last.returning = some (.getDebugRegisters, reply)) :
    ∃ k, reply = .registers ((rig.readout config rig.core).take k ++
      (rig.readout config (rig.afterBatch config)).drop k) := by
  have hlast := lock_of_returning hreply
  cases h.dump hcore hrig hlock with
  | reading program lock unfinished =>
    rw [lock] at hlast
    cases program with
    | done words => exact absurd rfl (unfinished words)
    | _ => cases hlast
  | closing words rest lock mixed ends =>
    rw [lock] at hlast
    cases hlast
    obtain ⟨k, hwords⟩ := mixed
    refine ⟨k, ?_⟩
    rw [readout, readout, window, Driver.run_readAll hcore.readyAt,
      Driver.run_readAll (afterBatch_readyAt hcore), ← hwords]
    exact ends last.core trivial

/-- **A held core takes in one batch at most**: the one that its searcher had in hand. A dump may see
    the core before it and after it. -/
theorem held_cores_take_in_one_batch :
    (∀ engine next : Engine, Engine.Reached config engine → engine.core.halted = true →
      engine.core.job.isSome → Engine.Held config engine next →
      next.core.readings = engine.core.readings ∨
        ∃ job, engine.hashing engine.core.run = some job ∧ next.core.readings =
          (engine.core.commit config engine.core.run job.next (Core.hashBatch config job)).readings) ∧
    (∀ (rig last : Rig) (past : List Event) (reply : Reply), Reached config rig past →
      rig.lock = some (.request .getDebugRegisters (Driver.afterHalt config.layout)) →
      rig.core.halted = true → rig.core.job.isSome → Occupied config rig last →
      last.returning = some (.getDebugRegisters, reply) →
      ∃ k, reply = .registers ((rig.readout config rig.core).take k ++
        (rig.readout config (rig.afterBatch config)).drop k)) := by
  constructor
  · intro engine next hreached hhalted hjob hheld
    have hunready := hreached.consistent.unready hjob
    cases hheld.standing hunready hhalted with
    | untouched stands => exact .inl stands.readings
    | committed job inHand stands => exact .inr ⟨job, inHand, stands.readings⟩
  · intro rig last past reply hreached hlock hhalted hjob hoccupied hreply
    have hunready := hreached.sound.consistent.unready hjob
    exact hoccupied.words hunready hhalted hlock hreply

theorem Occupied.follow (h : Occupied config rig mid) (past : List Event) {moves : List Move}
    (hmoves : .stall ∉ moves ∧ .setHalted false ∉ moves)
    (hbusy : ∀ n < moves.length, (follow config (moves.take (n + 1)) mid past).1.lock.isSome) :
    Occupied config rig (follow config moves mid past).1 := by
  induction moves generalizing mid past with
  | nil => exact h
  | cons move moves ih =>
    simp only [List.mem_cons, not_or] at hmoves
    obtain ⟨⟨hstall, hstalls⟩, hrelease, hreleases⟩ := hmoves
    have hfirst := hbusy 0 (Nat.succ_pos _)
    have hnext := h.move move hfirst (Ne.symm hstall) (Ne.symm hrelease)
    exact ih hnext _ ⟨hstalls, hreleases⟩ fun n hn => hbusy (n + 1) (Nat.succ_lt_succ hn)

/-- On the count layout, the first access of a dump halts the core. -/
theorem dump_halts (hlayout : config.layout = .count) (hlock : rig.lock = none)
    (hheld : rig.driver.held = true) :
    ((rig.act config (.request .getDebugRegisters)).act config .proceed).lock =
      some (.request .getDebugRegisters (Driver.afterHalt config.layout)) := by
  have hbegins : rig.act config (.request .getDebugRegisters) = { rig with
      lock := some (.request .getDebugRegisters
        ((Driver.setDebugEnable config.layout false).bind fun _ => Driver.afterHalt config.layout)) } := by
    simp only [act, beginRequest, hheld, hlock, Driver.program_dump]
  have hrest : ∀ reply, (Driver.setDebugEnable config.layout false).bind
      (fun _ => Driver.afterHalt config.layout) ≠ .done reply := by
    intro reply hreply
    rw [hlayout] at hreply
    cases hreply
  rw [hbegins, act_access rfl hrest, hlayout]
  rfl

/-! The searcher has the only batch in hand when the core is halted, and commits it. A dump reads the
current nonce before that and the status after it. -/

def haltedEngine : Engine :=
  Engine.follow singleNonce
    [.write CountWindow.control Control.reset, .write CountWindow.control Control.start, .search 1,
      .write CountWindow.debugEnable 0] {}

def searching : Rig × List Event :=
  follow singleNonce
    [.acquire, .request .reset, .proceed, .proceed, .request .start, .proceed, .proceed, .search 1] {} []

def dumping : Rig × List Event :=
  follow singleNonce [.request .getDebugRegisters, .proceed] searching.1 searching.2

def dumpMoves : List Move :=
  List.replicate 14 .proceed ++ .search 1 :: List.replicate 4 .proceed

def dumped : Rig × List Event := follow singleNonce dumpMoves dumping.1 dumping.2

theorem dumping_lock :
    dumping.1.lock = some (.request .getDebugRegisters (Driver.afterHalt .count)) := by
  have hfree : searching.1.lock.isNone ∧ searching.1.driver.held = true := by decide +kernel
  exact dump_halts rfl (Option.isNone_iff_eq_none.mp hfree.1) hfree.2

theorem dumping_occupied : Occupied singleNonce dumping.1 dumped.1 :=
  Occupied.here.follow dumping.2 (by decide) (by decide +kernel)

theorem haltedEngine_held :
    Engine.Held singleNonce haltedEngine (haltedEngine.act singleNonce (.search 1)) :=
  .search .here (by decide +kernel) 1

theorem batch_in_hand_is_taken_in :
    ((haltedEngine.search singleNonce 1).core.readings = haltedEngine.core.readings ∨
      ∃ job, haltedEngine.hashing haltedEngine.core.run = some job ∧
        (haltedEngine.search singleNonce 1).core.readings =
          (haltedEngine.core.commit singleNonce haltedEngine.core.run job.next
            (Core.hashBatch singleNonce job)).readings) ∧
    ∃ reply k, dumped.1.returning = some (.getDebugRegisters, reply) ∧
      reply = .registers ((dumping.1.readout singleNonce dumping.1.core).take k ++
        (dumping.1.readout singleNonce (dumping.1.afterBatch singleNonce)).drop k) := by
  have hengine : Engine.Reached singleNonce haltedEngine := Engine.Reached.powered.follow _
  have hdumping : Reached singleNonce dumping.1 dumping.2 := (Reached.bound.follow _).follow _
  have hrun : haltedEngine.core.halted = true ∧ haltedEngine.core.job.isSome ∧
      dumping.1.core.halted = true ∧ dumping.1.core.job.isSome ∧
      dumped.1.returning.map Prod.fst = some .getDebugRegisters := by
    decide +kernel
  obtain ⟨hhalted, hjob, hstill, hsearching, hreturning⟩ := hrun
  obtain ⟨⟨_, reply⟩, hreply, rfl⟩ := Option.map_eq_some_iff.mp hreturning
  obtain ⟨hcores, hdumps⟩ := @held_cores_take_in_one_batch singleNonce
  obtain ⟨k, hwords⟩ :=
    hdumps _ _ _ _ hdumping dumping_lock hstill hsearching dumping_occupied hreply
  exact ⟨hcores _ _ hengine hhalted hjob haltedEngine_held, reply, k, hreply, hwords⟩

theorem dump_may_be_torn :
    ¬ (∀ engine next : Engine, Engine.Reached singleNonce engine → engine.core.halted = true →
      engine.core.job.isSome → Engine.Held singleNonce engine next →
      next.core.readings = engine.core.readings) ∧
    ¬ (∀ (rig : Rig) (moves : List Move) (past : List Event) (reply : Reply),
      Reached singleNonce rig past →
      rig.lock = some (.request .getDebugRegisters (Driver.afterHalt singleNonce.layout)) →
      rig.core.halted = true → rig.core.job.isSome →
      Occupied singleNonce rig (follow singleNonce moves rig past).1 →
      (follow singleNonce moves rig past).1.returning = some (.getDebugRegisters, reply) →
      ∃ n ≤ moves.length, reply = .registers (rig.readout singleNonce
        (follow singleNonce (moves.take n) rig past).1.core)) := by
  constructor
  · intro hstill
    have hengine : Engine.Reached singleNonce haltedEngine := Engine.Reached.powered.follow _
    have hsame := hstill _ _ hengine (by decide +kernel) (by decide +kernel) haltedEngine_held
    exact absurd hsame (by decide +kernel)
  · intro hsnapshot
    have hdumping : Reached singleNonce dumping.1 dumping.2 := (Reached.bound.follow _).follow _
    have hreturning : dumped.1.returning.map Prod.fst = some .getDebugRegisters := by decide +kernel
    obtain ⟨⟨_, reply⟩, hreply, rfl⟩ := Option.map_eq_some_iff.mp hreturning
    have htorn : ∀ n ≤ dumpMoves.length, dumped.1.returning ≠ some (.getDebugRegisters,
        .registers (dumping.1.readout singleNonce
          (follow singleNonce (dumpMoves.take n) dumping.1 dumping.2).1.core)) := by
      decide +kernel
    obtain ⟨n, hn, hwords⟩ := hsnapshot _ _ _ _ hdumping dumping_lock (by decide +kernel)
      (by decide +kernel) dumping_occupied hreply
    exact htorn n hn (hwords ▸ hreply)

end Rig

end NonceSearch
