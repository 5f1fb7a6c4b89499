import NonceSearch.Proofs.Banks
import NonceSearch.Proofs.ParameterPrograms

/-!
# The data port

On the mask layout the banks are reached through one data word. Every transfer through it, in or out, goes
to the word at the cursor and moves the cursor on, also past the end of the bank. Only a selection and a
reset take the cursor back. So what was stored into a bank after selecting it is read from it after
selecting it again (`data_port_has_one_cursor`).
-/

namespace NonceSearch

/-! ### Accesses -/

/-- One access to a register window, and when it takes place. A byte is stored as the word that holds only
    it. -/
inductive Touch where
  | read (now word : Nat)
  | write (now word : Nat) (value : UInt32)
  deriving DecidableEq, Repr

/-- The bank that a command word selects. -/
def Bank.selectedBy? (word : UInt32) : Option Bank := Bank.all.find? fun bank => bank.select == word

theorem Bank.selectedBy?_select (bank : Bank) : selectedBy? bank.select = some bank := by
  cases bank <;> decide

theorem Bank.selectedBy?_eq_none {word : UInt32} (h : ∀ bank, Command.decode word ≠ .select bank) :
    selectedBy? word = none := by
  apply List.find?_eq_none.mpr
  intro bank _ hselect
  exact h bank (Command.decode_eq_select_iff.mpr (eq_of_beq hselect).symm)

/-- What a transfer answers with when this word is at the cursor. -/
def Touch.answer (word : UInt32) : Option UInt32 → Option UInt32
  | some _ => none
  | none => some word

/-- What a transfer makes of a word at the cursor. -/
def Bank.leave (bank : Bank) (old : UInt32) : Option UInt32 → UInt32
  | some value => bank.keep value old
  | none => old

theorem Bank.mapIdx_leave (bank : Bank) (values words : List UInt32) :
    words.mapIdx (fun i old => bank.leave old values[i]?) =
      List.zipWith bank.keep values words ++ words.drop values.length := by
  induction words generalizing values with
  | nil => simp
  | cons old words ih =>
    rw [List.mapIdx_cons]
    cases values with
    | nil => exact congrArg (old :: ·) (ih [])
    | cons value values => exact congrArg (bank.keep value old :: ·) (ih values)

namespace Touch

def select (now : Nat) (bank : Bank) : Touch := .write now MaskWindow.command bank.select

/-- A transfer through the data word, of a word into the core or of one out of it. -/
def transfer : Nat × Option UInt32 → Touch
  | (now, some value) => .write now MaskWindow.data value
  | (now, none) => .read now MaskWindow.data

/-- The cursor of a bank moves on. There is nothing to move on in as long as no bank is selected. -/
def advance : Option Bank × Nat → Option Bank × Nat
  | (none, cursor) => (none, cursor)
  | (some bank, cursor) => (some bank, cursor + 1)

/-- Where an access takes the selected bank and the cursor. -/
def moves (place : Option Bank × Nat) : Touch → Option Bank × Nat
  | .read _ word => if word = MaskWindow.data then advance place else place
  | .write _ word value =>
    if word = MaskWindow.data then advance place
    else if word = MaskWindow.command then
      if value = Control.reset then (none, 0)
      else match Bank.selectedBy? value with
        | some bank => (some bank, 0)
        | none => place
    else place

end Touch

namespace Core

variable {config : CoreConfig} {core : Core} {bank : Bank} {now k : Nat}

def touch (config : CoreConfig) (core : Core) : Touch → Option UInt32 × Core
  | .read now word => (some (core.read config now word).1, (core.read config now word).2)
  | .write now word value => (none, core.write config now word value)

def touchAll (config : CoreConfig) : List Touch → Core → List (Option UInt32) × Core
  | [], core => ([], core)
  | touch :: touches, core =>
    let (answer, next) := core.touch config touch
    let (answers, last) := touchAll config touches next
    (answer :: answers, last)

def place (core : Core) : Option Bank × Nat := (core.bank, core.cursor)

/-! ### The place -/

theorem place_refresh : (core.refresh now).place = core.place := by
  unfold refresh
  split
  · split <;> rfl
  · rfl

theorem place_reset : (core.reset config now).place = (none, 0) := by
  unfold reset
  dsimp only
  split <;> rfl

theorem place_start : (core.start config now).place = core.place := by
  rw [← @place_refresh core now]
  unfold start
  dsimp only
  split <;> rfl

theorem place_step : (core.step config).place = core.place := by
  unfold step
  split
  · rfl
  · split
    · have hdrift := @conclude_drifts config core
      exact Prod.ext (hdrift _ _).bank (hdrift _ _).cursor
    · rfl

theorem place_control (word : UInt32) : (core.control config now word).place =
    if word = Control.reset then (none, 0) else core.place := by
  unfold control
  split
  · exact place_reset
  · split
    · exact place_start
    · split
      · exact place_step
      · rfl

theorem place_readData : core.readData.2.place = Touch.advance core.place := by
  unfold readData
  cases hbank : core.bank <;> simp [place, hbank, Touch.advance]

theorem place_writeData (value : UInt32) :
    (core.writeData value).place = Touch.advance core.place := by
  unfold writeData
  cases hbank : core.bank <;> simp [place, hbank, Touch.advance, putBankWord_bank]

theorem place_command (word : UInt32) : (core.command config now word).place =
    (Touch.write now MaskWindow.command word).moves core.place := by
  change _ = if word = Control.reset then (none, 0) else _
  unfold command
  cases hdecode : Command.decode word with
  | select bank =>
    obtain rfl := Command.decode_eq_select_iff.mp hdecode
    rw [if_neg (by cases bank <;> decide), Bank.selectedBy?_select]
    rfl
  | control other =>
    obtain rfl := Command.eq_of_control hdecode
    rw [Bank.selectedBy?_eq_none (by rw [hdecode]; exact nofun)]
    exact place_control other
  | invalid other =>
    have hreset : word ≠ Control.reset := by
      rintro rfl
      cases hdecode
    rw [if_neg hreset, Bank.selectedBy?_eq_none (by rw [hdecode]; exact nofun)]

/-- One access takes the place where it is said to. -/
theorem place_touch (hlayout : config.layout = .mask) (touch : Touch) :
    (core.touch config touch).2.place = touch.moves core.place := by
  cases touch with
  | read now word =>
    have hread : (core.touch config (.read now word)).2 = ((core.refresh now).readMask word).2 := by
      rw [touch, read, hlayout]
    rw [hread, ← @place_refresh core now]
    by_cases hdata : word = MaskWindow.data
    · subst hdata
      exact place_readData
    · simp only [readMask, Touch.moves, if_neg hdata]
      split_ifs <;> rfl
  | write now word value =>
    have hwrite : (core.touch config (.write now word value)).2 =
        core.writeMask config now word value := by
      rw [touch, write, hlayout]
    rw [hwrite]
    by_cases hcommand : word = MaskWindow.command
    · subst hcommand
      exact place_command value
    · simp only [writeMask, Touch.moves, if_neg hcommand]
      split
      · exact place_writeData value
      · rfl

/-- The place after any accesses follows from the accesses alone. -/
theorem place_touchAll (hlayout : config.layout = .mask) (touches : List Touch) (core : Core) :
    (touchAll config touches core).2.place = touches.foldl Touch.moves core.place := by
  induction touches generalizing core with
  | nil => rfl
  | cons touch touches ih =>
    rw [List.foldl_cons, ← place_touch hlayout]
    exact ih _

/-! ### Transfers -/

theorem bankWords_at (any : Bank) (place : Option Bank) (cursor : Nat) :
    ({ core with bank := place, cursor := cursor } : Core).bankWords any = core.bankWords any := by
  cases any <;> rfl

/-- A transfer at word `k` of the selected bank reads or changes this word and no other, and moves on. -/
theorem At.transfer (h : core.At bank k) (hlayout : config.layout = .mask)
    (transfer : Nat × Option UInt32) :
    (core.touch config (.transfer transfer)).1 =
        Touch.answer ((core.bankWords bank).getD k 0) transfer.2 ∧
      (core.touch config (.transfer transfer)).2.At bank (k + 1) ∧
      (core.touch config (.transfer transfer)).2.bankWords bank =
        (core.bankWords bank).modify k (bank.leave · transfer.2) ∧
      ∀ other, other ≠ bank →
        (core.touch config (.transfer transfer)).2.bankWords other = core.bankWords other := by
  obtain ⟨now, value?⟩ := transfer
  cases value? with
  | some value =>
    have hwrite : (core.touch config (.transfer (now, some value))).2 =
        { core.putBankWord bank k value with cursor := k + 1 } := by
      change core.write config now MaskWindow.data value = _
      rw [Core.write_data hlayout, writeData, h.bank, h.cursor]
    rw [hwrite]
    refine ⟨rfl, ⟨(putBankWord_bank bank k value).trans h.bank, rfl⟩, ?_, ?_⟩
    · exact bankWords_putBankWord bank k value
    · intro other hother
      exact bankWords_putBankWord_of_ne hother k value
  | none =>
    obtain ⟨hnext, hanswer⟩ := h.read_data hlayout now
    have hwords : ∀ any, (core.read config now MaskWindow.data).2.bankWords any = core.bankWords any := by
      intro any
      rcases @read_snd config core now MaskWindow.data with hread | hread
      · rw [hread]
        exact bankWords_refresh any now
      · rw [hread]
        exact (bankWords_at any _ _).trans (bankWords_refresh any now)
    refine ⟨?_, hnext, ?_, fun other _ => hwords other⟩
    · change some (core.read config now MaskWindow.data).1 = _
      rw [hanswer, bankWord_eq, bankWords_refresh]
      rfl
    · exact (hwords bank).trans (List.modify_id k _).symm

/-- Transfers from word `k` on go to one word each, whichever way they go. -/
theorem At.transfers (h : core.At bank k) (hlayout : config.layout = .mask)
    (transfers : List (Nat × Option UInt32)) :
    let run := touchAll config (transfers.map Touch.transfer) core
    run.1 = transfers.mapIdx (fun i transfer =>
        Touch.answer ((core.bankWords bank).getD (k + i) 0) transfer.2) ∧
      run.2.At bank (k + transfers.length) ∧
      run.2.bankWords bank = (core.bankWords bank).mapIdx (fun i old =>
        if k ≤ i then bank.leave old (transfers[i - k]?.bind Prod.snd) else old) ∧
      ∀ other, other ≠ bank → run.2.bankWords other = core.bankWords other := by
  induction transfers generalizing core k with
  | nil =>
    refine ⟨rfl, h, ?_, fun _ _ => rfl⟩
    apply List.ext_getElem
    · rw [List.length_mapIdx]
      rfl
    · intro i hi hi'
      rw [List.getElem_mapIdx]
      exact (ite_self _).symm
  | cons transfer transfers ih =>
    obtain ⟨hanswer, hnext, hwords, hothers⟩ := h.transfer hlayout transfer
    obtain ⟨hanswers, hlast, hwords', hothers'⟩ := ih hnext
    refine ⟨?_, ?_, ?_, ?_⟩
    · rw [List.mapIdx_cons]
      refine congrArg₂ List.cons hanswer (hanswers.trans ?_)
      -- The word at the cursor has changed, but the cursor is past it.
      have hrest : ∀ i, ((core.bankWords bank).modify k (bank.leave · transfer.2)).getD (k + 1 + i) 0 =
          (core.bankWords bank).getD (k + (i + 1)) 0 := by
        intro i
        have hpast : k ≠ k + 1 + i := by omega
        rw [List.getD_eq_getElem?_getD, List.getElem?_modify_ne _ _ hpast, Nat.add_assoc,
          Nat.add_comm 1, List.getD_eq_getElem?_getD]
      rw [hwords]
      simp only [hrest]
    · rw [List.length_cons, ← Nat.add_assoc, Nat.add_right_comm]
      exact hlast
    · refine hwords'.trans ?_
      rw [hwords]
      apply List.ext_getElem
      · simp
      · intro i hi hi'
        simp only [List.getElem_mapIdx, List.getElem_modify]
        rcases Nat.lt_trichotomy i k with hbefore | rfl | hafter
        · rw [if_neg (by omega), if_neg (by omega), if_neg (by omega)]
        · rw [if_neg (by omega), if_pos rfl, if_pos (Nat.le_refl _), Nat.sub_self]
          rfl
        · rw [if_pos (by omega), if_neg (by omega), if_pos (by omega),
            show i - k = i - (k + 1) + 1 by omega]
          rfl
    · intro other hother
      exact (hothers' other hother).trans (hothers other hother)

/-! ### Storing and reading back -/

def storing (bank : Bank) (now : Nat) (values : List (Nat × UInt32)) : List Touch :=
  .select now bank :: (values.map fun value => (value.1, some value.2)).map .transfer

def loading (bank : Bank) (now : Nat) (moments : List Nat) : List Touch :=
  .select now bank :: (moments.map fun moment => (moment, none)).map .transfer

theorem touch_select (hlayout : config.layout = .mask) (bank : Bank) (core : Core) :
    core.touch config (.select now bank) = (none, { core with bank := some bank, cursor := 0 }) :=
  congrArg (Prod.mk none) (write_select hlayout bank)

/-- After a selection, transfers go through the bank from its front. -/
theorem transfers_of_select (hlayout : config.layout = .mask) (transfers : List (Nat × Option UInt32)) :
    let run := touchAll config (.select now bank :: transfers.map .transfer) core
    run.1 = none :: transfers.mapIdx (fun i transfer =>
        Touch.answer ((core.bankWords bank).getD i 0) transfer.2) ∧
      run.2.bankWords bank = (core.bankWords bank).mapIdx (fun i old =>
        bank.leave old (transfers[i]?.bind Prod.snd)) ∧
      ∀ other, other ≠ bank → run.2.bankWords other = core.bankWords other := by
  let selected : Core := { core with bank := some bank, cursor := 0 }
  have hplace : selected.At bank 0 := ⟨rfl, rfl⟩
  have hselected : ∀ any, selected.bankWords any = core.bankWords any := by
    intro any
    exact bankWords_at any (some bank) 0
  obtain ⟨hanswers, -, hwords, hothers⟩ := hplace.transfers hlayout transfers
  simp only [hselected, Nat.zero_le, if_true, Nat.zero_add, Nat.sub_zero] at hanswers hwords hothers
  rw [touchAll, touch_select hlayout]
  exact ⟨congrArg (none :: ·) hanswers, hwords, hothers⟩

/-- After a selection words are stored from the front of the bank on, until there is no more room. -/
theorem bankWords_storing (hlayout : config.layout = .mask) (values : List (Nat × UInt32)) :
    (touchAll config (storing bank now values) core).2.bankWords bank =
      List.zipWith bank.keep (values.map Prod.snd) (core.bankWords bank) ++
        (core.bankWords bank).drop values.length := by
  obtain ⟨-, hwords, -⟩ := @transfers_of_select config core bank now hlayout
    (values.map fun value => (value.1, some value.2))
  have hvalues : ∀ i : Nat, (values.map fun value => (value.1, some value.2))[i]?.bind Prod.snd =
      (values.map Prod.snd)[i]? := by
    intro i
    rw [List.getElem?_map, List.getElem?_map]
    cases values[i]? <;> rfl
  simp only [hvalues] at hwords
  rw [← List.length_map Prod.snd]
  exact hwords.trans (bank.mapIdx_leave _ _)

/-- After a selection words are read from the front of the bank on, and zeros past its end. -/
theorem answers_loading (hlayout : config.layout = .mask) (moments : List Nat) :
    (touchAll config (loading bank now moments) core).1 =
      none :: ((core.bankWords bank).take moments.length ++
        List.replicate (moments.length - bank.size) 0).map some := by
  obtain ⟨hanswers, -⟩ := @transfers_of_select config core bank now hlayout
    (moments.map fun moment => (moment, none))
  refine hanswers.trans (congrArg (none :: ·) ?_)
  rw [← length_bankWords bank core]
  apply List.ext_getElem
  · simp only [List.length_mapIdx, List.length_map, List.length_append, List.length_take,
      List.length_replicate]
    omega
  · intro i hi hi'
    rw [List.getElem_mapIdx, List.getElem_map, List.getElem_map, getElem_take_append_replicate]
    rfl

/-! ### The data port -/

theorem write_invalid (hlayout : config.layout = .mask) {word other : UInt32}
    (h : Command.decode word = .invalid other) :
    core.write config now MaskWindow.command word = core := by
  rw [write, hlayout]
  change core.command config now word = core
  rw [command, h]

/-- On the mask layout, whatever state a core is in and whenever it is accessed: Transfers from any word of
    a bank on go to one word each, whichever way they go, and change no other bank. Words that are stored
    after a selection take the place of the bank's words in front, as many as there are and as there is
    room for, and what is read after another selection is the bank's words and zeros past its end. Of the
    accesses that there are, only a selection and a reset move the cursor elsewhere than on. A command word
    selects a bank if it is that bank's selection and is a control command if its select bit is clear, and
    any other does nothing. -/
theorem data_port_has_one_cursor (config : CoreConfig) (hlayout : config.layout = .mask) (core : Core) :
    (∀ bank k, core.At bank k → ∀ transfers : List (Nat × Option UInt32),
      let run := touchAll config (transfers.map .transfer) core
      run.1 = transfers.mapIdx (fun i transfer =>
          Touch.answer ((core.bankWords bank).getD (k + i) 0) transfer.2) ∧
        run.2.At bank (k + transfers.length) ∧
        run.2.bankWords bank = (core.bankWords bank).mapIdx (fun i old =>
          if k ≤ i then bank.leave old (transfers[i - k]?.bind Prod.snd) else old) ∧
        ∀ other, other ≠ bank → run.2.bankWords other = core.bankWords other) ∧
    (∀ bank now (values : List (Nat × UInt32)),
      let stored := (touchAll config (storing bank now values) core).2
      stored.bankWords bank = List.zipWith bank.keep (values.map Prod.snd) (core.bankWords bank) ++
          (core.bankWords bank).drop values.length ∧
        (∀ other, other ≠ bank → stored.bankWords other = core.bankWords other) ∧
        ∀ again moments, (touchAll config (loading bank again moments) stored).1 =
          none :: ((stored.bankWords bank).take moments.length ++
            List.replicate (moments.length - bank.size) 0).map some) ∧
    (∀ touches, (touchAll config touches core).2.place = touches.foldl Touch.moves core.place) ∧
    ∀ word : UInt32,
      (∀ bank, Command.decode word = .select bank ↔ word = bank.select) ∧
      (∀ other, Command.decode word = .control other ↔
        other = word ∧ word &&& MaskWindow.selectBit = 0) ∧
      (∀ other, Command.decode word = .invalid other ↔
        other = word ∧ word &&& MaskWindow.selectBit ≠ 0 ∧ ∀ bank : Bank, word ≠ bank.select) ∧
      (Command.decode word = .invalid word →
        ∀ now, core.write config now MaskWindow.command word = core) := by
  refine ⟨?_, ?_, ?_, ?_⟩
  · intro bank k hplace transfers
    exact hplace.transfers hlayout transfers
  · intro bank now values
    refine ⟨bankWords_storing hlayout values, ?_, ?_⟩
    · exact (transfers_of_select hlayout _).2.2
    · intro again moments
      exact answers_loading hlayout moments
  · intro touches
    exact place_touchAll hlayout touches core
  · intro word
    refine ⟨?_, ?_, ?_, ?_⟩
    · intro bank
      exact Command.decode_eq_select_iff
    · intro other
      exact Command.decode_eq_control_iff
    · intro other
      exact Command.decode_eq_invalid_iff
    · intro hinvalid now
      exact write_invalid hlayout hinvalid

/-- Four words are stored into the three words of the tail, and four are read from it. Then its second word
    is stored on its own, and there is one more to read. -/
theorem fourth_word_falls_off_the_tail :
    let config := CoreConfig.standard .mask
    let stored := (touchAll config (storing .tail 0 [(0, 1), (1, 2), (1, 3), (5, 4)]) powered).2
    let second : Core := { stored with bank := some .tail, cursor := 1 }
    stored.bankWords .tail = [1, 2, 3] ∧ stored.bankWords .mask = powered.bankWords .mask ∧
      (touchAll config (loading .tail 7 [7, 7, 8, 9]) stored).1 =
        [none, some 1, some 2, some 3, some 0] ∧
      (touchAll config ([(9, some 7), (9, none), (9, none)].map .transfer) second).1 =
        [none, some 3, some 0] := by
  intro config stored second
  obtain ⟨-, hstoring, -⟩ := data_port_has_one_cursor config rfl powered
  obtain ⟨hstored, hothers, hloaded⟩ := hstoring .tail 0 [(0, 1), (1, 2), (1, 3), (5, 4)]
  have htail : stored.bankWords .tail = [1, 2, 3] := hstored.trans (by decide)
  obtain ⟨htransfers, -⟩ := data_port_has_one_cursor config rfl second
  obtain ⟨hanswers, -⟩ := htransfers .tail 1 ⟨rfl, rfl⟩ [(9, some 7), (9, none), (9, none)]
  have hsecond : second.bankWords .tail = [1, 2, 3] := (bankWords_at .tail (some .tail) 1).trans htail
  refine ⟨htail, hothers .mask (by decide), (hloaded 7 [7, 7, 8, 9]).trans ?_, hanswers.trans ?_⟩
  · rw [htail]
    rfl
  · rw [hsecond]
    rfl

end Core

end NonceSearch
