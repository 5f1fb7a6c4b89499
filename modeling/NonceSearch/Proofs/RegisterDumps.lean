import NonceSearch.Proofs.ParameterPrograms

/-!
# Register dumps

A dump halts the core and reads every register, one access at a time, while the searchers and the
hooks may do what they like. They leave the parameters alone, so the words that hold parameters are
those of the parameters at the beginning.
-/

namespace NonceSearch

variable {config : CoreConfig} {times : Nat → Prop}

namespace Driver

variable {parameters : Parameters} {core : Core}

/-! ### Reading words -/

variable {gets : Nat → Nat → Bus (List UInt32)} {address : Nat → Nat} {stage : Nat → Core → Prop}
  {first more : Nat}

/-- Words are read one after another. -/
theorem secures_gets (hnil : ∀ k, gets k 0 = .done [])
    (hcons : ∀ k count, gets k (count + 1) = .read (address k) fun value =>
      (gets (k + 1) count).bind fun values => .done (value :: values))
    (hquiet : ∀ k core next, stage k core → core.Drifts next → stage k next)
    (hread : ∀ k core now, stage k core → stage (k + 1) (core.read config now (address k)).2)
    (h : stage first core) :
    (gets first more).Secures config times Core.Drifts
      (fun words core => words.length = more ∧ stage (first + more) core) core := by
  induction more generalizing first core with
  | zero =>
    rw [hnil]
    exact fun next hdrift => ⟨rfl, hquiet _ _ _ h hdrift⟩
  | succ more ih =>
    rw [hcons]
    intro next now _ hdrift
    refine Bus.Secures.bind ((ih (hread _ _ now (hquiet _ _ _ h hdrift))).mono ?_) .refl
    rintro words core ⟨hlength, hstage⟩ last hlast
    rw [Nat.add_right_comm, Nat.add_assoc] at hstage
    exact ⟨congrArg (· + 1) hlength, hquiet _ _ _ hstage hlast⟩

/-- The first of the words that are read are known. -/
theorem secures_known (hnil : ∀ k, gets k 0 = .done [])
    (hcons : ∀ k count, gets k (count + 1) = .read (address k) fun value =>
      (gets (k + 1) count).bind fun values => .done (value :: values))
    (hquiet : ∀ k core next, stage k core → core.Drifts next → stage k next)
    (hread : ∀ k core now, stage k core → stage (k + 1) (core.read config now (address k)).2)
    {known : List UInt32}
    (hknown : ∀ i (hi : i < known.length) core now, stage (first + i) core →
      (core.read config now (address (first + i))).1 = known[i])
    (h : stage first core) :
    (gets first (known.length + more)).Secures config times Core.Drifts
      (fun words core => (∃ rest, rest.length = more ∧ words = known ++ rest) ∧
        stage (first + (known.length + more)) core) core := by
  induction known generalizing first core with
  | nil =>
    rw [List.length_nil, Nat.zero_add]
    exact (secures_gets hnil hcons hquiet hread h).mono
      fun words core ⟨hlength, hstage⟩ => ⟨⟨words, hlength, rfl⟩, hstage⟩
  | cons value known ih =>
    rw [List.length_cons, Nat.add_right_comm, hcons]
    intro next now _ hdrift
    have hstage := hquiet _ _ _ h hdrift
    have hvalue := hknown 0 (Nat.succ_pos _) next now hstage
    have hlater : ∀ i (hi : i < known.length) core now, stage (first + 1 + i) core →
        (core.read config now (address (first + 1 + i))).1 = known[i] := by
      intro i hi core now hstage
      rw [Nat.add_right_comm, Nat.add_assoc] at hstage ⊢
      exact hknown (i + 1) (Nat.succ_lt_succ hi) core now hstage
    refine Bus.Secures.bind ((ih hlater (hread _ _ now hstage)).mono ?_) .refl
    rintro _ core ⟨⟨rest, hlength, rfl⟩, hstage⟩ last hlast
    rw [Nat.add_right_comm, Nat.add_assoc] at hstage
    refine ⟨⟨rest, hlength, ?_⟩, hquiet _ _ _ hstage hlast⟩
    rw [List.cons_append]
    exact congrArg (· :: _) hvalue

/-- A bank is read out word by word. -/
theorem readBank_secures {bank : Bank} (hlayout : config.layout = .mask) {known : List UInt32}
    (hlength : known.length = bank.size)
    (hknown : ∀ i (hi : i < known.length) core, Core.Has parameters core →
      core.bankWord bank i = known[i]) (hcore : core.Has parameters) :
    (readBank bank).Secures config times Core.Drifts
      (fun words core => words = known ∧ core.Has parameters) core := by
  intro before now _ hbefore
  rw [Core.write_select hlayout, ← hlength]
  have hhas : before.Has parameters := hcore.drift hbefore
  let stage (k : Nat) (core : Core) : Prop := core.At bank k ∧ core.Has parameters
  have hstage : stage 0 { before with bank := some bank, cursor := 0 } := ⟨⟨rfl, rfl⟩, hhas⟩
  refine (@secures_known config times _ (fun _ => Bus.getAll MaskWindow.data)
    (fun _ => MaskWindow.data) stage 0 0 (fun _ => rfl) (fun _ _ => rfl)
    (fun k core next h hdrift => ⟨h.1.drift hdrift, h.2.drift hdrift⟩)
    (fun k core now h => ⟨(h.1.read_data hlayout now).1, (Core.read_parameters _).trans h.2⟩)
    known (fun i hi core now h => ?_) hstage).mono ?_
  · rw [Nat.zero_add] at h
    rw [(h.1.read_data hlayout now).2]
    exact hknown i hi _ (Core.refresh_parameters.trans h.2)
  · rintro _ core ⟨⟨rest, hnone, rfl⟩, hstage⟩
    rw [List.length_eq_zero_iff.mp hnone, List.append_nil]
    exact ⟨rfl, hstage.2⟩

/-- A string in a bank is read out as its words. -/
theorem readString_secures {n : Nat} {bank : Bank} (hlayout : config.layout = .mask)
    (field : Core → Bytes n) (hsize : n / 4 = bank.size)
    (hword : ∀ core i, i < bank.size → Core.bankWord bank i core = (field core).word i)
    {target : Bytes n} (hfield : ∀ core, Core.Has parameters core → field core = target)
    (hcore : core.Has parameters) :
    (readBank bank).Secures config times Core.Drifts
      (fun words core => words = target.words.toList ∧ core.Has parameters) core := by
  refine readBank_secures hlayout (by rw [Vector.length_toList, hsize]) (fun i hi core hhas => ?_) hcore
  rw [Vector.length_toList] at hi
  rw [hword core i (hsize ▸ hi), hfield core hhas, target.word_eq_getElem hi, Vector.getElem_toList]

/-- One more bank is read out before others. -/
theorem readBanks_secures {bank : Bank} {banks : List Bank} {known others : List UInt32}
    (hbank : ∀ core, Core.Has parameters core → (readBank bank).Secures config times Core.Drifts
      (fun words core => words = known ∧ core.Has parameters) core)
    (hbanks : ∀ core, Core.Has parameters core → (readBanks banks).Secures config times Core.Drifts
      (fun words core => (∃ rest, words = others ++ rest) ∧ core.Has parameters) core)
    (hcore : core.Has parameters) :
    (readBanks (bank :: banks)).Secures config times Core.Drifts
      (fun words core => (∃ rest, words = known ++ others ++ rest) ∧ core.Has parameters) core := by
  refine Bus.Secures.bind ((hbank core hcore).mono ?_) .refl
  rintro _ read ⟨rfl, hread⟩
  refine Bus.Secures.bind ((hbanks read hread).mono ?_) .refl
  rintro _ core ⟨⟨rest, rfl⟩, hhas⟩ last hlast
  exact ⟨⟨rest, (List.append_assoc ..).symm⟩, hhas.drift hlast⟩

/-! ### All registers -/

theorem readCount_eq (hcore : core.Has parameters) {i : Nat}
    (hi : i < (parameters.words .count).length) :
    core.readCount i = (parameters.words .count)[i] := by
  obtain rfl : core.parameters = parameters := hcore
  have hlength : i < 12 := by simpa [Parameters.words] using hi
  unfold Core.readCount
  split_ifs with hstateIn htail hzeros
  · have hword : i < 8 := hstateIn
    rw [core.stateIn.word_eq_getElem hword]
    simp [Parameters.words, Core.parameters, hword]
  · have hafter : 8 ≤ i := Nat.le_of_not_lt hstateIn
    have hword : i < 11 := htail
    have hplace : i - CountWindow.tail < 12 / 4 := by
      simp only [CountWindow.tail]
      omega
    rw [core.tail.word_eq_getElem hplace]
    simp [Parameters.words, Core.parameters, List.getElem_append, Nat.not_lt.mpr hafter,
      CountWindow.tail]
    intro hpast
    omega
  · obtain rfl : i = 11 := hzeros
    simp [Parameters.words, Core.parameters]
  all_goals
    simp only [CountWindow.leadingZeros] at htail hzeros
    omega

/-- All registers are read, and among them the parameters. -/
theorem readAll_secures (hon : parameters.On config.layout) (hcore : core.Has parameters) :
    (readAll config.layout).Secures config times Core.Drifts
      (fun words core => Parameters.unpack config.layout words = parameters ∧
        core.Has parameters) core := by
  cases hlayout : config.layout with
  | count =>
    rw [hlayout] at hon
    have hlength : CountWindow.size = (parameters.words .count).length + 5 := by
      simp [Parameters.words, CountWindow.size]
    have hvalue : ∀ i (hi : i < (parameters.words .count).length) (core : Core) now,
        core.Has parameters → (core.read config now (0 + i)).1 = (parameters.words .count)[i] := by
      intro i hi core now hhas
      have hread : (core.read config now (0 + i)).1 = (core.refresh now).readCount i := by
        rw [Core.read, hlayout, Nat.zero_add]
      rw [hread]
      exact readCount_eq (Core.refresh_parameters.trans hhas) hi
    have hunpack : ∀ rest, Parameters.unpack .count (parameters.words .count ++ rest) = parameters :=
      Parameters.unpack_count hon
    rw [readAll, hlength]
    generalize parameters.words .count = known at hvalue hunpack ⊢
    have hread := @secures_known config times core Bus.getFrom id (fun _ => Core.Has parameters) 0 5
      (fun _ => rfl) (fun _ _ => rfl) (fun _ _ _ => Core.Has.drift)
      (fun _ _ _ hhas => (Core.read_parameters _).trans hhas) known hvalue hcore
    refine hread.mono ?_
    rintro _ core ⟨⟨rest, -, rfl⟩, hhas⟩
    exact ⟨hunpack rest, hhas⟩
  | mask =>
    rw [hlayout] at hon
    have hothers : ∀ core, Core.Has parameters core →
        (readBanks [.nonceCandidate, .debugEnable]).Secures config times Core.Drifts
          (fun words core => (∃ rest, words = [] ++ rest) ∧ core.Has parameters) core :=
      fun core hcore => ((readBanks_keeps hlayout _ hcore).secures hcore
        fun _ _ => Core.Has.drift).mono fun words _ hhas => ⟨⟨words, rfl⟩, hhas⟩
    have hclockWord : ∀ i (hi : i < [parameters.clock].length) core, Core.Has parameters core →
        core.bankWord .clock i = [parameters.clock][i] := by
      intro i hi core hhas
      obtain rfl : i = 0 := by simpa using hi
      exact congrArg Parameters.clock hhas
    -- From the last parameter to the first, each bank is put before those that are read after it.
    have hclock := fun core => @readBanks_secures config times parameters core .clock _
      [parameters.clock] [] (fun _ => readBank_secures hlayout rfl hclockWord) hothers
    have hmask := fun core => @readBanks_secures config times parameters core .mask _
      parameters.mask.words.toList _ (fun _ => readString_secures hlayout Core.mask rfl
        (fun core i hi => by simp only [Core.bankWord, if_pos hi]) fun _ hhas => congrArg Parameters.mask hhas) hclock
    have htail := fun core => @readBanks_secures config times parameters core .tail _
      parameters.tail.words.toList _ (fun _ => readString_secures hlayout Core.tail rfl
        (fun core i hi => by simp only [Core.bankWord, if_pos hi]) fun _ hhas => congrArg Parameters.tail hhas) hmask
    have hstateIn := fun core => @readBanks_secures config times parameters core .stateIn _
      parameters.stateIn.words.toList _ (fun _ => readString_secures hlayout Core.stateIn rfl
        (fun core i hi => by simp only [Core.bankWord, if_pos hi]) fun _ hhas => congrArg Parameters.stateIn hhas) htail
    have hget : ∀ word core, Core.Has parameters core →
        (Bus.get word).Secures config times Core.Drifts (fun _ => Core.Has parameters) core := by
      intro word core hcore
      have hwrites : (Bus.get word).Writes (Spares config) := fun _ => trivial
      exact (keeps_of_writes hwrites hcore).secures hcore fun _ _ => Core.Has.drift
    refine Bus.Secures.bind ((hget _ core hcore).mono fun status first hfirst => ?_) .refl
    refine Bus.Secures.bind ((hget _ first hfirst).mono fun current second hsecond => ?_) .refl
    refine Bus.Secures.bind ((hstateIn second hsecond).mono ?_) .refl
    rintro _ third ⟨⟨rest, rfl⟩, hthird⟩ last hlast
    refine ⟨?_, hthird.drift hlast⟩
    have hunpack := Parameters.unpack_mask hon status current rest
    simpa [Parameters.words] using hunpack

/-- A dump of the registers brings the parameters out. -/
theorem dump_secures (hon : parameters.On config.layout) (hcore : core.Has parameters) :
    (dump config.layout).Secures config times Core.Drifts
      (fun words _ => Parameters.unpack config.layout words = parameters) core := by
  have hdebug : ∀ enabled core, Core.Has parameters core →
      (setDebugEnable config.layout enabled).Secures config times Core.Drifts
        (fun _ => Core.Has parameters) core :=
    fun enabled core hcore => (setDebugEnable_keeps enabled hcore).secures hcore fun _ _ => Core.Has.drift
  refine Bus.Secures.bind ((hdebug false core hcore).mono fun _ halted hhalted => ?_) .refl
  refine Bus.Secures.bind ((readAll_secures hon hhalted).mono ?_) .refl
  rintro words read ⟨hwords, hread⟩
  exact Bus.Secures.bind ((hdebug true read hread).mono fun _ _ _ _ _ => hwords) .refl

end Driver

end NonceSearch
