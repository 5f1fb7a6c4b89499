import NonceSearch.Config

/-!
# Which environments are accepted

A configuration is refused exactly if there is a reason to refuse it: a variable whose value does not
have the form of its setting, a wait of no time, or more leading zero bits than a digest has. Otherwise
every setting is what its variable says, or its default (`Environment.config_is_accepted_iff_well_formed`).
All this holds as long as the values are text. One that is not text passes for a variable that is not
set, and so its default is taken without a word.
-/

namespace NonceSearch

/-! ### The forms of settings -/

/-- The texts for a whole number of limited size: decimal digits, perhaps with a plus sign. -/
def Spells (greatest : Nat) (text : String) (value : Nat) : Prop :=
  ∃ digits : List Char, (text.toList = digits ∨ text.toList = '+' :: digits) ∧ digits ≠ [] ∧
    (∀ digit ∈ digits, digit.isDigit) ∧ Decimal.digitsValue digits = value ∧ value ≤ greatest

theorem digitsValue_eq_some_iff {greatest value : Nat} (digits : List Char) :
    (if digits.isEmpty || !digits.all Char.isDigit then none
      else if Decimal.digitsValue digits ≤ greatest then some (Decimal.digitsValue digits)
        else none) = some value ↔
    digits ≠ [] ∧ (∀ digit ∈ digits, digit.isDigit) ∧ Decimal.digitsValue digits = value ∧
      value ≤ greatest := by
  constructor
  · intro h
    split at h
    · cases h
    · next hform =>
      split at h
      · next hle =>
        obtain rfl := Option.some.inj h
        simp only [Bool.or_eq_true, List.isEmpty_iff, Bool.not_eq_true', not_or,
          Bool.not_eq_false, List.all_eq_true] at hform
        exact ⟨hform.1, hform.2, rfl, hle⟩
      · cases h
  · rintro ⟨hne, hall, rfl, hle⟩
    have hform : ¬ (digits.isEmpty || !digits.all Char.isDigit) = true := by
      simpa [hne] using hall
    rw [if_neg hform, if_pos hle]

theorem parseNatural?_eq_some_iff {greatest value : Nat} {text : String} :
    parseNatural? greatest text = some value ↔ Spells greatest text value := by
  unfold parseNatural? Spells
  dsimp only
  rw [digitsValue_eq_some_iff]
  -- A plus sign is no digit, so a text has only one reading.
  split
  · next rest htext =>
    rw [htext]
    constructor
    · exact fun h => ⟨rest, .inr rfl, h⟩
    · rintro ⟨digits, rfl | hsame, hne, hall, hvalue⟩
      · exact absurd (hall '+' List.mem_cons_self) (by decide)
      · obtain rfl := (List.cons.inj hsame).2
        exact ⟨hne, hall, hvalue⟩
  · next hplus =>
    constructor
    · exact fun h => ⟨_, .inl rfl, h⟩
    · rintro ⟨digits, rfl | hsame, h⟩
      · exact h
      · exact absurd hsame (hplus digits)

def Names (text : String) (layout : RegisterLayout) : Prop := text = layout.name

theorem RegisterLayout.ofName?_eq_some_iff {text : String} {layout : RegisterLayout} :
    RegisterLayout.ofName? text = some layout ↔ Names text layout := by
  constructor
  · unfold RegisterLayout.ofName?
    intro h
    split at h
    · next htext =>
      obtain rfl := Option.some.inj h
      exact htext
    · split at h
      · next htext =>
        obtain rfl := Option.some.inj h
        exact htext
      · cases h
  · rintro rfl
    exact RegisterLayout.ofName?_name layout

namespace Environment

variable {α : Type} (env : Environment) (name : String) (spells : String → α → Prop)

/-! ### What an environment says about a setting -/

def Legible : Prop := ∀ bytes ∈ env.bytes? name, (Text.decode? bytes).isSome

instance : Decidable (env.Legible name) :=
  inferInstanceAs (Decidable (∀ bytes ∈ env.bytes? name, (Text.decode? bytes).isSome))

/-- A variable is set to something that, without the white space around it, is not of the form of its
    setting. -/
def Unusable : Prop :=
  ∃ bytes, env.bytes? name = some bytes ∧
    ∀ text value, Text.decode? bytes = some text → ¬ spells (Text.trim text) value

/-- The value of a setting: what its variable says, or the default if the variable is not set. -/
def Chooses (default value : α) : Prop :=
  (env.bytes? name = none ∧ value = default) ∨
    ∃ bytes text, env.bytes? name = some bytes ∧ Text.decode? bytes = some text ∧
      spells (Text.trim text) value

/-- The reasons to refuse an environment. -/
inductive Refusable : Prop where
  | tick (h : env.Unusable "ACCEL_WAIT_TICK_MS" (Spells greatest64))
  | noTick (h : env.Chooses "ACCEL_WAIT_TICK_MS" (Spells greatest64) 200 0)
  | bits (h : env.Unusable "ACCEL_DIFFICULTY_BITS" (Spells greatest32))
  | tooManyBits {bits : Nat} (h : env.Chooses "ACCEL_DIFFICULTY_BITS" (Spells greatest32) 20 bits)
    (many : 256 < bits)
  | simulated (h : env.Unusable "ACCEL_SIM_DEVICES" (Spells greatest64))
  | layout (h : env.Unusable "ACCEL_LAYOUT" Names)
  | clock (h : env.Unusable "ACCEL_CLOCK" (Spells greatest32))

/-- The environment says what is in a configuration, and leaves the rest to the defaults. -/
structure Configures (config : Config) : Prop where
  devicePath : config.devicePath = (env.bytes? "ACCEL_DEVICE").map Path.mk
  simulated : env.Chooses "ACCEL_SIM_DEVICES" (Spells greatest64)
    (if (env.bytes? "ACCEL_DEVICE").isSome then 0 else 1) config.simulated
  layout : env.Chooses "ACCEL_LAYOUT" Names .mask config.layout
  clockSpeed : env.Chooses "ACCEL_CLOCK" (Spells greatest32) 110 config.clockSpeed
  waitTick : env.Chooses "ACCEL_WAIT_TICK_MS" (Spells greatest64) 200 config.waitTick
  waits : config.waitTick ≠ 0
  temperaturePath : config.temperaturePath =
    ((env.bytes? "ACCEL_TEMP_FILE").map Path.mk).getD (.ofText defaultTemperaturePath)
  difficultyBits : env.Chooses "ACCEL_DIFFICULTY_BITS" (Spells greatest32) 20 config.difficultyBits
  fits : config.difficultyBits ≤ 256

def formedNames : List String :=
  ["ACCEL_WAIT_TICK_MS", "ACCEL_DIFFICULTY_BITS", "ACCEL_SIM_DEVICES", "ACCEL_LAYOUT", "ACCEL_CLOCK"]

/-! ### One setting -/

section Setting

variable {env name spells} {parse : String → Option α} {default value : α}
variable (hparse : ∀ {text value}, parse text = some value ↔ spells text value)
variable (hlegible : env.Legible name)
include hparse hlegible

theorem setting_eq_ok_iff :
    env.setting name parse default = .ok value ↔ env.Chooses name spells default value := by
  unfold setting text? Chooses
  cases hbytes : env.bytes? name with
  | none => simp [eq_comm]
  | some bytes =>
    obtain ⟨text, htext⟩ := Option.isSome_iff_exists.mp (hlegible bytes hbytes)
    cases hparsed : parse (Text.trim text) with
    | none => simp [htext, hparsed, ← hparse]
    | some parsed => simp [htext, hparsed, ← hparse]

theorem setting_eq_error_iff :
    (∃ cause, env.setting name parse default = .error cause) ↔ env.Unusable name spells := by
  unfold setting text? Unusable
  cases hbytes : env.bytes? name with
  | none => simp
  | some bytes =>
    obtain ⟨text, htext⟩ := Option.isSome_iff_exists.mp (hlegible bytes hbytes)
    cases hparsed : parse (Text.trim text) with
    | none =>
      have hnone : ∀ other value, text = other → ¬ parse (Text.trim other) = some value := by
        rintro other value rfl
        simp [hparsed]
      simpa [htext, hparsed, ← hparse] using hnone
    | some parsed => simp [htext, hparsed, ← hparse]

end Setting

/-! ### All settings -/

section Sequences

variable {ε α β : Type} {first : Except ε α} {rest : α → Except ε β}

theorem bind_eq_ok_iff {result : β} : (first >>= rest) = .ok result ↔
    ∃ value, first = .ok value ∧ rest value = .ok result := by
  cases first with
  | error cause => simp [bind, Except.bind]
  | ok value => simp [bind, Except.bind]

/-- What goes wrong goes wrong first, or later. -/
theorem bind_eq_error_iff : (∃ cause, (first >>= rest) = .error cause) ↔
    (∃ cause, first = .error cause) ∨
      ∃ value, first = .ok value ∧ ∃ cause, rest value = .error cause := by
  cases first with
  | error cause => simp [bind, Except.bind]
  | ok value => simp [bind, Except.bind]

/-- There is an error, or else a result. -/
theorem exists_error_iff : (∃ cause, first = .error cause) ↔ ¬ ∃ value, first = .ok value := by
  cases first with
  | error cause => simp
  | ok value => simp

end Sequences

section Accepting

variable {env}

theorem waitTick?_eq_ok_iff {tick : Nat} (hlegible : env.Legible "ACCEL_WAIT_TICK_MS") :
    Config.waitTick? env = .ok tick ↔
      env.Chooses "ACCEL_WAIT_TICK_MS" (Spells greatest64) 200 tick ∧ tick ≠ 0 := by
  unfold Config.waitTick?
  simp only [bind_eq_ok_iff, setting_eq_ok_iff parseNatural?_eq_some_iff hlegible]
  constructor
  · rintro ⟨value, hvalue, hresult⟩
    split at hresult
    · cases hresult
    · next hpositive =>
      obtain rfl := Except.ok.inj hresult
      exact ⟨hvalue, hpositive⟩
  · exact fun ⟨hvalue, hpositive⟩ => ⟨tick, hvalue, if_neg hpositive⟩

theorem waitTick?_eq_error_iff (hlegible : env.Legible "ACCEL_WAIT_TICK_MS") :
    (∃ cause, Config.waitTick? env = .error cause) ↔
      env.Unusable "ACCEL_WAIT_TICK_MS" (Spells greatest64) ∨
        env.Chooses "ACCEL_WAIT_TICK_MS" (Spells greatest64) 200 0 := by
  unfold Config.waitTick?
  simp only [bind_eq_error_iff, setting_eq_error_iff parseNatural?_eq_some_iff hlegible,
    setting_eq_ok_iff parseNatural?_eq_some_iff hlegible]
  refine or_congr_right ⟨?_, fun hzero => ⟨0, hzero, .zeroTick, if_pos rfl⟩⟩
  rintro ⟨value, hvalue, cause, hresult⟩
  split at hresult
  · next hzero => exact hzero ▸ hvalue
  · cases hresult

theorem difficultyBits?_eq_ok_iff {bits : Nat} (hlegible : env.Legible "ACCEL_DIFFICULTY_BITS") :
    Config.difficultyBits? env = .ok bits ↔
      env.Chooses "ACCEL_DIFFICULTY_BITS" (Spells greatest32) 20 bits ∧ bits ≤ 256 := by
  unfold Config.difficultyBits?
  simp only [bind_eq_ok_iff, setting_eq_ok_iff parseNatural?_eq_some_iff hlegible]
  constructor
  · rintro ⟨value, hvalue, hresult⟩
    split at hresult
    · cases hresult
    · next hfits =>
      obtain rfl := Except.ok.inj hresult
      exact ⟨hvalue, Nat.le_of_not_gt hfits⟩
  · exact fun ⟨hvalue, hfits⟩ => ⟨bits, hvalue, if_neg (Nat.not_lt_of_le hfits)⟩

theorem difficultyBits?_eq_error_iff (hlegible : env.Legible "ACCEL_DIFFICULTY_BITS") :
    (∃ cause, Config.difficultyBits? env = .error cause) ↔
      env.Unusable "ACCEL_DIFFICULTY_BITS" (Spells greatest32) ∨
        ∃ bits, env.Chooses "ACCEL_DIFFICULTY_BITS" (Spells greatest32) 20 bits ∧ 256 < bits := by
  unfold Config.difficultyBits?
  simp only [bind_eq_error_iff, setting_eq_error_iff parseNatural?_eq_some_iff hlegible,
    setting_eq_ok_iff parseNatural?_eq_some_iff hlegible]
  refine or_congr_right (exists_congr fun bits => and_congr_right fun _ => ?_)
  constructor
  · rintro ⟨cause, hresult⟩
    split at hresult
    · next hmany => exact hmany
    · cases hresult
  · exact fun hmany => ⟨.tooManyBits bits, if_pos hmany⟩

/-- The settings of a configuration, looked at one after another. -/
theorem ofEnvironment_eq_ok_iff {config : Config} : Config.ofEnvironment env = .ok config ↔
    Config.waitTick? env = .ok config.waitTick ∧
    Config.difficultyBits? env = .ok config.difficultyBits ∧
    env.setting "ACCEL_SIM_DEVICES" (parseNatural? greatest64)
      (if (env.bytes? "ACCEL_DEVICE").isSome then 0 else 1) = .ok config.simulated ∧
    env.setting "ACCEL_LAYOUT" RegisterLayout.ofName? .mask = .ok config.layout ∧
    env.setting "ACCEL_CLOCK" (parseNatural? greatest32) 110 = .ok config.clockSpeed ∧
    config.devicePath = (env.bytes? "ACCEL_DEVICE").map Path.mk ∧
    config.temperaturePath =
      ((env.bytes? "ACCEL_TEMP_FILE").map Path.mk).getD (.ofText defaultTemperaturePath) := by
  obtain ⟨device, simulated, layout, clock, tick, temperature, bits⟩ := config
  simp only [Config.ofEnvironment, bind_eq_ok_iff, Option.isSome_map, Config.standard]
  constructor
  · rintro ⟨tick, htick, bits, hbits, simulated, hsimulated, layout, hlayout, clock, hclock, hconfig⟩
    obtain ⟨rfl, rfl, rfl, rfl, rfl, rfl, rfl⟩ := Config.mk.inj (Except.ok.inj hconfig)
    exact ⟨htick, hbits, hsimulated, hlayout, hclock, rfl, rfl⟩
  · rintro ⟨htick, hbits, hsimulated, hlayout, hclock, rfl, rfl⟩
    exact ⟨tick, htick, bits, hbits, simulated, hsimulated, layout, hlayout, clock, hclock, rfl⟩

theorem ofEnvironment_eq_error_iff : (∃ cause, Config.ofEnvironment env = .error cause) ↔
    (∃ cause, Config.waitTick? env = .error cause) ∨
    (∃ cause, Config.difficultyBits? env = .error cause) ∨
    (∃ cause, env.setting "ACCEL_SIM_DEVICES" (parseNatural? greatest64)
      (if (env.bytes? "ACCEL_DEVICE").isSome then 0 else 1) = .error cause) ∨
    (∃ cause, env.setting "ACCEL_LAYOUT" RegisterLayout.ofName? .mask = .error cause) ∨
    ∃ cause, env.setting "ACCEL_CLOCK" (parseNatural? greatest32) 110 = .error cause := by
  simp only [exists_error_iff, ← Classical.not_and_iff_not_or_not]
  refine not_congr ⟨?_, ?_⟩
  · rintro ⟨config, hconfig⟩
    obtain ⟨htick, hbits, hsimulated, hlayout, hclock, -, -⟩ := ofEnvironment_eq_ok_iff.mp hconfig
    exact ⟨⟨_, htick⟩, ⟨_, hbits⟩, ⟨_, hsimulated⟩, ⟨_, hlayout⟩, _, hclock⟩
  · rintro ⟨⟨tick, htick⟩, ⟨bits, hbits⟩, ⟨simulated, hsimulated⟩, ⟨layout, hlayout⟩, clock, hclock⟩
    exact ⟨⟨_, simulated, layout, clock, tick, _, bits⟩,
      ofEnvironment_eq_ok_iff.mpr ⟨htick, hbits, hsimulated, hlayout, hclock, rfl, rfl⟩⟩

section Legible

variable (hlegible : ∀ name ∈ formedNames, env.Legible name)
include hlegible

theorem refusable_iff : env.Refusable ↔ ∃ cause, Config.ofEnvironment env = .error cause := by
  rw [ofEnvironment_eq_error_iff, waitTick?_eq_error_iff (hlegible _ (by simp [formedNames])),
    difficultyBits?_eq_error_iff (hlegible _ (by simp [formedNames])),
    setting_eq_error_iff parseNatural?_eq_some_iff (hlegible _ (by simp [formedNames])),
    setting_eq_error_iff RegisterLayout.ofName?_eq_some_iff (hlegible _ (by simp [formedNames])),
    setting_eq_error_iff parseNatural?_eq_some_iff (hlegible _ (by simp [formedNames]))]
  constructor
  · rintro (h | h | h | ⟨h, many⟩ | h | h | h)
    · exact .inl (.inl h)
    · exact .inl (.inr h)
    · exact .inr (.inl (.inl h))
    · exact .inr (.inl (.inr ⟨_, h, many⟩))
    · exact .inr (.inr (.inl h))
    · exact .inr (.inr (.inr (.inl h)))
    · exact .inr (.inr (.inr (.inr h)))
  · rintro ((h | h) | (h | ⟨bits, h, many⟩) | h | h | h)
    · exact .tick h
    · exact .noTick h
    · exact .bits h
    · exact .tooManyBits h many
    · exact .simulated h
    · exact .layout h
    · exact .clock h

theorem configures_iff {config : Config} :
    Config.ofEnvironment env = .ok config ↔ env.Configures config := by
  rw [ofEnvironment_eq_ok_iff, waitTick?_eq_ok_iff (hlegible _ (by simp [formedNames])),
    difficultyBits?_eq_ok_iff (hlegible _ (by simp [formedNames])),
    setting_eq_ok_iff parseNatural?_eq_some_iff (hlegible _ (by simp [formedNames])),
    setting_eq_ok_iff RegisterLayout.ofName?_eq_some_iff (hlegible _ (by simp [formedNames])),
    setting_eq_ok_iff parseNatural?_eq_some_iff (hlegible _ (by simp [formedNames]))]
  constructor
  · rintro ⟨⟨htick, hwaits⟩, ⟨hbits, hfits⟩, hsimulated, hlayout, hclock, hdevice, hfile⟩
    exact ⟨hdevice, hsimulated, hlayout, hclock, htick, hwaits, hfile, hbits, hfits⟩
  · rintro ⟨hdevice, hsimulated, hlayout, hclock, htick, hwaits, hfile, hbits, hfits⟩
    exact ⟨⟨htick, hwaits⟩, ⟨hbits, hfits⟩, hsimulated, hlayout, hclock, hdevice, hfile⟩

end Legible

/-! ### Values that are not text -/

def without (name : String) (env : Environment) : Environment :=
  env.filter fun entry => entry.1 != name

theorem bytes?_without (name other : String) :
    (env.without name).bytes? other = if other = name then none else env.bytes? other := by
  unfold without bytes?
  induction env with
  | nil => simp
  | cons entry rest ih =>
    obtain ⟨key, bytes⟩ := entry
    rw [List.filter_cons, List.lookup_cons]
    by_cases hkey : key = name
    · have hdropped : ¬ ((key, bytes).1 != name) = true := by simpa using hkey
      rw [if_neg hdropped, ih]
      by_cases hother : other = name
      · rw [if_pos hother, if_pos hother]
      · have hdiffers : (other == key) = false := by simpa [hkey] using hother
        rw [if_neg hother, if_neg hother, hdiffers]
    · have hkept : ((key, bytes).1 != name) = true := by simpa using hkey
      rw [if_pos hkept, List.lookup_cons, ih]
      by_cases hother : other = name
      · have hdiffers : (other == key) = false := by simpa [hother] using Ne.symm hkey
        rw [if_pos hother, if_pos hother, hdiffers]
      · rw [if_neg hother, if_neg hother]

/-- What is not text is as good as not there. -/
theorem text?_without {name : String} (h : env.text? name = none) (other : String) :
    (env.without name).text? other = env.text? other := by
  unfold text? at h ⊢
  by_cases hother : other = name
  · rw [hother, h, bytes?_without, if_pos rfl]
    rfl
  · rw [bytes?_without, if_neg hother]

theorem setting_without {α : Type} {name : String} (h : env.text? name = none) (other : String)
    (parse : String → Option α) (default : α) :
    (env.without name).setting other parse default = env.setting other parse default := by
  unfold setting
  rw [text?_without h]

theorem ofEnvironment_without {name : String} (h : env.text? name = none)
    (hdevice : name ≠ "ACCEL_DEVICE") (hfile : name ≠ "ACCEL_TEMP_FILE") :
    Config.ofEnvironment (env.without name) = Config.ofEnvironment env := by
  unfold Config.ofEnvironment Config.waitTick? Config.difficultyBits?
  simp only [setting_without h, bytes?_without, if_neg hdevice.symm, if_neg hfile.symm]

end Accepting

/-- As long as the values of all variables that have a form are text, an environment is refused if there
    is a reason to, and otherwise gives the one configuration that it describes. A variable that is set
    to something that is not text is treated as if it were not set. -/
theorem config_is_accepted_iff_well_formed (env : Environment) :
    ((∀ name ∈ formedNames, env.Legible name) →
      (env.Refusable ↔ ∃ message, (Config.ofEnvironment env).mapError ConfigError.toSetupError =
        .error (.config message)) ∧
      (¬ env.Refusable ↔ ∃ config, Config.ofEnvironment env = .ok config) ∧
      ∀ config, Config.ofEnvironment env = .ok config ↔ env.Configures config) ∧
    ∀ name, name ≠ "ACCEL_DEVICE" → name ≠ "ACCEL_TEMP_FILE" → env.text? name = none →
      Config.ofEnvironment (env.without name) = Config.ofEnvironment env := by
  refine ⟨fun hlegible => ?_, fun name hdevice hfile h => ofEnvironment_without h hdevice hfile⟩
  have hrefused := refusable_iff hlegible
  refine ⟨hrefused.trans ?_, ?_, fun config => configures_iff hlegible⟩
  · cases Config.ofEnvironment env with
    | error cause => exact ⟨fun _ => ⟨_, rfl⟩, fun _ => ⟨_, rfl⟩⟩
    | ok config =>
      constructor
      · rintro ⟨cause, herror⟩
        cases herror
      · rintro ⟨message, herror⟩
        cases herror
  · rw [hrefused, exists_error_iff, Classical.not_not]

def nodeEnvironment : Environment :=
  [("ACCEL_DEVICE", [0xff]), ("ACCEL_LAYOUT", Text.encode "count"),
    ("ACCEL_WAIT_TICK_MS", Text.encode " +50\n")]

def nodeConfig : Config :=
  { devicePath := some ⟨[0xff]⟩, simulated := 0, layout := .count, waitTick := 50 }

def illegibleClock : Environment := ("ACCEL_CLOCK", [0xff]) :: nodeEnvironment

theorem node_environment_is_accepted :
    (∀ name ∈ formedNames, nodeEnvironment.Legible name) ∧
      Config.ofEnvironment nodeEnvironment = .ok nodeConfig ∧ nodeEnvironment.Configures nodeConfig ∧
      ¬ nodeEnvironment.Refusable ∧ illegibleClock.text? "ACCEL_CLOCK" = none ∧
      Config.ofEnvironment (illegibleClock.without "ACCEL_CLOCK") =
        Config.ofEnvironment illegibleClock := by
  have hlegible : ∀ name ∈ formedNames, nodeEnvironment.Legible name := by decide +kernel
  have hillegible : illegibleClock.text? "ACCEL_CLOCK" = none := by decide +kernel
  have haccepted : Config.ofEnvironment nodeEnvironment = .ok nodeConfig := by
    have hresult : (Config.ofEnvironment nodeEnvironment).toOption = some nodeConfig := by
      decide +kernel
    cases hrun : Config.ofEnvironment nodeEnvironment with
    | error cause =>
      rw [hrun] at hresult
      cases hresult
    | ok config =>
      rw [hrun] at hresult
      rw [Option.some.inj hresult]
  obtain ⟨-, hgood, hconfigures⟩ := (config_is_accepted_iff_well_formed nodeEnvironment).1 hlegible
  have hsame := (config_is_accepted_iff_well_formed illegibleClock).2 "ACCEL_CLOCK" (by decide)
    (by decide) hillegible
  exact ⟨hlegible, haccepted, (hconfigures nodeConfig).mp haccepted, hgood.mpr ⟨_, haccepted⟩,
    hillegible, hsame⟩

/-- The value of a variable that is set is no text at all, and the default is taken for it. -/
theorem illegible_value_gives_way_to_default :
    Unusable [("ACCEL_CLOCK", [0xff])] "ACCEL_CLOCK" (Spells greatest32) ∧
      Refusable [("ACCEL_CLOCK", [0xff])] ∧
      (Config.ofEnvironment [("ACCEL_CLOCK", [0xff])]).toOption = some Config.standard := by
  have hillegible : Text.decode? [0xff] = none := by decide +kernel
  have hunusable : Unusable [("ACCEL_CLOCK", [0xff])] "ACCEL_CLOCK" (Spells greatest32) := by
    refine ⟨[0xff], by decide, fun text value htext => ?_⟩
    cases hillegible.symm.trans htext
  exact ⟨hunusable, .clock hunusable, by decide +kernel⟩

end Environment

end NonceSearch
