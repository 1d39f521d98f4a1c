import Knockd.Config.Values

/-!
# What loading a file leaves

A line of the file has at most one effect: it gives one field the value it denotes. So
after all lines a field holds the value of the last line with its key that has one, or
what it held before. The validator then looks at each field by itself and puts the
default in place of a value that is out of range. Both stages act on every field
separately, and this file says how.

## Main definitions

* `ConfigField` — a field, with the key and the parser that write it
* `lastParsed` — the value of the last line with a key that has one
* `orDefault` — a value, or the default if it is out of range
* `Config.secret` — the sequence with its length, as the validator sees it

## Main results

* `ConfigField.get_configLines` — what a field holds after all lines
* `configValidate_eq` — what the validator makes of each field
* `configLoad_leaves` — both together
-/

namespace Knockd

/-! ### The last value given to a key -/

section LastValue

variable {α β : Type}

/-- The last value that `f` finds in a list. -/
def lastValue (f : α → Option β) (l : List α) : Option β := (l.filterMap f).getLast?

theorem lastValue_cons (f : α → Option β) (a : α) (l : List α) :
    lastValue f (a :: l) = (lastValue f l).or (f a) := by
  unfold lastValue
  cases hfa : f a with
  | none => rw [List.filterMap_cons_none hfa, Option.or_none]
  | some b =>
    rw [List.filterMap_cons_some hfa]
    cases hlast : (l.filterMap f).getLast? with
    | none => simp [List.getLast?_eq_none_iff.mp hlast]
    | some c => simp [List.getLast?_cons, hlast]

/-- Going through the list and keeping the last value found. -/
theorem getD_lastValue_cons (f : α → Option β) (a : α) (l : List α) (x : β) :
    (lastValue f (a :: l)).getD x = (lastValue f l).getD ((f a).getD x) := by
  rw [lastValue_cons]
  cases lastValue f l with
  | none => rfl
  | some b => rfl

/-- If all values found agree, the last one is that value. -/
theorem lastValue_eq_some {f : α → Option β} {l : List α} {b : β} (hsome : ∃ a ∈ l, f a = some b)
    (hagree : ∀ a ∈ l, ∀ b', f a = some b' → b' = b) : lastValue f l = some b := by
  unfold lastValue
  cases hlast : (l.filterMap f).getLast? with
  | none =>
    obtain ⟨a, ha, hb⟩ := hsome
    have hmem : b ∈ l.filterMap f := List.mem_filterMap.mpr ⟨a, ha, hb⟩
    rw [List.getLast?_eq_none_iff.mp hlast] at hmem
    cases hmem
  | some b' =>
    obtain ⟨a, ha, hb'⟩ := List.mem_filterMap.mp (List.mem_of_getLast? hlast)
    rw [hagree a ha b' hb']

end LastValue

/-- The value of this line, if it is a setting of the key. -/
def keyValue (key : ConfigKey) (line : List Char) : Option (List Char) :=
  match scanLine line with
  | .setting name val => if name = key.name then some val else none
  | _ => none

/-- The value of the last line with this key that parses. -/
def lastParsed {α : Type} (key : ConfigKey) (parse : List Char → Option α)
    (lines : List (List Char)) : Option α :=
  lastValue (fun line => (keyValue key line).bind parse) lines

/-! ### One line, one field -/

/-- What a setting of a known key does to the globals. -/
def applyKey (cfg : Config) : ConfigKey → List Char → Config
  | .sequence, val => (sequenceValue val).elim cfg cfg.installSequence
  | .port, val => (intValue val).elim cfg fun n => { cfg with protectedPort := n }
  | .timeout, val => (intValue val).elim cfg fun n => { cfg with accessTimeout := n }
  | .window, val => (intValue val).elim cfg fun n => { cfg with knockWindow := n }
  | .maxClients, val => (intValue val).elim cfg fun n => { cfg with maxClients := n }
  | .logLevel, val => (intValue val).elim cfg fun n => { cfg with logLevel := n }
  | .interface, val => (interfaceValue val).elim cfg fun n => { cfg with knockInterface := n }

section Lines

variable {filepath : String} {cfg : Config}

theorem ofName?_eq_some_iff {name : List Char} {key : ConfigKey} :
    ConfigKey.ofName? name = some key ↔ name = key.name := by
  constructor
  · intro h
    simpa [eq_comm] using List.find?_some h
  · rintro rfl
    cases key <;> rfl

/-- A setting acts on the globals through its key and its value. -/
theorem applySetting_cfg {name val : List Char} :
    (applySetting filepath cfg name val).cfg =
      (ConfigKey.ofName? name).elim cfg fun key => applyKey cfg key val := by
  unfold applySetting
  cases ConfigKey.ofName? name with
  | none => rfl
  | some key =>
    cases key with
    | sequence => exact parseSequence_cfg
    | interface => exact parseInterface_cfg
    | _ => exact parseInt_cfg

/-- A setting of a known key acts through it, and is a setting of no other. -/
theorem configLine_of_keyValue (filepath : String) (cfg : Config) {line val : List Char}
    {key : ConfigKey} (h : keyValue key line = some val) :
    (configLine filepath cfg line).1 = applyKey cfg key val ∧
      ∀ key', key' ≠ key → keyValue key' line = none := by
  unfold keyValue at h ⊢
  unfold configLine
  cases hscan : scanLine line with
  | ignored =>
    rw [hscan] at h
    cases h
  | noEquals ptr =>
    rw [hscan] at h
    cases h
  | setting name val' =>
    rw [hscan] at h
    simp only at h ⊢
    split at h
    · rename_i hname
      cases h
      have hkey := ofName?_eq_some_iff.mpr hname
      refine ⟨by rw [applySetting_cfg, hkey]; rfl, fun key' hne => if_neg fun hname' => hne ?_⟩
      exact Option.some.inj ((ofName?_eq_some_iff.mpr hname').symm.trans hkey)
    · cases h

/-- Any other line leaves the globals alone. -/
theorem configLine_of_keyValue_none {line : List Char} (h : ∀ key, keyValue key line = none) :
    (configLine filepath cfg line).1 = cfg := by
  unfold keyValue at h
  unfold configLine
  cases hscan : scanLine line with
  | ignored => rfl
  | noEquals ptr => rfl
  | setting name val =>
    rw [hscan] at h
    simp only at h ⊢
    rw [applySetting_cfg]
    cases hkey : ConfigKey.ofName? name with
    | none => rfl
    | some key =>
      have hnone := h key
      rw [if_pos (ofName?_eq_some_iff.mp hkey)] at hnone
      cases hnone

/-- Lines with the same settings do the same. -/
theorem configLine_congr {line line' : List Char}
    (h : ∀ key, keyValue key line = keyValue key line') :
    (configLine filepath cfg line).1 = (configLine filepath cfg line').1 := by
  by_cases hnone : ∀ key, keyValue key line = none
  · rw [configLine_of_keyValue_none hnone, configLine_of_keyValue_none fun key => h key ▸ hnone key]
  · obtain ⟨key, hsome⟩ := not_forall.mp hnone
    obtain ⟨val, hval⟩ := Option.ne_none_iff_exists'.mp hsome
    rw [(configLine_of_keyValue filepath cfg hval).1,
      (configLine_of_keyValue filepath cfg (h key ▸ hval)).1]

end Lines

/-- A field of the configuration, with the key of the lines that set it and the parser of
their values: no other line changes it, and one without a value does not either. -/
structure ConfigField (α : Type) where
  key : ConfigKey
  get : Config → α
  parse : List Char → Option α
  get_applyKey_self : ∀ cfg val, get (applyKey cfg key val) = (parse val).getD (get cfg)
  get_applyKey_of_ne : ∀ cfg key' val, key' ≠ key → get (applyKey cfg key' val) = get cfg

namespace ConfigField

variable {α : Type} (field : ConfigField α)

/-- After all lines a field holds the last value they give it. -/
theorem get_configLines (filepath : String) (cfg : Config) (lines : List (List Char)) :
    field.get (configLines filepath cfg lines).1 =
      (lastParsed field.key field.parse lines).getD (field.get cfg) := by
  induction lines generalizing cfg with
  | nil => rfl
  | cons line lines ih =>
    rw [configLines, ih]
    simp only [lastParsed, getD_lastValue_cons]
    congr 1
    by_cases hnone : ∀ key, keyValue key line = none
    · rw [configLine_of_keyValue_none hnone, hnone]
      rfl
    · obtain ⟨key, hsome⟩ := not_forall.mp hnone
      obtain ⟨val, hval⟩ := Option.ne_none_iff_exists'.mp hsome
      obtain ⟨hcfg, hother⟩ := configLine_of_keyValue filepath cfg hval
      rw [hcfg]
      by_cases hkey : key = field.key
      · subst hkey
        rw [hval, field.get_applyKey_self]
        rfl
      · rw [hother _ (Ne.symm hkey), field.get_applyKey_of_ne _ _ _ hkey]
        rfl

section Fields

/-- An update that keeps a field keeps it also when there is nothing to write. -/
theorem get_elim {β : Type} (get : Config → α) {cfg : Config} {store : β → Config}
    (h : ∀ b, get (store b) = get cfg) (value : Option β) : get (value.elim cfg store) = get cfg := by
  cases value with
  | none => rfl
  | some b => exact h b

/-- An update that writes a field writes the value if there is one. -/
theorem get_elim_self (get : Config → α) {cfg : Config} {store : α → Config}
    (h : ∀ b, get (store b) = b) (value : Option α) :
    get (value.elim cfg store) = value.getD (get cfg) := by
  cases value with
  | none => rfl
  | some b => exact h b

/-- `PROTECTED_PORT`. -/
def port : ConfigField ℤ where
  key := .port
  get := Config.protectedPort
  parse := intValue
  get_applyKey_self _ _ := by
    apply get_elim_self Config.protectedPort
    exact fun _ => rfl
  get_applyKey_of_ne _ key' _ hne := by
    cases key' with
    | port => exact absurd rfl hne
    | _ =>
      apply get_elim Config.protectedPort
      exact fun _ => rfl

/-- `ACCESS_TIMEOUT`. -/
def timeout : ConfigField ℤ where
  key := .timeout
  get := Config.accessTimeout
  parse := intValue
  get_applyKey_self _ _ := by
    apply get_elim_self Config.accessTimeout
    exact fun _ => rfl
  get_applyKey_of_ne _ key' _ hne := by
    cases key' with
    | timeout => exact absurd rfl hne
    | _ =>
      apply get_elim Config.accessTimeout
      exact fun _ => rfl

/-- `KNOCK_WINDOW`. -/
def window : ConfigField ℤ where
  key := .window
  get := Config.knockWindow
  parse := intValue
  get_applyKey_self _ _ := by
    apply get_elim_self Config.knockWindow
    exact fun _ => rfl
  get_applyKey_of_ne _ key' _ hne := by
    cases key' with
    | window => exact absurd rfl hne
    | _ =>
      apply get_elim Config.knockWindow
      exact fun _ => rfl

/-- `MAX_CLIENTS`. -/
def maxClients : ConfigField ℤ where
  key := .maxClients
  get := Config.maxClients
  parse := intValue
  get_applyKey_self _ _ := by
    apply get_elim_self Config.maxClients
    exact fun _ => rfl
  get_applyKey_of_ne _ key' _ hne := by
    cases key' with
    | maxClients => exact absurd rfl hne
    | _ =>
      apply get_elim Config.maxClients
      exact fun _ => rfl

/-- `LOG_LEVEL`. -/
def logLevel : ConfigField ℤ where
  key := .logLevel
  get := Config.logLevel
  parse := intValue
  get_applyKey_self _ _ := by
    apply get_elim_self Config.logLevel
    exact fun _ => rfl
  get_applyKey_of_ne _ key' _ hne := by
    cases key' with
    | logLevel => exact absurd rfl hne
    | _ =>
      apply get_elim Config.logLevel
      exact fun _ => rfl

/-- `KNOCK_INTERFACE`. -/
def interface : ConfigField (List Char) where
  key := .interface
  get := Config.knockInterface
  parse := interfaceValue
  get_applyKey_self _ _ := by
    apply get_elim_self Config.knockInterface
    exact fun _ => rfl
  get_applyKey_of_ne _ key' _ hne := by
    cases key' with
    | interface => exact absurd rfl hne
    | _ =>
      apply get_elim Config.knockInterface
      exact fun _ => rfl

end Fields

end ConfigField

/-! ### The sequence as a field -/

/-- The length and the ports: what lines and validator know of the sequence. -/
def Config.secret (cfg : Config) : ℤ × List UInt16 := (cfg.knockSeqLen, cfg.sequence)

/-- Two to sixteen ports, none of them zero and no two alike. -/
def SecretValid (secret : ℤ × List UInt16) : Prop :=
  2 ≤ secret.1 ∧ secret.1 ≤ maxKnockSeqLen ∧ 0 ∉ secret.2 ∧ secret.2.Nodup

instance : DecidablePred SecretValid := fun secret =>
  inferInstanceAs (Decidable (2 ≤ secret.1 ∧ _))

/-- The sequence compiled in. -/
def defaultSecret : ℤ × List UInt16 := (3, Config.defaultSequence)

/-- The length and the ports a text denotes. -/
def secretValue (val : List Char) : Option (ℤ × List UInt16) :=
  (sequenceValue val).map fun seq => (seq.length, seq)

section Secret

variable {cfg : Config} {seq : List UInt16}

theorem sequenceValid_iff : cfg.SequenceValid ↔ SecretValid cfg.secret := by
  constructor
  · rintro ⟨htwo, hle, hzero, hnodup⟩
    exact ⟨htwo, hle, hzero, hnodup⟩
  · rintro ⟨htwo, hle, hzero, hnodup⟩
    exact ⟨htwo, hle, hzero, hnodup⟩

theorem secret_installSequence (hseq : seq.length ≤ maxKnockSeqLen) :
    (cfg.installSequence seq).secret = ((seq.length : ℤ), seq) := by
  rw [Config.secret, sequence_installSequence hseq]
  rfl

theorem secret_resetSequenceToDefault : cfg.resetSequenceToDefault.secret = defaultSecret :=
  secret_installSequence (by decide)

theorem knockSequence_installSequence (i : Fin maxKnockSeqLen) :
    (cfg.installSequence seq).knockSequence.get i =
      seq[i.val]?.getD (cfg.knockSequence.get i) :=
  Vector.getElem_ofFn i.isLt

end Secret

namespace ConfigField

/-- `KNOCK_SEQ_LEN` with the ports up to it. -/
def secret : ConfigField (ℤ × List UInt16) where
  key := .sequence
  get := Config.secret
  parse := secretValue
  get_applyKey_self cfg val := by
    change ((sequenceValue val).elim cfg cfg.installSequence).secret = _
    unfold secretValue
    cases hvalue : sequenceValue val with
    | none => rfl
    | some seq => exact secret_installSequence (length_of_sequenceValue hvalue).2
  get_applyKey_of_ne _ key' _ hne := by
    cases key' with
    | sequence => exact absurd rfl hne
    | _ =>
      apply get_elim Config.secret
      exact fun _ => rfl

/-- One slot of `KNOCK_SEQUENCE`, within the length or past it. -/
def portAt (i : Fin maxKnockSeqLen) : ConfigField UInt16 where
  key := .sequence
  get cfg := cfg.knockSequence.get i
  parse val := (sequenceValue val).bind fun seq => seq[i.val]?
  get_applyKey_self cfg val := by
    change ((sequenceValue val).elim cfg cfg.installSequence).knockSequence.get i = _
    cases sequenceValue val with
    | none => rfl
    | some seq => exact knockSequence_installSequence i
  get_applyKey_of_ne _ key' _ hne := by
    cases key' with
    | sequence => exact absurd rfl hne
    | _ =>
      apply get_elim fun cfg => cfg.knockSequence.get i
      exact fun _ => rfl

end ConfigField

/-! ### The validator -/

/-- The value if it is acceptable, the default otherwise. -/
def orDefault {α : Type} (ok : α → Prop) [DecidablePred ok] (default x : α) : α :=
  if ok x then x else default

section OrDefault

variable {α : Type} {ok : α → Prop} [DecidablePred ok] {default x : α}

theorem orDefault_ok (h : ok default) : ok (orDefault ok default x) := by
  unfold orDefault
  split
  · assumption
  · exact h

theorem orDefault_of_ok (h : ok x) : orDefault ok default x = x := if_pos h

/-- A value given once more, or the value settled before, settles as before. -/
theorem orDefault_getD (h : ok default) (value : Option α) :
    orDefault ok default (value.getD (orDefault ok default (value.getD x))) =
      orDefault ok default (value.getD x) := by
  cases value with
  | none => exact orDefault_of_ok (orDefault_ok h)
  | some v => rfl

end OrDefault

section Validate

variable {cfg : Config}

theorem firstRepeat_eq_none_iff {l : List UInt16} (i : ℕ) : firstRepeat l i = none ↔ l.Nodup := by
  induction l generalizing i with
  | nil => simp [firstRepeat]
  | cons port rest ih =>
    rw [firstRepeat, List.nodup_cons]
    cases hfind : rest.findIdx? (· = port) with
    | some d =>
      obtain ⟨hd, hport, -⟩ := List.findIdx?_eq_some_iff_getElem.mp hfind
      have hmem : port ∈ rest := by
        rw [← of_decide_eq_true hport]
        exact List.getElem_mem hd
      simp [hmem]
    | none =>
      have hnot : port ∉ rest := fun hmem => by
        simpa using List.findIdx?_eq_none_iff.mp hfind port hmem
      simp [ih, hnot]

/-- The validator finds no fault exactly with a valid sequence. -/
theorem sequenceFault_eq_none_iff : sequenceFault cfg = none ↔ SecretValid cfg.secret := by
  unfold sequenceFault SecretValid Config.secret
  by_cases hlen : cfg.knockSeqLen < 2 ∨ cfg.knockSeqLen > maxKnockSeqLen
  · rw [if_pos hlen]
    constructor
    · intro h
      cases h
    · rintro ⟨htwo, hle, -⟩
      simp only at htwo hle
      omega
  · rw [if_neg hlen]
    have htwo : 2 ≤ cfg.knockSeqLen := by omega
    have hle : cfg.knockSeqLen ≤ maxKnockSeqLen := by omega
    cases hfind : cfg.sequence.findIdx? (· = 0) with
    | some i =>
      obtain ⟨hi, hzero, -⟩ := List.findIdx?_eq_some_iff_getElem.mp hfind
      have hmem : 0 ∈ cfg.sequence := by
        rw [← of_decide_eq_true hzero]
        exact List.getElem_mem hi
      simp [hmem]
    | none =>
      have hnot : 0 ∉ cfg.sequence := fun hmem => by
        simpa using List.findIdx?_eq_none_iff.mp hfind 0 hmem
      simp [firstRepeat_eq_none_iff, htwo, hle, hnot]

/-- The sequence as the validator leaves it. -/
def Config.repairSequence (cfg : Config) : Config :=
  if SecretValid cfg.secret then cfg else cfg.resetSequenceToDefault

theorem checkSequence_cfg : (checkSequence cfg).cfg = cfg.repairSequence := by
  unfold checkSequence Config.repairSequence
  cases hfault : sequenceFault cfg with
  | none =>
    rw [if_pos (sequenceFault_eq_none_iff.mp hfault)]
  | some text =>
    rw [if_neg]
    intro hvalid
    rw [sequenceFault_eq_none_iff.mpr hvalid] at hfault
    cases hfault

theorem checkPort_cfg : (checkPort cfg).cfg =
    { cfg with
      protectedPort := orDefault (fun p => 1 ≤ p ∧ p ≤ 65535) Config.default.protectedPort
        cfg.protectedPort } := by
  unfold checkPort resetIf orDefault
  by_cases hok : 1 ≤ cfg.protectedPort ∧ cfg.protectedPort ≤ 65535
  · rw [if_neg (by omega), if_pos hok]
  · rw [if_pos (by omega), if_neg hok]

theorem checkTimeout_cfg : (checkTimeout cfg).cfg =
    { cfg with
      accessTimeout := orDefault (fun t => 1 ≤ t) Config.default.accessTimeout
        cfg.accessTimeout } := by
  unfold checkTimeout orDefault
  by_cases hok : 1 ≤ cfg.accessTimeout
  · rw [if_neg (by omega), if_pos hok]
    -- a long timeout is pointed out and kept
    split <;> rfl
  · rw [if_pos (by omega), if_neg hok]

theorem checkWindow_cfg : (checkWindow cfg).cfg =
    { cfg with
      knockWindow := orDefault (fun w => 1 ≤ w) Config.default.knockWindow cfg.knockWindow } := by
  unfold checkWindow resetIf orDefault
  by_cases hok : 1 ≤ cfg.knockWindow
  · rw [if_neg (by omega), if_pos hok]
  · rw [if_pos (by omega), if_neg hok]

theorem checkClients_cfg : (checkClients cfg).cfg =
    { cfg with
      maxClients := orDefault (fun n => 1 ≤ n ∧ n ≤ 65536) Config.default.maxClients
        cfg.maxClients } := by
  unfold checkClients resetIf orDefault maxSaneClients
  by_cases hok : 1 ≤ cfg.maxClients ∧ cfg.maxClients ≤ 65536
  · rw [if_neg (by omega), if_pos hok]
  · rw [if_pos (by omega), if_neg hok]

theorem checkLevel_cfg : (checkLevel cfg).cfg =
    { cfg with
      logLevel := orDefault (fun l => 0 ≤ l ∧ l ≤ 3) Config.default.logLevel cfg.logLevel } := by
  unfold checkLevel resetIf orDefault
  by_cases hok : 0 ≤ cfg.logLevel ∧ cfg.logLevel ≤ 3
  · rw [if_neg (by omega), if_pos hok]
  · rw [if_pos (by omega), if_neg hok]

/-- The validator settles every field by itself and leaves the interface alone. -/
theorem configValidate_eq (cfg : Config) : (configValidate cfg).1 =
    { cfg.repairSequence with
      protectedPort := orDefault (fun p => 1 ≤ p ∧ p ≤ 65535) Config.default.protectedPort
        cfg.protectedPort
      accessTimeout := orDefault (fun t => 1 ≤ t) Config.default.accessTimeout cfg.accessTimeout
      knockWindow := orDefault (fun w => 1 ≤ w) Config.default.knockWindow cfg.knockWindow
      maxClients := orDefault (fun n => 1 ≤ n ∧ n ≤ 65536) Config.default.maxClients
        cfg.maxClients
      logLevel := orDefault (fun l => 0 ≤ l ∧ l ≤ 3) Config.default.logLevel cfg.logLevel
      knockInterface := cfg.knockInterface } := by
  have hkept : cfg.repairSequence =
      { cfg with
        knockSeqLen := cfg.repairSequence.knockSeqLen
        knockSequence := cfg.repairSequence.knockSequence } := by
    unfold Config.repairSequence
    split <;> rfl
  simp only [configValidate, Validation.andThen, checkSequence_cfg, checkPort_cfg, checkOverlap,
    checkTimeout_cfg, checkWindow_cfg, checkClients_cfg, checkLevel_cfg]
  rw [hkept]

theorem secret_configValidate :
    (configValidate cfg).1.secret = orDefault SecretValid defaultSecret cfg.secret := by
  rw [configValidate_eq]
  change cfg.repairSequence.secret = _
  unfold Config.repairSequence orDefault
  split
  · rfl
  · exact secret_resetSequenceToDefault

end Validate

/-- A field that the validator checks by itself: what it accepts, and the default it puts
in place of anything else. -/
structure CheckedField (α : Type) extends ConfigField α where
  ok : α → Prop
  decidableOk : DecidablePred ok
  fallback : α
  ok_fallback : ok fallback
  get_configValidate : ∀ cfg, get (configValidate cfg).1 = orDefault ok fallback (get cfg)

attribute [instance] CheckedField.decidableOk

namespace CheckedField

/-- The sequence. -/
def secret : CheckedField (ℤ × List UInt16) where
  toConfigField := ConfigField.secret
  ok := SecretValid
  decidableOk := inferInstance
  fallback := defaultSecret
  ok_fallback := by decide
  get_configValidate _ := secret_configValidate

/-- The protected port. -/
def port : CheckedField ℤ where
  toConfigField := ConfigField.port
  ok p := 1 ≤ p ∧ p ≤ 65535
  decidableOk := inferInstance
  fallback := Config.default.protectedPort
  ok_fallback := by decide
  get_configValidate cfg := congrArg Config.protectedPort (configValidate_eq cfg)

/-- The access timeout. -/
def timeout : CheckedField ℤ where
  toConfigField := ConfigField.timeout
  ok t := 1 ≤ t
  decidableOk := inferInstance
  fallback := Config.default.accessTimeout
  ok_fallback := by decide
  get_configValidate cfg := congrArg Config.accessTimeout (configValidate_eq cfg)

/-- The knock window. -/
def window : CheckedField ℤ where
  toConfigField := ConfigField.window
  ok w := 1 ≤ w
  decidableOk := inferInstance
  fallback := Config.default.knockWindow
  ok_fallback := by decide
  get_configValidate cfg := congrArg Config.knockWindow (configValidate_eq cfg)

/-- The size of the tables. -/
def maxClients : CheckedField ℤ where
  toConfigField := ConfigField.maxClients
  ok n := 1 ≤ n ∧ n ≤ 65536
  decidableOk := inferInstance
  fallback := Config.default.maxClients
  ok_fallback := by decide
  get_configValidate cfg := congrArg Config.maxClients (configValidate_eq cfg)

/-- The log level. -/
def logLevel : CheckedField ℤ where
  toConfigField := ConfigField.logLevel
  ok l := 0 ≤ l ∧ l ≤ 3
  decidableOk := inferInstance
  fallback := Config.default.logLevel
  ok_fallback := by decide
  get_configValidate cfg := congrArg Config.logLevel (configValidate_eq cfg)

end CheckedField

/-! ### Loading -/

/-- The lines `config_load` goes through; there are none when the file cannot be opened. -/
def loadedLines : Except String OpenFile → List (List Char)
  | .error _ => []
  | .ok file => file.lines

section Load

variable {filepath : String} {file : Except String OpenFile} {cfg : Config}

/-- The lines, then the validator. -/
theorem configLoad_cfg : (configLoad filepath file cfg).cfg =
    (configValidate (configLines filepath cfg (loadedLines file)).1).1 := by
  cases file with
  | error reason => rfl
  | ok file => rfl

namespace CheckedField

variable {α : Type} (field : CheckedField α)

/-- The value of the last line that has one, or the value from before; the default if the
validator does not accept it. -/
theorem get_configLoad (filepath : String) (file : Except String OpenFile) (cfg : Config) :
    field.get (configLoad filepath file cfg).cfg = orDefault field.ok field.fallback
      ((lastParsed field.key field.parse (loadedLines file)).getD (field.get cfg)) := by
  rw [configLoad_cfg, field.get_configValidate, field.get_configLines]

theorem ok_configLoad (filepath : String) (file : Except String OpenFile) (cfg : Config) :
    field.ok (field.get (configLoad filepath file cfg).cfg) := by
  rw [field.get_configLoad]
  exact orDefault_ok field.ok_fallback

/-- Loading a file again leaves a field as it is. -/
theorem get_reload (filepath : String) (file : Except String OpenFile) (cfg : Config) :
    field.get (configLoad filepath file (configLoad filepath file cfg).cfg).cfg =
      field.get (configLoad filepath file cfg).cfg := by
  rw [field.get_configLoad, field.get_configLoad]
  exact orDefault_getD field.ok_fallback _

end CheckedField

theorem knockInterface_configLoad (filepath : String) (file : Except String OpenFile)
    (cfg : Config) : (configLoad filepath file cfg).cfg.knockInterface =
    (lastParsed .interface interfaceValue (loadedLines file)).getD cfg.knockInterface := by
  rw [configLoad_cfg, configValidate_eq]
  exact ConfigField.interface.get_configLines filepath cfg _

theorem length_of_lastParsed_interface {lines : List (List Char)} {name : List Char}
    (h : lastParsed .interface interfaceValue lines = some name) : name.length < ifnameMax := by
  obtain ⟨line, -, hline⟩ := List.mem_filterMap.mp (List.mem_of_getLast? h)
  obtain ⟨val, -, hval⟩ := Option.bind_eq_some_iff.mp hline
  unfold interfaceValue at hval
  split at hval
  · rename_i hfits
    rw [← Option.some.inj hval]
    exact hfits
  · cases hval

/-- Whatever the file holds, a usable configuration comes out. -/
theorem valid_configLoad (hname : cfg.knockInterface.length < ifnameMax) :
    (configLoad filepath file cfg).cfg.Valid where
  toSequenceValid := sequenceValid_iff.mpr (CheckedField.secret.ok_configLoad filepath file cfg)
  port_pos := (CheckedField.port.ok_configLoad filepath file cfg).1
  port_le := (CheckedField.port.ok_configLoad filepath file cfg).2
  timeout_pos := CheckedField.timeout.ok_configLoad filepath file cfg
  window_pos := CheckedField.window.ok_configLoad filepath file cfg
  clients_pos := (CheckedField.maxClients.ok_configLoad filepath file cfg).1
  clients_le := (CheckedField.maxClients.ok_configLoad filepath file cfg).2
  level_nonneg := (CheckedField.logLevel.ok_configLoad filepath file cfg).1
  level_le := (CheckedField.logLevel.ok_configLoad filepath file cfg).2
  interface_fits := by
    rw [knockInterface_configLoad]
    cases hlast : lastParsed .interface interfaceValue (loadedLines file) with
    | none => exact hname
    | some name => exact length_of_lastParsed_interface hlast

/-! ### Loading again -/

/-- Configurations with the same fields, slot by slot. -/
theorem Config.eq_of_fields {cfg cfg' : Config} (hsecret : cfg.secret = cfg'.secret)
    (hslots : ∀ i, cfg.knockSequence.get i = cfg'.knockSequence.get i)
    (hport : cfg.protectedPort = cfg'.protectedPort)
    (htimeout : cfg.accessTimeout = cfg'.accessTimeout)
    (hwindow : cfg.knockWindow = cfg'.knockWindow) (hclients : cfg.maxClients = cfg'.maxClients)
    (hlevel : cfg.logLevel = cfg'.logLevel)
    (hname : cfg.knockInterface = cfg'.knockInterface) : cfg = cfg' := by
  have hlen : cfg.knockSeqLen = cfg'.knockSeqLen := congrArg Prod.fst hsecret
  have hports : cfg.knockSequence = cfg'.knockSequence := by
    apply Vector.ext
    intro i hi
    exact hslots ⟨i, hi⟩
  cases cfg
  cases cfg'
  simp_all

/-- A slot of the array after loading: the last line that reaches it, and on top of that
the default sequence if the sequence was not accepted. -/
theorem portAt_configLoad (filepath : String) (file : Except String OpenFile) (cfg : Config)
    (i : Fin maxKnockSeqLen) :
    (configLoad filepath file cfg).cfg.knockSequence.get i =
      let written := (lastParsed .sequence (ConfigField.portAt i).parse (loadedLines file)).getD
        (cfg.knockSequence.get i)
      if SecretValid ((lastParsed .sequence secretValue (loadedLines file)).getD cfg.secret) then
        written
      else Config.defaultSequence[i.val]?.getD written := by
  have hsecret := ConfigField.secret.get_configLines filepath cfg (loadedLines file)
  have hslot := (ConfigField.portAt i).get_configLines filepath cfg (loadedLines file)
  simp only [ConfigField.secret, ConfigField.portAt] at hsecret hslot
  rw [configLoad_cfg, configValidate_eq]
  change (Config.repairSequence _).knockSequence.get i = _
  unfold Config.repairSequence
  rw [hsecret]
  split
  · rw [hslot]
    rfl
  · rw [Config.resetSequenceToDefault, knockSequence_installSequence, hslot]
    rfl

/-- Without a line that installs a sequence, no line reaches any slot. -/
theorem lastParsed_portAt_of_none {lines : List (List Char)} (i : Fin maxKnockSeqLen)
    (h : lastParsed .sequence secretValue lines = none) :
    lastParsed .sequence (ConfigField.portAt i).parse lines = none := by
  have hnone := List.filterMap_eq_nil_iff.mp (List.getLast?_eq_none_iff.mp h)
  refine List.getLast?_eq_none_iff.mpr (List.filterMap_eq_nil_iff.mpr fun line hline => ?_)
  have hvalue := hnone line hline
  cases hval : keyValue .sequence line with
  | none => rfl
  | some val =>
    rw [hval, Option.bind_some, secretValue, Option.map_eq_none_iff] at hvalue
    change (sequenceValue val).bind _ = none
    rw [hvalue]
    rfl

theorem portAt_reload (i : Fin maxKnockSeqLen) :
    (configLoad filepath file (configLoad filepath file cfg).cfg).cfg.knockSequence.get i =
      (configLoad filepath file cfg).cfg.knockSequence.get i := by
  have hvalid : SecretValid (configLoad filepath file cfg).cfg.secret :=
    CheckedField.secret.ok_configLoad filepath file cfg
  rw [portAt_configLoad filepath file (configLoad filepath file cfg).cfg]
  cases hlast : lastParsed .sequence secretValue (loadedLines file) with
  | none =>
    -- the lines write nothing, and the validator has nothing left to repair
    simp only [lastParsed_portAt_of_none i hlast, Option.getD_none, if_pos hvalid]
  | some secret =>
    -- both times the same lines, and the same judgement on the last of them
    rw [portAt_configLoad, hlast]
    simp only [Option.getD_some]
    cases lastParsed .sequence (ConfigField.portAt i).parse (loadedLines file) with
    | some port => rfl
    | none =>
      simp only [Option.getD_none]
      split
      · rfl
      · cases Config.defaultSequence[i.val]? with
        | none => rfl
        | some port => rfl

theorem knockInterface_reload :
    (configLoad filepath file (configLoad filepath file cfg).cfg).cfg.knockInterface =
      (configLoad filepath file cfg).cfg.knockInterface := by
  rw [knockInterface_configLoad filepath file (configLoad filepath file cfg).cfg,
    knockInterface_configLoad]
  cases lastParsed .interface interfaceValue (loadedLines file) with
  | none => rfl
  | some name => rfl

theorem configLoad_reload :
    (configLoad filepath file (configLoad filepath file cfg).cfg).cfg =
      (configLoad filepath file cfg).cfg := by
  apply Config.eq_of_fields
  · exact CheckedField.secret.get_reload filepath file cfg
  · exact portAt_reload
  · exact CheckedField.port.get_reload filepath file cfg
  · exact CheckedField.timeout.get_reload filepath file cfg
  · exact CheckedField.window.get_reload filepath file cfg
  · exact CheckedField.maxClients.get_reload filepath file cfg
  · exact CheckedField.logLevel.get_reload filepath file cfg
  · exact knockInterface_reload

end Load

/-- **What `config_load` leaves behind.** Whatever the lines of the file, or without a file
at all, and whatever the globals held before, as long as the interface name was
terminated: the configuration is valid. Every field is the value of the last line with its
key that parses, or what it was before if there is none, provided that is in range, and
the compiled-in default otherwise; lines with other keys do not enter into it. The
sequence is one such field together with its length. Loading the same file again changes
nothing. -/
theorem configLoad_leaves (filepath : String) (file : Except String OpenFile) (cfg : Config)
    (hname : cfg.knockInterface.length < ifnameMax) :
    let lines := loadedLines file
    let out := (configLoad filepath file cfg).cfg
    out.Valid ∧
      (out.knockSeqLen, out.sequence) = orDefault SecretValid (3, Config.defaultSequence)
        ((lastParsed .sequence secretValue lines).getD (cfg.knockSeqLen, cfg.sequence)) ∧
      out.protectedPort = orDefault (fun p => 1 ≤ p ∧ p ≤ 65535) Config.default.protectedPort
        ((lastParsed .port intValue lines).getD cfg.protectedPort) ∧
      out.accessTimeout = orDefault (fun t => 1 ≤ t) Config.default.accessTimeout
        ((lastParsed .timeout intValue lines).getD cfg.accessTimeout) ∧
      out.knockWindow = orDefault (fun w => 1 ≤ w) Config.default.knockWindow
        ((lastParsed .window intValue lines).getD cfg.knockWindow) ∧
      out.maxClients = orDefault (fun n => 1 ≤ n ∧ n ≤ 65536) Config.default.maxClients
        ((lastParsed .maxClients intValue lines).getD cfg.maxClients) ∧
      out.logLevel = orDefault (fun l => 0 ≤ l ∧ l ≤ 3) Config.default.logLevel
        ((lastParsed .logLevel intValue lines).getD cfg.logLevel) ∧
      out.knockInterface =
        (lastParsed .interface interfaceValue lines).getD cfg.knockInterface ∧
      (configLoad filepath file out).cfg = out :=
  ⟨valid_configLoad hname, CheckedField.secret.get_configLoad filepath file cfg,
    CheckedField.port.get_configLoad filepath file cfg,
    CheckedField.timeout.get_configLoad filepath file cfg,
    CheckedField.window.get_configLoad filepath file cfg,
    CheckedField.maxClients.get_configLoad filepath file cfg,
    CheckedField.logLevel.get_configLoad filepath file cfg,
    knockInterface_configLoad filepath file cfg, configLoad_reload⟩

/-- Two lines with one key, of which only the first has a number. -/
def twoPortLines : OpenFile where
  mode := none
  content := ['p', 'o', 'r', 't', '=', '8', '0', '\n', 'p', 'o', 'r', 't', '=', 'x', '\n']
  error := none

/-- The line that does not parse leaves the port to the one before it. -/
theorem configLoad_leaves_twoPortLines :
    (configLoad "knockd.conf" (.ok twoPortLines) .default).cfg.Valid ∧
      (configLoad "knockd.conf" (.ok twoPortLines) .default).cfg.protectedPort = 80 := by
  have hleaves := configLoad_leaves "knockd.conf" (.ok twoPortLines) .default (by decide)
  have hlast : lastParsed .port intValue (loadedLines (.ok twoPortLines)) = some 80 := by
    decide +kernel
  refine ⟨hleaves.1, ?_⟩
  rw [hleaves.2.2.1, hlast]
  rfl

end Knockd
