import Knockd.Config.Lines

/-!
# A configuration written down is the configuration loaded

There are many ways to write a configuration as a file: the seven settings in any order,
with comments and empty lines between them, blanks around keys and values, comments
behind values, either kind of line ending, and any mixture of separators in the port
list. This file says what all of them have in common, and that `config_load` reads the
configuration back from every one of them, whatever the globals held before.

## Main definitions

* `Decimal`, `PortsText` — numbers and port lists as text
* `Denotes` — the text is the value of a key in a configuration
* `SettingLine`, `IdleLine` — the two kinds of lines
* `Writes` — the file is the configuration, written down

## Main results

* `scanLine_settingLine` — the scanner sees key and value through all decoration
* `config_roundTrip` — loading a written configuration yields it
-/

namespace Knockd

open CString (terminated runs fgetsAll Numeral)

/-! ### Values as text -/

/-- One or more decimal digits that denote the number. -/
structure Decimal (text : List Char) (n : ℕ) : Prop where
  ne_nil : text ≠ []
  digits : ∀ c ∈ text, c.isDigit = true
  value : Nat.ofDigitChars 10 text 0 = n

instance (text : List Char) (n : ℕ) : Decidable (Decimal text n) :=
  decidable_of_iff (text ≠ [] ∧ text.all Char.isDigit = true ∧ Nat.ofDigitChars 10 text 0 = n)
    ⟨fun ⟨hne, hdigits, hvalue⟩ => ⟨hne, List.all_eq_true.mp hdigits, hvalue⟩,
      fun h => ⟨h.ne_nil, List.all_eq_true.mpr h.digits, h.value⟩⟩

/-- The ports in order, separated by commas, blanks and tabs, one or more each time. -/
inductive PortsText : List UInt16 → List Char → Prop
  | last {port : UInt16} {text : List Char} (htext : Decimal text port.toNat) :
      PortsText [port] text
  | cons {port : UInt16} {ports : List UInt16} {text separators rest : List Char}
      (htext : Decimal text port.toNat) (hne : separators ≠ [])
      (hseparators : ∀ c ∈ separators, isSeparator c = true) (hrest : PortsText ports rest) :
      PortsText (port :: ports) (text ++ (separators ++ rest))

/-- The text of a key's value in this configuration. -/
def Denotes (cfg : Config) : ConfigKey → List Char → Prop
  | .sequence, text => PortsText cfg.sequence text
  | .port, text => Decimal text cfg.protectedPort.toNat
  | .timeout, text => Decimal text cfg.accessTimeout.toNat
  | .window, text => Decimal text cfg.knockWindow.toNat
  | .maxClients, text => Decimal text cfg.maxClients.toNat
  | .logLevel, text => Decimal text cfg.logLevel.toNat
  | .interface, text => text = cfg.knockInterface

/-! ### Lines -/

/-- Blanks and tabs only. -/
def Blanks (s : List Char) : Prop := ∀ c ∈ s, isBlank c = true

instance (s : List Char) : Decidable (Blanks s) :=
  decidable_of_iff (s.all isBlank = true) List.all_eq_true

/-- A comment up to the end of the line, or none. -/
def OptionalComment (s : List Char) : Prop := s = [] ∨ ∃ text, s = '#' :: text ∧ '\n' ∉ text

instance (s : List Char) : Decidable (OptionalComment s) :=
  decidable_of_iff (s = [] ∨ s.head? = some '#' ∧ '\n' ∉ s.tail) <| or_congr_right <| by
    cases s <;> simp [eq_comm]

/-- LF or CRLF. -/
def LineEnding (s : List Char) : Prop := s = ['\n'] ∨ s = ['\r', '\n']

instance (s : List Char) : Decidable (LineEnding s) :=
  inferInstanceAs (Decidable (s = ['\n'] ∨ s = ['\r', '\n']))

/-- `key = value`, with blanks around both, an optional comment and a line ending. -/
inductive SettingLine (key value : List Char) : List Char → Prop
  | mk {b₁ b₂ b₃ b₄ comment ending : List Char} (h₁ : Blanks b₁) (h₂ : Blanks b₂) (h₃ : Blanks b₃)
      (h₄ : Blanks b₄) (hcomment : OptionalComment comment) (hending : LineEnding ending) :
      SettingLine key value
        (b₁ ++ (key ++ (b₂ ++ '=' :: (b₃ ++ (value ++ b₄)))) ++ (comment ++ ending))

/-- A line with at most a comment on it. -/
inductive IdleLine : List Char → Prop
  | mk {b comment ending : List Char} (hb : Blanks b) (hcomment : OptionalComment comment)
      (hending : LineEnding ending) : IdleLine (b ++ (comment ++ ending))

/-- A line of a written configuration, with the key it sets, if any. -/
inductive WrittenLine (cfg : Config) : Option ConfigKey → List Char → Prop
  | setting {key : ConfigKey} {value line : List Char} (hvalue : Denotes cfg key value)
      (hline : SettingLine key.name value line) : WrittenLine cfg (some key) line
  | idle {line : List Char} (hline : IdleLine line) : WrittenLine cfg none line

/-- The file is the configuration written down: one line for each key, in any order, idle
lines in between, and every line short enough for the buffer. -/
def Writes (cfg : Config) (content : List Char) : Prop :=
  ∃ lines : List (Option ConfigKey × List Char),
    content = (lines.map Prod.snd).flatten ∧
    (∀ line ∈ lines, WrittenLine cfg line.1 line.2 ∧ line.2.length < lineSize) ∧
    (lines.filterMap Prod.fst).Perm ConfigKey.all

/-! ### The scanner on a written line -/

section Scan

variable {s t value key line comment ending : List Char}

/-- Text that survives the trimming: no character that ends a value or a string, and no
blank at either end. -/
structure Trimmed (value : List Char) : Prop where
  chars : ∀ c ∈ value, isValueChar c = true ∧ c ≠ '\x00'
  head : ∀ c ∈ value.head?, isBlank c = false
  last : ∀ c ∈ value.getLast?, isBlank c = false

theorem Blanks.isValueChar (h : Blanks s) : ∀ c ∈ s, isValueChar c = true ∧ c ≠ '\x00' := by
  intro c hc
  have hblank := h c hc
  simp only [isBlank, Bool.or_eq_true, decide_eq_true_eq] at hblank
  rcases hblank with rfl | rfl <;> decide

theorem dropWhile_blanks (hs : Blanks s) (ht : ∀ c ∈ t.head?, isBlank c = false) :
    (s ++ t).dropWhile isBlank = t := by
  rw [List.dropWhile_append_of_pos hs]
  cases t with
  | nil => rfl
  | cons c t => rw [List.dropWhile_cons_of_neg (by simp [ht c rfl])]

theorem rdropWhile_blanks (hs : ∀ c ∈ s.getLast?, isBlank c = false) (ht : Blanks t) :
    (s ++ t).rdropWhile isBlank = s := by
  have htrim : (s ++ t).rdropWhile isBlank = s.rdropWhile isBlank := by
    rw [List.rdropWhile, List.reverse_append, List.dropWhile_append_of_pos]
    · rfl
    · intro c hc
      exact ht c (List.mem_reverse.mp hc)
  rw [htrim, List.rdropWhile_eq_self_iff]
  intro hne
  simp [hs _ (List.getLast?_eq_getLast_of_ne_nil hne)]

theorem trimValue_blanks (hvalue : Trimmed value) (hs : Blanks s) (ht : Blanks t) :
    trimValue (s ++ (value ++ t)) = value := by
  have hall : (s ++ (value ++ t)).takeWhile isValueChar = s ++ (value ++ t) := by
    apply List.takeWhile_eq_self_iff.mpr
    intro c hc
    rcases List.mem_append.mp hc with hc | hc
    · exact (hs.isValueChar c hc).1
    · rcases List.mem_append.mp hc with hc | hc
      · exact (hvalue.chars c hc).1
      · exact (ht.isValueChar c hc).1
  rw [trimValue_eq, hall]
  cases value with
  | nil =>
    -- nothing but blanks
    have hblanks : ∀ c ∈ s ++ t, isBlank c = true := by
      intro c hc
      exact (List.mem_append.mp hc).elim (hs c) (ht c)
    rw [List.nil_append, List.dropWhile_eq_nil_iff.mpr hblanks]
    rfl
  | cons c value =>
    rw [dropWhile_blanks (t := c :: value ++ t) hs hvalue.head, rdropWhile_blanks hvalue.last ht]

/-- What a key must be like to be read back. -/
theorem ConfigKey.name_trimmed (key : ConfigKey) :
    Trimmed key.name ∧ '=' ∉ key.name ∧ ∃ c rest, key.name = c :: rest := by
  cases key <;>
    exact ⟨⟨by simp [name, isValueChar], by simp [name, isBlank], by simp [name, isBlank]⟩,
      by simp [name], _, _, rfl⟩

theorem stopsValue_of_line (hcomment : OptionalComment comment) (hending : LineEnding ending) :
    ∃ c, (comment ++ ending).head? = some c ∧ (c = '#' ∨ c = '\r' ∨ c = '\n') := by
  rcases hcomment with rfl | ⟨text, rfl, -⟩
  · rcases hending with rfl | rfl
    · exact ⟨'\n', rfl, Or.inr (Or.inr rfl)⟩
    · exact ⟨'\r', rfl, Or.inr (Or.inl rfl)⟩
  · exact ⟨'#', rfl, Or.inl rfl⟩

/-- The scanner sees key and value through all decoration. -/
theorem scanLine_settingLine (key : ConfigKey) (hvalue : Trimmed value)
    (hline : SettingLine key.name value line) : scanLine line = .setting key.name value := by
  obtain ⟨hname, hequals, first, rest, hfirst⟩ := key.name_trimmed
  cases hline with
  | mk h₁ h₂ h₃ h₄ hcomment hending =>
    rename_i b₁ b₂ b₃ b₄ comment ending
    have hstop : StopsValue (comment ++ ending) := by
      obtain ⟨c, hhead, hc⟩ := stopsValue_of_line hcomment hending
      intro d hd
      obtain rfl : c = d := Option.some.inj (hhead.symm.trans hd)
      exact hc.imp_right fun h => h.imp_right Or.inl
    have hnul : '\x00' ∉ b₁ ++ (key.name ++ (b₂ ++ '=' :: (b₃ ++ (value ++ b₄)))) := by
      simp only [List.mem_append, List.mem_cons, not_or]
      exact ⟨fun h => (h₁.isValueChar _ h).2 rfl, fun h => (hname.chars _ h).2 rfl,
        fun h => (h₂.isValueChar _ h).2 rfl, by decide, fun h => (h₃.isValueChar _ h).2 rfl,
        fun h => (hvalue.chars _ h).2 rfl, fun h => (h₄.isValueChar _ h).2 rfl⟩
    have hhead : ∀ c ∈ (key.name ++ (b₂ ++ '=' :: (b₃ ++ (value ++ b₄)))).head?,
        c ∈ key.name.head? := by
      rw [hfirst]
      exact fun c hc => hc
    have hfront : ∀ c ∈ key.name ++ b₂, decide (c ≠ '=') = true := by
      intro c hc
      rcases List.mem_append.mp hc with hc | hc
      · simpa using ne_of_mem_of_not_mem hc hequals
      · have hblank := h₂ c hc
        simp only [decide_eq_true_eq]
        rintro rfl
        cases hblank
    rw [scanLine_append (by simp) hstop, scanLine_eq, terminated_of_not_mem hnul,
      dropWhile_blanks h₁ fun c hc => hname.head c (hhead c hc), ← List.append_assoc, scanFrom,
      List.takeWhile_append_of_pos hfront, List.dropWhile_append_of_pos hfront]
    simp only [ne_eq, decide_not, List.dropWhile_cons, List.takeWhile_cons, decide_true,
      Bool.not_true, Bool.false_eq_true, if_false, List.append_nil]
    rw [rdropWhile_blanks hname.last h₂, trimValue_blanks hvalue h₃ h₄, if_neg]
    -- a key starts with none of the characters that end a line
    have hstart := (hname.chars first (by rw [hfirst]; exact List.mem_cons_self)).1
    rw [hfirst, List.cons_append, List.cons_append, List.head?_cons]
    simp only [isValueChar, Bool.and_eq_true, decide_eq_true_eq] at hstart
    simp [hstart]

theorem name_inj {key key' : ConfigKey} (h : key.name = key'.name) : key = key' :=
  Option.some.inj ((ofName?_eq_some_iff.mpr rfl).symm.trans (ofName?_eq_some_iff.mpr h))

theorem scanLine_idleLine (h : IdleLine line) : scanLine line = .ignored := by
  cases h with
  | mk hb hcomment hending =>
    obtain ⟨c, hhead, hc⟩ := stopsValue_of_line hcomment hending
    exact scanLine_ignored hb hhead hc

end Scan

/-! ### Values read back -/

section Values

variable {text : List Char} {n : ℕ} {ports : List UInt16}

theorem Decimal.numeral (h : Decimal text n) : Numeral text n := by
  have hnum := Numeral.nonneg [] [] text (by simp) (Or.inl rfl) h.ne_nil h.digits
  rwa [h.value] at hnum

/-- The digits of a number are a way to write it. -/
theorem decimal_toDigits (n : ℕ) : Decimal (Nat.toDigits 10 n) n where
  ne_nil := Nat.toDigits_ne_nil
  digits _ hc := Nat.isDigit_of_mem_toDigits (by decide) (by decide) hc
  value := Nat.ofDigitChars_ten_toDigits

theorem intValue_decimal (h : Decimal text n) (hn : (n : ℤ) ≤ intMax) :
    intValue text = some (n : ℤ) := by
  have hlow : intMin ≤ n := by
    rw [intMin]
    omega
  rw [intValue, if_pos]
  · rw [CString.strtol_value_of_numeral h.numeral]
    · exact Int.le_trans (show CString.longMin ≤ intMin by decide) hlow
    · exact Int.le_trans hn (show intMax ≤ CString.longMax by decide)
  · exact (CString.readsWithin_iff (by decide) (by decide)).mpr ⟨n, h.numeral, hlow, hn⟩

/-- A number of a valid configuration, which is not negative. -/
theorem intValue_toNat {n : ℤ} (h : Decimal text n.toNat) (hpos : 0 ≤ n) (hmax : n ≤ intMax) :
    intValue text = some n := by
  have hn : (n.toNat : ℤ) = n := Int.toNat_of_nonneg hpos
  rw [intValue_decimal h (by omega), hn]

theorem isSeparator_of_isDigit {c : Char} (h : c.isDigit = true) : isSeparator c = false := by
  by_contra hseparator
  simp only [isSeparator, Bool.not_eq_false, Bool.or_eq_true, decide_eq_true_eq] at hseparator
  rcases hseparator with (rfl | rfl) | rfl <;> exact absurd h (by decide)

theorem runs_separators {s t : List Char} (h : ∀ c ∈ s, isSeparator c = true) :
    runs isSeparator (s ++ t) = runs isSeparator t := by
  rw [← CString.runs_dropWhile, List.dropWhile_append_of_pos h, CString.runs_dropWhile]

/-- The runs of a port list are its numbers. -/
theorem PortsText.runs (h : PortsText ports text) :
    List.Forall₂ (fun run port => Decimal run port.toNat) (runs isSeparator text) ports := by
  induction h with
  | last htext =>
    have hruns := CString.runs_append (p := isSeparator) (t := []) htext.ne_nil
      (fun c hc => isSeparator_of_isDigit (htext.digits c hc)) (Or.inl rfl)
    rw [List.append_nil] at hruns
    rw [hruns]
    exact .cons htext .nil
  | @cons port ports text separators rest htext hne hseparators hrest ih =>
    obtain ⟨c, separators, rfl⟩ := List.exists_cons_of_ne_nil hne
    have hnext : (c :: separators) ++ rest = [] ∨
        ∃ d more, (c :: separators) ++ rest = d :: more ∧ isSeparator d = true :=
      Or.inr ⟨c, separators ++ rest, rfl, hseparators c List.mem_cons_self⟩
    rw [CString.runs_append htext.ne_nil
      (fun c hc => isSeparator_of_isDigit (htext.digits c hc)) hnext, runs_separators hseparators]
    exact .cons htext ih

/-- Numbers of ports other than zero are numerals of ports. -/
theorem forall₂_portNumeral {texts : List (List Char)}
    (h : List.Forall₂ (fun run port => Decimal run port.toNat) texts ports) (hzero : 0 ∉ ports) :
    List.Forall₂ PortNumeral texts (ports.map UInt16.toNat) := by
  induction h with
  | nil => exact .nil
  | @cons run port texts ports hrun _ ih =>
    rw [List.mem_cons, not_or] at hzero
    have hpos : port.toNat ≠ 0 := fun h => hzero.1 (UInt16.toNat_inj.mp h.symm)
    have hlt := port.toNat_lt
    exact .cons ⟨hrun.numeral, by omega, by omega⟩ (ih hzero.2)

/-- A port list reads back as its ports. -/
theorem sequenceValue_portsText (h : PortsText ports text) (hlen : text.length < scratchSize)
    (hports : 1 ≤ ports.length ∧ ports.length ≤ maxKnockSeqLen) (hzero : 0 ∉ ports) :
    sequenceValue text = some ports := by
  have hruns := h.runs
  have hcount := hruns.length_eq
  have hlist : PortList text (ports.map UInt16.toNat) := by
    have hruns' := forall₂_portNumeral hruns hzero
    exact ⟨Nat.le_of_lt_succ hlen, by omega, hcount ▸ hports.2, hruns'⟩
  obtain ⟨seq, hvalue, hmap⟩ := portList_iff.mp hlist
  rw [hvalue, List.map_injective_iff.mpr (fun _ _ => UInt16.toNat_inj.mp) hmap]

theorem secretValue_denotes {cfg : Config} (hvalid : cfg.SequenceValid)
    (h : PortsText cfg.sequence text) (hlen : text.length < scratchSize) :
    secretValue text = some cfg.secret := by
  have hlength := hvalid.length_sequence
  have htwo := hvalid.two_le_len
  have hle := hvalid.len_le
  have hseq := sequenceValue_portsText h hlen ⟨by omega, by omega⟩ hvalid.ports_ne_zero
  rw [secretValue, hseq, Option.map_some, hlength]
  rfl

theorem trimmed_of_isDigit (hdigits : ∀ c ∈ text, c.isDigit = true) : Trimmed text := by
  have hblank : ∀ c ∈ text, isBlank c = false := by
    intro c hc
    have hspace := CString.not_isspace_of_isDigit (hdigits c hc)
    simp only [CString.isspace, Bool.or_eq_false_iff] at hspace
    rw [isBlank, hspace.1.1.1.1.1, hspace.1.1.1.1.2]
    rfl
  refine ⟨fun c hc => ?_, fun c hc => hblank c (List.mem_of_head? hc),
    fun c hc => hblank c (List.mem_of_getLast? hc)⟩
  have hdigit := hdigits c hc
  constructor
  · by_contra hstop
    simp only [isValueChar, Bool.and_eq_true, decide_eq_true_eq, not_and_or, not_not] at hstop
    rcases hstop with (rfl | rfl) | rfl <;> exact absurd hdigit (by decide)
  · rintro rfl
    exact absurd hdigit (by decide)

/-- A port list is digits and separators, with digits at both ends. -/
theorem PortsText.trimmed (h : PortsText ports text) : Trimmed text ∧ text ≠ [] := by
  induction h with
  | last htext => exact ⟨trimmed_of_isDigit htext.digits, htext.ne_nil⟩
  | @cons port ports text separators rest htext hne hseparators hrest ih =>
    have hfirst := trimmed_of_isDigit htext.digits
    obtain ⟨⟨hchars, -, hlast⟩, hrest'⟩ := ih
    refine ⟨⟨fun c hc => ?_, fun c hc => ?_, fun c hc => ?_⟩, by simp [htext.ne_nil]⟩
    · rcases List.mem_append.mp hc with hc | hc
      · exact hfirst.chars c hc
      · rcases List.mem_append.mp hc with hc | hc
        · have hsep := hseparators c hc
          simp only [isSeparator, Bool.or_eq_true, decide_eq_true_eq] at hsep
          rcases hsep with (rfl | rfl) | rfl <;> decide
        · exact hchars c hc
    · rw [List.head?_append_of_ne_nil _ htext.ne_nil] at hc
      exact hfirst.head c hc
    · rw [← List.append_assoc, List.getLast?_append_of_ne_nil _ hrest'] at hc
      exact hlast c hc

end Values

/-! ### The lines of the file -/

section File

variable {cfg : Config} {filepath : String}

/-- Lines that end in their only newline and fit the buffer are read one by one. -/
theorem fgetsAll_flatten {size : ℕ} (hsize : 2 ≤ size) (lines : List (List Char))
    (h : ∀ line ∈ lines, (∃ l, line = l ++ ['\n'] ∧ '\n' ∉ l) ∧ line.length < size) :
    fgetsAll size lines.flatten = lines := by
  induction lines with
  | nil => rfl
  | cons line lines ih =>
    obtain ⟨⟨⟨l, rfl, hl⟩, hlen⟩, hlines⟩ := List.forall_mem_cons.mp h
    rw [List.length_append, List.length_singleton] at hlen
    rw [List.flatten_cons, List.append_assoc, List.singleton_append,
      CString.fgetsAll_cons_line hsize hl hlen, ih hlines]

theorem line_ends {body comment ending : List Char} (hbody : '\n' ∉ body)
    (hcomment : OptionalComment comment) (hending : LineEnding ending) :
    ∃ l, body ++ (comment ++ ending) = l ++ ['\n'] ∧ '\n' ∉ l := by
  have hfront : '\n' ∉ body ++ comment := by
    rcases hcomment with rfl | ⟨text, rfl, htext⟩
    · simpa using hbody
    · simp [hbody, htext]
  rcases hending with rfl | rfl
  · exact ⟨body ++ comment, by simp, hfront⟩
  · exact ⟨body ++ comment ++ ['\r'], by simp, by simpa using hfront⟩

theorem not_mem_of_isValueChar {s : List Char} (h : ∀ c ∈ s, isValueChar c = true ∧ c ≠ '\x00') :
    '\n' ∉ s := by
  intro hmem
  exact absurd (h _ hmem).1 (by decide)

/-- A value of the configuration, as the scanner has to find it. -/
theorem Denotes.trimmed (hname : Trimmed cfg.knockInterface) {key : ConfigKey} {value : List Char}
    (h : Denotes cfg key value) : Trimmed value := by
  cases key with
  | sequence => exact (PortsText.trimmed h).1
  | interface =>
    obtain rfl : value = cfg.knockInterface := h
    exact hname
  | _ => exact trimmed_of_isDigit (Decimal.digits h)

theorem WrittenLine.ends (hname : Trimmed cfg.knockInterface) {key : Option ConfigKey}
    {line : List Char} (h : WrittenLine cfg key line) : ∃ l, line = l ++ ['\n'] ∧ '\n' ∉ l := by
  cases h with
  | @setting key value line hvalue hline =>
    cases hline with
    | mk h₁ h₂ h₃ h₄ hcomment hending =>
      refine line_ends ?_ hcomment hending
      have hkey := not_mem_of_isValueChar key.name_trimmed.1.chars
      have hval := not_mem_of_isValueChar (hvalue.trimmed hname).chars
      simp only [List.mem_append, List.mem_cons, not_or]
      exact ⟨not_mem_of_isValueChar h₁.isValueChar, hkey, not_mem_of_isValueChar h₂.isValueChar,
        by decide, not_mem_of_isValueChar h₃.isValueChar, hval,
        not_mem_of_isValueChar h₄.isValueChar⟩
  | idle hline =>
    cases hline with
    | mk hb hcomment hending =>
      exact line_ends (not_mem_of_isValueChar hb.isValueChar) hcomment hending

/-- The line of a key has its value, and it is the value of no other key. -/
theorem WrittenLine.keyValue (hname : Trimmed cfg.knockInterface) {key : Option ConfigKey}
    {line : List Char} (h : WrittenLine cfg key line) :
    (∀ k, key = some k → ∃ value, keyValue k line = some value) ∧
      ∀ k value, keyValue k line = some value →
        Denotes cfg k value ∧ value.length ≤ line.length := by
  cases h with
  | @setting key value line hvalue hline =>
    have hscan := scanLine_settingLine key (hvalue.trimmed hname) hline
    constructor
    · intro k hk
      cases hk
      exact ⟨value, by rw [Knockd.keyValue, hscan]; exact if_pos rfl⟩
    · intro k value' hk
      rw [Knockd.keyValue, hscan] at hk
      simp only at hk
      split at hk
      · rename_i hsame
        cases hk
        rw [← name_inj hsame]
        refine ⟨hvalue, ?_⟩
        cases hline with
        | mk => simp only [List.length_append, List.length_cons]; omega
      · cases hk
  | idle hline =>
    have hscan := scanLine_idleLine hline
    constructor
    · intro k hk
      cases hk
    · intro k value hk
      rw [Knockd.keyValue, hscan] at hk
      cases hk

variable {lines : List (Option ConfigKey × List Char)}

/-- A parser that reads a value of the configuration back from any of its texts finds it
in the file. -/
theorem lastParsed_written {α : Type} {key : ConfigKey} {parse : List Char → Option α} {x : α}
    (hname : Trimmed cfg.knockInterface)
    (hlines : ∀ line ∈ lines, WrittenLine cfg line.1 line.2 ∧ line.2.length < lineSize)
    (hkeys : (lines.filterMap Prod.fst).Perm ConfigKey.all)
    (hparse : ∀ value, Denotes cfg key value → value.length < lineSize → parse value = some x) :
    lastParsed key parse (lines.map Prod.snd) = some x := by
  apply lastValue_eq_some
  · -- the key occurs among the lines
    have hkey : key ∈ ConfigKey.all := by cases key <;> decide
    obtain ⟨line, hline, hfst⟩ := List.mem_filterMap.mp (hkeys.mem_iff.mpr hkey)
    obtain ⟨hwritten, hlen⟩ := hlines line hline
    obtain ⟨value, hvalue⟩ := (hwritten.keyValue hname).1 key hfst
    obtain ⟨hdenotes, hle⟩ := (hwritten.keyValue hname).2 key value hvalue
    refine ⟨line.2, List.mem_map_of_mem hline, ?_⟩
    rw [hvalue, Option.bind_some, hparse value hdenotes (Nat.lt_of_le_of_lt hle hlen)]
  · -- and every line with the key denotes the same
    intro text htext y hy
    obtain ⟨line, hline, rfl⟩ := List.mem_map.mp htext
    obtain ⟨hwritten, hlen⟩ := hlines line hline
    obtain ⟨value, hvalue, hread⟩ := Option.bind_eq_some_iff.mp hy
    obtain ⟨hdenotes, hle⟩ := (hwritten.keyValue hname).2 key value hvalue
    rw [hparse value hdenotes (Nat.lt_of_le_of_lt hle hlen)] at hread
    exact (Option.some.inj hread).symm

theorem lines_of_writes {file : OpenFile} (hname : Trimmed cfg.knockInterface)
    (hcontent : file.content = (lines.map Prod.snd).flatten)
    (hlines : ∀ line ∈ lines, WrittenLine cfg line.1 line.2 ∧ line.2.length < lineSize) :
    file.lines = lines.map Prod.snd := by
  rw [OpenFile.lines, hcontent]
  apply fgetsAll_flatten (by decide)
  intro text htext
  obtain ⟨line, hline, rfl⟩ := List.mem_map.mp htext
  obtain ⟨hwritten, hlen⟩ := hlines line hline
  exact ⟨hwritten.ends hname, hlen⟩

/-- A checked field is read back, if each of its texts parses to the value it has. -/
theorem CheckedField.get_of_writes {α : Type} (field : CheckedField α) {file : OpenFile}
    {prior : Config} (hname : Trimmed cfg.knockInterface) (hwrites : Writes cfg file.content)
    (hok : field.ok (field.get cfg))
    (hparse : ∀ value, Denotes cfg field.key value → value.length < lineSize →
      field.parse value = some (field.get cfg)) :
    field.get (configLoad filepath (.ok file) prior).cfg = field.get cfg := by
  obtain ⟨lines, hcontent, hlines, hkeys⟩ := hwrites
  have hread : loadedLines (.ok file) = lines.map Prod.snd := lines_of_writes hname hcontent hlines
  rw [field.get_configLoad, hread, lastParsed_written hname hlines hkeys hparse]
  exact orDefault_of_ok hok

theorem knockInterface_of_writes {file : OpenFile} {prior : Config}
    (hname : Trimmed cfg.knockInterface) (hwrites : Writes cfg file.content)
    (hfits : cfg.knockInterface.length < ifnameMax) :
    (configLoad filepath (.ok file) prior).cfg.knockInterface = cfg.knockInterface := by
  obtain ⟨lines, hcontent, hlines, hkeys⟩ := hwrites
  have hread : loadedLines (.ok file) = lines.map Prod.snd := lines_of_writes hname hcontent hlines
  have hlast : lastParsed .interface interfaceValue (lines.map Prod.snd) =
      some cfg.knockInterface := by
    refine lastParsed_written hname hlines hkeys fun value hvalue _ => ?_
    obtain rfl : value = cfg.knockInterface := hvalue
    exact if_pos hfits
  rw [knockInterface_configLoad, hread, hlast]
  rfl

end File

/-- **A configuration written down is read back.** Take a valid configuration whose numbers
are `int`s and whose interface name has no `#`, no line ending, no terminator and no blank
at its ends. However it is written, loading the file yields it, whatever was there
before. -/
theorem config_roundTrip (filepath : String) (cfg prior : Config) (file : OpenFile)
    (hvalid : cfg.Valid) (htimeout : cfg.accessTimeout ≤ intMax) (hwindow : cfg.knockWindow ≤ intMax)
    (hname : Trimmed cfg.knockInterface) (hwrites : Writes cfg file.content) :
    let out := (configLoad filepath (.ok file) prior).cfg
    out.knockSeqLen = cfg.knockSeqLen ∧ out.sequence = cfg.sequence ∧
      out.protectedPort = cfg.protectedPort ∧ out.accessTimeout = cfg.accessTimeout ∧
      out.knockWindow = cfg.knockWindow ∧ out.maxClients = cfg.maxClients ∧
      out.logLevel = cfg.logLevel ∧ out.knockInterface = cfg.knockInterface := by
  intro out
  have hmax : intMax = 2147483647 := by decide
  have hsecret : out.secret = cfg.secret :=
    CheckedField.secret.get_of_writes hname hwrites
      (sequenceValid_iff.mp hvalid.toSequenceValid) fun _ hvalue hlen =>
        secretValue_denotes hvalid.toSequenceValid hvalue hlen
  refine ⟨congrArg Prod.fst hsecret, congrArg Prod.snd hsecret, ?_, ?_, ?_, ?_, ?_, ?_⟩
  · have hpos := hvalid.port_pos
    have hle := hvalid.port_le
    refine CheckedField.port.get_of_writes hname hwrites ⟨hpos, hle⟩ fun _ hvalue _ => ?_
    exact intValue_toNat (n := cfg.protectedPort) hvalue (by omega) (by omega)
  · have hpos := hvalid.timeout_pos
    refine CheckedField.timeout.get_of_writes hname hwrites hpos fun _ hvalue _ => ?_
    exact intValue_toNat (n := cfg.accessTimeout) hvalue (by omega) htimeout
  · have hpos := hvalid.window_pos
    refine CheckedField.window.get_of_writes hname hwrites hpos fun _ hvalue _ => ?_
    exact intValue_toNat (n := cfg.knockWindow) hvalue (by omega) hwindow
  · have hpos := hvalid.clients_pos
    have hle := hvalid.clients_le
    refine CheckedField.maxClients.get_of_writes hname hwrites ⟨hpos, hle⟩ fun _ hvalue _ => ?_
    exact intValue_toNat (n := cfg.maxClients) hvalue (by omega) (by omega)
  · have hpos := hvalid.level_nonneg
    have hle := hvalid.level_le
    refine CheckedField.logLevel.get_of_writes hname hwrites ⟨hpos, hle⟩ fun _ hvalue _ => ?_
    exact intValue_toNat (n := cfg.logLevel) hvalue hpos (by omega)
  · exact knockInterface_of_writes hname hwrites hvalid.interface_fits

/-! ### Ports with commas between them -/

/-- The ports as a user would write them. -/
def plainPorts : List UInt16 → List Char
  | [] => []
  | [port] => Nat.toDigits 10 port.toNat
  | port :: ports => Nat.toDigits 10 port.toNat ++ ([','] ++ plainPorts ports)

theorem portsText_plainPorts {ports : List UInt16} (h : ports ≠ []) :
    PortsText ports (plainPorts ports) := by
  induction ports with
  | nil => exact absurd rfl h
  | cons port ports ih =>
    cases ports with
    | nil => exact .last (decimal_toDigits _)
    | cons next ports =>
      exact .cons (decimal_toDigits _) (by simp) (by simp [isSeparator]) (ih (by simp))

/-! ### A file with everything in it -/

/-- A configuration that has no value in common with the default. -/
def gatewayConfig : Config where
  knockSeqLen := 4
  knockSequence := #v[1111, 22, 65535, 7, 0, 0, 0, 0, 0, 0, 0, 0, 0, 0, 0, 0]
  protectedPort := 2222
  accessTimeout := 600
  knockWindow := 5
  maxClients := 1000
  logLevel := 3
  knockInterface := "wlan0".toList

/-- Its ports, with one kind of separator after the other. -/
def gatewayPorts : List Char :=
  "1111".toList ++ (",".toList ++ ("22".toList ++ (" ,\t".toList ++ ("65535".toList ++
    ("  ".toList ++ "7".toList)))))

/-- A line that sets a key, with what stands before the key, around the `=`, behind the value
and at the end. -/
def settingText (before : String) (key : ConfigKey) (between₁ between₂ : String)
    (value : List Char) (behind comment ending : String) : List Char :=
  before.toList ++ (key.name ++ (between₁.toList ++ '=' :: (between₂.toList ++
    (value ++ behind.toList)))) ++ (comment.toList ++ ending.toList)

/-- Its lines: last key first, both line endings, comments on lines of their own and behind
values, blanks and tabs everywhere, and a leading zero. -/
def gatewayLines : List (Option ConfigKey × List Char) :=
  [(none, "".toList ++ ("# the gateway".toList ++ "\r\n".toList)),
    (some .interface, settingText "\t " .interface "" "" "wlan0".toList "\t " "# inside" "\n"),
    (none, "".toList ++ ("".toList ++ "\n".toList)),
    (some .logLevel, settingText "" .logLevel "\t" "\t" "3".toList "" "" "\r\n"),
    (some .maxClients, settingText " " .maxClients " " " " "1000".toList " " "" "\r\n"),
    (none, "  \t".toList ++ ("".toList ++ "\r\n".toList)),
    (some .window, settingText "" .window " " " " "05".toList "" "#seconds" "\n"),
    (some .sequence, settingText "" .sequence " " " " gatewayPorts " " "# = four" "\r\n"),
    (some .timeout, settingText "" .timeout "\t" "\t" "600".toList "" "" "\n"),
    (some .port, settingText "" .port " " " " "2222".toList "" "" "\n")]

/-- The file. -/
def gatewayFile : OpenFile where
  mode := some 0o100600
  content := (gatewayLines.map Prod.snd).flatten
  error := none

theorem writtenLine_settingText {cfg : Config} {key : ConfigKey}
    {before between₁ between₂ behind comment ending : String} {value : List Char}
    (hvalue : Denotes cfg key value)
    (h : (Blanks before.toList ∧ Blanks between₁.toList ∧ Blanks between₂.toList ∧
      Blanks behind.toList) ∧ OptionalComment comment.toList ∧ LineEnding ending.toList) :
    WrittenLine cfg (some key)
      (settingText before key between₁ between₂ value behind comment ending) := by
  obtain ⟨⟨h₁, h₂, h₃, h₄⟩, hcomment, hending⟩ := h
  exact .setting hvalue (.mk h₁ h₂ h₃ h₄ hcomment hending)

theorem portsText_gatewayPorts : PortsText gatewayConfig.sequence gatewayPorts := by
  have hsequence : gatewayConfig.sequence = [1111, 22, 65535, 7] := rfl
  rw [hsequence]
  exact .cons (by decide) (by decide) (by simp [isSeparator])
    (.cons (by decide) (by decide) (by simp [isSeparator])
      (.cons (by decide) (by decide) (by simp [isSeparator]) (.last (by decide))))

theorem writes_gatewayFile : Writes gatewayConfig gatewayFile.content := by
  have hshort : ∀ line ∈ gatewayLines, line.2.length < lineSize := by decide
  have hwritten : ∀ line ∈ gatewayLines, WrittenLine gatewayConfig line.1 line.2 := by
    simp only [gatewayLines, List.forall_mem_cons]
    -- line by line, from the top of the file
    refine ⟨?_, ?_, ?_, ?_, ?_, ?_, ?_, ?_, ?_, ?_, List.forall_mem_nil _⟩
    · exact .idle (.mk (by decide) (by decide) (by decide))
    · exact writtenLine_settingText rfl (by decide)
    · exact .idle (.mk (by decide) (by decide) (by decide))
    · exact writtenLine_settingText (by decide : Decimal _ _) (by decide)
    · exact writtenLine_settingText (by decide : Decimal _ _) (by decide)
    · exact .idle (.mk (by decide) (by decide) (by decide))
    · exact writtenLine_settingText (by decide : Decimal _ _) (by decide)
    · exact writtenLine_settingText portsText_gatewayPorts (by decide)
    · exact writtenLine_settingText (by decide : Decimal _ _) (by decide)
    · exact writtenLine_settingText (by decide : Decimal _ _) (by decide)
  exact ⟨gatewayLines, rfl, fun line hline => ⟨hwritten line hline, hshort line hline⟩, by decide⟩

/-- The file is loaded over a configuration that is not valid. -/
theorem config_roundTrip_gateway :
    let out := (configLoad "knockd.conf" (.ok gatewayFile)
      { Config.default with protectedPort := 80, knockSeqLen := -1 }).cfg
    out.sequence = [1111, 22, 65535, 7] ∧ out.protectedPort = 2222 ∧ out.knockWindow = 5 ∧
      out.knockInterface = "wlan0".toList := by
  intro out
  have hvalid : gatewayConfig.Valid :=
    ⟨⟨by decide, by decide, by decide, by decide⟩, by decide, by decide, by decide, by decide,
      by decide, by decide, by decide, by decide, by decide⟩
  have hname : Trimmed gatewayConfig.knockInterface := by
    constructor <;> simp [gatewayConfig, isValueChar, isBlank]
  obtain ⟨-, hsequence, hport, -, hwindow, -, -, hinterface⟩ := config_roundTrip "knockd.conf"
    gatewayConfig { Config.default with protectedPort := 80, knockSeqLen := -1 } gatewayFile
    hvalid (by decide) (by decide) hname writes_gatewayFile
  exact ⟨hsequence, hport, hwindow, hinterface⟩

end Knockd
