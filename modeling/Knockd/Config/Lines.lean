import Knockd.Config.Load

/-!
# Lines of the file and what the scanner sees of them

`config_load` means to work line by line, but it reads through a buffer of 256 bytes. A
line that does not fit comes out of `fgets` in pieces, and every piece goes through the
scanner like a line. This file says what the scanner makes of a line, so that the end of
the line and a comment behind the value turn out not to matter, and when what it is given
are the lines of the file.

## Main definitions

* `StopsValue` — the characters that end a value
* `CountsWhole` — a file is read as its lines, and nothing else

## Main results

* `scanLine_append` — nothing behind the end of a value matters
* `configLine_newline` — neither does the newline
* `countsWhole_iff` — exactly the files without long lines are read line by line
-/

namespace Knockd

open CString (terminated chomp fgetsAll)

/-! ### The end of a value -/

/-- What ends a value: a comment, the end of the line or of the string. -/
def StopsValue (tail : List Char) : Prop :=
  ∀ c ∈ tail.head?, c = '#' ∨ c = '\r' ∨ c = '\n' ∨ c = '\x00'

section Scan

variable {s t tail line : List Char}

/-- A scan that stops at the first character of the tail does not see the tail. -/
theorem takeWhile_append_of_head {p : Char → Bool} (h : ∀ c ∈ t.head?, p c = false) :
    (s ++ t).takeWhile p = s.takeWhile p := by
  induction s with
  | nil =>
    cases t with
    | nil => rfl
    | cons c t =>
      have hc : p c = false := h c rfl
      simp [hc]
  | cons c s ih => simp [List.takeWhile_cons, ih]

/-- A search that succeeds in front of the tail stops there. -/
theorem dropWhile_append_of_mem {p : Char → Bool} {c : Char} (hc : c ∈ s) (hp : p c = false) :
    (s ++ t).dropWhile p = s.dropWhile p ++ t ∧ (s ++ t).takeWhile p = s.takeWhile p ∧
      c ∈ s.dropWhile p := by
  induction s with
  | nil => cases hc
  | cons d s ih =>
    by_cases hd : p d = true
    · have hmem : c ∈ s := by
        rcases List.mem_cons.mp hc with rfl | hmem
        · rw [hp] at hd
          cases hd
        · exact hmem
      simpa [List.dropWhile_cons, List.takeWhile_cons, hd] using ih hmem
    · simpa [List.dropWhile_cons, List.takeWhile_cons, hd] using hc

/-- The characters a value can have. -/
def isValueChar (c : Char) : Bool := c ≠ '#' && c ≠ '\r' && c ≠ '\n'

/-- The trimmed value, with both cuts made at once. -/
theorem trimValue_eq (val : List Char) :
    trimValue val = ((val.takeWhile isValueChar).dropWhile isBlank).rdropWhile isBlank := by
  have hcut : (val.takeWhile (· ≠ '#')).takeWhile (fun c => c ≠ '\r' ∧ c ≠ '\n') =
      val.takeWhile isValueChar := by
    rw [List.takeWhile_takeWhile]
    congr 1
    funext c
    simp only [isValueChar, Bool.decide_and, Bool.decide_eq_true]
    exact Bool.and_comm _ _ |>.trans (Bool.and_assoc _ _ _).symm
  rw [trimValue, hcut]

theorem trimValue_append (htail : ∀ c ∈ tail.head?, isValueChar c = false) :
    trimValue (s ++ tail) = trimValue s := by
  rw [trimValue_eq, trimValue_eq, takeWhile_append_of_head htail]

theorem terminated_of_not_mem (h : '\x00' ∉ s) : terminated s = s := by
  apply List.takeWhile_eq_self_iff.mpr
  intro c hc
  simpa using ne_of_mem_of_not_mem hc h

/-- The scanner once it has skipped the white space in front. -/
def scanFrom (ptr : List Char) : ScannedLine :=
  if ptr.head? = none ∨ ptr.head? = some '#' ∨ ptr.head? = some '\n' ∨ ptr.head? = some '\r' then
    .ignored
  else
    match ptr.dropWhile (· ≠ '=') with
    | [] => .noEquals ptr
    | _ :: val => .setting ((ptr.takeWhile (· ≠ '=')).rdropWhile isBlank) (trimValue val)

theorem scanLine_eq : scanLine line = scanFrom ((terminated line).dropWhile isBlank) := rfl

/-- A line without an equals sign is never a setting. -/
theorem keyValue_of_no_equals (h : '=' ∉ line) (key : ConfigKey) : keyValue key line = none := by
  have hptr : '=' ∉ (terminated line).dropWhile isBlank := fun hmem =>
    h ((List.takeWhile_sublist _).mem ((List.dropWhile_sublist _).mem hmem))
  have hdrop : ((terminated line).dropWhile isBlank).dropWhile (· ≠ '=') = [] := by
    apply List.dropWhile_eq_nil_iff.mpr
    intro c hc
    simpa using ne_of_mem_of_not_mem hc hptr
  rw [keyValue, scanLine_eq, scanFrom, hdrop]
  by_cases hskip : ((terminated line).dropWhile isBlank).head? = none ∨
      ((terminated line).dropWhile isBlank).head? = some '#' ∨
      ((terminated line).dropWhile isBlank).head? = some '\n' ∨
      ((terminated line).dropWhile isBlank).head? = some '\r'
  · rw [if_pos hskip]
  · rw [if_neg hskip]

theorem scanFrom_append (hequals : '=' ∈ s) (htail : ∀ c ∈ tail.head?, isValueChar c = false) :
    scanFrom (s ++ tail) = scanFrom s := by
  have hhead : (s ++ tail).head? = s.head? := by
    rw [List.head?_append_of_ne_nil]
    exact List.ne_nil_of_mem hequals
  obtain ⟨hdrop, htake, hmem⟩ :=
    dropWhile_append_of_mem (p := (· ≠ '=')) (t := tail) hequals (by decide)
  obtain ⟨c, val, hval⟩ := List.exists_cons_of_ne_nil (List.ne_nil_of_mem hmem)
  rw [scanFrom, scanFrom, hhead, hdrop, htake, hval]
  simp only [List.cons_append, trimValue_append htail]

/-- Nothing behind the end of a value matters to the scanner. -/
theorem scanLine_append (hequals : '=' ∈ s) (htail : StopsValue tail) :
    scanLine (s ++ tail) = scanLine s := by
  rw [scanLine_eq, scanLine_eq]
  by_cases hnul : '\x00' ∈ s
  · -- the string ends before the tail
    rw [terminated, (dropWhile_append_of_mem hnul (by decide)).2.1]
    rfl
  · have hstart : terminated (s ++ tail) = s ++ terminated tail := by
      rw [terminated, List.takeWhile_append_of_pos]
      · rfl
      · intro c hc
        simpa using ne_of_mem_of_not_mem hc hnul
    obtain ⟨hdrop, -, hmem⟩ :=
      dropWhile_append_of_mem (p := isBlank) (t := terminated tail) hequals (by decide)
    rw [hstart, terminated_of_not_mem hnul, hdrop, scanFrom_append hmem]
    intro c hc
    cases tail with
    | nil => cases hc
    | cons d tail =>
      rcases htail d rfl with rfl | rfl | rfl | rfl
      · obtain rfl : '#' = c := by simpa [terminated] using hc
        rfl
      · obtain rfl : '\r' = c := by simpa [terminated] using hc
        rfl
      · obtain rfl : '\n' = c := by simpa [terminated] using hc
        rfl
      · simp [terminated] at hc

/-- Blanks, and then a comment or the end of the line: nothing to read. -/
theorem scanLine_ignored {c : Char} (hblank : ∀ d ∈ s, isBlank d = true) (hhead : t.head? = some c)
    (hc : c = '#' ∨ c = '\r' ∨ c = '\n') : scanLine (s ++ t) = .ignored := by
  obtain ⟨d, rest, rfl⟩ : ∃ d rest, t = d :: rest := by
    cases t with
    | nil => cases hhead
    | cons d rest => exact ⟨d, rest, rfl⟩
  obtain rfl : d = c := Option.some.inj hhead
  have hnul : d ≠ '\x00' := by
    rintro rfl
    revert hc
    decide
  have hnotBlank : isBlank d = false := by
    rcases hc with rfl | rfl | rfl <;> rfl
  have hptr : (terminated (s ++ d :: rest)).dropWhile isBlank = d :: terminated rest := by
    rw [terminated, List.takeWhile_append_of_pos, List.takeWhile_cons_of_pos (by simpa using hnul),
      List.dropWhile_append_of_pos hblank, List.dropWhile_cons_of_neg (by simp [hnotBlank])]
    · rfl
    · intro e he
      have hblank' := hblank e he
      simp only [decide_eq_true_eq]
      rintro rfl
      cases hblank'
  rw [scanLine_eq, hptr, scanFrom, if_pos]
  rcases hc with rfl | rfl | rfl <;> simp

end Scan

/-! ### What a line does -/

section Effect

variable {filepath : String} {cfg : Config} {s line : List Char}

/-- A comment line does nothing. -/
theorem configLine_comment (h : (line.dropWhile isBlank).head? = some '#') :
    (configLine filepath cfg line).1 = cfg := by
  have hignored : scanLine (line.takeWhile isBlank ++ line.dropWhile isBlank) = .ignored :=
    scanLine_ignored (fun c hc => List.mem_takeWhile_imp hc) h (Or.inl rfl)
  rw [List.takeWhile_append_dropWhile] at hignored
  rw [configLine, hignored]

/-- Text behind a `#` in the value does nothing. -/
theorem configLine_trailing_comment (hequals : '=' ∈ s) (comment : List Char) :
    (configLine filepath cfg (s ++ '#' :: comment)).1 = (configLine filepath cfg s).1 := by
  have hstop : StopsValue ('#' :: comment) := by
    intro c hc
    exact Or.inl (Option.some.inj hc).symm
  apply configLine_congr
  intro key
  rw [keyValue, keyValue, scanLine_append hequals hstop]

/-- The newline at the end of a line does nothing. -/
theorem configLine_newline (line : List Char) :
    (configLine filepath cfg (line ++ ['\n'])).1 = (configLine filepath cfg line).1 := by
  apply configLine_congr
  intro key
  by_cases hequals : '=' ∈ line
  · have hstop : StopsValue ['\n'] := by
      intro c hc
      exact Or.inr (Or.inr (Or.inl (Option.some.inj hc).symm))
    rw [keyValue, keyValue, scanLine_append hequals hstop]
  · rw [keyValue_of_no_equals hequals, keyValue_of_no_equals (by simpa using hequals)]

/-- A line with the key `sequence` installs all the ports of its value, or nothing. -/
theorem configLine_sequence {val : List Char} (h : keyValue .sequence line = some val) :
    (configLine filepath cfg line).1 = cfg ∨
      ∃ seq, PortList val (seq.map UInt16.toNat) ∧
        (configLine filepath cfg line).1 = cfg.installSequence seq ∧
        (configLine filepath cfg line).1.sequence = seq := by
  rw [(configLine_of_keyValue filepath cfg h).1]
  change (sequenceValue val).elim cfg cfg.installSequence = cfg ∨ _
  cases hvalue : sequenceValue val with
  | none => exact Or.inl rfl
  | some seq =>
    refine Or.inr ⟨seq, portList_iff.mpr ⟨seq, hvalue, rfl⟩, ?_⟩
    have happly : applyKey cfg .sequence val = cfg.installSequence seq := by
      rw [applyKey, hvalue]
      rfl
    rw [happly]
    exact ⟨rfl, sequence_installSequence (length_of_sequenceValue hvalue).2⟩

end Effect

/-! ### Pieces and lines -/

section Pieces

variable {filepath : String} {cfg : Config}

/-- Empty lines may be left out. -/
theorem configLines_filter (cfg : Config) (lines : List (List Char)) :
    (configLines filepath cfg (lines.filter (!·.isEmpty))).1 =
      (configLines filepath cfg lines).1 := by
  induction lines generalizing cfg with
  | nil => rfl
  | cons line lines ih =>
    cases line with
    | nil =>
      rw [List.filter_cons_of_neg (by simp), ih]
      rfl
    | cons c line =>
      rw [List.filter_cons_of_pos (by simp)]
      exact ih _

/-- Newlines at the ends may be left out. -/
theorem configLines_chomp (cfg : Config) (lines : List (List Char))
    (h : ∀ line ∈ lines, line = chomp line ∨ line = chomp line ++ ['\n']) :
    (configLines filepath cfg (lines.map chomp)).1 = (configLines filepath cfg lines).1 := by
  induction lines generalizing cfg with
  | nil => rfl
  | cons line lines ih =>
    obtain ⟨hline, hlines⟩ := List.forall_mem_cons.mp h
    have hsame : (configLine filepath cfg (chomp line)).1 = (configLine filepath cfg line).1 := by
      rcases hline with heq | heq
      · rw [← heq]
      · conv_rhs => rw [heq]
        rw [configLine_newline]
    rw [List.map_cons, configLines, configLines, hsame]
    exact ih _ hlines

end Pieces

/-- The file is read as its lines: what comes out is the effect of each whole line in turn,
and what goes through the scanner, empty lines apart, are the lines and no parts of them. -/
def CountsWhole (filepath : String) (file : OpenFile) (cfg : Config) : Prop :=
  (configLoad filepath (.ok file) cfg).cfg =
      (configValidate (configLines filepath cfg (file.content.splitOn '\n')).1).1 ∧
    (file.lines.map chomp).filter (!·.isEmpty) =
      (file.content.splitOn '\n').filter (!·.isEmpty)

/-- Exactly the files whose lines have at most 255 characters are read as their lines. -/
theorem countsWhole_iff (filepath : String) (file : OpenFile) (cfg : Config) :
    CountsWhole filepath file cfg ↔
      ∀ line ∈ file.content.splitOn '\n', line.length ≤ 255 := by
  constructor
  · rintro ⟨-, hpieces⟩ line hline
    -- a long line would have to be one of the pieces, and no piece is that long
    by_cases hempty : line = []
    · rw [hempty]
      exact Nat.zero_le _
    · have hmem : line ∈ (file.content.splitOn '\n').filter (!·.isEmpty) := by
        simpa using ⟨hline, hempty⟩
      rw [← hpieces] at hmem
      obtain ⟨piece, hpiece, rfl⟩ := List.mem_map.mp (List.mem_of_mem_filter hmem)
      have hlen : piece.length < lineSize := CString.length_of_mem_fgetsAll (by decide) hpiece
      have hle := (List.takeWhile_sublist (· ≠ '\n') (l := piece)).length_le
      have hsize : lineSize = 256 := rfl
      rw [chomp]
      omega
  · intro hshort
    have hpieces : (file.lines.map chomp).filter (!·.isEmpty) =
        (file.content.splitOn '\n').filter (!·.isEmpty) :=
      CString.fgetsAll_lines (by decide) fun line hline => Nat.lt_succ_of_le (hshort line hline)
    refine ⟨?_, hpieces⟩
    have hends : ∀ piece ∈ file.lines, piece = chomp piece ∨ piece = chomp piece ++ ['\n'] :=
      fun piece hpiece => CString.eq_chomp_of_mem_fgetsAll (by decide) hpiece
    change (configValidate (configLines filepath cfg file.lines).1).1 = _
    rw [← configLines_chomp cfg file.lines hends, ← configLines_filter, hpieces,
      configLines_filter]

/-- **When every line counts whole.** A comment line changes no setting, nor does the text
behind a `#` in a value, and a line with the key `sequence` installs its complete port list
or nothing. The whole file has the effect of its lines, split at newlines only, and no part
of a line is taken for a line, exactly when no line has more than 255 characters. -/
theorem config_lines_count_whole_iff (filepath : String) (file : OpenFile) (cfg : Config) :
    (∀ line : List Char, (line.dropWhile isBlank).head? = some '#' →
        (configLine filepath cfg line).1 = cfg) ∧
      (∀ setting comment : List Char, '=' ∈ setting →
        (configLine filepath cfg (setting ++ '#' :: comment)).1 =
          (configLine filepath cfg setting).1) ∧
      (∀ line val, keyValue .sequence line = some val →
        (configLine filepath cfg line).1 = cfg ∨
          ∃ seq, PortList val (seq.map UInt16.toNat) ∧
            (configLine filepath cfg line).1 = cfg.installSequence seq ∧
            (configLine filepath cfg line).1.sequence = seq) ∧
      (CountsWhole filepath file cfg ↔
        ∀ line ∈ file.content.splitOn '\n', line.length ≤ 255) :=
  ⟨fun _ => configLine_comment, fun _ comment hequals => configLine_trailing_comment hequals comment,
    fun _ _ => configLine_sequence, countsWhole_iff filepath file cfg⟩

/-- A comment of 263 characters, the last eight of which would set the port. -/
def longComment : OpenFile where
  mode := none
  content := '#' :: List.replicate 254 'x' ++ ['p', 'o', 'r', 't', ' ', '=', ' ', '1', '\n']
  error := none

/-- A comment line that is too long for the buffer sets the port. -/
theorem long_comment_counts :
    ¬ ∀ (filepath : String) (file : OpenFile) (cfg : Config), '\x00' ∉ file.content →
      CountsWhole filepath file cfg := by
  intro h
  have hwhole := (h "knockd.conf" longComment .default (by decide)).1
  have hport := congrArg Config.protectedPort hwhole
  exact absurd hport (by decide +kernel)

end Knockd
