import Mathlib.Data.List.Basic
import Knockd.Model.Main

/-!
# What the command line may say

The loop over the arguments is a parser: it reads one option after the other, some of them
two words long, and stops at the first word that ends the process. The grammar is stated
apart from it: a list of options with their spellings, then either nothing or such a word.
Whatever follows `-c` is its path, also a word that is an option elsewhere, so the grammar
has to be read from the left.

## Main definitions

* `ArgOption`, `Spelled` — options, and the words that spell a list of them
* `Ends` — what the rest of the words comes to when no option is left

## Main results

* `parseArgs_iff` — the loop is the grammar, with every way it can end
* `parseArgs_accepts` — what is accepted, and what the options are then
-/

namespace Knockd

/-- An option that does not end the process. -/
inductive ArgOption
  | verbose
  | syslog
  | config (file : String)
  deriving DecidableEq, Repr

namespace ArgOption

/-- The two spellings of an option. -/
def spellings : ArgOption → List (List String)
  | verbose => [["-v"], ["--verbose"]]
  | syslog => [["-s"], ["--syslog"]]
  | config file => [["-c", file], ["--config", file]]

/-- What an option does to the locals of `main`. -/
def apply (o : Options) : ArgOption → Options
  | verbose => { o with verbose := true }
  | syslog => { o with useSyslog := true }
  | config file => { o with configFile := file, configExplicit := true }

/-- The path an option names. -/
def path? : ArgOption → Option String
  | config file => some file
  | _ => none

end ArgOption

/-- The words spell these options. -/
inductive Spelled : List ArgOption → List String → Prop
  | nil : Spelled [] []
  | cons {option : ArgOption} {options : List ArgOption} {words rest : List String}
      (hspells : words ∈ option.spellings) (hrest : Spelled options rest) :
      Spelled (option :: options) (words ++ rest)

/-- The words the loop knows. -/
def optionWords : List String :=
  ["-h", "--help", "-V", "--version", "-v", "--verbose", "-s", "--syslog", "-c", "--config"]

/-- What the words that are left come to, when the options so far have led to `o`. -/
inductive Ends (o : Options) : List String → ParsedArgs → Prop
  | accepted : Ends o [] (.options o)
  | help {arg : String} (rest : List String) (harg : arg = "-h" ∨ arg = "--help") :
      Ends o (arg :: rest) .help
  | version {arg : String} (rest : List String) (harg : arg = "-V" ∨ arg = "--version") :
      Ends o (arg :: rest) .version
  | missingPath {arg : String} (harg : arg = "-c" ∨ arg = "--config") :
      Ends o [arg] (.missingPath arg)
  | unknown {arg : String} (rest : List String) (harg : arg ∉ optionWords) :
      Ends o (arg :: rest) (.unknown arg)

section Grammar

variable {o : Options} {options : List ArgOption} {args rest : List String} {r : ParsedArgs}

/-- The loop reads one option. -/
theorem parseArgs_spelling {option : ArgOption} {words : List String}
    (h : words ∈ option.spellings) (o : Options) (rest : List String) :
    parseArgs o (words ++ rest) = parseArgs (option.apply o) rest := by
  cases option with
  | verbose | syslog | config file =>
    simp only [ArgOption.spellings, List.mem_cons, List.not_mem_nil, or_false] at h
    rcases h with rfl | rfl <;>
    · conv_lhs => rw [parseArgs.eq_def]
      simp [ArgOption.apply]

/-- The loop reads a list of options. -/
theorem parseArgs_spelled {read : List String} (h : Spelled options read) (o : Options)
    (rest : List String) :
    parseArgs o (read ++ rest) = parseArgs (options.foldl ArgOption.apply o) rest := by
  induction h generalizing o with
  | nil => rfl
  | cons hspells _ ih =>
    rw [List.append_assoc, parseArgs_spelling hspells, ih]
    rfl

/-- The loop stops where the grammar does. -/
theorem parseArgs_of_ends (h : Ends o rest r) : parseArgs o rest = r := by
  rw [parseArgs.eq_def]
  cases h with
  | accepted => rfl
  | help rest harg | version rest harg | missingPath harg => rcases harg with rfl | rfl <;> simp
  | unknown rest harg =>
    simp only [optionWords, List.mem_cons, List.not_mem_nil, or_false, not_or] at harg
    simp [harg]

/-- Whatever the words are, they are options and then an end. -/
theorem exists_spelled (o : Options) (args : List String) :
    ∃ options read rest, args = read ++ rest ∧ Spelled options read ∧
      Ends (options.foldl ArgOption.apply o) rest (parseArgs o args) := by
  -- one more option in front of those that follow
  have hmore : ∀ (option : ArgOption) (words : List String) {o : Options} {rest : List String},
      words ∈ option.spellings →
      (∃ options read rest', rest = read ++ rest' ∧ Spelled options read ∧
        Ends (options.foldl ArgOption.apply (option.apply o)) rest'
          (parseArgs (option.apply o) rest)) →
      ∃ options read rest', words ++ rest = read ++ rest' ∧ Spelled options read ∧
        Ends (options.foldl ArgOption.apply o) rest' (parseArgs (option.apply o) rest) := by
    rintro option words o rest hspells ⟨options, read, rest', rfl, hread, hends⟩
    exact ⟨option :: options, words ++ read, rest', (List.append_assoc ..).symm,
      .cons hspells hread, hends⟩
  fun_induction parseArgs o args with
  | case1 o => exact ⟨[], [], [], rfl, .nil, .accepted⟩
  | case2 o arg rest harg => exact ⟨[], [], _, rfl, .nil, .help rest harg⟩
  | case3 o arg rest _ harg => exact ⟨[], [], _, rfl, .nil, .version rest harg⟩
  | case4 o arg rest _ _ harg ih =>
    refine hmore .verbose [arg] ?_ ih
    simpa [ArgOption.spellings] using harg
  | case5 o arg rest _ _ _ harg ih =>
    refine hmore .syslog [arg] ?_ ih
    simpa [ArgOption.spellings] using harg
  | case6 o arg _ _ _ _ harg => exact ⟨[], [], _, rfl, .nil, .missingPath harg⟩
  | case7 o arg _ _ _ _ harg file rest ih =>
    refine hmore (.config file) [arg, file] ?_ ih
    simpa [ArgOption.spellings] using harg
  | case8 o arg rest hhelp hversion hverbose hsyslog hconfig =>
    refine ⟨[], [], _, rfl, .nil, .unknown rest ?_⟩
    simp only [optionWords, List.mem_cons, List.not_mem_nil, or_false, not_or] at *
    tauto

/-- The loop is the grammar: it comes to `r` exactly if the words are options followed by an
end that comes to `r`. -/
theorem parseArgs_iff (o : Options) (args : List String) (r : ParsedArgs) :
    parseArgs o args = r ↔
      ∃ options read rest, args = read ++ rest ∧ Spelled options read ∧
        Ends (options.foldl ArgOption.apply o) rest r := by
  constructor
  · rintro rfl
    exact exists_spelled o args
  · rintro ⟨options, read, rest, rfl, hread, hends⟩
    rw [parseArgs_spelled hread, parseArgs_of_ends hends]

end Grammar

/-- What a list of options leaves the locals at, having started from `o`. -/
theorem foldl_apply_options (o : Options) (options : List ArgOption) :
    options.foldl ArgOption.apply o =
      ⟨(options.filterMap ArgOption.path?).getLast?.getD o.configFile,
        o.configExplicit || !(options.filterMap ArgOption.path?).isEmpty,
        o.verbose || options.contains .verbose, o.useSyslog || options.contains .syslog⟩ := by
  induction options generalizing o with
  | nil => simp
  | cons option options ih =>
    rw [List.foldl_cons, ih]
    cases option <;>
      simp [ArgOption.apply, ArgOption.path?, List.filterMap_cons, List.getLast?_cons]

/-- **Accepted command lines.** The loop gets to its end exactly on the words that spell a
list of options. Debug logging and syslog are then on if they were asked for anywhere; the
path is the last one given, and counts as given by the user, or else the default one. -/
theorem parseArgs_accepts (args : List String) (o : Options) :
    parseArgs .initial args = .options o ↔
      ∃ options, Spelled options args ∧
        o.verbose = options.contains .verbose ∧ o.useSyslog = options.contains .syslog ∧
        o.configExplicit = !(options.filterMap ArgOption.path?).isEmpty ∧
        o.configFile =
          (options.filterMap ArgOption.path?).getLast?.getD defaultConfigPath := by
  rw [parseArgs_iff]
  constructor
  · rintro ⟨options, read, rest, rfl, hread, hends⟩
    cases hends
    refine ⟨options, by simpa using hread, ?_⟩
    simp [foldl_apply_options, Options.initial]
  · rintro ⟨options, hread, hverbose, hsyslog, hexplicit, hfile⟩
    refine ⟨options, args, [], by simp, hread, ?_⟩
    have ho : options.foldl ArgOption.apply .initial = o := by
      rw [foldl_apply_options]
      simp only [Options.initial, Bool.false_or, ← hverbose, ← hsyslog, ← hexplicit, ← hfile]
    rw [ho]
    exact .accepted

end Knockd
