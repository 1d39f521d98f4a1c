import Mathlib.Data.Int.Notation
import Mathlib.Data.List.TakeWhile
import Mathlib.Data.Nat.Notation

/-!
# Strings and lines as the C library reads them

A string is the list of characters before its terminator, one for each byte. The
functions here follow the C standard for the C locale and a 64-bit `long`: `strtok` and
`fgets` hand out their input piece by piece, `strtol` reads a decimal number with
leading white space and sign. A pointer into a string is the rest of the string from
there on.

## Main definitions

* `CString.terminated` — the string at the start of a buffer
* `CString.strtok`, `CString.strtokAll` — one token, and all of them in turn
* `CString.strtol` — a number, the rest of the string, and the range error
* `CString.fgets`, `CString.fgetsAll` — one buffer from a file, and all of them in turn
* `CString.runs`, `CString.Numeral` — what tokens and numbers are, without the scanning

## Main results

* `strtokAll_eq_runs` — the tokens are the maximal runs of other characters
* `strtol_of_numeral`, `numeral_of_strtol` — `strtol` consumes a string exactly when it is a
  numeral
* `fgetsAll_cons_line`, `fgetsAll_lines` — short lines come out whole
-/

namespace CString

/-- The string that a buffer with these characters holds. -/
def terminated (buffer : List Char) : List Char := buffer.takeWhile (· ≠ '\x00')

/-- `isspace` in the C locale. -/
def isspace (c : Char) : Bool :=
  c = ' ' || c = '\t' || c = '\n' || c = '\x0b' || c = '\x0c' || c = '\r'

/-! ### Handing out the input piece by piece -/

section Drain

variable {σ α : Type*} (next : σ → Option (α × σ)) (size : σ → ℕ)

/-- What up to `n` calls of `next` return, until one returns nothing. -/
def drain : ℕ → σ → List α
  | 0, _ => []
  | n + 1, s =>
    match next s with
    | none => []
    | some (a, rest) => a :: drain n rest

variable {next size}

/-- A number of calls that is enough is as good as any other. -/
theorem drain_eq_drain (hnext : ∀ s a rest, next s = some (a, rest) → size rest < size s)
    {m n : ℕ} {s : σ} (hm : size s ≤ m) (hn : size s ≤ n) : drain next m s = drain next n s := by
  induction m generalizing n s with
  | zero =>
    -- without input there is no call that returns something
    cases n with
    | zero => rfl
    | succ n =>
      cases hcall : next s with
      | none => simp [drain, hcall]
      | some out =>
        have := hnext s out.1 out.2 hcall
        omega
  | succ m ih =>
    cases hcall : next s with
    | none => cases n <;> simp [drain, hcall]
    | some out =>
      have hless := hnext s out.1 out.2 hcall
      cases n with
      | zero => omega
      | succ n =>
        simp only [drain, hcall]
        rw [ih (show size out.2 ≤ m by omega) (show size out.2 ≤ n by omega)]

theorem drain_of_none {s : σ} (h : next s = none) (n : ℕ) : drain next n s = [] := by
  cases n <;> simp [drain, h]

/-- The first call, then the rest. -/
theorem drain_of_some (hnext : ∀ s a rest, next s = some (a, rest) → size rest < size s)
    {s rest : σ} {a : α} (h : next s = some (a, rest)) :
    drain next (size s) s = a :: drain next (size rest) rest := by
  have hless := hnext s a rest h
  obtain ⟨n, hn⟩ : ∃ n, size s = n + 1 := ⟨size s - 1, by omega⟩
  simp only [hn, drain, h]
  rw [drain_eq_drain hnext (show size rest ≤ n by omega) le_rfl]

end Drain

/-! ### Tokens -/

section Tokens

variable {p : Char → Bool} {s t : List Char}

/-- One call of `strtok`, with the characters that separate tokens: skip separators, and
if anything is left, the characters up to the next separator, which is consumed. -/
def strtok (p : Char → Bool) (s : List Char) : Option (List Char × List Char) :=
  match s.dropWhile p with
  | [] => none
  | t => some (t.takeWhile (!p ·), (t.dropWhile (!p ·)).tail)

/-- The tokens that successive calls return. -/
def strtokAll (p : Char → Bool) (s : List Char) : List (List Char) :=
  drain (strtok p) s.length s

/-- The maximal runs of characters that are not separators. -/
def runs (p : Char → Bool) (s : List Char) : List (List Char) :=
  (s.splitOnP p).filter (!·.isEmpty)

theorem runs_cons_of_pos {c : Char} (hc : p c = true) : runs p (c :: s) = runs p s := by
  simp [runs, List.splitOnP_cons_eq_if_modifyHead, hc]

theorem runs_dropWhile : runs p (s.dropWhile p) = runs p s := by
  induction s with
  | nil => rfl
  | cons c s ih =>
    by_cases hc : p c = true
    · rw [List.dropWhile_cons_of_pos hc, ih, runs_cons_of_pos hc]
    · rw [List.dropWhile_cons_of_neg hc]

/-- A run that is followed by a separator, or by nothing. -/
theorem runs_append (hs : s ≠ []) (hp : ∀ c ∈ s, p c = false)
    (ht : t = [] ∨ ∃ c rest, t = c :: rest ∧ p c = true) : runs p (s ++ t) = s :: runs p t := by
  have hempty : s.isEmpty = false := by simpa using hs
  rcases ht with rfl | ⟨c, rest, rfl, hc⟩
  · rw [List.append_nil, runs, List.splitOnP_eq_singleton hp]
    simp [runs, hempty]
  · rw [runs_cons_of_pos hc, runs, List.splitOnP_append_cons_of_forall_mem hp c hc]
    simp [runs, hempty]

/-- What follows the characters up to the next separator. -/
theorem dropWhile_not_cases (p : Char → Bool) (s : List Char) :
    s.dropWhile (!p ·) = [] ∨ ∃ c rest, s.dropWhile (!p ·) = c :: rest ∧ p c = true := by
  cases hdrop : s.dropWhile (!p ·) with
  | nil => exact Or.inl rfl
  | cons c rest =>
    refine Or.inr ⟨c, rest, rfl, ?_⟩
    have hc := List.head?_dropWhile_not (!p ·) s
    rw [hdrop] at hc
    simpa using hc

/-- A string that starts with a run. -/
theorem runs_cons_of_neg {c : Char} (hc : p c = false) :
    runs p (c :: s) =
      (c :: s).takeWhile (!p ·) :: runs p ((c :: s).dropWhile (!p ·)).tail := by
  have hne : (c :: s).takeWhile (!p ·) ≠ [] := by simp [hc]
  have hnot : ∀ d ∈ (c :: s).takeWhile (!p ·), p d = false := by
    intro d hd
    simpa using List.mem_takeWhile_imp hd
  have hruns := runs_append hne hnot (dropWhile_not_cases p (c :: s))
  rw [List.takeWhile_append_dropWhile] at hruns
  rw [hruns]
  -- the separator behind the run belongs to no run
  rcases dropWhile_not_cases p (c :: s) with hnil | ⟨d, rest, hcons, hd⟩
  · rw [hnil]
    rfl
  · rw [hcons, runs_cons_of_pos hd]
    rfl

theorem strtok_eq_none (h : strtok p s = none) : runs p s = [] := by
  unfold strtok at h
  split at h
  · rename_i hdrop
    rw [← runs_dropWhile, hdrop]
    rfl
  · cases h

theorem strtok_eq_some {tok rest : List Char} (h : strtok p s = some (tok, rest)) :
    runs p s = tok :: runs p rest ∧ rest.length < s.length := by
  have hlen : (s.dropWhile p).length ≤ s.length := (List.dropWhile_suffix p).length_le
  have hhead := List.head?_dropWhile_not p s
  rw [← runs_dropWhile]
  unfold strtok at h
  cases hdrop : s.dropWhile p with
  | nil =>
    rw [hdrop] at h
    cases h
  | cons c t =>
    rw [hdrop] at h hhead hlen
    obtain ⟨rfl, rfl⟩ := Prod.mk.inj (Option.some.inj h)
    have hc : p c = false := by simpa using hhead
    refine ⟨runs_cons_of_neg hc, ?_⟩
    have hdropped : ((c :: t).dropWhile (!p ·)).length ≤ t.length := by
      rw [List.dropWhile_cons_of_pos (by simp [hc])]
      exact (List.dropWhile_suffix _).length_le
    rw [List.length_tail]
    rw [List.length_cons] at hlen
    omega

/-- The tokens are the maximal runs of characters that are not separators. -/
theorem strtokAll_eq_runs (p : Char → Bool) (s : List Char) : strtokAll p s = runs p s := by
  have hnext : ∀ s tok rest, strtok p s = some (tok, rest) → rest.length < s.length :=
    fun s tok rest h => (strtok_eq_some h).2
  induction hlen : s.length using Nat.strongRecOn generalizing s with
  | _ n ih =>
    cases hcall : strtok p s with
    | none => rw [strtok_eq_none hcall, strtokAll, drain_of_none hcall]
    | some out =>
      obtain ⟨tok, rest⟩ := out
      obtain ⟨hruns, hless⟩ := strtok_eq_some hcall
      rw [strtokAll, drain_of_some hnext hcall, hruns]
      congr 1
      exact ih rest.length (hlen ▸ hless) rest rfl

end Tokens

/-! ### Numbers -/

section Numbers

/-- `LONG_MIN`. -/
def longMin : ℤ := -9223372036854775808

/-- `LONG_MAX`. -/
def longMax : ℤ := 9223372036854775807

/-- What `strtol` leaves: its value, the string from `*endptr` on, and whether `errno` is
`ERANGE`. -/
structure StrtolResult where
  value : ℤ
  rest : List Char
  erange : Bool
  deriving DecidableEq

/-- The optional sign: is it a minus, and what comes after it. -/
def splitSign : List Char → Bool × List Char
  | '-' :: s => (true, s)
  | '+' :: s => (false, s)
  | s => (false, s)

/-- `strtol` to the base ten. Without a digit nothing is converted and `*endptr` is the
start of the string; a number that does not fit is replaced by the nearest one. -/
def strtol (s : List Char) : StrtolResult :=
  let sign := splitSign (s.dropWhile isspace)
  let digits := sign.2.takeWhile Char.isDigit
  if digits = [] then ⟨0, s, false⟩
  else
    let n : ℤ := Nat.ofDigitChars 10 digits 0
    let z := if sign.1 then -n else n
    ⟨max longMin (min longMax z), sign.2.dropWhile Char.isDigit, z < longMin ∨ longMax < z⟩

/-- The string is white space, a sign or none, and one or more digits that denote the
number. -/
inductive Numeral : List Char → ℤ → Prop
  | nonneg (space sign digits : List Char) (hspace : ∀ c ∈ space, isspace c = true)
      (hsign : sign = [] ∨ sign = ['+']) (hne : digits ≠ [])
      (hdigits : ∀ c ∈ digits, c.isDigit = true) :
      Numeral (space ++ (sign ++ digits)) (Nat.ofDigitChars 10 digits 0)
  | neg (space digits : List Char) (hspace : ∀ c ∈ space, isspace c = true)
      (hne : digits ≠ []) (hdigits : ∀ c ∈ digits, c.isDigit = true) :
      Numeral (space ++ '-' :: digits) (-(Nat.ofDigitChars 10 digits 0 : ℤ))

variable {s t : List Char} {z lo hi : ℤ}

theorem not_isspace_of_isDigit {c : Char} (h : c.isDigit = true) : isspace c = false := by
  by_contra hspace
  simp only [isspace, Bool.or_eq_true, decide_eq_true_eq, Bool.not_eq_false] at hspace
  rcases hspace with ((((rfl | rfl) | rfl) | rfl) | rfl) | rfl <;> exact absurd h (by decide)

theorem splitSign_digits (hdigits : ∀ c ∈ s, c.isDigit = true) : splitSign s = (false, s) := by
  unfold splitSign
  split
  · exact absurd (hdigits '-' List.mem_cons_self) (by decide)
  · exact absurd (hdigits '+' List.mem_cons_self) (by decide)
  · rfl

theorem dropWhile_isspace_append (hspace : ∀ c ∈ s, isspace c = true) {c : Char}
    (hc : isspace c = false) : (s ++ c :: t).dropWhile isspace = c :: t := by
  rw [List.dropWhile_append_of_pos hspace, List.dropWhile_cons_of_neg (by simp [hc])]

/-- On a string of digits behind white space and a sign, `strtol` reads all of it. -/
theorem strtol_of_numeral (h : Numeral s z) :
    strtol s = ⟨max longMin (min longMax z), [], z < longMin ∨ longMax < z⟩ := by
  cases h with
  | nonneg space sign digits hspace hsign hne hdigits =>
    have hsplit : splitSign ((space ++ (sign ++ digits)).dropWhile isspace) = (false, digits) := by
      rcases hsign with rfl | rfl
      · obtain ⟨c, rest, rfl⟩ := List.exists_cons_of_ne_nil hne
        have hc := not_isspace_of_isDigit (hdigits c List.mem_cons_self)
        rw [List.nil_append, dropWhile_isspace_append hspace hc]
        exact splitSign_digits hdigits
      · rw [List.singleton_append, dropWhile_isspace_append hspace (by decide)]
        rfl
    have htake : digits.takeWhile Char.isDigit = digits := List.takeWhile_eq_self_iff.mpr hdigits
    have hdrop : digits.dropWhile Char.isDigit = [] := List.dropWhile_eq_nil_iff.mpr hdigits
    simp [strtol, hsplit, htake, hdrop, hne]
  | neg space digits hspace hne hdigits =>
    have hsplit : splitSign ((space ++ '-' :: digits).dropWhile isspace) = (true, digits) := by
      rw [dropWhile_isspace_append hspace (by decide)]
      rfl
    have htake : digits.takeWhile Char.isDigit = digits := List.takeWhile_eq_self_iff.mpr hdigits
    have hdrop : digits.dropWhile Char.isDigit = [] := List.dropWhile_eq_nil_iff.mpr hdigits
    simp [strtol, hsplit, htake, hdrop, hne]

/-- The text of a sign, as `splitSign` found it. -/
theorem eq_of_splitSign {neg : Bool} (h : splitSign s = (neg, t)) :
    (neg = true ∧ s = '-' :: t) ∨
      (neg = false ∧ ∃ sign, (sign = [] ∨ sign = ['+']) ∧ s = sign ++ t) := by
  unfold splitSign at h
  split at h
  · obtain ⟨rfl, rfl⟩ := Prod.mk.inj h
    exact Or.inl ⟨rfl, rfl⟩
  · obtain ⟨rfl, rfl⟩ := Prod.mk.inj h
    exact Or.inr ⟨rfl, ['+'], Or.inr rfl, rfl⟩
  · obtain ⟨rfl, rfl⟩ := Prod.mk.inj h
    exact Or.inr ⟨rfl, [], Or.inl rfl, rfl⟩

/-- Only numerals are read to the end. -/
theorem numeral_of_strtol (hrest : (strtol s).rest = []) (hread : (strtol s).rest ≠ s) :
    ∃ z, Numeral s z := by
  have hspaces : s.takeWhile isspace ++ s.dropWhile isspace = s := List.takeWhile_append_dropWhile
  have hspace : ∀ c ∈ s.takeWhile isspace, isspace c = true := fun c hc =>
    List.mem_takeWhile_imp hc
  obtain ⟨neg, u, hsign⟩ : ∃ neg u, splitSign (s.dropWhile isspace) = (neg, u) := ⟨_, _, rfl⟩
  simp only [strtol, hsign] at hrest hread
  by_cases hnone : u.takeWhile Char.isDigit = []
  · rw [if_pos hnone] at hread
    exact absurd rfl hread
  · rw [if_neg hnone] at hrest
    have hdigits : ∀ c ∈ u, c.isDigit = true := List.dropWhile_eq_nil_iff.mp hrest
    have hne : u ≠ [] := by
      rintro rfl
      exact hnone rfl
    rw [← hspaces]
    rcases eq_of_splitSign hsign with ⟨-, htail⟩ | ⟨-, sign, hplus, htail⟩
    · rw [htail]
      exact ⟨_, .neg _ u hspace hne hdigits⟩
    · rw [htail]
      exact ⟨_, .nonneg _ sign u hspace hplus hne hdigits⟩

theorem Numeral.ne_nil (h : Numeral s z) : s ≠ [] := by
  cases h with
  | nonneg space sign digits hspace hsign hne hdigits => simp [hne]
  | neg space digits hspace hne hdigits => simp

/-- The checks that follow a call of `strtol` in a program that wants a whole string to be
a number in a range of its own: something was read, nothing is left, no range error, and
the value lies in the range. -/
def ReadsWithin (lo hi : ℤ) (s : List Char) : Prop :=
  (strtol s).rest ≠ s ∧ (strtol s).rest = [] ∧ (strtol s).erange = false ∧
    lo ≤ (strtol s).value ∧ (strtol s).value ≤ hi

/-- The same checks the other way round, as a program makes them. -/
theorem not_readsWithin_iff : ¬ ReadsWithin lo hi s ↔
    (strtol s).rest = s ∨ (strtol s).rest ≠ [] ∨ (strtol s).erange = true ∨
      (strtol s).value < lo ∨ (strtol s).value > hi := by
  simp only [ReadsWithin, not_and_or, ne_eq, not_not, Bool.not_eq_false, Int.not_le, gt_iff_lt]

instance : DecidablePred (ReadsWithin lo hi) := fun s =>
  inferInstanceAs (Decidable ((strtol s).rest ≠ s ∧ _))

/-- For a range of `long`s, those checks accept the numerals of the range. -/
theorem readsWithin_iff (hlo : longMin ≤ lo) (hhi : hi ≤ longMax) :
    ReadsWithin lo hi s ↔ ∃ z, Numeral s z ∧ lo ≤ z ∧ z ≤ hi := by
  constructor
  · rintro ⟨hread, hrest, hrange, hlow, hhigh⟩
    obtain ⟨z, hz⟩ := numeral_of_strtol hrest hread
    rw [strtol_of_numeral hz] at hrange hlow hhigh
    simp only [decide_eq_false_iff_not] at hrange hlow hhigh
    exact ⟨z, hz, by omega, by omega⟩
  · rintro ⟨z, hz, hlow, hhigh⟩
    rw [ReadsWithin, strtol_of_numeral hz]
    refine ⟨hz.ne_nil.symm, rfl, ?_, ?_, ?_⟩
    · simp only [decide_eq_false_iff_not]
      omega
    · simp only
      omega
    · simp only
      omega

theorem strtol_value_of_numeral (hz : Numeral s z) (hlo : longMin ≤ z) (hhi : z ≤ longMax) :
    (strtol s).value = z := by
  rw [strtol_of_numeral hz]
  simp only
  omega

end Numbers

/-! ### Lines -/

section Lines

variable {n : ℕ} {s t line : List Char}

/-- The characters up to the first newline, that one included, but no more than `n`. -/
def takeLine : ℕ → List Char → List Char
  | 0, _ => []
  | _ + 1, [] => []
  | n + 1, c :: s => if c = '\n' then ['\n'] else c :: takeLine n s

/-- One call of `fgets` for a buffer of `size` characters, the terminator included; `none`
at the end of the file. -/
def fgets (size : ℕ) : List Char → Option (List Char × List Char)
  | [] => none
  | s =>
    let line := takeLine (size - 1) s
    some (line, s.drop line.length)

/-- The contents of the buffer after each of the successive calls. -/
def fgetsAll (size : ℕ) (s : List Char) : List (List Char) :=
  drain (fgets size) s.length s

/-- A line without its newline. -/
def chomp (line : List Char) : List Char := line.takeWhile (· ≠ '\n')

theorem chomp_of_not_mem (h : '\n' ∉ line) : chomp line = line := by
  apply List.takeWhile_eq_self_iff.mpr
  intro c hc
  simpa using ne_of_mem_of_not_mem hc h

theorem chomp_line (h : '\n' ∉ line) : chomp (line ++ ['\n']) = line := by
  rw [chomp, List.takeWhile_append_of_pos]
  · simp
  · intro c hc
    simpa using ne_of_mem_of_not_mem hc h

theorem length_takeLine_le (n : ℕ) (s : List Char) : (takeLine n s).length ≤ n := by
  induction n generalizing s with
  | zero => simp [takeLine]
  | succ n ih =>
    cases s with
    | nil => simp [takeLine]
    | cons c s =>
      by_cases hc : c = '\n'
      · simp [takeLine, hc]
      · simpa [takeLine, hc] using ih s

/-- A line that has room in the buffer, with its newline, or up to the end of the file. -/
theorem takeLine_of_newline (hs : '\n' ∉ s) (hn : s.length < n) :
    takeLine n (s ++ '\n' :: t) = s ++ ['\n'] := by
  induction s generalizing n with
  | nil =>
    obtain ⟨m, rfl⟩ : ∃ m, n = m + 1 := ⟨n - 1, by simp at hn; omega⟩
    simp [takeLine]
  | cons c s ih =>
    obtain ⟨m, rfl⟩ : ∃ m, n = m + 1 := ⟨n - 1, by omega⟩
    rw [List.mem_cons, not_or] at hs
    have hrest := ih hs.2 (show s.length < m by simpa using hn)
    simp [takeLine, Ne.symm hs.1, hrest]

/-- Characters without a newline that fill the buffer, or end the file before it is full. -/
theorem takeLine_of_full (hs : '\n' ∉ s) (hn : s.length = n ∨ (s.length ≤ n ∧ t = [])) :
    takeLine n (s ++ t) = s := by
  induction s generalizing n with
  | nil =>
    rcases hn with rfl | ⟨-, rfl⟩
    · rfl
    · cases n <;> rfl
  | cons c s ih =>
    obtain ⟨m, rfl⟩ : ∃ m, n = m + 1 := ⟨n - 1, by simp at hn; omega⟩
    rw [List.mem_cons, not_or] at hs
    have hrest := ih hs.2 (show s.length = m ∨ (s.length ≤ m ∧ t = []) by simpa using hn)
    simp [takeLine, Ne.symm hs.1, hrest]

/-- What is read ends with a newline or has none. -/
theorem takeLine_eq_chomp (n : ℕ) (s : List Char) :
    takeLine n s = chomp (takeLine n s) ∨ takeLine n s = chomp (takeLine n s) ++ ['\n'] := by
  induction n generalizing s with
  | zero => exact Or.inl rfl
  | succ n ih =>
    cases s with
    | nil => exact Or.inl rfl
    | cons c s =>
      by_cases hc : c = '\n'
      · simp [takeLine, chomp, hc]
      · simpa [takeLine, chomp, hc] using ih s

theorem takeLine_ne_nil (hn : 0 < n) (hs : s ≠ []) : takeLine n s ≠ [] := by
  obtain ⟨m, rfl⟩ : ∃ m, n = m + 1 := ⟨n - 1, by omega⟩
  obtain ⟨c, s, rfl⟩ := List.exists_cons_of_ne_nil hs
  rw [takeLine]
  split <;> simp

theorem fgets_of_ne_nil {size : ℕ} (hs : s ≠ []) :
    fgets size s = some (takeLine (size - 1) s, s.drop (takeLine (size - 1) s).length) := by
  obtain ⟨c, s, rfl⟩ := List.exists_cons_of_ne_nil hs
  rfl

/-- In a buffer with room for a character and the terminator, every call gets ahead. -/
theorem length_of_fgets {size : ℕ} (hsize : 2 ≤ size) (s line rest : List Char)
    (h : fgets size s = some (line, rest)) : rest.length < s.length := by
  have hs : s ≠ [] := by
    rintro rfl
    cases h
  rw [fgets_of_ne_nil hs] at h
  obtain ⟨rfl, rfl⟩ := Prod.mk.inj (Option.some.inj h)
  have hpos := List.length_pos_iff.mpr (takeLine_ne_nil (show 0 < size - 1 by omega) hs)
  have hlen := List.length_pos_iff.mpr hs
  rw [List.length_drop]
  omega

variable {size : ℕ} (hsize : 2 ≤ size)
include hsize

theorem fgetsAll_of_ne_nil (hs : s ≠ []) :
    fgetsAll size s = takeLine (size - 1) s ::
      fgetsAll size (s.drop (takeLine (size - 1) s).length) :=
  drain_of_some (length_of_fgets hsize) (fgets_of_ne_nil hs)

/-- A line that fits the buffer with its newline is read whole. -/
theorem fgetsAll_cons_line (hline : '\n' ∉ line) (hfits : line.length + 1 < size)
    (rest : List Char) :
    fgetsAll size (line ++ '\n' :: rest) = (line ++ ['\n']) :: fgetsAll size rest := by
  rw [fgetsAll_of_ne_nil hsize (by simp), takeLine_of_newline hline (by omega)]
  simp

omit hsize in
theorem fgetsAll_nil : fgetsAll size [] = [] := rfl

/-- What holds of every line that can be read holds of all that are. -/
theorem forall_mem_fgetsAll {P : List Char → Prop} (hP : ∀ s, P (takeLine (size - 1) s))
    (s : List Char) : ∀ line ∈ fgetsAll size s, P line := by
  induction hlen : s.length using Nat.strongRecOn generalizing s with
  | _ k ih =>
    by_cases hs : s = []
    · subst hs
      exact fun line hline => by cases hline
    · have hless := length_of_fgets hsize s _ _ (fgets_of_ne_nil hs)
      rw [fgetsAll_of_ne_nil hsize hs]
      exact List.forall_mem_cons.mpr ⟨hP s, ih _ (hlen ▸ hless) _ rfl⟩

/-- No call fills the buffer beyond its size. -/
theorem length_of_mem_fgetsAll (h : line ∈ fgetsAll size s) : line.length < size := by
  refine forall_mem_fgetsAll hsize (P := fun line => line.length < size) (fun s => ?_) s line h
  have hle := length_takeLine_le (size - 1) s
  omega

theorem eq_chomp_of_mem_fgetsAll (h : line ∈ fgetsAll size s) :
    line = chomp line ∨ line = chomp line ++ ['\n'] :=
  forall_mem_fgetsAll hsize (P := fun line => line = chomp line ∨ line = chomp line ++ ['\n'])
    (takeLine_eq_chomp _) s line h

/-- If every line fits, what the calls read, without newlines and empty pieces, is the
lines of the file without the empty ones. A line that just fits without its newline leaves
the newline for a call of its own. -/
theorem fgetsAll_lines (hfits : ∀ line ∈ s.splitOn '\n', line.length < size) :
    ((fgetsAll size s).map chomp).filter (!·.isEmpty) =
      (s.splitOn '\n').filter (!·.isEmpty) := by
  induction hlen : s.length using Nat.strongRecOn generalizing s with
  | _ k ih =>
    by_cases hnewline : '\n' ∈ s
    · obtain ⟨l, t, rfl, hl⟩ := List.eq_append_cons_of_mem hnewline
      rw [List.splitOn_append_cons_self_of_not_mem hl] at hfits ⊢
      have hfits' : ∀ line ∈ t.splitOn '\n', line.length < size := fun line hline =>
        hfits line (List.mem_cons_of_mem _ hline)
      rw [List.length_append, List.length_cons] at hlen
      by_cases hroom : l.length + 1 < size
      · rw [fgetsAll_cons_line hsize hl hroom, List.map_cons, chomp_line hl, List.filter_cons,
          List.filter_cons, ih t.length (by omega) hfits' rfl]
      · -- the buffer is full, and the next call finds the newline alone
        have hfull : l.length = size - 1 := by
          have := hfits l List.mem_cons_self
          omega
        have hempty : ('\n' :: t).splitOn '\n' = [] :: t.splitOn '\n' :=
          List.splitOn_append_cons_self_of_not_mem List.not_mem_nil t
        have hfits'' : ∀ line ∈ ('\n' :: t).splitOn '\n', line.length < size := by
          rw [hempty]
          exact List.forall_mem_cons.mpr ⟨by simp; omega, hfits'⟩
        have hrest := ih (t.length + 1) (by omega) hfits'' rfl
        rw [hempty, List.filter_cons_of_neg (by simp)] at hrest
        rw [fgetsAll_of_ne_nil hsize (by simp), takeLine_of_full hl (Or.inl hfull),
          List.drop_left, List.map_cons, chomp_of_not_mem hl, List.filter_cons, List.filter_cons,
          hrest]
    · -- the last line of a file may end without a newline
      by_cases hs : s = []
      · subst hs
        rfl
      · rw [List.splitOn_eq_singleton hnewline] at hfits ⊢
        have hle : s.length ≤ size - 1 := by
          have := hfits s List.mem_cons_self
          omega
        have htake := takeLine_of_full (t := []) hnewline (Or.inr ⟨hle, rfl⟩)
        rw [List.append_nil] at htake
        rw [fgetsAll_of_ne_nil hsize hs, htake, List.drop_length, fgetsAll_nil, List.map_singleton,
          chomp_of_not_mem hnewline]

end Lines

end CString
