import Knockd.Semantics.CString

/-!
# Words and numbers as the shell reads them

A script takes its input apart with `read -a`, which cuts a line at the characters of `IFS`,
and compares numbers with `[`, which first has to read them. Both are close to what the C
library offers, and both differ from it at the edges: two separators in a row have an empty
field between them, where `strtok` sees one separator, and an operand that does not fit
into the machine's integers is no number at all, where `strtol` takes the nearest one.

## Main definitions

* `Shell.fields` — the fields of a line, for separators that are no white space
* `Shell.integer?` — the operand of a comparison

## Main results

* `fields_append_cons`, `fields_eq_singleton` — one field after the other
* `runs_eq_fields` — where the fields of the shell are the tokens of `strtok`
* `integer?_digits` — on digits, the operand is their number unless it is too large
-/

namespace Shell

open CString (strtol runs longMax)

/-! ### Fields -/

section Fields

variable {p q : Char → Bool} {s : List Char}

/-- The fields of `read -a`: every separator ends one, and so does the end of the line,
unless nothing has come since the last separator. -/
def fields (p : Char → Bool) : List Char → List (List Char)
  | [] => []
  | c :: s =>
    if p c then [] :: fields p s
    else
      match fields p s with
      | [] => [[c]]
      | field :: more => (c :: field) :: more

/-- A field that a separator ends. -/
theorem fields_append_cons {c : Char} {t : List Char} (hs : ∀ d ∈ s, p d = false)
    (hc : p c = true) : fields p (s ++ c :: t) = s :: fields p t := by
  induction s with
  | nil => exact if_pos hc
  | cons d s ih =>
    obtain ⟨hd, hs⟩ := List.forall_mem_cons.mp hs
    rw [List.cons_append, fields, if_neg (by simp [hd]), ih hs]

/-- A field that the end of the line ends. -/
theorem fields_eq_singleton (hne : s ≠ []) (hs : ∀ d ∈ s, p d = false) : fields p s = [s] := by
  induction s with
  | nil => exact absurd rfl hne
  | cons d s ih =>
    obtain ⟨hd, hs⟩ := List.forall_mem_cons.mp hs
    rw [fields, if_neg (by simp [hd])]
    cases s with
    | nil => rfl
    | cons e s => rw [ih (List.cons_ne_nil e s) hs]

/-- Between the separators are the fields, and an empty piece at the end that is none. -/
theorem splitOnP_eq_fields (p : Char → Bool) (s : List Char) :
    s.splitOnP p = fields p s ∨ s.splitOnP p = fields p s ++ [[]] := by
  induction s with
  | nil => exact .inr rfl
  | cons c s ih =>
    rw [List.splitOnP_cons_eq_if_modifyHead, fields]
    by_cases hc : p c = true
    · rw [if_pos hc, if_pos hc]
      exact ih.imp (congrArg (List.cons [])) (congrArg (List.cons []))
    · rw [if_neg hc, if_neg hc]
      cases hfields : fields p s with
      | nil =>
        rw [hfields] at ih
        rcases ih with ih | ih
        · exact absurd ih (List.splitOnP_ne_nil p s)
        · exact .inl (by rw [ih]; rfl)
      | cons field more =>
        rw [hfields] at ih
        rcases ih with ih | ih
        · exact .inl (by rw [ih]; rfl)
        · exact .inr (by rw [ih]; rfl)

/-- A character that separates nothing is in some field. -/
theorem exists_mem_fields {c : Char} (hc : c ∈ s) (hp : p c = false) :
    ∃ field ∈ fields p s, c ∈ field := by
  induction s with
  | nil => cases hc
  | cons d s ih =>
    rw [fields]
    rcases List.mem_cons.mp hc with rfl | hc
    · rw [if_neg (by simp [hp])]
      cases fields p s with
      | nil => exact ⟨_, List.mem_cons_self, List.mem_cons_self⟩
      | cons field more => exact ⟨_, List.mem_cons_self, List.mem_cons_self⟩
    · obtain ⟨field, hfield, hmem⟩ := ih hc
      by_cases hd : p d = true
      · rw [if_pos hd]
        exact ⟨field, List.mem_cons_of_mem _ hfield, hmem⟩
      · rw [if_neg hd]
        cases hfields : fields p s with
        | nil =>
          rw [hfields] at hfield
          cases hfield
        | cons first more =>
          rw [hfields] at hfield
          rcases List.mem_cons.mp hfield with rfl | hfield
          · exact ⟨_, List.mem_cons_self, List.mem_cons_of_mem _ hmem⟩
          · exact ⟨field, List.mem_cons_of_mem _ hfield, hmem⟩

theorem runs_congr (h : ∀ c ∈ s, p c = q c) : runs p s = runs q s := by
  have hsplit : s.splitOnP p = s.splitOnP q := by
    induction s with
    | nil => rfl
    | cons c s ih =>
      obtain ⟨hc, hs⟩ := List.forall_mem_cons.mp h
      rw [List.splitOnP_cons_eq_if_modifyHead, List.splitOnP_cons_eq_if_modifyHead, hc, ih hs]
  rw [runs, runs, hsplit]

/-- Where no field is empty, and none has a character that separates tokens, the fields are
the tokens. -/
theorem runs_eq_fields (hsep : ∀ c, p c = true → q c = true)
    (hfields : ∀ field ∈ fields p s, field ≠ [] ∧ ∀ c ∈ field, q c = false) :
    runs q s = fields p s := by
  have hsame : ∀ c ∈ s, q c = p c := by
    intro c hc
    cases hp : p c with
    | true => exact hsep c hp
    | false =>
      obtain ⟨field, hfield, hmem⟩ := exists_mem_fields hc hp
      exact (hfields field hfield).2 c hmem
  have hfull : (fields p s).filter (!·.isEmpty) = fields p s := by
    refine List.filter_eq_self.mpr fun field hfield => ?_
    simpa using (hfields field hfield).1
  rw [runs_congr hsame, runs]
  rcases splitOnP_eq_fields p s with hsplit | hsplit
  · rw [hsplit, hfull]
  · rw [hsplit, List.filter_append, hfull]
    exact List.append_nil _

end Fields

/-! ### Numbers -/

/-- The integer that an operand of `[` is: what `strtol` reads, if it reads something, it
fits, and nothing but blanks is left. -/
def integer? (s : List Char) : Option ℤ :=
  let n := strtol s
  if n.rest = s ∨ n.erange = true ∨ n.rest.dropWhile (fun c => c = ' ' ∨ c = '\t') ≠ [] then none
  else some n.value

/-- Digits are a number, unless it is too large. -/
theorem integer?_digits {s : List Char} (hne : s ≠ []) (hdigits : ∀ c ∈ s, c.isDigit = true) :
    integer? s = if (Nat.ofDigitChars 10 s 0 : ℤ) ≤ longMax then
      some (Nat.ofDigitChars 10 s 0 : ℤ) else none := by
  have hnum : CString.Numeral s (Nat.ofDigitChars 10 s 0) :=
    .nonneg [] [] s (by simp) (.inl rfl) hne hdigits
  have hlow : ¬ ((Nat.ofDigitChars 10 s 0 : ℤ) < CString.longMin) := by
    rw [CString.longMin]
    omega
  rw [integer?, CString.strtol_of_numeral hnum]
  by_cases hfits : (Nat.ofDigitChars 10 s 0 : ℤ) ≤ longMax
  · simp [hne.symm, hlow, hfits, Int.not_lt.mpr hfits]
    omega
  · simp [hfits, Int.not_le.mp hfits]

end Shell
