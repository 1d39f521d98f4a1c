import Knockd.Config.RoundTrip
import Knockd.Model.Client

/-!
# The client and the server mean the same sequence

The knock sequence is written down twice, in the server's configuration and on the client's
command line, and read by two programs that have nothing in common: one cuts it up with
`strtok` and `strtol`, the other with `read -a`, a pattern and the comparisons of `[`. The
client is the stricter of the two. Whatever list it lets pass, the server reads as the same
ports, unless it is too long for the server or has a number so large that the client could
not compare it; and every list of ports it refuses, it refuses before the first knock.

## Main definitions

* `portNumber` — the number that a port's digits are
* `Accepted`, `Refused` — whether there is anything to knock, and something to knock with
* `FitsServer` — what the server asks of a list beyond what the client does
* `portText` — how a port is written

## Main results

* `knocks_sendSequence` — the loop knocks at the ports in order, as far as it gets
* `delivers_knockClient` — what the script does, whatever its host answers
* `parseSequence_of_accepted` — the server on the lists the client lets pass
* `client_knocks_sequence` — what a run of the client knocks
* `client_knocks_config` — a client given the configured sequence knocks it
-/

namespace Knockd

open CString (Numeral longMax runs)
open Shell (Reply Runs)
open Client (say warn die)

/-! ### The validation -/

/-- The number that the digits of a port are. -/
def portNumber (port : List Char) : ℕ := Nat.ofDigitChars 10 port 0

section Validation

variable {port : List Char} {o : ClientOptions}

/-- A port that passes is digits, and in range or too large to compare. -/
theorem portComplaint_eq_none : portComplaint port = none ↔
    port ≠ [] ∧ (∀ c ∈ port, c.isDigit = true) ∧
      (1 ≤ portNumber port ∧ portNumber port ≤ 65535 ∨ longMax < (portNumber port : ℤ)) := by
  unfold portComplaint
  by_cases hdigits : port = [] ∨ port.any (!Char.isDigit ·)
  · rw [if_pos hdigits]
    refine ⟨fun h => (nomatch h), fun ⟨hne, hall, _⟩ => ?_⟩
    rcases hdigits with hnil | hany
    · exact absurd hnil hne
    · obtain ⟨c, hc, hnot⟩ := List.any_eq_true.mp hany
      simp [hall c hc] at hnot
  · rw [if_neg hdigits]
    have hne : port ≠ [] := fun hnil => hdigits (.inl hnil)
    have hall : ∀ c ∈ port, c.isDigit = true := by
      intro c hc
      by_contra hnot
      exact hdigits (.inr (List.any_eq_true.mpr ⟨c, hc, by simpa using hnot⟩))
    have hmax : longMax = 9223372036854775807 := rfl
    by_cases hfits : (portNumber port : ℤ) ≤ longMax
    · have hint : Shell.integer? port = some (portNumber port : ℤ) :=
        (Shell.integer?_digits hne hall).trans (if_pos hfits)
      simp only [hint, ite_eq_right_iff, reduceCtorEq, imp_false]
      constructor
      · intro hrange
        exact ⟨hne, hall, .inl (by omega)⟩
      · rintro ⟨-, -, hrange⟩
        omega
    · have hint : Shell.integer? port = none :=
        (Shell.integer?_digits hne hall).trans (if_neg hfits)
      simp only [hint]
      exact ⟨fun _ => ⟨hne, hall, .inr (Int.not_le.mp hfits)⟩, fun _ => trivial⟩

theorem complaint_eq_none : o.complaint = none ↔
    2 ≤ o.knockPorts.length ∧ (∀ port ∈ o.knockPorts, portComplaint port = none) ∧
      portComplaint o.sshPort = none ∧
      o.delay ≠ [] ∧ ∀ c ∈ o.delay, c.isDigit = false → c = '.' := by
  unfold ClientOptions.complaint
  by_cases hlength : o.knockPorts.length < 2
  · rw [if_pos hlength]
    exact ⟨fun h => (nomatch h), fun h => absurd h.1 (Nat.not_le.mpr hlength)⟩
  · rw [if_neg hlength]
    cases hports : (o.knockPorts ++ [o.sshPort]).findSome? portComplaint with
    | some message =>
      obtain ⟨port, hport, hmessage⟩ := List.exists_of_findSome?_eq_some hports
      refine ⟨fun h => (nomatch h), fun ⟨_, hall, hssh, _⟩ => ?_⟩
      rcases List.mem_append.mp hport with hport | hport
      · rw [hall port hport] at hmessage
        cases hmessage
      · rw [List.mem_singleton.mp hport, hssh] at hmessage
        cases hmessage
    | none =>
      rw [List.findSome?_eq_none_iff] at hports
      have hall : ∀ port ∈ o.knockPorts, portComplaint port = none := fun port hport =>
        hports port (List.mem_append_left _ hport)
      have hssh := hports o.sshPort (List.mem_append_right _ List.mem_cons_self)
      have hdelay : ¬ (o.delay = [] ∨ o.delay.any (fun c => !(c.isDigit || c = '.'))) ↔
          o.delay ≠ [] ∧ ∀ c ∈ o.delay, c.isDigit = false → c = '.' := by
        simp
      rw [← hdelay]
      simp only [ite_eq_right_iff, reduceCtorEq, imp_false]
      exact ⟨fun h => ⟨Nat.not_lt.mp hlength, hall, hssh, h⟩, fun h => h.2.2.2⟩

end Validation

/-! ### What the script knocks -/

/-- The knocks of the script are those of a plan, unless a failure ends it. -/
abbrev Knocks (script : ClientScript) (plan : List ClientCommand) (final : ℕ → Prop) : Prop :=
  Shell.Follows ClientCommand.isGuarded ClientCommand.isKnock script plan final

/-- The same of one run. -/
abbrev KnockOutcome (calls : List (ClientCommand × Reply)) (status : ℕ)
    (plan : List ClientCommand) (final : ℕ → Prop) : Prop :=
  Shell.Outcome ClientCommand.isGuarded ClientCommand.isKnock calls status plan final

section Script

variable {rest : ClientScript} {text : String} {plan : List ClientCommand} {final : ℕ → Prop}

theorem knocks_say (h : Knocks rest plan final) : Knocks (say text rest) plan final :=
  .must rfl rfl h

theorem knocks_warn (h : Knocks rest plan final) : Knocks (warn text rest) plan final :=
  .must rfl rfl h

theorem knocks_die (h : final 1) : Knocks (die text) [] final := .must rfl rfl (.ret h)

/-- The loop knocks at the ports in order, once each. -/
theorem knocks_sendSequence (o : ClientOptions) (tool : KnockTool) (total step : ℕ)
    (ports : List (List Char)) (h : Knocks rest plan final) :
    Knocks (sendSequence o tool total step ports rest) (ports.map (sendKnock o tool) ++ plan)
      final := by
  induction ports generalizing step with
  | nil => exact h
  | cons port ports ih =>
    refine .must rfl rfl (.next rfl rfl (.must rfl rfl ?_))
    split
    · exact .must rfl rfl (ih (step + 1))
    · exact ih (step + 1)

/-- Behind the loop there are no more knocks, and without `--ssh` nothing is left to go wrong
but the lines that are printed. -/
theorem knocks_connect (o : ClientOptions) :
    Knocks (connect o) [] fun status => o.doSsh = false → status = 0 := by
  unfold connect
  split
  · rename_i hssh
    have hnever : ∀ status, o.doSsh = false → status = 0 := fun _ hno => by
      rw [hssh] at hno
      cases hno
    refine knocks_say (knocks_say (.must rfl rfl (.ask rfl rfl fun session => ?_)))
    split
    · exact knocks_say (knocks_say (.ret fun _ => rfl))
    · exact knocks_say (knocks_warn (.ret (hnever 1)))
  · exact knocks_say (knocks_say (knocks_say (knocks_say (.ret fun _ => rfl))))

theorem knocks_knockAndConnect (o : ClientOptions) (tool : KnockTool) :
    Knocks (knockAndConnect o tool) (o.knockPorts.map (sendKnock o tool))
      fun status => o.doSsh = false → status = 0 := by
  have hend : Knocks (say "" <| say "  sequence sent" <| say "" <| connect o) []
      fun status => o.doSsh = false → status = 0 :=
    knocks_say (knocks_say (knocks_say (knocks_connect o)))
  have hsent := knocks_sendSequence o tool o.knockPorts.length 0 o.knockPorts hend
  rw [List.append_nil] at hsent
  exact knocks_say (knocks_say (knocks_say (knocks_say (knocks_say hsent))))

end Script

/-! ### Runs of the script -/

/-- The host has the program. -/
def Found (calls : List (ClientCommand × Reply)) (tool : KnockTool) : Prop :=
  ∃ r, (ClientCommand.find tool, r) ∈ calls ∧ r.status = 0

/-- The arguments are in order, and in this run of the script a program was found that can
knock as they ask. -/
structure Accepted (user : String) (args : List String) (calls : List (ClientCommand × Reply))
    (o : ClientOptions) (tool : KnockTool) : Prop where
  parsed : (clientArgs user args).result = .options o
  valid : o.complaint = none
  found : Found calls tool
  usable : tool = .nmap → o.doUdp = false

/-- Something was wrong with the arguments, or a command failed, or there was no program: each
of them was looked for, and none was found that can knock as asked. -/
def Refused (user : String) (args : List String) (calls : List (ClientCommand × Reply)) : Prop :=
  (∀ o tool, ¬ Accepted user args calls o tool) ∧
    ∀ o, (clientArgs user args).result = .options o → o.complaint = none →
      Shell.Succeeded ClientCommand.isGuarded calls →
      ∀ tool, ∃ r, (ClientCommand.find tool, r) ∈ calls

/-- What a run of the script does: if it is refused, it does not knock, and exits with zero only
for the help; if it is accepted, it knocks at the ports as planned. -/
def Delivers (user : String) (args : List String) (calls : List (ClientCommand × Reply))
    (status : ℕ) : Prop :=
  Refused user args calls ∧
      KnockOutcome calls status [] (fun status => status = 0 ↔
        (clientArgs user args).result = .usage) ∨
    ∃ o tool, Accepted user args calls o tool ∧
      KnockOutcome calls status (o.knockPorts.map (sendKnock o tool))
        fun status => o.doSsh = false → status = 0

section Runs

variable {user : String} {args : List String} {calls : List (ClientCommand × Reply)}
  {status : ℕ} {o : ClientOptions} {tool : KnockTool} {c : ClientCommand} {r : Reply}

@[simp] theorem not_found_nil : ¬ Found [] tool := fun ⟨_, h, _⟩ => nomatch h

@[simp] theorem found_cons : Found ((c, r) :: calls) tool ↔
    c = .find tool ∧ r.status = 0 ∨ Found calls tool := by
  simp only [Found, List.mem_cons, Prod.mk.injEq]
  constructor
  · rintro ⟨r', ⟨rfl, rfl⟩ | hmem, hok⟩
    · exact .inl ⟨rfl, hok⟩
    · exact .inr ⟨r', hmem, hok⟩
  · rintro (⟨rfl, hok⟩ | ⟨r', hmem, hok⟩)
    · exact ⟨r, .inl ⟨rfl, rfl⟩, hok⟩
    · exact ⟨r', .inr hmem, hok⟩

theorem runs_die {message : String} (h : Runs (die message) calls status) :
    ∃ r, calls = [(.complain (message ++ "\n"), r)] := by
  rcases Shell.runs_must h with ⟨r, more, rfl, -, hrest⟩ | ⟨r, rfl, -⟩
  · obtain ⟨rfl, -⟩ := Shell.runs_ret hrest
    exact ⟨r, rfl⟩
  · exact ⟨r, rfl⟩

/-- The script finds a program and goes on with it, or there is none that can knock as asked. -/
theorem runs_knockTool {rest : KnockTool → ClientScript} {plan : KnockTool → List ClientCommand}
    {final : ℕ → Prop} (hrest : ∀ tool, Knocks (rest tool) (plan tool) final)
    (h : Runs (knockTool o rest) calls status) :
    (∃ tool, Found calls tool ∧ (tool = .nmap → o.doUdp = false) ∧
        KnockOutcome calls status (plan tool) final) ∨
      (∀ tool, Found calls tool → tool = .nmap ∧ o.doUdp = true) ∧
        (∀ tool, ∃ r, (ClientCommand.find tool, r) ∈ calls) ∧
        KnockOutcome calls status [] (· ≠ 0) := by
  obtain ⟨nc, more, rfl, h₁⟩ := Shell.runs_call h
  by_cases hnc : nc.status = 0
  · rw [if_pos hnc] at h₁
    refine .inl ⟨.nc, by simp [hnc], fun h => (nomatch h), ?_⟩
    exact (hrest .nc _ _ h₁).cons rfl (.inl rfl)
  · rw [if_neg hnc] at h₁
    obtain ⟨ncat, more, rfl, h₂⟩ := Shell.runs_call h₁
    by_cases hncat : ncat.status = 0
    · rw [if_pos hncat] at h₂
      refine .inl ⟨.ncat, by simp [hncat], fun h => (nomatch h), ?_⟩
      exact ((hrest .ncat _ _ h₂).cons rfl (.inl rfl)).cons rfl (.inl rfl)
    · rw [if_neg hncat] at h₂
      obtain ⟨nmap, more, rfl, h₃⟩ := Shell.runs_call h₂
      have hcons : ∀ {plan final}, KnockOutcome more status plan final →
          KnockOutcome ((.find .nc, nc) :: (.find .ncat, ncat) :: (.find .nmap, nmap) :: more)
            status plan final := fun hout =>
        ((hout.cons rfl (.inl rfl)).cons rfl (.inl rfl)).cons rfl (.inl rfl)
      have hall : ∀ tool, ∃ r, (ClientCommand.find tool, r) ∈
          (.find .nc, nc) :: (.find .ncat, ncat) :: (.find .nmap, nmap) :: more := by
        intro tool
        cases tool with
        | nc => exact ⟨nc, by simp⟩
        | ncat => exact ⟨ncat, by simp⟩
        | nmap => exact ⟨nmap, by simp⟩
      by_cases hnmap : nmap.status = 0
      · rw [if_pos hnmap] at h₃
        cases hudp : o.doUdp with
        | true =>
          -- whether or not the warning comes out, it is the last program looked for
          rw [hudp, if_pos rfl] at h₃
          refine .inr ⟨fun tool hfound => ?_, hall,
            hcons (knocks_warn (knocks_die Nat.one_ne_zero) _ _ h₃)⟩
          · have hnone : ¬ Found more tool := by
              rcases Shell.runs_must h₃ with ⟨r, tail, rfl, -, htail⟩ | ⟨r, rfl, -⟩
              · obtain ⟨r', rfl⟩ := runs_die htail
                simp
              · simp
            simp only [found_cons, hnc, hncat, hnone, and_false, or_false, false_or] at hfound
            exact ⟨(ClientCommand.find.inj hfound.1).symm, rfl⟩
        | false =>
          rw [hudp, if_neg Bool.false_ne_true] at h₃
          refine .inl ⟨.nmap, by simp [hnmap], fun _ => rfl, ?_⟩
          exact hcons (knocks_warn (hrest .nmap) _ _ h₃)
      · rw [if_neg hnmap] at h₃
        refine .inr ⟨fun tool hfound => ?_, hall, hcons (knocks_die Nat.one_ne_zero _ _ h₃)⟩
        obtain ⟨r, rfl⟩ := runs_die h₃
        simp [hnc, hncat, hnmap] at hfound

/-- A command that is no knock and looks for no program. -/
theorem Delivers.cons (hc : c.isKnock = false) (hfind : ∀ tool, c ≠ .find tool)
    (hok : r.status = 0) (h : Delivers user args calls status) :
    Delivers user args ((c, r) :: calls) status := by
  have hfound : ∀ tool, Found ((c, r) :: calls) tool ↔ Found calls tool := by simp [hfind]
  rcases h with ⟨⟨hnone, hall⟩, hout⟩ | ⟨o, tool, haccepted, hout⟩
  · refine .inl ⟨⟨fun o tool h => hnone o tool ⟨h.parsed, h.valid, ?_, h.usable⟩,
      fun o hparsed hvalid hsucceeded tool => ?_⟩, hout.cons hc (.inr hok)⟩
    · exact (hfound tool).mp h.found
    · rw [Shell.succeeded_cons (.inr hok)] at hsucceeded
      obtain ⟨r', hmem⟩ := hall o hparsed hvalid hsucceeded tool
      exact ⟨r', List.mem_cons_of_mem _ hmem⟩
  · refine .inr ⟨o, tool, ⟨haccepted.parsed, haccepted.valid, ?_, haccepted.usable⟩, ?_⟩
    · exact (hfound tool).mpr haccepted.found
    · exact hout.cons hc (.inr hok)

/-- Such a command that fails, and is the last. -/
theorem Delivers.failed (hc : c.isKnock = false) (hguarded : c.isGuarded = false)
    (hfind : ∀ tool, c ≠ .find tool) (hfails : r.status ≠ 0) :
    Delivers user args [(c, r)] r.status := by
  refine .inl ⟨⟨fun o tool h => ?_, fun o _ _ hsucceeded => ?_⟩, .failed hc hguarded hfails⟩
  · simpa [hfind] using h.found
  · exact absurd (hsucceeded (c, r) List.mem_cons_self hguarded) hfails

/-- The script behind the loop over the arguments. -/
theorem delivers_script (h : Runs (clientArgs user args).result.script calls status) :
    Delivers user args calls status := by
  cases hresult : (clientArgs user args).result with
  | usage =>
    rw [hresult] at h
    have hhelp : Knocks (Shell.must .help (.ret 0)) [] fun status => status = 0 ↔
        (clientArgs user args).result = .usage := .must rfl rfl (.ret (by simp [hresult]))
    refine .inl ⟨⟨fun o tool haccepted => ?_, fun o hparsed => ?_⟩, hhelp _ _ h⟩
    · have hparsed := haccepted.parsed
      rw [hresult] at hparsed
      cases hparsed
    · rw [hresult] at hparsed
      cases hparsed
  | die message =>
    rw [hresult] at h
    refine .inl ⟨⟨fun o tool haccepted => ?_, fun o hparsed => ?_⟩,
      knocks_die (by simp [hresult]) _ _ h⟩
    · have hparsed := haccepted.parsed
      rw [hresult] at hparsed
      cases hparsed
    · rw [hresult] at hparsed
      cases hparsed
  | options o =>
    have hsame : ∀ o', (clientArgs user args).result = .options o' → o' = o := by
      intro o' hparsed
      rw [hresult] at hparsed
      exact (ClientArgs.options.inj hparsed).symm
    rw [hresult, ClientArgs.script] at h
    cases hcomplaint : o.complaint with
    | some message =>
      rw [hcomplaint] at h
      have hnot : ∀ o', (clientArgs user args).result = .options o' → o'.complaint ≠ none := by
        intro o' hparsed hvalid
        rw [hsame o' hparsed, hcomplaint] at hvalid
        cases hvalid
      exact .inl ⟨⟨fun o' tool haccepted => hnot o' haccepted.parsed haccepted.valid,
        fun o' hparsed hvalid => absurd hvalid (hnot o' hparsed)⟩,
        knocks_die (by simp [hresult]) _ _ h⟩
    | none =>
      rw [hcomplaint] at h
      rcases runs_knockTool (knocks_knockAndConnect o) h with
        ⟨tool, hfound, husable, hout⟩ | ⟨hnone, hall, hout⟩
      · exact .inr ⟨o, tool, ⟨hresult, hcomplaint, hfound, husable⟩, hout⟩
      · refine .inl ⟨⟨fun o' tool haccepted => ?_, fun _ _ _ _ => hall⟩,
          hout.mono fun s hs => by simp [hs, hresult]⟩
        obtain rfl := hsame o' haccepted.parsed
        obtain ⟨hnmap, hudp⟩ := hnone tool haccepted.found
        rw [haccepted.usable hnmap] at hudp
        cases hudp

/-- The script behind the defaults: first the lists are read. -/
theorem delivers_clientScript (h : Runs (clientScript user args) calls status) :
    Delivers user args calls status := by
  suffices hgo : ∀ (lists : List String) (calls : List (ClientCommand × Reply)),
      Runs (lists.foldr (fun list rest => Shell.must (.hereString list) rest)
        (clientArgs user args).result.script) calls status → Delivers user args calls status from
    hgo _ _ h
  intro lists
  induction lists with
  | nil => exact fun calls h => delivers_script h
  | cons list lists ih =>
    intro calls h
    rcases Shell.runs_must h with ⟨r, more, rfl, hok, hrest⟩ | ⟨r, rfl, hfails, rfl⟩
    · exact (ih more hrest).cons rfl (fun _ h => (nomatch h)) hok
    · exact .failed rfl rfl (fun _ h => (nomatch h)) hfails

/-- The whole script: first it finds out who runs it. -/
theorem delivers_knockClient (h : Runs (knockClient user args) calls status) :
    ∃ name, (user ≠ "" → name = user) ∧ Delivers name args calls status := by
  unfold knockClient at h
  split at h
  · rename_i hempty
    obtain ⟨r, more, rfl, hrest⟩ := Shell.runs_call h
    by_cases hok : r.status = 0
    · rw [if_pos hok] at hrest
      exact ⟨r.output, fun hset => absurd hempty hset,
        (delivers_clientScript hrest).cons rfl (fun _ h => (nomatch h)) hok⟩
    · rw [if_neg hok] at hrest
      obtain ⟨rfl, rfl⟩ := Shell.runs_ret hrest
      exact ⟨user, fun _ => rfl, .failed rfl rfl (fun _ h => (nomatch h)) hok⟩
  · exact ⟨user, fun _ => rfl, delivers_clientScript h⟩

end Runs

/-! ### The server on the same list -/

/-- What the server asks of a list that the client lets pass: it fits the server's buffer and
its array, and no port is one that the client could not compare. -/
def FitsServer (list : List Char) : Prop :=
  list.length ≤ 255 ∧ (readPorts list).length ≤ 16 ∧
    ∀ port ∈ readPorts list, portNumber port ≤ 65535

section Server

variable {port list : List Char}

theorem numeral_of_accepted (h : portComplaint port = none) : Numeral port (portNumber port) := by
  obtain ⟨hne, hdigits, -⟩ := portComplaint_eq_none.mp h
  exact .nonneg [] [] port (by simp) (.inl rfl) hne hdigits

/-- The server reads a port that the client lets pass, unless it is too large. -/
theorem readsWithin_of_accepted (h : portComplaint port = none) :
    CString.ReadsWithin 1 65535 port ↔ portNumber port ≤ 65535 := by
  obtain ⟨hne, -, hrange⟩ := portComplaint_eq_none.mp h
  have hmax : longMax = 9223372036854775807 := rfl
  rw [readsWithin_port_iff]
  constructor
  · rintro ⟨n, hnum, -, hle⟩
    -- `strtol` reads one number only
    have hsame := CString.strtol_of_numeral hnum
    rw [CString.strtol_of_numeral (numeral_of_accepted h), CString.StrtolResult.mk.injEq] at hsame
    have hlow : CString.longMin = -9223372036854775808 := rfl
    omega
  · intro hle
    exact ⟨portNumber port, numeral_of_accepted h, by omega, hle⟩

/-- The tokens of the server are the fields of the client. -/
theorem runs_of_accepted (hline : '\n' ∉ list)
    (hports : ∀ port ∈ readPorts list, portComplaint port = none) :
    runs isSeparator list = readPorts list := by
  have hfirst : list.takeWhile (· ≠ '\n') = list := by
    refine List.takeWhile_eq_self_iff.mpr fun c hc => ?_
    simpa using ne_of_mem_of_not_mem hc hline
  rw [readPorts, hfirst] at hports ⊢
  refine Shell.runs_eq_fields (fun c hc => ?_) fun field hfield => ?_
  · rw [isSeparator, hc]
    rfl
  · obtain ⟨hne, hdigits, -⟩ := portComplaint_eq_none.mp (hports field hfield)
    exact ⟨hne, fun c hc => isSeparator_of_isDigit (hdigits c hc)⟩

/-- The server takes the lists that the client lets pass and that fit, and reads the same
ports. -/
theorem parseSequence_of_accepted (cfg : Config) (hline : '\n' ∉ list)
    (hone : 1 ≤ (readPorts list).length)
    (hports : ∀ port ∈ readPorts list, portComplaint port = none) :
    ((parseSequence cfg list).rc = 0 ↔ FitsServer list) ∧
      ((parseSequence cfg list).rc = 0 →
        (parseSequence cfg list).cfg.sequence.map UInt16.toNat =
          (readPorts list).map portNumber) := by
  have hruns := runs_of_accepted hline hports
  have hvalue : (∃ seq, sequenceValue list = some seq) ↔ FitsServer list := by
    rw [sequenceValue, hruns]
    constructor
    · rintro ⟨seq, hseq⟩
      rw [Option.ite_none_right_eq_some] at hseq
      obtain ⟨⟨hlength, -, hsixteen, hall⟩, -⟩ := hseq
      refine ⟨Nat.le_of_lt_succ hlength, hsixteen, fun port hport => ?_⟩
      exact (readsWithin_of_accepted (hports port hport)).mp (hall port hport)
    · rintro ⟨hlength, hsixteen, hall⟩
      refine ⟨_, if_pos ⟨Nat.lt_succ_of_le hlength, List.length_pos_iff.mp hone, hsixteen, ?_⟩⟩
      intro port hport
      exact (readsWithin_of_accepted (hports port hport)).mpr (hall port hport)
  rcases parseSequence_eq cfg list with ⟨seq, hseq, hrc, hcfg⟩ | ⟨hnone, hrc, -⟩
  · have hfits := hvalue.mp ⟨seq, hseq⟩
    refine ⟨⟨fun _ => hfits, fun _ => hrc⟩, fun _ => ?_⟩
    rw [hcfg, sequence_installSequence (length_of_sequenceValue hseq).2]
    rw [sequenceValue, hruns, Option.ite_none_right_eq_some, Option.some.injEq] at hseq
    rw [← hseq.2, List.map_map]
    refine List.map_congr_left fun port hport => ?_
    exact toNat_entryPort (numeral_of_accepted (hports port hport)) (hfits.2.2 port hport)
  · have hfails : ¬ (parseSequence cfg list).rc = 0 := by
      rw [hrc]
      decide
    refine ⟨⟨fun h => absurd h hfails, fun hfits => ?_⟩, fun h => absurd h hfails⟩
    obtain ⟨seq, hseq⟩ := hvalue.mpr hfits
    rw [hnone] at hseq
    cases hseq

end Server

/-! ### The client and the server -/

/-- The knocks among the commands of a run. -/
abbrev knocksOf (calls : List (ClientCommand × Reply)) : List ClientCommand :=
  Shell.watchedCalls ClientCommand.isKnock calls

/-- No command has failed but those that may. -/
abbrev NothingFailed (calls : List (ClientCommand × Reply)) : Prop :=
  Shell.Succeeded ClientCommand.isGuarded calls

/-- **The client knocks what it was given, and the server means the same.** Whatever its
arguments and whatever its host answers to the commands it runs, the client exits with zero only
if no command failed that it does not guard. If there is anything wrong with the arguments, or no
program to knock with, it does not knock, and exits with zero exactly if it was to print its help
and nothing failed. Otherwise it knocks at the ports it was given, in order and once each, and
leaves some out only if a command that it does not guard has failed. If the ports came from a list
of one line, then the server takes that list as its sequence exactly if it fits, and its sequence
then is these ports. -/
theorem client_knocks_sequence (user : String) (args : List String)
    (host : ℕ → ClientCommand → Reply) :
    let run := Shell.execute (knockClient user args) host
    (run.exit = 0 → NothingFailed run.calls) ∧
      ∃ name, (user ≠ "" → name = user) ∧
        (Refused name args run.calls ∧ knocksOf run.calls = [] ∧
            (run.exit = 0 ↔ (clientArgs name args).result = .usage ∧ NothingFailed run.calls) ∨
          ∃ o tool, Accepted name args run.calls o tool ∧
            knocksOf run.calls <+: o.knockPorts.map (sendKnock o tool) ∧
            (NothingFailed run.calls →
              knocksOf run.calls = o.knockPorts.map (sendKnock o tool)) ∧
            ∀ list cfg, '\n' ∉ list → o.knockPorts = readPorts list →
              ((parseSequence cfg list).rc = 0 ↔ FitsServer list) ∧
              ((parseSequence cfg list).rc = 0 →
                (parseSequence cfg list).cfg.sequence.map UInt16.toNat =
                  o.knockPorts.map portNumber)) := by
  intro run
  obtain ⟨name, hname, hout⟩ := delivers_knockClient (Shell.runs_execute _ host).1
  rcases hout with ⟨hrefused, hout⟩ | ⟨o, tool, haccepted, hout⟩
  · refine ⟨fun hzero => ?_, name, hname, .inl ⟨hrefused, ?_⟩⟩
    · exact Shell.Outcome.succeeded (hzero ▸ hout)
    · rcases hout with ⟨hok, hknocks, hexit⟩ | ⟨hfailed, hknocks, hexit⟩
      · exact ⟨hknocks, hexit.trans (iff_self_and.mpr fun _ => hok)⟩
      · exact ⟨List.prefix_nil.mp hknocks, iff_of_false hexit fun h => hfailed h.2⟩
  · refine ⟨fun hzero => ?_, name, hname, .inr ⟨o, tool, haccepted, ?_, ?_, ?_⟩⟩
    · exact Shell.Outcome.succeeded (hzero ▸ hout)
    · rcases hout with ⟨-, hknocks, -⟩ | ⟨-, hknocks, -⟩
      · exact hknocks ▸ List.prefix_rfl
      · exact hknocks
    · rcases hout with ⟨-, hknocks, -⟩ | ⟨hfailed, -, -⟩
      · exact fun _ => hknocks
      · exact fun hok => absurd hok hfailed
    · intro list cfg hline hlist
      obtain ⟨htwo, hports, -⟩ := complaint_eq_none.mp haccepted.valid
      rw [hlist] at htwo hports ⊢
      exact parseSequence_of_accepted cfg hline (by omega) hports

/-! ### The configured sequence on the command line -/

/-- The digits of a port. -/
def portText (port : UInt16) : List Char := Nat.toDigits 10 port.toNat

section Written

/-- The ports of a list written with commas between them. -/
theorem fields_plainPorts (ports : List UInt16) :
    Shell.fields (· = ',') (plainPorts ports) = ports.map portText := by
  have hdigits : ∀ n, ∀ c ∈ Nat.toDigits 10 n, decide (c = ',') = false := by
    intro n c hc
    refine decide_eq_false ?_
    rintro rfl
    exact absurd ((decimal_toDigits n).digits ',' hc) (by decide)
  induction ports with
  | nil => rfl
  | cons port ports ih =>
    cases ports with
    | nil => exact Shell.fields_eq_singleton Nat.toDigits_ne_nil (hdigits _)
    | cons next ports =>
      rw [List.map_cons, ← ih]
      exact Shell.fields_append_cons (hdigits _) rfl

theorem not_mem_plainPorts (ports : List UInt16) : '\n' ∉ plainPorts ports := by
  by_cases hne : ports = []
  · rw [hne]
    exact List.not_mem_nil
  · intro hmem
    have hchars := (portsText_plainPorts hne).trimmed.1.chars '\n' hmem
    exact absurd hchars.1 (by decide)

theorem readPorts_plainPorts (ports : List UInt16) :
    readPorts (plainPorts ports) = ports.map portText := by
  have hfirst : (plainPorts ports).takeWhile (· ≠ '\n') = plainPorts ports := by
    refine List.takeWhile_eq_self_iff.mpr fun c hc => ?_
    simpa using ne_of_mem_of_not_mem hc (not_mem_plainPorts ports)
  rw [readPorts, hfirst, fields_plainPorts]

theorem portComplaint_toDigits {n : ℕ} (hpos : 1 ≤ n) (hle : n ≤ 65535) :
    portComplaint (Nat.toDigits 10 n) = none := by
  have hdecimal := decimal_toDigits n
  have hnumber : portNumber (Nat.toDigits 10 n) = n := hdecimal.value
  refine portComplaint_eq_none.mpr ⟨hdecimal.ne_nil, hdecimal.digits, .inl ?_⟩
  rw [hnumber]
  exact ⟨hpos, hle⟩

/-- The default options with the ports of a valid sequence have nothing wrong with them. -/
theorem complaint_of_sequence {cfg : Config} (hvalid : cfg.SequenceValid) (target user : String) :
    ClientOptions.complaint { ClientOptions.initial target user with
      knockPorts := cfg.sequence.map portText } = none := by
  have hssh : portComplaint "22".toList = none := by decide
  have hdelay : "0.5".toList ≠ [] ∧ ∀ c ∈ "0.5".toList, c.isDigit = false → c = '.' := by simp
  refine complaint_eq_none.mpr ⟨?_, fun port hport => ?_, hssh, hdelay⟩
  · have hlength := hvalid.length_sequence
    have htwo := hvalid.two_le_len
    rw [List.length_map]
    omega
  · obtain ⟨n, hn, rfl⟩ := List.mem_map.mp hport
    have hzero : n.toNat ≠ 0 := by
      intro h
      have hnull : 0 = n := UInt16.toNat_inj.mp h.symm
      exact hvalid.ports_ne_zero (hnull ▸ hn)
    have hlt := n.toNat_lt
    exact portComplaint_toDigits (by omega) (by omega)

end Written

/-- **The configured sequence is knocked.** Give the client the server and the sequence of its
configuration, with commas between the ports. If the host has a program to knock with, and
everything else works that the client does not guard, then it exits with zero, and has knocked at
the ports of the sequence, in order, and at no others. -/
theorem client_knocks_config (user target : String) (cfg : Config)
    (host : ℕ → ClientCommand → Reply) (hvalid : cfg.SequenceValid)
    (htarget : isDashed target = false) (htool : ∃ tool, ∀ n, (host n (.find tool)).status = 0)
    (hworks : ∀ n c, c.isGuarded = false → (host n c).status = 0) :
    let run := Shell.execute
      (knockClient user [target, "-p", String.ofList (plainPorts cfg.sequence)]) host
    run.exit = 0 ∧ ∃ tool n, (host n (.find tool)).status = 0 ∧
      knocksOf run.calls =
        cfg.sequence.map fun port => .knock tool false target (portText port) := by
  intro run
  obtain ⟨hruns, hhost⟩ : _ ∧ ∀ call ∈ run.calls, ∃ n, call.2 = host n call.1 :=
    Shell.runs_execute _ host
  have hok : NothingFailed run.calls := fun call hmem hguarded => by
    obtain ⟨n, hn⟩ := hhost call hmem
    rw [hn]
    exact hworks n call.1 hguarded
  obtain ⟨name, -, hout⟩ := delivers_knockClient hruns
  let o : ClientOptions :=
    { ClientOptions.initial target name with knockPorts := cfg.sequence.map portText }
  have hparsed : (clientArgs name [target, "-p", String.ofList (plainPorts cfg.sequence)]).result =
      .options o := by
    have hplain : ∀ word, isDashed word = true → target ≠ word := by
      rintro word hword rfl
      rw [htarget] at hword
      cases hword
    simp only [clientArgs, hplain "-h" (by decide), hplain "--help" (by decide), htarget,
      clientOptions, String.toList_ofList, readPorts_plainPorts, or_self, if_false, true_or,
      if_true, Bool.false_eq_true, o]
  have hcomplaint : o.complaint = none := complaint_of_sequence hvalid target name
  rcases hout with ⟨⟨hnone, hall⟩, -⟩ | ⟨o', tool, haccepted, hout⟩
  · -- the program that the host has was looked for, and so it was found
    obtain ⟨tool, htool⟩ := htool
    obtain ⟨r, hmem⟩ := hall o hparsed hcomplaint hok tool
    obtain ⟨n, hn⟩ := hhost _ hmem
    obtain rfl : r = host n (.find tool) := hn
    exact absurd ⟨hparsed, hcomplaint, ⟨_, hmem, htool n⟩, fun _ => rfl⟩ (hnone o tool)
  · obtain rfl : o' = o := ClientArgs.options.inj (haccepted.parsed.symm.trans hparsed)
    obtain ⟨r, hmem, hstatus⟩ := haccepted.found
    obtain ⟨n, hn⟩ := hhost _ hmem
    obtain rfl : r = host n (.find tool) := hn
    rcases hout with ⟨-, hknocks, hexit⟩ | ⟨hfailed, -, -⟩
    · refine ⟨hexit rfl, tool, n, hstatus, ?_⟩
      rw [knocksOf, hknocks, List.map_map]
      rfl
    · exact absurd hok hfailed

/-- A host with netcat where nothing fails but the knocks. -/
def plainHost (_ : ℕ) : ClientCommand → Reply
  | .idName => ⟨0, "root"⟩
  | .find .nc => ⟨1, ""⟩
  | .find .nmap => ⟨1, ""⟩
  | .knock .. => ⟨1, ""⟩
  | _ => ⟨0, ""⟩

theorem client_knocks_config_default :
    let run := Shell.execute (knockClient "" ["192.0.2.1", "-p", "7000,8000,9000"]) plainHost
    run.exit = 0 ∧ (knocksOf run.calls).length = 3 := by
  intro run
  have hlist : String.ofList (plainPorts Config.default.sequence) = "7000,8000,9000" := by
    decide +kernel
  have hrun := client_knocks_config "" "192.0.2.1" .default plainHost
    Config.default_valid.toSequenceValid (by decide) ⟨.ncat, fun _ => rfl⟩ fun n c hguarded => by
      cases c with
      | find => cases hguarded
      | knock => cases hguarded
      | _ => rfl
  rw [hlist] at hrun
  obtain ⟨hexit, tool, n, -, hknocks⟩ := hrun
  refine ⟨hexit, ?_⟩
  rw [hknocks, List.length_map]
  decide

end Knockd
