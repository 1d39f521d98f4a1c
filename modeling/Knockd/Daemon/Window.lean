import Knockd.Daemon.Flow
import Knockd.Knocker.Steps

/-!
# The window as seen from the wire

The state machine measures the gap between two knocks when it handles them, and a queued
event carries no time of its own. So what the window bounds is the time between two
handlings. The gap between the arrivals is that time plus whatever the first of the two
waited longer than the second. Where no knock waits longer than the next one, the knocks
arrived within the window too. Where the first is kept waiting and the second is handled at
once, they need not have, and a single second is enough for that.

The knock handled in the `j`-th place is the one the queue took in the `j`-th place,
which is how a record gets its arrival time.

## Main definitions

* `arrivalAt`, `waitedAt` — when a handled knock arrived, and how long it waited
* `WaitsWithin` — by how much a knock may wait longer than the next
* `DaemonRun.ArrivalsInTime` — the window bounds the gaps between arrivals

## Main results

* `arrivalsInTime_of_waits` — if no knock waits longer than the next, it does
* `arrivalsInTime_iff` — and no weaker bound on the waits is enough
* `not_arrivalsInTime` — so in general it does not
-/

namespace Knockd

/-- When the frame of the knock handled in the `j`-th place was received. -/
def arrivalAt (tr : List FlowObs) (j : ℕ) : ℤ := ((enqueued tr)[j]?.map Prod.snd).getD 0

/-- How long that knock waited between `recvfrom` and the state machine. -/
def waitedAt (tr : List FlowObs) (j : ℕ) : ℤ :=
  ((handledRecords tr)[j]?.map KnockRecord.time).getD 0 - arrivalAt tr j

/-- The frames of two handled knocks arrived within the window. -/
def ArrivedInTime (cfg : Config) (tr : List FlowObs) (p q : ℕ) : Prop :=
  arrivalAt tr q - arrivalAt tr p ≤ cfg.knockWindow

/-- Of two knocks of one address on successive ports of the sequence that are handled
within the window, the first has waited at most `excess` seconds longer than the second. -/
def WaitsWithin (cfg : Config) (excess : ℤ) (tr : List FlowObs) : Prop :=
  ∀ p q k r r', p < q → (handledRecords tr)[p]? = some r → (handledRecords tr)[q]? = some r' →
    r.ip = r'.ip → ((k + 1 : ℕ) : ℤ) < cfg.knockSeqLen → cfg.knockSequence[k]? = some r.port →
    cfg.knockSequence[k + 1]? = some r'.port → r'.time - r.time ≤ cfg.knockWindow →
    waitedAt tr p ≤ waitedAt tr q + excess

/-- The clock readings of an action, in order. -/
def Action.readings : Action → List ℤ
  | .signal => []
  | .capture _ now => [now]
  | .processor input => [input.now, input.later]

/-- All times are read from one clock that does not go back. -/
def MonotoneClock (actions : List Action) : Prop :=
  (actions.flatMap Action.readings).Pairwise (· ≤ ·)

/-- Behind every completed sequence stand frames that arrived within the window of each
other, from each step to the next. -/
def DaemonRun.ArrivalsInTime (r : DaemonRun) : Prop :=
  ∀ q last, (handledRecords r.trace)[q]? = some last → last.result = .complete →
    StepsTo r.cfg (handledRecords r.trace) last.ip (ArrivedInTime r.cfg r.trace)
      r.cfg.knockSeqLen.toNat q

section Arrivals

variable {cfg : Config} {f : Flow} {tr : List FlowObs}

/-- First in, first out: the knock handled in the `j`-th place is the one the queue took
in the `j`-th place. -/
theorem FlowInv.enqueued_of_handled (hinv : FlowInv cfg f tr) {j : ℕ} {r : KnockRecord}
    (hr : (handledRecords tr)[j]? = some r) : (enqueued tr)[j]? = some (r.event, arrivalAt tr j) := by
  have hj : j < ((handledRecords tr).map KnockRecord.event).length := by
    simpa using (List.getElem?_eq_some_iff.mp hr).1
  have hevent : ((enqueued tr).map Prod.fst)[j]? = some r.event := by
    rw [hinv.enqueued_eq, List.append_assoc, List.getElem?_append_left hj, List.getElem?_map, hr]
    rfl
  rw [List.getElem?_map] at hevent
  obtain ⟨⟨event, arrival⟩, hentry, rfl⟩ := Option.map_eq_some_iff.mp hevent
  rw [arrivalAt, hentry]
  rfl

theorem arrivalAt_eq {arrivals : List ℤ} (h : (enqueued tr).map Prod.snd = arrivals) (j : ℕ) :
    arrivalAt tr j = arrivals[j]?.getD 0 := by
  rw [arrivalAt, ← List.getElem?_map, h]

theorem waitedAt_of_handled {j : ℕ} {r : KnockRecord} (hr : (handledRecords tr)[j]? = some r) :
    waitedAt tr j = r.time - arrivalAt tr j := by
  rw [waitedAt, hr]
  rfl

theorem WaitsWithin.mono {excess more : ℤ} (h : WaitsWithin cfg excess tr) (hle : excess ≤ more) :
    WaitsWithin cfg more tr := by
  intro p q k r r' hlt hr hr' hip hk hport hport' htime
  have := h p q k r r' hlt hr hr' hip hk hport hport' htime
  omega

/-- A run whose records and arrival times are known. -/
theorem waitsWithin_of_lists {records : List KnockRecord} {arrivals : List ℤ} {excess : ℤ}
    (hrecords : handledRecords tr = records) (harrivals : (enqueued tr).map Prod.snd = arrivals)
    (hwaits : ∀ q < records.length, ∀ p < q,
      (records[p]?.map KnockRecord.time).getD 0 - (arrivals[p]?).getD 0 ≤
        (records[q]?.map KnockRecord.time).getD 0 - (arrivals[q]?).getD 0 + excess) :
    WaitsWithin cfg excess tr := by
  intro p q k r r' hlt _ hr' _ _ _ _ _
  rw [hrecords] at hr'
  rw [waitedAt, waitedAt, arrivalAt_eq harrivals, arrivalAt_eq harrivals, hrecords]
  exact hwaits q (List.getElem?_eq_some_iff.mp hr').1 p hlt

end Arrivals

/-- If no knock waits longer than the next, the window bounds the gaps between arrivals,
whatever the clock does. -/
theorem arrivalsInTime_of_waits {r : DaemonRun} (hwaits : WaitsWithin r.cfg 0 r.trace) :
    r.ArrivalsInTime := by
  intro q last hlast hcomplete
  -- the records are those of a run of the state machine, which bounds the handlings
  have hinv : FlowInv r.cfg r.final.flow r.trace := flowInv_run r.runs
  obtain ⟨calls, hrun⟩ := hinv.knocker
  have hsteps : StepsTo r.cfg (handledRecords r.trace) last.ip
      (HandledInTime r.cfg (handledRecords r.trace)) r.cfg.knockSeqLen.toNat q := by
    have hrecords : (knockerRun r.cfg calls).2 = handledRecords r.trace := by rw [hrun]
    rw [← hrecords] at hlast ⊢
    exact stepsTo_of_complete r.valid.toSequenceValid calls hlast hcomplete
  refine hsteps.mono fun k a b hpos hk ha hb hlt htime => ?_
  obtain ⟨x, hx, hxip, -, hxport⟩ := ha
  obtain ⟨y, hy, hyip, -, hyport⟩ := hb
  have hk' : k - 1 + 1 = k := Nat.sub_add_cancel hpos
  have hnext : ((k - 1 + 1 : ℕ) : ℤ) < r.cfg.knockSeqLen := by
    rw [hk']
    omega
  have hwait : waitedAt r.trace a ≤ waitedAt r.trace b + 0 :=
    hwaits a b (k - 1) x y hlt hx hy (hxip.trans hyip.symm) hnext hxport (by rwa [hk'])
      (htime x y hx hy)
  rw [waitedAt_of_handled hx, waitedAt_of_handled hy] at hwait
  have hhandled := htime x y hx hy
  unfold ArrivedInTime
  omega

/-! ### One second is enough -/

/-- Address 10 knocks the first port, and later the other two. Each of the two times the
main thread is given to look at the queue comes with a clock reading of its own. -/
def twoVisits (first handledFirst rest handledRest : ℤ) : List Action :=
  captureKnock 10 7000 first ++ List.replicate 3 (processAt handledFirst) ++
    captureKnock 10 8000 rest ++ captureKnock 10 9000 rest ++
    List.replicate 4 (processAt handledRest)

/-- The knocks handled in such a run. -/
def twoVisitsRecords (handledFirst handledRest : ℤ) : List KnockRecord :=
  [⟨handledFirst, 10, 7000, .inProgress, some 1⟩, ⟨handledRest, 10, 8000, .inProgress, some 2⟩,
    ⟨handledRest, 10, 9000, .complete, some 3⟩]

/-- The first knock waits for one second and the others not at all, so the three count as
one sequence although the first gap is sixteen seconds and the window fifteen. -/
theorem exists_late_run : ∃ r : DaemonRun, MonotoneClock r.actions ∧
    WaitsWithin r.cfg 1 r.trace ∧ ¬ r.ArrivalsInTime := by
  have hrun : (Daemon.startDefault.run .default (twoVisits 0 1 16 16)).map (fun out =>
      (handledRecords (flowTrace .default 0 out.2),
        (enqueued (flowTrace .default 0 out.2)).map Prod.snd)) =
      some (twoVisitsRecords 1 16, [0, 16, 16]) := by decide +kernel
  have hclock : MonotoneClock (twoVisits 0 1 16 16) := by
    unfold MonotoneClock
    decide +kernel
  obtain ⟨⟨d, seen⟩, hseen, hout⟩ := Option.map_eq_some_iff.mp hrun
  obtain ⟨hrecords, harrivals⟩ := Prod.mk.inj hout
  refine ⟨.ofDefault (twoVisits 0 1 16 16) d seen hseen, hclock,
    waitsWithin_of_lists hrecords harrivals (by decide), fun hall => ?_⟩
  have hlast : (handledRecords (flowTrace .default 0 seen))[2]? =
      some ⟨16, 10, 9000, .complete, some 3⟩ := by rw [hrecords]; rfl
  have hchain : StepsTo .default (handledRecords (flowTrace .default 0 seen)) 10
      (ArrivedInTime .default (flowTrace .default 0 seen)) 3 2 := hall 2 _ hlast rfl
  -- the second step can only be the knock on 8000, and the first the one on 7000
  have hsecond : ∀ p < 2, (twoVisitsRecords 1 16)[p]?.map (fun r => (r.ip, r.accepted)) =
      some (10, some 2) → p = 1 := by decide
  have hfirst : ∀ p < 1, (twoVisitsRecords 1 16)[p]?.map (fun r => (r.ip, r.accepted)) =
      some (10, some 1) → p = 0 := by decide
  rw [hrecords] at hchain
  cases hchain with
  | next hbefore hlt =>
    obtain rfl := hsecond _ hlt hbefore.acceptedAt.step_eq
    cases hbefore with
    | next hbefore hlt _ _ hrel =>
      cases hbefore with
      | next hbefore => exact absurd hbefore.pos (lt_irrefl 0)
      | first haccepted =>
        obtain rfl := hfirst _ hlt haccepted.step_eq
        rw [ArrivedInTime, arrivalAt_eq harrivals, arrivalAt_eq harrivals] at hrel
        exact absurd hrel (by decide)

/-- **When the window bounds the arrivals.** In every run the knock handled in each place
is the one the queue took in that place, and its arrival time is that frame's. Let knocks
wait up to `excess` seconds longer than the next knock of their address, all times being
read from one clock that does not go back. In all such runs the frames behind a completed
sequence arrived within the window of each other if and only if `excess` is not positive:
no knock may wait longer than the next. -/
theorem arrivalsInTime_iff (excess : ℤ) :
    (∀ (r : DaemonRun) j record, (handledRecords r.trace)[j]? = some record →
      (enqueued r.trace)[j]? = some (record.event, arrivalAt r.trace j)) ∧
    ((∀ r : DaemonRun, MonotoneClock r.actions → WaitsWithin r.cfg excess r.trace →
      r.ArrivalsInTime) ↔ excess ≤ 0) := by
  refine ⟨fun r j record hrecord => ?_, ?_, ?_⟩
  · have hinv : FlowInv r.cfg r.final.flow r.trace := flowInv_run r.runs
    exact hinv.enqueued_of_handled hrecord
  · intro hall
    by_contra hpos
    obtain ⟨r, hclock, hwaits, hlate⟩ := exists_late_run
    exact hlate (hall r hclock (hwaits.mono (by omega)))
  · intro hexcess r _ hwaits
    exact arrivalsInTime_of_waits (hwaits.mono hexcess)

/-- A first knock handled at once, and two that wait for a second. -/
theorem arrivalsInTime_iff_prompt :
    ∃ r : DaemonRun, r.actions = twoVisits 1 1 3 4 ∧ WaitsWithin r.cfg 0 r.trace ∧
      StepsTo r.cfg (handledRecords r.trace) 10 (ArrivedInTime r.cfg r.trace) 3 2 := by
  have hrun : (Daemon.startDefault.run .default (twoVisits 1 1 3 4)).map (fun out =>
      (handledRecords (flowTrace .default 0 out.2),
        (enqueued (flowTrace .default 0 out.2)).map Prod.snd)) =
      some (twoVisitsRecords 1 4, [1, 3, 3]) := by decide +kernel
  have hclock : MonotoneClock (twoVisits 1 1 3 4) := by
    unfold MonotoneClock
    decide +kernel
  obtain ⟨⟨d, seen⟩, hseen, hout⟩ := Option.map_eq_some_iff.mp hrun
  obtain ⟨hrecords, harrivals⟩ := Prod.mk.inj hout
  have hwaits : WaitsWithin .default 0 (flowTrace .default 0 seen) :=
    waitsWithin_of_lists hrecords harrivals (by decide)
  have hlast : (handledRecords (flowTrace .default 0 seen))[2]? =
      some ⟨4, 10, 9000, .complete, some 3⟩ := by rw [hrecords]; rfl
  have hintime := (arrivalsInTime_iff 0).2.mpr le_rfl
    (.ofDefault (twoVisits 1 1 3 4) d seen hseen) hclock hwaits
  exact ⟨.ofDefault (twoVisits 1 1 3 4) d seen hseen, rfl, hwaits, hintime 2 _ hlast rfl⟩

/-- Without a bound on the waits, a completed sequence may have taken longer than the window
allows. -/
theorem not_arrivalsInTime :
    ¬ ∀ r : DaemonRun, MonotoneClock r.actions → r.ArrivalsInTime := by
  intro hall
  obtain ⟨r, hclock, -, hlate⟩ := exists_late_run
  exact hlate (hall r hclock)

end Knockd
