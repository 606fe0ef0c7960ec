import CanTp.Demo.Args
import CanTp.Demo.Waits
import CanTp.Flow.Pacing

/-!
# The test from its command line on

`main` reads the command line and forks the receiver. Both initialise their parameters:
those of the sender are fixed, those of the receiver come from the command line. A receiver
whose parameters are refused posts `rcvr_end_sem` and ends, one whose parameters are accepted
posts `rcvr_start_sem` and goes to `fake_can_rx_task`. `main` looks at `rcvr_end_sem` once
and then waits for `rcvr_start_sem`, so it may wait for a receiver that has ended.
-/

namespace CanTp

open Library

/-- The settings before the command line is read. -/
def TestSettings.initial : TestSettings where
  txLen := 24
  canllDelay := 100000
  params := ⟨0xbbb, 0, 0, 0, 0, 0, 0, 0⟩

/-- The message: `data[i] = (uint8_t)(0xff & i) + 1` -/
def testData (txLen : UInt16) : List UInt8 :=
  (List.range txLen.toNat).map fun i => UInt8.ofNat (0xff &&& i) + 1

@[simp] theorem length_testData (txLen : UInt16) : (testData txLen).length = txLen.toNat := by
  rw [testData, List.length_map, List.length_range]

/-! ### The parameters -/

/-- What the initialisation leaves in the parameters, whether it accepts them or not. -/
theorem paramsInit_kept (par : CantpParams) :
    (cantpRcvrParamsInit par).2.id = par.id ∧
      ((cantpRcvrParamsInit par).2.stMin = 0 ∨ (cantpRcvrParamsInit par).2.stMin = par.stMin ∨
        (par.stMinUs.toNat ≤ 127000 ∧
          (cantpRcvrParamsInit par).2.stMin = (par.stMinUs / 1000).toUInt8) ∨
        (100 ≤ par.stMinUs.toNat ∧ par.stMinUs.toNat ≤ 900 ∧
          (cantpRcvrParamsInit par).2.stMin = (par.stMinUs / 100).toUInt8 + 0xf0)) := by
  simp only [cantpRcvrParamsInit, gt_iff_lt, ge_iff_le, UInt32.lt_iff_toNat_lt,
    UInt32.le_iff_toNat_le, UInt32.reduceToNat]
  split_ifs with hzero hsmall hlong htim hmax hround hup hms hle
  · exact ⟨rfl, .inl rfl⟩
  · exact ⟨rfl, .inr (.inl rfl)⟩
  · exact ⟨rfl, .inl rfl⟩
  · exact ⟨rfl, .inl rfl⟩
  · exact ⟨rfl, .inl rfl⟩
  · exact ⟨rfl, .inr (.inl rfl)⟩
  · exact ⟨rfl, .inr (.inl rfl)⟩
  · exact ⟨rfl, .inr (.inr (.inl ⟨hms.2, rfl⟩))⟩
  · exact ⟨rfl, .inr (.inr (.inr ⟨not_lt.mp hsmall, hle, rfl⟩))⟩
  · exact ⟨rfl, .inr (.inl rfl)⟩

theorem paramsInit_stMin {par : CantpParams} (h : par.stMin = 0) :
    (stTimUsOf (cantpRcvrParamsInit par).2.stMin).isSome := by
  obtain ⟨us, hus, -⟩ : ∃ us, stTimUsOf (cantpRcvrParamsInit par).2.stMin = some us ∧ True := by
    rw [stTimUsOf_iff _ fun _ => True]
    simp only [and_true]
    obtain ⟨-, hst | hst | ⟨hle, hst⟩ | ⟨hlo, hhi, hst⟩⟩ := paramsInit_kept par
    · exact .inl (by rw [hst]; decide)
    · exact .inl (by rw [hst, h]; decide)
    · rw [hst, toNat_milliseconds hle]
      omega
    · rw [hst, toNat_hundreds hhi]
      omega
  rw [hus]
  rfl

/-- A STmin of at most 127 ms is accepted unless it lies below 100 μs, and changes neither
the block size nor the number of FC.WAIT frames. -/
theorem paramsInit_short {par : CantpParams} (h : par.stMinUs.toNat ≤ 127000) :
    (0 ≤ (cantpRcvrParamsInit par).1 ↔ par.stMinUs.toNat = 0 ∨ 100 ≤ par.stMinUs.toNat) ∧
      (cantpRcvrParamsInit par).2.blockSize = par.blockSize ∧
      (cantpRcvrParamsInit par).2.wftNum = par.wftNum := by
  have hzero : par.stMinUs = 0 ↔ par.stMinUs.toNat = 0 := UInt32.toNat_inj.symm
  simp only [cantpRcvrParamsInit, gt_iff_lt, ge_iff_le, UInt32.lt_iff_toNat_lt,
    UInt32.le_iff_toNat_le, UInt32.reduceToNat, hzero]
  split_ifs with h₀ h₁₀₀ hlong htim hmax hround hup hms hle
  · exact ⟨by simp [h₀], rfl, rfl⟩
  · exact ⟨by simp [h₀, h₁₀₀], rfl, rfl⟩
  · omega
  · omega
  · omega
  all_goals exact ⟨by simp [h₀, not_lt.mp h₁₀₀], rfl, rfl⟩

/-- A longer STmin is accepted if the FC.WAIT frames it takes, counted with 8 bits, are no
more than the largest number of them. The blocks have one frame then. -/
theorem paramsInit_long {par : CantpParams} (h : 127000 < par.stMinUs.toNat) :
    (0 ≤ (cantpRcvrParamsInit par).1 ↔ 127000 ≤ par.wftTimUs.toNat ∧
      par.stMinUs.toNat / par.wftTimUs.toNat % 256 ≤ par.wftMax.toNat) ∧
      (cantpRcvrParamsInit par).2.blockSize = 1 := by
  have hzero : par.stMinUs ≠ 0 := fun heq => by
    rw [heq] at h
    cases h
  have hnum : (par.stMinUs / par.wftTimUs).toUInt8.toNat =
      par.stMinUs.toNat / par.wftTimUs.toNat % 256 := by
    rw [UInt32.toNat_toUInt8, UInt32.toNat_div]
  simp only [cantpRcvrParamsInit, gt_iff_lt, UInt32.lt_iff_toNat_lt, UInt8.lt_iff_toNat_lt,
    UInt32.reduceToNat, hnum]
  rw [if_neg hzero, if_neg (by omega), if_pos h]
  split_ifs with htim hmax
  · exact ⟨by simp [htim], rfl⟩
  · exact ⟨by simp [hmax], rfl⟩
  · exact ⟨by simp [not_lt.mp htim, not_lt.mp hmax], rfl⟩

theorem paramsInit_waits {par : CantpParams} (h : par.wftNum = 0) :
    (cantpRcvrParamsInit par).2.wftNum = 0 ∨ (cantpRcvrParamsInit par).2.blockSize = 1 := by
  by_cases hshort : par.stMinUs.toNat ≤ 127000
  · exact .inl ((paramsInit_short hshort).2.2.trans h)
  · exact .inr (paramsInit_long (not_le.mp hshort)).2

theorem paramsInit_of_milliseconds {par : CantpParams} (h : par.stMinUs = 127000) :
    (cantpRcvrParamsInit par).1 = 0 := by
  simp [cantpRcvrParamsInit, h]

/-! ### The test -/

/-- What the test finds outside of its own code: what the stack of `main` holds where
`sndr_params` is, the answers of `malloc` in the receiver, where the memory does not run out,
and the answer of `cantp_sndr_state_sem_take`, which the port of the test leaves out. -/
structure TestMemory where
  stack : CantpParams
  malloc : Nat → Option (List UInt8)
  sndrStateSemTake : Int
  allocates : ∀ n, ∃ buf, malloc n = some buf ∧ buf.length = n

/-- A test, with the words of its command line. The message has at most 4095 bytes. -/
structure TestRun extends TestMemory where
  words : List (List Char)
  short : (argsGet words .initial).2.txLen.toNat < 4096

/-- Where `main` stands before it calls `cantp_send`: it looks at `rcvr_end_sem`, it waits
for `rcvr_start_sem`, or it has returned `EXIT_FAILURE`. -/
inductive MainStart
  | looking
  | waiting
  | failed
deriving DecidableEq, Repr

/-- The process of the receiver: not forked, in `cantp_rcvr_params_init`, at its end, or in
`fake_can_rx_task`. -/
inductive RcvrStart
  | unborn
  | initializing
  | ended
  | ready
deriving DecidableEq, Repr

/-- The test, before and after the call of `cantp_send`. -/
inductive TestState
  | starting (main : MainStart) (rcvr : RcvrStart)
  | running (d : Demo)

/-- What happens next: the receiver is initialised, `main` looks at `rcvr_end_sem` or finds
`rcvr_start_sem` posted, or the test runs on after the call of `cantp_send`. -/
inductive TestTurn
  | init
  | look
  | wait
  | run (u : Exchange.DemoTurn)

namespace TestRun

variable (t : TestRun)

/-- The settings that the command line leaves. -/
def settings : TestSettings := (argsGet t.words .initial).2

/-- `cantp_rcvr_params_init` in the receiver. -/
def rcvrInit : Int × CantpParams := cantpRcvrParamsInit t.settings.params

/-- `cantp_rcvr_params_init` in `main`. -/
def sndrInit : Int × CantpParams :=
  cantpRcvrParamsInit { t.stack with stMinUs := 127000, blockSize := 0, wftTimUs := 0 }

/-- The session layer of the test: `cantp_rcvr_rx_ff_cb` accepts the sender `0xaaa`. -/
def env : Env where
  rcvrRxFfCb id _ _ len := (if id = 0x000aaa then 0 else -1, t.malloc len.toNat)
  canTx _ := 0
  sndrStateSemTake := t.sndrStateSemTake

theorem settings_sameRest : TestSettings.initial.SameRest t.settings :=
  argsGet_sameRest t.words .initial

theorem length_msg : (testData t.settings.txLen).length < 4096 :=
  (length_testData _).trans_lt t.short

theorem stMin_msg : (stTimUsOf t.rcvrInit.2.stMin).isSome :=
  paramsInit_stMin t.settings_sameRest.stMin

theorem accepts_msg (_ : sfNumDataBytes < (testData t.settings.txLen).length) :
    let answer := t.env.rcvrRxFfCb 0xaaa 0 none (.ofNat (testData t.settings.txLen).length)
    0 ≤ answer.1 ∧
      ∃ buf, answer.2 = some buf ∧ (testData t.settings.txLen).length ≤ buf.length := by
  obtain ⟨buf, hbuf, hlen⟩ := t.allocates t.settings.txLen.toNat
  have hanswer : t.env.rcvrRxFfCb 0xaaa 0 none (.ofNat (testData t.settings.txLen).length) =
      (0, some buf) := by
    rw [length_testData, UInt16.ofNat_toNat, ← hbuf]
    rfl
  rw [hanswer]
  exact ⟨Int.le_refl 0, buf, rfl, by rw [length_testData, hlen]⟩

theorem transmits_msg (_ : Nat) (log : List Act) : 0 ≤ t.env.canTx log := Int.le_refl 0

/-- The exchange that `main` begins, without the FC.WAIT frames. -/
def exchange : Exchange where
  id := 0xaaa
  idt := 0
  msg := testData t.settings.txLen
  sndrParams := t.sndrInit.2
  rcvrParams := { t.rcvrInit.2 with wftNum := 0 }
  sndrEnv _ := t.env
  rcvrEnv _ := t.env
  short := t.length_msg
  noWaits := rfl
  stMin := t.stMin_msg
  accepts := t.accepts_msg
  transmits := t.transmits_msg

/-- `main` has called `cantp_send`, the receiver is in `fake_can_rx_task` with the parameters
that it has initialised. -/
def demoStart : Demo :=
  let d := t.exchange.demoStart
  { d with link := { d.link with right := .fresh (.fresh t.rcvrInit.2) } }

/-- Before the fork `main` fails if it does not accept the command line or the parameters of
the sender. -/
def start : TestState :=
  if (argsGet t.words .initial).1 < 0 ∨ t.sndrInit.1 < 0 then .starting .failed .unborn
  else .starting .looking .initializing

/-- One turn of the test, if it is possible. -/
def turn : TestTurn → TestState → Option TestState
  | .init, .starting m .initializing =>
      some (.starting m (if t.rcvrInit.1 < 0 then .ended else .ready))
  | .look, .starting .looking r =>
      some (.starting (if r = .ended then .failed else .waiting) r)
  | .wait, .starting .waiting .ready => some (.running t.demoStart)
  | .run u, .running d => (t.exchange.demoTurn u d).map .running
  | _, _ => none

/-- Some turn leads from one state of the test to the next. -/
def Step (s s' : TestState) : Prop := ∃ u, t.turn u s = some s'

/-- The states of the test in its runs. -/
def Reached (s : TestState) : Prop := Relation.ReflTransGen t.Step t.start s

variable {t} {s s' : TestState}

theorem idsFit : t.exchange.IdsFit := by
  have hid : t.exchange.rcvrParams.id = 0xbbb :=
    (paramsInit_kept t.settings.params).1.trans t.settings_sameRest.id
  have hsndr : (0xaaa : UInt32) < FakeCanPhy.idBound := by decide
  have hrcvr : (0xbbb : UInt32) < FakeCanPhy.idBound := by decide
  exact ⟨hsndr, hid ▸ hrcvr⟩

theorem demoStart_eq : t.demoStart = t.exchange.demoStart.withWaits t.rcvrInit.2.wftNum := rfl

theorem waitsFit : t.exchange.WaitsFit t.rcvrInit.2.wftNum :=
  paramsInit_waits t.settings_sameRest.wftNum

theorem sndrInit_accepted : t.sndrInit.1 = 0 := paramsInit_of_milliseconds rfl

theorem step_cases (h : t.Step s s') :
    (∃ m, s = .starting m .initializing ∧
      s' = .starting m (if t.rcvrInit.1 < 0 then .ended else .ready)) ∨
    (∃ r, s = .starting .looking r ∧
      s' = .starting (if r = .ended then .failed else .waiting) r) ∨
    (s = .starting .waiting .ready ∧ s' = .running t.demoStart) ∨
    ∃ d d', s = .running d ∧ s' = .running d' ∧ t.exchange.DemoStep d d' := by
  obtain ⟨u, hu⟩ := h
  unfold turn at hu
  split at hu
  · exact .inl ⟨_, rfl, (Option.some.inj hu).symm⟩
  · exact .inr (.inl ⟨_, rfl, (Option.some.inj hu).symm⟩)
  · exact .inr (.inr (.inl ⟨rfl, (Option.some.inj hu).symm⟩))
  · obtain ⟨d', hd, rfl⟩ := Option.map_eq_some_iff.mp hu
    exact .inr (.inr (.inr ⟨_, d', rfl, rfl, _, hd⟩))
  · cases hu

/-- What has been decided where the test stands. -/
inductive At (t : TestRun) : TestState → Prop
  | refused (h : (argsGet t.words .initial).1 < 0) : At t (.starting .failed .unborn)
  | initializing {m} (h : 0 ≤ (argsGet t.words .initial).1) (hm : m ≠ .failed) :
      At t (.starting m .initializing)
  | ended {m} (h : 0 ≤ (argsGet t.words .initial).1) (hr : t.rcvrInit.1 < 0) :
      At t (.starting m .ended)
  | ready {m} (h : 0 ≤ (argsGet t.words .initial).1) (hr : 0 ≤ t.rcvrInit.1)
      (hm : m ≠ .failed) : At t (.starting m .ready)
  | running {d} (h : 0 ≤ (argsGet t.words .initial).1) (hr : 0 ≤ t.rcvrInit.1)
      (hd : t.exchange.WaitsReached t.rcvrInit.2.wftNum d) :
      At t (.running d)

theorem at_start (t : TestRun) : t.At t.start := by
  rw [start, sndrInit_accepted]
  split
  · rename_i h
    exact .refused (h.resolve_right (Int.lt_irrefl 0))
  · rename_i h
    exact .initializing (not_lt.mp fun hlt => h (.inl hlt)) (by simp)

theorem At.step (h : t.At s) (hst : t.Step s s') : t.At s' := by
  obtain ⟨m, rfl, rfl⟩ | ⟨r, rfl, rfl⟩ | ⟨rfl, rfl⟩ | ⟨d, d', rfl, rfl, hd⟩ := step_cases hst
  · cases h with
    | initializing h hm =>
        split
        · rename_i hr
          exact .ended h hr
        · rename_i hr
          exact .ready h (not_lt.mp hr) hm
  · cases h with
    | initializing h hm => exact .initializing h (by simp)
    | ended h hr => exact .ended h hr
    | ready h hr hm => exact .ready h hr (by simp)
  · cases h with
    | ready h hr hm =>
        rw [demoStart_eq]
        exact .running h hr .refl
  · cases h with
    | running h hr hreached => exact .running h hr (hreached.tail hd)

theorem at_reached (h : t.Reached s) : t.At s :=
  invariant (fun _ _ => At.step) (at_start t) h

end TestRun

end CanTp
