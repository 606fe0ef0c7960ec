import CanTp.Demo.Endings

/-!
# Which command lines work

The test as a function of what is written on its command line: the options in some order,
each with its value in decimal. Whether it succeeds is a matter of five of the six numbers:
the delay of the link layer has no part in it.
-/

namespace CanTp

open Library

/-- A command line: options in any order, also repeated, with the settings they stand for.
What is not given is as `main` initialises it. -/
structure Command where
  options : List TestOption
  settings : TestSettings
  given : options ≠ []
  default : ∀ o, o ∉ options → settings.value o = TestSettings.initial.value o
  rest : TestSettings.initial.SameRest settings
  short : settings.txLen.toNat < 4096

namespace Command

variable (c : Command)

/-- The words of the command line. -/
def words : List (List Char) := argsOf c.options c.settings

theorem argsGet_words : argsGet c.words .initial = (0, c.settings) := by
  obtain ⟨hret, hvalue⟩ := argsLoop_argsOf c.options c.settings .initial
  have hrest := argsLoop_sameRest c.words .initial
  rw [words] at hrest ⊢
  rw [argsGet_of_ne_nil c.given]
  refine Prod.ext hret (TestSettings.ext_value (fun o => ?_) (c.rest.symm.trans hrest))
  rw [hvalue]
  split
  · rfl
  · rename_i hnot
    exact (c.default o hnot).symm

theorem short_words : (argsGet c.words .initial).2.txLen.toNat < 4096 := by
  rw [argsGet_words]
  exact c.short

/-- The test with this command line. -/
def run (m : TestMemory) : TestRun where
  toTestMemory := m
  words := c.words
  short := c.short_words

/-- A command line works if its message has more than seven bytes and its STmin is zero or at
least 100 μs, and fits into one block, if there are blocks. With a STmin above 127 ms the
FC.WAIT frames have to be few enough, and there can be one Consecutive Frame. -/
def Works : Prop :=
  let p := c.settings.params
  sfNumDataBytes < c.settings.txLen.toNat ∧
    if p.stMinUs.toNat ≤ 127000 then
      (p.stMinUs.toNat = 0 ∨ 100 ≤ p.stMinUs.toNat) ∧
        (p.blockSize = 0 ∨ numCfs c.settings.txLen.toNat ≤ p.blockSize.toNat)
    else
      (127000 ≤ p.wftTimUs.toNat ∧ p.stMinUs.toNat / p.wftTimUs.toNat % 256 ≤ p.wftMax.toNat) ∧
        numCfs c.settings.txLen.toNat ≤ 1

instance : Decidable c.Works := inferInstanceAs (Decidable (_ ∧ _))

theorem works_iff : c.Works ↔
    0 ≤ (cantpRcvrParamsInit c.settings.params).1 ∧ sfNumDataBytes < c.settings.txLen.toNat ∧
      ((cantpRcvrParamsInit c.settings.params).2.blockSize = 0 ∨
        numCfs c.settings.txLen.toNat ≤
          (cantpRcvrParamsInit c.settings.params).2.blockSize.toNat) := by
  by_cases hst : c.settings.params.stMinUs.toNat ≤ 127000
  · obtain ⟨haccept, hblock, -⟩ := paramsInit_short hst
    rw [Works, if_pos hst, hblock, haccept, and_left_comm]
  · obtain ⟨haccept, hblock⟩ := paramsInit_long (not_le.mp hst)
    have hone : (1 : UInt8) ≠ 0 := by decide
    rw [Works, if_neg hst, hblock, haccept, and_left_comm, or_iff_right hone]
    rfl

/-- The test succeeds, in every order of the steps, exactly if its command line works. -/
theorem run_succeeds_iff (m : TestMemory) :
    Ends (c.run m).Step (c.run m).start (c.run m).Succeeded ↔ c.Works := by
  have hsettings : (c.run m).settings = c.settings := congrArg Prod.snd c.argsGet_words
  have hargs : 0 ≤ (argsGet (c.run m).words .initial).1 :=
    (congrArg Prod.fst c.argsGet_words).ge
  have hinit : (c.run m).rcvrInit = cantpRcvrParamsInit c.settings.params := by
    rw [TestRun.rcvrInit, hsettings]
  have hone : (c.run m).exchange.OneBlock ↔ sfNumDataBytes < c.settings.txLen.toNat ∧
      ((c.run m).rcvrInit.2.blockSize = 0 ∨
        numCfs c.settings.txLen.toNat ≤ (c.run m).rcvrInit.2.blockSize.toNat) := by
    rw [← hsettings, ← length_testData]
    rfl
  rw [works_iff, ← hinit, ← hone]
  constructor
  · intro hends
    exact (TestRun.accepted_of_succeeds hends).2
  · rintro ⟨hr, hblocks⟩
    exact TestRun.succeeds_of_accepted hargs hr hblocks

/-- The words `-tx_len 20`. -/
example : ∃ c : Command, c.words = ["-tx_len".toList, "20".toList] ∧ c.Works :=
  ⟨{  options := [.txLen]
      settings := { TestSettings.initial with txLen := 20 }
      given := by decide
      default := fun o ho => by
        cases o
        case txLen => exact absurd List.mem_cons_self ho
        all_goals rfl
      rest := ⟨rfl, rfl, rfl, rfl⟩
      short := by decide }, by decide, by decide⟩

end Command

end CanTp
