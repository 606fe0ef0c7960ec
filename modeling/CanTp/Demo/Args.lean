import CanTp.Context
import Mathlib.Data.List.TakeWhile
import Mathlib.Data.UInt
import Mathlib.Tactic.SplitIfs

/-!
# The command line of the test

`args_get` of `cantp_test.c` reads the words behind the name of the program in pairs, an
option and its argument. What it makes of them is given twice: by the loop of the source,
and by `Settles`, which says for each option which of the words counts.
-/

namespace CanTp

/-- The variables of `main` that the command line sets: `tx_len`, `canll_delay` and the
parameters of the receiver. -/
structure TestSettings where
  txLen : UInt16
  canllDelay : UInt32
  params : CantpParams
deriving DecidableEq, Repr

/-! ### Numbers -/

/-- `isspace` -/
def isspace (c : Char) : Bool := c = ' ' ∨ '\t' ≤ c ∧ c ≤ '\r'

/-- The value of the digits at the beginning of `s`. -/
def leadingDigits (s : List Char) : Nat := Nat.ofDigitChars 10 (s.takeWhile Char.isDigit) 0

/-- `strtol(s, NULL, 10)`, with a `long` of 64 bits. -/
def strtol (s : List Char) : Int :=
  match s.dropWhile isspace with
  | '-' :: ds => max (-2 ^ 63) (-(leadingDigits ds : Int))
  | '+' :: ds => min (2 ^ 63 - 1) (leadingDigits ds : Int)
  | ds => min (2 ^ 63 - 1) (leadingDigits ds : Int)

/-- `atoi`, which is `(int)strtol(s, NULL, 10)`. -/
def atoi (s : List Char) : Int := (strtol s).bmod (2 ^ 32)

theorem isspace_of_isDigit {c : Char} (h : c.isDigit) : isspace c = false := by
  have hd : 48 ≤ c.val ∧ c.val ≤ 57 := by simpa [Char.isDigit] using h
  rw [isspace, decide_eq_false_iff_not]
  rintro (rfl | ⟨-, hle⟩)
  · exact absurd hd.1 (by decide)
  · exact absurd (UInt32.le_trans hd.1 hle) (by decide)

/-- The digits of a number are read back, up to the largest `long`. -/
theorem strtol_toDigits (n : Nat) : strtol (Nat.toDigits 10 n) = min (2 ^ 63 - 1) (n : Int) := by
  have hdigits : ∀ c ∈ Nat.toDigits 10 n, c.isDigit := fun c =>
    Nat.isDigit_of_mem_toDigits (by decide) (Nat.le_refl 10)
  have hval : leadingDigits (Nat.toDigits 10 n) = n := by
    rw [leadingDigits, List.takeWhile_eq_self_iff.mpr hdigits, Nat.ofDigitChars_ten_toDigits]
  generalize Nat.toDigits 10 n = ds at *
  cases ds with
  | nil =>
      rw [strtol, List.dropWhile_nil]
      simp only [hval]
  | cons c ds =>
      have hc := hdigits c List.mem_cons_self
      rw [strtol, List.dropWhile_cons_of_neg (by simp [isspace_of_isDigit hc])]
      split
      · rename_i heq
        cases heq
        exact absurd hc (by decide)
      · rename_i heq
        cases heq
        exact absurd hc (by decide)
      · rw [hval]

/-- A number that fits into 32 bits is read back when it is stored in as many bits. -/
theorem atoi_toDigits {n bits : Nat} (hbits : bits ≤ 32) (hn : n < 2 ^ bits) :
    (atoi (Nat.toDigits 10 n) % 2 ^ bits).toNat = n := by
  have hlt : n < 2 ^ 32 := lt_of_lt_of_le hn (Nat.pow_le_pow_right (by decide) hbits)
  have hmin : min (2 ^ 63 - 1) (n : Int) = n := by omega
  have hdvd : (2 : Int) ^ bits ∣ (2 ^ 32 : Nat) := by exact_mod_cast Nat.pow_dvd_pow 2 hbits
  rw [atoi, strtol_toDigits, hmin, ← Int.emod_emod_of_dvd _ hdvd, Int.bmod_emod,
    Int.emod_emod_of_dvd _ hdvd]
  exact_mod_cast Nat.mod_eq_of_lt hn

/-! ### Options -/

/-- What `args_get` does with the option `-name` and its argument. -/
def setOption (name arg : List Char) (s : TestSettings) : TestSettings :=
  if name = "canll_delay".toList then { s with canllDelay := .ofInt (atoi arg) }
  else if name = "st_min".toList then { s with params.stMinUs := .ofInt (atoi arg) }
  else if name = "block_size".toList then { s with params.blockSize := .ofInt (atoi arg) }
  else if name = "tx_len".toList then { s with txLen := .ofInt (atoi arg) }
  else if name = "wft_tim_us".toList then { s with params.wftTimUs := .ofInt (atoi arg) }
  else if name = "wft_max".toList then { s with params.wftMax := .ofInt (atoi arg) }
  else s

/-- The loop of `args_get` over the words that are left. A word that is no option is
reported and passed over together with the word behind it. -/
def argsLoop : List (List Char) → TestSettings → Int × TestSettings
  | [], s => (0, s)
  | [w], s => if w.head? = some '-' then (-1, s) else (0, s)
  | w :: arg :: rest, s =>
      argsLoop rest (if w.head? = some '-' then setOption w.tail arg s else s)

/-- `args_get`, with the words behind the name of the program. -/
def argsGet (words : List (List Char)) (s : TestSettings) : Int × TestSettings :=
  if words.length + 1 ≤ 2 then (-1, s) else argsLoop words s

/-- The options that `args_get` knows. -/
inductive TestOption
  | canllDelay
  | stMin
  | blockSize
  | txLen
  | wftTimUs
  | wftMax
deriving DecidableEq, Repr

namespace TestOption

def name : TestOption → List Char
  | canllDelay => "canll_delay".toList
  | stMin => "st_min".toList
  | blockSize => "block_size".toList
  | txLen => "tx_len".toList
  | wftTimUs => "wft_tim_us".toList
  | wftMax => "wft_max".toList

/-- The option as it is written on the command line. -/
def word (o : TestOption) : List Char := '-' :: o.name

/-- The width of the variable that the option sets. -/
def bits : TestOption → Nat
  | canllDelay | stMin | wftTimUs => 32
  | txLen => 16
  | blockSize | wftMax => 8

/-- The number that an argument stands for. -/
def number (o : TestOption) (arg : List Char) : Nat := (atoi arg % 2 ^ o.bits).toNat

theorem bits_le (o : TestOption) : o.bits ≤ 32 := by cases o <;> decide

theorem name_injective {o o' : TestOption} (h : o.name = o'.name) : o = o' := by
  revert h
  cases o <;> cases o' <;> decide

theorem word_injective {o o' : TestOption} (h : o.word = o'.word) : o = o' :=
  name_injective (List.tail_eq_of_cons_eq h)

end TestOption

/-- The value of the variable that the option sets. -/
def TestSettings.value (s : TestSettings) : TestOption → Nat
  | .canllDelay => s.canllDelay.toNat
  | .stMin => s.params.stMinUs.toNat
  | .blockSize => s.params.blockSize.toNat
  | .txLen => s.txLen.toNat
  | .wftTimUs => s.params.wftTimUs.toNat
  | .wftMax => s.params.wftMax.toNat

theorem TestSettings.value_lt (s : TestSettings) (o : TestOption) : s.value o < 2 ^ o.bits := by
  cases o
  case blockSize | wftMax => exact UInt8.toNat_lt _
  case txLen => exact UInt16.toNat_lt _
  all_goals exact UInt32.toNat_lt _

/-- The parameters that no option sets are the same. -/
structure TestSettings.SameRest (s t : TestSettings) : Prop where
  id : t.params.id = s.params.id
  idt : t.params.idt = s.params.idt
  stMin : t.params.stMin = s.params.stMin
  wftNum : t.params.wftNum = s.params.wftNum

namespace TestSettings

theorem SameRest.refl (s : TestSettings) : s.SameRest s := ⟨rfl, rfl, rfl, rfl⟩

theorem SameRest.symm {s t : TestSettings} (h : s.SameRest t) : t.SameRest s :=
  ⟨h.id.symm, h.idt.symm, h.stMin.symm, h.wftNum.symm⟩

theorem SameRest.trans {s t u : TestSettings} (h : s.SameRest t) (h' : t.SameRest u) :
    s.SameRest u :=
  ⟨h'.id.trans h.id, h'.idt.trans h.idt, h'.stMin.trans h.stMin, h'.wftNum.trans h.wftNum⟩

theorem ext_value {s t : TestSettings} (h : ∀ o, t.value o = s.value o)
    (hrest : s.SameRest t) : t = s := by
  obtain ⟨txLen, canllDelay, p⟩ := s
  obtain ⟨txLen', canllDelay', p'⟩ := t
  obtain ⟨id, idt, blockSize, stMinUs, stMin, wftNum, wftMax, wftTimUs⟩ := p
  obtain ⟨hid, hidt, hstMin, hwftNum⟩ := hrest
  obtain rfl := UInt32.toNat_inj.mp (h .canllDelay)
  obtain rfl := UInt32.toNat_inj.mp (h .stMin)
  obtain rfl := UInt8.toNat_inj.mp (h .blockSize)
  obtain rfl := UInt16.toNat_inj.mp (h .txLen)
  obtain rfl := UInt32.toNat_inj.mp (h .wftTimUs)
  obtain rfl := UInt8.toNat_inj.mp (h .wftMax)
  subst hid hidt hstMin hwftNum
  rfl

end TestSettings

theorem toNat_ofInt (v : Int) :
    (UInt8.ofInt v).toNat = (v % 2 ^ 8).toNat ∧ (UInt16.ofInt v).toNat = (v % 2 ^ 16).toNat ∧
      (UInt32.ofInt v).toNat = (v % 2 ^ 32).toNat := by
  rw [UInt8.ofInt, UInt16.ofInt, UInt32.ofInt, UInt8.toNat_ofNat', UInt16.toNat_ofNat',
    UInt32.toNat_ofNat']
  omega

/-- The option's variable is set to `v`. -/
def TestOption.set (o : TestOption) (v : Int) (s : TestSettings) : TestSettings :=
  match o with
  | canllDelay => { s with canllDelay := .ofInt v }
  | stMin => { s with params.stMinUs := .ofInt v }
  | blockSize => { s with params.blockSize := .ofInt v }
  | txLen => { s with txLen := .ofInt v }
  | wftTimUs => { s with params.wftTimUs := .ofInt v }
  | wftMax => { s with params.wftMax := .ofInt v }

theorem TestOption.set_value (o : TestOption) (v : Int) (s : TestSettings) :
    (o.set v s).value o = (v % 2 ^ o.bits).toNat := by
  obtain ⟨h8, h16, h32⟩ := toNat_ofInt v
  cases o
  case blockSize | wftMax => exact h8
  case txLen => exact h16
  all_goals exact h32

theorem TestOption.set_value_ne {o o' : TestOption} (h : o ≠ o') (v : Int) (s : TestSettings) :
    (o.set v s).value o' = s.value o' := by
  cases o <;> cases o' <;> first | rfl | exact absurd rfl h

theorem setOption_cases (name arg : List Char) (s : TestSettings) :
    (∃ o : TestOption, name = o.name ∧ setOption name arg s = o.set (atoi arg) s) ∨
      (∀ o : TestOption, name ≠ o.name) ∧ setOption name arg s = s := by
  unfold setOption
  split_ifs with h₁ h₂ h₃ h₄ h₅ h₆
  · exact .inl ⟨.canllDelay, h₁, rfl⟩
  · exact .inl ⟨.stMin, h₂, rfl⟩
  · exact .inl ⟨.blockSize, h₃, rfl⟩
  · exact .inl ⟨.txLen, h₄, rfl⟩
  · exact .inl ⟨.wftTimUs, h₅, rfl⟩
  · exact .inl ⟨.wftMax, h₆, rfl⟩
  · refine .inr ⟨fun o => ?_, rfl⟩
    cases o
    exacts [h₁, h₂, h₃, h₄, h₅, h₆]

theorem setOption_value (name arg : List Char) (s : TestSettings) (o : TestOption) :
    (setOption name arg s).value o = if name = o.name then o.number arg else s.value o := by
  obtain ⟨o', rfl, h⟩ | ⟨hne, h⟩ := setOption_cases name arg s
  · rw [h]
    split
    · rename_i heq
      obtain rfl := TestOption.name_injective heq
      exact o'.set_value _ s
    · rename_i hne
      exact TestOption.set_value_ne (fun heq => hne (congrArg TestOption.name heq)) _ s
  · rw [h, if_neg (hne o)]

theorem setOption_sameRest (name arg : List Char) (s : TestSettings) :
    s.SameRest (setOption name arg s) := by
  obtain ⟨o, rfl, h⟩ | ⟨-, h⟩ := setOption_cases name arg s
  · rw [h]
    cases o <;> exact ⟨rfl, rfl, rfl, rfl⟩
  · rw [h]
    exact .refl s

/-! ### Which words count -/

/-- The words at position `2 * i` are the last to give the option, with argument `arg`. -/
structure TestOption.GivenLast (o : TestOption) (words : List (List Char)) (i : Nat)
    (arg : List Char) : Prop where
  option : words[2 * i]? = some o.word
  arg : words[2 * i + 1]? = some arg
  last : ∀ j, i < j → words[2 * j]? ≠ some o.word

/-- What the words make of the settings `s`: the last argument of an option counts, an
option that is not given leaves its variable as it was. -/
structure Settles (words : List (List Char)) (s t : TestSettings) : Prop where
  given : ∀ o i arg, o.GivenLast words i arg → t.value o = o.number arg
  kept : ∀ o : TestOption, (∀ i, words[2 * i]? ≠ some o.word) → t.value o = s.value o
  rest : s.SameRest t

/-- No option at the place of an option is without an argument. -/
def ArgsComplete (words : List (List Char)) : Prop :=
  ∀ i w, words[2 * i]? = some w → w.head? = some '-' → 2 * i + 1 < words.length

theorem settles_nil {s t : TestSettings} : Settles [] s t ↔ s = t := by
  constructor
  · intro h
    exact (TestSettings.ext_value (fun o => h.kept o fun i => by simp) h.rest).symm
  · rintro rfl
    exact ⟨fun o i arg h => (by cases h.option), fun _ _ => rfl, .refl s⟩

theorem settles_single {w : List Char} (hw : w.head? ≠ some '-') {s t : TestSettings} :
    Settles [w] s t ↔ s = t := by
  have hword : ∀ (o : TestOption) (i : Nat), [w][2 * i]? ≠ some o.word := by
    rintro o (_ | i) h
    · exact hw (by rw [Option.some.inj h]; rfl)
    · cases h
  constructor
  · intro h
    exact (TestSettings.ext_value (fun o => h.kept o (hword o)) h.rest).symm
  · rintro rfl
    exact ⟨fun o i arg h => absurd h.option (hword o i), fun _ _ => rfl, .refl s⟩

theorem value_first (w arg : List Char) (s : TestSettings) (o : TestOption) :
    (if w.head? = some '-' then setOption w.tail arg s else s).value o =
      if w = o.word then o.number arg else s.value o := by
  by_cases hw : w.head? = some '-'
  · obtain ⟨name, rfl⟩ : ∃ name, w = '-' :: name := List.head?_eq_some_iff.mp hw
    rw [if_pos hw, List.tail_cons, setOption_value]
    simp only [TestOption.word, List.cons.injEq, true_and]
  · rw [if_neg hw, if_neg]
    rintro rfl
    exact hw rfl

theorem sameRest_first (w arg : List Char) (s : TestSettings) :
    s.SameRest (if w.head? = some '-' then setOption w.tail arg s else s) := by
  split
  · exact setOption_sameRest _ _ _
  · exact .refl s

theorem settles_cons {w arg : List Char} {rest : List (List Char)} {s t : TestSettings} :
    Settles (w :: arg :: rest) s t ↔
      Settles rest (if w.head? = some '-' then setOption w.tail arg s else s) t := by
  have hfirst := value_first w arg s
  have hsame := sameRest_first w arg s
  generalize (if w.head? = some '-' then setOption w.tail arg s else s) = s' at *
  constructor
  · intro h
    refine ⟨fun o i a hi => ?_, fun o hnone => ?_, ?_⟩
    · refine h.given o (i + 1) a ⟨hi.option, hi.arg, fun j hj => ?_⟩
      obtain ⟨k, rfl⟩ : ∃ k, j = k + 1 := ⟨j - 1, by omega⟩
      exact hi.last k (by omega)
    · rw [hfirst]
      split
      · rename_i heq
        refine h.given o 0 arg ⟨congrArg some heq, rfl, fun j hj => ?_⟩
        obtain ⟨k, rfl⟩ : ∃ k, j = k + 1 := ⟨j - 1, by omega⟩
        exact hnone k
      · rename_i hne
        refine h.kept o fun i => ?_
        cases i with
        | zero => exact fun heq => hne (Option.some.inj heq)
        | succ i => exact hnone i
    · exact hsame.symm.trans h.rest
  · intro h
    refine ⟨fun o i a hi => ?_, fun o hnone => ?_, ?_⟩
    · cases i with
      | zero =>
          rw [h.kept o fun i => hi.last (i + 1) (Nat.succ_pos i), hfirst,
            if_pos (Option.some.inj hi.option), Option.some.inj hi.arg]
      | succ i => exact h.given o i a ⟨hi.option, hi.arg, fun j hj => hi.last (j + 1) (by omega)⟩
    · rw [h.kept o fun i => hnone (i + 1), hfirst, if_neg]
      exact fun heq => hnone 0 (congrArg some heq)
    · exact hsame.trans h.rest

theorem argsComplete_cons {w arg : List Char} {rest : List (List Char)} :
    ArgsComplete (w :: arg :: rest) ↔ ArgsComplete rest := by
  constructor
  · intro h i v hv hhead
    have hlt := h (i + 1) v hv hhead
    simp only [List.length_cons] at hlt
    omega
  · intro h i v hv hhead
    simp only [List.length_cons]
    cases i with
    | zero => omega
    | succ i =>
        have hlt := h i v hv hhead
        omega

theorem argsLoop_iff {words : List (List Char)} {s t : TestSettings} :
    argsLoop words s = (0, t) ↔ ArgsComplete words ∧ Settles words s t := by
  induction words, s using argsLoop.induct with
  | case1 s =>
      rw [argsLoop, settles_nil, Prod.mk.injEq]
      refine and_congr_left' ⟨fun _ i w hw => ?_, fun _ => rfl⟩
      cases hw
  | case2 w s hw =>
      rw [argsLoop, if_pos hw]
      refine ⟨fun h => (by cases h), fun h => ?_⟩
      exact absurd (h.1 0 w rfl hw) (Nat.lt_irrefl 1)
  | case3 w s hw =>
      rw [argsLoop, if_neg hw, settles_single hw, Prod.mk.injEq]
      refine and_congr_left' ⟨fun _ i v hv hhead => ?_, fun _ => rfl⟩
      cases i with
      | zero => exact absurd (Option.some.inj hv ▸ hhead) hw
      | succ i => cases hv
  | case4 w arg rest s ih =>
      rw [argsLoop, ih, settles_cons, argsComplete_cons]

theorem argsLoop_sameRest (words : List (List Char)) (s : TestSettings) :
    s.SameRest (argsLoop words s).2 := by
  induction words, s using argsLoop.induct with
  | case1 s => exact .refl s
  | case2 w s hw =>
      rw [argsLoop, if_pos hw]
      exact .refl s
  | case3 w s hw =>
      rw [argsLoop, if_neg hw]
      exact .refl s
  | case4 w arg rest s ih => exact (sameRest_first w arg s).trans ih

theorem argsGet_sameRest (words : List (List Char)) (s : TestSettings) :
    s.SameRest (argsGet words s).2 := by
  rw [argsGet]
  split
  · exact .refl s
  · exact argsLoop_sameRest words s

/-- `args_get` accepts the command line and leaves the settings `t` exactly if there are
two words at least, no option lacks its argument, and `t` is what the words say. -/
theorem argsGet_iff (words : List (List Char)) (s t : TestSettings) :
    argsGet words s = (0, t) ↔ 2 ≤ words.length ∧ ArgsComplete words ∧ Settles words s t := by
  rw [argsGet]
  split
  · rename_i hlt
    refine ⟨fun h => (by cases h), fun h => ?_⟩
    omega
  · rename_i hge
    rw [argsLoop_iff, and_iff_right (by omega : 2 ≤ words.length)]

/-! ### Settings on the command line -/

/-- The options `os`, one after the other, with the arguments that stand for `s`. -/
def argsOf (os : List TestOption) (s : TestSettings) : List (List Char) :=
  os.flatMap fun o => [o.word, Nat.toDigits 10 (s.value o)]

theorem number_value (o : TestOption) (s : TestSettings) :
    o.number (Nat.toDigits 10 (s.value o)) = s.value o :=
  atoi_toDigits o.bits_le (s.value_lt o)

theorem argsLoop_argsOf (os : List TestOption) (s s₀ : TestSettings) :
    (argsLoop (argsOf os s) s₀).1 = 0 ∧ ∀ o, (argsLoop (argsOf os s) s₀).2.value o =
      if o ∈ os then s.value o else s₀.value o := by
  induction os generalizing s₀ with
  | nil => exact ⟨rfl, fun o => rfl⟩
  | cons p os ih =>
      have hcons : argsLoop (argsOf (p :: os) s) s₀ = argsLoop (argsOf os s)
        (if p.word.head? = some '-' then
          setOption p.word.tail (Nat.toDigits 10 (s.value p)) s₀ else s₀) := rfl
      rw [hcons]
      refine ⟨(ih _).1, fun o => ?_⟩
      rw [(ih _).2 o, value_first]
      by_cases hmem : o ∈ os
      · rw [if_pos hmem, if_pos (List.mem_cons_of_mem p hmem)]
      · rw [if_neg hmem]
        by_cases hp : o = p
        · subst hp
          rw [if_pos rfl, if_pos List.mem_cons_self, number_value]
        · have hword : p.word ≠ o.word := fun h => hp (TestOption.word_injective h).symm
          have hnot : o ∉ p :: os := List.not_mem_cons_of_ne_of_not_mem hp hmem
          rw [if_neg hword, if_neg hnot]

theorem argsGet_of_ne_nil {os : List TestOption} (hos : os ≠ []) (s s₀ : TestSettings) :
    argsGet (argsOf os s) s₀ = argsLoop (argsOf os s) s₀ := by
  obtain ⟨p, os, rfl⟩ := List.exists_cons_of_ne_nil hos
  refine if_neg ?_
  rw [argsOf, List.flatMap_cons, List.length_append]
  simp only [List.length_cons]
  omega

/-- Every value of every variable can be given on the command line, whatever the order of
the options and however often one is repeated. -/
theorem argsGet_argsOf (os : List TestOption) (s s₀ : TestSettings) :
    (argsGet (argsOf os s) s₀).1 = (if os = [] then -1 else 0) ∧
      ∀ o, (argsGet (argsOf os s) s₀).2.value o = if o ∈ os then s.value o else s₀.value o := by
  by_cases hos : os = []
  · subst hos
    exact ⟨rfl, fun o => rfl⟩
  · rw [argsGet_of_ne_nil hos, if_neg hos]
    exact argsLoop_argsOf os s s₀

end CanTp
