import CanTp.Sender.Transfer
import CanTp.Receiver.Outcome

/-!
# The length a First Frame announces

A First Frame has twelve bits for the length of its message, `cantp_send` takes lengths
of sixteen. The sender itself counts to the length it was given: until it reports the
completion it puts as many bytes into Consecutive Frames as a First Frame without the
twelve bits would have to announce.
-/

namespace CanTp

open Library

/-- The read of a byte of the message into a Consecutive Frame. -/
def Act.isSndrRead : Act → Bool
  | .sndrRead _ => true
  | _ => false

/-- The number of payload bytes put into Consecutive Frames. -/
def cfBytes (log : List Act) : Nat := log.countP Act.isSndrRead

/-- A request for the first `len` bytes of `data` sends a First Frame that announces what
is carried: the length decoded from it is `len`, and counts the six bytes in it and the
payload of the Consecutive Frames up to the completion, whatever calls other than the
next request follow. A length that no frame announces is not sent. -/
structure Announces (c : CantpRxtxStatus) (id : UInt32) (idt : UInt8) (data : List UInt8)
    (len : UInt16) : Prop where
  decoded : ∀ f ∈ framesSent (canTp.step c (.send id idt data len)).2, cantpFfLenGet f = len
  carried : ∀ f ∈ framesSent (canTp.step c (.send id idt data len)).2,
    ∀ es : List Event, (∀ e ∈ es, e.isSend = false) → ∀ pre post,
      canTp.outputs (canTp.step c (.send id idt data len)).1 es = pre ++ .sndrTxDoneCb :: post →
      (cantpFfLenGet f).toNat = ffNumDataBytes + cfBytes pre
  refused : (∀ f, cantpFfLenGet f ≠ len) →
    framesSent (canTp.step c (.send id idt data len)).2 = []

/-! ### Bytes and phases -/

theorem cfBytes_append (l m : List Act) : cfBytes (l ++ m) = cfBytes l + cfBytes m :=
  List.countP_append

/-- The payload of the Consecutive Frames that are out in a phase. -/
def Phase.carried (len : Nat) : Phase → Nat
  | .cf k | .cfWait k => min len (cfStart k) - ffNumDataBytes
  | .idle | .sf | .ff | .ffWait => 0

/-- What the log of a transfer holds when it is in a phase: the payload so far, and no
completion before the transfer is over. -/
def Accounts (len : Nat) (out : List Act) (ph : Phase) : Prop :=
  if ph = .idle then
    ∀ pre post, out = pre ++ .sndrTxDoneCb :: post → ffNumDataBytes + cfBytes pre = len
  else .sndrTxDoneCb ∉ out ∧ cfBytes out = ph.carried len

/-- What one call adds to the log. -/
inductive Carries (len : Nat) : Phase → List Act → Phase → Prop
  | on {ph ph' : Phase} {log : List Act} (hph : ph ≠ .idle) (hph' : ph' ≠ .idle)
      (hnone : .sndrTxDoneCb ∉ log)
      (hbytes : ph.carried len + cfBytes log = ph'.carried len) : Carries len ph log ph'
  | ended {ph : Phase} {log : List Act} (hnone : .sndrTxDoneCb ∉ log) :
      Carries len ph log .idle
  | done (hlong : sfNumDataBytes < len) :
      Carries len (.cf (numCfs len)) [.sndrStateSemGive, .sndrTxDoneCb] .idle

section Accounts

variable {len : Nat} {ph ph' : Phase} {out log pre post : List Act}

theorem split_left {a : Act} (ha : a ∉ log) (h : out ++ log = pre ++ a :: post) :
    ∃ post', out = pre ++ a :: post' := by
  rcases List.append_eq_append_iff.mp h with ⟨m, rfl, hlog⟩ | ⟨m, rfl, hlog⟩
  · exact absurd (hlog ▸ List.mem_append_right m (List.mem_cons_self ..)) ha
  · cases m with
    | nil =>
        rw [List.nil_append] at hlog
        exact absurd (hlog ▸ List.mem_cons_self ..) ha
    | cons b m =>
        obtain ⟨rfl, -⟩ := List.cons.inj hlog
        exact ⟨m, rfl⟩

theorem split_last {a : Act} (ha : a ∉ out) (h : out ++ [a] = pre ++ a :: post) : pre = out := by
  rcases List.append_eq_append_iff.mp h with ⟨m, rfl, hlog⟩ | ⟨m, rfl, hlog⟩
  · have hlen := congrArg List.length hlog
    simp only [List.length_append, List.length_cons, List.length_nil] at hlen
    rw [List.length_eq_zero_iff.mp (by omega : m.length = 0), List.append_nil]
  · cases m with
    | nil => rw [List.append_nil]
    | cons b m =>
        obtain ⟨rfl, -⟩ := List.cons.inj hlog
        exact absurd (List.mem_append_right pre (List.mem_cons_self ..)) ha

theorem Accounts.step (h : Accounts len out ph) (hlog : Carries len ph log ph') :
    Accounts len (out ++ log) ph' := by
  cases hlog with
  | on hph hph' hnone hbytes =>
      rw [Accounts, if_neg hph] at h
      rw [Accounts, if_neg hph', cfBytes_append, h.2, hbytes]
      exact ⟨fun hmem => (List.mem_append.mp hmem).elim h.1 hnone, rfl⟩
  | ended hnone =>
      rw [Accounts, if_pos rfl]
      intro pre post hsplit
      obtain ⟨post', hout⟩ := split_left hnone hsplit
      by_cases hph : ph = .idle
      · rw [Accounts, if_pos hph] at h
        exact h pre post' hout
      · rw [Accounts, if_neg hph] at h
        exact absurd (hout ▸ List.mem_append_right pre (List.mem_cons_self ..)) h.1
  | done hlong =>
      rw [Accounts, if_neg (by simp)] at h
      rw [Accounts, if_pos rfl]
      intro pre post hsplit
      have hsplit' : (out ++ [.sndrStateSemGive]) ++ [.sndrTxDoneCb] =
          pre ++ .sndrTxDoneCb :: post := by
        rw [List.append_assoc]
        exact hsplit
      have hnone : .sndrTxDoneCb ∉ out ++ [Act.sndrStateSemGive] := by
        simpa using h.1
      have hend := le_cfStart_numCfs len
      rw [split_last hnone hsplit', cfBytes_append, h.2, Phase.carried, Nat.min_eq_left hend]
      have hgive : cfBytes [.sndrStateSemGive] = 0 := rfl
      rw [hgive]
      simp only [sfNumDataBytes, ffNumDataBytes] at *
      omega

end Accounts

/-! ### What a call carries -/

section Calls

variable {data : List UInt8} {len : Nat} {c : CantpRxtxStatus} {ph : Phase}

/-- The world `w`, reached from the phase `ph` with an empty log, is in a phase that
accounts for its log. -/
def Moved (data : List UInt8) (len : Nat) (ph : Phase) (w : World) : Prop :=
  ∃ ph', InPhase data len w.ctx.sndr ph' ∧ Carries len ph w.log ph'

theorem Moved.stay {w : World} (h : InPhase data len w.ctx.sndr ph)
    (hnone : .sndrTxDoneCb ∉ w.log) (hbytes : cfBytes w.log = 0) : Moved data len ph w := by
  by_cases hph : ph = .idle
  · subst hph
    exact ⟨.idle, h, .ended hnone⟩
  · exact ⟨ph, h, .on hph hph hnone (by rw [hbytes, Nat.add_zero])⟩

theorem Moved.ended {w : World} (h : w.ctx.sndr.state = .idle)
    (hnone : .sndrTxDoneCb ∉ w.log) : Moved data len ph w := ⟨.idle, h, .ended hnone⟩

/-- A Consecutive Frame carries the bytes its index moves over. -/
theorem cfBytes_cfActs (c : CantpRxtxStatus) : cfBytes c.cfActs = c.sndr.nextLen := by
  have hreads : cfBytes ((List.range c.sndr.nextLen).map
      fun i => .sndrRead (c.sndr.index.toNat + i)) = c.sndr.nextLen := by
    rw [cfBytes, List.countP_map]
    exact (List.countP_eq_length.mpr fun _ _ => rfl).trans List.length_range
  rw [CantpRxtxStatus.cfActs, cfBytes_append, hreads]
  rfl

theorem txDone_notMem_cfActs (c : CantpRxtxStatus) : .sndrTxDoneCb ∉ c.cfActs := fun hmem =>
  (ofFlow_cfActs hmem).elim

theorem Moved.sentCf {w : World} {k : Nat} (hph : ph ≠ .idle)
    (hcarried : ph.carried len = min len (cfStart k) - ffNumDataBytes)
    (hcur : Cursor data len w.ctx.sndr k) (hk : k < numCfs len)
    (hsn : w.ctx.sndr.sn.toNat = (k + 1) % 16) (hnone : .sndrTxDoneCb ∉ w.log)
    (hbytes : cfBytes w.log = 0) : Moved data len ph (sentCf w) := by
  refine ⟨.cf (k + 1), hcur.afterCf hk hsn, .on hph (by simp) ?_ ?_⟩
  · exact fun hmem => (List.mem_append.mp hmem).elim hnone (txDone_notMem_cfActs _)
  · have hstart := (lt_numCfs_iff len k).mp hk
    have hindex := hcur.index_eq
    rw [CanTp.sentCf, cfBytes_append, hbytes, cfBytes_cfActs, hcarried, Phase.carried,
      SndrState.nextLen, hcur.len_eq, hindex, cfStart_succ]
    simp only [cfStart, ffNumDataBytes, cfNumDataBytes] at *
    omega

theorem confirm_moved (h : InPhase data len c.sndr ph) :
    Moved data len ph (cantpCantxConfirmCb ⟨c, []⟩) := by
  have hconf := h.confirmed
  generalize cantpCantxConfirmCb ⟨c, []⟩ = w at hconf ⊢
  cases hconf with
  | ignored => exact .stay h (by simp) rfl
  | single => exact .ended rfl (by simp)
  | opening => exact ⟨.ffWait, h.opened _, .on (by simp) (by simp) (by simp) rfl⟩
  | last hk =>
      subst hk
      exact ⟨.idle, rfl, .done h.2.1.long⟩
  | @blockEnd k hlt hb =>
      exact ⟨.cfWait k, h.blockEnded hlt _, .on (by simp) (by simp) (by simp) rfl⟩
  | @next k hlt hb =>
      obtain ⟨hst, hcur, hpos, hsn⟩ := h
      refine .sentCf (by simp) rfl (hcur.of_eq rfl rfl rfl) hlt (toNat_nextSn hsn) ?_ ?_
      · split <;> simp
      · split <;> rfl

theorem timerCb_moved (h : InPhase data len c.sndr ph) :
    Moved data len ph (cantpSndrTimerCb ⟨c, []⟩) := by
  by_cases hsend : c.sndr.state.Sending
  · rw [timerCb_sending (w := ⟨c, []⟩) hsend]
    exact .ended rfl (by simp)
  · by_cases hwait : c.sndr.state = .ffFcWait
    · rw [timerCb_ffFcWait (w := ⟨c, []⟩) hwait]
      exact .ended rfl (by simp)
    · rw [timerCb_other (w := ⟨c, []⟩) hsend hwait]
      exact .stay h (by simp) rfl

theorem expiry_moved (h : InPhase data len c.sndr ph) :
    Moved data len ph (sndrTimerExpiry ⟨c, []⟩) := by
  rw [sndrTimerExpiry]
  split
  · exact timerCb_moved (c := { c with sndr.timer := none }) (h.of_eq rfl rfl rfl rfl rfl)
  · exact .stay h (by simp) rfl

theorem canrx_moved (r : RxFrame) (h : InPhase data len c.sndr ph) :
    Moved data len ph (handle (.canrxCb r) ⟨c, []⟩) := by
  by_cases hpci : r.pci = some .flowControll
  · have hans := h.answered hpci
    generalize handle (.canrxCb r) ⟨c, []⟩ = w at hans ⊢
    cases hans with
    | dropped => exact .stay h (by simp) rfl
    | recorded us name hst => exact .stay (h.of_eq rfl rfl rfl rfl rfl) (by simp) rfl
    | resumed us hst hcts =>
        obtain ⟨rfl, -, hcur, hsn⟩ := h.ffWait hst
        exact .sentCf (by simp) (by simp [Phase.carried, cfStart]) (hcur.of_eq rfl rfl rfl)
          (numCfs_pos hcur.long) hsn (by simp) rfl
  · obtain ⟨⟨bl, hsndr⟩, hlog⟩ := (rx_outcome c r).sndr_alone hpci
    refine .stay ?_ (fun hmem => Bool.noConfusion (hlog _ hmem)) ?_
    · rw [hsndr]
      exact h.of_eq rfl rfl rfl rfl rfl
    · refine List.countP_eq_zero.mpr fun a ha hread => ?_
      have honly := hlog a ha
      cases a <;> first | exact Bool.noConfusion hread | exact Bool.noConfusion honly

theorem step_moved {e : Event} (he : e.isSend = false) (h : InPhase data len c.sndr ph) :
    Moved data len ph (handle e ⟨c, []⟩) := by
  cases e with
  | send => cases he
  | cantxConfirmCb => exact confirm_moved h
  | sndrTimerCb => exact timerCb_moved h
  | sndrTimerExpiry => exact expiry_moved h
  | rcvrTimerCb => exact .stay h (by simp [handle, cantpRcvrTimerCb]) rfl
  | canrxCb r => exact canrx_moved r h

/-- A run without another request accounts for its log. -/
theorem run_accounts {es : List Event} (h : InPhase data len c.sndr .ff)
    (hes : ∀ e ∈ es, e.isSend = false) : ∃ ph, Accounts len (canTp.outputs c es) ph := by
  have hrun := Mealy.trace_induction (M := canTp)
    (P := fun out c => ∃ ph, InPhase data len c.sndr ph ∧ Accounts len out ph)
    (fun out c e ⟨ph, hin, hacc⟩ he => by
      obtain ⟨ph', hin', hlog⟩ := step_moved he hin
      exact ⟨ph', hin', hacc.step hlog⟩)
    ⟨.ff, h, List.not_mem_nil, rfl⟩ (Mealy.admits_of_forall hes c)
  obtain ⟨ph, -, hacc⟩ := hrun
  exact ⟨ph, hacc⟩

/-- Up to the completion the sender carries what it was asked to. -/
theorem carried_of_txDone {es : List Event} {pre post : List Act}
    (h : InPhase data len c.sndr .ff) (hes : ∀ e ∈ es, e.isSend = false)
    (hsplit : canTp.outputs c es = pre ++ .sndrTxDoneCb :: post) :
    ffNumDataBytes + cfBytes pre = len := by
  obtain ⟨ph, hacc⟩ := run_accounts h hes
  by_cases hph : ph = .idle
  · rw [Accounts, if_pos hph] at hacc
    exact hacc pre post hsplit
  · rw [Accounts, if_neg hph, hsplit] at hacc
    exact absurd (List.mem_append_right pre (List.mem_cons_self ..)) hacc.1

end Calls

/-! ### The announcement -/

/-- A First Frame keeps the length modulo `4096`. -/
theorem ffFrame_mod (data : List UInt8) (len : Nat) :
    ffFrame data len = ffFrame data (len % 4096) := by
  have hh : len / 256 % 16 = len % 4096 / 256 % 16 := by omega
  have hl : len % 256 = len % 4096 % 256 := by omega
  rw [ffFrame, ffFrame, hh, hl]

theorem cantpFfLenGet_eq (data : List UInt8) (len : Nat) :
    (cantpFfLenGet (ffFrame data len)).toNat = len % 4096 := by
  rw [ffFrame_mod, cantpFfLenGet_ffFrame data (by omega)]

section Request

variable {c : CantpRxtxStatus} {id : UInt32} {idt : UInt8} {data : List UInt8} {len : UInt16}

theorem framesSent_send (hlong : sfNumDataBytes < len.toNat) :
    framesSent (canTp.step c (.send id idt data len)).2 = [ffFrame data len.toNat] := by
  simp only [canTp_step, handle, send_segmented hlong]
  rfl

theorem inPhase_send (hlong : sfNumDataBytes < len.toNat) :
    InPhase data len.toNat (canTp.step c (.send id idt data len)).1.sndr .ff := by
  simp only [canTp_step, handle, send_segmented hlong]
  exact ⟨rfl, rfl, rfl, hlong⟩

theorem Announces.lt (hlong : sfNumDataBytes < len.toNat) (h : Announces c id idt data len) :
    len.toNat < 4096 := by
  have hdecoded := h.decoded (ffFrame data len.toNat) (by rw [framesSent_send hlong]; simp)
  rw [← hdecoded, cantpFfLenGet_eq]
  exact Nat.mod_lt _ (by omega)

end Request

/-- For every context, all data and all lengths above seven: the First Frame announces
what is carried exactly if the length has twelve bits. -/
theorem announces_iff (c : CantpRxtxStatus) (id : UInt32) (idt : UInt8) (data : List UInt8)
    (len : UInt16) (hlong : sfNumDataBytes < len.toNat) :
    Announces c id idt data len ↔ len.toNat < 4096 := by
  have hsent : framesSent (canTp.step c (.send id idt data len)).2 = [ffFrame data len.toNat] :=
    framesSent_send hlong
  constructor
  · exact Announces.lt hlong
  · intro hlen
    have hget : cantpFfLenGet (ffFrame data len.toNat) = len :=
      UInt16.toNat_inj.mp (cantpFfLenGet_ffFrame data hlen)
    refine ⟨fun f hf => ?_, fun f hf es hes pre post hsplit => ?_, fun hnone => ?_⟩
    · rw [hsent] at hf
      rw [List.mem_singleton.mp hf, hget]
    · rw [hsent] at hf
      rw [List.mem_singleton.mp hf, hget]
      exact (carried_of_txDone (inPhase_send hlong) hes hsplit).symm
    · exact absurd hget (hnone _)

/-- Twenty bytes. -/
theorem announces_twenty :
    Announces (.fresh ⟨0, 0, 0, 0, 0, 0, 0, 0⟩) 5 0 (List.replicate 20 7) 20 :=
  (announces_iff _ 5 0 (List.replicate 20 7) 20 (by decide)).mpr (by decide)

/-- `4096` bytes are announced as none. -/
theorem not_announces :
    ¬ ∀ (c : CantpRxtxStatus) (id : UInt32) (idt : UInt8) (data : List UInt8) (len : UInt16),
      sfNumDataBytes < len.toNat → Announces c id idt data len := by
  intro h
  have hlt := (h (.fresh ⟨0, 0, 0, 0, 0, 0, 0, 0⟩) 5 0 [] 4096 (by decide)).lt (by decide)
  exact absurd hlt (by decide)

end CanTp
