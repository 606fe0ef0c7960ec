import CanTp.Receiver.Sequence

/-!
# Filling the session buffer

`Filling id msg taken s`: the receiver is in the reception of the message `msg` from
the node `id`, no frame has been rejected, and the buffer holds the First Frame and
the first `taken` Consecutive Frames of `msg`. The next frame of the segmentation
fills the buffer further, the last one completes the message.
-/

namespace CanTp

open Library

/-- A call of `cantp_received_cb`. -/
structure Delivery where
  id : UInt32
  idt : UInt8
  data : Option (List UInt8)
  len : UInt8
deriving DecidableEq, Repr

def Act.delivery : Act → Option Delivery
  | .receivedCb id idt data len => some ⟨id, idt, data, len⟩
  | _ => none

/-- The calls of `cantp_received_cb` in a log, in order. -/
def deliveries (log : List Act) : List Delivery := log.filterMap Act.delivery

theorem deliveries_append (l m : List Act) :
    deliveries (l ++ m) = deliveries l ++ deliveries m := List.filterMap_append

theorem deliveries_of_await {env : Env} {acts : List Act}
    (h : ∀ a ∈ acts, a.IsAwait env) :
    deliveries acts = [] := by
  apply List.filterMap_eq_nil_iff.mpr
  intro a ha
  have hw := h a ha
  cases a <;> first | rfl | exact absurd hw id

theorem deliveries_cfWrites (s : RcvrState) (f : CantpFrame) :
    deliveries (s.cfWrites f) = [] := by
  rw [deliveries, RcvrState.cfWrites, List.filterMap_map]
  exact List.filterMap_eq_nil_iff.mpr fun _ _ => rfl

theorem cantpFfLenGet_ffFrame (data : List UInt8) {len : Nat} (h : len < 4096) :
    (cantpFfLenGet (ffFrame data len)).toNat = len := by
  have hh : (ffFrame data len).ffLenH.toNat = len / 256 := by
    have hlow := (byte_zero_eq 1 (len / 256) (by omega)
      (UInt8.ofNat (len % 256) :: slice data 0 ffNumDataBytes)).2
    rw [show (ffFrame data len).ffLenH = UInt8.ofNat (len / 256 % 16) from hlow,
      UInt8.toNat_ofNat']
    omega
  have hl : (ffFrame data len).ffLenL.toNat = len % 256 := by
    rw [CantpFrame.ffLenL, ffFrame, CantpFrame.byte_ofList _ _ (by omega)]
    simp
  have hor : (len / 256) <<< 8 ||| len % 256 = len := by
    rw [← Nat.shiftLeft_add_eq_or_of_lt (by omega), Nat.shiftLeft_eq]
    omega
  rw [cantpFfLenGet, UInt16.toNat_or, UInt16.toNat_shiftLeft, UInt8.toNat_toUInt16,
    UInt8.toNat_toUInt16, hh, hl]
  simp only [UInt16.reduceToNat, Nat.reduceMod]
  rw [Nat.mod_eq_of_lt (by rw [Nat.shiftLeft_eq]; omega), hor]

/-- The first `n` bytes of the buffer are those of the message, which it can hold. -/
def Holds (msg : List UInt8) (n : Nat) (data : Option (List UInt8)) : Prop :=
  ∃ d, data = some d ∧ msg.length ≤ d.length ∧ d.take n = msg.take n

theorem map_cfD_cfAt (msg : List UInt8) (i : Nat) :
    (List.range (min cfNumDataBytes (msg.length - cfStart i))).map
      (cfAt msg msg.length i).cfD = slice msg (cfStart i) cfNumDataBytes := by
  apply List.ext_getElem?
  intro j
  rw [cfAt, List.take_length, List.getElem?_map, getElem?_slice]
  by_cases hj : j < min cfNumDataBytes (msg.length - cfStart i)
  · have hlen : cfStart i + j < msg.length := by omega
    rw [List.getElem?_range hj, if_pos (by omega), Option.map_some,
      cfD_cfFrame _ _ _ (by omega), getD_slice, if_pos (by omega),
      List.getElem?_eq_getElem hlen, List.getD_eq_getElem?_getD,
      List.getElem?_eq_getElem hlen]
    rfl
  · rw [List.getElem?_eq_none (by simpa using not_lt.mp hj), Option.map_none]
    by_cases hj7 : j < cfNumDataBytes
    · rw [if_pos hj7, List.getElem?_eq_none (by omega)]
    · rw [if_neg hj7]

theorem map_ffD_ffFrame (msg : List UInt8) (len : Nat) (h : ffNumDataBytes ≤ msg.length) :
    (List.range ffNumDataBytes).map (ffFrame msg len).ffD = slice msg 0 ffNumDataBytes := by
  apply List.ext_getElem?
  intro j
  rw [List.getElem?_map, getElem?_slice, Nat.zero_add]
  by_cases hj : j < ffNumDataBytes
  · rw [List.getElem?_range hj, if_pos hj, Option.map_some, ffD_ffFrame _ _ _ hj,
      List.getD_eq_getElem?_getD, List.getElem?_eq_getElem (by omega)]
    rfl
  · rw [List.getElem?_eq_none (by simpa using not_lt.mp hj), Option.map_none, if_neg hj]

theorem Reception.holds_storeCf {id : UInt32} {msg : List UInt8} {arrivals taken : Nat}
    {s : RcvrState} (h : Reception id msg.length arrivals taken s)
    (hlt : taken < numCfs msg.length) (hbuf : Holds msg (cfStart taken) s.data) :
    Holds msg (min (cfStart (taken + 1)) msg.length)
      (s.storeCf (cfAt msg msg.length taken)).data := by
  obtain ⟨d, hd, hlen, htake⟩ := hbuf
  have hstart := (lt_numCfs_iff _ _).mp hlt
  have hstored : (s.storeCf (cfAt msg msg.length taken)).data =
      some (overwrite d (cfStart taken) (slice msg (cfStart taken) cfNumDataBytes)) := by
    rw [RcvrState.storeCf, hd, RcvrState.storeLen, h.len_eq, h.index_eq, map_cfD_cfAt]
    rfl
  refine ⟨_, hstored, by rwa [length_overwrite], ?_⟩
  rw [cfStart_succ, take_overwrite_slice htake hlen hstart.le, ← List.take_take,
    List.take_length]

/-- The reception of `msg`, without a rejected frame so far. -/
structure Filling (id : UInt32) (msg : List UInt8) (taken : Nat) (s : RcvrState) : Prop
    extends Reception id msg.length taken taken s where
  holds : Holds msg (cfStart taken) s.data

/-- The message is complete in the buffer. -/
structure Complete (msg : List UInt8) (s : RcvrState) : Prop where
  state : s.state = .txDone
  len_eq : s.len.toNat = msg.length
  holds : Holds msg msg.length s.data

section Filling

variable {id : UInt32} {msg : List UInt8} {taken : Nat} {c : CantpRxtxStatus} {r : RxFrame}

theorem hits_cfAt {len : Nat} (hf : r.frame = cfAt msg len taken) (arrivals : Nat) :
    r.Hits arrivals ↔ taken % 16 = arrivals % 16 := by
  rw [RxFrame.Hits, hf, cfAt, cfSn_cfFrame, UInt8.toNat_ofNat']
  omega

theorem Reception.deliveries_take {len arrivals : Nat}
    (h : Reception id len arrivals taken c.rcvr) (hr : r.IsCf id) (hhit : r.Hits arrivals)
    (hlt : taken + 1 < numCfs len) : deliveries (canTp.step c (.canrxCb r)).2 = [] := by
  obtain ⟨acts, hlog, hacts⟩ := (h.take hr hhit hlt).1.log
  have hprint : ∀ l, deliveries (.printCantpFrame r.frame :: l) = deliveries l := fun _ => rfl
  rw [canTp_step, hlog, List.cons_append, hprint, deliveries_append, deliveries_cfWrites,
    deliveries_of_await hacts, List.append_nil]

theorem Filling.next (h : Filling id msg taken c.rcvr) (hr : r.IsCf id)
    (hf : r.frame = cfAt msg msg.length taken) (hlt : taken + 1 < numCfs msg.length) :
    Filling id msg (taken + 1) (canTp.step c (.canrxCb r)).1.rcvr ∧
      deliveries (canTp.step c (.canrxCb r)).2 = [] := by
  have hhit := (hits_cfAt hf taken).mpr rfl
  obtain ⟨hawait, hrec⟩ := h.toReception.take hr hhit hlt
  have hnext := (lt_numCfs_iff _ _).mp hlt
  refine ⟨⟨hrec, ?_⟩, h.toReception.deliveries_take hr hhit hlt⟩
  obtain ⟨wft, t, hs⟩ := hawait.rcvr
  have hholds := h.toReception.holds_storeCf (by omega) h.holds
  rw [min_eq_left hnext.le, ← hf] at hholds
  rw [canTp_step, hs]
  exact hholds

theorem Filling.last (h : Filling id msg taken c.rcvr) (hr : r.IsCf id)
    (hf : r.frame = cfAt msg msg.length taken) (hlast : taken + 1 = numCfs msg.length) :
    Complete msg (canTp.step c (.canrxCb r)).1.rcvr ∧
      deliveries (canTp.step c (.canrxCb r)).2 = [⟨c.params.id, c.params.idt,
        (canTp.step c (.canrxCb r)).1.rcvr.data, UInt8.ofNat msg.length⟩] := by
  have hend := le_cfStart_numCfs msg.length
  rw [h.toReception.last hr ((hits_cfAt hf taken).mpr rfl) hlast]
  constructor
  · refine ⟨rfl, h.len_eq, ?_⟩
    have hholds := h.toReception.holds_storeCf (by omega) h.holds
    rw [hlast, min_eq_right hend, ← hf] at hholds
    exact hholds
  · have hlen : c.rcvr.len.toUInt8 = UInt8.ofNat msg.length := by
      apply UInt8.toNat_inj.mp
      rw [UInt16.toNat_toUInt8, h.len_eq, UInt8.toNat_ofNat']
    have hprint : ∀ l, deliveries (.printCantpFrame r.frame :: l) = deliveries l := fun _ => rfl
    rw [hprint, deliveries_append, deliveries_cfWrites, hlen]
    rfl

theorem Reception.deliveries_reject {len arrivals : Nat}
    (h : Reception id len arrivals taken c.rcvr) (hr : r.IsCf id)
    (hnot : ¬ (r.Hits arrivals ∧ taken < numCfs len)) :
    deliveries (canTp.step c (.canrxCb r)).2 = [] ∧
      Reception id len (arrivals + 1) taken (canTp.step c (.canrxCb r)).1.rcvr := by
  obtain ⟨hstep, hnext⟩ := h.reject hr hnot
  rw [hstep]
  exact ⟨rfl, hnext⟩

/-- What the Consecutive Frame `i` of `msg` leads to in a reception, when it comes in less
than sixteen places away from its own. The reception stays without a rejected frame only if
this one is in its place. -/
inductive Arrives (id : UInt32) (msg : List UInt8) (arrivals taken i : Nat)
    (c : CantpRxtxStatus) (p : CantpRxtxStatus × List Act) : Prop
  | complete (hi : i = arrivals) (htaken : taken = arrivals)
      (hlast : arrivals + 1 = numCfs msg.length) (hall : Complete msg p.1.rcvr)
      (hout : deliveries p.2 = [⟨c.params.id, c.params.idt, p.1.rcvr.data,
        UInt8.ofNat msg.length⟩])
  | fills (hi : i = arrivals) (htaken : taken = arrivals)
      (hfill : Filling id msg (arrivals + 1) p.1.rcvr) (hout : deliveries p.2 = [])
  | apart {taken' : Nat} (hoff : ¬ (i = arrivals ∧ taken = arrivals))
      (hrec : Reception id msg.length (arrivals + 1) taken' p.1.rcvr)
      (hlt : taken' < arrivals + 1) (hout : deliveries p.2 = [])

/-- Fewer than sixteen places apart, two frames with the same number are in the same
place. -/
theorem Reception.arrives {arrivals i : Nat}
    (h : Reception id msg.length arrivals taken c.rcvr) (hle : taken ≤ arrivals)
    (hfill : taken = arrivals → Filling id msg taken c.rcvr) (hr : r.IsCf id)
    (hf : r.frame = cfAt msg msg.length i) (hi : i < numCfs msg.length)
    (hnear : i < arrivals + 16 ∧ arrivals < i + 16) :
    Arrives id msg arrivals taken i c (canTp.step c (.canrxCb r)) := by
  by_cases hplace : i = arrivals ∧ taken = arrivals
  · obtain ⟨rfl, rfl⟩ := hplace
    have hfilling := hfill rfl
    by_cases hlast : taken + 1 = numCfs msg.length
    · obtain ⟨hall, hout⟩ := hfilling.last hr hf hlast
      exact .complete rfl rfl hlast hall hout
    · obtain ⟨hnext, hout⟩ := hfilling.next hr hf (by omega)
      exact .fills rfl rfl hnext hout
  · by_cases htake : r.Hits arrivals ∧ taken < numCfs msg.length
    · have hmod := (hits_cfAt hf arrivals).mp htake.1
      exact .apart hplace (h.take hr htake.1 (by omega)).2 (by omega)
        (h.deliveries_take hr htake.1 (by omega))
    · obtain ⟨hout, hrec⟩ := h.deliveries_reject hr htake
      exact .apart hplace hrec (by omega) hout

theorem filling_accepted {s : RcvrState} {buf : List UInt8} (hsn : s.sn = 0)
    (hf : r.frame = ffFrame msg msg.length) (hshort : msg.length < 4096)
    (hlong : sfNumDataBytes < msg.length) (hbuf : msg.length ≤ buf.length) :
    Filling r.id msg 0 (s.accepted r buf) := by
  unfold sfNumDataBytes at hlong
  have hlen : (cantpFfLenGet r.frame).toNat = msg.length := by
    rw [hf, cantpFfLenGet_ffFrame msg hshort]
  have hrec := reception_accepted hsn r buf
  rw [hlen] at hrec
  refine ⟨hrec, overwrite buf 0 ((List.range ffNumDataBytes).map r.frame.ffD), rfl,
    by rwa [length_overwrite], ?_⟩
  have hnil : buf.take 0 = msg.take 0 := rfl
  have htake := @take_overwrite_slice _ _ _ 0 ffNumDataBytes hnil hbuf (Nat.zero_le _)
  rw [min_eq_left (by rw [ffNumDataBytes]; omega), Nat.zero_add] at htake
  rw [hf, map_ffD_ffFrame msg _ (by rw [ffNumDataBytes]; omega)]
  exact htake

end Filling

/-! ### The First Frame of a message -/

/-- The session layer accepts the First Frame `r` with a buffer that can hold the
announced length, when it finds the buffer `data` in the context. -/
def RxFrame.SessionAccepts (r : RxFrame) (data : Option (List UInt8)) : Prop :=
  0 ≤ (r.ffAnswer data).1 ∧
    ∃ buf, (r.ffAnswer data).2 = some buf ∧ (cantpFfLenGet r.frame).toNat ≤ buf.length

theorem deliveries_ffLog (r : RxFrame) (c : CantpRxtxStatus) {acts : List Act}
    (h : ∀ a ∈ acts, a.IsAwait r.env) :
    deliveries (ffLog r ⟨c, [.printCantpFrame r.frame]⟩ ++ acts) = [] := by
  rw [deliveries_append, deliveries_of_await h, List.append_nil]
  rfl

theorem RxFrame.SessionAccepts.begins {msg : List UInt8} {c : CantpRxtxStatus} {r : RxFrame}
    (h : r.SessionAccepts c.rcvr.data) (hidle : c.rcvr.state = .idle) (hsn : c.rcvr.sn = 0)
    (hf : r.frame = ffFrame msg msg.length) (hlong : sfNumDataBytes < msg.length)
    (hshort : msg.length < 4096) :
    Filling r.id msg 0 (canTp.step c (.canrxCb r)).1.rcvr ∧
      deliveries (canTp.step c (.canrxCb r)).2 = [] := by
  obtain ⟨hok, buf, hbuf, hlen⟩ := h
  have hacc : r.FfAccepted c.rcvr.data buf := ⟨pci_of_ffFrame hf, hok, hbuf⟩
  rw [hf, cantpFfLenGet_ffFrame msg hshort] at hlen
  rw [hacc.step hidle]
  exact ⟨filling_accepted hsn hf hshort hlong hlen,
    deliveries_ffLog r c fun _ ha => isAwait_fcActs ha⟩

theorem sessionAccepts_accepting (id : UInt32) (idt : UInt8) (f : CantpFrame)
    (data : Option (List UInt8)) :
    (RxFrame.ofFrame .accepting id idt f).SessionAccepts data :=
  ⟨Int.le_refl 0, _, rfl, by rw [List.length_replicate]⟩

end CanTp
