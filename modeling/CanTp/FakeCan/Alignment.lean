import CanTp.FakeCan.Node
import CanTp.Link.Calls
import CanTp.Link.Confluence

/-!
# An exchange over the pipes

Neither process of the test looks at what it reads. The wait for the end of a transmission
takes any byte for the acknowledgement, and `fake_can_rx_task` takes any 14 bytes for a
frame. `Aligned` is why this does no harm in an exchange: whatever the order of the steps,
a process that waits finds an acknowledgement at the head of its pipe, and a process that
receives finds a whole frame there.
-/

namespace CanTp

open Library

/-- The two processes of the test, the sender on the left, and the pipes. -/
abbrev FakeLink := Piped FakeCanNode FakeCanNode UInt8

/-- The byte that acknowledges a frame. -/
def ackByte : UInt8 := CandrvFrameType.ack.toUInt8

/-- The bytes of a frame on a pipe. -/
def CantpCanFrame.wire (f : CantpCanFrame) : List UInt8 :=
  ((FakeCanPhy.ofList []).put f).u8.toList

section Wire

variable (f : CantpCanFrame)

theorem CantpCanFrame.wire_eq (p : FakeCanPhy) : (p.put f).u8.toList = f.wire :=
  congrArg (fun p => p.u8.toList) (FakeCanPhy.put_eq_put p _ f)

@[simp] theorem CantpCanFrame.length_wire : f.wire.length = 14 := by
  rw [wire, Vector.length_toList]

theorem CantpCanFrame.get_wire (h : f.id < FakeCanPhy.idBound) :
    (FakeCanPhy.ofList f.wire).get = f := by
  rw [wire, FakeCanPhy.ofList_toList]
  exact (FakeCanPhy.get_put_eq_iff _ f).mpr h

end Wire

namespace FakeCanNode

variable (n : FakeCanNode) (f : CantpCanFrame)

theorem transmit_nil : n.transmit [] = ({ n with stage := .receiving }, []) := rfl

theorem transmit_single (nb : Bool) : n.transmit [⟨nb, f⟩] =
    ({ n with canFrame := n.canFrame.put f, stage := .waiting nb [] }, f.wire) := by
  rw [transmit, f.wire_eq]

end FakeCanNode

/-! ### The frames that a handler transmits -/

theorem fakeCanTx_of_sndr {acts : List Act} (h : ∀ a ∈ acts, a.ofRcvr = false) :
    acts.filterMap Act.fakeCanTx = (acts.filterMap Act.dataFrame).map (.mk true) := by
  rw [List.map_filterMap]
  refine List.filterMap_congr fun a ha => ?_
  have hrole := h a ha
  cases a <;> first | rfl | cases hrole

theorem fakeCanTx_of_rcvr {acts : List Act} (h : ∀ a ∈ acts, a.onlySndr = false) :
    acts.filterMap Act.fakeCanTx = (acts.filterMap Act.fcFrame).map (.mk false) := by
  rw [List.map_filterMap]
  refine List.filterMap_congr fun a ha => ?_
  have hrole := h a ha
  cases a <;> first | rfl | cases hrole

namespace Exchange

variable (x : Exchange)

theorem acked_transmits (n : Nat) (log : List Act) : 0 ≤ (x.rcvrEnv n).acked.canTx log :=
  Int.le_refl 0

/-- The exchange over a link layer that has every frame acknowledged. -/
def acked : Exchange :=
  { x with
    sndrEnv := fun n => (x.sndrEnv n).acked
    rcvrEnv := fun n => (x.rcvrEnv n).acked
    transmits := acked_transmits x }

/-- `cantp_send` in the process of the sender, and a receiver in `fake_can_rx_task`. -/
def fakeStart : FakeLink :=
  let p := (FakeCanNode.fresh (.fresh x.sndrParams)).handles
    (.send x.id x.idt x.msg (UInt16.ofNat x.msg.length))
  let q := p.1.transmit p.2
  ⟨q.1, .fresh (.fresh x.rcvrParams), q.2, []⟩

/-- One of the two processes acts. -/
def FakeStep : FakeLink → FakeLink → Prop :=
  Piped.Step (fakeCan x.sndrEnv) (fakeCan x.rcvrEnv)

/-- The states of the two processes in the runs of the exchange. -/
def FakeReached (s : FakeLink) : Prop := Relation.ReflTransGen x.FakeStep x.fakeStart s

/-- The ids that the bit field of the link layer holds. -/
structure IdsFit : Prop where
  sndr : x.id < FakeCanPhy.idBound
  rcvr : x.rcvrParams.id < FakeCanPhy.idBound

/-- The bytes of frame `i` of the message. -/
def wire (i : Nat) : List UInt8 := (x.frames[i]?.map CantpCanFrame.wire).getD []

variable {x} in
theorem wire_eq {i : Nat} {f : CantpCanFrame} (h : x.frames[i]? = some f) :
    x.wire i = f.wire := by
  rw [wire, h, Option.map_some, Option.getD_some]

variable {x} in
theorem id_of_frame {i : Nat} {f : CantpCanFrame} (h : x.frames[i]? = some f) :
    f.id = x.id := by
  rw [frames, List.getElem?_map] at h
  obtain ⟨g, -, rfl⟩ := Option.map_eq_some_iff.mp h
  rfl

/-- Where the sender stands: `n` frames are sent, `c` of them confirmed, `u` Flow Control
frames read and `a` of them handled. -/
inductive SndrStage (n c u a : Nat) : FakeCanStage → Prop
  | receiving (hn : n = c) (hu : u = a) : SndrStage n c u a .receiving
  | indicating (hn : n = c) (hu : u = a + 1) : SndrStage n c u a (.indicating x.fc)
  | waiting (hn : n = c + 1) (hu : u = a) : SndrStage n c u a (.waiting true [])

/-- Where the receiver stands: `g` Flow Control frames are sent, `v` of them acknowledged,
`q` frames read and `r` of them handled. -/
inductive RcvrStage (g v q r : Nat) : FakeCanStage → Prop
  | receiving (hg : g = v) (hq : q = r) : RcvrStage g v q r .receiving
  | indicating {f : CantpCanFrame} (hg : g = v) (hq : q = r + 1) (hf : x.frames[r]? = some f) :
      RcvrStage g v q r (.indicating f)
  | waiting (hg : g = v + 1) (hq : q = r) : RcvrStage g v q r (.waiting false [])

/-- The two processes are where the link `l` is, when `q` frames and `u` Flow Control
frames have been read and `v` Flow Control frames acknowledged. What is not read yet is in
the pipes. -/
structure Aligned (s : FakeLink) (l : Link) (q u v : Nat) : Prop where
  inv : x.acked.Inv l
  left : s.left.ctx = l.sndr ∧ s.left.out = l.sndrOut ∧ s.left.frames = l.counters.answered
  right : s.right.ctx = l.rcvr ∧ s.right.out = l.rcvrOut ∧ s.right.frames = l.counters.received
  sndr : x.SndrStage l.sent.length l.counters.confirmed u l.counters.answered s.left.stage
  rcvr : x.RcvrStage l.fcs.length v q l.counters.received s.right.stage
  confirmed_le : l.counters.confirmed ≤ q
  read_le : q ≤ l.sent.length
  acked_le : v ≤ u
  answered_le : u ≤ l.fcs.length
  down_eq : s.down = (if v < u then [ackByte] else []) ++
    if q < l.sent.length then x.wire q else []
  up_eq : s.up = (if l.counters.confirmed < q then [ackByte] else []) ++
    if u < l.fcs.length then x.fc.wire else []

/-! ### What the handlers transmit -/

variable {x} {l l' : Link} {acts : List Act}

/-- The calls of a sender that confirms or takes a Flow Control frame hand over the next
frame or none. -/
theorem sent_of_acts (h' : x.acked.Inv l')
    (hout : l'.sndrOut = l.sndrOut ++ acts) (hrole : ∀ a ∈ acts, a.ofRcvr = false)
    (hone : l'.sent.length ≤ l.sent.length + 1) :
    acts.filterMap Act.fakeCanTx = [] ∧ l'.sent.length = l.sent.length ∨
      ∃ f, acts.filterMap Act.fakeCanTx = [⟨true, f⟩] ∧
        l'.sent.length = l.sent.length + 1 ∧ x.frames[l.sent.length]? = some f := by
  have hsent : l'.sent = l.sent ++ acts.filterMap Act.dataFrame := by
    rw [Link.sent, hout, List.filterMap_append]
    rfl
  rw [fakeCanTx_of_sndr hrole]
  rw [hsent, List.length_append] at hone ⊢
  rcases hacts : acts.filterMap Act.dataFrame with _ | ⟨f, _ | ⟨g, fs⟩⟩
  · exact .inl ⟨rfl, rfl⟩
  · refine .inr ⟨f, rfl, rfl, ?_⟩
    have hget : l'.sent[l.sent.length]? = some f := by
      rw [hsent, hacts, List.getElem?_concat_length]
    rw [Link.sent, h'.sndr.sent, List.getElem?_take] at hget
    exact (Option.ite_none_right_eq_some.mp hget).2
  · rw [hacts, List.length_cons, List.length_cons] at hone
    omega

theorem fcs_of_acts (h : x.acked.Inv l) (h' : x.acked.Inv l')
    (hfcs : l'.fcs = l.fcs ++ (acts.filterMap Act.fcFrame).map fun g => (l'.counters.received, g))
    (hr : l'.counters.received = l.counters.received + 1)
    (hrole : ∀ a ∈ acts, a.onlySndr = false) :
    acts.filterMap Act.fakeCanTx = [] ∧ l'.fcs.length = l.fcs.length ∨
      acts.filterMap Act.fakeCanTx = [⟨false, x.fc⟩] ∧
        l'.fcs.length = l.fcs.length + 1 := by
  have hone : l'.fcs.length ≤ l.fcs.length + 1 := by
    rw [h'.rcvr.fcs_eq, h.rcvr.fcs_eq, List.length_map, List.length_map, hr]
    exact x.halfDuplex.answers_le _
  rw [fakeCanTx_of_rcvr hrole]
  rw [hfcs, List.length_append, List.length_map] at hone ⊢
  rcases hacts : acts.filterMap Act.fcFrame with _ | ⟨f, _ | ⟨g, fs⟩⟩
  · exact .inl ⟨rfl, rfl⟩
  · have hget : l'.fcs[l.fcs.length]? = some (l'.counters.received, f) := by
      rw [hfcs, hacts, List.map_singleton, List.getElem?_concat_length]
    obtain rfl : f = x.fc := (h'.getElem?_fcs hget).2
    exact .inr ⟨rfl, rfl⟩
  · rw [hacts, List.length_cons, List.length_cons] at hone
    omega

end Exchange

end CanTp
