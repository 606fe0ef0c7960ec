import CanTp.Link.Runs

/-!
# End-to-end delivery

Without block flow control every run of an exchange ends with the whole message in the
buffer of the receiver, one call of `cantp_received_cb` and one report of success. What
does not fit is the length argument of that call, a byte.
-/

namespace CanTp

open Library

namespace Exchange

variable {x : Exchange} {l : Link}

/-- The message has been transferred: `cantp_received_cb` was called once, with the
length and the bytes of the message, and the sender is idle and has reported success
once. -/
structure Transferred (x : Exchange) (l : Link) : Prop where
  received : ∃ d buf, deliveries l.rcvrOut = [d] ∧ d.len.toNat = x.msg.length ∧
    d.data = some buf ∧ buf.take d.len.toNat = x.msg
  idle : l.sndr.sndr.state = .idle
  reports : reportsMade l.sndrOut = [x.success]

theorem limit_of_blockSize_zero (h : x.rcvrParams.blockSize = 0) : x.limit = x.total := by
  rw [limit, blockSize, h]
  rfl

theorem Inv.delivered (h : x.Inv l) (hr : x.frames.length ≤ l.counters.received) :
    ∃ d, deliveries l.rcvrOut = [d] ∧ d.Carries x.msg := by
  have hd := h.rcvr.deliveries
  rwa [if_neg (not_lt.mpr hr)] at hd

/-- Without blocks, a run ends when all frames are received and the sender is idle. -/
theorem Inv.final_of_blockSize_zero (h : x.Inv l) (hfin : Final x.Step l)
    (hbs : x.rcvrParams.blockSize = 0) :
    x.frames.length ≤ l.counters.received ∧
      x.phase l.counters.confirmed l.counters.answered = .idle := by
  by_cases hlong : sfNumDataBytes < x.msg.length
  · obtain ⟨hr, hc, ha⟩ := h.final_segmented hfin hlong
    have hlim := limit_of_blockSize_zero hbs
    rw [length_frames hlong, hr, hc, phase_end hlong ha (Nat.lt_succ_self _), if_pos hlim, hlim]
    exact ⟨Nat.le_refl _, rfl⟩
  · have hshort := not_lt.mp hlong
    obtain ⟨hr, hc⟩ := h.final_single hfin hshort
    rw [hr, hc, frames, canonicalFrames, if_pos hshort, phase, if_pos hshort]
    exact ⟨Nat.le_refl 1, rfl⟩

theorem length_le_of_ends (hbs : x.rcvrParams.blockSize = 0)
    (h : Ends x.Step x.start x.Transferred) : x.msg.length ≤ 255 := by
  obtain ⟨l, hreached, hfin⟩ := x.exists_final
  have hinv := inv_reached hreached
  obtain ⟨d, hd, hlen, -⟩ := hinv.delivered (hinv.final_of_blockSize_zero hfin hbs).1
  obtain ⟨d', buf, hd', hlen', -⟩ := (h.final l hreached hfin).received
  obtain rfl := List.singleton_inj.mp (hd.symm.trans hd')
  rw [hlen, UInt8.toNat_ofNat'] at hlen'
  omega

/-- Without block flow control a message is transferred, in every run, exactly if its
length fits into the length argument of `cantp_received_cb`. -/
theorem transferred_iff (x : Exchange) (hbs : x.rcvrParams.blockSize = 0) :
    Ends x.Step x.start x.Transferred ↔ x.msg.length ≤ 255 := by
  constructor
  · exact length_le_of_ends hbs
  · intro hle
    apply ends
    intro l hinv hfin
    obtain ⟨hr, hidle⟩ := hinv.final_of_blockSize_zero hfin hbs
    obtain ⟨d, hd, hlen, buf, hbuf, htake⟩ := hinv.delivered hr
    have htoNat : d.len.toNat = x.msg.length := by
      rw [hlen, UInt8.toNat_ofNat']
      omega
    refine ⟨⟨d, buf, hd, htoNat, hbuf, by rw [htoNat, htake]⟩, ?_, ?_⟩
    · rw [hinv.sndr.phase.state_eq, hidle]
      rfl
    · rw [hinv.sndr.reports, hidle, if_pos rfl]

/-- The exchange of `msg` over an outside that accepts everything, with a receiver that
asks for blocks of `blockSize` frames. -/
def accepting (msg : List UInt8) (blockSize : UInt8) (short : msg.length < 4096) :
    Exchange where
  id := 1
  idt := 0
  msg := msg
  sndrParams := ⟨0, 0, 0, 0, 0, 0, 0, 0⟩
  rcvrParams := ⟨2, 0, blockSize, 0, 0, 0, 0, 0⟩
  sndrEnv _ := .accepting
  rcvrEnv _ := .accepting
  short := short
  noWaits := rfl
  stMin := rfl
  accepts _ := by
    refine ⟨Int.le_refl 0, _, rfl, ?_⟩
    rw [List.length_replicate, UInt16.toNat_ofNat', Nat.mod_eq_of_lt (by omega)]
  transmits _ _ := Int.le_refl 0

/-- Twenty bytes, in a First Frame and two Consecutive Frames. -/
theorem transferred_twenty :
    let x := accepting (List.replicate 20 7) 0 (by decide)
    Ends x.Step x.start x.Transferred :=
  (transferred_iff _ rfl).mpr (by decide)

/-- Of a message of 256 bytes the length argument says zero. -/
theorem not_transferred :
    let x := accepting (List.replicate 256 7) 0 (by rw [List.length_replicate]; decide)
    ¬ Ends x.Step x.start x.Transferred := fun h =>
  absurd (length_le_of_ends rfl h) (by rw [accepting, List.length_replicate]; decide)

end Exchange

end CanTp
