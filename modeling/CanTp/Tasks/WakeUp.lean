import CanTp.Tasks.System

/-!
# Lost wake-ups

The sender task sleeps in `IDLE` until a token tells it that the state has changed. A
change gives its token at once, so the task misses none by itself; but the receive task
takes tokens too, with Flow Control frames that come in when none is expected. If it
takes the last one, the sender task sleeps on while its frame goes out.
-/

namespace CanTp

open Library

/-- The sender task sleeps in `IDLE`, with no token to wake it, while a frame is sent. -/
def LostWakeUp (s : Tasks) : Prop :=
  s.sndr = .idleWait ∧ s.tokens = 0 ∧ s.ctx.sndr.state.Sending

/-- The receive task takes the last token, which was to wake the sender task. -/
def StealsLast (s : Tasks) : Move → Prop
  | .rxTake =>
      match s.rx with
      | .taking _ => s.sndr = .idleWait ∧ s.tokens = 1 ∧ s.ctx.sndr.state.Sending
      | _ => False
  | _ => False

instance (s : Tasks) : Decidable (LostWakeUp s) := inferInstanceAs (Decidable (_ ∧ _ ∧ _))

section Moves

variable {s : Tasks} {m : Move}

theorem look_not_lost (s : Tasks) :
    ¬ LostWakeUp { s with sndr := cantpSndrTaskSwitch s.ctx.sndr.state } := by
  rintro ⟨hsndr, -, hsend⟩
  rcases hsend with hst | hst | hst <;> rw [hst] at hsndr <;> cases hsndr

/-- A change of the state comes with its token, so that only a token taken by the receive
task is missing. -/
theorem MoveOutcome.stealsLast {t : Tasks} (h : MoveOutcome s m t) (hlost : ¬ LostWakeUp s)
    (hlost' : LostWakeUp t) : StealsLast s m := by
  cases h with
  | @piece m w h a x ha =>
      obtain ⟨hsndr, htokens, hsend⟩ := hlost'
      have hsleep : s.sndr = .idleWait := ha.elim (fun h => h ▸ hsndr) fun h => absurd hsndr h
      have hzero : s.tokens = 0 ∧ gives w.log = 0 := Nat.add_eq_zero_iff.mp htokens
      rcases h.given with hst | hgiven
      · exact absurd ⟨hsleep, hzero.1, hst ▸ hsend⟩ hlost
      · exact absurd hzero.2 hgiven.ne'
  | looks => exact absurd hlost' (look_not_lost s)
  | sndrTakes => cases hlost'.1
  | rxTakes r hrx htokens =>
      obtain ⟨hsndr, hnone, hsend⟩ := hlost'
      have hone : s.tokens - 1 = 0 := hnone
      rw [StealsLast, hrx]
      exact ⟨hsndr, by omega, hsend⟩

theorem StealsLast.lost (h : StealsLast s m) : LostWakeUp (tasks.step s m).1 := by
  cases m with
  | rxTake =>
      cases hrx : s.rx with
      | receiving | looking => simp [StealsLast, hrx] at h
      | taking r =>
          simp only [StealsLast, hrx] at h
          obtain ⟨hsndr, htokens, hsend⟩ := h
          simp only [tasks_step, Tasks.move, hrx, htokens]
          exact ⟨hsndr, rfl, hsend⟩
  | _ => exact h.elim

theorem move_lost_iff (m : Move) (hlost : ¬ LostWakeUp s) :
    LostWakeUp (tasks.step s m).1 ↔ StealsLast s m :=
  ⟨(move_outcome s m).stealsLast hlost, StealsLast.lost⟩

end Moves

/-- For all parameters and every order of the moves: no wake-up is lost exactly as long as
the receive task never takes the last token, with the sender task asleep and a frame on
its way. -/
theorem noLostWakeUp_iff (p : CantpParams) (ms : List Move) :
    tasks.Admits (fun s m => ¬ LostWakeUp (tasks.step s m).1) (.start p) ms ↔
      tasks.Admits (fun s m => ¬ StealsLast s m) (.start p) ms :=
  Mealy.admits_congr (P := fun s => ¬ LostWakeUp s)
    (fun _ m hlost _ => (move_lost_iff m hlost).not) (fun _ _ _ _ hnot => hnot)
    (fun h => by cases h.1)
    (Mealy.admits_of_forall (fun _ _ => trivial) _)

/-- A Flow Control frame that comes in right after a request takes the token of the
request. -/
theorem lostWakeUp :
    ¬ ∀ (p : CantpParams) (ms : List Move),
      tasks.Admits (fun s m => ¬ LostWakeUp (tasks.step s m).1) (.start p) ms := by
  intro h
  exact absurd (h ⟨0, 0, 0, 0, 0, 0, 0, 0⟩
    [.sndrLook, .request 5 0 (List.replicate 20 7) 20,
      .rxFrame (.ofFrame .accepting 9 0 (.ofList [0x30, 0, 0])), .rxTake]) (by decide)

end CanTp
