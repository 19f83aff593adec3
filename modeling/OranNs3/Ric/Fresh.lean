import OranNs3.Ric.Commands
import OranNs3.Ric.Spec

/-!
# Freshness of the forwarded commands

`ProcessLmQueryCommands` is documented to process the commands received for this query cycle. The
RIC does not forget commands at the start of a cycle: `QueryLms` moves `m_lmQueryCycle` and leaves
`m_lmQueryCommands` as it is. A query that finds commands of an earlier cycle there makes them
commands of the new one; when no query does, every command is forwarded in the cycle it was made for
(`forwarded_fresh`).
-/

namespace OranNs3

namespace RicWorld

variable {w w' : RicWorld} {i : LmId}

/-- Every command handed to the E2 terminator was made by a run started for the cycle of the RIC at
the moment of processing. -/
def Fresh (w : RicWorld) : Prop := ∀ b ∈ w.forwarded, ∀ c ∈ b.commands, c.cycle = b.cycle

/-- The collected commands are of the current cycle. -/
def Current (w : RicWorld) : Prop :=
  ∀ c ∈ filterNoop w.ric.lmQueryCommands, c.cycle = w.ric.lmQueryCycle

/-- A query of a new cycle finds no collected commands. -/
def QueriesEmpty (w : RicWorld) (a : RicAction) : Prop :=
  ∀ t ∈ w.queryTime? a, t = w.ric.lmQueryCycle ∨ filterNoop w.ric.lmQueryCommands = []
deriving Decidable

theorem Fresh.processed (hc : w.Current) (hf : w.Fresh) (h : Processed w w') :
    w'.Current ∧ w'.Fresh := by
  constructor
  · intro c hm
    rw [h.ric] at hm
    cases hm
  · intro b hb c hm
    rw [h.forwarded] at hb
    rcases List.mem_append.1 hb with hb | hb
    · exact hf b hb c hm
    · rw [List.mem_singleton.1 hb] at hm ⊢
      exact hc c hm

/-- The commands of a completed run are of the current cycle, so they keep the collected ones
current. -/
theorem Current.collectCommands (hc : w.Current) {cs : List Command}
    (hcs : ∀ c ∈ cs, c.cycle = w.ric.lmQueryCycle) : (w.collectCommands cs i).Current := by
  have happ : ∀ c ∈ filterNoop (appendSlot (clearSlot w.ric.lmQueryCommands (w.lmKey i))
      (w.lmKey i) cs), c.cycle = w.ric.lmQueryCycle := by
    intro c hm
    rcases mem_of_mem_collect hm with hm | hm
    · exact hcs c hm
    · exact hc c hm
  rcases collectCommands_cases w cs i with ⟨-, h⟩ | ⟨-, -, h⟩ | ⟨-, -, h⟩
  · rw [h]
    exact happ
  · rw [h]
    exact fun c hm => hc c (mem_of_mem_clearSlot hm)
  · rw [h]
    exact happ

theorem Fresh.finishRun (hw : w.Wf) (hc : w.Current) (hf : w.Fresh) (ha : (w.lms i).active = true)
    (h : w.finishRun i = .ok w') : w'.Current ∧ w'.Fresh := by
  obtain ⟨hcyc, w₁, h1, h2⟩ := finishRun_ok ha h
  have hc₁ : w₁.Current := by
    rw [← h1]
    exact hc.collectCommands fun c hm => ((hw.stamped i c hm).2).trans hcyc
  have hf₁ : w₁.Fresh := by
    obtain ⟨m, late, hfr⟩ := collectCommands_frame w (w.lms i).commands i
    rw [← h1, hfr]
    exact hf
  rcases h2 with ⟨-, -, rfl⟩ | ⟨-, rfl⟩
  · cases ha₁ : w₁.ric.active with
    | true =>
      obtain ⟨hc₂, hf₂⟩ := Fresh.processed hc₁ hf₁ (processLmQueryCommands_active ha₁)
      exact ⟨hc₂, hf₂⟩
    | false =>
      rw [processLmQueryCommands_inactive ha₁]
      exact ⟨hc₁, hf₁⟩
  · exact ⟨hc₁, hf₁⟩

/-- A step that starts no query over collected commands keeps them current and the forwarded ones
fresh. -/
theorem Fresh.step {a : RicAction} (hw : w.Wf) (hc : w.Current) (hf : w.Fresh)
    (hok : QueriesEmpty w a) (h : Step w a w') : w'.Current ∧ w'.Fresh := by
  cases h.kind hw with
  | neutral _ h =>
    unfold Current Fresh
    rw [h.commands, h.lmQueryCycle, h.forwarded]
    exact ⟨hc, hf⟩
  | query q _ _ _ ht _ h =>
    unfold Current Fresh
    rw [h.commands, h.lmQueryCycle, h.forwarded]
    refine ⟨fun c hm => ?_, hf⟩
    rcases hok _ ht with heq | hnil
    · exact (hc c hm).trans heq.symm
    · change c ∈ filterNoop w.ric.lmQueryCommands at hm
      rw [hnil] at hm
      cases hm
  | finish q i huid hq _ _ ha _ h =>
    have hw' := hw.of_lmFrame (Neutral.trim huid hq).lmFrame
    exact Fresh.finishRun (w := { w with sim := q }) hw' hc hf ha h
  | process q e n _ _ _ _ _ h =>
    exact Fresh.processed (w := { w with sim := q }) hc hf h

/-- In every run whose queries find no commands of an earlier cycle, every forwarded command was
made for the cycle in which it is forwarded. -/
theorem forwarded_fresh (cfg : RicConfig) (names : LmId → String) (d : LmId) (adds : List LmId)
    (w : RicWorld) (h : Lts.Run Step QueriesEmpty (init cfg names d adds) w) :
    ∀ b ∈ w.forwarded, ∀ c ∈ b.commands, c.cycle = b.cycle := by
  have h0 : (init cfg names d adds).Wf ∧ (init cfg names d adds).Current ∧
      (init cfg names d adds).Fresh := ⟨wf_init cfg names d adds, nofun, nofun⟩
  exact (Lts.Run.invariant (I := fun w => w.Wf ∧ w.Current ∧ w.Fresh)
    (fun hi hok hst => ⟨hi.1.step hst, Fresh.step hi.1 hi.2.1 hi.2.2 hok hst⟩) h0 h).2.2

/-! ## Runs on concrete inputs -/

/-- The names of the logic modules of the runs below. -/
def exampleNames : LmId → String
  | 0 => "D"
  | _ => "A"

/-- A query interval of a millisecond, no maximum waiting time, and late commands dropped. -/
def dropConfig : RicConfig := ⟨1000000, Nat.le.refl, 0, .drop⟩

/-- The runs of the modules `l` are over at once, each with a command for `target`; a run of another
module takes one and a half milliseconds. -/
def quick (l : List LmId) (target : Nat) : RicInput :=
  ⟨fun i => if i ∈ l then ⟨0, [target]⟩ else ⟨1500000, []⟩, 1000000000⟩

/-- Both modules finish in the cycle of their query. -/
theorem forwarded_fresh_example : ∃ w : RicWorld,
    w.forwarded = [⟨1, 1000000, [⟨7, 1, 1000000⟩, ⟨7, 0, 1000000⟩]⟩] ∧
    ∀ b ∈ w.forwarded, ∀ c ∈ b.commands, c.cycle = b.cycle := by
  have hx : (Lts.execs QueriesEmpty step? (init dropConfig exampleNames 0 [1])
      [.start 0 (quick [] 0), .fire (quick [0, 1] 7), .fire (quick [] 0), .fire (quick [] 0)]).map
      (·.forwarded) = some [⟨1, 1000000, [⟨7, 1, 1000000⟩, ⟨7, 0, 1000000⟩]⟩] := by decide
  obtain ⟨w, hw, hf⟩ := Option.map_eq_some_iff.1 hx
  exact ⟨w, hf, forwarded_fresh dropConfig exampleNames 0 [1] w (Lts.run_of_execs step_of_step? hw)⟩

/-- The default module finishes in the first cycle and the additional one in the second; with the
second, the command of the first cycle is forwarded. -/
theorem forwarded_stale : ¬ ∀ (cfg : RicConfig) (names : LmId → String) (d : LmId)
    (adds : List LmId) (w : RicWorld), cfg.lmQueryLateCommandPolicy = .drop →
    Lts.Run Step Lts.anyStep (init cfg names d adds) w →
    ∀ b ∈ w.forwarded, ∀ c ∈ b.commands, c.cycle = b.cycle := by
  intro h
  have hx : (Lts.execs Lts.anyStep step? (init dropConfig exampleNames 0 [1])
      [.start 0 (quick [] 0), .fire (quick [0] 7), .fire (quick [] 0), .fire (quick [1] 8),
        .fire (quick [] 0)]).map (·.forwarded) =
      some [⟨2, 2000000, [⟨8, 3, 2000000⟩, ⟨7, 0, 1000000⟩]⟩] := by decide
  obtain ⟨w, hw, hf⟩ := Option.map_eq_some_iff.1 hx
  have := h dropConfig exampleNames 0 [1] w rfl (Lts.run_of_execs step_of_step? hw)
  rw [hf] at this
  exact absurd (this _ (List.mem_singleton.2 rfl) ⟨7, 0, 1000000⟩ (by decide)) (by decide)

end RicWorld

end OranNs3
