import EditHook.Proofs.Places
import EditHook.Proofs.Reporting
import EditHook.Proofs.Transcript

/-! A dispatch runs every command whose rule accepts the path, once each and in the order of
declaration, whatever comes back from them. -/

namespace EditHook

/-- The token `a` of a call that comes of the token `t` of a command when `path` is filled in. -/
def Fills (path t a : String) : Prop :=
  (t = "$@" ∧ a = path) ∨ (t ≠ "$@" ∧ a = t)

theorem filled_forall₂ (c : Command) (path : String) :
    List.Forall₂ (Fills path) c.tokens (c.filled path) := by
  rw [Command.filled, List.forall₂_map_right_iff, List.forall₂_same]
  intro t _
  by_cases ht : t = "$@"
  · exact .inl ⟨ht, if_pos ht⟩
  · exact .inr ⟨ht, if_neg ht⟩

/-- A step whose call is the command of its selection, filled from `file`, in the directory of its
root. -/
structure Step.Faithful (file cwd : String) (x : Step) : Prop where
  argv : List.Forall₂ (Fills (x.selected.root.unqualify file)) x.selected.command.tokens x.call.argv
  dir : x.call.dir = x.selected.root.directory cwd

namespace RuleTable

theorem faithful_of_mem_dispatch {t : RuleTable} {path file cwd : String} {execute : Executor σ}
    {s : σ} {x : Step} (hx : x ∈ (t.dispatch path file cwd execute s).1) :
    x.Faithful file cwd := by
  have hc := Step.call_of_mem_runAll hx
  exact ⟨by rw [hc]; exact filled_forall₂ _ _, by rw [hc]; rfl⟩

theorem dispatch_enumerated (t : RuleTable) (path file cwd : String) (execute : Executor σ)
    (s : σ) :
    ∃ places, Enumerates Place.Before (t.Matched path) places
      ((t.dispatch path file cwd execute s).1.map Step.selected) := by
  simpa only [dispatch, Step.runAll_selected] using t.select_enumerated path

theorem dispatch_runs_matched_commands (t : RuleTable) (path file cwd : String)
    (execute : Executor σ) (s : σ) :
    let steps := (t.dispatch path file cwd execute s).1
    let report := Report.ofSteps path steps
    (∃ places : List Place, places.Pairwise Place.Before ∧
      (∀ p, p ∈ places ↔ ∃ x, t.Matched path p x) ∧
      List.Forall₂ (fun p (x : Step) => t.Matched path p x.selected ∧ x.Faithful file cwd)
        places steps) ∧
    t.dispatch path file cwd execute.recording (s, []) =
      (steps, ((t.dispatch path file cwd execute s).2, steps.map (fun x => (x.call, x.outcome)))) ∧
    (∀ (τ : Type) (other : Executor τ) (u : τ),
      (t.dispatch path file cwd other u).1.map Step.call = steps.map Step.call) ∧
    report.executed = (steps.map Step.call).length ∧
    report.failures = (steps.filter (fun x => x.outcome.exitCode ≠ 0)).map
      (fun x => ⟨x.selected.root, x.selected.command, x.outcome⟩) ∧
    (report.verdict = .blocking ↔ ∃ x ∈ steps, x.outcome.exitCode ≠ 0) := by
  intro steps report
  refine ⟨?_, ?_, ?_, ?_, ?_, Report.verdict_ofSteps path steps⟩
  · obtain ⟨places, hs, hc, he⟩ := t.dispatch_enumerated path file cwd execute s
    refine ⟨places, hs, hc, ?_⟩
    rw [List.forall₂_map_right_iff, List.forall₂_iff_zip] at he
    rw [List.forall₂_iff_zip]
    exact ⟨he.1, fun hp => ⟨he.2 hp, faithful_of_mem_dispatch (List.of_mem_zip hp).2⟩⟩
  · exact Step.runAll_recording execute file cwd (t.select path) s []
  · intro τ other u
    simp only [steps, dispatch, Step.runAll_calls]
  · simp only [report, Report.ofSteps_eq, List.length_map]
  · simp only [report, Report.ofSteps_eq]
    rfl

end RuleTable

end EditHook
