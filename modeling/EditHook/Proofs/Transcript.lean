import EditHook.Dispatch.Step

/-! What an executor sees of a run. A recording executor keeps every call it gets with the answer it
gives, so its transcript shows the calls themselves and not what the run says about them. -/

namespace EditHook

/-- Answers like another executor, and keeps each call with its answer behind the earlier ones. -/
def Executor.recording (execute : Executor σ) : Executor (σ × List (Call × Outcome)) :=
  fun c s =>
    let answer := execute c s.1
    (answer.1, (answer.2, s.2 ++ [(c, answer.1)]))

namespace Step

def exchange (x : Step) : Call × Outcome :=
  (x.call, x.outcome)

theorem run_recording (execute : Executor σ) (file cwd : String) (x : Selected) (s : σ)
    (log : List (Call × Outcome)) :
    run execute.recording file cwd x (s, log) =
      ((run execute file cwd x s).1,
        ((run execute file cwd x s).2, log ++ [(run execute file cwd x s).1.exchange])) := rfl

/-- A run calls the executor once for each of its steps, in the order of the steps, and gets from it
the outcomes that the steps have. -/
theorem runAll_recording (execute : Executor σ) (file cwd : String) (xs : List Selected) (s : σ)
    (log : List (Call × Outcome)) :
    runAll execute.recording file cwd xs (s, log) =
      ((runAll execute file cwd xs s).1,
        ((runAll execute file cwd xs s).2,
          log ++ (runAll execute file cwd xs s).1.map exchange)) := by
  induction xs generalizing s log with
  | nil => simp [runAll]
  | cons x xs ih =>
    have hh := ih (run execute file cwd x s).2 (log ++ [(run execute file cwd x s).1.exchange])
    simp only [runAll, run_recording, hh, List.map_cons, List.append_assoc, List.singleton_append]

theorem runAll_selected (execute : Executor σ) (file cwd : String) (xs : List Selected) (s : σ) :
    (runAll execute file cwd xs s).1.map Step.selected = xs := by
  induction xs generalizing s with
  | nil => rfl
  | cons x xs ih =>
    simp only [runAll, List.map_cons, ih]
    rfl

theorem call_of_mem_runAll {execute : Executor σ} {file cwd : String} {xs : List Selected} {s : σ}
    {x : Step} (hx : x ∈ (runAll execute file cwd xs s).1) :
    x.call = x.selected.call file cwd := by
  induction xs generalizing s with
  | nil => simp [runAll] at hx
  | cons y ys ih =>
    rcases List.mem_cons.mp hx with rfl | hx
    · rfl
    · exact ih hx

theorem selected_mem_of_mem_runAll {execute : Executor σ} {file cwd : String}
    {xs : List Selected} {s : σ} {x : Step} (hx : x ∈ (runAll execute file cwd xs s).1) :
    x.selected ∈ xs := by
  have hh := List.mem_map_of_mem (f := Step.selected) hx
  rwa [runAll_selected] at hh

theorem runAll_calls (execute : Executor σ) (file cwd : String) (xs : List Selected) (s : σ) :
    (runAll execute file cwd xs s).1.map Step.call = xs.map (·.call file cwd) := by
  induction xs generalizing s with
  | nil => rfl
  | cons x xs ih =>
    simp only [runAll, List.map_cons, ih]
    rfl

end Step

end EditHook
