import EditHook.Dispatch.Report

/-! What a report says of the steps it was made from. Its text is empty exactly when nothing failed,
since the block of a failure never is, and every further step leaves in front what was told before. -/

namespace EditHook

theorem Outcome.succeeded_iff (o : Outcome) : o.succeeded = true ↔ o.exitCode = 0 := by
  simp [succeeded]

def Step.failure (x : Step) : Failure :=
  ⟨x.selected.root, x.selected.command, x.outcome⟩

def Step.failing (steps : List Step) : List Step :=
  steps.filter (fun x => x.outcome.exitCode ≠ 0)

theorem Step.failing_eq_nil_iff (steps : List Step) :
    failing steps = [] ↔ ∀ x ∈ steps, x.outcome.exitCode = 0 := by
  simp [failing]

namespace Report

theorem record_step (r : Report) (x : Step) :
    r.record x.selected x.outcome =
      ⟨r.path, r.executed + 1, r.failures ++ (Step.failing [x]).map Step.failure⟩ := by
  cases hx : x.outcome.succeeded with
  | true =>
    have he := (Outcome.succeeded_iff _).mp hx
    simp [record, Step.failing, hx, he]
  | false =>
    have he : x.outcome.exitCode ≠ 0 := fun he => by
      simp [(Outcome.succeeded_iff _).mpr he] at hx
    simp [record, Step.failing, Step.failure, hx, he]

theorem foldl_record (r : Report) (steps : List Step) :
    steps.foldl (fun r x => r.record x.selected x.outcome) r =
      ⟨r.path, r.executed + steps.length,
        r.failures ++ (Step.failing steps).map Step.failure⟩ := by
  induction steps generalizing r with
  | nil => simp [Step.failing]
  | cons x xs ih =>
    have hx : Step.failing (x :: xs) = Step.failing [x] ++ Step.failing xs := by
      simp only [Step.failing, ← List.filter_append, List.singleton_append]
    rw [List.foldl_cons, ih, record_step, hx]
    simp only [List.length_cons, List.map_append, List.append_assoc, Nat.add_assoc,
      Nat.add_comm 1]

theorem ofSteps_eq (path : String) (steps : List Step) :
    ofSteps path steps = ⟨path, steps.length, (Step.failing steps).map Step.failure⟩ := by
  have hh := foldl_record (empty path) steps
  simpa only [ofSteps, empty, Nat.zero_add, List.nil_append] using hh

theorem verdict_eq_blocking_iff (r : Report) : r.verdict = .blocking ↔ r.failures ≠ [] := by
  simp [verdict, hasFailures]

theorem verdict_ofSteps (path : String) (steps : List Step) :
    (ofSteps path steps).verdict = .blocking ↔ ∃ x ∈ steps, x.outcome.exitCode ≠ 0 := by
  rw [verdict_eq_blocking_iff, ofSteps_eq]
  simp [Step.failing_eq_nil_iff]

theorem render_failure_ne_empty (path : String) (f : Failure) : f.render path ≠ "" := by
  intro he
  have hn : "\n" = "" := (String.append_eq_empty_iff.mp he).2
  exact absurd hn (by decide)

theorem render_eq_empty_iff (r : Report) : r.render = "" ↔ r.failures = [] := by
  cases hf : r.failures with
  | nil => simp [render, hf]
  | cons f fs => simp [render, hf, String.append_eq_empty_iff, render_failure_ne_empty]

theorem render_eq_empty_iff_success (r : Report) : r.render = "" ↔ r.verdict = .success := by
  have hv : r.verdict = .success ↔ ¬ r.verdict = .blocking := by cases r.verdict <;> simp
  rw [hv, verdict_eq_blocking_iff, render_eq_empty_iff, Decidable.not_not]

theorem hasFailures_eq_false_iff (r : Report) : r.hasFailures = false ↔ r.failures = [] := by
  simp [hasFailures]

theorem ofSteps_append (path : String) (steps more : List Step) :
    ofSteps path (steps ++ more) =
      more.foldl (fun r x => r.record x.selected x.outcome) (ofSteps path steps) := by
  rw [ofSteps, List.foldl_append, ← ofSteps]

/-- A step adds its own block to the text, or nothing. What was there before stays, and the block does
not depend on it. -/
theorem render_record (r : Report) (x : Step) :
    (r.record x.selected x.outcome).render =
      r.render ++ if x.outcome.exitCode = 0 then "" else x.failure.render r.path := by
  rw [record_step, render, render, List.map_append, String.join_append]
  by_cases hx : x.outcome.exitCode = 0
  · simp [Step.failing, hx]
  · simp [Step.failing, hx]

theorem render_record_eq_iff (r : Report) (x : Step) :
    (r.record x.selected x.outcome).render = r.render ↔ x.outcome.exitCode = 0 := by
  rw [render_record]
  by_cases hx : x.outcome.exitCode = 0
  · simp [hx]
  · have hb := render_failure_ne_empty r.path x.failure
    simp [hx, hb]

theorem verdict_record {r : Report} (x : Step) (h : r.verdict = .blocking) :
    (r.record x.selected x.outcome).verdict = .blocking := by
  rw [verdict_eq_blocking_iff] at h ⊢
  rw [record_step]
  simp [h]

theorem verdict_foldl_record {r : Report} (steps : List Step) (h : r.verdict = .blocking) :
    (steps.foldl (fun r x => r.record x.selected x.outcome) r).verdict = .blocking := by
  induction steps generalizing r with
  | nil => exact h
  | cons x xs ih => exact ih (verdict_record x h)

/-- A report after any steps, and after one more. What it holds follows from the steps; its text only
grows, by the block of a step that failed; and a run that is blocking once stays so. -/
theorem ofSteps_follows (path : String) (steps : List Step) :
    let r := ofSteps path steps
    (r.path = path ∧ r.executed = steps.length ∧
      r.failures = (Step.failing steps).map Step.failure) ∧
    (r.render = "" ↔ r.hasFailures = false) ∧ (r.hasFailures = false ↔ r.verdict = .success) ∧
    (∀ x : Step,
      let r' := ofSteps path (steps ++ [x])
      r' = r.record x.selected x.outcome ∧ r.render.toList <+: r'.render.toList ∧
      (r'.render = r.render ↔ x.outcome.exitCode = 0) ∧
      (x.outcome.exitCode ≠ 0 → r'.render = r.render ++ x.failure.render path)) ∧
    ∀ more, r.verdict = .blocking → (ofSteps path (steps ++ more)).verdict = .blocking := by
  intro r
  have hr : r = ⟨path, steps.length, (Step.failing steps).map Step.failure⟩ :=
    ofSteps_eq path steps
  have hp : r.path = path := by rw [hr]
  have hsilent : r.hasFailures = false ↔ r.render = "" := by
    rw [hasFailures_eq_false_iff, render_eq_empty_iff]
  refine ⟨⟨hp, by rw [hr], by rw [hr]⟩, hsilent.symm,
    hsilent.trans (render_eq_empty_iff_success r), ?_, ?_⟩
  · intro x r'
    have hr' : r' = r.record x.selected x.outcome := ofSteps_append path steps [x]
    have hrender := render_record r x
    rw [← hr', hp] at hrender
    refine ⟨hr', ?_, ?_, ?_⟩
    · rw [hrender, String.toList_append]
      exact List.prefix_append _ _
    · rw [hr']
      exact render_record_eq_iff r x
    · intro hx
      rw [hrender, if_neg hx]
  · intro more hb
    rw [ofSteps_append]
    exact verdict_foldl_record more hb

def mixedSteps : List Step :=
  [(1, "no"), (0, "yes"), (-1, "")].map fun answer =>
    ⟨⟨.repository, ⟨"lint", []⟩⟩, ⟨["lint"], "/r"⟩, ⟨answer.1, "", answer.2⟩⟩

theorem ofSteps_follows_mixed :
    (ofSteps "a.ts" mixedSteps).executed = 3 ∧
    (ofSteps "a.ts" mixedSteps).failures.map (·.outcome.exitCode) = [1, -1] ∧
    (ofSteps "a.ts" (mixedSteps.take 1)).verdict = .blocking ∧
    (ofSteps "a.ts" (mixedSteps.take 1 ++ mixedSteps.drop 1)).verdict = .blocking := by
  have hb : (ofSteps "a.ts" (mixedSteps.take 1)).verdict = .blocking := by decide
  obtain ⟨⟨-, he, hf⟩, -⟩ := ofSteps_follows "a.ts" mixedSteps
  obtain ⟨-, -, -, -, hstays⟩ := ofSteps_follows "a.ts" (mixedSteps.take 1)
  refine ⟨he, ?_, hb, hstays (mixedSteps.drop 1) hb⟩
  rw [hf]
  decide

end Report

end EditHook
