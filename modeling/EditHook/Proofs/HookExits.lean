import EditHook.Hook.Run
import EditHook.Proofs.Reporting
import EditHook.Proofs.Transcript

/-! The three ways a hook ends: without a file, without a table, and with a report. Only the last one
runs commands, and text on standard error is always a reason to block. -/

namespace EditHook

variable {files : FileView} {argument : Option String} {config : Option RawPath} {stdin : Stdin}
  {cwd raw : String}

theorem runHook_of_no_target (files : FileView) (config : Option RawPath) (cwd : String)
    (h : (target argument stdin).2 = none) (execute : Executor σ) (s : σ) :
    ∃ log, runHook files argument config stdin cwd execute s = (⟨log, [], "", .success⟩, s) := by
  cases hf : target argument stdin with
  | mk about file? =>
    rw [hf] at h
    simp only at h
    subst h
    exact ⟨_, by simp only [runHook, hf]; rfl⟩

theorem runHook_of_no_table {e : LoadError} (h : (target argument stdin).2 = some raw)
    (ht : (RuleTable.locate files config cwd).2 = .error e) (execute : Executor σ) (s : σ) :
    ∃ log, runHook files argument config stdin cwd execute s =
      (⟨log, [], "post-edit-lint: config error: " ++ e.message ++ "\n", .blocking⟩, s) := by
  cases hf : target argument stdin with
  | mk about file? =>
    cases hl : RuleTable.locate files config cwd with
    | mk choice table =>
      rw [hf] at h
      rw [hl] at ht
      simp only at h ht
      subst h ht
      exact ⟨_, by simp only [runHook, hf, hl]; rfl⟩

theorem runHook_of_table {t : RuleTable} (h : (target argument stdin).2 = some raw)
    (ht : (RuleTable.locate files config cwd).2 = .ok t) (execute : Executor σ) (s : σ) :
    let path := Path.seenFrom cwd raw
    let run := t.dispatch path raw cwd execute s
    let report := Report.ofSteps path run.1
    ∃ log, runHook files argument config stdin cwd execute s =
      (⟨log, run.1, report.render, report.verdict⟩, run.2) := by
  cases hf : target argument stdin with
  | mk about file? =>
    cases hl : RuleTable.locate files config cwd with
    | mk choice table =>
      rw [hf] at h
      rw [hl] at ht
      simp only at h ht
      subst h ht
      exact ⟨_, by simp only [runHook, hf, hl]; rfl⟩

theorem mem_dispatch_of_mem_steps {execute : Executor σ} {s : σ} {x : Step}
    (h : (target argument stdin).2 = some raw)
    (hx : x ∈ (runHook files argument config stdin cwd execute s).1.steps) :
    ∃ t, (RuleTable.locate files config cwd).2 = .ok t ∧
      x ∈ (t.dispatch (Path.seenFrom cwd raw) raw cwd execute s).1 := by
  cases ht : (RuleTable.locate files config cwd).2 with
  | error e =>
    obtain ⟨log, hr⟩ := runHook_of_no_table h ht execute s
    simp [hr] at hx
  | ok t =>
    obtain ⟨log, hr⟩ := runHook_of_table h ht execute s
    exact ⟨t, rfl, by simpa only [hr] using hx⟩

theorem Json.textMember?_ne_empty {j : Json} {key text : String}
    (h : j.textMember? key = some text) : text ≠ "" := by
  unfold Json.textMember? at h
  split at h
  · split at h
    · simp at h
    · rename_i he
      cases h
      simpa using he
  · simp at h

theorem Payload.file?_ne_empty {p : Payload} (h : p.file? = some raw) : raw ≠ "" := by
  rcases Option.or_eq_some_iff.mp h with hh | ⟨_, hh⟩
  · exact Json.textMember?_ne_empty hh
  · exact Json.textMember?_ne_empty hh

theorem target_ne_empty (h : (target argument stdin).2 = some raw) : raw ≠ "" := by
  cases argument with
  | some file =>
    by_cases he : file.isEmpty
    · simp [target, he] at h
    · simp only [target, he] at h
      cases h
      simpa using he
  | none =>
    cases hp : Payload.ofStdin stdin with
    | error e => simp [target, hp] at h
    | ok p =>
      cases hf : p.file? with
      | none => simp [target, hp, Payload.target, hf] at h
      | some file =>
        simp only [target, hp, Payload.target, hf] at h
        cases h
        exact Payload.file?_ne_empty hf

/-- The calls that a hook makes, each with its answer, as a recording executor keeps them. -/
def hookTranscript (files : FileView) (argument : Option String) (config : Option RawPath)
    (stdin : Stdin) (cwd : String) (execute : Executor σ) (s : σ) : List (Call × Outcome) :=
  (runHook files argument config stdin cwd execute.recording (s, [])).2.2

theorem hookTranscript_of_no_target (h : (target argument stdin).2 = none)
    (execute : Executor σ) (s : σ) :
    hookTranscript files argument config stdin cwd execute s = [] := by
  obtain ⟨log, hr⟩ := runHook_of_no_target files config cwd h execute.recording (s, [])
  simp only [hookTranscript, hr]

theorem hookTranscript_of_no_table {e : LoadError} (h : (target argument stdin).2 = some raw)
    (ht : (RuleTable.locate files config cwd).2 = .error e) (execute : Executor σ) (s : σ) :
    hookTranscript files argument config stdin cwd execute s = [] := by
  obtain ⟨log, hr⟩ := runHook_of_no_table h ht execute.recording (s, [])
  simp only [hookTranscript, hr]

theorem hookTranscript_of_table {t : RuleTable} (h : (target argument stdin).2 = some raw)
    (ht : (RuleTable.locate files config cwd).2 = .ok t) (execute : Executor σ) (s : σ) :
    hookTranscript files argument config stdin cwd execute s =
      (t.dispatch (Path.seenFrom cwd raw) raw cwd execute s).1.map Step.exchange := by
  obtain ⟨log, hr⟩ := runHook_of_table h ht execute.recording (s, [])
  simp only [hookTranscript, hr, RuleTable.dispatch, Step.runAll_recording, List.nil_append]

theorem config_error_ne_empty (e : LoadError) :
    "post-edit-lint: config error: " ++ e.message ++ "\n" ≠ "" := by
  intro he
  exact absurd (String.append_eq_empty_iff.mp he).2 (by decide)

theorem hook_stderr_eq_empty_iff (files : FileView) (argument : Option String)
    (config : Option RawPath) (stdin : Stdin) (cwd : String) (execute : Executor σ) (s : σ) :
    (runHook files argument config stdin cwd execute s).1.stderr = "" ↔
      (runHook files argument config stdin cwd execute s).1.verdict = .success := by
  cases hf : (target argument stdin).2 with
  | none =>
    obtain ⟨log, hr⟩ := runHook_of_no_target files config cwd hf execute s
    simp [hr]
  | some raw =>
    cases ht : (RuleTable.locate files config cwd).2 with
    | error e =>
      obtain ⟨log, hr⟩ := runHook_of_no_table hf ht execute s
      simp only [hr, config_error_ne_empty, reduceCtorEq]
    | ok t =>
      obtain ⟨log, hr⟩ := runHook_of_table hf ht execute s
      simp only [hr, Report.render_eq_empty_iff_success]

theorem hook_blocking_iff (files : FileView) (argument : Option String) (config : Option RawPath)
    (stdin : Stdin) (cwd : String) (execute : Executor σ) (s : σ) :
    (runHook files argument config stdin cwd execute s).1.verdict = .blocking ↔
      ∃ raw, (target argument stdin).2 = some raw ∧
        ((∃ e, (RuleTable.locate files config cwd).2 = .error e) ∨
          ∃ x ∈ hookTranscript files argument config stdin cwd execute s, x.2.exitCode ≠ 0) := by
  cases hf : (target argument stdin).2 with
  | none =>
    obtain ⟨log, hr⟩ := runHook_of_no_target files config cwd hf execute s
    simp [hr]
  | some raw =>
    cases ht : (RuleTable.locate files config cwd).2 with
    | error e =>
      obtain ⟨log, hr⟩ := runHook_of_no_table hf ht execute s
      simp [hr]
    | ok t =>
      obtain ⟨log, hr⟩ := runHook_of_table hf ht execute s
      have hv := Report.verdict_ofSteps (Path.seenFrom cwd raw)
        (t.dispatch (Path.seenFrom cwd raw) raw cwd execute s).1
      rw [hr, hookTranscript_of_table hf ht, hv]
      constructor
      · rintro ⟨x, hx, he⟩
        exact ⟨raw, rfl, .inr ⟨x.exchange, List.mem_map_of_mem hx, he⟩⟩
      · rintro ⟨_, _, ⟨e, he⟩ | ⟨_, hx, he⟩⟩
        · cases he
        · obtain ⟨x, hm, rfl⟩ := List.mem_map.mp hx
          exact ⟨x, hm, he⟩

theorem hook_exits (files : FileView) (argument : Option String) (config : Option RawPath)
    (stdin : Stdin) (cwd : String) (execute : Executor σ) (s : σ) :
    let out := (runHook files argument config stdin cwd execute s).1
    let seen := hookTranscript files argument config stdin cwd execute s
    let table := (RuleTable.locate files config cwd).2
    (out.stderr = "" ↔ out.verdict = .success) ∧
    (out.verdict = .success ↔ out.verdict.code = 0) ∧
    (out.verdict = .blocking ↔ out.verdict.code = 2) ∧
    (out.verdict = .blocking ↔ ∃ raw, (target argument stdin).2 = some raw ∧ raw ≠ "" ∧
      ((∃ e, table = .error e) ∨ ∃ x ∈ seen, x.2.exitCode ≠ 0)) ∧
    ((target argument stdin).2 = none → seen = [] ∧ out.stderr = "" ∧ out.verdict = .success) ∧
    (∀ raw e, (target argument stdin).2 = some raw → table = .error e →
      seen = [] ∧ out.stderr = "post-edit-lint: config error: " ++ e.message ++ "\n") ∧
    (∀ raw t, (target argument stdin).2 = some raw → table = .ok t →
      let path := Path.seenFrom cwd raw
      seen.map Prod.fst = (t.select path).map (·.call raw cwd) ∧
      out.steps.map Step.selected = t.select path ∧
      out.steps.map (fun x => (x.call, x.outcome)) = seen ∧
      out.stderr = (Report.ofSteps path out.steps).render) := by
  intro out seen table
  have hcode : (out.verdict = .success ↔ out.verdict.code = 0) ∧
      (out.verdict = .blocking ↔ out.verdict.code = 2) := by
    cases out.verdict <;> simp [Verdict.code]
  refine ⟨hook_stderr_eq_empty_iff .., hcode.1, hcode.2, ?_, ?_, ?_, ?_⟩
  · rw [show out.verdict = .blocking ↔ _ from hook_blocking_iff ..]
    constructor
    · rintro ⟨raw, hf, hh⟩
      exact ⟨raw, hf, target_ne_empty hf, hh⟩
    · rintro ⟨raw, hf, _, hh⟩
      exact ⟨raw, hf, hh⟩
  · intro hf
    obtain ⟨log, hr⟩ := runHook_of_no_target files config cwd hf execute s
    exact ⟨hookTranscript_of_no_target hf execute s, by simp [out, hr], by simp [out, hr]⟩
  · intro raw e hf ht
    obtain ⟨log, hr⟩ := runHook_of_no_table hf ht execute s
    exact ⟨hookTranscript_of_no_table hf ht execute s, by simp only [out, hr]⟩
  · intro raw t hf ht path
    obtain ⟨log, hr⟩ := runHook_of_table hf ht execute s
    have hsteps : out.steps = (t.dispatch path raw cwd execute s).1 := by simp only [out, hr, path]
    have hseen : seen = out.steps.map Step.exchange := by
      rw [hsteps]
      exact hookTranscript_of_table hf ht execute s
    refine ⟨?_, ?_, hseen.symm, by simp only [out, hr, path]⟩
    · have hcalls : seen.map Prod.fst = out.steps.map Step.call := by
        rw [hseen, List.map_map]
        rfl
      rw [hcalls, hsteps]
      exact Step.runAll_calls execute raw cwd (t.select path) s
    · rw [hsteps]
      exact Step.runAll_selected execute raw cwd (t.select path) s

end EditHook
