import EditHook.Proofs.HookExits
import EditHook.Proofs.PathNames
import Mathlib.Data.List.Forall2

/-! Two spellings of one path lead to the same run, except for the tokens that the path fills. -/

namespace EditHook

namespace Path

def within (dir : String) (cs : List Component) : String :=
  match after? (components dir) cs with
  | some (c :: rest) => spell (c :: rest)
  | _ => spell cs

theorem seenFrom_eq_within (dir path : String) : seenFrom dir path = within dir (cleaned path) := rfl

/-- What is seen of a path depends only on what it names, unless that is the directory itself. -/
theorem seenFrom_eq_within_resolve {dir path : String} (hd : Absolute dir)
    (hne : resolve dir path ≠ cleaned dir) :
    seenFrom dir path = within dir (resolve dir path) := by
  rw [seenFrom_eq_within]
  by_cases hp : Absolute path
  · rw [resolve, join_of_absolute hp]
  · have hc := cleaned_of_relative hp
    have hr : resolve dir path = cleaned dir ++ cleaned path := by
      rw [resolve_eq path hd, namesIn, if_neg hp, List.map_append, cleaned_of_absolute hd, hc]
      rfl
    have hin : after? (components dir) (resolve dir path) = some (cleaned path) := by
      rw [hr, components_of_absolute hd]
      exact after?_append _ _
    -- a relative path does not start with the separator, so it is not cut
    have hout : after? (components dir) (cleaned path) = none := by
      rw [components_of_absolute hd, cleaned_of_absolute hd, hc]
      cases names path.toList <;> simp [after?]
    cases he : cleaned path with
    | nil => simp [hr, he] at hne
    | cons c cs =>
      rw [he] at hin hout
      simp only [within, hin, hout]

end Path

/-- The same step but for the tokens that a path fills. -/
structure Step.Alike (x y : Step) : Prop where
  selected : x.selected = y.selected
  outcome : x.outcome = y.outcome
  dir : x.call.dir = y.call.dir
  length : x.call.argv.length = y.call.argv.length
  argv : ∀ i : Nat, x.selected.command.tokens[i]? ≠ some "$@" → x.call.argv[i]? = y.call.argv[i]?

theorem Step.run_alike (answer : σ → Outcome × σ) (file file' cwd : String) (x : Selected) (s : σ) :
    (run (fun _ => answer) file cwd x s).1.Alike (run (fun _ => answer) file' cwd x s).1 := by
  refine ⟨rfl, rfl, rfl, ?_, ?_⟩
  · simp [run, Selected.call, Command.filled]
  · intro i hi
    change x.command.tokens[i]? ≠ _ at hi
    cases ht : x.command.tokens[i]? with
    | none => simp [run, Selected.call, Command.filled, ht]
    | some t =>
      have hne : t ≠ Command.placeholder := fun he => hi (by rw [ht, he]; rfl)
      simp [run, Selected.call, Command.filled, ht, hne]

theorem Step.runAll_alike (answer : σ → Outcome × σ) (file file' cwd : String)
    (xs : List Selected) (s : σ) :
    List.Forall₂ Alike (runAll (fun _ => answer) file cwd xs s).1
      (runAll (fun _ => answer) file' cwd xs s).1 := by
  induction xs generalizing s with
  | nil => exact .nil
  | cons x xs ih =>
    have hs : (run (fun _ => answer) file' cwd x s).2 = (run (fun _ => answer) file cwd x s).2 := rfl
    simp only [runAll, hs]
    exact .cons (run_alike answer file file' cwd x s) (ih _)

theorem Report.ofSteps_alike (path : String) {steps steps' : List Step}
    (h : List.Forall₂ Step.Alike steps steps') : ofSteps path steps = ofSteps path steps' := by
  have hf : ∀ r : Report, steps.foldl (fun r x => r.record x.selected x.outcome) r =
      steps'.foldl (fun r x => r.record x.selected x.outcome) r := by
    induction h with
    | nil => intro r; rfl
    | cons hx _ ih =>
      intro r
      rw [List.foldl_cons, List.foldl_cons, hx.selected, hx.outcome, ih]
  exact hf _

/-- Two runs that differ in nothing but the tokens that a path fills and the log. -/
structure HookRun.Alike (x y : HookRun) : Prop where
  steps : List.Forall₂ Step.Alike x.steps y.steps
  verdict : x.verdict = y.verdict
  stderr : x.stderr = y.stderr

theorem hook_spelling_invariant {files : FileView} {config : Option RawPath} {cwd : String}
    {argument argument' : Option String} {stdin stdin' : Stdin} {raw raw' : String}
    (answer : σ → Outcome × σ) (s : σ) (hcwd : Path.Absolute cwd)
    (hf : (target argument stdin).2 = some raw) (hf' : (target argument' stdin').2 = some raw')
    (hsame : Path.resolve cwd raw = Path.resolve cwd raw')
    (hne : Path.resolve cwd raw ≠ Path.cleaned cwd) :
    (runHook files argument config stdin cwd (fun _ => answer) s).1.Alike
      (runHook files argument' config stdin' cwd (fun _ => answer) s).1 := by
  have hpath : Path.seenFrom cwd raw = Path.seenFrom cwd raw' := by
    rw [Path.seenFrom_eq_within_resolve hcwd hne,
      Path.seenFrom_eq_within_resolve hcwd (hsame ▸ hne), hsame]
  cases ht : (RuleTable.locate files config cwd).2 with
  | error e =>
    obtain ⟨log, hr⟩ := runHook_of_no_table hf ht (fun _ => answer) s
    obtain ⟨log', hr'⟩ := runHook_of_no_table hf' ht (fun _ => answer) s
    rw [hr, hr']
    exact ⟨.nil, rfl, rfl⟩
  | ok t =>
    obtain ⟨log, hr⟩ := runHook_of_table hf ht (fun _ => answer) s
    obtain ⟨log', hr'⟩ := runHook_of_table hf' ht (fun _ => answer) s
    have hsteps : List.Forall₂ Step.Alike
        (t.dispatch (Path.seenFrom cwd raw) raw cwd (fun _ => answer) s).1
        (t.dispatch (Path.seenFrom cwd raw) raw' cwd (fun _ => answer) s).1 :=
      Step.runAll_alike answer raw raw' cwd (t.select (Path.seenFrom cwd raw)) s
    have hreport := Report.ofSteps_alike (Path.seenFrom cwd raw) hsteps
    rw [hr, hr', ← hpath, hreport]
    exact ⟨hsteps, rfl, rfl⟩

def formattedFiles : FileView where
  read _ := .ok (utf8 "root \"/\" \x7b pattern \"*\" \x7b run \"fmt\" \"$@\" \x7d \x7d")
  isFile _ := true

def countUp (n : Int) : Outcome × Int :=
  (⟨n, "", ""⟩, n + 1)

theorem dotted_spelling_runs_alike :
    (runHook formattedFiles (some "./a//b") none (.bytes []) "/r" (fun _ => countUp)
      1).1.steps.length = 1 ∧
    (runHook formattedFiles (some "./a//b") none (.bytes []) "/r" (fun _ => countUp) 1).1.Alike
      (runHook formattedFiles (some "/r/a/b") none (.bytes []) "/r" (fun _ => countUp) 1).1 :=
  ⟨by decide +kernel,
    hook_spelling_invariant countUp 1 (by decide) rfl rfl (by decide +kernel) (by decide +kernel)⟩

end EditHook
