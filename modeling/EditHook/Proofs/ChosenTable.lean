import EditHook.Files.Store
import EditHook.Proofs.HookExits
import EditHook.Proofs.Utf8Text

/-! No other table stands in for the one that was chosen. A run takes its rules from the file that was
asked for, else from the project's own, and whatever is wrong with that file ends the run. Two file
systems that agree about this file cannot be told apart. -/

namespace EditHook

namespace RuleTable

variable {files files' : FileView} {config : Option RawPath} {cwd : String} {path : RawPath}

/-- The file that the table has to come from. -/
inductive Chooses (files : FileView) (cwd : String) : Option RawPath → RawPath → Prop where
  | asked (path : RawPath) : Chooses files cwd (some path) path
  | project : files.isFile (projectFile cwd) = true → Chooses files cwd none (projectFile cwd)

def Holds (files : FileView) (path : RawPath) (t : RuleTable) : Prop :=
  ∃ text, files.read path = .ok (utf8 text) ∧ ofText text = .ok t

/-- What is wrong with a file that holds no table. -/
inductive Fails (files : FileView) (path : RawPath) : LoadError → Prop where
  | missing : files.read path = .error .notFound → Fails files path (.notFound path)
  | unreadable {fault : FileFault} : files.read path = .error fault → fault ≠ .notFound →
      Fails files path (.unreadable fault)
  | notText {bytes : List UInt8} : files.read path = .ok bytes → (∀ text, bytes ≠ utf8 text) →
      Fails files path .notText
  | invalid {text : String} {e : LoadError} : files.read path = .ok (utf8 text) →
      ofText text = .error e → Fails files path e

theorem load_of_text {text : String} (h : files.read path = .ok (utf8 text)) :
    load files path = ofText text := by
  simp only [load, h, textOfBytes?_utf8]

theorem load_eq_ok_iff {t : RuleTable} : load files path = .ok t ↔ Holds files path t := by
  constructor
  · intro h
    cases hr : files.read path with
    | error fault => cases fault <;> simp [load, hr] at h
    | ok bytes =>
      cases hb : textOfBytes? bytes with
      | none => simp [load, hr, hb] at h
      | some text =>
        obtain rfl := textOfBytes?_eq_some_iff.mp hb
        exact ⟨text, hr, (load_of_text hr).symm.trans h⟩
  · rintro ⟨text, hr, ht⟩
    exact (load_of_text hr).trans ht

theorem fails_of_load {e : LoadError} (h : load files path = .error e) : Fails files path e := by
  cases hr : files.read path with
  | error fault =>
    by_cases hf : fault = .notFound
    · subst hf
      simp only [load, hr] at h
      cases h
      exact .missing hr
    · have hl : load files path = .error (.unreadable fault) := by
        cases fault <;> simp_all [load]
      cases hl.symm.trans h
      exact .unreadable hr hf
  | ok bytes =>
    cases hb : textOfBytes? bytes with
    | none =>
      simp only [load, hr, hb] at h
      cases h
      apply Fails.notText hr
      intro text ht
      simp [textOfBytes?_eq_some_iff.mpr ht] at hb
    | some text =>
      obtain rfl := textOfBytes?_eq_some_iff.mp hb
      exact .invalid hr ((load_of_text hr).symm.trans h)

theorem load_of_fails {e : LoadError} (h : Fails files path e) : load files path = .error e := by
  cases h with
  | missing hr => simp only [load, hr]
  | @unreadable fault hr hf => cases fault <;> simp_all [load]
  | @notText bytes hr hb =>
    cases ht : textOfBytes? bytes with
    | none => simp only [load, hr, ht]
    | some text => exact absurd (textOfBytes?_eq_some_iff.mp ht) (hb text)
  | invalid hr ht => exact (load_of_text hr).trans ht

theorem locate_of_chooses (h : Chooses files cwd config path) :
    (locate files config cwd).2 = load files path := by
  cases h with
  | asked => rfl
  | project hf => simp only [locate, hf, if_true]

theorem locate_of_none (h : ∀ path, ¬ Chooses files cwd config path) :
    (locate files config cwd).2 = builtIn := by
  cases config with
  | some path => exact absurd (.asked path) (h path)
  | none =>
    have hf : ¬ files.isFile (projectFile cwd) = true := fun hf => h _ (.project hf)
    simp [locate, hf]

theorem load_congr (h : files'.read path = files.read path) : load files' path = load files path := by
  simp only [load, h]

/-- Two file systems that agree about the file that is chosen, if there is one, give the same table
and say the same about it. -/
theorem locate_congr
    (hf : config = none → files'.isFile (projectFile cwd) = files.isFile (projectFile cwd))
    (hr : ∀ path, Chooses files cwd config path → files'.read path = files.read path) :
    locate files' config cwd = locate files config cwd := by
  cases config with
  | some path => simp only [locate, load_congr (hr path (.asked path))]
  | none =>
    by_cases h : files.isFile (projectFile cwd) = true
    · simp only [locate, hf rfl, load_congr (hr _ (.project h))]
    · simp [locate, hf rfl, h]

end RuleTable

variable {files files' : FileView} {config : Option RawPath} {cwd : String}

theorem runHook_congr
    (h : RuleTable.locate files' config cwd = RuleTable.locate files config cwd)
    (argument : Option String) (stdin : Stdin) (execute : Executor σ) (s : σ) :
    runHook files' argument config stdin cwd execute s =
      runHook files argument config stdin cwd execute s := by
  simp only [runHook, h]

open RuleTable in
theorem chosen_table_decides (files : FileView) (config : Option RawPath) (cwd : String)
    (argument : Option String) (stdin : Stdin) (execute : Executor σ) (s : σ) :
    let table := (locate files config cwd).2
    let run := runHook files argument config stdin cwd execute s
    (∀ path, Chooses files cwd config path →
      (∀ t, table = .ok t ↔ Holds files path t) ∧
      (∀ e, table = .error e ↔ Fails files path e) ∧
      (∀ e raw, Fails files path e → (target argument stdin).2 = some raw →
        hookTranscript files argument config stdin cwd execute s = [] ∧ run.1.steps = [] ∧
        run.1.stderr = "post-edit-lint: config error: " ++ e.message ++ "\n" ∧
        run.1.verdict = .blocking ∧ run.2 = s)) ∧
    ((∀ path, ¬ Chooses files cwd config path) → table = builtIn) ∧
    (∀ files' : FileView,
      (config = none → files'.isFile (projectFile cwd) = files.isFile (projectFile cwd)) →
      (∀ path, Chooses files cwd config path → files'.read path = files.read path) →
      locate files' config cwd = locate files config cwd ∧
      runHook files' argument config stdin cwd execute s = run ∧
      hookTranscript files' argument config stdin cwd execute s =
        hookTranscript files argument config stdin cwd execute s) := by
  intro table run
  refine ⟨?_, locate_of_none, ?_⟩
  · intro path hc
    have hl : table = load files path := locate_of_chooses hc
    have hfail : ∀ e, table = .error e ↔ Fails files path e := by
      intro e
      rw [hl]
      exact ⟨fails_of_load, load_of_fails⟩
    refine ⟨?_, hfail, ?_⟩
    · intro t
      rw [hl]
      exact load_eq_ok_iff
    · intro e raw he hraw
      have ht := (hfail e).mpr he
      obtain ⟨log, hr⟩ := runHook_of_no_table hraw ht execute s
      have hseen := hookTranscript_of_no_table hraw ht execute s
      simp [run, hr, hseen]
  · intro files' hf hr
    have hlocate := locate_congr hf hr
    have hrun := runHook_congr hlocate argument stdin execute.recording (s, [])
    exact ⟨hlocate, runHook_congr hlocate argument stdin execute s,
      by simp only [hookTranscript, hrun]⟩

def tableNextToDirectory (table : String) : Files :=
  ⟨[([".claude"], .directory), (["rules"], .directory),
    ([".claude", "post-edit-lint.kdl"], .file (utf8 table))]⟩

open RuleTable in
theorem chosen_table_decides_directory :
    let files := (tableNextToDirectory "").view []
    let files' := (tableNextToDirectory "root").view []
    let run := fun files => runHook files (some "a.ts") (some "rules") (.bytes []) "/"
      (fun (_ : Call) (_ : Unit) => (⟨0, "", ""⟩, ())) ()
    Chooses files "/" none "/.claude/post-edit-lint.kdl" ∧
    Holds files "/.claude/post-edit-lint.kdl" ⟨[]⟩ ∧
    (locate files (some "rules") "/").2 = .error (.unreadable .isDirectory) ∧
    (run files).1.steps = [] ∧ (run files).1.verdict = .blocking ∧ run files' = run files ∧
    (locate ((Files.mk []).view []) none "/").2 = builtIn := by
  intro files files' run
  have hread : files.read "rules" = .error .isDirectory := rfl
  have hfails : Fails files "rules" (.unreadable .isDirectory) := .unreadable hread (by decide)
  have hchoice : Chooses files "/" (some "rules") "rules" := .asked "rules"
  obtain ⟨hchosen, _, hframe⟩ := chosen_table_decides files (some "rules") "/" (some "a.ts")
    (.bytes []) (fun (_ : Call) (_ : Unit) => (⟨0, "", ""⟩, ())) ()
  obtain ⟨_, herror, hstop⟩ := hchosen "rules" hchoice
  obtain ⟨_, hsteps, _, hverdict, _⟩ := hstop _ "a.ts" hfails (by decide)
  have hsame := hframe files' (by intro h; cases h) (by intro path h; cases h; rfl)
  have hnone : (locate ((Files.mk []).view []) none "/").2 = builtIn := by
    apply (chosen_table_decides ((Files.mk []).view []) none "/" (some "a.ts") (.bytes [])
      (fun (_ : Call) (_ : Unit) => (⟨0, "", ""⟩, ())) ()).2.1
    intro path h
    cases h with
    | project hf => exact absurd hf (by decide)
  refine ⟨?_, ?_, (herror _).mpr hfails, hsteps, hverdict, hsame.2.1, hnone⟩
  · exact .project rfl
  · exact ⟨"", rfl, rfl⟩

end EditHook
