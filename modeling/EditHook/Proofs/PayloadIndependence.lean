import EditHook.Files.Store
import EditHook.Proofs.HookExits
import EditHook.Proofs.JsonTrees
import EditHook.Proofs.PayloadForms
import EditHook.Proofs.Utf8Text

/-! What of a payload decides the run. Where a payload is read at all, it is the tool's input and
nothing else; and apart from objects only lists of three are read. -/

namespace EditHook

open Json

def HookRun.shown (r : HookRun) : List Step × String × Verdict :=
  (r.steps, r.stderr, r.verdict)

theorem runHook_shown {argument argument' : Option String} {stdin stdin' : Stdin}
    (h : (target argument stdin).2 = (target argument' stdin').2) (files : FileView)
    (config : Option RawPath) (cwd : String) (execute : Executor σ) (s : σ) :
    let run := runHook files argument config stdin cwd execute s
    let run' := runHook files argument' config stdin' cwd execute s
    run.1.shown = run'.1.shown ∧ run.2 = run'.2 := by
  cases hf : (target argument stdin).2 with
  | none =>
    obtain ⟨log, hr⟩ := runHook_of_no_target files config cwd hf execute s
    obtain ⟨log', hr'⟩ := runHook_of_no_target files config cwd (h.symm.trans hf) execute s
    simp [hr, hr', HookRun.shown]
  | some raw =>
    cases ht : (RuleTable.locate files config cwd).2 with
    | error e =>
      obtain ⟨log, hr⟩ := runHook_of_no_table hf ht execute s
      obtain ⟨log', hr'⟩ := runHook_of_no_table (h.symm.trans hf) ht execute s
      simp [hr, hr', HookRun.shown]
    | ok t =>
      obtain ⟨log, hr⟩ := runHook_of_table hf ht execute s
      obtain ⟨log', hr'⟩ := runHook_of_table (h.symm.trans hf) ht execute s
      simp [hr, hr', HookRun.shown]

theorem hookTranscript_shown {argument argument' : Option String} {stdin stdin' : Stdin}
    (h : (target argument stdin).2 = (target argument' stdin').2) (files : FileView)
    (config : Option RawPath) (cwd : String) (execute : Executor σ) (s : σ) :
    hookTranscript files argument config stdin cwd execute s =
      hookTranscript files argument' config stdin' cwd execute s := by
  have hrun := (runHook_shown h files config cwd execute.recording (s, [])).2
  simp only [hookTranscript, hrun]

theorem runHook_shown_idle {argument : Option String} {stdin : Stdin}
    (h : (target argument stdin).2 = none) (files : FileView) (config : Option RawPath) (cwd : String)
    (execute : Executor σ) (s : σ) :
    let run := runHook files argument config stdin cwd execute s
    run.1.shown = ([], "", .success) ∧ run.2 = s := by
  obtain ⟨log, hr⟩ := runHook_of_no_target files config cwd h execute s
  simp [hr, HookRun.shown]

theorem target_spelled {m : Meaning} {text : String} (h : IsText m text) :
    (target none (.bytes (utf8 text))).2 = (Payload.ofMeaning? m).bind Payload.file? := by
  have hread := Payload.ofText_spelled h
  rw [target, Payload.ofStdin]
  simp only [textOfBytes?_utf8]
  cases hp : Payload.ofText text with
  | error e =>
    rw [hp] at hread
    rw [← hread]
    rfl
  | ok p =>
    rw [hp] at hread
    rw [← hread]
    cases hf : p.file? <;> simp [Except.mapError, Payload.target, hf]

namespace Payload

variable {fields : List (Option String × Meaning)}

/-- A payload that is read as far as its keys and its two names go. -/
structure Admits (fields : List (Option String × Meaning)) : Prop where
  keys : none ∉ fields.map Prod.fst
  names : ∀ key ∈ ["hook_event_name", "tool_name"], ∀ m, (some key, m) ∈ fields → IsName m

def Distinct (fields : List (Option String × Meaning)) : Prop :=
  (fields.filterMap Prod.fst).Nodup

/-- A list that is read as far as its two names go, with the tool's input behind them. -/
inductive Lists : Meaning → Meaning → Prop where
  | three {event tool input : Meaning} : IsName event → IsName tool →
      Lists (.list [event, tool, input]) input

def fileIn? (m? : Option Meaning) : Option String :=
  (m?.bind input?).bind fun j => file? ⟨none, none, j⟩

theorem file?_payload {d : Draft} {ms : List (String × Meaning)} (h : d.Reflects ms) :
    d.payload.file? = fileIn? (ms.lookup "tool_input") := by
  rw [fileIn?, ← h.input]
  cases hd : d.input with
  | none => simp [file?, Draft.payload, hd, Json.textMember?, Json.member?]
  | some j => simp [file?, Draft.payload, hd]

theorem admits_of_addAll? {d d' : Draft} (h : d.addAll? fields = some d') : Admits fields := by
  obtain ⟨hkeys, hfits⟩ := fits_of_addAll? h
  exact ⟨hkeys, fun key hk m hm => (hfits key m hm).name hk⟩

theorem ofMeaning?_of_not_admits (h : ¬ Admits fields) : ofMeaning? (.object fields) = none := by
  cases hd : Draft.empty.addAll? fields with
  | none => rw [ofMeaning?, hd]; rfl
  | some d => exact absurd (admits_of_addAll? hd) h

theorem file?_of_admits (h : Admits fields) (hd : Distinct fields) :
    (ofMeaning? (.object fields)).bind file? = fileIn? (fields.lookup (some "tool_input")) := by
  obtain ⟨ms, rfl⟩ := exists_named h.keys
  have hn : (ms.map Prod.fst).Nodup := by
    rw [← filterMap_named]
    exact hd
  rw [lookup_named, ofMeaning?]
  by_cases hf : ∀ x ∈ ms, Fits x.1 x.2
  · obtain ⟨d, hadd, hreflects⟩ := addAll?_of_fits hn hf
    rw [hadd]
    exact file?_payload hreflects
  · -- the names are there only as names, so it is the input that cannot be held
    have hnone : Draft.empty.addAll? (named ms) = none := by
      cases hadd : Draft.empty.addAll? (named ms) with
      | none => rfl
      | some d =>
        obtain ⟨_, hfits⟩ := fits_of_addAll? hadd
        have hall : ∀ x ∈ ms, Fits x.1 x.2 := fun x hx => hfits x.1 x.2 (mem_named.mpr hx)
        exact absurd hall hf
    have hinput : ∃ m, ("tool_input", m) ∈ ms ∧ input? m = none := by
      simp only [not_forall] at hf
      obtain ⟨⟨key, m⟩, hm, hfits⟩ := hf
      have hnames (hk : key ∈ ["hook_event_name", "tool_name"]) : IsName m :=
        h.names key hk m (mem_named.mpr hm)
      cases hi : input? m with
      | some j => exact absurd ⟨hnames, fun _ => ⟨j, hi⟩⟩ hfits
      | none =>
        by_cases hkey : key = "tool_input"
        · exact ⟨m, hkey ▸ hm, hi⟩
        · exact absurd ⟨hnames, fun hk => absurd hk hkey⟩ hfits
    obtain ⟨m, hm, hi⟩ := hinput
    rw [hnone, (lookup_eq_some_iff_mem hn).mpr hm, fileIn?]
    simp [hi]

theorem file?_of_lists {m input : Meaning} (h : Lists m input) :
    (ofMeaning? m).bind file? = fileIn? (some input) := by
  cases h with
  | @three event tool _ hevent htool =>
    obtain ⟨e, he⟩ := Option.isSome_iff_exists.mp (isSome_name?_iff.mpr hevent)
    obtain ⟨t, ht⟩ := Option.isSome_iff_exists.mp (isSome_name?_iff.mpr htool)
    simp only [ofMeaning?, ofItems?, he, ht, Option.bind_some, inputOfItems?, fileIn?]
    cases input? input <;> rfl

theorem file?_of_not_lists {m : Meaning} (hobject : ∀ fields, m ≠ .object fields)
    (hlists : ∀ input, ¬ Lists m input) : (ofMeaning? m).bind file? = none := by
  match m with
  | .null => rfl
  | .boolean b => rfl
  | .number s? => rfl
  | .text s? => rfl
  | .object fields => exact absurd rfl (hobject fields)
  | .list [] => rfl
  | .list [event] => rfl
  | .list (event :: tool :: inputs) =>
    rw [ofMeaning?, ofItems?]
    cases he : name? event with
    | none => rfl
    | some e =>
      cases ht : name? tool with
      | none => rfl
      | some t =>
        cases inputs with
        | nil => rfl
        | cons input more =>
          cases more with
          | nil =>
            have hevent : IsName event := isSome_name?_iff.mp (by simp [he])
            have htool : IsName tool := isSome_name?_iff.mp (by simp [ht])
            exact absurd (.three hevent htool) (hlists input)
          | cons _ _ => rfl

end Payload

open Payload in
/-- Two objects with the same input of the tool, both of them read as far as their keys and names go,
lead to the same run, whatever their other members are. One that is not read leads to none. -/
theorem only_input_decides {fields fields' : List (Option String × Meaning)} {text text' : String}
    (h : IsText (.object fields) text) (h' : IsText (.object fields') text')
    (hd : Distinct fields) (hd' : Distinct fields')
    (hinput : fields.lookup (some "tool_input") = fields'.lookup (some "tool_input"))
    (files : FileView) (config : Option RawPath) (cwd : String) (execute : Executor σ) (s : σ) :
    let file := fun text => (target none (.bytes (utf8 text))).2
    let run := fun text => runHook files none config (.bytes (utf8 text)) cwd execute s
    let seen := fun text => hookTranscript files none config (.bytes (utf8 text)) cwd execute s
    (Admits fields → Admits fields' →
      file text = file text' ∧ seen text = seen text' ∧
      (run text).1.shown = (run text').1.shown ∧ (run text).2 = (run text').2) ∧
    (¬ Admits fields → file text = none ∧ seen text = [] ∧
      (run text).1.shown = ([], "", .success) ∧ (run text).2 = s) := by
  intro file run seen
  constructor
  · intro ha ha'
    have hfile : file text = file text' := by
      simp only [file, target_spelled h, target_spelled h', file?_of_admits ha hd,
        file?_of_admits ha' hd', hinput]
    have hseen := hookTranscript_shown hfile files config cwd execute s
    exact ⟨hfile, hseen, runHook_shown hfile files config cwd execute s⟩
  · intro hn
    have hfile : file text = none := by
      simp only [file, target_spelled h, ofMeaning?_of_not_admits hn, Option.bind_none]
    have hseen : seen text = [] := hookTranscript_of_no_target hfile execute s
    exact ⟨hfile, hseen, runHook_shown_idle hfile files config cwd execute s⟩

def editAfter (members : List (String × Tree)) : Tree :=
  .object (members ++ [("tool_input", .object [("file_path", .text "src/a.ts")])])

def fieldsAfter (members : List (String × Tree)) : List (Option String × Meaning) :=
  Tree.memberMeanings (members ++ [("tool_input", .object [("file_path", .text "src/a.ts")])])

theorem isText_editAfter (members : List (String × Tree)) :
    IsText (.object (fieldsAfter members)) (String.ofList (editAfter members).chars) := by
  have h := (editAfter members).isText
  rwa [editAfter, Tree.meaning] at h

theorem admits_bare : Payload.Admits (fieldsAfter []) := by
  refine ⟨by decide, ?_⟩
  intro key hk m hm
  simp only [fieldsAfter, List.nil_append, Tree.memberMeanings, List.mem_cons, Prod.mk.injEq,
    Option.some.injEq, List.not_mem_nil, or_false] at hk hm
  obtain ⟨rfl, _⟩ := hm
  simp at hk

open Payload in
theorem only_input_decides_edit :
    let named := [("tool_name", Tree.text "Edit"), ("session", .list [.null])]
    let numbered := [("tool_name", Tree.number ⟨false, 7, [], none⟩)]
    let file := fun members =>
      (target none (.bytes (utf8 (String.ofList (editAfter members).chars)))).2
    Admits (fieldsAfter named) ∧ Admits (fieldsAfter []) ∧ ¬ Admits (fieldsAfter numbered) ∧
    file named = file [] ∧ file numbered = none := by
  intro named numbered file
  have hnamed : Admits (fieldsAfter named) := by
    refine ⟨by decide, ?_⟩
    intro key hk m hm
    simp only [fieldsAfter, named, List.cons_append, List.nil_append, Tree.memberMeanings,
      List.mem_cons, Prod.mk.injEq, Option.some.injEq, List.not_mem_nil, or_false] at hk hm
    rcases hm with ⟨_, rfl⟩ | ⟨rfl, _⟩ | ⟨rfl, _⟩
    · exact .text "Edit"
    · simp at hk
    · simp at hk
  have hnumbered : ¬ Admits (fieldsAfter numbered) := by
    intro h
    have hname := h.names "tool_name" (by simp) (.number (Numeral.scalar? ⟨false, 7, [], none⟩))
      (by simp [fieldsAfter, numbered, Tree.memberMeanings, Tree.meaning])
    cases hname
  have hdistinct : Distinct (fieldsAfter named) ∧ Distinct (fieldsAfter []) ∧
      Distinct (fieldsAfter numbered) := by
    unfold Distinct
    decide
  obtain ⟨hsame, _⟩ := only_input_decides (isText_editAfter named) (isText_editAfter [])
    hdistinct.1 hdistinct.2.1 rfl ((Files.mk []).view []) none "/"
    (fun (_ : Call) (_ : Unit) => (⟨0, "", ""⟩, ())) ()
  obtain ⟨_, hnone⟩ := only_input_decides (isText_editAfter numbered) (isText_editAfter [])
    hdistinct.2.2 hdistinct.2.1 rfl ((Files.mk []).view []) none "/"
    (fun (_ : Call) (_ : Unit) => (⟨0, "", ""⟩, ())) ()
  exact ⟨hnamed, admits_bare, hnumbered, (hsame hnamed admits_bare).1, (hnone hnumbered).1⟩

theorem numbered_name_stops_run :
    let text := "\x7b\"tool_name\":7,\"tool_input\":\x7b\"file_path\":\"src/a.ts\"\x7d\x7d"
    let text' := "\x7b\"tool_input\":\x7b\"file_path\":\"src/a.ts\"\x7d\x7d"
    ∃ fields fields', IsText (.object fields) text ∧ IsText (.object fields') text' ∧
      Payload.Distinct fields ∧ Payload.Distinct fields' ∧
      fields.lookup (some "tool_input") = fields'.lookup (some "tool_input") ∧
      (target none (.bytes (utf8 text))).2 = none ∧
      (target none (.bytes (utf8 text'))).2 = some "src/a.ts" := by
  intro text text'
  have h : IsText (.object (fieldsAfter [("tool_name", .number ⟨false, 7, [], none⟩)])) text :=
    isText_editAfter _
  have h' : IsText (.object (fieldsAfter [])) text' := isText_editAfter _
  refine ⟨_, _, h, h', ?_, ?_, rfl, ?_, ?_⟩
  · unfold Payload.Distinct
    decide
  · unfold Payload.Distinct
    decide
  · rw [target_spelled h]
    rfl
  · rw [target_spelled h']
    rfl

open Payload in
/-- A document that is not an object leads to no run, unless it is a list of three with two names in
front. Such a list leads to the run of an object with the same input of the tool. -/
theorem non_object_payload {m : Meaning} {text : String} (h : IsText m text)
    (hm : ∀ fields, m ≠ .object fields) (files : FileView) (config : Option RawPath) (cwd : String)
    (execute : Executor σ) (s : σ) :
    let file := fun text => (target none (.bytes (utf8 text))).2
    let run := fun text => runHook files none config (.bytes (utf8 text)) cwd execute s
    let seen := fun text => hookTranscript files none config (.bytes (utf8 text)) cwd execute s
    ((∀ input, ¬ Lists m input) → file text = none ∧ seen text = [] ∧
      (run text).1.shown = ([], "", .success) ∧ (run text).2 = s) ∧
    (∀ input fields text', Lists m input → IsText (.object fields) text' → Distinct fields →
      Admits fields → fields.lookup (some "tool_input") = some input →
      file text = file text' ∧ seen text = seen text' ∧
      (run text).1.shown = (run text').1.shown ∧ (run text).2 = (run text').2) := by
  intro file run seen
  constructor
  · intro hlists
    have hfile : file text = none := by
      simp only [file, target_spelled h, file?_of_not_lists hm hlists]
    have hseen : seen text = [] := hookTranscript_of_no_target hfile execute s
    exact ⟨hfile, hseen, runHook_shown_idle hfile files config cwd execute s⟩
  · intro input fields text' hlists h' hd ha hinput
    have hfile : file text = file text' := by
      simp only [file, target_spelled h, target_spelled h', file?_of_lists hlists,
        file?_of_admits ha hd, hinput]
    have hseen := hookTranscript_shown hfile files config cwd execute s
    exact ⟨hfile, hseen, runHook_shown hfile files config cwd execute s⟩

def listedEdit : Tree :=
  .list [.text "PostToolUse", .text "Edit", .object [("file_path", .text "src/a.ts")]]

open Payload in
theorem non_object_payload_listed :
    let file := fun t : Tree => (target none (.bytes (utf8 (String.ofList t.chars)))).2
    file (.list [.text "Edit", .null]) = none ∧ file listedEdit = file (editAfter []) := by
  intro file
  have hshort : ∀ input, ¬ Lists (Tree.list [.text "Edit", .null]).meaning input := by
    intro input h
    cases h
  have hlists : Lists listedEdit.meaning (Tree.object [("file_path", .text "src/a.ts")]).meaning :=
    .three (.text "PostToolUse") (.text "Edit")
  have hdistinct : Distinct (fieldsAfter []) := by
    unfold Distinct
    decide
  obtain ⟨hnone, _⟩ := non_object_payload (Tree.list [.text "Edit", .null]).isText
    (by intro fields h; cases h) ((Files.mk []).view []) none "/"
    (fun (_ : Call) (_ : Unit) => (⟨0, "", ""⟩, ())) ()
  obtain ⟨_, hsame⟩ := non_object_payload listedEdit.isText
    (by intro fields h; cases h) ((Files.mk []).view []) none "/"
    (fun (_ : Call) (_ : Unit) => (⟨0, "", ""⟩, ())) ()
  have hbare := hsame _ _ _ hlists (isText_editAfter []) hdistinct admits_bare rfl
  exact ⟨(hnone hshort).1, hbare.1⟩

theorem listed_payload_names_file :
    let text := "[\"PostToolUse\",\"Edit\",\x7b\"file_path\":\"src/a.ts\"\x7d]"
    ∃ m, IsText m text ∧ (∀ fields, m ≠ .object fields) ∧
      (target none (.bytes (utf8 text))).2 = some "src/a.ts" := by
  intro text
  have h : IsText (Tree.meaning listedEdit) text := listedEdit.isText
  refine ⟨_, h, ?_, ?_⟩
  · intro fields hm
    cases hm
  · rw [target_spelled h]
    rfl

end EditHook
