import EditHook.Proofs.CleanPaths
import EditHook.Proofs.GlobOpening
import EditHook.Proofs.HookExits
import EditHook.Proofs.Loading

/-! What a filled placeholder names in the directory where its command runs. -/

namespace EditHook

namespace Path

theorem toList_ne_nil {path : String} (h : path ≠ "") : path.toList ≠ [] := by
  simpa using h

theorem absolute_below_iff {name : String} (rest : String) (hn : name ≠ "") :
    Absolute (name ++ "/" ++ rest) ↔ Absolute name := by
  obtain ⟨c, cs, hc⟩ := List.exists_cons_of_ne_nil (toList_ne_nil hn)
  simp [Absolute, hc]

theorem namesIn_below {name : String} (cwd rest : String) (hn : name ≠ "") :
    namesIn cwd (name ++ "/" ++ rest) = namesIn cwd name ++ names rest.toList := by
  have hl : names (name ++ "/" ++ rest).toList = names name.toList ++ names rest.toList := by
    simp only [String.toList_append, List.append_assoc]
    exact names_append _ _
  by_cases ha : Absolute name
  · rw [namesIn, namesIn, if_pos ((absolute_below_iff rest hn).mpr ha), if_pos ha, hl]
  · rw [namesIn, namesIn, if_neg (ha ∘ (absolute_below_iff rest hn).mp), if_neg ha, hl,
      List.append_assoc]

theorem resolve_below_iff {cwd name : String} (rest : String) (hd : Absolute cwd)
    (hn : name ≠ "") :
    resolve (join cwd name) rest = resolve cwd (name ++ "/" ++ rest) ↔
      ¬ Absolute rest ∨ namesIn cwd name = [] := by
  rw [resolve_eq_iff (absolute_join name hd) hd, namesIn_below cwd rest hn]
  by_cases ha : Absolute rest
  · rw [namesIn, if_pos ha, List.self_eq_append_left]
    simp [ha]
  · rw [namesIn, if_neg ha, names_join name hd]
    simp [ha]

theorem resolve_join_iff {cwd name raw : String} (hd : Absolute cwd) :
    resolve (join cwd name) raw = resolve cwd raw ↔
      Absolute raw ∨ namesIn cwd name = names cwd.toList := by
  rw [resolve_eq_iff (absolute_join name hd) hd]
  by_cases ha : Absolute raw
  · simp [namesIn, ha]
  · rw [namesIn, namesIn, if_neg ha, if_neg ha, names_join name hd, List.append_left_inj]
    simp [ha]

end Path

namespace Root

theorem ofText_eq_dir {text name : String} (h : ofText text = .dir name) :
    ∃ c ∈ name.toList, c ≠ '/' := by
  unfold ofText at h
  split at h
  · cases h
  · rename_i c cs ht
    cases h
    have hne : text.toList.reverse.dropWhile (· == '/') ≠ [] := by
      intro he
      simp [trimmed, he] at ht
    have hc := List.head_dropWhile_not (· == '/') hne
    refine ⟨_, ?_, by simpa using hc⟩
    rw [String.toList_ofList, ← ht, trimmed, List.mem_reverse]
    exact List.head_mem hne

theorem below_iff {name path : String} :
    (∃ rest, path = name ++ "/" ++ rest) ↔ name.toList ++ ['/'] <+: path.toList := by
  constructor
  · rintro ⟨rest, rfl⟩
    exact ⟨rest.toList, by simp⟩
  · rintro ⟨rest, hr⟩
    exact ⟨String.ofList rest, String.toList_inj.mp (by simp [← hr])⟩

theorem unqualify_below (name rest : String) :
    (dir name).unqualify (name ++ "/" ++ rest) = rest := by
  have hp : name.toList ++ ['/'] <+: (name ++ "/" ++ rest).toList := below_iff.mp ⟨rest, rfl⟩
  rw [unqualify, if_pos (List.isPrefixOf_iff_prefix.mpr hp)]
  have hl : (name ++ "/" ++ rest).toList = (name.toList ++ ['/']) ++ rest.toList := by simp
  rw [hl, List.drop_left' (by simp [String.length_toList]), String.ofList_toList]

theorem unqualify_of_not_below {name path : String} (h : ∀ rest, path ≠ name ++ "/" ++ rest) :
    (dir name).unqualify path = path := by
  rw [unqualify, if_neg]
  intro hp
  obtain ⟨rest, hr⟩ := below_iff.mpr (List.isPrefixOf_iff_prefix.mp hp)
  exact h rest hr

/-- A path whose filled placeholder still names it. Under a directory, what is left of a path that was
cut must not start with a separator, and a path that was not cut must be absolute. -/
def Keeps (path : String) : Root → Prop
  | repository => True
  | dir name =>
    (∃ rest, path = name ++ "/" ++ rest ∧ ¬ Path.Absolute rest) ∨
      (Path.Absolute path ∧ ∀ rest, path ≠ name ++ "/" ++ rest)

theorem resolve_unqualify_iff {cwd name raw : String} (hd : Path.Absolute cwd)
    (hnames : Path.names name.toList ≠ []) (habs : Path.Absolute name → Path.Absolute raw) :
    Path.resolve (Path.join cwd name) ((dir name).unqualify raw) = Path.resolve cwd raw ↔
      (dir name).Keeps raw := by
  have hn : name ≠ "" := by
    rintro rfl
    exact hnames rfl
  by_cases hb : ∃ rest, raw = name ++ "/" ++ rest
  -- the path is cut, and what is left starts where the directory ends unless it is absolute
  · obtain ⟨rest, rfl⟩ := hb
    have hin : Path.namesIn cwd name ≠ [] := by
      unfold Path.namesIn
      split
      · exact hnames
      · exact List.append_ne_nil_of_right_ne_nil _ hnames
    rw [unqualify_below, Path.resolve_below_iff rest hd hn, or_iff_left hin]
    constructor
    · exact fun ha => .inl ⟨rest, rfl, ha⟩
    · rintro (⟨rest', he, ha⟩ | ⟨_, hne⟩)
      · obtain rfl : rest = rest' := String.append_right_inj _ |>.mp he
        exact ha
      · exact absurd rfl (hne rest)
  -- the path stays whole, so it names the same only where the directory does not matter
  · have hb : ∀ rest, raw ≠ name ++ "/" ++ rest := fun rest he => hb ⟨rest, he⟩
    have hin : Path.namesIn cwd name = Path.names cwd.toList → Path.Absolute raw := by
      intro he
      by_cases ha : Path.Absolute name
      · exact habs ha
      · rw [Path.namesIn, if_neg ha, List.append_right_eq_self] at he
        exact absurd he hnames
    rw [unqualify_of_not_below hb, Path.resolve_join_iff hd, or_iff_left_of_imp hin]
    constructor
    · exact fun ha => .inr ⟨ha, hb⟩
    · rintro (⟨rest, he, _⟩ | ⟨ha, _⟩)
      · exact absurd he (hb rest)
      · exact ha

end Root

theorem RuleTable.directory_of_mem_select {text cwd raw name : String} {t : RuleTable}
    {x : Selected} (h : ofText text = .ok t) (hd : Path.Absolute cwd)
    (hx : x ∈ t.select (Path.seenFrom cwd raw)) (hr : x.root = .dir name) :
    Path.names name.toList ≠ [] ∧ (Path.Absolute name → Path.Absolute raw) := by
  obtain ⟨rootText, glob, g, hroot, hc, ha⟩ := glob_of_mem_select h hx
  obtain ⟨c, hm, hne⟩ := Root.ofText_eq_dir (hroot.symm.trans hr)
  constructor
  -- without names the directory has dots, which no path has once it is seen from another one
  · intro hn
    have hp : ∀ d ∈ name.toList ++ ['/'], GlobReader.Plain d := by
      intro d hd
      by_cases hs : d = '/'
      · rw [hs]
        decide
      · have hd : d ∈ name.toList := by simpa [hs] using hd
        rw [(Path.dot_of_names_eq_nil hn hd hs).1]
        decide
    have ht : (x.root.qualify glob).toList = (name.toList ++ ['/']) ++ glob.toList := by
      simp [hr, Root.qualify]
    obtain ⟨q, hq⟩ := Glob.prefix_of_accepts hc ht hp ha
    refine Path.dot_notMem_segments_seenFrom raw hd ?_
    rw [← hq, List.append_assoc, List.singleton_append, Path.segments_append]
    exact List.mem_append_left _ (Path.dot_of_names_eq_nil hn hm hne).2
  · intro hn
    have hn : name.toList.head? = some '/' := hn
    obtain ⟨more, hm⟩ := List.head?_eq_some_iff.mp hn
    have ht : (x.root.qualify glob).toList = ['/'] ++ (more ++ '/' :: glob.toList) := by
      simp [hr, Root.qualify, hm]
    have hp : ∀ d ∈ ['/'], GlobReader.Plain d := by
      intro d hd
      rw [List.mem_singleton.mp hd]
      decide
    obtain ⟨q, hq⟩ := Glob.prefix_of_accepts hc ht hp ha
    refine Path.absolute_of_absolute_seenFrom hd ?_
    rw [Path.Absolute, ← hq]
    rfl

/-- The text filled in for a placeholder, taken in the directory where its command runs, names the file
that the hook was given if and only if its root keeps that path. -/
theorem placeholder_names_file_iff {files : FileView} {argument : Option String}
    {config : Option RawPath} {stdin : Stdin} {cwd raw : String} (execute : Executor σ) (s : σ) (hcwd : Path.Absolute cwd)
    (hf : (target argument stdin).2 = some raw) {x : Step}
    (hx : x ∈ (runHook files argument config stdin cwd execute s).1.steps) {i : Nat}
    (hi : x.selected.command.tokens[i]? = some "$@") :
    x.exchange ∈ hookTranscript files argument config stdin cwd execute s ∧
    ∃ a, x.call.argv[i]? = some a ∧
      (Path.resolve x.call.dir a = Path.resolve cwd raw ↔ x.selected.root.Keeps raw) := by
  obtain ⟨t, ht, hx⟩ := mem_dispatch_of_mem_steps hf hx
  obtain ⟨text, htext⟩ := RuleTable.locate_eq_ok ht
  have hsel := Step.selected_mem_of_mem_runAll hx
  have hseen : x.exchange ∈ hookTranscript files argument config stdin cwd execute s := by
    rw [hookTranscript_of_table hf ht]
    exact List.mem_map_of_mem hx
  rw [Step.call_of_mem_runAll hx]
  refine ⟨hseen, x.selected.root.unqualify raw, ?_, ?_⟩
  · simp [Selected.call, Command.filled, hi, Command.placeholder]
  · simp only [Selected.call]
    cases hr : x.selected.root with
    | repository => exact iff_of_true rfl trivial
    | dir name =>
      obtain ⟨hnames, habs⟩ := RuleTable.directory_of_mem_select htext hcwd hsel hr
      exact Root.resolve_unqualify_iff hcwd hnames habs

def webFiles : FileView where
  read _ := .ok (utf8 "root \"web\" \x7b pattern \"**/*.ts\" \x7b run \"lint\" \"$@\" \x7d \x7d")
  isFile _ := true

def webStep (argument : String) : Step :=
  ⟨⟨.dir "web", ⟨"lint", ["$@"]⟩⟩, ⟨["lint", argument], "/repo/web"⟩, .quiet⟩

theorem placeholder_names_file_in_web :
    (webStep ".//app.ts").exchange ∈ hookTranscript webFiles (some "web/.//app.ts") none (.bytes [])
      "/repo" scripted [] ∧
    ∃ a, (webStep ".//app.ts").call.argv[1]? = some a ∧
      (Path.resolve (webStep ".//app.ts").call.dir a = Path.resolve "/repo" "web/.//app.ts" ↔
        (webStep ".//app.ts").selected.root.Keeps "web/.//app.ts") :=
  have hx : webStep ".//app.ts" ∈ (runHook webFiles (some "web/.//app.ts") none (.bytes []) "/repo"
      scripted []).1.steps := by decide +kernel
  placeholder_names_file_iff scripted [] (by decide) rfl hx rfl

/-- What is left behind the directory here starts with a separator, so the command gets an absolute path
to another file. -/
theorem doubled_separator_names_another_file :
    Path.Absolute "/repo" ∧ (target (some "web//app.ts") (.bytes [])).2 = some "web//app.ts" ∧
    ∃ x ∈ (runHook webFiles (some "web//app.ts") none (.bytes []) "/repo" scripted []).1.steps,
      ∃ (i : Nat) (a : String), x.selected.command.tokens[i]? = some "$@" ∧
        x.call.argv[i]? = some a ∧
        Path.resolve x.call.dir a ≠ Path.resolve "/repo" "web//app.ts" :=
  ⟨by decide, rfl, webStep "/app.ts", by decide +kernel, 1, "/app.ts", rfl, rfl, by decide +kernel⟩

end EditHook
