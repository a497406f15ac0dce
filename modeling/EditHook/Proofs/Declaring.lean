import EditHook.Proofs.Results
import EditHook.Rules.OfDocument

/-! Which node trees are rule tables, and what such a tree declares. A node is right when its name,
its entries and its block are; whatever a table holds stands in the tree, in the same order. -/

namespace EditHook

/-- One glob stands alone, and two or more are alternatives. -/
def Pattern.Holds (globs : List ScopedGlob) : Pattern → Prop
  | single g => globs = [g]
  | anyOf gs => globs = gs ∧ 2 ≤ gs.length

theorem Pattern.holds_iff {globs : List ScopedGlob} {p : Pattern} :
    p.Holds globs ↔ globs ≠ [] ∧ p = .ofGlobs globs := by
  match globs with
  | [] => cases p <;> simp +contextual [Holds, ofGlobs]
  | [g] => cases p <;> simp +contextual [Holds, ofGlobs, eq_comm]
  | g :: g' :: gs => cases p <;> simp +contextual [Holds, ofGlobs, eq_comm]

namespace Node

def Arguments (n : Node) (texts : List String) : Prop :=
  n.entries = texts.map (fun s => ⟨none, .text s⟩)

structure IsRun (n : Node) : Prop where
  name : n.name = "run"
  arguments : ∃ tokens, tokens ≠ [] ∧ n.Arguments tokens

structure IsPattern (root : Root) (n : Node) : Prop where
  name : n.name = "pattern"
  arguments : ∃ globs, globs ≠ [] ∧ n.Arguments globs ∧
    ∀ glob ∈ globs, ∃ g, Glob.compile (root.qualify glob) = .ok g
  block : ∃ block, n.children = some block ∧ block ≠ [] ∧ ∀ m ∈ block, m.IsRun

structure IsRoot (n : Node) : Prop where
  name : n.name = "root"
  parts : ∃ directory block, n.Arguments [directory] ∧ n.children = some block ∧ block ≠ [] ∧
    ∀ m ∈ block, m.IsPattern (.ofText directory)

structure DeclaresCommand (n : Node) (c : Command) : Prop where
  name : n.name = "run"
  arguments : n.Arguments c.tokens

structure DeclaresRule (text : String) (root : Root) (n : Node) (r : Rule) : Prop where
  name : n.name = "pattern"
  arguments : ∃ globs, n.Arguments (globs.map ScopedGlob.text) ∧ r.pattern.Holds globs ∧
    ∀ g ∈ globs, Glob.compile (root.qualify g.text) = .ok g.glob
  block : ∃ block, n.children = some block ∧ block ≠ [] ∧
    List.Forall₂ DeclaresCommand block r.commands
  line : r.line = n.line text

structure DeclaresSection (text : String) (n : Node) (s : Section) : Prop where
  name : n.name = "root"
  parts : ∃ directory block, n.Arguments [directory] ∧ s.root = .ofText directory ∧
    n.children = some block ∧ block ≠ [] ∧ List.Forall₂ (DeclaresRule text s.root) block s.rules

variable {text rootText : String} {root : Root} {n : Node}

theorem check_eq_ok_iff {c : Prop} [Decidable c] {d : Defect} {f : α → Load β} {x : Load β}
    {b : β} : (if c then n.fail text d >>= f else x) = .ok b ↔ ¬ c ∧ x = .ok b := by
  split
  · simp [*, fail, bind, Except.bind]
  · simp [*]

theorem entryText_eq_ok_iff {e : Entry} {s : String} :
    n.entryText text e = .ok s ↔ e = ⟨none, .text s⟩ := by
  obtain ⟨key, value⟩ := e
  cases key <;> cases value <;> simp [entryText, fail]

theorem texts_eq_ok_iff {ts : List String} : n.texts text = .ok ts ↔ n.Arguments ts := by
  simp only [texts, mapM_eq_ok_iff, entryText_eq_ok_iff]
  rw [Arguments, ← List.forall₂_eq_eq_eq, List.forall₂_map_right_iff]

theorem compileGlob_eq_ok_iff {glob : String} {g : ScopedGlob} :
    n.compileGlob text root glob = .ok g ↔
      glob = g.text ∧ Glob.compile (root.qualify g.text) = .ok g.glob := by
  rw [compileGlob]
  constructor
  · intro h
    split at h
    · cases h
      exact ⟨rfl, ‹_›⟩
    · cases h
  · rintro ⟨rfl, h⟩
    rw [h]

theorem globs_eq_ok_iff {globTexts : List String} {globs : List ScopedGlob} :
    globTexts.mapM (n.compileGlob text root) = .ok globs ↔
      globTexts = globs.map ScopedGlob.text ∧
        ∀ g ∈ globs, Glob.compile (root.qualify g.text) = .ok g.glob := by
  simp only [mapM_eq_ok_iff, compileGlob_eq_ok_iff]
  induction globTexts generalizing globs with
  | nil => cases globs <;> simp
  | cons glob globTexts ih =>
    cases globs with
    | nil => simp
    | cons g globs =>
      simp only [List.forall₂_cons, ih, List.map_cons, List.cons.injEq, List.forall_mem_cons]
      tauto

theorem exists_globs {globTexts : List String}
    (h : ∀ glob ∈ globTexts, ∃ g, Glob.compile (root.qualify glob) = .ok g) :
    ∃ globs : List ScopedGlob, globTexts = globs.map ScopedGlob.text ∧
      ∀ g ∈ globs, Glob.compile (root.qualify g.text) = .ok g.glob := by
  induction globTexts with
  | nil => exact ⟨[], rfl, by simp⟩
  | cons glob globTexts ih =>
    obtain ⟨⟨g, hg⟩, h⟩ := List.forall_mem_cons.mp h
    obtain ⟨globs, rfl, hc⟩ := ih h
    exact ⟨⟨glob, g⟩ :: globs, rfl, List.forall_mem_cons.mpr ⟨hg, hc⟩⟩

theorem command_eq_ok_iff {c : Command} : n.command text = .ok c ↔ n.DeclaresCommand c := by
  simp only [command, check_eq_ok_iff, bind_eq_ok_iff, not_not, texts_eq_ok_iff]
  constructor
  · rintro ⟨hn, tokens, ht, h⟩
    cases tokens with
    | nil => cases h
    | cons program arguments =>
      cases h
      exact ⟨hn, ht⟩
  · rintro ⟨hn, ht⟩
    exact ⟨hn, c.tokens, ht, rfl⟩

theorem block_iff {R : Node → β → Prop} {ys : List β} :
    (∃ block, n.children = some block ∧ block ≠ [] ∧ List.Forall₂ R block ys) ↔
      ys ≠ [] ∧ List.Forall₂ R (n.children.getD []) ys := by
  cases n.children with
  | none => cases ys <;> simp
  | some block => cases block <;> cases ys <;> simp

theorem rule_eq_ok_iff {r : Rule} :
    n.rule text root rootText = .ok r ↔ n.DeclaresRule text root r := by
  simp only [rule, check_eq_ok_iff, bind_eq_ok_iff, not_not, texts_eq_ok_iff, globs_eq_ok_iff,
    List.isEmpty_iff]
  simp only [mapM_eq_ok_iff, command_eq_ok_iff]
  constructor
  · rintro ⟨hn, _, ht, hne, globs, ⟨rfl, hc⟩, commands, hm, hcne, h⟩
    cases h
    refine ⟨hn, ⟨globs, ht, Pattern.holds_iff.mpr ⟨by simpa using hne, rfl⟩, hc⟩, ?_, rfl⟩
    exact block_iff.mpr ⟨hcne, hm⟩
  · rintro ⟨hn, ⟨globs, ht, hp, hc⟩, hb, hl⟩
    obtain ⟨hcne, hm⟩ := block_iff.mp hb
    obtain ⟨hne, hp⟩ := Pattern.holds_iff.mp hp
    refine ⟨hn, _, ht, by simpa using hne, globs, ⟨rfl, hc⟩, r.commands, hm, hcne, ?_⟩
    rw [← hp, ← hl]
    rfl

theorem ruleSection_eq_ok_iff {s : Section} :
    n.ruleSection text = .ok s ↔ n.DeclaresSection text s := by
  simp only [ruleSection, check_eq_ok_iff, bind_eq_ok_iff, not_not, texts_eq_ok_iff]
  constructor
  · rintro ⟨hn, rootTexts, ht, h⟩
    split at h
    · rename_i directory
      obtain ⟨hne, h⟩ := check_eq_ok_iff.mp h
      obtain ⟨rules, hr, h⟩ := bind_eq_ok_iff.mp h
      cases h
      simp only [mapM_eq_ok_iff, rule_eq_ok_iff] at hr
      have hne : rules ≠ [] := by
        rintro rfl
        simp [List.forall₂_nil_right_iff.mp hr] at hne
      obtain ⟨block, hb, hbne, hr⟩ := block_iff.mpr ⟨hne, hr⟩
      exact ⟨hn, directory, block, ht, rfl, hb, hbne, hr⟩
    · cases h
  · rintro ⟨hn, directory, block, ht, hroot, hb, hbne, hr⟩
    refine ⟨hn, [directory], ht, ?_⟩
    simp only [check_eq_ok_iff, bind_eq_ok_iff, mapM_eq_ok_iff, rule_eq_ok_iff, hb, ← hroot]
    exact ⟨by simpa using hbne, s.rules, hr, rfl⟩

theorem isRun_iff : n.IsRun ↔ ∃ c, n.DeclaresCommand c := by
  constructor
  · rintro ⟨hn, tokens, hne, ht⟩
    obtain ⟨program, arguments, rfl⟩ := List.exists_cons_of_ne_nil hne
    exact ⟨⟨program, arguments⟩, hn, ht⟩
  · rintro ⟨c, hn, ht⟩
    exact ⟨hn, c.tokens, List.cons_ne_nil _ _, ht⟩

theorem isPattern_iff (text : String) : n.IsPattern root ↔ ∃ r, n.DeclaresRule text root r := by
  constructor
  · rintro ⟨hn, ⟨globTexts, hne, ht, hall⟩, block, hb, hbne, hm⟩
    obtain ⟨globs, rfl, hc⟩ := exists_globs hall
    obtain ⟨commands, hm⟩ := exists_forall₂_iff.mpr fun m h => isRun_iff.mp (hm m h)
    exact ⟨⟨.ofGlobs globs, commands, n.line text⟩, hn,
      ⟨globs, ht, Pattern.holds_iff.mpr ⟨by simpa using hne, rfl⟩, hc⟩, ⟨block, hb, hbne, hm⟩, rfl⟩
  · rintro ⟨r, hn, ⟨globs, ht, hp, hc⟩, ⟨block, hb, hbne, hm⟩, _⟩
    refine ⟨hn, ⟨_, ?_, ht, ?_⟩, block, hb, hbne, fun m h => ?_⟩
    · simpa using (Pattern.holds_iff.mp hp).1
    · exact List.forall_mem_map.mpr fun g hg => ⟨g.glob, hc g hg⟩
    · exact isRun_iff.mpr (exists_forall₂_iff.mp ⟨_, hm⟩ m h)

theorem isRoot_iff (text : String) : n.IsRoot ↔ ∃ s, n.DeclaresSection text s := by
  constructor
  · rintro ⟨hn, directory, block, ht, hb, hne, hm⟩
    obtain ⟨rules, hr⟩ := exists_forall₂_iff.mpr fun m h => (isPattern_iff text).mp (hm m h)
    exact ⟨⟨.ofText directory, rules⟩, hn, directory, block, ht, rfl, hb, hne, hr⟩
  · rintro ⟨s, hn, directory, block, ht, hroot, hb, hne, hr⟩
    rw [hroot] at hr
    exact ⟨hn, directory, block, ht, hb, hne, fun m h =>
      (isPattern_iff text).mpr (exists_forall₂_iff.mp ⟨_, hr⟩ m h)⟩

end Node

namespace RuleTable

theorem ofNodes_eq_ok_iff {text : String} {nodes : List Node} {t : RuleTable} :
    ofNodes text nodes = .ok t ↔ List.Forall₂ (Node.DeclaresSection text) nodes t.sections := by
  simp only [ofNodes, bind_eq_ok_iff, mapM_eq_ok_iff, Node.ruleSection_eq_ok_iff]
  constructor
  · rintro ⟨sections, hs, h⟩
    cases h
    exact hs
  · exact fun hs => ⟨t.sections, hs, rfl⟩

/-- The tables of node trees: which trees have one, and that it holds what the tree declares. -/
theorem ofNodes_declared (text : String) (nodes : List Node) :
    ((∃ t, ofNodes text nodes = .ok t) ↔ ∀ n ∈ nodes, n.IsRoot) ∧
    (∀ t, ofNodes text nodes = .ok t ↔
      List.Forall₂ (Node.DeclaresSection text) nodes t.sections) ∧
    ∀ t, ofNodes text nodes = .ok t → ∀ s ∈ t.sections, s.rules ≠ [] ∧
      ∀ r ∈ s.rules, r.commands ≠ [] ∧ ∀ c ∈ r.commands, c.tokens ≠ [] := by
  refine ⟨?_, fun t => ofNodes_eq_ok_iff, ?_⟩
  · simp only [ofNodes_eq_ok_iff, Node.isRoot_iff text, ← exists_forall₂_iff]
    exact ⟨fun ⟨t, h⟩ => ⟨t.sections, h⟩, fun ⟨sections, h⟩ => ⟨⟨sections⟩, h⟩⟩
  · intro t ht s hs
    obtain ⟨n, _, hn⟩ := exists_of_mem_right (ofNodes_eq_ok_iff.mp ht) hs
    obtain ⟨directory, block, _, _, hb, hne, hr⟩ := hn.parts
    refine ⟨(Node.block_iff.mp ⟨block, hb, hne, hr⟩).1, fun r hm => ?_⟩
    obtain ⟨m, _, hm⟩ := exists_of_mem_right hr hm
    exact ⟨(Node.block_iff.mp hm.block).1, fun c _ => List.cons_ne_nil _ _⟩

def webText : String :=
  "root \"web/\" \x7b\n  pattern \"*.ts\" \"*.vue\" \x7b run \"lint\" \"$@\" \x7d\n\x7d\n"

def webTree : List Node :=
  let args := List.map (Entry.mk none ∘ Value.text)
  [⟨0, "root", args ["web/"], some [⟨16, "pattern", args ["*.ts", "*.vue"],
    some [⟨41, "run", args ["lint", "$@"], none⟩]⟩]⟩]

def webTable : RuleTable :=
  let below (text : String) : ScopedGlob :=
    ⟨"*" ++ text, ⟨"web/".toList.map .literal ++ .star :: text.toList.map .literal⟩⟩
  ⟨[⟨.dir "web", [⟨.anyOf [below ".ts", below ".vue"], [⟨"lint", ["$@"]⟩], 2⟩]⟩]⟩

theorem webTable_declared : ofNodes webText webTree = .ok webTable ∧
    ∀ s ∈ webTable.sections, s.rules ≠ [] ∧
      ∀ r ∈ s.rules, r.commands ≠ [] ∧ ∀ c ∈ r.commands, c.tokens ≠ [] :=
  have h : ofNodes webText webTree = .ok webTable := by decide +kernel
  ⟨h, (ofNodes_declared webText webTree).2.2 webTable h⟩

end RuleTable

end EditHook
