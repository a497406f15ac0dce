import EditHook.Proofs.Declaring
import EditHook.Rules.Locate

/-! What a table that loads was made from: a text that is a document, whose nodes declare it. -/

namespace EditHook

theorem Pattern.globs_of_holds {globs : List ScopedGlob} {p : Pattern} (h : p.Holds globs) :
    p.globs = globs := by
  cases p with
  | single g => exact h.symm
  | anyOf gs => exact h.1.symm

namespace Node

variable {text path : String} {root : Root} {n : Node} {r : Rule} {globTexts : List String}

theorem arguments_inj {texts : List String} (h : n.Arguments texts) (h' : n.Arguments globTexts) :
    texts = globTexts := by
  have hi : Function.Injective fun s : String => (⟨none, .text s⟩ : Entry) := by
    intro a b hab
    simpa using hab
  exact hi.list_map (h.symm.trans h')

/-- A rule accepts what any of its globs accepts, each with the root in front. -/
theorem DeclaresRule.accepts_iff (h : n.DeclaresRule text root r) (ht : n.Arguments globTexts) :
    r.pattern.accepts path = true ↔ ∃ glob ∈ globTexts, ∃ g,
      Glob.compile (root.qualify glob) = .ok g ∧ g.accepts path = true := by
  obtain ⟨globs, hg, hp, hc⟩ := h.arguments
  obtain rfl := arguments_inj hg ht
  rw [Pattern.accepts, Pattern.globs_of_holds hp, List.any_eq_true]
  constructor
  · rintro ⟨g, hm, ha⟩
    exact ⟨g.text, List.mem_map_of_mem hm, g.glob, hc g hm, ha⟩
  · rintro ⟨_, hm, g, hg, ha⟩
    obtain ⟨g', hm', rfl⟩ := List.mem_map.mp hm
    rw [hc g' hm'] at hg
    cases hg
    exact ⟨g', hm', ha⟩

theorem declaresCommand_inj {c c' : Command} (h : n.DeclaresCommand c)
    (h' : n.DeclaresCommand c') : c = c' := by
  obtain ⟨hp, ha⟩ := List.cons.inj (arguments_inj h.arguments h'.arguments)
  cases c
  cases c'
  simp_all

theorem DeclaresRule.commands_eq {root' : Root} {r' : Rule} (h : n.DeclaresRule text root r)
    (h' : n.DeclaresRule text root' r') : r.commands = r'.commands := by
  obtain ⟨block, hb, _, hm⟩ := h.block
  obtain ⟨block', hb', _, hm'⟩ := h'.block
  obtain rfl : block = block' := by simpa using hb.symm.trans hb'
  have hu : Relator.RightUnique Node.DeclaresCommand := fun _ _ _ => declaresCommand_inj
  exact hu.forall₂ hm hm'

end Node

namespace RuleTable

theorem ofText_eq_ok_iff {text : String} {t : RuleTable} :
    ofText text = .ok t ↔ ∃ nodes, Document.read? text = some nodes ∧
      List.Forall₂ (Node.DeclaresSection text) nodes t.sections := by
  rw [ofText]
  cases hn : Document.read? text with
  | none => simp
  | some nodes => simp [ofNodes_eq_ok_iff]

theorem load_eq_ok {files : FileView} {path : RawPath} {t : RuleTable}
    (h : load files path = .ok t) : ∃ text, ofText text = .ok t := by
  unfold load at h
  split at h
  · cases h
  · cases h
  · split at h
    · exact ⟨_, h⟩
    · cases h

theorem locate_eq_ok {files : FileView} {config : Option RawPath} {cwd : String} {t : RuleTable}
    (h : (locate files config cwd).2 = .ok t) : ∃ text, ofText text = .ok t := by
  unfold locate at h
  split at h
  · exact load_eq_ok h
  · dsimp only at h
    split at h
    · exact load_eq_ok h
    · simp only [builtIn] at h
      exact ⟨defaultText, h⟩

theorem mem_select {t : RuleTable} {path : String} {x : Selected} (h : x ∈ t.select path) :
    ∃ s ∈ t.sections, ∃ r ∈ s.rules, r.pattern.accepts path = true ∧ x.root = s.root := by
  obtain ⟨⟨root, r⟩, hr, hx⟩ := List.mem_flatMap.mp h
  obtain ⟨s, hs, hr⟩ := List.mem_flatMap.mp hr
  obtain ⟨r', hr, he⟩ := List.mem_map.mp hr
  obtain ⟨hm, ha⟩ := List.mem_filter.mp hr
  obtain ⟨c, _, rfl⟩ := List.mem_map.mp hx
  cases he
  exact ⟨s, hs, r, hm, ha, rfl⟩

/-- A command of a table that was loaded runs for the sake of a glob under its own root. -/
theorem glob_of_mem_select {text path : String} {t : RuleTable} {x : Selected}
    (h : ofText text = .ok t) (hx : x ∈ t.select path) :
    ∃ rootText glob g, x.root = .ofText rootText ∧
      Glob.compile (x.root.qualify glob) = .ok g ∧ g.accepts path = true := by
  obtain ⟨s, hs, r, hr, ha, hroot⟩ := mem_select hx
  obtain ⟨nodes, _, hn⟩ := ofText_eq_ok_iff.mp h
  obtain ⟨n, _, hn⟩ := exists_of_mem_right hn hs
  obtain ⟨directory, block, _, hsr, _, _, hrules⟩ := hn.parts
  obtain ⟨m, _, hm⟩ := exists_of_mem_right hrules hr
  obtain ⟨globs, _, hp, hc⟩ := hm.arguments
  rw [Pattern.accepts, Pattern.globs_of_holds hp, List.any_eq_true] at ha
  obtain ⟨g, hg, ha⟩ := ha
  exact ⟨directory, g.text, g.glob, hroot.trans hsr, hroot ▸ hc g hg, ha⟩

end RuleTable

end EditHook
