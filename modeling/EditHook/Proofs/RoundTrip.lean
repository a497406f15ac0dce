import EditHook.Proofs.TableText

/-! What is left of a table that is written and loaded again: all of it, in the order in which it
was written, and the number of the line on which each pattern was put. -/

namespace EditHook

open Document

/-- What a rule says and where, its globs as they are written. -/
structure RuleOutline where
  globs : List String
  commands : List Command
  line : Nat

structure SectionOutline where
  root : Root
  rules : List RuleOutline

def Rule.outline (r : Rule) : RuleOutline :=
  ⟨r.pattern.globs.map ScopedGlob.text, r.commands, r.line⟩

def Section.outline (s : Section) : SectionOutline :=
  ⟨s.root, s.rules.map Rule.outline⟩

def RuleSource.outline (line : Nat) (r : RuleSource) : RuleOutline :=
  ⟨r.globs, r.commands, line⟩

def SectionSource.outline (line : Nat) (s : SectionSource) : SectionOutline :=
  ⟨.ofText s.directory, laid (fun r => r.lines.length) RuleSource.outline (line + 1) s.rules⟩

variable {text : String} {above below : List Char}

/-- If things are declared by their nodes wherever in the text they are written, then so are several
of them one below the other. -/
theorem exists_laid {lines : α → List (List Char)} {node : Nat → α → Node} {R : Node → β → Prop}
    {out : β → γ} {expected : Nat → α → γ} {xs : List α}
    (hl : ∀ x ∈ xs, ∀ line ∈ lines x, '\n' ∉ line)
    (hx : ∀ x ∈ xs, ∀ above below, text.toList = above ++ (ended (lines x) ++ below) →
      ∃ y, R (node (byteLength above) x) y ∧ out y = expected (above.count '\n' + 1) x)
    (ht : text.toList = above ++ (ended (xs.flatMap lines) ++ below)) :
    ∃ ys, List.Forall₂ R (nodesOf lines node (byteLength above) xs) ys ∧
      ys.map out = laid (fun x => (lines x).length) expected (above.count '\n' + 1) xs := by
  -- the lines of the first thing join those above the others
  induction xs generalizing above with
  | nil => exact ⟨[], .nil, rfl⟩
  | cons x xs ih =>
    rw [List.flatMap_cons, ended_append, List.append_assoc] at ht
    obtain ⟨y, hy, ho⟩ := hx x List.mem_cons_self above _ ht
    obtain ⟨ys, hys, hos⟩ := ih (fun z hz => hl z (List.mem_cons_of_mem x hz))
      (fun z hz => hx z (List.mem_cons_of_mem x hz)) (by rw [ht, List.append_assoc])
    rw [List.count_append, count_ended (hl x List.mem_cons_self), Nat.add_right_comm] at hos
    rw [byteLength_append] at hys
    exact ⟨y :: ys, .cons hy hys, congrArg₂ List.cons ho hos⟩

theorem laid_ne_nil {size : α → Nat} {f : Nat → α → β} {position : Nat} {xs : List α}
    (h : xs ≠ []) : laid size f position xs ≠ [] := by
  cases xs with
  | nil => exact absurd rfl h
  | cons x xs => exact List.cons_ne_nil _ _

theorem count_opening {name : String} (hn : IsName name) (indent : Nat) (texts : List String) :
    (above ++ (nodeHead indent name texts ++ [' ', '\x7b', '\n'])).count '\n' =
      above.count '\n' + 1 := by
  have hc := List.count_eq_zero.mpr (newline_notMem_nodeHead hn indent texts)
  simp [List.count_append, hc]

theorem forall₂_declaresCommand (here : Nat) (cs : List Command) :
    List.Forall₂ Node.DeclaresCommand (nodesOf Command.lines Command.node here cs) cs := by
  induction cs generalizing here with
  | nil => exact .nil
  | cons c cs ih =>
    refine .cons ⟨rfl, ?_⟩ (ih _)
    simp [Node.Arguments, Command.node, argument]

theorem RuleSource.exists_rule {root : Root} (r : RuleSource)
    (hc : ∀ glob ∈ r.globs, ∃ g, Glob.compile (root.qualify glob) = .ok g)
    (ht : text.toList = above ++ (ended r.lines ++ below)) :
    ∃ rule, Node.DeclaresRule text root (r.node (byteLength above)) rule ∧
      rule.outline = r.outline (above.count '\n' + 1) := by
  obtain ⟨globs, hg, hc⟩ := Node.exists_globs hc
  have hp : (Pattern.ofGlobs globs).Holds globs :=
    Pattern.holds_iff.mpr ⟨fun h => r.globs_ne (by rw [hg, h]; rfl), rfl⟩
  have hline : lineAt text (byteLength above + 4) = above.count '\n' + 1 := by
    obtain ⟨rest, hrest⟩ := indented_blockLines 4 "pattern" r.globs
      (r.commands.flatMap Command.lines)
    rw [lines, hrest, List.append_assoc] at ht
    exact lineAt_indented ht
  refine ⟨⟨.ofGlobs globs, r.commands, above.count '\n' + 1⟩,
    ⟨rfl, ⟨globs, ?_, hp, hc⟩, ⟨_, rfl, laid_ne_nil r.commands_ne, forall₂_declaresCommand _ _⟩,
      hline.symm⟩, ?_⟩
  · rw [← hg]
    rfl
  · simp [Rule.outline, outline, Pattern.globs_of_holds hp, hg]

theorem SectionSource.exists_section (s : SectionSource)
    (hc : ∀ r ∈ s.rules, ∀ glob ∈ r.globs,
      ∃ g, Glob.compile ((Root.ofText s.directory).qualify glob) = .ok g)
    (ht : text.toList = above ++ (ended s.lines ++ below)) :
    ∃ sec, Node.DeclaresSection text (s.node (byteLength above)) sec ∧
      sec.outline = s.outline (above.count '\n' + 1) := by
  have ht' : text.toList = (above ++ (nodeHead 0 "root" [s.directory] ++ [' ', '\x7b', '\n'])) ++
      (ended (s.rules.flatMap RuleSource.lines) ++
        (List.replicate 0 ' ' ++ ['\x7d', '\n'] ++ below)) := by
    rw [ht, lines, ended_blockLines]
    simp only [List.append_assoc]
  obtain ⟨rules, hr, ho⟩ := exists_laid (fun r _ => r.newline_notMem)
    (fun r hm _ _ h => r.exists_rule (hc r hm) h) ht'
  rw [byteLength_append] at hr
  rw [count_opening isName_root] at ho
  exact ⟨⟨.ofText s.directory, rules⟩,
    ⟨rfl, s.directory, _, rfl, rfl, rfl, laid_ne_nil s.rules_ne, hr⟩, by
      rw [Section.outline, ho]
      rfl⟩

namespace RuleTable

/-- A table loads from the text that is written of it, and nothing is lost. -/
theorem ofText_written (ss : List SectionSource)
    (h : ∀ s ∈ ss, ∀ r ∈ s.rules, ∀ glob ∈ r.globs,
      ∃ g, Glob.compile ((Root.ofText s.directory).qualify glob) = .ok g) :
    ∃ t, ofText (SectionSource.text ss) = .ok t ∧
      t.sections.map Section.outline =
        laid (fun s => s.lines.length) SectionSource.outline 1 ss := by
  have ht : (SectionSource.text ss).toList =
      [] ++ (ended (ss.flatMap SectionSource.lines) ++ []) := by
    simp [SectionSource.text]
  obtain ⟨sections, hs, ho⟩ := exists_laid (fun s _ => s.newline_notMem)
    (fun s hm _ _ he => s.exists_section (h s hm) he) ht
  exact ⟨⟨sections⟩, ofText_eq_ok_iff.mpr ⟨_, SectionSource.read?_text ss, hs⟩, ho⟩

def mixedSource : List SectionSource :=
  [⟨"web/", [⟨["*.\x7bts,vue\x7d", "\"\u00e9\"\n// 😀"],
      [⟨"lint", ["$@"]⟩, ⟨"say", ["\\ \u2028", ""]⟩], by simp, by simp⟩], by simp⟩,
    ⟨"/", [⟨["*.md"], [⟨"fmt", ["$@"]⟩], by simp, by simp⟩], by simp⟩]

theorem ofText_written_mixed :
    ∃ t, ofText (SectionSource.text mixedSource) = .ok t ∧
      t.sections.map Section.outline =
        [⟨.dir "web", [⟨["*.\x7bts,vue\x7d", "\"\u00e9\"\n// 😀"],
            [⟨"lint", ["$@"]⟩, ⟨"say", ["\\ \u2028", ""]⟩], 2⟩]⟩,
          ⟨.repository, [⟨["*.md"], [⟨"fmt", ["$@"]⟩], 8⟩]⟩] := by
  refine ofText_written mixedSource ?_
  simp only [mixedSource, List.forall_mem_cons, List.not_mem_nil, false_implies, implies_true,
    and_true]
  exact ⟨⟨⟨_, rfl⟩, ⟨_, rfl⟩⟩, ⟨_, rfl⟩⟩

end RuleTable

end EditHook
