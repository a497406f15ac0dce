import EditHook.Proofs.Loading
import EditHook.Proofs.NodeLines
import EditHook.Proofs.Offsets

/-! Rule tables to be written, their text with one node on a line and every string in quotes, and the
nodes that are read from it. -/

namespace EditHook

structure RuleSource where
  globs : List String
  commands : List Command
  globs_ne : globs ≠ []
  commands_ne : commands ≠ []

structure SectionSource where
  directory : String
  rules : List RuleSource
  rules_ne : rules ≠ []

namespace Document

def ended (lines : List (List Char)) : List Char :=
  lines.flatMap (· ++ ['\n'])

theorem ended_append (lines more : List (List Char)) :
    ended (lines ++ more) = ended lines ++ ended more :=
  List.flatMap_append

theorem newline_notMem_nodeHead {name : String} (hn : IsName name) (indent : Nat)
    (texts : List String) : '\n' ∉ nodeHead indent name texts := by
  simp only [nodeHead, List.mem_append, List.mem_flatMap, List.mem_cons, not_or, not_exists,
    not_and]
  refine ⟨fun h => ?_, fun h => ?_, fun s _ => ⟨by decide, Scanner.newline_notMem_quote s⟩⟩
  · exact absurd (List.eq_of_mem_replicate h) (by decide)
  · exact absurd (hn.word _ h) (by decide)

theorem count_ended {lines : List (List Char)} (h : ∀ line ∈ lines, '\n' ∉ line) :
    (ended lines).count '\n' = lines.length := by
  induction lines with
  | nil => rfl
  | cons line lines ih =>
    have hl := List.count_eq_zero.mpr (h line List.mem_cons_self)
    have hr := ih fun l hm => h l (List.mem_cons_of_mem line hm)
    rw [ended] at hr ⊢
    rw [List.flatMap_cons, List.count_append, List.count_append, hl, hr]
    simp [Nat.add_comm]

end Document

open Document

theorem isName_run : IsName "run" := ⟨List.all_eq_true.mp (by decide), by decide, by decide⟩

theorem isName_pattern : IsName "pattern" := ⟨List.all_eq_true.mp (by decide), by decide, by decide⟩

theorem isName_root : IsName "root" := ⟨List.all_eq_true.mp (by decide), by decide, by decide⟩

/-- The lines of a node with a block. -/
def blockLines (indent : Nat) (name : String) (texts : List String) (inner : List (List Char)) :
    List (List Char) :=
  (nodeHead indent name texts ++ [' ', '\x7b']) ::
    (inner ++ [List.replicate indent ' ' ++ ['\x7d']])

theorem ended_blockLines (indent : Nat) (name : String) (texts : List String)
    (inner : List (List Char)) :
    ended (blockLines indent name texts inner) = nodeHead indent name texts ++
      [' ', '\x7b', '\n'] ++ (ended inner ++ (List.replicate indent ' ' ++ ['\x7d', '\n'])) := by
  simp [ended, blockLines]

theorem indented_blockLines (indent : Nat) (name : String) (texts : List String)
    (inner : List (List Char)) :
    ∃ rest, ended (blockLines indent name texts inner) = List.replicate indent ' ' ++ rest := by
  simp only [ended_blockLines, nodeHead, List.append_assoc]
  exact ⟨_, rfl⟩

theorem newline_notMem_blockLines {name : String} (hn : IsName name) (indent : Nat)
    (texts : List String) {inner : List (List Char)} (h : ∀ line ∈ inner, '\n' ∉ line) :
    ∀ line ∈ blockLines indent name texts inner, '\n' ∉ line := by
  intro line hl
  simp only [blockLines, List.mem_cons, List.mem_append, List.not_mem_nil, or_false] at hl
  rcases hl with rfl | hl | rfl
  · simp [newline_notMem_nodeHead hn]
  · exact h line hl
  · simp

def blockNode (indent : Nat) (name : String) (texts : List String) (inner : Nat → List Node)
    (here : Nat) : Node :=
  ⟨here + indent, name, texts.map argument,
    some (inner (here + byteLength (nodeHead indent name texts ++ [' ', '\x7b', '\n'])))⟩

theorem reads_blockLines {name : String} (hn : IsName name) {texts : List String} (ht : texts ≠ [])
    (indent here : Nat) {lines : List (List Char)} {inner : Nat → List Node}
    (h : ∀ p, Reads (ended lines) p (inner p)) :
    Reads (ended (blockLines indent name texts lines)) here
      [blockNode indent name texts inner here] := by
  rw [ended_blockLines]
  exact reads_block hn ht indent here (h _)

def nodesOf (lines : α → List (List Char)) (node : Nat → α → Node) : Nat → List α → List Node :=
  laid (fun x => byteLength (ended (lines x))) node

theorem reads_nodesOf {lines : α → List (List Char)} {node : Nat → α → Node} {xs : List α}
    (h : ∀ x here, Reads (ended (lines x)) here [node here x]) (here : Nat) :
    Reads (ended (xs.flatMap lines)) here (nodesOf lines node here xs) := by
  rw [ended, List.flatMap_assoc]
  exact reads_laid (fun x _ here => h x here) here

theorem lineAt_indented {text : String} {above below : List Char} {indent : Nat}
    (h : text.toList = above ++ (List.replicate indent ' ' ++ below)) :
    lineAt text (byteLength above + indent) = above.count '\n' + 1 := by
  have hc : (above ++ List.replicate indent ' ').count '\n' = above.count '\n' := by
    simp [List.count_append, List.count_replicate]
  rw [lineAt, h, ← List.append_assoc, ← byteLength_spaces indent, ← byteLength_append,
    byteLength_spaces, feedsBefore_append, hc]

namespace Command

def lines (c : Command) : List (List Char) :=
  [nodeHead 8 "run" c.tokens]

def node (here : Nat) (c : Command) : Node :=
  ⟨here + 8, "run", c.tokens.map argument, none⟩

theorem reads (c : Command) (here : Nat) : Reads (ended c.lines) here [c.node here] := by
  have hl : ended c.lines = nodeHead 8 "run" c.tokens ++ ['\n'] := by simp [ended, lines]
  rw [hl]
  exact reads_node isName_run (List.cons_ne_nil _ _) 8 here

theorem newline_notMem (c : Command) : ∀ line ∈ c.lines, '\n' ∉ line := by
  simp [lines, newline_notMem_nodeHead isName_run]

end Command

namespace RuleSource

def lines (r : RuleSource) : List (List Char) :=
  blockLines 4 "pattern" r.globs (r.commands.flatMap Command.lines)

def node (here : Nat) (r : RuleSource) : Node :=
  blockNode 4 "pattern" r.globs (nodesOf Command.lines Command.node · r.commands) here

theorem reads (r : RuleSource) (here : Nat) : Reads (ended r.lines) here [r.node here] :=
  reads_blockLines isName_pattern r.globs_ne 4 here (reads_nodesOf Command.reads)

theorem newline_notMem (r : RuleSource) : ∀ line ∈ r.lines, '\n' ∉ line := by
  refine newline_notMem_blockLines isName_pattern 4 r.globs fun line hl => ?_
  obtain ⟨c, _, hc⟩ := List.mem_flatMap.mp hl
  exact c.newline_notMem line hc

end RuleSource

namespace SectionSource

def lines (s : SectionSource) : List (List Char) :=
  blockLines 0 "root" [s.directory] (s.rules.flatMap RuleSource.lines)

def node (here : Nat) (s : SectionSource) : Node :=
  blockNode 0 "root" [s.directory] (nodesOf RuleSource.lines RuleSource.node · s.rules) here

theorem reads (s : SectionSource) (here : Nat) : Reads (ended s.lines) here [s.node here] :=
  reads_blockLines isName_root (List.cons_ne_nil _ _) 0 here (reads_nodesOf RuleSource.reads)

theorem newline_notMem (s : SectionSource) : ∀ line ∈ s.lines, '\n' ∉ line := by
  refine newline_notMem_blockLines isName_root 0 _ fun line hl => ?_
  obtain ⟨r, _, hr⟩ := List.mem_flatMap.mp hl
  exact r.newline_notMem line hr

def text (ss : List SectionSource) : String :=
  String.ofList (ended (ss.flatMap lines))

theorem read?_text (ss : List SectionSource) :
    read? (text ss) = some (nodesOf lines node 0 ss) := by
  refine read?_of_reads ?_ (reads_nodesOf reads 0)
  cases ss <;> simp [ended, lines, blockLines, nodeHead]

example : text [⟨"web", [⟨["*.ts", "a\"\u00e9"], [⟨"lint", ["$@"]⟩], by simp, by simp⟩], by simp⟩] =
    "root \"web\" \x7b\n" ++
    "    pattern \"*.ts\" \"a\\\"\\u\x7be9\x7d\" \x7b\n" ++
    "        run \"lint\" \"$@\"\n" ++
    "    \x7d\n\x7d\n" := by
  decide +kernel

end SectionSource

end EditHook
