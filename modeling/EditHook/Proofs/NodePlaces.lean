import EditHook.Proofs.FirstMistake
import EditHook.Proofs.Nesting
import EditHook.Proofs.Offsets

/-! The places and lines of all nodes of a document. Their order is the one in which the nodes are
written, at any depth, so the rules of a table have their lines in the order of declaration. -/

namespace EditHook

namespace Node

mutual

theorem starts_within (around : List String) :
    ∀ n : Node, (n.within around).map (·.node.start) = n.starts
  | ⟨start, name, entries, block⟩ => by
    rw [within, List.map_cons, starts, starts_withinBlock]

theorem starts_withinBlock (around : List String) :
    ∀ block : Option (List Node), (withinBlock around block).map (·.node.start) = startsBlock block
  | none => by rw [withinBlock, startsBlock, List.map_nil]
  | some nodes => by rw [withinBlock, startsBlock, starts_withinAll]

theorem starts_withinAll (around : List String) :
    ∀ nodes : List Node, (withinAll around nodes).map (·.node.start) = startsAll nodes
  | [] => by rw [withinAll, startsAll, List.map_nil]
  | n :: ns => by
    rw [withinAll, startsAll, List.map_append, starts_within around n, starts_withinAll around ns]

end

theorem starts_of_mem_within {around : List String} {x : Occurrence} {nodes : List Node}
    (h : x ∈ withinAll around nodes) : x.node.start ∈ nodes.flatMap starts := by
  rw [← startsAll_eq_flatMap, ← starts_withinAll around]
  exact List.mem_map_of_mem h

theorem start_sublist_starts (nodes : List Node) :
    (nodes.map start).Sublist (nodes.flatMap starts) := by
  induction nodes with
  | nil => exact List.Sublist.refl _
  | cons n ns ih =>
    rw [List.map_cons, List.flatMap_cons, starts_eq, List.cons_append]
    exact (ih.trans (List.sublist_append_right _ _)).cons_cons _

end Node

namespace Document

variable {text : String}

theorem lineAt_mono {place place' : Nat} (h : place ≤ place') :
    lineAt text place ≤ lineAt text place' := by
  rw [lineAt_eq_count, lineAt_eq_count]
  have hp : (utf8 text).take place <+: (utf8 text).take place' := List.take_prefix_take_left h
  exact Nat.add_le_add_left (hp.sublist.count_le _) 1

theorem cut_of_mem_offsets {place : Nat} (h : place ∈ Scanner.offsets 0 text.toList) :
    place < (utf8 text).length ∧ ∃ before after : String, text = before ++ after ∧
      (utf8 before).length = place ∧ lineAt text place = 1 + before.toList.count '\n' := by
  obtain ⟨before, c, after, ht, rfl⟩ := Scanner.mem_offsets_iff.mp h
  rw [Nat.zero_add]
  refine ⟨?_, String.ofList before, String.ofList (c :: after), ?_, ?_, ?_⟩
  · have hc := c.utf8Size_pos
    rw [length_utf8, ht, byteLength_append, byteLength]
    omega
  · rw [← String.ofList_append, ← ht, String.ofList_toList]
  · rw [length_utf8, String.toList_ofList]
  · rw [lineAt, ht, feedsBefore_append, String.toList_ofList, Nat.add_comm]

end Document

section

variable {text : String}

theorem Node.DeclaresSection.lines_sublist {n : Node} {s : Section}
    (h : n.DeclaresSection text s) :
    (s.rules.map Rule.line).Sublist (n.starts.map (Document.lineAt text)) := by
  obtain ⟨directory, block, -, -, hb, -, hr⟩ := h.parts
  have hlines : s.rules.map Rule.line = (block.map Node.start).map (Document.lineAt text) := by
    rw [List.map_map, ← List.forall₂_eq_eq_eq, List.forall₂_map_left_iff,
      List.forall₂_map_right_iff]
    exact hr.flip.imp fun r n hd => hd.line
  have hstarts : (block.map Node.start).Sublist n.starts := by
    rw [Node.starts_eq, hb]
    exact (Node.start_sublist_starts block).cons _
  rw [hlines]
  exact hstarts.map _

theorem RuleTable.lines_sublist {nodes : List Node} {sections : List Section}
    (h : List.Forall₂ (Node.DeclaresSection text) nodes sections) :
    ((sections.flatMap Section.rules).map Rule.line).Sublist
      ((nodes.flatMap Node.starts).map (Document.lineAt text)) := by
  induction h with
  | nil => exact List.Sublist.refl _
  | cons hd _ ih =>
    rw [List.flatMap_cons, List.flatMap_cons, List.map_append, List.map_append]
    exact hd.lines_sublist.append ih

/-- The nodes of a document, each in front of the nodes inside it and of those behind it, start further
and further down the text, each at a character of its own. So every node is on a line of the text, and
the rules of a table are on lines that never go back. -/
theorem Document.nodes_start_in_order {nodes : List Node} (h : read? text = some nodes) :
    let all := Node.withinAll [] nodes
    (all.map (·.node.start)).Pairwise (· < ·) ∧
    (∀ x ∈ all, x.node.start < (utf8 text).length ∧
      ∃ before after : String, text = before ++ after ∧ (utf8 before).length = x.node.start ∧
        x.node.line text = 1 + before.toList.count '\n') ∧
    (∀ x ∈ all, 1 ≤ x.node.line text ∧ x.node.line text ≤ 1 + text.toList.count '\n') ∧
    ∀ t, RuleTable.ofText text = .ok t →
      ((t.sections.flatMap Section.rules).map Rule.line).Pairwise (· ≤ ·) := by
  intro all
  have hs := starts_sublist_of_read? h
  have hsorted := (Scanner.pairwise_offsets 0 text.toList).sublist hs
  have hcut (x : Occurrence) (hx : x ∈ all) :=
    cut_of_mem_offsets (hs.subset (Node.starts_of_mem_within hx))
  refine ⟨?_, hcut, fun x hx => ?_, fun t ht => ?_⟩
  · rw [Node.starts_withinAll, Node.startsAll_eq_flatMap]
    exact hsorted
  · obtain ⟨-, before, after, ht, -, hline⟩ := hcut x hx
    have hl : x.node.line text = 1 + before.toList.count '\n' := hline
    rw [hl, ht, String.toList_append, List.count_append]
    omega
  · obtain ⟨nodes', hn, hd⟩ := RuleTable.ofText_eq_ok_iff.mp ht
    obtain rfl : nodes = nodes' := Option.some.inj (h.symm.trans hn)
    have hlines : ((nodes.flatMap Node.starts).map (lineAt text)).Pairwise (· ≤ ·) :=
      List.pairwise_map.mpr (hsorted.imp fun hlt => lineAt_mono (Nat.le_of_lt hlt))
    exact hlines.sublist (RuleTable.lines_sublist hd)

end

def markedText : String :=
  "\uFEFF(d)root \"é\" \x7b /-p \"é\"\n pattern \"*\" \x7b run \"a\" \x7d; " ++
    "pattern \"?\" \x7b\nrun \"é\"\x7d \x7d"

theorem Document.nodes_start_in_order_marked :
    ∃ nodes t, read? markedText = some nodes ∧ RuleTable.ofText markedText = .ok t ∧
      (Node.withinAll [] nodes).map (fun x => (x.node.start, x.node.name, x.node.line markedText)) =
        [(3, "root", 1), (28, "pattern", 2), (42, "run", 2), (53, "pattern", 2), (67, "run", 3)] ∧
      ((Node.withinAll [] nodes).map (·.node.start)).Pairwise (· < ·) ∧
      (t.sections.flatMap Section.rules).map Rule.line = [2, 2] ∧
      ((t.sections.flatMap Section.rules).map Rule.line).Pairwise (· ≤ ·) := by
  have hboth : (read? markedText).map (fun nodes => (Node.withinAll [] nodes).map fun x =>
        (x.node.start, x.node.name, x.node.line markedText)) =
          some [(3, "root", 1), (28, "pattern", 2), (42, "run", 2), (53, "pattern", 2),
            (67, "run", 3)] ∧
      (RuleTable.ofText markedText).toOption.map (fun t =>
        (t.sections.flatMap Section.rules).map Rule.line) = some [2, 2] := by decide +kernel
  obtain ⟨nodes, hn, hplaces⟩ := Option.map_eq_some_iff.mp hboth.1
  obtain ⟨t, ht, hlines⟩ := Option.map_eq_some_iff.mp hboth.2
  have ht : RuleTable.ofText markedText = .ok t := by
    cases he : RuleTable.ofText markedText with
    | ok t' => simpa [he, Except.toOption] using ht
    | error e => simp [he, Except.toOption] at ht
  obtain ⟨hsorted, -, -, hrules⟩ := nodes_start_in_order hn
  exact ⟨nodes, t, hn, ht, hplaces, hsorted, hlines, hrules t ht⟩

end EditHook
