import EditHook.Proofs.Loading

/-! Where the nodes of a document stand. In the document of a table that loads, every node is in
its place and declares one part of the table, but for the nodes inside the block of a `run`, which
nothing reads. -/

namespace EditHook

/-- A node with the names of the nodes around it, innermost first. -/
structure Occurrence where
  around : List String
  node : Node

namespace Occurrence

def InPlace (x : Occurrence) : Prop :=
  (x.around, x.node.name) ∈
    [([], "root"), (["root"], "pattern"), (["pattern", "root"], "run")]

instance : DecidablePred InPlace :=
  fun _ => inferInstanceAs (Decidable (_ ∈ _))

/-- Somewhere in the block of a run that is in its place. -/
def InsideRun (x : Occurrence) : Prop :=
  ["run", "pattern", "root"] <:+ x.around

theorem InsideRun.not_inPlace {x : Occurrence} (h : x.InsideRun) : ¬ x.InPlace := by
  intro hp
  have hl := h.length_le
  simp only [InPlace, List.mem_cons, Prod.mk.injEq, List.not_mem_nil, or_false] at hp
  rcases hp with ⟨ha, _⟩ | ⟨ha, _⟩ | ⟨ha, _⟩ <;> simp [ha] at hl

end Occurrence

namespace Node

mutual

def within (around : List String) : Node → List Occurrence
  | ⟨start, name, entries, block⟩ =>
    ⟨around, ⟨start, name, entries, block⟩⟩ :: withinBlock (name :: around) block

def withinBlock (around : List String) : Option (List Node) → List Occurrence
  | none => []
  | some nodes => withinAll around nodes

def withinAll (around : List String) : List Node → List Occurrence
  | [] => []
  | n :: ns => n.within around ++ withinAll around ns

end

theorem within_eq (around : List String) (n : Node) :
    n.within around = ⟨around, n⟩ :: withinAll (n.name :: around) (n.children.getD []) := by
  obtain ⟨start, name, entries, block⟩ := n
  cases block <;> simp [within, withinBlock, withinAll]

mutual

theorem suffix_of_mem_within {around : List String} {x : Occurrence} :
    ∀ n : Node, x ∈ n.within around → around <:+ x.around
  | ⟨start, name, entries, block⟩, h => by
    rw [within] at h
    rcases List.mem_cons.mp h with rfl | h
    · exact List.suffix_rfl
    · exact (List.suffix_cons name around).trans (suffix_of_mem_withinBlock block h)

theorem suffix_of_mem_withinBlock {around : List String} {x : Occurrence} :
    ∀ block : Option (List Node), x ∈ withinBlock around block → around <:+ x.around
  | none, h => by simp [withinBlock] at h
  | some nodes, h => suffix_of_mem_withinAll nodes h

theorem suffix_of_mem_withinAll {around : List String} {x : Occurrence} :
    ∀ nodes : List Node, x ∈ withinAll around nodes → around <:+ x.around
  | [], h => by simp [withinAll] at h
  | n :: ns, h => by
    rw [withinAll] at h
    rcases List.mem_append.mp h with h | h
    · exact suffix_of_mem_within n h
    · exact suffix_of_mem_withinAll ns h

end

theorem withinAll_eq_nil_iff (around : List String) {nodes : List Node} :
    withinAll around nodes = [] ↔ nodes = [] := by
  cases nodes with
  | nil => simp [withinAll]
  | cons n ns => simp [withinAll, within_eq]

end Node

def Occurrence.Closed (x : Occurrence) : Prop :=
  x.InPlace → x.node.name = "run" → x.node.children.getD [] = []

/-- So many of these are in their place. The others are inside runs, and there are others only if a
run has nodes in its block. -/
structure Tally (xs : List Occurrence) (count : Nat) : Prop where
  inPlace : xs.countP (·.InPlace) = count
  others : ∀ x ∈ xs, x.InPlace ∨ x.InsideRun
  all_iff : (∀ x ∈ xs, x.InPlace) ↔ ∀ x ∈ xs, x.Closed

namespace Tally

theorem nil : Tally [] 0 := ⟨rfl, by simp, by simp⟩

theorem append {xs ys : List Occurrence} {i j : Nat} (hx : Tally xs i) (hy : Tally ys j) :
    Tally (xs ++ ys) (i + j) where
  inPlace := by rw [List.countP_append, hx.inPlace, hy.inPlace]
  others := List.forall_mem_append.mpr ⟨hx.others, hy.others⟩
  all_iff := by rw [List.forall_mem_append, List.forall_mem_append, hx.all_iff, hy.all_iff]

theorem cons {x : Occurrence} {xs : List Occurrence} {i : Nat} (hp : x.InPlace)
    (hn : x.node.name ≠ "run") (h : Tally xs i) : Tally (x :: xs) (i + 1) where
  inPlace := by simp [hp, h.inPlace]
  others := List.forall_mem_cons.mpr ⟨.inl hp, h.others⟩
  all_iff := by
    have hc : x.Closed := fun _ he => absurd he hn
    simp only [List.forall_mem_cons, hp, hc, true_and, h.all_iff]

theorem run {n : Node} (hn : n.name = "run") : Tally (n.within ["pattern", "root"]) 1 := by
  have hp : (⟨["pattern", "root"], n⟩ : Occurrence).InPlace := by simp [Occurrence.InPlace, hn]
  have hr : ∀ x ∈ Node.withinAll [n.name, "pattern", "root"] (n.children.getD []),
      x.InsideRun := by
    rw [hn]
    exact fun x hx => Node.suffix_of_mem_withinAll _ hx
  have hnone := fun x hx => (hr x hx).not_inPlace
  rw [Node.within_eq]
  refine ⟨?_, List.forall_mem_cons.mpr ⟨.inl hp, fun x hx => .inr (hr x hx)⟩, ?_⟩
  · simpa [hp, List.countP_eq_zero] using hnone
  -- what is inside is never in its place, so all is in its place only if there is nothing inside
  · have hc : ∀ x ∈ Node.withinAll [n.name, "pattern", "root"] (n.children.getD []), x.Closed :=
      fun x hx hxp => absurd hxp (hnone x hx)
    have hh : (⟨["pattern", "root"], n⟩ : Occurrence).Closed ↔ n.children.getD [] = [] :=
      ⟨fun h => h hp hn, fun h _ _ => h⟩
    simp only [List.forall_mem_cons, hp, true_and, hh, and_iff_left hc]
    rw [← Node.withinAll_eq_nil_iff [n.name, "pattern", "root"],
      List.eq_nil_iff_forall_not_mem]
    exact ⟨fun h x hx => hnone x hx (h x hx), fun h x hx => absurd hx (h x)⟩

theorem withinAll {R : Node → β → Prop} {around : List String} (total : List β → Nat)
    (hnil : total [] = 0)
    (hcons : ∀ n y ys, R n y → ∃ i, Tally (n.within around) i ∧ total (y :: ys) = i + total ys)
    {nodes : List Node} {ys : List β} (h : List.Forall₂ R nodes ys) :
    Tally (Node.withinAll around nodes) (total ys) := by
  induction h with
  | nil =>
    rw [hnil]
    exact nil
  | cons hn _ ih =>
    obtain ⟨i, ht, he⟩ := hcons _ _ _ hn
    rw [he]
    exact ht.append ih

theorem commands {block : List Node} {cs : List Command}
    (h : List.Forall₂ Node.DeclaresCommand block cs) :
    Tally (Node.withinAll ["pattern", "root"] block) cs.length :=
  withinAll List.length rfl (fun _ _ _ hn => ⟨1, run hn.name, by simp [Nat.add_comm]⟩) h

theorem rule {text : String} {root : Root} {n : Node} {r : Rule}
    (h : n.DeclaresRule text root r) : Tally (n.within ["root"]) (r.commands.length + 1) := by
  obtain ⟨block, hb, _, hm⟩ := h.block
  rw [Node.within_eq, hb, h.name]
  exact cons (by simp [Occurrence.InPlace, h.name]) (by simp [h.name]) (commands hm)

theorem rules {text : String} {root : Root} {block : List Node} {rs : List Rule}
    (h : List.Forall₂ (Node.DeclaresRule text root) block rs) :
    Tally (Node.withinAll ["root"] block) (rs.length + (rs.flatMap Rule.commands).length) := by
  refine withinAll (fun rs => rs.length + (rs.flatMap Rule.commands).length) rfl ?_ h
  intro n r rs hn
  refine ⟨_, rule hn, ?_⟩
  simp only [List.length_cons, List.flatMap_cons, List.length_append]
  omega

theorem sections {text : String} {nodes : List Node} {ss : List Section}
    (h : List.Forall₂ (Node.DeclaresSection text) nodes ss) :
    Tally (Node.withinAll [] nodes) (ss.length + (ss.flatMap Section.rules).length +
      ((ss.flatMap Section.rules).flatMap Rule.commands).length) := by
  refine withinAll (fun ss => ss.length + (ss.flatMap Section.rules).length +
      ((ss.flatMap Section.rules).flatMap Rule.commands).length) rfl ?_ h
  intro n s ss hn
  obtain ⟨directory, block, _, _, hb, _, hr⟩ := hn.parts
  have ht : Tally (n.within []) (s.rules.length + (s.rules.flatMap Rule.commands).length + 1) := by
    rw [Node.within_eq, hb, hn.name]
    exact cons (by simp [Occurrence.InPlace, hn.name]) (by simp [hn.name]) (rules hr)
  refine ⟨_, ht, ?_⟩
  simp only [List.length_cons, List.flatMap_cons, List.flatMap_append, List.length_append]
  omega

end Tally

namespace RuleTable

def size (t : RuleTable) : Nat :=
  let rules := t.sections.flatMap Section.rules
  t.sections.length + rules.length + (rules.flatMap Rule.commands).length

/-- The nodes of a document that loads. Its table has a part for each node that is in its place; the
nodes that have none are those in the blocks of runs. -/
theorem nodes_of_loaded {text : String} {t : RuleTable} (h : ofText text = .ok t) :
    ∃ nodes, Document.read? text = some nodes ∧
      let all := Node.withinAll [] nodes
      (∀ x ∈ all, ¬ x.InPlace ↔ x.InsideRun) ∧
      (all.filter (·.InPlace)).length = t.size ∧
      (all.length = t.size ↔ ∀ x ∈ all, x.InPlace) ∧
      ((∀ x ∈ all, x.InPlace) ↔
        ∀ x ∈ all, x.InPlace → x.node.name = "run" → x.node.children.getD [] = []) := by
  obtain ⟨nodes, hn, hd⟩ := ofText_eq_ok_iff.mp h
  obtain ⟨hp, ho, ha⟩ := Tally.sections hd
  refine ⟨nodes, hn, fun x hx => ⟨(ho x hx).resolve_left, Occurrence.InsideRun.not_inPlace⟩,
    ?_, ?_, ha⟩
  · rw [← List.countP_eq_length_filter]
    exact hp
  · rw [size, ← hp, eq_comm, List.countP_eq_length]
    simp

def nestedText : String :=
  "root \"/\" \x7b pattern \"*.md\" \x7b run \"fmt\" \"$@\" \x7b run \"lint\" \"$@\" \x7d \x7d \x7d"

def nestedTable : RuleTable :=
  ⟨[⟨.repository, [⟨.single ⟨"*.md", ⟨.star :: ".md".toList.map .literal⟩⟩,
    [⟨"fmt", ["$@"]⟩], 1⟩]⟩]⟩

theorem nodes_of_nestedText : ofText nestedText = .ok nestedTable ∧
    ∃ nodes, Document.read? nestedText = some nodes ∧
      let all := Node.withinAll [] nodes
      (∀ x ∈ all, ¬ x.InPlace ↔ x.InsideRun) ∧
      (all.filter (·.InPlace)).length = nestedTable.size ∧
      (all.length = nestedTable.size ↔ ∀ x ∈ all, x.InPlace) ∧
      ((∀ x ∈ all, x.InPlace) ↔
        ∀ x ∈ all, x.InPlace → x.node.name = "run" → x.node.children.getD [] = []) :=
  have h : ofText nestedText = .ok nestedTable := by decide +kernel
  ⟨h, nodes_of_loaded h⟩

/-- The table loads without the inner command, which is then never run. -/
theorem nested_command_ignored :
    ∃ text t nodes, ofText text = .ok t ∧ Document.read? text = some nodes ∧
      (∃ x ∈ Node.withinAll [] nodes, ¬ x.InPlace) ∧
      (Node.withinAll [] nodes).length ≠ t.size := by
  have hr : (Document.read? nestedText).map (fun nodes =>
      ((Node.withinAll [] nodes).all (·.InPlace), (Node.withinAll [] nodes).length)) =
      some (false, 4) := by decide +kernel
  obtain ⟨nodes, hn, he⟩ := Option.map_eq_some_iff.mp hr
  obtain ⟨hp, hl⟩ := Prod.mk.inj he
  refine ⟨nestedText, nestedTable, nodes, by decide +kernel, hn, ?_, ?_⟩
  · simpa using hp
  · rw [hl]
    decide

end RuleTable

end EditHook
