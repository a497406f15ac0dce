import EditHook.Proofs.Offsets
import EditHook.Proofs.Results
import EditHook.Rules.OfDocument

/-! A text of rules behind another one and an empty line. Nothing that the first text leaves open
reaches over the empty line, so its table comes first and the other table behind it, with lines that
count from the start of the first text. -/

namespace EditHook

namespace Scanner

/-- Where a text may end, a newline ends all that is open, but for a continued line: it hides the
newline. -/
theorem step_newline {s : State} {ts : List PlacedToken} (h : finish s = some ts) :
    ∃ before blanks, (∀ t ∈ blanks, Builder.IsBlank t) ∧
      step s '\n' = some ⟨.ground, s.here + 1, before, blanks ++ ts.reverse⟩ := by
  obtain ⟨mode, here, before, tokens⟩ := s
  obtain ⟨ended, he, rfl⟩ := Option.map_eq_some_iff.mp h
  rw [List.reverse_reverse]
  have newline : ∀ t ∈ ([⟨.newline, here⟩] : List PlacedToken), Builder.IsBlank t :=
    List.forall_mem_singleton.mpr (.inr rfl)
  have space : ∀ t ∈ ([⟨.space, before⟩] : List PlacedToken), Builder.IsBlank t :=
    List.forall_mem_singleton.mpr (.inl rfl)
  cases mode with
  | ground =>
    cases he
    exact ⟨here, _, newline, rfl⟩
  | word cs =>
    obtain ⟨t, ht, rfl⟩ := Option.map_eq_some_iff.mp he
    refine ⟨here, _, newline, ?_⟩
    simp only [step, modeStep, State.emit?, ht]
    rfl
  | keyword cs =>
    obtain ⟨t, ht, rfl⟩ := Option.map_eq_some_iff.mp he
    refine ⟨here, _, newline, ?_⟩
    simp only [step, modeStep, State.emit?, ht]
    rfl
  | lineComment continued =>
    cases he
    cases continued with
    | true => exact ⟨before, _, space, rfl⟩
    | false => exact ⟨here, _, newline, rfl⟩
  | continued =>
    cases he
    exact ⟨before, _, space, rfl⟩
  | hiddenReturn =>
    cases he
    exact ⟨before, [], by simp, rfl⟩
  | quotePair =>
    cases he
    exact ⟨here, _, newline, rfl⟩
  | _ => cases he

theorem run_emptyLine {s : State} {ts : List PlacedToken} (h : finish s = some ts) :
    ∃ (before : Nat) (blanks : List PlacedToken) (place : Nat),
      (∀ t ∈ blanks, Builder.IsBlank t) ∧ run s ['\n', '\n'] =
        some ⟨.ground, s.here + 2, before,
          (ts ++ (blanks ++ [PlacedToken.mk .newline place])).reverse⟩ := by
  obtain ⟨before, blanks, hb, hs⟩ := step_newline h
  refine ⟨s.here + 1, blanks.reverse, s.here + 1, by simpa using hb, ?_⟩
  have hn : step ⟨.ground, s.here + 1, before, blanks ++ ts.reverse⟩ '\n' =
      some ⟨.ground, s.here + 2, s.here + 1, ⟨.newline, s.here + 1⟩ :: (blanks ++ ts.reverse)⟩ := rfl
  simp [run, hs, hn]

theorem tokensFrom?_moved (offset : Nat) (cs : List Char) :
    tokensFrom? offset cs = (tokensFrom? 0 cs).map (List.map (·.moved offset)) := by
  have hs : start offset = (start 0).moved offset [] := by simp [start, State.moved]
  rw [tokensFrom?, hs, finish_run_moved]
  simp [tokensFrom?]

theorem tokensFrom?_behind {here : Nat} {cs : List Char} {ts : List PlacedToken}
    (h : tokensFrom? here cs = some ts) (ds : List Char) :
    ∃ blanks place, (∀ t ∈ blanks, Builder.IsBlank t) ∧
      tokensFrom? here (cs ++ ('\n' :: '\n' :: ds)) = (tokensFrom? 0 ds).map fun us =>
        ts ++ (blanks ++ [⟨.newline, place⟩]) ++ us.map (·.moved (here + byteLength cs + 2)) := by
  obtain ⟨s, hs, hf⟩ := Option.bind_eq_some_iff.mp h
  have hhere : s.here = here + byteLength cs := (run_starts hs).1
  obtain ⟨before, blanks, place, hb, hr⟩ := run_emptyLine hf
  refine ⟨blanks, place, hb, ?_⟩
  have hsplit : ('\n' :: '\n' :: ds) = ['\n', '\n'] ++ ds := rfl
  rw [tokensFrom?, run_append, hs, Option.bind_some, hsplit, run_append, hr, Option.bind_some,
    finish_run_ground, List.reverse_reverse, tokensFrom?_moved, Option.map_map, hhere]
  rfl

theorem exists_tokensFrom? (text : String) :
    ∃ here cs, byteLength text.toList = here + byteLength cs ∧ ∀ more : String,
      more.toList.head? ≠ some '\uFEFF' →
        tokens? (text ++ more) = tokensFrom? here (cs ++ more.toList) := by
  by_cases hmark : text.toList.head? = some '\uFEFF'
  · obtain ⟨cs, hcs⟩ := List.head?_eq_some_iff.mp hmark
    -- the mark is no token, but its bytes count
    have hsize : '\uFEFF'.utf8Size = 3 := by decide
    refine ⟨3, cs, by rw [hcs, byteLength, hsize], fun more _ => ?_⟩
    rw [tokens?, String.toList_append, hcs]
    rfl
  · refine ⟨0, text.toList, (Nat.zero_add _).symm, fun more hmore => ?_⟩
    rw [tokens?, String.toList_append]
    split
    · rename_i cs hcs
      cases ht : text.toList with
      | nil =>
        rw [ht, List.nil_append] at hcs
        exact absurd (by rw [hcs]; rfl) hmore
      | cons c rest =>
        rw [ht, List.cons_append] at hcs
        have hc : c = '\uFEFF' := (List.cons.inj hcs).1
        exact absurd (by rw [ht, hc]; rfl) hmark
    · rfl

theorem tokens?_behind {text : String} {ts : List PlacedToken} (h : tokens? text = some ts)
    {text' : String} (hmark : text'.toList.head? ≠ some '\uFEFF') :
    ∃ blanks place, (∀ t ∈ blanks, Builder.IsBlank t) ∧
      tokens? (text ++ "\n\n" ++ text') = (tokens? text').map fun us =>
        ts ++ (blanks ++ [⟨.newline, place⟩]) ++
          us.map (·.moved (byteLength text.toList + 2)) := by
  obtain ⟨here, cs, hlen, htokens⟩ := exists_tokensFrom? text
  have hbreak : ("\n\n" : String).toList = ['\n', '\n'] := by decide
  have hts : tokensFrom? here cs = some ts := by
    have hnone := htokens "" (by decide)
    rw [String.append_empty, h] at hnone
    simpa using hnone.symm
  have hbehind := htokens ("\n\n" ++ text') (by simp [hbreak])
  have hother : tokens? text' = tokensFrom? 0 text'.toList := by
    unfold tokens?
    split
    · rename_i rest hrest
      exact absurd (by rw [hrest]; rfl) hmark
    · rfl
  obtain ⟨blanks, place, hb, hr⟩ := tokensFrom?_behind hts text'.toList
  refine ⟨blanks, place, hb, ?_⟩
  rw [String.append_assoc, hbehind, String.toList_append, hbreak, hother, hlen]
  exact hr

end Scanner

namespace Document

theorem read?_behind {text : String} {nodes : List Node} (h : read? text = some nodes)
    {text' : String} (hmark : text'.toList.head? ≠ some '\uFEFF') :
    read? (text ++ "\n\n" ++ text') = (read? text').map fun more =>
      nodes ++ more.map (Node.moved (byteLength text.toList + 2)) := by
  obtain ⟨ts, hts, hb⟩ := Option.bind_eq_some_iff.mp h
  obtain ⟨blanks, place, hblank, htokens⟩ := Scanner.tokens?_behind hts hmark
  have hread (text : String) : read? text = (Scanner.tokens? text).bind fun ts =>
      (Builder.run Builder.start ts).bind Builder.finish := rfl
  rw [hread, htokens, hread, Option.bind_map, Option.map_bind]
  refine congrArg _ (funext fun us => ?_)
  exact Builder.finish_run_behind hb hblank place _

end Document

/-- The lines that a text and an empty line take. -/
def linesThrough (text : String) : Nat :=
  2 + text.toList.count '\n'

namespace LoadError

def moved (lines : Nat) : LoadError → LoadError
  | defect line d => defect (line + lines) d
  | badGlob line text cause => badGlob (line + lines) text cause
  | e => e

end LoadError

namespace Load

def moved (lines : Nat) (f : α → β) : Load α → Load β
  | .ok a => .ok (f a)
  | .error e => .error (e.moved lines)

variable {lines : Nat} {f : α → β}

theorem bind_moved {x : Load α} {x' : Load β} (hx : x' = x.moved lines f) {g : γ → δ}
    {k : α → Load γ} {k' : β → Load δ} (hk : ∀ a, k' (f a) = (k a).moved lines g) :
    x' >>= k' = (x >>= k).moved lines g := by
  rw [hx]
  cases x with
  | ok a => exact hk a
  | error e => rfl

theorem mapM_moved {g : α → α'} {k : α → Load β} {k' : α' → Load β'} {f : β → β'} (xs : List α)
    (h : ∀ x ∈ xs, k' (g x) = (k x).moved lines f) :
    (xs.map g).mapM k' = (xs.mapM k).moved lines (List.map f) := by
  induction xs with
  | nil => rfl
  | cons x xs ih =>
    obtain ⟨hx, hxs⟩ := List.forall_mem_cons.mp h
    rw [List.map_cons, List.mapM_cons, List.mapM_cons]
    exact bind_moved hx fun y => bind_moved (ih hxs) fun ys => rfl

end Load

def Rule.moved (lines : Nat) (r : Rule) : Rule :=
  { r with line := r.line + lines }

def Section.moved (lines : Nat) (s : Section) : Section :=
  { s with rules := s.rules.map (Rule.moved lines) }

namespace Node

mutual

theorem moved_zero : ∀ n : Node, n.moved 0 = n
  | ⟨start, name, entries, block⟩ => by rw [moved, movedBlock_zero block, Nat.add_zero]

theorem movedBlock_zero : ∀ block : Option (List Node), movedBlock 0 block = block
  | none => by rw [movedBlock]
  | some nodes => by rw [movedBlock, movedAll_zero nodes]

theorem movedAll_zero : ∀ nodes : List Node, movedAll 0 nodes = nodes
  | [] => by rw [movedAll]
  | n :: ns => by rw [movedAll, moved_zero n, movedAll_zero ns]

end

variable {text text' : String} {offset lines : Nat} {n : Node}

/-- In another text, all of a node stands so many lines further down. -/
def StandsLower (text text' : String) (offset lines : Nat) (n : Node) : Prop :=
  ∀ place ∈ n.starts, Document.lineAt text' (place + offset) = Document.lineAt text place + lines

theorem StandsLower.line (h : n.StandsLower text text' offset lines) :
    (n.moved offset).line text' = n.line text + lines := by
  rw [moved_eq]
  exact h n.start (by rw [starts_eq]; exact List.mem_cons_self)

theorem StandsLower.block (h : n.StandsLower text text' offset lines) :
    ∀ m ∈ n.children.getD [], m.StandsLower text text' offset lines := by
  intro m hm place hp
  apply h place
  rw [starts_eq]
  exact List.mem_cons_of_mem _ (List.mem_flatMap.mpr ⟨m, hm, hp⟩)

theorem block_moved (offset : Nat) (n : Node) :
    (n.moved offset).children.getD [] = (n.children.getD []).map (moved offset) := by
  rw [moved_eq]
  cases n.children <;> rfl

theorem name_moved (offset : Nat) (n : Node) : (n.moved offset).name = n.name := by
  rw [moved_eq]

theorem entries_moved (offset : Nat) (n : Node) : (n.moved offset).entries = n.entries := by
  rw [moved_eq]

section

variable (h : n.StandsLower text text' offset lines)

include h

theorem fail_moved (d : Defect) (f : α → β) :
    (n.moved offset).fail text' d = (n.fail text d).moved lines f := by
  rw [fail, fail, h.line]
  rfl

theorem entryText_moved (e : Entry) :
    (n.moved offset).entryText text' e = (n.entryText text e).moved lines id := by
  obtain ⟨key, value⟩ := e
  cases key with
  | some key =>
    simp only [entryText, name_moved]
    exact fail_moved h _ _
  | none =>
    cases value with
    | text s => rfl
    | scalar w =>
      simp only [entryText, name_moved]
      exact fail_moved h _ _

theorem texts_moved : (n.moved offset).texts text' = (n.texts text).moved lines id := by
  have hm := Load.mapM_moved (g := id) n.entries fun e _ => entryText_moved h e
  rw [texts, entries_moved]
  rwa [List.map_id, List.map_id_fun] at hm

theorem compileGlob_moved (root : Root) (glob : String) :
    (n.moved offset).compileGlob text' root glob =
      (n.compileGlob text root glob).moved lines id := by
  rw [compileGlob, compileGlob, h.line]
  cases Glob.compile (root.qualify glob) <;> rfl

theorem check_moved {c : Prop} [Decidable c] {d : Defect} {k : α → Load β} {k' : α → Load γ}
    {x : Load β} {x' : Load γ} {f : β → γ} (hx : x' = x.moved lines f) :
    (if c then (n.moved offset).fail text' d >>= k' else x') =
      Load.moved lines f (if c then n.fail text d >>= k else x) := by
  by_cases hc : c
  · rw [if_pos hc, if_pos hc, fail_moved h d id]
    rfl
  · rw [if_neg hc, if_neg hc, hx]

theorem command_moved : (n.moved offset).command text' = (n.command text).moved lines id := by
  have htexts := texts_moved h
  unfold command
  rw [name_moved]
  refine check_moved h (Load.bind_moved htexts fun tokens => ?_)
  simp only [id]
  cases Command.ofTokens? tokens with
  | some c => rfl
  | none => exact fail_moved h _ _

theorem rule_moved (root : Root) (rootText : String) :
    (n.moved offset).rule text' root rootText =
      (n.rule text root rootText).moved lines (Rule.moved lines) := by
  have hglobs (globs : List String) :
      globs.mapM ((n.moved offset).compileGlob text' root) =
        (globs.mapM (n.compileGlob text root)).moved lines id := by
    have hm := Load.mapM_moved (g := id) globs fun glob _ => compileGlob_moved h root glob
    rwa [List.map_id, List.map_id_fun] at hm
  have hcommands : ((n.moved offset).children.getD []).mapM (command text') =
      ((n.children.getD []).mapM (command text)).moved lines id := by
    have hm := Load.mapM_moved (n.children.getD []) fun m hm => command_moved (h.block m hm)
    rwa [← block_moved, List.map_id_fun] at hm
  unfold rule
  rw [name_moved]
  refine check_moved h (Load.bind_moved (texts_moved h) fun globTexts => ?_)
  refine check_moved h (Load.bind_moved (hglobs globTexts) fun globs => ?_)
  refine Load.bind_moved hcommands fun commands => check_moved h ?_
  rw [h.line]
  rfl

theorem ruleSection_moved :
    (n.moved offset).ruleSection text' =
      (n.ruleSection text).moved lines (Section.moved lines) := by
  unfold ruleSection
  rw [name_moved]
  refine check_moved h (Load.bind_moved (texts_moved h) fun values => ?_)
  simp only [id]
  split
  · rename_i rootText
    have hrules : ((n.moved offset).children.getD []).mapM
          (rule text' (.ofText rootText) rootText) =
        ((n.children.getD []).mapM (rule text (.ofText rootText) rootText)).moved lines
          (List.map (Rule.moved lines)) := by
      rw [block_moved]
      exact Load.mapM_moved _ fun m hm => rule_moved (h.block m hm) _ _
    have hempty : ((n.moved offset).children.getD []).isEmpty = (n.children.getD []).isEmpty := by
      rw [block_moved, List.isEmpty_map]
    rw [hempty]
    exact check_moved h (Load.bind_moved hrules fun rules => rfl)
  · exact fail_moved h _ _

end

end Node

theorem Section.moved_zero (s : Section) : s.moved 0 = s := by
  have hr : s.rules.map (Rule.moved 0) = s.rules := List.map_id'' (fun r => rfl) s.rules
  rw [Section.moved, hr]

def RuleTable.then (t : RuleTable) (lines : Nat) (t' : RuleTable) : RuleTable :=
  ⟨t.sections ++ t'.sections.map (Section.moved lines)⟩

section

variable (text text' : String)

theorem lineAt_first {place : Nat} (h : place ≤ byteLength text.toList) :
    Document.lineAt (text ++ "\n\n" ++ text') place = Document.lineAt text place := by
  rw [Document.lineAt, Document.lineAt, String.append_assoc, String.toList_append,
    Document.feedsBefore_append_of_le h]

theorem lineAt_behind (place : Nat) :
    Document.lineAt (text ++ "\n\n" ++ text') (place + (byteLength text.toList + 2)) =
      Document.lineAt text' place + linesThrough text := by
  have hlist : (text ++ "\n\n" ++ text').toList = (text.toList ++ ['\n', '\n']) ++ text'.toList := by
    rw [String.toList_append, String.toList_append]
    rfl
  have hlen : byteLength (text.toList ++ ['\n', '\n']) = byteLength text.toList + 2 := by
    rw [byteLength_append]
    rfl
  have hcount : (text.toList ++ ['\n', '\n']).count '\n' = text.toList.count '\n' + 2 := by
    rw [List.count_append]
    rfl
  have hfeeds := Document.feedsBefore_append_add (text.toList ++ ['\n', '\n']) text'.toList place
  rw [← hlist, hlen, hcount, Nat.add_comm _ place] at hfeeds
  rw [Document.lineAt, Document.lineAt, linesThrough, hfeeds]
  omega

end

theorem RuleTable.ofText_behind {text : String} {t : RuleTable} (h : ofText text = .ok t)
    {text' : String} (hmark : text'.toList.head? ≠ some '\uFEFF') :
    ofText (text ++ "\n\n" ++ text') =
      (ofText text').moved (linesThrough text) (t.then (linesThrough text)) := by
  cases hn : Document.read? text with
  | none => simp [ofText, hn] at h
  | some nodes =>
    have hfirst : nodes.mapM (Node.ruleSection (text ++ "\n\n" ++ text')) = .ok t.sections := by
      have hstands : ∀ n ∈ nodes, Node.ruleSection (text ++ "\n\n" ++ text') (n.moved 0) =
          (n.ruleSection text).moved 0 (Section.moved 0) := by
        intro n hm
        apply Node.ruleSection_moved
        intro place hp
        have hle := Document.starts_le_of_read? hn place (List.mem_flatMap.mpr ⟨n, hm, hp⟩)
        exact lineAt_first text text' hle
      have hmoved := Load.mapM_moved nodes hstands
      have hok : nodes.mapM (Node.ruleSection text) = .ok t.sections := by
        rw [ofText, hn] at h
        obtain ⟨sections, hs, he⟩ := bind_eq_ok h
        cases he
        exact hs
      rw [hok, List.map_id'' Node.moved_zero] at hmoved
      rw [hmoved, Load.moved, List.map_id'' Section.moved_zero]
    have hread := Document.read?_behind hn hmark
    rw [ofText, hread, ofText]
    -- the first nodes stand where they stood, and all others so many bytes and lines further down
    cases Document.read? text' with
    | none => rfl
    | some more =>
      have hmore : (more.map (Node.moved (byteLength text.toList + 2))).mapM
            (Node.ruleSection (text ++ "\n\n" ++ text')) =
          (more.mapM (Node.ruleSection text')).moved (linesThrough text)
            (List.map (Section.moved (linesThrough text))) := by
        apply Load.mapM_moved
        intro n _
        apply Node.ruleSection_moved
        intro place _
        exact lineAt_behind text text' place
      have hall : (nodes ++ more.map (Node.moved (byteLength text.toList + 2))).mapM
            (Node.ruleSection (text ++ "\n\n" ++ text')) =
          (more.mapM (Node.ruleSection text')).moved (linesThrough text)
            (fun sections => t.sections ++ sections.map (Section.moved (linesThrough text))) := by
        rw [List.mapM_append, hfirst, hmore]
        cases more.mapM (Node.ruleSection text') <;> rfl
      exact Load.bind_moved hall fun sections => rfl

namespace RuleTable

/-- Tables compose: behind a text that loads and an empty line, another text adds its roots behind
those of the first one, or fails as it does by itself. Only its lines count from further up. -/
theorem ofText_concatenated {text text' : String} {t : RuleTable} (h : ofText text = .ok t)
    (hmark : text'.toList.head? ≠ some '\uFEFF') :
    let lines := 2 + text.toList.count '\n'
    let both := ofText (text ++ "\n\n" ++ text')
    (∀ t', ofText text' = .ok t' → both = .ok ⟨t.sections ++ t'.sections.map fun s =>
      ⟨s.root, s.rules.map fun r => ⟨r.pattern, r.commands, r.line + lines⟩⟩⟩) ∧
    (∀ line d, ofText text' = .error (.defect line d) →
      both = .error (.defect (line + lines) d)) ∧
    (∀ line glob cause, ofText text' = .error (.badGlob line glob cause) →
      both = .error (.badGlob (line + lines) glob cause)) ∧
    (ofText text' = .error .malformed → both = .error .malformed) := by
  intro lines both
  have hboth : both = (ofText text').moved lines (t.then lines) := ofText_behind h hmark
  refine ⟨fun t' ht => ?_, fun line d he => ?_, fun line glob cause he => ?_, fun he => ?_⟩
  · rw [hboth, ht]
    rfl
  · rw [hboth, he]
    rfl
  · rw [hboth, he]
    rfl
  · rw [hboth, he]
    rfl

def openText : String :=
  "// docs\nroot \"/\" \x7b pattern \"*.md\" \x7b run \"fmt\" \"$@\" \x7d \x7d \\"

def openTable : RuleTable :=
  ⟨[⟨.repository, [⟨.single ⟨"*.md", ⟨.star :: ".md".toList.map .literal⟩⟩,
    [⟨"fmt", ["$@"]⟩], 2⟩]⟩]⟩

def scriptText : String :=
  "root \"/\" \x7b\npattern \"*.sh\" \x7b run \"check\" \"$@\" \x7d \x7d"

def scriptRule : Rule :=
  ⟨.single ⟨"*.sh", ⟨.star :: ".sh".toList.map .literal⟩⟩, [⟨"check", ["$@"]⟩], 2⟩

theorem ofText_openText_concatenated :
    ofText openText = .ok openTable ∧ scriptText.toList.head? ≠ some '\uFEFF' ∧
      ofText scriptText = .ok ⟨[⟨.repository, [scriptRule]⟩]⟩ ∧
      ofText (openText ++ "\n\n" ++ scriptText) = .ok
        ⟨openTable.sections ++ [⟨.repository, [{ scriptRule with line := 5 }]⟩]⟩ := by
  have hopen : ofText openText = .ok openTable := by decide +kernel
  have hmark : scriptText.toList.head? ≠ some '\uFEFF' := by decide +kernel
  have hscript : ofText scriptText = .ok ⟨[⟨.repository, [scriptRule]⟩]⟩ := by decide +kernel
  have hlines : 2 + openText.toList.count '\n' = 3 := by decide +kernel
  have hboth := (ofText_concatenated hopen hmark).1 _ hscript
  rw [hlines] at hboth
  exact ⟨hopen, hmark, hscript, hboth⟩

end RuleTable

end EditHook
