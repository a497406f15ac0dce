import EditHook.Proofs.Declaring
import EditHook.Proofs.Encoding

/-! Which mistake of a node tree is told. Nodes are visited in the order of the text, and each is checked
from its name to its block. The first check that fails decides, with the line of its node. -/

namespace EditHook

inductive Mistake where
  | defect (d : Defect)
  | badGlob (text : String) (cause : GlobError)

def Mistake.onLine (line : Nat) : Mistake → LoadError
  | defect d => .defect line d
  | badGlob text cause => .badGlob line text cause

/-- What a node stands in. -/
inductive Context where
  | top
  | inRoot (directory : String)
  | inPattern
  /-- Inside a run, at any depth. Nothing is asked of a node there. -/
  | inRun

/-- A node as it is come to: its own text, and whether nodes follow in a block. -/
structure Visit where
  context : Context
  start : Nat
  name : String
  entries : List Entry
  filled : Bool

def Entry.text? : Entry → Option String
  | ⟨none, .text s⟩ => some s
  | _ => none

def check (c : Prop) [Decidable c] (d : Defect) : List Mistake :=
  if c then [] else [.defect d]

def Entry.mistake? (name : String) : Entry → Option Mistake
  | ⟨some _, _⟩ => some (.defect (.property name))
  | ⟨none, .scalar _⟩ => some (.defect (.notText name))
  | ⟨none, .text _⟩ => none

def globMistake? (root : Root) (glob : String) : Option Mistake :=
  match Glob.compile (root.qualify glob) with
  | .ok _ => none
  | .error cause => some (.badGlob glob cause)

namespace Visit

def texts (v : Visit) : List String :=
  v.entries.filterMap Entry.text?

/-- What is wrong with a node, in the order of the checks: its name, its entries one by one, how many
they are, its globs one by one, and its block. -/
def mistakes (v : Visit) : List Mistake :=
  match v.context with
  | .top =>
    check (v.name = "root") (.strayAtTop v.name) ++ (v.entries.filterMap (Entry.mistake? v.name) ++
      (check (v.entries.length = 1) .rootCount ++
        check (v.filled = true) (.noRules (v.texts.headD ""))))
  | .inRoot directory =>
    check (v.name = "pattern") (.strayInRoot v.name directory) ++
      (v.entries.filterMap (Entry.mistake? v.name) ++ (check (v.entries ≠ []) .noGlobs ++
        (v.texts.filterMap (globMistake? (.ofText directory)) ++
          check (v.filled = true) (.noCommands v.texts))))
  | .inPattern =>
    check (v.name = "run") (.strayInPattern v.name) ++
      (v.entries.filterMap (Entry.mistake? v.name) ++ check (v.entries ≠ []) .noProgram)
  | .inRun => []

end Visit

theorem globMistake?_eq_some_iff {root : Root} {glob : String} {m : Mistake} :
    globMistake? root glob = some m ↔
      ∃ cause, Glob.compile (root.qualify glob) = .error cause ∧ m = .badGlob glob cause := by
  rw [globMistake?]
  cases Glob.compile (root.qualify glob) <;> simp [eq_comm]

theorem Visit.exists_of_badGlob {v : Visit} {glob : String} {cause : GlobError}
    (h : .badGlob glob cause ∈ v.mistakes) :
    ∃ directory, Glob.compile ((Root.ofText directory).qualify glob) = .error cause := by
  have hchecked (c : Prop) [Decidable c] (d : Defect) : .badGlob glob cause ∉ check c d := by
    by_cases hc : c <;> simp [check, hc]
  have hentries : .badGlob glob cause ∉ v.entries.filterMap (Entry.mistake? v.name) := by
    rw [List.mem_filterMap]
    rintro ⟨⟨key, value⟩, -, he⟩
    cases key <;> cases value <;> cases he
  obtain ⟨context, start, name, entries, filled⟩ := v
  cases context with
  | inRoot directory =>
    simp only [mistakes, List.mem_append, hchecked, hentries, false_or, or_false] at h
    obtain ⟨glob', -, hg⟩ := List.mem_filterMap.mp h
    obtain ⟨cause', hc, he⟩ := globMistake?_eq_some_iff.mp hg
    cases he
    exact ⟨directory, hc⟩
  | top => simp [mistakes, hchecked, hentries] at h
  | inPattern => simp [mistakes, hchecked, hentries] at h
  | inRun => cases h

def Context.block (entries : List Entry) : Context → Context
  | top => inRoot ((entries.filterMap Entry.text?).headD "")
  | inRoot _ => inPattern
  | inPattern => inRun
  | inRun => inRun

namespace Node

mutual

/-- A node and then all nodes inside it. -/
def visits (c : Context) : Node → List Visit
  | ⟨start, name, entries, block⟩ =>
    ⟨c, start, name, entries, !(block.getD []).isEmpty⟩ :: visitsBlock (c.block entries) block

def visitsBlock (c : Context) : Option (List Node) → List Visit
  | none => []
  | some nodes => visitsAll c nodes

def visitsAll (c : Context) : List Node → List Visit
  | [] => []
  | n :: ns => n.visits c ++ visitsAll c ns

end

def visit (c : Context) (n : Node) : Visit :=
  ⟨c, n.start, n.name, n.entries, !(n.children.getD []).isEmpty⟩

theorem visits_eq (c : Context) (n : Node) :
    n.visits c = n.visit c :: visitsAll (c.block n.entries) (n.children.getD []) := by
  obtain ⟨start, name, entries, block⟩ := n
  cases block <;> simp [visits, visit, visitsBlock, visitsAll]

mutual

theorem inRun_of_mem_visits {v : Visit} : ∀ n : Node, v ∈ n.visits .inRun → v.context = .inRun
  | ⟨start, name, entries, block⟩, h => by
    rw [visits] at h
    rcases List.mem_cons.mp h with rfl | h
    · rfl
    · exact inRun_of_mem_visitsBlock block h

theorem inRun_of_mem_visitsBlock {v : Visit} :
    ∀ block : Option (List Node), v ∈ visitsBlock .inRun block → v.context = .inRun
  | none, h => by simp [visitsBlock] at h
  | some nodes, h => inRun_of_mem_visitsAll nodes h

theorem inRun_of_mem_visitsAll {v : Visit} :
    ∀ nodes : List Node, v ∈ visitsAll .inRun nodes → v.context = .inRun
  | [], h => by simp [visitsAll] at h
  | n :: ns, h => by
    rw [visitsAll] at h
    rcases List.mem_append.mp h with h | h
    · exact inRun_of_mem_visits n h
    · exact inRun_of_mem_visitsAll ns h

end

def told (line : Nat) (ms : List Mistake) : Option LoadError :=
  ms.head?.map (Mistake.onLine line)

/-- The error for the first mistake of the first node that has one. -/
def firstTold (text : String) (vs : List Visit) : Option LoadError :=
  vs.findSome? fun v => told (Document.lineAt text v.start) v.mistakes

variable {text directory : String} {n : Node}

theorem told_append (line : Nat) (ms ms' : List Mistake) :
    told line (ms ++ ms') = (told line ms).or (told line ms') := by
  rw [told, List.head?_append, Option.map_or]
  rfl

theorem told_filterMap (line : Nat) (f : α → Option Mistake) (xs : List α) :
    told line (xs.filterMap f) = xs.findSome? fun x => (f x).map (Mistake.onLine line) := by
  rw [told, List.head?_filterMap, List.map_findSome?]
  rfl

theorem told_check (line : Nat) {c : Prop} [Decidable c] (d : Defect) :
    told line (check c d) = if c then none else some (.defect line d) := by
  by_cases hc : c <;> simp [told, check, hc, Mistake.onLine]

theorem told_eq_none_iff {line : Nat} {ms : List Mistake} : told line ms = none ↔ ms = [] := by
  rw [told, Option.map_eq_none_iff, List.head?_eq_none_iff]

theorem firstTold_eq_none_iff {vs : List Visit} :
    firstTold text vs = none ↔ vs.flatMap Visit.mistakes = [] := by
  simp only [firstTold, List.findSome?_eq_none_iff, told_eq_none_iff, List.flatMap_eq_nil_iff]

theorem firstTold_visits (c : Context) (n : Node) :
    firstTold text (n.visits c) = (told (n.line text) (n.visit c).mistakes).or
      (firstTold text (visitsAll (c.block n.entries) (n.children.getD []))) := by
  have hl : Document.lineAt text (n.visit c).start = n.line text := rfl
  rw [visits_eq, firstTold, List.findSome?_cons, hl]
  cases told (n.line text) (n.visit c).mistakes <;> rfl

theorem firstTold_inRun (nodes : List Node) : firstTold text (visitsAll .inRun nodes) = none := by
  rw [firstTold, List.findSome?_eq_none_iff]
  intro v hv
  rw [Visit.mistakes, inRun_of_mem_visitsAll nodes hv]
  rfl

theorem error?_nodes {f : Node → Load α} {c : Context}
    (h : ∀ n, error? (f n) = firstTold text (n.visits c)) (nodes : List Node) :
    error? (nodes.mapM f) = firstTold text (visitsAll c nodes) := by
  rw [error?_mapM]
  induction nodes with
  | nil => rfl
  | cons n ns ih =>
    rw [visitsAll, firstTold, List.findSome?_append, List.findSome?_cons, ih, h n]
    cases hn : firstTold text (n.visits c) with
    | none => rw [← firstTold, hn]; rfl
    | some e => rw [← firstTold, hn]; rfl

theorem error?_check {c c' : Prop} [Decidable c] [Decidable c'] {d : Defect} {f : α → Load β}
    {x : Load β} (h : c' ↔ ¬ c) :
    error? (if c then n.fail text d >>= f else x) =
      (told (n.line text) (check c' d)).or (error? x) := by
  rw [told_check]
  by_cases hc : c
  · rw [if_pos hc, if_neg (fun hc' => h.mp hc' hc)]
    rfl
  · rw [if_neg hc, if_pos (h.mpr hc)]
    rfl

theorem error?_texts :
    error? (n.texts text) = told (n.line text) (n.entries.filterMap (Entry.mistake? n.name)) := by
  rw [texts, error?_mapM, told_filterMap]
  congr 1
  funext e
  obtain ⟨key, value⟩ := e
  cases key <;> cases value <;> rfl

theorem error?_globs (root : Root) (globs : List String) :
    error? (globs.mapM (n.compileGlob text root)) =
      told (n.line text) (globs.filterMap (globMistake? root)) := by
  rw [error?_mapM, told_filterMap]
  congr 1
  funext glob
  rw [compileGlob, globMistake?]
  cases Glob.compile (root.qualify glob) <;> rfl

theorem texts_visit {texts : List String} (h : n.Arguments texts) (c : Context) :
    (n.visit c).texts = texts := by
  have he : n.entries = texts.map (fun s => ⟨none, .text s⟩) := h
  simp [Visit.texts, visit, he, List.filterMap_map, Function.comp_def, Entry.text?]

theorem error?_command : error? (n.command text) = firstTold text (n.visits .inPattern) := by
  have hm : (n.visit .inPattern).mistakes = check (n.name = "run") (.strayInPattern n.name) ++
      (n.entries.filterMap (Entry.mistake? n.name) ++ check (n.entries ≠ []) .noProgram) := rfl
  rw [firstTold_visits, Context.block, firstTold_inRun, Option.or_none, hm, told_append, told_append]
  unfold command
  rw [error?_check not_not.symm]
  congr 1
  refine error?_bind error?_texts fun tokens ht => ?_
  have he : n.entries = tokens.map (fun s => ⟨none, .text s⟩) := texts_eq_ok_iff.mp ht
  rw [told_check, he]
  cases tokens <;> rfl

/-- Of a pattern the commands are looked at before it is asked whether there are any. That is too late
to matter, since without commands there is nothing to be looked at. -/
theorem error?_commands {globs : List String} {f : List Command → Load β}
    (hf : ∀ commands, error? (f commands) = none) :
    error? ((n.children.getD []).mapM (command text) >>= fun commands =>
      if commands.isEmpty then n.fail text (.noCommands globs) >>= fun _ : Unit => f commands
      else f commands) =
    (told (n.line text) (check ((n.visit (.inRoot directory)).filled = true) (.noCommands globs))).or
      (firstTold text (visitsAll .inPattern (n.children.getD []))) := by
  rw [told_check]
  -- the commands are looked at first, which is too late to matter where there are none
  cases hb : n.children.getD [] with
  | nil =>
    have hv : (n.visit (.inRoot directory)).filled = false := by simp [visit, hb]
    rw [hv]
    rfl
  | cons m ms =>
    have hv : (n.visit (.inRoot directory)).filled = true := by simp [visit, hb]
    rw [if_pos hv, Option.none_or]
    refine error?_bind_ok (error?_nodes (fun _ => error?_command) _) fun commands hc => ?_
    have hne : commands ≠ [] := by
      rintro rfl
      have hl := mapM_eq_ok_iff.mp hc
      cases hl
    rw [if_neg (by simpa using hne), hf]

theorem error?_rule :
    error? (n.rule text (.ofText directory) directory) =
      firstTold text (n.visits (.inRoot directory)) := by
  have hm : (n.visit (.inRoot directory)).mistakes =
      check (n.name = "pattern") (.strayInRoot n.name directory) ++
        (n.entries.filterMap (Entry.mistake? n.name) ++ (check (n.entries ≠ []) .noGlobs ++
          ((n.visit (.inRoot directory)).texts.filterMap (globMistake? (.ofText directory)) ++
            check ((n.visit (.inRoot directory)).filled = true)
              (.noCommands (n.visit (.inRoot directory)).texts)))) := rfl
  rw [firstTold_visits, Context.block, hm]
  simp only [told_append, Option.or_assoc]
  unfold rule
  rw [error?_check not_not.symm]
  congr 1
  refine error?_bind error?_texts fun globs ht => ?_
  have ht := texts_eq_ok_iff.mp ht
  have he : n.entries = globs.map (fun s => ⟨none, .text s⟩) := ht
  have hcount : n.entries ≠ [] ↔ ¬ globs.isEmpty = true := by simp [he]
  rw [texts_visit ht, error?_check hcount]
  congr 1
  refine error?_bind (error?_globs _ _) fun _ _ => ?_
  exact error?_commands fun _ => rfl

theorem error?_ruleSection : error? (n.ruleSection text) = firstTold text (n.visits .top) := by
  have hm : (n.visit .top).mistakes = check (n.name = "root") (.strayAtTop n.name) ++
      (n.entries.filterMap (Entry.mistake? n.name) ++ (check (n.entries.length = 1) .rootCount ++
        check ((n.visit .top).filled = true) (.noRules ((n.visit .top).texts.headD "")))) := rfl
  rw [firstTold_visits, hm]
  simp only [told_append, Option.or_assoc]
  unfold ruleSection
  rw [error?_check not_not.symm]
  congr 1
  refine error?_bind error?_texts fun directories ht => ?_
  have ht := texts_eq_ok_iff.mp ht
  have he : n.entries = directories.map (fun s => ⟨none, .text s⟩) := ht
  rw [texts_visit ht, told_check, he]
  rcases directories with _ | ⟨directory, _ | ⟨other, more⟩⟩
  · rfl
  · have hc : Context.block ([directory].map fun s => (⟨none, .text s⟩ : Entry)) .top =
        .inRoot directory := rfl
    have hempty : (n.visit .top).filled = true ↔ ¬ (n.children.getD []).isEmpty = true := by
      simp [visit]
    have hrules : error? ((n.children.getD []).mapM (rule text (.ofText directory) directory) >>=
        fun rules => pure (⟨.ofText directory, rules⟩ : Section)) =
          firstTold text (visitsAll (.inRoot directory) (n.children.getD [])) :=
      error?_bind_ok (error?_nodes (fun _ => error?_rule) _) fun _ _ => rfl
    rw [hc, if_pos (by simp), Option.none_or, ← hrules]
    exact error?_check hempty
  · rfl

theorem mistakes_visits (c : Context) (n : Node) :
    (n.visits c).flatMap Visit.mistakes = (n.visit c).mistakes ++
      (visitsAll (c.block n.entries) (n.children.getD [])).flatMap Visit.mistakes := by
  rw [visits_eq, List.flatMap_cons]

section Right

variable {n : Node} {texts : List String} (ha : n.Arguments texts)

include ha

theorem mistakes_entries (name : String) : n.entries.filterMap (Entry.mistake? name) = [] := by
  have he : n.entries = texts.map (fun s => ⟨none, .text s⟩) := ha
  rw [he, List.filterMap_map, List.filterMap_eq_nil_iff]
  exact fun _ _ => rfl

theorem entries_ne_nil (hne : texts ≠ []) : n.entries ≠ [] := by
  have he : n.entries = texts.map (fun s => ⟨none, .text s⟩) := ha
  simpa [he] using hne

theorem mistakes_run (hn : n.name = "run") (hne : texts ≠ []) :
    (n.visit .inPattern).mistakes = [] := by
  simp [Visit.mistakes, visit, check, hn, mistakes_entries ha, entries_ne_nil ha hne]

theorem mistakes_pattern {directory : String} (hn : n.name = "pattern") (hne : texts ≠ [])
    (hb : n.children.getD [] ≠ []) : (n.visit (.inRoot directory)).mistakes =
      texts.filterMap (globMistake? (.ofText directory)) := by
  have ht := texts_visit ha (.inRoot directory)
  simp [Visit.mistakes, visit, check, hn, mistakes_entries ha, entries_ne_nil ha hne, hb] at ht ⊢
  rw [ht]

theorem mistakes_root (hn : n.name = "root") (hl : texts.length = 1)
    (hb : n.children.getD [] ≠ []) : (n.visit .top).mistakes = [] := by
  have he : n.entries = texts.map (fun s => ⟨none, .text s⟩) := ha
  have hl : n.entries.length = 1 := by rw [he, List.length_map, hl]
  simp [Visit.mistakes, visit, check, hn, mistakes_entries ha, hb, hl]

end Right

end Node

namespace Document

theorem feedsBefore_eq_count (cs : List Char) (offset : Nat) :
    feedsBefore cs offset = ((cs.flatMap String.utf8EncodeChar).take offset).count 0x0A := by
  induction cs generalizing offset with
  | nil => simp [feedsBefore]
  | cons c cs ih =>
    rw [feedsBefore, List.flatMap_cons, List.take_append, List.count_append,
      String.length_utf8EncodeChar, ← ih]
    by_cases ho : offset = 0
    · subst ho
      cases cs <;> simp [feedsBefore]
    · rw [if_neg ho]
      congr 1
      by_cases hc : c = '\n'
      · subst hc
        obtain ⟨n, rfl⟩ := Nat.exists_eq_succ_of_ne_zero ho
        have he : String.utf8EncodeChar '\n' = [0x0A] := by decide
        simp [he]
      · rw [if_neg hc, eq_comm, List.count_eq_zero]
        exact fun h => hc (newline_mem_encodeChar (List.mem_of_mem_take h))

theorem lineAt_eq_count (text : String) (offset : Nat) :
    lineAt text offset = 1 + ((utf8 text).take offset).count 0x0A := by
  rw [lineAt, feedsBefore_eq_count, Nat.add_comm]
  rfl

end Document

namespace RuleTable

theorem error?_ofNodes (text : String) (nodes : List Node) :
    error? (ofNodes text nodes) = Node.firstTold text (Node.visitsAll .top nodes) :=
  error?_bind_ok (Node.error?_nodes (fun _ => Node.error?_ruleSection) nodes) fun _ _ => rfl

theorem ofNodes_eq_error_iff {text : String} {nodes : List Node} {e : LoadError} :
    ofNodes text nodes = .error e ↔
      ∃ before v after m, Node.visitsAll .top nodes = before ++ v :: after ∧
        (∀ u ∈ before, u.mistakes = []) ∧ v.mistakes.head? = some m ∧
        e = m.onLine (1 + ((utf8 text).take v.start).count 0x0A) := by
  have htold (v : Visit) : Node.told (Document.lineAt text v.start) v.mistakes = some e ↔
      ∃ m, v.mistakes.head? = some m ∧ e = m.onLine (1 + ((utf8 text).take v.start).count 0x0A) := by
    rw [Node.told, Option.map_eq_some_iff, Document.lineAt_eq_count]
    exact exists_congr fun m => and_congr_right fun _ => eq_comm
  rw [← error?_eq_some_iff, error?_ofNodes, Node.firstTold, List.findSome?_eq_some_iff]
  constructor
  · rintro ⟨before, v, after, hv, he, hb⟩
    obtain ⟨m, hm, he⟩ := (htold v).mp he
    exact ⟨before, v, after, m, hv, fun u hu => Node.told_eq_none_iff.mp (hb u hu), hm, he⟩
  · rintro ⟨before, v, after, m, hv, hb, hm, he⟩
    exact ⟨before, v, after, hv, (htold v).mpr ⟨m, hm, he⟩,
      fun u hu => Node.told_eq_none_iff.mpr (hb u hu)⟩

theorem exists_mistake {text : String} {nodes : List Node} {e : LoadError}
    (h : ofNodes text nodes = .error e) :
    ∃ m ∈ (Node.visitsAll .top nodes).flatMap Visit.mistakes, ∃ line, e = m.onLine line := by
  obtain ⟨before, v, after, m, hv, -, hm, he⟩ := ofNodes_eq_error_iff.mp h
  exact ⟨m, List.mem_flatMap.mpr ⟨v, by simp [hv], List.mem_of_head? hm⟩, _, he⟩

theorem exists_of_badGlob {text glob : String} {nodes : List Node} {line : Nat} {cause : GlobError}
    (h : ofNodes text nodes = .error (.badGlob line glob cause)) :
    ∃ directory, Glob.compile ((Root.ofText directory).qualify glob) = .error cause := by
  obtain ⟨m, hm, line', he⟩ := exists_mistake h
  cases m with
  | defect d => cases he
  | badGlob glob' cause' =>
    cases he
    obtain ⟨v, -, hv⟩ := List.mem_flatMap.mp hm
    exact v.exists_of_badGlob hv

theorem exists_badGlob_iff {text : String} {nodes : List Node}
    (h : ∀ m ∈ (Node.visitsAll .top nodes).flatMap Visit.mistakes,
      ∃ glob cause, m = .badGlob glob cause) :
    (∃ line glob cause, ofNodes text nodes = .error (.badGlob line glob cause)) ↔
      (Node.visitsAll .top nodes).flatMap Visit.mistakes ≠ [] := by
  constructor
  · rintro ⟨line, glob, cause, he⟩
    obtain ⟨m, hm, -⟩ := exists_mistake he
    exact List.ne_nil_of_mem hm
  · intro hne
    cases hr : ofNodes text nodes with
    | ok t =>
      have ht : error? (ofNodes text nodes) = none := by rw [hr, error?_ok]
      rw [error?_ofNodes, Node.firstTold_eq_none_iff] at ht
      exact absurd ht hne
    | error e =>
      obtain ⟨m, hm, line, rfl⟩ := exists_mistake hr
      obtain ⟨glob, cause, rfl⟩ := h m hm
      exact ⟨line, glob, cause, rfl⟩

/-- The error that is told of a tree is the first mistake of the first node that has one, with the line
of that node. It is told of every tree that is the same up to this mistake, whatever follows. -/
theorem first_mistake_decides {text : String} {nodes : List Node} {e : LoadError}
    (h : ofNodes text nodes = .error e) :
    ∃ before v after m, Node.visitsAll .top nodes = before ++ v :: after ∧
      (∀ u ∈ before, u.mistakes = []) ∧ v.mistakes.head? = some m ∧
      e = m.onLine (1 + ((utf8 text).take v.start).count 0x0A) ∧
      ∀ text' nodes' v' after', Node.visitsAll .top nodes' = before ++ v' :: after' →
        v'.start = v.start → v'.mistakes.head? = some m →
        (utf8 text').take v.start = (utf8 text).take v.start → ofNodes text' nodes' = .error e := by
  obtain ⟨before, v, after, m, hv, hb, hm, he⟩ := ofNodes_eq_error_iff.mp h
  refine ⟨before, v, after, m, hv, hb, hm, he, ?_⟩
  intro text' nodes' v' after' hv' hs hm' ht
  exact ofNodes_eq_error_iff.mpr ⟨before, v', after', m, hv', hb, hm', by rw [he, hs, ht]⟩

def mistakenText : String :=
  "root \"web\" \x7b\n  pattern \"*.md\" \"[z-a]\"\n\x7d\nstray\n"

def mistakenTree : List Node :=
  let args := List.map (Entry.mk none ∘ Value.text)
  [⟨0, "root", args ["web"], some [⟨15, "pattern", args ["*.md", "[z-a]"], none⟩]⟩,
    ⟨40, "stray", [], none⟩]

theorem first_mistake_decides_glob :
    ofNodes mistakenText mistakenTree = .error (.badGlob 2 "[z-a]" (.invalidRange 'z' 'a')) ∧
    ∃ before v after m, Node.visitsAll .top mistakenTree = before ++ v :: after ∧
      (∀ u ∈ before, u.mistakes = []) ∧ v.mistakes.head? = some m ∧
      LoadError.badGlob 2 "[z-a]" (.invalidRange 'z' 'a') =
        m.onLine (1 + ((utf8 mistakenText).take v.start).count 0x0A) ∧
      ∀ text' nodes' v' after', Node.visitsAll .top nodes' = before ++ v' :: after' →
        v'.start = v.start → v'.mistakes.head? = some m →
        (utf8 text').take v.start = (utf8 mistakenText).take v.start →
        ofNodes text' nodes' = .error (.badGlob 2 "[z-a]" (.invalidRange 'z' 'a')) :=
  have h : ofNodes mistakenText mistakenTree =
      .error (.badGlob 2 "[z-a]" (.invalidRange 'z' 'a')) := by decide +kernel
  ⟨h, first_mistake_decides h⟩

end RuleTable

end EditHook
