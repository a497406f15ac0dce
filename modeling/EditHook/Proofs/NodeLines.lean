import EditHook.Document.Reader
import EditHook.Proofs.QuotedText

/-! Nodes that are written one on a line, each with its texts in quotes, and how they are read.
Tokens are built into nodes as they are scanned, and what has been read stays as it is. -/

namespace EditHook

namespace Document

def resume (b : Builder.State) (here : Nat) (cs : List Char) : Option (List Node) :=
  (Scanner.tokensFrom? here cs).bind (fun ts => (Builder.run b ts).bind Builder.finish)

def nodeHead (indent : Nat) (name : String) (texts : List String) : List Char :=
  List.replicate indent ' ' ++ (name.toList ++ texts.flatMap (fun s => ' ' :: quote s))

def argument (s : String) : Entry := ⟨none, .text s⟩

variable {b : Builder.State} {here : Nat} {earlier : List Node}
  {opened : List Builder.OpenNode} {name : String}

theorem resume_token {cs after : List Char} {t : Token} (h : Scanner.Scans cs t after)
    (b' : Builder.State) (hb : Builder.step b ⟨t, here⟩ = some b') :
    resume b here (cs ++ after) = resume b' (here + byteLength cs) after := by
  rw [resume, resume, h.tokensFrom?_eq, Option.bind_map]
  refine congrArg _ (funext fun ts => ?_)
  simp only [Function.comp_apply, Builder.run, List.foldlM_cons, hb]
  rfl

theorem byteLength_spaces (indent : Nat) : byteLength (List.replicate indent ' ') = indent := by
  induction indent with
  | zero => rfl
  | succ indent ih =>
    rw [List.replicate_succ, byteLength, ih, Nat.add_comm]
    rfl

theorem resume_spaces (indent : Nat) (after : List Char) :
    resume ⟨.between false, earlier, opened⟩ here (List.replicate indent ' ' ++ after) =
      resume ⟨.between false, earlier, opened⟩ (here + indent) after := by
  induction indent generalizing here with
  | zero => rfl
  | succ indent ih =>
    have hs : List.replicate (indent + 1) ' ' ++ after =
        [' '] ++ (List.replicate indent ' ' ++ after) := rfl
    rw [hs, resume_token (Scanner.scans_space _) ⟨.between false, earlier, opened⟩ rfl, ih,
      Nat.add_assoc, Nat.add_comm indent]
    rfl

theorem texts_append_eq_cons (texts : List String) {c : Char} (after : List Char) (hc : c ≠ '"') :
    ∃ c' after', texts.flatMap (fun s => ' ' :: quote s) ++ c :: after = c' :: after' ∧
      c' ≠ '"' := by
  cases texts with
  | nil => exact ⟨c, after, rfl, hc⟩
  | cons _ _ => exact ⟨' ', _, rfl, by decide⟩

/-- Texts behind a text: the last one may still turn out to be a key, all others are arguments. -/
theorem resume_texts (earlier : List Node) (opened : List Builder.OpenNode) (texts : List String)
    (d : Builder.Draft) (v : String) :
    ∃ d' v', d'.add false (argument v') =
        { d with entries := ((v :: texts).map argument).reverse ++ d.entries } ∧
      ∀ (here : Nat) (c : Char) (after : List Char), c ≠ '"' →
        resume ⟨.inside d (.text v false false), earlier, opened⟩ here
            (texts.flatMap (fun s => ' ' :: quote s) ++ c :: after) =
          resume ⟨.inside d' (.text v' false false), earlier, opened⟩
            (here + byteLength (texts.flatMap (fun s => ' ' :: quote s))) (c :: after) := by
  induction texts generalizing d v with
  | nil => exact ⟨d, v, rfl, fun _ _ _ _ => rfl⟩
  | cons s texts ih =>
    obtain ⟨d', v', he, hr⟩ := ih (d.add false (argument v)) s
    refine ⟨d', v', ?_, ?_⟩
    · rw [he]
      simp [Builder.Draft.add]
    · intro here c after hc
      obtain ⟨c', after', ha, hc'⟩ := texts_append_eq_cons texts after hc
      have hs : (s :: texts).flatMap (fun s => ' ' :: quote s) ++ c :: after =
          [' '] ++ (quote s ++ c' :: after') := by
        simp [← ha]
      rw [hs, resume_token (Scanner.scans_space _)
          ⟨.inside d (.text v false true), earlier, opened⟩ rfl,
        resume_token (Scanner.scans_quote s after' hc')
          ⟨.inside (d.add false (argument v)) (.text s false false), earlier, opened⟩ rfl,
        ← ha, hr _ c after hc]
      refine congrArg (resume _ · _) ?_
      simp [byteLength_append, byteLength, Nat.add_assoc]

structure IsName (name : String) : Prop where
  word : ∀ c ∈ name.toList, Character.isWord c = true
  ne_empty : name ≠ ""
  token : Word.token? name.toList = some (.text name)

theorem resume_nodeHead (earlier : List Node) (opened : List Builder.OpenNode) (hn : IsName name)
    {texts : List String} (ht : texts ≠ []) (indent here : Nat) :
    ∃ d v, d.add false (argument v) =
        ⟨here + indent, name, (texts.map argument).reverse, none, false⟩ ∧
      ∀ (c : Char) (after : List Char), c ≠ '"' →
        resume ⟨.between false, earlier, opened⟩ here (nodeHead indent name texts ++ c :: after) =
          resume ⟨.inside d (.text v false false), earlier, opened⟩
            (here + byteLength (nodeHead indent name texts)) (c :: after) := by
  obtain ⟨s, texts, rfl⟩ := List.exists_cons_of_ne_nil ht
  let d : Builder.Draft := ⟨here + indent, name, [], none, false⟩
  obtain ⟨d', v', he, hr⟩ := resume_texts earlier opened texts d s
  refine ⟨d', v', by simpa [d] using he, fun c after hc => ?_⟩
  obtain ⟨c', after', ha, hc'⟩ := texts_append_eq_cons texts after hc
  have hs : nodeHead indent name (s :: texts) ++ c :: after =
      List.replicate indent ' ' ++ (name.toList ++ ' ' :: (quote s ++ c' :: after')) := by
    simp [nodeHead, ← ha]
  rw [hs, resume_spaces,
    resume_token (Scanner.scans_name _ hn.word hn.ne_empty hn.token (by decide))
      ⟨.inside d (.entries false), earlier, opened⟩ rfl,
    ← List.singleton_append, resume_token (Scanner.scans_space _)
      ⟨.inside d (.entries true), earlier, opened⟩ rfl,
    resume_token (Scanner.scans_quote s after' hc')
      ⟨.inside d (.text s false false), earlier, opened⟩ rfl,
    ← ha, hr _ c after hc]
  refine congrArg (resume _ · _) ?_
  simp [nodeHead, byteLength_append, byteLength_spaces, byteLength, Nat.add_assoc]

/-- Between two nodes, these characters are read as these nodes. -/
def Reads (cs : List Char) (here : Nat) (nodes : List Node) : Prop :=
  ∀ earlier opened after, resume ⟨.between false, earlier, opened⟩ here (cs ++ after) =
    resume ⟨.between false, nodes.reverse ++ earlier, opened⟩ (here + byteLength cs) after

theorem reads_nil (here : Nat) : Reads [] here [] := fun _ _ _ => rfl

theorem Reads.append {cs ds : List Char} {nodes more : List Node} (h : Reads cs here nodes)
    (hd : Reads ds (here + byteLength cs) more) : Reads (cs ++ ds) here (nodes ++ more) := by
  intro earlier opened after
  rw [List.append_assoc, h, hd, byteLength_append]
  simp [Nat.add_assoc]

theorem reads_node (hn : IsName name) {texts : List String} (ht : texts ≠ []) (indent here : Nat) :
    Reads (nodeHead indent name texts ++ ['\n']) here
      [⟨here + indent, name, texts.map argument, none⟩] := by
  intro earlier opened after
  obtain ⟨d, v, hd, hr⟩ := resume_nodeHead earlier opened hn ht indent here
  have hb : Builder.step ⟨.inside d (.text v false false), earlier, opened⟩
      ⟨.newline, here + byteLength (nodeHead indent name texts)⟩ = some
        (Builder.State.complete ⟨.between false, earlier, opened⟩ (d.add false (argument v))) := rfl
  rw [hd] at hb
  rw [List.append_assoc, List.singleton_append, hr '\n' after (by decide),
    ← List.singleton_append, resume_token (Scanner.scans_newline after) _ hb, byteLength_append]
  simp [Builder.State.complete, Builder.Draft.node, Nat.add_assoc]

theorem resume_opening (hn : IsName name) {texts : List String} (ht : texts ≠ [])
    (indent here : Nat) (after : List Char) :
    resume ⟨.between false, earlier, opened⟩ here
        (nodeHead indent name texts ++ [' ', '\x7b', '\n'] ++ after) =
      resume ⟨.between false, [], ⟨⟨here + indent, name, (texts.map argument).reverse, none, false⟩,
          false, earlier⟩ :: opened⟩
        (here + byteLength (nodeHead indent name texts ++ [' ', '\x7b', '\n'])) after := by
  obtain ⟨d, v, hd, hr⟩ := resume_nodeHead earlier opened hn ht indent here
  have hs : nodeHead indent name texts ++ [' ', '\x7b', '\n'] ++ after =
      nodeHead indent name texts ++ ' ' :: (['\x7b'] ++ (['\n'] ++ after)) := by simp
  rw [hs, hr ' ' _ (by decide), ← List.singleton_append, resume_token (Scanner.scans_space _)
      ⟨.inside d (.text v false true), earlier, opened⟩ rfl,
    resume_token (Scanner.scans_blockStart _)
      ⟨.between false, [], ⟨d.add false (argument v), false, earlier⟩ :: opened⟩ rfl,
    resume_token (Scanner.scans_newline after)
      ⟨.between false, [], ⟨d.add false (argument v), false, earlier⟩ :: opened⟩ rfl, hd]
  refine congrArg (resume _ · _) ?_
  simp [byteLength_append, byteLength, Nat.add_assoc]

theorem resume_closing (d : Builder.Draft) (hd : d.dropped = false) (indent here : Nat)
    (nodes : List Node) (after : List Char) :
    resume ⟨.between false, nodes, ⟨d, false, earlier⟩ :: opened⟩ here
        (List.replicate indent ' ' ++ ['\x7d', '\n'] ++ after) =
      resume ⟨.between false,
          Builder.Draft.node { d with children := some nodes.reverse } :: earlier, opened⟩
        (here + byteLength (List.replicate indent ' ' ++ ['\x7d', '\n'])) after := by
  have hs : List.replicate indent ' ' ++ ['\x7d', '\n'] ++ after =
      List.replicate indent ' ' ++ (['\x7d'] ++ (['\n'] ++ after)) := by simp
  have hb (p : Nat) : Builder.step
      ⟨.inside { d with children := some nodes.reverse } (.blocks true), earlier, opened⟩
      ⟨.newline, p⟩ = some ⟨.between false,
        Builder.Draft.node { d with children := some nodes.reverse } :: earlier, opened⟩ := by
    obtain ⟨start, name, entries, children, dropped⟩ := d
    obtain rfl : dropped = false := hd
    rfl
  rw [hs, resume_spaces, resume_token (Scanner.scans_blockEnd _)
      ⟨.inside { d with children := some nodes.reverse } (.blocks true), earlier, opened⟩ rfl,
    resume_token (Scanner.scans_newline after) _ (hb _)]
  refine congrArg (resume _ · _) ?_
  simp [byteLength_append, byteLength_spaces, byteLength, Nat.add_assoc]

theorem reads_block (hn : IsName name) {texts : List String} (ht : texts ≠ [])
    (indent here : Nat) {inner : List Char} {block : List Node}
    (h : Reads inner (here + byteLength (nodeHead indent name texts ++ [' ', '\x7b', '\n'])) block) :
    Reads (nodeHead indent name texts ++ [' ', '\x7b', '\n'] ++ (inner ++
        (List.replicate indent ' ' ++ ['\x7d', '\n']))) here
      [⟨here + indent, name, texts.map argument, some block⟩] := by
  intro earlier opened after
  rw [List.append_assoc, resume_opening hn ht, List.append_assoc, h, resume_closing _ rfl]
  simp only [Builder.Draft.node, List.append_nil, List.reverse_reverse, List.reverse_singleton,
    List.singleton_append, byteLength_append, Nat.add_assoc]

def laid (size : α → Nat) (f : Nat → α → β) : Nat → List α → List β
  | _, [] => []
  | position, x :: xs => f position x :: laid size f (position + size x) xs

theorem reads_laid {chars : α → List Char} {node : Nat → α → Node} {xs : List α}
    (h : ∀ x ∈ xs, ∀ here, Reads (chars x) here [node here x]) (here : Nat) :
    Reads (xs.flatMap chars) here (laid (fun x => byteLength (chars x)) node here xs) := by
  induction xs generalizing here with
  | nil => exact reads_nil here
  | cons x xs ih =>
    rw [List.flatMap_cons]
    exact (h x List.mem_cons_self here).append (ih (fun y hy => h y (List.mem_cons_of_mem x hy)) _)

theorem read?_of_reads {cs : List Char} {nodes : List Node} (hs : cs.head? ≠ some '\uFEFF')
    (h : Reads cs 0 nodes) : read? (String.ofList cs) = some nodes := by
  have ht : Scanner.tokens? (String.ofList cs) = Scanner.tokensFrom? 0 cs := by
    rw [Scanner.tokens?, String.toList_ofList]
    split
    · simp at hs
    · rfl
  have hr : resume Builder.start 0 cs =
      resume ⟨.between false, nodes.reverse, []⟩ (byteLength cs) [] := by
    simpa [Builder.start] using h [] [] []
  calc read? (String.ofList cs) = resume Builder.start 0 cs := by rw [read?, ht]; rfl
    _ = some nodes.reverse.reverse := hr
    _ = some nodes := by rw [List.reverse_reverse]

end Document

end EditHook
