import EditHook.Hook.Target
import EditHook.Proofs.JsonTrees
import EditHook.Proofs.PayloadForms
import EditHook.Proofs.Utf8Text
import Mathlib.Data.List.Nodup

/-! A payload that a host writes is read back: the three members that are looked at, wherever they
stand among others of any form, and with them the file that the payload names. -/

namespace EditHook

open Json

/-- A payload as a host writes it. Its members have different keys and stand in any order, and only of
those that are looked at it matters what they are. -/
structure Message where
  members : List (String × Tree)
  distinct : (members.map Prod.fst).Nodup
  names : ∀ key ∈ ["hook_event_name", "tool_name"], ∀ t, (key, t) ∈ members →
    t = .null ∨ ∃ s, t = .text s
  /-- The payload itself is one more bracket that is open. -/
  input : ∀ t, ("tool_input", t) ∈ members → t.depth + 1 < 128 ∧ ∃ j, t.json? = some j

namespace Message

def text (m : Message) : String :=
  String.ofList (Tree.object m.members).chars

/-- What a payload says about an edit. -/
structure Carries (m : Message) (p : Payload) : Prop where
  event : ∀ s, p.event = some s ↔ ("hook_event_name", .text s) ∈ m.members
  tool : ∀ s, p.tool = some s ↔ ("tool_name", .text s) ∈ m.members
  input : ∀ t, ("tool_input", t) ∈ m.members → t.json? = some p.input
  noInput : (∀ t, ("tool_input", t) ∉ m.members) → p.input = .null

/-- The last member of the tool's input with this key is this text, and it is not empty. -/
def Names (m : Message) (key s : String) : Prop :=
  s ≠ "" ∧ ∃ before after, ("tool_input", .object (before ++ (key, .text s) :: after)) ∈ m.members ∧
    key ∉ after.map Prod.fst

end Message

section Lookup

variable {α : Type} {key k : String} {ms : List (String × α)} {x : α}

theorem lookup_reverse_eq_some_iff : ms.reverse.lookup key = some x ↔
    ∃ before after, ms = before ++ (key, x) :: after ∧ key ∉ after.map Prod.fst := by
  rw [List.lookup_eq_some_iff]
  constructor
  · rintro ⟨after, before, he, hne⟩
    refine ⟨before.reverse, after.reverse, ?_, ?_⟩
    · have hr := congrArg List.reverse he
      simpa using hr
    · intro hm
      obtain ⟨p, hp, rfl⟩ := List.mem_map.mp hm
      exact absurd rfl (bne_iff_ne.mp (hne p (List.mem_reverse.mp hp)))
  · rintro ⟨before, after, rfl, hn⟩
    refine ⟨after.reverse, before.reverse, by simp, fun p hp => ?_⟩
    rw [bne_iff_ne]
    rintro rfl
    exact hn (List.mem_map_of_mem (List.mem_reverse.mp hp))

end Lookup

namespace Message

variable {m m' : Message} {p : Payload}

def said (m : Message) : List (String × Meaning) :=
  m.members.map fun x => (x.1, x.2.meaning)

theorem lookup_said (m : Message) (key : String) :
    m.said.lookup key = (m.members.lookup key).map Tree.meaning := by
  rw [said]
  induction m.members with
  | nil => rfl
  | cons x xs ih =>
    rw [List.map_cons, List.lookup_cons, List.lookup_cons, ih]
    cases key == x.1 <;> rfl

theorem keys_said (m : Message) : m.said.map Prod.fst = m.members.map Prod.fst := by
  rw [said, List.map_map]
  rfl

theorem memberMeanings_eq (ms : List (String × Tree)) :
    Tree.memberMeanings ms = Payload.named (ms.map fun x => (x.1, x.2.meaning)) := by
  induction ms with
  | nil => rfl
  | cons x ms ih =>
    rw [Tree.memberMeanings, ih]
    rfl

theorem fits (m : Message) : ∀ x ∈ m.said, Payload.Fits x.1 x.2 := by
  intro x hx
  obtain ⟨⟨key, t⟩, ht, rfl⟩ := List.mem_map.mp hx
  constructor
  · intro hk
    rcases m.names key hk t ht with rfl | ⟨s, rfl⟩
    · exact .null
    · exact .text s
  · intro hk
    obtain rfl : key = "tool_input" := hk
    obtain ⟨hdepth, j, hj⟩ := m.input t ht
    have hread := t.read?_meaning (Nat.le_of_lt_succ (Nat.lt_of_succ_lt_succ hdepth)) hj
    exact ⟨j, hread⟩

theorem carries_of_reflects {d : Payload.Draft} (h : d.Reflects m.said) : m.Carries d.payload := by
  have name {key : String} {v : Option (Option String)} (hk : key ∈ ["hook_event_name", "tool_name"])
      (hv : v = (m.said.lookup key).bind Payload.name?) (s : String) :
      v.getD none = some s ↔ (key, .text s) ∈ m.members := by
    rw [hv, lookup_said, ← lookup_eq_some_iff_mem m.distinct]
    cases hl : m.members.lookup key with
    | none => simp
    | some t =>
      rcases m.names key hk t ((lookup_eq_some_iff_mem m.distinct).mp hl) with rfl | ⟨s', rfl⟩
      · simp [Tree.meaning, Payload.name?]
      · simp [Tree.meaning, Payload.name?]
  refine ⟨name (by simp) h.event, name (by simp) h.tool, fun t ht => ?_, fun hn => ?_⟩
  · obtain ⟨hdepth, j, hj⟩ := m.input t ht
    have hread := t.read?_meaning (Nat.le_of_lt_succ (Nat.lt_of_succ_lt_succ hdepth)) hj
    rw [Payload.Draft.payload, h.input, lookup_said, (lookup_eq_some_iff_mem m.distinct).mpr ht, hj]
    simp [Payload.input?, Json.greatestNesting, hread]
  · have hl : m.members.lookup "tool_input" = none :=
      Option.eq_none_iff_forall_ne_some.mpr fun t ht =>
        hn t ((lookup_eq_some_iff_mem m.distinct).mp ht)
    rw [Payload.Draft.payload, h.input, lookup_said, hl]
    rfl

theorem ofText_text (m : Message) : ∃ p, Payload.ofText m.text = .ok p ∧ m.Carries p := by
  have hdistinct : (m.said.map Prod.fst).Nodup := m.keys_said ▸ m.distinct
  obtain ⟨d, hadd, hd⟩ := Payload.addAll?_of_fits hdistinct m.fits
  refine ⟨d.payload, ?_, carries_of_reflects hd⟩
  have hread := Payload.ofText_spelled (Tree.object m.members).isText
  rw [Tree.meaning, memberMeanings_eq, Payload.ofMeaning?, ← said, hadd] at hread
  exact toOption_eq_some_iff.mp hread

theorem ofStdin_text (m : Message) :
    ∃ p, Payload.ofStdin (.bytes (utf8 m.text)) = .ok p ∧ m.Carries p := by
  obtain ⟨p, hp, hc⟩ := m.ofText_text
  refine ⟨p, ?_, hc⟩
  rw [Payload.ofStdin]
  simp [textOfBytes?_utf8, hp, Except.mapError]

theorem Carries.eq {p' : Payload} (h : m.Carries p) (h' : m'.Carries p')
    (hm : ∀ key ∈ ["hook_event_name", "tool_name", "tool_input"], ∀ t,
      (key, t) ∈ m'.members ↔ (key, t) ∈ m.members) : p' = p := by
  have hevent : p'.event = p.event := by
    refine Option.ext fun s => ?_
    rw [h.event, h'.event, hm _ (by simp)]
  have htool : p'.tool = p.tool := by
    refine Option.ext fun s => ?_
    rw [h.tool, h'.tool, hm _ (by simp)]
  have hinput : p'.input = p.input := by
    by_cases hi : ∃ t, ("tool_input", t) ∈ m.members
    · obtain ⟨t, ht⟩ := hi
      have hj := h'.input t ((hm _ (by simp) t).mpr ht)
      exact Option.some.inj (hj.symm.trans (h.input t ht))
    · have hno : ∀ t, ("tool_input", t) ∉ m.members := not_exists.mp hi
      have hno' : ∀ t, ("tool_input", t) ∉ m'.members := fun t ht =>
        hno t ((hm _ (by simp) t).mp ht)
      rw [h.noInput hno, h'.noInput hno']
  obtain ⟨event, tool, input⟩ := p
  obtain ⟨event', tool', input'⟩ := p'
  cases hevent
  cases htool
  cases hinput
  rfl

theorem memberJson?_forall₂ {ms : List (String × Tree)} {js : List (String × Json)}
    (h : Tree.memberJson? ms = some js) :
    List.Forall₂ (fun x y => x.1 = y.1 ∧ x.2.json? = some y.2) ms js := by
  induction ms generalizing js with
  | nil =>
    cases h
    exact .nil
  | cons x ms ih =>
    obtain ⟨key, t⟩ := x
    obtain ⟨j, hj, h⟩ := Option.bind_eq_some_iff.mp h
    obtain ⟨js, hjs, rfl⟩ := Option.map_eq_some_iff.mp h
    exact .cons ⟨rfl, hj⟩ (ih hjs)

theorem lookup_json {ms : List (String × Tree)} {js : List (String × Json)}
    (h : List.Forall₂ (fun x y => x.1 = y.1 ∧ x.2.json? = some y.2) ms js) (key : String) :
    js.lookup key = (ms.lookup key).bind Tree.json? := by
  induction h with
  | nil => rfl
  | @cons x y _ _ hxy _ ih =>
    obtain ⟨k, t⟩ := x
    obtain ⟨_, j⟩ := y
    obtain ⟨rfl, hj⟩ := hxy
    rw [List.lookup_cons, List.lookup_cons]
    cases key == k with
    | true => exact hj.symm
    | false => exact ih

theorem json?_eq_text_iff {t : Tree} {s : String} :
    t.json? = some (.scalar (.text s)) ↔ t = .text s := by
  cases t with
  | text s' => simp [Tree.json?]
  | number n => simp [Tree.json?]
  | _ => simp [Tree.json?]

theorem textMember?_eq_some_iff {j : Json} {key s : String} :
    j.textMember? key = some s ↔ s ≠ "" ∧ j.member? key = some (.scalar (.text s)) := by
  rw [Json.textMember?]
  split
  · rename_i s' hs
    rw [hs]
    by_cases he : s' = ""
    · subst he
      simp
    · have hne : s'.isEmpty = false := by simpa using he
      simp only [hne, Bool.false_eq_true, if_false, Option.some.injEq, Json.scalar.injEq,
        Scalar.text.injEq]
      exact ⟨fun hh => ⟨hh ▸ he, hh⟩, And.right⟩
  · rename_i hne
    simp only [reduceCtorEq, false_iff, not_and]
    exact fun _ => hne s

theorem member?_eq_text_iff {t : Tree} {j : Json} (h : t.json? = some j) (key s : String) :
    j.member? key = some (.scalar (.text s)) ↔
      ∃ ms, t = .object ms ∧ ms.reverse.lookup key = some (.text s) := by
  cases t with
  | object ms =>
    obtain ⟨js, hjs, rfl⟩ := Option.map_eq_some_iff.mp h
    have hl := lookup_json (List.forall₂_reverse_iff.mpr (memberJson?_forall₂ hjs)) key
    rw [Json.member?, hl, Option.bind_eq_some_iff]
    simp [json?_eq_text_iff]
  | null =>
    cases h
    simp [Json.member?]
  | boolean b =>
    cases h
    simp [Json.member?]
  | number n =>
    obtain ⟨i, -, rfl⟩ := Option.map_eq_some_iff.mp h
    simp [Json.member?]
  | text s' =>
    cases h
    simp [Json.member?]
  | list ts =>
    obtain ⟨js, -, rfl⟩ := Option.map_eq_some_iff.mp h
    simp [Json.member?]

theorem Carries.textMember?_eq_some_iff (h : m.Carries p) (key s : String) :
    p.input.textMember? key = some s ↔ m.Names key s := by
  rw [Message.textMember?_eq_some_iff, Names]
  refine and_congr_right fun _ => ?_
  by_cases hi : ∃ t, ("tool_input", t) ∈ m.members
  · obtain ⟨t, ht⟩ := hi
    rw [member?_eq_text_iff (h.input t ht)]
    constructor
    · rintro ⟨ms, rfl, hl⟩
      obtain ⟨before, after, rfl, hn⟩ := lookup_reverse_eq_some_iff.mp hl
      exact ⟨before, after, ht, hn⟩
    · rintro ⟨before, after, ht', hn⟩
      have he := List.inj_on_of_nodup_map m.distinct ht ht' rfl
      exact ⟨_, (Prod.mk.inj he).2, lookup_reverse_eq_some_iff.mpr ⟨before, after, rfl, hn⟩⟩
  · have hno : ∀ t, ("tool_input", t) ∉ m.members := not_exists.mp hi
    rw [h.noInput hno]
    simp [Json.member?, hno]

theorem Carries.file?_eq_some_iff (h : m.Carries p) (s : String) :
    p.file? = some s ↔ m.Names "file_path" s ∨
      (∀ s', ¬ m.Names "file_path" s') ∧ m.Names "notebook_path" s := by
  have hfile := h.textMember?_eq_some_iff "file_path"
  have hnotebook := h.textMember?_eq_some_iff "notebook_path"
  rw [Payload.file?, ← hfile, ← hnotebook]
  cases hf : p.input.textMember? "file_path" with
  | none =>
    have hno : ∀ s', ¬ m.Names "file_path" s' := by
      intro s' hs
      rw [← hfile, hf] at hs
      cases hs
    simp [hno]
  | some s' =>
    have hs' := (hfile s').mp hf
    have hex : ¬ ∀ s', ¬ m.Names "file_path" s' := fun hh => hh s' hs'
    simp [hex]

end Message

/-- Whatever a host writes besides, wherever it puts it and however deep it nests: the payload comes
back with the three members that are looked at, and the file to check is the one they name. -/
theorem payload_reads_back (m : Message) :
    ∃ p, Payload.ofStdin (.bytes (utf8 m.text)) = .ok p ∧ m.Carries p ∧
      (∀ s, (target none (.bytes (utf8 m.text))).2 = some s ↔ m.Names "file_path" s ∨
        (∀ s', ¬ m.Names "file_path" s') ∧ m.Names "notebook_path" s) ∧
      ∀ m' : Message, (∀ key ∈ ["hook_event_name", "tool_name", "tool_input"], ∀ t,
          (key, t) ∈ m'.members ↔ (key, t) ∈ m.members) →
        Payload.ofStdin (.bytes (utf8 m'.text)) = .ok p ∧
        target none (.bytes (utf8 m'.text)) = target none (.bytes (utf8 m.text)) := by
  obtain ⟨p, hp, hc⟩ := m.ofStdin_text
  have htarget {m' : Message} (hp' : Payload.ofStdin (.bytes (utf8 m'.text)) = .ok p) :
      target none (.bytes (utf8 m'.text)) = p.target := by
    rw [target, hp']
  have hfile : p.target.2 = p.file? := by
    rw [Payload.target]
    cases p.file? <;> rfl
  refine ⟨p, hp, hc, fun s => ?_, fun m' hm => ?_⟩
  · rw [htarget hp, hfile]
    exact hc.file?_eq_some_iff s
  · obtain ⟨p', hp', hc'⟩ := m'.ofStdin_text
    obtain rfl : p' = p := hc.eq hc' hm
    exact ⟨hp', (htarget hp').trans (htarget hp).symm⟩

def nestedLists : Nat → Tree
  | 0 => .null
  | n + 1 => .list [nestedLists n]

def editInput : Tree :=
  .object [("file_path", .text "src/a.ts"), ("limit", .number ⟨true, 3, [], none⟩)]

def deepMessage : Message where
  members := [("tool_response", nestedLists 200), ("tool_input", editInput), ("tool_name", .null),
    ("hook_event_name", .text "PostToolUse")]
  distinct := by decide
  names := by simp
  input := by
    simp only [List.mem_cons, Prod.mk.injEq]
    rintro t (⟨h, -⟩ | ⟨-, rfl⟩ | ⟨h, -⟩ | ⟨h, -⟩ | h)
    · exact absurd h (by decide)
    · exact ⟨by decide, _, rfl⟩
    · exact absurd h (by decide)
    · exact absurd h (by decide)
    · cases h

def bareMessage : Message where
  members := [("hook_event_name", .text "PostToolUse"), ("tool_name", .null),
    ("tool_input", editInput)]
  distinct := by decide
  names := by simp
  input := by
    simp only [List.mem_cons, Prod.mk.injEq]
    rintro t (⟨h, -⟩ | ⟨h, -⟩ | ⟨-, rfl⟩ | h)
    · exact absurd h (by decide)
    · exact absurd h (by decide)
    · exact ⟨by decide, _, rfl⟩
    · cases h

theorem deepMessage_reads_back :
    (∀ key ∈ ["hook_event_name", "tool_name", "tool_input"], ∀ t,
      (key, t) ∈ bareMessage.members ↔ (key, t) ∈ deepMessage.members) ∧
    (target none (.bytes (utf8 deepMessage.text))).2 = some "src/a.ts" ∧
    target none (.bytes (utf8 bareMessage.text)) = target none (.bytes (utf8 deepMessage.text)) := by
  have hsame : ∀ key ∈ ["hook_event_name", "tool_name", "tool_input"], ∀ t,
      (key, t) ∈ bareMessage.members ↔ (key, t) ∈ deepMessage.members := by
    intro key hk t
    simp only [List.mem_cons, List.not_mem_nil, or_false] at hk
    rcases hk with rfl | rfl | rfl <;> simp [bareMessage, deepMessage]
  have hnames : deepMessage.Names "file_path" "src/a.ts" :=
    ⟨by decide, [], [("limit", .number ⟨true, 3, [], none⟩)], by simp [deepMessage, editInput],
      by simp⟩
  obtain ⟨p, -, -, hfile, hother⟩ := payload_reads_back deepMessage
  exact ⟨hsame, (hfile _).mpr (.inl hnames), (hother bareMessage hsame).2⟩

end EditHook
