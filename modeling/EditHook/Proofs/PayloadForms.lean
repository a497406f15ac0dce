import EditHook.Payload.Reader
import EditHook.Proofs.JsonSkimming

/-! Payloads as JSON texts of any form: what is read of an object, member by member, and of a list, and
that nothing is read of anything else. -/

namespace EditHook

open Json

section Lookup

variable {α : Type} {key k : String} {ms : List (String × α)} {x : α}

theorem lookup_eq_none_of_notMem (h : key ∉ ms.map Prod.fst) : ms.lookup key = none := by
  rw [List.lookup_eq_none_iff]
  intro p hp
  rw [bne_iff_ne]
  rintro rfl
  exact h (List.mem_map_of_mem hp)

theorem lookup_concat_self (h : key ∉ ms.map Prod.fst) : (ms ++ [(key, x)]).lookup key = some x := by
  rw [List.lookup_append, lookup_eq_none_of_notMem h]
  simp

theorem lookup_concat_ne (h : k ≠ key) : (ms ++ [(key, x)]).lookup k = ms.lookup k := by
  have hk : (k == key) = false := beq_eq_false_iff_ne.mpr h
  rw [List.lookup_append, List.lookup_cons, hk]
  simp

theorem lookup_eq_some_iff_mem (h : (ms.map Prod.fst).Nodup) :
    ms.lookup key = some x ↔ (key, x) ∈ ms := by
  induction ms with
  | nil => simp
  | cons m ms ih =>
    obtain ⟨k, y⟩ := m
    rw [List.map_cons, List.nodup_cons] at h
    rw [List.lookup_cons, List.mem_cons]
    by_cases hk : key = k
    · subst hk
      have hn : (key, x) ∉ ms := fun hm => h.1 (List.mem_map.mpr ⟨_, hm, rfl⟩)
      simp [hn, eq_comm]
    · have hb : (key == k) = false := beq_eq_false_iff_ne.mpr hk
      simp [hb, ih h.2, hk]

end Lookup

namespace Payload

variable {bs cs before behind rest : List Char} {c : Char} {m : Meaning} {ms : List Meaning}
  {fields : List (Option String × Meaning)} {first : Bool} {fuel : Nat}

def name? : Meaning → Option (Option String)
  | .null => some none
  | .text (some s) => some (some s)
  | _ => none

def input? (m : Meaning) : Option Json :=
  m.read? (greatestNesting - 1)

theorem wrongType_toOption (expected : String) (c : Char) (rest : List Char) :
    (wrongType expected c rest : Except Fault α).toOption = none := by
  cases hs : scalarAt? c rest with
  | none =>
    simp only [wrongType, hs]
    split
    · rfl
    · split <;> rfl
  | some r => cases r <;> simp [wrongType, hs, faultAt, bind, Except.bind, Except.toOption]

theorem optionalText_blanks (hb : Blanks bs) (cs : List Char) :
    optionalText (bs ++ cs) = optionalText cs := by
  simp only [optionalText, skipBlank_append hb]

theorem optionalText_other (hb : isBlank c = false) (hn : c ≠ 'n') (hq : c ≠ '"') (cs : List Char) :
    (optionalText (c :: cs)).toOption = none := by
  simp only [optionalText, skipBlank_cons hb, hn, hq, if_false, wrongType_toOption]

theorem optionalText_spelled (hb : Blanks bs) (h : Spells m cs) (rest : List Char) :
    (optionalText (bs ++ (cs ++ rest))).toOption = (name? m).map fun n => (n, rest) := by
  rw [optionalText_blanks hb]
  cases h with
  | null => rfl
  | @text gs cs ht =>
    have hq : '"' ≠ 'n' := by decide
    simp only [List.cons_append, optionalText, skipBlank_cons (c := '"') rfl, hq, if_false, if_true,
      toOption_map, text_spelled ht]
    cases textOf? gs <;> rfl
  | trueWord => exact optionalText_other rfl (by decide) (by decide) _
  | falseWord => exact optionalText_other rfl (by decide) (by decide) _
  | number n =>
    obtain ⟨c, ds, hc, rfl | hd⟩ := n.chars_head
    · rw [hc]
      exact optionalText_other rfl (by decide) (by decide) _
    · rw [hc]
      exact optionalText_other (digit_not_blank hd) (digit_ne hd rfl) (digit_ne hd rfl) _
  | list _ => exact optionalText_other rfl (by decide) (by decide) _
  | object _ => exact optionalText_other rfl (by decide) (by decide) _

theorem toolInput_spelled (hb : Blanks bs) (h : Spells m cs) (hr : Follows rest) :
    (toolInput (bs ++ (cs ++ rest))).toOption = (input? m).map fun j => (j, rest) := by
  rw [toolInput, value_blanks hb]
  exact value_spelled m h _ hr

/-- What a member adds to a draft. A member that is looked at comes only once. -/
def Draft.add? (d : Draft) (key : String) (m : Meaning) : Option Draft :=
  if key = "hook_event_name" then
    if d.event.isSome then none else (name? m).map fun n => { d with event := some n }
  else if key = "tool_name" then
    if d.tool.isSome then none else (name? m).map fun n => { d with tool := some n }
  else if key = "tool_input" then
    if d.input.isSome then none else (input? m).map fun j => { d with input := some j }
  else some d

def Draft.addAll? (d : Draft) : List (Option String × Meaning) → Option Draft
  | [] => some d
  | (key?, m) :: ms => key?.bind fun key => (d.add? key m).bind fun d => d.addAll? ms

theorem repeated_toOption (key : String) (cs : List Char) :
    (repeated key cs : Except Fault α).toOption = none := by
  rw [repeated]
  split <;> rfl

theorem lookedAt_toOption {p : List Char → Except Fault (Parsed α)} {x? : Option α} (seen : Bool)
    (key : String) (f : α → Draft) (hb : Blanks before)
    (hp : (p (behind ++ (cs ++ rest))).toOption = x?.map fun x => (x, rest)) :
    (if seen then repeated key (before ++ ':' :: (behind ++ (cs ++ rest))) else do
      let (x, rest) ← p (← colon (before ++ ':' :: (behind ++ (cs ++ rest))))
      return (f x, rest) : Except Fault (Parsed Draft)).toOption =
      (if seen then none else x?.map f).map fun d => (d, rest) := by
  cases seen with
  | true => simp [repeated_toOption]
  | false =>
    have hcolon := colon_append hb (behind ++ (cs ++ rest))
    simp only [Bool.false_eq_true, if_false, toOption_bind, hcolon, toOption_ok, Option.bind_some, hp]
    cases x? <;> rfl

theorem member_spelled (d : Draft) (key : String) (hb : Blanks before) (hb' : Blanks behind)
    (h : Spells m cs) (hr : Follows rest) :
    (member d key (before ++ ':' :: (behind ++ (cs ++ rest)))).toOption =
      (d.add? key m).map fun d => (d, rest) := by
  have hname := optionalText_spelled hb' h rest
  have hinput := toolInput_spelled hb' h hr
  unfold member Draft.add?
  by_cases hevent : key = "hook_event_name"
  · rw [if_pos hevent, if_pos hevent]
    exact lookedAt_toOption d.event.isSome key (fun n => { d with event := some n }) hb hname
  · by_cases htool : key = "tool_name"
    · rw [if_neg hevent, if_neg hevent, if_pos htool, if_pos htool]
      exact lookedAt_toOption d.tool.isSome key (fun n => { d with tool := some n }) hb hname
    · by_cases hin : key = "tool_input"
      · rw [if_neg hevent, if_neg hevent, if_neg htool, if_neg htool, if_pos hin, if_pos hin]
        exact lookedAt_toOption d.input.isSome key (fun j => { d with input := some j }) hb hinput
      · have hcolon := colon_append hb (behind ++ (cs ++ rest))
        simp only [hevent, htool, hin, if_false, toOption_bind, hcolon, toOption_ok, Option.bind_some,
          skipValue_spelled hb' h hr]
        rfl

theorem fields_spelled (fields : List (Option String × Meaning)) (d : Draft)
    (h : SpellsMembers first fields cs) (hf : fields.length < fuel) (rest : List Char) :
    (Payload.fields fuel first d (cs ++ rest)).toOption =
      (d.addAll? fields).map fun d => (d.payload, rest) := by
  obtain ⟨fuel, rfl⟩ := Nat.exists_eq_add_one.mpr (Nat.zero_lt_of_lt hf)
  induction fields generalizing d first cs fuel with
  | nil =>
    cases h with
    | nil hb =>
      rw [List.append_assoc, List.singleton_append, Payload.fields, nextKey_end first hb]
      rfl
  | cons x fields ih =>
    cases h with
    | @cons _ gs m _ lead key before behind cs more hl hk hb hb' hm hms =>
      have hf : fields.length < fuel := Nat.lt_of_succ_lt_succ hf
      have htext := text_spelled hk (before ++ ':' :: (behind ++ (cs ++ (more ++ rest))))
      simp only [List.append_assoc, List.cons_append, Payload.fields, nextKey_lead hl, toOption_bind,
        toOption_ok, Option.bind_some, if_true, htext, Draft.addAll?]
      cases textOf? gs with
      | none => rfl
      | some key =>
        have hmember := member_spelled d key hb hb' hm (hms.follows rest)
        simp only [Option.map_some, Option.bind_some, hmember]
        cases d.add? key m with
        | none => rfl
        | some d =>
          obtain ⟨fuel, rfl⟩ := Nat.exists_eq_add_one.mpr (Nat.zero_lt_of_lt hf)
          exact ih d hms fuel hf

def inputOfItems? : List Meaning → Option Json
  | [] => some .null
  | [input] => input? input
  | _ => none

def ofItems? : List Meaning → Option Payload
  | event :: tool :: inputs => (name? event).bind fun event => (name? tool).bind fun tool =>
    (inputOfItems? inputs).map fun input => ⟨event, tool, input⟩
  | _ => none

theorem endOfList_last (h : SpellsItems false [] cs) (rest : List Char) :
    endOfList (cs ++ rest) = .ok rest := by
  cases h with
  | nil hb =>
    rw [List.append_assoc, List.singleton_append, endOfList, skipBlank_append hb,
      skipBlank_cons (c := ']') rfl]
    rfl

theorem endOfList_further (h : SpellsItems false (m :: ms) cs) (rest : List Char) :
    (endOfList (cs ++ rest)).toOption = none := by
  cases h with
  | @cons _ _ _ lead cs more hl hm hms =>
    cases hl with
    | @further bs ds hb hb' =>
      have hc : ',' ≠ ']' := by decide
      simp only [List.append_assoc, List.cons_append, endOfList, skipBlank_append hb,
        skipBlank_cons (c := ',') rfl, hc, if_false, if_true]
      split <;> rfl

theorem tooShort_toOption (length : Nat) (rest : List Char) :
    (tooShort length rest : Except Fault α).toOption = none := rfl

theorem optionalText_item (h : Spells m cs) (rest : List Char) :
    (optionalText (cs ++ rest)).toOption = (name? m).map fun n => (n, rest) :=
  optionalText_spelled Blanks.nil h rest

theorem toolInput_item (h : Spells m cs) (hr : Follows rest) :
    (toolInput (cs ++ rest)).toOption = (input? m).map fun j => (j, rest) :=
  toolInput_spelled Blanks.nil h hr

theorem listed_spelled (h : SpellsItems true ms cs) (rest : List Char) :
    (listed (cs ++ rest)).toOption = (ofItems? ms).map fun p => (p, rest) := by
  match ms with
  | [] => simp [listed, toOption_bind, h.nextItem_nil, tooShort_toOption, ofItems?]
  | [event] =>
    obtain ⟨item, more, hevent, hms, hnext⟩ := h.nextItem_cons
    simp only [listed, toOption_bind, hnext, toOption_ok, Option.bind_some, Bool.not_true,
      Bool.false_eq_true, if_false, optionalText_item hevent, ofItems?]
    cases name? event with
    | none => rfl
    | some event =>
      simp [hms.nextItem_nil, tooShort_toOption]
  | event :: tool :: inputs =>
    obtain ⟨item, more, hevent, hms, hnext⟩ := h.nextItem_cons
    obtain ⟨item', more', htool, hinputs, hnext'⟩ := hms.nextItem_cons
    simp only [listed, toOption_bind, hnext, toOption_ok, Option.bind_some, Bool.not_true,
      Bool.false_eq_true, if_false, optionalText_item hevent, ofItems?]
    cases name? event with
    | none => rfl
    | some event =>
      simp only [Option.map_some, Option.bind_some, hnext', toOption_bind, toOption_ok, Bool.not_true,
        Bool.false_eq_true, if_false, optionalText_item htool]
      cases name? tool with
      | none => rfl
      | some tool =>
        simp only [Option.map_some, Option.bind_some]
        -- behind the names stands the input, if the list does not end there, and the end of the list
        match inputs with
        | [] => simp [hinputs.nextItem_nil, inputOfItems?]
        | input :: others =>
          obtain ⟨item'', more'', hinput, hothers, hnext''⟩ := hinputs.nextItem_cons
          have hi := toolInput_item hinput (hothers.follows rest)
          simp only [hnext'', toOption_ok, Option.bind_some, Bool.not_true, Bool.false_eq_true, if_false,
            toOption_bind, hi]
          cases others with
          | nil =>
            rw [inputOfItems?]
            cases input? input with
            | none => rfl
            | some j => simp [endOfList_last hothers]
          | cons other others =>
            have hnone : inputOfItems? (input :: other :: others) = none := rfl
            rw [hnone]
            cases input? input with
            | none => rfl
            | some j => simp [endOfList_further hothers]

def named (ms : List (String × Meaning)) : List (Option String × Meaning) :=
  ms.map fun x => (some x.1, x.2)

theorem exists_named (h : none ∉ fields.map Prod.fst) : ∃ ms, fields = named ms := by
  induction fields with
  | nil => exact ⟨[], rfl⟩
  | cons x fields ih =>
    rw [List.map_cons, List.mem_cons, not_or] at h
    obtain ⟨ms, rfl⟩ := ih h.2
    obtain ⟨key?, m⟩ := x
    cases key? with
    | none => exact absurd rfl h.1
    | some key => exact ⟨(key, m) :: ms, rfl⟩

theorem lookup_named (ms : List (String × Meaning)) (key : String) :
    (named ms).lookup (some key) = ms.lookup key := by
  induction ms with
  | nil => rfl
  | cons x ms ih =>
    rw [named] at ih ⊢
    have hkey : (some key == some x.1) = (key == x.1) := rfl
    rw [List.map_cons, List.lookup_cons, List.lookup_cons, ih, hkey]

theorem mem_named {ms : List (String × Meaning)} {key : String} :
    (some key, m) ∈ named ms ↔ (key, m) ∈ ms := by
  simp [named]

theorem filterMap_named (ms : List (String × Meaning)) :
    (named ms).filterMap Prod.fst = ms.map Prod.fst := by
  simp [named, List.filterMap_map]

inductive IsName : Meaning → Prop where
  | null : IsName .null
  | text (s : String) : IsName (.text (some s))

theorem isSome_name?_iff : (name? m).isSome ↔ IsName m := by
  constructor
  · intro h
    cases m with
    | null => exact .null
    | text s? =>
      cases s? with
      | none => cases h
      | some s => exact .text s
    | boolean b => cases h
    | number s? => cases h
    | list ms => cases h
    | object ms => cases h
  · intro h
    cases h <;> rfl

structure Fits (key : String) (m : Meaning) : Prop where
  name : key ∈ ["hook_event_name", "tool_name"] → IsName m
  input : key = "tool_input" → ∃ j, input? m = some j

/-- A draft that has what some members say. -/
structure Draft.Reflects (d : Draft) (ms : List (String × Meaning)) : Prop where
  event : d.event = (ms.lookup "hook_event_name").bind name?
  tool : d.tool = (ms.lookup "tool_name").bind name?
  input : d.input = (ms.lookup "tool_input").bind input?

theorem add?_of_fits {d : Draft} {done : List (String × Meaning)} {key : String}
    (h : d.Reflects done) (hn : key ∉ done.map Prod.fst) (hf : Fits key m) :
    ∃ d', d.add? key m = some d' ∧ d'.Reflects (done ++ [(key, m)]) := by
  have hself : (done ++ [(key, m)]).lookup key = some m := lookup_concat_self hn
  have hother {k : String} (hk : k ≠ key) : (done ++ [(key, m)]).lookup k = done.lookup k :=
    lookup_concat_ne hk
  -- a key that has not come before has nothing in the draft, so it is not taken for a repeated one
  have hnew := lookup_eq_none_of_notMem hn
  by_cases he : key = "hook_event_name"
  · subst he
    obtain ⟨n, hname⟩ := Option.isSome_iff_exists.mp (isSome_name?_iff.mpr (hf.name (by simp)))
    have hd : d.event = none := by rw [h.event, hnew]; rfl
    refine ⟨{ d with event := some n }, by simp [Draft.add?, hd, hname], ?_, ?_, ?_⟩
    · rw [hself]
      exact hname.symm
    · rw [hother (by decide), h.tool]
    · rw [hother (by decide), h.input]
  · by_cases ht : key = "tool_name"
    · subst ht
      obtain ⟨n, hname⟩ := Option.isSome_iff_exists.mp (isSome_name?_iff.mpr (hf.name (by simp)))
      have hd : d.tool = none := by rw [h.tool, hnew]; rfl
      refine ⟨{ d with tool := some n }, by simp [Draft.add?, hd, hname], ?_, ?_, ?_⟩
      · rw [hother (by decide), h.event]
      · rw [hself]
        exact hname.symm
      · rw [hother (by decide), h.input]
    · by_cases hi : key = "tool_input"
      · subst hi
        obtain ⟨j, hj⟩ := hf.input rfl
        have hd : d.input = none := by rw [h.input, hnew]; rfl
        refine ⟨{ d with input := some j }, by simp [Draft.add?, hd, hj], ?_, ?_, ?_⟩
        · rw [hother (by decide), h.event]
        · rw [hother (by decide), h.tool]
        · rw [hself]
          exact hj.symm
      · refine ⟨d, by simp [Draft.add?, he, ht, hi], ?_, ?_, ?_⟩
        · rw [hother (Ne.symm he), h.event]
        · rw [hother (Ne.symm ht), h.tool]
        · rw [hother (Ne.symm hi), h.input]

theorem addAll?_reflects {d : Draft} {done ms : List (String × Meaning)} (h : d.Reflects done)
    (hn : ((done ++ ms).map Prod.fst).Nodup) (hf : ∀ x ∈ ms, Fits x.1 x.2) :
    ∃ d', d.addAll? (named ms) = some d' ∧ d'.Reflects (done ++ ms) := by
  induction ms generalizing d done with
  | nil => exact ⟨d, rfl, by simpa using h⟩
  | cons x ms ih =>
    obtain ⟨key, m⟩ := x
    obtain ⟨hm, hf⟩ := List.forall_mem_cons.mp hf
    have hnew : key ∉ done.map Prod.fst := by
      intro hmem
      rw [List.map_append, List.nodup_append] at hn
      exact hn.2.2 key hmem key (by simp) rfl
    obtain ⟨d', hadd, hd'⟩ := add?_of_fits h hnew hm
    have hn' : (((done ++ [(key, m)]) ++ ms).map Prod.fst).Nodup := by simpa using hn
    obtain ⟨d'', haddAll, hd''⟩ := ih hd' hn' hf
    refine ⟨d'', ?_, by simpa using hd''⟩
    rw [named] at haddAll
    simp [named, Draft.addAll?, hadd, haddAll]

theorem addAll?_of_fits {ms : List (String × Meaning)} (hn : (ms.map Prod.fst).Nodup)
    (hf : ∀ x ∈ ms, Fits x.1 x.2) :
    ∃ d, Draft.empty.addAll? (named ms) = some d ∧ d.Reflects ms := by
  have hempty : Draft.empty.Reflects [] := ⟨rfl, rfl, rfl⟩
  exact addAll?_reflects hempty hn hf

theorem fits_of_add? {d d' : Draft} {key : String} (h : d.add? key m = some d') : Fits key m := by
  unfold Draft.add? at h
  constructor
  · intro hk
    have hname : ∃ n, name? m = some n := by
      simp only [List.mem_cons, List.not_mem_nil, or_false] at hk
      rcases hk with rfl | rfl
      · cases hn : name? m with
        | none => simp [hn] at h
        | some n => exact ⟨n, rfl⟩
      · cases hn : name? m with
        | none => simp [hn] at h
        | some n => exact ⟨n, rfl⟩
    exact isSome_name?_iff.mp (Option.isSome_iff_exists.mpr hname)
  · rintro rfl
    cases hj : input? m with
    | none => simp [hj] at h
    | some j => exact ⟨j, rfl⟩

theorem fits_of_addAll? {d d' : Draft} (h : d.addAll? fields = some d') :
    none ∉ fields.map Prod.fst ∧ ∀ key m, (some key, m) ∈ fields → Fits key m := by
  induction fields generalizing d with
  | nil => simp
  | cons x fields ih =>
    obtain ⟨key?, m⟩ := x
    obtain ⟨key, hkey, hrest⟩ := Option.bind_eq_some_iff.mp h
    obtain ⟨d₁, hadd, hothers⟩ := Option.bind_eq_some_iff.mp hrest
    obtain ⟨hkeys, hfits⟩ := ih hothers
    subst hkey
    refine ⟨by simpa using hkeys, ?_⟩
    intro k m' hm
    rcases List.mem_cons.mp hm with heq | hm
    · cases heq
      exact fits_of_add? hadd
    · exact hfits k m' hm

def ofMeaning? : Meaning → Option Payload
  | .object ms => (Draft.empty.addAll? ms).map Draft.payload
  | .list ms => ofItems? ms
  | _ => none

theorem parse_blanks (hb : Blanks bs) (cs : List Char) : parse (bs ++ cs) = parse cs := by
  simp only [parse, skipBlank_append hb]

theorem parse_other (hb : isBlank c = false) (hcurly : c ≠ '\x7b') (hsquare : c ≠ '[')
    (cs : List Char) : (parse (c :: cs)).toOption = none := by
  simp only [parse, skipBlank_cons hb, hcurly, hsquare, if_false, wrongType_toOption]

theorem parse_spelled (hb : Blanks bs) (h : Spells m cs) (rest : List Char) :
    (parse (bs ++ (cs ++ rest))).toOption = (ofMeaning? m).map fun p => (p, rest) := by
  rw [parse_blanks hb]
  cases h with
  | null => exact parse_other rfl (by decide) (by decide) _
  | trueWord => exact parse_other rfl (by decide) (by decide) _
  | falseWord => exact parse_other rfl (by decide) (by decide) _
  | number n =>
    obtain ⟨c, ds, hc, rfl | hd⟩ := n.chars_head
    · rw [hc]
      exact parse_other rfl (by decide) (by decide) _
    · rw [hc]
      exact parse_other (digit_not_blank hd) (digit_ne hd rfl) (digit_ne hd rfl) _
  | text _ => exact parse_other rfl (by decide) (by decide) _
  | @list ms cs hms =>
    have hparse : parse ('[' :: (cs ++ rest)) = listed (cs ++ rest) := by
      simp [parse, skipBlank_cons (c := '[') rfl]
    rw [List.cons_append, hparse]
    exact listed_spelled hms rest
  | @object ms cs hms =>
    have hparse : parse ('\x7b' :: (cs ++ rest)) =
        fields ((cs ++ rest).length + 1) true .empty (cs ++ rest) := by
      simp [parse, skipBlank_cons (c := '\x7b') rfl]
    have hf : ms.length < (cs ++ rest).length + 1 := by
      have hl := hms.length_lt
      rw [List.length_append]
      omega
    rw [List.cons_append, hparse, fields_spelled ms .empty hms hf, ofMeaning?]
    cases Draft.empty.addAll? ms <;> rfl

/-- A whole text is read for what it says, whatever blanks stand around it. -/
theorem ofText_spelled {text : String} (h : IsText m text) :
    (ofText text).toOption = ofMeaning? m := by
  obtain ⟨bs, cs, behind, hb, hm, hb', htext⟩ := h
  have hnil : skipBlank behind = [] := by
    have hnil := skipBlank_append hb' []
    rwa [List.append_nil] at hnil
  rw [ofText, htext, toOption_bind, parse_spelled hb hm]
  cases ofMeaning? m with
  | none => rfl
  | some p => simp [hnil]

end Payload

end EditHook
