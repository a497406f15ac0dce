import EditHook.Rules.Table
import Mathlib.Data.List.Forall2
import Mathlib.Data.List.Induction

/-! The commands of a table by their places. The commands that are selected for a path are those at
the places whose rule accepts it, in the order of the places. -/

namespace EditHook

/-- The entries `ys` stand at the places `is`, which are in order and leave out no place that has an
entry. -/
structure Enumerates (before : ι → ι → Prop) (holds : ι → β → Prop) (is : List ι)
    (ys : List β) : Prop where
  sorted : is.Pairwise before
  complete : ∀ i, i ∈ is ↔ ∃ y, holds i y
  entries : List.Forall₂ holds is ys

theorem enumerates_nil {before : ι → ι → Prop} {holds : ι → β → Prop}
    (h : ∀ i y, ¬ holds i y) : Enumerates before holds [] [] :=
  ⟨.nil, fun i => by simp [h i], .nil⟩

theorem enumerates_map (xs : List α) (f : α → β) :
    Enumerates (· < ·) (fun i y => ∃ x, xs[i]? = some x ∧ f x = y) (List.range xs.length)
      (xs.map f) := by
  refine ⟨List.pairwise_lt_range, fun i => ?_, ?_⟩
  · constructor
    · intro hi
      have hi := List.mem_range.mp hi
      exact ⟨f xs[i], xs[i], by simp [hi], rfl⟩
    · rintro ⟨y, x, hx, _⟩
      exact List.mem_range.mpr (List.getElem?_eq_some_iff.mp hx).1
  · rw [List.forall₂_iff_get]
    exact ⟨by simp, fun i hi hi' => ⟨xs.get ⟨i, by simpa using hi⟩, by simp, by simp⟩⟩

theorem enumerates_flatMap {before : ι → ι → Prop} {holds : α → ι → β → Prop} {f : α → List β}
    (h : ∀ x, ∃ is, Enumerates before (holds x) is (f x)) (xs : List α) :
    ∃ is, Enumerates (Prod.Lex (· < ·) before)
      (fun (i : Nat × ι) y => ∃ x, xs[i.1]? = some x ∧ holds x i.2 y) is (xs.flatMap f) := by
  induction xs using List.reverseRecOn with
  | nil => exact ⟨[], enumerates_nil (by simp)⟩
  | append_singleton xs x ih =>
    obtain ⟨is, hs, hc, he⟩ := ih
    obtain ⟨js, hs', hc', he'⟩ := h x
    -- the new places all have the last index, which is greater than the earlier ones
    have hlt : ∀ i ∈ is, i.1 < xs.length := by
      intro i hi
      obtain ⟨y, x', hx', _⟩ := (hc i).mp hi
      exact (List.getElem?_eq_some_iff.mp hx').1
    refine ⟨is ++ js.map (Prod.mk xs.length), ?_, ?_, ?_⟩
    · rw [List.pairwise_append]
      refine ⟨hs, List.pairwise_map.mpr (hs'.imp fun hh => .right _ hh), ?_⟩
      intro i hi j hj
      obtain ⟨k, _, rfl⟩ := List.mem_map.mp hj
      exact .left _ _ (hlt i hi)
    · rintro ⟨n, i⟩
      rcases Nat.lt_trichotomy n xs.length with hn | rfl | hn
      · have hne : xs.length ≠ n := by omega
        simpa [hne, List.getElem?_append_left hn] using hc (n, i)
      · have hnot : (xs.length, i) ∉ is := fun hh => Nat.lt_irrefl _ (hlt _ hh)
        simpa [hnot] using hc' i
      · have hnot : (n, i) ∉ is := fun hh => by have := hlt _ hh; simp only at this; omega
        have hne : xs.length ≠ n := by omega
        have hnone : (xs ++ [x])[n]? = none := by simp; omega
        simp [hnot, hne, hnone]
    · rw [List.flatMap_append, List.flatMap_singleton]
      refine List.rel_append ?_ ?_
      · refine he.imp fun i y hh => ?_
        obtain ⟨x', hx', hh⟩ := hh
        have hi := (List.getElem?_eq_some_iff.mp hx').1
        exact ⟨x', by rw [List.getElem?_append_left hi, hx'], hh⟩
      · rw [List.forall₂_map_left_iff]
        exact he'.imp fun i y hh => ⟨x, by simp, hh⟩

theorem flatMap_filter (p : α → Bool) (f : α → List β) (xs : List α) :
    (xs.filter p).flatMap f = xs.flatMap (fun x => if p x then f x else []) := by
  induction xs with
  | nil => rfl
  | cons x xs ih => cases hp : p x <;> simp [hp, ih]

namespace RuleTable

abbrev Place := Nat × Nat × Nat

def Place.Before : Place → Place → Prop :=
  Prod.Lex (· < ·) (Prod.Lex (· < ·) (· < ·))

/-- The rule at a place accepts a path, and `x` is the command there with the root of its section. -/
def Matched (t : RuleTable) (path : String) (p : Place) (x : Selected) : Prop :=
  ∃ s, t.sections[p.1]? = some s ∧ ∃ r, s.rules[p.2.1]? = some r ∧
    r.pattern.accepts path = true ∧ ∃ c, r.commands[p.2.2]? = some c ∧ Selected.mk s.root c = x

theorem select_eq_flatMap (t : RuleTable) (path : String) :
    t.select path = t.sections.flatMap (fun s => s.rules.flatMap (fun r =>
      if r.pattern.accepts path then r.commands.map (Selected.mk s.root) else [])) := by
  simp only [select, rulesFor, List.flatMap_assoc, List.flatMap_map, flatMap_filter]

theorem rule_enumerated (path : String) (root : Root) (r : Rule) :
    ∃ is, Enumerates (· < ·)
      (fun (i : Nat) x => r.pattern.accepts path = true ∧
        ∃ c, r.commands[i]? = some c ∧ Selected.mk root c = x) is
      (if r.pattern.accepts path then r.commands.map (Selected.mk root) else []) := by
  cases hr : r.pattern.accepts path with
  | false => exact ⟨[], by simpa using enumerates_nil (by simp)⟩
  | true => exact ⟨_, by simpa using enumerates_map r.commands (Selected.mk root)⟩

theorem select_enumerated (t : RuleTable) (path : String) :
    ∃ places, Enumerates Place.Before (t.Matched path) places (t.select path) := by
  rw [select_eq_flatMap]
  have hs := fun s : Section =>
    enumerates_flatMap (fun r => rule_enumerated path s.root r) s.rules
  exact enumerates_flatMap hs t.sections

end RuleTable

end EditHook
