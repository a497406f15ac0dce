import EditHook.Proofs.Placeholder
import Mathlib.Data.List.DropRight

/-! Roots and their texts. The separators at the end of a text are all that a root forgets of it, and
what puts a path under a root is undone by what takes it out. -/

namespace EditHook

namespace Root

theorem trimmed_eq (text : String) : trimmed text = text.toList.rdropWhile (· == '/') :=
  rfl

theorem ofText_of_trimmed {text : String} (h : trimmed text ≠ []) :
    ofText text = dir (String.ofList (trimmed text)) := by
  obtain ⟨c, cs, hc⟩ := List.exists_cons_of_ne_nil h
  rw [ofText, hc]

theorem ofText_of_separators {text : String} (h : trimmed text = []) : ofText text = repository := by
  rw [ofText, h]

theorem ofText_eq_iff {text other : String} :
    ofText other = ofText text ↔ trimmed other = trimmed text := by
  constructor
  · intro h
    by_cases ho : trimmed other = [] <;> by_cases ht : trimmed text = []
    · rw [ho, ht]
    · rw [ofText_of_separators ho, ofText_of_trimmed ht] at h
      cases h
    · rw [ofText_of_trimmed ho, ofText_of_separators ht] at h
      cases h
    · rw [ofText_of_trimmed ho, ofText_of_trimmed ht, dir.injEq] at h
      exact String.ofList_injective h
  · intro h
    rw [ofText, ofText, h]

theorem trimmed_display (text : String) : trimmed (ofText text).display = trimmed text := by
  by_cases ht : trimmed text = []
  · rw [ofText_of_separators ht, ht]
    rfl
  · rw [ofText_of_trimmed ht, display, trimmed_eq, String.toList_ofList, trimmed_eq,
      List.rdropWhile_idempotent]

theorem unqualify_qualify (r : Root) (path : String) : r.unqualify (r.qualify path) = path := by
  cases r with
  | repository => rfl
  | dir name => exact unqualify_below name path

theorem unqualify_eq_self_iff {name path : String} :
    (dir name).unqualify path = path ↔ ∀ rest, path ≠ name ++ "/" ++ rest := by
  refine ⟨?_, unqualify_of_not_below⟩
  rintro h rest rfl
  rw [unqualify_below] at h
  have hl := congrArg String.length h
  simp only [String.length_append] at hl
  have hs : "/".length = 1 := rfl
  omega

theorem qualify_unqualify (r : Root) (path : String) :
    r.unqualify path = path ∨ r.qualify (r.unqualify path) = path := by
  cases r with
  | repository => exact .inl rfl
  | dir name =>
    by_cases hb : ∃ rest, path = name ++ "/" ++ rest
    · obtain ⟨rest, rfl⟩ := hb
      rw [unqualify_below]
      exact .inr rfl
    · exact .inl (unqualify_of_not_below fun rest he => hb ⟨rest, he⟩)

/-- The laws of a root that is given by a text. Its shortest text names it, and only texts that differ in
the separators at their end name the same root. What is put under it comes out again; a path that it
cuts is put back, and a path that it leaves alone does not lie inside a directory. -/
theorem ofText_laws (text : String) :
    let r := ofText text
    ofText r.display = r ∧
    (∀ other, ofText other = r ↔
      other.toList.rdropWhile (· == '/') = text.toList.rdropWhile (· == '/')) ∧
    (∀ path, r.unqualify (r.qualify path) = path) ∧
    (∀ path, r.unqualify path = path ∨ r.qualify (r.unqualify path) = path) ∧
    ∀ name, r = dir name → ∀ path,
      (r.unqualify path = path ↔ ¬ (name ++ "/").toList <+: path.toList) := by
  refine ⟨ofText_eq_iff.mpr (trimmed_display text), fun other => ofText_eq_iff,
    unqualify_qualify _, qualify_unqualify _, fun name hr path => ?_⟩
  have hb : (name ++ "/").toList <+: path.toList ↔ ∃ rest, path = name ++ "/" ++ rest := by
    rw [below_iff, String.toList_append]
    rfl
  rw [hr, unqualify_eq_self_iff, hb, not_exists]

end Root

end EditHook
