import EditHook.Glob.Basic
import EditHook.Proofs.ShapeMatching

/-! The byte strings that pieces in a row spell. A glob accepts a path when its pieces spell the bytes
of the path, one piece after the other. -/

namespace EditHook

namespace Piece

/-- A byte string that a piece stands for. A piece without any text stands for the empty one. -/
def Word (p : Piece) (w : List UInt8) : Prop :=
  match p.shape with
  | some s => s.Denotes w
  | none => w = []

def Spells : List Piece → List UInt8 → Prop
  | [], w => w = []
  | p :: ps, w => ∃ u v, w = u ++ v ∧ p.Word u ∧ Spells ps v

theorem sequence_spells (ps : List Piece) (w : List UInt8) :
    (match sequence ps with
      | some s => s.Denotes w
      | none => w = []) ↔ Spells ps w := by
  induction ps generalizing w with
  | nil => rfl
  | cons p ps ih =>
    simp only [sequence, Spells, Word]
    cases hp : p.shape with
    | none =>
      rw [ih]
      exact ⟨fun hw => ⟨[], w, rfl, rfl, hw⟩, by rintro ⟨_, v, rfl, rfl, hv⟩; exact hv⟩
    | some s =>
      cases hs : sequence ps with
      | none =>
        simp only [hs] at ih
        constructor
        · exact fun hw => ⟨w, [], by simp, hw, (ih []).mp rfl⟩
        · rintro ⟨u, v, rfl, hu, hv⟩
          simpa [(ih v).mpr hv] using hu
      | some rest =>
        simp only [hs] at ih
        simp only [Shape.Denotes, ih]

theorem spells_append (ps qs : List Piece) (w : List UInt8) :
    Spells (ps ++ qs) w ↔ ∃ u v, w = u ++ v ∧ Spells ps u ∧ Spells qs v := by
  induction ps generalizing w with
  | nil =>
    exact ⟨fun hw => ⟨[], w, rfl, rfl, hw⟩, by rintro ⟨_, v, rfl, rfl, hv⟩; exact hv⟩
  | cons p ps ih =>
    simp only [List.cons_append, Spells, ih]
    constructor
    · rintro ⟨u, _, rfl, hu, u', v, rfl, hu', hv⟩
      exact ⟨u ++ u', v, by simp, ⟨u, u', rfl, hu, hu'⟩, hv⟩
    · rintro ⟨_, v, rfl, ⟨u, u', rfl, hu, hu'⟩, hv⟩
      exact ⟨u, u' ++ v, by simp, hu, u', v, rfl, hu', hv⟩

theorem spells_concat (ps : List Piece) (p : Piece) (w : List UInt8) :
    Spells (ps ++ [p]) w ↔ ∃ u v, w = u ++ v ∧ Spells ps u ∧ p.Word v := by
  rw [spells_append]
  simp [Spells]

theorem word_literal (c : Char) (w : List UInt8) :
    (literal c).Word w ↔ w = String.utf8EncodeChar c :=
  Shape.denotes_bytes _ _

theorem spells_literals (cs : List Char) (w : List UInt8) :
    Spells (cs.map literal) w ↔ w = cs.flatMap String.utf8EncodeChar := by
  induction cs generalizing w with
  | nil => rfl
  | cons c cs ih =>
    simp only [List.map_cons, Spells, word_literal, ih, List.flatMap_cons]
    exact ⟨by rintro ⟨_, _, rfl, rfl, rfl⟩; rfl, by rintro rfl; exact ⟨_, _, rfl, rfl, rfl⟩⟩

theorem denotes_slash (w : List UInt8) : slash.Denotes w ↔ w = [0x2F] :=
  Shape.denotes_only 0x2F w

theorem word_leading_iff (w : List UInt8) :
    leading.Word w ↔ w = [] ∨ ∃ u, w = u ++ [0x2F] := by
  simp only [Word, shape, Shape.Denotes, denotes_slash]
  constructor
  · rintro (hw | ⟨u, _, rfl, _, rfl⟩)
    · exact .inl hw
    · exact .inr ⟨u, rfl⟩
  · rintro (hw | ⟨u, rfl⟩)
    · exact .inl hw
    · exact .inr ⟨u, _, rfl, trivial, rfl⟩

theorem word_between_iff (w : List UInt8) :
    between.Word w ↔ w = [0x2F] ∨ ∃ u, w = 0x2F :: u ++ [0x2F] := by
  simp only [Word, shape, Shape.Denotes, denotes_slash]
  constructor
  · rintro (hw | ⟨_, _, rfl, rfl, u, _, rfl, _, rfl⟩)
    · exact .inl hw
    · exact .inr ⟨u, rfl⟩
  · rintro (hw | ⟨u, rfl⟩)
    · exact .inl hw
    · exact .inr ⟨_, u ++ [0x2F], by simp, rfl, u, _, rfl, trivial, rfl⟩

theorem word_trailing_iff (w : List UInt8) : trailing.Word w ↔ ∃ u, w = 0x2F :: u := by
  simp only [Word, shape, Shape.Denotes, denotes_slash]
  constructor
  · rintro ⟨_, u, rfl, rfl, _⟩
    exact ⟨u, rfl⟩
  · rintro ⟨u, rfl⟩
    exact ⟨_, u, rfl, rfl, trivial⟩

theorem word_between_iff_leading (w : List UInt8) :
    between.Word w ↔ ∃ v, w = 0x2F :: v ∧ leading.Word v := by
  simp only [word_between_iff, word_leading_iff]
  constructor
  · rintro (rfl | ⟨u, rfl⟩)
    · exact ⟨[], rfl, .inl rfl⟩
    · exact ⟨u ++ [0x2F], rfl, .inr ⟨u, rfl⟩⟩
  · rintro ⟨_, rfl, rfl | ⟨u, rfl⟩⟩
    · exact .inl rfl
    · exact .inr ⟨u, rfl⟩

end Piece

namespace Glob

theorem accepts_iff (g : Glob) (path : String) :
    g.accepts path = true ↔ g.pieces = [.leading] ∨ Piece.Spells g.pieces (utf8 path) := by
  rw [accepts, Shape.accepts_iff, shape]
  by_cases hl : g.pieces = [.leading]
  · simp [hl, Shape.Denotes]
  · rw [if_neg hl, ← Piece.sequence_spells]
    simp only [hl, false_or]
    cases Piece.sequence g.pieces <;> rfl

end Glob

end EditHook
