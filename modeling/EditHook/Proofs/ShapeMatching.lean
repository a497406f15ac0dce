import EditHook.Glob.Shape

/-! The matcher of shapes accepts exactly the byte strings that a shape denotes. What a table means is
carried through the matcher: it says of every suffix of the input whether the suffix belongs to a set. -/

namespace EditHook

namespace Shape

/-- A table with the entry `true` for exactly the suffixes in a set. -/
def Marks (p : List UInt8 → Prop) : List UInt8 → List Bool → Prop
  | [], [ok] => ok = true ↔ p []
  | b :: bs, ok :: rest => (ok = true ↔ p (b :: bs)) ∧ Marks p bs rest
  | _, _ => False

def Then (s : Shape) (p : List UInt8 → Prop) (w : List UInt8) : Prop :=
  ∃ u v, w = u ++ v ∧ s.Denotes u ∧ p v

theorem Marks.congr {p q : List UInt8 → Prop} (hpq : ∀ w, p w ↔ q w) {bs : List UInt8}
    {ok : List Bool} (h : Marks p bs ok) : Marks q bs ok := by
  have he : p = q := funext fun w => propext (hpq w)
  exact he ▸ h

theorem Marks.head {p : List UInt8 → Prop} {bs : List UInt8} {ok : List Bool}
    (h : Marks p bs ok) : ok.headD false = true ↔ p bs := by
  cases bs with
  | nil =>
    match ok, h with
    | [_], h => exact h
  | cons b bs =>
    match ok, h with
    | _ :: _, h => exact h.1

theorem then_empty (p : List UInt8 → Prop) (w : List UInt8) : Then empty p w ↔ p w := by
  constructor
  · rintro ⟨u, v, rfl, hu, hv⟩
    have hu : u = [] := hu
    simpa [hu] using hv
  · exact fun hw => ⟨[], w, rfl, rfl, hw⟩

theorem then_byte_nil (s : ByteSet) (p : List UInt8 → Prop) : ¬ Then (byte s) p [] := by
  rintro ⟨u, v, he, ⟨b, _, rfl⟩, _⟩
  simp at he

theorem then_byte_cons (s : ByteSet) (p : List UInt8 → Prop) (b : UInt8) (bs : List UInt8) :
    Then (byte s) p (b :: bs) ↔ s.contains b = true ∧ p bs := by
  constructor
  · rintro ⟨u, v, he, ⟨c, hc, rfl⟩, hv⟩
    obtain ⟨rfl, rfl⟩ := List.cons.inj he
    exact ⟨hc, hv⟩
  · rintro ⟨hb, hbs⟩
    exact ⟨[b], bs, rfl, ⟨b, hb, rfl⟩, hbs⟩

theorem then_anything_nil (p : List UInt8 → Prop) : Then anything p [] ↔ p [] := by
  constructor
  · rintro ⟨u, v, he, _, hv⟩
    obtain ⟨rfl, rfl⟩ := List.append_eq_nil_iff.mp he.symm
    exact hv
  · exact fun hp => ⟨[], [], rfl, trivial, hp⟩

theorem then_anything_cons (p : List UInt8 → Prop) (b : UInt8) (bs : List UInt8) :
    Then anything p (b :: bs) ↔ p (b :: bs) ∨ Then anything p bs := by
  constructor
  · rintro ⟨u, v, he, _, hv⟩
    cases u with
    | nil => exact .inl (he ▸ hv)
    | cons c u => exact .inr ⟨u, v, (List.cons.inj he).2, trivial, hv⟩
  · rintro (hp | ⟨u, v, rfl, _, hv⟩)
    · exact ⟨[], b :: bs, rfl, trivial, hp⟩
    · exact ⟨b :: u, v, rfl, trivial, hv⟩

theorem then_seq (a b : Shape) (p : List UInt8 → Prop) (w : List UInt8) :
    Then (seq a b) p w ↔ Then a (Then b p) w := by
  constructor
  · rintro ⟨_, v, rfl, ⟨u, u', rfl, hu, hu'⟩, hv⟩
    exact ⟨u, u' ++ v, List.append_assoc .., hu, u', v, rfl, hu', hv⟩
  · rintro ⟨u, _, rfl, hu, u', v, rfl, hu', hv⟩
    exact ⟨u ++ u', v, (List.append_assoc ..).symm, ⟨u, u', rfl, hu, hu'⟩, hv⟩

theorem then_either (a b : Shape) (p : List UInt8 → Prop) (w : List UInt8) :
    Then (either a b) p w ↔ Then a p w ∨ Then b p w := by
  constructor
  · rintro ⟨u, v, hw, hu | hu, hv⟩
    · exact .inl ⟨u, v, hw, hu, hv⟩
    · exact .inr ⟨u, v, hw, hu, hv⟩
  · rintro (⟨u, v, hw, hu, hv⟩ | ⟨u, v, hw, hu, hv⟩)
    · exact ⟨u, v, hw, .inl hu, hv⟩
    · exact ⟨u, v, hw, .inr hu, hv⟩

theorem marks_byteBefore (s : ByteSet) {p : List UInt8 → Prop} {bs : List UInt8}
    {ok : List Bool} (h : Marks p bs ok) : Marks (Then (byte s) p) bs (byteBefore s bs ok) := by
  induction bs generalizing ok with
  | nil => simp [byteBefore, Marks, then_byte_nil]
  | cons b bs ih =>
    match ok, h with
    | _ :: ok, h =>
      refine ⟨?_, ih h.2⟩
      rw [then_byte_cons, Bool.and_eq_true, h.2.head]

theorem marks_someLater {p : List UInt8 → Prop} {bs : List UInt8} {ok : List Bool}
    (h : Marks p bs ok) : Marks (Then anything p) bs (someLater ok) := by
  induction bs generalizing ok with
  | nil =>
    match ok, h with
    | [_], h => exact Iff.trans h (then_anything_nil p).symm
  | cons b bs ih =>
    match ok, h with
    | x :: ok, h =>
      have hrest := ih h.2
      have hhead := hrest.head
      cases hs : someLater ok with
      | nil => cases bs <;> simp [hs, Marks] at hrest
      | cons later more =>
        rw [hs] at hrest hhead
        simp only [someLater, hs]
        refine ⟨?_, hrest⟩
        rw [then_anything_cons, Bool.or_eq_true, h.1]
        exact or_congr_right hhead

theorem marks_zipWith_or {p q : List UInt8 → Prop} {bs : List UInt8} {ok ok' : List Bool}
    (h : Marks p bs ok) (h' : Marks q bs ok') :
    Marks (fun w => p w ∨ q w) bs (List.zipWith (· || ·) ok ok') := by
  induction bs generalizing ok ok' with
  | nil =>
    match ok, ok', h, h' with
    | [_], [_], h, h' =>
      simp only [Marks] at h h'
      simp [Marks, h, h']
  | cons b bs ih =>
    match ok, ok', h, h' with
    | _ :: _, _ :: _, h, h' => exact ⟨by rw [Bool.or_eq_true, h.1, h'.1], ih h.2 h'.2⟩

theorem marks_before (s : Shape) {p : List UInt8 → Prop} {bs : List UInt8} {ok : List Bool}
    (h : Marks p bs ok) : Marks (s.Then p) bs (s.before bs ok) := by
  induction s generalizing p ok with
  | empty => exact h.congr fun w => (then_empty p w).symm
  | byte s => exact marks_byteBefore s h
  | anything => exact marks_someLater h
  | seq a b iha ihb => exact (iha (ihb h)).congr fun w => (then_seq a b p w).symm
  | either a b iha ihb =>
    exact (marks_zipWith_or (iha h) (ihb h)).congr fun w => (then_either a b p w).symm

theorem marks_end (bs : List UInt8) :
    Marks (· = []) bs (List.replicate bs.length false ++ [true]) := by
  induction bs with
  | nil => simp [Marks]
  | cons b bs ih => exact ⟨by simp, ih⟩

theorem accepts_iff (s : Shape) (bs : List UInt8) : s.accepts bs = true ↔ s.Denotes bs := by
  rw [accepts, (marks_before s (marks_end bs)).head]
  constructor
  · rintro ⟨u, v, rfl, hu, rfl⟩
    simpa using hu
  · exact fun hs => ⟨bs, [], by simp, hs, rfl⟩

theorem denotes_only (b : UInt8) (w : List UInt8) : (byte (.only b)).Denotes w ↔ w = [b] := by
  have hb : ∀ c, (ByteSet.only b).contains c = true ↔ c = b := by
    intro c
    simp only [ByteSet.contains, ByteSet.only, List.any_cons, List.any_nil, Bool.or_false,
      bne_iff_ne, ne_eq, Bool.not_eq_false, Bool.and_eq_true, decide_eq_true_eq]
    exact ⟨fun hc => UInt8.le_antisymm hc.2 hc.1, fun hc => by simp [hc]⟩
  constructor
  · rintro ⟨c, hc, rfl⟩
    rw [(hb c).mp hc]
  · exact fun hw => ⟨b, (hb b).mpr rfl, hw⟩

theorem denotes_bytes (bs w : List UInt8) : (bytes bs).Denotes w ↔ w = bs := by
  induction bs generalizing w with
  | nil => rfl
  | cons b bs ih =>
    constructor
    · rintro ⟨u, v, rfl, hu, hv⟩
      rw [(denotes_only b u).mp hu, (ih v).mp hv]
      rfl
    · rintro rfl
      exact ⟨[b], bs, rfl, (denotes_only b [b]).mpr rfl, (ih bs).mpr rfl⟩

end Shape

end EditHook
