import EditHook.Proofs.Encoding
import Mathlib.Tactic.SplitIfs

/-! The bytes of a text decode to the text, and no other bytes do. -/

namespace EditHook

namespace Decoded

variable {a b c d : UInt8} {rest bs : List UInt8}

theorem isTail_iff : isTail b = true ↔ 0x80 ≤ b.toNat ∧ b.toNat ≤ 0xBF := by
  simp [isTail, UInt8.le_iff_toNat_le]

theorem isSecond_of_toNat (hb : 0x80 ≤ b.toNat ∧ b.toNat ≤ 0xBF) (he0 : a.toNat = 0xE0 → 0xA0 ≤ b.toNat)
    (hed : a.toNat = 0xED → b.toNat ≤ 0x9F) (hf0 : a.toNat = 0xF0 → 0x90 ≤ b.toNat)
    (hf4 : a.toNat = 0xF4 → b.toNat ≤ 0x8F) : isSecond a b = true := by
  have hn (n : UInt8) : a = n ↔ a.toNat = n.toNat := UInt8.toNat_inj.symm
  simp only [isSecond, secondRange, hn, Bool.and_eq_true, decide_eq_true_eq, UInt8.le_iff_toNat_le]
  split
  · rename_i h
    exact ⟨he0 h, hb.2⟩
  · split
    · rename_i h
      exact ⟨hb.1, hed h⟩
    · split
      · rename_i h
        exact ⟨hf0 h, hb.2⟩
      · split
        · rename_i h
          exact ⟨hb.1, hf4 h⟩
        · exact hb

theorem front_one (ha : a.toNat < 0x80) : front (a :: rest) = .char (Char.ofNat a.toNat) 1 := by
  have h : a < 0x80 := UInt8.lt_iff_toNat_lt.mpr ha
  simp [front, h]

theorem lead_bounds (ha : 0xC2 ≤ a.toNat ∧ a.toNat ≤ 0xF4) : ¬ a < 0x80 ∧ ¬ (a < 0xC2 ∨ 0xF4 < a) := by
  have h1 : ¬ a.toNat < 0x80 := by omega
  have h2 : ¬ (a.toNat < 0xC2 ∨ 0xF4 < a.toNat) := by omega
  exact ⟨h1, h2⟩

theorem front_two (ha : 0xC2 ≤ a.toNat ∧ a.toNat < 0xE0) (hb : isTail b = true) :
    front (a :: b :: rest) = .char (assemble (a.toNat % 32) [b]) 2 := by
  obtain ⟨h1, h2⟩ := lead_bounds (a := a) (by omega)
  have h3 : a < 0xE0 := UInt8.lt_iff_toNat_lt.mpr ha.2
  simp [front, h1, h2, h3, hb]

theorem front_three (ha : 0xE0 ≤ a.toNat ∧ a.toNat < 0xF0) (hb : isSecond a b = true)
    (hc : isTail c = true) :
    front (a :: b :: c :: rest) = .char (assemble (a.toNat % 16) [b, c]) 3 := by
  obtain ⟨h1, h2⟩ := lead_bounds (a := a) (by omega)
  have h3 : ¬ a < 0xE0 := Nat.not_lt.mpr ha.1
  have h4 : a < 0xF0 := UInt8.lt_iff_toNat_lt.mpr ha.2
  simp [front, h1, h2, h3, h4, hb, hc]

theorem front_four (ha : 0xF0 ≤ a.toNat ∧ a.toNat ≤ 0xF4) (hb : isSecond a b = true)
    (hc : isTail c = true) (hd : isTail d = true) :
    front (a :: b :: c :: d :: rest) = .char (assemble (a.toNat % 8) [b, c, d]) 4 := by
  obtain ⟨h1, h2⟩ := lead_bounds (a := a) (by omega)
  have h3 : ¬ a < 0xE0 := Nat.not_lt.mpr (Nat.le_trans (by decide) ha.1)
  have h4 : ¬ a < 0xF0 := Nat.not_lt.mpr ha.1
  simp [front, h1, h2, h3, h4, hb, hc, hd]

theorem front_encodeChar (c : Char) (rest : List UInt8) :
    front (String.utf8EncodeChar c ++ rest) = .char c (String.utf8EncodeChar c).length := by
  have hv : c.toNat < 0xD800 ∨ 0xDFFF < c.toNat ∧ c.toNat < 0x110000 := c.valid
  have hto {n : Nat} (h : n < 0x100) : (UInt8.ofNat n).toNat = n := UInt8.toNat_ofNat_of_lt' h
  have hchar : c.val.toNat = c.toNat := rfl
  have hof {n : Nat} (h : n = c.toNat) : Char.ofNat n = c := h ▸ Char.ofNat_toNat c
  simp only [String.utf8EncodeChar, hchar]
  generalize c.toNat = v at hv hof
  split
  · rename_i h1
    have ha : (UInt8.ofNat v).toNat = v := hto (by omega)
    rw [List.singleton_append, front_one (by omega), ha, hof rfl]
    rfl
  · split
    · have ha : (UInt8.ofNat (v / 64 % 32 + 192)).toNat = v / 64 % 32 + 192 := hto (by omega)
      have hb : (UInt8.ofNat (v % 64 + 128)).toNat = v % 64 + 128 := hto (by omega)
      rw [List.cons_append, List.singleton_append,
        front_two (by omega) (isTail_iff.mpr (by omega)), assemble]
      simp only [List.foldl_cons, List.foldl_nil, ha, hb, List.length_cons, List.length_nil]
      rw [hof (by omega)]
    · split
      · have ha : (UInt8.ofNat (v / 4096 % 16 + 224)).toNat = v / 4096 % 16 + 224 := hto (by omega)
        have hb : (UInt8.ofNat (v / 64 % 64 + 128)).toNat = v / 64 % 64 + 128 := hto (by omega)
        have hc : (UInt8.ofNat (v % 64 + 128)).toNat = v % 64 + 128 := hto (by omega)
        -- behind E0 the value is at least 0x800, and behind ED it would be a surrogate from A0 on
        rw [List.cons_append, List.cons_append, List.singleton_append,
          front_three (by omega) (isSecond_of_toNat (by omega) (by omega) (by omega) (by omega)
            (by omega)) (isTail_iff.mpr (by omega)), assemble]
        simp only [List.foldl_cons, List.foldl_nil, ha, hb, hc, List.length_cons, List.length_nil]
        rw [hof (by omega)]
      · have ha : (UInt8.ofNat (v / 262144 % 8 + 240)).toNat = v / 262144 % 8 + 240 := hto (by omega)
        have hb : (UInt8.ofNat (v / 4096 % 64 + 128)).toNat = v / 4096 % 64 + 128 := hto (by omega)
        have hc : (UInt8.ofNat (v / 64 % 64 + 128)).toNat = v / 64 % 64 + 128 := hto (by omega)
        have hd : (UInt8.ofNat (v % 64 + 128)).toNat = v % 64 + 128 := hto (by omega)
        rw [List.cons_append, List.cons_append, List.cons_append, List.singleton_append,
          front_four (by omega) (isSecond_of_toNat (by omega) (by omega) (by omega) (by omega)
            (by omega)) (isTail_iff.mpr (by omega)) (isTail_iff.mpr (by omega)), assemble]
        simp only [List.foldl_cons, List.foldl_nil, ha, hb, hc, hd, List.length_cons,
          List.length_nil]
        rw [hof (by omega)]

theorem toNat_ofNat {n : Nat} (h : n < 0xD800 ∨ 0xDFFF < n ∧ n < 0x110000) :
    (Char.ofNat n).toNat = n := by
  have hv : n.isValidChar := h
  rw [Char.ofNat, dif_pos hv]
  rfl

theorem bounds_of_isSecond (h : isSecond a b = true) :
    (0x80 ≤ b.toNat ∧ b.toNat ≤ 0xBF) ∧ (a.toNat = 0xE0 → 0xA0 ≤ b.toNat) ∧
      (a.toNat = 0xED → b.toNat ≤ 0x9F) ∧ (a.toNat = 0xF0 → 0x90 ≤ b.toNat) ∧
      (a.toNat = 0xF4 → b.toNat ≤ 0x8F) := by
  have hn (n : UInt8) : a = n ↔ a.toNat = n.toNat := UInt8.toNat_inj.symm
  simp only [isSecond, secondRange, hn, Bool.and_eq_true, decide_eq_true_eq,
    UInt8.le_iff_toNat_le] at h
  by_cases h1 : a.toNat = 0xE0
  · simp [h1] at h
    omega
  · by_cases h2 : a.toNat = 0xED
    · simp [h2] at h
      omega
    · by_cases h3 : a.toNat = 0xF0
      · simp [h3] at h
        omega
      · by_cases h4 : a.toNat = 0xF4
        · simp [h4] at h
          omega
        · simp [h1, h2, h3, h4] at h
          omega

theorem toNat_assemble (lead : Nat) (tail : List UInt8) {v : Nat}
    (hv : tail.foldl (fun n b => n * 64 + b.toNat % 64) lead = v)
    (h : v < 0xD800 ∨ 0xDFFF < v ∧ v < 0x110000) : (assemble lead tail).val.toNat = v := by
  rw [assemble, hv]
  exact toNat_ofNat h

theorem ofNat_eq {n : Nat} (h : n = a.toNat) : UInt8.ofNat n = a := by
  rw [h, UInt8.ofNat_toNat]

theorem encodeChar_one (ha : a.toNat < 0x80) : String.utf8EncodeChar (Char.ofNat a.toNat) = [a] := by
  have hv : (Char.ofNat a.toNat).val.toNat = a.toNat := toNat_ofNat (by omega)
  rw [String.utf8EncodeChar, hv, if_pos (by omega), UInt8.ofNat_toNat]

theorem encodeChar_two (ha : 0xC2 ≤ a.toNat ∧ a.toNat < 0xE0) (hb : isTail b = true) :
    String.utf8EncodeChar (assemble (a.toNat % 32) [b]) = [a, b] := by
  have htail := isTail_iff.mp hb
  have hv := toNat_assemble (a.toNat % 32) [b] rfl (by simp; omega)
  simp only [List.foldl_cons, List.foldl_nil] at hv
  rw [String.utf8EncodeChar, hv, if_neg (by omega), if_pos (by omega), ofNat_eq (a := a) (by omega),
    ofNat_eq (a := b) (by omega)]

theorem encodeChar_three (ha : 0xE0 ≤ a.toNat ∧ a.toNat < 0xF0) (hb : isSecond a b = true)
    (hc : isTail c = true) :
    String.utf8EncodeChar (assemble (a.toNat % 16) [b, c]) = [a, b, c] := by
  obtain ⟨hb, he0, hed, -, -⟩ := bounds_of_isSecond hb
  have htail := isTail_iff.mp hc
  have hv := toNat_assemble (a.toNat % 16) [b, c] rfl (by simp; omega)
  simp only [List.foldl_cons, List.foldl_nil] at hv
  rw [String.utf8EncodeChar, hv, if_neg (by omega), if_neg (by omega), if_pos (by omega),
    ofNat_eq (a := a) (by omega), ofNat_eq (a := b) (by omega), ofNat_eq (a := c) (by omega)]

theorem encodeChar_four (ha : 0xF0 ≤ a.toNat ∧ a.toNat ≤ 0xF4) (hb : isSecond a b = true)
    (hc : isTail c = true) (hd : isTail d = true) :
    String.utf8EncodeChar (assemble (a.toNat % 8) [b, c, d]) = [a, b, c, d] := by
  obtain ⟨hb, -, -, hf0, hf4⟩ := bounds_of_isSecond hb
  have hc := isTail_iff.mp hc
  have hd := isTail_iff.mp hd
  have hv := toNat_assemble (a.toNat % 8) [b, c, d] rfl (by simp; omega)
  simp only [List.foldl_cons, List.foldl_nil] at hv
  rw [String.utf8EncodeChar, hv, if_neg (by omega), if_neg (by omega), if_neg (by omega),
    ofNat_eq (a := a) (by omega), ofNat_eq (a := b) (by omega), ofNat_eq (a := c) (by omega),
    ofNat_eq (a := d) (by omega)]

theorem encodeChar_of_front {x : Char} {n : Nat} (h : front bs = .char x n) :
    bs = String.utf8EncodeChar x ++ bs.drop n := by
  unfold front at h
  split at h
  · cases h
  · rename_i a rest
    split at h
    · rename_i ha
      cases h
      rw [encodeChar_one ha]
      rfl
    · split at h
      · cases h
      · rename_i hlead
        simp only [Bool.or_eq_true, decide_eq_true_eq, not_or] at hlead
        have hlo : 0xC2 ≤ a.toNat := Nat.not_lt.mp hlead.1
        have hhi : a.toNat ≤ 0xF4 := Nat.not_lt.mp hlead.2
        split at h
        · rename_i ha
          split at h
          · split_ifs at h with hb
            cases h
            rw [encodeChar_two ⟨hlo, ha⟩ hb]
            rfl
          · cases h
        · rename_i ha
          have hthree : 0xE0 ≤ a.toNat := Nat.not_lt.mp ha
          split at h
          · rename_i ha
            split at h
            · split_ifs at h with hb
              split at h
              · split_ifs at h with hc
                cases h
                rw [encodeChar_three ⟨hthree, ha⟩ hb hc]
                rfl
              · cases h
            · cases h
          · rename_i ha
            have hfour : 0xF0 ≤ a.toNat := Nat.not_lt.mp ha
            split at h
            · split_ifs at h with hb
              split at h
              · split_ifs at h with hc
                split at h
                · split_ifs at h with hd
                  cases h
                  rw [encodeChar_four ⟨hfour, hhi⟩ hb hc hd]
                  rfl
                · cases h
              · cases h
            · cases h

end Decoded

theorem decodeStrict_encode (cs : List Char) {fuel : Nat} (hf : cs.length ≤ fuel) :
    decodeStrict fuel (cs.flatMap String.utf8EncodeChar) = some cs := by
  induction cs generalizing fuel with
  | nil => simp [decodeStrict]
  | cons c cs ih =>
    obtain ⟨fuel, rfl⟩ := Nat.exists_eq_add_one.mpr (Nat.zero_lt_of_lt hf)
    have hf : cs.length ≤ fuel := by simpa using hf
    have hfront := Decoded.front_encodeChar c (cs.flatMap String.utf8EncodeChar)
    obtain ⟨b, bs, hb⟩ := List.exists_cons_of_ne_nil (String.utf8EncodeChar_ne_nil (c := c))
    rw [List.flatMap_cons]
    simp only [hb, List.cons_append] at hfront ⊢
    rw [decodeStrict, hfront]
    simp [ih hf]

theorem length_le_encode (cs : List Char) :
    cs.length ≤ (cs.flatMap String.utf8EncodeChar).length := by
  induction cs with
  | nil => simp
  | cons c cs ih =>
    have hc := List.length_pos_iff.mpr (String.utf8EncodeChar_ne_nil (c := c))
    simp only [List.flatMap_cons, List.length_append, List.length_cons]
    omega

theorem textOfBytes?_utf8 (s : String) : textOfBytes? (utf8 s) = some s := by
  rw [textOfBytes?, utf8, decodeStrict_encode s.toList (length_le_encode s.toList)]
  simp

theorem encode_of_decodeStrict {fuel : Nat} {bytes : List UInt8} {cs : List Char}
    (h : decodeStrict fuel bytes = some cs) : bytes = cs.flatMap String.utf8EncodeChar := by
  induction fuel generalizing bytes cs with
  | zero =>
    cases bytes with
    | nil =>
      simp only [decodeStrict] at h
      cases h
      rfl
    | cons b bs => simp [decodeStrict] at h
  | succ fuel ih =>
    cases bytes with
    | nil =>
      simp only [decodeStrict] at h
      cases h
      rfl
    | cons b bs =>
      rw [decodeStrict] at h
      cases hf : Decoded.front (b :: bs) with
      | bad n => simp [hf] at h
      | char x n =>
        simp only [hf] at h
        obtain ⟨cs, hcs, rfl⟩ := Option.map_eq_some_iff.mp h
        rw [List.flatMap_cons, ← ih hcs]
        exact Decoded.encodeChar_of_front hf

/-- A text is read from its own bytes and from no others. -/
theorem textOfBytes?_eq_some_iff {bytes : List UInt8} {text : String} :
    textOfBytes? bytes = some text ↔ bytes = utf8 text := by
  constructor
  · intro h
    obtain ⟨cs, hcs, rfl⟩ := Option.map_eq_some_iff.mp h
    rw [utf8, String.toList_ofList]
    exact encode_of_decodeStrict hcs
  · rintro rfl
    exact textOfBytes?_utf8 text

end EditHook
