import EditHook.Text.Utf8

/-! The bytes of a text tell its characters apart: no character's bytes start those of another, and a
byte of the lower half is a character. A character starts where a first byte stands, so bytes that are
cut anywhere show where the next character starts. -/

namespace EditHook

theorem byteLength_append (cs ds : List Char) :
    byteLength (cs ++ ds) = byteLength cs + byteLength ds := by
  induction cs with
  | nil => simp [byteLength]
  | cons c cs ih => simp only [List.cons_append, byteLength, ih, Nat.add_assoc]

theorem length_utf8 (s : String) : (utf8 s).length = byteLength s.toList := by
  rw [utf8]
  induction s.toList with
  | nil => rfl
  | cons c cs ih =>
    rw [List.flatMap_cons, List.length_append, String.length_utf8EncodeChar, ih, byteLength]

theorem encodeChar_append_inj {c d : Char} {r r' : List UInt8}
    (h : String.utf8EncodeChar c ++ r = String.utf8EncodeChar d ++ r') : c = d ∧ r = r' := by
  have hc : c = d := by
    have hb := congrArg List.toByteArray h
    rw [List.toByteArray_append, List.toByteArray_append] at hb
    have hd := congrArg (ByteArray.utf8DecodeChar? · 0) hb
    simpa only [ByteArray.utf8DecodeChar?_utf8EncodeChar_append, Option.some.injEq] using hd
  subst hc
  exact ⟨rfl, List.append_cancel_left h⟩

theorem prefix_of_encode_prefix {as bs : List Char}
    (h : as.flatMap String.utf8EncodeChar <+: bs.flatMap String.utf8EncodeChar) : as <+: bs := by
  induction as generalizing bs with
  | nil => exact List.nil_prefix
  | cons a as ih =>
    obtain ⟨r, hr⟩ := h
    rw [List.flatMap_cons, List.append_assoc] at hr
    cases bs with
    | nil =>
      have hn : String.utf8EncodeChar a = [] := (List.append_eq_nil_iff.mp hr).1
      exact absurd hn String.utf8EncodeChar_ne_nil
    | cons b bs =>
      rw [List.flatMap_cons] at hr
      obtain ⟨rfl, ht⟩ := encodeChar_append_inj hr
      exact (List.prefix_cons_inj a).mpr (ih ⟨r, ht⟩)

theorem toNat_of_mem_encodeChar {c : Char} {b : UInt8} (h : b ∈ String.utf8EncodeChar c)
    (hb : b.toNat < 0x80) : c.toNat = b.toNat := by
  have hto {n : Nat} (h : n < 0x100) : (UInt8.ofNat n).toNat = n := UInt8.toNat_ofNat_of_lt' h
  have hv : c.toNat < 0xD800 ∨ 0xDFFF < c.toNat ∧ c.toNat < 0x110000 := c.valid
  have hchar : c.val.toNat = c.toNat := rfl
  simp only [String.utf8EncodeChar, hchar] at h
  generalize c.toNat = v at h hv
  have low {n : Nat} (he : b = UInt8.ofNat n) (hn : n < 0x100) : n < 0x80 := by
    rwa [he, hto hn] at hb
  -- every byte of a longer form lies above by its highest bit
  split at h
  · rw [List.mem_singleton.mp h, hto (by omega)]
  · split at h
    · simp only [List.mem_cons, List.not_mem_nil, or_false] at h
      rcases h with h | h <;> have hl := low h (by omega) <;> omega
    · split at h <;> simp only [List.mem_cons, List.not_mem_nil, or_false] at h
      · rcases h with h | h | h <;> have hl := low h (by omega) <;> omega
      · rcases h with h | h | h | h <;> have hl := low h (by omega) <;> omega

theorem encodeChar_ascii {c : Char} (hc : c.toNat < 0x80) :
    String.utf8EncodeChar c = [UInt8.ofNat c.toNat] := by
  have hc : c.val.toNat ≤ 0x7F := Nat.le_of_lt_succ hc
  simp only [String.utf8EncodeChar, hc, if_true]
  rfl

theorem toNat_ascii {c : Char} (hc : c.toNat < 0x80) : (UInt8.ofNat c.toNat).toNat = c.toNat :=
  UInt8.toNat_ofNat_of_lt' (Nat.lt_trans hc (by decide))

theorem encode_ascii {cs : List Char} (h : ∀ c ∈ cs, c.toNat < 0x80) :
    cs.flatMap String.utf8EncodeChar = cs.map fun c => UInt8.ofNat c.toNat := by
  induction cs with
  | nil => rfl
  | cons c cs ih =>
    obtain ⟨hc, h⟩ := List.forall_mem_cons.mp h
    rw [List.flatMap_cons, encodeChar_ascii hc, ih h, List.map_cons, List.singleton_append]

theorem encode_inj {as bs : List Char} :
    as.flatMap String.utf8EncodeChar = bs.flatMap String.utf8EncodeChar ↔ as = bs := by
  refine ⟨fun h => ?_, fun h => congrArg _ h⟩
  have hab : as <+: bs := prefix_of_encode_prefix (h ▸ List.prefix_rfl)
  have hba : bs <+: as := prefix_of_encode_prefix (h ▸ List.prefix_rfl)
  exact hab.eq_of_length_le hba.length_le

/-- Every character starts with a first byte and has no other one. -/
theorem encodeChar_eq_cons (c : Char) :
    ∃ b bs, String.utf8EncodeChar c = b :: bs ∧ b.IsUTF8FirstByte ∧
      ∀ x ∈ bs, ¬ x.IsUTF8FirstByte := by
  obtain ⟨b, bs, hb⟩ := List.exists_cons_of_ne_nil (String.utf8EncodeChar_ne_nil (c := c))
  have hfirst {i : Nat} (hi : i < (b :: bs).length) : (b :: bs)[i].IsUTF8FirstByte ↔ i = 0 := by
    simp only [← hb]
    exact UInt8.isUTF8FirstByte_getElem_utf8EncodeChar
  refine ⟨b, bs, hb, (hfirst (Nat.zero_lt_succ _)).mpr rfl, fun x hx hf => ?_⟩
  obtain ⟨i, hi, rfl⟩ := List.mem_iff_getElem.mp hx
  exact Nat.succ_ne_zero i ((hfirst (Nat.succ_lt_succ hi)).mp hf)

theorem eq_nil_of_no_first {cs : List Char}
    (h : ∀ b ∈ cs.flatMap String.utf8EncodeChar, ¬ b.IsUTF8FirstByte) : cs = [] := by
  cases cs with
  | nil => rfl
  | cons c cs =>
    obtain ⟨b, bs, hb, hf, -⟩ := encodeChar_eq_cons c
    exact absurd hf (h b (by simp [hb]))

theorem first_of_mem_ascii {cs : List Char} {b : UInt8} (h : ∀ c ∈ cs, c.toNat < 0x80)
    (hb : b ∈ cs.flatMap String.utf8EncodeChar) : b.IsUTF8FirstByte := by
  obtain ⟨c, hc, hbc⟩ := List.mem_flatMap.mp hb
  obtain ⟨y, bs, hy, hfirst, -⟩ := encodeChar_eq_cons c
  rw [encodeChar_ascii (h c hc)] at hy hbc
  rwa [List.mem_singleton.mp hbc, (List.cons.inj hy).1]

/-- Where the bytes of a text are cut inside a character, the rest of it comes before the next first
byte. -/
theorem exists_cut {cs : List Char} {u v : List UInt8}
    (h : cs.flatMap String.utf8EncodeChar = u ++ v) :
    ∃ front back x, cs = front ++ back ∧ front.flatMap String.utf8EncodeChar = u ++ x ∧
      v = x ++ back.flatMap String.utf8EncodeChar ∧ ∀ b ∈ x, ¬ b.IsUTF8FirstByte := by
  induction cs generalizing u with
  | nil =>
    obtain ⟨rfl, rfl⟩ := List.append_eq_nil_iff.mp h.symm
    exact ⟨[], [], [], rfl, rfl, rfl, by simp⟩
  | cons c cs ih =>
    rw [List.flatMap_cons] at h
    rcases List.append_eq_append_iff.mp h with ⟨as, rfl, has⟩ | ⟨x, hx, rfl⟩
    · obtain ⟨front, back, x, rfl, hf, hv, hx⟩ := ih has
      exact ⟨c :: front, back, x, rfl, by rw [List.flatMap_cons, hf, List.append_assoc], hv, hx⟩
    · cases u with
      | nil => exact ⟨[], c :: cs, [], rfl, rfl, h.symm, by simp⟩
      | cons b u =>
        obtain ⟨b', bs, hb, -, htail⟩ := encodeChar_eq_cons c
        rw [hb] at hx
        obtain ⟨rfl, rfl⟩ := List.cons.inj hx
        exact ⟨[c], cs, x, rfl, by simp [hb], rfl, fun y hy => htail y (List.mem_append_right _ hy)⟩

theorem newline_mem_encodeChar {c : Char} (h : 0x0A ∈ String.utf8EncodeChar c) : c = '\n' :=
  Char.toNat_inj.mp (toNat_of_mem_encodeChar h (by decide))

end EditHook
