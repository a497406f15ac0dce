import EditHook.Json.Skim
import EditHook.Proofs.JsonGrammar
import EditHook.Proofs.Results

/-! Numbers in any of their forms. What a number is does not depend on what follows it, as long as
that may follow, and a number that is skipped may have any size. -/

namespace EditHook

namespace Json

variable {rest ds : List Char} {c : Char} {n : Nat}

def Stops (cs : List Char) : Prop :=
  ∀ c ∈ cs.head?, isDigit c = false

theorem Follows.stops (h : Follows rest) : Stops rest := by
  intro c hc
  rcases h c hc with hb | rfl | rfl | rfl
  · unfold isBlank at hb
    simp only [Bool.or_eq_true, decide_eq_true_eq] at hb
    rcases hb with ((rfl | rfl) | rfl) | rfl <;> rfl
  · rfl
  · rfl
  · rfl

theorem Follows.head_ne {d : Char} (h : Follows (c :: rest)) (hd : isBlank d = false)
    (hc : d ≠ ',' ∧ d ≠ ']' ∧ d ≠ '\x7d') : c ≠ d := by
  rintro rfl
  rcases h c rfl with hb | hh | hh | hh
  · simp [hd] at hb
  · exact hc.1 hh
  · exact hc.2.1 hh
  · exact hc.2.2 hh

theorem isDigit_of_mem_toDigits (h : c ∈ Nat.toDigits 10 n) : isDigit c = true := by
  have hd : c.isDigit = true := Nat.isDigit_of_mem_toDigits (by decide) (by decide) h
  simpa [isDigit, Char.isDigit, Char.le_def] using hd

theorem isDigit_digitChar (d : Fin 10) : isDigit d.val.digitChar = true := by
  decide +revert

theorem isDigit_of_mem_digits {ds : List (Fin 10)} (h : c ∈ digits ds) : isDigit c = true := by
  obtain ⟨d, -, rfl⟩ := List.mem_map.mp h
  exact isDigit_digitChar d

theorem digit_ne (h : isDigit c = true) {d : Char} (hd : isDigit d = false) : c ≠ d := by
  rintro rfl
  rw [h] at hd
  cases hd

theorem digit_not_blank (h : isDigit c = true) : isBlank c = false := by
  have hne {d : Char} (hd : isDigit d = false) : c ≠ d := digit_ne h hd
  simp [isBlank, hne (d := ' ') rfl, hne (d := '\n') rfl, hne (d := '\t') rfl, hne (d := '\r') rfl]

theorem toDigits_pos (h : 0 < n) : ∃ d ds, Nat.toDigits 10 n = d :: ds ∧ d ≠ '0' := by
  induction n using Nat.strongRecOn with
  | _ n ih =>
    by_cases hn : n < 10
    · have hz : ∀ d < 10, 0 < d → Nat.digitChar d ≠ '0' := by decide
      exact ⟨n.digitChar, [], Nat.toDigits_of_lt_base hn, hz n hn h⟩
    · obtain ⟨d, ds, hd, hne⟩ := ih (n / 10) (by omega) (by omega)
      refine ⟨d, ds ++ [Nat.digitChar (n % 10)], ?_, hne⟩
      rw [Nat.toDigits_of_base_le (by decide) (by omega), hd]
      rfl

theorem spanDigits_append (hd : ∀ d ∈ ds, isDigit d = true) (hs : Stops rest) :
    spanDigits (ds ++ rest) = (ds, rest) := by
  have hstop : rest.takeWhile isDigit = [] ∧ rest.dropWhile isDigit = rest := by
    cases rest with
    | nil => exact ⟨rfl, rfl⟩
    | cons c rest => simp [hs c rfl]
  rw [spanDigits, List.takeWhile_append_of_pos hd, List.dropWhile_append_of_pos hd, hstop.1, hstop.2,
    List.append_nil]

theorem extend_append (hd : ∀ d ∈ ds, isDigit d = true) (hs : Stops rest) (n : Nat) :
    extend n (ds ++ rest) = ((extend n ds).1, (extend n ds).2.1, (extend n ds).2.2 ++ rest) := by
  induction ds generalizing n with
  | nil =>
    cases rest with
    | nil => rfl
    | cons c rest => simp [extend, hs c rfl]
  | cons d ds ih =>
    obtain ⟨hdigit, hd⟩ := List.forall_mem_cons.mp hd
    by_cases hfits : n * 10 + digitValue d ≤ greatestSignificand
    · simp [extend, hdigit, hfits, ih hd]
    · simp [extend, hfits]

theorem extend_suffix (n : Nat) (ds : List Char) : (extend n ds).2.2 <:+ ds := by
  induction ds generalizing n with
  | nil => exact List.suffix_refl _
  | cons d ds ih =>
    rw [extend]
    split
    · exact (ih _).trans (List.suffix_cons d ds)
    · exact List.suffix_refl _

theorem extend_cons_progress {d : Char} (hd : isDigit d = true) (n : Nat) (ds : List Char) :
    ¬ ((extend n (d :: ds)).2.1 = 0 ∧ (extend n (d :: ds)).2.2 = []) := by
  by_cases hfits : n * 10 + digitValue d ≤ greatestSignificand
  · simp [extend, hd, hfits]
  · simp [extend, hfits]

theorem spanDigits_extend (hd : ∀ d ∈ ds, isDigit d = true) (hs : Stops rest) (n : Nat) :
    spanDigits ((extend n ds).2.2 ++ rest) = ((extend n ds).2.2, rest) := by
  apply spanDigits_append _ hs
  intro d hmem
  exact hd d ((extend_suffix n ds).subset hmem)

theorem whole_append (negative : Bool) (n : Nat) :
    ∃ l, ∀ rest, Stops rest → whole negative (Nat.toDigits 10 n ++ rest) = .ok (l, rest) := by
  rcases Nat.eq_zero_or_pos n with rfl | hpos
  · refine ⟨⟨negative, 0, 0, false⟩, fun rest hs => ?_⟩
    have hz : Nat.toDigits 10 0 = ['0'] := rfl
    have hhead : (rest.head?.map isDigit).getD false = false := by
      cases rest with
      | nil => rfl
      | cons c rest => exact hs c rfl
    simp [hz, whole, hhead]
  · obtain ⟨d, ds, hd, hne⟩ := toDigits_pos hpos
    have hall : ∀ c ∈ d :: ds, isDigit c = true := fun c hc => isDigit_of_mem_toDigits (hd ▸ hc)
    obtain ⟨hdigit, hds⟩ := List.forall_mem_cons.mp hall
    let read := extend (digitValue d) ds
    refine ⟨⟨negative, read.1, read.2.2.length, !read.2.2.isEmpty⟩, fun rest hs => ?_⟩
    rw [hd, List.cons_append, whole, if_neg hne, if_pos hdigit, extend_append hds hs]
    simp only [spanDigits_extend hds hs, read]

theorem fraction_append (l : Literal) (d : Fin 10) (ds : List (Fin 10)) :
    ∃ l', ∀ rest, Stops rest → fraction l (digits (d :: ds) ++ rest) = .ok (l', rest) := by
  have hds : ∀ c ∈ digits (d :: ds), isDigit c = true := fun c hc => isDigit_of_mem_digits hc
  have hsome := extend_cons_progress (isDigit_digitChar d) l.significand (digits ds)
  let read := extend l.significand (digits (d :: ds))
  refine ⟨⟨l.negative, read.1, l.exponent - read.2.1, true⟩, fun rest hs => ?_⟩
  rw [fraction, extend_append hds hs]
  simp only [spanDigits_extend hds hs]
  rw [if_neg (by simpa [digits] using hsome)]

theorem sign_append (negative? : Option Bool) (d : Fin 10) (cs : List Char) :
    sign ((negative?.map fun negative => if negative then '-' else '+').toList ++
      (d.val.digitChar :: cs)) = (negative?.getD false, d.val.digitChar :: cs) := by
  have hd := isDigit_digitChar d
  cases negative? with
  | none => simp [sign, digit_ne hd (d := '+') rfl, digit_ne hd (d := '-') rfl]
  | some negative => cases negative <;> simp [sign]

theorem exponent_append (l : Literal) (p : Power) :
    ∃ l? : Option Literal, ∀ rest, Stops rest →
      (exponent l (((p.sign.map fun negative => if negative then '-' else '+').toList ++
        digits (p.first :: p.more)) ++ rest)).toOption = l?.map fun l => (l, rest) := by
  obtain ⟨upper, negative?, first, more⟩ := p
  have hds : ∀ c ∈ digits (first :: more), isDigit c = true := fun c hc => isDigit_of_mem_digits hc
  have hd := isDigit_digitChar first
  have hsign (rest : List Char) := sign_append negative? first (digits more ++ rest)
  have hspan {rest : List Char} (hs : Stops rest) := spanDigits_append hds hs
  simp only [digits, List.map_cons, List.cons_append] at hspan hsign ⊢
  cases he : exponentValue 0 (first.val.digitChar :: more.map fun d => d.val.digitChar) with
  | inl e =>
    let value := if negative?.getD false then l.exponent - e else l.exponent + e
    refine ⟨some { l with exponent := value, inexact := true }, fun rest hs => ?_⟩
    rw [List.append_assoc, List.cons_append, exponent, hsign]
    simp only [hd, if_true, hspan hs, he]
    rfl
  -- beyond the bound a number is zero, unless it is out of range
  | inr left =>
    by_cases hrange : (decide (l.significand ≠ 0) && !negative?.getD false) = true
    · refine ⟨none, fun rest hs => ?_⟩
      rw [List.append_assoc, List.cons_append, exponent, hsign]
      simp only [hd, if_true, hspan hs, he, hrange]
      rfl
    · refine ⟨some ⟨l.negative, 0, 0, true⟩, fun rest hs => ?_⟩
      rw [List.append_assoc, List.cons_append, exponent, hsign]
      simp only [hd, if_true, hspan hs, he, hrange]
      rfl

theorem exponentIfAny_append (l : Literal) (p : Option Power) :
    ∃ l? : Option Literal, ∀ rest, Follows rest →
      (exponentIfAny l (Numeral.powerChars p ++ rest)).toOption = l?.map fun l => (l, rest) := by
  cases p with
  | none =>
    refine ⟨some l, fun rest hr => ?_⟩
    cases rest with
    | nil => rfl
    | cons c rest =>
      have hlower : c ≠ 'e' := hr.head_ne rfl (by decide)
      have hupper : c ≠ 'E' := hr.head_ne rfl (by decide)
      simp [Numeral.powerChars, exponentIfAny, hlower, hupper, Except.toOption]
  | some p =>
    obtain ⟨l?, hl⟩ := exponent_append l p
    refine ⟨l?, fun rest hr => ?_⟩
    rw [← hl rest hr.stops]
    cases hu : p.upper <;> simp [Numeral.powerChars, exponentIfAny, hu]

theorem stops_power (p : Option Power) (hr : Follows rest) :
    Stops (Numeral.powerChars p ++ rest) := by
  cases p with
  | none => exact hr.stops
  | some p =>
    intro c hc
    cases hu : p.upper <;> simp [Numeral.powerChars, hu] at hc <;> rw [← hc] <;> rfl

theorem stops_fraction (ds : List (Fin 10)) {cs : List Char} (hs : Stops cs) :
    Stops (Numeral.fractionChars ds ++ cs) := by
  cases ds with
  | nil => exact hs
  | cons d ds =>
    intro c hc
    simp [Numeral.fractionChars] at hc
    rw [← hc]
    rfl

/-- Behind an integer stands no point unless one was written. -/
theorem power_ne_point (p : Option Power) (hr : Follows rest) (more : List Char) :
    Numeral.powerChars p ++ rest ≠ '.' :: more := by
  intro he
  cases p with
  | none =>
    have hr : Follows ('.' :: more) := by simpa [Numeral.powerChars, ← he] using hr
    exact hr.head_ne (d := '.') rfl (by decide) rfl
  | some p =>
    have hh := congrArg List.head? he
    cases hu : p.upper <;> simp [Numeral.powerChars, hu] at hh

theorem literal_append (m : Numeral) :
    ∃ l? : Option Literal, ∀ rest, Follows rest →
      (literal m.negative (m.unsigned ++ rest)).toOption = l?.map fun l => (l, rest) := by
  obtain ⟨negative, n, ds, power⟩ := m
  obtain ⟨l, hl⟩ := whole_append negative n
  cases ds with
  | nil =>
    obtain ⟨l?, hp⟩ := exponentIfAny_append l power
    refine ⟨l?, fun rest hr => ?_⟩
    have hw := hl _ (stops_power power hr)
    have hne := power_ne_point power hr
    rw [← hp rest hr]
    simp only [Numeral.unsigned, Numeral.fractionChars, List.nil_append, List.append_assoc, literal,
      hw, bind, Except.bind]
  | cons d ds =>
    obtain ⟨l', hf⟩ := fraction_append l d ds
    obtain ⟨l?, hp⟩ := exponentIfAny_append l' power
    refine ⟨l?, fun rest hr => ?_⟩
    have hpower := stops_power power hr
    have hw := hl _ (stops_fraction (d :: ds) hpower)
    have hf := hf _ hpower
    rw [← hp rest hr]
    simp only [Numeral.unsigned, Numeral.fractionChars, List.append_assoc, List.cons_append, literal,
      bind, Except.bind] at hw hf ⊢
    simp only [hw, hf]

theorem number_append (m : Numeral) (hr : Follows rest) :
    (number m.negative (m.unsigned ++ rest)).toOption = m.scalar?.map fun s => (s, rest) := by
  obtain ⟨l?, hl⟩ := literal_append m
  -- `scalar?` is what is read with nothing behind the number
  have hnumber {rest : List Char} (hr : Follows rest) :
      (number m.negative (m.unsigned ++ rest)).toOption =
        (l?.bind Literal.scalar?).map fun s => (s, rest) := by
    simp only [number, toOption_bind, hl rest hr]
    cases l? with
    | none => rfl
    | some l => cases hs : l.scalar? <;> simp [hs, Except.toOption, faultAt, pure, Except.pure]
  have hempty : (number m.negative m.unsigned).toOption =
      (l?.bind Literal.scalar?).map fun s => (s, []) := by
    have he := @hnumber [] (by simp [Follows])
    rwa [List.append_nil] at he
  rw [hnumber hr, Numeral.scalar?, hempty]
  cases l?.bind Literal.scalar? <;> rfl

theorem unsigned_head (m : Numeral) : ∃ c cs, m.unsigned = c :: cs ∧ isDigit c = true := by
  obtain ⟨c, cs, hc⟩ := List.exists_cons_of_ne_nil (Nat.toDigits_ne_nil (b := 10) (n := m.whole))
  exact ⟨c, _, by rw [Numeral.unsigned, hc]; rfl, isDigit_of_mem_toDigits (hc ▸ List.mem_cons_self)⟩

section Integers

theorem le_ofDigitChars (ds : List Char) (n : Nat) : n ≤ Nat.ofDigitChars 10 ds n := by
  induction ds generalizing n with
  | nil => exact Nat.le_refl n
  | cons d ds ih =>
    have hd := ih (10 * n + (d.toNat - '0'.toNat))
    rw [Nat.ofDigitChars_cons]
    omega

theorem extend_digits (hd : ∀ d ∈ ds, isDigit d = true)
    (hn : Nat.ofDigitChars 10 ds n ≤ greatestSignificand) :
    extend n ds = (Nat.ofDigitChars 10 ds n, ds.length, []) := by
  induction ds generalizing n with
  | nil => rfl
  | cons d ds ih =>
    obtain ⟨hdigit, hd⟩ := List.forall_mem_cons.mp hd
    have hv : 10 * n + (d.toNat - '0'.toNat) = n * 10 + digitValue d := by
      rw [Nat.mul_comm, digitValue]
    rw [Nat.ofDigitChars_cons, hv] at hn ⊢
    have hle : n * 10 + digitValue d ≤ greatestSignificand :=
      Nat.le_trans (le_ofDigitChars ds _) hn
    simp [extend, hdigit, hle, ih hd hn]

theorem literal_toDigits (negative : Bool) (hn : n ≤ greatestSignificand) :
    literal negative (Nat.toDigits 10 n) = .ok (⟨negative, n, 0, false⟩, []) := by
  rcases Nat.eq_zero_or_pos n with rfl | hpos
  · rfl
  · obtain ⟨d, ds, hd, hne⟩ := toDigits_pos hpos
    have hall : ∀ c ∈ d :: ds, isDigit c = true := fun c hc => isDigit_of_mem_toDigits (hd ▸ hc)
    obtain ⟨hdigit, hds⟩ := List.forall_mem_cons.mp hall
    have hv : Nat.ofDigitChars 10 ds (digitValue d) = n := by
      have hv : Nat.ofDigitChars 10 (Nat.toDigits 10 n) 0 = n :=
        Nat.ofDigitChars_toDigits (by decide) (by decide)
      rw [hd, Nat.ofDigitChars_cons] at hv
      simpa [digitValue] using hv
    -- the significand has room for all the digits, so none is left over
    have hext := extend_digits hds (by rw [hv]; exact hn)
    simp [hd, literal, whole, hne, hdigit, hext, spanDigits, hv, exponentIfAny, bind, Except.bind]

theorem Numeral.scalar?_of_integer? {m : Numeral} {i : Int} (hi : m.integer? = some i) :
    m.scalar? = some (.integer i) := by
  obtain ⟨negative, n, fraction, power⟩ := m
  simp only [Numeral.integer?] at hi
  split at hi
  · rename_i hexact
    obtain ⟨rfl, rfl⟩ : fraction = [] ∧ power = none := by simpa using hexact
    have hu : (Numeral.mk negative n [] none).unsigned = Nat.toDigits 10 n := by
      simp [Numeral.unsigned, Numeral.fractionChars, Numeral.powerChars]
    have hbound : Nat.pow 2 63 ≤ greatestSignificand := by decide
    rw [Numeral.scalar?, hu, number]
    split at hi
    · rename_i hneg
      obtain rfl : negative = true := hneg
      split at hi
      · rename_i hn
        cases hi
        have hz : n ≠ 0 := Nat.ne_of_gt hn.1
        have hlt : ¬ Nat.pow 2 63 < n := Nat.not_lt.mpr hn.2
        rw [literal_toDigits true (Nat.le_trans hn.2 hbound)]
        simp [bind, Except.bind, Literal.scalar?, hz, hlt]
      · cases hi
    · rename_i hneg
      obtain rfl : negative = false := eq_false_of_ne_true hneg
      split at hi
      · rename_i hn
        cases hi
        rw [literal_toDigits false (Nat.le_pred_of_lt hn)]
        simp [bind, Except.bind, Literal.scalar?]
      · cases hi
  · cases hi

end Integers

section Skipping

theorem dropWhile_digits (hd : ∀ d ∈ ds, isDigit d = true) (hs : Stops rest) :
    (ds ++ rest).dropWhile isDigit = rest :=
  congrArg Prod.snd (spanDigits_append hd hs)

theorem skipDigits_digits (d : Fin 10) (ds : List (Fin 10)) (hs : Stops rest) :
    skipDigits (digits (d :: ds) ++ rest) = .ok rest := by
  have hd := isDigit_digitChar d
  have hall : ∀ c ∈ digits ds, isDigit c = true := fun c hc => isDigit_of_mem_digits hc
  have hdrop := dropWhile_digits hall hs
  simp only [digits, List.map_cons, List.cons_append] at hdrop ⊢
  simp [skipDigits, hd, hdrop]

theorem skipExponent_power (p : Option Power) (hr : Follows rest) :
    skipExponent (Numeral.powerChars p ++ rest) = .ok rest := by
  cases p with
  | none =>
    cases rest with
    | nil => rfl
    | cons c rest =>
      have hlower : c ≠ 'e' := hr.head_ne rfl (by decide)
      have hupper : c ≠ 'E' := hr.head_ne rfl (by decide)
      simp [Numeral.powerChars, skipExponent, hlower, hupper]
  | some p =>
    obtain ⟨upper, negative?, first, more⟩ := p
    have hskip := skipDigits_digits first more hr.stops
    have hsign := sign_append negative? first (digits more ++ rest)
    simp only [digits, List.map_cons, List.cons_append] at hskip hsign
    cases upper <;> simp [Numeral.powerChars, skipExponent, digits, hsign, hskip]

theorem not_zero_digit {cs : List Char} (n : Nat) (hc : Nat.toDigits 10 n = c :: cs) (hs : Stops rest) :
    (decide (c = '0') && ((cs ++ rest).head?.map isDigit).getD false) = false := by
  rcases Nat.eq_zero_or_pos n with rfl | hpos
  · obtain rfl : cs = [] := (List.cons.inj hc).2.symm
    cases rest with
    | nil => simp
    | cons d rest => simp [hs d rfl]
  · obtain ⟨d, ds, hd, hne⟩ := toDigits_pos hpos
    have hz : c ≠ '0' := (List.cons.inj (hd.symm.trans hc)).1 ▸ hne
    simp [hz]

theorem skipNumber_unsigned (m : Numeral) (hr : Follows rest) :
    skipNumber (m.unsigned ++ rest) = .ok rest := by
  obtain ⟨negative, n, fraction, power⟩ := m
  obtain ⟨c, cs, hc⟩ := List.exists_cons_of_ne_nil (Nat.toDigits_ne_nil (b := 10) (n := n))
  have hall : ∀ d ∈ c :: cs, isDigit d = true := fun d hd => isDigit_of_mem_toDigits (hc ▸ hd)
  obtain ⟨hdigit, hcs⟩ := List.forall_mem_cons.mp hall
  have hpower : Stops (Numeral.powerChars power ++ rest) := stops_power power hr
  have hs := stops_fraction fraction hpower
  have hzero := not_zero_digit n hc hs
  have hdrop := dropWhile_digits hcs hs
  have hexp := skipExponent_power power hr
  have hu : (Numeral.mk negative n fraction power).unsigned ++ rest =
      c :: (cs ++ (Numeral.fractionChars fraction ++ (Numeral.powerChars power ++ rest))) := by
    simp [Numeral.unsigned, hc]
  rw [hu, skipNumber, if_neg (by simp [hdigit]), if_neg (ne_true_of_eq_false hzero), hdrop]
  cases fraction with
  | nil =>
    have hpoint := power_ne_point power hr
    simp only [Numeral.fractionChars, List.nil_append]
    exact hexp
  | cons d ds =>
    have hskip := skipDigits_digits d ds hpower
    simp only [Numeral.fractionChars, List.cons_append, hskip]
    exact hexp

end Skipping

end Json

end EditHook
