import EditHook.Proofs.PathNames

/-! What a path looks like once it is seen from a directory. It is spelled from names alone, so it has
no dots and no separators next to each other. -/

namespace EditHook

namespace Path

theorem slash_notMem_of_mem_segments {cs seg : List Char} (h : seg ∈ segments cs) : '/' ∉ seg := by
  induction cs generalizing seg with
  | nil =>
    obtain rfl : seg = [] := by simpa [segments] using h
    exact List.not_mem_nil
  | cons c cs ih =>
    by_cases hc : c = '/'
    · rw [segments, if_pos hc] at h
      rcases List.mem_cons.mp h with rfl | h
      · exact List.not_mem_nil
      · exact ih h
    · obtain ⟨first, rest, hs⟩ := List.exists_cons_of_ne_nil (segments_ne_nil cs)
      rw [hs] at ih
      simp only [segments, if_neg hc, hs] at h
      rcases List.mem_cons.mp h with rfl | h
      · exact List.not_mem_cons_of_ne_of_not_mem (Ne.symm hc) (ih List.mem_cons_self)
      · exact ih (List.mem_cons_of_mem first h)

theorem mem_segments_of_mem {cs : List Char} {c : Char} (h : c ∈ cs) (hc : c ≠ '/') :
    ∃ seg ∈ segments cs, c ∈ seg := by
  induction cs with
  | nil => simp at h
  | cons d cs ih =>
    by_cases hd : d = '/'
    · have hm : c ∈ cs := (List.mem_cons.mp h).resolve_left fun he => hc (he.trans hd)
      obtain ⟨seg, hs, hm⟩ := ih hm
      exact ⟨seg, by rw [segments, if_pos hd]; exact List.mem_cons_of_mem [] hs, hm⟩
    · obtain ⟨first, rest, hs⟩ := List.exists_cons_of_ne_nil (segments_ne_nil cs)
      simp only [segments, if_neg hd, hs] at ih ⊢
      rcases List.mem_cons.mp h with rfl | hm
      · exact ⟨c :: first, List.mem_cons_self, List.mem_cons_self⟩
      · obtain ⟨seg, hs, hm⟩ := ih hm
        rcases List.mem_cons.mp hs with rfl | hs
        · exact ⟨d :: seg, List.mem_cons_self, List.mem_cons_of_mem d hm⟩
        · exact ⟨seg, List.mem_cons_of_mem (d :: first) hs, hm⟩

theorem segments_of_slash_notMem {cs : List Char} (h : '/' ∉ cs) : segments cs = [cs] := by
  induction cs with
  | nil => rfl
  | cons c cs ih =>
    obtain ⟨hc, hcs⟩ := not_or.mp (mt List.mem_cons.mpr h)
    rw [segments, if_neg (Ne.symm hc), ih hcs]

theorem mem_names_iff {cs : List Char} {n : String} :
    n ∈ names cs ↔ n.toList ∈ segments cs ∧ n.toList ≠ [] ∧ n.toList ≠ ['.'] := by
  simp only [names, List.mem_map, List.mem_filter, Bool.and_eq_true, Bool.not_eq_true',
    List.isEmpty_eq_false_iff, bne_iff_ne]
  constructor
  · rintro ⟨seg, ⟨hs, hne, hd⟩, rfl⟩
    simpa using ⟨hs, hne, hd⟩
  · exact fun h => ⟨n.toList, h, String.ofList_toList⟩

theorem dot_of_names_eq_nil {cs : List Char} {c : Char} (h : names cs = []) (hc : c ∈ cs)
    (hne : c ≠ '/') : c = '.' ∧ ['.'] ∈ segments cs := by
  obtain ⟨seg, hs, hm⟩ := mem_segments_of_mem hc hne
  have hd : seg = ['.'] := by
    refine Decidable.byContradiction fun hd => ?_
    have hn : String.ofList seg ∈ names cs := by
      rw [mem_names_iff, String.toList_ofList]
      exact ⟨hs, List.ne_nil_of_mem hm, hd⟩
    simp [h] at hn
  subst hd
  exact ⟨List.mem_singleton.mp hm, hs⟩

theorem segments_withSeparators {ns : List String} (hns : ns ≠ [])
    (h : ∀ n ∈ ns, '/' ∉ n.toList) :
    segments (withSeparators (ns.map .name)) = ns.map String.toList := by
  induction ns with
  | nil => exact absurd rfl hns
  | cons n ns ih =>
    have hn := segments_of_slash_notMem (h n List.mem_cons_self)
    cases ns with
    | nil => simpa [withSeparators] using hn
    | cons m ms =>
      have hh := ih (by simp) fun k hk => h k (List.mem_cons_of_mem n hk)
      simp only [List.map_cons] at hh ⊢
      rw [withSeparators, List.isEmpty_cons, if_neg Bool.false_ne_true, segments_append, hn, hh]
      rfl

theorem after?_eq_some {dir cs rest : List Component} (h : after? dir cs = some rest) :
    cs = dir ++ rest := by
  induction dir generalizing cs with
  | nil =>
    cases h
    rfl
  | cons d dir ih =>
    cases cs with
    | nil => cases h
    | cons c cs =>
      simp only [after?] at h
      split at h
      · rename_i hd
        rw [hd, ih h, List.cons_append]
      · cases h

/-- What is seen of a path is spelled from some of its names, and with the separator in front only if
the path is absolute. -/
theorem seenFrom_eq_spell {dir : String} (path : String) (hd : Absolute dir) :
    (∃ ns, ns <:+ names path.toList ∧ seenFrom dir path = spell (ns.map .name)) ∨
      (Absolute path ∧ seenFrom dir path = spell (.root :: (names path.toList).map .name)) := by
  have whole : (∃ ns, ns <:+ names path.toList ∧ spell (cleaned path) = spell (ns.map .name)) ∨
      (Absolute path ∧ spell (cleaned path) = spell (.root :: (names path.toList).map .name)) := by
    by_cases hp : Absolute path
    · exact .inr ⟨hp, by rw [cleaned_of_absolute hp]⟩
    · exact .inl ⟨_, List.suffix_rfl, by rw [cleaned_of_relative hp]⟩
  unfold seenFrom
  split
  · rename_i c rest ha
    have hs := after?_eq_some ha
    rw [components_of_absolute hd, cleaned_of_absolute hd, List.cons_append] at hs
    by_cases hp : Absolute path
    · rw [cleaned_of_absolute hp] at hs
      obtain ⟨as, ns, hn, _, hr⟩ := List.map_eq_append_iff.mp (List.cons.inj hs).2
      exact .inl ⟨ns, ⟨as, hn.symm⟩, by rw [hr]⟩
    · rw [cleaned_of_relative hp] at hs
      cases hn : names path.toList <;> simp [hn] at hs
  · exact whole

theorem dot_notMem_segments_withSeparators {cs : List Char} {ns : List String}
    (h : ∀ n ∈ ns, n ∈ names cs) : ['.'] ∉ segments (withSeparators (ns.map .name)) := by
  by_cases hns : ns = []
  · subst hns
    decide
  · have hn : ∀ n ∈ ns, '/' ∉ n.toList := fun n hn =>
      slash_notMem_of_mem_segments (mem_names_iff.mp (h n hn)).1
    rw [segments_withSeparators hns hn]
    intro hd
    obtain ⟨n, hn, he⟩ := List.mem_map.mp hd
    exact (mem_names_iff.mp (h n hn)).2.2 he

theorem dot_notMem_segments_seenFrom {dir : String} (path : String) (hd : Absolute dir) :
    ['.'] ∉ segments (seenFrom dir path).toList := by
  rcases seenFrom_eq_spell path hd with ⟨ns, hs, he⟩ | ⟨_, he⟩
  · rw [he, spell, String.toList_ofList]
    exact dot_notMem_segments_withSeparators fun n hn => hs.mem hn
  · rw [he, spell, String.toList_ofList, withSeparators, segments, if_pos rfl]
    simpa using dot_notMem_segments_withSeparators fun n hn => hn

theorem absolute_of_absolute_seenFrom {dir path : String} (hd : Absolute dir)
    (h : Absolute (seenFrom dir path)) : Absolute path := by
  rcases seenFrom_eq_spell path hd with ⟨ns, hs, he⟩ | ⟨hp, _⟩
  · rw [he, Absolute, spell, String.toList_ofList] at h
    cases ns with
    | nil => cases h
    | cons n ns =>
      -- a name is not empty, so it would have to start with the separator
      obtain ⟨hn, hne, _⟩ := mem_names_iff.mp (hs.mem List.mem_cons_self)
      obtain ⟨c, cs, hc⟩ := List.exists_cons_of_ne_nil hne
      rw [List.map_cons, withSeparators, hc, List.cons_append, List.head?_cons] at h
      obtain rfl := Option.some.inj h
      exact absurd (hc ▸ List.mem_cons_self) (slash_notMem_of_mem_segments hn)
  · exact hp

end Path

end EditHook
