import EditHook.Proofs.CleanPaths
import EditHook.Proofs.Spelling

/-! Seeing a path from a directory is choosing one spelling for everything that names the same. Nothing
is lost by it, so paths that name different things are never seen alike. -/

namespace EditHook

namespace Path

structure IsName (n : String) : Prop where
  slash : '/' ∉ n.toList
  ne_nil : n.toList ≠ []
  ne_dot : n.toList ≠ ['.']

theorem isName_of_mem_names {cs : List Char} {n : String} (h : n ∈ names cs) : IsName n := by
  obtain ⟨hs, hne, hd⟩ := mem_names_iff.mp h
  exact ⟨slash_notMem_of_mem_segments hs, hne, hd⟩

theorem isName_of_mem_namesIn {dir path n : String} (h : n ∈ namesIn dir path) : IsName n := by
  rw [namesIn] at h
  split at h
  · exact isName_of_mem_names h
  · rcases List.mem_append.mp h with h | h <;> exact isName_of_mem_names h

section Spelled

variable {ns : List String} (h : ∀ n ∈ ns, IsName n)

include h

theorem segments_names (hns : ns ≠ []) :
    segments (withSeparators (ns.map .name)) = ns.map String.toList :=
  segments_withSeparators hns fun n hn => (h n hn).slash

theorem names_withSeparators : names (withSeparators (ns.map .name)) = ns := by
  by_cases hns : ns = []
  · subst hns
    rfl
  · have hall : (ns.map String.toList).filter (fun seg => !seg.isEmpty && seg != ['.']) =
        ns.map String.toList := by
      rw [List.filter_eq_self]
      intro seg hs
      obtain ⟨n, hn, rfl⟩ := List.mem_map.mp hs
      have hne := (h n hn).ne_nil
      have hd := (h n hn).ne_dot
      simp_all
    rw [names, segments_names h hns, hall, List.map_map]
    simp [Function.comp_def]

theorem nil_notMem_segments (hns : ns ≠ []) : [] ∉ segments (withSeparators (ns.map .name)) := by
  rw [segments_names h hns]
  intro hm
  obtain ⟨n, hn, he⟩ := List.mem_map.mp hm
  exact (h n hn).ne_nil he

theorem dot_notMem_segments : ['.'] ∉ segments (withSeparators (ns.map .name)) := by
  by_cases hns : ns = []
  · subst hns
    decide
  · rw [segments_names h hns]
    intro hm
    obtain ⟨n, hn, he⟩ := List.mem_map.mp hm
    exact (h n hn).ne_dot he

theorem head?_withSeparators : (withSeparators (ns.map .name)).head? ≠ some '/' := by
  intro hs
  obtain ⟨cs, hc⟩ := List.head?_eq_some_iff.mp hs
  have hns : ns ≠ [] := by
    rintro rfl
    cases hc
  have hm := nil_notMem_segments h hns
  rw [hc, segments, if_pos rfl] at hm
  exact hm List.mem_cons_self

theorem getLast?_withSeparators : (withSeparators (ns.map .name)).getLast? ≠ some '/' := by
  intro hs
  obtain ⟨cs, hc⟩ := List.getLast?_eq_some_iff.mp hs
  have hns : ns ≠ [] := by
    rintro rfl
    simp [withSeparators] at hc
  have hm := nil_notMem_segments h hns
  rw [hc, segments_append] at hm
  exact hm (List.mem_append_right _ List.mem_cons_self)

theorem repeated_notMem : ¬ ['/', '/'] <:+: withSeparators (ns.map .name) := by
  rintro ⟨as, bs, hc⟩
  have hc : withSeparators (ns.map .name) = as ++ '/' :: '/' :: bs := by simpa using hc.symm
  have hns : ns ≠ [] := by
    rintro rfl
    simp [withSeparators] at hc
  have hm := nil_notMem_segments h hns
  rw [hc, segments_append, segments, if_pos rfl] at hm
  exact hm (List.mem_append_right _ List.mem_cons_self)

theorem not_absolute_spell : ¬ Absolute (spell (ns.map .name)) := by
  rw [Absolute, spell, String.toList_ofList]
  exact head?_withSeparators h

theorem namesIn_spell (dir : String) :
    namesIn dir (spell (ns.map .name)) = names dir.toList ++ ns := by
  rw [namesIn, if_neg (not_absolute_spell h), spell, String.toList_ofList, names_withSeparators h]

theorem namesIn_spell_root (dir : String) : namesIn dir (spell (.root :: ns.map .name)) = ns := by
  have ha : Absolute (spell (.root :: ns.map .name)) := by
    rw [Absolute, spell, String.toList_ofList]
    rfl
  have hn : names ('/' :: withSeparators (ns.map .name)) = names (withSeparators (ns.map .name)) :=
    names_append [] _
  rw [namesIn, if_pos ha, spell, String.toList_ofList, withSeparators, hn, names_withSeparators h]

end Spelled

/-- A path without dots alone between separators, without separators next to each other, and without one
at its end. -/
structure Tidy (path : String) : Prop where
  dots : ['.'] ∉ segments path.toList
  repeated : ¬ ['/', '/'] <:+: path.toList
  ending : path = "/" ∨ path.toList.getLast? ≠ some '/'

theorem tidy_spell {ns : List String} (h : ∀ n ∈ ns, IsName n) : Tidy (spell (ns.map .name)) := by
  have hl : (spell (ns.map .name)).toList = withSeparators (ns.map .name) := by
    rw [spell, String.toList_ofList]
  exact ⟨by rw [hl]; exact dot_notMem_segments h, by rw [hl]; exact repeated_notMem h,
    .inr (by rw [hl]; exact getLast?_withSeparators h)⟩

theorem tidy_spell_root {ns : List String} (h : ∀ n ∈ ns, IsName n) :
    Tidy (spell (.root :: ns.map .name)) := by
  have hl : (spell (.root :: ns.map .name)).toList = '/' :: withSeparators (ns.map .name) := by
    rw [spell, String.toList_ofList, withSeparators]
  refine ⟨?_, ?_, ?_⟩
  · rw [hl, segments, if_pos rfl]
    simpa using dot_notMem_segments h
  · rw [hl]
    rintro ⟨as, bs, hc⟩
    -- the first separator cannot be one of two, since a name follows it
    cases as with
    | nil =>
      have hh : (withSeparators (ns.map .name)).head? = some '/' := by
        rw [← (List.cons.inj hc).2]
        rfl
      exact head?_withSeparators h hh
    | cons a as => exact repeated_notMem h ⟨as, bs, (List.cons.inj hc).2⟩
  · cases ns with
    | nil => exact .inl rfl
    | cons n ns =>
      have hne : withSeparators ((n :: ns).map .name) ≠ [] := by
        intro he
        have hn := names_withSeparators h
        rw [he] at hn
        cases hn
      have hlast := List.getLast?_append_of_ne_nil ['/'] hne
      rw [List.singleton_append] at hlast
      exact .inr (by rw [hl, hlast]; exact getLast?_withSeparators h)

theorem after?_eq_some_iff {dir cs rest : List Component} :
    after? dir cs = some rest ↔ cs = dir ++ rest := by
  constructor
  · exact after?_eq_some
  · rintro rfl
    exact after?_append dir rest

theorem resolve_eq_append_iff {dir path : String} {rest : List Component} (hd : Absolute dir) :
    resolve dir path = cleaned dir ++ rest ↔
      ∃ ns, namesIn dir path = names dir.toList ++ ns ∧ rest = ns.map .name := by
  rw [resolve_eq path hd, cleaned_of_absolute hd, List.cons_append, List.cons.injEq]
  constructor
  · rintro ⟨-, h⟩
    obtain ⟨as, ns, hn, ha, hr⟩ := List.map_eq_append_iff.mp h
    have has : as = names dir.toList :=
      (List.map_inj_right fun _ _ hh => Component.name.inj hh).mp ha
    exact ⟨ns, by rw [hn, has], hr.symm⟩
  · rintro ⟨ns, hn, rfl⟩
    exact ⟨rfl, by rw [hn, List.map_append]⟩

/-- What names something below a directory is seen by the names that are left, all else by all its
names behind a separator. -/
theorem seenFrom_below_or_whole {dir path : String} (hd : Absolute dir)
    (hne : resolve dir path ≠ cleaned dir) :
    (∃ ns, ns ≠ [] ∧ namesIn dir path = names dir.toList ++ ns ∧
      seenFrom dir path = spell (ns.map .name)) ∨
    ((∀ ns, namesIn dir path ≠ names dir.toList ++ ns) ∧
      seenFrom dir path = spell (.root :: (namesIn dir path).map .name)) := by
  rw [seenFrom_eq_within_resolve hd hne, within, components_of_absolute hd, ← resolve_eq path hd]
  by_cases hb : ∃ ns, namesIn dir path = names dir.toList ++ ns
  · obtain ⟨ns, hns⟩ := hb
    have hr : resolve dir path = cleaned dir ++ ns.map .name :=
      (resolve_eq_append_iff hd).mpr ⟨ns, hns, rfl⟩
    cases ns with
    | nil => exact absurd (hr.trans (List.append_nil _)) hne
    | cons n ns =>
      refine .inl ⟨n :: ns, List.cons_ne_nil _ _, hns, ?_⟩
      rw [after?_eq_some_iff.mpr hr]
      rfl
  · have hcut : after? (cleaned dir) (resolve dir path) = none := by
      rw [Option.eq_none_iff_forall_ne_some]
      intro rest hrest
      obtain ⟨ns, hns, -⟩ := (resolve_eq_append_iff hd).mp (after?_eq_some hrest)
      exact hb ⟨ns, hns⟩
    rw [hcut]
    exact .inr ⟨not_exists.mp hb, rfl⟩

section Seen

variable {dir path : String} (hd : Absolute dir) (hne : resolve dir path ≠ cleaned dir)

include hd hne

theorem resolve_seenFrom : resolve dir (seenFrom dir path) = resolve dir path := by
  rw [resolve_eq_iff hd hd]
  have hall : ∀ n ∈ namesIn dir path, IsName n := fun n hn => isName_of_mem_namesIn hn
  rcases seenFrom_below_or_whole hd hne with ⟨ns, -, hns, he⟩ | ⟨-, he⟩
  · have hn : ∀ n ∈ ns, IsName n := fun n hn => hall n (hns ▸ List.mem_append_right _ hn)
    rw [he, hns, namesIn_spell hn]
  · rw [he, namesIn_spell_root hall]

theorem tidy_seenFrom : Tidy (seenFrom dir path) := by
  have hall : ∀ n ∈ namesIn dir path, IsName n := fun n hn => isName_of_mem_namesIn hn
  rcases seenFrom_below_or_whole hd hne with ⟨ns, -, hns, he⟩ | ⟨-, he⟩
  · rw [he]
    exact tidy_spell fun n hn => hall n (hns ▸ List.mem_append_right _ hn)
  · rw [he]
    exact tidy_spell_root hall

theorem not_absolute_seenFrom_iff :
    ¬ Absolute (seenFrom dir path) ↔ ∃ rest, rest ≠ [] ∧ resolve dir path = cleaned dir ++ rest := by
  simp only [resolve_eq_append_iff hd]
  rcases seenFrom_below_or_whole hd hne with ⟨ns, hns, hb, he⟩ | ⟨hb, he⟩
  · have hall : ∀ n ∈ namesIn dir path, IsName n := fun n hn => isName_of_mem_namesIn hn
    have hn : ∀ n ∈ ns, IsName n := fun n hn => hall n (hb ▸ List.mem_append_right _ hn)
    rw [he]
    exact iff_of_true (not_absolute_spell hn) ⟨ns.map .name, by simpa using hns, ns, hb, rfl⟩
  · have ha : Absolute (seenFrom dir path) := by
      rw [he, Absolute, spell, String.toList_ofList]
      rfl
    refine iff_of_false (not_not.mpr ha) ?_
    rintro ⟨-, -, ns, hns, -⟩
    exact hb ns hns

theorem seenFrom_seenFrom : seenFrom dir (seenFrom dir path) = seenFrom dir path := by
  have hr := resolve_seenFrom hd hne
  have hne' : resolve dir (seenFrom dir path) ≠ cleaned dir := by
    rw [hr]
    exact hne
  rw [seenFrom_eq_within_resolve hd hne', hr, ← seenFrom_eq_within_resolve hd hne]

end Seen

/-- Two paths are seen alike if and only if they name the same. What is seen names that too, is tidy, is
relative just where it names something below the directory, and is seen as it is. -/
theorem seenFrom_canonical {dir path path' : String} (hd : Absolute dir)
    (hne : resolve dir path ≠ cleaned dir) (hne' : resolve dir path' ≠ cleaned dir) :
    (seenFrom dir path = seenFrom dir path' ↔ resolve dir path = resolve dir path') ∧
    resolve dir (seenFrom dir path) = resolve dir path ∧
    Tidy (seenFrom dir path) ∧
    (¬ Absolute (seenFrom dir path) ↔
      ∃ rest, rest ≠ [] ∧ resolve dir path = cleaned dir ++ rest) ∧
    seenFrom dir (seenFrom dir path) = seenFrom dir path := by
  refine ⟨⟨?_, ?_⟩, resolve_seenFrom hd hne, tidy_seenFrom hd hne, not_absolute_seenFrom_iff hd hne,
    seenFrom_seenFrom hd hne⟩
  · intro h
    rw [← resolve_seenFrom hd hne, h, resolve_seenFrom hd hne']
  · intro h
    rw [seenFrom_eq_within_resolve hd hne, h, ← seenFrom_eq_within_resolve hd hne']

theorem seenFrom_canonical_beside :
    let path := "./../project-b//x/."
    Absolute "/project/" ∧ resolve "/project/" path ≠ cleaned "/project/" ∧
    resolve "/project/" "/project-b/x" ≠ cleaned "/project/" ∧
    seenFrom "/project/" path = "../project-b/x" ∧
    (seenFrom "/project/" path = seenFrom "/project/" "/project-b/x" ↔
      resolve "/project/" path = resolve "/project/" "/project-b/x") ∧
    resolve "/project/" (seenFrom "/project/" path) = resolve "/project/" path ∧
    Tidy (seenFrom "/project/" path) ∧
    (¬ Absolute (seenFrom "/project/" path) ↔
      ∃ rest, rest ≠ [] ∧ resolve "/project/" path = cleaned "/project/" ++ rest) ∧
    seenFrom "/project/" (seenFrom "/project/" path) = seenFrom "/project/" path :=
  have hd : Absolute "/project/" := by decide
  have hne : resolve "/project/" "./../project-b//x/." ≠ cleaned "/project/" := by decide +kernel
  have hne' : resolve "/project/" "/project-b/x" ≠ cleaned "/project/" :=
    ne_of_apply_ne List.length (by decide +kernel)
  have hs : seenFrom "/project/" "./../project-b//x/." = "../project-b/x" :=
    String.toList_inj.mp (by decide +kernel)
  ⟨hd, hne, hne', hs, seenFrom_canonical hd hne hne'⟩

end Path

end EditHook
