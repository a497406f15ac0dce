import EditHook.Path

/-! Paths by the names in them. Two spellings of a path have the same names and are both absolute or
both relative; joining paths puts their names one behind the other. -/

namespace EditHook

namespace Path

def Absolute (path : String) : Prop :=
  path.toList.head? = some '/'

instance (path : String) : Decidable (Absolute path) :=
  inferInstanceAs (Decidable (_ = _))

/-- What a path names as seen from a directory, without dots and repeated separators. Two dots are a
name like any other. -/
def resolve (dir path : String) : List Component :=
  cleaned (join dir path)

theorem segments_ne_nil (cs : List Char) : segments cs ≠ [] := by
  cases cs with
  | nil => simp [segments]
  | cons c cs =>
    simp only [segments]
    split
    · simp
    · split <;> simp

theorem segments_append (as bs : List Char) :
    segments (as ++ '/' :: bs) = segments as ++ segments bs := by
  induction as with
  | nil => simp [segments]
  | cons c cs ih =>
    by_cases hc : c = '/'
    · simp [segments, hc, ih]
    · obtain ⟨seg, rest, hs⟩ := List.exists_cons_of_ne_nil (segments_ne_nil cs)
      simp [segments, hc, ih, hs]

theorem names_append (as bs : List Char) : names (as ++ '/' :: bs) = names as ++ names bs := by
  simp only [names, segments_append, List.filter_append, List.map_append]

theorem names_concat (as : List Char) : names (as ++ ['/']) = names as := by
  have hn : names [] = [] := rfl
  rw [names_append, hn, List.append_nil]

theorem cleaned_eq (path : String) :
    cleaned path = (if Absolute path then [Component.root] else []) ++
      (names path.toList).map Component.name := by
  have hn : ((names path.toList).map Component.name).filter (· != .here) =
      (names path.toList).map Component.name := by
    rw [List.filter_eq_self]
    intro c hc
    obtain ⟨s, _, rfl⟩ := List.mem_map.mp hc
    rfl
  by_cases ha : Absolute path
  · have hh : path.toList.head? = some '/' := ha
    simp [cleaned, components, hh, ha, hn]
  · have hh : path.toList.head? ≠ some '/' := ha
    simp only [cleaned, components, hh, ha, if_false, List.nil_append]
    split
    · simp [hn]
    · exact hn

theorem cleaned_of_absolute {path : String} (h : Absolute path) :
    cleaned path = .root :: (names path.toList).map .name := by
  rw [cleaned_eq, if_pos h, List.singleton_append]

theorem cleaned_of_relative {path : String} (h : ¬ Absolute path) :
    cleaned path = (names path.toList).map .name := by
  rw [cleaned_eq, if_neg h, List.nil_append]

theorem components_of_absolute {path : String} (h : Absolute path) :
    components path = cleaned path := by
  have hh : path.toList.head? = some '/' := h
  simp only [cleaned_of_absolute h, components, hh, if_true]

theorem join_of_absolute {dir path : String} (h : Absolute path) : join dir path = path := by
  have hh : path.toList.head? = some '/' := h
  simp [join, hh]

theorem join_of_relative {dir path : String} (hd : Absolute dir) (h : ¬ Absolute path) :
    Absolute (join dir path) ∧
      names (join dir path).toList = names dir.toList ++ names path.toList := by
  have hp : path.toList.head? ≠ some '/' := h
  have hd : dir.toList.head? = some '/' := hd
  have he : dir.isEmpty = false := by
    rw [Bool.eq_false_iff]
    intro he
    simp [String.isEmpty_iff.mp he] at hd
  by_cases hl : dir.toList.getLast? = some '/'
  · -- the separator at the end of the directory is the one between them
    obtain ⟨cs, hcs⟩ := List.getLast?_eq_some_iff.mp hl
    have hj : (join dir path).toList = cs ++ '/' :: path.toList := by
      simp [join, hp, he, hcs]
    refine ⟨?_, ?_⟩
    · have hh : (join dir path).toList = dir.toList ++ path.toList := by simp [hj, hcs]
      simp [Absolute, hh, List.head?_append, hd]
    · rw [hj, hcs, names_append, names_concat]
  · have hj : (join dir path).toList = dir.toList ++ '/' :: path.toList := by
      simp [join, hp, he, hl]
    exact ⟨by simp [Absolute, hj, List.head?_append, hd], by rw [hj, names_append]⟩

theorem absolute_join {dir : String} (path : String) (hd : Absolute dir) :
    Absolute (join dir path) := by
  by_cases h : Absolute path
  · rwa [join_of_absolute h]
  · exact (join_of_relative hd h).1

def namesIn (dir path : String) : List String :=
  if Absolute path then names path.toList else names dir.toList ++ names path.toList

theorem names_join {dir : String} (path : String) (hd : Absolute dir) :
    names (join dir path).toList = namesIn dir path := by
  by_cases h : Absolute path
  · rw [join_of_absolute h, namesIn, if_pos h]
  · rw [(join_of_relative hd h).2, namesIn, if_neg h]

theorem resolve_eq {dir : String} (path : String) (hd : Absolute dir) :
    resolve dir path = .root :: (namesIn dir path).map .name := by
  rw [resolve, cleaned_of_absolute (absolute_join path hd), names_join path hd]

theorem resolve_eq_iff {dir dir' path path' : String} (hd : Absolute dir) (hd' : Absolute dir') :
    resolve dir path = resolve dir' path' ↔ namesIn dir path = namesIn dir' path' := by
  rw [resolve_eq path hd, resolve_eq path' hd', List.cons.injEq,
    List.map_inj_right fun _ _ hh => Component.name.inj hh]
  exact and_iff_right rfl

theorem after?_append (dir rest : List Component) : after? dir (dir ++ rest) = some rest := by
  induction dir with
  | nil => rfl
  | cons c cs ih => simp [after?, ih]

end Path

end EditHook
