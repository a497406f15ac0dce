import EditHook.Proofs.Placeholder
import Mathlib.Data.List.TakeWhile

/-! Which paths a directory's rules are about. A rule is selected through a glob with the name of
the directory in front, where some characters stand for others; a path is cut by the name itself. -/

namespace EditHook

namespace RuleTable

/-- The ordinary characters that a directory starts with start the path as well. Either the path
lies inside the directory and is cut, or the name has a character that is special in globs and the
path stays as it is. -/
theorem selected_cut_or_whole {text path name : String} {t : RuleTable} {x : Selected}
    (h : ofText text = .ok t) (hx : x ∈ t.select path) (hr : x.root = .dir name) :
    (name ++ "/").toList.takeWhile (GlobReader.Plain ·) <+: path.toList ∧
    (path = name ++ "/" ++ x.root.unqualify path ∨
      x.root.unqualify path = path ∧ ∃ c ∈ name.toList, ¬ GlobReader.Plain c) := by
  obtain ⟨_, glob, g, _, hc, ha⟩ := glob_of_mem_select h hx
  have ht : (x.root.qualify glob).toList =
      (name ++ "/").toList.takeWhile (GlobReader.Plain ·) ++
        ((name ++ "/").toList.dropWhile (GlobReader.Plain ·) ++ glob.toList) := by
    rw [← List.append_assoc, List.takeWhile_append_dropWhile, hr]
    simp [Root.qualify]
  have hp := Glob.prefix_of_accepts hc ht
    (fun c hc => by simpa using List.mem_takeWhile_imp hc) ha
  refine ⟨hp, ?_⟩
  rw [hr]
  by_cases hb : ∃ rest, path = name ++ "/" ++ rest
  · obtain ⟨rest, rfl⟩ := hb
    exact .inl (by rw [Root.unqualify_below])
  · refine .inr ⟨Root.unqualify_of_not_below (not_exists.mp hb), ?_⟩
    by_contra hn
    have hall : ∀ c ∈ (name ++ "/").toList, GlobReader.Plain c := by
      intro c hc
      by_cases hs : c = '/'
      · rw [hs]
        decide
      · exact not_not.mp fun hc' => hn ⟨c, by simpa [hs] using hc, hc'⟩
    rw [List.takeWhile_eq_self_iff.mpr (by simpa using hall), String.toList_append] at hp
    exact hb (Root.below_iff.mpr hp)

theorem selected_cut_in_web :
    ofText webText = .ok webTable ∧ ⟨.dir "web", ⟨"lint", ["$@"]⟩⟩ ∈ webTable.select "web/a.ts" ∧
    ("web" ++ "/").toList.takeWhile (GlobReader.Plain ·) <+: "web/a.ts".toList ∧
    ("web/a.ts" = "web" ++ "/" ++ (Root.dir "web").unqualify "web/a.ts" ∨
      (Root.dir "web").unqualify "web/a.ts" = "web/a.ts" ∧
        ∃ c ∈ "web".toList, ¬ GlobReader.Plain c) :=
  have h : ofText webText = .ok webTable := by decide +kernel
  have hx : ⟨.dir "web", ⟨"lint", ["$@"]⟩⟩ ∈ webTable.select "web/a.ts" := by decide +kernel
  ⟨h, hx, selected_cut_or_whole h hx rfl⟩

/-- The star of this directory stands for another directory, whose files the commands are given by
their whole paths. -/
theorem starred_root_selects_outside :
    ∃ text path name t, ofText text = .ok t ∧ ∃ x ∈ t.select path, x.root = .dir name ∧
      path ≠ name ++ "/" ++ x.root.unqualify path :=
  let lint : Command := ⟨"lint", ["$@"]⟩
  let glob : Glob := ⟨"packages/".toList.map .literal ++ .star :: .literal '/' :: .star ::
    ".ts".toList.map .literal⟩
  ⟨"root \"packages/*\" \x7b pattern \"*.ts\" \x7b run \"lint\" \"$@\" \x7d \x7d",
    "packages/web/app.ts", "packages/*",
    ⟨[⟨.dir "packages/*", [⟨.single ⟨"*.ts", glob⟩, [lint], 1⟩]⟩]⟩,
    by decide +kernel, ⟨.dir "packages/*", lint⟩, by decide +kernel, rfl, by decide +kernel⟩

end RuleTable

end EditHook
