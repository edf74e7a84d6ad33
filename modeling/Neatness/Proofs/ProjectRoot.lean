import Mathlib.Logic.Relation
import Neatness.Proofs.PathSteps
import Neatness.Server.State

/-!
# The directory of a project

Two searches go outwards along a path as it was written: one for a configuration, and one for the
directory of a project, which holds a repository or a configuration.  Every step makes the path
shorter, so both searches end, and the first of them goes on where the second one stops.

* `outward_eq` says what the outer paths are without a bound on their number.
* `Search` is a search step by step, with its end; `search_iff` says that every search ends with
  what `nearest` gives.
* `IsNearest` is the nearest of the outer paths that passes a test (`nearest_eq_some_iff`).
* `nearest_of_imp` compares the searches for two tests, one of which passes more.
-/

namespace Neatness

namespace Path

/-! ## Outer paths are shorter -/

/-- The fixed start stands in front. -/
theorem start_isPrefix (p : Path) : p.start <+: p.bytes := by
  rcases start_cases p with ⟨rest, hbytes, hstart⟩ | ⟨rest, ns, hbytes, hstart, -⟩ | ⟨hstart, -⟩
  · exact ⟨rest, by rw [hbytes, hstart]; rfl⟩
  · exact ⟨rest, by rw [hbytes, hstart]; rfl⟩
  · rw [hstart]
    exact List.nil_prefix

/-- The fixed start and the body are no longer than the path. -/
theorem length_start_add_body_le (p : Path) :
    p.start.length + (unpieces p.body).length ≤ p.bytes.length := by
  obtain ⟨rest, hrest⟩ := p.start_isPrefix
  have hdrop : p.bytes.drop p.start.length = rest := by
    rw [← hrest, List.drop_left]
  obtain ⟨idle, hidle⟩ := trimmed_isPrefix (pieces (p.bytes.drop p.start.length))
  have hbody : (unpieces p.body).length ≤ rest.length := by
    have hle := length_unpieces_add_le p.body idle
    rw [body, hidle, unpieces_pieces, hdrop, ← hdrop, ← body] at hle
    rw [← hdrop]
    omega
  have hlength := congrArg List.length hrest
  rw [List.length_append] at hlength
  omega

/-- The path that a path is written in is shorter. -/
theorem length_parent?_lt {p q : Path} (h : p.parent? = some q) :
    q.bytes.length < p.bytes.length := by
  have hlength := p.length_start_add_body_le
  unfold parent? at h
  cases hreverse : p.body.reverse with
  | nil =>
      rw [hreverse] at h
      simp only at h
      split at h
      · rename_i hdot
        obtain rfl := Option.some.inj h
        rw [hdot] at hlength
        exact Nat.lt_of_lt_of_le (Nat.zero_lt_one) (Nat.le_trans (Nat.le_add_right _ _) hlength)
      · cases h
  | cons n outer =>
      rw [hreverse] at h
      obtain rfl := Option.some.inj h
      have hbody : p.body = outer.reverse ++ [n] := by
        rw [← List.reverse_reverse p.body, hreverse, List.reverse_cons]
      have hn : 0 < n.length := by
        rw [List.length_pos_iff]
        rintro rfl
        exact absurd (isIdle_of_body hreverse) (by decide)
      obtain ⟨idle, hidle⟩ : (outer.dropWhile isIdle).reverse <+: outer.reverse := by
        have := trimmed_isPrefix outer.reverse
        rwa [List.reverse_reverse] at this
      have houter := length_unpieces_add_le (outer.dropWhile isIdle).reverse idle
      have hlast := length_unpieces_add_le outer.reverse [n]
      have hone : unpieces [n] = n := by simp [unpieces]
      rw [hidle] at houter
      rw [← hbody, hone] at hlast
      rw [List.length_append]
      omega

theorem outwardFrom_eq_outward {fuel : Nat} {p : Path} (h : p.bytes.length < fuel) :
    outwardFrom fuel p = p.outward := by
  have hany : ∀ (m n : Nat) (q : Path), q.bytes.length < m → q.bytes.length < n →
      outwardFrom m q = outwardFrom n q := by
    intro m
    induction m with
    | zero => exact fun n q hm => absurd hm (Nat.not_lt_zero _)
    | succ m ih =>
        intro n q hm hn
        cases n with
        | zero => exact absurd hn (Nat.not_lt_zero _)
        | succ n =>
            rw [outwardFrom, outwardFrom]
            cases hparent : q.parent? with
            | none => rfl
            | some outer =>
                have hshort := length_parent?_lt hparent
                exact congrArg (q :: ·) (ih n outer (by omega) (by omega))
  exact hany _ _ p h (Nat.lt_succ_self _)

/-- The outer paths of a path are the path and those of the one that it is written in. -/
theorem outward_eq (p : Path) :
    p.outward = p :: match p.parent? with
      | some outer => outer.outward
      | none => [] := by
  rw [outward, outwardFrom]
  cases hparent : p.parent? with
  | none => rfl
  | some outer =>
      have hshort := length_parent?_lt hparent
      simp only
      rw [outwardFrom_eq_outward hshort]

/-- `outer` is the path, or one that it is written in, directly or through others. -/
def IsWithin (p outer : Path) : Prop :=
  Relation.ReflTransGen (fun inner next => inner.parent? = some next) p outer

end Path

namespace Config

variable {test : Path → Bool} {p q : Path}

/-! ## A search, step by step -/

/-- A search that starts at a path, and what it ends with. -/
inductive Search (test : Path → Bool) : Path → Option Path → Prop where
  | found {p : Path} (hpasses : test p = true) : Search test p (some p)
  /-- It does not, and the search goes on where it is written in. -/
  | further {p outer : Path} {result : Option Path} (hfails : test p = false)
      (hparent : p.parent? = some outer) (hsearch : Search test outer result) :
      Search test p result
  /-- It does not, and it is written in no other. -/
  | nowhere {p : Path} (hfails : test p = false) (hparent : p.parent? = none) :
      Search test p none

theorem nearest_of_passes (h : test p = true) : nearest test p = some p := by
  rw [nearest, Path.outward_eq, List.find?_cons_of_pos h]

theorem nearest_of_parent (hfails : test p = false) (hparent : p.parent? = some q) :
    nearest test p = nearest test q := by
  rw [nearest, Path.outward_eq, List.find?_cons_of_neg (by simp [hfails]), hparent]
  rfl

theorem nearest_of_no_parent (hfails : test p = false) (hparent : p.parent? = none) :
    nearest test p = none := by
  rw [nearest, Path.outward_eq, List.find?_cons_of_neg (by simp [hfails]), hparent]
  rfl

/-- Every search ends, since the paths get shorter. -/
theorem search_nearest (test : Path → Bool) (p : Path) : Search test p (nearest test p) := by
  induction hlength : p.bytes.length using Nat.strongRecOn generalizing p with
  | ind length ih =>
      cases htest : test p with
      | true =>
          rw [nearest_of_passes htest]
          exact .found htest
      | false =>
          cases hparent : p.parent? with
          | none =>
              rw [nearest_of_no_parent htest hparent]
              exact .nowhere htest hparent
          | some outer =>
              rw [nearest_of_parent htest hparent]
              exact .further htest hparent
                (ih _ (hlength ▸ Path.length_parent?_lt hparent) outer rfl)

theorem search_iff {result : Option Path} : Search test p result ↔ result = nearest test p := by
  constructor
  · intro h
    induction h with
    | found hpasses => exact (nearest_of_passes hpasses).symm
    | further hfails hparent _ ih => rw [nearest_of_parent hfails hparent, ih]
    | nowhere hfails hparent => exact (nearest_of_no_parent hfails hparent).symm
  · rintro rfl
    exact search_nearest test p

/-! ## The nearest outer path -/

/-- Of a path and those that it is written in, the first that passes a test. -/
structure IsNearest (test : Path → Bool) (p outer : Path) : Prop where
  /-- The path is the outer one or written in it. -/
  within : p.IsWithin outer
  passes : test outer = true
  /-- No path in between does. -/
  nearest : ∀ other, p.IsWithin other → other.IsWithin outer → test other = true → other = outer

theorem length_le_of_isWithin {p outer : Path} (h : p.IsWithin outer) :
    outer.bytes.length ≤ p.bytes.length := by
  induction h with
  | refl => exact Nat.le_refl _
  | tail _ hparent ih => exact Nat.le_trans (Nat.le_of_lt (Path.length_parent?_lt hparent)) ih

/-- A path that is written in another one is within all that the other one is within. -/
theorem isWithin_iff_of_parent {p q outer : Path} (hparent : p.parent? = some q) :
    p.IsWithin outer ↔ outer = p ∨ q.IsWithin outer := by
  unfold Path.IsWithin
  rw [Relation.ReflTransGen.cases_head_iff]
  refine or_congr eq_comm ⟨?_, fun h => ⟨q, hparent, h⟩⟩
  rintro ⟨next, hnext, h⟩
  obtain rfl := Option.some.inj (hparent.symm.trans hnext)
  exact h

theorem isWithin_iff_of_no_parent {p outer : Path} (hparent : p.parent? = none) :
    p.IsWithin outer ↔ outer = p := by
  unfold Path.IsWithin
  rw [Relation.ReflTransGen.cases_head_iff]
  constructor
  · rintro (heq | ⟨next, hnext, -⟩)
    · exact heq.symm
    · rw [hparent] at hnext
      cases hnext
  · exact fun heq => .inl heq.symm

theorem eq_of_isWithin {p q : Path} (h : p.IsWithin q) (hback : q.IsWithin p) : q = p := by
  cases hparent : p.parent? with
  | none => exact (isWithin_iff_of_no_parent hparent).1 h
  | some outer =>
      rcases (isWithin_iff_of_parent hparent).1 h with heq | hfurther
      · exact heq
      · -- One step makes the path shorter, and no way back makes it longer again.
        have hshort := Path.length_parent?_lt hparent
        have hfirst := length_le_of_isWithin hfurther
        have hsecond := length_le_of_isWithin hback
        omega

theorem isNearest_of_passes (h : test p = true) : IsNearest test p q ↔ q = p := by
  constructor
  · exact fun hnearest => (hnearest.nearest p .refl hnearest.within h).symm
  · rintro rfl
    exact ⟨.refl, h, fun other hother hback _ => eq_of_isWithin hother hback⟩

theorem isNearest_of_parent {outer : Path} (hfails : test p = false)
    (hparent : p.parent? = some q) : IsNearest test p outer ↔ IsNearest test q outer := by
  constructor
  · intro h
    rcases (isWithin_iff_of_parent hparent).1 h.within with rfl | hwithin
    · rw [h.passes] at hfails
      cases hfails
    · exact ⟨hwithin, h.passes, fun other hother =>
        h.nearest other ((isWithin_iff_of_parent hparent).2 (.inr hother))⟩
  · intro h
    refine ⟨(isWithin_iff_of_parent hparent).2 (.inr h.within), h.passes,
      fun other hother hback hpasses => ?_⟩
    rcases (isWithin_iff_of_parent hparent).1 hother with rfl | hother
    · rw [hpasses] at hfails
      cases hfails
    · exact h.nearest other hother hback hpasses

theorem not_isNearest_of_no_parent (hfails : test p = false) (hparent : p.parent? = none) :
    ¬IsNearest test p q := by
  intro h
  obtain rfl := (isWithin_iff_of_no_parent hparent).1 h.within
  rw [h.passes] at hfails
  cases hfails

/-- A search ends with the nearest outer path that passes. -/
theorem nearest_eq_some_iff : nearest test p = some q ↔ IsNearest test p q := by
  have h := search_nearest test p
  generalize nearest test p = result at h
  induction h with
  | found hpasses => rw [isNearest_of_passes hpasses, Option.some.injEq, eq_comm]
  | further hfails hparent _ ih => exact ih.trans (isNearest_of_parent hfails hparent).symm
  | nowhere hfails hparent => simp [not_isNearest_of_no_parent hfails hparent]

/-! ## Two searches -/

/-- If one test passes only where another one does, the search for the first goes on from where the
search for the second ends. -/
theorem nearest_of_imp {other : Path → Bool} (himp : ∀ p, test p = true → other p = true)
    (p : Path) : nearest test p = (nearest other p).bind (nearest test) := by
  have h := search_nearest other p
  generalize nearest other p = result at h
  have hfails_of : ∀ p, other p = false → test p = false := by
    intro p hother
    rw [← Bool.not_eq_true] at hother ⊢
    exact mt (himp p) hother
  induction h with
  | found hpasses => rfl
  | further hfails hparent _ ih => rw [nearest_of_parent (hfails_of _ hfails) hparent, ih]
  | nowhere hfails hparent => exact nearest_of_no_parent (hfails_of _ hfails) hparent

/-! ## Projects -/

/-- A directory is a project's: it holds a repository or a configuration. -/
def isProject (d : Disk) (dir : Path) : Bool :=
  d.has (dir.join (Path.ofText ".git")) || d.has (dir.join fileName)

theorem projectRoot?_eq_nearest (d : Disk) (dir : Path) :
    projectRoot? d dir = nearest (isProject d) dir := rfl

theorem find?_eq_bind_projectRoot? (d : Disk) (dir : Path) :
    find? d dir = (projectRoot? d dir).bind (find? d) := by
  have himp : ∀ p, isIn d p = true → isProject d p = true := by
    intro p hp
    rw [isProject, Bool.or_eq_true]
    exact .inr hp
  rw [find?, nearest_of_imp himp, projectRoot?_eq_nearest, Option.map_bind]
  rfl

/-- The configuration for a directory is the one for the directory of its project. -/
theorem load_projectRoot? (d : Disk) (dir : Path) :
    load d ((projectRoot? d dir).getD dir) none = load d dir none := by
  cases hroot : projectRoot? d dir with
  | none => rfl
  | some root =>
      have hfind := find?_eq_bind_projectRoot? d dir
      rw [hroot, Option.bind_some] at hfind
      rw [Option.getD_some, load, load, hfind]

/-- A server without a directory from the editor loads the configuration for the working directory,
although it starts from the directory of the project there. -/
theorem reload_greet (d : Disk) (s : Server.State) {root : Option Server.Uri}
    (editor : Option Server.EditorSettings) (hroot : root.bind Server.Uri.filePath? = none) :
    (s.greet d root editor).reload d =
      let here := { s.greet d root editor with root := none }.reload d
      ({ here.1 with root := projectRoot? d d.cwdPath }, here.2) := by
  have hgreet : (s.greet d root editor).root = projectRoot? d d.cwdPath := by
    rw [Server.State.greet, hroot, Option.none_or]
  unfold Server.State.reload
  rw [hgreet, load_projectRoot?, Option.getD_none]
  cases load d d.cwdPath none with
  | ok config => simp only [← hgreet]
  | error e => simp only [← hgreet]

/-- The search for the directory of a project and the search for a configuration both end.  The
first one ends with the nearest directory that holds a repository or a configuration, if there is
one; and the configuration that is found from there is the one that is found from the start.
Without such a directory there is no configuration.  So a server that starts from the directory of
the project loads what one would load from the working directory. -/
theorem find?_at_projectRoot (d : Disk) (dir : Path) :
    (∀ result, Search (isProject d) dir result ↔ result = projectRoot? d dir) ∧
    (∃ holder, (∀ result, Search (isIn d) dir result ↔ result = holder) ∧
      find? d dir = holder.map (·.join fileName)) ∧
    (∀ root, projectRoot? d dir = some root ↔ IsNearest (isProject d) dir root) ∧
    (∀ root, projectRoot? d dir = some root → find? d root = find? d dir) ∧
    (projectRoot? d dir = none → find? d dir = none) ∧
    load d ((projectRoot? d dir).getD dir) none = load d dir none ∧
    ∀ (s : Server.State) (root : Option Server.Uri) (editor : Option Server.EditorSettings),
      root.bind Server.Uri.filePath? = none →
      (s.greet d root editor).reload d =
        let here := { s.greet d root editor with root := none }.reload d
        ({ here.1 with root := projectRoot? d d.cwdPath }, here.2) := by
  have hfind := find?_eq_bind_projectRoot? d dir
  refine ⟨fun result => search_iff, ⟨_, fun result => search_iff, rfl⟩,
    fun root => nearest_eq_some_iff, fun root hroot => ?_, fun hroot => ?_, load_projectRoot? d dir,
    fun s root editor => reload_greet d s editor⟩
  · rw [hfind, hroot, Option.bind_some]
  · rw [hfind, hroot, Option.bind_none]

/-- A repository `w/p` below a directory `w` with a configuration, seen from a directory inside. -/
def insideRepository : Disk where
  tree := (FileTree.write {} [Utf8.ofText "w", fileName.bytes] (Utf8.ofText "\x7b\x7d")).makeDir
      [Utf8.ofText "w", Utf8.ofText "p", Utf8.ofText ".git"] |>.makeDir
      [Utf8.ofText "w", Utf8.ofText "p", Utf8.ofText "s"]
  cwd := [Utf8.ofText "w", Utf8.ofText "p", Utf8.ofText "s"]

/-- The search for the project ends at the repository, and from there the configuration above is
found; the search along a relative path ends without either. -/
theorem find?_at_projectRoot_repository :
    projectRoot? insideRepository (Path.ofText "/w/p/s") = some (Path.ofText "/w/p") ∧
    IsNearest (isProject insideRepository) (Path.ofText "/w/p/s") (Path.ofText "/w/p") ∧
    find? insideRepository (Path.ofText "/w/p") = find? insideRepository (Path.ofText "/w/p/s") ∧
    find? insideRepository (Path.ofText "/w/p/s") =
      some (Path.ofText "/w/.gradeguardianrc.json") ∧
    projectRoot? insideRepository (Path.ofText "./q") = none ∧
    find? insideRepository (Path.ofText "./q") = none ∧
    ((({} : Server.State).greet insideRepository none none).reload insideRepository).1.root =
      some (Path.ofText "/w/p") := by
  have hroot : projectRoot? insideRepository (Path.ofText "/w/p/s") =
      some (Path.ofText "/w/p") := by
    decide +kernel
  have hnone : projectRoot? insideRepository (Path.ofText "./q") = none := by decide +kernel
  obtain ⟨-, -, hnearest, hfind, -, -, hserver⟩ :=
    find?_at_projectRoot insideRepository (Path.ofText "/w/p/s")
  obtain ⟨-, -, -, -, hnothing, -⟩ := find?_at_projectRoot insideRepository (Path.ofText "./q")
  refine ⟨hroot, (hnearest _).1 hroot, hfind _ hroot, by decide +kernel, hnone, hnothing hnone, ?_⟩
  rw [hserver {} none none rfl]
  exact hroot

end Config
end Neatness
