import Neatness.Proofs.ConfigSearch

/-!
# One file, two spellings

A path may be written from the working directory or from the root, and with names behind a directory
as it was written.  All spellings that lead to one place have the same file there.

* `Path.into` puts names behind a directory; `Path.steps_into` says what that does to the steps, and
  `Path.exists_folder_into` to the bytes.
* `Watch.isSourceFile_of_steps` tells when two spellings are both those of a source file: the steps
  decide on the folders, the last name and the extension.
* `FileTree.follow_append` cuts a way into two, and `FileTree.follow_passes` says which names and
  directories are on the way to a place.
* `Disk.canonical?_into` and `Disk.eq_append_of_canonical?_into` are about the place of a directory
  with names behind it, also when the directory is read from the root through the working directory.
-/

namespace Neatness

namespace Path

/-! ## Names behind a directory -/

/-- A name that leads one step down. -/
def IsProper (n : Name) : Prop :=
  isIdle n = false ∧ n ≠ up ∧ slash ∉ n

instance (n : Name) : Decidable (IsProper n) :=
  inferInstanceAs (Decidable (_ ∧ _ ∧ _))

theorem moving_of_proper {ns : List Name} (h : ∀ n ∈ ns, IsProper n) : moving ns = ns :=
  List.filter_eq_self.2 fun n hn => by simp [(h n hn).1]

/-- A path to what some names lead to from a directory. -/
def into (dir : Path) (names : List Name) : Path :=
  names.foldl (fun p n => p.join ⟨n⟩) dir

@[simp] theorem into_nil (dir : Path) : dir.into [] = dir := rfl

theorem into_concat (dir : Path) (names : List Name) (n : Name) :
    dir.into (names ++ [n]) = (dir.into names).join ⟨n⟩ := by
  simp [into, List.foldl_append]

theorem pieces_of_slash_not_mem {n : Name} (h : slash ∉ n) : pieces n = [n] := by
  have hpieces : pieces (unpieces [n]) = [n] := pieces_unpieces (by simpa using h) (by simp)
  simpa [unpieces] using hpieces

theorem isAbsolute_of_slash_not_mem {n : Name} (h : slash ∉ n) :
    isAbsolute ⟨n⟩ = false := by
  cases n with
  | nil => rfl
  | cons b n =>
      have hb : b ≠ slash := fun heq => h (heq ▸ List.mem_cons_self)
      simp [isAbsolute, hb]

theorem join_of_isAbsolute (p : Path) {q : Path} (h : q.isAbsolute = true) : p.join q = q := by
  rw [join, if_pos h]

theorem steps_join (p : Path) {q : Path} (h : q.isAbsolute = false) :
    (p.join q).steps = p.steps ++ q.steps := by
  obtain ⟨front, hpieces, hfront⟩ := exists_pieces_join p h
  rw [steps, hpieces, moving_append, hfront]
  rfl

theorem steps_into (dir : Path) {names : List Name} (h : ∀ n ∈ names, IsProper n) :
    (dir.into names).steps = dir.steps ++ names := by
  induction names using List.reverseRecOn with
  | nil => simp
  | append_singleton names n ih =>
      obtain ⟨hidle, -, hslash⟩ := h n (by simp)
      have hname : steps ⟨n⟩ = [n] := by
        rw [steps, pieces_of_slash_not_mem hslash, moving_cons hidle, moving_nil]
      rw [into_concat, steps_join _ (isAbsolute_of_slash_not_mem hslash), hname,
        ih fun m hm => h m (by simp [hm]), List.append_assoc]

theorem isAbsolute_into (dir : Path) {names : List Name} (h : ∀ n ∈ names, IsProper n) :
    (dir.into names).isAbsolute = dir.isAbsolute := by
  induction names using List.reverseRecOn with
  | nil => rfl
  | append_singleton names n ih =>
      obtain ⟨-, -, hslash⟩ := h n (by simp)
      rw [into_concat, isAbsolute_join _ (isAbsolute_of_slash_not_mem hslash),
        ih fun m hm => h m (by simp [hm])]

/-- A path that is read from another one stands at its end, behind a slash. -/
theorem exists_folder_join {p q : Path} (hp : p.bytes ≠ []) (hq : q.isAbsolute = false) :
    ∃ folder, (p.join q).bytes = folder ++ slash :: q.bytes := by
  rw [join, if_neg (by simp [hq])]
  split
  · rename_i hends
    simp only [Bool.or_eq_true, decide_eq_true_eq, beq_iff_eq] at hends
    obtain ⟨folder, hfolder⟩ := List.getLast?_eq_some_iff.1 (hends.resolve_left hp)
    exact ⟨folder, by rw [hfolder, List.append_assoc, List.singleton_append]⟩
  · exact ⟨p.bytes, rfl⟩

/-- A path that stands at the end of another one does so with a name behind both. -/
theorem join_name_of_folder {p q : Path} {folder : List UInt8} {n : Name}
    (h : p.bytes = folder ++ slash :: q.bytes) (hq : q.bytes ≠ []) (hn : slash ∉ n) :
    (q.join ⟨n⟩).bytes ≠ [] ∧ (p.join ⟨n⟩).bytes = folder ++ slash :: (q.join ⟨n⟩).bytes := by
  -- Whether a slash is put in between depends on the last byte, and that is the same.
  have hlast : p.bytes.getLast? = q.bytes.getLast? := by
    rw [h, List.append_cons, List.getLast?_append_of_ne_nil _ hq]
  simp only [join, isAbsolute_of_slash_not_mem hn, hlast, Bool.false_eq_true, if_false]
  by_cases hslash : q.bytes.getLast? = some slash
  · simp [hslash, hq, h]
  · simp [hslash, hq, h]

theorem exists_folder_into {p q : Path} (hp : p.bytes ≠ []) (hq : q.isAbsolute = false)
    (hempty : q.bytes ≠ []) {names : List Name} (h : ∀ n ∈ names, IsProper n) :
    ∃ folder, ((p.join q).into names).bytes = folder ++ slash :: (q.into names).bytes := by
  obtain ⟨folder, hfolder⟩ := exists_folder_join hp hq
  suffices hinto : (q.into names).bytes ≠ [] ∧
      ((p.join q).into names).bytes = folder ++ slash :: (q.into names).bytes from
    ⟨folder, hinto.2⟩
  induction names using List.reverseRecOn with
  | nil => exact ⟨hempty, hfolder⟩
  | append_singleton names n ih =>
      obtain ⟨hne, hbytes⟩ := ih fun m hm => h m (by simp [hm])
      rw [into_concat, into_concat]
      exact join_name_of_folder hbytes hne (h n (by simp)).2.2

/-! ## What the steps say -/

theorem body_getLast? (p : Path) : p.body.getLast? = p.steps.getLast? := by
  rw [steps_eq_moving_body]
  cases hreverse : p.body.reverse with
  | nil => rw [List.reverse_eq_nil_iff.1 hreverse, moving_nil]
  | cons n outer =>
      have hbody : p.body = outer.reverse ++ [n] := by
        rw [← List.reverse_reverse p.body, hreverse, List.reverse_cons]
      rw [hbody, moving_append, moving_cons (isIdle_of_body hreverse), moving_nil,
        List.getLast?_concat, List.getLast?_concat]

theorem fileName?_eq_some_iff {p : Path} {n : Name} :
    p.fileName? = some n ↔ p.steps.getLast? = some n ∧ n ≠ up := by
  rw [fileName?, body_getLast?]
  cases p.steps.getLast? with
  | none => simp
  | some m =>
      by_cases hm : m = up
      · simp only [hm, if_true, reduceCtorEq, Option.some.injEq, false_iff, not_and, not_not]
        exact fun heq => heq.symm
      · simp only [if_neg hm, Option.some.injEq]
        exact ⟨fun heq => ⟨heq, heq ▸ hm⟩, fun h => h.1⟩

theorem name_mem_components_iff {p : Path} {n : Name} :
    .name n ∈ p.components ↔ n ∈ p.steps ∧ n ≠ up := by
  have hcomponent : (∃ m ∈ moving p.body, component m = .name n) ↔ n ∈ moving p.body ∧ n ≠ up := by
    unfold component
    constructor
    · rintro ⟨m, hm, heq⟩
      split at heq
      · cases heq
      · rename_i hup
        obtain rfl := Component.name.inj heq
        exact ⟨hm, hup⟩
    · rintro ⟨hn, hup⟩
      exact ⟨n, hn, if_neg hup⟩
  rw [steps_eq_moving_body, ← hcomponent, components, List.mem_append, List.mem_map]
  refine or_iff_right fun hstart => ?_
  split at hstart
  · cases hstart
  · rename_i b rest heq
    by_cases hb : b = slash <;> simp [hb] at hstart

end Path

namespace Watch

/-- A source file is one under every spelling that ends in the same name and goes through no other
folders. -/
theorem isSourceFile_of_steps {extensions : List String} {p q : Path}
    (hnames : ∀ n ∈ q.steps, n ≠ Path.up → n ∈ p.steps)
    (hlast : q.steps.getLast? = p.steps.getLast?)
    (h : isSourceFile extensions p = true) : isSourceFile extensions q = true := by
  have hfileName : q.fileName? = p.fileName? := by
    ext n
    rw [Path.fileName?_eq_some_iff, Path.fileName?_eq_some_iff, hlast]
  unfold isSourceFile at h ⊢
  rw [Bool.and_eq_true] at h ⊢
  refine ⟨?_, ?_⟩
  · -- A foreign folder of the one would be a foreign folder of the other.
    rw [Bool.not_eq_true', ← Bool.not_eq_true, List.any_eq_true]
    rintro ⟨c, hc, hforeign⟩
    obtain ⟨n, hn, hname⟩ := List.any_eq_true.1 hforeign
    obtain rfl : c = .name n := by simpa using hname
    obtain ⟨hstep, hup⟩ := Path.name_mem_components_iff.1 hc
    have hmem := Path.name_mem_components_iff.2 ⟨hnames n hstep hup, hup⟩
    rw [Bool.not_eq_true', List.any_eq_false] at h
    exact h.1 _ hmem hforeign
  · rw [Path.extension?, hfileName]
    exact h.2

/-- A source file has a last name. -/
theorem exists_fileName?_of_isSourceFile {extensions : List String} {p : Path}
    (h : isSourceFile extensions p = true) : ∃ n, p.fileName? = some n := by
  unfold isSourceFile at h
  rw [Bool.and_eq_true] at h
  cases hname : p.fileName? with
  | none => simp [Path.extension?, hname] at h
  | some n => exact ⟨n, rfl⟩

end Watch

namespace FileTree

variable {t : FileTree} {here place : Place} {ms ns : List Name}

/-! ## Ways through the tree -/

theorem follow_cons_eq_ok_iff {n : Name} :
    t.follow here (n :: ns) = .ok place ↔ t.node? here = some .dir ∧
      t.follow (if Path.isIdle n then here else if n = Path.up then here.dropLast else here ++ [n])
        ns = .ok place := by
  rw [follow]
  cases t.node? here with
  | none => simp
  | some node =>
      cases node with
      | file content => simp
      | dir =>
          simp only [true_and]
          split
          · rfl
          · split <;> rfl

theorem follow_append :
    t.follow here (ms ++ ns) = .ok place ↔
      ∃ mid, t.follow here ms = .ok mid ∧ t.follow mid ns = .ok place := by
  induction ms generalizing here with
  | nil => simp [follow]
  | cons m ms ih =>
      rw [List.cons_append, follow_cons_eq_ok_iff, ih]
      simp only [follow_cons_eq_ok_iff]
      constructor
      · rintro ⟨hdir, mid, hmid, hplace⟩
        exact ⟨mid, ⟨hdir, hmid⟩, hplace⟩
      · rintro ⟨mid, ⟨hdir, hmid⟩, hplace⟩
        exact ⟨hdir, mid, hmid, hplace⟩

/-- The steps alone lead to the same place. -/
theorem follow_moving_eq_ok (h : t.follow here ns = .ok place) :
    t.follow here (Path.moving ns) = .ok place := by
  induction ns generalizing here with
  | nil => exact h
  | cons n ns ih =>
      obtain ⟨hdir, hrest⟩ := follow_cons_eq_ok_iff.1 h
      cases hn : Path.isIdle n with
      | true =>
          rw [Path.moving_cons_of_idle hn]
          exact ih (by simpa [hn] using hrest)
      | false =>
          rw [Path.moving_cons hn, follow_cons_eq_ok_iff]
          exact ⟨hdir, ih hrest⟩

/-- The names of a place come from the way to it, and all above the place are directories, if that
is so at the start of the way. -/
theorem follow_passes (h : t.follow here ns = .ok place)
    (hhere : ∀ ms, ms <+: here → ms ≠ here → t.node? ms = some .dir) :
    (∀ n ∈ place, n ∈ here ∨ n ∈ Path.moving ns ∧ n ≠ Path.up) ∧
      ∀ ms, ms <+: place → ms ≠ place → t.node? ms = some .dir := by
  induction ns generalizing here with
  | nil =>
      obtain rfl := Except.ok.inj h
      exact ⟨fun n hn => .inl hn, hhere⟩
  | cons n ns ih =>
      obtain ⟨hdir, hrest⟩ := follow_cons_eq_ok_iff.1 h
      cases hn : Path.isIdle n with
      | true =>
          rw [Path.moving_cons_of_idle hn]
          exact ih (by simpa [hn] using hrest) hhere
      | false =>
          rw [Path.moving_cons hn]
          rw [hn, if_neg (by decide)] at hrest
          by_cases hup : n = Path.up
          · -- Two dots lead to what lies above, where no name is new.
            rw [if_pos hup] at hrest
            have habove : here.dropLast <+: here := List.dropLast_prefix here
            obtain ⟨hnames, hdirs⟩ := ih hrest fun ms hms hne =>
              hhere ms (hms.trans habove) fun heq =>
                hne (hms.eq_of_length_le (heq ▸ habove.length_le))
            refine ⟨fun m hm => ?_, hdirs⟩
            exact (hnames m hm).imp (habove.subset ·) fun h => ⟨List.mem_cons_of_mem n h.1, h.2⟩
          · rw [if_neg hup] at hrest
            obtain ⟨hnames, hdirs⟩ := ih hrest fun ms hms hne => by
              -- What lies above the next place is this one, or lies above it.
              have hfront := Path.prefix_dropLast_of_ne hms hne
              rw [List.dropLast_concat] at hfront
              by_cases heq : ms = here
              · rw [heq, hdir]
              · exact hhere ms hfront heq
            refine ⟨fun m hm => ?_, hdirs⟩
            rcases hnames m hm with hmem | ⟨hmem, hne⟩
            · rcases List.mem_append.1 hmem with hmem | hmem
              · exact .inl hmem
              · obtain rfl := List.mem_singleton.1 hmem
                exact .inr ⟨List.mem_cons_self, hup⟩
            · exact .inr ⟨List.mem_cons_of_mem n hmem, hne⟩

theorem eq_append_of_follow (hproper : ∀ n ∈ ns, Path.IsProper n)
    (h : t.follow here ns = .ok place) : place = here ++ ns := by
  have hup : Path.up ∉ ns := fun hmem => (hproper _ hmem).2.1 rfl
  rw [(follow_eq_ok hup h).1, Path.moving_of_proper hproper]

/-- A way whose last step is a name ends in that name. -/
theorem getLast?_of_follow {n : Name} (h : t.follow here ns = .ok place)
    (hlast : (Path.moving ns).getLast? = some n) (hup : n ≠ Path.up) :
    place.getLast? = some n := by
  obtain ⟨front, hfront⟩ := List.getLast?_eq_some_iff.1 hlast
  have hidle : Path.isIdle n = false := by
    have hmem : n ∈ Path.moving ns := by simp [hfront]
    simpa using (List.mem_filter.1 hmem).2
  have hsteps := follow_moving_eq_ok h
  rw [hfront, follow_append] at hsteps
  obtain ⟨mid, -, hend⟩ := hsteps
  obtain ⟨-, hplace⟩ := follow_cons_eq_ok_iff.1 hend
  rw [hidle, if_neg (by decide), if_neg hup] at hplace
  rw [← Except.ok.inj hplace, List.getLast?_concat]

end FileTree

namespace Disk

variable {d : Disk} {p : Path} {place top : Place} {names : List Name}

/-! ## Places of paths -/

theorem resolve_eq_ok (h : d.resolve p = .ok place) :
    p.isEmpty = false ∧ d.tree.follow (d.origin p.isAbsolute) (Path.pieces p.bytes) = .ok place := by
  unfold resolve at h
  cases hempty : p.isEmpty with
  | true => simp [hempty] at h
  | false =>
      rw [hempty, if_neg (by decide)] at h
      exact ⟨rfl, h⟩

theorem readText_congr {q : Path} {text : String} (h : d.canonical? q = d.canonical? p)
    (htext : d.readText p = .ok text) : d.readText q = .ok text := by
  rw [readText_eq_ok_iff] at htext ⊢
  rwa [h]

/-- The names of a place that an absolute path leads to are steps of the path, and all above the
place are directories. -/
theorem names_of_canonical? (habsolute : p.isAbsolute = true) (h : d.canonical? p = some place) :
    (∀ n ∈ place, n ∈ p.steps ∧ Path.IsProper n) ∧
      ∀ ms, ms <+: place → ms ≠ place → d.tree.node? ms = some .dir := by
  obtain ⟨-, hfollow⟩ := resolve_eq_ok (canonical?_eq_some_iff.1 h).1
  rw [habsolute] at hfollow
  obtain ⟨hnames, hdirs⟩ := FileTree.follow_passes hfollow fun ms hms hne =>
    absurd (List.prefix_nil.1 hms) hne
  refine ⟨fun n hn => ?_, hdirs⟩
  obtain hroot | ⟨hstep, hup⟩ := hnames n hn
  · cases hroot
  · obtain ⟨hpiece, hmoves⟩ := List.mem_filter.1 hstep
    exact ⟨hstep, by simpa using hmoves, hup, Path.slash_not_mem_of_mem_pieces hpiece⟩

/-- A path whose last step is a name leads to a place with that name. -/
theorem getLast?_of_canonical? {n : Name} (h : d.canonical? p = some place)
    (hname : p.steps.getLast? = some n) (hup : n ≠ Path.up) : place.getLast? = some n :=
  FileTree.getLast?_of_follow (resolve_eq_ok (canonical?_eq_some_iff.1 h).1).2 hname hup

/-- Names behind a path are followed along its steps. -/
theorem resolve_into (hproper : ∀ n ∈ names, Path.IsProper n) (hne : names ≠ []) :
    d.resolve (p.into names) =
      d.tree.follow (d.origin p.isAbsolute) (p.steps ++ names) := by
  obtain ⟨front, n, rfl⟩ : ∃ front n, names = front ++ [n] :=
    ⟨_, _, (List.dropLast_append_getLast hne).symm⟩
  obtain ⟨hidle, -, hslash⟩ := hproper n (by simp)
  have hfront : ∀ m ∈ front, Path.IsProper m := fun m hm => hproper m (by simp [hm])
  rw [Path.into_concat, resolve_join_name d _ (Path.isAbsolute_of_slash_not_mem hslash)
    (Path.pieces_of_slash_not_mem hslash) hidle, Path.isAbsolute_into p hfront,
    Path.steps_into p hfront, List.append_assoc]

/-- A place below a directory has a path behind every path of the directory. -/
theorem canonical?_into (htop : d.canonical? p = some top)
    (hproper : ∀ n ∈ names, Path.IsProper n)
    (hdirs : ∀ ms, ms <+: names → ms ≠ names → d.tree.node? (top ++ ms) = some .dir)
    (hnode : (d.tree.node? (top ++ names)).isSome = true) :
    d.canonical? (p.into names) = some (top ++ names) := by
  by_cases hne : names = []
  · rw [hne, Path.into_nil, List.append_nil, htop]
  · rw [canonical?_eq_some_iff]
    refine ⟨?_, hnode⟩
    rw [resolve_into hproper hne, FileTree.follow_append]
    obtain ⟨-, hfollow⟩ := resolve_eq_ok (canonical?_eq_some_iff.1 htop).1
    refine ⟨top, FileTree.follow_moving_eq_ok hfollow, FileTree.follow_of_dirs ?_ hdirs⟩
    exact fun n hn => ⟨(hproper n hn).1, (hproper n hn).2.1⟩

theorem isAbsolute_cwdPath (d : Disk) : d.cwdPath.isAbsolute = true := by
  simp [cwdPath, Path.isAbsolute]

theorem isAbsolute_cwdPath_join (d : Disk) (p : Path) : (d.cwdPath.join p).isAbsolute = true := by
  cases hp : p.isAbsolute with
  | true => rw [Path.join_of_isAbsolute _ hp, hp]
  | false => rw [Path.isAbsolute_join _ hp, d.isAbsolute_cwdPath]

theorem steps_cwdPath (h : ∀ n ∈ d.cwd, Path.IsProper n) : d.cwdPath.steps = d.cwd := by
  rw [Path.steps, cwdPath, Path.pieces_slash_cons, Path.moving_cons_of_idle rfl]
  by_cases hnil : d.cwd = []
  · rw [hnil]
    rfl
  · rw [Path.pieces_unpieces (fun n hn => (h n hn).2.2) hnil, Path.moving_of_proper h]

/-- A way that goes on from a path, read from the root through the working directory, goes on from
the place of the path. -/
theorem follow_cwdPath_join (hcwd : ∀ n ∈ d.cwd, Path.IsProper n) (htop : d.resolve p = .ok top)
    (h : d.tree.follow [] ((d.cwdPath.join p).steps ++ names) = .ok place) :
    d.tree.follow top names = .ok place := by
  obtain ⟨-, hfollow⟩ := resolve_eq_ok htop
  have hsteps := FileTree.follow_moving_eq_ok hfollow
  obtain ⟨mid, hmid, hrest⟩ := FileTree.follow_append.1 h
  suffices hsame : mid = top by rwa [hsame] at hrest
  cases hp : p.isAbsolute with
  | true =>
      rw [Path.join_of_isAbsolute _ hp] at hmid
      rw [hp] at hsteps
      exact Except.ok.inj (hmid.symm.trans hsteps)
  | false =>
      rw [Path.steps_join _ hp, steps_cwdPath hcwd] at hmid
      rw [hp] at hsteps
      obtain ⟨start, hstart, hmid⟩ := FileTree.follow_append.1 hmid
      rw [FileTree.eq_append_of_follow hcwd hstart, List.nil_append] at hmid
      exact Except.ok.inj (hmid.symm.trans hsteps)

/-- Names behind a directory that is read from the root through the working directory lead to what
lies below the place of the directory. -/
theorem eq_append_of_canonical?_into (hcwd : ∀ n ∈ d.cwd, Path.IsProper n)
    (hproper : ∀ n ∈ names, Path.IsProper n) (hne : names ≠ [])
    (htop : d.canonical? p = some top)
    (h : d.canonical? ((d.cwdPath.join p).into names) = some place) : place = top ++ names := by
  have hresolve := (canonical?_eq_some_iff.1 h).1
  rw [resolve_into hproper hne, d.isAbsolute_cwdPath_join] at hresolve
  exact FileTree.eq_append_of_follow hproper
    (follow_cwdPath_join hcwd (canonical?_eq_some_iff.1 htop).1 hresolve)

end Disk
end Neatness
