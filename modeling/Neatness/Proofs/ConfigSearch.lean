import Mathlib.Data.List.Infix
import Neatness.CommandLine.Batch
import Neatness.Proofs.FileTree
import Neatness.Proofs.PathSteps

/-!
# Which configuration a scan finds

The search for a configuration goes outwards along the path as it was written.  On a path without
two dots these are the directories above the scanned one, but no further than the directory that
the path starts from: the root for an absolute path, the working directory for any other.

* `canonical?_join_fileName` says that only the start and the steps of a directory's path count.
* `follow_eq_ok` and `follow_of_dirs` are about names without two dots: they lead straight down,
  through directories.
* `IsNearestConfig` is the directory whose configuration should count, and
  `configPlace?_eq_some_iff` that the search finds it.
-/

namespace Neatness

namespace FileTree

variable {t : FileTree} {here place : Place}

/-! ## Following names -/

/-- On the way to the last name, only the steps count. -/
theorem follow_moving (t : FileTree) (here : Place) (ns : List Name) (n : Name) :
    t.follow here (ns ++ [n]) = t.follow here (Path.moving ns ++ [n]) := by
  induction ns generalizing here with
  | nil => rfl
  | cons m ns ih =>
      cases hm : Path.isIdle m with
      | true =>
          -- What stands here is asked again at the next name.
          rw [Path.moving_cons_of_idle hm, ← ih, List.cons_append, follow]
          cases hnode : t.node? here with
          | none => cases ns <;> simp [follow, hnode]
          | some node =>
              cases node with
              | file content => cases ns <;> simp [follow, hnode]
              | dir => simp [hm]
      | false =>
          rw [Path.moving_cons hm, List.cons_append, List.cons_append, follow, follow]
          simp only [ih]

/-- Names without two dots lead straight down, through directories. -/
theorem follow_eq_ok {ns : List Name} (hup : Path.up ∉ ns) (h : t.follow here ns = .ok place) :
    place = here ++ Path.moving ns ∧ (ns ≠ [] → t.node? here = some .dir) ∧
      ∀ ms, ms <+: Path.moving ns → ms ≠ Path.moving ns → t.node? (here ++ ms) = some .dir := by
  induction ns generalizing here with
  | nil =>
      refine ⟨?_, by simp, ?_⟩
      · rw [Path.moving_nil, List.append_nil]
        exact (Except.ok.inj h).symm
      · intro ms hms hne
        exact absurd (List.prefix_nil.1 hms) hne
  | cons n ns ih =>
      rw [List.mem_cons, not_or] at hup
      rw [follow] at h
      cases hnode : t.node? here with
      | none => simp [hnode] at h
      | some node =>
          cases node with
          | file content => simp [hnode] at h
          | dir =>
              simp only [hnode, if_neg (Ne.symm hup.1)] at h
              cases hn : Path.isIdle n with
              | true =>
                  rw [hn, if_pos rfl] at h
                  obtain ⟨hplace, -, hdirs⟩ := ih hup.2 h
                  rw [Path.moving_cons_of_idle hn]
                  exact ⟨hplace, fun _ => rfl, hdirs⟩
              | false =>
                  rw [hn, if_neg (by decide)] at h
                  obtain ⟨hplace, -, hdirs⟩ := ih hup.2 h
                  rw [Path.moving_cons hn]
                  refine ⟨by rw [hplace, List.append_assoc]; rfl, fun _ => rfl, ?_⟩
                  intro ms hms hne
                  cases ms with
                  | nil => rw [List.append_nil, hnode]
                  | cons m ms =>
                      obtain ⟨rfl, hrest⟩ := List.cons_prefix_cons.1 hms
                      have hdir := hdirs ms hrest fun heq => hne (by rw [heq])
                      rwa [List.append_assoc, List.singleton_append] at hdir

/-- Directories can be followed straight down. -/
theorem follow_of_dirs {ns : List Name}
    (hsteps : ∀ n ∈ ns, Path.isIdle n = false ∧ n ≠ Path.up)
    (hdirs : ∀ ms, ms <+: ns → ms ≠ ns → t.node? (here ++ ms) = some .dir) :
    t.follow here ns = .ok (here ++ ns) := by
  induction ns generalizing here with
  | nil => rw [List.append_nil, follow]
  | cons n ns ih =>
      obtain ⟨hn, hup⟩ := hsteps n List.mem_cons_self
      have hhere := hdirs [] List.nil_prefix (by simp)
      rw [List.append_nil] at hhere
      rw [follow, hhere]
      simp only [hn, if_neg hup]
      rw [if_neg (by decide), ih fun m hm => hsteps m (List.mem_cons_of_mem n hm)]
      · rw [List.append_assoc]
        rfl
      · intro ms hms hne
        rw [List.append_assoc, List.singleton_append]
        exact hdirs (n :: ms) (List.cons_prefix_cons.2 ⟨rfl, hms⟩) fun heq => hne (List.cons.inj heq).2

/-- The place that names lead to, if something stands there. -/
def reach? (t : FileTree) (here : Place) (ns : List Name) : Option Place :=
  match t.follow here ns with
  | .ok place => if (t.node? place).isSome then some place else none
  | .error _ => none

/-- The directory that a scan of a place is about: the place, or the directory of a file. -/
def dirOf (t : FileTree) (place : Place) : Place :=
  match t.node? place with
  | some (.file _) => place.dropLast
  | _ => place

end FileTree

/-- The place that the names of a path start from. -/
def Disk.origin (d : Disk) (absolute : Bool) : Place :=
  if absolute then [] else d.cwd

/-- A name behind a path is looked for from where the path starts, along its steps. -/
theorem Disk.resolve_join_name (d : Disk) (p : Path) {q : Path} (hrelative : q.isAbsolute = false)
    (hpieces : Path.pieces q.bytes = [q.bytes]) (hidle : Path.isIdle q.bytes = false) :
    d.resolve (p.join q) = d.tree.follow (d.origin p.isAbsolute) (p.steps ++ [q.bytes]) := by
  obtain ⟨front, hjoin, hfront⟩ := Path.exists_pieces_join p hrelative
  rw [hpieces] at hjoin
  have hempty : (p.join q).isEmpty = false := by
    cases hbytes : (p.join q).bytes with
    | cons b bytes => simp [Path.isEmpty, hbytes]
    | nil =>
        rw [hbytes, Path.pieces_nil] at hjoin
        have hlast := congrArg List.getLast? hjoin
        simp only [List.getLast?_singleton, List.getLast?_concat, Option.some.injEq] at hlast
        rw [← hlast] at hidle
        cases hidle
  unfold Disk.resolve
  rw [hempty, if_neg (by decide), Path.isAbsolute_join p hrelative, hjoin,
    FileTree.follow_moving, hfront]
  rfl

namespace Config

/-! ## The configuration of a directory -/

theorem fileName_facts : fileName.isAbsolute = false ∧ Path.isIdle fileName.bytes = false ∧
    fileName.bytes ≠ Path.up ∧ Path.pieces fileName.bytes = [fileName.bytes] := by
  decide +kernel

/-- Whether a directory holds a configuration depends on where its path starts and on its steps. -/
theorem canonical?_join_fileName (d : Disk) (p : Path) :
    d.canonical? (p.join fileName) =
      d.tree.reach? (d.origin p.isAbsolute) (p.steps ++ [fileName.bytes]) := by
  obtain ⟨hrelative, hidle, -, hpieces⟩ := fileName_facts
  have hresolve := d.resolve_join_name p hrelative hpieces hidle
  unfold Disk.canonical? FileTree.reach?
  cases hfollow : d.tree.follow (d.origin p.isAbsolute) (p.steps ++ [fileName.bytes]) with
  | ok found => simp only [hresolve, hfollow]
  | error e => simp only [hresolve, hfollow]

/-- The steps of a path lead to a directory with a configuration. -/
def reaches (d : Disk) (absolute : Bool) (ns : List Name) : Bool :=
  (d.tree.reach? (d.origin absolute) (ns ++ [fileName.bytes])).isSome

theorem isIn_eq (d : Disk) (p : Path) : isIn d p = reaches d p.isAbsolute p.steps := by
  rw [reaches, ← canonical?_join_fileName, Bool.eq_iff_iff, isIn, Disk.has_iff_canonical?,
    Option.isSome_iff_exists]

/-- A configuration stands in a directory. -/
def HoldsConfig (t : FileTree) (dir : Place) : Prop :=
  (t.node? (dir ++ [fileName.bytes])).isSome = true

instance (t : FileTree) (dir : Place) : Decidable (HoldsConfig t dir) :=
  inferInstanceAs (Decidable (_ = true))

/-- The directory with a configuration that is nearest to `top`, among `top` and those above it up to
`floor`. -/
structure IsNearestConfig (t : FileTree) (floor top dir : Place) : Prop where
  /-- The directory is the floor or lies below it. -/
  floor_prefix : floor <+: dir
  /-- The directory is the top or lies above it. -/
  prefix_top : dir <+: top
  holds : HoldsConfig t dir
  /-- No directory in between does. -/
  nearest : ∀ other, dir <+: other → other <+: top → HoldsConfig t other → other = dir

instance (t : FileTree) (floor top dir : Place) : Decidable (IsNearestConfig t floor top dir) :=
  decidable_of_iff (floor <+: dir ∧ dir <+: top ∧ HoldsConfig t dir ∧
      ∀ other ∈ top.inits, dir <+: other → HoldsConfig t other → other = dir)
    ⟨fun ⟨hfloor, htop, hholds, hnearest⟩ => ⟨hfloor, htop, hholds, fun other hdir hother =>
        hnearest other ((List.mem_inits other top).2 hother) hdir⟩,
      fun h => ⟨h.floor_prefix, h.prefix_top, h.holds, fun other hother hdir =>
        h.nearest other hdir ((List.mem_inits other top).1 hother)⟩⟩

/-- A directory that is nearest up to a floor is so up to any floor above, and the other way round
if it does not lie above the floor. -/
theorem isNearestConfig_floor_iff {t : FileTree} {floor top dir : Place} :
    IsNearestConfig t floor top dir ↔ floor <+: dir ∧ IsNearestConfig t [] top dir :=
  ⟨fun h => ⟨h.floor_prefix, List.nil_prefix, h.prefix_top, h.holds, h.nearest⟩,
    fun ⟨hfloor, h⟩ => ⟨hfloor, h.prefix_top, h.holds, h.nearest⟩⟩

theorem IsNearestConfig.eq {t : FileTree} {floor top dir other : Place}
    (h : IsNearestConfig t floor top dir) (hother : IsNearestConfig t floor top other) :
    dir = other := by
  rcases List.prefix_or_prefix_of_prefix h.prefix_top hother.prefix_top with hle | hle
  · exact (h.nearest other hle hother.prefix_top hother.holds).symm
  · exact hother.nearest dir hle h.prefix_top h.holds

end Config

namespace CommandLine

open Config

variable {d : Disk} {p : Path} {place : Place}

/-- The place of the configuration that a scan of a path uses. -/
def configPlace? (d : Disk) (p : Path) : Option Place :=
  (Config.find? d (workDir d p)).bind d.canonical?

/-- What a path without two dots leads to and through. -/
theorem canonical?_eq_some (hup : Path.up ∉ Path.pieces p.bytes)
    (hplace : d.canonical? p = some place) :
    place = d.origin p.isAbsolute ++ p.steps ∧ d.tree.node? (d.origin p.isAbsolute) = some .dir ∧
      ∀ ms, ms <+: p.steps → ms ≠ p.steps →
        d.tree.node? (d.origin p.isAbsolute ++ ms) = some .dir := by
  obtain ⟨hresolve, -⟩ := Disk.canonical?_eq_some_iff.1 hplace
  unfold Disk.resolve at hresolve
  split at hresolve
  · cases hresolve
  · obtain ⟨heq, hstart, hdirs⟩ := FileTree.follow_eq_ok hup hresolve
    exact ⟨heq, hstart (Path.pieces_ne_nil _), hdirs⟩

theorem isFile_iff (hplace : d.canonical? p = some place) :
    d.isFile p = true ↔ ∃ content, d.tree.node? place = some (.file content) := by
  obtain ⟨node, hnode⟩ := Option.isSome_iff_exists.1 (Disk.canonical?_eq_some_iff.1 hplace).2
  have hat : d.node p = .ok node := Disk.node_eq_ok_iff.2 ⟨place, hplace, hnode⟩
  unfold Disk.isFile
  rw [hat, hnode]
  cases node <;> simp

/-- The directory of a scan starts where the path does, and its steps lead to the directory that the
scan is about. -/
theorem workDir_facts (hup : Path.up ∉ Path.pieces p.bytes)
    (hplace : d.canonical? p = some place) :
    (workDir d p).isAbsolute = p.isAbsolute ∧ (workDir d p).steps <+: p.steps ∧
      d.tree.dirOf place = d.origin p.isAbsolute ++ (workDir d p).steps ∧
      ∀ ms, ms <+: (workDir d p).steps →
        d.tree.node? (d.origin p.isAbsolute ++ ms) = some .dir := by
  obtain ⟨heq, hstart, hdirs⟩ := canonical?_eq_some hup hplace
  unfold workDir
  by_cases hfile : d.isFile p = true
  · obtain ⟨content, hnode⟩ := (isFile_iff hplace).1 hfile
    have hsteps : p.steps ≠ [] := by
      intro hnil
      rw [heq, hnil, List.append_nil, hstart] at hnode
      cases hnode
    obtain ⟨outer, hparent, houter, habsolute⟩ := Path.steps_parent? hsteps
    -- The empty path and the dot have the same steps, namely none.
    have hdir : (if outer.isEmpty then Path.ofText "." else outer).steps = p.steps.dropLast ∧
        (if outer.isEmpty then Path.ofText "." else outer).isAbsolute = p.isAbsolute := by
      by_cases hempty : outer.isEmpty = true
      · obtain rfl : outer = ⟨[]⟩ := congrArg Path.mk (List.isEmpty_iff.1 hempty)
        rw [if_pos hempty, ← houter, ← habsolute]
        decide +kernel
      · rw [if_neg hempty]
        exact ⟨houter, habsolute⟩
    rw [if_pos hfile, hparent]
    simp only
    rw [hdir.1, hdir.2]
    refine ⟨rfl, List.dropLast_prefix _, ?_, ?_⟩
    · rw [FileTree.dirOf, hnode]
      simp only
      rw [heq, List.dropLast_append_of_ne_nil hsteps]
    · intro ms hms
      refine hdirs ms (hms.trans (List.dropLast_prefix _)) ?_
      rintro rfl
      have hlength := hms.length_le
      have hpos := List.length_pos_iff.2 hsteps
      rw [List.length_dropLast] at hlength
      omega
  · obtain ⟨node, hnode⟩ := Option.isSome_iff_exists.1 (Disk.canonical?_eq_some_iff.1 hplace).2
    have hdir : d.tree.node? place = some .dir := by
      cases node with
      | dir => exact hnode
      | file content => exact absurd ((isFile_iff hplace).2 ⟨content, hnode⟩) hfile
    rw [if_neg hfile]
    refine ⟨rfl, List.prefix_rfl, ?_, ?_⟩
    · rw [FileTree.dirOf, hdir]
      exact heq
    · intro ms hms
      by_cases hall : ms = p.steps
      · rw [hall, ← heq, hdir]
      · exact hdirs ms hms hall

/-- Below directories, a configuration is reached exactly if the last of them holds it. -/
theorem reach?_fileName {here : Place} {ns : List Name}
    (hsteps : ∀ n ∈ ns, Path.isIdle n = false ∧ n ≠ Path.up)
    (hdirs : ∀ ms, ms <+: ns → d.tree.node? (here ++ ms) = some .dir) :
    d.tree.reach? here (ns ++ [fileName.bytes]) =
      if HoldsConfig d.tree (here ++ ns) then some (here ++ ns ++ [fileName.bytes]) else none := by
  obtain ⟨-, hidle, hup, -⟩ := fileName_facts
  have hfollow : d.tree.follow here (ns ++ [fileName.bytes]) =
      .ok (here ++ (ns ++ [fileName.bytes])) := by
    apply FileTree.follow_of_dirs
    · intro n hn
      rcases List.mem_append.1 hn with hn | hn
      · exact hsteps n hn
      · rw [List.mem_singleton.1 hn]
        exact ⟨hidle, hup⟩
    · intro ms hms hne
      have hfront := Path.prefix_dropLast_of_ne hms hne
      rw [List.dropLast_concat] at hfront
      exact hdirs ms hfront
  unfold FileTree.reach?
  rw [hfollow, ← List.append_assoc]
  rfl

/-- On the way outwards from the directory of a scan, a configuration is reached where a directory
holds it. -/
theorem reach?_of_prefix (hup : Path.up ∉ Path.pieces p.bytes)
    (hplace : d.canonical? p = some place) {ns : List Name}
    (hns : ns <+: (workDir d p).steps) :
    d.tree.reach? (d.origin (workDir d p).isAbsolute) (ns ++ [fileName.bytes]) =
      if HoldsConfig d.tree (d.origin p.isAbsolute ++ ns) then
        some (d.origin p.isAbsolute ++ ns ++ [fileName.bytes])
      else none := by
  obtain ⟨habsolute, hsteps, -, hdirs⟩ := workDir_facts hup hplace
  rw [habsolute]
  apply reach?_fileName
  · intro n hn
    obtain ⟨hmem, hmoves⟩ := List.mem_filter.1 ((hns.trans hsteps).subset hn)
    exact ⟨by simpa using hmoves, fun heq => hup (heq ▸ hmem)⟩
  · exact fun ms hms => hdirs ms (hms.trans hns)

/-- What the search finds stands in the nearest directory with a configuration. -/
theorem isNearestConfig_of_nearest (hup : Path.up ∉ Path.pieces p.bytes)
    (hplace : d.canonical? p = some place) {q : Path}
    (h : nearest (isIn d) (workDir d p) = some q) :
    IsNearestConfig d.tree (d.origin p.isAbsolute) (d.tree.dirOf place)
        (d.origin p.isAbsolute ++ q.steps) ∧
      d.canonical? (q.join fileName) =
        some (d.origin p.isAbsolute ++ q.steps ++ [fileName.bytes]) := by
  obtain ⟨-, -, htop, -⟩ := workDir_facts hup hplace
  obtain ⟨habsolute, hfront, hfound, hlonger⟩ := Path.find?_outward_eq_some (isIn_eq d) h
  have hreach := reach?_of_prefix hup hplace hfront
  rw [reaches, hreach, Option.isSome_ite] at hfound
  refine ⟨⟨List.prefix_append _ _, ?_, hfound, ?_⟩, ?_⟩
  · rw [htop, List.prefix_append_right_inj]
    exact hfront
  · rintro other ⟨more, rfl⟩ hother hholds
    rw [htop, List.append_assoc, List.prefix_append_right_inj] at hother
    cases more with
    | nil => rw [List.append_nil]
    | cons m more =>
        have hnone := hlonger _ hother (by simp)
        rw [reaches, reach?_of_prefix hup hplace hother, ← List.append_assoc,
          if_pos hholds] at hnone
        cases hnone
  · rw [canonical?_join_fileName, habsolute, hreach, if_pos hfound]

/-- The search finds a configuration if one of the directories holds one. -/
theorem exists_nearest_of_holds (hup : Path.up ∉ Path.pieces p.bytes)
    (hplace : d.canonical? p = some place) {dir : Place}
    (hfloor : d.origin p.isAbsolute <+: dir) (htop : dir <+: d.tree.dirOf place)
    (hholds : HoldsConfig d.tree dir) : ∃ q, nearest (isIn d) (workDir d p) = some q := by
  obtain ⟨-, -, hdir, -⟩ := workDir_facts hup hplace
  obtain ⟨ns, rfl⟩ := hfloor
  rw [hdir, List.prefix_append_right_inj] at htop
  have hpasses : reaches d (workDir d p).isAbsolute ns = true := by
    rw [reaches, reach?_of_prefix hup hplace htop, if_pos hholds]
    rfl
  exact Option.isSome_iff_exists.1 (Path.find?_outward_isSome (isIn_eq d) htop hpasses)

/-- On a path without two dots, the configuration of a scan stands in the nearest directory that holds
one, from the directory that the scan is about up to the one that the path starts from. -/
theorem configPlace?_eq_some_iff (hup : Path.up ∉ Path.pieces p.bytes)
    (hplace : d.canonical? p = some place) (file : Place) :
    configPlace? d p = some file ↔
      ∃ dir, IsNearestConfig d.tree (d.origin p.isAbsolute) (d.tree.dirOf place) dir ∧
        file = dir ++ [fileName.bytes] := by
  unfold configPlace? find?
  constructor
  · intro h
    obtain ⟨path, hpath, hfile⟩ := Option.bind_eq_some_iff.1 h
    obtain ⟨q, hq, rfl⟩ := Option.map_eq_some_iff.1 hpath
    obtain ⟨hnearest, hcanonical⟩ := isNearestConfig_of_nearest hup hplace hq
    exact ⟨_, hnearest, Option.some.inj (hfile.symm.trans hcanonical)⟩
  · rintro ⟨dir, hdir, rfl⟩
    obtain ⟨q, hq⟩ := exists_nearest_of_holds hup hplace hdir.floor_prefix hdir.prefix_top hdir.holds
    obtain ⟨hnearest, hcanonical⟩ := isNearestConfig_of_nearest hup hplace hq
    rw [hq, hdir.eq hnearest]
    exact hcanonical

/-- The configuration of a scan is loaded from its place, and without one there is nothing special. -/
theorem load_of_configPlace? (hup : Path.up ∉ Path.pieces p.bytes)
    (hplace : d.canonical? p = some place) :
    (configPlace? d p = none → Config.load d (workDir d p) none = .ok {}) ∧
      ∀ file, configPlace? d p = some file → ∃ path, d.canonical? path = some file ∧
        Config.load d (workDir d p) none = Config.loadFile d path := by
  unfold configPlace? Config.load
  simp only
  cases hfind : Config.find? d (workDir d p) with
  | none => simp
  | some path =>
      obtain ⟨q, hq, rfl⟩ := Option.map_eq_some_iff.1 hfind
      obtain ⟨-, hcanonical⟩ := isNearestConfig_of_nearest hup hplace hq
      refine ⟨fun hnone => ?_, fun file hfile => ⟨_, hfile, rfl⟩⟩
      rw [Option.bind_some, hcanonical] at hnone
      cases hnone

/-- A scan of a path without two dots loads the configuration of the nearest directory that holds one,
from the directory that the scan is about up to the one that the path starts from.  So it finds what
a search up to the root would find exactly if that does not lie above this directory; this is always
so for absolute paths, and two of them that lead to one place find the same. -/
theorem load_nearest_config (d : Disk) (p : Path) (place : Place)
    (hplace : d.canonical? p = some place) (hup : Path.up ∉ Path.pieces p.bytes) :
    (∀ file, configPlace? d p = some file ↔
      ∃ dir, IsNearestConfig d.tree (d.origin p.isAbsolute) (d.tree.dirOf place) dir ∧
        file = dir ++ [fileName.bytes]) ∧
    (configPlace? d p = none → Config.load d (workDir d p) none = .ok {}) ∧
    (∀ file, configPlace? d p = some file → ∃ path, d.canonical? path = some file ∧
      Config.load d (workDir d p) none = Config.loadFile d path) ∧
    ((∀ file, configPlace? d p = some file ↔
        ∃ dir, IsNearestConfig d.tree [] (d.tree.dirOf place) dir ∧
          file = dir ++ [fileName.bytes]) ↔
      p.isAbsolute = true ∨
        ∀ dir, IsNearestConfig d.tree [] (d.tree.dirOf place) dir → d.cwd <+: dir) ∧
    ∀ q, Path.up ∉ Path.pieces q.bytes → d.canonical? q = some place → p.isAbsolute = true →
      q.isAbsolute = true → configPlace? d q = configPlace? d p := by
  have hfile := configPlace?_eq_some_iff hup hplace
  refine ⟨hfile, (load_of_configPlace? hup hplace).1, (load_of_configPlace? hup hplace).2, ?_, ?_⟩
  · simp only [hfile]
    cases habsolute : p.isAbsolute with
    | true => simp [Disk.origin]
    | false =>
        simp only [Disk.origin, Bool.false_eq_true, if_false, false_or]
        constructor
        · intro h dir hdir
          obtain ⟨dir', hdir', heq⟩ := (h _).2 ⟨dir, hdir, rfl⟩
          obtain rfl := List.append_cancel_right heq
          exact hdir'.floor_prefix
        · intro h file
          constructor
          · rintro ⟨dir, hdir, rfl⟩
            exact ⟨dir, (isNearestConfig_floor_iff.1 hdir).2, rfl⟩
          · rintro ⟨dir, hdir, rfl⟩
            exact ⟨dir, isNearestConfig_floor_iff.2 ⟨h dir hdir, hdir⟩, rfl⟩
  · intro q hq hsame hp habsolute
    apply Option.ext
    intro file
    rw [configPlace?_eq_some_iff hq hsame, hfile, hp, habsolute]

/-- A directory `s` with a file `a`, seen from inside, and a configuration in some directory. -/
def seenFromInside (dir : Place) : Disk where
  tree := ⟨[([Utf8.ofText "s"], .dir), ([Utf8.ofText "s", Utf8.ofText "a"], .file []),
    (dir ++ [fileName.bytes], .file (Utf8.ofText "\x7b\x7d"))]⟩
  cwd := [Utf8.ofText "s"]

/-- Under its absolute path the file is scanned with the configuration above its directory. -/
theorem load_nearest_config_absolute :
    (seenFromInside []).canonical? (Path.ofText "/s/./a") =
      some [Utf8.ofText "s", Utf8.ofText "a"] ∧
    Path.up ∉ Path.pieces (Path.ofText "/s/./a").bytes ∧
    configPlace? (seenFromInside []) (Path.ofText "/s/./a") = some [fileName.bytes] ∧
    ∃ path, (seenFromInside []).canonical? path = some [fileName.bytes] ∧
      Config.load (seenFromInside []) (workDir (seenFromInside []) (Path.ofText "/s/./a")) none =
        Config.loadFile (seenFromInside []) path := by
  have hplace : (seenFromInside []).canonical? (Path.ofText "/s/./a") =
      some [Utf8.ofText "s", Utf8.ofText "a"] := by decide +kernel
  have hup : Path.up ∉ Path.pieces (Path.ofText "/s/./a").bytes := by decide +kernel
  have hnearest : IsNearestConfig (seenFromInside []).tree
      ((seenFromInside []).origin (Path.ofText "/s/./a").isAbsolute)
      ((seenFromInside []).tree.dirOf [Utf8.ofText "s", Utf8.ofText "a"]) [] := by decide +kernel
  obtain ⟨hfound, -, hload, -⟩ := load_nearest_config _ _ _ hplace hup
  have hfile := (hfound [fileName.bytes]).2 ⟨[], hnearest, rfl⟩
  exact ⟨hplace, hup, hfile, hload _ hfile⟩

/-- Under its bare name the same file is scanned without the configuration above its directory; and
two dots, which lead out of the directory, find the configuration inside. -/
theorem found_config_depends_on_spelling :
    (seenFromInside []).canonical? (Path.ofText "a") =
      (seenFromInside []).canonical? (Path.ofText "/s/a") ∧
    IsNearestConfig (seenFromInside []).tree []
      ((seenFromInside []).tree.dirOf [Utf8.ofText "s", Utf8.ofText "a"]) [] ∧
    configPlace? (seenFromInside []) (Path.ofText "a") = none ∧
    configPlace? (seenFromInside []) (Path.ofText "/s/a") = some [fileName.bytes] ∧
    (seenFromInside [Utf8.ofText "s"]).canonical? (Path.ofText "..") = some [] ∧
    ¬HoldsConfig (seenFromInside [Utf8.ofText "s"]).tree [] ∧
    configPlace? (seenFromInside [Utf8.ofText "s"]) (Path.ofText "..") =
      some [Utf8.ofText "s", fileName.bytes] := by
  decide +kernel

end CommandLine
end Neatness
