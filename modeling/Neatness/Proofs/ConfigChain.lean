import Mathlib.Data.List.Nodup
import Mathlib.Data.List.Perm.Subperm
import Neatness.Config.Load
import Neatness.Proofs.BasePaths
import Neatness.Proofs.FileTree

/-!
# Chains of configurations

A configuration file may name another one that it goes over, and that one a third.  This module
says what such a chain is without regard to how it is loaded, and that loading computes it.

* `Link` is a file of a chain that can be read, with the place where it stands.
* `Leads` follows the bases of links, each of which exists, from one path to another; which path a
  base means is said by `IsBaseOf`.
* `Fault` is what can be wrong with the file at the end, given the places that the chain has been
  through; every fault has its error.
* `stack` puts the configurations of the links over one another.
* `exists_ends` is the reason why loading ends: links on distinct places are no more than the
  entries of the tree, so the chain comes to a file that names no base, or to a fault.
* `loadFile_eq_ok_iff` and `loadFile_eq_error_iff` are the two outcomes of loading.
-/

namespace Neatness
namespace Config

/-- A file of a chain: its path, the place where it stands, and what it says. -/
structure Link where
  /-- The path under which the file is read. -/
  path : Path
  place : Place
  config : Config

/-- The disk has the file of a link. -/
structure Link.IsOn (l : Link) (d : Disk) : Prop where
  /-- The path leads to the place. -/
  place_eq : d.canonical? l.path = some l.place
  /-- The file is read as the configuration. -/
  config_eq : readFile d l.path = .ok l.config

/-- The bases of `links`, from the file at `path` on, lead to the file at `last`, which exists
unless it is the first one. -/
inductive Leads (d : Disk) : (path : Path) → (links : List Link) → (last : Path) → Prop
  /-- Nothing has been followed yet. -/
  | here (path : Path) : Leads d path [] path
  /-- A file names a base that exists, and the base leads on. -/
  | next {l : Link} {base : String} {links : List Link} {last : Path} (hon : l.IsOn d)
      (hbase : l.config.base = some base) (hhas : d.has (basePath l.path base) = true)
      (hrest : Leads d (basePath l.path base) links last) : Leads d l.path (l :: links) last

/-- The place of a path, if it has one, is not among those that a chain has been through. -/
def IsFresh (d : Disk) (seen : List Place) (path : Path) : Prop :=
  ∀ place, d.canonical? path = some place → place ∉ seen

/-- What is wrong with the file at `path`, behind files on the places `seen`. -/
inductive Fault (d : Disk) (seen : List Place) (path : Path) : ConfigError → Prop
  /-- The chain has been through the file; what it says is not looked at again. -/
  | circular {place : Place} (hplace : d.canonical? path = some place) (hseen : place ∈ seen) :
      Fault d seen path (.circular path)
  | unreadable {cause : FileError} (hfresh : IsFresh d seen path)
      (hread : d.readText path = .error cause) : Fault d seen path (.unreadable path)
  | malformed {text : String} (hfresh : IsFresh d seen path) (hread : d.readText path = .ok text)
      (hparse : parse text = none) : Fault d seen path (.malformed path)
  | baseNotFound {c : Config} {base : String} (hfresh : IsFresh d seen path)
      (hread : readFile d path = .ok c) (hbase : c.base = some base)
      (hmissing : d.has (basePath path base) = false) :
      Fault d seen path (.baseNotFound (basePath path base) path)

/-- The configurations of links over one another and over a last one; none of them names a base
any more. -/
def stack (links : List Link) (last : Config) : Config :=
  links.foldr (fun l lower => { l.config with base := none }.atop lower) last

@[simp] theorem stack_nil (last : Config) : stack [] last = last := rfl

@[simp] theorem stack_cons (l : Link) (links : List Link) (last : Config) :
    stack (l :: links) last = { l.config with base := none }.atop (stack links last) := rfl

theorem base_stack {last : Config} (h : last.base = none) (links : List Link) :
    (stack links last).base = none := by
  induction links with
  | nil => exact h
  | cons l links ih => simp [atop, ih]

/-! ## One file -/

section OneFile

variable {d : Disk} {seen : List Place} {path : Path}

theorem readFile_eq_ok_iff {c : Config} :
    readFile d path = .ok c ↔ ∃ text, d.readText path = .ok text ∧ parse text = some c := by
  unfold readFile
  cases d.readText path with
  | error cause => simp
  | ok text =>
      cases hparse : parse text with
      | none => simp [hparse]
      | some c' => simp [hparse]

/-- The place of a link holds a file. -/
theorem Link.IsOn.exists_file {l : Link} (hon : l.IsOn d) :
    ∃ content, d.tree.node? l.place = some (.file content) := by
  obtain ⟨text, htext, -⟩ := readFile_eq_ok_iff.1 hon.config_eq
  obtain ⟨place, content, hplace, hfile, -⟩ := Disk.readText_eq_ok_iff.1 htext
  have hsame : l.place = place := Option.some.inj (hon.place_eq.symm.trans hplace)
  exact ⟨content, hsame ▸ hfile⟩

/-- So the tree lists it. -/
theorem Link.IsOn.mem_places {l : Link} (hon : l.IsOn d) :
    l.place ∈ d.tree.entries.map Prod.fst := by
  obtain ⟨content, hfile⟩ := hon.exists_file
  exact FileTree.mem_places_of_file hfile

/-- The base of a link is read from the directory of its file. -/
theorem Link.IsOn.isBaseOf {l : Link} (hon : l.IsOn d) (base : String) :
    IsBaseOf d l.path l.place (Path.ofText base) (basePath l.path base) := by
  obtain ⟨content, hfile⟩ := hon.exists_file
  exact isBaseOf_basePath hon.place_eq hfile base

theorem exists_link_of_readFile {c : Config} (h : readFile d path = .ok c) :
    ∃ place, Link.IsOn ⟨path, place, c⟩ d := by
  obtain ⟨text, htext, -⟩ := readFile_eq_ok_iff.1 h
  obtain ⟨place, -, hplace, -, -⟩ := Disk.readText_eq_ok_iff.1 htext
  exact ⟨place, hplace, h⟩

/-- At a file the chain is at fault, or ends, or goes on to a base that exists. -/
theorem fault_or_link (d : Disk) (seen : List Place) (path : Path) :
    (∃ e, Fault d seen path e) ∨
      ∃ l : Link, l.path = path ∧ l.IsOn d ∧ l.place ∉ seen ∧
        (l.config.base = none ∨
          ∃ base, l.config.base = some base ∧ d.has (basePath path base) = true) := by
  by_cases hfresh : IsFresh d seen path
  · cases hread : d.readText path with
    | error cause => exact .inl ⟨_, .unreadable hfresh hread⟩
    | ok text =>
        cases hparse : parse text with
        | none => exact .inl ⟨_, .malformed hfresh hread hparse⟩
        | some c =>
            have hfile : readFile d path = .ok c := readFile_eq_ok_iff.2 ⟨text, hread, hparse⟩
            obtain ⟨place, hon⟩ := exists_link_of_readFile hfile
            have hnew : place ∉ seen := hfresh place hon.place_eq
            cases hbase : c.base with
            | none => exact .inr ⟨⟨path, place, c⟩, rfl, hon, hnew, .inl hbase⟩
            | some base =>
                cases hhas : d.has (basePath path base) with
                | false => exact .inl ⟨_, .baseNotFound hfresh hfile hbase hhas⟩
                | true =>
                    exact .inr ⟨⟨path, place, c⟩, rfl, hon, hnew, .inr ⟨base, hbase, hhas⟩⟩
  · -- The place is looked at before the file is, so its content plays no part here.
    simp only [IsFresh, Classical.not_forall, Classical.not_not] at hfresh
    obtain ⟨place, hplace, hseen⟩ := hfresh
    exact .inl ⟨_, .circular hplace hseen⟩

end OneFile

/-! ## Loading one file -/

section Loading

variable {d : Disk} {fuel : Nat} {seen : List Place} {path : Path}

/-- A link that is new to the chain and names no base is all there is to load. -/
theorem loadChain_of_last {l : Link} (hon : l.IsOn d) (hnew : l.place ∉ seen)
    (hbase : l.config.base = none) : loadChain d (fuel + 1) seen l.path = .ok l.config := by
  rw [loadChain, hon.place_eq]
  simp [hnew, hon.config_eq, hbase]

/-- A link that is new to the chain goes over what loading finds under its base. -/
theorem loadChain_of_base {l : Link} {base : String} (hon : l.IsOn d) (hnew : l.place ∉ seen)
    (hbase : l.config.base = some base) (hhas : d.has (basePath l.path base) = true) :
    loadChain d (fuel + 1) seen l.path =
      (loadChain d fuel (l.place :: seen) (basePath l.path base)).map
        fun lower => { l.config with base := none }.atop lower := by
  rw [loadChain, hon.place_eq]
  simp only [List.contains_iff_mem, hnew, if_false, hon.config_eq, hbase, hhas, if_true]
  cases loadChain d fuel (l.place :: seen) (basePath l.path base) <;> rfl

/-- Loading ends with the error of a fault, in whatever order the places have been noted. -/
theorem loadChain_of_fault {visited : List Place} {e : ConfigError} (h : Fault d seen path e)
    (hsame : ∀ place, place ∈ visited ↔ place ∈ seen) :
    loadChain d (fuel + 1) visited path = .error e := by
  cases h with
  | circular hplace hseen =>
      rw [loadChain, hplace]
      simp [hsame, hseen]
  | unreadable hfresh hread =>
      rw [loadChain]
      cases hplace : d.canonical? path with
      | none => rfl
      | some place => simp [hsame, hfresh place hplace, readFile, hread]
  | malformed hfresh hread hparse =>
      obtain ⟨place, -, hplace, -, -⟩ := Disk.readText_eq_ok_iff.1 hread
      rw [loadChain, hplace]
      simp [hsame, hfresh place hplace, readFile, hread, hparse]
  | baseNotFound hfresh hread hbase hmissing =>
      obtain ⟨place, hon⟩ := exists_link_of_readFile hread
      rw [loadChain, hon.place_eq]
      simp [hsame, hfresh place hon.place_eq, hread, hbase, hmissing]

/-- Loading goes along links on new places, and puts what it finds behind them under them.  The
places that it has been through are noted last first, hence the reversal. -/
theorem loadChain_of_leads {links : List Link} {last : Path} (h : Leads d path links last)
    (hnodup : (links.map Link.place).Nodup) (hnew : ∀ l ∈ links, l.place ∉ seen) :
    loadChain d (fuel + links.length) seen path =
      (loadChain d fuel ((links.map Link.place).reverse ++ seen) last).map (stack links) := by
  induction h generalizing seen with
  | here path =>
      show loadChain d fuel seen path = (loadChain d fuel seen path).map fun c => c
      cases loadChain d fuel seen path <;> rfl
  | @next l base links last hon hbase hhas hrest ih =>
      rw [List.map_cons, List.nodup_cons] at hnodup
      -- Behind this link its own place counts as seen, so the later links have to avoid it too.
      have hlater : ∀ k ∈ links, k.place ∉ l.place :: seen := by
        intro k hk hmem
        rcases List.mem_cons.1 hmem with hsame | hold
        · exact hnodup.1 (hsame ▸ List.mem_map_of_mem hk)
        · exact hnew k (List.mem_cons_of_mem l hk) hold
      rw [List.length_cons, ← Nat.add_assoc,
        loadChain_of_base hon (hnew l List.mem_cons_self) hbase hhas, ih hnodup.2 hlater,
        List.map_cons, List.reverse_cons, List.append_assoc, List.singleton_append]
      cases loadChain d fuel ((links.map Link.place).reverse ++ l.place :: seen) last <;> rfl

end Loading

/-! ## The end of a chain -/

theorem Leads.isOn {d : Disk} {path last : Path} {links : List Link}
    (h : Leads d path links last) : ∀ l ∈ links, l.IsOn d := by
  induction h with
  | here => simp
  | @next l base links last hon hbase hhas hrest ih =>
      intro k hk
      rcases List.mem_cons.1 hk with rfl | hk
      · exact hon
      · exact ih k hk

/-- Links on distinct places are no more than the entries of the tree. -/
theorem length_le_of_isOn {d : Disk} {links : List Link} (hon : ∀ l ∈ links, l.IsOn d)
    (hnodup : (links.map Link.place).Nodup) : links.length ≤ d.tree.entries.length := by
  have hsub : links.map Link.place ⊆ d.tree.entries.map Prod.fst := by
    intro place hplace
    obtain ⟨l, hl, rfl⟩ := List.mem_map.1 hplace
    exact (hon l hl).mem_places
  have hle := (List.subperm_of_subset hnodup hsub).length_le
  rwa [List.length_map, List.length_map] at hle

theorem nodup_places_snoc {links : List Link} {l : Link} :
    ((links ++ [l]).map Link.place).Nodup ↔
      (links.map Link.place).Nodup ∧ l.place ∉ links.map Link.place := by
  rw [List.map_append, List.map_singleton, ← List.concat_eq_append, List.nodup_concat, and_comm]

/-- The step behind the last of some links. -/
theorem Leads.snoc {d : Disk} {path : Path} {links : List Link} {l : Link} {base : String}
    (h : Leads d path links l.path) (hon : l.IsOn d) (hbase : l.config.base = some base)
    (hhas : d.has (basePath l.path base) = true) :
    Leads d path (links ++ [l]) (basePath l.path base) := by
  generalize hlast : l.path = last at h
  induction h with
  | here path =>
      subst hlast
      exact .next hon hbase hhas (.here _)
  | next hon' hbase' hhas' _ ih => exact .next hon' hbase' hhas' (ih hlast)

/-- The file at `last` ends a chain: it is at fault, or it is new and names no base. -/
inductive Ends (d : Disk) (seen : List Place) (last : Path) : Except ConfigError Config → Prop
  | fault {e : ConfigError} (h : Fault d seen last e) : Ends d seen last (.error e)
  | last {l : Link} (hpath : l.path = last) (hon : l.IsOn d) (hnew : l.place ∉ seen)
      (hbase : l.config.base = none) : Ends d seen last (.ok l.config)

/-- Following bases comes to an end: every link takes one of the entries of the tree, so the
recursion is on the entries that are left. -/
theorem exists_ends {d : Disk} {path last : Path} {links : List Link}
    (h : Leads d path links last) (hnodup : (links.map Link.place).Nodup) :
    ∃ links last result, Leads d path links last ∧ (links.map Link.place).Nodup ∧
      Ends d (links.map Link.place) last result := by
  rcases fault_or_link d (links.map Link.place) last with
    ⟨e, hfault⟩ | ⟨l, rfl, hon, hnew, hbase | ⟨base, hbase, hhas⟩⟩
  · exact ⟨links, last, .error e, h, hnodup, .fault hfault⟩
  · exact ⟨links, l.path, .ok l.config, h, hnodup, .last rfl hon hnew hbase⟩
  · -- One more link stands on a place of its own, so one entry less is left.
    have hleads := h.snoc hon hbase hhas
    have hnodup' := nodup_places_snoc.2 ⟨hnodup, hnew⟩
    have hle : links.length + 1 ≤ d.tree.entries.length := by
      simpa using length_le_of_isOn hleads.isOn hnodup'
    exact exists_ends hleads hnodup'
termination_by d.tree.entries.length - links.length
decreasing_by
  rw [List.length_append, List.length_singleton]
  omega

/-- The end of a chain decides what loading its first file gives. -/
theorem loadFile_of_ends {d : Disk} {start last : Path} {links : List Link}
    {result : Except ConfigError Config} (h : Leads d start links last)
    (hnodup : (links.map Link.place).Nodup) (hends : Ends d (links.map Link.place) last result) :
    loadFile d start = result.map (stack links) := by
  have hle := length_le_of_isOn h.isOn hnodup
  -- One unit of fuel is left for the last file.
  obtain ⟨spare, hspare⟩ : ∃ spare, d.tree.entries.length + 1 = spare + 1 + links.length :=
    ⟨d.tree.entries.length - links.length, by omega⟩
  rw [loadFile, hspare, loadChain_of_leads h hnodup (by simp), List.append_nil]
  cases hends with
  | fault hfault => rw [loadChain_of_fault hfault (by simp)]
  | last hpath hon hnew hbase =>
      rw [← hpath, loadChain_of_last hon (by simpa using hnew) hbase]

/-- Loading a file gives what the end of its chain decides. -/
theorem loadFile_eq_iff {d : Disk} {start : Path} {result : Except ConfigError Config} :
    loadFile d start = result ↔
      ∃ links last found, Leads d start links last ∧ (links.map Link.place).Nodup ∧
        Ends d (links.map Link.place) last found ∧ result = found.map (stack links) := by
  constructor
  · rintro rfl
    obtain ⟨links, last, found, hleads, hnodup, hends⟩ :=
      exists_ends (Leads.here (d := d) start) .nil
    exact ⟨links, last, found, hleads, hnodup, hends, loadFile_of_ends hleads hnodup hends⟩
  · rintro ⟨links, last, found, hleads, hnodup, hends, rfl⟩
    exact loadFile_of_ends hleads hnodup hends

/-- A file is loaded exactly if its chain ends in a file without a base, on distinct places. -/
theorem loadFile_eq_ok_iff {d : Disk} {start : Path} {c : Config} :
    loadFile d start = .ok c ↔
      ∃ links last, Leads d start links last.path ∧ last.IsOn d ∧ last.config.base = none ∧
        ((links ++ [last]).map Link.place).Nodup ∧ c = stack links last.config := by
  rw [loadFile_eq_iff]
  constructor
  · rintro ⟨links, last, found, hleads, hnodup, hends, heq⟩
    cases hends with
    | fault hfault => cases heq
    | @last l hpath hon hnew hbase =>
        subst hpath
        exact ⟨links, l, hleads, hon, hbase, nodup_places_snoc.2 ⟨hnodup, hnew⟩,
          Except.ok.inj heq⟩
  · rintro ⟨links, last, hleads, hon, hbase, hnodup, rfl⟩
    obtain ⟨hnodup, hnew⟩ := nodup_places_snoc.1 hnodup
    exact ⟨links, last.path, .ok last.config, hleads, hnodup, .last rfl hon hnew hbase, rfl⟩

/-- Loading fails exactly if the chain comes to a file that is at fault, behind files on distinct
places. -/
theorem loadFile_eq_error_iff {d : Disk} {start : Path} {e : ConfigError} :
    loadFile d start = .error e ↔
      ∃ links last, Leads d start links last ∧ (links.map Link.place).Nodup ∧
        Fault d (links.map Link.place) last e := by
  rw [loadFile_eq_iff]
  constructor
  · rintro ⟨links, last, found, hleads, hnodup, hends, heq⟩
    cases hends with
    | @fault e' hfault =>
        have hsame : e = e' := Except.error.inj heq
        exact ⟨links, last, hleads, hnodup, hsame ▸ hfault⟩
    | last hpath hon hnew hbase => cases heq
  · rintro ⟨links, last, hleads, hnodup, hfault⟩
    exact ⟨links, last, .error e, hleads, hnodup, .fault hfault, rfl⟩

/-- Loading a configuration file gives a configuration exactly if its chain comes to a file without
a base, through files that exist and can be read, on distinct places; the result is the stack of
the chain, and names no base.  Otherwise it gives the error of the first file that is at fault.  The
base of a file is looked for from the directory of that file, and under a name with an extension.
No chain is longer than the tree has entries. -/
theorem loadFile_iff_chain (d : Disk) (start : Path) :
    (∀ c, loadFile d start = .ok c ↔
      ∃ links last, Leads d start links last.path ∧ last.IsOn d ∧ last.config.base = none ∧
        ((links ++ [last]).map Link.place).Nodup ∧ c = stack links last.config) ∧
    (∀ c, loadFile d start = .ok c → c.base = none) ∧
    (∀ e, loadFile d start = .error e ↔
      ∃ links last, Leads d start links last ∧ (links.map Link.place).Nodup ∧
        Fault d (links.map Link.place) last e) ∧
    (∀ l : Link, l.IsOn d → ∀ base,
      IsBaseOf d l.path l.place (Path.ofText base) (basePath l.path base)) ∧
    (∀ links last, Leads d start links last → (links.map Link.place).Nodup →
      links.length ≤ d.tree.entries.length) := by
  refine ⟨fun _ => loadFile_eq_ok_iff, ?_, fun _ => loadFile_eq_error_iff,
    fun _ hon => hon.isBaseOf, ?_⟩
  · intro c hok
    obtain ⟨links, last, -, -, hbase, -, rfl⟩ := loadFile_eq_ok_iff.1 hok
    exact base_stack hbase links
  · intro links last hleads hnodup
    exact length_le_of_isOn hleads.isOn hnodup

/-- Two folders with files that go over files of the other one, of their own, and over themselves
by another spelling. -/
def twoFolders : Disk where
  tree := ⟨[([Utf8.ofText "p"], .dir), ([Utf8.ofText "q"], .dir),
    ([Utf8.ofText "p", Utf8.ofText "a.json"], .file (Utf8.ofText "\x7b\"extends\": \"../q/b\"\x7d")),
    ([Utf8.ofText "q", Utf8.ofText "b.json"], .file (Utf8.ofText "\x7b\"extends\": \"c.txt\"\x7d")),
    ([Utf8.ofText "q", Utf8.ofText "c.txt"], .file (Utf8.ofText "\x7b\"threshold\": 60\x7d")),
    ([Utf8.ofText "q", Utf8.ofText "d.json"],
      .file (Utf8.ofText "\x7b\"extends\": \"../p/.././q/d\"\x7d"))]⟩

/-- The first file has a chain through both folders, which is short enough; the chain of the last
one comes back. -/
theorem loadFile_twoFolders :
    ({ threshold := some 60 } : Config).base = none ∧
    (∃ links last, Leads twoFolders (Path.ofText "p/a.json") links last.path ∧
      last.IsOn twoFolders ∧ last.config.base = none ∧
      ((links ++ [last]).map Link.place).Nodup ∧
      { threshold := some 60 } = stack links last.config ∧ links.length ≤ 6) ∧
    (basePath (Path.ofText "p/a.json") "../q/b").steps =
      ["p", "..", "q", "b.json"].map Utf8.ofText ∧
    twoFolders.tree.follow [Utf8.ofText "p"] (["..", "q", "b.json"].map Utf8.ofText) =
      .ok (["q", "b.json"].map Utf8.ofText) ∧
    ∃ links last, Leads twoFolders (Path.ofText "q/d.json") links last ∧
      (links.map Link.place).Nodup ∧
      Fault twoFolders (links.map Link.place) last
        (.circular (Path.ofText "q/../p/.././q/d.json")) := by
  have hload : loadFile twoFolders (Path.ofText "p/a.json") = .ok { threshold := some 60 } := rfl
  have hcircular : loadFile twoFolders (Path.ofText "q/d.json") =
      .error (.circular (Path.ofText "q/../p/.././q/d.json")) := rfl
  have hfirst : Link.IsOn ⟨Path.ofText "p/a.json", ["p", "a.json"].map Utf8.ofText,
      { base := some "../q/b" }⟩ twoFolders := ⟨rfl, rfl⟩
  obtain ⟨hok, hbase, -, hbases, hlength⟩ := loadFile_iff_chain twoFolders (Path.ofText "p/a.json")
  obtain ⟨links, last, hleads, hon, hlast, hnodup, hstack⟩ := (hok _).1 hload
  have hle := hlength links last.path hleads (nodup_places_snoc.1 hnodup).1
  have hsecond := hbases _ hfirst "../q/b"
  exact ⟨hbase _ hload, ⟨links, last, hleads, hon, hlast, hnodup, hstack, hle⟩,
    hsecond.steps_eq, hsecond.follow_eq _ (by decide) (by decide) rfl,
    ((loadFile_iff_chain twoFolders (Path.ofText "q/d.json")).2.2.1 _).1 hcircular⟩

end Config
end Neatness
