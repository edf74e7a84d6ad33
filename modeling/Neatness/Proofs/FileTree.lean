import Neatness.FileTree

/-!
# Questions to a disk

`Disk.canonical?` gives every path to something that exists the place where it stands, whatever its
spelling.  The other questions to a disk are questions to that place: `node_eq_ok_iff`,
`has_iff_canonical?` and `readText_eq_ok_iff` say so.  What stands on a place is listed in the tree
(`FileTree.mem_places_of_file`), and so is what stands below it (`FileTree.mem_filesBelow_iff`).
-/

namespace Neatness

/-- Bytes stand for a text exactly if they are the bytes of that text. -/
theorem Utf8.toText?_eq_some_iff {bytes : List UInt8} {text : String} :
    Utf8.toText? bytes = some text ↔ Utf8.ofText text = bytes := by
  unfold Utf8.toText? Utf8.ofText String.fromUTF8?
  constructor
  · intro h
    split at h
    · next hvalid =>
      cases h
      rfl
    · cases h
  · rintro rfl
    exact dif_pos text.isValidUTF8

/-- What stands on a place other than the root is listed. -/
theorem FileTree.mem_entries_of_node? {t : FileTree} {place : Place} {n : Node}
    (hroot : place ≠ []) (h : t.node? place = some n) : (place, n) ∈ t.entries := by
  rw [FileTree.node?, if_neg hroot] at h
  obtain ⟨entry, hfind, rfl⟩ := Option.map_eq_some_iff.1 h
  have hplace : entry.1 = place := by simpa using List.find?_some hfind
  subst hplace
  exact List.mem_of_find?_eq_some hfind

/-- A file does not stand on the root. -/
theorem FileTree.ne_nil_of_file {t : FileTree} {place : Place} {content : List UInt8}
    (h : t.node? place = some (.file content)) : place ≠ [] := by
  rintro rfl
  simp [FileTree.node?] at h

/-- A file stands on one of the listed places. -/
theorem FileTree.mem_places_of_file {t : FileTree} {place : Place} {content : List UInt8}
    (h : t.node? place = some (.file content)) : place ∈ t.entries.map Prod.fst :=
  List.mem_map_of_mem (f := Prod.fst) (mem_entries_of_node? (ne_nil_of_file h) h)

/-- The files below a directory are those that some names lead to from there. -/
theorem FileTree.mem_filesBelow_iff {t : FileTree} {top : Place} {names : List Name} :
    names ∈ t.filesBelow top ↔ ∃ content, (top ++ names, Node.file content) ∈ t.entries := by
  unfold FileTree.filesBelow
  rw [List.mem_filterMap]
  constructor
  · rintro ⟨⟨place, node⟩, hmem, hnames⟩
    cases node with
    | dir => simp at hnames
    | file content =>
        simp only [Option.ite_none_right_eq_some, Option.some.injEq] at hnames
        obtain ⟨hbelow, rfl⟩ := hnames
        obtain ⟨rest, rfl⟩ := List.isPrefixOf_iff_prefix.1 hbelow
        rw [List.drop_left]
        exact ⟨content, hmem⟩
  · rintro ⟨content, hmem⟩
    refine ⟨_, hmem, ?_⟩
    have hbelow : FileTree.isBelow top (top ++ names) = true :=
      List.isPrefixOf_iff_prefix.2 (List.prefix_append top names)
    simp [hbelow]

namespace Disk

variable {d : Disk} {p : Path} {place : Place}

/-- The place of a path is the one that its names lead to, if something stands there. -/
theorem canonical?_eq_some_iff :
    d.canonical? p = some place ↔
      d.resolve p = .ok place ∧ (d.tree.node? place).isSome = true := by
  unfold canonical?
  cases hresolve : d.resolve p with
  | error e => simp
  | ok found =>
      simp only [Option.ite_none_right_eq_some, Option.some.injEq, Except.ok.injEq]
      constructor
      · rintro ⟨hsome, rfl⟩
        exact ⟨rfl, hsome⟩
      · rintro ⟨rfl, hsome⟩
        exact ⟨hsome, rfl⟩

/-- What stands at a path is what stands on its place. -/
theorem node_eq_ok_iff {n : Node} :
    d.node p = .ok n ↔ ∃ place, d.canonical? p = some place ∧ d.tree.node? place = some n := by
  simp only [canonical?_eq_some_iff]
  unfold node
  cases hresolve : d.resolve p with
  | error e => simp [bind, Except.bind]
  | ok found =>
      simp only [bind, Except.bind, Except.ok.injEq]
      cases hnode : d.tree.node? found with
      | none =>
          simp only [reduceCtorEq, false_iff, not_exists]
          rintro place ⟨⟨rfl, -⟩, hn⟩
          rw [hnode] at hn
          cases hn
      | some m =>
          simp only [Except.ok.injEq]
          constructor
          · rintro rfl
            exact ⟨found, ⟨rfl, by simp [hnode]⟩, hnode⟩
          · rintro ⟨place, ⟨rfl, -⟩, hn⟩
            exact Option.some.inj (hnode.symm.trans hn)

/-- Something stands at a path exactly if the path has a place. -/
theorem has_iff_canonical? : d.has p = true ↔ ∃ place, d.canonical? p = some place := by
  constructor
  · intro h
    unfold has at h
    cases hnode : d.node p with
    | error e => simp [hnode] at h
    | ok n =>
        obtain ⟨place, hplace, -⟩ := node_eq_ok_iff.1 hnode
        exact ⟨place, hplace⟩
  · rintro ⟨place, hplace⟩
    obtain ⟨n, hn⟩ := Option.isSome_iff_exists.1 (canonical?_eq_some_iff.1 hplace).2
    have hnode : d.node p = .ok n := node_eq_ok_iff.2 ⟨place, hplace, hn⟩
    simp [has, hnode]

/-- A path has a text exactly if a file with the bytes of that text stands on its place. -/
theorem readText_eq_ok_iff {text : String} :
    d.readText p = .ok text ↔ ∃ place content, d.canonical? p = some place ∧
      d.tree.node? place = some (.file content) ∧ Utf8.toText? content = some text := by
  have hnode : (∃ place content, d.canonical? p = some place ∧
      d.tree.node? place = some (.file content) ∧ Utf8.toText? content = some text) ↔
      ∃ content, d.node p = .ok (.file content) ∧ Utf8.toText? content = some text := by
    simp only [node_eq_ok_iff]
    constructor
    · rintro ⟨place, content, hplace, hfile, htext⟩
      exact ⟨content, ⟨place, hplace, hfile⟩, htext⟩
    · rintro ⟨content, ⟨place, hplace, hfile⟩, htext⟩
      exact ⟨place, content, hplace, hfile, htext⟩
  rw [hnode]
  unfold readText
  cases d.node p with
  | error e => simp [bind, Except.bind]
  | ok n =>
      cases n with
      | dir => simp [bind, Except.bind]
      | file content =>
          simp only [bind, Except.bind, Except.ok.injEq, Node.file.injEq, exists_eq_left']
          cases Utf8.toText? content <;> simp

theorem has_eq_isFile_or_isDir (d : Disk) (p : Path) :
    d.has p = (d.isFile p || d.isDir p) := by
  unfold has isFile isDir
  cases d.node p with
  | error e => rfl
  | ok n => cases n <;> rfl

theorem isDir_eq_false_of_isFile (h : d.isFile p = true) : d.isDir p = false := by
  unfold isFile at h
  unfold isDir
  cases hnode : d.node p with
  | error e => rfl
  | ok n =>
      cases n with
      | file content => rfl
      | dir => simp [hnode] at h

end Disk
end Neatness
