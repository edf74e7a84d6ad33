import Mathlib.Data.List.ModifyLast
import Neatness.Proofs.Spelling

/-!
# Where the base of a configuration is

A configuration names the one below it by a path that is read from its own directory.  A last name
without an extension gets one; two dots at the end stay as they are.

* `Path.exists_front_of_body` cuts a path in front of its last name, and
  `Path.steps_withExtension` says what another extension does to the steps.
* `Config.IsBaseOf` says in the steps of the two paths, and in the places that they lead to, which
  path is meant; `Config.isBaseOf_basePath` is the path that is computed.
-/

namespace Neatness

namespace Path

/-! ## In front of the last name -/

theorem unpieces_concat {ns : List Name} (h : ns ≠ []) (m : Name) :
    unpieces (ns ++ [m]) = unpieces ns ++ slash :: m := by
  induction ns with
  | nil => exact absurd rfl h
  | cons n ns ih =>
      cases ns with
      | nil => simp [unpieces]
      | cons next ns =>
          have hlater := ih (by simp)
          simp only [unpieces, List.cons_append, List.intercalate_cons_cons] at hlater ⊢
          rw [hlater, List.append_assoc, List.append_assoc, List.append_assoc]

theorem unpieces_concat_append (ns : List Name) (m more : Name) :
    unpieces (ns ++ [m ++ more]) = unpieces (ns ++ [m]) ++ more := by
  by_cases h : ns = []
  · subst h
    simp [unpieces]
  · rw [unpieces_concat h, unpieces_concat h, List.append_assoc, List.cons_append]

theorem isAbsolute_iff_pieces {p : Path} :
    p.isAbsolute = true ↔ ∃ n ns, pieces p.bytes = [] :: n :: ns := by
  constructor
  · intro h
    obtain ⟨b, rest, hbytes⟩ : ∃ b rest, p.bytes = b :: rest := by
      cases hbytes : p.bytes with
      | nil => simp [isAbsolute, hbytes] at h
      | cons b rest => exact ⟨b, rest, rfl⟩
    obtain rfl : b = slash := by simpa [isAbsolute, hbytes] using h
    cases hrest : pieces rest with
    | nil => exact absurd hrest (pieces_ne_nil rest)
    | cons n ns => exact ⟨n, ns, by rw [hbytes, pieces_slash_cons, hrest]⟩
  · rintro ⟨n, ns, h⟩
    have hbytes := unpieces_pieces p.bytes
    rw [h, unpieces, List.intercalate_cons_cons] at hbytes
    simp [isAbsolute, ← hbytes]

/-- The last name of a path may be exchanged: what stands in front of it stays, and leads to where
the outer path leads. -/
theorem exists_front_of_body {p : Path} {n : Name} (h : p.body.getLast? = some n) :
    slash ∉ n ∧ ∃ front, moving front = p.steps.dropLast ∧
      (∀ m, slash ∉ m →
        pieces (p.start ++ unpieces (p.body.dropLast ++ [m])) = front ++ [m]) ∧
      isAbsolute ⟨p.start ++ unpieces (p.body.dropLast ++ [n])⟩ = p.isAbsolute := by
  obtain ⟨outer, hbody⟩ := List.getLast?_eq_some_iff.1 h
  have hreverse : p.body.reverse = n :: outer.reverse := by
    rw [hbody, List.reverse_append]
    rfl
  have hidle := isIdle_of_body hreverse
  have hfirst : p.body <+: pieces (p.bytes.drop p.start.length) := trimmed_isPrefix _
  have hslash : slash ∉ n := slash_not_mem_of_mem_pieces (hfirst.subset (by simp [hbody]))
  obtain ⟨hsteps, habsolute⟩ := steps_start_append hfirst fun m hm => by
    rw [h] at hm
    rwa [← Option.some.inj hm]
  rw [← steps_eq_moving_body, hbody] at hsteps
  rw [hbody] at habsolute
  rw [hbody, List.dropLast_concat]
  suffices hfront : ∃ front, ∀ m, slash ∉ m →
      pieces (p.start ++ unpieces (outer ++ [m])) = front ++ [m] by
    obtain ⟨front, hfront⟩ := hfront
    refine ⟨hslash, front, ?_, hfront, habsolute⟩
    rw [← hsteps, steps, hfront n hslash, moving_append, moving_cons hidle, moving_nil,
      List.dropLast_concat]
  by_cases houter : outer = []
  · subst houter
    rcases start_cases p with ⟨rest, -, hstart⟩ | ⟨rest, ns, hbytes, hstart, hrest⟩ | ⟨hstart, -⟩
    · refine ⟨[[]], fun m hm => ?_⟩
      rw [hstart]
      simpa [unpieces] using pieces_of_slash_not_mem hm
    · -- Behind a leading dot the body begins with an empty piece, so it has more than one.
      rw [hbytes, hstart, hbody] at hfirst
      obtain ⟨later, hlater⟩ := hfirst
      have hsame : n :: later = [] :: ns := hlater.trans hrest
      rw [(List.cons.inj hsame).1] at hidle
      cases hidle
    · refine ⟨[], fun m hm => ?_⟩
      rw [hstart]
      simpa [unpieces] using pieces_of_slash_not_mem hm
  · refine ⟨pieces (p.start ++ unpieces outer), fun m hm => ?_⟩
    rw [unpieces_concat houter, ← List.append_assoc, pieces_append_slash,
      pieces_of_slash_not_mem hm]

/-! ## Extensions -/

/-- A name without a dot, or with none but its first character, is its own stem; any other name
has an extension. -/
theorem splitExtension_cases (n : Name) :
    dot ∉ n.tail ∧ splitExtension n = (n, none) ∨
      dot ∈ n.tail ∧ ∃ extension, (splitExtension n).2 = some extension := by
  have hn : n = (n.reverse.dropWhile (· != dot)).reverse ++
      (n.reverse.takeWhile (· != dot)).reverse := by
    rw [← List.reverse_append, List.takeWhile_append_dropWhile, List.reverse_reverse]
  have hbehind : dot ∉ (n.reverse.takeWhile (· != dot)).reverse := by
    intro hmem
    have hall := List.all_eq_true.1 (List.all_takeWhile (p := (· != dot)) (l := n.reverse))
    simpa using hall dot (List.mem_reverse.1 hmem)
  unfold splitExtension
  split
  · rename_i hnone
    rw [hnone, List.reverse_nil, List.nil_append] at hn
    refine .inl ⟨fun hmem => hbehind ?_, rfl⟩
    rw [← hn]
    exact List.mem_of_mem_tail hmem
  · rename_i b hone
    rw [hone] at hn
    refine .inl ⟨fun hmem => hbehind ?_, rfl⟩
    rw [hn] at hmem
    exact hmem
  · rename_i b stem hstem hmore
    have hb : b = dot := by
      have hhead := List.head?_dropWhile_not (· != dot) n.reverse
      rw [hmore] at hhead
      simpa using hhead
    rw [hmore, List.reverse_cons, List.append_assoc] at hn
    refine .inr ⟨?_, _, rfl⟩
    rw [hn, List.tail_append_of_ne_nil (by simpa using hstem), hb]
    simp

/-- The last name of a path without an extension gets one. -/
theorem steps_withExtension {p : Path} {n extension : Name} (h : p.fileName? = some n)
    (hplain : splitExtension n = (n, none)) (hslash : slash ∉ extension)
    (hne : extension ≠ []) :
    (p.withExtension extension).steps = p.steps.dropLast ++ [n ++ dot :: extension] ∧
      (p.withExtension extension).isAbsolute = p.isAbsolute := by
  have hlast : p.body.getLast? = some n := by
    rw [body_getLast?]
    exact (fileName?_eq_some_iff.1 h).1
  obtain ⟨hname, front, hfront, hpieces, habsolute⟩ := exists_front_of_body hlast
  have hlonger : slash ∉ n ++ dot :: extension := by
    simpa [hname, hslash] using show slash ≠ dot by decide
  have hidle : isIdle (n ++ dot :: extension) = false := by
    simp [isIdle, List.append_eq_cons_iff, hne]
  have hbytes : (p.withExtension extension).bytes =
      p.start ++ unpieces (p.body.dropLast ++ [n ++ dot :: extension]) := by
    simp only [withExtension, h, hplain, unpieces_concat_append, List.append_assoc]
  constructor
  · rw [steps, hbytes, hpieces _ hlonger, moving_append, hfront, moving_cons hidle, moving_nil]
  · -- Whether a path is absolute is told by its first two pieces, and only the last one is new.
    have hstart : ∀ m : Name, (∃ k ns, front ++ [m] = [] :: k :: ns) ↔ front.head? = some [] := by
      intro m
      rcases front with _ | ⟨first, _ | ⟨second, later⟩⟩ <;> simp
    rw [← habsolute, Bool.eq_iff_iff, isAbsolute_iff_pieces, isAbsolute_iff_pieces, hbytes,
      hpieces _ hlonger, hpieces _ hname, hstart, hstart]

end Path

/-! ## Files -/

namespace Disk

variable {d : Disk} {p : Path} {place : Place}

/-- A path to a file has steps: idle pieces lead to directories only. -/
theorem steps_ne_nil_of_file {content : List UInt8} (h : d.canonical? p = some place)
    (hfile : d.tree.node? place = some (.file content)) : p.steps ≠ [] := by
  obtain ⟨-, hfollow⟩ := resolve_eq_ok (canonical?_eq_some_iff.1 h).1
  intro hnil
  have hhere := FileTree.follow_moving_eq_ok hfollow
  rw [← Path.steps, hnil, FileTree.follow] at hhere
  obtain ⟨n, ns, hpieces⟩ := List.exists_cons_of_ne_nil (Path.pieces_ne_nil p.bytes)
  rw [hpieces, FileTree.follow_cons_eq_ok_iff, Except.ok.inj hhere, hfile] at hfollow
  cases hfollow.1

/-- A path that ends in a name leads through the directory in which its place is. -/
theorem follow_dropLast {n : Name} (h : d.canonical? p = some place) (hname : p.fileName? = some n) :
    d.tree.follow (d.origin p.isAbsolute) p.steps.dropLast = .ok place.dropLast := by
  obtain ⟨hlast, hup⟩ := Path.fileName?_eq_some_iff.1 hname
  obtain ⟨front, hsteps⟩ := List.getLast?_eq_some_iff.1 hlast
  have hidle : Path.isIdle n = false := by
    have hmem : n ∈ Path.moving (Path.pieces p.bytes) := by
      rw [← Path.steps, hsteps]
      simp
    simpa using (List.mem_filter.1 hmem).2
  have hfollow := FileTree.follow_moving_eq_ok (resolve_eq_ok (canonical?_eq_some_iff.1 h).1).2
  rw [← Path.steps, hsteps, FileTree.follow_append] at hfollow
  obtain ⟨dir, hdir, hend⟩ := hfollow
  obtain ⟨-, hplace⟩ := FileTree.follow_cons_eq_ok_iff.1 hend
  rw [hidle, if_neg (by decide), if_neg hup, FileTree.follow] at hplace
  rw [hsteps, ← Except.ok.inj hplace, List.dropLast_concat, List.dropLast_concat, hdir]

end Disk

namespace Config

/-! ## The path of a base -/

/-- A name with `.json` behind it, unless it has an extension. -/
def withJson (n : Name) : Name :=
  if Path.dot ∈ n.tail then n else n ++ Utf8.ofText ".json"

/-- Two dots are no name, and keep their form. -/
theorem modifyLast_withJson_of_no_name {p : Path} (h : p.fileName? = none) :
    p.steps.modifyLast withJson = p.steps := by
  cases hlast : p.steps.getLast? with
  | none =>
      rw [List.getLast?_eq_none_iff.1 hlast]
      rfl
  | some n =>
      have hup : n = Path.up := by
        by_contra hup
        have hn := Path.fileName?_eq_some_iff.2 ⟨hlast, hup⟩
        rw [h] at hn
        cases hn
      obtain ⟨front, hsteps⟩ := List.getLast?_eq_some_iff.1 hlast
      rw [hsteps, List.modifyLast_concat, hup]
      rfl

/-- The last step gets the extension that it lacks. -/
theorem steps_addJson (p : Path) :
    (if p.extension?.isNone then p.withExtension (Utf8.ofText "json") else p).steps =
        p.steps.modifyLast withJson ∧
      (if p.extension?.isNone then p.withExtension (Utf8.ofText "json") else p).isAbsolute =
        p.isAbsolute := by
  cases hname : p.fileName? with
  | none =>
      have hsame : p.withExtension (Utf8.ofText "json") = p := by simp [Path.withExtension, hname]
      rw [hsame, ite_self, modifyLast_withJson_of_no_name hname]
      exact ⟨rfl, rfl⟩
  | some n =>
      obtain ⟨hlast, -⟩ := Path.fileName?_eq_some_iff.1 hname
      obtain ⟨front, hsteps⟩ := List.getLast?_eq_some_iff.1 hlast
      rw [Path.extension?, hname, Option.bind_some, hsteps, List.modifyLast_concat]
      rcases Path.splitExtension_cases n with ⟨hdot, hplain⟩ | ⟨hdot, extension, hextension⟩
      · have hslash : Path.slash ∉ Utf8.ofText "json" := by decide
        obtain ⟨hwith, habsolute⟩ := Path.steps_withExtension hname hplain hslash (by decide)
        rw [hplain, if_pos (by rfl), hwith, habsolute, hsteps, List.dropLast_concat, withJson,
          if_neg hdot]
        exact ⟨rfl, rfl⟩
      · rw [hextension, if_neg (by simp), hsteps, withJson, if_pos hdot]
        exact ⟨rfl, rfl⟩

/-- `next` is the path that `base` means in the file at `referrer`, which stands on `file`. -/
structure IsBaseOf (d : Disk) (referrer : Path) (file : Place) (base next : Path) : Prop where
  isAbsolute_eq : next.isAbsolute = (base.isAbsolute || referrer.isAbsolute)
  /-- The steps of the base come behind those of the directory. -/
  steps_eq : next.steps = (if base.isAbsolute then base.steps
    else referrer.steps.dropLast ++ base.steps).modifyLast withJson
  /-- They lead on from the directory in which the file stands. -/
  follow_eq : ∀ place, base.steps ≠ [] → referrer.fileName? ≠ none →
    d.canonical? next = some place →
    d.tree.follow (if base.isAbsolute then [] else file.dropLast) (base.steps.modifyLast withJson) =
      .ok place

theorem steps_basePath {referrer : Path} (h : referrer.steps ≠ []) (base : String) :
    (basePath referrer base).isAbsolute =
        ((Path.ofText base).isAbsolute || referrer.isAbsolute) ∧
      (basePath referrer base).steps = (if (Path.ofText base).isAbsolute then (Path.ofText base).steps
        else referrer.steps.dropLast ++ (Path.ofText base).steps).modifyLast withJson := by
  obtain ⟨dir, hparent, hsteps, habsolute⟩ := Path.steps_parent? h
  unfold basePath
  rw [hparent, Option.getD_some]
  obtain ⟨hadded, hsame⟩ := steps_addJson (dir.join (Path.ofText base))
  cases hbase : (Path.ofText base).isAbsolute with
  | true =>
      rw [Path.join_of_isAbsolute dir hbase] at hadded hsame ⊢
      exact ⟨hsame.trans hbase, hadded⟩
  | false =>
      rw [Path.isAbsolute_join dir hbase, habsolute] at hsame
      rw [Path.steps_join dir hbase, hsteps] at hadded
      exact ⟨hsame, hadded⟩

/-- The path that is computed for a base is the one that is meant. -/
theorem isBaseOf_basePath {d : Disk} {referrer : Path} {file : Place} {content : List UInt8}
    (hplace : d.canonical? referrer = some file)
    (hfile : d.tree.node? file = some (.file content)) (base : String) :
    IsBaseOf d referrer file (Path.ofText base) (basePath referrer base) := by
  obtain ⟨habsolute, hsteps⟩ := steps_basePath (Disk.steps_ne_nil_of_file hplace hfile) base
  refine ⟨habsolute, hsteps, fun place hbase hname hnext => ?_⟩
  have hfollow := FileTree.follow_moving_eq_ok
    (Disk.resolve_eq_ok (Disk.canonical?_eq_some_iff.1 hnext).1).2
  rw [← Path.steps, hsteps, habsolute] at hfollow
  cases hroot : (Path.ofText base).isAbsolute with
  | true => simpa [hroot, Disk.origin] using hfollow
  | false =>
      obtain ⟨n, hn⟩ := Option.ne_none_iff_exists'.1 hname
      rw [hroot, if_neg (by decide), List.modifyLast_append_of_right_ne_nil _ _ _ hbase,
        Bool.false_or, FileTree.follow_append, Disk.follow_dropLast hplace hn] at hfollow
      obtain ⟨dir, hdir, hrest⟩ := hfollow
      rwa [if_neg (by decide), Except.ok.inj hdir]

end Config
end Neatness
