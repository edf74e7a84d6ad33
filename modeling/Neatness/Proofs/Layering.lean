import Mathlib.Data.List.Perm.Basic
import Neatness.Proofs.ConfigChain
import Neatness.Proofs.Layers

/-!
# Configurations over one another

Putting one configuration over another is associative, and the configuration that says nothing
changes nothing, above or below.  So a chain of configurations has one outcome, whichever two
neighbours are put together first and however many configurations that say nothing stand in
between.

* `RuleMap.get?_atop` says which setting of two layers counts, and `RuleMap.eq_of_get?` that the
  settings under all names are all there is to a layer.
* `Layering` is a way to put several configurations together, two at a time, and `Layering.said` are
  those of them that say something, in order.
* `Layering.merged_eq_foldr` and `merged_eq_of_said_eq` are the reason why only these count.
* `loadFile_of_said_eq` brings this to chains of files.
-/

namespace Neatness

namespace RuleMap

/-! ## The settings of a layer -/

theorem lookup_insertInto (name key : String) (s : RuleSetting)
    (l : List (String × RuleSetting)) :
    (insertInto name s l).lookup key = if key = name then some s else l.lookup key := by
  induction l with
  | nil =>
      by_cases hkey : key = name
      · simp [insertInto, hkey]
      · simp [insertInto, hkey, List.lookup_cons, beq_false_of_ne hkey]
  | cons head rest ih =>
      obtain ⟨other, t⟩ := head
      rw [insertInto]
      by_cases hkey : key = name
      · subst hkey
        split
        · simp
        · split
          · simp
          · next hne => simp [List.lookup_cons, beq_false_of_ne hne, ih]
      · split
        · simp [List.lookup_cons, beq_false_of_ne hkey]
        · split
          · next heq =>
            subst heq
            simp [List.lookup_cons, beq_false_of_ne hkey]
          · simp [List.lookup_cons, ih, hkey]

theorem get?_insert (m : RuleMap) (name key : String) (s : RuleSetting) :
    (m.insert name s).get? key = if key = name then some s else m.get? key :=
  lookup_insertInto name key s m.entries

@[simp] theorem get?_empty (key : String) : empty.get? key = none := rfl

/-- Settings under distinct names that are put in win over those that were there. -/
theorem get?_foldl_insert {l : List (String × RuleSetting)}
    (hl : l.Pairwise fun a b => a.1 < b.1) (m : RuleMap) (key : String) :
    (l.foldl (fun m e => m.insert e.1 e.2) m).get? key = (l.lookup key).or (m.get? key) := by
  induction l generalizing m with
  | nil => rfl
  | cons head rest ih =>
      obtain ⟨name, s⟩ := head
      obtain ⟨hlt, hrest⟩ := List.pairwise_cons.1 hl
      rw [List.foldl_cons, ih hrest, get?_insert]
      by_cases hkey : key = name
      · subst hkey
        simp [lookup_eq_none_of_lt hlt]
      · simp [List.lookup_cons, beq_false_of_ne hkey, hkey]

/-- The setting of the upper layer counts, if it has one. -/
theorem get?_atop (upper lower : RuleMap) (key : String) :
    (upper.atop lower).get? key = (upper.get? key).or (lower.get? key) :=
  get?_foldl_insert upper.sorted lower key

theorem mem_entries_iff_get? (m : RuleMap) (name : String) (s : RuleSetting) :
    (name, s) ∈ m.entries ↔ m.get? name = some s := by
  obtain ⟨l, hl⟩ := m
  show (name, s) ∈ l ↔ l.lookup name = some s
  induction l with
  | nil => simp
  | cons head rest ih =>
      obtain ⟨other, t⟩ := head
      obtain ⟨hlt, hrest⟩ := List.pairwise_cons.1 hl
      rw [List.mem_cons, List.lookup_cons]
      by_cases hname : name = other
      · subst hname
        have hfresh : (name, s) ∉ rest := fun hmem => String.lt_irrefl name (hlt _ hmem)
        simp [hfresh, eq_comm]
      · simp [hname, beq_false_of_ne hname, ih hrest]

/-- Layers with the same setting under every name are the same. -/
theorem eq_of_get? {m n : RuleMap} (h : ∀ key, m.get? key = n.get? key) : m = n := by
  have hasymm : ∀ a b : String × RuleSetting, a.1 < b.1 → ¬b.1 < a.1 := fun a b hab hba =>
    String.lt_irrefl a.1 (String.lt_trans hab hba)
  have hmem : ∀ e, e ∈ m.entries ↔ e ∈ n.entries := fun ⟨name, s⟩ => by
    rw [mem_entries_iff_get?, mem_entries_iff_get?, h]
  have hnodup : ∀ k : RuleMap, k.entries.Nodup := fun k => k.sorted.imp fun {a b} hlt heq => by
    subst heq
    exact String.lt_irrefl a.1 hlt
  have hperm : m.entries.Perm n.entries :=
    (List.perm_ext_iff_of_nodup (hnodup m) (hnodup n)).2 hmem
  have hentries : m.entries = n.entries :=
    hperm.eq_of_pairwise (fun a b _ _ hab hba => absurd hba (hasymm a b hab)) m.sorted n.sorted
  cases m
  cases n
  congr

/-! ## Layers over one another -/

theorem atop_assoc (a b c : RuleMap) : (a.atop b).atop c = a.atop (b.atop c) :=
  eq_of_get? fun key => by simp only [get?_atop, Option.or_assoc]

@[simp] theorem empty_atop (m : RuleMap) : empty.atop m = m := rfl

@[simp] theorem atop_empty (m : RuleMap) : m.atop empty = m :=
  eq_of_get? fun key => by rw [get?_atop, get?_empty, Option.or_none]

end RuleMap

namespace Config

/-! ## Two and three configurations -/

/-- The first of three lists that is not empty is found whichever two are looked at first. -/
theorem ite_isEmpty_assoc (a b c : List String) :
    (if (if a.isEmpty then b else a).isEmpty then c else if a.isEmpty then b else a) =
      if a.isEmpty then (if b.isEmpty then c else b) else a := by
  cases a <;> rfl

/-- The same configuration comes out whichever two neighbours of three are put together first. -/
theorem atop_assoc (a b c : Config) : (a.atop b).atop c = a.atop (b.atop c) := by
  simp only [atop, Config.mk.injEq]
  exact ⟨Option.or_assoc, Option.or_assoc, Option.or_assoc, Option.or_assoc, Option.or_assoc,
    Option.or_assoc, RuleMap.atop_assoc a.rules b.rules c.rules,
    (List.append_assoc c.ignore b.ignore a.ignore).symm,
    ite_isEmpty_assoc a.extensions b.extensions c.extensions,
    (List.append_assoc c.overrides b.overrides a.overrides).symm⟩

@[simp] theorem empty_atop (c : Config) : ({} : Config).atop c = c := by
  simp [atop]

@[simp] theorem atop_empty (c : Config) : c.atop {} = c := by
  have hextensions : (if c.extensions.isEmpty then [] else c.extensions) = c.extensions := by
    cases c.extensions <;> rfl
  simp only [atop, Option.or_none, RuleMap.atop_empty, List.nil_append, hextensions]

/-! ## Any number of configurations -/

/-- A way to put configurations over one another, two at a time. -/
inductive Layering where
  | one (c : Config)
  /-- What one way gives, over what another one gives. -/
  | upon (upper lower : Layering)

namespace Layering

/-- What comes out in the end. -/
def merged : Layering → Config
  | one c => c
  | upon upper lower => upper.merged.atop lower.merged

/-- The configurations that are put together, the uppermost first. -/
def parts : Layering → List Config
  | one c => [c]
  | upon upper lower => upper.parts ++ lower.parts

/-- Those that say something. -/
def said (l : Layering) : List Config :=
  l.parts.filter (· ≠ {})

end Layering

theorem foldr_atop (cs : List Config) (c : Config) :
    cs.foldr atop c = (cs.foldr atop {}).atop c := by
  induction cs with
  | nil => rw [List.foldr_nil, List.foldr_nil, empty_atop]
  | cons b cs ih => rw [List.foldr_cons, List.foldr_cons, ih, atop_assoc]

/-- Configurations that say nothing can be left out. -/
theorem foldr_atop_filter (cs : List Config) (c : Config) :
    (cs.filter (· ≠ {})).foldr atop c = cs.foldr atop c := by
  induction cs with
  | nil => rfl
  | cons b cs ih =>
      by_cases hb : b = {}
      · rw [List.filter_cons_of_neg (by simpa using hb), ih, List.foldr_cons, hb, empty_atop]
      · rw [List.filter_cons_of_pos (by simpa using hb), List.foldr_cons, List.foldr_cons, ih]

namespace Layering

/-- Whatever is put together first, the outcome is that of putting one after the other, the
lowest first. -/
theorem merged_eq_foldr (l : Layering) : l.merged = l.parts.foldr atop {} := by
  induction l with
  | one c => simp [merged, parts]
  | upon upper lower ihUpper ihLower =>
      rw [merged, parts, List.foldr_append, foldr_atop, ← ihUpper, ← ihLower]

theorem merged_eq_foldr_said (l : Layering) : l.merged = l.said.foldr atop {} := by
  rw [said, foldr_atop_filter, merged_eq_foldr]

/-- Only the configurations that say something count, and their order. -/
theorem merged_eq_of_said_eq {l k : Layering} (h : l.said = k.said) : l.merged = k.merged := by
  rw [merged_eq_foldr_said, merged_eq_foldr_said, h]

end Layering

/-! ## Chains of files -/

/-- What the files of a chain say themselves, the first one first. -/
def partsOf (links : List Link) (last : Config) : List Config :=
  links.map (fun l => { l.config with base := none }) ++ [last]

theorem stack_eq_foldr (links : List Link) (last : Config) :
    stack links last = (partsOf links last).foldr atop {} := by
  induction links with
  | nil => simp [partsOf]
  | cons l links ih =>
      rw [stack_cons, ih, partsOf, partsOf, List.map_cons, List.cons_append, List.foldr_cons]

/-- A chain of files is loaded as any way to put together what its files say. -/
theorem loadFile_of_said_eq {d : Disk} {start : Path} {links : List Link} {last : Link}
    (hleads : Leads d start links last.path) (hon : last.IsOn d) (hbase : last.config.base = none)
    (hnodup : ((links ++ [last]).map Link.place).Nodup) {l : Layering}
    (hsaid : l.said = (partsOf links last.config).filter (· ≠ {})) :
    loadFile d start = .ok l.merged := by
  have hstack : l.merged = stack links last.config := by
    rw [stack_eq_foldr, ← foldr_atop_filter, ← hsaid, l.merged_eq_foldr_said]
  rw [hstack]
  exact loadFile_eq_ok_iff.2 ⟨links, last, hleads, hon, hbase, hnodup, rfl⟩

/-- Configurations over one another are a monoid: it does not matter which two neighbours are put
together first, and a configuration that says nothing changes nothing.  So what comes out depends
only on the configurations that say something and their order, and so do the settings, for a file
or for all, and the patterns that are left out; a chain of files is loaded as any such way to put
together what its files say. -/
theorem atop_monoid :
    (∀ a b c : Config, (a.atop b).atop c = a.atop (b.atop c)) ∧
    (∀ c : Config, ({} : Config).atop c = c ∧ c.atop {} = c) ∧
    (∀ l k : Layering, l.said = k.said → l.merged = k.merged ∧
      (∀ file, l.merged.settingsFor file = k.merged.settingsFor file) ∧
      l.merged.ignore = k.merged.ignore ∧ l.merged.ignoreSet = k.merged.ignoreSet) ∧
    (∀ d start links last, Leads d start links last.path → last.IsOn d →
      last.config.base = none → ((links ++ [last]).map Link.place).Nodup →
      ∀ l : Layering, l.said = (partsOf links last.config).filter (· ≠ {}) →
        loadFile d start = .ok l.merged) := by
  refine ⟨atop_assoc, fun c => ⟨empty_atop c, atop_empty c⟩, ?_, ?_⟩
  · intro l k hsaid
    have hmerged : l.merged = k.merged := Layering.merged_eq_of_said_eq hsaid
    rw [hmerged]
    exact ⟨rfl, fun _ => rfl, rfl, rfl⟩
  · intro d start links last hleads hon hbase hnodup l hsaid
    exact loadFile_of_said_eq hleads hon hbase hnodup hsaid

/-- A file that goes over another one, which says nothing but what it goes over itself. -/
def silentMiddle : Disk where
  tree := ⟨[([Utf8.ofText "a.json"],
      .file (Utf8.ofText "\x7b\"extends\": \"b\", \"ignore\": [\"x\"]\x7d")),
    ([Utf8.ofText "b.json"], .file (Utf8.ofText "\x7b\"extends\": \"c\"\x7d")),
    ([Utf8.ofText "c.json"],
      .file (Utf8.ofText "\x7b\"ignore\": [\"y\"], \"threshold\": 60\x7d"))]⟩

/-- The link of a file that stands at the root, under its name. -/
def rootLink (name : String) (c : Config) : Link :=
  ⟨Path.ofText name, [Utf8.ofText name], c⟩

/-- The first file is loaded as if the second one were not there, and three configurations, one of
them silent, give the same put together from below as two of them put together. -/
theorem atop_monoid_silentMiddle :
    loadFile silentMiddle (Path.ofText "a.json") =
      .ok (Layering.upon (.one { ignore := ["x"] })
        (.one { ignore := ["y"], threshold := some 60 })).merged ∧
    (Layering.upon (.upon (.one { ignore := ["x"] }) (.one {})) (.one { ignore := ["y"] })).merged =
      (Layering.upon (.one { ignore := ["x"] }) (.one { ignore := ["y"] })).merged := by
  have hlowest : (rootLink "c.json" { ignore := ["y"], threshold := some 60 }).IsOn
      silentMiddle := ⟨rfl, rfl⟩
  have hmiddle : Leads silentMiddle (Path.ofText "b.json")
      [rootLink "b.json" { base := some "c" }] (Path.ofText "c.json") :=
    .next (l := rootLink "b.json" { base := some "c" }) ⟨rfl, rfl⟩ rfl rfl (.here _)
  have hchain : Leads silentMiddle (Path.ofText "a.json")
      [rootLink "a.json" { base := some "b", ignore := ["x"] },
        rootLink "b.json" { base := some "c" }] (Path.ofText "c.json") :=
    .next (l := rootLink "a.json" { base := some "b", ignore := ["x"] }) ⟨rfl, rfl⟩ rfl rfl hmiddle
  have hmerged := atop_monoid.2.2.1
    (Layering.upon (.upon (.one { ignore := ["x"] }) (.one {})) (.one { ignore := ["y"] }))
    (Layering.upon (.one { ignore := ["x"] }) (.one { ignore := ["y"] })) (by decide)
  exact ⟨atop_monoid.2.2.2 silentMiddle _ _ _ hchain hlowest rfl (by decide) _ (by decide),
    hmerged.1⟩

end Config
end Neatness
