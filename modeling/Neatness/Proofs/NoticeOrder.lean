import Mathlib.Data.List.Sort
import Neatness.Proofs.Spelling
import Neatness.Watch

/-!
# The notices of a batch

A batch of events becomes a set of notices: documents by their paths, and behind them at most one
configuration.  What is in the set, up to the spelling of paths, depends on the paths that count,
and not on how they are told.

* `Path.steps_eq_of_components` and `Path.same_iff_key` are about paths with the same components.
* `Notice.key` is what notices are ordered by; two of them are the same if their keys are.
* `Notice.mem_keys_insert` and `Notice.ascending_insert` are about one more notice, and
  `Notice.mem_keys_ofEvents_iff` and `Notice.ascending_ofEvents` about a batch.
* `IsDocument` says which paths are documents, without regard to the order of the tests.
-/

namespace Neatness

namespace Path

/-! ## Paths with the same components -/

/-- The step of a component, if it is one. -/
def stepOf? : Component → Option Name
  | .name n => some n
  | .parent => some up
  | _ => none

theorem steps_eq_filterMap (p : Path) : p.steps = p.components.filterMap stepOf? := by
  have hstep : ∀ n, stepOf? (component n) = some n := by
    intro n
    by_cases hn : n = up <;> simp [component, hn, stepOf?]
  have hbody : ((p.body.filter (!isIdle ·)).map component).filterMap stepOf? = moving p.body := by
    have hsteps : stepOf? ∘ component = some := funext hstep
    rw [List.filterMap_map, hsteps, List.filterMap_some]
    rfl
  rw [components, List.filterMap_append, hbody, ← steps_eq_moving_body]
  cases p.start with
  | nil => rfl
  | cons b rest => by_cases hb : b = slash <;> simp [hb, stepOf?]

theorem steps_eq_of_components {p q : Path} (h : p.components = q.components) :
    p.steps = q.steps := by
  rw [steps_eq_filterMap, steps_eq_filterMap, h]

theorem fileName?_eq_of_components {p q : Path} (h : p.components = q.components) :
    p.fileName? = q.fileName? := by
  ext n
  rw [fileName?_eq_some_iff, fileName?_eq_some_iff, steps_eq_of_components h]

theorem componentKey_injective : Function.Injective componentKey := by
  intro a b h
  cases a <;> cases b <;> simp [componentKey] at h ⊢
  exact List.map_injective_iff.2 (fun _ _ => UInt8.toNat_inj.1) h

theorem same_iff_components {p q : Path} : p.same q = true ↔ p.components = q.components :=
  beq_iff_eq

theorem same_iff_key {p q : Path} : p.same q = true ↔ p.key = q.key := by
  rw [same_iff_components, key, key]
  exact (List.map_injective_iff.2 componentKey_injective).eq_iff.symm

/-- The path comes before another one. -/
def Before (p q : Path) : Prop :=
  p.le q = true ∧ p.same q = false

end Path

namespace Watch

variable {configName : Name} {extensions : List String}

/-! ## Which paths count -/

/-- A path is a document's: it is no configuration, goes through no foreign folder, and has one of
the extensions. -/
structure IsDocument (configName : Name) (extensions : List String) (p : Path) : Prop where
  not_config : p.fileName? ≠ some configName
  /-- It is outside foreign folders. -/
  outside : ∀ folder ∈ ["node_modules", ".git", "target"],
    .name (Utf8.ofText folder) ∉ p.components
  extension : ∃ x ∈ extensions, p.extension? = some (Utf8.ofText x)

theorem isSourceFile_iff {p : Path} : isSourceFile extensions p = true ↔
    (∀ folder ∈ ["node_modules", ".git", "target"],
      .name (Utf8.ofText folder) ∉ p.components) ∧
    ∃ x ∈ extensions, p.extension? = some (Utf8.ofText x) := by
  unfold isSourceFile foreignFolders
  rw [Bool.and_eq_true]
  refine and_congr ?_ ?_
  · rw [Bool.not_eq_true', List.any_eq_false]
    simp only [List.any_map, List.any_eq_true, Function.comp_apply, beq_iff_eq, not_exists,
      not_and]
    constructor
    · exact fun h folder hfolder hmem => h _ hmem folder hfolder rfl
    · rintro h c hc folder hfolder rfl
      exact h folder hfolder hc
  · cases p.extension? with
    | none => simp
    | some e =>
        simp only [List.any_eq_true, beq_iff_eq, Option.some.injEq]
        exact exists_congr fun x => and_congr Iff.rfl eq_comm

theorem IsDocument.congr {p q : Path} (h : p.same q = true)
    (hp : IsDocument configName extensions p) : IsDocument configName extensions q := by
  have hcomponents := Path.same_iff_components.1 h
  have hname := Path.fileName?_eq_of_components hcomponents
  refine ⟨hname ▸ hp.not_config, hcomponents ▸ hp.outside, ?_⟩
  obtain ⟨x, hx, hextension⟩ := hp.extension
  refine ⟨x, hx, ?_⟩
  rw [Path.extension?, ← hname]
  exact hextension

/-- Something was made or written at the path, says one of the events. -/
def Names (events : List Event) (p : Path) : Prop :=
  ∃ e ∈ events, (e.kind = .create ∨ e.kind = .modify) ∧ p ∈ e.paths

theorem EventKind.counts_iff {kind : EventKind} :
    kind.counts = true ↔ kind = .create ∨ kind = .modify := by
  cases kind <;> simp [counts]

namespace Notice

theorem ofPath?_eq_document_iff {p q : Path} :
    ofPath? configName extensions p = some (.document q) ↔
      q = p ∧ IsDocument configName extensions p := by
  unfold ofPath?
  by_cases hconfig : p.fileName? = some configName
  · rw [if_pos hconfig]
    constructor
    · intro h
      cases h
    · exact fun h => absurd hconfig h.2.not_config
  · rw [if_neg hconfig]
    constructor
    · intro h
      split at h
      · rename_i hsource
        obtain rfl := document.inj (Option.some.inj h)
        obtain ⟨houtside, hextension⟩ := isSourceFile_iff.1 hsource
        exact ⟨rfl, hconfig, houtside, hextension⟩
      · cases h
    · rintro ⟨rfl, h⟩
      rw [if_pos (isSourceFile_iff.2 ⟨h.outside, h.extension⟩)]

theorem ofPath?_eq_configuration_iff {p : Path} :
    ofPath? configName extensions p = some .configuration ↔ p.fileName? = some configName := by
  unfold ofPath?
  by_cases hconfig : p.fileName? = some configName
  · simp [hconfig]
  · rw [if_neg hconfig]
    split <;> simp [hconfig]

/-! ## Keys -/

/-- What notices are ordered by. -/
def key : Notice → List (List Nat)
  | document p => [0] :: p.key
  | configuration => [[1]]

theorem le_eq (n m : Notice) : n.le m = (compare n.key m.key).isLE := by
  cases n <;> cases m <;> simp [le, key, Path.le, List.compare_cons_cons] <;> rfl

theorem same_iff {n m : Notice} : n.same m = true ↔ n.key = m.key := by
  cases n <;> cases m <;> simp [same, key, Path.same_iff_key]

/-- The notice comes before another one. -/
def Before (n m : Notice) : Prop :=
  n.le m = true ∧ n.same m = false

theorem before_iff {n m : Notice} : n.Before m ↔ compare n.key m.key = .lt := by
  have hsame : n.same m = false ↔ compare n.key m.key ≠ .eq := by
    rw [← Bool.not_eq_true, same_iff, ne_eq, Std.LawfulEqOrd.compare_eq_iff_eq]
  rw [Before, le_eq, hsame]
  generalize compare n.key m.key = order
  cases order <;> decide

/-! ## One more notice -/

/-- Every notice comes before all behind it. -/
def Ascending (ns : List Notice) : Prop :=
  ns.Pairwise Before

theorem mem_keys_insert {n : Notice} {ns : List Notice} {k : List (List Nat)} :
    k ∈ (n.insert ns).map key ↔ k = n.key ∨ k ∈ ns.map key := by
  induction ns with
  | nil => simp [insert]
  | cons m rest ih =>
      rw [insert]
      split
      · rename_i hsame
        rw [same_iff.1 hsame, List.map_cons, List.mem_cons]
        exact ⟨.inr, fun h => h.elim .inl id⟩
      · split
        · rw [List.map_cons, List.mem_cons]
        · rw [List.map_cons, List.mem_cons, ih, List.map_cons, List.mem_cons, or_left_comm]

/-- A notice in its place leaves the others in order. -/
theorem ascending_insert {ns : List Notice} (h : Ascending ns) (n : Notice) :
    Ascending (n.insert ns) := by
  induction ns with
  | nil => exact List.pairwise_singleton _ n
  | cons m rest ih =>
      obtain ⟨hm, hrest⟩ := List.pairwise_cons.1 h
      rw [insert]
      split
      · exact h
      · rename_i hsame
        split
        · rename_i hle
          have hbefore : n.Before m := ⟨hle, by simpa using hsame⟩
          refine List.pairwise_cons.2 ⟨fun other hother => ?_, h⟩
          rcases List.mem_cons.1 hother with rfl | hother
          · exact hbefore
          · rw [before_iff] at hbefore ⊢
            exact Std.TransCmp.lt_trans hbefore (before_iff.1 (hm other hother))
        · rename_i hle
          refine List.pairwise_cons.2 ⟨fun other hother => ?_, ih hrest⟩
          -- The other notice is the new one, or it was there; the key decides.
          rw [before_iff]
          rcases mem_keys_insert.1 (List.mem_map_of_mem hother) with hkey | hkey
          · rw [le_eq] at hle
            have hswap : compare m.key n.key = (compare n.key m.key).swap :=
              Std.OrientedCmp.eq_swap
            rw [hkey, hswap]
            cases horder : compare n.key m.key <;> simp [horder] at hle ⊢
          · obtain ⟨old, hold, hkey⟩ := List.mem_map.1 hkey
            rw [← hkey]
            exact before_iff.1 (hm old hold)

theorem foldl_insert {ns : List Notice} (h : Ascending ns) (ms : List Notice) :
    Ascending (ms.foldl (fun ns n => n.insert ns) ns) ∧
      ∀ k, k ∈ (ms.foldl (fun ns n => n.insert ns) ns).map key ↔
        k ∈ ms.map key ∨ k ∈ ns.map key := by
  induction ms generalizing ns with
  | nil => exact ⟨h, fun k => by simp⟩
  | cons m ms ih =>
      obtain ⟨hascending, hkeys⟩ := ih (ascending_insert h m)
      refine ⟨hascending, fun k => ?_⟩
      rw [List.foldl_cons, hkeys, mem_keys_insert, List.map_cons, List.mem_cons, or_left_comm,
        or_assoc]

/-! ## A batch -/

variable {events others : List Event}

/-- The notices of a batch, before they are put in order, are those of the paths that count. -/
theorem mem_flatMap_ofEvent_iff {n : Notice} :
    n ∈ events.flatMap (ofEvent configName extensions) ↔
      ∃ p, Names events p ∧ ofPath? configName extensions p = some n := by
  rw [List.mem_flatMap]
  constructor
  · rintro ⟨e, he, hn⟩
    unfold ofEvent at hn
    split at hn
    · rename_i hcounts
      obtain ⟨p, hp, hnotice⟩ := List.mem_filterMap.1 hn
      exact ⟨p, ⟨e, he, EventKind.counts_iff.1 hcounts, hp⟩, hnotice⟩
    · cases hn
  · rintro ⟨p, ⟨e, he, hcounts, hp⟩, hnotice⟩
    refine ⟨e, he, ?_⟩
    rw [ofEvent, if_pos (EventKind.counts_iff.2 hcounts)]
    exact List.mem_filterMap.2 ⟨p, hp, hnotice⟩

theorem ascending_ofEvents (configName : Name) (extensions : List String) (events : List Event) :
    Ascending (ofEvents configName extensions events) :=
  (foldl_insert .nil _).1

/-- What a batch holds, up to the spelling of paths. -/
theorem mem_keys_ofEvents_iff {k : List (List Nat)} :
    k ∈ (ofEvents configName extensions events).map key ↔
      ∃ p n, Names events p ∧ ofPath? configName extensions p = some n ∧ n.key = k := by
  rw [ofEvents, (foldl_insert .nil _).2, List.map_nil, List.mem_map]
  simp only [mem_flatMap_ofEvent_iff, List.not_mem_nil, or_false]
  constructor
  · rintro ⟨n, ⟨p, hp, hnotice⟩, hkey⟩
    exact ⟨p, n, hp, hnotice, hkey⟩
  · rintro ⟨p, n, hp, hnotice, hkey⟩
    exact ⟨n, ⟨p, hp, hnotice⟩, hkey⟩

/-- A batch holds a document, under some spelling, if it is named under some spelling. -/
theorem exists_document_mem_iff {p : Path} :
    (∃ q, .document q ∈ ofEvents configName extensions events ∧ q.same p = true) ↔
      (∃ q, Names events q ∧ q.same p = true) ∧ IsDocument configName extensions p := by
  have hkey : (∃ q, .document q ∈ ofEvents configName extensions events ∧ q.same p = true) ↔
      key (.document p) ∈ (ofEvents configName extensions events).map key := by
    rw [List.mem_map]
    constructor
    · rintro ⟨q, hq, hsame⟩
      exact ⟨_, hq, same_iff.1 hsame⟩
    · rintro ⟨n, hn, hkey⟩
      cases n with
      | document q => exact ⟨q, hn, same_iff.2 hkey⟩
      | configuration => exact absurd hkey (by simp [key])
  rw [hkey, mem_keys_ofEvents_iff]
  constructor
  · rintro ⟨q, n, hq, hnotice, hkey⟩
    cases n with
    | document q' =>
        obtain ⟨rfl, hdocument⟩ := ofPath?_eq_document_iff.1 hnotice
        have hsame : q'.same p = true := same_iff.2 hkey
        exact ⟨⟨q', hq, hsame⟩, hdocument.congr hsame⟩
    | configuration => exact absurd hkey (by simp [key])
  · rintro ⟨⟨q, hq, hsame⟩, hdocument⟩
    have hback : p.same q = true := by
      rw [Path.same_iff_components] at hsame ⊢
      exact hsame.symm
    exact ⟨q, .document q, hq, ofPath?_eq_document_iff.2 ⟨rfl, hdocument.congr hback⟩,
      same_iff.1 hsame⟩

theorem configuration_mem_iff :
    .configuration ∈ ofEvents configName extensions events ↔
      ∃ p, Names events p ∧ p.fileName? = some configName := by
  have hkey : .configuration ∈ ofEvents configName extensions events ↔
      key .configuration ∈ (ofEvents configName extensions events).map key := by
    rw [List.mem_map]
    constructor
    · exact fun h => ⟨_, h, rfl⟩
    · rintro ⟨n, hn, hkey⟩
      cases n with
      | document q => exact absurd hkey (by simp [key])
      | configuration => exact hn
  rw [hkey, mem_keys_ofEvents_iff]
  constructor
  · rintro ⟨p, n, hp, hnotice, hkey⟩
    cases n with
    | document q => exact absurd hkey (by simp [key])
    | configuration => exact ⟨p, hp, ofPath?_eq_configuration_iff.1 hnotice⟩
  · rintro ⟨p, hp, hname⟩
    exact ⟨p, _, hp, ofPath?_eq_configuration_iff.2 hname, rfl⟩

/-- Notices in order are documents in order, and then at most one configuration. -/
theorem Ascending.exists_documents {ns : List Notice} (h : Ascending ns) :
    ∃ documents : List Path, documents.Pairwise Path.Before ∧
      (ns = documents.map .document ∨ ns = documents.map .document ++ [.configuration]) := by
  induction ns with
  | nil => exact ⟨[], .nil, .inl rfl⟩
  | cons n rest ih =>
      obtain ⟨hn, hrest⟩ := List.pairwise_cons.1 h
      cases n with
      | configuration =>
          -- Nothing comes behind a configuration.
          refine ⟨[], .nil, .inr ?_⟩
          cases rest with
          | nil => rfl
          | cons m rest =>
              obtain ⟨hle, hsame⟩ := hn m List.mem_cons_self
              cases m with
              | document q => cases hle
              | configuration => cases hsame
      | document p =>
          obtain ⟨documents, hdocuments, heq⟩ := ih hrest
          refine ⟨p :: documents, List.pairwise_cons.2 ⟨fun q hq => ?_, hdocuments⟩, ?_⟩
          · have hmem : .document q ∈ rest := by
              rcases heq with rfl | rfl
              · exact List.mem_map_of_mem hq
              · exact List.mem_append_left _ (List.mem_map_of_mem hq)
            exact hn _ hmem
          · rcases heq with rfl | rfl
            · exact .inl rfl
            · exact .inr rfl

/-! ## Two batches -/

/-- The same notices, up to the spelling of paths. -/
def Alike (ns ms : List Notice) : Prop :=
  List.Forall₂ (fun n m => n.same m = true) ns ms

theorem alike_iff {ns ms : List Notice} : Alike ns ms ↔ ns.map key = ms.map key := by
  rw [Alike, ← List.forall₂_eq_eq_eq, List.forall₂_map_left_iff, List.forall₂_map_right_iff]
  simp only [same_iff]

/-- Notices in order are determined by their keys. -/
theorem alike_of_mem_keys_iff {ns ms : List Notice} (hns : Ascending ns) (hms : Ascending ms)
    (h : ∀ k, k ∈ ns.map key ↔ k ∈ ms.map key) : Alike ns ms := by
  let before : List (List Nat) → List (List Nat) → Prop := fun a b => compare a b = .lt
  have hirrefl : Std.Irrefl before := ⟨fun a => by simp [before, Std.ReflCmp.compare_self]⟩
  have hantisymm : Std.Antisymm before := ⟨fun a b hab hba => by
    have hgt : compare b a = .gt := Std.OrientedCmp.gt_of_lt hab
    exact absurd (hgt.symm.trans hba) (by decide)⟩
  have hpairwise : ∀ {ls : List Notice}, Ascending ls → (ls.map key).Pairwise before :=
    fun hls => List.pairwise_map.2 (hls.imp before_iff.1)
  exact alike_iff.2 ((hpairwise hns).eq_of_mem_iff (hpairwise hms) h)

/-- Batches that name the same paths, under any spelling, give the same notices. -/
theorem alike_ofEvents
    (h : ∀ p, (∃ q, Names events q ∧ q.same p = true) ↔ ∃ q, Names others q ∧ q.same p = true) :
    Alike (ofEvents configName extensions events) (ofEvents configName extensions others) := by
  have hmem : ∀ {fst snd : List Event},
      (∀ p, (∃ q, Names fst q ∧ q.same p = true) → ∃ q, Names snd q ∧ q.same p = true) →
      ∀ n ∈ ofEvents configName extensions fst,
        n.key ∈ (ofEvents configName extensions snd).map key := by
    intro fst snd hnames n hn
    cases n with
    | document p =>
        obtain ⟨hp, hdocument⟩ := exists_document_mem_iff.1
          ⟨p, hn, Path.same_iff_components.2 rfl⟩
        obtain ⟨q, hq, hsame⟩ := exists_document_mem_iff.2 ⟨hnames p hp, hdocument⟩
        exact List.mem_map.2 ⟨_, hq, same_iff.1 hsame⟩
    | configuration =>
        obtain ⟨p, hp, hname⟩ := configuration_mem_iff.1 hn
        obtain ⟨q, hq, hsame⟩ := hnames p ⟨p, hp, Path.same_iff_components.2 rfl⟩
        have hcomponents := Path.same_iff_components.1 hsame
        exact List.mem_map_of_mem (configuration_mem_iff.2
          ⟨q, hq, (Path.fileName?_eq_of_components hcomponents).trans hname⟩)
  refine alike_of_mem_keys_iff (ascending_ofEvents _ _ _) (ascending_ofEvents _ _ _) fun k => ?_
  constructor
  · intro hk
    obtain ⟨n, hn, rfl⟩ := List.mem_map.1 hk
    exact hmem (fun p => (h p).1) n hn
  · intro hk
    obtain ⟨n, hn, rfl⟩ := List.mem_map.1 hk
    exact hmem (fun p => (h p).2) n hn

/-- An event, path by path. -/
def tellings (e : Event) : List (EventKind × Path) :=
  e.paths.map (e.kind, ·)

theorem names_iff_tellings {p : Path} :
    Names events p ↔ ∃ kind : EventKind, (kind = .create ∨ kind = .modify) ∧
      (kind, p) ∈ events.flatMap tellings := by
  constructor
  · rintro ⟨e, he, hkind, hp⟩
    exact ⟨e.kind, hkind, List.mem_flatMap.2 ⟨e, he, List.mem_map_of_mem hp⟩⟩
  · rintro ⟨kind, hkind, hmem⟩
    obtain ⟨e, he, hp⟩ := List.mem_flatMap.1 hmem
    obtain ⟨q, hq, heq⟩ := List.mem_map.1 hp
    obtain ⟨rfl, rfl⟩ := Prod.mk.inj heq
    exact ⟨e, he, hkind, hq⟩

/-- Batches that tell the same, in any order, as often as they like and in events of any size,
give the same notices. -/
theorem alike_of_mem_tellings_iff
    (h : ∀ telling, telling ∈ events.flatMap tellings ↔ telling ∈ others.flatMap tellings) :
    Alike (ofEvents configName extensions events) (ofEvents configName extensions others) := by
  have hnames : ∀ p, Names events p ↔ Names others p := by
    intro p
    rw [names_iff_tellings, names_iff_tellings]
    simp only [h]
  refine alike_ofEvents fun p => ?_
  simp only [hnames]

/-- The notices of a batch.  They ascend strictly: documents in the order of their paths, then at
most one configuration.  A document is among them exactly if it is named, and a configuration
exactly if one is.  Neither the order of the events nor how often they come nor how the paths are
distributed among them matters, up to the spelling of paths. -/
theorem ofEvents_notices (configName : Name) (extensions : List String) (events : List Event) :
    (ofEvents configName extensions events).Pairwise Before ∧
    (∃ documents : List Path, documents.Pairwise Path.Before ∧
      (ofEvents configName extensions events = documents.map .document ∨
        ofEvents configName extensions events =
          documents.map .document ++ [.configuration])) ∧
    (∀ p, (∃ q, .document q ∈ ofEvents configName extensions events ∧ q.same p = true) ↔
      (∃ q, Names events q ∧ q.same p = true) ∧ IsDocument configName extensions p) ∧
    (.configuration ∈ ofEvents configName extensions events ↔
      ∃ p, Names events p ∧ p.fileName? = some configName) ∧
    ∀ others : List Event,
      (events.Perm others → Alike (ofEvents configName extensions events)
        (ofEvents configName extensions others)) ∧
      ((∀ e, e ∈ events ↔ e ∈ others) → Alike (ofEvents configName extensions events)
        (ofEvents configName extensions others)) ∧
      (events.flatMap tellings = others.flatMap tellings →
        Alike (ofEvents configName extensions events)
          (ofEvents configName extensions others)) ∧
      ((∀ p, (∃ q, Names events q ∧ q.same p = true) ↔ ∃ q, Names others q ∧ q.same p = true) →
        Alike (ofEvents configName extensions events)
          (ofEvents configName extensions others)) := by
  have hascending := ascending_ofEvents configName extensions events
  refine ⟨hascending, hascending.exists_documents, fun p => exists_document_mem_iff,
    configuration_mem_iff, fun others => ⟨fun hperm => ?_, fun hmem => ?_, fun htellings => ?_,
      alike_ofEvents⟩⟩
  · exact alike_of_mem_tellings_iff fun telling => (hperm.flatMap_right tellings).mem_iff
  · refine alike_of_mem_tellings_iff fun telling => ?_
    simp only [List.mem_flatMap, hmem]
  · exact alike_of_mem_tellings_iff fun telling => by rw [htellings]

/-- Two documents in one event, a configuration, and a file that was removed. -/
def mixedBatch : List Event :=
  [⟨.create, [Path.ofText "w//b.py", Path.ofText "w/a.py"]⟩,
    ⟨.modify, [Path.ofText "w/.gradeguardianrc.json"]⟩,
    ⟨.remove, [Path.ofText "w/c.py"]⟩]

/-- The documents come first, in order; the removed file does not count.  The events may come the
other way round, twice, or path by path, and a document may be spelled with fewer slashes. -/
theorem ofEvents_notices_mixedBatch :
    let notices := ofEvents (Utf8.ofText ".gradeguardianrc.json") ["py"]
    notices mixedBatch = [.document (Path.ofText "w/a.py"), .document (Path.ofText "w//b.py"),
      .configuration] ∧
    Alike (notices mixedBatch) (notices mixedBatch.reverse) ∧
    Alike (notices mixedBatch) (notices (mixedBatch ++ mixedBatch)) ∧
    Alike (notices mixedBatch)
      (notices (mixedBatch.flatMap fun e => e.paths.map fun p => ⟨e.kind, [p]⟩)) ∧
    Alike (notices [⟨.create, [Path.ofText "w//b.py"]⟩])
      (notices [⟨.modify, [Path.ofText "w/b.py"]⟩]) := by
  obtain ⟨-, -, -, -, hothers⟩ :=
    ofEvents_notices (Utf8.ofText ".gradeguardianrc.json") ["py"] mixedBatch
  obtain ⟨-, -, -, -, hspelled⟩ := ofEvents_notices (Utf8.ofText ".gradeguardianrc.json") ["py"]
    [⟨.create, [Path.ofText "w//b.py"]⟩]
  refine ⟨by decide +kernel, (hothers _).1 (List.reverse_perm _).symm,
    (hothers _).2.1 fun e => by simp, (hothers _).2.2.1 (by decide +kernel),
    (hspelled _).2.2.2 fun p => ?_⟩
  have hspelling : (Path.ofText "w//b.py").components = (Path.ofText "w/b.py").components := by
    decide +kernel
  simp [Names, Path.same_iff_components, hspelling]

end Notice
end Watch
end Neatness
