import Neatness.Proofs.Places
import Neatness.Proofs.PrintsInLoops
import Neatness.Proofs.Analysis

/-!
# Where problems are found

A check reports a byte offset, and a problem is shown with the line and the column of it.  The offset
never falls into a character or behind the end of the text, so that nothing is lost on the way.

* `Rule.StartsAt` says that what a rule looks for starts at a place.
* `exists_place_of_run` is the place that a check reports.
* `locations_mark_places` joins the offset, the place, and the location that is shown.
-/

namespace Neatness

/-- A print starts between the two parts of a text. -/
def DebugPrint.StartsAt (front rest : List Char) : Prop :=
  Text.opensWord front.getLast? = true ∧ (form rest).isSome = true

/-- What a rule looks for starts between the two parts of a text.  A header is looked for at the
start. -/
def Rule.StartsAt (rule : Rule) (front rest : List Char) : Prop :=
  match rule with
  | .absolutePath => AbsolutePath.opensAt front.getLast? rest = true
  | .debugPrint => DebugPrint.StartsAt front rest
  | .debugPrintInLoop =>
    DebugPrint.StartsAt front rest ∧ LoopBody.InLoop (front ++ rest) (Text.byteLength front)
  | .unresolvedMarker => UnresolvedMarker.opensAt front.getLast? rest = true
  | .emptyErrorHandler =>
    EmptyHandler.catchAt front.getLast? rest = true ∨
      EmptyHandler.exceptAt front.getLast? rest = true
  | .deepIndentation => DeepIndentation.opensAt front.getLast? rest = true
  | .missingHeader => front = []

section Found

variable {text : List Char}

/-- A detection at a place where what its rule looks for starts. -/
def Detection.IsAt (d : Detection) (p : Text.Place text) : Prop :=
  p.offset = d.offset ∧ d.rule.StartsAt p.front p.rest

theorem Text.exists_place_of_first? {probe : Text.Probe} {offset : Nat}
    (h : Text.first? probe text = some offset) :
    ∃ p : Text.Place text, p.offset = offset ∧ probe p.front.getLast? p.rest = true := by
  obtain ⟨⟨front, rest, htext, rfl, hprobe⟩, -⟩ := Text.first?_eq_some_iff.1 h
  obtain ⟨p, rfl, rfl⟩ := Text.Place.exists_front htext
  exact ⟨p, rfl, hprobe⟩

namespace DebugPrint

theorem exists_startsAt_of_mem {offset : Nat} (h : offset ∈ starts text) :
    ∃ p : Text.Place text, p.offset = offset ∧ StartsAt p.front p.rest := by
  obtain ⟨o, ho, rfl⟩ := List.mem_map.1 h
  obtain ⟨front, htext, hstart, hopens⟩ := Text.exists_opens_of_mem ho
  obtain ⟨c, rest, hhere, hform⟩ := Text.form_of_mem ho
  obtain ⟨p, rfl, hrest⟩ := Text.Place.exists_front htext
  refine ⟨p, ?_, ?_, ?_⟩
  · rw [hstart, Nat.zero_add, Text.Place.offset]
  · rwa [Option.or_none] at hopens
  · rw [hrest, hhere, hform]
    rfl

theorem exists_place_of_check {reportPlain reportLoop : Bool} {d : Detection}
    (h : check reportPlain reportLoop text = some d) : ∃ p : Text.Place text, d.IsAt p := by
  rcases check_eq_some_iff.1 h with ⟨-, offset, hloop, rfl⟩ | ⟨-, -, offset, hplain, rfl⟩
  · obtain ⟨hmem, hinside, -⟩ := inLoop?_eq_some_iff.1 hloop
    obtain ⟨p, rfl, hstarts⟩ := exists_startsAt_of_mem hmem
    refine ⟨p, rfl, hstarts, ?_⟩
    rwa [← p.text_eq_front]
  · obtain ⟨hmem, -⟩ := head?_starts_eq_some_iff.1 hplain
    obtain ⟨p, rfl, hstarts⟩ := exists_startsAt_of_mem hmem
    exact ⟨p, rfl, hstarts⟩

end DebugPrint

/-- The earlier of two places is one of them. -/
theorem EmptyHandler.eq_some_of_earlier {a b : Option Nat} {offset : Nat}
    (h : earlier a b = some offset) : a = some offset ∨ b = some offset := by
  cases a with
  | none => exact .inr h
  | some m =>
      cases b with
      | none => exact .inl h
      | some n =>
          rcases Nat.le_total m n with hle | hle
          · exact .inl (by rwa [earlier, Nat.min_eq_left hle] at h)
          · exact .inr (by rwa [earlier, Nat.min_eq_right hle] at h)

theorem EmptyHandler.exists_place_of_check {exceptPass : Bool} {d : Detection}
    (h : check exceptPass text = some d) : ∃ p : Text.Place text, d.IsAt p := by
  obtain ⟨offset, hfound, rfl⟩ := Option.map_eq_some_iff.1 h
  rcases eq_some_of_earlier hfound with hcatch | hexcept
  · obtain ⟨p, hp, hstarts⟩ := Text.exists_place_of_first? hcatch
    exact ⟨p, hp, .inl hstarts⟩
  · rw [Option.ite_none_right_eq_some] at hexcept
    obtain ⟨p, hp, hstarts⟩ := Text.exists_place_of_first? hexcept.2
    exact ⟨p, hp, .inr hstarts⟩

theorem MissingHeader.exists_place_of_check {name : List Char} {d : Detection}
    (h : check name text = some d) : ∃ p : Text.Place text, d.IsAt p := by
  rw [check, Option.ite_none_left_eq_some, Option.some.injEq] at h
  obtain ⟨-, rfl⟩ := h
  obtain ⟨p, hfront, -⟩ := Text.Place.exists_front (List.nil_append text).symm
  exact ⟨p, congrArg Text.byteLength hfront, hfront⟩

/-- A check reports the place where what its rule looks for starts. -/
theorem exists_place_of_run {table : RuleTable} {check : Check} (hcheck : check ∈ checks table)
    {name : List Char} {d : Detection} (hrun : check.run text name = some d) :
    ∃ p : Text.Place text, d.IsAt p := by
  simp only [checks, List.mem_cons, List.not_mem_nil, or_false] at hcheck
  -- Three of the checks look for the first place that passes one test.
  rcases hcheck with rfl | rfl | rfl | rfl | rfl | rfl
  · obtain ⟨offset, hfound, rfl⟩ := Option.map_eq_some_iff.1 hrun
    exact Text.exists_place_of_first? hfound
  · exact DebugPrint.exists_place_of_check hrun
  · obtain ⟨offset, hfound, rfl⟩ := Option.map_eq_some_iff.1 hrun
    exact Text.exists_place_of_first? hfound
  · exact EmptyHandler.exists_place_of_check hrun
  · obtain ⟨offset, hfound, rfl⟩ := Option.map_eq_some_iff.1 hrun
    exact Text.exists_place_of_first? hfound
  · exact MissingHeader.exists_place_of_check hrun

/-- A problem is shown where its check has found it. -/
theorem exists_place_of_mem_problemsOf {table : RuleTable} {name : List Char} {problem : Problem}
    (h : problem ∈ problemsOf table text name) :
    ∃ check ∈ checks table, ∃ d, check.run text name = some d ∧ problem.rule = d.rule ∧
      ∃ p : Text.Place text, d.IsAt p ∧ problem.location = p.location := by
  obtain ⟨check, hcheck, hproblem⟩ := mem_problemsOf.1 h
  obtain ⟨d, hrun, -, rfl⟩ := (problem?_eq_some_iff hcheck problem).1 hproblem
  obtain ⟨p, hp⟩ := exists_place_of_run hcheck hrun
  refine ⟨check, hcheck, d, hrun, rfl, p, hp, ?_⟩
  show Location.ofOffset text d.offset = p.location
  rw [← hp.1, Location.ofOffset_offset]

end Found

/-- An offset is shown as the last place that is not behind it, and the location shown leads to that
place and to no other.  Later boundaries are shown later.  And a check reports boundaries only, so
the location of a problem is the very place where what its rule looks for starts. -/
theorem locations_mark_places (text : List Char) :
    (∀ offset, ∃ p : Text.Place text,
      IsGreatest {b | Text.IsBoundary text b ∧ b ≤ min offset (Text.byteLength text)} p.offset ∧
      Location.ofOffset text offset = p.location ∧
      ∀ q : Text.Place text, q.location = p.location → q.offset = p.offset) ∧
    Set.InjOn (Location.ofOffset text) {b | Text.IsBoundary text b} ∧
    StrictMonoOn (fun b => (Location.ofOffset text b).key) {b | Text.IsBoundary text b} ∧
    ∀ table name,
      (∀ check ∈ checks table, ∀ d, check.run text name = some d →
        Text.IsBoundary text d.offset ∧ d.offset ≤ Text.byteLength text) ∧
      ∀ problem ∈ problemsOf table text name,
        ∃ check ∈ checks table, ∃ d, check.run text name = some d ∧ problem.rule = d.rule ∧
          ∃ p : Text.Place text, d.IsAt p ∧ problem.location = p.location := by
  have hmono := Location.key_ofOffset_strictMonoOn text
  refine ⟨fun offset => ?_, fun a ha b hb heq => ?_, hmono, fun table name => ⟨?_, ?_⟩⟩
  · obtain ⟨p, hgreatest, hp⟩ := Location.exists_place_ofOffset text offset
    exact ⟨p, hgreatest, hp, fun q hq => by rw [Text.Place.eq_of_location_eq hq]⟩
  · exact hmono.injOn ha hb (congrArg Location.key heq)
  · intro check hcheck d hrun
    obtain ⟨p, hp, -⟩ := exists_place_of_run hcheck hrun
    rw [← hp]
    exact ⟨p.isBoundary, p.isBoundary.le⟩
  · exact fun problem hproblem => exists_place_of_mem_problemsOf hproblem

/-- A marker behind characters of two and of four bytes: an offset in the second of them is taken for
its start, and the place of the marker is found again from where the problem is shown. -/
theorem locations_mark_places_wide :
    Location.ofOffset "é\n😀 // TODO".toList 5 = Location.ofOffset "é\n😀 // TODO".toList 3 ∧
    (Location.ofOffset "é\n😀 // TODO".toList 3).key <
      (Location.ofOffset "é\n😀 // TODO".toList 8).key ∧
    ∃ problem ∈ problemsOf Preset.standard.table "é\n😀 // TODO".toList [],
      ∃ p : Text.Place "é\n😀 // TODO".toList, problem.location = p.location ∧ p.offset = 8 ∧
        problem.rule.StartsAt p.front p.rest := by
  obtain ⟨-, hinj, hmono, hfound⟩ := locations_mark_places "é\n😀 // TODO".toList
  have hstart : Text.IsBoundary "é\n😀 // TODO".toList 3 := ⟨"é\n".toList, _, rfl, by decide⟩
  have hmarker : Text.IsBoundary "é\n😀 // TODO".toList 8 := ⟨"é\n😀 ".toList, _, rfl, by decide⟩
  have hmem : (⟨.unresolvedMarker, UnresolvedMarker.message, 10, ⟨2, 3⟩⟩ : Problem) ∈
      problemsOf Preset.standard.table "é\n😀 // TODO".toList [] := by decide +kernel
  obtain ⟨_, -, d, -, hrule, p, ⟨-, hstarts⟩, hlocation⟩ :=
    (hfound Preset.standard.table []).2 _ hmem
  refine ⟨by decide, hmono hstart hmarker (by decide), _, hmem, p, hlocation, ?_, hrule ▸ hstarts⟩
  refine hinj p.isBoundary hmarker ?_
  rw [Location.ofOffset_offset, ← hlocation]
  decide

end Neatness
