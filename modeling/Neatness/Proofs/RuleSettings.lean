import Mathlib.Data.List.Nodup
import Neatness.Proofs.ReadBack

/-!
# What counts as the setting of a rule

A setting is a word, or a record of parts.  Words and records have no value in common, so it does
not matter which of them is tried first.

* `Json.HasParts` is a strict record with some names: an object or a list, and what it holds under
  each name.  `Json.slots?_strict_iff` says that exactly these are read.
* `Json.Gives` is what a part stands for: a value that is written there, or nothing.
* `ofJson?_eq_toggle_iff` and `ofJson?_eq_custom_iff` are the two forms of a setting.
* `Json.Changes` is what a part does to a value, and `turns_apply` what a setting does to a rule.
-/

namespace Neatness

namespace Json

/-! ## Strict records -/

/-- The fields with some names, all of which may be left out. -/
def optional (names : List String) : List Field :=
  names.map fun name => ⟨name, .anywhere⟩

/-- A record with some names, and what it holds under each of them. -/
inductive HasParts (names : List String) : Json → (String → Option Json) → Prop where
  /-- An object with no other names, each once. -/
  | object (members : List (String × Json)) (known : ∀ m ∈ members, m.1 ∈ names)
      (once : (members.map Prod.fst).Nodup) :
      HasParts names (.record members) fun name => members.lookup name
  /-- A list that is not too long; the parts stand in the order of the names. -/
  | list (items : List Json) (short : items.length ≤ names.length) :
      HasParts names (.arr items) fun name => items[names.idxOf name]?

theorem named?_eq_some_iff {members : List (Option String × Json)} {ms : List (String × Json)} :
    named? members = some ms ↔ Json.obj members = record ms := by
  rw [record, Json.obj.injEq]
  induction members generalizing ms with
  | nil => cases ms <;> simp [named?]
  | cons m members ih =>
      obtain ⟨name, v⟩ := m
      cases name with
      | none => cases ms <;> simp [named?]
      | some name =>
          rw [named?, Option.map_eq_some_iff]
          cases ms with
          | nil => simp
          | cons m ms =>
              rw [List.map_cons, List.cons.injEq, ← ih]
              constructor
              · rintro ⟨later, hlater, heq⟩
                obtain ⟨rfl, rfl⟩ := List.cons.inj heq
                exact ⟨rfl, hlater⟩
              · rintro ⟨heq, hlater⟩
                obtain ⟨hname, rfl⟩ := Prod.mk.inj heq
                obtain rfl := Option.some.inj hname
                exact ⟨ms, hlater, rfl⟩

theorem lookup_eq_head?_filter (ms : List (String × Json)) (name : String) :
    ms.lookup name = ((ms.filter fun m => m.1 == name).head?).map Prod.snd := by
  induction ms with
  | nil => rfl
  | cons m ms ih =>
      obtain ⟨key, v⟩ := m
      by_cases hkey : key = name
      · subst hkey
        simp
      · rw [List.lookup_cons, beq_false_of_ne (Ne.symm hkey),
          List.filter_cons_of_neg (by simpa using hkey)]
        exact ih

/-- An optional field is read unless its name is repeated. -/
theorem slot?_eq_some_iff {name : String} {ms : List (String × Json)} {slot : Option Json} :
    Field.slot? ⟨name, .anywhere⟩ ms = some slot ↔
      (ms.map Prod.fst).count name ≤ 1 ∧ slot = ms.lookup name := by
  have hcount : (ms.map Prod.fst).count name = (ms.filter fun m => m.1 == name).length := by
    rw [List.count, List.countP_map, List.countP_eq_length_filter]
    rfl
  rw [hcount, lookup_eq_head?_filter, Field.slot?]
  cases ms.filter fun m => m.1 == name with
  | nil => simp [eq_comm]
  | cons m rest =>
      cases rest with
      | nil => simp [eq_comm]
      | cons other rest => simp

theorem mapM_slot?_eq_some_iff {names : List String} {ms : List (String × Json)}
    {slots : List (Option Json)} :
    (optional names).mapM (fun f => f.slot? ms) = some slots ↔
      (∀ name ∈ names, (ms.map Prod.fst).count name ≤ 1) ∧
        slots = names.map fun name => ms.lookup name := by
  rw [optional]
  induction names generalizing slots with
  | nil => simp [eq_comm]
  | cons name names ih =>
      rw [List.map_cons, List.mapM_cons, List.forall_mem_cons, List.map_cons]
      simp only [Option.bind_eq_bind, Option.bind_eq_some_iff, slot?_eq_some_iff, ih]
      constructor
      · rintro ⟨slot, ⟨hname, rfl⟩, later, ⟨hnames, rfl⟩, heq⟩
        exact ⟨⟨hname, hnames⟩, (Option.some.inj heq).symm⟩
      · rintro ⟨⟨hname, hnames⟩, rfl⟩
        exact ⟨_, ⟨hname, rfl⟩, _, ⟨hnames, rfl⟩, rfl⟩

/-- A list is read item by item, as long as there are names. -/
theorem listSlots?_eq_some_iff {names : List String} (hnames : names.Nodup) {items : List Json}
    {slots : List (Option Json)} :
    listSlots? (optional names) items = some slots ↔
      items.length ≤ names.length ∧ slots = names.map fun name => items[names.idxOf name]? := by
  induction names generalizing items slots with
  | nil => cases items <;> simp [optional, listSlots?, eq_comm]
  | cons name names ih =>
      obtain ⟨hfresh, hnames⟩ := List.nodup_cons.1 hnames
      have hrest : ∀ (items : List Json), (names.map fun other =>
          items[(name :: names).idxOf other]?) =
            names.map fun other => items.tail[names.idxOf other]? := by
        intro items
        refine List.map_congr_left fun other hother => ?_
        have hne : name ≠ other := fun heq => hfresh (heq ▸ hother)
        rw [List.idxOf_cons_ne _ hne, List.getElem?_tail]
      have hoptional : optional (name :: names) = ⟨name, .anywhere⟩ :: optional names := rfl
      rw [hoptional, List.map_cons, hrest, List.idxOf_cons_self]
      cases items with
      | nil =>
          rw [listSlots?, if_pos rfl, Option.map_eq_some_iff]
          simp [ih hnames, eq_comm]
      | cons v vs =>
          rw [listSlots?, Option.map_eq_some_iff]
          simp only [ih hnames, List.length_cons, Nat.add_le_add_iff_right]
          constructor
          · rintro ⟨later, ⟨hshort, rfl⟩, rfl⟩
            exact ⟨hshort, rfl⟩
          · rintro ⟨hshort, rfl⟩
            exact ⟨_, ⟨hshort, rfl⟩, rfl⟩

/-- A strict record whose fields may be left out is read exactly if it has parts. -/
theorem slots?_strict_iff {names : List String} (hnames : names.Nodup) {v : Json}
    {slots : List (Option Json)} :
    v.slots? (optional names) true = some slots ↔
      ∃ part, v.HasParts names part ∧ slots = names.map part := by
  constructor
  · intro h
    cases v with
    | obj members =>
        simp only [slots?, Option.bind_eq_bind, Option.bind_eq_some_iff] at h
        obtain ⟨ms, hms, h⟩ := h
        split at h
        · cases h
        · rename_i hstrict
          have hknown : ∀ m ∈ ms, m.1 ∈ names := by
            simpa [optional] using hstrict
          obtain ⟨hcount, rfl⟩ := mapM_slot?_eq_some_iff.1 h
          rw [named?_eq_some_iff.1 hms]
          refine ⟨_, .object ms hknown ?_, rfl⟩
          rw [List.nodup_iff_count_le_one]
          intro name
          by_cases hmem : name ∈ names
          · exact hcount name hmem
          · have habsent : name ∉ ms.map Prod.fst := by
              intro hkey
              obtain ⟨m, hm, rfl⟩ := List.mem_map.1 hkey
              exact hmem (hknown m hm)
            rw [List.count_eq_zero.2 habsent]
            exact Nat.zero_le 1
    | arr items =>
        obtain ⟨hshort, rfl⟩ := (listSlots?_eq_some_iff hnames).1 h
        exact ⟨_, .list items hshort, rfl⟩
    | null => cases h
    | bool b => cases h
    | num n => cases h
    | str s => cases h
  · rintro ⟨part, hparts, rfl⟩
    cases hparts with
    | object members known once =>
        have hstrict : (members.any fun m => (optional names).all fun f => f.name != m.1) =
            false := by
          simpa [optional] using known
        rw [record, slots?, named?_eq_some_iff.2 (rfl : Json.obj _ = record members)]
        simp only [Option.bind_eq_bind, Option.bind_some, hstrict]
        exact mapM_slot?_eq_some_iff.2
          ⟨fun name _ => List.nodup_iff_count_le_one.1 once name, rfl⟩
    | list items short => exact (listSlots?_eq_some_iff hnames).2 ⟨short, rfl⟩

/-- A record is sound if all that it holds is. -/
theorem HasParts.isSound {names : List String} (hnames : names.Nodup) {v : Json}
    {part : String → Option Json} (h : v.HasParts names part)
    (hpart : ∀ name ∈ names, ∀ w, part name = some w → w.isSound = true) : v.isSound = true := by
  cases h with
  | object members known once =>
      rw [isSound_record, List.all_eq_true]
      intro m hm
      obtain ⟨front, back, rfl⟩ := List.append_of_mem hm
      refine hpart m.1 (known m hm) m.2 ?_
      rw [List.map_append, List.map_cons, List.nodup_append] at once
      have hfront : front.lookup m.1 = none := by
        rw [List.lookup_eq_none_iff]
        intro other hother
        exact bne_iff_ne.2 fun heq => once.2.2 _ (List.mem_map_of_mem hother) _
          List.mem_cons_self heq.symm
      show (front ++ (m.1, m.2) :: back).lookup m.1 = some m.2
      rw [List.lookup_append, hfront, Option.none_or, List.lookup_cons_self]
  | list items short =>
      rw [isSound_arr, List.all_eq_true]
      intro item hitem
      obtain ⟨i, hi, rfl⟩ := List.getElem_of_mem hitem
      have hname : i < names.length := Nat.lt_of_lt_of_le hi short
      refine hpart names[i] (List.getElem_mem hname) _ ?_
      show items[names.idxOf names[i]]? = some items[i]
      rw [hnames.idxOf_getElem i hname, List.getElem?_eq_getElem hi]

/-! ## What a part stands for -/

/-- What an optional part stands for: the value that is written there, or nothing if the part is
missing or null. -/
def Gives {α : Type} (write : α → Json) (part : Option Json) : Option α → Prop
  | none => part = none ∨ part = some .null
  | some a => part = some (write a)

/-- What an optional part does to a value: nothing if it is missing or null, and otherwise the value
that is written there takes its place. -/
def Changes {α : Type} (write : α → Json) (part : Option Json) (before after : α) : Prop :=
  (part = none ∨ part = some .null) ∧ after = before ∨ part = some (write after)

theorem Gives.changes {α : Type} {write : α → Json} {part : Option Json} {a : Option α}
    (h : Gives write part a) (before : α) : Changes write part before (a.getD before) := by
  cases a with
  | none => exact .inl ⟨h, rfl⟩
  | some a => exact .inr h

theorem may_eq_some_iff {α : Type} {read? : Json → Option α} {write : α → Json}
    (hread : ∀ v a, read? v = some a ↔ v = write a) (hnull : ∀ a, write a ≠ .null)
    {part : Option Json} {a : Option α} : may read? part = some a ↔ Gives write part a := by
  cases part with
  | none => cases a <;> simp [may, Gives]
  | some v =>
      by_cases hv : v = .null
      · subst hv
        cases a with
        | none => simp [may, Gives]
        | some a => simpa [may, Gives] using (hnull a).symm
      · have hmay : may read? (some v) = (read? v).map some := by
          cases v <;> first | rfl | exact absurd rfl hv
        rw [hmay, Option.map_eq_some_iff]
        cases a with
        | none => simp [Gives, hv]
        | some a => simp [Gives, hread]

theorem Gives.isSound {α : Type} {write : α → Json} (hwrite : ∀ a, (write a).isSound = true)
    {part : Option Json} {a : Option α} (h : Gives write part a) {w : Json}
    (hw : part = some w) : w.isSound = true := by
  subst hw
  cases a with
  | none =>
      rcases h with h | h
      · cases h
      · obtain rfl := Option.some.inj h
        rfl
  | some a =>
      obtain rfl := Option.some.inj h
      exact hwrite a

/-- A number of one byte is written in plain digits. -/
def ofByte (n : UInt8) : Json :=
  .nat n.toNat

theorem byte?_eq_some_iff {v : Json} {n : UInt8} : byte? v = some n ↔ v = ofByte n := by
  constructor
  · intro h
    obtain ⟨k, hk, rfl⟩ := Option.map_eq_some_iff.1 h
    cases v with
    | num number =>
        obtain ⟨hnumber, hsmall⟩ := Option.filter_eq_some_iff.1 hk
        obtain ⟨negative, whole, fraction, exponent⟩ := number
        simp only [Number.toNat?, Number.isPlain, Bool.and_eq_true, List.isEmpty_iff,
          Option.isNone_iff_eq_none, Bool.not_eq_true', Option.ite_none_right_eq_some,
          Option.some.injEq] at hnumber
        obtain ⟨⟨⟨rfl, rfl⟩, rfl⟩, rfl⟩ := hnumber
        rw [ofByte, Nat.toUInt8, UInt8.toNat_ofNat_of_lt' (of_decide_eq_true hsmall)]
        rfl
    | null => cases hk
    | bool b => cases hk
    | str s => cases hk
    | arr items => cases hk
    | obj members => cases hk
  · rintro rfl
    exact byte?_nat n

theorem flag?_eq_some_iff {v : Json} {b : Bool} : flag? v = some b ↔ v = .bool b := by
  cases v <;> simp [flag?]

/-! ## Names -/

/-- A value names something: it is the name, or an object with this one member, which is null. -/
def Names (v : Json) (name : String) : Prop :=
  v = text name ∨ v = record [(name, .null)]

theorem variant?_eq_some_iff {v : Json} {name : String} :
    v.variant? = some name ↔ v.Names name := by
  constructor
  · intro h
    unfold variant? at h
    split at h
    · exact .inl (congrArg Json.str h)
    · exact .inr (by rw [h]; rfl)
    · cases h
  · rintro (rfl | rfl) <;> rfl

theorem Names.isSound {v : Json} {name : String} (h : v.Names name) : v.isSound = true := by
  rcases h with rfl | rfl
  · exact isSound_text name
  · rfl

theorem record_injective : Function.Injective record := by
  intro ms ns h
  exact Option.some.inj ((named?_eq_some_iff.2 rfl).symm.trans (named?_eq_some_iff.2 h))

/-- A value has its parts in one way. -/
theorem HasParts.eq {names : List String} {v : Json} {part other : String → Option Json}
    (h : v.HasParts names part) (hother : v.HasParts names other) : part = other := by
  cases h with
  | object members known once =>
      generalize hv : record members = v at hother
      cases hother with
      | object members' known' once' => rw [record_injective hv]
      | list items short => cases hv
  | list items short =>
      cases hother with
      | list => rfl

/-- A record with some names does not name anything else. -/
theorem not_names_of_hasParts {names : List String} {v : Json} {part : String → Option Json}
    (h : v.HasParts names part) {name : String} (hname : name ∉ names) : ¬v.Names name := by
  intro hnames
  cases h with
  | object members known once =>
      rcases hnames with heq | heq
      · cases heq
      · obtain rfl := record_injective heq
        exact hname (known _ List.mem_cons_self)
  | list items short => rcases hnames with heq | heq <;> cases heq

end Json

namespace RuleSetting

/-! ## The two forms of a setting -/

/-- The word that switches a rule on or off. -/
def word (on : Bool) : String :=
  if on then "on" else "off"

/-- The names of the parts of a rule. -/
def partNames : List String :=
  ["penalty", "fatal", "enabled"]

theorem nodup_partNames : partNames.Nodup := by
  decide

/-- The value is a record of parts that stand for these changes. -/
def Describes (v : Json) (penalty : Option UInt8) (fatal enabled : Option Bool) : Prop :=
  ∃ part, v.HasParts partNames part ∧ Json.Gives Json.ofByte (part "penalty") penalty ∧
    Json.Gives Json.bool (part "fatal") fatal ∧ Json.Gives Json.bool (part "enabled") enabled

theorem toggleOfJson?_eq_some_iff {v : Json} {s : RuleSetting} :
    toggleOfJson? v = some s ↔ ∃ on, v.Names (word on) ∧ s = .toggle on := by
  constructor
  · intro h
    unfold toggleOfJson? at h
    split at h
    · rename_i hname
      exact ⟨true, Json.variant?_eq_some_iff.1 hname, (Option.some.inj h).symm⟩
    · rename_i hname
      exact ⟨false, Json.variant?_eq_some_iff.1 hname, (Option.some.inj h).symm⟩
    · cases h
  · rintro ⟨on, hname, rfl⟩
    rw [toggleOfJson?, Json.variant?_eq_some_iff.2 hname]
    cases on <;> rfl

theorem customOfJson?_eq_some_iff {v : Json} {s : RuleSetting} :
    customOfJson? v = some s ↔ ∃ penalty fatal enabled, Describes v penalty fatal enabled ∧
      s = .custom penalty fatal enabled := by
  have hfields : customFields = Json.optional partNames := rfl
  have hbyte : ∀ {part a}, Json.may Json.byte? part = some a ↔ Json.Gives Json.ofByte part a :=
    Json.may_eq_some_iff (fun _ _ => Json.byte?_eq_some_iff) fun _ => Json.noConfusion
  have hflag : ∀ {part a}, Json.may Json.flag? part = some a ↔ Json.Gives Json.bool part a :=
    Json.may_eq_some_iff (fun _ _ => Json.flag?_eq_some_iff) fun _ => Json.noConfusion
  constructor
  · intro h
    obtain ⟨slots, hslots, h⟩ := Option.bind_eq_some_iff.1 h
    rw [hfields, Json.slots?_strict_iff nodup_partNames] at hslots
    obtain ⟨part, hparts, rfl⟩ := hslots
    simp only [partNames, List.map_cons, List.map_nil, Option.bind_eq_bind,
      Option.bind_eq_some_iff] at h
    obtain ⟨penalty, hpenalty, fatal, hfatal, enabled, henabled, heq⟩ := h
    exact ⟨penalty, fatal, enabled, ⟨part, hparts, hbyte.1 hpenalty, hflag.1 hfatal,
      hflag.1 henabled⟩, (Option.some.inj heq).symm⟩
  · rintro ⟨penalty, fatal, enabled, ⟨part, hparts, hpenalty, hfatal, henabled⟩, rfl⟩
    have hslots := (Json.slots?_strict_iff nodup_partNames).2 ⟨part, hparts, rfl⟩
    rw [customOfJson?, hfields, hslots]
    simp only [partNames, List.map_cons, List.map_nil, Option.bind_eq_bind, Option.bind_some,
      hbyte.2 hpenalty, hflag.2 hfatal, hflag.2 henabled]
    rfl

theorem Describes.isSound {v : Json} {penalty : Option UInt8} {fatal enabled : Option Bool}
    (h : Describes v penalty fatal enabled) : v.isSound = true := by
  obtain ⟨part, hparts, hpenalty, hfatal, henabled⟩ := h
  refine hparts.isSound nodup_partNames fun name hname w hw => ?_
  rw [partNames, List.mem_cons, List.mem_cons, List.mem_singleton] at hname
  rcases hname with rfl | rfl | rfl
  · exact hpenalty.isSound Json.isSound_byte hw
  · exact hfatal.isSound Json.isSound_bool hw
  · exact henabled.isSound Json.isSound_bool hw

/-- No value has both forms. -/
theorem toggle_none_or_custom_none (v : Json) :
    toggleOfJson? v = none ∨ customOfJson? v = none := by
  cases htoggle : toggleOfJson? v with
  | none => exact .inl rfl
  | some s =>
      refine .inr (Option.eq_none_iff_forall_ne_some.2 fun t hcustom => ?_)
      obtain ⟨on, hname, -⟩ := toggleOfJson?_eq_some_iff.1 htoggle
      obtain ⟨_, _, _, ⟨part, hparts, -⟩, -⟩ := customOfJson?_eq_some_iff.1 hcustom
      exact Json.not_names_of_hasParts hparts (by cases on <;> decide) hname

/-- Whatever has one of the forms is sound as a whole. -/
theorem ofJson?_eq_or (v : Json) : ofJson? v = (toggleOfJson? v).or (customOfJson? v) := by
  rw [ofJson?]
  cases hsound : v.isSound with
  | true => rfl
  | false =>
      have htoggle : toggleOfJson? v = none := by
        refine Option.eq_none_iff_forall_ne_some.2 fun s hs => ?_
        obtain ⟨on, hname, -⟩ := toggleOfJson?_eq_some_iff.1 hs
        rw [hname.isSound] at hsound
        cases hsound
      have hcustom : customOfJson? v = none := by
        refine Option.eq_none_iff_forall_ne_some.2 fun s hs => ?_
        obtain ⟨_, _, _, hdescribes, -⟩ := customOfJson?_eq_some_iff.1 hs
        rw [hdescribes.isSound] at hsound
        cases hsound
      rw [htoggle, hcustom]
      rfl

/-- A setting is read from either form. -/
theorem ofJson?_eq_some_iff {v : Json} {s : RuleSetting} :
    ofJson? v = some s ↔ toggleOfJson? v = some s ∨ customOfJson? v = some s := by
  rw [ofJson?_eq_or]
  rcases toggle_none_or_custom_none v with h | h <;> simp [h]

theorem ofJson?_eq_toggle_iff {v : Json} {on : Bool} :
    ofJson? v = some (.toggle on) ↔ v.Names (word on) := by
  rw [ofJson?_eq_some_iff, toggleOfJson?_eq_some_iff, customOfJson?_eq_some_iff]
  simp

theorem ofJson?_eq_custom_iff {v : Json} {penalty : Option UInt8} {fatal enabled : Option Bool} :
    ofJson? v = some (.custom penalty fatal enabled) ↔ Describes v penalty fatal enabled := by
  rw [ofJson?_eq_some_iff, toggleOfJson?_eq_some_iff, customOfJson?_eq_some_iff]
  constructor
  · rintro (⟨on, -, heq⟩ | ⟨p, f, e, hdescribes, heq⟩)
    · cases heq
    · obtain ⟨rfl, rfl, rfl⟩ := custom.inj heq
      exact hdescribes
  · exact fun h => .inr ⟨penalty, fatal, enabled, h, rfl⟩

theorem ofJson?_eq_none_iff {v : Json} :
    ofJson? v = none ↔ (∀ on, ¬v.Names (word on)) ∧
      ∀ penalty fatal enabled, ¬Describes v penalty fatal enabled := by
  constructor
  · intro h
    refine ⟨fun on hname => ?_, fun penalty fatal enabled hdescribes => ?_⟩
    · rw [ofJson?_eq_toggle_iff.2 hname] at h
      cases h
    · rw [ofJson?_eq_custom_iff.2 hdescribes] at h
      cases h
  · rintro ⟨htoggle, hcustom⟩
    refine Option.eq_none_iff_forall_ne_some.2 fun s hs => ?_
    cases s with
    | toggle on => exact htoggle on (ofJson?_eq_toggle_iff.1 hs)
    | custom penalty fatal enabled => exact hcustom _ _ _ (ofJson?_eq_custom_iff.1 hs)

/-! ## What a setting changes -/

/-- One table becomes another by a record of parts for a rule: in the entry of this rule, the parts
change what they are about, and everything else stays. -/
structure Turns (rule : Rule) (part : String → Option Json) (t u : RuleTable) : Prop where
  penalty : Json.Changes Json.ofByte (part "penalty") (t.entry rule).penalty (u.entry rule).penalty
  fatal : Json.Changes Json.bool (part "fatal") (t.entry rule).fatal (u.entry rule).fatal
  enabled : Json.Changes Json.bool (part "enabled") (t.entry rule).enabled (u.entry rule).enabled
  others : ∀ other, other ≠ rule → u.entry other = t.entry other
  exceptPass : u.exceptPass = t.exceptPass

theorem turns_apply {part : String → Option Json} {penalty : Option UInt8}
    {fatal enabled : Option Bool} (hpenalty : Json.Gives Json.ofByte (part "penalty") penalty)
    (hfatal : Json.Gives Json.bool (part "fatal") fatal)
    (henabled : Json.Gives Json.bool (part "enabled") enabled) (rule : Rule) (t : RuleTable) :
    Turns rule part t ((custom penalty fatal enabled).apply rule t) where
  penalty := by
    rw [apply, RuleTable.entry_modify, if_pos rfl]
    exact hpenalty.changes _
  fatal := by
    rw [apply, RuleTable.entry_modify, if_pos rfl]
    exact hfatal.changes _
  enabled := by
    rw [apply, RuleTable.entry_modify, if_pos rfl]
    exact henabled.changes _
  others other hother := by rw [apply, RuleTable.entry_modify, if_neg hother]
  exceptPass := rfl

/-- How a value is read as the setting of a rule.  A word switches the rule on or off; a strict
record of a penalty, a blocking and a switch, each of which may be missing or null, changes
exactly what it holds; and everything else is refused.  No value is both, so it does not matter
which form is tried first. -/
theorem ofJson?_forms (v : Json) :
    (∀ on, ofJson? v = some (.toggle on) ↔ v.Names (word on)) ∧
    (∀ penalty fatal enabled, ofJson? v = some (.custom penalty fatal enabled) ↔
      ∃ part, v.HasParts partNames part ∧ Json.Gives Json.ofByte (part "penalty") penalty ∧
        Json.Gives Json.bool (part "fatal") fatal ∧
        Json.Gives Json.bool (part "enabled") enabled) ∧
    (ofJson? v = none ↔ (∀ on, ¬v.Names (word on)) ∧
      ∀ penalty fatal enabled, ¬Describes v penalty fatal enabled) ∧
    (toggleOfJson? v = none ∨ customOfJson? v = none) ∧
    (toggleOfJson? v).or (customOfJson? v) = (customOfJson? v).or (toggleOfJson? v) ∧
    ∀ penalty fatal enabled, ofJson? v = some (.custom penalty fatal enabled) →
      ∀ part, v.HasParts partNames part →
        ∀ rule t, Turns rule part t ((custom penalty fatal enabled).apply rule t) := by
  refine ⟨fun on => ofJson?_eq_toggle_iff, fun _ _ _ => ofJson?_eq_custom_iff,
    ofJson?_eq_none_iff, toggle_none_or_custom_none v, ?_,
    fun penalty fatal enabled h part hparts => ?_⟩
  · rcases toggle_none_or_custom_none v with h | h <;> simp [h]
  · obtain ⟨other, hother, hpenalty, hfatal, henabled⟩ := ofJson?_eq_custom_iff.1 h
    obtain rfl := hother.eq hparts
    exact turns_apply hpenalty hfatal henabled

/-- A record with a penalty and a null, in another order than the fields. -/
def halfFilled : Json :=
  .record [("enabled", .null), ("penalty", .nat 255)]

/-- The record is read as a change of the penalty only, and that is what it does to a rule.  A
list is read in the order of the fields, and a repeated name, a fourth item and a penalty of two
bytes are refused. -/
theorem ofJson?_forms_halfFilled :
    ofJson? halfFilled = some (.custom (some 255) none none) ∧
    (∀ rule, Turns rule (fun name => [("enabled", .null), ("penalty", .nat 255)].lookup name)
      Preset.standard.table
      ((custom (some 255) none none).apply rule Preset.standard.table)) ∧
    ofJson? (.arr [.null, .bool true]) = some (.custom none (some true) none) ∧
    ofJson? (.record [("fatal", .null), ("fatal", .bool true)]) = none ∧
    ofJson? (.arr [.null, .null, .null, .null]) = none ∧
    ofJson? (.record [("penalty", .nat 256)]) = none := by
  have hread : ofJson? halfFilled = some (.custom (some 255) none none) := by decide +kernel
  have hparts : halfFilled.HasParts partNames
      fun name => [("enabled", .null), ("penalty", .nat 255)].lookup name :=
    .object [("enabled", .null), ("penalty", .nat 255)] (by simp [partNames]) (by decide)
  obtain ⟨-, -, -, -, -, hturns⟩ := ofJson?_forms halfFilled
  exact ⟨hread, fun rule => hturns _ _ _ hread _ hparts rule Preset.standard.table,
    by decide +kernel⟩

end RuleSetting
end Neatness
