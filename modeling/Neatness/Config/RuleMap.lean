import Neatness.RuleTable

/-!
# Rule settings

A configuration adjusts rules by name.  A setting switches a rule on or off, or changes some of its
numbers; what it does not mention stays as it is.  `RuleMap` holds the settings of one layer, sorted
by name and with every name once, so that two maps with the same settings are the same value.
-/

namespace Neatness

/-- How a configuration adjusts a rule. -/
inductive RuleSetting where
  | toggle (on : Bool)
  /-- Change the parts that are given. -/
  | custom (penalty : Option UInt8) (fatal enabled : Option Bool)
deriving DecidableEq, Repr

namespace RuleSetting

def penalty? : RuleSetting → Option UInt8
  | toggle _ => none
  | custom penalty _ _ => penalty

def fatal? : RuleSetting → Option Bool
  | toggle _ => none
  | custom _ fatal _ => fatal

def enabled? : RuleSetting → Option Bool
  | toggle on => some on
  | custom _ _ enabled => enabled

def adjust (s : RuleSetting) (e : RuleEntry) : RuleEntry where
  penalty := s.penalty?.getD e.penalty
  fatal := s.fatal?.getD e.fatal
  enabled := s.enabled?.getD e.enabled

def apply (s : RuleSetting) (rule : Rule) (t : RuleTable) : RuleTable :=
  t.modify rule s.adjust

end RuleSetting

/-- The settings of one layer, by name. -/
structure RuleMap where
  entries : List (String × RuleSetting)
  sorted : entries.Pairwise (fun a b => a.1 < b.1)
deriving DecidableEq

namespace RuleMap

def empty : RuleMap := ⟨[], .nil⟩

/-- Settings with one more, which takes the place of one under the same name. -/
def insertInto (name : String) (s : RuleSetting) :
    List (String × RuleSetting) → List (String × RuleSetting)
  | [] => [(name, s)]
  | (other, t) :: rest =>
    if name < other then (name, s) :: (other, t) :: rest
    else if name = other then (name, s) :: rest
    else (other, t) :: insertInto name s rest

/-- The names after an insertion are the new one and those that were there. -/
theorem mem_insertInto {name : String} {s : RuleSetting} {l : List (String × RuleSetting)}
    {e : String × RuleSetting} (h : e ∈ insertInto name s l) : e = (name, s) ∨ e ∈ l := by
  induction l with
  | nil => simpa [insertInto] using h
  | cons head rest ih =>
    obtain ⟨other, t⟩ := head
    simp only [insertInto] at h
    split at h
    · simpa using h
    · split at h
      · rcases List.mem_cons.1 h with h | h
        · exact .inl h
        · exact .inr (List.mem_cons_of_mem _ h)
      · rcases List.mem_cons.1 h with h | h
        · exact .inr (h ▸ List.mem_cons_self)
        · exact (ih h).imp id (List.mem_cons_of_mem _)

/-- An insertion keeps the names ascending. -/
theorem pairwise_insertInto (name : String) (s : RuleSetting) {l : List (String × RuleSetting)}
    (h : l.Pairwise fun a b => a.1 < b.1) :
    (insertInto name s l).Pairwise fun a b => a.1 < b.1 := by
  induction l with
  | nil => simp [insertInto]
  | cons head rest ih =>
    obtain ⟨other, t⟩ := head
    have below := List.pairwise_cons.1 h
    simp only [insertInto]
    split
    · next lt =>
      refine List.pairwise_cons.2 ⟨fun e he => ?_, h⟩
      rcases List.mem_cons.1 he with rfl | he
      · exact lt
      · exact String.lt_trans lt (below.1 e he)
    · split
      · next eq =>
        subst eq
        exact List.pairwise_cons.2 ⟨below.1, below.2⟩
      · next notLt ne =>
        refine List.pairwise_cons.2 ⟨fun e he => ?_, ih below.2⟩
        rcases mem_insertInto he with rfl | he
        · exact Std.lt_of_le_of_ne (String.not_lt.1 notLt) (Ne.symm ne)
        · exact below.1 e he

/-- Put a setting under a name, instead of one that is there. -/
def insert (m : RuleMap) (name : String) (s : RuleSetting) : RuleMap :=
  ⟨insertInto name s m.entries, pairwise_insertInto name s m.sorted⟩

def get? (m : RuleMap) (name : String) : Option RuleSetting :=
  m.entries.lookup name

/-- The settings of a list; of several under one name the last one counts. -/
def ofList (l : List (String × RuleSetting)) : RuleMap :=
  l.foldl (fun m e => m.insert e.1 e.2) empty

/-- One layer over another: the upper layer's settings win. -/
def atop (upper lower : RuleMap) : RuleMap :=
  upper.entries.foldl (fun m e => m.insert e.1 e.2) lower

end RuleMap

/-- A name in a configuration that is no rule's. -/
structure UnknownRule where
  name : String
deriving DecidableEq, Repr

/-- A table after the settings of one layer, by ascending name; the first name that is no rule's
ends it. -/
def RuleMap.applyAll : List (String × RuleSetting) → RuleTable → Except UnknownRule RuleTable
  | [], t => .ok t
  | (name, s) :: rest, t =>
    match Rule.ofName? name with
    | some r => applyAll rest (s.apply r t)
    | none => .error ⟨name⟩

/-- A table after the settings of one layer. -/
def RuleMap.apply (m : RuleMap) (t : RuleTable) : Except UnknownRule RuleTable :=
  applyAll m.entries t

end Neatness
