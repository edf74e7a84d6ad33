import Neatness.Proofs.JsonTokens

/-!
# Reading what was written

The text of a value is read as that value, however it is laid out, if every string in it denotes
text (`Json.isText`); a string that does not is written as something else.

The proof goes by the tokens of a value.  `Cuts` says that a text is cut into certain tokens
whatever follows it, and `scan_writeAt` that the text of a value is cut into the tokens of the
value, unless it is a number and the number goes on behind it.  `build_tokens` puts these tokens
together again.
-/

namespace Neatness
namespace Json

/-! ## Texts that are cut into tokens -/

/-- The text is cut into the tokens, whatever follows it. -/
def Cuts (cs : List Char) (ts : List Token) : Prop :=
  ∀ rest, Token.scan (cs ++ rest) = (Token.scan rest).map (ts ++ ·)

namespace Cuts

variable {cs ds : List Char} {ts us : List Token}

theorem nil : Cuts [] [] := fun rest => by
  simp

theorem append (h : Cuts cs ts) (k : Cuts ds us) : Cuts (cs ++ ds) (ts ++ us) := fun rest => by
  rw [List.append_assoc, h, k, Option.map_map]
  simp [Function.comp_def]

/-- A text between two that are cut whatever follows: only what follows it there matters. -/
theorem scan_between {value rest : List Char} {vs : List Token} (h : Cuts cs ts)
    (hvalue : Token.scan (value ++ (ds ++ rest)) = (Token.scan (ds ++ rest)).map (vs ++ ·))
    (k : Cuts ds us) :
    Token.scan (cs ++ value ++ ds ++ rest) = (Token.scan rest).map (ts ++ (vs ++ us) ++ ·) := by
  rw [List.append_assoc, List.append_assoc, h, hvalue, k, Option.map_map, Option.map_map]
  simp [Function.comp_def]

theorem ofSpace {c : Char} (hc : isSpace c = true) : Cuts [c] [] := fun rest => by
  rw [List.singleton_append, Token.scan_space hc]
  simp

/-- A word that is read as such whatever follows. -/
theorem ofRead {t : Token} (h : ∀ rest, Token.read? (cs ++ rest) = some (t, rest)) :
    Cuts cs [t] :=
  fun rest => Token.scan_of_read? (h rest)

theorem quoted (s : String) : Cuts (quote s) [.str (some s)] :=
  ofRead (Token.read?_quote s)

theorem openArr : Cuts ['['] [.openArr] := ofRead fun _ => rfl

theorem closeArr : Cuts [']'] [.closeArr] := ofRead fun _ => rfl

theorem openObj : Cuts ['\x7b'] [.openObj] := ofRead fun _ => rfl

theorem closeObj : Cuts ['\x7d'] [.closeObj] := ofRead fun _ => rfl

theorem comma : Cuts [','] [.comma] := ofRead fun _ => rfl

theorem newline (layout : Layout) (level : Nat) : Cuts (layout.newline level) [] := by
  have hspaces : ∀ n, Cuts (List.replicate n ' ') [] := by
    intro n
    induction n with
    | zero => exact nil
    | succ n ih => exact (ofSpace rfl).append ih
  cases layout with
  | compact => exact nil
  | pretty => exact (ofSpace rfl).append (hspaces _)

theorem colon (layout : Layout) : Cuts layout.colon [.colon] := by
  have hcolon : Cuts [':'] [.colon] := ofRead fun _ => rfl
  cases layout with
  | compact => exact hcolon
  | pretty => exact hcolon.append (ofSpace rfl)

/-- The name of a member, on a line of its own behind an opening brace or a comma. -/
theorem name {t : Token} (h : Cuts cs [t]) (layout : Layout) (level : Nat) (s : String) :
    Cuts (cs ++ layout.newline level ++ quote s ++ layout.colon) [t, .str (some s), .colon] :=
  ((h.append (newline layout level)).append (quoted s)).append (colon layout)

end Cuts

/-! ## The tokens of a value -/

mutual

/-- The tokens of a value. -/
def tokens : Json → List Token
  | .null => [.null]
  | .bool b => [.bool b]
  | .num n => [.num n]
  | .str s => [.str s]
  | .arr [] => [.openArr, .closeArr]
  | .arr (v :: vs) => .openArr :: (tokens v ++ itemTokens vs)
  | .obj [] => [.openObj, .closeObj]
  | .obj ((s, v) :: ms) => .openObj :: .str s :: .colon :: (tokens v ++ memberTokens ms)

/-- The tokens of the items behind the first one, and of the end of the list. -/
def itemTokens : List Json → List Token
  | [] => [.closeArr]
  | v :: vs => .comma :: (tokens v ++ itemTokens vs)

/-- The tokens of the members behind the first one, and of the end of the object. -/
def memberTokens : List (Option String × Json) → List Token
  | [] => [.closeObj]
  | (s, v) :: ms => .comma :: .str s :: .colon :: (tokens v ++ memberTokens ms)

end

mutual

/-- Every string of the value denotes text. -/
def isText : Json → Bool
  | .str s => s.isSome
  | .arr items => areText items
  | .obj members => membersText members
  | _ => true

/-- Every string of several values denotes text. -/
def areText : List Json → Bool
  | [] => true
  | v :: vs => isText v && areText vs

/-- Every string of several members denotes text. -/
def membersText : List (Option String × Json) → Bool
  | [] => true
  | (name, v) :: ms => name.isSome && isText v && membersText ms

end

mutual

/-- A sound value is text throughout. -/
theorem isText_of_isSound : ∀ {v : Json}, v.isSound = true → v.isText = true
  | .null, _ => by simp [isText]
  | .bool _, _ => by simp [isText]
  | .num _, _ => by simp [isText]
  | .str _, h => by simpa [isText, isSound] using h
  | .arr vs, h => by
      rw [isSound] at h
      rw [isText]
      exact areText_of_areSound h
  | .obj ms, h => by
      rw [isSound] at h
      rw [isText]
      exact membersText_of_membersSound h

theorem areText_of_areSound : ∀ {vs : List Json}, areSound vs = true → areText vs = true
  | [], _ => by simp [areText]
  | v :: vs, h => by
      simp only [areSound, Bool.and_eq_true] at h
      simp [areText, isText_of_isSound h.1, areText_of_areSound h.2]

theorem membersText_of_membersSound :
    ∀ {ms : List (Option String × Json)}, membersSound ms = true → membersText ms = true
  | [], _ => by simp [membersText]
  | (name, v) :: ms, h => by
      simp only [membersSound, Bool.and_eq_true] at h
      simp [membersText, h.1.1, isText_of_isSound h.1.2, membersText_of_membersSound h.2]

end

/-! ## Cutting the text of a value -/

/-- Behind a value in a list there is no digit, whatever the layout. -/
theorem endsNumber_writeItems (layout : Layout) (level : Nat) (vs : List Json) (rest : List Char) :
    endsNumber (writeItems layout level vs ++ rest) = true := by
  cases vs <;> cases layout <;> rfl

theorem endsNumber_writeMembers (layout : Layout) (level : Nat)
    (ms : List (Option String × Json)) (rest : List Char) :
    endsNumber (writeMembers layout level ms ++ rest) = true := by
  cases ms <;> cases layout <;> rfl

mutual

/-- The text of a value is cut into its tokens, unless a number goes on behind it. -/
theorem scan_writeAt (layout : Layout) : ∀ (v : Json) (level : Nat) (rest : List Char),
    v.isText = true → endsNumber rest = true →
      Token.scan (writeAt layout level v ++ rest) = (Token.scan rest).map (tokens v ++ ·)
  | .null, _, rest, _, _ => Token.scan_of_read? rfl
  | .bool true, _, rest, _, _ => Token.scan_of_read? rfl
  | .bool false, _, rest, _, _ => Token.scan_of_read? rfl
  -- Only a number can go on behind its own text.
  | .num n, _, rest, _, hrest => Token.scan_of_read? (Token.read?_writeNumber n hrest)
  | .str (some s), _, rest, _, _ => Cuts.quoted s rest
  | .arr [], _, rest, _, _ => Cuts.openArr.append Cuts.closeArr rest
  | .arr (v :: vs), level, rest, htext, _ => by
      simp only [isText, areText, Bool.and_eq_true] at htext
      have hfront := Cuts.openArr.append (Cuts.newline layout (level + 1))
      have hv := scan_writeAt layout v (level + 1) (writeItems layout level vs ++ rest) htext.1
        (endsNumber_writeItems layout level vs rest)
      rw [writeAt, tokens]
      exact hfront.scan_between hv (cuts_writeItems layout vs level htext.2)
  | .obj [], _, rest, _, _ => Cuts.openObj.append Cuts.closeObj rest
  | .obj ((some s, v) :: ms), level, rest, htext, _ => by
      simp only [isText, membersText, Bool.and_eq_true] at htext
      have hfront := Cuts.openObj.name layout (level + 1) s
      have hv := scan_writeAt layout v (level + 1) (writeMembers layout level ms ++ rest) htext.1.2
        (endsNumber_writeMembers layout level ms rest)
      rw [writeAt, tokens]
      exact hfront.scan_between hv (cuts_writeMembers layout ms level htext.2)

/-- So is the rest of a list, whatever follows. -/
theorem cuts_writeItems (layout : Layout) : ∀ (vs : List Json) (level : Nat),
    areText vs = true → Cuts (writeItems layout level vs) (itemTokens vs)
  | [], level, _ => (Cuts.newline layout level).append .closeArr
  | v :: vs, level, htext => fun rest => by
      simp only [areText, Bool.and_eq_true] at htext
      have hfront := Cuts.comma.append (Cuts.newline layout (level + 1))
      have hv := scan_writeAt layout v (level + 1) (writeItems layout level vs ++ rest) htext.1
        (endsNumber_writeItems layout level vs rest)
      rw [writeItems, itemTokens]
      exact hfront.scan_between hv (cuts_writeItems layout vs level htext.2)

/-- So is the rest of an object, whatever follows. -/
theorem cuts_writeMembers (layout : Layout) : ∀ (ms : List (Option String × Json)) (level : Nat),
    membersText ms = true → Cuts (writeMembers layout level ms) (memberTokens ms)
  | [], level, _ => (Cuts.newline layout level).append .closeObj
  | (some s, v) :: ms, level, htext => fun rest => by
      simp only [membersText, Bool.and_eq_true] at htext
      have hfront := Cuts.comma.name layout (level + 1) s
      have hv := scan_writeAt layout v (level + 1) (writeMembers layout level ms ++ rest) htext.1.2
        (endsNumber_writeMembers layout level ms rest)
      rw [writeMembers, memberTokens]
      exact hfront.scan_between hv (cuts_writeMembers layout ms level htext.2)

end

/-! ## Putting the tokens together -/

/-- In a list that has just been opened, a value is its first item. -/
theorem build_firstItem (v : Json) (stack : List Frame) (ts : List Token) :
    build .firstItem stack (tokens v ++ ts) = build .value (.arr [] :: stack) (tokens v ++ ts) := by
  cases v with
  | null => rfl
  | bool b => rfl
  | num n => rfl
  | str s => rfl
  | arr vs => cases vs <;> rfl
  | obj ms => cases ms <;> rfl

mutual

/-- The tokens of a value are put together as the value. -/
theorem build_tokens : ∀ (v : Json) (stack : List Frame) (ts : List Token),
    build .value stack (tokens v ++ ts) = build (.after v) stack ts
  | .null, _, _ => rfl
  | .bool _, _, _ => rfl
  | .num _, _, _ => rfl
  | .str _, _, _ => rfl
  | .arr [], _, _ => rfl
  | .arr (v :: vs), stack, ts => by
      -- The list waits on the stack, empty at first, while its items are read.
      have hv := build_tokens v (.arr [] :: stack) (itemTokens vs ++ ts)
      have hvs := build_itemTokens vs [] v stack ts
      rw [tokens, List.cons_append, List.append_assoc]
      refine (build_firstItem v stack (itemTokens vs ++ ts)).trans ?_
      rw [hv, hvs]
      rfl
  | .obj [], _, _ => rfl
  | .obj ((s, v) :: ms), stack, ts => by
      have hv := build_tokens v (.obj [] s :: stack) (memberTokens ms ++ ts)
      have hms := build_memberTokens ms [] s v stack ts
      rw [tokens, List.cons_append, List.cons_append, List.cons_append, List.append_assoc]
      refine Eq.trans ?_ (hv.trans hms)
      rfl

theorem build_itemTokens : ∀ (vs done : List Json) (v : Json) (stack : List Frame)
    (ts : List Token), build (.after v) (.arr done :: stack) (itemTokens vs ++ ts) =
      build (.after (.arr (done.reverse ++ v :: vs))) stack ts
  | [], done, v, stack, ts => by
      rw [← List.reverse_cons]
      rfl
  | w :: vs, done, v, stack, ts => by
      have hw := build_tokens w (.arr (v :: done) :: stack) (itemTokens vs ++ ts)
      have hvs := build_itemTokens vs (v :: done) w stack ts
      rw [List.reverse_cons, List.append_assoc] at hvs
      rw [itemTokens, List.cons_append, List.append_assoc]
      exact hw.trans hvs

theorem build_memberTokens : ∀ (ms done : List (Option String × Json)) (s : Option String)
    (v : Json) (stack : List Frame) (ts : List Token),
    build (.after v) (.obj done s :: stack) (memberTokens ms ++ ts) =
      build (.after (.obj (done.reverse ++ (s, v) :: ms))) stack ts
  | [], done, s, v, stack, ts => by
      rw [← List.reverse_cons]
      rfl
  | (s', w) :: ms, done, s, v, stack, ts => by
      have hw := build_tokens w (.obj ((s, v) :: done) s' :: stack) (memberTokens ms ++ ts)
      have hms := build_memberTokens ms ((s, v) :: done) s' w stack ts
      rw [List.reverse_cons, List.append_assoc] at hms
      rw [memberTokens, List.cons_append, List.cons_append, List.cons_append, List.append_assoc]
      exact hw.trans hms

end

/-- A text that is cut into the tokens of a value is read as the value. -/
theorem parse_of_scan {text : String} {v : Json} (h : Token.scan text.toList = some (tokens v)) :
    parse text = some v := by
  have hbuild := build_tokens v [] []
  rw [List.append_nil] at hbuild
  rw [parse, h, Option.bind_some, hbuild]
  rfl

/-- What was written is read as the value that it was written for. -/
theorem parse_write {v : Json} (h : v.isText = true) (layout : Layout) :
    parse (v.write layout) = some v := by
  have hscan := scan_writeAt layout v 0 [] h rfl
  rw [List.append_nil, Token.scan_nil, Option.map_some, List.append_nil] at hscan
  refine parse_of_scan ?_
  rw [write, String.toList_ofList, hscan]

end Json
end Neatness
