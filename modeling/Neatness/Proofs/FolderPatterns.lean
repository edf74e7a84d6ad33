import Neatness.Glob.Set

/-!
# Patterns behind any folders

A pattern sees the bytes of a path, so a pattern for `w/a.py` says nothing about `/home/w/a.py`.  A
pattern that starts with any folders does: whatever it selects, it selects behind every folder
(`selects_behind_folder`).

The matcher keeps marks on the places of the path.  `Marks.Carries` says that the marks on a longer
path hold all marks on its end, moved by the length of its front.  Every element of a pattern keeps
that (`carries_advance`, and `carries_advanceAll`, `carries_advanceAny` for several), and any folders
bring it about if the front ends in a slash (`carries_leadingFolders`).
-/

namespace Neatness
namespace Glob

namespace Marks

/-! ## Which places are marked -/

theorem getElem?_step_succ {p : UInt8 → Bool} {marks : Marks} {path : List UInt8} {i : Nat} :
    (marks.step p path)[i + 1]? = some true ↔
      marks[i]? = some true ∧ ∃ b, path[i]? = some b ∧ p b = true := by
  simp only [step, List.getElem?_cons_succ, List.getElem?_zipWith_eq_some, Bool.and_eq_true]
  constructor
  · rintro ⟨mark, b, hmark, hb, rfl, hp⟩
    exact ⟨hmark, b, hb, hp⟩
  · rintro ⟨hmark, b, hb, hp⟩
    exact ⟨true, b, hmark, hb, rfl, hp⟩

theorem length_spread (reached : Bool) (marks : Marks) :
    (marks.spread reached).length = marks.length := by
  induction marks generalizing reached with
  | nil => rfl
  | cons mark marks ih => rw [spread, List.length_cons, List.length_cons, ih]

/-- Any bytes reach all places behind a mark. -/
theorem getElem?_spread {reached : Bool} {marks : Marks} {i : Nat} :
    (marks.spread reached)[i]? = some true ↔
      i < marks.length ∧ (reached = true ∨ ∃ j ≤ i, marks[j]? = some true) := by
  induction marks generalizing reached i with
  | nil => simp [spread]
  | cons mark marks ih =>
      cases i with
      | zero => simp [spread]
      | succ i =>
          rw [spread, List.getElem?_cons_succ, ih, Bool.or_eq_true, List.length_cons,
            Nat.add_lt_add_iff_right, or_assoc]
          refine and_congr_right fun _ => or_congr_right ?_
          constructor
          · rintro (hmark | ⟨j, hj, hmark⟩)
            · exact ⟨0, Nat.zero_le _, by simpa using hmark⟩
            · exact ⟨j + 1, Nat.succ_le_succ hj, by simpa using hmark⟩
          · rintro ⟨j, hj, hmark⟩
            cases j with
            | zero => exact .inl (by simpa using hmark)
            | succ j => exact .inr ⟨j, Nat.le_of_succ_le_succ hj, by simpa using hmark⟩

theorem getElem?_union {a b : Marks} (hlength : a.length = b.length) {i : Nat} :
    (a.union b)[i]? = some true ↔ a[i]? = some true ∨ b[i]? = some true := by
  simp only [union, List.getElem?_zipWith_eq_some, Bool.or_eq_true]
  constructor
  · rintro ⟨x, y, hx, hy, rfl | rfl⟩
    · exact .inl hx
    · exact .inr hy
  · rintro (ha | hb)
    · have hlt : i < b.length := hlength ▸ (List.getElem?_eq_some_iff.1 ha).1
      exact ⟨true, b[i], ha, List.getElem?_eq_getElem hlt, .inl rfl⟩
    · have hlt : i < a.length := hlength ▸ (List.getElem?_eq_some_iff.1 hb).1
      exact ⟨a[i], true, List.getElem?_eq_getElem hlt, hb, .inr rfl⟩

/-! ## Marks on a path and on its end -/

/-- The marks on a path hold all marks on its end. -/
structure Carries (front path : List UInt8) (a b : Marks) : Prop where
  /-- One set is about the end of the path. -/
  length_left : a.length = path.length + 1
  /-- The other one is about the whole path. -/
  length_right : b.length = (front ++ path).length + 1
  /-- The marks of the end are there. -/
  mark : ∀ i, a[i]? = some true → b[front.length + i]? = some true

namespace Carries

variable {front path : List UInt8} {a b a' b' : Marks}

theorem step (h : Carries front path a b) (p : UInt8 → Bool) :
    Carries front path (a.step p path) (b.step p (front ++ path)) where
  length_left := by simp [Marks.step, h.length_left]
  length_right := by simp [Marks.step, h.length_right]
  mark i hi := by
    cases i with
    | zero => simp [Marks.step] at hi
    | succ i =>
        obtain ⟨hmark, x, hx, hp⟩ := getElem?_step_succ.1 hi
        rw [← Nat.add_assoc, getElem?_step_succ]
        refine ⟨h.mark i hmark, x, ?_, hp⟩
        rw [List.getElem?_append_right (Nat.le_add_right _ _), Nat.add_sub_cancel_left, hx]

theorem slash (h : Carries front path a b) :
    Carries front path (a.slash path) (b.slash (front ++ path)) :=
  h.step _

theorem spread (h : Carries front path a b) :
    Carries front path (a.spread false) (b.spread false) where
  length_left := by rw [length_spread, h.length_left]
  length_right := by rw [length_spread, h.length_right]
  mark i hi := by
    rw [getElem?_spread] at hi ⊢
    obtain ⟨hlt, hreached | ⟨j, hj, hmark⟩⟩ := hi
    · cases hreached
    · refine ⟨?_, .inr ⟨front.length + j, Nat.add_le_add_left hj _, h.mark j hmark⟩⟩
      rw [h.length_right, List.length_append]
      rw [h.length_left] at hlt
      omega

theorem union (h : Carries front path a b) (h' : Carries front path a' b') :
    Carries front path (a.union a') (b.union b') where
  length_left := by simp [Marks.union, h.length_left, h'.length_left]
  length_right := by simp [Marks.union, h.length_right, h'.length_right]
  mark i hi := by
    rw [getElem?_union (h.length_left.trans h'.length_left.symm)] at hi
    rw [getElem?_union (h.length_right.trans h'.length_right.symm)]
    exact hi.imp (h.mark i) (h'.mark i)

theorem unmarked (h : Carries front path a b) :
    Carries front path (a.map fun _ => false) (b.map fun _ => false) where
  length_left := by rw [List.length_map, h.length_left]
  length_right := by rw [List.length_map, h.length_right]
  mark i hi := by
    rw [List.getElem?_map, Option.map_eq_some_iff] at hi
    obtain ⟨_, -, hmark⟩ := hi
    cases hmark

theorem foldl_step (bytes : List UInt8) (h : Carries front path a b) :
    Carries front path (bytes.foldl (fun marks x => marks.step (· == x) path) a)
      (bytes.foldl (fun marks x => marks.step (· == x) (front ++ path)) b) := by
  induction bytes generalizing a b with
  | nil => exact h
  | cons x bytes ih => exact ih (h.step _)

theorem getLast? (h : Carries front path a b) (ha : a.getLast? = some true) :
    b.getLast? = some true := by
  rw [List.getLast?_eq_getElem?, h.length_left] at ha
  rw [List.getLast?_eq_getElem?, h.length_right, List.length_append, Nat.add_sub_cancel]
  exact h.mark _ ha

end Carries
end Marks

/-! ## The elements of a pattern -/

section

open Marks

variable {front path : List UInt8}

mutual

/-- An element keeps what the marks on the whole path hold. -/
theorem carries_advance : ∀ {a b : Marks} (t : Token), Carries front path a b →
    Carries front path (advance path a t) (advance (front ++ path) b t)
  | _, _, .literal c, h => by
      rw [advance, advance]
      exact h.foldl_step _
  | _, _, .any, h => by
      rw [advance, advance]
      exact h.step _
  | _, _, .star, h => by
      rw [advance, advance]
      exact h.spread
  | _, _, .leadingFolders, h => by
      rw [advance, advance]
      exact h.union h.spread.slash
  | _, _, .innerFolders, h => by
      rw [advance, advance]
      exact h.slash.union h.slash.spread.slash
  | _, _, .trailingFolders, h => by
      rw [advance, advance]
      exact h.slash.spread
  | _, _, .set negated ranges, h => by
      rw [advance, advance]
      exact h.step _
  | _, _, .choice branches, h => by
      rw [advance, advance]
      split
      · exact h
      · exact carries_advanceAny branches h

/-- So do several elements in a row. -/
theorem carries_advanceAll : ∀ {a b : Marks} (ts : List Token), Carries front path a b →
    Carries front path (advanceAll path a ts) (advanceAll (front ++ path) b ts)
  | _, _, [], h => by
      rw [advanceAll, advanceAll]
      exact h
  | _, _, t :: ts, h => by
      rw [advanceAll, advanceAll]
      exact carries_advanceAll ts (carries_advance t h)

/-- So does each of several branches. -/
theorem carries_advanceAny : ∀ {a b : Marks} (branches : List (List Token)),
    Carries front path a b →
    Carries front path (advanceAny path a branches) (advanceAny (front ++ path) b branches)
  | _, _, [], h => by
      rw [advanceAny, advanceAny]
      exact h.unmarked
  | _, _, ts :: branches, h => by
      rw [advanceAny, advanceAny]
      split
      · exact carries_advanceAny branches h
      · exact (carries_advanceAll ts h).union (carries_advanceAny branches h)

end

/-- Any folders reach the start of the path and all places behind a slash. -/
theorem getElem?_leadingFolders {i : Nat} :
    (advance path (Marks.initial path) .leadingFolders)[i]? = some true ↔
      i = 0 ∨ ∃ j, i = j + 1 ∧ path[j]? = some Path.slash := by
  have hspread : ∀ j, j < path.length → ((Marks.initial path).spread false)[j]? = some true := by
    intro j hj
    rw [Marks.getElem?_spread]
    refine ⟨?_, .inr ⟨0, Nat.zero_le _, rfl⟩⟩
    simp only [Marks.initial, List.length_cons, List.length_map]
    omega
  rw [advance, Marks.getElem?_union
    (by simp [Marks.slash, Marks.step, Marks.length_spread, Marks.initial])]
  cases i with
  | zero => simp [Marks.initial]
  | succ i =>
      have hinitial : ¬(Marks.initial path)[i + 1]? = some true := by
        rw [Marks.initial, List.getElem?_cons_succ, List.getElem?_map, Option.map_eq_some_iff]
        rintro ⟨_, -, hmark⟩
        cases hmark
      rw [or_iff_right hinitial, Marks.slash, Marks.getElem?_step_succ]
      constructor
      · rintro ⟨-, b, hb, heq⟩
        rw [beq_iff_eq] at heq
        exact .inr ⟨i, rfl, heq ▸ hb⟩
      · rintro (hzero | ⟨j, hj, hslash⟩)
        · cases hzero
        · obtain rfl := Nat.succ.inj hj
          exact ⟨hspread i (List.getElem?_eq_some_iff.1 hslash).1, _, hslash, by simp⟩

/-- Any folders reach the end of a path from its front, if that ends in a slash. -/
theorem carries_leadingFolders (folder path : List UInt8) :
    Carries (folder ++ [Path.slash]) path
      (advance path (Marks.initial path) .leadingFolders)
      (advance (folder ++ [Path.slash] ++ path) (Marks.initial (folder ++ [Path.slash] ++ path))
        .leadingFolders) where
  length_left := by
    simp [advance, Marks.union, Marks.slash, Marks.step, Marks.length_spread, Marks.initial]
  length_right := by
    simp [advance, Marks.union, Marks.slash, Marks.step, Marks.length_spread, Marks.initial]
  mark i hi := by
    rw [getElem?_leadingFolders] at hi ⊢
    rcases hi with rfl | ⟨j, rfl, hslash⟩
    · -- The end of the path starts behind the slash of its front.
      refine .inr ⟨folder.length, by simp, ?_⟩
      simp
    · refine .inr ⟨folder.length + 1 + j, by simp; omega, ?_⟩
      rw [List.getElem?_append_right (by simp)]
      simpa using hslash

end

/-! ## Paths behind a folder -/

/-- A pattern that starts with any folders matches behind every folder what it matches. -/
theorem isMatch_behind_folder {pattern : List Token} {p : Path}
    (hfolders : pattern.head? = some .leadingFolders) (folder : List UInt8)
    (h : isMatch pattern p = true) :
    isMatch pattern ⟨folder ++ Path.slash :: p.bytes⟩ = true := by
  obtain ⟨rest, rfl⟩ := List.head?_eq_some_iff.1 hfolders
  cases rest with
  | nil => rfl
  | cons t rest =>
      have hlast : ∀ q : Path, isMatch (.leadingFolders :: t :: rest) q = true ↔
          (advanceAll q.bytes (advance q.bytes (Marks.initial q.bytes) .leadingFolders)
            (t :: rest)).getLast? = some true := by
        intro q
        rw [← advanceAll]
        exact beq_iff_eq
      rw [hlast] at h ⊢
      rw [List.append_cons]
      exact (carries_advanceAll (t :: rest) (carries_leadingFolders folder p.bytes)).getLast? h

theorem endsAbove_behind_folder (folder : List UInt8) (p : Path) :
    endsAbove ⟨folder ++ Path.slash :: p.bytes⟩ = endsAbove p := by
  unfold endsAbove
  simp only [List.reverse_append, List.reverse_cons, List.append_assoc, List.singleton_append]
  congr 1
  induction p.bytes.reverse with
  | nil => simp
  | cons b bytes ih =>
      rw [List.cons_append, List.takeWhile_cons, List.takeWhile_cons, ih]

/-- A pattern that starts with any folders selects behind every folder what it selects. -/
theorem selects_behind_folder {pattern : List Token} {p : Path}
    (hfolders : pattern.head? = some .leadingFolders) (folder : List UInt8)
    (h : selects pattern p = true) :
    selects pattern ⟨folder ++ Path.slash :: p.bytes⟩ = true := by
  unfold selects at h ⊢
  rw [endsAbove_behind_folder]
  rw [Bool.and_eq_true] at h ⊢
  exact ⟨isMatch_behind_folder hfolders folder h.1, h.2⟩

/-- All patterns of a set start with any folders. -/
def PatternSet.InAnyFolder (s : PatternSet) : Prop :=
  ∀ pattern ∈ s.patterns, pattern.head? = some .leadingFolders

theorem PatternSet.contains_behind_folder {s : PatternSet} (hs : s.InAnyFolder) {p : Path}
    (folder : List UInt8) (h : s.contains p = true) :
    s.contains ⟨folder ++ Path.slash :: p.bytes⟩ = true := by
  obtain ⟨pattern, hpattern, hselects⟩ := List.any_eq_true.1 h
  exact List.any_eq_true.2 ⟨pattern, hpattern,
    selects_behind_folder (hs pattern hpattern) folder hselects⟩

end Glob
end Neatness
