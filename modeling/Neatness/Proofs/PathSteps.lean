import Neatness.Path

/-!
# The steps of a path

Where a path leads to depends on two things only: whether it starts at the root, and its steps, the
pieces that move.

* `exists_pieces_join` and `isAbsolute_join` put two paths together.
* `steps_parent?` says that the outer path has all steps but the last, and `parent?_of_steps_nil`
  that a path without steps is written in none, or in the empty path.
* `find?_outward_eq_some` and `find?_outward_isSome` are about the first outer path that passes a
  test of the steps.
-/

namespace Neatness
namespace Path

/-! ## Pieces -/

theorem pieces_append_slash (xs ys : List UInt8) :
    pieces (xs ++ slash :: ys) = pieces xs ++ pieces ys :=
  List.splitOn_append_cons_self xs ys

@[simp] theorem pieces_nil : pieces [] = [[]] := rfl

@[simp] theorem pieces_slash_cons (ys : List UInt8) : pieces (slash :: ys) = [] :: pieces ys :=
  pieces_append_slash [] ys

theorem pieces_dot_cons {bytes : List UInt8} {ns : List Name} (h : pieces bytes = [] :: ns) :
    pieces (dot :: bytes) = [dot] :: ns := by
  rw [pieces] at h ⊢
  rw [List.splitOn_cons_eq_if_modifyHead, h]
  rfl

theorem pieces_ne_nil (bytes : List UInt8) : pieces bytes ≠ [] :=
  List.splitOn_ne_nil slash bytes

theorem unpieces_pieces (bytes : List UInt8) : unpieces (pieces bytes) = bytes :=
  List.intercalate_splitOn slash

theorem slash_not_mem_of_mem_pieces {bytes : List UInt8} {n : Name} (h : n ∈ pieces bytes) :
    slash ∉ n := by
  induction bytes generalizing n with
  | nil =>
      obtain rfl := List.mem_singleton.1 h
      simp
  | cons b bytes ih =>
      rw [pieces, List.splitOn_cons_eq_if_modifyHead] at h
      by_cases hb : b = slash
      · rw [if_pos (by simpa using hb)] at h
        rcases List.mem_cons.1 h with rfl | h
        · simp
        · exact ih h
      · rw [if_neg (by simpa using hb)] at h
        cases hpieces : bytes.splitOn slash with
        | nil => exact absurd hpieces (pieces_ne_nil bytes)
        | cons first later =>
            rw [hpieces, List.modifyHead_cons] at h
            rcases List.mem_cons.1 h with rfl | h
            · rw [List.mem_cons, not_or]
              exact ⟨fun heq => hb heq.symm, ih (by rw [pieces, hpieces]; exact List.mem_cons_self)⟩
            · exact ih (by rw [pieces, hpieces]; exact List.mem_cons_of_mem first h)

theorem pieces_unpieces {ns : List Name} (h : ∀ n ∈ ns, slash ∉ n) (hne : ns ≠ []) :
    pieces (unpieces ns) = ns :=
  List.splitOn_intercalate slash h hne

/-- Put together, names take no less room than apart. -/
theorem length_unpieces_add_le (ms ns : List Name) :
    (unpieces ms).length + (unpieces ns).length ≤ (unpieces (ms ++ ns)).length := by
  have hcons : ∀ (m : Name) (rest : List Name),
      m.length + (unpieces rest).length ≤ (unpieces (m :: rest)).length := by
    intro m rest
    cases rest with
    | nil => simp [unpieces]
    | cons next rest =>
        rw [unpieces, unpieces, List.intercalate_cons_cons, List.length_append, List.length_append]
        omega
  induction ms with
  | nil => simp [unpieces]
  | cons m ms ih =>
      cases ms with
      | nil => simpa [unpieces] using hcons m ns
      | cons next ms =>
          have hfront : unpieces (m :: next :: ms) = m ++ [slash] ++ unpieces (next :: ms) :=
            List.intercalate_cons_cons
          have hall : unpieces (m :: next :: ms ++ ns) =
              m ++ [slash] ++ unpieces (next :: ms ++ ns) := List.intercalate_cons_cons
          rw [hfront, hall]
          simp only [List.length_append]
          omega

/-! ## Steps -/

/-- The pieces that move. -/
def moving (ns : List Name) : List Name :=
  ns.filter (!isIdle ·)

@[simp] theorem moving_nil : moving [] = [] := rfl

@[simp] theorem moving_append (ms ns : List Name) : moving (ms ++ ns) = moving ms ++ moving ns :=
  List.filter_append ms ns

theorem moving_cons_of_idle {n : Name} (h : isIdle n = true) (ns : List Name) :
    moving (n :: ns) = moving ns := by
  simp [moving, h]

theorem moving_cons {n : Name} (h : isIdle n = false) (ns : List Name) :
    moving (n :: ns) = n :: moving ns := by
  simp [moving, h]

theorem moving_dropWhile (ns : List Name) :
    moving (ns.dropWhile isIdle) = moving ns := by
  induction ns with
  | nil => rfl
  | cons n ns ih =>
      cases hn : isIdle n with
      | true => rw [List.dropWhile_cons_of_pos hn, ih, moving_cons_of_idle hn]
      | false => rw [List.dropWhile_cons_of_neg (by simp [hn])]

/-- Idle pieces at the end do not move. -/
theorem moving_trimmed (ns : List Name) :
    moving (ns.reverse.dropWhile isIdle).reverse = moving ns := by
  have hreverse : ∀ ms : List Name, moving ms.reverse = (moving ms).reverse := by
    intro ms
    simp [moving]
  rw [hreverse, moving_dropWhile, hreverse, List.reverse_reverse]

theorem trimmed_isPrefix (ns : List Name) :
    (ns.reverse.dropWhile isIdle).reverse <+: ns := by
  rw [← List.reverse_suffix, List.reverse_reverse]
  exact List.dropWhile_suffix isIdle

/-- The steps of a path. -/
def steps (p : Path) : List Name :=
  moving (pieces p.bytes)

/-- A path has at most as many steps as bytes. -/
theorem length_steps_le (p : Path) : p.steps.length ≤ p.bytes.length := by
  have hlength : ∀ ns : List Name, (moving ns).length ≤ (unpieces ns).length := by
    intro ns
    induction ns with
    | nil => exact Nat.zero_le _
    | cons n ns ih =>
        have hunpieces : n.length + (unpieces ns).length ≤ (unpieces (n :: ns)).length := by
          simpa [unpieces] using length_unpieces_add_le [n] ns
        cases hn : isIdle n with
        | true =>
            rw [moving_cons_of_idle hn]
            omega
        | false =>
            have hpos : 0 < n.length := by
              rw [List.length_pos_iff]
              rintro rfl
              cases hn
            rw [moving_cons hn, List.length_cons]
            omega
  have hle := hlength (pieces p.bytes)
  rwa [unpieces_pieces] at hle

/-! ## Two paths -/

theorem exists_pieces_join (p : Path) {q : Path} (hq : q.isAbsolute = false) :
    ∃ front, pieces (p.join q).bytes = front ++ pieces q.bytes ∧ moving front = p.steps := by
  unfold join steps
  rw [if_neg (by simp [hq])]
  split
  · rename_i hends
    simp only [Bool.or_eq_true, decide_eq_true_eq, beq_iff_eq] at hends
    rcases hends with hempty | hslash
    · exact ⟨[], by simp [hempty], by simp [hempty, moving, isIdle]⟩
    · obtain ⟨front, hfront⟩ := List.getLast?_eq_some_iff.1 hslash
      refine ⟨pieces front, ?_, ?_⟩
      · rw [hfront, List.append_assoc, List.singleton_append, pieces_append_slash]
      · rw [hfront, pieces_append_slash, moving_append]
        simp [moving, isIdle]
  · exact ⟨pieces p.bytes, pieces_append_slash _ _, rfl⟩

theorem isAbsolute_join (p : Path) {q : Path} (hq : q.isAbsolute = false) :
    (p.join q).isAbsolute = p.isAbsolute := by
  unfold join
  rw [if_neg (by simp [hq])]
  cases hbytes : p.bytes with
  | nil =>
      have hp : p.isAbsolute = false := by simp [isAbsolute, hbytes]
      rw [hp, ← hq]
      simp [isAbsolute]
  | cons b bytes => split <;> simp [isAbsolute, hbytes]

/-! ## The outer path -/

/-- A path starts at the root, with a dot, or with a name; the empty path does neither. -/
theorem start_cases (p : Path) :
    (∃ rest, p.bytes = slash :: rest ∧ p.start = [slash]) ∨
      (∃ rest ns, p.bytes = dot :: rest ∧ p.start = [dot] ∧ pieces rest = [] :: ns) ∨
      p.start = [] ∧ (p.bytes = [] ∨ ∃ n ns, pieces p.bytes = n :: ns ∧ n ≠ []) := by
  have hbytes := unpieces_pieces p.bytes
  unfold start
  split
  · rename_i second later hpieces
    rw [hpieces, unpieces, List.intercalate_cons_cons] at hbytes
    exact .inl ⟨_, hbytes.symm, rfl⟩
  · rename_i b later hpieces
    by_cases hb : b = dot
    · subst hb
      rw [if_pos rfl]
      rw [hpieces, unpieces] at hbytes
      cases later with
      | nil => exact .inr (.inl ⟨[], [], by simpa using hbytes.symm, rfl, rfl⟩)
      | cons second later =>
          rw [List.intercalate_cons_cons] at hbytes
          exact .inr (.inl ⟨_, _, hbytes.symm, rfl, pieces_slash_cons _⟩)
    · rw [if_neg hb]
      exact .inr (.inr ⟨rfl, .inr ⟨[b], later, hpieces, by simp⟩⟩)
  · rename_i hroot hdot
    refine .inr (.inr ⟨rfl, ?_⟩)
    cases hpieces : pieces p.bytes with
    | nil => exact absurd hpieces (pieces_ne_nil _)
    | cons n ns =>
        cases n with
        | cons b n => exact .inr ⟨b :: n, ns, rfl, by simp⟩
        | nil =>
            cases ns with
            | nil =>
                rw [hpieces] at hbytes
                exact .inl hbytes.symm
            | cons second later => exact absurd hpieces (hroot second later)

/-- The steps of a path stand in its body. -/
theorem steps_eq_moving_body (p : Path) : p.steps = moving p.body := by
  unfold steps body
  rw [moving_trimmed]
  rcases start_cases p with ⟨rest, hbytes, hstart⟩ | ⟨rest, ns, hbytes, hstart, hrest⟩ | ⟨hstart, -⟩
  · rw [hbytes, hstart, pieces_slash_cons]
    exact moving_cons_of_idle rfl _
  · rw [hbytes, hstart, pieces_dot_cons hrest]
    show moving ([dot] :: ns) = moving (pieces rest)
    rw [hrest, moving_cons_of_idle rfl, moving_cons_of_idle rfl]
  · rw [hstart]
    rfl

/-- A path that starts with a name does not start at the root. -/
theorem isAbsolute_of_pieces {p : Path} {n : Name} {ns : List Name}
    (h : pieces p.bytes = n :: ns) (hn : n ≠ []) : p.isAbsolute = false := by
  unfold isAbsolute
  cases hbytes : p.bytes with
  | nil => rfl
  | cons b bytes =>
      by_cases hb : b = slash
      · rw [hbytes, hb, pieces_slash_cons] at h
        exact absurd (List.cons.inj h).1.symm hn
      · simpa using hb

/-- A path that starts like another one and goes on with some of its pieces, up to one that
moves. -/
theorem steps_start_append {p : Path} {ns : List Name}
    (hfront : ns <+: pieces (p.bytes.drop p.start.length))
    (hlast : ∀ n, ns.getLast? = some n → isIdle n = false) :
    steps ⟨p.start ++ unpieces ns⟩ = moving ns ∧
      isAbsolute ⟨p.start ++ unpieces ns⟩ = p.isAbsolute := by
  have hslash : ∀ n ∈ ns, slash ∉ n := fun n hn => slash_not_mem_of_mem_pieces (hfront.subset hn)
  -- The start changes the first piece only: the slash puts an empty one in front, and the dot fills the
  -- empty one that follows it.
  rcases start_cases p with
    ⟨rest, hbytes, hstart⟩ | ⟨rest, ms, hbytes, hstart, hrest⟩ | ⟨hstart, hbytes⟩
  · rw [hstart]
    refine ⟨?_, by simp [isAbsolute, hbytes]⟩
    rw [steps, List.singleton_append, pieces_slash_cons, moving_cons_of_idle rfl]
    by_cases hnil : ns = []
    · rw [hnil]
      rfl
    · rw [pieces_unpieces hslash hnil]
  · rw [hstart]
    refine ⟨?_, by simp [isAbsolute, hbytes]⟩
    cases ns with
    | nil => rfl
    | cons n ns =>
        rw [hstart, hbytes] at hfront
        have hn : n = [] := (List.cons_prefix_cons.1 (hrest ▸ hfront)).1
        subst hn
        rw [steps, List.singleton_append, pieces_dot_cons (pieces_unpieces hslash (by simp)),
          moving_cons_of_idle rfl, moving_cons_of_idle rfl]
  · rw [hstart, List.length_nil, List.drop_zero] at hfront
    rw [hstart, List.nil_append]
    rcases hbytes with hempty | ⟨first, later, hpieces, hfirst⟩
    · -- The empty path has one piece, and it does not move.
      have hp : p.isAbsolute = false := by simp [isAbsolute, hempty]
      rw [hempty, pieces_nil] at hfront
      cases ns with
      | nil => exact ⟨rfl, hp.symm⟩
      | cons n ns =>
          obtain ⟨rfl, hns⟩ := List.cons_prefix_cons.1 hfront
          rw [List.prefix_nil.1 hns] at hlast
          exact absurd (hlast [] rfl) (by decide)
    · have hp : p.isAbsolute = false := isAbsolute_of_pieces hpieces hfirst
      rw [hpieces] at hfront
      cases ns with
      | nil => exact ⟨rfl, hp.symm⟩
      | cons n ns =>
          have hsame := pieces_unpieces hslash (by simp)
          obtain ⟨rfl, -⟩ := List.cons_prefix_cons.1 hfront
          rw [hp, steps, hsame]
          exact ⟨rfl, isAbsolute_of_pieces hsame hfirst⟩

/-- The last piece of the body moves. -/
theorem isIdle_of_body {p : Path} {n : Name} {outer : List Name}
    (h : p.body.reverse = n :: outer) : isIdle n = false := by
  have hhead := List.head?_dropWhile_not isIdle (pieces (p.bytes.drop p.start.length)).reverse
  rw [← List.reverse_reverse (List.dropWhile _ _), ← body, h] at hhead
  exact hhead

/-- The outer path of a path with steps has all of them but the last. -/
theorem steps_parent? {p : Path} (h : p.steps ≠ []) :
    ∃ q, p.parent? = some q ∧ q.steps = p.steps.dropLast ∧ q.isAbsolute = p.isAbsolute := by
  have hsteps := steps_eq_moving_body p
  have hbody : p.body <+: pieces (p.bytes.drop p.start.length) := trimmed_isPrefix _
  cases hreverse : p.body.reverse with
  | nil =>
      rw [List.reverse_eq_nil_iff.1 hreverse] at hsteps
      exact absurd hsteps h
  | cons n outer =>
      have heq : p.body = outer.reverse ++ [n] := by
        rw [← List.reverse_reverse p.body, hreverse, List.reverse_cons]
      have hn := isIdle_of_body hreverse
      have hfront : (outer.dropWhile isIdle).reverse <+: outer.reverse := by
        have := trimmed_isPrefix outer.reverse
        rwa [List.reverse_reverse] at this
      have hlast : ∀ m, (outer.dropWhile isIdle).reverse.getLast? = some m → isIdle m = false := by
        intro m hm
        have hhead := List.head?_dropWhile_not isIdle outer
        rw [List.getLast?_reverse] at hm
        rw [hm] at hhead
        exact hhead
      obtain ⟨hmoving, habsolute⟩ := steps_start_append (p := p)
        ((hfront.trans (heq ▸ List.prefix_append _ _)).trans hbody) hlast
      refine ⟨_, by rw [parent?, hreverse], ?_, habsolute⟩
      have htrimmed := moving_trimmed outer.reverse
      rw [List.reverse_reverse] at htrimmed
      rw [hmoving, hsteps, heq, moving_append, moving_cons hn, moving_nil, List.dropLast_concat,
        htrimmed]

/-- A path without steps is written in no other, or in the empty path. -/
theorem parent?_of_steps_nil {p : Path} (h : p.steps = []) :
    p.parent? = none ∨ p.parent? = some ⟨[]⟩ ∧ p.isAbsolute = false := by
  cases hreverse : p.body.reverse with
  | cons n outer =>
      have hsteps := steps_eq_moving_body p
      rw [h, ← List.reverse_reverse p.body, hreverse, List.reverse_cons, moving_append,
        moving_cons (isIdle_of_body hreverse)] at hsteps
      simp at hsteps
  | nil =>
      rw [parent?, hreverse]
      simp only
      split
      · rename_i hdot
        refine .inr ⟨rfl, ?_⟩
        rcases start_cases p with ⟨rest, -, hstart⟩ | ⟨rest, ns, hbytes, -, -⟩ | ⟨hstart, -⟩
        · rw [hstart] at hdot
          exact absurd hdot (by decide)
        · simp [isAbsolute, hbytes, dot, slash]
        · rw [hstart] at hdot
          cases hdot
      · exact .inl rfl

/-! ## The first outer path that passes a test -/

section Outward

variable {test : Path → Bool} {passes : Bool → List Name → Bool}
  (htest : ∀ p, test p = passes p.isAbsolute p.steps)

include htest in
/-- One step outwards: the path passes, or it has no steps, or the search goes on with one step
less. -/
theorem find?_outwardFrom (fuel : Nat) (p : Path) :
    passes p.isAbsolute p.steps = true ∧ (outwardFrom (fuel + 1) p).find? test = some p ∨
    passes p.isAbsolute p.steps = false ∧ p.steps = [] ∧
      (outwardFrom (fuel + 1) p).find? test = none ∨
    passes p.isAbsolute p.steps = false ∧ p.steps ≠ [] ∧
      ∃ q, q.steps = p.steps.dropLast ∧ q.isAbsolute = p.isAbsolute ∧
        (outwardFrom (fuel + 1) p).find? test = (outwardFrom fuel q).find? test := by
  rw [outwardFrom, List.find?_cons, htest]
  cases hpasses : passes p.isAbsolute p.steps with
  | true => exact .inl ⟨rfl, rfl⟩
  | false =>
      simp only
      by_cases hsteps : p.steps = []
      · refine .inr (.inl ⟨trivial, hsteps, ?_⟩)
        rcases parent?_of_steps_nil hsteps with hnone | ⟨hempty, hrelative⟩
        · rw [hnone]
          rfl
        · -- The empty path leads to where the path without steps leads.
          rw [hempty]
          have hfails : test ⟨[]⟩ = false := by
            rw [htest, ← hpasses, hsteps, hrelative]
            rfl
          cases fuel with
          | zero => rfl
          | succ fuel =>
              have hlast : parent? ⟨[]⟩ = none := rfl
              simp [outwardFrom, hlast, hfails]
      · obtain ⟨q, hparent, hq, habsolute⟩ := steps_parent? hsteps
        refine .inr (.inr ⟨trivial, hsteps, q, hq, habsolute, ?_⟩)
        rw [hparent]

theorem prefix_dropLast_of_ne {ns ms : List Name} (h : ns <+: ms) (hne : ns ≠ ms) :
    ns <+: ms.dropLast := by
  obtain ⟨rest, rfl⟩ := h
  have hrest : rest ≠ [] := by
    rintro rfl
    exact hne (List.append_nil ns).symm
  rw [List.dropLast_append_of_ne_nil hrest]
  exact List.prefix_append ns rest.dropLast

include htest in
/-- What the search finds has some of the steps, and no path with more of them passes. -/
theorem find?_outwardFrom_eq_some {fuel : Nat} {p q : Path} (hfuel : p.steps.length < fuel)
    (h : (outwardFrom fuel p).find? test = some q) :
    q.isAbsolute = p.isAbsolute ∧ q.steps <+: p.steps ∧
      passes p.isAbsolute q.steps = true ∧
      ∀ ns, ns <+: p.steps → q.steps.length < ns.length → passes p.isAbsolute ns = false := by
  induction fuel generalizing p with
  | zero => omega
  | succ fuel ih =>
      rcases find?_outwardFrom htest fuel p with
        ⟨hpasses, hfind⟩ | ⟨-, -, hfind⟩ | ⟨hpasses, hsteps, outer, houter, habsolute, hfind⟩
      · rw [hfind] at h
        obtain rfl := Option.some.inj h
        refine ⟨rfl, List.prefix_rfl, hpasses, fun ns hns hlt => ?_⟩
        have := hns.length_le
        omega
      · rw [hfind] at h
        cases h
      · have hlength : 0 < p.steps.length := List.length_pos_iff.2 hsteps
        have hfewer : outer.steps.length < fuel := by
          rw [houter, List.length_dropLast]
          omega
        rw [hfind] at h
        obtain ⟨hsame, hfront, hfound, hlonger⟩ := ih hfewer h
        rw [habsolute] at hsame hfound hlonger
        rw [houter] at hfront hlonger
        refine ⟨hsame, hfront.trans (List.dropLast_prefix _), hfound, fun ns hns hlt => ?_⟩
        by_cases hall : ns = p.steps
        · rw [hall, hpasses]
        · exact hlonger ns (prefix_dropLast_of_ne hns hall) hlt

include htest in
/-- The search finds something if a path with some of the steps passes. -/
theorem find?_outwardFrom_isSome {fuel : Nat} {p : Path} (hfuel : p.steps.length < fuel)
    {ns : List Name} (hns : ns <+: p.steps) (hpasses : passes p.isAbsolute ns = true) :
    ((outwardFrom fuel p).find? test).isSome = true := by
  induction fuel generalizing p with
  | zero => omega
  | succ fuel ih =>
      rcases find?_outwardFrom htest fuel p with
        ⟨-, hfind⟩ | ⟨hfails, hsteps, -⟩ | ⟨hfails, hsteps, outer, houter, habsolute, hfind⟩
      · rw [hfind]
        rfl
      · rw [hsteps] at hns hfails
        rw [List.prefix_nil.1 hns, hfails] at hpasses
        cases hpasses
      · have hlength : 0 < p.steps.length := List.length_pos_iff.2 hsteps
        have hfewer : outer.steps.length < fuel := by
          rw [houter, List.length_dropLast]
          omega
        have hne : ns ≠ p.steps := by
          rintro rfl
          rw [hfails] at hpasses
          cases hpasses
        rw [hfind]
        refine ih hfewer ?_ ?_
        · rw [houter]
          exact prefix_dropLast_of_ne hns hne
        · rwa [habsolute]

include htest in
theorem find?_outward_eq_some {p q : Path} (h : p.outward.find? test = some q) :
    q.isAbsolute = p.isAbsolute ∧ q.steps <+: p.steps ∧
      passes p.isAbsolute q.steps = true ∧
      ∀ ns, ns <+: p.steps → q.steps.length < ns.length → passes p.isAbsolute ns = false :=
  find?_outwardFrom_eq_some htest (Nat.lt_succ_of_le p.length_steps_le) h

include htest in
theorem find?_outward_isSome {p : Path} {ns : List Name} (hns : ns <+: p.steps)
    (hpasses : passes p.isAbsolute ns = true) : (p.outward.find? test).isSome = true :=
  find?_outwardFrom_isSome htest (Nat.lt_succ_of_le p.length_steps_le) hns hpasses

end Outward

end Path
end Neatness
