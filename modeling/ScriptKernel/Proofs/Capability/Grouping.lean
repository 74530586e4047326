import ScriptKernel.Proofs.Capability.SelectorTexts

/-!
Parentheses of accepted selectors. A list in parentheses is opened only where they
are a pair, but a backend loses a parenthesis on either side whether or not there is
another one. A lone parenthesis therefore passes, and only at the last backend: at
every bar where the list is cut the parentheses so far are even.
-/

namespace ScriptKernel.Selector

open Text

/-- How the parentheses of an accepted text may stand: balanced, or with the last one
of a pair missing, or with one too many behind all others. -/
inductive Grouping (text : List Char) : Prop
  | balanced : nesting 0 text = some 0 → Grouping text
  | unclosed : nesting 0 text = some 1 → Grouping text
  | unopened (front behind : List Char) : nesting 0 front = some 0 → Bare behind →
      text = front ++ ')' :: behind → Grouping text

variable {text front rest part before behind : List Char}

namespace Grouping

theorem between (grouping : Grouping part) (even : nesting 0 before = some 0) (bare : Bare behind) :
    Grouping (before ++ part ++ behind) := by
  have around : nesting 0 (before ++ part ++ behind) = (nesting 0 part).bind (nesting · behind) := by
    rw [nesting_append, nesting_append, even, Option.bind_some]
  cases grouping with
  | balanced inside =>
    rw [inside, Option.bind_some, nesting_bare bare] at around
    exact .balanced around
  | unclosed inside =>
    rw [inside, Option.bind_some, nesting_bare bare] at around
    exact .unclosed around
  | unopened front last inside bare' cut =>
    subst cut
    refine .unopened (before ++ front) (last ++ behind) ?_ ?_ (by simp)
    · rw [nesting_append, even, Option.bind_some, inside]
    · exact fun c within => (List.mem_append.mp within).elim (bare' c) (bare c)

theorem padded (grouping : Grouping part) (padded : Padded part text) : Grouping text := by
  obtain ⟨before, behind, blank, blank', rfl⟩ := padded
  exact grouping.between (nesting_plain (plain_of_blank blank)) (plain_of_blank blank').bare

theorem balanced_of_count (grouping : Grouping text) (even : text.count '(' = text.count ')') :
    nesting 0 text = some 0 := by
  cases grouping with
  | balanced inside => exact inside
  | unclosed inside =>
    have counts := (nesting_eq_some_iff.mp inside).2
    omega
  | unopened front behind inside bare cut =>
    have counts := (nesting_eq_some_iff.mp inside).2
    have none : behind.count '(' = 0 := List.count_eq_zero.mpr fun within => (bare _ within).1 rfl
    have none' : behind.count ')' = 0 := List.count_eq_zero.mpr fun within => (bare _ within).2 rfl
    subst cut
    rw [List.count_append, List.count_append, List.count_cons_of_ne (by decide), List.count_cons_self, none, none'] at even
    omega

end Grouping

theorem exists_opening (text : List Char) : ∃ opening, (opening = [] ∨ opening = ['(']) ∧
    text = opening ++ if text.head? = some '(' then text.tail else text := by
  by_cases first : text.head? = some '('
  · exact ⟨['('], .inr rfl, by rw [if_pos first, List.singleton_append, List.cons_head?_tail first]⟩
  · exact ⟨[], .inl rfl, by rw [if_neg first, List.nil_append]⟩

theorem exists_closing (text : List Char) : ∃ closing, (closing = [] ∨ closing = [')']) ∧
    text = (if text.getLast? = some ')' then text.dropLast else text) ++ closing := by
  by_cases last : text.getLast? = some ')'
  · exact ⟨[')'], .inr rfl, by rw [if_pos last, List.dropLast_append_getLast? _ last]⟩
  · exact ⟨[], .inl rfl, by rw [if_neg last, List.append_nil]⟩

theorem grouping_piece (plain : Plain (backendName part)) : Grouping part := by
  refine Grouping.padded ?_ (padded_trimChars part)
  rw [backendName] at plain
  generalize trimChars part = piece at plain
  obtain ⟨opening, left, cut⟩ := exists_opening piece
  generalize (if piece.head? = some '(' then piece.tail else piece) = shorter at plain cut
  obtain ⟨closing, right, cut'⟩ := exists_closing shorter
  generalize (if shorter.getLast? = some ')' then shorter.dropLast else shorter) = inner at plain cut'
  have bare : Bare inner := (plain_padded plain (padded_trimChars inner)).bare
  subst cut cut'
  rcases left with rfl | rfl <;> rcases right with rfl | rfl
  · exact .balanced (by simpa using nesting_bare bare)
  · exact .unopened inner [] (nesting_bare bare) (by simp [Bare]) rfl
  · exact .unclosed (by simpa using nesting_bare bare)
  · exact .balanced (by simp [nesting_append, nesting_bare bare])

theorem depth_cons (depth : Int) (c : Char) (text : List Char) :
    (if c = '(' then depth + 1 else if c = ')' then depth - 1 else depth) + text.count '(' - text.count ')' =
      depth + (c :: text).count '(' - (c :: text).count ')' := by
  by_cases opening : c = '('
  · subst opening
    rw [if_pos rfl, List.count_cons_self, List.count_cons_of_ne (by decide)]
    omega
  by_cases closing : c = ')'
  · subst closing
    rw [if_neg (by decide), if_pos rfl, List.count_cons_self, List.count_cons_of_ne (by decide)]
    omega
  · rw [if_neg opening, if_neg closing, List.count_cons_of_ne opening, List.count_cons_of_ne closing]

theorem splitBars_cases (depth : Int) (text : List Char) :
    splitBars depth text = [text] ∨
      ∃ front rest, text = front ++ '|' :: rest ∧ depth + front.count '(' - front.count ')' = 0 ∧
        splitBars depth text = front :: splitBars 0 rest := by
  induction text generalizing depth with
  | nil => exact .inl rfl
  | cons c text ih =>
    by_cases bar : c = '|' ∧ depth = 0
    · obtain ⟨rfl, rfl⟩ := bar
      exact .inr ⟨[], text, rfl, rfl, by rw [splitBars, if_pos ⟨rfl, rfl⟩]⟩
    · rw [splitBars_cons bar]
      rcases ih (if c = '(' then depth + 1 else if c = ')' then depth - 1 else depth) with
        whole | ⟨front, rest, rfl, even, cut⟩
      · exact .inl (by rw [whole]; rfl)
      · exact .inr ⟨c :: front, rest, rfl, (depth_cons depth c front).symm.trans even, by rw [cut]; rfl⟩

theorem grouping_pieces (each : ∀ piece ∈ splitBars 0 text, Grouping piece) : Grouping text := by
  induction cut : splitBars 0 text generalizing text with
  | nil => exact absurd cut (splitBars_ne_nil 0 text)
  | cons first pieces ih =>
    rcases splitBars_cases 0 text with whole | ⟨front, rest, rfl, even, later⟩
    · exact each text (by simp [whole])
    · rw [later] at cut each
      obtain ⟨rfl, rfl⟩ := List.cons.inj cut
      have others := ih (fun piece within => each piece (List.mem_cons_of_mem _ within)) rfl
      -- Up to the bar there are as many of either kind.
      have inside := (each _ List.mem_cons_self).balanced_of_count (by omega)
      have passed : nesting 0 (front ++ ['|']) = some 0 := by
        rw [nesting_append, inside, Option.bind_some]
        rfl
      have none : Bare [] := by simp [Bare]
      simpa using others.between passed none

theorem of_isWrapped (wrapped : isWrapped text = true) :
    text = '(' :: (text.tail.dropLast ++ [')']) ∧ nesting 0 text.tail.dropLast ≠ none := by
  simp only [isWrapped, Bool.and_eq_true, decide_eq_true_eq, beq_iff_eq, Bool.not_eq_true'] at wrapped
  obtain ⟨⟨⟨long, first⟩, last⟩, early⟩ := wrapped
  obtain ⟨c, rest, rfl⟩ := List.exists_cons_of_ne_nil (List.ne_nil_of_length_pos (by omega) : text ≠ [])
  cases first
  have some : rest ≠ [] := by
    rintro rfl
    simp at long
  rw [List.getLast?_cons_of_ne_nil some] at last
  have ending : rest.dropLast ++ [')'] = rest := List.dropLast_append_getLast? _ last
  refine ⟨by rw [List.tail_cons, ending], fun leaves => ?_⟩
  have closed := closesEarly_of_none leaves (List.cons_ne_nil ')' [])
  rw [List.tail_cons, ending] at closed
  have inner : closesEarly (0 + 1 : Nat) rest = false := by simpa [closesEarly] using early
  rw [closed] at inner
  cases inner

theorem Grouping.of_unwrap {fuel : Nat} (grouping : Grouping (unwrap fuel text)) : Grouping text := by
  induction fuel generalizing text with
  | zero => exact grouping
  | succ fuel ih =>
    rw [unwrap] at grouping
    split at grouping
    next wrapped =>
      obtain ⟨cut, stays⟩ := of_isWrapped wrapped
      have inner := (ih grouping).padded (padded_trimChars _)
      generalize text.tail.dropLast = inside at cut stays inner
      have around {depth : Nat} (reached : nesting 0 inside = some depth) : nesting 0 text = some depth := by
        rw [cut, nesting_opening, nesting_append, nesting_add reached 1, Option.bind_some, nesting_closing, nesting_nil]
      cases inner with
      | balanced reached => exact .balanced (around reached)
      | unclosed reached => exact .unclosed (around reached)
      | unopened front behind even bare unopened =>
        -- The parenthesis too many would have closed the pair.
        exact absurd (by rw [unopened, nesting_append, even, Option.bind_some, nesting_unopened]) stays
    next => exact grouping

theorem grouping_backends {names : List String} (accepted : backends text = .ok names) : Grouping text := by
  have left : Grouping (unwrap (trimChars text).length (trimChars text)) → Grouping text := fun left =>
    left.of_unwrap.padded (padded_trimChars text)
  apply left
  rw [backends] at accepted
  split at accepted
  next => cases accepted
  next =>
    dsimp only at accepted
    split at accepted
    next => cases accepted
    next named =>
      refine grouping_pieces fun piece within => grouping_piece ?_
      by_cases empty : backendName piece = []
      · simp [empty, Plain]
      · rw [List.find?_eq_none] at named
        have valid := named (backendName piece) (by simp [empty]; exact ⟨piece, within, rfl⟩)
        exact plain_of_isName (by simpa using valid)

theorem of_cutReversed {depth : Int} {passed : List Char}
    (cut : cutReversed depth passed text = some (front, rest)) : text.reverse ++ passed = front ++ ':' :: rest := by
  induction text generalizing depth passed with
  | nil => cases cut
  | cons c text ih =>
    rw [cutReversed] at cut
    split at cut
    next colon =>
      obtain ⟨rfl, -⟩ := colon
      cases cut
      simp
    next => simpa using ih cut

theorem of_cutAtColon (cut : cutAtColon text = some (front, rest)) : text = front ++ ':' :: rest := by
  have parts := of_cutReversed cut
  rwa [List.append_nil, List.reverse_reverse] at parts

theorem grouping_selector {selector : String} {keys : List Key} (accepted : parse selector = .ok keys) :
    Grouping selector.toList := by
  refine Grouping.padded ?_ (padded_trimChars selector.toList)
  rw [parse] at accepted
  dsimp only at accepted
  generalize trimChars selector.toList = text at accepted
  split at accepted
  next => cases accepted
  next =>
    split at accepted
    next =>
      split at accepted
      next valid => exact .balanced (nesting_plain (plain_of_isName valid))
      next => cases accepted
    next front rest cut =>
      split at accepted
      next => cases accepted
      next valid =>
        have bare : Bare (':' :: rest) := by
          have plain := plain_padded (plain_of_isName (by simpa using valid)) (padded_trimChars rest)
          rintro c (_ | ⟨_, within⟩)
          · decide
          · exact plain.bare c within
        cases read : backends front with
        | error fault =>
          rw [read] at accepted
          cases accepted
        | ok names =>
          rw [of_cutAtColon cut]
          exact (grouping_backends read).between (nesting_nil : nesting 0 [] = some 0) bare

/-- The parentheses of an accepted selector are balanced but for at most one: a closing
one may be missing, or stand behind all others without an opening one. -/
theorem parse_grouping {selector : String} {keys : List Key} (accepted : parse selector = .ok keys) :
    Balanced selector.toList ∨ Balanced (selector.toList ++ [')']) ∨
      ∃ front behind, selector.toList = front ++ ')' :: behind ∧ Balanced front ∧ Bare behind := by
  simp only [balanced_iff]
  cases grouping_selector accepted with
  | balanced inside => exact .inl inside
  | unclosed inside => exact .inr (.inl (by rw [nesting_append, inside, Option.bind_some, nesting_closing, nesting_nil]))
  | unopened front behind inside bare cut => exact .inr (.inr ⟨front, behind, cut, inside, bare⟩)

/-- A backend that is closed and never opened is accepted. -/
theorem parse_grouping_unopened :
    parse "fs):open" = .ok [⟨"fs", "open"⟩] ∧
      (Balanced "fs):open".toList ∨ Balanced ("fs):open".toList ++ [')']) ∨
        ∃ front behind, "fs):open".toList = front ++ ')' :: behind ∧ Balanced front ∧ Bare behind) := by
  have accepted : parse "fs):open" = .ok [⟨"fs", "open"⟩] := by decide
  exact ⟨accepted, parse_grouping accepted⟩

/-- Unbalanced parentheses are not always rejected: here one is opened and never closed. -/
theorem not_balanced_of_accepted :
    ¬∀ (selector : String) (keys : List Key), parse selector = .ok keys → Balanced selector.toList := by
  intro balanced
  have accepted : parse "(fs:open" = .ok [⟨"fs", "open"⟩] := by decide
  have even := (balanced "(fs:open" _ accepted).2
  exact absurd even (by decide)

end ScriptKernel.Selector
