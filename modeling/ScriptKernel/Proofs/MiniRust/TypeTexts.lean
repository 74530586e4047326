import ScriptKernel.Proofs.MiniRust.Cursor

/-!
Types as they are written, and that they are skipped to their end. Their lexemes
are not what brackets and references are counted by: two references are one
lexeme, and a bracket with a sign of equality behind it is another. Between the
brackets neither matters, since no bracket is lost there.
-/

namespace ScriptKernel.MiniRust

open Written

inductive Bracketed : List Char → Prop
  | nil : Bracketed []
  | plain {c : Char} {rest : List Char} (plain : Text.isWordChar c = true ∨ c ∈ [',', '&', ' '])
      (later : Bracketed rest) : Bracketed (c :: rest)
  | group {inner rest : List Char} (inside : Bracketed inner) (later : Bracketed rest) :
      Bracketed ('<' :: (inner ++ '>' :: rest))

/-- A type: references, a word, and perhaps arguments in angle brackets. -/
structure TypeText where
  references : Nat
  word : List Char
  arguments : Option (List Char)
  nonempty : word ≠ []
  wordlike : ∀ c ∈ word, Text.isWordChar c = true
  balanced : ∀ inner ∈ arguments, Bracketed inner

namespace TypeText

def group (t : TypeText) : List Char :=
  match t.arguments with
  | none => []
  | some inner => '<' :: (inner ++ ['>'])

def text (t : TypeText) : List Char :=
  List.replicate t.references '&' ++ (t.word ++ t.group)

end TypeText

theorem skipAngles_bare (ctx : Context) (depth : Int) (rest : Rest) :
    skipAngles ctx depth rest.bare = (skipAngles ctx depth rest).bare := by
  induction rest generalizing depth with
  | nil => rfl
  | cons l rest ih =>
    have ended : ctx.atEnd (Rest.bare (l :: rest)) = ctx.atEnd (l :: rest) := rfl
    rw [Rest.bare_cons] at ended ⊢
    rw [skipAngles, skipAngles, ended, Lexeme.bare_text]
    by_cases end_ : ctx.atEnd (l :: rest) = true
    · rw [if_pos end_, if_pos end_, Rest.bare_cons]
    · rw [if_neg end_, if_neg end_]
      obtain ⟨next, counted⟩ :
          ∃ next, next = if l.text = "<" then depth + 1 else if l.text = ">" then depth - 1 else depth := ⟨_, rfl⟩
      dsimp only
      rw [← counted]
      by_cases closed : next = 0
      · rw [if_pos closed, if_pos closed]
      · rw [if_neg closed, if_neg closed]
        exact ih next

theorem skipType_bare {ctx : Context} (skips : ctx.skipSpace = skipSpace) {rest reached : Rest}
    (typed : skipType ctx rest = .ok () reached) : skipType ctx rest.bare = .ok () reached.bare := by
  have references (rest : Rest) : List.dropWhile (fun l : Lexeme => !l.synthetic && l.text == "&") rest.bare =
      Rest.bare (rest.dropWhile fun l => !l.synthetic && l.text == "&") := by
    rw [Rest.bare, List.dropWhile_map]
    rfl
  simp only [skipType, skips, skipSpace, skipFrom_bare, references, Rest.afterWord_bare, Rest.isAt_bare] at typed ⊢
  cases typed
  congr 1
  split
  · exact skipAngles_bare ctx 0 _
  · rfl

section skipping

variable {ctx : Context} {ends : Rest}

theorem skipAngles_other {depth : Nat} (open_ : 0 < depth) {text : String} (other : text ≠ "<" ∧ text ≠ ">") (rest : Rest) :
    skipAngles ctx depth (.source text :: rest) = skipAngles ctx depth rest := by
  have inside : depth ≠ 0 := Nat.ne_of_gt open_
  simp [skipAngles, Context.atEnd, other, inside]

theorem skipAngles_opening (depth : Nat) (rest : Rest) :
    skipAngles ctx depth (.source "<" :: rest) = skipAngles ctx (depth + 1 : Nat) rest := by
  have inside : (depth : Int) + 1 ≠ 0 := by omega
  simp [skipAngles, Context.atEnd, inside]

theorem skipAngles_closing (depth : Nat) (rest : Rest) :
    skipAngles ctx (depth + 1 : Nat) (.source ">" :: rest) = if depth = 0 then rest else skipAngles ctx depth rest := by
  simp [skipAngles, Context.atEnd]

theorem skipAngles_reference {depth : Nat} (open_ : 0 < depth) (text : List Char) :
    skipAngles ctx depth (lexed ('&' :: text) ++ ends) = skipAngles ctx depth (lexed text ++ ends) := by
  induction text with
  | nil =>
    rw [lexed, Lexer.lexed_single paired (by rintro _ ⟨⟩)]
    exact skipAngles_other open_ (by decide) _
  | cons c text ih =>
    by_cases again : c = '&'
    · -- Two are one lexeme, so that the second is passed with the first.
      rw [again, ih, lexed, Lexer.lexed_pair paired (by decide)]
      exact skipAngles_other open_ (by decide) _
    · have alone : ∀ d ∈ (c :: text).head?, ('&', d) ∉ pairs := by
        rintro _ ⟨⟩
        simp [pairs, again]
      rw [lexed, Lexer.lexed_single paired alone]
      exact skipAngles_other open_ (by decide) _

theorem lexed_bracket {c : Char} (bracket : c ∈ ['<', '>']) {rest : List Char} (apart : rest.head? ≠ some '=') :
    lexed (c :: rest) = .source (String.singleton c) :: lexed rest := by
  apply Lexer.lexed_single paired
  intro d first entry
  have second : d = '=' := by
    simp only [List.mem_cons, List.not_mem_nil, or_false] at bracket
    rcases bracket with rfl | rfl
    · simpa [pairs] using entry
    · simpa [pairs] using entry
  exact apart (second ▸ first)

namespace Bracketed

variable {inner after : List Char}

theorem head_ne (bracketed : Bracketed inner) (apart : after.head? ≠ some '=') : (inner ++ after).head? ≠ some '=' := by
  cases bracketed with
  | nil => exact apart
  | plain plain later =>
    rintro ⟨⟩
    revert plain
    decide
  | group inside later => simp

theorem skipped (bracketed : Bracketed inner) {depth : Nat} (open_ : 0 < depth) (apart : after.head? ≠ some '=') :
    skipAngles ctx depth (lexed (inner ++ after) ++ ends) = skipAngles ctx depth (lexed after ++ ends) := by
  induction bracketed generalizing depth after with
  | nil => rfl
  | @plain c rest plain later ih =>
    rw [← ih open_ apart, List.cons_append]
    by_cases reference : c = '&'
    · rw [reference]
      exact skipAngles_reference open_ _
    · have alone : c ∉ pairs.map Prod.fst := by
        rcases plain with word | sign
        · exact spaced.starts_of_isWordChar word
        · simp only [List.mem_cons, List.not_mem_nil, or_false, reference, false_or] at sign
          rcases sign with rfl | rfl
          · decide
          · decide
      have unlike (bracket : Char) (starts : bracket ∈ pairs.map Prod.fst) :
          String.singleton c ≠ String.singleton bracket := by
        intro same
        have chars := congrArg String.toList same
        rw [String.toList_singleton, String.toList_singleton, List.singleton_inj] at chars
        exact alone (chars ▸ starts)
      rw [lexed_char alone, List.cons_append]
      exact skipAngles_other open_ ⟨unlike '<' (by decide), unlike '>' (by decide)⟩ _
  | @group inner rest inside later ihInner ihRest =>
    have closing : ('>' :: (rest ++ after)).head? ≠ some '=' := by simp
    rw [List.cons_append, List.append_assoc, List.cons_append, lexed_bracket (by decide) (inside.head_ne closing),
      List.cons_append]
    rw [show String.singleton '<' = "<" from rfl, skipAngles_opening, ihInner (Nat.succ_pos depth) closing,
      lexed_bracket (by decide) (later.head_ne apart), List.cons_append]
    rw [show String.singleton '>' = ">" from rfl, skipAngles_closing, if_neg (Nat.ne_of_gt open_), ihRest open_ apart]

end Bracketed

theorem TypeText.skipped (t : TypeText) (single : t.references ≤ 1) (skips : ctx.skipSpace = skipSpace) {after : List Char}
    (clear : Clear (lexed after ++ ends)) (other : Rest.isAt "<" (lexed after ++ ends) = false)
    (apart : t.arguments.isSome = true → after.head? ≠ some '=') :
    skipType ctx (lexed (t.text ++ after) ++ ends) = .ok () (lexed after ++ ends) := by
  obtain ⟨c, word, chars⟩ := List.exists_cons_of_ne_nil t.nonempty
  have noReference : c ≠ '&' := by
    rintro rfl
    have reference : Text.isWordChar '&' = true := t.wordlike '&' (by rw [chars]; exact List.mem_cons_self)
    revert reference
    decide
  obtain ⟨behind, same⟩ : ∃ behind, behind = lexed (t.group ++ after) ++ ends := ⟨_, rfl⟩
  have words : lexed (t.word ++ (t.group ++ after)) ++ ends = letters t.word ++ behind := by
    rw [lexed_letters t.wordlike, List.append_assoc, same]
  have unreferenced : (letters t.word ++ behind).dropWhile (fun l => !l.synthetic && l.text == "&") =
      letters t.word ++ behind := by
    have other : String.singleton c ≠ "&" := fun single => noReference (by simpa using congrArg String.toList single)
    rw [chars]
    exact List.dropWhile_cons_of_neg (by simp [other])
  have reached : (skipSpace (lexed (t.text ++ after) ++ ends)).dropWhile
      (fun l => !l.synthetic && l.text == "&") = letters t.word ++ behind := by
    rw [TypeText.text, List.append_assoc, List.append_assoc]
    rcases Nat.le_one_iff_eq_zero_or_eq_one.1 single with none | one
    · have solid : skipSpace (letters t.word ++ behind) = letters t.word ++ behind :=
        ((opens_letters t.nonempty t.wordlike).append _).skipSpace
      rw [none, List.replicate_zero, List.nil_append, words, solid, unreferenced]
    · have alone : ∀ d ∈ (t.word ++ (t.group ++ after)).head?, ('&', d) ∉ pairs := by
        rw [chars]
        rintro _ ⟨⟩
        simp [pairs, noReference]
      rw [one, List.replicate_one, List.singleton_append, lexed, Lexer.lexed_single paired alone]
      change List.dropWhile _ (.source "&" :: (lexed (t.word ++ (t.group ++ after)) ++ ends)) = _
      rw [words, List.dropWhile_cons_of_pos (by rfl), unreferenced]
  have ended : Clear behind ∧ (if Rest.isAt "<" behind = true then skipAngles ctx 0 behind else behind) =
      lexed after ++ ends := by
    rw [same, TypeText.group]
    cases arguments : t.arguments with
    | none =>
      rw [List.nil_append, other, if_neg Bool.false_ne_true]
      exact ⟨clear, rfl⟩
    | some inner =>
      have balanced := t.balanced inner arguments
      have last : after.head? ≠ some '=' := apart (by rw [arguments]; rfl)
      have closing : ('>' :: after).head? ≠ some '=' := by simp
      rw [List.cons_append, List.append_assoc, List.singleton_append, lexed_bracket (by decide) (balanced.head_ne closing)]
      change Clear (.source "<" :: (lexed (inner ++ '>' :: after) ++ ends)) ∧
        skipAngles ctx (0 : Nat) (.source "<" :: (lexed (inner ++ '>' :: after) ++ ends)) = _
      refine ⟨clear_source (by decide) (by decide) _, ?_⟩
      rw [skipAngles_opening, balanced.skipped (Nat.succ_pos 0) closing, lexed_bracket (by decide) last]
      change skipAngles ctx (0 + 1 : Nat) (.source ">" :: (lexed after ++ ends)) = _
      rw [skipAngles_closing, if_pos rfl]
  obtain ⟨clearBehind, skips'⟩ := ended
  simp only [skipType, skips]
  rw [reached, afterWord_letters t.wordlike clearBehind, skips']

end skipping

end ScriptKernel.MiniRust
