import Mathlib
import ScriptKernel.Proofs.Layout.BlockLevels
import ScriptKernel.Proofs.Lumen.Lines

/-!
The layout of rendered programs. A rendered line is one logical line: it opens
no comment, closes its brackets and strings and does not begin with a blank. A
rendered program is therefore handed to the parser as its lines between
markers.
-/

namespace ScriptKernel.Lumen

open Written

open Layout (Reading LogicalLine)
open Layout.Indentation (isBlank)

def indentation : Layout.Indentation :=
  { width := 4
    comment := "#"
    quotes := ["\""]
    escape := "\\"
    opening := ["(", "["]
    closing := [")", "]"] }

def Starts (shape : Rest) : Prop :=
  ∀ l ∈ shape.head?, isBlank l.text = false

/-- In code the lexemes are all kept, and code follows. Blanks are kept behind
the first lexeme of a line only. -/
def Kept (shape : Rest) : Prop :=
  ∀ (r : Reading) (lexemes rest : Rest), r.mode = .code → (r.kept ≠ [] ∨ Starts shape) →
    lexemes.bare = shape →
    indentation.linesFrom r (lexemes ++ rest) =
      indentation.linesFrom { r with kept := lexemes.reverse ++ r.kept } rest

theorem kept_nil : Kept [] := by
  intro r lexemes rest code started same
  cases lexemes with
  | nil => rfl
  | cons l lexemes => cases same

theorem Kept.append {first second : Rest} (kept : Kept first) (further : Kept second) :
    Kept (first ++ second) := by
  intro r lexemes rest code started same
  obtain ⟨before, after, rfl, beforeSame, afterSame⟩ := List.map_eq_append_iff.mp same
  cases first with
  | nil =>
    cases before with
    | nil => exact further r after rest code started afterSame
    | cons l before => cases beforeSame
  | cons l first =>
    have starts : r.kept ≠ [] ∨ Starts (l :: first) := by
      rcases started with some | starts
      · exact Or.inl some
      · refine Or.inr ?_
        rintro _ ⟨⟩
        exact starts l rfl
    have some : before ≠ [] := by
      rintro rfl
      cases beforeSame
    have behind := further { r with kept := before.reverse ++ r.kept } after rest code
      (Or.inl (by simp [some])) afterSame
    rw [List.append_assoc, kept r before (after ++ rest) code starts beforeSame, behind]
    simp

def layoutTexts : List String :=
  ["\n", "\r", "#", "\"", "(", ")", "[", "]"]

theorem kept_source {text : String} (plain : text ∉ layoutTexts) : Kept [.source text] := by
  intro r lexemes rest code started same
  obtain ⟨l, rfl, bare⟩ := List.map_eq_singleton_iff.mp same
  have sameText : l.text = text := by rw [← Lexeme.bare_text, bare, Lexeme.source_text]
  simp only [layoutTexts, List.mem_cons, List.not_mem_nil, or_false, not_or] at plain
  obtain ⟨newline, return_, comment, quote, leftParen, rightParen, leftBracket, rightBracket⟩ := plain
  have noComment : ¬(indentation.comment ≠ "" ∧ text = indentation.comment) := fun h => comment h.2
  obtain ⟨spaces, tab, kept, depth, mode⟩ := r
  cases code
  rw [List.singleton_append, Layout.Indentation.linesFrom]
  simp only [sameText]
  rw [if_pos newline, Layout.Indentation.keepInCode, sameText, if_neg return_]
  by_cases blank : isBlank text = true
  · have begun : kept.isEmpty = false := by
      rcases started with some | starts
      · simpa using some
      · have none := starts _ rfl
        rw [Lexeme.source_text, blank] at none
        cases none
    simp [blank, begun]
  · rw [if_neg blank, if_neg noComment]
    simp [Layout.Indentation.keep, indentation, sameText, quote, leftParen, rightParen, leftBracket,
      rightBracket]

theorem kept_chars {text : List Char} (plain : ∀ c ∈ text, String.singleton c ∉ layoutTexts) :
    Kept (letters text) := by
  induction text with
  | nil => exact kept_nil
  | cons c text ih =>
    exact Kept.append (kept_source (plain c List.mem_cons_self))
      (ih fun d member => plain d (List.mem_cons_of_mem c member))

theorem singleton_notMem {c : Char} (word : Text.isWordChar c) : String.singleton c ∉ layoutTexts := by
  have none : ∀ text ∈ layoutTexts, isWordText text = false := by decide
  intro member
  have other := none _ member
  simp [isWordText, word] at other

theorem kept_letters {text : List Char} (word : ∀ c ∈ text, Text.isWordChar c) : Kept (letters text) :=
  kept_chars fun c member => singleton_notMem (word c member)

theorem kept_number {text : List Char} (plain : Decimal.NumberText text) : Kept (letters text) := by
  have digit {c : Char} (isDigit : c.isDigit) : String.singleton c ∉ layoutTexts :=
    singleton_notMem (isWordChar_of_isDigit isDigit)
  cases plain with
  | whole _ all => exact kept_chars fun c member => digit (all c member)
  | fraction _ all _ allMore =>
    refine kept_chars fun c member => ?_
    rcases List.mem_append.mp member with before | behind
    · exact digit (all c before)
    · rcases List.mem_cons.mp behind with rfl | behind
      · decide
      · exact digit (allMore c behind)

theorem kept_bracketed {opening closing : String} {inner : Rest}
    (pair : (opening, closing) ∈ [("(", ")"), ("[", "]")]) (keptInner : Kept inner) :
    Kept (.source opening :: (inner ++ [.source closing])) := by
  intro r lexemes rest code started same
  cases lexemes with
  | nil => cases same
  | cons l lexemes =>
    simp only [Rest.bare_cons, List.cons.injEq] at same
    obtain ⟨openSame, same⟩ := same
    obtain ⟨middle, last, rfl, middleSame, lastSame⟩ := List.map_eq_append_iff.mp same
    obtain ⟨close, rfl, closeSame⟩ := List.map_eq_singleton_iff.mp lastSame
    have openText : l.text = opening := by rw [← Lexeme.bare_text, openSame, Lexeme.source_text]
    have closeText : close.text = closing := by rw [← Lexeme.bare_text, closeSame, Lexeme.source_text]
    simp only [List.mem_cons, Prod.mk.injEq, List.not_mem_nil, or_false] at pair
    obtain ⟨spaces, tab, kept, depth, mode⟩ := r
    cases code
    have opened : indentation.linesFrom ⟨spaces, tab, kept, depth, .code⟩ (l :: (middle ++ (close :: rest))) =
        indentation.linesFrom ⟨spaces, tab, l :: kept, depth + 1, .code⟩ (middle ++ (close :: rest)) := by
      rw [Layout.Indentation.linesFrom]
      rcases pair with ⟨rfl, rfl⟩ | ⟨rfl, rfl⟩
      · simp [openText, Layout.Indentation.keepInCode, Layout.Indentation.keep, isBlank, indentation]
      · simp [openText, Layout.Indentation.keepInCode, Layout.Indentation.keep, isBlank, indentation]
    have closed (inside : List Lexeme) :
        indentation.linesFrom ⟨spaces, tab, inside, depth + 1, .code⟩ (close :: rest) =
          indentation.linesFrom ⟨spaces, tab, close :: inside, depth, .code⟩ rest := by
      rw [Layout.Indentation.linesFrom]
      rcases pair with ⟨rfl, rfl⟩ | ⟨rfl, rfl⟩
      · simp [closeText, Layout.Indentation.keepInCode, Layout.Indentation.keep, isBlank, indentation]
      · simp [closeText, Layout.Indentation.keepInCode, Layout.Indentation.keep, isBlank, indentation]
    have whole : l :: (middle ++ [close]) ++ rest = l :: (middle ++ (close :: rest)) := by simp
    have inside := keptInner ⟨spaces, tab, l :: kept, depth + 1, .code⟩ middle (close :: rest) rfl
      (Or.inl (List.cons_ne_nil _ _)) middleSame
    rw [whole, opened, inside, closed]
    simp

theorem linesFrom_contents {contents : Rest} {text : String}
    (spelled : Parser.Contents "\"" contents text) (spaces : Nat) (tab : Option Place) (kept : List Lexeme)
    (depth : Nat) (lexemes rest : Rest) (same : lexemes.bare = contents) :
    indentation.linesFrom ⟨spaces, tab, kept, depth, .string "\"" false⟩ (lexemes ++ rest) =
      indentation.linesFrom ⟨spaces, tab, lexemes.reverse ++ kept, depth, .string "\"" false⟩ rest := by
  induction spelled generalizing kept lexemes with
  | nil =>
    cases lexemes with
    | nil => rfl
    | cons l lexemes => cases same
  | @piece piece contents text ordinary plain more ih =>
    cases lexemes with
    | nil => cases same
    | cons l lexemes =>
      simp only [Rest.bare_cons, List.cons.injEq] at same
      have sameText : l.text = piece := by rw [← Lexeme.bare_text, same.1, Lexeme.source_text]
      have goesOn : indentation.keepInString ⟨spaces, tab, kept, depth, .string "\"" false⟩ "\"" false l =
          ⟨spaces, tab, l :: kept, depth, .string "\"" false⟩ := by
        simp [Layout.Indentation.keepInString, indentation, sameText, ordinary, plain]
      rw [List.cons_append, Layout.Indentation.linesFrom]
      simp only [goesOn]
      rw [ih (l :: kept) lexemes same.2]
      simp
  | @escape escaped meaning contents text known more ih =>
    cases lexemes with
    | nil => cases same
    | cons slash lexemes =>
      cases lexemes with
      | nil => simp at same
      | cons l lexemes =>
        simp only [Rest.bare_cons, List.cons.injEq] at same
        have slashText : slash.text = "\\" := by rw [← Lexeme.bare_text, same.1, Lexeme.source_text]
        have protects : indentation.keepInString ⟨spaces, tab, kept, depth, .string "\"" false⟩ "\"" false slash =
            ⟨spaces, tab, slash :: kept, depth, .string "\"" true⟩ := by
          simp [Layout.Indentation.keepInString, indentation, slashText]
        have goesOn : indentation.keepInString ⟨spaces, tab, slash :: kept, depth, .string "\"" true⟩ "\"" true l =
            ⟨spaces, tab, l :: slash :: kept, depth, .string "\"" false⟩ := by
          simp [Layout.Indentation.keepInString]
        rw [List.cons_append, Layout.Indentation.linesFrom]
        simp only [protects, List.cons_append, Layout.Indentation.linesFrom, goesOn]
        rw [ih (l :: slash :: kept) lexemes same.2.2]
        simp

theorem kept_quoted {contents : Rest} {text : String} (spelled : Parser.Contents "\"" contents text) :
    Kept (quotedLexemes contents) := by
  intro r lexemes rest code started same
  cases lexemes with
  | nil => cases same
  | cons l lexemes =>
    simp only [quotedLexemes, Rest.bare_cons, List.cons.injEq] at same
    obtain ⟨openSame, same⟩ := same
    obtain ⟨middle, last, rfl, middleSame, lastSame⟩ := List.map_eq_append_iff.mp same
    obtain ⟨close, rfl, closeSame⟩ := List.map_eq_singleton_iff.mp lastSame
    have openText : l.text = "\"" := by rw [← Lexeme.bare_text, openSame, Lexeme.source_text]
    have closeText : close.text = "\"" := by rw [← Lexeme.bare_text, closeSame, Lexeme.source_text]
    obtain ⟨spaces, tab, kept, depth, mode⟩ := r
    cases code
    have opened : indentation.keepInCode ⟨spaces, tab, kept, depth, .code⟩ l =
        ⟨spaces, tab, l :: kept, depth, .string "\"" false⟩ := by
      simp [openText, Layout.Indentation.keepInCode, Layout.Indentation.keep, isBlank, indentation]
    have closed (inside : List Lexeme) :
        indentation.keepInString ⟨spaces, tab, inside, depth, .string "\"" false⟩ "\"" false close =
          ⟨spaces, tab, close :: inside, depth, .code⟩ := by
      simp [Layout.Indentation.keepInString, indentation, closeText]
    have whole : l :: (middle ++ [close]) ++ rest = l :: (middle ++ (close :: rest)) := by simp
    rw [whole, Layout.Indentation.linesFrom]
    simp only [openText, opened]
    rw [if_pos (by decide), linesFrom_contents spelled _ _ _ _ middle (close :: rest) middleSame,
      Layout.Indentation.linesFrom]
    simp only [closed]
    simp

theorem kept_blank {shape : Rest} (kept : Kept shape) : Kept (.source " " :: shape) :=
  Kept.append (kept_source (by decide)) kept

theorem kept_listed {parts : List Rest} (each : ∀ part ∈ parts, Kept part) : Kept (listed parts) := by
  unfold listed
  fun_induction Rest.joined [.source ",", .source " "] parts with
  | case1 => exact kept_nil
  | case2 part => exact each part (by simp)
  | case3 part next more ih =>
    have gap : Kept [.source ",", .source " "] :=
      Kept.append (kept_source (by decide)) (kept_source (by decide))
    exact ((each part (by simp)).append gap).append
      (ih fun other member => each other (List.mem_cons_of_mem part member))

theorem kept_enclosed {inner : Rest} (kept : Kept inner) : Kept (enclosed inner) :=
  kept_bracketed (by decide) kept

theorem Infix.kept {op : Infix} (known : op.Known) : Kept op.lexemes := by
  cases op with
  | or | and => exact kept_letters (by decide)
  | pipe | range => exact kept_source (by decide)
  | compare op =>
    cases op with
    | other symbol => exact known.elim
    | _ => exact kept_source (by decide)
  | arith op =>
    cases op with
    | other symbol => exact known.elim
    | _ => exact kept_source (by decide)

theorem Phrase.kept {p : Precedence} {x : Expr} {shape : Rest} (phrase : Phrase p x shape) :
    Kept shape := by
  have parts {args : List Expr} {parts : Expr → Rest} (each : ∀ x ∈ args, Kept (parts x)) :
      ∀ part ∈ args.map parts, Kept part := by
    intro part member
    obtain ⟨x, inside, rfl⟩ := List.mem_map.mp member
    exact each x inside
  induction phrase with
  | number plain read => exact kept_number plain
  | bool b => cases b <;> exact kept_letters (by decide)
  | none => exact kept_letters (by decide)
  | string spelled => exact kept_quoted spelled
  | var valid => exact kept_letters valid.wordChars
  | group phrase ih => exact kept_enclosed ih
  | between known leftBinds rightBinds left right ihLeft ihRight =>
    exact ihLeft.append (kept_blank ((Infix.kept known).append (kept_blank ihRight)))
  | not binds inner ih => exact (kept_letters (by decide)).append (kept_blank ih)
  | negate binds inner ih => exact Kept.append (kept_source (by decide)) ih
  | call binds callee ordinary each ihCallee ih =>
    exact ihCallee.append (kept_enclosed (kept_listed (parts ih)))
  | hostCall parsed spelled each ih =>
    refine (kept_letters (by decide)).append (kept_enclosed (kept_listed ?_))
    intro part member
    rcases List.mem_cons.mp member with rfl | later
    · exact kept_quoted spelled
    · exact parts ih part later
  | array each ih => exact kept_bracketed (by decide) (kept_listed (parts ih))
  | index binds left inner ihLeft ihInner => exact ihLeft.append (kept_bracketed (by decide) ihInner)

structure Laid (text : List Char) : Prop where
  kept : Kept (lexed text)
  starts : Starts (lexed text)
  some : lexed text ≠ []

theorem Opens.laid {text : List Char} (opens : Opens (lexed text)) (kept : Kept (lexed text)) :
    Laid text := by
  obtain ⟨l, rest, written, begins⟩ := opens
  refine ⟨kept, ?_, by simp [written]⟩
  rw [written]
  rintro _ ⟨⟩
  have blank : ∀ text ∈ [" ", "\t", "\x0c"], isWordText text = false ∧ text ∉ ["(", "[", "-", "\""] := by
    decide
  have other : ∀ text ∈ [" ", "\t", "\x0c"], (l.text == text) = false := by
    intro text member
    have none := begins.isAt_eq_false (blank text member).1 (blank text member).2 rest
    simpa [Rest.isAt, begins.source] using none
  simp [isBlank, other " " (by decide), other "\t" (by decide), other "\x0c" (by decide)]

theorem FormedExpr.kept {x : Expr} (formed : FormedExpr x) : Kept (lexed (spell x)) :=
  formed.phrase.kept

theorem laid_keyword {word rest : List Char} (wordlike : ∀ c ∈ word, Text.isWordChar c)
    (some : word ≠ []) (kept : Kept (lexed rest)) : Laid (word ++ ' ' :: rest) := by
  have written := lexed_keyword wordlike rest
  refine Opens.laid ?_ ?_
  · rw [written]
    exact (opens_letters some wordlike).append _
  · rw [written]
    exact (kept_letters wordlike).append (kept_blank kept)

theorem laid_word {word : List Char} (wordlike : ∀ c ∈ word, Text.isWordChar c) (some : word ≠ []) :
    Laid word := by
  have written := lexed_word wordlike
  refine Opens.laid ?_ ?_
  · rw [written]
    exact opens_letters some wordlike
  · rw [written]
    exact kept_letters wordlike

theorem kept_assigned {shape : Rest} {x : Expr} (kept : Kept shape) (formed : FormedExpr x) :
    Kept (shape ++ .source " " :: .source "=" :: .source " " :: lexed (spell x)) :=
  kept.append (kept_blank (Kept.append (kept_source (by decide)) (kept_blank formed.kept)))

theorem laid_semicolon : Laid [';'] := by
  have written : lexed [';'] = [.source ";"] := by
    rw [lexed_char (by decide), lexed_nil]
    rfl
  constructor
  · rw [written]
    exact kept_source (by decide)
  · rw [written]
    rintro _ ⟨⟩
    rfl
  · rw [written]
    exact List.cons_ne_nil _ _

theorem laid_all {level : Nat} {statements : List Stmt}
    (each : ∀ s ∈ statements, ∀ line ∈ linesOf "if" level s, Laid line.text) :
    ∀ line ∈ linesOfAll level statements, Laid line.text := by
  induction statements with
  | nil => simp [linesOfAll]
  | cons s more ih =>
    intro line member
    rw [linesOfAll] at member
    rcases List.mem_append.mp member with here | later
    · exact each s List.mem_cons_self line here
    · exact ih (fun other inside => each other (List.mem_cons_of_mem s inside)) line later

theorem laid_body {level : Nat} {statements : List Stmt}
    (each : ∀ s ∈ statements, ∀ line ∈ linesOf "if" level s, Laid line.text) :
    ∀ line ∈ body level statements, Laid line.text := by
  cases statements with
  | nil =>
    intro line member
    rw [body, List.mem_singleton] at member
    rw [member]
    exact laid_semicolon
  | cons s more => exact laid_all each

theorem FormedStmt.laid {s : Stmt} (formed : FormedStmt s) :
    ∀ keyword ∈ ["if", "elif"], ∀ level, ∀ line ∈ linesOf keyword level s, Laid line.text := by
  have single {text : List Char} {level : Nat} (laid : Laid text) :
      ∀ line ∈ [(⟨level, text⟩ : Line)], Laid line.text := by
    intro line member
    rw [List.mem_singleton.mp member]
    exact laid
  have headed {text : List Char} {level : Nat} {lines : List Line} (laid : Laid text)
      (others : ∀ line ∈ lines, Laid line.text) : ∀ line ∈ (⟨level, text⟩ : Line) :: lines, Laid line.text := by
    intro line member
    rcases List.mem_cons.mp member with rfl | later
    · exact laid
    · exact others line later
  induction formed with
  | expr formed =>
    intro keyword _ level
    exact single (Opens.laid formed.phrase.opens formed.kept)
  | @define name x valid formed =>
    intro keyword _ level
    have written := lexed_let valid (spell x)
    refine single (Opens.laid ?_ ?_)
    · rw [written]
      exact (opens_letters (by decide) (by decide)).append _
    · rw [written]
      exact (kept_letters (by decide)).append (kept_blank (kept_assigned (kept_letters valid.wordChars) formed))
  | @assign name x valid formed =>
    intro keyword _ level
    have written := lexed_assigned (target name) (spell x)
    rw [lexed_target valid] at written
    have phrase : ∃ p, Phrase p (.var name)
        (if name = "MEMOIZATION" then enclosed (letters name.toList) else letters name.toList) := by
      split
      · exact ⟨_, .group (.var valid)⟩
      · exact ⟨_, .var valid⟩
    obtain ⟨p, phrase⟩ := phrase
    refine single (Opens.laid ?_ ?_)
    · rw [written]
      exact phrase.opens.append _
    · rw [written]
      exact kept_assigned phrase.kept formed
  | @cond test yes no formed yesFormed noFormed ihYes ihNo =>
    intro keyword known level
    have wordlike : (∀ c ∈ keyword.toList, Text.isWordChar c) ∧ keyword.toList ≠ [] := by
      have all : ∀ keyword ∈ ["if", "elif"],
          (∀ c ∈ keyword.toList, Text.isWordChar c) ∧ keyword.toList ≠ [] := by decide
      exact all keyword known
    refine headed (laid_keyword wordlike.1 wordlike.2 formed.kept) ?_
    intro line member
    rcases List.mem_append.mp member with inside | further
    · exact laid_body (fun s at_ => ihYes s at_ "if" (by decide) (level + 1)) line inside
    · rcases otherwise_cases level no with ⟨-, none⟩ | ⟨test', yes', more, same, elif⟩ | other
      · simp [none] at further
      · rw [elif] at further
        exact ihNo _ (by simp [same]) "elif" (by decide) level line further
      · rw [other] at further
        exact headed (laid_word (by decide) (by decide))
          (laid_body fun s at_ => ihNo s at_ "if" (by decide) (level + 1)) line further
  | @whileLoop test statements formed each negated ih =>
    intro keyword _ level
    have inner := laid_body fun s at_ => ih s at_ "if" (by decide) (level + 1)
    cases negated with
    | false => exact headed (@laid_keyword "while".toList _ (by decide) (by decide) formed.kept) inner
    | true => exact headed (@laid_keyword "until".toList _ (by decide) (by decide) formed.kept) inner
  | @forEach name items statements valid formed each ih =>
    intro keyword _ level
    have written := lexed_for valid (spell items)
    refine headed (Opens.laid ?_ ?_) (laid_body fun s at_ => ih s at_ "if" (by decide) (level + 1))
    · rw [written]
      exact (opens_letters (by decide) (by decide)).append _
    · rw [written]
      exact (kept_letters (by decide)).append (kept_blank ((kept_letters valid.wordChars).append
        (kept_blank ((kept_letters (by decide)).append (kept_blank formed.kept)))))
  | breakLoop =>
    intro keyword _ level
    exact single (laid_word (by decide) (by decide))
  | continueLoop =>
    intro keyword _ level
    exact single (laid_word (by decide) (by decide))
  | returnNone =>
    intro keyword _ level
    exact single (laid_word (by decide) (by decide))
  | returnSome formed =>
    intro keyword _ level
    exact single (@laid_keyword "return".toList _ (by decide) (by decide) formed.kept)
  | @declare name params statements valid names distinct each ih =>
    intro keyword _ level
    have written := lexed_fn valid names
    have kept : ∀ part ∈ params.map fun param => letters param.toList, Kept part := by
      intro part member
      obtain ⟨param, inside, rfl⟩ := List.mem_map.mp member
      exact kept_letters (names param inside).wordChars
    refine headed (Opens.laid ?_ ?_) (laid_body fun s at_ => ih s at_ "if" (by decide) (level + 1))
    · rw [written]
      exact (opens_letters (by decide) (by decide)).append _
    · rw [written]
      exact (kept_letters (by decide)).append (kept_blank ((kept_letters valid.wordChars).append
        (kept_enclosed (kept_listed kept))))
  | @setItem name position x valid inner formed =>
    intro keyword _ level
    have written := lexed_setItem valid (spell position) (spell x)
    have phrase := Phrase.index (le_refl callLevel) (Phrase.var valid) inner.phrase
    refine single (Opens.laid ?_ ?_)
    · rw [written]
      exact phrase.opens.append _
    · rw [written]
      exact kept_assigned phrase.kept formed
  | @push array x first second =>
    intro keyword _ level
    have written := lexed_push (spell array) (spell x)
    refine single (Opens.laid ?_ ?_)
    · rw [written]
      exact (opens_letters (by decide) (by decide)).append _
    · rw [written]
      refine (kept_letters (by decide)).append (kept_enclosed (kept_listed ?_))
      intro part member
      rcases List.mem_pair.mp member with rfl | rfl
      · exact first.kept
      · exact second.kept
  | memoize on =>
    intro keyword _ level
    have written := lexed_memoize on
    refine single (Opens.laid ?_ ?_)
    · rw [written]
      exact (opens_letters (by decide) (by decide)).append _
    · rw [written]
      exact (kept_letters (by decide)).append (kept_blank (Kept.append (kept_source (by decide))
        (kept_blank (kept_letters (by cases on <;> decide)))))

def rows (lines : List Line) : Rest :=
  lines.flatMap fun line =>
    List.replicate (4 * line.level) (.source " ") ++ (lexed line.text ++ [.source "\n"])

theorem lexed_lines (lines : List Line) : lexed (lines.flatMap Line.render) = rows lines := by
  have newline : '\n' ∉ pairs.map Prod.snd := by decide
  induction lines with
  | nil => exact lexed_nil
  | cons line lines ih =>
    have blanks : ∀ c ∈ List.replicate (4 * line.level) ' ', c ∉ pairs.map Prod.fst := by
      intro c member
      rw [List.eq_of_mem_replicate member]
      decide
    have spaces : letters (List.replicate (4 * line.level) ' ') =
        List.replicate (4 * line.level) (.source " ") := by
      rw [letters, List.map_replicate]
      rfl
    have text : (line :: lines).flatMap Line.render = List.replicate (4 * line.level) ' ' ++
        (line.text ++ '\n' :: lines.flatMap Line.render) := by
      simp [Line.render]
    rw [text, lexed_letters blanks, lexed_append (by rintro _ ⟨⟩; exact newline), lexed_char (by decide), ih,
      spaces, rows, rows, List.flatMap_cons, List.append_assoc, List.append_assoc]
    rfl

theorem linesFrom_spaces (count spaces : Nat) (lexemes rest : Rest)
    (same : lexemes.bare = List.replicate count (.source " ")) :
    indentation.linesFrom ⟨spaces, none, [], 0, .code⟩ (lexemes ++ rest) =
      indentation.linesFrom ⟨spaces + count, none, [], 0, .code⟩ rest := by
  induction count generalizing spaces lexemes with
  | zero =>
    cases lexemes with
    | nil => rfl
    | cons l lexemes => cases same
  | succ count ih =>
    cases lexemes with
    | nil => cases same
    | cons l lexemes =>
      simp only [Rest.bare_cons, List.replicate_succ, List.cons.injEq] at same
      have sameText : l.text = " " := by rw [← Lexeme.bare_text, same.1, Lexeme.source_text]
      have counted : indentation.keepInCode ⟨spaces, none, [], 0, .code⟩ l =
          ⟨spaces + 1, none, [], 0, .code⟩ := by
        simp [Layout.Indentation.keepInCode, sameText, isBlank]
      rw [List.cons_append, Layout.Indentation.linesFrom]
      simp only [sameText, counted]
      rw [if_pos (by decide), ih (spaces + 1) lexemes same.2, Nat.add_assoc, Nat.add_comm 1]

structure Matches (line : Line) (found : LogicalLine) : Prop where
  spaces : found.spaces = 4 * line.level
  tab : found.tab = none
  lexemes : Rest.bare found.lexemes = lexed line.text

theorem linesFrom_rows {lines : List Line} (laid : ∀ line ∈ lines, Laid line.text) {lexemes : Rest}
    (same : lexemes.bare = rows lines) : List.Forall₂ Matches lines (indentation.lines lexemes) := by
  unfold Layout.Indentation.lines
  induction lines generalizing lexemes with
  | nil =>
    cases lexemes with
    | nil => exact .nil
    | cons l lexemes => cases same
  | cons line lines ih =>
    obtain ⟨kept, starts, nonempty⟩ := laid line List.mem_cons_self
    rw [rows, List.flatMap_cons, List.append_assoc, List.append_assoc] at same
    obtain ⟨blanks, after, rfl, blanksSame, afterSame⟩ := List.map_eq_append_iff.mp same
    obtain ⟨text, after, rfl, textSame, endSame⟩ := List.map_eq_append_iff.mp afterSame
    cases after with
    | nil => cases endSame
    | cons newline rest =>
      simp only [List.map_cons, List.singleton_append, List.cons.injEq] at endSame
      have newlineText : newline.text = "\n" := by rw [← Lexeme.bare_text, endSame.1, Lexeme.source_text]
      have content := kept ⟨0 + 4 * line.level, none, [], 0, .code⟩ text (newline :: rest) rfl
        (Or.inr starts) textSame
      cases text with
      | nil => exact absurd textSame.symm nonempty
      | cons first others =>
        have counted : indentation.linesFrom {} (blanks ++ (first :: others ++ newline :: rest)) =
            indentation.linesFrom ⟨0 + 4 * line.level, none, [], 0, .code⟩ (first :: others ++ newline :: rest) :=
          linesFrom_spaces _ 0 blanks _ blanksSame
        have finished : (⟨0 + 4 * line.level, none, (first :: others).reverse ++ [], 0, .code⟩ :
            Reading).finish = some ⟨4 * line.level, none, first, others⟩ := by
          simp [Reading.finish]
        rw [counted, content, Layout.Indentation.linesFrom]
        simp only [newlineText, ne_eq, not_true_eq_false, if_false, Nat.lt_irrefl, finished]
        exact .cons ⟨rfl, rfl, textSame⟩
          (ih (fun other member => laid other (List.mem_cons_of_mem line member)) endSame.2)

theorem bare_leveled {lines : List Line} {found : List LogicalLine}
    (matched : List.Forall₂ Matches lines found) (finish : Place) (level : Nat) :
    Rest.bare (Layout.leveled {} 4 finish level found) = stream level lines := by
  induction matched generalizing level with
  | nil =>
    rw [Layout.leveled, stream, Rest.bare, List.map_append, List.map_replicate]
    rfl
  | @cons line logical lines found here rest ih =>
    have sameLevel : logical.spaces / 4 = line.level := by rw [here.spaces]; omega
    have lexemes : logical.lexemes.map Lexeme.bare = lexed line.text := here.lexemes
    have after : (Layout.leveled {} 4 finish line.level found).map Lexeme.bare = stream line.level lines :=
      ih line.level
    rw [Layout.leveled, stream, sameLevel, Aliases.change, Rest.bare]
    simp only [List.map_append, List.map_replicate, List.map_cons, lexemes, after, List.append_assoc]
    rfl

theorem apply_rows {lines : List Line} (laid : ∀ line ∈ lines, Laid line.text) {lexemes : Rest}
    (same : lexemes.bare = rows lines) :
    ∃ tokens, layout.apply {} lexemes = .ok tokens ∧ Rest.bare tokens = stream 0 lines := by
  have matched := linesFrom_rows laid same
  have accepted : ∀ found ∈ indentation.lines lexemes, indentation.Accepts found := by
    intro found member
    obtain ⟨index, bound, rfl⟩ := List.getElem_of_mem member
    have here := matched.get (matched.length_eq ▸ bound) bound
    exact ⟨here.tab, _, here.spaces⟩
  refine ⟨_, indentation.apply_accepted {} lexemes (by decide) accepted, ?_⟩
  exact bare_leveled matched _ 0

end ScriptKernel.Lumen
