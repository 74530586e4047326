import ScriptKernel.Proofs.Layout.Balance
import ScriptKernel.Proofs.Layout.Concatenation
import ScriptKernel.Proofs.Lumen.Concatenation
import ScriptKernel.Proofs.Lumen.IgnoredLines
import ScriptKernel.Proofs.Parse.Sessions
import ScriptKernel.Proofs.Session.Progress
import ScriptKernel.Proofs.Text.Utf8

/-!
Sources one behind the other. A source that is parsed leaves no string, comment
or bracket open, so that a newline at its end ends a logical line. What stands
behind it is then cut into lexemes and lines as it is alone, and the statements
of both are those of the one and then of the other.
-/

namespace ScriptKernel.Lumen

open Layout.Indentation (Balanced)

theorem blankless : indentation.Blankless := by
  unfold Layout.Indentation.Blankless
  decide

theorem balanced_other {l : Lexeme} (other : l.text ∉ bracketing) (a : Nat) : indentation.Balanced a a [l] := by
  simp only [bracketing, List.mem_cons, List.not_mem_nil, or_false, not_or] at other
  apply Layout.Indentation.balanced_plain
  all_goals simp [indentation, other]

theorem balanced_run {lexemes : List Lexeme} {a : Nat} (each : ∀ l ∈ lexemes, indentation.Balanced a a [l]) :
    indentation.Balanced a a lexemes := by
  induction lexemes with
  | nil => exact Layout.Indentation.balanced_nil indentation a
  | cons l lexemes ih =>
    rw [List.forall_mem_cons] at each
    exact each.1.append (ih each.2)

def balancing (tokens : Rest) (file : String) (bound : Int) : Walk :=
  ⟨context tokens file bound, tokens, 2 * tokens.length + 4, indentation.Balanced⟩

theorem text_isAt {text : String} {l : Lexeme} (here : Rest.isAt text [l] = true) : l.synthetic = false ∧ l.text = text := by
  simpa [Rest.isAt] using here

theorem balanced_word {l : Lexeme} (word : l.isWord = true) (a : Nat) : indentation.Balanced a a [l] := by
  have symbols : ∀ text ∈ bracketing, isWordText text = false := by decide
  apply balanced_other
  intro known
  rw [Lexeme.isWord, symbols _ known, Bool.and_false] at word
  cases word

theorem balanced_digits {l : Lexeme} (digits : l.isDigits = true) (a : Nat) : indentation.Balanced a a [l] := by
  have symbols : ∀ text ∈ bracketing, isDigitText text = false := by decide
  apply balanced_other
  intro known
  rw [Lexeme.isDigits, symbols _ known, Bool.and_false] at digits
  cases digits

theorem balanced_space {l : Lexeme} (space : l.isSpace false = true) (a : Nat) : indentation.Balanced a a [l] := by
  have blanks : ∀ text ∈ [" ", "\t", "\r", "\x0c"], text ∉ bracketing := by decide
  rw [Lexeme.isSpace, Bool.false_and, Bool.or_false, Bool.and_eq_true, List.contains_iff_mem] at space
  exact balanced_other (blanks _ space.2) a

theorem balanced_skipped {p : Lexeme → Bool} {a : Nat} (each : ∀ l, p l = true → indentation.Balanced a a [l])
    (rest : Rest) : ∃ eaten, rest = eaten ++ rest.dropWhile p ∧ indentation.Balanced a a eaten :=
  ⟨rest.takeWhile p, List.takeWhile_append_dropWhile.symm, balanced_run fun l member => each l (List.mem_takeWhile_imp member)⟩

theorem balancing_counting {tokens : Rest} (digital : Rest.Digital tokens) (file : String) (bound : Int) :
    Counting (balancing tokens file bound) where
  digital := digital
  nil := Layout.Indentation.balanced_nil indentation
  append := Balanced.append
  word a l word := balanced_word word a
  digits a l digits := balanced_digits digits a
  point a l here := balanced_other (by rw [(text_isAt here).2]; decide) a
  marker a l marker := Layout.Indentation.balanced_marker marker a
  skipSpace a rest := balanced_skipped (fun l space => balanced_space space a) rest
  skipTrivia a rest := by
    apply balanced_skipped
    intro l trivial
    rw [Bool.or_eq_true, Bool.or_eq_true] at trivial
    rcases trivial with (space | newline) | semicolon
    · exact balanced_space space a
    · exact Layout.Indentation.balanced_marker (Bool.and_eq_true_iff.1 newline).1 a
    · refine balanced_other ?_ a
      rw [beq_iff_eq.1 (Bool.and_eq_true_iff.1 semicolon).2]
      decide
  plain text other a l here := by
    refine balanced_other ?_ a
    rwa [(text_isAt here).2]
  opening text known a l here := by
    have kinds : ∀ text ∈ ["(", "["], text ∉ indentation.quotes ∧ text ∈ indentation.opening := by decide
    obtain ⟨source, rfl⟩ := text_isAt here
    exact Layout.Indentation.balanced_open source (kinds _ known).1 (kinds _ known).2 a
  closing text known a l here := by
    have kinds : ∀ text ∈ [")", "]"], text ∉ indentation.quotes ∧ text ∉ indentation.opening ∧
        text ∈ indentation.closing := by decide
    obtain ⟨source, rfl⟩ := text_isAt here
    exact Layout.Indentation.balanced_close source (kinds _ known).1 (kinds _ known).2.1 (kinds _ known).2.2 a
  string a l body here quoted := by
    obtain ⟨source, text⟩ := text_isAt here
    exact Layout.Indentation.balanced_string rfl (by decide) (by decide) (by decide) source text quoted a

theorem balanced_of_parse {tokens : Rest} (digital : Rest.Digital tokens) (ended : Lexeme.Ended {} tokens)
    {file : String} {bound : Int} {x : List Stmt} (parsed : grammar.parse (context tokens file bound) tokens = .ok x) :
    indentation.Balanced 0 0 tokens := by
  have counting := balancing_counting digital file bound
  have moves := Grammar.program_moves (a := 0) counting.toSound (grammar_moving counting) (Nat.le_refl _)
  obtain ⟨reached, parsed⟩ := Grammar.parse_eq_ok.1 parsed
  have outcome := moves List.suffix_rfl
  change Walk.Outcome _ _ _ _ (grammar.program (context tokens file bound) tokens) at outcome
  rw [parsed] at outcome
  obtain ⟨eaten, split, balanced⟩ := outcome
  have left := Session.synthetic_of_atEnd rfl ended ⟨eaten, split.symm⟩ (Grammar.blockFrom_stops _ parsed)
  rw [split]
  exact Balanced.append balanced (balanced_run fun l member => Layout.Indentation.balanced_marker (left l member) 0)

section sources

variable {s : Session} {tokens : List Lexeme} {x : List Stmt} {text first second : List Char}

theorem parse_contextOf (lumen : s.language = Language.lumen) (tokens : List Lexeme) :
    s.language.grammar.parse (s.contextOf tokens) tokens =
      grammar.parse (context tokens s.options.file s.maxDepth) tokens := by
  rw [Session.contextOf, lumen]
  rfl

theorem lumen_listed (lumen : s.language = Language.lumen) : s.language ∈ Language.all := by
  rw [lumen]
  exact List.mem_cons_self

theorem spot_of_parse (lumen : s.language = Language.lumen)
    (found : s.tokens (Text.Utf8.encode (String.ofList text)) = .ok tokens) {file : String} {bound : Int}
    (parsed : grammar.parse (context tokens file bound) tokens = .ok x) :
    (Spot.through {} text).inString = false ∧ (Spot.through {} text).depth = 0 := by
  have listed := lumen_listed lumen
  have balanced := balanced_of_parse (Session.tokens_digital listed found) (Session.tokens_ended listed found) parsed
  obtain ⟨code, flat⟩ := Layout.Indentation.closed_of_balanced blankless
    (fun l member => (Lexer.cut_places Place.start text l member).1) (applied_of_tokens lumen found) balanced
  have texts : (Lexer.cut table Place.start text).map (·.text) = (lexed text).map (·.text) := by
    rw [lexed, Lexer.lexed, Rest.bare, List.map_map]
    rfl
  have position : (indentation.read {} (Lexer.cut table Place.start text)).2.position =
      (Spot.through {} text).position := by
    rw [Layout.Indentation.position_read, position_through, texts]
    rfl
  constructor
  · rw [← Spot.inString_position, ← position, code]
  · exact (congrArg Layout.Indentation.Position.depth position).symm.trans flat

theorem Spot.step_newline (p : Spot) : (p.step '\n').inString = p.inString ∧ (p.step '\n').depth = p.depth := by
  obtain ⟨region, depth⟩ := p
  cases region with
  | code => exact ⟨rfl, rfl⟩
  | comment => exact ⟨rfl, rfl⟩
  | string escaped =>
    cases escaped with
    | true => exact ⟨rfl, rfl⟩
    | false => exact ⟨rfl, rfl⟩

theorem lineStart_of_spot (code : (Spot.through {} (text ++ ['\n'])).inString = false)
    (flat : (Spot.through {} (text ++ ['\n'])).depth = 0) : LineStart (text ++ ['\n']) := by
  have behind : Spot.through {} (text ++ ['\n']) = (Spot.through {} text).step '\n' := by
    rw [Spot.through, List.foldl_append]
    rfl
  rw [behind] at code flat
  have newline := Spot.step_newline (Spot.through {} text)
  exact Or.inr ⟨text, rfl, newline.1.symm.trans code, newline.2.symm.trans flat⟩

theorem lines_append (starts : LineStart first) (second : List Char) :
    indentation.lines (lexed (first ++ second)) = indentation.lines (lexed first) ++ indentation.lines (lexed second) := by
  obtain ⟨lines, behind⟩ := linesFrom_lineStart starts
  have alone := behind []
  rw [List.append_nil] at alone
  rw [starts.lexed_append, Layout.Indentation.lines, behind, Layout.Indentation.lines, alone, List.append_assoc]
  rfl

theorem fronted_of_tokens (lumen : s.language = Language.lumen)
    (found : s.tokens (Text.Utf8.encode (String.ofList text)) = .ok tokens) {front : Rest}
    (split : Rest.bare tokens = front ++ [Lexeme.sign ({} : Aliases).endOfInput]) : Fronted tokens front where
  split := split
  closes := by
    have applied := applied_of_tokens lumen found
    have accepts := Layout.Indentation.apply_accepts (by decide) applied
    rw [Layout.Indentation.apply_accepted indentation {} _ (by decide) accepts, Except.ok.injEq] at applied
    obtain ⟨front', split', closes⟩ := Layout.closes_leveled indentation.width
      (Lexeme.endOf (Lexer.cut table Place.start text)) 0 (indentation.lines (Lexer.cut table Place.start text))
    rw [applied, split] at split'
    obtain ⟨rfl, -⟩ := List.append_inj' split' rfl
    exact closes
  inner := by
    obtain ⟨front', finish, ends, inner⟩ := Session.tokens_ended (lumen_listed lumen) found
    rw [ends, Rest.bare, List.map_append] at split
    obtain ⟨rfl, -⟩ := List.append_inj' split rfl
    rw [List.forall_mem_map]
    intro l member finishes
    exact inner l member finishes.1 finishes.2

theorem parse_sources (lumen : s.language = Language.lumen) {first second : List UInt8}
    (newline : first.getLast? = some 10) {x₁ x₂ : List Stmt} (parsed₁ : s.parse first = .ok x₁)
    (parsed₂ : s.parse second = .ok x₂) : s.parse (first ++ second) = .ok (x₁ ++ x₂) := by
  obtain ⟨tokens₁, found₁, read₁⟩ := Session.tokens_of_parse parsed₁
  obtain ⟨tokens₂, found₂, read₂⟩ := Session.tokens_of_parse parsed₂
  rw [parse_contextOf lumen] at read₁ read₂
  obtain ⟨text, rfl⟩ := Session.source_text found₁
  obtain ⟨later, rfl⟩ := Session.source_text found₂
  obtain ⟨line, rfl⟩ := Text.Utf8.eq_append_newline newline
  obtain ⟨code, flat⟩ := spot_of_parse lumen found₁ read₁
  have starts := lineStart_of_spot code flat
  have lines := lines_append starts later
  have closed : (Rest.bare tokens₂).head? ≠ some (Lexeme.sign ({} : Aliases).indent) := head_of_parse rfl rfl read₂
  rw [← lines_cut, ← lines_cut, ← lines_cut, ← List.map_append] at lines
  obtain ⟨front₁, whole, applied, split₁, joined⟩ := Layout.Indentation.apply_append (by decide)
    (applied_of_tokens lumen found₁) (applied_of_tokens lumen found₂) lines closed
  have found : s.tokens (Text.Utf8.encode (String.ofList (line ++ ['\n'] ++ later))) = .ok whole := by
    rw [tokens_text lumen, applied]
    rfl
  obtain ⟨front₂, finish, split₂, -⟩ := Session.tokens_ended (lumen_listed lumen) found₂
  have fronted₂ : Fronted tokens₂ (Rest.bare front₂) := by
    apply fronted_of_tokens lumen found₂
    rw [split₂, Rest.bare, List.map_append]
    rfl
  rw [Text.Utf8.encode_append]
  refine Session.parse_of_tokens ⟨whole, found, ?_⟩
  rw [parse_contextOf lumen]
  exact parse_append (fronted_of_tokens lumen found₁ split₁) fronted₂ joined
    (Session.tokens_digital (lumen_listed lumen) found) read₁ read₂

end sources

end ScriptKernel.Lumen
