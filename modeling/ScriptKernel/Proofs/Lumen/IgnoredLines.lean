import ScriptKernel.Proofs.Layout.Steps
import ScriptKernel.Proofs.Lumen.Layout
import ScriptKernel.Proofs.Session.Streams

/-!
What the layout ignores in a source. Outside strings and brackets a line that
is blank, or a comment behind blanks, may be put in at the start of any line,
and outside strings every line end may be written with a carriage return. The
stream stays the same but for places.
-/

namespace ScriptKernel.Lumen

open Written
open Layout (Reading)
open Layout.Indentation (Position isBlank)

/-- What is around a character; a string may protect it. -/
inductive Region where
  | code
  | comment
  | string (escaped : Bool)
deriving Repr, DecidableEq

/-- The region in which the next character stands, and how many brackets are
open there. -/
structure Spot where
  region : Region := .code
  depth : Nat := 0
deriving Repr, DecidableEq

namespace Spot

def step (p : Spot) (c : Char) : Spot :=
  match p.region with
  | .string true => { p with region := .string false }
  | .string false =>
    if c = '\\' then { p with region := .string true }
    else if c = '"' then { p with region := .code }
    else p
  | .comment => if c = '\n' then { p with region := .code } else p
  | .code =>
    if c = '#' then { p with region := .comment }
    else if c = '"' then { p with region := .string false }
    else if c = '(' ∨ c = '[' then { p with depth := p.depth + 1 }
    else if c = ')' ∨ c = ']' then { p with depth := p.depth - 1 }
    else p

def through (p : Spot) (text : List Char) : Spot :=
  text.foldl step p

def inString (p : Spot) : Bool :=
  match p.region with
  | .string _ => true
  | _ => false

def position (p : Spot) : Position where
  mode := match p.region with
    | .code => .code
    | .comment => .comment
    | .string escaped => .string "\"" escaped
  depth := p.depth

theorem inString_position (p : Spot) : p.position.inString = p.inString := by
  obtain ⟨region, depth⟩ := p
  cases region with
  | code => rfl
  | comment => rfl
  | string escaped => rfl

end Spot

def layoutChars : List Char :=
  ['\n', '#', '"', '\\', '(', '[', ')', ']']

theorem singleton_ne {c d : Char} (other : c ≠ d) : String.singleton c ≠ String.singleton d := by
  intro same
  have chars := congrArg String.toList same
  simp only [String.toList_singleton, List.cons.injEq, and_true] at chars
  exact other chars

/-- The spot behind something that means nothing to the layout. It only uses up
the protection in a string. -/
def Spot.passed (p : Spot) : Spot :=
  match p.region with
  | .string _ => { p with region := .string false }
  | _ => p

theorem Spot.passed_passed (p : Spot) : p.passed.passed = p.passed := by
  obtain ⟨region, depth⟩ := p
  cases region with
  | code => rfl
  | comment => rfl
  | string escaped => rfl

theorem Spot.step_other (p : Spot) {c : Char} (other : c ∉ layoutChars) : p.step c = p.passed := by
  simp only [layoutChars, List.mem_cons, List.not_mem_nil, or_false, not_or] at other
  obtain ⟨region, depth⟩ := p
  cases region with
  | code => simp [step, passed, other]
  | comment => simp [step, passed, other]
  | string escaped =>
    cases escaped with
    | true => rfl
    | false => simp [step, passed, other]

theorem next_other (p : Spot) {text : String} (other : ∀ c ∈ layoutChars, text ≠ String.singleton c) :
    p.position.next indentation text = p.passed.position := by
  have plain (c : Char) (known : c ∈ layoutChars) {written : String} (same : written = String.singleton c) :
      text ≠ written := same ▸ other c known
  have newline : text ≠ "\n" := plain '\n' (by decide) rfl
  obtain ⟨region, depth⟩ := p
  cases region with
  | code =>
    simp only [Spot.position, Spot.passed, Position.next]
    by_cases ignored : text = "\n" ∨ text = "\r" ∨ isBlank text = true
    · rw [if_pos ignored]
    · have comment : text ≠ "#" := plain '#' (by decide) rfl
      have quote : text ≠ "\"" := plain '"' (by decide) rfl
      have opening : text ≠ "(" ∧ text ≠ "[" := ⟨plain '(' (by decide) rfl, plain '[' (by decide) rfl⟩
      have closing : text ≠ ")" ∧ text ≠ "]" := ⟨plain ')' (by decide) rfl, plain ']' (by decide) rfl⟩
      rw [if_neg ignored, Position.afterCode, if_neg fun h => comment h.2, if_neg, if_neg, if_neg]
      · simpa [indentation] using closing
      · simpa [indentation] using opening
      · simpa [indentation] using quote
  | comment =>
    simp only [Spot.position, Spot.passed, Position.next]
    rw [if_neg newline]
  | string escaped =>
    have escape : text ≠ indentation.escape := plain '\\' (by decide) rfl
    have quote : text ≠ "\"" := plain '"' (by decide) rfl
    simp only [Spot.position, Spot.passed, Position.next]
    cases escaped with
    | true => rfl
    | false => rw [if_neg (by decide), if_neg escape, if_neg quote]

theorem position_step (p : Spot) (c : Char) :
    (p.step c).position = p.position.next indentation (String.singleton c) := by
  by_cases plain : c ∈ layoutChars
  · obtain ⟨region, depth⟩ := p
    simp only [layoutChars, List.mem_cons, List.not_mem_nil, or_false] at plain
    rcases plain with rfl | rfl | rfl | rfl | rfl | rfl | rfl | rfl <;> rcases region with _ | _ | _ | _ <;> rfl
  · have other : ∀ d ∈ layoutChars, String.singleton c ≠ String.singleton d := by
      intro d known
      apply singleton_ne
      rintro rfl
      exact plain known
    rw [next_other p other, p.step_other plain]

theorem position_pair (p : Spot) {c d : Char} (entry : (c, d) ∈ pairs) :
    ((p.step c).step d).position = p.position.next indentation (String.ofList [c, d]) := by
  have known : ∀ pair ∈ pairs, pair.1 ∉ layoutChars ∧ pair.2 ∉ layoutChars := by decide
  have long (e : Char) : String.ofList [c, d] ≠ String.singleton e := by
    intro same
    have chars := congrArg String.toList same
    simp at chars
  rw [next_other p fun e _ => long e, p.step_other (known _ entry).1, Spot.step_other _ (known _ entry).2,
    Spot.passed_passed]

theorem position_through (p : Spot) (text : List Char) :
    (p.through text).position = p.position.through indentation ((lexed text).map (·.text)) := by
  unfold lexed
  induction text using Lexer.lexed_induction paired generalizing p with
  | nil =>
    rw [Lexer.lexed_nil]
    rfl
  | pair c d rest entry cut ih =>
    have pair : (p.through (c :: d :: rest)).position = (((p.step c).step d).through rest).position := rfl
    rw [pair, ih, position_pair p entry, cut]
    rfl
  | single c rest alone cut ih =>
    have single : (p.through (c :: rest)).position = ((p.step c).through rest).position := rfl
    rw [single, ih, position_step, cut]
    rfl

/-- A text behind which a line starts: nothing, or one that ends with a newline
outside strings and brackets. -/
def LineStart (before : List Char) : Prop :=
  before = [] ∨ ∃ front, before = front ++ ['\n'] ∧ (Spot.through {} front).inString = false ∧
    (Spot.through {} front).depth = 0

def Ignorable (line : List Char) : Prop :=
  ∃ blanks comment, line = blanks ++ (comment ++ ['\n']) ∧ (∀ c ∈ blanks, c = ' ' ∨ c = '\t') ∧
    (comment = [] ∨ ∃ text, comment = '#' :: text) ∧ '\n' ∉ comment

structure Blank (r : Reading) : Prop where
  kept : r.kept = []
  depth : r.depth = 0
  mode : r.mode = .code

theorem newline_apart : ∀ c ∈ ['\n'].head?, c ∉ pairs.map Prod.snd := by
  have newline : '\n' ∉ pairs.map Prod.snd := by decide
  rintro _ ⟨⟩
  exact newline

theorem lexed_line (front after : List Char) :
    lexed (front ++ '\n' :: after) = lexed (front ++ ['\n']) ++ lexed after := by
  have apart (rest : List Char) : ∀ c ∈ ('\n' :: rest).head?, c ∉ pairs.map Prod.snd := newline_apart
  rw [lexed_append (apart after), lexed_char (by decide), lexed_append newline_apart, lexed_char (by decide), lexed_nil,
    List.append_assoc]
  rfl

theorem LineStart.lexed_append {before : List Char} (starts : LineStart before) (after : List Char) :
    lexed (before ++ after) = lexed before ++ lexed after := by
  rcases starts with rfl | ⟨front, rfl, -, -⟩
  · rw [lexed_nil]
    rfl
  · rw [List.append_assoc]
    exact lexed_line front after

theorem Ignorable.lexed_append {line : List Char} (ignorable : Ignorable line) (after : List Char) :
    lexed (line ++ after) = lexed line ++ lexed after := by
  obtain ⟨blanks, comment, rfl, -⟩ := ignorable
  rw [← List.append_assoc blanks, List.append_assoc]
  exact lexed_line (blanks ++ comment) after

theorem linesFrom_lineStart {before : List Char} (starts : LineStart before) :
    ∃ lines, ∀ rest, indentation.linesFrom {} (lexed before ++ rest) = lines ++ indentation.linesFrom {} rest := by
  rcases starts with rfl | ⟨front, rfl, outside, flat⟩
  · refine ⟨[], fun rest => ?_⟩
    rw [lexed_nil]
    rfl
  · have position : (indentation.read {} (lexed front)).2.position = (Spot.through {} front).position :=
      (indentation.position_read {} (lexed front)).trans (position_through {} front).symm
    have code : (indentation.read {} (lexed front)).2.position.inString = false := by
      rw [position, Spot.inString_position, outside]
    have depth : (indentation.read {} (lexed front)).2.depth = 0 :=
      (congrArg Position.depth position).trans flat
    have newline : (Lexeme.source "\n").text = "\n" := rfl
    have ends := indentation.advance_newline newline code depth
    refine ⟨(indentation.read {} (lexed front)).1 ++ (indentation.read {} (lexed front)).2.finish.toList, fun rest => ?_⟩
    rw [lexed_append newline_apart, lexed_char (by decide), lexed_nil, List.append_assoc,
      Layout.Indentation.linesFrom_append, List.singleton_append, Layout.Indentation.linesFrom_cons]
    have text : Lexeme.source (String.singleton '\n') = .source "\n" := rfl
    rw [text, ends, List.append_assoc]

theorem linesFrom_blanks {blanks : List Char} (blank : ∀ c ∈ blanks, c = ' ' ∨ c = '\t') {r : Reading}
    (fresh : Blank r) : ∃ r', Blank r' ∧
      ∀ rest, indentation.linesFrom r (letters blanks ++ rest) = indentation.linesFrom r' rest := by
  induction blanks generalizing r with
  | nil => exact ⟨r, fresh, fun _ => rfl⟩
  | cons c blanks ih =>
    rw [List.forall_mem_cons] at blank
    obtain ⟨spaces, tab, kept, depth, mode⟩ := r
    obtain ⟨rfl, rfl, rfl⟩ := fresh
    have stays : ∃ spaces' tab', indentation.advance ⟨spaces, tab, [], 0, .code⟩ (.source (String.singleton c)) =
        ([], ⟨spaces', tab', [], 0, .code⟩) := by
      rcases blank.1 with rfl | rfl
      · exact ⟨spaces + 1, tab, rfl⟩
      · exact ⟨spaces, tab.or (some Place.start), rfl⟩
    obtain ⟨spaces', tab', advanced⟩ := stays
    obtain ⟨r', fresh', same⟩ := ih blank.2 (r := ⟨spaces', tab', [], 0, .code⟩) ⟨rfl, rfl, rfl⟩
    refine ⟨r', fresh', fun rest => ?_⟩
    rw [letters, List.map_cons, List.cons_append, Layout.Indentation.linesFrom_cons, advanced]
    exact same rest

theorem newline_not_mem_lexed {text : List Char} (none : '\n' ∉ text) : ∀ l ∈ lexed text, l.text ≠ "\n" :=
  Lexer.singleton_not_mem_lexed paired none

theorem linesFrom_comment {r : Reading} (comment : r.mode = .comment) {lexemes : Rest}
    (none : ∀ l ∈ lexemes, l.text ≠ "\n") (rest : Rest) :
    indentation.linesFrom r (lexemes ++ rest) = indentation.linesFrom r rest := by
  induction lexemes with
  | nil => rfl
  | cons l lexemes ih =>
    rw [List.forall_mem_cons] at none
    have stays : indentation.advance r l = ([], r) := by
      unfold Layout.Indentation.advance
      rw [comment]
      exact if_pos none.1
    rw [List.cons_append, Layout.Indentation.linesFrom_cons, stays]
    exact ih none.2

theorem linesFrom_ignorable {line : List Char} (ignorable : Ignorable line) (rest : Rest) :
    indentation.linesFrom {} (lexed line ++ rest) = indentation.linesFrom {} rest := by
  obtain ⟨blanks, comment, rfl, blank, start, oneLine⟩ := ignorable
  have starts : ∀ c ∈ blanks, c ∉ pairs.map Prod.fst := by
    intro c member
    rcases blank c member with rfl | rfl <;> decide
  have newline : lexed (comment ++ ['\n']) = lexed comment ++ [.source "\n"] := by
    rw [lexed_append newline_apart, lexed_char (by decide), lexed_nil]
    rfl
  obtain ⟨r, fresh, same⟩ := linesFrom_blanks blank (r := {}) ⟨rfl, rfl, rfl⟩
  obtain ⟨spaces, tab, kept, depth, mode⟩ := r
  obtain ⟨rfl, rfl, rfl⟩ := fresh
  rw [lexed_letters starts, newline, List.append_assoc, List.append_assoc, same]
  rcases start with rfl | ⟨text, rfl⟩
  · rw [lexed_nil, List.nil_append, List.singleton_append, Layout.Indentation.linesFrom_cons]
    rfl
  · have none := newline_not_mem_lexed fun later => oneLine (List.mem_cons_of_mem _ later)
    rw [lexed_char (by decide), List.cons_append, Layout.Indentation.linesFrom_cons]
    have opened : indentation.advance ⟨spaces, tab, [], 0, .code⟩ (.source (String.singleton '#')) =
        ([], ⟨spaces, tab, [], 0, .comment⟩) := rfl
    rw [opened, List.nil_append, linesFrom_comment rfl none, List.singleton_append,
      Layout.Indentation.linesFrom_cons]
    rfl

def crlf (c : Char) : List Char :=
  if c = '\n' then ['\r', '\n'] else [c]

/-- No newline of the text is in a string, if the text starts at the spot. -/
def unbroken (p : Spot) : List Char → Bool
  | [] => true
  | c :: rest => !(c == '\n' && p.inString) && unbroken (p.step c) rest

theorem advance_return {r : Reading} (outside : r.position.inString = false) :
    indentation.advance r (.source "\r") = ([], r) := by
  obtain ⟨spaces, tab, kept, depth, mode⟩ := r
  cases mode with
  | code => rfl
  | comment => rfl
  | string quote escaped => cases outside

theorem crlf_apart {c : Char} {rest : List Char} (alone : ∀ d ∈ rest.head?, (c, d) ∉ pairs) :
    ∀ d ∈ (rest.flatMap crlf).head?, (c, d) ∉ pairs := by
  cases rest with
  | nil => exact alone
  | cons e rest =>
    by_cases newline : e = '\n'
    · have return_apart : '\r' ∉ pairs.map Prod.snd := by decide
      subst newline
      rintro _ ⟨⟩
      exact fun entry => return_apart (List.mem_map_of_mem entry)
    · have written : (e :: rest).flatMap crlf = e :: rest.flatMap crlf := by
        rw [List.flatMap_cons, crlf, if_neg newline]
        rfl
      rw [written]
      exact alone

theorem linesFrom_crlf (text : List Char) {p : Spot} (whole : unbroken p text) {r : Reading}
    (position : r.position = p.position) :
    indentation.linesFrom r (lexed (text.flatMap crlf)) = indentation.linesFrom r (lexed text) := by
  unfold lexed
  induction text using Lexer.lexed_induction paired generalizing p r with
  | nil => rfl
  | pair c d rest entry cut ih =>
    have known : ∀ pair ∈ pairs, pair.1 ≠ '\n' ∧ pair.2 ≠ '\n' := by decide
    have same : (c :: d :: rest).flatMap crlf = c :: d :: rest.flatMap crlf := by
      rw [List.flatMap_cons, List.flatMap_cons, crlf, crlf, if_neg (known _ entry).1, if_neg (known _ entry).2]
      rfl
    rw [same, Lexer.lexed_pair paired entry, cut, Layout.Indentation.linesFrom_cons,
      Layout.Indentation.linesFrom_cons]
    simp only [unbroken, Bool.and_eq_true] at whole
    congr 1
    apply ih whole.2.2
    rw [Layout.Indentation.position_advance, position, position_pair p entry]
    rfl
  | single c rest alone cut ih =>
    rw [unbroken, Bool.and_eq_true] at whole
    have later (r' : Reading) (position' : r'.position = (p.step c).position) := ih whole.2 position'
    by_cases newline : c = '\n'
    · subst newline
      have written : ('\n' :: rest).flatMap crlf = '\r' :: '\n' :: rest.flatMap crlf := rfl
      have outside : r.position.inString = false := by
        rw [position, Spot.inString_position]
        simpa using whole.1
      have text : Lexeme.source (String.singleton '\r') = .source "\r" := rfl
      rw [written, Lexer.lexed_char paired (by decide), Lexer.lexed_char paired (by decide), cut,
        Layout.Indentation.linesFrom_cons, text, advance_return outside, List.nil_append,
        Layout.Indentation.linesFrom_cons, Layout.Indentation.linesFrom_cons]
      congr 1
      apply later
      rw [Layout.Indentation.position_advance, position, position_step]
      rfl
    · have written : (c :: rest).flatMap crlf = c :: rest.flatMap crlf := by
        rw [List.flatMap_cons, crlf, if_neg newline]
        rfl
      rw [written, Lexer.lexed_single paired (crlf_apart alone), cut, Layout.Indentation.linesFrom_cons,
        Layout.Indentation.linesFrom_cons]
      congr 1
      apply later
      rw [Layout.Indentation.position_advance, position, position_step]
      rfl

def seen (l : Lexeme) : String × Bool :=
  (l.text, l.synthetic)

theorem seen_bare {stream stream' : List Lexeme} (same : Rest.bare stream' = Rest.bare stream) :
    stream'.map seen = stream.map seen := by
  have unaware (rest : List Lexeme) : (Rest.bare rest).map seen = rest.map seen := by
    rw [Rest.bare, List.map_map]
    rfl
  rw [← unaware stream', same, unaware]

theorem tokens_text {s : Session} (lumen : s.language = Language.lumen) (text : List Char) :
    s.tokens (Text.Utf8.encode (String.ofList text)) =
      (indentation.apply {} (Lexer.cut table Place.start text)).mapError (LexError.inFile s.options.file) := by
  have cut : s.lex (Text.Utf8.encode (String.ofList text)) = .ok (Lexer.cut table Place.start text) := by
    rw [Session.lex, lumen, Language.lumen, Lexer.lex, Text.Utf8.decode_encode]
    rfl
  rw [Session.tokens, cut, lumen]
  rfl

theorem applied_of_tokens {s : Session} (lumen : s.language = Language.lumen) {text : List Char} {tokens : List Lexeme}
    (found : s.tokens (Text.Utf8.encode (String.ofList text)) = .ok tokens) :
    indentation.apply {} (Lexer.cut table Place.start text) = .ok tokens := by
  rw [tokens_text lumen] at found
  cases applied : indentation.apply {} (Lexer.cut table Place.start text) with
  | error e =>
    rw [applied] at found
    cases found
  | ok output =>
    rw [applied] at found
    cases found
    rfl

theorem lines_cut (text : List Char) :
    (indentation.lines (Lexer.cut table Place.start text)).map Layout.LogicalLine.bare = indentation.lines (lexed text) :=
  (indentation.lines_bare _).symm

theorem tokens_of_lines {s : Session} (lumen : s.language = Language.lumen) {text text' : List Char}
    (same : indentation.lines (lexed text') = indentation.lines (lexed text)) {tokens : List Lexeme}
    (found : s.tokens (Text.Utf8.encode (String.ofList text)) = .ok tokens) :
    ∃ tokens', s.tokens (Text.Utf8.encode (String.ofList text')) = .ok tokens' ∧
      tokens'.map seen = tokens.map seen := by
  have lines := (lines_cut text').trans (same.trans (lines_cut text).symm)
  obtain ⟨output', applied', alike⟩ := Layout.Indentation.apply_bare lines (applied_of_tokens lumen found)
  exact ⟨output', by rw [tokens_text lumen, applied']; rfl, seen_bare alike⟩

/-- The stream of a source, which is a text, does not change but for places when
a line of blanks and perhaps a comment is put in where a line starts outside
strings and brackets, or when every line end is written with a carriage return
in a text that breaks no string over lines. -/
theorem layout_ignores_lines {s : Session} (lumen : s.language = Language.lumen) {source : List UInt8}
    {tokens : List Lexeme} (found : s.tokens source = .ok tokens) :
    (∃ text, source = Text.Utf8.encode (String.ofList text)) ∧
    ∀ text, source = Text.Utf8.encode (String.ofList text) →
      (∀ before after line, text = before ++ after → LineStart before → Ignorable line →
        ∃ tokens', s.tokens (Text.Utf8.encode (String.ofList (before ++ (line ++ after)))) = .ok tokens' ∧
          tokens'.map seen = tokens.map seen) ∧
      (unbroken {} text → ∃ tokens', s.tokens (Text.Utf8.encode (String.ofList (text.flatMap crlf))) = .ok tokens' ∧
          tokens'.map seen = tokens.map seen) := by
  refine ⟨Session.source_text found, ?_⟩
  rintro text rfl
  constructor
  · rintro before after line rfl starts ignorable
    apply tokens_of_lines lumen _ found
    obtain ⟨lines, behind⟩ := linesFrom_lineStart starts
    calc indentation.lines (lexed (before ++ (line ++ after)))
        = indentation.linesFrom {} (lexed before ++ (lexed line ++ lexed after)) := by
          rw [starts.lexed_append, ignorable.lexed_append]; rfl
      _ = lines ++ indentation.linesFrom {} (lexed line ++ lexed after) := behind _
      _ = lines ++ indentation.linesFrom {} (lexed after) := by rw [linesFrom_ignorable ignorable]
      _ = indentation.linesFrom {} (lexed before ++ lexed after) := (behind _).symm
      _ = indentation.lines (lexed (before ++ after)) := by rw [starts.lexed_append]; rfl
  · intro whole
    exact tokens_of_lines lumen (linesFrom_crlf text whole rfl) found

theorem layout_ignores_lines_block :
    let s : Session := ⟨Language.lumen, {}⟩
    ∃ tokens commented returned, s.tokens (Text.Utf8.encode "a\n    b\n") = .ok tokens ∧
      s.tokens (Text.Utf8.encode "a\n \t# \"([\n    b\n") = .ok commented ∧
      s.tokens (Text.Utf8.encode "a\r\n    b\r\n") = .ok returned ∧
      tokens.map seen = [("a", false), ("NEWLINE", true), ("INDENT", true), ("b", false), ("NEWLINE", true),
        ("DEDENT", true), ("EOF", true)] ∧
      commented.map seen = tokens.map seen ∧ returned.map seen = tokens.map seen := by
  intro s
  have found : ∃ tokens, s.tokens (Text.Utf8.encode "a\n    b\n") = .ok tokens ∧ tokens.map seen =
      [("a", false), ("NEWLINE", true), ("INDENT", true), ("b", false), ("NEWLINE", true), ("DEDENT", true),
        ("EOF", true)] := by
    refine ⟨?tokens, ?lexed, ?texts⟩
    case lexed => cbv; rfl
    case texts => rfl
  obtain ⟨tokens, found, texts⟩ := found
  obtain ⟨-, ignores⟩ := layout_ignores_lines rfl found
  obtain ⟨put, returns⟩ := ignores "a\n    b\n".toList rfl
  have starts : LineStart "a\n".toList := Or.inr ⟨['a'], rfl, rfl, rfl⟩
  have ignorable : Ignorable " \t# \"([\n".toList :=
    ⟨[' ', '\t'], "# \"([".toList, rfl, by decide, Or.inr ⟨" \"([".toList, rfl⟩, by decide⟩
  obtain ⟨commented, lexed, same⟩ := put "a\n".toList "    b\n".toList _ rfl starts ignorable
  obtain ⟨returned, lexed', same'⟩ := returns rfl
  exact ⟨tokens, commented, returned, found, lexed, lexed', texts, same, same'⟩

end ScriptKernel.Lumen
