import ScriptKernel.Proofs.Lumen.InputEnd
import ScriptKernel.Proofs.MiniRust.InputEnd
import ScriptKernel.Proofs.Session.Progress
import ScriptKernel.Session.Repl

/-!
Entries that are not finished. Where a line has been read and its parse fails
with the input used up, more is asked for: the fault names the end of the input,
and the decision looks for those words in it. Unfinished strings and nesting
beyond the bound are the exceptions, and a marker is not the end.
-/

namespace ScriptKernel

namespace Text

theorem occursIn_append (part before behind : List Char) : occursIn part (before ++ (part ++ behind)) = true := by
  induction before with
  | nil =>
    rw [List.nil_append]
    cases whole : part ++ behind with
    | nil => rw [(List.append_eq_nil_iff.1 whole).1]; rfl
    | cons c cs =>
      have starts : part.isPrefixOf (c :: cs) = true := by
        rw [← whole, List.isPrefixOf_iff_prefix]
        exact List.prefix_append part behind
      rw [occursIn, starts, Bool.true_or]
  | cons c before ih => rw [List.cons_append, occursIn, ih, Bool.or_true]

theorem contains_append (before part behind : String) : contains (before ++ part ++ behind) part = true := by
  rw [contains, String.toList_append, String.toList_append, List.append_assoc]
  exact occursIn_append part.toList before.toList behind.toList

end Text

theorem Sight.describe_end : Sight.endOfInput.describe = "at " ++ "end of input" := by
  decide

theorem ParseFault.message_of_namesEnd {fault : ParseFault} (names : fault.namesEnd = true) :
    ∃ before behind, fault.message = before ++ "end of input" ++ behind := by
  have sighted {start : String} {sight : Sight} (ended : (sight == .endOfInput) = true) :
      ∃ before behind, start ++ sight.describe = before ++ "end of input" ++ behind := by
    refine ⟨start ++ "at ", "", ?_⟩
    rw [beq_iff_eq.1 ended, Sight.describe_end, String.append_empty, String.append_assoc]
  cases fault with
  | expected texts got =>
    have empty : got = "" := beq_iff_eq.1 names
    refine ⟨"Expected " ++ Text.join " or " (texts.map fun text => "'" ++ text ++ "'") ++ ", got ", "", ?_⟩
    rw [String.append_empty]
    exact congrArg (_ ++ ·) (if_pos empty)
  | unknownStatement sight => exact sighted names
  | unknownExpression sight => exact sighted names
  | nothingConsumed sight => exact sighted names
  | expectedBlock sight => exact sighted names
  | expectedEnd sight => exact sighted names
  | memoizationValue sight => exact sighted names
  | unfinishedBlock => exact ⟨"Unexpected ", " inside a block", by decide⟩
  | _ => cases names

theorem ParseError.render_of_namesEnd {e : ParseError} (names : e.fault.namesEnd = true) :
    Text.contains e.render "end of input" = true := by
  obtain ⟨before, behind, words⟩ := ParseFault.message_of_namesEnd names
  rw [render, words, ← String.append_assoc, ← String.append_assoc]
  exact Text.contains_append _ _ behind

/-- Of the last line of a source no lexeme is left but its end. -/
def Lexeme.Lined (lexemes : List Lexeme) : Prop :=
  ∀ l, lexemes.getLast? = some l → l.synthetic = false → l.text = "\n"

theorem Lexer.lex_lined {table : Table} (ordered : table.Ordered) (single : ∀ entry ∈ table.entries, '\n' ∉ entry.toList)
    {source : List UInt8} {lexemes : List Lexeme} (lexed : lex table source = .ok lexemes) {text : List Char}
    (line : source = Text.Utf8.encode (String.ofList (text ++ ['\n']))) : Lexeme.Lined lexemes := by
  intro l last real
  obtain ⟨before, rfl⟩ := List.getLast?_eq_some_iff.1 last
  have member : l ∈ before ++ [l] := by simp
  obtain ⟨written, covers⟩ : ∃ written : List Char, written ++ l.text.toList = text ++ ['\n'] := by
    have cuts : cut table Place.start (text ++ ['\n']) = before ++ [l] := by
      rw [line, lex, Text.Utf8.decode_encode] at lexed
      exact Except.ok.inj lexed
    have whole : Lexeme.concat (cut table Place.start (text ++ ['\n'])) = String.ofList (text ++ ['\n']) :=
      concat_cut Place.start (text ++ ['\n'])
    refine ⟨(Lexeme.concat before).toList, ?_⟩
    rw [← String.toList_append, ← String.toList_ofList (l := text ++ ['\n']), ← whole, cuts]
    simp [Lexeme.concat, real]
  rcases lex_texts ordered lexed l member with known | ⟨c, same⟩
  · -- An operator would end with the line end.
    rcases List.eq_nil_or_concat l.text.toList with empty | ⟨start, c, split⟩
    · have none : l.text = "" := String.toList_inj.1 empty
      exact absurd (none ▸ known) ordered.empty_not_mem
    · rw [split, List.concat_eq_append, ← List.append_assoc] at covers
      have ends := List.singleton_inj.1 (List.append_inj' covers rfl).2
      refine absurd ?_ (single l.text known)
      rw [split, ends]
      simp
  · rw [same, String.toList_singleton] at covers
    have ends := List.singleton_inj.1 (List.append_inj' covers rfl).2
    rw [same, ends]
    rfl

theorem Layout.Indentation.mark_last {rules : Indentation} {aliases : Aliases} {blocks inner : List Nat}
    {lines : List LogicalLine} {marked : List Lexeme} (done : rules.mark aliases blocks lines = .ok (marked, inner)) :
    ∀ l, marked.getLast? = some l → l.synthetic = true := by
  induction lines generalizing blocks marked inner with
  | nil =>
    cases done
    intro l last
    cases last
  | cons line rest ih =>
    rw [mark] at done
    cases entered : rules.enter aliases blocks line with
    | error e => simp [entered, bind, Except.bind] at done
    | ok result =>
      obtain ⟨opening, current⟩ := result
      cases behind : rules.mark aliases current rest with
      | error e => simp [entered, behind, bind, Except.bind] at done
      | ok result =>
        obtain ⟨after, outer⟩ := result
        simp only [entered, behind, bind, Except.bind, Except.ok.injEq, Prod.mk.injEq] at done
        obtain ⟨rfl, rfl⟩ := done
        intro l last
        cases marks : after.getLast? with
        | none =>
          rw [List.getLast?_append, List.getLast?_cons, marks] at last
          cases last
          rfl
        | some m =>
          rw [List.getLast?_append, List.getLast?_cons, marks] at last
          rw [← Option.some_inj.1 last]
          exact ih behind m marks

namespace Context

variable {ctx : Context} {front : List Lexeme} {finish : Lexeme}

theorem bounded_of_lined (unended : ∀ l ∈ front, l.synthetic = true → l.text ≠ ctx.aliases.endOfInput)
    (marker : finish.synthetic = true) (lined : Lexeme.Lined front) {l : Lexeme} {reached : Rest}
    (within : l :: reached <:+ front ++ [finish]) (source : l.synthetic = false) (notLine : l.text ≠ "\n") :
    ctx.atEnd reached = false := by
  obtain ⟨before, split⟩ := within
  rcases List.eq_nil_or_concat reached with rfl | ⟨middle, last, rfl⟩
  · -- The last lexeme is the end marker.
    have same := (List.append_inj' split rfl).2
    rw [List.singleton_inj] at same
    rw [same, marker] at source
    cases source
  · rw [List.concat_eq_append, ← List.cons_append, ← List.append_assoc] at split
    obtain ⟨inner, -⟩ := List.append_inj' split rfl
    cases middle with
    | nil =>
      have ends : front.getLast? = some l := by
        rw [← inner]
        simp
      exact absurd (lined l ends source) notLine
    | cons m middle =>
      have member : m ∈ front := by
        rw [← inner]
        simp
      by_cases synthetic : m.synthetic = true
      · rw [List.concat_eq_append, List.cons_append, atEnd, synthetic, Bool.true_and]
        exact beq_false_of_ne (unended m member synthetic)
      · rw [List.concat_eq_append, List.cons_append, atEnd, Bool.eq_false_iff.2 synthetic, Bool.false_and]

end Context

theorem Layout.apply_lined {layout : Layout} {aliases : Aliases} {lexemes stream : List Lexeme} (lined : Lexeme.Lined lexemes)
    (ends : layout ≠ .identity) (applied : layout.apply aliases lexemes = .ok stream) :
    ∃ front finish, stream = front ++ [Lexeme.marker aliases.endOfInput finish] ∧ Lexeme.Lined front := by
  cases layout with
  | identity => exact absurd rfl ends
  | endMarker =>
    cases applied
    exact ⟨lexemes, _, rfl, lined⟩
  | indentation rules =>
    obtain ⟨marked, blocks, done, rfl⟩ := Indentation.apply_parts applied
    refine ⟨_, _, rfl, fun l last real => ?_⟩
    have marker : l.synthetic = true := by
      rw [List.getLast?_append] at last
      cases closing : (List.replicate blocks.length (Lexeme.marker aliases.dedent (Lexeme.endOf lexemes))).getLast? with
      | none =>
        rw [closing] at last
        exact Indentation.mark_last done l last
      | some m =>
        rw [closing] at last
        rw [← Option.some_inj.1 last, List.eq_of_mem_replicate (List.mem_of_getLast? closing)]
        rfl
    rw [marker] at real
    cases real

theorem Lumen.isSpace_plain {l : Lexeme} (space : l.isSpace false = true) : l.synthetic = false ∧ l.text ≠ "\n" := by
  rw [Lexeme.isSpace, Bool.and_eq_true, Bool.not_eq_true', Bool.false_and, Bool.or_false, List.contains_iff_mem] at space
  refine ⟨space.1, fun line => ?_⟩
  rw [line] at space
  exact absurd space.2 (by decide)

theorem Language.program_tells {language : Language} (known : language ∈ Language.all) {tokens front : List Lexeme}
    {finish : Place} (split : tokens = front ++ [Lexeme.marker ({} : Aliases).endOfInput finish])
    (unended : ∀ l ∈ front, l.synthetic = true → l.text ≠ ({} : Aliases).endOfInput) (lined : Lexeme.Lined front)
    (file : String) (bound : Int) :
    Parser.Tells (language.context tokens file bound) tokens (fun _ => True) language.grammar.program tokens := by
  have more {ctx : Context} (plain : ctx.aliases = {}) (l : Lexeme) (reached : Rest) (within : l :: reached <:+ tokens)
      (source : l.synthetic = false) (notLine : l.text ≠ "\n") : ctx.atEnd reached = false :=
    Context.bounded_of_lined (by rwa [plain]) rfl lined (split ▸ within) source notLine
  apply forall_known (P := fun language =>
    Parser.Tells (language.context tokens file bound) tokens (fun _ => True) language.grammar.program tokens) _ _ known
  · have bounded : (Lumen.context tokens file bound).Bounded tokens :=
      ⟨more rfl, fun _ => List.dropWhile_suffix _, fun _ => List.dropWhile_suffix _⟩
    refine Grammar.program_tells bounded (Lumen.grammar_telling ⟨bounded, fun rest within start => ?_⟩) tokens
    exact bounded.open_behind within start List.takeWhile_append_dropWhile.symm
      (Parser.Tells.takeWhile_plain (fun _ => Lumen.isSpace_plain) rest)
  · have bounded : (MiniRust.context tokens file bound).Bounded tokens :=
      ⟨more rfl, MiniRust.skipFrom_suffix _ _, MiniRust.skipFrom_suffix _ _⟩
    exact Grammar.program_tells bounded (MiniRust.grammar_telling bounded) tokens

theorem Language.table_single {language : Language} (known : language ∈ Language.all) :
    ∀ entry ∈ language.table.entries, '\n' ∉ entry.toList := by
  apply forall_known (P := fun language => ∀ entry ∈ language.table.entries, '\n' ∉ entry.toList) _ _ known
  all_goals
    intro entry member
    replace member := (Table.mem_arranged.1 member).2
    revert entry
    decide

namespace Repl

variable {s : Session} {source : String} {tokens : List Lexeme} {e : ParseError} {reached : Rest}

theorem parse_of_failure {source : List UInt8} (lexed : s.tokens source = .ok tokens)
    (failed : s.language.grammar.program (s.language.context tokens s.options.file s.maxDepth) tokens = .error e reached) :
    s.parse source = .error (.parse e) := by
  rw [Session.parse, lexed]
  dsimp only
  rw [Grammar.parse, failed]
  rfl

theorem probe_of_error (notBlank : Text.endsWith source "\n\n" = false)
    (failed : s.parse (Text.Utf8.encode source) = .error (.parse e)) (names : e.fault.namesEnd = true) :
    probe s source = true := by
  rw [probe, failed]
  dsimp only
  rw [needsMore, notBlank, if_neg Bool.false_ne_true, Option.any_some, SourceError.render,
    ParseError.render_of_namesEnd names, if_pos rfl]

/-- After a line that leaves a parse without input more is asked for: where the
parse fails at the end of its stream, its fault says so, unless the fault is an
unfinished string or the bound on nesting, which say nothing of the end. -/
theorem unfinished_asks (known : s.language ∈ Language.all) (line : Text.endsWith source "\n" = true)
    (notBlank : Text.endsWith source "\n\n" = false) (lexed : s.tokens (Text.Utf8.encode source) = .ok tokens)
    (failed : s.language.grammar.program (s.language.context tokens s.options.file s.maxDepth) tokens = .error e reached)
    (ended : (s.language.context tokens s.options.file s.maxDepth).atEnd reached = true)
    (speaks : e.fault.isMute = false) : probe s source = true := by
  have parsed := parse_of_failure lexed failed
  obtain ⟨lexemes, read, applied⟩ := Session.tokens_parts lexed
  obtain ⟨text, written⟩ : ∃ text, text ++ ['\n'] = source.toList := List.isSuffixOf_iff_suffix.1 line
  have whole : Text.Utf8.encode source = Text.Utf8.encode (String.ofList (text ++ ['\n'])) := by
    rw [written, String.ofList_toList]
  have lined := Lexer.lex_lined (Language.table_entries known).1 (Language.table_single known) read whole
  obtain ⟨front, finish, split, lined⟩ := Layout.apply_lined lined (Language.layout_ends known) applied
  obtain ⟨front', finish', split', unended⟩ := Session.tokens_ended known lexed
  have same : front' = front := (List.append_inj' (split'.symm.trans split) rfl).1
  have outcome := Language.program_tells known split (same ▸ unended) lined s.options.file s.maxDepth List.suffix_rfl
  rw [failed] at outcome
  rcases outcome ended with names | mute
  · exact probe_of_error notBlank parsed names
  · rw [speaks] at mute
    cases mute

theorem open_brace_fails :
    let s : Session := ⟨Language.minirust, {}⟩
    ∃ tokens reached location, s.tokens (Text.Utf8.encode "while true \x7b\n") = .ok tokens ∧
      s.language.grammar.program (s.language.context tokens s.options.file s.maxDepth) tokens =
        .error ⟨.unfinishedBlock, location⟩ reached ∧
      (s.language.context tokens s.options.file s.maxDepth).atEnd reached = true := by
  intro s
  refine ⟨?tokens, ?reached, ?location, ?lexed, ?failed, ?ended⟩
  case lexed => cbv; rfl
  case failed =>
    change MiniRust.grammar.program (MiniRust.context _ "" 512) _ = _
    rfl
  case ended => rfl

theorem unfinished_asks_block :
    let s : Session := ⟨Language.minirust, {}⟩
    (∃ tokens e reached, s.tokens (Text.Utf8.encode "while true \x7b\n") = .ok tokens ∧
      s.language.grammar.program (s.language.context tokens s.options.file s.maxDepth) tokens = .error e reached ∧
      (s.language.context tokens s.options.file s.maxDepth).atEnd reached = true) ∧
      probe s "while true \x7b\n" = true := by
  intro s
  obtain ⟨tokens, reached, location, lexed, failed, ended⟩ := open_brace_fails
  have known : s.language ∈ Language.all := List.mem_cons_of_mem _ List.mem_cons_self
  exact ⟨⟨tokens, _, reached, lexed, failed, ended⟩, unfinished_asks known (by decide) (by decide) lexed failed ended rfl⟩

/-- A parenthesis that is not closed on its line leaves nothing but markers, and
no more is asked for: the fault names the marker of the line end. -/
theorem open_parenthesis_unheard :
    let s : Session := ⟨Language.lumen, {}⟩
    Text.endsWith "print(x\n" "\n" = true ∧ Text.endsWith "print(x\n" "\n\n" = false ∧
      (∃ tokens e reached, s.tokens (Text.Utf8.encode "print(x\n") = .ok tokens ∧
        s.language.grammar.program (s.language.context tokens s.options.file s.maxDepth) tokens = .error e reached ∧
        ∀ l ∈ reached, l.synthetic = true) ∧
      probe s "print(x\n" = false := by
  intro s
  have fails : ∃ tokens reached, s.tokens (Text.Utf8.encode "print(x\n") = .ok tokens ∧
      s.language.grammar.program (s.language.context tokens s.options.file s.maxDepth) tokens =
        .error ⟨.expected [",", ")"] "NEWLINE", ⟨1, 8, ""⟩⟩ reached ∧ ∀ l ∈ reached, l.synthetic = true := by
    refine ⟨?tokens, ?reached, ?lexed, ?failed, ?markers⟩
    case lexed => cbv; rfl
    case failed =>
      change Lumen.grammar.program (Lumen.context _ "" 512) _ = _
      rfl
    case markers => decide
  obtain ⟨tokens, reached, lexed, failed, markers⟩ := fails
  refine ⟨by decide, by decide, ⟨tokens, _, reached, lexed, failed, markers⟩, ?_⟩
  rw [probe, parse_of_failure lexed failed]
  decide

end Repl

end ScriptKernel
