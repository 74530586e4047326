import ScriptKernel.Proofs.Layout.Steps
import ScriptKernel.Proofs.Lumen.Layout
import ScriptKernel.Proofs.Parse.Literals
import ScriptKernel.Proofs.Session.Streams

/-!
String literals in a stream. The layout by indentation follows strings on its own
while it looks for the ends of lines. It keeps every lexeme from the opening quote
on to where the literal ends or cannot go on, so that the parser meets the lexemes
of the literal as the lexer cut them, whichever layout is in between.
-/

namespace ScriptKernel

namespace Literal

open Text.Utf8 (decode encode decode_eq encode_ofList)
open Layout (Mode)
open Layout.Indentation (advance linesFrom_cons keepInString keepInCode keep isBlank)

variable {aliases : Aliases} {layout : Layout}

/-- Lexemes that stay together at the start of a stream. -/
def Stays (front : List Lexeme) : Prop :=
  ∃ mode, ∀ rest, Lumen.indentation.linesFrom {} (front ++ rest) =
    Lumen.indentation.linesFrom { kept := front.reverse, mode } rest

theorem apply_stays (known : layout = .endMarker ∨ layout = Lumen.layout) {front rest stream : List Lexeme}
    (some : front ≠ []) (stays : Stays front) (applied : layout.apply aliases (front ++ rest) = .ok stream) :
    ∃ m more, stream = front ++ m :: more ∧ (rest = [] → m.synthetic = true) := by
  rcases known with rfl | rfl
  · cases applied
    rw [List.append_assoc]
    cases rest with
    | nil => exact ⟨_, _, rfl, fun _ => rfl⟩
    | cons m rest =>
      refine ⟨m, _, rfl, fun none => ?_⟩
      cases none
  · obtain ⟨mode, kept⟩ := stays
    exact Lumen.indentation.apply_front some (kept rest) applied

section

variable {quote : Lexeme} {body : List Lexeme} {text : String} (opens : quote.text = "\"")
  (contents : Parser.Contents "\"" (Rest.bare body) text)
include opens contents

theorem stays_body {front : List Lexeme} (mode : Mode)
    (kept : ∀ rest, Lumen.indentation.linesFrom ⟨0, none, body.reverse ++ [quote], 0, .string "\"" false⟩ (front ++ rest) =
      Lumen.indentation.linesFrom ⟨0, none, front.reverse ++ (body.reverse ++ [quote]), 0, mode⟩ rest) :
    Stays (quote :: (body ++ front)) := by
  refine ⟨mode, fun rest => ?_⟩
  have opened : Lumen.indentation.advance {} quote = ([], ⟨0, none, [quote], 0, .string "\"" false⟩) := by
    simp [advance, keepInCode, keep, isBlank, opens, Lumen.indentation]
  rw [List.cons_append, linesFrom_cons, opened, List.append_assoc,
    Lumen.linesFrom_contents contents _ _ _ _ body (front ++ rest) rfl, kept]
  simp

theorem stays_closed {close : Lexeme} (closes : close.text = "\"") : Stays (quote :: (body ++ [close])) := by
  have closed (kept : List Lexeme) : Lumen.indentation.advance ⟨0, none, kept, 0, .string "\"" false⟩ close =
      ([], ⟨0, none, close :: kept, 0, .code⟩) := by
    simp [advance, keepInString, Lumen.indentation, closes]
  refine stays_body opens contents .code fun rest => ?_
  rw [List.cons_append, linesFrom_cons, closed]
  rfl

theorem stays_stuck {kept rest : List Lexeme} (stuck : Stuck kept rest) : Stays (quote :: (body ++ kept)) := by
  have protects {slash : Lexeme} (text : slash.text = "\\") (kept : List Lexeme) :
      Lumen.indentation.advance ⟨0, none, kept, 0, .string "\"" false⟩ slash =
        ([], ⟨0, none, slash :: kept, 0, .string "\"" true⟩) := by
    simp [advance, keepInString, Lumen.indentation, text]
  cases stuck with
  | unclosed => exact stays_body opens contents (.string "\"" false) fun rest => rfl
  | slash text =>
    refine stays_body opens contents (.string "\"" true) fun rest => ?_
    rw [List.cons_append, linesFrom_cons, protects text]
    rfl
  | unknown text unknown =>
    refine stays_body opens contents (.string "\"" false) fun rest => ?_
    rw [List.cons_append, linesFrom_cons, protects text, List.cons_append,
      linesFrom_cons]
    rfl

end

theorem string_opened {quote : Lexeme} (opens : quote.text = "\"") (real : quote.synthetic = false) (ctx : Context)
    (rest : Rest) : Parser.string "\"" ctx (quote :: rest) = Parser.stringBody ctx "\"" "" rest := by
  have found : Rest.isAtAny ["\""] (quote :: rest) = true := by simp [Rest.isAtAny, Rest.isAt, opens, real]
  have taken : Parser.expect ["\""] ctx (quote :: rest) = .ok quote rest := by
    rw [Parser.expect, if_pos found]
    rfl
  exact Parser.bind_ok taken

section

variable {quote : Lexeme} {body : List Lexeme} {text : String} (opens : quote.text = "\"" ∧ quote.synthetic = false)
  (contents : Parser.Contents "\"" (Rest.bare body) text)
include opens contents

theorem string_closed {close : Lexeme} (closes : close.text = "\"") (real : close.synthetic = false) (ctx : Context)
    (rest : Rest) : Parser.string "\"" ctx (quote :: (body ++ [close]) ++ rest) = .ok text rest := by
  rw [List.cons_append, string_opened opens.1 opens.2, List.append_assoc,
    Parser.stringBody_append (by decide) contents rfl, List.singleton_append, stringBody_close closes real,
    String.empty_append]

theorem string_stuck {kept rest more : List Lexeme} {l : Lexeme} (stuck : Stuck kept rest)
    (ended : rest = [] → l.synthetic = true) (ctx : Context) :
    ∃ e reached, Parser.string "\"" ctx (quote :: (body ++ kept) ++ l :: more) = .error e reached := by
  rw [List.cons_append, string_opened opens.1 opens.2, List.append_assoc,
    Parser.stringBody_append (by decide) contents rfl]
  exact stringBody_stuck stuck ended _

end

def stop (source : List UInt8) (after : List Char) : Nat :=
  source.length - (encode (String.ofList after)).length

theorem stop_eq {source : List UInt8} {front after : List Char} (valid : decode source = (front ++ after, [])) :
    stop source after = (Place.start.after front).offset := by
  have length := congrArg List.length (decode_eq valid).1
  rw [List.append_nil, List.flatMap_append, List.length_append] at length
  rw [stop, encode_ofList, Place.offset_after, length, Nat.add_sub_cancel]
  exact (Nat.zero_add _).symm

theorem start_lt_stop {front : List Lexeme} {last : Lexeme} (forward : Lexeme.Forward (front ++ [last]))
    (nonempty : ∀ l ∈ front ++ [last], l.place.offset < l.stop) :
    ∀ l ∈ front ++ [last], l.place.offset < last.stop := by
  rw [List.forall_mem_append, List.forall_mem_singleton] at nonempty ⊢
  refine ⟨fun l member => ?_, nonempty.2⟩
  have grows := nonempty.1 l member
  have before := (Lexeme.forward_append.1 forward).2.2 l member last List.mem_cons_self
  have own := nonempty.2
  omega

theorem dropWhile_before {front more : List Lexeme} {m : Lexeme} {place : Nat} (before : ∀ l ∈ front, l.place.offset < place)
    (behind : place ≤ m.place.offset) :
    (front ++ m :: more).dropWhile (fun l => l.place.offset < place) = m :: more := by
  rw [List.dropWhile_append_of_pos (by simpa using before), List.dropWhile_cons_of_neg (by simpa using behind)]

/-- The parser reads what the characters behind the quote spell, and goes on at the
first lexeme that starts behind the literal. -/
def ReadFrom (source : List UInt8) (chars : List Char) (ctx : Context) (stream : List Lexeme) : Prop :=
  (spelled? chars = none → ∃ e reached, Parser.string "\"" ctx stream = .error e reached) ∧
    ∀ text after, spelled? chars = some (text, after) →
      ∃ l left, stream.dropWhile (fun l => l.place.offset < stop source after) = l :: left ∧
        Parser.string "\"" ctx stream = .ok (String.ofList text) (l :: left)

theorem readFrom_stream {table : Table} (apart : Apart table) (known : layout = .endMarker ∨ layout = Lumen.layout)
    {source : List UInt8} {chars : List Char} (valid : decode source = ('"' :: chars, [])) {lexemes stream : List Lexeme}
    (lexed : Lexer.lex table source = .ok lexemes) (applied : layout.apply aliases lexemes = .ok stream) (ctx : Context) :
    ReadFrom source chars ctx stream := by
  have cut : lexemes = Lexer.cut table Place.start ('"' :: chars) := by
    rw [Lexer.lex, valid] at lexed
    cases lexed
    rfl
  have forward := Layout.apply_forward (Session.lex_placed lexed) applied
  have nonempty := Lexeme.Tiles.nonempty (@Lexer.cut_tiles table Place.start ('"' :: chars))
  rw [← cut] at nonempty
  rw [cut_escaped apart (rfl : escapes.lookup '"' = some '"')] at cut
  generalize opening : (⟨String.ofList ['"'], Place.start, (Place.start.after ['"']).offset, false⟩ : Lexeme) = quote at cut
  have opens : quote.text = "\"" ∧ quote.synthetic = false := by
    subst opening
    exact ⟨rfl, rfl⟩
  cases spelling apart (Place.start.after ['"']) chars with
  | @closed body close text front after contents spelled split closes real ends cut' =>
    have whole : lexemes = quote :: (body ++ [close]) ++ Lexer.cut table ((Place.start.after ['"']).after front) after := by
      rw [cut, cut']
      simp
    rw [whole] at applied nonempty
    obtain ⟨m, more, rfl, -⟩ := apply_stays known (List.cons_ne_nil _ _) (stays_closed opens.1 contents closes) applied
    obtain ⟨ahead, -, behind⟩ := Lexeme.forward_append.1 forward
    rw [List.forall_mem_append] at nonempty
    have before : ∀ l ∈ quote :: body ++ [close], l.place.offset < close.stop := start_lt_stop ahead nonempty.1
    have ending : stop source after = close.stop := by
      rw [split] at valid
      rw [ends, ← Place.after_append, ← stop_eq valid]
    refine ⟨fun none => absurd (none.symm.trans spelled) (by simp), fun text' after' read => ?_⟩
    obtain ⟨rfl, rfl⟩ := Prod.mk.inj (Option.some.inj (read.symm.trans spelled))
    refine ⟨m, more, ?_, ?_⟩
    · rw [ending]
      exact dropWhile_before before (behind close (by simp) m List.mem_cons_self)
    · rw [string_closed opens contents closes real, String.ofList_toList]
  | @stuck body kept rest text contents spelled stuck cut' =>
    rw [cut, cut', ← List.cons_append] at applied
    obtain ⟨m, more, rfl, ended⟩ := apply_stays known (List.cons_ne_nil _ _) (stays_stuck opens.1 contents stuck) applied
    exact ⟨fun _ => string_stuck opens contents stuck ended ctx,
      fun text after read => absurd (read.symm.trans spelled) (by simp)⟩

theorem apart_of_known {language : Language} (known : language ∈ Language.all) : Apart language.table := by
  have each : ∀ entry ∈ language.table.entries, (entry.toList.contains '"' || entry.toList.contains '\\' ||
      entry.toList.head?.any ['n', 't', 'r', '0', '\x27'].contains) = false := by
    apply Language.forall_known (P := fun language => ∀ entry ∈ language.table.entries,
      (entry.toList.contains '"' || entry.toList.contains '\\' ||
        entry.toList.head?.any ['n', 't', 'r', '0', '\x27'].contains) = false) _ _ known
    all_goals
      intro entry member
      replace member := (Table.mem_arranged.1 member).2
      revert entry
      decide
  simp only [Bool.or_eq_false_iff, List.contains_eq_mem, decide_eq_false_iff_not] at each
  refine ⟨fun entry member => (each entry member).1.1, fun entry member => (each entry member).1.2, ?_⟩
  intro entry member c first
  have unescaped := (each entry member).2
  rw [Option.mem_def.1 first] at unescaped
  simpa using unescaped

/-- String literals are read the same from lexemes as from characters. Both languages'
tables keep the characters of literals apart, and with any table that does, a source
that begins with a quote can be cut, and both the stream with an end marker and the
one with lines and blocks, where there is one, are read as the characters spell. -/
theorem string_reads_spelled :
    (∀ language ∈ Language.all, Apart language.table) ∧
    ∀ table : Table, Apart table → ∀ (source : List UInt8) (chars : List Char), decode source = ('"' :: chars, []) →
      ∃ lexemes, Lexer.lex table source = .ok lexemes ∧ ∀ (aliases : Aliases) (ctx : Context),
        (∃ stream, Layout.endMarker.apply aliases lexemes = .ok stream ∧ ReadFrom source chars ctx stream) ∧
        ∀ stream, Lumen.layout.apply aliases lexemes = .ok stream → ReadFrom source chars ctx stream := by
  refine ⟨fun language => apart_of_known, fun table apart source chars valid => ?_⟩
  have lexed : Lexer.lex table source = .ok (Lexer.cut table Place.start ('"' :: chars)) := by
    rw [Lexer.lex, valid]
  refine ⟨_, lexed, fun aliases ctx => ⟨⟨_, rfl, ?_⟩, fun stream applied => ?_⟩⟩
  · exact readFrom_stream apart (.inl rfl) valid lexed rfl ctx
  · exact readFrom_stream apart (.inr rfl) valid lexed applied ctx

theorem string_reads_spelled_multiline :
    let ctx : Context := { past := Lexeme.past [] }
    let source := encode "\"==#\n\\\"\"\r x"
    ∃ lexemes stream left, Lexer.lex Lumen.table source = .ok lexemes ∧
      Lumen.layout.apply {} lexemes = .ok stream ∧ Parser.string "\"" ctx stream = .ok "==#\n\"" left := by
  intro ctx source
  have valid : decode source = ("\"==#\n\\\"\"\r x".toList, []) := Text.Utf8.decode_encode _
  have laid : ∃ stream,
      (Lexer.lex Lumen.table (encode "\"==#\n\\\"\"\r x") >>= Lumen.layout.apply {}) = .ok stream := by
    refine ⟨?stream, ?laid⟩
    case laid => cbv; rfl
  obtain ⟨tables, reads⟩ := string_reads_spelled
  obtain ⟨lexemes, lexed, streams⟩ := reads Lumen.table (tables Language.lumen (by simp [Language.all])) source _ valid
  obtain ⟨stream, applied⟩ := laid
  change Lexer.lex Lumen.table source >>= _ = _ at applied
  rw [lexed] at applied
  obtain ⟨l, left, -, read⟩ := ((streams {} ctx).2 stream applied).2 "==#\n\"".toList "\r x".toList rfl
  exact ⟨lexemes, stream, l :: left, lexed, applied, read⟩

end Literal

end ScriptKernel
