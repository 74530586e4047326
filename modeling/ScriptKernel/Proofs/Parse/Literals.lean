import ScriptKernel.Proofs.Parse.Reads
import ScriptKernel.Proofs.Source.PairedLexemes

/-!
String literals. The lexer knows nothing of strings: it cuts their characters with
the same table as everything else. As long as no entry holds a quote or a backslash
and none starts with a character that may be escaped, these stay lexemes of their
own, whatever is fused between them, and the text put together from the lexemes is
the one that the characters spell.
-/

namespace ScriptKernel

namespace Literal

def escapes : List (Char × Char) :=
  [('n', '\n'), ('t', '\t'), ('r', '\r'), ('0', '\x00'), ('\\', '\\'), ('"', '"'), ('\x27', '\x27')]

/-- The text that the characters spell up to the first quote that is not escaped,
and the characters behind it. Without such a quote, or with a backslash before
another character, they spell none. -/
def spelled? : List Char → Option (List Char × List Char)
  | [] => none
  | '"' :: after => some ([], after)
  | ['\\'] => none
  | '\\' :: c :: rest => do
    let meaning ← escapes.lookup c
    let (text, after) ← spelled? rest
    some (meaning :: text, after)
  | c :: rest => do
    let (text, after) ← spelled? rest
    some (c :: text, after)

/-- No entry interferes with literals. -/
structure Apart (table : Table) : Prop where
  quote : ∀ entry ∈ table.entries, '"' ∉ entry.toList
  slash : ∀ entry ∈ table.entries, '\\' ∉ entry.toList
  escaped : ∀ entry ∈ table.entries, ∀ c ∈ entry.toList.head?, c ∉ ['n', 't', 'r', '0', '\x27']

theorem spelled?_append {front : List Char} (quote : '"' ∉ front) (slash : '\\' ∉ front) (rest : List Char) :
    spelled? (front ++ rest) = (spelled? rest).map fun (text, after) => (front ++ text, after) := by
  induction front with
  | nil => simp
  | cons c front ih =>
    rw [List.mem_cons, not_or] at quote slash
    rw [List.cons_append, spelled?, ih quote.2 slash.2]
    · cases spelled? rest with
      | none => rfl
      | some _ => rfl
    · rintro rfl
      exact quote.1 rfl
    · rintro rfl
      exact absurd rfl slash.1
    · rintro _ _ rfl
      exact absurd rfl slash.1

theorem unescape?_known {c meaning : Char} (known : escapes.lookup c = some meaning) :
    Parser.unescape? (String.ofList [c]) = some (String.singleton meaning) := by
  have entry : (c, meaning) ∈ escapes := by
    obtain ⟨before, behind, split, -⟩ := List.lookup_eq_some_iff.mp known
    simp [split]
  simp only [escapes, List.mem_cons, Prod.mk.injEq, List.not_mem_nil, or_false] at entry
  rcases entry with ⟨rfl, rfl⟩ | ⟨rfl, rfl⟩ | ⟨rfl, rfl⟩ | ⟨rfl, rfl⟩ | ⟨rfl, rfl⟩ | ⟨rfl, rfl⟩ | ⟨rfl, rfl⟩ <;> rfl

theorem unescape?_unknown {c : Char} (unknown : escapes.lookup c = none) (more : List Char) :
    Parser.unescape? (String.ofList (c :: more)) = none := by
  simp [escapes, List.lookup_eq_none_iff] at unknown
  simp [Parser.unescape?, ← String.toList_inj, unknown]

section Lexemes

variable {table : Table} (apart : Apart table)
include apart

theorem extra_escaped {c meaning : Char} (known : escapes.lookup c = some meaning) (rest : List Char) :
    Lexer.extra table (c :: rest) = 0 := by
  unfold Lexer.extra
  cases found : table.longest? (c :: rest) with
  | none => rfl
  | some entry =>
    obtain ⟨member, fits⟩ := Table.longest?_fits found
    cases spelled : entry.toList with
    | nil => simp [String.toList_eq_nil_iff.mp spelled]
    | cons d chars =>
      rw [spelled] at fits
      obtain ⟨rfl, -⟩ := List.cons_prefix_cons.mp fits
      have quote := apart.quote entry member
      have slash := apart.slash entry member
      have escaped := apart.escaped entry member d (by rw [spelled]; rfl)
      rw [spelled] at quote slash
      have unknown : escapes.lookup d = none := by
        simp only [List.mem_cons, not_or, List.not_mem_nil, not_false_iff, and_true] at quote slash escaped
        simp [escapes, List.lookup_eq_none_iff, escaped, Ne.symm quote.1, Ne.symm slash.1]
      rw [unknown] at known
      cases known

theorem take_extra (c : Char) (rest : List Char) :
    '"' ∉ rest.take (Lexer.extra table (c :: rest)) ∧ '\\' ∉ rest.take (Lexer.extra table (c :: rest)) := by
  unfold Lexer.extra
  cases found : table.longest? (c :: rest) with
  | none => simp
  | some entry =>
    obtain ⟨member, fits⟩ := Table.longest?_fits found
    have within : ∀ d ∈ rest.take (entry.length - 1), d ∈ entry.toList := by
      intro d taken
      rw [List.prefix_iff_eq_take.mp fits, String.length_toList]
      cases long : entry.length with
      | zero => simp [long] at taken
      | succ more =>
        rw [long, Nat.add_sub_cancel] at taken
        exact List.mem_cons_of_mem c taken
    exact ⟨fun taken => apart.quote entry member (within _ taken), fun taken => apart.slash entry member (within _ taken)⟩

end Lexemes

/-- The lexemes at which a literal cannot go on, and those behind them: it is not
closed, or a backslash stands before something else. -/
inductive Stuck : List Lexeme → List Lexeme → Prop
  | unclosed : Stuck [] []
  | slash {slash : Lexeme} : slash.text = "\\" → Stuck [slash] []
  | unknown {slash l : Lexeme} {rest : List Lexeme} : slash.text = "\\" → Parser.unescape? l.text = none →
      Stuck [slash, l] rest

/-- The lexemes of the characters behind a quote spell what the characters do. -/
inductive Spelling (table : Table) (place : Place) (chars : List Char) : Prop
  | closed {body : List Lexeme} {close : Lexeme} {text : String} {front after : List Char}
      (contents : Parser.Contents "\"" (Rest.bare body) text) (spelled : spelled? chars = some (text.toList, after))
      (source : chars = front ++ after) (quote : close.text = "\"") (real : close.synthetic = false)
      (stop : close.stop = (place.after front).offset)
      (cut : Lexer.cut table place chars = body ++ close :: Lexer.cut table (place.after front) after)
  | stuck {body kept rest : List Lexeme} {text : String} (contents : Parser.Contents "\"" (Rest.bare body) text)
      (spelled : spelled? chars = none) (stuck : Stuck kept rest)
      (cut : Lexer.cut table place chars = body ++ kept ++ rest)

theorem Spelling.closed_here {table : Table} {place : Place} {after : List Char} {close : Lexeme}
    (quote : close.text = "\"") (real : close.synthetic = false) (stop : close.stop = (place.after ['"']).offset)
    (cut : Lexer.cut table place ('"' :: after) = close :: Lexer.cut table (place.after ['"']) after) :
    Spelling table place ('"' :: after) :=
  @Spelling.closed table place _ [] close "" ['"'] after .nil (by rw [spelled?]; rfl) rfl quote real stop cut

theorem Spelling.stuck_here {table : Table} {place : Place} {chars : List Char} {kept rest : List Lexeme}
    (spelled : spelled? chars = none) (stuck : Stuck kept rest) (cut : Lexer.cut table place chars = kept ++ rest) :
    Spelling table place chars :=
  @Spelling.stuck table place chars [] kept rest "" .nil spelled stuck cut

theorem Spelling.prepend {table : Table} {place : Place} {front rest text : List Char} {lexemes : List Lexeme}
    (spelling : Spelling table (place.after front) rest)
    (cut : Lexer.cut table place (front ++ rest) = lexemes ++ Lexer.cut table (place.after front) rest)
    (spelled : spelled? (front ++ rest) = (spelled? rest).map fun (more, after) => (text ++ more, after))
    (contents : ∀ {body : List Lexeme} {more : String}, Parser.Contents "\"" (Rest.bare body) more →
      Parser.Contents "\"" (Rest.bare (lexemes ++ body)) (String.ofList text ++ more)) :
    Spelling table place (front ++ rest) := by
  cases spelling with
  | @closed body close more front' after contents' spelled' source quote real stop cut' =>
    refine .closed (contents contents') ?_ (by rw [source, List.append_assoc]) quote real ?_ ?_
    · rw [spelled, spelled']
      simp
    · rw [stop, Place.after_append]
    · rw [cut, cut', Place.after_append, List.append_assoc]
  | stuck contents' spelled' stuck cut' =>
    refine .stuck (contents contents') (by rw [spelled, spelled']; rfl) stuck ?_
    rw [cut, cut']
    simp only [List.append_assoc]

section Cutting

variable {table : Table} (apart : Apart table)

theorem cut_eq (place : Place) (c : Char) (rest : List Char) :
    let text := c :: rest.take (Lexer.extra table (c :: rest))
    Lexer.cut table place (c :: rest) = ⟨String.ofList text, place, (place.after text).offset, false⟩ ::
      Lexer.cut table (place.after text) (rest.drop (Lexer.extra table (c :: rest))) := by
  rw [Lexer.cut]

include apart

theorem cut_escaped {c meaning : Char} (known : escapes.lookup c = some meaning) (place : Place) (rest : List Char) :
    Lexer.cut table place (c :: rest) = ⟨String.ofList [c], place, (place.after [c]).offset, false⟩ ::
      Lexer.cut table (place.after [c]) rest := by
  rw [cut_eq, extra_escaped apart known]
  rfl

theorem spelling (place : Place) (chars : List Char) : Spelling table place chars := by
  induction length : chars.length using Nat.strong_induction_on generalizing chars place with
  | _ length ih =>
  subst length
  cases chars with
  | nil => exact .stuck_here rfl .unclosed (by rw [Lexer.cut]; rfl)
  | cons c rest =>
    by_cases quote : c = '"'
    · subst quote
      exact .closed_here rfl rfl rfl (cut_escaped apart (rfl : escapes.lookup '"' = some '"') place rest)
    by_cases slash : c = '\\'
    · subst slash
      have first := cut_escaped apart (rfl : escapes.lookup '\\' = some '\\') place rest
      cases rest with
      | nil => exact .stuck_here (by rw [spelled?]) (.slash rfl) (first.trans (by rw [Lexer.cut]; rfl))
      | cons d rest =>
        cases known : escapes.lookup d with
        | none =>
          rw [cut_eq (place.after ['\\'])] at first
          exact .stuck_here (by rw [spelled?, known]; rfl) (.unknown rfl (unescape?_unknown known _)) first
        | some meaning =>
          rw [cut_escaped apart known] at first
          have shorter : rest.length < ('\\' :: d :: rest).length := by
            rw [List.length_cons, List.length_cons]
            omega
          have later := ih rest.length shorter (place.after ['\\', d]) rest rfl
          refine @Spelling.prepend table place ['\\', d] rest [meaning] [_, _] later first ?_ ?_
          · rw [List.cons_append, List.cons_append, List.nil_append, spelled?, known]
            cases spelled? rest <;> rfl
          · intro body more contents
            exact .escape (unescape?_known known) contents
    · -- A lexeme that is neither may hold many characters.
      obtain ⟨noQuote, noSlash⟩ := take_extra apart c rest
      have cut := @cut_eq table place c rest
      have shorter : (rest.drop (Lexer.extra table (c :: rest))).length < (c :: rest).length := by
        rw [List.length_drop, List.length_cons]
        omega
      have whole : c :: rest = (c :: rest.take (Lexer.extra table (c :: rest))) ++ rest.drop (Lexer.extra table (c :: rest)) := by
        rw [List.cons_append, List.take_append_drop]
      generalize rest.take (Lexer.extra table (c :: rest)) = taken at *
      generalize rest.drop (Lexer.extra table (c :: rest)) = left at *
      have later := ih left.length shorter (place.after (c :: taken)) left rfl
      rw [whole] at cut ⊢
      refine @Spelling.prepend table place (c :: taken) left (c :: taken) [_] later cut ?_ ?_
      · exact spelled?_append (by simp [noQuote, Ne.symm quote]) (by simp [noSlash, Ne.symm slash]) left
      · intro body more contents
        have ordinary : String.ofList (c :: taken) ≠ "\"" := by simp [← String.toList_inj, quote]
        have unescaped : String.ofList (c :: taken) ≠ "\\" := by simp [← String.toList_inj, slash]
        exact .piece ordinary unescaped contents

end Cutting

variable {ctx : Context}

theorem stringBody_close {close : Lexeme} (quote : close.text = "\"") (real : close.synthetic = false) (read : String)
    (more : Rest) : Parser.stringBody ctx "\"" read (close :: more) = .ok read more := by
  rw [Parser.stringBody.eq_def]
  simp [quote, real]

theorem stringBody_stuck {kept rest more : List Lexeme} {l : Lexeme} (stuck : Stuck kept rest)
    (ended : rest = [] → l.synthetic = true) (read : String) :
    ∃ e reached, Parser.stringBody ctx "\"" read (kept ++ l :: more) = .error e reached := by
  rw [Parser.stringBody.eq_def]
  cases stuck with
  | unclosed =>
    simp only [List.nil_append, ended rfl, if_true]
    exact ⟨_, _, rfl⟩
  | @slash slash text =>
    simp only [List.cons_append, List.nil_append, ended rfl, text, if_true]
    cases slash.synthetic with
    | true => exact ⟨_, _, rfl⟩
    | false => exact ⟨_, _, rfl⟩
  | @unknown slash found _ text unknown =>
    simp only [List.cons_append, List.nil_append, text, unknown]
    cases slash.synthetic with
    | true => exact ⟨_, _, rfl⟩
    | false =>
      cases found.synthetic with
      | true => exact ⟨_, _, rfl⟩
      | false => exact ⟨_, _, rfl⟩

end Literal

end ScriptKernel
