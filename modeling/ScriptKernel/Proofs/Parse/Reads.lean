import Mathlib.Data.List.Find
import Mathlib.Data.List.TakeWhile
import ScriptKernel.Proofs.Parse.Operators

/-!
What a parser makes of a run of lexemes, wherever they stand. Only the texts
of the lexemes and whether they are markers decide what is read; places go
into faults alone. A statement that a parser reads something is therefore made
about lexemes without places, and is put together along the parser.
-/

namespace ScriptKernel

namespace Lexeme

def bare (l : Lexeme) : Lexeme :=
  ⟨l.text, Place.start, 0, l.synthetic⟩

def source (text : String) : Lexeme :=
  ⟨text, Place.start, 0, false⟩

def sign (text : String) : Lexeme :=
  ⟨text, Place.start, 0, true⟩

@[simp] theorem bare_text (l : Lexeme) : l.bare.text = l.text := rfl

@[simp] theorem bare_synthetic (l : Lexeme) : l.bare.synthetic = l.synthetic := rfl

@[simp] theorem source_text (text : String) : (source text).text = text := rfl

@[simp] theorem source_synthetic (text : String) : (source text).synthetic = false := rfl

@[simp] theorem sign_text (text : String) : (sign text).text = text := rfl

@[simp] theorem sign_synthetic (text : String) : (sign text).synthetic = true := rfl

@[simp] theorem isWord_bare (l : Lexeme) : l.bare.isWord = l.isWord := rfl

@[simp] theorem isDigits_bare (l : Lexeme) : l.bare.isDigits = l.isDigits := rfl

@[simp] theorem isSpace_bare (l : Lexeme) (newlines : Bool) :
    l.bare.isSpace newlines = l.isSpace newlines := rfl

end Lexeme

namespace Rest

def bare (rest : Rest) : Rest :=
  rest.map Lexeme.bare

@[simp] theorem bare_nil : bare [] = [] := rfl

@[simp] theorem bare_cons (l : Lexeme) (rest : Rest) : bare (l :: rest) = l.bare :: bare rest := rfl

@[simp] theorem length_bare (rest : Rest) : (bare rest).length = rest.length := by
  simp [bare]

@[simp] theorem tail_bare (rest : Rest) : (bare rest).tail = bare rest.tail := by
  cases rest <;> rfl

@[simp] theorem isAt_bare (text : String) (rest : Rest) :
    isAt text (bare rest) = isAt text rest := by
  cases rest <;> rfl

@[simp] theorem isAtAny_bare (texts : List String) (rest : Rest) :
    isAtAny texts (bare rest) = isAtAny texts rest := by
  simp [isAtAny]

@[simp] theorem text_bare (rest : Rest) : Rest.text (bare rest) = Rest.text rest := by
  simp [Rest.text, bare, Function.comp_def]

theorem takeWhile_bare (p : Lexeme → Bool) (same : ∀ l, p l.bare = p l) (rest : Rest) :
    (bare rest).takeWhile p = bare (rest.takeWhile p) := by
  have unaware : p ∘ Lexeme.bare = p := funext same
  simp [bare, List.takeWhile_map, unaware]

theorem dropWhile_bare (p : Lexeme → Bool) (same : ∀ l, p l.bare = p l) (rest : Rest) :
    (bare rest).dropWhile p = bare (rest.dropWhile p) := by
  have unaware : p ∘ Lexeme.bare = p := funext same
  simp [bare, List.dropWhile_map, unaware]

@[simp] theorem word_bare (rest : Rest) : word (bare rest) = word rest := by
  rw [word, takeWhile_bare _ Lexeme.isWord_bare, text_bare, word]

@[simp] theorem afterWord_bare (rest : Rest) : afterWord (bare rest) = bare (afterWord rest) :=
  dropWhile_bare _ Lexeme.isWord_bare rest

@[simp] theorem isKeyword_bare (keyword : String) (rest : Rest) :
    isKeyword keyword (bare rest) = isKeyword keyword rest := by
  simp [isKeyword]

@[simp] theorem isAnyKeyword_bare (keywords : List String) (rest : Rest) :
    isAnyKeyword keywords (bare rest) = isAnyKeyword keywords rest := by
  simp [isAnyKeyword]

@[simp] theorem isNameStart_bare (rest : Rest) : isNameStart (bare rest) = isNameStart rest := by
  cases rest <;> rfl

@[simp] theorem isDigitStart_bare (rest : Rest) : isDigitStart (bare rest) = isDigitStart rest := by
  cases rest <;> rfl

@[simp] theorem skipBlanks_bare (newlines : Bool) (rest : Rest) :
    skipBlanks newlines (bare rest) = bare (skipBlanks newlines rest) :=
  dropWhile_bare _ (Lexeme.isSpace_bare · newlines) rest

end Rest

/-- What is skipped does not depend on places. -/
structure Context.Placeless (ctx : Context) : Prop where
  skipSpace : ∀ rest : Rest, ctx.skipSpace rest.bare = (ctx.skipSpace rest).bare
  skipTrivia : ∀ rest : Rest, ctx.skipTrivia rest.bare = (ctx.skipTrivia rest).bare

namespace Context

variable (ctx : Context)

@[simp] theorem isStructural_bare (kind : Structural) (rest : Rest) :
    ctx.isStructural kind rest.bare = ctx.isStructural kind rest := by
  cases rest <;> rfl

@[simp] theorem atEnd_bare (rest : Rest) : ctx.atEnd rest.bare = ctx.atEnd rest := by
  cases rest <;> rfl

end Context

namespace Parser

variable {α β : Type} {ctx : Context}

/-- From the lexemes `input`, wherever they stand, the parser reads `a` and
leaves `left`. -/
def Reads (p : Parser α) (ctx : Context) (input : Rest) (a : α) (left : Rest) : Prop :=
  ∀ rest : Rest, rest.bare = input → ∃ reached : Rest, p ctx rest = .ok a reached ∧ reached.bare = left

namespace Reads

theorem pure (a : α) (s : Rest) : Reads (Pure.pure a) ctx s a s :=
  fun rest same => ⟨rest, rfl, same⟩

theorem bind {p : Parser α} {f : α → Parser β} {s t u : Rest} {a : α} {b : β}
    (first : Reads p ctx s a t) (next : Reads (f a) ctx t b u) : Reads (p >>= f) ctx s b u := by
  intro rest same
  obtain ⟨middle, read, left⟩ := first rest same
  rw [bind_ok read]
  exact next middle left

theorem look {f : Context → Rest → α} {s : Rest} (unaware : ∀ rest : Rest, f ctx rest.bare = f ctx rest) :
    Reads (Parser.look f) ctx s (f ctx s) s := by
  rintro rest rfl
  exact ⟨rest, by rw [unaware]; rfl, rfl⟩

theorem isAt (text : String) (s : Rest) : Reads (Parser.isAt text) ctx s (Rest.isAt text s) s :=
  look (f := fun _ => Rest.isAt text) (Rest.isAt_bare text)

theorem skipSpace (placeless : ctx.Placeless) (s : Rest) :
    Reads Parser.skipSpace ctx s () (ctx.skipSpace s) := by
  rintro rest rfl
  exact ⟨ctx.skipSpace rest, rfl, (placeless.skipSpace rest).symm⟩

theorem location {f : Location → Parser β} {s t : Rest} {b : β}
    (next : ∀ place, Reads (f place) ctx s b t) : Reads (Parser.location >>= f) ctx s b t :=
  fun rest same => next (ctx.location rest) rest same

theorem advance {f : Lexeme → Parser β} {l : Lexeme} {s t : Rest} {b : β}
    (next : ∀ found : Lexeme, found.text = l.text → Reads (f found) ctx s b t) :
    Reads (Parser.advance >>= f) ctx (l :: s) b t := by
  intro rest same
  cases rest with
  | nil => cases same
  | cons found rest =>
    simp only [Rest.bare_cons, List.cons.injEq] at same
    exact next found (by rw [← same.1, Lexeme.bare_text]) rest same.2

theorem expect {f : Lexeme → Parser β} {texts : List String} {l : Lexeme} {s t : Rest} {b : β}
    (expected : Rest.isAtAny texts (l :: s))
    (next : ∀ found : Lexeme, found.text = l.text → Reads (f found) ctx s b t) :
    Reads (Parser.expect texts >>= f) ctx (l :: s) b t := by
  intro rest same
  have found : Rest.isAtAny texts rest := by rwa [← Rest.isAtAny_bare, same]
  have taken : Parser.expect texts ctx rest = Parser.advance ctx rest := by
    rw [Parser.expect, if_pos found]
  obtain ⟨reached, read, left⟩ := advance next rest same
  refine ⟨reached, ?_, left⟩
  rwa [bind_apply, taken, ← bind_apply]

theorem word (s : Rest) : Reads Parser.word ctx s s.word s.afterWord := by
  rintro rest rfl
  exact ⟨rest.afterWord, by rw [Rest.word_bare]; rfl, (Rest.afterWord_bare rest).symm⟩

theorem name {reserved : List String} {s : Rest} (start : s.isNameStart)
    (free : s.word ∉ reserved) : Reads (Parser.name reserved) ctx s s.word s.afterWord := by
  rintro rest rfl
  rw [Rest.isNameStart_bare] at start
  rw [Rest.word_bare] at free ⊢
  refine ⟨rest.afterWord, ?_, (Rest.afterWord_bare rest).symm⟩
  simp [Parser.name, start, free, Parser.word]

theorem expectKeyword {keyword : String} {s : Rest} (found : s.word = keyword) :
    Reads (Parser.expectKeyword keyword) ctx s () s.afterWord := by
  rintro rest rfl
  rw [Rest.word_bare] at found
  refine ⟨rest.afterWord, ?_, (Rest.afterWord_bare rest).symm⟩
  simp [Parser.expectKeyword, Rest.isKeyword, found]

end Reads

end Parser

def Rest.joined (gap : Rest) : List Rest → Rest
  | [] => []
  | [part] => part
  | part :: next :: more => part ++ gap ++ Rest.joined gap (next :: more)

theorem Rest.length_joined (gap : Rest) (parts : List Rest) (wide : 0 < gap.length) :
    parts.length ≤ (Rest.joined gap parts).length + 1 := by
  fun_induction Rest.joined gap parts with
  | case1 => simp
  | case2 part => simp
  | case3 part next more ih =>
    simp only [List.length_append, List.length_cons] at ih ⊢
    omega

namespace Parser

variable {α : Type} {ctx : Context}

/-- How the items of a list are written: `f` gives the lexemes of an item,
which start neither with a blank nor like the end of the list, and an item is
read whole before a separator or the end. -/
structure ListForm (ctx : Context) (separator close : String) (item : List α → Parser α)
    (f : α → Rest) (done xs : List α) : Prop where
  starts : ∀ x ∈ xs, ∀ t, ctx.skipSpace (f x ++ t) = f x ++ t ∧ Rest.isAt close (f x ++ t) = false
  each : ∀ before x after t, done ++ xs = before ++ x :: after → done.length ≤ before.length →
    (Rest.isAt separator t ∨ Rest.isAt close t) → Reads (item before) ctx (f x ++ t) x t

theorem ListForm.tail {separator close : String} {item : List α → Parser α} {f : α → Rest}
    {done xs : List α} {x : α} (form : ListForm ctx separator close item f done (x :: xs)) :
    ListForm ctx separator close item f (done ++ [x]) xs := by
  constructor
  · intro y member
    exact form.starts y (List.mem_cons_of_mem x member)
  · intro before y after t parts longer
    refine form.each before y after t ?_ ?_
    · rw [← parts, List.append_assoc, List.singleton_append]
    · rw [List.length_append] at longer
      omega

theorem reads_items (placeless : ctx.Placeless) {separator close : String} (differ : separator ≠ close)
    {item : List α → Parser α} {f : α → Rest}
    (gap : ∀ t, ctx.skipSpace (.source " " :: t) = ctx.skipSpace t)
    (still : ∀ text ∈ [separator, close], ∀ t, ctx.skipSpace (.source text :: t) = .source text :: t)
    (xs done : List α) (form : ListForm ctx separator close item f done xs) (fuel : Nat)
    (fueled : xs.length < fuel) (input s : Rest)
    (written : ctx.skipSpace input =
      Rest.joined [.source separator, .source " "] (xs.map f) ++ .source close :: s) :
    Reads (items separator close item fuel done) ctx input (done ++ xs, none) s := by
  obtain ⟨fuel, rfl⟩ := Nat.exists_eq_succ_of_ne_zero (Nat.ne_of_gt (Nat.zero_lt_of_lt fueled))
  induction xs generalizing done fuel input with
  | nil =>
    rintro rest rfl
    rw [placeless.skipSpace] at written
    simp only [List.map_nil, Rest.joined, List.nil_append] at written
    have closed : Rest.isAt close (ctx.skipSpace rest) := by
      rw [← Rest.isAt_bare, written]
      simp [Rest.isAt]
    refine ⟨(ctx.skipSpace rest).tail, ?_, ?_⟩
    · simp [items, closed]
    · rw [← Rest.tail_bare, written]
      rfl
  | cons x xs ih =>
    rintro rest rfl
    rw [placeless.skipSpace] at written
    have starts := form.starts x List.mem_cons_self
    cases xs with
    | nil =>
      simp only [List.map_cons, List.map_nil, Rest.joined] at written
      have opened : Rest.isAt close (ctx.skipSpace rest) = false := by
        rw [← Rest.isAt_bare, written, (starts _).2]
      have ends : Rest.isAt close (Lexeme.source close :: s) := by simp [Rest.isAt]
      obtain ⟨reached, read, left⟩ := form.each done x [] (.source close :: s) rfl (Nat.le_refl _)
        (Or.inr ends) (ctx.skipSpace rest) written
      have skipped : (ctx.skipSpace reached).bare = .source close :: s := by
        rw [← placeless.skipSpace, left, still close (by simp)]
      have notSeparator : Rest.isAt separator (ctx.skipSpace reached) = false := by
        rw [← Rest.isAt_bare, skipped]
        simp [Rest.isAt, Ne.symm differ]
      have closed : Rest.isAt close (ctx.skipSpace reached) := by
        rw [← Rest.isAt_bare, skipped]
        exact ends
      refine ⟨(ctx.skipSpace reached).tail, ?_, ?_⟩
      · simp [items, opened, read, notSeparator, closed]
      · rw [← Rest.tail_bare, skipped]
        rfl
    | cons y ys =>
      simp only [List.map_cons, Rest.joined, List.append_assoc] at written
      have opened : Rest.isAt close (ctx.skipSpace rest) = false := by
        rw [← Rest.isAt_bare, written, (starts _).2]
      have divided (t : Rest) : Rest.isAt separator ([.source separator, .source " "] ++ t) := by
        simp [Rest.isAt]
      obtain ⟨reached, read, left⟩ := form.each done x (y :: ys) _ rfl (Nat.le_refl _)
        (Or.inl (divided _)) (ctx.skipSpace rest) written
      have skipped : (ctx.skipSpace reached).bare = reached.bare := by
        rw [← placeless.skipSpace, left]
        exact still separator (by simp) _
      have atSeparator : Rest.isAt separator (ctx.skipSpace reached) := by
        rw [← Rest.isAt_bare, skipped, left]
        exact divided _
      have next : Rest.bare (ctx.skipSpace reached).tail = .source " " ::
          (Rest.joined [.source separator, .source " "] ((y :: ys).map f) ++ .source close :: s) := by
        rw [← Rest.tail_bare, skipped, left]
        rfl
      have blank : ctx.skipSpace (Rest.bare (ctx.skipSpace reached).tail) =
          Rest.joined [.source separator, .source " "] ((y :: ys).map f) ++ .source close :: s := by
        rw [next, gap]
        cases ys with
        | nil => exact (form.starts y (by simp) _).1
        | cons z zs =>
          simp only [List.map_cons, Rest.joined, List.append_assoc]
          exact (form.starts y (by simp) _).1
      simp only [List.length_cons] at fueled
      obtain ⟨fuel, rfl⟩ : ∃ more, fuel = more + 1 := ⟨fuel - 1, by omega⟩
      obtain ⟨final, rest', left'⟩ := ih (done ++ [x]) form.tail _ blank fuel
        (by simp only [List.length_cons]; omega) _ rfl
      refine ⟨final, ?_, left'⟩
      rw [items]
      simp only [opened, Bool.false_eq_true, if_false, read, atSeparator, if_true, rest']
      simp

theorem reads_list (placeless : ctx.Placeless) {separator close : String} (differ : separator ≠ close)
    {item : List α → Parser α} {f : α → Rest}
    (gap : ∀ t, ctx.skipSpace (.source " " :: t) = ctx.skipSpace t)
    (still : ∀ text ∈ [separator, close], ∀ t, ctx.skipSpace (.source text :: t) = .source text :: t)
    (xs : List α) (form : ListForm ctx separator close item f [] xs) (input s : Rest)
    (shorter : xs.length ≤ input.length)
    (written : ctx.skipSpace input =
      Rest.joined [.source separator, .source " "] (xs.map f) ++ .source close :: s) :
    Reads (Parser.list separator close item) ctx input xs s := by
  rintro rest rfl
  rw [Rest.length_bare] at shorter
  obtain ⟨reached, read, left⟩ := reads_items placeless differ gap still xs [] form
    (rest.length + 1) (Nat.lt_succ_of_le shorter) _ s written rest rfl
  refine ⟨reached, ?_, left⟩
  simp only [Parser.list, Parser.listed, read, List.nil_append]

inductive Contents (quote : String) : Rest → String → Prop
  | nil : Contents quote [] ""
  | piece {text rest read : _} (ordinary : text ≠ quote) (unescaped : text ≠ "\\")
      (more : Contents quote rest read) : Contents quote (.source text :: rest) (text ++ read)
  | escape {text meaning rest read : _} (known : unescape? text = some meaning)
      (more : Contents quote rest read) :
      Contents quote (.source "\\" :: .source text :: rest) (meaning ++ read)

theorem stringBody_append {quote : String} (unescaped : quote ≠ "\\") {contents : Rest} {text : String}
    (spelled : Contents quote contents text) {body : Rest} (same : body.bare = contents) (read : String) (rest : Rest) :
    stringBody ctx quote read (body ++ rest) = stringBody ctx quote (read ++ text) rest := by
  have shape {l : Lexeme} {text : String} (same : l.bare = .source text) : l.text = text ∧ l.synthetic = false := by
    rw [← Lexeme.bare_text, ← Lexeme.bare_synthetic, same]
    exact ⟨rfl, rfl⟩
  induction spelled generalizing read body with
  | nil =>
    obtain rfl := List.map_eq_nil_iff.mp same
    rw [List.nil_append, String.append_empty]
  | piece ordinary plain more ih =>
    obtain ⟨found, body, rfl, sameFound, same⟩ := List.map_eq_cons_iff.mp same
    obtain ⟨text, real⟩ := shape sameFound
    rw [List.cons_append, stringBody.eq_def]
    simp only [text, real, ordinary, plain, Bool.false_eq_true, if_false, ih same, String.append_assoc]
  | escape known more ih =>
    obtain ⟨slash, body, rfl, sameSlash, same⟩ := List.map_eq_cons_iff.mp same
    obtain ⟨found, body, rfl, sameFound, same⟩ := List.map_eq_cons_iff.mp same
    obtain ⟨backslash, realSlash⟩ := shape sameSlash
    obtain ⟨text, real⟩ := shape sameFound
    rw [List.cons_append, List.cons_append, stringBody.eq_def]
    simp only [backslash, realSlash, text, real, Ne.symm unescaped, Bool.false_eq_true, if_false, if_true, known,
      ih same, String.append_assoc]

theorem stringBody_contents {quote : String} (unescaped : quote ≠ "\\") {contents : Rest}
    {text : String} (spelled : Contents quote contents text) (read : String) (rest s : Rest)
    (written : rest.bare = contents ++ .source quote :: s) :
    ∃ reached : Rest, stringBody ctx quote read rest = .ok (read ++ text) reached ∧
      reached.bare = s := by
  obtain ⟨body, behind, rfl, same, behindSame⟩ := List.map_eq_append_iff.mp written
  obtain ⟨close, left, rfl, closeSame, leftSame⟩ := List.map_eq_cons_iff.mp behindSame
  have shape : close.text = quote ∧ close.synthetic = false := by
    rw [← Lexeme.bare_text, ← Lexeme.bare_synthetic, closeSame]
    exact ⟨rfl, rfl⟩
  refine ⟨left, ?_, leftSame⟩
  rw [stringBody_append unescaped spelled same, stringBody.eq_def]
  simp only [shape, Bool.false_eq_true, if_false, if_true]

theorem reads_string {quote : String} (unescaped : quote ≠ "\\") {contents : Rest} {text : String}
    (spelled : Contents quote contents text) (s : Rest) :
    Reads (Parser.string quote) ctx (.source quote :: (contents ++ .source quote :: s)) text s := by
  refine Reads.expect (by simp [Rest.isAtAny, Rest.isAt]) fun _ _ => ?_
  intro rest same
  obtain ⟨reached, body, left⟩ := stringBody_contents unescaped spelled "" rest s same
  refine ⟨reached, ?_, left⟩
  change stringBody ctx quote "" rest = _
  rw [body, String.empty_append]

theorem spanNumber_bare (fraction : Bool) (rest : Rest) :
    spanNumber fraction rest.bare =
      (Rest.bare (spanNumber fraction rest).1, Rest.bare (spanNumber fraction rest).2) := by
  unfold spanNumber
  rw [Rest.takeWhile_bare _ Lexeme.isDigits_bare, Rest.dropWhile_bare _ Lexeme.isDigits_bare]
  generalize rest.dropWhile (·.isDigits) = after
  match after with
  | [] => rfl
  | [_] => rfl
  | point :: digit :: more =>
    have atPoint : Rest.isAt "." (Rest.bare (point :: digit :: more)) =
        Rest.isAt "." (point :: digit :: more) := rfl
    have taken := Rest.takeWhile_bare _ Lexeme.isDigits_bare (digit :: more)
    have dropped := Rest.dropWhile_bare _ Lexeme.isDigits_bare (digit :: more)
    simp only [Rest.bare_cons] at atPoint taken dropped
    simp only [Rest.bare_cons, atPoint, taken, dropped, Lexeme.isDigits_bare]
    split <;> simp [Rest.bare]

theorem reads_number {fraction : Bool} {s digits t : Rest}
    (span : spanNumber fraction s = (digits, t)) :
    Reads (Parser.number fraction) ctx s (Rest.text digits) t := by
  rintro rest rfl
  rw [spanNumber_bare, Prod.mk.injEq] at span
  refine ⟨(spanNumber fraction rest).2, ?_, span.2⟩
  rw [← span.1, Rest.text_bare]
  rfl

def AtDigit (s : Rest) : Prop :=
  ∃ l t, s = l :: t ∧ l.isDigits

theorem span_digits {digits s : Rest} (all : ∀ l ∈ digits, l.isDigits) (ends : ¬AtDigit s) :
    (digits ++ s).takeWhile (·.isDigits) = digits ∧ (digits ++ s).dropWhile (·.isDigits) = s := by
  have stop : s.takeWhile (·.isDigits) = [] ∧ s.dropWhile (·.isDigits) = s := by
    cases s with
    | nil => exact ⟨rfl, rfl⟩
    | cons l t =>
      have other : ¬l.isDigits := fun digit => ends ⟨l, t, rfl, digit⟩
      simp [other]
  rw [List.takeWhile_append_of_pos all, List.dropWhile_append_of_pos all, stop.1, stop.2]
  simp

theorem spanNumber_whole {digits s : Rest} (all : ∀ l ∈ digits, l.isDigits) (ends : ¬AtDigit s)
    (noPoint : Rest.isAt "." s = false) : spanNumber true (digits ++ s) = (digits, s) := by
  obtain ⟨taken, dropped⟩ := span_digits all ends
  simp only [spanNumber, taken, dropped]
  match s with
  | [] => rfl
  | [_] => rfl
  | _ :: _ :: _ => simp [noPoint]

theorem spanNumber_fraction {whole behind s : Rest} (all : ∀ l ∈ whole, l.isDigits)
    (some : behind ≠ []) (more : ∀ l ∈ behind, l.isDigits) (ends : ¬AtDigit s) :
    spanNumber true (whole ++ .source "." :: (behind ++ s)) =
      (whole ++ .source "." :: behind, s) := by
  have point : ¬AtDigit (.source "." :: (behind ++ s)) := by
    rintro ⟨l, t, same, digit⟩
    cases same
    exact absurd digit (by decide)
  obtain ⟨taken, dropped⟩ := span_digits all point
  obtain ⟨takenMore, droppedMore⟩ := span_digits more ends
  obtain ⟨digit, rest, rfl⟩ := List.exists_cons_of_ne_nil some
  have isDigit := more digit List.mem_cons_self
  simp only [List.cons_append] at taken dropped takenMore droppedMore
  have pointed : (true && Rest.isAt "." (.source "." :: digit :: (rest ++ s)) && digit.isDigits) = true := by
    simp [Rest.isAt, isDigit]
  simp only [spanNumber, taken, dropped, List.cons_append]
  rw [if_pos pointed, takenMore, droppedMore]

end Parser

namespace Grammar

variable {ε σ : Type} (g : Grammar ε σ)

structure Placeless (ctx : Context) : Prop extends ctx.Placeless where
  operands : ∀ rule ∈ g.operands, ∀ rest : Rest, rule.applies ctx rest.bare = rule.applies ctx rest
  operators : ∀ rule ∈ g.operators, ∀ rest : Rest, rule.applies ctx rest.bare = rule.applies ctx rest
  statements : ∀ rule ∈ g.statements, ∀ rest : Rest,
    rule.applies ctx rest.bare = rule.applies ctx rest

variable {g} {ctx : Context}

open ScriptKernel.Parser (Reads)

theorem Placeless.findOperator (placeless : g.Placeless ctx) (rest : Rest) :
    g.operators.find? (·.applies ctx rest) = g.operators.find? (·.applies ctx rest.bare) :=
  List.find?_congr fun rule member => (placeless.operators rule member rest).symm

theorem reads_operators_stop (placeless : g.Placeless ctx) {nested : Nested ε σ}
    {least : Precedence} {fuel : Nat} (left : ε) {s : Rest} (stops : g.Stops ctx least s)
    (fueled : 0 < fuel) : Reads (g.operatorsFrom nested least fuel left) ctx s left (ctx.skipSpace s) := by
  rintro rest rfl
  have stopsHere : g.Stops ctx least rest := by
    intro rule found
    rw [placeless.findOperator, ← placeless.skipSpace] at found
    exact stops rule found
  exact ⟨_, g.operatorsFrom_stop stopsHere fueled, (placeless.skipSpace rest).symm⟩

theorem reads_operators_step (placeless : g.Placeless ctx) {nested : Nested ε σ}
    {least : Precedence} {fuel : Nat} {left next result : ε} {rule : OperatorRule ε σ} {s t u : Rest}
    (found : g.operators.find? (·.applies ctx (ctx.skipSpace s)) = some rule)
    (binds : least ≤ rule.precedence)
    (parsed : Reads (rule.parse nested left) ctx (ctx.skipSpace s) next t)
    (rest : Reads (g.operatorsFrom nested least fuel next) ctx t result u) :
    Reads (g.operatorsFrom nested least (fuel + 1) left) ctx s result u := by
  rintro here rfl
  obtain ⟨reached, read, left⟩ := parsed (ctx.skipSpace here) (placeless.skipSpace here).symm
  rw [placeless.skipSpace, ← placeless.findOperator] at found
  rw [g.operatorsFrom_step found binds read]
  exact rest reached left

theorem reads_expr (placeless : g.Placeless ctx) {nested : Nested ε σ} {least : Precedence}
    {left result : ε} {rule : OperandRule ε σ} {s t u : Rest}
    (found : g.operands.find? (·.applies ctx (ctx.skipSpace s)) = some rule)
    (parsed : Reads (rule.parse nested) ctx (ctx.skipSpace s) left t)
    (rest : Reads (g.operatorsFrom nested least (t.length + 1) left) ctx t result u) :
    Reads (g.exprWith nested least) ctx s result u := by
  rintro here rfl
  obtain ⟨reached, read, remains⟩ := parsed (ctx.skipSpace here) (placeless.skipSpace here).symm
  have foundHere : g.operands.find? (·.applies ctx (ctx.skipSpace here)) = some rule := by
    rw [← found, placeless.skipSpace]
    exact List.find?_congr fun rule member => (placeless.operands rule member _).symm
  have loop := rest reached remains
  rw [← remains, Rest.length_bare] at loop
  rw [exprWith_eq_exprFrom, g.exprFrom_operand foundHere read]
  exact loop

theorem reads_statement (placeless : g.Placeless ctx) {nested : Nested ε σ} {result : σ}
    {rule : StatementRule ε σ} {s t : Rest} (found : g.statements.find? (·.applies ctx s) = some rule)
    (parsed : Reads (rule.parse nested) ctx s result t) :
    Reads (g.statementWith nested) ctx s result t := by
  rintro here rfl
  have foundHere : g.statements.find? (·.applies ctx here) = some rule := by
    rw [← found]
    exact List.find?_congr fun rule member => (placeless.statements rule member _).symm
  simpa only [statementWith, foundHere] using parsed here rfl

theorem reads_block_end (placeless : g.Placeless ctx) {statement : Parser σ}
    {stop : Context → Rest → Bool} (unaware : ∀ rest : Rest, stop ctx rest.bare = stop ctx rest)
    {fuel : Nat} (done : List σ) {s : Rest} (stops : stop ctx (ctx.skipTrivia s)) :
    Reads (blockFrom statement stop (fuel + 1) done) ctx s done.reverse (ctx.skipTrivia s) := by
  rintro here rfl
  rw [placeless.skipTrivia, unaware] at stops
  exact ⟨_, by simp [blockFrom, stops], (placeless.skipTrivia here).symm⟩

theorem reads_block_step (placeless : g.Placeless ctx) {statement : Parser σ}
    {stop : Context → Rest → Bool} (unaware : ∀ rest : Rest, stop ctx rest.bare = stop ctx rest)
    {fuel : Nat} {done : List σ} {x : σ} {all : List σ} {s t u : Rest}
    (goes : stop ctx (ctx.skipTrivia s) = false) (inside : ctx.atEnd (ctx.skipTrivia s) = false)
    (read : Reads statement ctx (ctx.skipTrivia s) x t) (shorter : t.length < (ctx.skipTrivia s).length)
    (rest : Reads (blockFrom statement stop fuel (x :: done)) ctx t all u) :
    Reads (blockFrom statement stop (fuel + 1) done) ctx s all u := by
  rintro here rfl
  obtain ⟨reached, parsed, left⟩ := read (ctx.skipTrivia here) (placeless.skipTrivia here).symm
  rw [placeless.skipTrivia] at goes inside shorter
  rw [unaware] at goes
  rw [Context.atEnd_bare] at inside
  rw [← left, Rest.length_bare, Rest.length_bare] at shorter
  obtain ⟨final, after, remains⟩ := rest reached left
  refine ⟨final, ?_, remains⟩
  have consumed : ¬reached.length = (ctx.skipTrivia here).length := Nat.ne_of_lt shorter
  simp only [blockFrom, goes, inside, Bool.false_eq_true, if_false, step, parsed, consumed, after]

end Grammar

end ScriptKernel
