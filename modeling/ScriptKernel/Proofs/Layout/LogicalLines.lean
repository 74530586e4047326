import Mathlib.Data.List.TakeWhile
import ScriptKernel.Layout.Indentation

/-!
The logical lines of a stream without an accumulator. Every lexeme is first
given its position: in code, a comment or a string, and in how many brackets.
The stream is then split at the newlines that end a line, and each part is
reduced to its content and measured. The reader of the layout, which does all
of this in one pass, finds the same lines.
-/

namespace ScriptKernel.Layout.Indentation

structure Position where
  mode : Mode := .code
  depth : Nat := 0
deriving Repr, DecidableEq

namespace Position

def inString (p : Position) : Bool :=
  match p.mode with
  | .string _ _ => true
  | _ => false

def afterCode (rules : Indentation) (p : Position) (text : String) : Position :=
  if rules.comment ≠ "" ∧ text = rules.comment then { p with mode := .comment }
  else if rules.quotes.contains text then
    if text = "" then p else { p with mode := .string text false }
  else if rules.opening.contains text then { p with depth := p.depth + 1 }
  else if rules.closing.contains text then { p with depth := p.depth - 1 }
  else p

def next (rules : Indentation) (p : Position) (text : String) : Position :=
  match p.mode with
  | .string quote escaped =>
    if escaped then { p with mode := .string quote false }
    else if text = rules.escape then { p with mode := .string quote true }
    else if text = quote then { p with mode := .code }
    else p
  | .comment => if text = "\n" then { p with mode := .code } else p
  | .code => if text = "\n" ∨ text = "\r" ∨ isBlank text then p else p.afterCode rules text

def endsLine (p : Position) (text : String) : Bool :=
  text == "\n" && p.depth == 0 && !p.inString

/-- Comments, carriage returns and newlines in brackets are no content. A blank
never starts a comment. -/
def isContent (rules : Indentation) (p : Position) (text : String) : Bool :=
  match p.mode with
  | .string _ _ => true
  | .comment => false
  | .code =>
    text != "\n" && text != "\r" &&
      (isBlank text || !(rules.comment != "" && text == rules.comment))

end Position

def placed (rules : Indentation) (p : Position) : List Lexeme → List (Position × Lexeme)
  | [] => []
  | lexeme :: rest => (p, lexeme) :: placed rules (p.next rules lexeme.text) rest

def isLineEnd (entry : Position × Lexeme) : Bool :=
  entry.1.endsLine entry.2.text

def content (rules : Indentation) (part : List (Position × Lexeme)) : List Lexeme :=
  (part.filter fun (p, lexeme) => p.isContent rules lexeme.text).map (·.2)

def blanks (lexemes : List Lexeme) : List Lexeme :=
  lexemes.takeWhile fun lexeme => isBlank lexeme.text

def proper (lexemes : List Lexeme) : List Lexeme :=
  lexemes.dropWhile fun lexeme => isBlank lexeme.text

def spacesOf (lexemes : List Lexeme) : Nat :=
  lexemes.countP fun lexeme => lexeme.text == " "

def tabOf (lexemes : List Lexeme) : Option Place :=
  (lexemes.find? fun lexeme => lexeme.text == "\t").map (·.place)

/-- The logical line of the part between two line ends; blank and comment-only
parts have none. -/
def logicalLine? (rules : Indentation) (part : List (Position × Lexeme)) : Option LogicalLine :=
  let found := rules.content part
  match proper found with
  | [] => none
  | first :: others => some ⟨spacesOf (blanks found), tabOf (blanks found), first, others⟩

def logicalLines (rules : Indentation) (lexemes : List Lexeme) : List LogicalLine :=
  ((rules.placed {} lexemes).splitOnP isLineEnd).filterMap rules.logicalLine?

/-- What the reader remembers of the part it has read, at a position. -/
def summary (found : List Lexeme) (p : Position) : Reading where
  spaces := spacesOf (blanks found)
  tab := tabOf (blanks found)
  kept := (proper found).reverse
  depth := p.depth
  mode := p.mode

theorem finish_summary (rules : Indentation) (part : List (Position × Lexeme)) (p : Position) :
    (summary (rules.content part) p).finish = rules.logicalLine? part := by
  cases found : proper (rules.content part) <;> simp [Reading.finish, summary, logicalLine?, found]

theorem content_append (rules : Indentation) (part : List (Position × Lexeme)) (p : Position)
    (lexeme : Lexeme) :
    rules.content (part ++ [(p, lexeme)]) =
      rules.content part ++ if p.isContent rules lexeme.text then [lexeme] else [] := by
  simp only [content, List.filter_append, List.map_append, List.filter_cons, List.filter_nil]
  split <;> rfl

theorem summary_append_blank (found : List Lexeme) (p : Position) (lexeme : Lexeme)
    (blank : isBlank lexeme.text = true) (leading : proper found = []) :
    summary (found ++ [lexeme]) p =
      { summary found p with
        spaces := if lexeme.text = " " then spacesOf (blanks found) + 1 else spacesOf (blanks found)
        tab := if lexeme.text = "\t" then (tabOf (blanks found)).or (some lexeme.place)
          else tabOf (blanks found) } := by
  have allBlank : ∀ other ∈ found, isBlank other.text = true := by
    simpa [proper, List.dropWhile_eq_nil_iff] using leading
  have sameBlanks : blanks found = found := List.takeWhile_eq_self_iff.2 allBlank
  have moreBlanks : blanks (found ++ [lexeme]) = found ++ [lexeme] := by
    apply List.takeWhile_eq_self_iff.2
    intro other member
    rcases List.mem_append.1 member with earlier | last
    · exact allBlank other earlier
    · rw [List.mem_singleton.1 last]
      exact blank
  have stillLeading : proper (found ++ [lexeme]) = [] := by
    simpa [proper, List.dropWhile_append, leading, blank] using
      fun other member => allBlank other member
  simp only [summary, sameBlanks, moreBlanks, stillLeading, leading, spacesOf, tabOf,
    List.countP_append, List.countP_singleton, List.find?_append, beq_iff_eq, Reading.mk.injEq,
    and_true]
  constructor
  · split <;> rfl
  · by_cases tab : lexeme.text = "\t"
    · cases List.find? (fun other => other.text == "\t") found <;> simp [tab]
    · simp [tab]

theorem summary_append_kept (found : List Lexeme) (p : Position) (lexeme : Lexeme)
    (kept : isBlank lexeme.text = true → proper found ≠ []) :
    summary (found ++ [lexeme]) p =
      { summary found p with kept := lexeme :: (proper found).reverse } := by
  by_cases leading : proper found = []
  · have visible : isBlank lexeme.text = false := by
      cases blank : isBlank lexeme.text with
      | false => rfl
      | true => exact absurd leading (kept blank)
    have allBlank : ∀ other ∈ found, isBlank other.text = true := by
      simpa [proper, List.dropWhile_eq_nil_iff] using leading
    have sameBlanks : blanks (found ++ [lexeme]) = blanks found := by
      simp only [blanks]
      rw [List.takeWhile_append_of_pos allBlank, List.takeWhile_eq_self_iff.2 allBlank]
      simp [visible]
    have started : proper (found ++ [lexeme]) = [lexeme] := by
      simp only [proper]
      rw [List.dropWhile_append_of_pos allBlank]
      simp [visible]
    simp [summary, sameBlanks, started, leading]
  · have nonempty : (found.dropWhile fun other => isBlank other.text).isEmpty = false := by
      simpa [proper] using leading
    have sameBlanks : blanks (found ++ [lexeme]) = blanks found := by
      simp only [blanks, List.takeWhile_append]
      rw [if_neg]
      intro whole
      have rejoined := congrArg List.length
        (List.takeWhile_append_dropWhile (p := fun other => isBlank other.text) (l := found))
      have empty : (found.dropWhile fun other => isBlank other.text).length = 0 := by
        rw [List.length_append] at rejoined
        omega
      exact leading (List.length_eq_zero_iff.1 empty)
    have longer : proper (found ++ [lexeme]) = proper found ++ [lexeme] := by
      simp [proper, List.dropWhile_append, nonempty]
    simp [summary, sameBlanks, longer]

theorem summary_append_content (rules : Indentation) (part : List (Position × Lexeme))
    (p q : Position) (lexeme : Lexeme) (isContent : p.isContent rules lexeme.text = true)
    (kept : isBlank lexeme.text = true → proper (rules.content part) ≠ []) :
    summary (rules.content (part ++ [(p, lexeme)])) q =
      { summary (rules.content part) p with
        kept := lexeme :: (proper (rules.content part)).reverse
        depth := q.depth
        mode := q.mode } := by
  rw [content_append, if_pos isContent, summary_append_kept _ _ _ kept]
  rfl

theorem summary_append_dropped (rules : Indentation) (part : List (Position × Lexeme))
    (p q : Position) (lexeme : Lexeme) (dropped : p.isContent rules lexeme.text = false) :
    summary (rules.content (part ++ [(p, lexeme)])) q = summary (rules.content part) q := by
  rw [content_append, if_neg (by simp [dropped]), List.append_nil]

theorem keepInString_summary (rules : Indentation) (part : List (Position × Lexeme))
    (p : Position) (lexeme : Lexeme) (quote : String) (escaped : Bool)
    (inString : p.mode = .string quote escaped) (started : proper (rules.content part) ≠ []) :
    rules.keepInString (summary (rules.content part) p) quote escaped lexeme =
      summary (rules.content (part ++ [(p, lexeme)])) (p.next rules lexeme.text) := by
  rw [summary_append_content rules part p _ lexeme (by simp [Position.isContent, inString])
    (fun _ => started)]
  simp only [keepInString, Position.next, inString, summary, Reading.mk.injEq, true_and]
  by_cases protectedByEscape : escaped = true
  · simp [protectedByEscape]
  · by_cases escape : lexeme.text = rules.escape
    · simp [protectedByEscape, escape]
    · by_cases close : lexeme.text = quote
      · subst close
        simp [protectedByEscape, escape]
      · simp [protectedByEscape, escape, close, inString]

theorem keep_summary (rules : Indentation) (part : List (Position × Lexeme)) (p : Position)
    (lexeme : Lexeme) (visible : isBlank lexeme.text = false)
    (isContent : p.isContent rules lexeme.text = true)
    (noComment : ¬(rules.comment ≠ "" ∧ lexeme.text = rules.comment)) :
    rules.keep (summary (rules.content part) p) lexeme =
      summary (rules.content (part ++ [(p, lexeme)])) (p.afterCode rules lexeme.text) := by
  rw [summary_append_content rules part p _ lexeme isContent (by simp [visible])]
  simp only [keep, Position.afterCode, if_neg noComment, summary]
  split
  · split <;> rfl
  · split
    · rfl
    · split <;> rfl

theorem keepInCode_summary (rules : Indentation) (part : List (Position × Lexeme))
    (p : Position) (lexeme : Lexeme) (code : p.mode = .code) (noNewline : lexeme.text ≠ "\n") :
    rules.keepInCode (summary (rules.content part) p) lexeme =
      summary (rules.content (part ++ [(p, lexeme)])) (p.next rules lexeme.text) := by
  simp only [keepInCode, Position.next, code]
  by_cases returns : lexeme.text = "\r"
  · rw [if_pos returns, if_pos (Or.inr (Or.inl returns)),
      summary_append_dropped _ _ _ _ _ (by simp [Position.isContent, code, returns])]
  rw [if_neg returns]
  by_cases blank : isBlank lexeme.text = true
  · rw [if_pos blank, if_pos (Or.inr (Or.inr blank))]
    have isContent : p.isContent rules lexeme.text = true := by
      simp [Position.isContent, code, noNewline, returns, blank]
    by_cases leading : proper (rules.content part) = []
    · rw [content_append, if_pos isContent, summary_append_blank _ _ _ blank leading, if_pos]
      · rfl
      · simp [summary, leading]
    · rw [summary_append_content rules part p p lexeme isContent (fun _ => leading), if_neg]
      · rfl
      · simpa [summary] using leading
  · have visible : isBlank lexeme.text = false := by simpa using blank
    have other : ¬(lexeme.text = "\n" ∨ lexeme.text = "\r" ∨ isBlank lexeme.text = true) := by
      simp [noNewline, returns, visible]
    rw [if_neg blank, if_neg other]
    by_cases comment : rules.comment ≠ "" ∧ lexeme.text = rules.comment
    · have dropped : p.isContent rules lexeme.text = false := by
        simp [Position.isContent, code, comment, comment.2 ▸ visible]
      rw [if_pos comment, summary_append_dropped _ _ _ _ _ dropped]
      simp [Position.afterCode, if_pos comment, summary]
    · rw [if_neg comment]
      apply keep_summary _ _ _ _ visible _ comment
      simpa [Position.isContent, code, noNewline, returns, visible, imp_iff_not_or] using comment

theorem next_started (rules : Indentation) (part : List (Position × Lexeme)) (p : Position)
    (lexeme : Lexeme)
    (started : p.inString = true → proper (rules.content part) ≠ [])
    (opened : (p.next rules lexeme.text).inString = true) :
    proper (rules.content (part ++ [(p, lexeme)])) ≠ [] := by
  have grows (isContent : p.isContent rules lexeme.text = true)
      (kept : isBlank lexeme.text = true → proper (rules.content part) ≠ []) :
      proper (rules.content (part ++ [(p, lexeme)])) ≠ [] := by
    have grown := congrArg Reading.kept (summary_append_content rules part p p lexeme isContent kept)
    intro empty
    simp [summary, empty] at grown
  cases mode : p.mode with
  | string quote escaped =>
    exact grows (by simp [Position.isContent, mode])
      fun _ => started (by simp [Position.inString, mode])
  | comment =>
    exfalso
    by_cases newline : lexeme.text = "\n" <;>
      simp [Position.next, Position.inString, mode, newline] at opened
  | code =>
    by_cases other : lexeme.text = "\n" ∨ lexeme.text = "\r" ∨ isBlank lexeme.text = true
    · simp [Position.next, Position.inString, mode, if_pos other] at opened
    · simp only [not_or, Bool.not_eq_true] at other
      obtain ⟨noNewline, noReturn, visible⟩ := other
      by_cases comment : rules.comment ≠ "" ∧ lexeme.text = rules.comment
      · have same : p.next rules lexeme.text = { p with mode := .comment } := by
          simp [Position.next, mode, noNewline, noReturn, visible, Position.afterCode, if_pos comment]
        simp [same, Position.inString] at opened
      · apply grows _ (by simp [visible])
        simpa [Position.isContent, mode, noNewline, noReturn, visible, imp_iff_not_or] using comment

/-- The reader, having read the beginning of a line, finds the lines that start
with this beginning. -/
theorem linesFrom_summary (rules : Indentation) (rest : List Lexeme)
    (part : List (Position × Lexeme)) (p : Position)
    (started : p.inString = true → proper (rules.content part.reverse) ≠ []) :
    rules.linesFrom (summary (rules.content part.reverse) p) rest =
      (List.splitOnPPrepend isLineEnd (rules.placed p rest) part).filterMap
        rules.logicalLine? := by
  induction rest generalizing part p with
  | nil =>
    simp only [linesFrom, placed, List.splitOnPPrepend_nil, finish_summary]
    cases found : rules.logicalLine? part.reverse <;> simp [found]
  | cons lexeme rest ih =>
    have goesOn (stays : isLineEnd (p, lexeme) = false) :
        rules.linesFrom (summary (rules.content (part.reverse ++ [(p, lexeme)]))
            (p.next rules lexeme.text)) rest =
          (List.splitOnPPrepend isLineEnd (rules.placed p (lexeme :: rest)) part).filterMap
            rules.logicalLine? := by
      have later := ih ((p, lexeme) :: part) (p.next rules lexeme.text)
      rw [List.reverse_cons] at later
      rw [later (next_started rules part.reverse p lexeme started), placed,
        List.splitOnPPrepend_cons_neg stays]
    have stops (ends : isLineEnd (p, lexeme) = true) (next : p.next rules lexeme.text = {}) :
        (summary (rules.content part.reverse) p).finish.toList ++ rules.linesFrom {} rest =
          (List.splitOnPPrepend isLineEnd (rules.placed p (lexeme :: rest)) part).filterMap
            rules.logicalLine? := by
      have restarts : rules.linesFrom {} rest =
          ((rules.placed {} rest).splitOnP isLineEnd).filterMap rules.logicalLine? :=
        ih [] {} (by simp [Position.inString])
      rw [restarts, placed, next, List.splitOnPPrepend_cons_pos ends, finish_summary,
        List.filterMap_cons]
      cases rules.logicalLine? part.reverse <;> rfl
    have sameDepth : (summary (rules.content part.reverse) p).depth = p.depth := rfl
    rw [linesFrom]
    cases mode : p.mode with
    | string quote escaped =>
      have reading : (summary (rules.content part.reverse) p).mode = .string quote escaped := mode
      simp only [reading]
      rw [keepInString_summary rules _ p lexeme quote escaped mode
        (started (by simp [Position.inString, mode]))]
      exact goesOn (by simp [isLineEnd, Position.endsLine, Position.inString, mode])
    | comment =>
      have reading : (summary (rules.content part.reverse) p).mode = .comment := mode
      have dropped : p.isContent rules lexeme.text = false := by simp [Position.isContent, mode]
      have same := summary_append_dropped rules part.reverse p (p.next rules lexeme.text) lexeme
        dropped
      simp only [reading, sameDepth]
      by_cases newline : lexeme.text = "\n"
      · rw [if_neg (by simp [newline])]
        by_cases bracket : 0 < p.depth
        · rw [if_pos bracket]
          have suppressed : isLineEnd (p, lexeme) = false := by
            simp [isLineEnd, Position.endsLine, Nat.ne_of_gt bracket]
          rw [← goesOn suppressed, same]
          simp [Position.next, mode, newline, summary]
        · rw [if_neg bracket]
          apply stops
          · simp [isLineEnd, Position.endsLine, Position.inString, mode, newline, Nat.eq_zero_of_not_pos bracket]
          · simp [Position.next, mode, newline, Nat.eq_zero_of_not_pos bracket]
      · rw [if_pos newline, ← goesOn (by simp [isLineEnd, Position.endsLine, newline]), same]
        simp [Position.next, mode, newline]
    | code =>
      have reading : (summary (rules.content part.reverse) p).mode = .code := mode
      simp only [reading, sameDepth]
      by_cases newline : lexeme.text = "\n"
      · rw [if_neg (by simp [newline])]
        by_cases bracket : 0 < p.depth
        · rw [if_pos bracket]
          have suppressed : isLineEnd (p, lexeme) = false := by
            simp [isLineEnd, Position.endsLine, Nat.ne_of_gt bracket]
          rw [← goesOn suppressed, summary_append_dropped _ _ _ _ _
            (by simp [Position.isContent, mode, newline])]
          simp [Position.next, mode, newline]
        · rw [if_neg bracket]
          apply stops
          · simp [isLineEnd, Position.endsLine, Position.inString, mode, newline, Nat.eq_zero_of_not_pos bracket]
          · cases p
            simp_all [Position.next]
      · rw [if_pos newline, keepInCode_summary rules _ p lexeme mode newline]
        exact goesOn (by simp [isLineEnd, Position.endsLine, newline])

theorem lines_eq_logicalLines (rules : Indentation) (lexemes : List Lexeme) :
    rules.lines lexemes = rules.logicalLines lexemes :=
  linesFrom_summary rules lexemes [] {} (by simp [Position.inString])

theorem mem_of_mem_placed (rules : Indentation) (p : Position) (lexemes : List Lexeme)
    (entry : Position × Lexeme) (member : entry ∈ rules.placed p lexemes) : entry.2 ∈ lexemes := by
  induction lexemes generalizing p with
  | nil => simp [placed] at member
  | cons lexeme rest ih =>
    rw [placed] at member
    rcases List.mem_cons.1 member with same | later
    · simp [same]
    · exact List.mem_cons_of_mem _ (ih _ later)

theorem parts_within (entries : List (Position × Lexeme)) :
    (∀ first ∈ (entries.splitOnP isLineEnd).head?, first <+: entries) ∧
      ∀ part ∈ entries.splitOnP isLineEnd, part <:+: entries := by
  induction entries with
  | nil => simp
  | cons entry rest ih =>
    obtain ⟨starts, inside⟩ := ih
    have later {part : List (Position × Lexeme)} (isPart : part ∈ rest.splitOnP isLineEnd) :
        part <:+: entry :: rest :=
      (inside part isPart).trans (List.suffix_cons entry rest).isInfix
    rw [List.splitOnP_cons_eq_if_modifyHead]
    split
    · simpa using fun part isPart => later isPart
    · cases parts : rest.splitOnP isLineEnd with
      | nil => simp at parts
      | cons first others =>
        have longer : entry :: first <+: entry :: rest :=
          List.cons_prefix_cons.2 ⟨rfl, starts first (by simp [parts])⟩
        rw [List.modifyHead_cons, List.head?_cons]
        refine ⟨by simpa using longer, fun part isPart => ?_⟩
        rcases List.mem_cons.1 isPart with rfl | other
        · exact longer.isInfix
        · exact later (parts ▸ List.mem_cons_of_mem _ other)

theorem lexemes_of_logicalLine? {rules : Indentation} {part : List (Position × Lexeme)}
    {line : LogicalLine} (found : rules.logicalLine? part = some line) :
    line.lexemes = proper (rules.content part) := by
  simp only [logicalLine?] at found
  cases content : proper (rules.content part) with
  | nil => simp [content] at found
  | cons first others =>
    simp only [content, Option.some.injEq] at found
    rw [← found]
    rfl

theorem mem_of_mem_logicalLines (rules : Indentation) (lexemes : List Lexeme)
    (line : LogicalLine) (isLine : line ∈ rules.logicalLines lexemes) :
    ∀ lexeme ∈ line.lexemes, lexeme ∈ lexemes := by
  intro lexeme member
  obtain ⟨part, isPart, found⟩ := List.mem_filterMap.1 isLine
  rw [lexemes_of_logicalLine? found] at member
  have inContent : lexeme ∈ rules.content part := (List.dropWhile_suffix _).subset member
  obtain ⟨entry, inFilter, same⟩ := List.mem_map.1 inContent
  have inPart := (List.mem_filter.1 inFilter).1
  rw [← same]
  exact mem_of_mem_placed rules {} lexemes entry (((parts_within _).2 part isPart).subset inPart)

end ScriptKernel.Layout.Indentation
