import ScriptKernel.Text.Pieces

/-!
Where something stands in a source text: for diagnostics as file, line and
column, while reading as a byte offset with the line and column that belong
to it.
-/

namespace ScriptKernel

structure Location where
  line : Int
  column : Int
  file : String := ""
deriving Repr, DecidableEq, Inhabited

def Location.render (l : Location) : String :=
  (if l.file = "" then "<unknown>" else l.file) ++ ":" ++ Text.decimal l.line ++ ":" ++
    Text.decimal l.column

/-- A half-open range of byte offsets. -/
structure Span where
  start : Int
  stop : Int
deriving Repr, DecidableEq

def Span.render (s : Span) : String :=
  Text.decimal s.start ++ "-" ++ Text.decimal s.stop

def Span.size (s : Span) : Int :=
  s.stop - s.start

/-- A point between two characters of a source text. -/
structure Place where
  offset : Nat
  line : Nat
  column : Nat
deriving Repr, DecidableEq, Inhabited

def Place.start : Place := ⟨0, 1, 1⟩

/-- The place behind one more character. Only a newline starts a line. -/
def Place.step (p : Place) (c : Char) : Place :=
  if c = '\n' then ⟨p.offset + c.utf8Size, p.line + 1, 1⟩
  else ⟨p.offset + c.utf8Size, p.line, p.column + 1⟩

def Place.after (p : Place) (text : List Char) : Place :=
  text.foldl Place.step p

@[simp] theorem Place.after_nil (p : Place) : p.after [] = p := rfl

@[simp] theorem Place.after_cons (p : Place) (c : Char) (text : List Char) :
    p.after (c :: text) = (p.step c).after text := rfl

theorem Place.after_append (p : Place) (first second : List Char) :
    p.after (first ++ second) = (p.after first).after second := by
  simp [Place.after, List.foldl_append]

def Place.location (p : Place) (file : String) : Location :=
  ⟨p.line, p.column, file⟩

end ScriptKernel
