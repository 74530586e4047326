import ScriptKernel.Proofs.Machine.OperationFaults
import ScriptKernel.Proofs.Machine.ScopeDiscipline

/-!
Filling templates. A template is read from left to right: two like braces stand
for one, and an opening brace with a closing one behind it is a placeholder.
Texts whose braces are doubled are put back as they were, whatever they begin and
end with, because the reader takes doubled braces away two at a time and so is
never in the middle of a pair.
-/

namespace ScriptKernel.MiniRust

def placeholders : List Char → Nat
  | '\x7b' :: '\x7b' :: rest => placeholders rest
  | '\x7d' :: '\x7d' :: rest => placeholders rest
  | '\x7b' :: '\x7d' :: rest => placeholders rest + 1
  | _ :: rest => placeholders rest
  | [] => 0

namespace Template

def escaped (text : String) : String :=
  String.ofList (text.toList.flatMap fun c => if c = '\x7b' ∨ c = '\x7d' then [c, c] else [c])

def written (first : String) : List String → String
  | [] => escaped first
  | text :: texts => escaped first ++ "\x7b\x7d" ++ written text texts

def filled (first : String) : List String → List String → String
  | shown :: more, text :: texts => first ++ shown ++ filled text more texts
  | _, _ => first

end Template

variable {given used : Nat} {texts : List String} {template : List Char}

theorem fill_plain {c : Char} (plain : ¬(c = '\x7b' ∨ c = '\x7d')) (rest : List Char) {filled : String}
    (later : fill given used texts rest = .ok filled) :
    fill given used texts (c :: rest) = .ok (String.singleton c ++ filled) := by
  rw [fill, later]
  · rfl
  all_goals
    rintro rest' rfl
    simp at plain

theorem fill_doubled {c : Char} (brace : c = '\x7b' ∨ c = '\x7d') (rest : List Char) {filled : String}
    (later : fill given used texts rest = .ok filled) :
    fill given used texts (c :: c :: rest) = .ok (String.singleton c ++ filled) := by
  rcases brace with rfl | rfl
  · rw [fill, later]
    rfl
  · rw [fill, later]
    rfl

theorem fill_escaped (text : String) (rest : List Char) {filled : String}
    (later : fill given used texts rest = .ok filled) :
    fill given used texts ((Template.escaped text).toList ++ rest) = .ok (text ++ filled) := by
  -- The induction is on the text, with what is behind it read already.
  have chars (text : List Char) : fill given used texts
      (text.flatMap (fun c => if c = '\x7b' ∨ c = '\x7d' then [c, c] else [c]) ++ rest) =
      .ok (String.ofList text ++ filled) := by
    induction text with
    | nil => simpa using later
    | cons c text ih =>
      have longer : String.ofList (c :: text) ++ filled = String.singleton c ++ (String.ofList text ++ filled) := by
        simp [← String.toList_inj]
      rw [List.flatMap_cons, List.append_assoc, longer]
      split
      next brace => exact fill_doubled brace _ ih
      next plain => exact fill_plain plain _ ih
  simpa [Template.escaped] using chars text.toList

theorem fill_written {others shown : List String} (matching : others.length = shown.length)
    (counted : used + shown.length = given) (first : String) :
    fill given used shown (Template.written first others).toList = .ok (Template.filled first shown others) := by
  induction others generalizing first shown used with
  | nil =>
    obtain rfl := List.eq_nil_of_length_eq_zero matching.symm
    have ended : fill given used [] [] = .ok "" := by rw [fill, if_pos (by simpa using counted)]
    have read := fill_escaped first [] ended
    rwa [List.append_nil, String.append_empty] at read
  | cons text others ih =>
    obtain ⟨display, shown, rfl⟩ := List.exists_cons_of_length_eq_add_one matching.symm
    rw [List.length_cons] at matching counted
    have counted' : used + 1 + shown.length = given := by omega
    have later := ih (Nat.succ.inj matching) counted' text
    have placed : fill given used (display :: shown) ('\x7b' :: '\x7d' :: (Template.written text others).toList) =
        .ok (display ++ Template.filled text shown others) := by
      rw [fill, later]
      rfl
    have read := fill_escaped first _ placed
    rw [Template.written, Template.filled, String.append_assoc, String.append_assoc]
    simpa using read

/-- How the filling of a template ends that has `wanted` placeholders left, when
`used` texts have been taken and `left` are left. -/
inductive Filling (given used wanted left : Nat) : Except RuntimeFault String → Prop
  | complete (filled : String) (same : wanted = left) : Filling given used wanted left (.ok filled)
  | short (fewer : left < wanted) : Filling given used wanted left (.error (.tooManyPlaceholders given))
  | unused (more : wanted < left) :
      Filling given used wanted left (.error (.unusedArguments (used + wanted) given))

namespace Filling

variable {wanted left : Nat} {result : Except RuntimeFault String}

theorem prepend (filling : Filling given used wanted left result) (text : String) :
    Filling given used wanted left (result >>= fun filled => .ok (text ++ filled)) := by
  cases filling with
  | complete filled same => exact .complete (text ++ filled) same
  | short fewer => exact .short fewer
  | unused more => exact .unused more

theorem take (filling : Filling given (used + 1) wanted left result) :
    Filling given used (wanted + 1) (left + 1) result := by
  cases filling with
  | complete filled same => exact .complete filled (congrArg Nat.succ same)
  | short fewer => exact .short (Nat.succ_lt_succ fewer)
  | unused more =>
    rw [Nat.add_assoc, Nat.add_comm 1]
    exact .unused (Nat.succ_lt_succ more)

theorem fails_iff (filling : Filling given used wanted left result) :
    (∃ fault, result = .error fault) ↔ wanted ≠ left := by
  cases filling with
  | complete filled same => simp [same]
  | short fewer => simp [Nat.ne_of_gt fewer]
  | unused more => simp [Nat.ne_of_lt more]

end Filling

theorem fill_filling (given used : Nat) (texts : List String) (template : List Char)
    (counted : used + texts.length = given) :
    Filling given used (placeholders template) texts.length (fill given used texts template) := by
  fun_induction fill given used texts template with
  | case1 used texts rest ih => exact (ih counted).prepend _
  | case2 used texts rest ih => exact (ih counted).prepend _
  | case3 used rest => exact .short (Nat.succ_pos _)
  | case4 used text texts rest ih =>
    rw [List.length_cons] at counted
    exact (ih (by omega)).take.prepend _
  | case5 used texts c rest open_ close empty ih =>
    have same : placeholders (c :: rest) = placeholders rest := by
      rw [placeholders] <;> assumption
    rw [same]
    exact (ih counted).prepend _
  | case6 texts =>
    have none : texts.length = 0 := by omega
    rw [none]
    exact .complete "" rfl
  | case7 used texts other =>
    exact .unused (Nat.pos_of_ne_zero fun none => other (by omega))

variable {ev : Evaluators} {args : List Expr} {vs : List Value} {setting : Setting} {st reached : State}

theorem evalExpr_format (evaluated : ev.all args setting st = .ok vs reached) (template : String) :
    ev.evalExpr (.format template args) setting st =
      Run.lift (format template (vs.map reached.heap.display)) setting reached :=
  Run.bind_ok _ evaluated

theorem format_filled {texts : List String} {template filled : String}
    (done : fill texts.length 0 texts template.toList = .ok filled) : format template texts = .ok (.str filled) := by
  rw [format, done]
  rfl

theorem format_fails_iff (template : String) (texts : List String) :
    (∃ fault, format template texts = .error fault) ↔ placeholders template.toList ≠ texts.length := by
  have filling := fill_filling texts.length 0 texts template.toList (Nat.zero_add _)
  rw [← filling.fails_iff, format]
  cases fill texts.length 0 texts template.toList with
  | ok filled =>
    constructor
    · rintro ⟨_, failed⟩
      cases failed
    · rintro ⟨_, failed⟩
      cases failed
  | error fault => exact ⟨fun _ => ⟨fault, rfl⟩, fun _ => ⟨fault, rfl⟩⟩

theorem lift_fails_iff {α : Type} (result : Except RuntimeFault α) (setting : Setting) (st : State) :
    (∃ halt last, Run.lift result setting st = .error halt last) ↔ ∃ fault, result = .error fault := by
  cases result with
  | ok a => simp [Run.lift]
  | error fault => simp [Run.lift, Run.fault, Run.halt]

/-- Templates are filled exactly. Texts with doubled braces around placeholders come
out as they were, with the arguments shown in between, and any template fails just
if it has more or fewer placeholders than there are arguments. -/
theorem format_fills_exactly (ev : Evaluators) (args : List Expr) (vs : List Value) (setting : Setting)
    (st reached : State) (evaluated : ev.all args setting st = .ok vs reached) :
    (∀ first texts, texts.length = vs.length →
      ev.evalExpr (.format (Template.written first texts) args) setting st =
        .ok (.str (Template.filled first (vs.map reached.heap.display) texts)) reached) ∧
    ∀ template, (∃ halt last, ev.evalExpr (.format template args) setting st = .error halt last) ↔
      placeholders template.toList ≠ vs.length := by
  constructor
  · intro first texts matching
    have counted : 0 + (vs.map reached.heap.display).length = (vs.map reached.heap.display).length := Nat.zero_add _
    have matching' : texts.length = (vs.map reached.heap.display).length := by rwa [List.length_map]
    have done := fill_written matching' counted first
    rw [evalExpr_format evaluated, format_filled done]
    rfl
  · intro template
    rw [evalExpr_format evaluated, lift_fails_iff, format_fails_iff, List.length_map]

theorem format_fills_between_braces :
    let ev := evaluators 1
    let args := [Expr.literal (.str "x")]
    let setting : Setting := { dialect := .minirust, empty := .unit }
    ev.all args setting {} = .ok [.str "x"] {} ∧
      ev.evalExpr (.format "\x7b\x7b\x7b\x7d\x7d\x7d" args) setting {} = .ok (.str "\x7bx\x7d") {} ∧
      ∃ halt last, ev.evalExpr (.format "\x7b\x7b\x7d\x7d" args) setting {} = .error halt last := by
  intro ev args setting
  have evaluated : ev.all args setting {} = .ok [.str "x"] {} := rfl
  obtain ⟨fills, fails⟩ := format_fills_exactly ev args _ setting {} {} evaluated
  exact ⟨evaluated, fills "\x7b" ["\x7d"] rfl, (fails _).mpr (by decide)⟩

end ScriptKernel.MiniRust
