import ScriptKernel.Proofs.Lumen.Contained
import ScriptKernel.Proofs.Machine.ArgumentKeys
import ScriptKernel.Proofs.Machine.PairedEvaluation

/-!
Keeping results of pure functions is invisible as long as they are left alone. A
Lumen program whose functions are pure, and which changes nothing that a call
has given back, has the same outcome and the same output with the cache as
without it. The debug forms of what is passed to functions, which are the keys of
the cache, tell data, the functions of a program and the native one from each
other, but for the negative zero, as long as no two functions have one name and
a name ends where its form says.
-/

namespace ScriptKernel

namespace Lumen

/-- Whether the debug form of a value other than an array tells it from all
others. -/
def tells (setting : Setting) : Value → Bool
  | .number x => x ≠ -0.0
  | .range start stop => start ≠ -0.0 ∧ stop ≠ -0.0
  | .bool _ | .string _ | .none => true
  | .function label name arity => setting.code[label]?.any fun f => f.name = name ∧ f.params.length = arity
  | v => Language.lumen.globals.any (·.2 = v)

theorem negative_zero_untold (heap : Heap) :
    Memo.key heap [.number (-0.0)] = Memo.key heap [.number 0] ∧
      arith .pow (.number (-0.0)) (.number (-1)) ≠ arith .pow (.number 0) (.number (-1)) := by
  have unsigned : Decimal.render (-0.0) = Decimal.render 0 := by decide +kernel
  refine ⟨?_, by decide +kernel⟩
  simp only [Memo.key, List.map_cons, List.map_nil, Heap.debug, Heap.walkDepth, Heap.debugAt, unsigned]

inductive Told (setting : Setting) : Value → Prop
  | datum {v : Value} (datum : Datum v) : Told setting v
  | function {label : Nat} {f : Function} (known : setting.code[label]? = some f) :
      Told setting (.function label f.name f.params.length)
  | length : Told setting (.native 0 "len" 1 .length)

variable {setting : Setting} {v : Value}

theorem told_of_tells (passes : tells setting v) : Told setting v := by
  cases v with
  | number x => exact .datum (.number (of_decide_eq_true passes))
  | range start stop =>
    obtain ⟨usual, usual'⟩ := of_decide_eq_true passes
    exact .datum (.range usual usual')
  | bool b => exact .datum (.bool b)
  | string s => exact .datum (.string s)
  | none => exact .datum .none
  | function label name arity =>
    rw [tells, Option.any_eq_true] at passes
    obtain ⟨f, known, same⟩ := passes
    obtain ⟨rfl, rfl⟩ := of_decide_eq_true same
    exact .function known
  | native module name arity action =>
    simp [tells, Language.lumen] at passes
    obtain ⟨rfl, rfl, rfl, rfl⟩ := passes
    exact .length
  | _ => simp [tells, Language.lumen] at passes

theorem form_function (label : Nat) (name : String) (arity : Nat) : (Value.function label name arity).form =
    "Function(".toList ++ (name.toList ++ ('/' :: ((Text.decimal arity).toList ++ [')']))) := by
  simp [Value.form, Heap.debugAt]

theorem form_length : (Value.native 0 "len" 1 .length).form = "Native(len)".toList := by
  simp [Value.form, Heap.debugAt]

theorem Datum.apart_function (datum : Datum v) (label : Nat) (name : String) (arity : Nat) {behind rest : List Char} :
    v.form ++ behind ≠ (Value.function label name arity).form ++ rest := by
  cases datum <;> simp [form_number, form_bool, form_string, form_none, form_range, form_function]

theorem Datum.apart_length (datum : Datum v) {behind rest : List Char} :
    v.form ++ behind ≠ (Value.native 0 "len" 1 .length).form ++ rest := by
  cases datum <;> simp [form_number, form_bool, form_string, form_none, form_range, form_length]

theorem Told.append_inj (distinct : ∀ (label other : Nat) f g, setting.code[label]? = some f →
      setting.code[other]? = some g → f.name = g.name → label = other)
    (free : ∀ (label : Nat) f, setting.code[label]? = some f → '/' ∉ f.name.toList) {w : Value} (told : Told setting v)
    (other : Told setting w) {behind rest : List Char} (same : v.form ++ behind = w.form ++ rest) :
    v = w ∧ behind = rest := by
  cases told with
  | datum datum =>
    cases other with
    | datum datum' => exact datum.append_inj datum' same
    | function => exact (datum.apart_function _ _ _ same).elim
    | length => exact (datum.apart_length same).elim
  | @function label f known =>
    cases other with
    | datum datum => exact (datum.apart_function _ _ _ same.symm).elim
    | @function label' g known' =>
      simp only [form_function, List.append_assoc, List.cons_append, List.nil_append, List.append_right_inj] at same
      obtain ⟨names, same⟩ := Heap.append_mark_inj (free label f known) (free label' g known') same
      obtain ⟨-, rests⟩ := Heap.append_mark_inj (Heap.close_notMem_decimal _) (Heap.close_notMem_decimal _) same
      obtain rfl := distinct label label' f g known known' (String.toList_inj.1 names)
      obtain rfl := Option.some.inj (known.symm.trans known')
      exact ⟨rfl, rests⟩
    | length => simp [form_function, form_length] at same
  | length =>
    cases other with
    | datum datum => exact (datum.apart_length same.symm).elim
    | function => simp [form_function, form_length] at same
    | length => exact ⟨rfl, List.append_cancel_left same⟩

theorem toldApart_tells (distinct : ∀ (label other : Nat) f g, setting.code[label]? = some f →
      setting.code[other]? = some g → f.name = g.name → label = other)
    (free : ∀ (label : Nat) f, setting.code[label]? = some f → '/' ∉ f.name.toList) :
    ToldApart (tells setting · = true) where
  flat passes := by
    cases told_of_tells passes with
    | datum datum => exact toldApart_datum.flat datum
    | function | length => nofun
  starts passes := by
    cases told_of_tells passes with
    | datum datum => exact toldApart_datum.starts datum
    | function => exact ⟨'F', _, form_function _ _ _, by decide, by decide⟩
    | length => exact ⟨'N', _, form_length, by decide, by decide⟩
  apart passes passes' same := (told_of_tells passes).append_inj distinct free (told_of_tells passes') same

end Lumen

/-- The care under which kept results do not show: on whose arrays are whose the
caller decides. -/
abbrev Care.lumen (made : Nat → Nat) (stays : Nat → Array Value → Bool) : Care :=
  ⟨made, stays, Lumen.tells⟩

/-- The outcomes are the same to whoever looks at them: the same failure, or
values that show the same. -/
abbrev SameOutcome : Except Halt Value × Machine → Except Halt Value × Machine → Prop :=
  SameUpTo Heap.Alike

namespace Trial

abbrev ofProgram (s : Session) (program : List Stmt) (care : Care) : Trial where
  mode := .lockstep
  setting := { s.machine.setting with code := (linkAll program #[]).2 }
  functions := (declaredFunctions program).map (·.name)
  care := care

variable {s : Session} {program : List Stmt}

theorem name_inj_of_nodup {fs : List Function} (distinct : (fs.map (·.name)).Nodup) {label other : Nat} {f g : Function}
    (known : fs[label]? = some f) (known' : fs[other]? = some g) (same : f.name = g.name) : label = other := by
  have names {i : Nat} {f : Function} (known : fs[i]? = some f) : (fs.map (·.name))[i]? = some f.name := by
    rw [List.getElem?_map, known]
    rfl
  obtain ⟨within, here⟩ := List.getElem?_eq_some_iff.1 (names known)
  obtain ⟨within', here'⟩ := List.getElem?_eq_some_iff.1 (names known')
  exact (List.Nodup.getElem_inj_iff distinct).1 (here.trans (same.trans here'.symm))

theorem fair_ofProgram {care : Care} (lumen : s.language = Language.lumen) (host : s.options.host.Blind)
    (distinct : ((declaredFunctions program).map (·.name)).Nodup)
    (free : ∀ f ∈ declaredFunctions program, isFreeName f.name)
    (contained : ∀ x ∈ program, x.containedTop ((declaredFunctions program).map (·.name)))
    (tells : care.tells = Lumen.tells) : (ofProgram s program care).Fair := by
  have listed {label : Nat} {f : Function} (known : (linkAll program #[]).2[label]? = some f) :
      (declaredFunctions program)[label]? = some f :=
    mem_declaredFunctions (fun x member => Stmt.linksAlone_contained (contained x member)) known
  refine ⟨fun label f known => ?_, ?_, host, ?_⟩
  · obtain ⟨_, member⟩ := declares_of_mem (List.mem_of_getElem? (listed known))
    exact contained _ member
  · change ∀ cell, s.language.dialect.empty ≠ .array cell
    rw [lumen]
    exact nofun
  · rw [tells]
    refine Lumen.toldApart_tells ?_ ?_
    · exact fun label other f g known known' => name_inj_of_nodup distinct (listed known) (listed known')
    · intro label f known slash
      have name := free f (List.mem_of_getElem? (listed known))
      simp only [isFreeName, Bool.and_eq_true, List.all_eq_true, decide_eq_true_eq] at name
      exact name.1 '/' slash rfl

theorem related_start (care : Care) (lumen : s.language = Language.lumen)
    (free : ∀ f ∈ declaredFunctions program, isFreeName f.name) :
    let st : State := { s.machine.state with memo := some (({} : Memo).enable false) }
    let st' : State := { s.machine.state with memo := some (({} : Memo).enable true) }
    (ofProgram s program care).Related .apart ⟨.apart, st, st', .top [] []⟩ st st' := by
  intro st st'
  have globals : s.machine.state.scopes = { globals := Language.lumen.globals } := by
    change ({ globals := s.language.globals } : Scopes) = _
    rw [lumen]
  have unbound (name : String) (function : name ∈ (declaredFunctions program).map (·.name)) :
      s.machine.state.scopes.find? name = none := by
    obtain ⟨f, member, rfl⟩ := List.mem_map.1 function
    have name := free f member
    simp only [isFreeName, Bool.and_eq_true, Bool.not_eq_true', Scope.binds, Option.isSome_eq_false_iff,
      Option.isNone_iff_eq_none] at name
    rw [globals]
    exact name.2
  have empty : ({} : Heap).Forest := Heap.forest_empty
  refine related_entered (fun _ => rfl) ⟨Pairing.fits_apart empty empty, empty, empty⟩ ?caches
    ⟨?uncached, ?bound, fun _ => ⟨rfl, rfl, rfl⟩, fun _ name function _ => unbound name function⟩ ?scopes
  case caches =>
    rintro memo ⟨⟩ _ label f ts v _ _ found
    simp [Memo.find?, Memo.enable] at found
  case uncached =>
    rintro memo ⟨⟩
    rfl
  case bound =>
    intro name function v found
    cases (unbound name function).symm.trans found
  case scopes =>
    have same : Scope.Tied .apart Language.lumen.globals Language.lumen.globals :=
      .cons ⟨rfl, .flat (by rintro cell ⟨⟩)⟩ .nil
    refine .top ?_ ?_ fun name function v found => ?_
    · rw [globals]
      exact .nil _ _
    · rw [globals]
      exact same
    · have absent := unbound name function
      rw [globals] at absent found
      cases absent.symm.trans found

end Trial

theorem careful_concurs {s : Session} (lumen : s.language = Language.lumen) (host : s.options.host.Blind)
    {program : List Stmt} (declared : openlyDeclared program) (care : Care) (tells : care.tells = Lumen.tells)
    {fuel fuel' : Nat} (enough : fuel ≤ fuel') :
    let off := s.memoizing false
    let on := s.memoizing true
    let run := off.execUnder (careful care fuel 0) off.machine program
    let kept := on.execUnder (evaluators fuel') on.machine program
    Ended run.1 → SameOutcome run kept ∧ kept.2.console = run.2.console := by
  intro off on run kept ended
  simp only [openlyDeclared, Bool.and_eq_true, decide_eq_true_eq, List.all_eq_true] at declared
  obtain ⟨⟨distinct, names⟩, contained⟩ := declared
  have free : ∀ f ∈ declaredFunctions program, isFreeName f.name := fun f member => names _ (List.mem_map_of_mem member)
  obtain ⟨-, same, loaded⟩ := linkAll_program (fun x member => Stmt.linksAlone_contained (contained x member)) #[]
  let t := Trial.ofProgram s program care
  have fair : t.Fair := Trial.fair_ofProgram lumen host distinct free contained tells
  let st : State := { s.machine.state with memo := some (({} : Memo).enable false) }
  let st' : State := { s.machine.state with memo := some (({} : Memo).enable true) }
  let site : Trial.Site := ⟨.apart, st, st', .top [] []⟩
  have leads : t.Leads .apart (site.behindAll []) (site.behindAll t.functions) Pairing.Ties
      (runTop (careful care fuel 0) s.language.policy (linkAll program #[]).1)
      (runTop (evaluators fuel') s.language.policy (linkAll program #[]).1) :=
    Trial.runTop_leads fair s.language.policy enough contained loaded (same ▸ distinct) fun _ _ => List.not_mem_nil
  have concur := leads .apart (le_refl _) st st' (Trial.related_start care lumen free)
  refine execUnder_concurs (concur.mono fun v last w last' => ?_) ended
  rintro ⟨r, -, after, tied⟩
  exact ⟨after.joins.alike tied, (after.ground.inStep rfl).2.1⟩

theorem sameRun_careful (s : Session) (program : List Stmt) (care : Care) {fuel : Nat} :
    let run := s.execUnder (careful care fuel 0) s.machine program
    run.1 ≠ .error .outOfFuel → Session.SameRun run (s.execUnder (evaluators fuel) s.machine program) := by
  intro run lasting
  have agrees := careful_agree care (s.machine.load program).2.setting fuel 0
  rcases s.execUnder_beside s.machine s.machine rfl rfl (Care.fair _) agrees with same | ⟨h, stopped, rfl⟩
  · exact ⟨same.1.symm, same.2.symm⟩
  · exact absurd stopped lasting

/-- The cache does not show where its results are left alone. A Lumen program
whose functions are pure ends with it as it does without it, if the run without
it, which never switches it on, is careful: no code changes an array that it has
not made or that a call has given back since, a call gives back no array from
before that changes later, and no negative zero is passed to a function. The host
does not tell the cells of arrays apart. -/
theorem memoization_transparent_left_alone {s : Session} (lumen : s.language = Language.lumen)
    (host : s.options.host.Blind) {program : List Stmt} (declared : openlyDeclared program) {made : Nat → Nat}
    {stays : Nat → Array Value → Bool} {fuel fuel' : Nat} (enough : fuel ≤ fuel') :
    let off := s.memoizing false
    let on := s.memoizing true
    let run := off.execUnder (evaluators fuel) off.machine program
    let kept := on.execUnder (evaluators fuel') on.machine program
    Session.SameRun (off.execUnder (careful (.lumen made stays) fuel 0) off.machine program) run → Ended run.1 →
      SameOutcome run kept ∧ kept.2.console = run.2.console := by
  intro off on run kept left ended
  obtain ⟨outcome, state⟩ := left
  obtain ⟨alike, console⟩ := careful_concurs lumen host declared (.lumen made stays) rfl enough (outcome ▸ ended)
  refine ⟨?_, console.trans (congrArg State.console state)⟩
  rw [SameOutcome, SameUpTo, ← outcome, ← state]
  exact alike

namespace KeptFlip

def body : List Stmt :=
  [.define "pair" (.array [.var "flag"]),
    .push (.var "pair") (.not (.var "flag")),
    .returnWith (some (.var "pair"))]

abbrev call : Expr :=
  .call (.var "flip") [.literal (.bool true)]

def program : List Stmt :=
  [.declare 0 "flip" ["flag"] body,
    .define "pairs" (.array [call]),
    .push (.var "pairs") call,
    .returnWith (some (.var "pairs"))]

def made (cell : Nat) : Nat :=
  if cell = 0 ∨ cell = 3 then 1 else 0

end KeptFlip

open KeptFlip in
theorem memoization_transparent_flip :
    let s : Session := ⟨Language.lumen, {}⟩
    let off := s.memoizing false
    let on := s.memoizing true
    let run := off.execUnder (evaluators 9) off.machine program
    let kept := on.execUnder (evaluators 10) on.machine program
    openlyDeclared program ∧
      Session.SameRun (off.execUnder (careful (.lumen made fun _ _ => false) 9 0) off.machine program) run ∧
      Ended run.1 ∧ SameOutcome run kept ∧ kept.2.console = run.2.console := by
  intro s off on run kept
  have declared : openlyDeclared program := by decide
  have value : (off.execUnder (careful (.lumen made fun _ _ => false) 9 0) off.machine program).1 = .ok (.array 2) := by
    decide +kernel
  have left := sameRun_careful off program (.lumen made fun _ _ => false) (by rw [value]; exact nofun)
  have ended : Ended run.1 := by
    intro h failed
    rw [← left.1, value] at failed
    cases failed
  refine ⟨declared, left, ended, ?_⟩
  exact memoization_transparent_left_alone rfl (Host.usual_blind s.options.clock) declared (Nat.le_succ 9) left ended

end ScriptKernel
