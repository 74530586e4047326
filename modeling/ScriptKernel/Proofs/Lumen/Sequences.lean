import ScriptKernel.Proofs.Machine.ScopeDiscipline
import ScriptKernel.Proofs.Number.Values

/-!
Strings, arrays and ranges as sequences. A loop over given items makes a round
for each of them in order, until a round ends the loop, and nothing that a round
does to the machine has a say in which items follow. The length of a string or
an array, the access to its elements and the loops over them all count the same
elements: its characters or its items, as these were when the loop started.
Between the fifty-third powers of two every whole number is a number, so a step
of one is exact there: a loop over a range makes as many rounds as the range is
long, and meets the numbers found by indexing. Beyond them a step of one is lost.
-/

namespace ScriptKernel

theorem Scopes.find?_set_push (name : String) (v : Value) (s : Scopes) : (set name v s.push).find? name = some v := by
  simp [set, push, find?, findIn, Scope.set, Scope.find?]

def State.binding (name : String) (v : Value) (st : State) : State :=
  { st with scopes := Scopes.set name v st.scopes.push }

def State.leftTo (depth : Nat) (st : State) : State :=
  { st with scopes := st.scopes.unwind depth }

namespace Evaluators

variable (ev : Evaluators) (name : String) (body : List Stmt) (setting : Setting)

/-- Rounds for the items, one after the other. In each the name stands for the
item, the body runs there, and it neither breaks off, returns nor fails. -/
inductive Rounds : List Value → State → State → Prop
  | none (st : State) : Rounds [] st st
  | next {v : Value} {vs : List Value} {c : Control} {st mid last : State}
      (binds : (st.binding name v).scopes.find? name = some v)
      (ran : ev.sequence body setting (st.binding name v) = .ok c mid) (goesOn : c = .normal ∨ c = .continuing)
      (rest : Rounds vs (mid.leftTo st.scopes.depth) last) : Rounds (v :: vs) st last

/-- What a loop comes to when the body ends it, back among so many scopes. -/
def endedBy (depth : Nat) : EStateM.Result Halt State Control → Option (EStateM.Result Halt State Control)
  | .ok .breaking st => some (.ok .normal (st.leftTo depth))
  | .ok (.returning v) st => some (.ok (.returning v) (st.leftTo depth))
  | .error h st => some (.error h (st.leftTo depth))
  | _ => none

/-- A loop runs over the items: it makes a round for each of them, or for those
before the item where the body ends it. -/
def RunsOver (items : List Value) (st : State) (outcome : EStateM.Result Halt State Control) : Prop :=
  (∃ last, ev.Rounds name body setting items st last ∧ outcome = .ok .normal last) ∨
    ∃ done v later mid, items = done ++ v :: later ∧ ev.Rounds name body setting done st mid ∧
      (mid.binding name v).scopes.find? name = some v ∧
      endedBy mid.scopes.depth (ev.sequence body setting (mid.binding name v)) = some outcome

variable {ev name body setting} {v : Value} {vs : List Value} {c : Control} {st mid : State}
  {outcome : EStateM.Result Halt State Control}

theorem RunsOver.ended (ends : endedBy st.scopes.depth (ev.sequence body setting (st.binding name v)) = some outcome) :
    ev.RunsOver name body setting (v :: vs) st outcome :=
  Or.inr ⟨[], v, vs, st, rfl, .none st, Scopes.find?_set_push name v st.scopes, ends⟩

theorem RunsOver.next (ran : ev.sequence body setting (st.binding name v) = .ok c mid)
    (goesOn : c = .normal ∨ c = .continuing)
    (rest : ev.RunsOver name body setting vs (mid.leftTo st.scopes.depth) outcome) :
    ev.RunsOver name body setting (v :: vs) st outcome := by
  have binds := Scopes.find?_set_push name v st.scopes
  obtain ⟨last, rounds, rfl⟩ | ⟨done, w, later, reached, rfl, rounds, bound, ends⟩ := rest
  · exact Or.inl ⟨last, .next binds ran goesOn rounds, rfl⟩
  · exact Or.inr ⟨v :: done, w, later, reached, rfl, .next binds ran goesOn rounds, bound, ends⟩

theorem round_ok (ran : ev.sequence body setting (st.binding name v) = .ok c mid) :
    ev.round name v body setting st = .ok c (mid.leftTo st.scopes.depth) := by
  rw [State.binding] at ran
  simp only [round, Run.inScope, ran]
  rfl

theorem round_error {h : Halt} (ran : ev.sequence body setting (st.binding name v) = .error h mid) :
    ev.round name v body setting st = .error h (mid.leftTo st.scopes.depth) := by
  rw [State.binding] at ran
  simp only [round, Run.inScope, ran]
  rfl

theorem forItems_runsOver (items : List Value) (st : State) :
    ev.RunsOver name body setting items st (ev.forItems name body items setting st) := by
  induction items generalizing st with
  | nil => exact Or.inl ⟨st, .none st, rfl⟩
  | cons v vs ih =>
    rw [forItems]
    cases ran : ev.sequence body setting (st.binding name v) with
    | error h mid =>
      rw [Run.bind_error _ (round_error ran)]
      exact .ended (by rw [ran, endedBy])
    | ok c mid =>
      rw [Run.bind_ok _ (round_ok ran)]
      cases c with
      | normal => exact .next ran (Or.inl rfl) (ih _)
      | continuing => exact .next ran (Or.inr rfl) (ih _)
      | breaking => exact .ended (by rw [ran]; rfl)
      | returning w => exact .ended (by rw [ran]; rfl)

end Evaluators

namespace Lumen

open Binary64 (value?)

theorem position_number {v : Float} {count i : Nat} (few : count < 2 ^ 31) :
    position (.number v) count = .ok i ↔ value? v = some (i : ℚ) ∧ i < count := by
  have integer (n : Int) : value? v = some (n : ℚ) ↔ Binary64.toInt? v = some n := Binary64.toInt?_eq_some_iff.symm
  have natural : value? v = some (i : ℚ) ↔ Binary64.toInt? v = some (i : Int) := integer i
  rw [natural]
  simp only [position, Value.asNumber, toIndex?, bind, Except.bind]
  cases Binary64.toInt? v with
  | none => simp
  | some n =>
    rw [Option.map_some, Option.some_inj]
    dsimp only [Binary64.clamp32]
    split
    next outside =>
      simp only [reduceCtorEq, false_iff]
      omega
    next inside =>
      rw [Except.ok.injEq]
      omega

theorem at_position {v : Float} {count : Nat} (few : count < 2 ^ 31) (f : Nat → Except RuntimeFault Value) (y : Value) :
    (position (.number v) count >>= f) = .ok y ↔ ∃ k : Nat, value? v = some (k : ℚ) ∧ k < count ∧ f k = .ok y := by
  constructor
  · intro given
    cases found : position (.number v) count with
    | error fault =>
      rw [found] at given
      cases given
    | ok k =>
      rw [found] at given
      obtain ⟨worth, below⟩ := (position_number few).1 found
      exact ⟨k, worth, below, given⟩
  · rintro ⟨k, worth, below, given⟩
    rw [(position_number few).2 ⟨worth, below⟩]
    exact given

def elements? (heap : Heap) : Value → Option (List Value)
  | .string s => some (s.toList.map fun c => .string (String.singleton c))
  | .array cell => some (heap.items cell).toList
  | _ => none

variable {heap : Heap} {x : Value} {items : List Value}

theorem length_elements (elements : elements? heap x = some items) :
    length heap x = .ok (.number (Binary64.ofInt items.length)) := by
  cases x with
  | string s =>
    cases elements
    rw [length, List.length_map, String.length_toList]
  | array cell =>
    cases elements
    rw [length, Array.length_toList]
  | _ => cases elements

theorem index_elements (elements : elements? heap x = some items) (few : items.length < 2 ^ 31) (v : Float) (y : Value) :
    index heap x (.number v) = .ok y ↔ ∃ k : Nat, value? v = some (k : ℚ) ∧ items[k]? = some y := by
  cases x with
  | string s =>
    cases elements
    rw [List.length_map] at few
    refine (at_position few _ y).trans (exists_congr fun k => and_congr_right fun _ => ?_)
    rw [List.getElem?_map, Option.map_eq_some_iff, Except.ok.injEq]
    constructor
    · rintro ⟨below, rfl⟩
      exact ⟨s.toList[k], List.getElem?_eq_getElem below, by rw [List.getElem?_eq_getElem below, String.singleton_eq_ofList]; rfl⟩
    · rintro ⟨c, found, rfl⟩
      obtain ⟨below, -⟩ := List.getElem?_eq_some_iff.1 found
      exact ⟨below, by rw [found, String.singleton_eq_ofList]; rfl⟩
  | array cell =>
    cases elements
    rw [Array.length_toList] at few
    refine (at_position few _ y).trans (exists_congr fun k => and_congr_right fun _ => ?_)
    rw [Array.getElem?_toList, Except.ok.injEq]
    constructor
    · rintro ⟨below, rfl⟩
      rw [Array.getElem?_eq_getElem below, Option.getD_some]
    · intro found
      obtain ⟨below, -⟩ := Array.getElem?_eq_some_iff.1 found
      exact ⟨below, by rw [found, Option.getD_some]⟩
  | _ => cases elements

theorem course_elements (elements : elements? heap x = some items) : course heap x = .ok (.items items) := by
  cases x with
  | string s =>
    cases elements
    rfl
  | array cell =>
    cases elements
    rfl
  | _ => cases elements

theorem join_characters (s : String) : String.join (s.toList.map String.singleton) = s := by
  rw [← String.toList_inj, String.toList_join, List.flatMap_map]
  simp

/-- The length of a string or array, the access to its elements and the loops
over it count the same elements, those of the heap that the loop found. -/
theorem sequence_elements_agree (ev : Evaluators) (setting : Setting) (elements : elements? heap x = some items) :
    length heap x = .ok (.number (Binary64.ofInt items.length)) ∧
      (items.length < 2 ^ 31 → value? (Binary64.ofInt items.length) = some (items.length : ℚ) ∧
        ∀ v y, index heap x (.number v) = .ok y ↔ ∃ k : Nat, value? v = some (k : ℚ) ∧ items[k]? = some y) ∧
      (∀ name expr body fuel st first, ev.expr expr setting st = .ok x first → first.heap = heap →
        ev.RunsOver name body setting items first (ev.evalStmt fuel (.forEach name expr body) setting st)) ∧
      ∀ s, x = .string s → ∃ pieces, items = pieces.map .string ∧ String.join pieces = s := by
  refine ⟨length_elements elements, fun few => ⟨?_, index_elements elements few⟩, ?_, ?_⟩
  · exact Binary64.value?_ofInt (few.le.trans (by norm_num))
  · intro name expr body fuel st first evaluated same
    have items_read : Run.read (fun heap => course heap x) setting first = .ok (.items items) first := by
      rw [Run.read, same, course_elements elements, Run.lift]
    change ev.RunsOver name body setting items first (ev.forEach name expr body fuel setting st)
    rw [Evaluators.forEach, Run.bind_ok _ evaluated, Run.bind_ok _ items_read]
    exact Evaluators.forItems_runsOver items first
  · rintro s rfl
    cases elements
    exact ⟨s.toList.map String.singleton, (List.map_map ..).symm, join_characters s⟩

theorem sequence_elements_agree_growing :
    let setting : Setting := { dialect := .lumen, empty := .none }
    let heap : Heap := ⟨#[#[.bool true, .bool false]]⟩
    let st : State := { scopes := { globals := [("a", .array 0)] }, heap := heap }
    elements? heap (.array 0) = some [.bool true, .bool false] ∧
      index heap (.array 0) (.number (Binary64.ofInt 1)) = .ok (.bool false) ∧
      (evaluators 3).RunsOver "v" [.push (.var "a") (.var "v")] setting [.bool true, .bool false] st
        ((evaluators 3).evalStmt 3 (.forEach "v" (.var "a") [.push (.var "a") (.var "v")]) setting st) := by
  intro setting heap st
  have elements : elements? heap (.array 0) = some [.bool true, .bool false] := rfl
  obtain ⟨-, access, loops, -⟩ := sequence_elements_agree (evaluators 3) setting elements
  refine ⟨elements, ((access (by decide)).2 _ _).2 ⟨1, ?_, rfl⟩, loops "v" (.var "a") _ 3 st st rfl rfl⟩
  exact Binary64.value?_ofInt (by decide)

theorem value?_zero : value? 0 = some ((0 : Int) : ℚ) :=
  Binary64.toInt?_eq_some_iff.1 (by decide +kernel)

theorem value?_one : value? 1 = some ((1 : Int) : ℚ) :=
  Binary64.toInt?_eq_some_iff.1 (by decide +kernel)

def steps (start : Float) : Nat → List Float
  | 0 => []
  | n + 1 => start :: steps (start + 1) n

theorem steps_length (start : Float) (n : Nat) : (steps start n).length = n := by
  induction n generalizing start with
  | zero => rfl
  | succ n ih => rw [steps, List.length_cons, ih]

variable {start stop : Float} {a b : Int}

theorem value?_step (first : value? start = some (a : ℚ)) (least : -2 ^ 53 ≤ a) (most : a + 1 ≤ 2 ^ 53) :
    value? (start + 1) = some ((a + 1 : Int) : ℚ) := by
  have representable := Binary64.representable_whole (n := a + 1) (by omega) most
  rw [Int.cast_add] at representable ⊢
  exact Binary64.value?_add first value?_one representable

theorem value?_steps {n : Nat} (first : value? start = some (a : ℚ)) (least : -2 ^ 53 ≤ a) (most : a + n ≤ 2 ^ 53)
    {k : Nat} {x : Float} (met : (steps start n)[k]? = some x) : value? x = some ((a + k : Int) : ℚ) := by
  induction n generalizing start a k with
  | zero => cases met
  | succ n ih =>
    cases k with
    | zero =>
      cases met
      simpa using first
    | succ k =>
      have next := value?_step first least (by omega)
      have later := ih next (by omega) (by omega) met
      rw [later]
      congr 2
      omega

theorem forSteps_eq_forItems (ev : Evaluators) (name : String) (body : List Stmt) {n : Nat}
    (first : value? start = some (a : ℚ)) (last : value? stop = some ((a + n : Int) : ℚ))
    (inside : n = 0 ∨ -2 ^ 53 ≤ a ∧ a + n ≤ 2 ^ 53) {fuel : Nat} (enough : n < fuel) :
    ev.forSteps name body stop fuel start = ev.forItems name body ((steps start n).map .number) := by
  induction n generalizing start a fuel with
  | zero =>
    obtain ⟨fuel, rfl⟩ := Nat.exists_eq_add_of_lt enough
    have reached : stop ≤ start := (Binary64.le_iff_value last first).2 (by simp)
    rw [Nat.zero_add, Evaluators.forSteps, if_pos reached]
    rfl
  | succ n ih =>
    obtain ⟨least, most⟩ := inside.resolve_left n.succ_ne_zero
    obtain ⟨fuel, rfl⟩ : ∃ rest, fuel = rest + 1 := ⟨fuel - 1, by omega⟩
    have before : ¬stop ≤ start := by
      rw [Binary64.le_iff_value last first, not_le, Int.cast_lt]
      omega
    have next := value?_step first least (by omega)
    have last' : value? stop = some ((a + 1 + n : Int) : ℚ) := by
      rw [last]
      congr 2
      omega
    rw [Evaluators.forSteps, if_neg before, ih next last' (Or.inr (by omega)) (by omega)]
    rfl

theorem rangeLength_whole (first : value? start = some (a : ℚ)) (last : value? stop = some (b : ℚ)) (ordered : a ≤ b)
    (few : b - a < 2 ^ 31) : rangeLength start stop = b - a := by
  have distance : value? (stop - start) = some ((b - a : Int) : ℚ) := by
    have representable := Binary64.representable_whole (n := b - a) (by omega) (by omega)
    rw [Int.cast_sub] at representable ⊢
    exact Binary64.value?_sub last first representable
  have whole := Binary64.toInt?_eq_some_iff.2 distance
  rw [rangeLength]
  simp only [Binary64.ceil_of_whole distance, Binary64.lt_iff_value value?_zero distance, whole, Int.cast_lt]
  split
  · rw [Binary64.clamp32]
    omega
  · omega

theorem index_range (heap : Heap) {n : Nat} (long : rangeLength start stop = n) (few : n < 2 ^ 31) {v : Float} {k : Nat}
    (place : value? v = some (k : ℚ)) (below : k < n) :
    index heap (.range start stop) (.number v) = .ok (.number (start + Binary64.ofInt k)) := by
  rw [index, long]
  exact (at_position few _ _).2 ⟨k, place, below, rfl⟩

theorem compare_equal_numbers (heap : Heap) {x y : Float} {q : ℚ} (left : value? x = some q) (right : value? y = some q) :
    compare heap .eq (.number x) (.number y) = .ok (.bool true) := by
  have same : (x == y) = true := (Binary64.beq_iff_value left right).2 rfl
  change (do let equal ← heap.looseEqual (.number x) (.number y); .ok (.bool equal) : Except RuntimeFault Value) = _
  have kinds : ¬(Value.number x).kind ≠ (Value.number y).kind := not_not.2 rfl
  have equal : heap.strictEqual (.number x) (.number y) = .ok (x == y) := rfl
  rw [Heap.looseEqual, if_neg kinds, equal, same]
  rfl

/-- A loop over a range whose bounds are whole, and not beyond the fifty-third
powers of two unless the range is empty, ends after as many rounds as the range
is long, and meets what indexing finds. -/
theorem range_loop_ends (ev : Evaluators) (setting : Setting) (heap : Heap) (first : value? start = some (a : ℚ))
    (last : value? stop = some (b : ℚ)) (ordered : a ≤ b) (few : b - a < 2 ^ 31) (inside : a = b ∨ -2 ^ 53 ≤ a ∧ b ≤ 2 ^ 53) :
    ∃ items : List Float, (items.length : Int) = b - a ∧
      length heap (.range start stop) = .ok (.number (Binary64.ofInt (b - a))) ∧
      (∀ (k : Nat) x, items[k]? = some x → value? x = some ((a + k : Int) : ℚ) ∧
        ∀ v, value? v = some (k : ℚ) → ∃ y, index heap (.range start stop) (.number v) = .ok y ∧
          compare heap .eq (.number x) y = .ok (.bool true)) ∧
      ∀ name expr body fuel st reached, ev.expr expr setting st = .ok (.range start stop) reached → b - a < (fuel : Nat) →
        ev.RunsOver name body setting (items.map .number) reached
          (ev.evalStmt fuel (.forEach name expr body) setting st) := by
  obtain ⟨n, rfl⟩ := Int.le.dest ordered
  have long : rangeLength start stop = n := (rangeLength_whole first last ordered few).trans (by omega)
  have inside' : n = 0 ∨ -2 ^ 53 ≤ a ∧ a + n ≤ 2 ^ 53 := inside.imp_left (by omega)
  refine ⟨steps start n, ?_, ?_, ?_, ?_⟩
  · rw [steps_length]
    omega
  · rw [length, long, add_sub_cancel_left]
  · intro k x met
    obtain ⟨below, -⟩ := List.getElem?_eq_some_iff.1 met
    rw [steps_length] at below
    obtain ⟨least, most⟩ := inside'.resolve_left (by omega)
    have worth := value?_steps first least most met
    refine ⟨worth, fun v place => ⟨_, index_range heap long (by omega) place below, ?_⟩⟩
    have representable := Binary64.representable_whole (n := a + k) (by omega) (by omega)
    rw [Int.cast_add, Int.cast_natCast] at representable worth
    exact compare_equal_numbers heap worth (Binary64.value?_add first (Binary64.value?_ofInt (by omega)) representable)
  · intro name expr body fuel st reached evaluated enough
    have course_read : Run.read (fun heap => course heap (.range start stop)) setting reached = .ok (.steps start stop) reached :=
      rfl
    change ev.RunsOver name body setting _ reached (ev.forEach name expr body fuel setting st)
    rw [Evaluators.forEach, Run.bind_ok _ evaluated, Run.bind_ok _ course_read]
    change ev.RunsOver name body setting _ reached (ev.forSteps name body stop fuel start setting reached)
    rw [forSteps_eq_forItems ev name body first last inside' (by omega)]
    exact Evaluators.forItems_runsOver _ reached

theorem range_loop_ends_highest :
    let setting : Setting := { dialect := .lumen, empty := .none }
    let start := Binary64.ofInt 9007199254740990
    let stop := Binary64.ofInt 9007199254740992
    let bounds := Expr.range (.literal (.number start)) (.literal (.number stop))
    ∃ items : List Float, items.length = 2 ∧
      (evaluators 2).RunsOver "v" [.continueLoop] setting (items.map .number) {}
        ((evaluators 2).evalStmt 3 (.forEach "v" bounds [.continueLoop]) setting {}) := by
  intro setting start stop bounds
  have first : value? start = some ((9007199254740990 : Nat) : ℚ) := Binary64.value?_ofInt (by decide)
  have last : value? stop = some ((9007199254740992 : Nat) : ℚ) := Binary64.value?_ofInt (by decide)
  obtain ⟨items, long, -, -, loops⟩ := range_loop_ends (a := 9007199254740990) (b := 9007199254740992) (evaluators 2) setting {}
    (by exact_mod_cast first) (by exact_mod_cast last) (by decide) (by decide) (Or.inr (by decide))
  exact ⟨items, by omega, loops "v" bounds [.continueLoop] 3 {} {} rfl (by decide)⟩

/-- A loop over the three whole numbers from two before the negative of the
fifty-third power of two makes two rounds: the second number cannot be told from
the third. -/
theorem range_loop_skips :
    let start := Binary64.ofInt (-9007199254740994)
    let stop := Binary64.ofInt (-9007199254740991)
    value? start = some ((-9007199254740994 : Int) : ℚ) ∧ value? stop = some ((-9007199254740991 : Int) : ℚ) ∧
      rangeLength start stop = 3 ∧
      (∀ (ev : Evaluators) (name : String) (body : List Stmt) (fuel : Nat),
        ev.forSteps name body stop (fuel + 3) start =
          ev.forItems name body [.number start, .number (Binary64.ofInt (-9007199254740992))]) := by
  intro start stop
  refine ⟨Binary64.toInt?_eq_some_iff.1 (by decide +kernel), Binary64.toInt?_eq_some_iff.1 (by decide +kernel),
    by decide +kernel, fun ev name body fuel => ?_⟩
  have enter : ¬stop ≤ start := by decide +kernel
  have step : start + 1 = Binary64.ofInt (-9007199254740992) := by decide +kernel
  have again : ¬stop ≤ Binary64.ofInt (-9007199254740992) := by decide +kernel
  have leave : stop ≤ Binary64.ofInt (-9007199254740992) + 1 := by decide +kernel
  rw [Evaluators.forSteps, if_neg enter, step, Evaluators.forSteps, if_neg again, Evaluators.forSteps, if_pos leave]
  rfl

theorem forSteps_stuck (ev : Evaluators) (name : String) (body : List Stmt) (setting : Setting) (lost : start + 1 = start)
    (before : ¬stop ≤ start) (goesOn : ∀ st, ∃ mid, ev.round name (.number start) body setting st = .ok .normal mid)
    (fuel : Nat) (st : State) : ∃ last, ev.forSteps name body stop fuel start setting st = .error .outOfFuel last := by
  induction fuel generalizing st with
  | zero => exact ⟨st, rfl⟩
  | succ fuel ih =>
    obtain ⟨mid, round⟩ := goesOn st
    obtain ⟨last, stuck⟩ := ih mid
    refine ⟨last, ?_⟩
    rw [Evaluators.forSteps, if_neg before, Run.bind_ok _ round, lost]
    exact stuck

example : Binary64.ofInt 9007199254740992 + 1 = Binary64.ofInt 9007199254740992 := by
  decide +kernel

end Lumen

end ScriptKernel
