import ScriptKernel.Machine.Eval

/-!
Loading. Every declaration of a program gets a label of its own, under which
the function is found when it is called; the same declaration run twice is the
same function.
-/

namespace ScriptKernel

mutual

def Stmt.link : Stmt → Array Function → Stmt × Array Function
  | .block body, code =>
    let (body, code) := linkAll body code
    (.block body, code)
  | .cond test yes no, code =>
    let (yes, code) := linkAll yes code
    let (no, code) := linkAll no code
    (.cond test yes no, code)
  | .whileLoop test body negated, code =>
    let (body, code) := linkAll body code
    (.whileLoop test body negated, code)
  | .endless body, code =>
    let (body, code) := linkAll body code
    (.endless body, code)
  | .forEach name items body, code =>
    let (body, code) := linkAll body code
    (.forEach name items body, code)
  | .declare _ name params body, code =>
    let (body, code) := linkAll body code
    (.declare code.size name params body, code.push ⟨name, params, body⟩)
  | s, code => (s, code)

def linkAll : List Stmt → Array Function → List Stmt × Array Function
  | [], code => ([], code)
  | s :: rest, code =>
    let (s, code) := s.link code
    let (rest, code) := linkAll rest code
    (s :: rest, code)

end

/-- A machine with its setting between two runs. -/
structure Machine where
  setting : Setting
  state : State
  /-- The number of host functions made so far. -/
  natives : Nat := 1

namespace Machine

def load (m : Machine) (program : List Stmt) : List Stmt × Machine :=
  let (program, code) := linkAll program m.setting.code
  (program, { m with setting := { m.setting with code := code } })

def function (m : Machine) (name : String) (params : List String) (body : List Stmt) :
    Value × Machine :=
  let (body, m) := m.load body
  let label := m.setting.code.size
  (.function label name params.length,
    { m with setting := { m.setting with code := m.setting.code.push ⟨name, params, body⟩ } })

def native (m : Machine) (name : String) (arity : Int) : Value × Machine :=
  (.native m.natives name arity .collect, { m with natives := m.natives + 1 })

def array (m : Machine) (items : List Value) : Value × Machine :=
  let (heap, v) := m.state.heap.alloc items.toArray
  (v, { m with state := { m.state with heap := heap } })

def run {α : Type} (m : Machine) (step : Run α) : Except Halt α × Machine :=
  match step m.setting m.state with
  | .ok a state => (.ok a, { m with state := state })
  | .error h state => (.error h, { m with state := state })

def console (m : Machine) : Console := m.state.console

def clearConsole (m : Machine) : Machine :=
  { m with state := { m.state with console := { m.state.console with out := "", err := "" } } }

end Machine

end ScriptKernel
