import LoxLang.Machine

/-!
# Evaluation

Statements are executed for their effect, expressions are evaluated for their value.  A statement
completes normally or with a `return`, which ends the blocks and loops around it up to the
innermost call.

Every step takes an allowance `n`, one less for each step nested inside it and for each round of a
loop; more of it never changes an outcome that was reached.  The current frame and the call depth
are put back at the end of every block and call, whatever the outcome.
-/

namespace LoxLang

/-- How a statement ends. -/
inductive Completion where
  | normal
  | returned (value : Value)
  deriving Inhabited

/-- The value of a call whose body ends like this. -/
def Completion.value : Completion → Value
  | .normal => .nil
  | .returned value => value

namespace Machine

/-- The value of the operation that an operator stands for, or a runtime error at the operator. -/
def applied (m : Machine) (operator : Token) : Option (Except OperandError Value) → Outcome Value
  | some (.ok value) => .done value m
  | some (.error e) => m.raise operator (.operands e)
  | none => .fault .unknownOperator m

/-- A method bound to its receiver. -/
def bindMethod (m : Machine) (method : Closure) (receiver : Value) : Nat × Machine :=
  let (bound, store) := m.store.bind method receiver
  (bound, { m with store })

/-- A property of a value. -/
def getProperty (m : Machine) (name : Token) : Value → Outcome Value
  | .object ref =>
    match m.store.property? ref name.lexeme with
    | some (.field value) => .done value m
    | some (.method closure) =>
      let (bound, m) := m.bindMethod closure (.object ref)
      .done (.function bound) m
    | none => m.raise name (.undefinedProperty name.lexeme)
  | _ => m.raise name .propertyOfNonInstance

/-- A method of the superclass, bound to the current receiver.  The frame of `this` lies directly
inside the frame of `super`. -/
def superMethod (m : Machine) (id : Nat) (method : Token) : Outcome Value :=
  match m.table[id]? with
  | none => .fault .unresolvedSuper m
  | some distance =>
    match m.store.getAt m.frame distance "super" with
    | .error e => .fault (.frame e) m
    | .ok superclass =>
      match m.store.getAt m.frame ((distance : Int) - 1) "this" with
      | .error e => .fault (.frame e) m
      | .ok receiver =>
        match superclass with
        | .classValue ref =>
          match m.store.method? ref method.lexeme with
          | some closure =>
            let (bound, m) := m.bindMethod closure receiver
            .done (.function bound) m
          | none => m.raise method (.undefinedProperty method.lexeme)
        | _ => .fault .superNotClass m

/-- The class that a class declaration extends, if it names one. -/
def evalSuperclass (m : Machine) : Option Superclass → Outcome (Option Nat)
  | none => .done none m
  | some s =>
    (m.lookup s.id s.name).bind fun value m =>
    match value with
    | .classValue ref => .done (some ref) m
    | _ => m.raise s.name .superclassNotClass

/-- Makes the closures of methods in a frame; of two methods with one name the last counts. -/
def addMethods (frame : Nat) (methods : List Function) (s : Store) : Bindings Nat × Store :=
  methods.foldl
    (fun (table, s) decl =>
      let (ref, s) := s.addClosure ⟨decl, frame, decl.name.lexeme = initializerName⟩
      (table.put decl.name.lexeme ref, s))
    (.empty, s)

/-- The frame that the methods of a class are declared in: one that binds `super` if there is a
superclass, and the current one otherwise. -/
def methodFrame (m : Machine) : Option Nat → Nat × Machine
  | none => (m.frame, m)
  | some ref =>
    let (frame, store) := m.store.push (Bindings.empty.put "super" (.classValue ref)) m.frame
    (frame, { m with store })

/-- Declares a class in the current frame.  Its name is bound before its methods are made. -/
def declareClass (m : Machine) (name : Token) (base : Option Nat) (methods : List Function) :
    Machine :=
  let m := m.define name.lexeme .nil
  let (frame, m) := m.methodFrame base
  let (table, store) := addMethods frame methods m.store
  let (ref, store) := store.addClass ⟨name.lexeme, base, table⟩
  { m with store }.define name.lexeme (.classValue ref)

/-- Declares a function in the current frame. -/
def declareFunction (m : Machine) (decl : Function) : Machine :=
  let (ref, store) := m.store.addClosure ⟨decl, m.frame, false⟩
  { m with store }.define decl.name.lexeme (.function ref)

/-- Enters a new frame with these bindings. -/
def enter (m : Machine) (bindings : Bindings Value) (parent : Nat) : Machine :=
  let (frame, store) := m.store.push bindings parent
  { m with frame, store }

/-- Goes back to a frame. -/
def leaveTo (frame : Nat) (m : Machine) : Machine := { m with frame }

def beginCall (m : Machine) : Machine := { m with depth := m.depth + 1 }

def endCall (m : Machine) : Machine := { m with depth := m.depth - 1 }

end Machine

mutual

def execute : Nat → Stmt → Machine → Outcome Completion
  | 0, _, _ => .exhausted
  | n + 1, s, m =>
    match s with
    | .malformed => .fault .malformedStatement m
    | .expression _ value => (evaluate n value m).bind fun _ m => .done .normal m
    | .print _ value => (evaluate n value m).bind fun v m => .done .normal (m.print v)
    | .declare _ name none => .done .normal (m.define name.lexeme .nil)
    | .declare _ name (some value) =>
      (evaluate n value m).bind fun v m => .done .normal (m.define name.lexeme v)
    | .block _ body => executeIn n body .empty m.frame m
    | .conditional _ cond thenBranch elseBranch =>
      (evaluate n cond m).bind fun v m =>
      if v.truthy then execute n thenBranch m
      else
        match elseBranch with
        | none => .done .normal m
        | some branch => execute n branch m
    | .loop _ cond body => repeatWhile n cond body m
    | .function decl => .done .normal (m.declareFunction decl)
    | .ret _ _ none => .done (.returned .nil) m
    | .ret _ _ (some value) => (evaluate n value m).bind fun v m => .done (.returned v) m
    | .classDecl _ name superclass methods =>
      (m.evalSuperclass superclass).bind fun base m =>
      .done .normal (m.declareClass name base methods)

/-- Executes statements in a new frame inside `parent`, and goes back to the frame before. -/
def executeIn : Nat → List Stmt → Bindings Value → Nat → Machine → Outcome Completion
  | 0, _, _, _, _ => .exhausted
  | n + 1, body, bindings, parent, m =>
    let before := m.frame
    (executeAll n body (m.enter bindings parent)).ending (Machine.leaveTo before)

/-- Executes statements one after the other, up to the first that returns. -/
def executeAll : Nat → List Stmt → Machine → Outcome Completion
  | 0, _, _ => .exhausted
  | n + 1, body, m =>
    match body with
    | [] => .done .normal m
    | s :: ss =>
      (execute n s m).bind fun completion m =>
      match completion with
      | .normal => executeAll n ss m
      | .returned value => .done (.returned value) m

/-- Executes a body as long as a condition holds. -/
def repeatWhile : Nat → Expr → Stmt → Machine → Outcome Completion
  | 0, _, _, _ => .exhausted
  | n + 1, cond, body, m =>
    (evaluate n cond m).bind fun v m =>
    if v.truthy then
      (execute n body m).bind fun completion m =>
      match completion with
      | .normal => repeatWhile n cond body m
      | .returned value => .done (.returned value) m
    else .done .normal m

def evaluate : Nat → Expr → Machine → Outcome Value
  | 0, _, _ => .exhausted
  | n + 1, e, m =>
    match e with
    | .literal _ value => .done value.value m
    | .grouping _ inner => evaluate n inner m
    | .unary _ operator operand =>
      (evaluate n operand m).bind fun v m => m.applied operator (operator.applyUnary? v)
    | .binary _ left operator right =>
      (evaluate n left m).bind fun a m =>
      (evaluate n right m).bind fun b m => m.applied operator (operator.applyBinary? a b)
    | .logical _ left operator right =>
      (evaluate n left m).bind fun a m =>
      if operator.settles a then .done a m else evaluate n right m
    | .var id name => m.lookup id name
    | .assign id name value => (evaluate n value m).bind fun v m => m.assign id name v
    | .call _ callee paren args =>
      (evaluate n callee m).bind fun f m =>
      (evaluateAll n args m).bind fun values m => call n f values paren m
    | .get _ object name => (evaluate n object m).bind fun v m => m.getProperty name v
    | .set _ object name value =>
      (evaluate n object m).bind fun target m =>
      match target with
      | .object ref =>
        (evaluate n value m).bind fun v m =>
        .done v { m with store := m.store.setField ref name.lexeme v }
      | _ => m.raise name .fieldOfNonInstance
    | .this id keyword => m.lookup id keyword
    | .super id _ method => m.superMethod id method

/-- Evaluates expressions from left to right. -/
def evaluateAll : Nat → List Expr → Machine → Outcome (List Value)
  | 0, _, _ => .exhausted
  | n + 1, es, m =>
    match es with
    | [] => .done [] m
    | e :: es =>
      (evaluate n e m).bind fun v m =>
      (evaluateAll n es m).bind fun vs m => .done (v :: vs) m

/-- Calls a value.  It must be callable, take as many arguments, and not be one call too many.  That
the stack of the host may run out before the limit is reached, which ends a call with the same error,
is left out: it depends on the host alone. -/
def call : Nat → Value → List Value → Token → Machine → Outcome Value
  | 0, _, _, _, _ => .exhausted
  | n + 1, callee, args, paren, m =>
    match m.store.arity? callee with
    | none => m.raise paren .notCallable
    | some arity =>
      if args.length ≠ arity then m.raise paren (.wrongArity arity args.length)
      else if m.maxDepth ≤ m.depth then m.raise paren .stackOverflow
      else (invoke n callee args m.beginCall).ending Machine.endCall

/-- Runs a callable value.  A class makes an instance and runs its initializer on it. -/
def invoke : Nat → Value → List Value → Machine → Outcome Value
  | 0, _, _, _ => .exhausted
  | n + 1, callee, args, m =>
    match callee with
    | .native ref =>
      match m.store.natives[ref]? with
      | some .clock => .done (.num (m.clock 0)) m.tick
      | none => .fault .danglingReference m
    | .function ref => applyClosure n ref args m
    | .classValue ref =>
      let (inst, store) := m.store.addInstance ref
      let m := { m with store }
      match m.store.method? ref initializerName with
      | none => .done (.object inst) m
      | some init =>
        let (bound, m) := m.bindMethod init (.object inst)
        (applyClosure n bound args m).bind fun _ m => .done (.object inst) m
    | _ => .fault .danglingReference m

/-- Runs the body of a function with its parameters bound.  An initializer gives its receiver. -/
def applyClosure : Nat → Nat → List Value → Machine → Outcome Value
  | 0, _, _, _ => .exhausted
  | n + 1, ref, args, m =>
    match m.store.closures[ref]? with
    | none => .fault .danglingReference m
    | some closure =>
      let bindings := Bindings.ofList ((closure.decl.params.map (·.lexeme)).zip args)
      (executeIn n closure.decl.body bindings closure.frame m).bind fun completion m =>
      if closure.isInitializer then
        match m.store.get closure.frame "this" with
        | .ok receiver => .done receiver m
        | .error e => .fault (.frame e) m
      else .done completion.value m

end

/-- Executes the statements of a program in order. -/
def executeProgram (n : Nat) : List Stmt → Machine → Outcome Unit
  | [], m => .done () m
  | s :: ss, m => (execute n s m).bind fun _ m => executeProgram n ss m

end LoxLang
