import LoxLang.Eval
import LoxLang.Proofs.Scope.Sites

/-!
# Moments of a run

A `Task` is a call of one of the functions that run a program, with everything it is given.
`Task.Calls` says which tasks a task performs directly, each with the machine that it then starts
from, and `Task.Reaches` is the closure of this.  So the tasks that are reached from a program are
the moments of its execution.

* `Task.Evaluates` — a task evaluates a node that refers to a variable.
* `Task.Activates` — a task makes a frame for a construct.
-/

namespace LoxLang

inductive Task where
  | program (n : Nat) (stmts : List Stmt) (m : Machine)
  | execute (n : Nat) (s : Stmt) (m : Machine)
  | executeIn (n : Nat) (body : List Stmt) (bindings : Bindings Value) (parent : Nat) (m : Machine)
  | executeAll (n : Nat) (body : List Stmt) (m : Machine)
  | repeatWhile (n : Nat) (cond : Expr) (body : Stmt) (m : Machine)
  | evaluate (n : Nat) (e : Expr) (m : Machine)
  | evaluateAll (n : Nat) (es : List Expr) (m : Machine)
  | call (n : Nat) (callee : Value) (args : List Value) (paren : Token) (m : Machine)
  | invoke (n : Nat) (callee : Value) (args : List Value) (m : Machine)
  | applyClosure (n : Nat) (ref : Nat) (args : List Value) (m : Machine)

namespace Task

/-- What a task performs directly. -/
inductive Calls : Task → Task → Prop where
  | first {n : Nat} {s : Stmt} {ss : List Stmt} {m : Machine} :
      Calls (.program n (s :: ss) m) (.execute n s m)
  | next {n : Nat} {s : Stmt} {ss : List Stmt} {completion : Completion} {m m₁ : Machine} :
      LoxLang.execute n s m = .done completion m₁ →
      Calls (.program n (s :: ss) m) (.program n ss m₁)
  | expression {n id : Nat} {e : Expr} {m : Machine} :
      Calls (.execute (n + 1) (.expression id e) m) (.evaluate n e m)
  | print {n id : Nat} {e : Expr} {m : Machine} :
      Calls (.execute (n + 1) (.print id e) m) (.evaluate n e m)
  | initial {n id : Nat} {name : Token} {e : Expr} {m : Machine} :
      Calls (.execute (n + 1) (.declare id name (some e)) m) (.evaluate n e m)
  | block {n id : Nat} {body : List Stmt} {m : Machine} :
      Calls (.execute (n + 1) (.block id body) m) (.executeIn n body .empty m.frame m)
  | condition {n id : Nat} {cond : Expr} {s : Stmt} {t : Option Stmt} {m : Machine} :
      Calls (.execute (n + 1) (.conditional id cond s t) m) (.evaluate n cond m)
  | thenBranch {n id : Nat} {cond : Expr} {s : Stmt} {t : Option Stmt} {v : Value}
      {m m₁ : Machine} :
      LoxLang.evaluate n cond m = .done v m₁ → v.truthy = true →
      Calls (.execute (n + 1) (.conditional id cond s t) m) (.execute n s m₁)
  | elseBranch {n id : Nat} {cond : Expr} {s t : Stmt} {v : Value} {m m₁ : Machine} :
      LoxLang.evaluate n cond m = .done v m₁ → v.truthy = false →
      Calls (.execute (n + 1) (.conditional id cond s (some t)) m) (.execute n t m₁)
  | loop {n id : Nat} {cond : Expr} {s : Stmt} {m : Machine} :
      Calls (.execute (n + 1) (.loop id cond s) m) (.repeatWhile n cond s m)
  | ret {n id : Nat} {keyword : Token} {e : Expr} {m : Machine} :
      Calls (.execute (n + 1) (.ret id keyword (some e)) m) (.evaluate n e m)
  | body {n : Nat} {body : List Stmt} {bindings : Bindings Value} {parent : Nat} {m : Machine} :
      Calls (.executeIn (n + 1) body bindings parent m)
        (.executeAll n body (m.enter bindings parent))
  | head {n : Nat} {s : Stmt} {ss : List Stmt} {m : Machine} :
      Calls (.executeAll (n + 1) (s :: ss) m) (.execute n s m)
  | tail {n : Nat} {s : Stmt} {ss : List Stmt} {m m₁ : Machine} :
      LoxLang.execute n s m = .done .normal m₁ →
      Calls (.executeAll (n + 1) (s :: ss) m) (.executeAll n ss m₁)
  | loopCondition {n : Nat} {cond : Expr} {s : Stmt} {m : Machine} :
      Calls (.repeatWhile (n + 1) cond s m) (.evaluate n cond m)
  | loopBody {n : Nat} {cond : Expr} {s : Stmt} {v : Value} {m m₁ : Machine} :
      LoxLang.evaluate n cond m = .done v m₁ → v.truthy = true →
      Calls (.repeatWhile (n + 1) cond s m) (.execute n s m₁)
  | again {n : Nat} {cond : Expr} {s : Stmt} {v : Value} {m m₁ m₂ : Machine} :
      LoxLang.evaluate n cond m = .done v m₁ → v.truthy = true →
      LoxLang.execute n s m₁ = .done .normal m₂ →
      Calls (.repeatWhile (n + 1) cond s m) (.repeatWhile n cond s m₂)
  | grouping {n id : Nat} {e : Expr} {m : Machine} :
      Calls (.evaluate (n + 1) (.grouping id e) m) (.evaluate n e m)
  | operand {n id : Nat} {t : Token} {e : Expr} {m : Machine} :
      Calls (.evaluate (n + 1) (.unary id t e) m) (.evaluate n e m)
  | left {n id : Nat} {t : Token} {a b : Expr} {m : Machine} :
      Calls (.evaluate (n + 1) (.binary id a t b) m) (.evaluate n a m)
  | right {n id : Nat} {t : Token} {a b : Expr} {v : Value} {m m₁ : Machine} :
      LoxLang.evaluate n a m = .done v m₁ →
      Calls (.evaluate (n + 1) (.binary id a t b) m) (.evaluate n b m₁)
  | logicalLeft {n id : Nat} {t : Token} {a b : Expr} {m : Machine} :
      Calls (.evaluate (n + 1) (.logical id a t b) m) (.evaluate n a m)
  | logicalRight {n id : Nat} {t : Token} {a b : Expr} {v : Value} {m m₁ : Machine} :
      LoxLang.evaluate n a m = .done v m₁ → t.settles v = false →
      Calls (.evaluate (n + 1) (.logical id a t b) m) (.evaluate n b m₁)
  | assigned {n id : Nat} {name : Token} {e : Expr} {m : Machine} :
      Calls (.evaluate (n + 1) (.assign id name e) m) (.evaluate n e m)
  | callee {n id : Nat} {f : Expr} {paren : Token} {args : List Expr} {m : Machine} :
      Calls (.evaluate (n + 1) (.call id f paren args) m) (.evaluate n f m)
  | arguments {n id : Nat} {f : Expr} {paren : Token} {args : List Expr} {v : Value}
      {m m₁ : Machine} :
      LoxLang.evaluate n f m = .done v m₁ →
      Calls (.evaluate (n + 1) (.call id f paren args) m) (.evaluateAll n args m₁)
  | call {n id : Nat} {f : Expr} {paren : Token} {args : List Expr} {v : Value}
      {vs : List Value} {m m₁ m₂ : Machine} :
      LoxLang.evaluate n f m = .done v m₁ → LoxLang.evaluateAll n args m₁ = .done vs m₂ →
      Calls (.evaluate (n + 1) (.call id f paren args) m) (.call n v vs paren m₂)
  | object {n id : Nat} {e : Expr} {name : Token} {m : Machine} :
      Calls (.evaluate (n + 1) (.get id e name) m) (.evaluate n e m)
  | target {n id : Nat} {e value : Expr} {name : Token} {m : Machine} :
      Calls (.evaluate (n + 1) (.set id e name value) m) (.evaluate n e m)
  | field {n id : Nat} {e value : Expr} {name : Token} {ref : Nat} {m m₁ : Machine} :
      LoxLang.evaluate n e m = .done (.object ref) m₁ →
      Calls (.evaluate (n + 1) (.set id e name value) m) (.evaluate n value m₁)
  | firstArgument {n : Nat} {e : Expr} {es : List Expr} {m : Machine} :
      Calls (.evaluateAll (n + 1) (e :: es) m) (.evaluate n e m)
  | nextArguments {n : Nat} {e : Expr} {es : List Expr} {v : Value} {m m₁ : Machine} :
      LoxLang.evaluate n e m = .done v m₁ →
      Calls (.evaluateAll (n + 1) (e :: es) m) (.evaluateAll n es m₁)
  | invoke {n : Nat} {callee : Value} {args : List Value} {paren : Token} {m : Machine} :
      m.store.arity? callee = some args.length → m.depth < m.maxDepth →
      Calls (.call (n + 1) callee args paren m) (.invoke n callee args m.beginCall)
  | apply {n ref : Nat} {args : List Value} {m : Machine} :
      Calls (.invoke (n + 1) (.function ref) args m) (.applyClosure n ref args m)
  | construct {n ref : Nat} {args : List Value} {init : Closure} {m : Machine} :
      m.store.method? ref initializerName = some init →
      Calls (.invoke (n + 1) (.classValue ref) args m)
        (.applyClosure n
          ({ m with store := (m.store.addInstance ref).2 }.bindMethod init
            (.object (m.store.addInstance ref).1)).1 args
          ({ m with store := (m.store.addInstance ref).2 }.bindMethod init
            (.object (m.store.addInstance ref).1)).2)
  | routine {n ref : Nat} {args : List Value} {c : Closure} {m : Machine} :
      m.store.closures[ref]? = some c →
      Calls (.applyClosure (n + 1) ref args m)
        (.executeIn n c.decl.body (.ofList ((c.decl.params.map (·.lexeme)).zip args)) c.frame m)

/-- What a task performs, directly or through other tasks. -/
inductive Reaches (t : Task) : Task → Prop where
  | refl : Reaches t t
  | step {t₁ t₂ : Task} : Reaches t t₁ → Calls t₁ t₂ → Reaches t t₂

theorem Reaches.head {t t₁ t₂ : Task} (h : Calls t t₁) (h' : Reaches t₁ t₂) : Reaches t t₂ := by
  induction h' with
  | refl => exact .step .refl h
  | step _ hcalls ih => exact .step ih hcalls

/-- A task evaluates the node with this number, which refers to this name, on a machine. -/
inductive Evaluates : Task → Use → Nat → Token → Machine → Prop where
  | var {n id : Nat} {name : Token} {m : Machine} :
      Evaluates (.evaluate (n + 1) (.var id name) m) .read id name m
  | assign {n id : Nat} {name : Token} {e : Expr} {v : Value} {m m₁ : Machine} :
      LoxLang.evaluate n e m = .done v m₁ →
      Evaluates (.evaluate (n + 1) (.assign id name e) m) .write id name m₁
  | this {n id : Nat} {keyword : Token} {m : Machine} :
      Evaluates (.evaluate (n + 1) (.this id keyword) m) .this id keyword m
  | super {n id : Nat} {keyword method : Token} {m : Machine} :
      Evaluates (.evaluate (n + 1) (.super id keyword method) m) .super id keyword m
  | superclass {n id : Nat} {name : Token} {s : Superclass} {methods : List Function}
      {m : Machine} :
      Evaluates (.execute (n + 1) (.classDecl id name (some s) methods) m) .read s.id s.name m

/-- A task makes a new frame for a construct.  The frame of `this` is made when a method of the
class is bound: by reading a property, by `super`, or by calling a class with an initializer. -/
inductive Activates : Task → Nat → Construct → Prop where
  | block {n id : Nat} {body : List Stmt} {m : Machine} :
      Activates (.execute (n + 2) (.block id body) m) m.store.frames.size (.block id)
  | routine {n ref : Nat} {args : List Value} {c : Closure} {m : Machine} :
      m.store.closures[ref]? = some c →
      Activates (.applyClosure (n + 2) ref args m) m.store.frames.size (.routine c.decl.id)
  | property {n id ref classId : Nat} {e : Expr} {name : Token} {c : Closure}
      {methods : List Function} {m m₁ : Machine} :
      LoxLang.evaluate n e m = .done (.object ref) m₁ →
      m₁.store.property? ref name.lexeme = some (.method c) → c.decl ∈ methods →
      Activates (.evaluate (n + 1) (.get id e name) m) m₁.store.frames.size
        (.receiver classId methods)
  | super {n id ref classId distance : Nat} {keyword method : Token} {receiver : Value}
      {c : Closure} {methods : List Function} {m : Machine} :
      m.table[id]? = some distance → m.store.getAt m.frame distance "super" = .ok (.classValue ref) →
      m.store.getAt m.frame ((distance : Int) - 1) "this" = .ok receiver →
      m.store.method? ref method.lexeme = some c → c.decl ∈ methods →
      Activates (.evaluate (n + 1) (.super id keyword method) m) m.store.frames.size
        (.receiver classId methods)
  | construct {n ref classId : Nat} {args : List Value} {init : Closure}
      {methods : List Function} {m : Machine} :
      m.store.method? ref initializerName = some init → init.decl ∈ methods →
      Activates (.invoke (n + 1) (.classValue ref) args m) m.store.frames.size
        (.receiver classId methods)
  | superclass {n id ref : Nat} {name : Token} {s : Superclass} {methods : List Function}
      {m m₁ : Machine} :
      m.evalSuperclass (some s) = .done (some ref) m₁ →
      Activates (.execute (n + 1) (.classDecl id name (some s) methods) m) m₁.store.frames.size
        (.base id)

end Task

end LoxLang
