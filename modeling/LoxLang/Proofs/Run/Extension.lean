import LoxLang.Proofs.Run.World

/-!
# More programs

When another program is run on the same machine, more references are filed and more frames are made,
but nothing that was said of the programs before becomes wrong.

Principal result: `Heap.extends`.
-/

namespace LoxLang

/-- A pairing that knows more programs, with names spelled in the same way. -/
structure Pairing.Extends (K K' : Pairing) : Prop where
  spelling : K'.toSpelling = K.toSpelling
  refers : ∀ {site name'}, K.Refers site name' → K'.Refers site name'
  made : ∀ {f c}, K.Made f c → K'.Made f c

section

variable {K K' : Pairing}

theorem Pairing.Extends.declares (h : K.Extends K') {p : Surroundings} {name name' : Token}
    (hd : K.Declares p name name') : K'.Declares p name name' :=
  ⟨h.spelling ▸ hd.isName, hd.ne_super, h.spelling ▸ hd.spelled⟩

mutual

theorem AlikeExpr.extends (h : K.Extends K') {p : Surroundings} : ∀ {e e' : Expr},
    AlikeExpr K p e e' → AlikeExpr K' p e e'
  | _, _, .literal => .literal
  | _, _, .grouping he => .grouping (he.extends h)
  | _, _, .unary ht he => .unary ht (he.extends h)
  | _, _, .binary hl ht hr => .binary (hl.extends h) ht (hr.extends h)
  | _, _, .logical hl ht hr => .logical (hl.extends h) ht (hr.extends h)
  | _, _, .var hr hread => .var (h.refers hr) hread
  | _, _, .assign hr hwrite hne he => .assign (h.refers hr) hwrite hne (he.extends h)
  | _, _, .call hcallee ht hargs => .call (hcallee.extends h) ht (hargs.extends h)
  | _, _, .get he hname => .get (he.extends h) hname
  | _, _, .set he hname hv => .set (he.extends h) hname (hv.extends h)
  | _, _, .this hr hread => .this (h.refers hr) hread
  | _, _, .super hr hsuper hin hm => .super (h.refers hr) hsuper hin hm

theorem AlikeArgs.extends (h : K.Extends K') {p : Surroundings} : ∀ {es es' : List Expr},
    AlikeArgs K p es es' → AlikeArgs K' p es es'
  | _, _, .nil => .nil
  | _, _, .cons he hes => .cons (he.extends h) (hes.extends h)

end

theorem AlikeSuperclass.extends (h : K.Extends K') {p : Surroundings} {name : Token}
    {superclass superclass' : Option Superclass}
    (ha : AlikeSuperclass K p name superclass superclass') :
    AlikeSuperclass K' p name superclass superclass' := by
  cases ha with
  | none => exact .none
  | some hid hr hread hne => exact .some hid (h.refers hr) hread hne

mutual

theorem AlikeStmt.extends (h : K.Extends K') : ∀ {p : Surroundings} {s s' : Stmt},
    AlikeStmt K p s s' → AlikeStmt K' p s s'
  | _, _, _, .expression he => .expression (he.extends h)
  | _, _, _, .print he => .print (he.extends h)
  | _, _, _, .declare hd => .declare (h.declares hd)
  | _, _, _, .declareValue hd he => .declareValue (h.declares hd) (he.extends h)
  | _, _, _, .block hbody => .block (hbody.extends h)
  | _, _, _, .ifThen hc hs hd => .ifThen (hc.extends h) (hs.extends h) hd
  | _, _, _, .ifElse hc hs hd ht hd' =>
    .ifElse (hc.extends h) (hs.extends h) hd (ht.extends h) hd'
  | _, _, _, .loop hc hs hd => .loop (hc.extends h) (hs.extends h) hd
  | _, _, _, .function hd hf => .function (h.declares hd) (hf.extends h)
  | _, _, _, .ret => .ret
  | _, _, _, .retValue he => .retValue (he.extends h)
  | _, _, _, .classDecl hd hname hsuper hms =>
    .classDecl (h.declares hd) hname (hsuper.extends h) (hms.extends h)

theorem AlikeBody.extends (h : K.Extends K') : ∀ {p : Surroundings} {ss ss' : List Stmt},
    AlikeBody K p ss ss' → AlikeBody K' p ss ss'
  | _, _, _, .nil => .nil
  | _, _, _, .cons hs hss => .cons (hs.extends h) (hss.extends h)

theorem AlikeFunction.extends (h : K.Extends K') : ∀ {p : Surroundings} {f f' : Function},
    AlikeFunction K p f f' → AlikeFunction K' p f f'
  | _, _, _, .mk hname hnames hparams hbody =>
    .mk hname (h.spelling ▸ hnames) (h.spelling ▸ hparams) (hbody.extends h)

theorem AlikeMethods.extends (h : K.Extends K') : ∀ {p : Surroundings} {fs fs' : List Function},
    AlikeMethods K p fs fs' → AlikeMethods K' p fs fs'
  | _, _, _, .nil => .nil
  | _, _, _, .cons hf hfs => .cons (hf.extends h) (hfs.extends h)

end

variable {W : World}

theorem OkValue.extends (h : K.Extends K') {v : Value} (hv : OkValue K W v) : OkValue K' W v := by
  cases v with
  | function ref =>
    obtain ⟨c, c', p, hc, hc', hready⟩ := hv
    exact ⟨c, c', p, hc, hc', { hready with alike := hready.alike.extends h }⟩
  | native ref => exact hv
  | _ => trivial

theorem OkMethod.extends (h : K.Extends K') {ref : Nat} (hm : OkMethod K W ref) :
    OkMethod K' W ref := by
  obtain ⟨c, c', id, methods, p, hc, hc', hunbound⟩ := hm
  exact ⟨c, c', id, methods, p, hc, hc', { hunbound with alike := hunbound.alike.extends h }⟩

/-- **The invariant of the store holds on when another program is known.** -/
theorem Heap.extends (h : K.Extends K') (hheap : Heap K W) : Heap K' W :=
  { hheap with
    locals := by rw [h.spelling]; exact hheap.locals
    made := fun f c hl => h.made (hheap.made f c hl)
    values := fun f name v hv => (hheap.values f name v hv).extends h
    fields := fun i inst name v hi hv => (hheap.fields i inst name v hi hv).extends h
    methods := fun i info name ref hi hr => (hheap.methods i info name ref hi hr).extends h }

end

end LoxLang
