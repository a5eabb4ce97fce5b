/-
# The unlowering map (`rewrite/expr/unlower.rs`)

`unlower` walks the HIR of a body and records, for MIR (sub)locations, the
HIR expression each was lowered from. For every expression it looks up the
MIR locations that carry exactly the expression's span, drops bookkeeping
statements, and classifies the rest by the expression's shape; a record
goes into a `BTreeMap` only if its key is still vacant (a conflicting
origin is logged and the first one kept).

The HIR is a tree of `Expr`s whose children are listed in the order
`intravisit::walk_expr` visits them (the right-hand side of an assignment
before its left-hand side). The span index and `tcx.hir()` are not under
`src/`: `lookupExact` follows the spec (the locations whose instruction
carries exactly the span, in body order) and the body's root expressions
are a parameter. `SubLoc::Rvalue`, which `unlower` writes and `mir_op`
does not declare, is read as `AssignRvalue`. The logging, the
`#[derive]` check (a flag) and the no-op hooks `visit_expr_rvalue` and
`visit_expr_operand` are not modelled beyond what they return.

The second half states the map the spec describes, a first-writer-wins
fold of per-expression record sets over the pre-order of the HIR, and
proves that `unlower` computes it.

Key definitions: `Expr`, `recordDesc`, `visitExprInner`, `visitExprs`,
`unlower`, `unlowerRecords`, `firstWins`.
Key theorems: `visitExprInner_eq`, `visitExpr_eq`, `unlower_eq_firstWins`.
-/
import C2RustRewrite.MirOpRun

namespace C2RustRewrite
namespace Unlower

open Mir

/-- `hir::Expr`, as `unlower` reads it: its `HirId`, its span and its kind,
with the sub-expressions in the order `intravisit::walk_expr` visits them. -/
inductive Expr
  /-- `ExprKind::Assign(lhs, rhs, _)`; the walk visits `rhs` first. -/
  | assign (hirId : ℕ) (span : Span) (lhs rhs : Expr)
  /-- `ExprKind::Call(func, args)`. -/
  | call (hirId : ℕ) (span : Span) (func : Expr) (args : List Expr)
  /-- `ExprKind::MethodCall(_, args, _)`, the receiver first among `args`. -/
  | methodCall (hirId : ℕ) (span : Span) (args : List Expr)
  /-- Any other kind, with the sub-expressions the walk visits. -/
  | other (hirId : ℕ) (span : Span) (children : List Expr)

/-- `ex.hir_id`. -/
def Expr.hirId : Expr → ℕ
  | .assign h .. | .call h .. | .methodCall h .. | .other h .. => h

/-- `ex.span`. -/
def Expr.span : Expr → Span
  | .assign _ s .. | .call _ s .. | .methodCall _ s .. | .other _ s .. => s

/-- `MirOriginDesc`. -/
inductive MirOriginDesc
  /-- This MIR represents the whole HIR expression. -/
  | expr
  /-- This MIR stores the result of the HIR expression into a MIR local. -/
  | storeIntoLocal
  deriving DecidableEq, Repr

/-- `MirOrigin`. -/
structure MirOrigin where
  hirId : ℕ
  span : Span
  desc : MirOriginDesc
  deriving DecidableEq, Repr

/-- The origin an expression gives a record. -/
def Expr.origin (ex : Expr) (desc : MirOriginDesc) : MirOrigin := ⟨ex.hirId, ex.span, desc⟩

/-- A key of the unlowering map. -/
abbrev OriginKey := Location × List SubLoc

/-- The `BTreeMap<(Location, Vec<SubLoc>), MirOrigin>`, as the origin at each key. -/
abbrev OriginMap := OriginKey → Option MirOrigin

section Visitor

variable (body : Body)

/-- Modelled from the spec: `span_index.lookup_exact(span)`, the locations
whose instruction carries exactly `span`, in body order. -/
def lookupExact (sp : Span) : List Location :=
  (body.instrs.filter fun p => p.2.span == sp).map Prod.fst

/-- `record_desc`: insert into a vacant entry; an occupied one keeps its
origin (a different one is only logged as a conflict). -/
def recordDesc (m : OriginMap) (loc : Location) (subLoc : List SubLoc) (ex : Expr)
    (desc : MirOriginDesc) : OriginMap :=
  match m (loc, subLoc) with
  | none => Function.update m (loc, subLoc) (some (ex.origin desc))
  | some _ => m

/-- `record`: `record_desc` with `MirOriginDesc::Expr`. -/
def record (m : OriginMap) (loc : Location) (subLoc : List SubLoc) (ex : Expr) : OriginMap :=
  recordDesc m loc subLoc ex .expr

/-- `get_last_assign`. -/
def getLastAssign (locs : List Location) : Option (Location × Place × Rvalue) := do
  let loc ← locs.getLast?
  match body.stmtAt loc with
  | some (.stmt ⟨.assign pl rv, _⟩) => some (loc, pl, rv)
  | _ => none

/-- `get_sole_assign`. -/
def getSoleAssign (locs : List Location) : Option (Location × Place × Rvalue) :=
  if locs.length ≠ 1 then none else getLastAssign body locs

/-- `get_last_call`. -/
def getLastCall (locs : List Location) : Option (Location × Place × Operand × List Operand) := do
  let loc ← locs.getLast?
  match body.stmtAt loc with
  | some (.term ⟨.call func args destination, _⟩) => some (loc, destination, func, args)
  | _ => none

/-- `should_ignore_statement`. -/
def shouldIgnoreStatement (loc : Location) : Bool :=
  match body.stmtAt loc with
  | some (.stmt ⟨.fakeRead, _⟩) | some (.stmt ⟨.storageLive _, _⟩)
  | some (.stmt ⟨.storageDead _, _⟩) | some (.stmt ⟨.nop, _⟩) => true
  | _ => false

/-- `is_var`. -/
def isVar (pl : Place) : Bool := pl.projection.length == 0

/-- The loop over a call's HIR arguments zipped with its MIR arguments,
the `i`-th under `[Rvalue, CallArg(i)]`. -/
def recordCallArgs (loc : Location) : OriginMap → List (Expr × Operand) → ℕ → OriginMap
  | m, [], _ => m
  | m, (arg, _) :: rest, i => recordCallArgs loc (record m loc [.assignRvalue, .callArg i] arg) rest (i + 1)

/-- `visit_expr_inner`. -/
def visitExprInner (m : OriginMap) (ex : Expr) : OriginMap :=
  let locs := (lookupExact body ex.span).filter fun loc => !shouldIgnoreStatement body loc
  if locs.length = 0 then m
  else
    match ex with
    | .assign _ _ pl rv =>
      match getSoleAssign body locs with
      | some (loc, _, _) => record (record (record m loc [] ex) loc [.dest] pl) loc [.assignRvalue] rv
      | none => m
    | .call _ _ _ args | .methodCall _ _ args =>
      match getLastCall body locs with
      | some (loc, pl, _, mirArgs) =>
        if isVar pl then
          recordCallArgs loc (record (recordDesc m loc [] ex .storeIntoLocal) loc [.assignRvalue] ex)
            (args.zip mirArgs) 0
        else m
      | none => m
    | .other .. =>
      match getLastAssign body locs with
      | some (loc, pl, _) =>
        if isVar pl then record (recordDesc m loc [] ex .storeIntoLocal) loc [.assignRvalue] ex
        else m
      | none => m

mutual

/-- `visit_expr`: the expression, then `intravisit::walk_expr` over its children. -/
def visitExpr : OriginMap → Expr → OriginMap
  | m, ex@(.assign _ _ lhs rhs) => visitExpr (visitExpr (visitExprInner body m ex) rhs) lhs
  | m, ex@(.call _ _ func args) => visitExprs (visitExpr (visitExprInner body m ex) func) args
  | m, ex@(.methodCall _ _ args) => visitExprs (visitExprInner body m ex) args
  | m, ex@(.other _ _ children) => visitExprs (visitExprInner body m ex) children

/-- `walk_list!(visitor, visit_expr, exprs)`. -/
def visitExprs : OriginMap → List Expr → OriginMap
  | m, [] => m
  | m, ex :: exs => visitExprs (visitExpr m ex) exs

end

/-- `unlower`, over the expressions `visit_body` reaches: nothing for a body
whose parent is `#[automatically_derived]`. -/
def unlower (parentDerived : Bool) (hir : List Expr) : OriginMap :=
  if parentDerived then fun _ => none else visitExprs body (fun _ => none) hir

end Visitor

/-! ### The map the spec describes

Each expression contributes a set of records, all at one location, or none;
the map keeps, at each key, the first record for it in the pre-order walk. -/

mutual

/-- The pre-order of an expression: the expression, then its children's. -/
def Expr.preorder : Expr → List Expr
  | ex@(.assign _ _ lhs rhs) => ex :: (rhs.preorder ++ lhs.preorder)
  | ex@(.call _ _ func args) => ex :: (func.preorder ++ preorderList args)
  | ex@(.methodCall _ _ args) => ex :: preorderList args
  | ex@(.other _ _ children) => ex :: preorderList children

/-- The pre-order of a list of expressions, one after another. -/
def preorderList : List Expr → List Expr
  | [] => []
  | ex :: exs => ex.preorder ++ preorderList exs

end

/-- The statement kinds that carry no semantic content: `FakeRead`,
`StorageLive`, `StorageDead` and `Nop`. -/
def Instr.isBookkeeping : Instr → Bool
  | .stmt ⟨.fakeRead, _⟩ | .stmt ⟨.storageLive _, _⟩ | .stmt ⟨.storageDead _, _⟩
  | .stmt ⟨.nop, _⟩ => true
  | _ => false

/-- The locations carrying exactly the expression's span, bookkeeping
statements left out. -/
def semanticLocs (body : Body) (ex : Expr) : List Location :=
  (lookupExact body ex.span).filter fun loc => !((body.stmtAt loc).any Instr.isBookkeeping)

/-- An assignment's records: it needs exactly one location, an `Assign`
statement, and records itself, its destination and its right-hand side. -/
def assignRecords (body : Body) (ex lhs rhs : Expr) : List (OriginKey × MirOrigin) :=
  match semanticLocs body ex with
  | [loc] =>
    match body.stmtAt loc with
    | some (.stmt ⟨.assign _ _, _⟩) =>
      [((loc, []), ex.origin .expr), ((loc, [.dest]), lhs.origin .expr),
        ((loc, [.assignRvalue]), rhs.origin .expr)]
    | _ => []
  | _ => []

/-- A call's records: its last location must be a `Call` into a bare local;
it records the call as stored into the local and as the right-hand side,
and the `i`-th argument for every `i` below both argument counts. -/
def callRecords (body : Body) (ex : Expr) (args : List Expr) : List (OriginKey × MirOrigin) :=
  match (semanticLocs body ex).getLast? with
  | some loc =>
    match body.stmtAt loc with
    | some (.term ⟨.call _ mirArgs ⟨_, []⟩, _⟩) =>
      [((loc, []), ex.origin .storeIntoLocal), ((loc, [.assignRvalue]), ex.origin .expr)] ++
        (args.take mirArgs.length).enum.map fun p =>
          ((loc, [.assignRvalue, .callArg p.1]), p.2.origin .expr)
    | _ => []
  | none => []

/-- Any other expression's records: its last location must be an `Assign`
into a bare local; it records the expression as stored into the local and
as the right-hand side. -/
def otherRecords (body : Body) (ex : Expr) : List (OriginKey × MirOrigin) :=
  match (semanticLocs body ex).getLast? with
  | some loc =>
    match body.stmtAt loc with
    | some (.stmt ⟨.assign ⟨_, []⟩ _, _⟩) =>
      [((loc, []), ex.origin .storeIntoLocal), ((loc, [.assignRvalue]), ex.origin .expr)]
    | _ => []
  | none => []

/-- The records an expression contributes, by its shape. -/
def unlowerRecords (body : Body) : Expr → List (OriginKey × MirOrigin)
  | ex@(.assign _ _ lhs rhs) => assignRecords body ex lhs rhs
  | ex@(.call _ _ _ args) | ex@(.methodCall _ _ args) => callRecords body ex args
  | ex@(.other ..) => otherRecords body ex

/-- First writer wins: each key holds the origin of the first record for it. -/
def firstWins (recs : List (OriginKey × MirOrigin)) : OriginMap :=
  fun k => (recs.find? (·.1 == k)).map Prod.snd

/-- `m`, with the keys it leaves vacant filled first-writer-wins from `recs`. -/
def layer (m : OriginMap) (recs : List (OriginKey × MirOrigin)) : OriginMap :=
  fun k => (m k).or (firstWins recs k)

@[simp]
theorem layer_nil (m : OriginMap) : layer m [] = m := by
  funext k
  simp [layer, firstWins, Option.or_none]

theorem layer_layer (m : OriginMap) (a b : List (OriginKey × MirOrigin)) :
    layer (layer m a) b = layer m (a ++ b) := by
  funext k
  simp [layer, firstWins, List.find?_append, Option.map_or', Option.or_assoc]

/-- One `record_desc` is a layer of one record. -/
theorem recordDesc_eq (m : OriginMap) (loc : Location) (subLoc : List SubLoc) (ex : Expr)
    (desc : MirOriginDesc) :
    recordDesc m loc subLoc ex desc = layer m [((loc, subLoc), ex.origin desc)] := by
  funext k
  unfold recordDesc layer firstWins
  by_cases hk : (loc, subLoc) = k
  · subst hk
    cases h : m (loc, subLoc) <;> simp [h]
  · have hk' : k ≠ (loc, subLoc) := Ne.symm hk
    cases h : m (loc, subLoc) <;> simp [hk, hk', Function.update_noteq]

theorem recordCallArgs_eq (loc : Location) (m : OriginMap) (args : List Expr)
    (mirArgs : List Operand) (i : ℕ) :
    recordCallArgs loc m (args.zip mirArgs) i =
      layer m ((args.take mirArgs.length).enumFrom i |>.map fun p =>
        ((loc, [.assignRvalue, .callArg p.1]), p.2.origin .expr)) := by
  induction args generalizing m mirArgs i with
  | nil => simp [recordCallArgs]
  | cons a args ih =>
    cases mirArgs with
    | nil => simp [recordCallArgs]
    | cons o mirArgs =>
      show recordCallArgs loc (record m loc _ a) (args.zip mirArgs) (i + 1) = _
      rw [ih, record, recordDesc_eq, layer_layer]
      rfl

section Step

variable (body : Body)

theorem ignored_iff (loc : Location) :
    shouldIgnoreStatement body loc = (body.stmtAt loc).any Instr.isBookkeeping := by
  unfold shouldIgnoreStatement
  rcases body.stmtAt loc with _ | ⟨⟨kind, span⟩⟩ | t <;> try rfl
  cases kind <;> rfl

theorem assign_step (m : OriginMap) (ex lhs rhs : Expr) :
    (if (semanticLocs body ex).length = 0 then m
      else match getSoleAssign body (semanticLocs body ex) with
        | some (loc, _, _) => record (record (record m loc [] ex) loc [.dest] lhs) loc [.assignRvalue] rhs
        | none => m) =
      layer m (assignRecords body ex lhs rhs) := by
  unfold assignRecords getSoleAssign getLastAssign
  rcases semanticLocs body ex with _ | ⟨loc, _ | ⟨l, ls⟩⟩
  · simp
  · cases hst : body.stmtAt loc with
    | none => simp [hst]
    | some ins =>
      rcases ins with ⟨kind, span⟩ | t
      · cases kind <;> simp [hst, record, recordDesc_eq, layer_layer]
      · simp [hst]
  · simp

theorem call_step (m : OriginMap) (ex : Expr) (args : List Expr) :
    (if (semanticLocs body ex).length = 0 then m
      else match getLastCall body (semanticLocs body ex) with
        | some (loc, pl, _, mirArgs) =>
          if isVar pl then
            recordCallArgs loc (record (recordDesc m loc [] ex .storeIntoLocal) loc [.assignRvalue] ex)
              (args.zip mirArgs) 0
          else m
        | none => m) =
      layer m (callRecords body ex args) := by
  unfold callRecords getLastCall
  cases hl : (semanticLocs body ex).getLast? with
  | none => simp [List.getLast?_eq_none_iff.1 hl]
  | some loc =>
    have hne : (semanticLocs body ex).length ≠ 0 := fun h0 => by
      simp [List.length_eq_zero.1 h0] at hl
    simp only [hne, if_false, Option.some_bind]
    cases hst : body.stmtAt loc with
    | none => simp [hst]
    | some ins =>
      rcases ins with st | ⟨kind, span⟩
      · simp [hst]
      · cases kind
        case call func mirArgs destination =>
          obtain ⟨l, _ | ⟨e, es⟩⟩ := destination
          · simp [hst, isVar, recordCallArgs_eq, record, recordDesc_eq, layer_layer, List.enum]
          · simp [hst, isVar]
        all_goals simp [hst]

theorem other_step (m : OriginMap) (ex : Expr) :
    (if (semanticLocs body ex).length = 0 then m
      else match getLastAssign body (semanticLocs body ex) with
        | some (loc, pl, _) =>
          if isVar pl then record (recordDesc m loc [] ex .storeIntoLocal) loc [.assignRvalue] ex
          else m
        | none => m) =
      layer m (otherRecords body ex) := by
  unfold otherRecords getLastAssign
  cases hl : (semanticLocs body ex).getLast? with
  | none => simp [List.getLast?_eq_none_iff.1 hl]
  | some loc =>
    have hne : (semanticLocs body ex).length ≠ 0 := fun h0 => by
      simp [List.length_eq_zero.1 h0] at hl
    simp only [hne, if_false, Option.some_bind]
    cases hst : body.stmtAt loc with
    | none => simp [hst]
    | some ins =>
      rcases ins with ⟨kind, span⟩ | t
      · cases kind
        case assign pl rv =>
          obtain ⟨l, _ | ⟨e, es⟩⟩ := pl
          · simp [hst, isVar, record, recordDesc_eq, layer_layer]
          · simp [hst, isVar]
        all_goals simp [hst]
      · simp [hst]

/-- **The step lemma.** One expression's visit is a layer of its records. -/
theorem visitExprInner_eq (m : OriginMap) (ex : Expr) :
    visitExprInner body m ex = layer m (unlowerRecords body ex) := by
  have hlocs : ((lookupExact body ex.span).filter fun loc => !shouldIgnoreStatement body loc) =
      semanticLocs body ex := by
    simp only [semanticLocs, ignored_iff]
  unfold visitExprInner
  rw [hlocs]
  cases ex
  · exact assign_step body m _ _ _
  · exact call_step body m _ _
  · exact call_step body m _ _
  · exact other_step body m _

/-! ### The walk -/

mutual

/-- **The walk lemma.** Visiting an expression layers the records of its
pre-order, in that order. -/
theorem visitExpr_eq : ∀ (m : OriginMap) (ex : Expr),
    visitExpr body m ex = layer m (ex.preorder.flatMap (unlowerRecords body))
  | m, .assign h s lhs rhs => by
    rw [visitExpr, visitExpr_eq _ lhs, visitExpr_eq _ rhs, visitExprInner_eq]
    simp only [Expr.preorder, List.flatMap_cons, List.flatMap_append, layer_layer, List.append_assoc]
  | m, .call h s func args => by
    rw [visitExpr, visitExprs_eq _ args, visitExpr_eq _ func, visitExprInner_eq]
    simp only [Expr.preorder, List.flatMap_cons, List.flatMap_append, layer_layer, List.append_assoc]
  | m, .methodCall h s args => by
    rw [visitExpr, visitExprs_eq _ args, visitExprInner_eq]
    simp only [Expr.preorder, List.flatMap_cons, layer_layer]
  | m, .other h s children => by
    rw [visitExpr, visitExprs_eq _ children, visitExprInner_eq]
    simp only [Expr.preorder, List.flatMap_cons, layer_layer]

/-- Visiting a list of expressions layers the records of their pre-orders. -/
theorem visitExprs_eq : ∀ (m : OriginMap) (exs : List Expr),
    visitExprs body m exs = layer m ((preorderList exs).flatMap (unlowerRecords body))
  | m, [] => by simp [visitExprs, preorderList]
  | m, ex :: exs => by
    rw [visitExprs, visitExprs_eq _ exs, visitExpr_eq _ ex]
    simp only [preorderList, List.flatMap_append, layer_layer]

end

end Step

/-- **The unlowering map.** For a body not derived by `#[derive]`, `unlower`
keeps, at each key, the origin of the first record for it among the
per-expression records, taken over the pre-order walk of the HIR. -/
theorem unlower_eq_firstWins (body : Body) (hir : List Expr) :
    unlower body false hir = firstWins ((preorderList hir).flatMap (unlowerRecords body)) := by
  funext k
  simp [unlower, visitExprs_eq, layer]

end Unlower

end C2RustRewrite
