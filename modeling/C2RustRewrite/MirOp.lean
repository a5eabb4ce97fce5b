/-
# The MIR rewrite annotator (`rewrite/expr/mir_op.rs`)

`ExprRewriteVisitor` walks every instruction of a body and files, under the
instruction's location, the abstract rewrites the analysis facts call for,
each tagged with the path (`SubLoc`s) from the instruction to the node it
rewrites. The path is a stack: `enter` pushes a `SubLoc`, runs the visit of
the sub-node and pops it again.

The visitor's mutable fields are an explicit state; a method is a function
from the state to the state after it, in `Except Panic`, because the source
stops on `todo!`, `unreachable!`, `assert_eq!`, an out-of-range `args[0]`
and the `debug_assert!` at the start of each instruction. The `HashMap` of
rewrites is a function from locations to the lists filed there, with `none`
for a location that has no entry.

`emit_cast_desc_lty`, `_enter_operand_place` and `_enter_place_pointer`
are dead code in the source and are left out; the general case of a call
casts no argument yet (its loop body is commented out), so it files
nothing.

Key definitions: `SubLoc`, `RewriteKind`, `MirRewrite`, `enter`, `emit`,
`visitRvalue`, `visitStatement`, `visitTerminator`, `genMirRewrites`.
-/
import C2RustRewrite.Mir

namespace C2RustRewrite
namespace Mir

/-- `mir_op::SubLoc`: one step from an instruction towards one of its sub-nodes. -/
inductive SubLoc
  /-- The LHS of an assignment or call. `StatementKind::Assign/TerminatorKind::Call -> Place` -/
  | dest
  /-- The RHS of an assignment. `StatementKind::Assign -> Rvalue` -/
  | assignRvalue
  /-- The Nth argument of a call. `TerminatorKind::Call -> Operand` -/
  | callArg (i : ℕ)
  /-- The Nth operand of an rvalue. `Rvalue -> Operand` -/
  | rvalueOperand (i : ℕ)
  /-- The Nth place of an rvalue. `Rvalue -> Place` -/
  | rvaluePlace (i : ℕ)
  /-- The place referenced by an operand. `Operand::Move/Operand::Copy -> Place` -/
  | operandPlace
  /-- The pointer used in the Nth innermost deref within a place. `Place -> Place` -/
  | placePointer (i : ℕ)
  deriving DecidableEq, Repr

/-- `mir_op::RewriteKind`. -/
inductive RewriteKind
  /-- Replace `ptr.offset(i)` with something like `&ptr[i..]`. -/
  | offsetSlice (mutbl : Bool)
  /-- Replace `slice` with `&slice[0]`. -/
  | sliceFirst (mutbl : Bool)
  /-- Replace `ptr` with `&*ptr`, converting `&mut T` to `&T`. -/
  | mutToImm
  /-- Remove a call to `as_ptr` or `as_mut_ptr`. -/
  | removeAsPtr
  /-- Replace `&raw` with `&` or `&raw mut` with `&mut`. -/
  | rawToRef (mutbl : Bool)
  /-- Replace `y` in `let x = y` with `Cell::new(y)`. -/
  | cellNew
  /-- Replace `*y` with `Cell::get(y)` where `y` is a pointer. -/
  | cellGet
  /-- Replace `*y = x` with `Cell::set(x)` where `y` is a pointer. -/
  | cellSet
  deriving DecidableEq, Repr

/-- `mir_op::MirRewrite`. -/
structure MirRewrite where
  kind : RewriteKind
  subLoc : List SubLoc
  deriving DecidableEq, Repr

/-- Why a visit stops. -/
inductive Panic
  /-- `todo!("statement {:?}", stmt)` -/
  | todoStatement (stmt : Statement)
  /-- `todo!("terminator {:?}", term)` -/
  | todoTerminator (term : Terminator)
  /-- `unreachable!("perms_to_desc should not return Quantity::Array")` -/
  | unreachableArray
  /-- `assert_eq!` of the two pointee types in `emit_cast_desc_desc`. -/
  | assertPointee (left right : Ty)
  /-- `args[0]` of a call without arguments. -/
  | argsIndex
  /-- `self.perms[p]` or `self.flags[p]` with `p = PointerId::NONE`: the
  pointer tables have no entry for it. -/
  | pointerIdNone
  /-- `debug_assert!(self.sub_loc.is_empty())` -/
  | subLocNotEmpty
  deriving DecidableEq, Repr

/-- The `HashMap<Location, Vec<MirRewrite>>` the visitor fills. -/
abbrev RewriteMap := Location → Option (List MirRewrite)

/-- The mutable fields of `ExprRewriteVisitor`. -/
structure ExprRewriteVisitor where
  rewrites : RewriteMap
  loc : Location
  subLoc : List SubLoc

/-- `ExprRewriteVisitor::new`: no rewrites, `bb0[0]`, an empty path. -/
def ExprRewriteVisitor.new : ExprRewriteVisitor := ⟨fun _ => none, ⟨0, 0⟩, []⟩

/-- A visitor method: the state after it, or the panic it stops with. -/
abbrev Visit := ExprRewriteVisitor → Except Panic ExprRewriteVisitor

/-- `enter`: push `sub`, run `f`, pop. -/
def enter (sub : SubLoc) (f : Visit) : Visit := fun v => do
  let v ← f { v with subLoc := v.subLoc ++ [sub] }
  pure { v with subLoc := v.subLoc.dropLast }

/-- `emit`: `rewrites.entry(loc).or_insert_with(Vec::new).push(..)` with the current path. -/
def emit (rw : RewriteKind) : Visit := fun v =>
  pure { v with
    rewrites := Function.update v.rewrites v.loc
      (some ((v.rewrites v.loc).getD [] ++ [⟨rw, v.subLoc⟩])) }

section Visitor

variable (acx : AnalysisCtxt) (asn : Assignment)

/-- `perms_to_desc` of a labeled type, at its label's permissions and flags. -/
def descOf (lty : LTy) : TypeDesc :=
  acx.permsToDesc lty.ty (asn.perms lty.label) (asn.flags lty.label)

/-- `self.perms[p]`: the pointer tables (outside `src/`) have no entry for
`PointerId::NONE`, and indexing one with it panics. -/
def permsAt (p : PointerId) : Except Panic PermissionSet :=
  match p with
  | none => .error .pointerIdNone
  | some _ => pure (asn.perms p)

/-- `self.flags[p]`, as `permsAt`. -/
def flagsAt (p : PointerId) : Except Panic FlagSet :=
  match p with
  | none => .error .pointerIdNone
  | some _ => pure (asn.flags p)

/-- `perms_to_desc(lty.ty, self.perms[lty.label], self.flags[lty.label])`. -/
def descAt (lty : LTy) : Except Panic TypeDesc := do
  let perms ← permsAt asn lty.label
  let flags ← flagsAt asn lty.label
  pure (acx.permsToDesc lty.ty perms flags)

/-- A labeled type's descriptor is looked up. -/
theorem descAt_of_isSome {lty : LTy} (h : lty.label.isSome) :
    descAt acx asn lty = .ok (descOf acx asn lty) := by
  obtain ⟨ty, _ | n⟩ := lty
  · cases h
  · rfl

/-- A lookup that gets through gives the descriptor `descOf` computes. -/
theorem eq_descOf_of_descAt {lty : LTy} {d : TypeDesc} (h : descAt acx asn lty = .ok d) :
    d = descOf acx asn lty := by
  obtain ⟨ty, _ | n⟩ := lty
  · cases h
  · exact (Except.ok.inj h).symm

/-- A table lookup fails only at `PointerId::NONE`, with `pointerIdNone`. -/
theorem permsAt_error {p : PointerId} {e : Panic} (h : permsAt asn p = .error e) :
    e = .pointerIdNone ∧ p = none := by
  cases p
  · exact ⟨(Except.error.inj h).symm, rfl⟩
  · cases h

theorem flagsAt_error {p : PointerId} {e : Panic} (h : flagsAt asn p = .error e) :
    e = .pointerIdNone ∧ p = none := by
  cases p
  · exact ⟨(Except.error.inj h).symm, rfl⟩
  · cases h

theorem permsAt_panic (p : PointerId) : ∀ e, permsAt asn p = .error e → e = .pointerIdNone :=
  fun _ h => (permsAt_error asn h).1

theorem flagsAt_panic (p : PointerId) : ∀ e, flagsAt asn p = .error e → e = .pointerIdNone :=
  fun _ h => (flagsAt_error asn h).1

/-- A lookup fails only on an unlabeled type, with `pointerIdNone`. -/
theorem descAt_error {lty : LTy} {e : Panic} (h : descAt acx asn lty = .error e) :
    e = .pointerIdNone ∧ lty.label = none := by
  obtain ⟨ty, _ | n⟩ := lty
  · exact ⟨(Except.error.inj h).symm, rfl⟩
  · cases h

theorem descAt_panic (lty : LTy) : ∀ e, descAt acx asn lty = .error e → e = .pointerIdNone :=
  fun _ h => (descAt_error acx asn h).1

/-- `emit_cast_desc_desc`. An unsupported cast is only reported on stderr. -/
def emitCastDescDesc (src dst : TypeDesc) : Visit := fun v =>
  if acx.eraseRegions src.pointeeTy ≠ acx.eraseRegions dst.pointeeTy then
    .error (.assertPointee (acx.eraseRegions src.pointeeTy) (acx.eraseRegions dst.pointeeTy))
  else if src = dst then pure v
  else if src.qty = dst.qty ∧ (src.own, dst.own) = (.mut, .imm) then emit .mutToImm v
  else pure v

/-- `emit_cast_lty_desc`. -/
def emitCastLtyDesc (srcLty : LTy) (dst : TypeDesc) : Visit := fun v => do
  let src ← descAt acx asn srcLty
  emitCastDescDesc acx src dst v

/-- `emit_cast_lty_lty`: nothing between two unlabeled or two non-raw types;
otherwise both sides' facts are looked up, and an unlabeled side panics. -/
def emitCastLtyLty (srcLty dstLty : LTy) : Visit := fun v =>
  if srcLty.label.isNone ∧ dstLty.label.isNone then pure v
  else if !srcLty.ty.isRawPtr ∧ !dstLty.ty.isRawPtr then pure v
  else do
    let src ← descAt acx asn srcLty
    let dst ← descAt acx asn dstLty
    emitCastDescDesc acx src dst v

/-- `visit_place`: nothing yet. -/
def visitPlace (_pl : Place) : Visit := pure

/-- `visit_operand`: a cast to `expect`, if the operand is a labeled place. -/
def visitOperand (op : Operand) (expect : Option LTy) : Visit := fun v =>
  match op with
  | .copy pl | .move pl => do
    let v ← visitPlace pl v
    match expect with
    | some e =>
      if (acx.typeOfPlace pl).label.isSome then emitCastLtyLty acx asn (acx.typeOfPlace pl) e v
      else pure v
    | none => pure v
  | .constant _ => pure v

/-- `visit_operand_desc`: as `visit_operand`, to an expected descriptor. -/
def visitOperandDesc (op : Operand) (expect : TypeDesc) : Visit := fun v =>
  match op with
  | .copy pl | .move pl => do
    let v ← visitPlace pl v
    if (acx.typeOfPlace pl).label.isSome then emitCastLtyDesc acx asn (acx.typeOfPlace pl) expect v
    else pure v
  | .constant _ => pure v

/-- The loop over an aggregate's operands, the `i`-th under `RvalueOperand(i)`. -/
def visitAggregateOps : List Operand → ℕ → Visit
  | [], _ => pure
  | op :: ops, i => fun v => do
    let v ← enter (.rvalueOperand i) (visitOperand acx asn op none) v
    visitAggregateOps ops (i + 1) v

/-- The `RawToRef` of an `AddressOf` whose expected type is a reference or a cell. -/
def rawToRefOf (mutbl : Mutability) (own : Ownership) : Visit :=
  match own with
  | .cell => emit (.rawToRef false)
  | .imm | .mut => emit (.rawToRef (mutbl == .mut))
  | _ => pure

/-- `visit_rvalue`: visit the operands and places, and for `AddressOf` emit
the `RawToRef` its expected type asks for. -/
def visitRvalue (rv : Rvalue) (expect : Option LTy) : Visit := fun v =>
  match rv with
  | .use op => enter (.rvalueOperand 0) (visitOperand acx asn op expect) v
  | .repeat op _ => enter (.rvalueOperand 0) (visitOperand acx asn op none) v
  | .ref _ _ pl => enter (.rvaluePlace 0) (visitPlace pl) v
  | .threadLocalRef _ => pure v
  | .addressOf mutbl pl => do
    let v ← enter (.rvaluePlace 0) (visitPlace pl) v
    match expect with
    | some e => do
      let desc ← descAt acx asn e
      enter (.rvalueOperand 0) (rawToRefOf mutbl desc.own) v
    | none => pure v
  | .len pl => enter (.rvaluePlace 0) (visitPlace pl) v
  | .cast _ op _ => enter (.rvalueOperand 0) (visitOperand acx asn op none) v
  | .binaryOp _ a b | .checkedBinaryOp _ a b => do
    let v ← enter (.rvalueOperand 0) (visitOperand acx asn a none) v
    enter (.rvalueOperand 1) (visitOperand acx asn b none) v
  | .nullaryOp .. => pure v
  | .unaryOp _ op => enter (.rvalueOperand 0) (visitOperand acx asn op none) v
  | .discriminant pl => enter (.rvaluePlace 0) (visitPlace pl) v
  | .aggregate _ ops => visitAggregateOps acx asn ops 0 v
  | .shallowInitBox op _ => enter (.rvalueOperand 0) (visitOperand acx asn op none) v
  | .copyForDeref pl => enter (.rvaluePlace 0) (visitPlace pl) v

/-- The quantity `visit_ptr_offset` expects of the pointer it offsets. -/
def offsetArgQty : Quantity → Except Panic Quantity
  | .single => pure .slice
  | .slice => pure .slice
  | .offsetPtr => pure .offsetPtr
  | .array => .error .unreachableArray

theorem offsetArgQty_error {q : Quantity} {e : Panic} (h : offsetArgQty q = .error e) :
    e = .unreachableArray ∧ q = .array := by
  cases q <;> cases h
  exact ⟨rfl, rfl⟩

/-- `visit_ptr_offset`: cast the argument to the widened result type, then
`OffsetSlice`, and `SliceFirst` if the result is a single element. -/
def visitPtrOffset (op : Operand) (resultTy : LTy) : Visit := fun v => do
  let resultDesc ← descAt acx asn resultTy
  let qty ← offsetArgQty resultDesc.qty
  let v ← enter (.callArg 0)
    (visitOperandDesc acx asn op ⟨resultDesc.own, qty, resultDesc.pointeeTy⟩) v
  let mutbl := resultDesc.own == .mut
  let v ← emit (.offsetSlice mutbl) v
  if resultDesc.qty = .single then emit (.sliceFirst mutbl) v else pure v

/-- `visit_slice_as_ptr`: the accessor is redundant when both sides resolve alike. -/
def visitSliceAsPtr (op : Operand) (resultLty : LTy) : Visit := fun v => do
  let opDesc ← descAt acx asn (acx.typeOfOperand op)
  let resultDesc ← descAt acx asn resultLty
  if opDesc.own = resultDesc.own ∧ opDesc.qty = resultDesc.qty then emit .removeAsPtr v
  else pure v

/-- The `CellSet` case of an assignment: a store through a pointer the
analysis made a `Cell`. -/
def visitCellSet (pl : Place) : Visit := fun v =>
  if pl.isIndirect ∧ (acx.localTys pl.local).ty.isAnyPtr then do
    let desc ← descAt acx asn (acx.localTys pl.local)
    if desc.own = .cell then enter .assignRvalue (emit .cellSet) v else pure v
  else pure v

/-- The `match rv` of an assignment, whose `Rvalue::Use` case files `CellNew`
when the assigned local is a cell and `CellGet` when the operand reads
through a `CELL` pointer. -/
def visitCellUse (pl : Place) : Rvalue → Visit
  | .use rvOp => fun v => do
    let localAddr := acx.addrOfLocal pl.local
    let perms ← permsAt asn localAddr
    let flags ← flagsAt asn localAddr
    let desc := acx.localPermsToDesc (acx.localTys pl.local).ty perms flags
    let v ← (if desc.own = .cell then
        enter .assignRvalue (enter (.rvalueOperand 0) (emit .cellNew))
      else pure) v
    match rvOp.place with
    | some rvPlace =>
      if rvPlace.isIndirect ∧ (acx.localTys rvPlace.local).ty.isAnyPtr then do
        let flags ← flagsAt asn (acx.localTys rvPlace.local).label
        if flags.contains FlagSet.CELL then
          enter .assignRvalue (enter (.rvalueOperand 0) (emit .cellGet)) v
        else pure v
      else pure v
    | none => pure v
  | _ => pure

/-- `matches!(rv, Rvalue::Cast(..))`. -/
def Rvalue.isCast : Rvalue → Bool
  | .cast .. => true
  | _ => false

/-- The `StatementKind::Assign` case of `visit_statement`. -/
def visitAssign (pl : Place) (rv : Rvalue) (loc : Location) : Visit := fun v =>
  if rv.isCast ∧ acx.shouldSkipStmt loc then pure v
  else do
    let v ← visitCellSet acx asn pl v
    let v ← visitCellUse acx asn pl rv v
    let rvLty := acx.typeOfRvalue rv loc
    let v ← enter .assignRvalue (visitRvalue acx asn rv (some rvLty)) v
    let v ← emitCastLtyLty acx asn rvLty (acx.typeOfPlace pl) v
    enter .dest (visitPlace pl) v

/-- The `match stmt.kind` of `visit_statement`. -/
def visitStatementKind (stmt : Statement) (loc : Location) : Visit := fun v =>
  match stmt.kind with
  | .assign pl rv => visitAssign acx asn pl rv loc v
  | .setDiscriminant .. | .copyNonOverlapping => .error (.todoStatement stmt)
  | _ => pure v

/-- `visit_statement`: set the location, check the path stack is empty, visit. -/
def visitStatement (stmt : Statement) (loc : Location) : Visit := fun v =>
  let v := { v with loc := loc }
  if v.subLoc ≠ [] then .error .subLocNotEmpty else visitStatementKind acx asn stmt loc v

/-- The `match term.kind` of `visit_terminator`: the special callees
`offset` and `as_ptr`; every other call and terminator files nothing. -/
def visitTerminatorKind (term : Terminator) : Visit := fun v =>
  match term.kind with
  | .call func args destination =>
    match acx.tyCallee func, args with
    | .ptrOffset, a :: _ => visitPtrOffset acx asn a (acx.typeOfPlace destination) v
    | .sliceAsPtr, a :: _ => visitSliceAsPtr acx asn a (acx.typeOfPlace destination) v
    | .ptrOffset, [] | .sliceAsPtr, [] => .error .argsIndex
    | .other, _ => pure v
  | .inlineAsm => .error (.todoTerminator term)
  | _ => pure v

/-- `visit_terminator`: set the location, check the path stack is empty, visit. -/
def visitTerminator (term : Terminator) (loc : Location) : Visit := fun v =>
  let v := { v with loc := loc }
  if v.subLoc ≠ [] then .error .subLocNotEmpty else visitTerminatorKind acx asn term v

/-- The statements of block `b` from index `i` on. -/
def visitStatements (b : ℕ) : List Statement → ℕ → Visit
  | [], _ => pure
  | stmt :: stmts, i => fun v => do
    let v ← visitStatement acx asn stmt ⟨b, i⟩ v
    visitStatements b stmts (i + 1) v

/-- The blocks `bbs`, the first of them block `b`: statements, then the terminator. -/
def visitBlocks : List BasicBlockData → ℕ → Visit
  | [], _ => pure
  | bb :: bbs, b => fun v => do
    let v ← visitStatements acx asn b bb.statements 0 v
    let v ← match bb.terminator with
      | some term => visitTerminator acx asn term ⟨b, bb.statements.length⟩ v
      | none => pure v
    visitBlocks bbs (b + 1) v

/-- `gen_mir_rewrites`: one visitor over every block, in order. -/
def genMirRewrites (body : Body) : Except Panic RewriteMap := do
  let v ← visitBlocks acx asn body.basicBlocks 0 .new
  pure v.rewrites

end Visitor

end Mir

end C2RustRewrite
