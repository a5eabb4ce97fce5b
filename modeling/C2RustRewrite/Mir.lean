/-
# MIR, as the rewrite passes see it

The part of `rustc_middle::mir` that `mir_op` and `unlower` read: places
with their projections, operands, rvalues, the statement and terminator
kinds, and a body as its list of basic blocks. An instruction is a
statement or a terminator (`stmt_at`'s `Either`); `Body.instrs` lists them
in the order both passes walk them, statement `i` of block `b` at
`Location {b, i}` and the terminator after the statements.

Payloads the passes never read (regions, borrow and cast kinds, operator
kinds, constants) are kept as opaque numbers, so that the analysis' own
functions (`AnalysisCtxt`) may still depend on them.

The analysis facts and the type-descriptor resolver are not under `src/`:
`AnalysisCtxt` and `Assignment` take them as parameters, and `TypeDesc`
follows the spec's data model.

Key definitions: `Place`, `Rvalue`, `Statement`, `Terminator`, `Body`,
`Body.instrs`, `Body.stmtAt`, `TypeDesc`, `AnalysisCtxt`.
-/
import C2RustRewrite.Rewrite

namespace C2RustRewrite
namespace Mir

/-- `mir::Local`. -/
abbrev Local := ℕ

/-- `mir::Location`: statement `statementIndex` of block `block` (the index
of a `mir::BasicBlock`); the terminator's index is the number of statements. -/
structure Location where
  block : ℕ
  statementIndex : ℕ
  deriving DecidableEq, Repr

/-- `mir::ProjectionElem`. -/
inductive PlaceElem
  | deref
  | field (f : ℕ)
  | index (l : Local)
  | constantIndex (offset : ℕ)
  | subslice (lo hi : ℕ)
  | downcast (variant : ℕ)
  deriving DecidableEq, Repr

/-- `mir::Place`: a local and a projection path out of it. -/
structure Place where
  «local» : Local
  projection : List PlaceElem
  deriving DecidableEq, Repr

/-- `Place::is_indirect`: the place goes through a dereference. -/
def Place.isIndirect (pl : Place) : Bool := pl.projection.any (· == .deref)

/-- `mir::Operand`. -/
inductive Operand
  | copy (pl : Place)
  | move (pl : Place)
  | constant (c : ℕ)
  deriving DecidableEq, Repr

/-- `Operand::place`. -/
def Operand.place : Operand → Option Place
  | .copy pl | .move pl => some pl
  | .constant _ => none

/-- `ty::Ty`, as far as the passes ask about it. -/
inductive Ty
  | rawPtr (mutbl : Mutability) (pointee : Ty)
  | ref (mutbl : Mutability) (pointee : Ty)
  | fnPtr
  | other (n : ℕ)
  deriving DecidableEq, Repr

/-- `Ty::is_any_ptr`: a reference, a raw pointer or a function pointer. -/
def Ty.isAnyPtr : Ty → Bool
  | .rawPtr .. | .ref .. | .fnPtr => true
  | .other _ => false

/-- `matches!(ty.kind(), TyKind::RawPtr(..))`. -/
def Ty.isRawPtr : Ty → Bool
  | .rawPtr .. => true
  | _ => false

/-- `mir::Rvalue`. -/
inductive Rvalue
  | use (op : Operand)
  | repeat (op : Operand) (count : ℕ)
  | ref (region kind : ℕ) (pl : Place)
  | threadLocalRef (defId : ℕ)
  | addressOf (mutbl : Mutability) (pl : Place)
  | len (pl : Place)
  | cast (kind : ℕ) (op : Operand) (ty : Ty)
  | binaryOp (bop : ℕ) (lhs rhs : Operand)
  | checkedBinaryOp (bop : ℕ) (lhs rhs : Operand)
  | nullaryOp (nop : ℕ) (ty : Ty)
  | unaryOp (uop : ℕ) (op : Operand)
  | discriminant (pl : Place)
  | aggregate (kind : ℕ) (ops : List Operand)
  | shallowInitBox (op : Operand) (ty : Ty)
  | copyForDeref (pl : Place)
  deriving DecidableEq, Repr

/-- `mir::StatementKind`. -/
inductive StatementKind
  | assign (pl : Place) (rv : Rvalue)
  | fakeRead
  | setDiscriminant (pl : Place) (variant : ℕ)
  | deinit (pl : Place)
  | storageLive (l : Local)
  | storageDead (l : Local)
  | retag (pl : Place)
  | ascribeUserType (pl : Place)
  | coverage
  | copyNonOverlapping
  | nop
  deriving DecidableEq, Repr

/-- `mir::Statement`, with the span of its `source_info`. -/
structure Statement where
  kind : StatementKind
  span : Span
  deriving DecidableEq, Repr

/-- `mir::TerminatorKind`; of the targets and unwind edges only what the
passes read is kept. -/
inductive TerminatorKind
  | goto
  | switchInt
  | resume
  | abort
  | return
  | unreachable
  | drop
  | dropAndReplace
  | call (func : Operand) (args : List Operand) (destination : Place)
  | assert
  | yield
  | generatorDrop
  | falseEdge
  | falseUnwind
  | inlineAsm
  deriving DecidableEq, Repr

/-- `mir::Terminator`, with the span of its `source_info`. -/
structure Terminator where
  kind : TerminatorKind
  span : Span
  deriving DecidableEq, Repr

/-- `mir::BasicBlockData`: the terminator is `None` only while a body is built. -/
structure BasicBlockData where
  statements : List Statement
  terminator : Option Terminator
  deriving DecidableEq, Repr

/-- `mir::Body`: its basic blocks, `bb0` first. -/
structure Body where
  basicBlocks : List BasicBlockData
  deriving DecidableEq, Repr

/-- What `Body::stmt_at` returns: the statement or the terminator at a location. -/
inductive Instr
  | stmt (s : Statement)
  | term (t : Terminator)
  deriving DecidableEq, Repr

/-- The span of an instruction's `source_info`. -/
def Instr.span : Instr → Span
  | .stmt s => s.span
  | .term t => t.span

/-- The instructions of block `b`, at their locations: the statements, then
the terminator if there is one. -/
def BasicBlockData.instrs (bb : BasicBlockData) (b : ℕ) : List (Location × Instr) :=
  (bb.statements.enum.map fun p => (⟨b, p.1⟩, .stmt p.2)) ++
    (bb.terminator.map fun t => ((⟨b, bb.statements.length⟩ : Location), Instr.term t)).toList

/-- The instructions of the blocks `bbs`, the first of them block `b`. -/
def instrsFrom : List BasicBlockData → ℕ → List (Location × Instr)
  | [], _ => []
  | bb :: bbs, b => bb.instrs b ++ instrsFrom bbs (b + 1)

/-- Every instruction of the body, in block order. -/
def Body.instrs (body : Body) : List (Location × Instr) := instrsFrom body.basicBlocks 0

/-- Statement `i` of a block, or its terminator for an index past the statements. -/
def BasicBlockData.stmtAt (bb : BasicBlockData) (i : ℕ) : Option Instr :=
  match bb.statements.get? i with
  | some s => some (.stmt s)
  | none => bb.terminator.map .term

/-- `Body::stmt_at`, which panics on a location outside the body; `none` stands for that. -/
def Body.stmtAt (body : Body) (loc : Location) : Option Instr :=
  (body.basicBlocks.get? loc.block).bind (·.stmtAt loc.statementIndex)

/-! ### The analysis' facts and the type descriptors

`PermissionSet`, `FlagSet`, `PointerId`, `LTy` and `type_desc` live in
modules that are not under `src/`. -/

/-- Modelled from the spec: the opaque per-pointer identifier; `none` is
`PointerId::NONE`, the label of a type that is no pointer. -/
abbrev PointerId := Option ℕ

/-- Modelled from the spec: a permission bit set. -/
structure PermissionSet where
  bits : ℕ
  deriving DecidableEq, Repr

/-- Modelled from the spec: a flag bit set, which has a `CELL` marker. -/
structure FlagSet where
  bits : ℕ
  deriving DecidableEq, Repr

/-- Modelled from the spec: the `CELL` flag. -/
def FlagSet.CELL : FlagSet := ⟨2⟩

/-- `FlagSet::contains`. -/
def FlagSet.contains (s t : FlagSet) : Bool := s.bits &&& t.bits == t.bits

/-- Modelled from the spec: a type labeled with the pointer it is. -/
structure LTy where
  ty : Ty
  label : PointerId
  deriving DecidableEq, Repr

/-- Modelled from the spec: `type_desc::Ownership`. -/
inductive Ownership
  | raw
  | rawMut
  | imm
  | cell
  | mut
  | rc
  | box
  deriving DecidableEq, Repr

/-- Modelled from the spec: `type_desc::Quantity`. -/
inductive Quantity
  | single
  | slice
  | offsetPtr
  | array
  deriving DecidableEq, Repr

/-- Modelled from the spec: `type_desc::TypeDesc`, what a pointer is to become. -/
structure TypeDesc where
  own : Ownership
  qty : Quantity
  pointeeTy : Ty
  deriving DecidableEq, Repr

/-- `util::Callee`, as far as `mir_op` distinguishes callees. -/
inductive Callee
  | ptrOffset
  | sliceAsPtr
  | other
  deriving DecidableEq, Repr

/-- What the rewrite passes ask of the analysis context `acx`, of the type
context and of `type_desc`, none of which is under `src/`. -/
structure AnalysisCtxt where
  /-- `acx.local_tys`. -/
  localTys : Local → LTy
  /-- `acx.addr_of_local`. -/
  addrOfLocal : Local → PointerId
  /-- `acx.type_of` on a place. -/
  typeOfPlace : Place → LTy
  /-- `acx.type_of` on an operand. -/
  typeOfOperand : Operand → LTy
  /-- `acx.type_of_rvalue`. -/
  typeOfRvalue : Rvalue → Location → LTy
  /-- `acx.c_void_casts.should_skip_stmt`. -/
  shouldSkipStmt : Location → Bool
  /-- `ty_callee(tcx, func.ty(mir, tcx))`. -/
  tyCallee : Operand → Callee
  /-- `tcx.erase_regions`. -/
  eraseRegions : Ty → Ty
  /-- `type_desc::perms_to_desc`. -/
  permsToDesc : Ty → PermissionSet → FlagSet → TypeDesc
  /-- `type_desc::local_perms_to_desc`. -/
  localPermsToDesc : Ty → PermissionSet → FlagSet → TypeDesc

/-- `context::Assignment`: the permissions and flags inferred for each pointer. -/
structure Assignment where
  perms : PointerId → PermissionSet
  flags : PointerId → FlagSet

end Mir

end C2RustRewrite
