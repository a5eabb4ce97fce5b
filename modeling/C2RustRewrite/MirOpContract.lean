/-
# What the annotator files, and where

The rewriter that reads `gen_mir_rewrites`' map matches on each rewrite's
kind and on the node its path leads to. Every rewrite the annotator files
is one of a few pairs of kind and path, fixed by the instruction it is
filed at (`Filed`):

- at an `Assign` statement: the `MutToImm` cast of the whole value (`[]`),
  `CellSet` at the right-hand side (`[AssignRvalue]`), and at the
  right-hand side's first operand (`[AssignRvalue, RvalueOperand(0)]`) the
  `CellNew`, `CellGet` or `MutToImm` of a `Use`, or the `RawToRef` of an
  `AddressOf`;
- at a call of `ptr.offset`: the `MutToImm` cast of its first argument
  (`[CallArg(0)]`), and `OffsetSlice` and `SliceFirst` at the call (`[]`);
- at a call of `as_ptr`: `RemoveAsPtr` at the call;
- nowhere else: no other statement or terminator gets an entry.

Operands are cast only where an expected type is passed down, which
`visit_rvalue` does for `Use` alone. One `Files` lemma per method, by the
method's own case split, gives the instruction-level contract, and the run
lemma lifts it to the whole map (`genMirRewrites_filed`).

Key definitions: `AssignFiled`, `CallFiled`, `Filed`.
Key theorems: `files_visitRvalue`, `files_visitAssign`, `files_visitInstrKind`,
`genMirRewrites_filed`.
-/
import C2RustRewrite.MirOpEmits

namespace C2RustRewrite
namespace Mir

/-- `matches!(rv, Rvalue::Use(..))`. -/
def Rvalue.isUse : Rvalue → Bool
  | .use _ => true
  | _ => false

/-- `matches!(rv, Rvalue::AddressOf(..))`. -/
def Rvalue.isAddressOf : Rvalue → Bool
  | .addressOf .. => true
  | _ => false

/-! ### The pairs of kind and path -/

/-- The rewrites `visit_rvalue` files for `rv`, relative to it. -/
def RvalueFiled (rv : Rvalue) (r : MirRewrite) : Prop :=
  r.subLoc = [.rvalueOperand 0] ∧ (rv.isUse ∧ r.kind = .mutToImm ∨ rv.isAddressOf ∧ r.kind.isRawToRef)

/-- The rewrites an assignment `_ = rv` can be filed with. -/
def AssignFiled (rv : Rvalue) (r : MirRewrite) : Prop :=
  r = ⟨.mutToImm, []⟩ ∨ r = ⟨.cellSet, [.assignRvalue]⟩ ∨
    r.subLoc = [.assignRvalue, .rvalueOperand 0] ∧
      (rv.isUse ∧ (r.kind = .cellNew ∨ r.kind = .cellGet ∨ r.kind = .mutToImm) ∨
        rv.isAddressOf ∧ r.kind.isRawToRef)

/-- The rewrites a call can be filed with, by its callee. -/
def CallFiled : Callee → MirRewrite → Prop
  | .ptrOffset, r =>
    r = ⟨.mutToImm, [.callArg 0]⟩ ∨ ∃ m, r = ⟨.offsetSlice m, []⟩ ∨ r = ⟨.sliceFirst m, []⟩
  | .sliceAsPtr, r => r = ⟨.removeAsPtr, []⟩
  | .other, _ => False

/-- The rewrites an instruction can be filed with. -/
def Filed (acx : AnalysisCtxt) : Instr → MirRewrite → Prop
  | .stmt ⟨.assign _ rv, _⟩, r => AssignFiled rv r
  | .term ⟨.call func _ _, _⟩, r => CallFiled (acx.tyCallee func) r
  | _, _ => False

/-- The paths the annotator files under: the instruction, an assignment's
right-hand side (for `CellSet` only) or its first operand, and a call's
first argument. -/
theorem Filed.paths {acx : AnalysisCtxt} {ins : Instr} {r : MirRewrite} (h : Filed acx ins r) :
    r.subLoc = [] ∨ r = ⟨.cellSet, [.assignRvalue]⟩ ∨
      r.subLoc = [.assignRvalue, .rvalueOperand 0] ∨ r.subLoc = [.callArg 0] := by
  rcases ins with ⟨kind, sp⟩ | ⟨kind, sp⟩ <;> cases kind <;> simp only [Filed] at h
  case stmt.mk.assign =>
    rcases h with rfl | rfl | ⟨h, -⟩
    exacts [.inl rfl, .inr (.inl rfl), .inr (.inr (.inl h))]
  case term.mk.call func _ _ =>
    cases hc : acx.tyCallee func <;> simp only [hc, CallFiled] at h
    · rcases h with rfl | ⟨m, rfl | rfl⟩
      exacts [.inr (.inr (.inr rfl)), .inl rfl, .inl rfl]
    · exact .inl (h ▸ rfl)

/-! ### One lemma per method -/

section Methods

variable (acx : AnalysisCtxt) (asn : Assignment)

/-- A cast files at most the `MutToImm` of the value at hand. -/
theorem files_emitCastDescDesc (src dst : TypeDesc) :
    Files (· = ⟨.mutToImm, []⟩) (emitCastDescDesc acx src dst) :=
  Files.ite (files_error _ _ nofun)
    (Files.ite (files_pure _) (Files.ite (files_emit rfl) (files_pure _)))

theorem files_emitCastLtyDesc (srcLty : LTy) (dst : TypeDesc) :
    Files (· = ⟨.mutToImm, []⟩) (emitCastLtyDesc acx asn srcLty dst) :=
  Files.lookup (descAt_panic acx asn _) fun _ _ => files_emitCastDescDesc acx _ _

theorem files_emitCastLtyLty (srcLty dstLty : LTy) :
    Files (· = ⟨.mutToImm, []⟩) (emitCastLtyLty acx asn srcLty dstLty) :=
  Files.ite (files_pure _) <| Files.ite (files_pure _) <|
    Files.lookup (descAt_panic acx asn _) fun _ _ =>
      Files.lookup (descAt_panic acx asn _) fun _ _ => files_emitCastDescDesc acx _ _

/-- An operand is cast only when it is given an expected type. -/
theorem files_visitOperand (op : Operand) (expect : Option LTy) :
    Files (fun r => expect.isSome ∧ r = ⟨.mutToImm, []⟩) (visitOperand acx asn op expect) := by
  cases op <;> cases expect <;>
    first
    | exact files_pure _
    | exact Files.bind (files_pure _) (files_pure _)
    | exact Files.bind (files_pure _)
        (Files.ite ((files_emitCastLtyLty acx asn _ _).mono fun _ h => ⟨rfl, h⟩) (files_pure _))

theorem files_visitOperandDesc (op : Operand) (expect : TypeDesc) :
    Files (· = ⟨.mutToImm, []⟩) (visitOperandDesc acx asn op expect) := by
  cases op <;>
    first
    | exact files_pure _
    | exact Files.bind (files_pure _) (Files.ite (files_emitCastLtyDesc acx asn _ _) (files_pure _))

/-- An operand visited with no expected type files nothing. -/
theorem files_enter_visitOperand_none (sub : SubLoc) (op : Operand) :
    Files (fun _ => False) (enter sub (visitOperand acx asn op none)) :=
  Files.enter (files_visitOperand acx asn op none) fun _ h => nomatch h.1

theorem files_visitAggregateOps (ops : List Operand) (i : ℕ) :
    Files (fun _ => False) (visitAggregateOps acx asn ops i) := by
  induction ops generalizing i with
  | nil => exact files_pure _
  | cons op ops ih => exact Files.bind (files_enter_visitOperand_none acx asn _ op) (ih _)

theorem files_rawToRefOf (mutbl : Mutability) (own : Ownership) :
    Files (fun r => r.subLoc = [] ∧ r.kind.isRawToRef) (rawToRefOf mutbl own) := by
  cases own <;> first | exact files_emit ⟨rfl, rfl⟩ | exact files_pure _

/-- An rvalue files only at its first operand: the cast of a `Use`, and the
`RawToRef` of an `AddressOf`. -/
theorem files_visitRvalue (rv : Rvalue) (expect : Option LTy) :
    Files (RvalueFiled rv) (visitRvalue acx asn rv expect) := by
  have none_op (i : ℕ) (op : Operand) : Files (RvalueFiled rv) _ :=
    (files_enter_visitOperand_none acx asn (.rvalueOperand i) op).mono fun _ h => h.elim
  have place (pl : Place) : Files (RvalueFiled rv) (enter (.rvaluePlace 0) (visitPlace pl)) :=
    Files.enter (files_pure fun _ => False) fun _ h => h.elim
  cases rv with
  | use op =>
    exact Files.enter (files_visitOperand acx asn op expect) fun r ⟨_, hr⟩ => by
      subst hr; exact ⟨rfl, .inl ⟨rfl, rfl⟩⟩
  | addressOf mutbl pl =>
    refine Files.bind (place pl) ?_
    cases expect
    · exact files_pure _
    · exact Files.lookup (descAt_panic acx asn _) fun _ _ =>
        Files.enter (files_rawToRefOf _ _) fun r ⟨h1, h2⟩ =>
          ⟨by simp [MirRewrite.under, h1], .inr ⟨rfl, h2⟩⟩
  | binaryOp _ a b | checkedBinaryOp _ a b => exact Files.bind (none_op 0 a) (none_op 1 b)
  | aggregate _ ops => exact (files_visitAggregateOps acx asn ops 0).mono fun _ h => h.elim
  | threadLocalRef _ | nullaryOp _ _ => exact files_pure _
  | «repeat» op _ | cast _ op _ | unaryOp _ op | shallowInitBox op _ => exact none_op 0 op
  | ref _ _ pl | len pl | discriminant pl | copyForDeref pl => exact place pl

/-- A store through a `Cell` pointer files `CellSet` at the right-hand side. -/
theorem files_visitCellSet (pl : Place) :
    Files (· = ⟨.cellSet, [.assignRvalue]⟩) (visitCellSet acx asn pl) :=
  Files.ite (Files.lookup (descAt_panic acx asn _) fun _ _ =>
      Files.ite (Files.enter (files_emit (P := (· = ⟨.cellSet, []⟩)) rfl) fun _ h => by subst h; rfl)
        (files_pure _))
    (files_pure _)

/-- The `Use` case files `CellNew` and `CellGet` at the first operand. -/
theorem files_visitCellUse (pl : Place) (rv : Rvalue) :
    Files (fun r => rv.isUse ∧ r.subLoc = [.assignRvalue, .rvalueOperand 0] ∧
      (r.kind = .cellNew ∨ r.kind = .cellGet)) (visitCellUse acx asn pl rv) := by
  cases rv
  case use rvOp =>
    have cell (k : RewriteKind) (hk : k = .cellNew ∨ k = .cellGet) :
        Files (fun r => (Rvalue.use rvOp).isUse ∧ r.subLoc = [.assignRvalue, .rvalueOperand 0] ∧
          (r.kind = .cellNew ∨ r.kind = .cellGet))
          (enter .assignRvalue (enter (.rvalueOperand 0) (emit k))) :=
      Files.enter (Q := (· = ⟨k, [.rvalueOperand 0]⟩))
        (Files.enter (files_emit (P := (· = ⟨k, []⟩)) rfl) fun _ h => by subst h; rfl)
        fun _ h => by subst h; exact ⟨rfl, rfl, hk⟩
    refine Files.lookup (permsAt_panic asn _) fun _ _ =>
      Files.lookup (flagsAt_panic asn _) fun _ _ =>
        Files.bind (Files.select (cell _ (.inl rfl)) (files_pure _)) ?_
    cases rvOp.place
    · exact files_pure _
    · exact Files.ite (Files.lookup (flagsAt_panic asn _) fun _ _ =>
        Files.ite (cell _ (.inr rfl)) (files_pure _)) (files_pure _)
  all_goals exact files_pure _

/-- An assignment's rewrites. -/
theorem files_visitAssign (pl : Place) (rv : Rvalue) (loc : Location) :
    Files (AssignFiled rv) (visitAssign acx asn pl rv loc) :=
  Files.ite (files_pure _)
    (Files.bind ((files_visitCellSet acx asn pl).mono fun _ h => .inr (.inl h))
      (Files.bind ((files_visitCellUse acx asn pl rv).mono fun _ ⟨hu, hs, hk⟩ =>
          .inr (.inr ⟨hs, .inl ⟨hu, hk.imp_right .inl⟩⟩))
        (Files.bind (Files.enter (files_visitRvalue acx asn rv _) fun r ⟨hs, hk⟩ =>
            .inr (.inr ⟨by simp [MirRewrite.under, hs],
              hk.imp (fun ⟨hu, hm⟩ => ⟨hu, .inr (.inr hm)⟩) id⟩))
          (Files.bind ((files_emitCastLtyLty acx asn _ _).mono fun _ h => .inl h)
            (Files.enter (files_pure fun _ => False) fun _ h => h.elim)))))

/-- A `ptr.offset` call's rewrites, with `op` its first argument. -/
theorem files_visitPtrOffset (op : Operand) (resultTy : LTy) :
    Files (CallFiled .ptrOffset) (visitPtrOffset acx asn op resultTy) :=
  files_visitPtrOffset_of acx asn op resultTy
    (fun _ _ _ _ => Files.enter (files_visitOperandDesc acx asn op _) fun _ h => .inl (by subst h; rfl))
    fun _ => ⟨.inr ⟨_, .inl rfl⟩, .inr ⟨_, .inr rfl⟩⟩

theorem files_visitSliceAsPtr (op : Operand) (resultLty : LTy) :
    Files (CallFiled .sliceAsPtr) (visitSliceAsPtr acx asn op resultLty) :=
  Files.lookup (descAt_panic acx asn _) fun _ _ =>
    Files.lookup (descAt_panic acx asn _) fun _ _ => Files.ite (files_emit rfl) (files_pure _)

theorem files_visitStatementKind (stmt : Statement) (loc : Location) :
    Files (Filed acx (.stmt stmt)) (visitStatementKind acx asn stmt loc) := by
  obtain ⟨kind, span⟩ := stmt
  unfold visitStatementKind
  cases kind <;>
    first
    | exact files_visitAssign acx asn _ _ loc
    | exact files_error _ _ nofun
    | exact files_pure _

theorem files_visitTerminatorKind (term : Terminator) :
    Files (Filed acx (.term term)) (visitTerminatorKind acx asn term) := by
  obtain ⟨kind, span⟩ := term
  unfold visitTerminatorKind
  cases kind
  case call func args destination =>
    dsimp only
    cases hc : acx.tyCallee func <;> cases args <;>
      first
      | exact files_error _ _ nofun
      | exact (files_visitPtrOffset acx asn _ _).mono fun _ h => by simpa [Filed, hc] using h
      | exact (files_visitSliceAsPtr acx asn _ _).mono fun _ h => by simpa [Filed, hc] using h
      | exact files_pure _
  all_goals first | exact files_error _ _ nofun | exact files_pure _

/-- **The instruction-level contract.** -/
theorem files_visitInstrKind (ins : Instr) (loc : Location) :
    Files (Filed acx ins) (visitInstrKind acx asn ins loc) := by
  cases ins
  · exact files_visitStatementKind acx asn _ loc
  · exact files_visitTerminatorKind acx asn _

end Methods

/-! ### The whole map -/

section Run

variable (acx : AnalysisCtxt) (asn : Assignment)

/-- The rewrites an entry of a run's map holds are filed by the instruction
at its location. -/
theorem filed_of_entry {body : Body} {loc : Location} {rs : List MirRewrite}
    (h : (· loc) <$> genMirRewrites acx asn body = .ok (some rs)) :
    ∃ ins, body.stmtAt loc = some ins ∧ rs ≠ [] ∧ ∀ r ∈ rs, Filed acx ins r := by
  obtain ⟨ins, hins, he, hne⟩ := genMirRewrites_entry acx asn h
  exact ⟨ins, hins, hne, (files_visitInstrKind acx asn ins loc).emitted he⟩

/-- **What the annotator files, and where.** For every body and every
analysis result, each rewrite `gen_mir_rewrites` files at a location is one
of the pairs of kind and path that the instruction there admits: at an
assignment, a cast of the value, `CellSet` at the right-hand side, and
`CellNew`, `CellGet`, a cast (of a `Use`) or `RawToRef` (of an `AddressOf`)
at its first operand; at a `ptr.offset` call, a cast of the first argument
and `OffsetSlice`/`SliceFirst` at the call; at an `as_ptr` call,
`RemoveAsPtr`. An entry is never empty, so any other instruction, which
admits no pair, gets no entry. -/
theorem genMirRewrites_filed (body : Body) (loc : Location) (rs : List MirRewrite)
    (h : (· loc) <$> genMirRewrites acx asn body = .ok (some rs)) :
    ∃ ins, body.stmtAt loc = some ins ∧ rs ≠ [] ∧ ∀ r ∈ rs, Filed acx ins r :=
  filed_of_entry acx asn h

end Run

/-- The field store of `cellFieldBody` is filed with the assignment's pairs. -/
theorem cellField_filed :
    ∃ ins, cellFieldBody.stmtAt ⟨0, 0⟩ = some ins ∧
      [(⟨.cellSet, [.assignRvalue]⟩ : MirRewrite), ⟨.cellNew, [.assignRvalue, .rvalueOperand 0]⟩] ≠ [] ∧
      ∀ r ∈ [(⟨.cellSet, [.assignRvalue]⟩ : MirRewrite), ⟨.cellNew, [.assignRvalue, .rvalueOperand 0]⟩],
        Filed (uniformCtxt ⟨.cell, .single, .other 0⟩) ins r :=
  genMirRewrites_filed (uniformCtxt ⟨.cell, .single, .other 0⟩) noPerms cellFieldBody ⟨0, 0⟩ _
    (entry_of_perInstruction (by decide) (by decide))

end Mir

end C2RustRewrite
