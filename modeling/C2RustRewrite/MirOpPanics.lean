/-
# Where the annotator panics

`gen_mir_rewrites` stops the analysis with a panic in six places of the
source: `todo!` on a `SetDiscriminant` or `CopyNonOverlapping` statement
and on an `InlineAsm` terminator, `args[0]` of a `ptr.offset` or `as_ptr`
call without arguments, `unreachable!` on a `ptr.offset` whose result
resolves to an array, the `assert_eq!` of `emit_cast_desc_desc` on two
different pointee types, and `self.perms[p]` or `self.flags[p]` at
`p = PointerId::NONE`, each lookup with the guards the source puts before
it (`PanicSite`). Every panic of a run is one of these, raised by an
instruction of the body at its location, and the `debug_assert!` on the
path stack never fires; a body holding a `todo!` instruction panics
wherever it stands, whatever the analysis facts (`genMirRewrites_panics`).
An enum write lowers to `SetDiscriminant`, so no function that writes an
enum variant gets through the pass.

Key definitions: `Panic.isPointeeMismatch`, `Instr.isTodo`, `CastReadsNone`,
`AssignReadsNone`, `PanicSite`.
Key theorems: `fails_visitAssign`, `fails_visitPtrOffset`,
`fails_visitInstrKind`, `perInstruction_error`, `genMirRewrites_panics`.
-/
import C2RustRewrite.MirOpContract

namespace C2RustRewrite
namespace Mir

/-- The `assert_eq!` of `emit_cast_desc_desc`, on two different types. -/
def Panic.isPointeeMismatch : Panic → Prop
  | .assertPointee a b => a ≠ b
  | _ => False

/-- The statement kinds `visit_statement` meets with `todo!`. -/
def StatementKind.isTodo : StatementKind → Bool
  | .setDiscriminant .. | .copyNonOverlapping => true
  | _ => false

/-- An instruction the annotator meets with `todo!`. -/
def Instr.isTodo : Instr → Bool
  | .stmt s => s.kind.isTodo
  | .term t => t.kind == .inlineAsm

/-! ### Lookups at `PointerId::NONE`

`self.perms[p]` and `self.flags[p]` panic at `p = PointerId::NONE`. These
say which lookups of a method get that label. -/

/-- `emit_cast_lty_lty` gets past both early returns with one side
unlabeled: a raw pointer on one side, and exactly one label `NONE`. -/
def CastReadsNone (src dst : LTy) : Prop :=
  (src.ty.isRawPtr ∨ dst.ty.isRawPtr) ∧ (src.label = none ∨ dst.label = none) ∧
    ¬(src.label = none ∧ dst.label = none)

/-- The cast `visit_operand` makes from a labeled place to the expected type `t`. -/
def OperandReadsNone (acx : AnalysisCtxt) (op : Operand) (t : LTy) : Prop :=
  ∃ p, op.place = some p ∧ (acx.typeOfPlace p).label.isSome ∧ CastReadsNone (acx.typeOfPlace p) t

/-- The lookups of `visit_rvalue` at the expected type `t`: the operand
cast of a `Use`, and `expect_ty.label` of an `AddressOf`. -/
def RvalueReadsNone (acx : AnalysisCtxt) (t : LTy) : Rvalue → Prop
  | .use op => OperandReadsNone acx op t
  | .addressOf .. => t.label = none
  | _ => False

/-- The `CellSet` check: the label of a pointer local stored through. -/
def CellSetReadsNone (acx : AnalysisCtxt) (pl : Place) : Prop :=
  pl.isIndirect ∧ (acx.localTys pl.local).ty.isAnyPtr ∧ (acx.localTys pl.local).label = none

/-- The `Use` case: the address of the destination local, and the label of
a pointer local read through. -/
def CellUseReadsNone (acx : AnalysisCtxt) (pl : Place) : Rvalue → Prop
  | .use op => acx.addrOfLocal pl.local = none ∨ ∃ p, op.place = some p ∧ p.isIndirect ∧
      (acx.localTys p.local).ty.isAnyPtr ∧ (acx.localTys p.local).label = none
  | _ => False

/-- The lookups of an assignment `pl = rv` at `loc` that get `PointerId::NONE`. -/
def AssignReadsNone (acx : AnalysisCtxt) (loc : Location) (pl : Place) (rv : Rvalue) : Prop :=
  CellSetReadsNone acx pl ∨ CellUseReadsNone acx pl rv ∨
    RvalueReadsNone acx (acx.typeOfRvalue rv loc) rv ∨
    CastReadsNone (acx.typeOfRvalue rv loc) (acx.typeOfPlace pl)

/-- The guards `emit_cast_lty_lty` passes, with a lookup that failed. -/
theorem CastReadsNone.of_guards {src dst : LTy} (h1 : ¬(src.label.isNone ∧ dst.label.isNone))
    (h2 : ¬(!src.ty.isRawPtr ∧ !dst.ty.isRawPtr)) (h : src.label = none ∨ dst.label = none) :
    CastReadsNone src dst :=
  ⟨by by_contra hr; simp_all, h,
    by simpa [Option.isNone_iff_eq_none] using h1⟩

/-- The panics the instruction at `loc` can raise. -/
inductive PanicSite (acx : AnalysisCtxt) (asn : Assignment) (loc : Location) : Instr → Panic → Prop
  /-- `todo!("statement {:?}", stmt)` -/
  | todoStatement (s : Statement) (h : s.kind.isTodo) :
      PanicSite acx asn loc (.stmt s) (.todoStatement s)
  /-- `todo!("terminator {:?}", term)` -/
  | todoTerminator (t : Terminator) (h : t.kind = .inlineAsm) :
      PanicSite acx asn loc (.term t) (.todoTerminator t)
  /-- `args[0]` of a call of `ptr.offset` or `as_ptr` without arguments. -/
  | argsIndex (func : Operand) (destination : Place) (span : Span) (h : acx.tyCallee func ≠ .other) :
      PanicSite acx asn loc (.term ⟨.call func [] destination, span⟩) .argsIndex
  /-- `unreachable!` on a `ptr.offset` whose result resolves to an array. -/
  | unreachableArray (func op : Operand) (args : List Operand) (destination : Place) (span : Span)
      (hc : acx.tyCallee func = .ptrOffset)
      (hq : (descOf acx asn (acx.typeOfPlace destination)).qty = .array) :
      PanicSite acx asn loc (.term ⟨.call func (op :: args) destination, span⟩) .unreachableArray
  /-- `assert_eq!` on a cast at an assignment. -/
  | assertAssign (pl : Place) (rv : Rvalue) (span : Span) (e : Panic) (h : e.isPointeeMismatch) :
      PanicSite acx asn loc (.stmt ⟨.assign pl rv, span⟩) e
  /-- `assert_eq!` on the cast of a `ptr.offset` argument. -/
  | assertOffset (func op : Operand) (args : List Operand) (destination : Place) (span : Span)
      (hc : acx.tyCallee func = .ptrOffset) (e : Panic) (h : e.isPointeeMismatch) :
      PanicSite acx asn loc (.term ⟨.call func (op :: args) destination, span⟩) e
  /-- A lookup of an assignment at `PointerId::NONE`. -/
  | noneAssign (pl : Place) (rv : Rvalue) (span : Span) (h : AssignReadsNone acx loc pl rv) :
      PanicSite acx asn loc (.stmt ⟨.assign pl rv, span⟩) .pointerIdNone
  /-- `self.perms[result_lty.label]` of a `ptr.offset` with an unlabeled result. -/
  | noneOffset (func op : Operand) (args : List Operand) (destination : Place) (span : Span)
      (hc : acx.tyCallee func = .ptrOffset) (h : (acx.typeOfPlace destination).label = none) :
      PanicSite acx asn loc (.term ⟨.call func (op :: args) destination, span⟩) .pointerIdNone
  /-- `self.perms[op_lty.label]` or `self.perms[result_lty.label]` of an `as_ptr`. -/
  | noneAsPtr (func op : Operand) (args : List Operand) (destination : Place) (span : Span)
      (hc : acx.tyCallee func = .sliceAsPtr)
      (h : (acx.typeOfOperand op).label = none ∨ (acx.typeOfPlace destination).label = none) :
      PanicSite acx asn loc (.term ⟨.call func (op :: args) destination, span⟩) .pointerIdNone

/-! ### One lemma per method -/

section Methods

variable (acx : AnalysisCtxt) (asn : Assignment)

theorem fails_emitCastDescDesc (src dst : TypeDesc) :
    Fails Panic.isPointeeMismatch (emitCastDescDesc acx src dst) :=
  Fails.ite (fun hne => fails_error nofun hne)
    fun _ => Fails.ite (fun _ => fails_pure _)
      fun _ => Fails.ite (fun _ => fails_emit _ _) fun _ => fails_pure _

/-- A cast past its guards looks both sides up. -/
theorem fails_emitCastLtyLty (srcLty dstLty : LTy) :
    Fails (fun e => e.isPointeeMismatch ∨ e = .pointerIdNone ∧ CastReadsNone srcLty dstLty)
      (emitCastLtyLty acx asn srcLty dstLty) :=
  Fails.ite (fun _ => fails_pure _) fun h1 => Fails.ite (fun _ => fails_pure _) fun h2 =>
    Fails.lookup (fun _ h => let ⟨he, hl⟩ := descAt_error acx asn h
        ⟨he, .inr ⟨he, .of_guards h1 h2 (.inl hl)⟩⟩) fun _ _ =>
      Fails.lookup (fun _ h => let ⟨he, hl⟩ := descAt_error acx asn h
          ⟨he, .inr ⟨he, .of_guards h1 h2 (.inr hl)⟩⟩) fun _ _ =>
        (fails_emitCastDescDesc acx _ _).mono fun _ => .inl

theorem fails_visitOperand (op : Operand) (expect : Option LTy) :
    Fails (fun e => e.isPointeeMismatch ∨
      e = .pointerIdNone ∧ ∃ t, expect = some t ∧ OperandReadsNone acx op t)
      (visitOperand acx asn op expect) := by
  cases op
  case constant => exact fails_pure _
  all_goals
    refine Fails.bind (fails_pure _) ?_
    cases expect
    · exact fails_pure _
    · exact Fails.ite (fun hs => (fails_emitCastLtyLty acx asn _ _).mono fun _ h =>
          h.imp_right fun ⟨he, hc⟩ => ⟨he, _, rfl, _, rfl, hs, hc⟩) fun _ => fails_pure _

/-- `visit_operand_desc` casts only a labeled place, whose lookup succeeds. -/
theorem fails_visitOperandDesc (op : Operand) (expect : TypeDesc) :
    Fails Panic.isPointeeMismatch (visitOperandDesc acx asn op expect) := by
  cases op <;>
    first
    | exact fails_pure _
    | exact Fails.bind (fails_pure _)
        (Fails.ite (fun hs => Fails.lookup
          (fun _ h => by rw [descAt_of_isSome acx asn hs] at h; cases h)
          fun _ _ => fails_emitCastDescDesc acx _ _) fun _ => fails_pure _)

/-- An operand visited with no expected type is never cast. -/
theorem fails_enter_visitOperand_none (sub : SubLoc) (op : Operand) :
    Fails Panic.isPointeeMismatch (enter sub (visitOperand acx asn op none)) :=
  (fails_visitOperand acx asn op none).enter.mono fun _ h => h.resolve_right nofun

theorem fails_visitAggregateOps (ops : List Operand) (i : ℕ) :
    Fails Panic.isPointeeMismatch (visitAggregateOps acx asn ops i) := by
  induction ops generalizing i with
  | nil => exact fails_pure _
  | cons op ops ih => exact Fails.bind (fails_enter_visitOperand_none acx asn _ op) (ih _)

theorem fails_rawToRefOf (mutbl : Mutability) (own : Ownership) :
    Fails Panic.isPointeeMismatch (rawToRefOf mutbl own) := by
  cases own <;> first | exact fails_emit _ _ | exact fails_pure _

/-- An rvalue stops on the cast of its operand, or on a lookup at the
expected type. -/
theorem fails_visitRvalue (rv : Rvalue) (expect : Option LTy) :
    Fails (fun e => e.isPointeeMismatch ∨
      e = .pointerIdNone ∧ ∃ t, expect = some t ∧ RvalueReadsNone acx t rv)
      (visitRvalue acx asn rv expect) := by
  cases rv with
  | use o => exact (fails_visitOperand acx asn o expect).enter
  | «repeat» o _ | cast _ o _ | unaryOp _ o | shallowInitBox o _ =>
    exact (fails_enter_visitOperand_none acx asn _ o).mono fun _ => .inl
  | addressOf mutbl pl =>
    refine Fails.bind (fails_pure _).enter ?_
    cases expect
    · exact fails_pure _
    · exact Fails.lookup (fun _ h => let ⟨he, hl⟩ := descAt_error acx asn h
        ⟨he, .inr ⟨he, _, rfl, hl⟩⟩) fun _ _ => (fails_rawToRefOf _ _).enter.mono fun _ => .inl
  | binaryOp _ a b | checkedBinaryOp _ a b =>
    exact Fails.bind ((fails_enter_visitOperand_none acx asn _ a).mono fun _ => .inl)
      ((fails_enter_visitOperand_none acx asn _ b).mono fun _ => .inl)
  | aggregate _ ops => exact (fails_visitAggregateOps acx asn ops 0).mono fun _ => .inl
  | threadLocalRef _ | nullaryOp _ _ => exact fails_pure _
  | ref _ _ pl | len pl | discriminant pl | copyForDeref pl => exact (fails_pure _).enter

theorem fails_visitCellSet (pl : Place) :
    Fails (fun e => e = .pointerIdNone ∧ CellSetReadsNone acx pl) (visitCellSet acx asn pl) :=
  Fails.ite (fun ⟨hi, hp⟩ => Fails.lookup (fun _ h => let ⟨he, hl⟩ := descAt_error acx asn h
      ⟨he, he, hi, hp, hl⟩) fun _ _ =>
      Fails.ite (fun _ => (fails_emit _ _).enter) fun _ => fails_pure _)
    fun _ => fails_pure _

theorem fails_visitCellUse (pl : Place) (rv : Rvalue) :
    Fails (fun e => e = .pointerIdNone ∧ CellUseReadsNone acx pl rv) (visitCellUse acx asn pl rv) := by
  cases rv
  case use rvOp =>
    refine Fails.lookup (fun _ h => let ⟨he, hl⟩ := permsAt_error asn h; ⟨he, he, .inl hl⟩)
      fun _ _ => Fails.lookup (fun _ h => let ⟨he, hl⟩ := flagsAt_error asn h; ⟨he, he, .inl hl⟩)
        fun _ _ => Fails.bind (Fails.select (fails_emit _ _).enter.enter (fails_pure _)) ?_
    cases hp : rvOp.place
    · exact fails_pure _
    · exact Fails.ite (fun ⟨hi, ha⟩ => Fails.lookup (fun _ h => let ⟨he, hl⟩ := flagsAt_error asn h
          ⟨he, he, .inr ⟨_, hp, hi, ha, hl⟩⟩) fun _ _ =>
          Fails.ite (fun _ => (fails_emit _ _).enter.enter) fun _ => fails_pure _)
        fun _ => fails_pure _
  all_goals exact fails_pure _

/-- An assignment stops on a cast, or on a lookup at `PointerId::NONE`. -/
theorem fails_visitAssign (pl : Place) (rv : Rvalue) (loc : Location) :
    Fails (fun e => e.isPointeeMismatch ∨ e = .pointerIdNone ∧ AssignReadsNone acx loc pl rv)
      (visitAssign acx asn pl rv loc) :=
  Fails.ite (fun _ => fails_pure _) fun _ =>
    Fails.bind ((fails_visitCellSet acx asn pl).mono fun _ ⟨he, h⟩ => .inr ⟨he, .inl h⟩)
      (Fails.bind ((fails_visitCellUse acx asn pl rv).mono fun _ ⟨he, h⟩ => .inr ⟨he, .inr (.inl h)⟩)
        (Fails.bind ((fails_visitRvalue acx asn rv _).enter.mono fun _ h =>
            h.imp_right fun ⟨he, _, ht, h⟩ => ⟨he, .inr (.inr (.inl (Option.some.inj ht ▸ h)))⟩)
          (Fails.bind ((fails_emitCastLtyLty acx asn _ _).mono fun _ h =>
              h.imp_right fun ⟨he, h⟩ => ⟨he, .inr (.inr (.inr h))⟩)
            (fails_pure _).enter)))

/-- A `ptr.offset` call stops on its result's lookup, on an array result, or
on the cast of its argument. -/
theorem fails_visitPtrOffset (op : Operand) (resultTy : LTy) :
    Fails (fun e => e = .unreachableArray ∧ (descOf acx asn resultTy).qty = .array ∨
      e = .pointerIdNone ∧ resultTy.label = none ∨ e.isPointeeMismatch)
      (visitPtrOffset acx asn op resultTy) := by
  refine Fails.lookup (fun _ h => let ⟨he, hl⟩ := descAt_error acx asn h; ⟨he, .inr (.inl ⟨he, hl⟩)⟩)
    fun d hd => ?_
  cases hq : offsetArgQty d.qty with
  | error e =>
    obtain ⟨rfl, ha⟩ := offsetArgQty_error hq
    exact fails_error nofun (.inl ⟨rfl, eq_descOf_of_descAt acx asn hd ▸ ha⟩)
  | ok q =>
    exact Fails.bind ((fails_visitOperandDesc acx asn op _).enter.mono fun _ h => .inr (.inr h))
      (Fails.bind (fails_emit _ _) (Fails.ite (fun _ => fails_emit _ _) fun _ => fails_pure _))

theorem fails_visitSliceAsPtr (op : Operand) (resultLty : LTy) :
    Fails (fun e => e = .pointerIdNone ∧
      ((acx.typeOfOperand op).label = none ∨ resultLty.label = none))
      (visitSliceAsPtr acx asn op resultLty) :=
  Fails.lookup (fun _ h => let ⟨he, hl⟩ := descAt_error acx asn h; ⟨he, he, .inl hl⟩) fun _ _ =>
    Fails.lookup (fun _ h => let ⟨he, hl⟩ := descAt_error acx asn h; ⟨he, he, .inr hl⟩) fun _ _ =>
      Fails.ite (fun _ => fails_emit _ _) fun _ => fails_pure _

theorem fails_visitStatementKind (stmt : Statement) (loc : Location) :
    Fails (PanicSite acx asn loc (.stmt stmt)) (visitStatementKind acx asn stmt loc) := by
  obtain ⟨kind, span⟩ := stmt
  unfold visitStatementKind
  cases kind
  case assign pl rv =>
    exact (fails_visitAssign acx asn pl rv loc).mono fun e h =>
      h.elim (.assertAssign pl rv span e) fun ⟨he, h⟩ => he ▸ .noneAssign pl rv span h
  case setDiscriminant | copyNonOverlapping => exact fails_error nofun (.todoStatement _ rfl)
  all_goals exact fails_pure _

theorem fails_visitTerminatorKind (term : Terminator) (loc : Location) :
    Fails (PanicSite acx asn loc (.term term)) (visitTerminatorKind acx asn term) := by
  obtain ⟨kind, span⟩ := term
  unfold visitTerminatorKind
  cases kind
  case call func args destination =>
    dsimp only
    cases hc : acx.tyCallee func <;> cases args <;>
      first
      | exact fails_error nofun (.argsIndex _ _ _ (by simp [hc]))
      | exact (fails_visitPtrOffset acx asn _ _).mono fun e h => by
          rcases h with ⟨rfl, hq⟩ | ⟨rfl, hl⟩ | h
          · exact .unreachableArray _ _ _ _ _ hc hq
          · exact .noneOffset _ _ _ _ _ hc hl
          · exact .assertOffset _ _ _ _ _ hc e h
      | exact (fails_visitSliceAsPtr acx asn _ _).mono fun e ⟨he, hl⟩ =>
          he ▸ .noneAsPtr _ _ _ _ _ hc hl
      | exact fails_pure _
  case inlineAsm => exact fails_error nofun (.todoTerminator _ rfl)
  all_goals exact fails_pure _

theorem fails_visitInstrKind (ins : Instr) (loc : Location) :
    Fails (PanicSite acx asn loc ins) (visitInstrKind acx asn ins loc) := by
  cases ins
  · exact fails_visitStatementKind acx asn _ loc
  · exact fails_visitTerminatorKind acx asn _ loc

end Methods

/-! ### Over a whole body -/

section Run

variable (acx : AnalysisCtxt) (asn : Assignment)

/-- A `todo!` instruction panics whatever the visitor. -/
theorem emitted_todo {ins : Instr} (h : ins.isTodo) (loc : Location) :
    ∃ e, emitted (visitInstrKind acx asn ins loc) = .error e := by
  rcases ins with ⟨kind, sp⟩ | ⟨kind, sp⟩ <;> cases kind <;> cases h <;> exact ⟨_, rfl⟩

/-- One step of the per-instruction map: the head instruction, visited
alone, then the rest, then the head's entry. -/
theorem perInstruction_cons (loc : Location) (ins : Instr) (L : List (Location × Instr)) :
    perInstruction acx asn ((loc, ins) :: L) =
      emitted (visitInstrKind acx asn ins loc) >>= fun rs => perInstruction acx asn L >>= fun m =>
        pure (Function.update m loc (if rs = [] then none else some rs)) := by
  simp only [perInstruction, visitInstr_eq, if_pos ExprRewriteVisitor.new_subLoc]
  cases emitted (visitInstrKind acx asn ins loc) with
  | error e => rfl
  | ok rs =>
    show perInstruction acx asn L >>= _ = perInstruction acx asn L >>= _
    rw [ExprRewriteVisitor.record_rewrites_self rfl rfl]

/-- A step that gets through: both parts got through, and the head's entry
is filed over the rest's map. -/
theorem perInstruction_cons_ok {loc : Location} {ins : Instr} {L : List (Location × Instr)}
    {m : RewriteMap} (h : perInstruction acx asn ((loc, ins) :: L) = .ok m) :
    ∃ rs m', emitted (visitInstrKind acx asn ins loc) = .ok rs ∧ perInstruction acx asn L = .ok m' ∧
      m = Function.update m' loc (if rs = [] then none else some rs) := by
  rw [perInstruction_cons] at h
  cases he : emitted (visitInstrKind acx asn ins loc) <;> cases hm : perInstruction acx asn L <;>
    rw [he, hm] at h <;> cases h
  exact ⟨_, _, rfl, rfl, rfl⟩

/-- A step that fails, fails at its head or in the rest. -/
theorem perInstruction_cons_error {loc : Location} {ins : Instr} {L : List (Location × Instr)}
    {e : Panic} (h : perInstruction acx asn ((loc, ins) :: L) = .error e) :
    emitted (visitInstrKind acx asn ins loc) = .error e ∨ perInstruction acx asn L = .error e := by
  rw [perInstruction_cons] at h
  cases he : emitted (visitInstrKind acx asn ins loc) <;> cases hm : perInstruction acx asn L <;>
    rw [he, hm] at h <;> cases h
  exacts [.inl rfl, .inl rfl, .inr rfl]

/-- A failed run stops at an instruction that fails on its own, with its panic. -/
theorem perInstruction_error {L : List (Location × Instr)} {e : Panic}
    (h : perInstruction acx asn L = .error e) :
    ∃ p ∈ L, emitted (visitInstrKind acx asn p.2 p.1) = .error e := by
  induction L with
  | nil => cases h
  | cons p L ih =>
    rcases perInstruction_cons_error acx asn h with he | hm
    · exact ⟨p, List.mem_cons_self _ _, he⟩
    · obtain ⟨q, hq, he'⟩ := ih hm
      exact ⟨q, List.mem_cons_of_mem _ hq, he'⟩

/-- A run fails once one of its instructions fails on its own. -/
theorem perInstruction_error_of_mem {L : List (Location × Instr)} {p : Location × Instr}
    (hp : p ∈ L) {e : Panic} (he : emitted (visitInstrKind acx asn p.2 p.1) = .error e) :
    ∃ e', perInstruction acx asn L = .error e' := by
  induction L with
  | nil => cases hp
  | cons q L ih =>
    rw [perInstruction_cons]
    cases hq : emitted (visitInstrKind acx asn q.2 q.1) with
    | error e' => exact ⟨e', rfl⟩
    | ok rs =>
      rcases List.mem_cons.1 hp with rfl | hp
      · rw [he] at hq; cases hq
      · obtain ⟨e', he'⟩ := ih hp
        exact ⟨e', by rw [he']; rfl⟩

/-- **Where a run panics.** Every panic of `gen_mir_rewrites` is raised at
one of the six sites, by an instruction of the body at its location, so the `debug_assert!`
on the path stack never fires; and a body that holds a `todo!` instruction
panics, wherever it stands and whatever the analysis facts. -/
theorem genMirRewrites_panics (body : Body) :
    (∀ e, genMirRewrites acx asn body = .error e → ∃ p ∈ body.instrs, PanicSite acx asn p.1 p.2 e) ∧
      ∀ p ∈ body.instrs, p.2.isTodo → ∃ e, genMirRewrites acx asn body = .error e := by
  rw [genMirRewrites_eq]
  constructor
  · intro e h
    cases hm : perInstruction acx asn body.instrs with
    | ok m => rw [hm] at h; cases h
    | error e' =>
      rw [hm] at h
      cases h
      obtain ⟨p, hp, he⟩ := perInstruction_error acx asn hm
      exact ⟨p, hp, (fails_visitInstrKind acx asn p.2 p.1).emitted he⟩
  · intro p hp htodo
    obtain ⟨e, he⟩ := emitted_todo acx asn htodo p.1
    obtain ⟨e', he'⟩ := perInstruction_error_of_mem acx asn hp he
    exact ⟨e', by rw [he']; rfl⟩

end Run

/-- The statement an enum write lowers to, `discriminant(_1) = 1`, then `return`. -/
def enumWriteBody : Body :=
  ⟨[⟨[⟨.setDiscriminant ⟨1, []⟩ 1, ⟨3, 9⟩⟩], some ⟨.return, ⟨0, 10⟩⟩⟩]⟩

/-- The enum write stops the pass. -/
theorem enumWrite_panics :
    (⟨⟨0, 0⟩, .stmt ⟨.setDiscriminant ⟨1, []⟩ 1, ⟨3, 9⟩⟩⟩ : Location × Instr) ∈ enumWriteBody.instrs ∧
      ∃ e, genMirRewrites (uniformCtxt ⟨.cell, .single, .other 0⟩) noPerms enumWriteBody = .error e :=
  ⟨by decide, (genMirRewrites_panics _ _ enumWriteBody).2 ⟨⟨0, 0⟩, .stmt ⟨.setDiscriminant ⟨1, []⟩ 1, ⟨3, 9⟩⟩⟩
    (by decide) rfl⟩

end Mir

end C2RustRewrite
