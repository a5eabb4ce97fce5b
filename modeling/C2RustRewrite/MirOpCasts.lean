/-
# What the conversions convert

Two rewrite kinds change what a pointer is, and each has a doc comment
that says how. Each conversion is stated on its own and then shown to hold
of every rewrite of that kind a run files.

`RewriteKind::MutToImm` replaces a pointer `ptr` by `&*ptr`, "converting
`&mut T` to `&T`". The visitor files it from `emit_cast_desc_desc` alone,
which three places reach: the cast of an assignment's value to its
destination (`emit_cast_lty_lty`, under `[]`), the cast of a used operand
to the rvalue's type (`visit_operand`, under
`[AssignRvalue, RvalueOperand(0)]`), and the cast of a `ptr.offset`
argument to the widened result (`visit_operand_desc`, under
`[CallArg(0)]`). At each of them the conversion is the one the doc comment
names (`MutToImmOk`): from a `Mut` pointer to an `Imm` one, of the same
quantity and, regions erased, of the same pointee type. `CastAt` names the
two descriptors the visitor converts between under a path
(`genMirRewrites_mutToImm`).

`RewriteKind::RawToRef { mutbl }` replaces "`&raw` with `&` or `&raw mut`
with `&mut`". It is filed at an assignment of an `AddressOf` only, and
keeps the raw borrow's mutability when the expected type is a reference;
a `Cell` gets a shared reference (`RawToRefOk`). No `RawToRef` makes a
mutable reference of an `&raw const` (`genMirRewrites_rawToRef`).

Key definitions: `MutToImmOk`, `CastAt`, `RawToRefOk`, `RawToRefAt`.
Key theorems: `files_cast_emitCastDescDesc`, `files_cast_visitAssign`,
`files_cast_visitPtrOffset`, `files_cast_visitInstrKind`,
`genMirRewrites_mutToImm`, `files_rawToRef_visitAssign`,
`genMirRewrites_rawToRef`.
-/
import C2RustRewrite.MirOpSlots

namespace C2RustRewrite
namespace Mir

/-- What `MutToImm` converts, as its doc comment says: a `Mut` pointer to
an `Imm` one, of the same quantity and, regions erased, the same pointee. -/
structure MutToImmOk (acx : AnalysisCtxt) (src dst : TypeDesc) : Prop where
  src_mut : src.own = .mut
  dst_imm : dst.own = .imm
  qty_eq : src.qty = dst.qty
  pointee_eq : acx.eraseRegions src.pointeeTy = acx.eraseRegions dst.pointeeTy

/-- A `MutToImm` under `path` at `ins` converts soundly the two descriptors
the visitor casts between there: an assignment's value to its destination
under `[]`; a used operand's place to the rvalue under
`[AssignRvalue, RvalueOperand(0)]`; a `ptr.offset` argument's place to the
widened result under `[CallArg(0)]`. No other path holds a `MutToImm`. -/
def CastAt (acx : AnalysisCtxt) (asn : Assignment) (ins : Instr) (loc : Location) :
    List SubLoc → Prop
  | [] =>
    match ins with
    | .stmt ⟨.assign pl rv, _⟩ =>
      MutToImmOk acx (descOf acx asn (acx.typeOfRvalue rv loc)) (descOf acx asn (acx.typeOfPlace pl))
    | _ => False
  | [.assignRvalue, .rvalueOperand 0] =>
    match ins with
    | .stmt ⟨.assign _ (.use op), _⟩ =>
      ∃ pl, op.place = some pl ∧ MutToImmOk acx (descOf acx asn (acx.typeOfPlace pl))
        (descOf acx asn (acx.typeOfRvalue (.use op) loc))
    | _ => False
  | [.callArg 0] =>
    match ins with
    | .term ⟨.call func (op :: _) destination, _⟩ =>
      acx.tyCallee func = .ptrOffset ∧ ∃ pl q, op.place = some pl ∧
        offsetArgQty (descOf acx asn (acx.typeOfPlace destination)).qty = .ok q ∧
        MutToImmOk acx (descOf acx asn (acx.typeOfPlace pl))
          ⟨(descOf acx asn (acx.typeOfPlace destination)).own, q,
            (descOf acx asn (acx.typeOfPlace destination)).pointeeTy⟩
    | _ => False
  | _ => False

/-- What `RawToRef { mutbl: m }` makes of an `&raw` of mutability `mutbl`
whose expected type resolves to ownership `own`: as its doc comment says,
`&raw` becomes `&` and `&raw mut` becomes `&mut` when the expected type is
a reference; a `Cell` gets a shared reference. -/
def RawToRefOk (mutbl : Mutability) (own : Ownership) (m : Bool) : Prop :=
  (own = .imm ∨ own = .mut) ∧ m = (mutbl == .mut) ∨ own = .cell ∧ m = false

/-- A `RawToRef { mutbl: m }` under `path` at `ins`: at an assignment of an
`AddressOf`, under its first operand, as `RawToRefOk` says for the rvalue's
expected type. -/
def RawToRefAt (acx : AnalysisCtxt) (asn : Assignment) (ins : Instr) (loc : Location)
    (path : List SubLoc) (m : Bool) : Prop :=
  match ins with
  | .stmt ⟨.assign _ rv@(.addressOf mutbl _), _⟩ =>
    path = [.assignRvalue, .rvalueOperand 0] ∧
      RawToRefOk mutbl (descOf acx asn (acx.typeOfRvalue rv loc)).own m
  | _ => False

/-- A visit chosen by a condition, each branch knowing which it is. -/
theorem Files.ite_cond {P : MirRewrite → Prop} {f g : Visit} {c : Prop} [Decidable c]
    (hf : c → Files P f) (hg : ¬ c → Files P g) : Files P fun v => if c then f v else g v := by
  by_cases h : c
  · simpa [h] using hf h
  · simpa [h] using hg h

/-- A descriptor lookup that gets through finds what `descOf` computes. -/
theorem Files.lookupDesc {P : MirRewrite → Prop} {acx : AnalysisCtxt} {asn : Assignment}
    {lty : LTy} {f : TypeDesc → Visit} (h : Files P (f (descOf acx asn lty))) :
    Files P fun v => descAt acx asn lty >>= fun d => f d v :=
  Files.lookup (descAt_panic acx asn lty) fun _ hd => (eq_descOf_of_descAt acx asn hd).symm ▸ h

/-! ### One lemma per method -/

section Methods

variable (acx : AnalysisCtxt) (asn : Assignment)

/-- **The cast.** `emit_cast_desc_desc` files `MutToImm` only past its
`assert_eq!` on the pointees, between two descriptors of one quantity that
go from `Mut` to `Imm`. -/
theorem files_cast_emitCastDescDesc (src dst : TypeDesc) :
    Files (fun r => r = ⟨.mutToImm, []⟩ ∧ MutToImmOk acx src dst) (emitCastDescDesc acx src dst) :=
  Files.ite_cond (fun _ => files_error _ _ nofun) fun hp =>
    Files.ite_cond (fun _ => files_pure _) fun _ =>
      Files.ite_cond (fun ⟨hq, ho⟩ =>
          files_emit ⟨rfl, (Prod.mk.inj ho).1, (Prod.mk.inj ho).2, hq, not_not.1 hp⟩)
        fun _ => files_pure _

theorem files_cast_emitCastLtyLty (srcLty dstLty : LTy) :
    Files (fun r => r = ⟨.mutToImm, []⟩ ∧
        MutToImmOk acx (descOf acx asn srcLty) (descOf acx asn dstLty))
      (emitCastLtyLty acx asn srcLty dstLty) :=
  Files.ite (files_pure _) <| Files.ite (files_pure _) <|
    Files.lookupDesc <| Files.lookupDesc <| files_cast_emitCastDescDesc acx _ _

/-- An operand cast to an expected type converts its place's descriptor. -/
theorem files_cast_visitOperand (op : Operand) (e : LTy) :
    Files (fun r => r = ⟨.mutToImm, []⟩ ∧ ∃ pl, op.place = some pl ∧
        MutToImmOk acx (descOf acx asn (acx.typeOfPlace pl)) (descOf acx asn e))
      (visitOperand acx asn op (some e)) := by
  cases op
  case constant => exact files_pure _
  all_goals exact Files.bind (files_pure _) (Files.ite
    ((files_cast_emitCastLtyLty acx asn _ _).mono fun _ ⟨h, hok⟩ => ⟨h, _, rfl, hok⟩) (files_pure _))

theorem files_cast_visitOperandDesc (op : Operand) (expect : TypeDesc) :
    Files (fun r => r = ⟨.mutToImm, []⟩ ∧ ∃ pl, op.place = some pl ∧
        MutToImmOk acx (descOf acx asn (acx.typeOfPlace pl)) expect)
      (visitOperandDesc acx asn op expect) := by
  cases op
  case constant => exact files_pure _
  all_goals exact Files.bind (files_pure _) (Files.ite (Files.lookupDesc
    ((files_cast_emitCastDescDesc acx _ _).mono fun _ ⟨h, hok⟩ => ⟨h, _, rfl, hok⟩)) (files_pure _))

/-- An rvalue files `MutToImm` only for a `Use`, at its operand. -/
theorem files_cast_visitRvalue (rv : Rvalue) (e : LTy) :
    Files (fun r => r.kind = .mutToImm → r.subLoc = [.rvalueOperand 0] ∧ ∃ op pl, rv = .use op ∧
        op.place = some pl ∧ MutToImmOk acx (descOf acx asn (acx.typeOfPlace pl)) (descOf acx asn e))
      (visitRvalue acx asn rv (some e)) := by
  cases rv
  case use op =>
    exact Files.enter (files_cast_visitOperand acx asn op e) fun _ ⟨h, pl, hpl, hok⟩ _ => by
      subst h
      exact ⟨rfl, op, pl, rfl, hpl, hok⟩
  all_goals
    exact (files_visitRvalue acx asn _ _).mono fun r ⟨_, h⟩ hk => by
      simp [Rvalue.isUse, Rvalue.isAddressOf, hk, RewriteKind.isRawToRef] at h

/-- **An assignment's casts.** The value to the destination under `[]`, a
used operand to the rvalue at its first operand; `CellSet`, `CellNew` and
`CellGet` are no casts. -/
theorem files_cast_visitAssign (pl : Place) (rv : Rvalue) (loc : Location) (span : Span) :
    Files (fun r => r.kind = .mutToImm → CastAt acx asn (.stmt ⟨.assign pl rv, span⟩) loc r.subLoc)
      (visitAssign acx asn pl rv loc) :=
  Files.ite (files_pure _)
    (Files.bind ((files_visitCellSet acx asn pl).mono fun _ h hk => by subst h; cases hk)
      (Files.bind ((files_visitCellUse acx asn pl rv).mono fun _ ⟨_, _, hc⟩ hk => by
          rcases hc with h | h <;> simp [h] at hk)
        (Files.bind (Files.enter (files_cast_visitRvalue acx asn rv _) fun r h hk => by
            obtain ⟨hs, op, pl', rfl, hpl, hok⟩ := h hk
            simp only [MirRewrite.under, hs]
            exact ⟨pl', hpl, hok⟩)
          (Files.bind ((files_cast_emitCastLtyLty acx asn _ _).mono fun _ ⟨h, hok⟩ _ => by
              subst h
              exact hok)
            (Files.enter (files_pure fun _ => False) fun _ h => h.elim)))))

/-- **A `ptr.offset` call's cast.** Its argument's place to the result,
widened to the quantity `offsetArgQty` gives. -/
theorem files_cast_visitPtrOffset (op : Operand) (resultTy : LTy) :
    Files (fun r => r.kind = .mutToImm → r.subLoc = [.callArg 0] ∧ ∃ pl q, op.place = some pl ∧
        offsetArgQty (descOf acx asn resultTy).qty = .ok q ∧
        MutToImmOk acx (descOf acx asn (acx.typeOfPlace pl))
          ⟨(descOf acx asn resultTy).own, q, (descOf acx asn resultTy).pointeeTy⟩)
      (visitPtrOffset acx asn op resultTy) :=
  files_visitPtrOffset_of acx asn op resultTy (fun d q hd hq => by
      obtain rfl := eq_descOf_of_descAt acx asn hd
      exact Files.enter (files_cast_visitOperandDesc acx asn op _) fun _ ⟨h, pl, hpl, hok⟩ _ => by
        subst h
        exact ⟨rfl, pl, q, hpl, hq, hok⟩)
    fun _ => ⟨nofun, nofun⟩

/-- **The instruction-level casts.** -/
theorem files_cast_visitInstrKind (ins : Instr) (loc : Location) :
    Files (fun r => r.kind = .mutToImm → CastAt acx asn ins loc r.subLoc)
      (visitInstrKind acx asn ins loc) := by
  rcases ins with ⟨kind, span⟩ | ⟨kind, span⟩ <;> cases kind
  case stmt.mk.assign pl rv => exact files_cast_visitAssign acx asn pl rv loc span
  case term.mk.call func args destination =>
    cases args with
    | nil =>
      unfold visitInstrKind visitTerminatorKind
      dsimp only
      cases acx.tyCallee func
      all_goals first | exact files_error _ _ nofun | exact files_pure _
    | cons op args =>
      rw [visitInstrKind_call]
      cases hc : acx.tyCallee func
      · exact (files_cast_visitPtrOffset acx asn op _).mono fun _ h hk => by
          obtain ⟨hs, pl, q, hpl, hq, hok⟩ := h hk
          rw [hs]
          exact ⟨hc, pl, q, hpl, hq, hok⟩
      · exact (files_visitSliceAsPtr acx asn op _).mono fun _ h hk => by subst h; cases hk
      · exact files_pure _
  all_goals first | exact files_error _ _ nofun | exact files_pure _

/-- `RawToRef` is what `rawToRefOf` files, by the expected ownership. -/
theorem files_rawToRef_rawToRefOf (mutbl : Mutability) (own : Ownership) :
    Files (fun r => ∀ m, r.kind = .rawToRef m → r.subLoc = [] ∧ RawToRefOk mutbl own m)
      (rawToRefOf mutbl own) := by
  cases own
  case cell => exact files_emit fun _ hk => by cases hk; exact ⟨rfl, .inr ⟨rfl, rfl⟩⟩
  case imm => exact files_emit fun _ hk => by cases hk; exact ⟨rfl, .inl ⟨.inl rfl, rfl⟩⟩
  case «mut» => exact files_emit fun _ hk => by cases hk; exact ⟨rfl, .inl ⟨.inr rfl, rfl⟩⟩
  all_goals exact files_pure _

/-- An rvalue files `RawToRef` only for an `AddressOf`, at its operand. -/
theorem files_rawToRef_visitRvalue (rv : Rvalue) (e : LTy) :
    Files (fun r => ∀ m, r.kind = .rawToRef m → r.subLoc = [.rvalueOperand 0] ∧
        ∃ mutbl pl, rv = .addressOf mutbl pl ∧ RawToRefOk mutbl (descOf acx asn e).own m)
      (visitRvalue acx asn rv (some e)) := by
  cases rv
  case addressOf mutbl pl =>
    exact Files.bind (Files.enter (files_pure fun _ => False) fun _ h => h.elim)
      (Files.lookupDesc (Files.enter (files_rawToRef_rawToRefOf mutbl _) fun r h m hk =>
        let ⟨hs, hok⟩ := h m hk
        ⟨by simp [MirRewrite.under, hs], mutbl, pl, rfl, hok⟩))
  all_goals
    exact (files_visitRvalue acx asn _ _).mono fun r ⟨_, h⟩ m hk => by
      simp [Rvalue.isUse, Rvalue.isAddressOf, hk] at h

/-- **An assignment's `RawToRef`.** Only the rvalue of an `AddressOf` gets one. -/
theorem files_rawToRef_visitAssign (pl : Place) (rv : Rvalue) (loc : Location) (span : Span) :
    Files (fun r => ∀ m, r.kind = .rawToRef m →
        RawToRefAt acx asn (.stmt ⟨.assign pl rv, span⟩) loc r.subLoc m)
      (visitAssign acx asn pl rv loc) :=
  Files.ite (files_pure _)
    (Files.bind ((files_visitCellSet acx asn pl).mono fun _ h _ hk => by subst h; cases hk)
      (Files.bind ((files_visitCellUse acx asn pl rv).mono fun _ ⟨_, _, hc⟩ _ hk => by
          rcases hc with h | h <;> simp [h] at hk)
        (Files.bind (Files.enter (files_rawToRef_visitRvalue acx asn rv _) fun r h m hk => by
            obtain ⟨hs, mutbl, pl', rfl, hok⟩ := h m hk
            exact ⟨by simp [MirRewrite.under, hs], hok⟩)
          (Files.bind ((files_emitCastLtyLty acx asn _ _).mono fun _ h _ hk => by subst h; cases hk)
            (Files.enter (files_pure fun _ => False) fun _ h => h.elim)))))

/-- **The instruction-level `RawToRef`s.** No terminator gets one. -/
theorem files_rawToRef_visitInstrKind (ins : Instr) (loc : Location) :
    Files (fun r => ∀ m, r.kind = .rawToRef m → RawToRefAt acx asn ins loc r.subLoc m)
      (visitInstrKind acx asn ins loc) := by
  rcases ins with ⟨kind, span⟩ | ⟨kind, span⟩
  · cases kind
    case assign pl rv => exact files_rawToRef_visitAssign acx asn pl rv loc span
    all_goals
      refine (files_visitInstrKind acx asn _ loc).mono fun _ h => ?_
      exact False.elim h
  · refine (files_visitInstrKind acx asn _ loc).mono fun r h m hk => ?_
    cases kind <;> simp only [Filed] at h
    case call func _ _ =>
      cases hc : acx.tyCallee func <;> simp only [hc, CallFiled] at h
      · rcases h with rfl | ⟨_, rfl | rfl⟩ <;> cases hk
      · subst h; cases hk

end Methods

/-! ### Over a whole body -/

/-- **What a `MutToImm` converts.** For every body and analysis result the
pass gets through, every `MutToImm` of its map converts, at the node its
path leads to, a `Mut` pointer into an `Imm` one of the same quantity and,
regions erased, the same pointee type: an assignment's value to its
destination, a used operand to the rvalue, or a `ptr.offset` argument to
the widened result. -/
theorem genMirRewrites_mutToImm (acx : AnalysisCtxt) (asn : Assignment) (body : Body)
    (loc : Location) (rs : List MirRewrite)
    (h : (· loc) <$> genMirRewrites acx asn body = .ok (some rs)) :
    ∃ ins, body.stmtAt loc = some ins ∧
      ∀ r ∈ rs, r.kind = .mutToImm → CastAt acx asn ins loc r.subLoc := by
  obtain ⟨ins, hins, he, -⟩ := genMirRewrites_entry acx asn h
  exact ⟨ins, hins, (files_cast_visitInstrKind acx asn ins loc).emitted he⟩

/-- Analysis facts under which `_0` is an immutable and every other place,
and every rvalue, a mutable raw pointer. -/
def mutCopyCtxt : AnalysisCtxt where
  localTys _ := ⟨.rawPtr .not (.other 0), some 0⟩
  addrOfLocal _ := some 0
  typeOfPlace pl := if pl.local = 0 then ⟨.rawPtr .not (.other 0), some 0⟩ else ⟨.rawPtr .mut (.other 0), some 1⟩
  typeOfOperand _ := ⟨.rawPtr .mut (.other 0), some 1⟩
  typeOfRvalue _ _ := ⟨.rawPtr .mut (.other 0), some 1⟩
  shouldSkipStmt _ := false
  tyCallee _ := .other
  eraseRegions := id
  permsToDesc _ p _ := if p.bits = 1 then ⟨.mut, .single, .other 0⟩ else ⟨.imm, .single, .other 0⟩
  localPermsToDesc _ _ _ := ⟨.imm, .single, .other 0⟩

/-- The permission bit `1` on pointer `1` alone. -/
def mutPerms : Assignment := ⟨fun l => if l = some 1 then ⟨1⟩ else ⟨0⟩, fun _ => ⟨0⟩⟩

/-- `_0 = _1; return`: a mutable pointer copied into an immutable one. -/
def mutCopyBody : Body :=
  ⟨[⟨[⟨.assign ⟨0, []⟩ (.use (.copy ⟨1, []⟩)), Span.dummy⟩], some ⟨.return, Span.dummy⟩⟩]⟩

/-- The copy of a mutable pointer into an immutable one is cast by one
`MutToImm` of the whole value. -/
theorem mutCopy_mutToImm :
    (· ⟨0, 0⟩) <$> genMirRewrites mutCopyCtxt mutPerms mutCopyBody = .ok (some [⟨.mutToImm, []⟩]) ∧
      ∃ ins, mutCopyBody.stmtAt ⟨0, 0⟩ = some ins ∧ ∀ r ∈ [(⟨.mutToImm, []⟩ : MirRewrite)],
        r.kind = .mutToImm → CastAt mutCopyCtxt mutPerms ins ⟨0, 0⟩ r.subLoc :=
  ⟨entry_of_perInstruction (by decide) (by decide),
    genMirRewrites_mutToImm mutCopyCtxt mutPerms mutCopyBody ⟨0, 0⟩ _
      (entry_of_perInstruction (by decide) (by decide))⟩

/-- **What a `RawToRef` makes.** For every body and analysis result the
pass gets through, every `RawToRef { mutbl: m }` of its map is at an
assignment of an `AddressOf`, under its first operand, and turns `&raw`
into `&` and `&raw mut` into `&mut` when the rvalue's expected type is a
reference, and into a shared reference when it is a `Cell`: no `RawToRef`
ever makes a mutable reference of an `&raw const`. -/
theorem genMirRewrites_rawToRef (acx : AnalysisCtxt) (asn : Assignment) (body : Body)
    (loc : Location) (rs : List MirRewrite)
    (h : (· loc) <$> genMirRewrites acx asn body = .ok (some rs)) :
    ∃ ins, body.stmtAt loc = some ins ∧
      ∀ r ∈ rs, ∀ m, r.kind = .rawToRef m → RawToRefAt acx asn ins loc r.subLoc m := by
  obtain ⟨ins, hins, he, -⟩ := genMirRewrites_entry acx asn h
  exact ⟨ins, hins, (files_rawToRef_visitInstrKind acx asn ins loc).emitted he⟩

/-- `&raw const _1`, expected as an immutable reference, becomes `&_1`. -/
theorem addressOf_rawToRef_shared :
    (· ⟨0, 0⟩) <$> genMirRewrites (uniformCtxt ⟨.imm, .single, .other 0⟩) noPerms addressOfBody =
        .ok (some [⟨.rawToRef false, [.assignRvalue, .rvalueOperand 0]⟩]) ∧
      ∃ ins, addressOfBody.stmtAt ⟨0, 0⟩ = some ins ∧
        ∀ r ∈ [(⟨.rawToRef false, [.assignRvalue, .rvalueOperand 0]⟩ : MirRewrite)], ∀ m,
          r.kind = .rawToRef m →
            RawToRefAt (uniformCtxt ⟨.imm, .single, .other 0⟩) noPerms ins ⟨0, 0⟩ r.subLoc m :=
  ⟨entry_of_perInstruction (by decide) (by decide),
    genMirRewrites_rawToRef (uniformCtxt ⟨.imm, .single, .other 0⟩) noPerms addressOfBody ⟨0, 0⟩ _
      (entry_of_perInstruction (by decide) (by decide))⟩

end Mir

end C2RustRewrite
