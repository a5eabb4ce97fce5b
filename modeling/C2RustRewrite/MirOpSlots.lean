/-
# The order of an entry

The rewriter applies the rewrites of an entry in turn, so what matters of
an entry is not only which rewrites it holds but also their order and
their number. Each instruction has a fixed list of the rewrites it can be
filed with, in the order the visitor files them (`instrSlots`):

- an assignment `_ = rv`: `CellSet` at the right-hand side, `CellNew` and
  `CellGet` at its first operand (for a `Use`), the rewrite `visit_rvalue`
  files there (the cast of a `Use`, the `RawToRef` of an `AddressOf`), and
  the cast of the whole value;
- a call of `ptr.offset`: the cast of its first argument, `OffsetSlice` and
  `SliceFirst`, both of the offset's mutability; a call of `as_ptr`:
  `RemoveAsPtr`;
- any other instruction: none.

Every entry of a run's map is a selection of its instruction's list, in
that order (`genMirRewrites_slots`), and since an instruction's list has no
repetition, no entry holds the same rewrite twice (`genMirRewrites_nodup`).
A writer that files a selection of a list composes along the visitor's
sequences as `List.Sublist.append` does.

Key definitions: `rvalueSlot`, `cellUseSlots`, `assignSlots`, `callSlots`,
`instrSlots`.
Key theorems: `Emits.bind_sublist`, `emits_visitAssign`,
`emits_visitInstrKind`, `instrSlots_nodup`, `genMirRewrites_slots`,
`genMirRewrites_nodup`.
-/
import C2RustRewrite.MirOpCalls

namespace C2RustRewrite
namespace Mir

open scoped List

/-! ### Writers that file a selection of a list -/

section Selects

variable {S T : List MirRewrite} {f g : Visit}

theorem emits_pure_sublist : Emits (· <+ S) pure :=
  emits_pure.mono fun _ h => h ▸ List.nil_sublist S

theorem emits_emit_sublist (rw : RewriteKind) : Emits (· <+ [⟨rw, []⟩]) (emit rw) :=
  (emits_emit rw).mono fun _ h => h ▸ List.Sublist.refl _

/-- A writer that files nothing files a selection of any list. -/
theorem emits_sublist_of_files (h : Files (fun _ => False) f) : Emits (· <+ S) f :=
  let ⟨w, hw, ha⟩ := h
  ⟨w, hw, fun rs hrs => List.eq_nil_iff_forall_not_mem.2 (ha rs hrs) ▸ List.nil_sublist S⟩

theorem Emits.enter_sublist (h : Emits (· <+ S) f) (sub : SubLoc) :
    Emits (· <+ S.map (MirRewrite.under [sub])) (Mir.enter sub f) :=
  h.enter.mono fun _ ⟨_, ha, h⟩ => h ▸ ha.map _

/-- A sequence files a selection of the first list, then one of the second. -/
theorem Emits.bind_sublist (hf : Emits (· <+ S) f) (hg : Emits (· <+ T) g) :
    Emits (· <+ S ++ T) fun v => f v >>= g :=
  (hf.bind hg).mono fun _ ⟨_, _, ha, hb, h⟩ => h ▸ ha.append hb

theorem Emits.select {Q : List MirRewrite → Prop} {c : Prop} [Decidable c] (hf : Emits Q f)
    (hg : Emits Q g) : Emits Q (if c then f else g) := by
  split <;> assumption

/-- Nothing, or `r` alone, is a selection of `[r]`. -/
theorem sublist_singleton_of {rs : List MirRewrite} {r : MirRewrite} (h : rs = [] ∨ rs = [r]) :
    rs <+ [r] := by
  rcases h with rfl | rfl
  exacts [List.nil_sublist _, List.Sublist.refl _]

theorem ite_sublist (c : Prop) [Decidable c] (r : MirRewrite) : (if c then [r] else []) <+ [r] :=
  sublist_singleton_of (by split_ifs <;> simp)

theorem AtMostCast.sublist {rs : List MirRewrite} (h : AtMostCast rs) : rs <+ [⟨.mutToImm, []⟩] :=
  sublist_singleton_of h

end Selects

/-! ### The slots -/

/-- The rewrite `visit_rvalue` can file for `rv`, relative to it: the cast
of a used operand, or the `RawToRef` of an address taken, of mutability `m`. -/
def rvalueSlot (m : Bool) : Rvalue → List MirRewrite
  | .use _ => [⟨.mutToImm, [.rvalueOperand 0]⟩]
  | .addressOf .. => [⟨.rawToRef m, [.rvalueOperand 0]⟩]
  | _ => []

/-- The rewrites the `match rv` of an assignment can file: for a `Use`,
`CellNew`, then `CellGet`, both at the right-hand side's first operand. -/
def cellUseSlots : Rvalue → List MirRewrite
  | .use _ => [⟨.cellNew, [.assignRvalue, .rvalueOperand 0]⟩,
      ⟨.cellGet, [.assignRvalue, .rvalueOperand 0]⟩]
  | _ => []

/-- The rewrites an assignment `_ = rv` can be filed with, in the order
`visit_statement` files them. -/
def assignSlots (m : Bool) (rv : Rvalue) : List MirRewrite :=
  [⟨.cellSet, [.assignRvalue]⟩] ++ cellUseSlots rv ++
    (rvalueSlot m rv).map (MirRewrite.under [.assignRvalue]) ++ [⟨.mutToImm, []⟩]

/-- The rewrites a call can be filed with, by its callee, in the order
`visit_terminator` files them; `mutbl` is the mutability of the offset. -/
def callSlots (mutbl : Bool) : Callee → List MirRewrite
  | .ptrOffset => [⟨.mutToImm, [.callArg 0]⟩, ⟨.offsetSlice mutbl, []⟩, ⟨.sliceFirst mutbl, []⟩]
  | .sliceAsPtr => [⟨.removeAsPtr, []⟩]
  | .other => []

/-- The rewrites an instruction can be filed with, in order; `m` is the
mutability of an `AddressOf`'s `RawToRef`. -/
def instrSlots (acx : AnalysisCtxt) (asn : Assignment) (m : Bool) : Instr → List MirRewrite
  | .stmt ⟨.assign _ rv, _⟩ => assignSlots m rv
  | .term ⟨.call func (_ :: _) destination, _⟩ =>
    callSlots ((descOf acx asn (acx.typeOfPlace destination)).own == .mut) (acx.tyCallee func)
  | _ => []

theorem assignSlots_nodup (m : Bool) (rv : Rvalue) : (assignSlots m rv).Nodup := by
  cases rv <;> simp [assignSlots, cellUseSlots, rvalueSlot, MirRewrite.under]

theorem callSlots_nodup (mutbl : Bool) (c : Callee) : (callSlots mutbl c).Nodup := by
  cases c <;> simp [callSlots]

/-- No instruction can be filed with one rewrite twice. -/
theorem instrSlots_nodup (acx : AnalysisCtxt) (asn : Assignment) (m : Bool) (ins : Instr) :
    (instrSlots acx asn m ins).Nodup := by
  rcases ins with ⟨kind, _⟩ | ⟨kind, _⟩ <;> cases kind
  case stmt.mk.assign => exact assignSlots_nodup m _
  case term.mk.call args _ =>
    cases args
    · exact List.nodup_nil
    · exact callSlots_nodup _ _
  all_goals exact List.nodup_nil

/-! ### One lemma per method -/

section Methods

variable (acx : AnalysisCtxt) (asn : Assignment)

theorem emits_emitCastLtyLty (srcLty dstLty : LTy) :
    Emits (· <+ [⟨.mutToImm, []⟩]) (emitCastLtyLty acx asn srcLty dstLty) :=
  Emits.ite (fun _ => emits_pure_sublist)
    fun _ => Emits.ite (fun _ => emits_pure_sublist)
      fun _ => Emits.lookup (descAt_panic acx asn _) fun _ _ =>
        Emits.lookup (descAt_panic acx asn _) fun _ _ =>
          (emits_emitCastDescDesc acx _ _).mono fun _ => AtMostCast.sublist

/-- An operand files at most its cast. -/
theorem emits_visitOperand (op : Operand) (expect : Option LTy) :
    Emits (· <+ [⟨.mutToImm, []⟩]) (visitOperand acx asn op expect) := by
  cases op
  case constant => exact emits_pure_sublist
  all_goals
    refine (emits_pure_sublist (S := [])).bind_sublist ?_
    cases expect
    · exact emits_pure_sublist
    · exact Emits.ite (fun _ => emits_emitCastLtyLty acx asn _ _) fun _ => emits_pure_sublist

theorem emits_rawToRefOf (mutbl : Mutability) (own : Ownership) :
    ∃ m, Emits (· <+ [⟨.rawToRef m, []⟩]) (rawToRefOf mutbl own) := by
  cases own
  case cell => exact ⟨false, emits_emit_sublist _⟩
  case imm | «mut» => exact ⟨mutbl == .mut, emits_emit_sublist _⟩
  all_goals exact ⟨false, emits_pure_sublist⟩

/-- An rvalue files at most its slot: the cast of a `Use`, the `RawToRef`
of an `AddressOf`, and for any other rvalue nothing. -/
theorem emits_visitRvalue (rv : Rvalue) (expect : Option LTy) :
    ∃ m, Emits (· <+ rvalueSlot m rv) (visitRvalue acx asn rv expect) := by
  cases rv
  case use op => exact ⟨false, (emits_visitOperand acx asn op expect).enter_sublist _⟩
  case addressOf mutbl pl =>
    have place := (emits_pure_sublist (S := [])).enter_sublist (.rvaluePlace 0)
    cases expect
    case none => exact ⟨false, place.bind_sublist emits_pure_sublist⟩
    case some e =>
      obtain ⟨m, hm⟩ := emits_rawToRefOf mutbl (descOf acx asn e).own
      refine ⟨m, place.bind_sublist (Emits.lookup (descAt_panic acx asn _) fun _ hd => ?_)⟩
      rw [eq_descOf_of_descAt acx asn hd]
      exact hm.enter_sublist _
  all_goals exact ⟨false, emits_sublist_of_files ((files_visitRvalue acx asn _ expect).mono
    fun _ h => by simp [RvalueFiled, Rvalue.isUse, Rvalue.isAddressOf] at h)⟩

theorem emits_visitCellSet (pl : Place) :
    Emits (· <+ [⟨.cellSet, [.assignRvalue]⟩]) (visitCellSet acx asn pl) :=
  Emits.ite (fun _ => Emits.lookup (descAt_panic acx asn _) fun _ _ =>
    Emits.ite (fun _ => (emits_emit_sublist _).enter_sublist _) fun _ => emits_pure_sublist)
    fun _ => emits_pure_sublist

/-- The `Use` case files at most `CellNew`, then at most `CellGet`. -/
theorem emits_visitCellUse (pl : Place) (rv : Rvalue) :
    Emits (· <+ cellUseSlots rv) (visitCellUse acx asn pl rv) := by
  cases rv
  case use rvOp =>
    have cell (k : RewriteKind) : Emits (· <+ [⟨k, [.assignRvalue, .rvalueOperand 0]⟩])
        (enter .assignRvalue (enter (.rvalueOperand 0) (emit k))) :=
      (((emits_emit_sublist k).enter_sublist _).enter_sublist _)
    refine Emits.lookup (permsAt_panic asn _) fun _ _ => Emits.lookup (flagsAt_panic asn _)
      fun _ _ => (Emits.select (cell _) emits_pure_sublist).bind_sublist ?_
    cases rvOp.place
    · exact emits_pure_sublist
    · exact Emits.ite (fun _ => Emits.lookup (flagsAt_panic asn _) fun _ _ =>
        Emits.ite (fun _ => cell _) fun _ => emits_pure_sublist) fun _ => emits_pure_sublist
  all_goals exact emits_pure_sublist

/-- **An assignment's rewrites, in order.** A selection of `CellSet`,
`CellNew`, `CellGet`, the rvalue's rewrite and the cast of the whole value. -/
theorem emits_visitAssign (pl : Place) (rv : Rvalue) (loc : Location) :
    ∃ m, Emits (· <+ assignSlots m rv) (visitAssign acx asn pl rv loc) := by
  obtain ⟨m, hrv⟩ := emits_visitRvalue acx asn rv (some (acx.typeOfRvalue rv loc))
  refine ⟨m, Emits.ite (fun _ => emits_pure_sublist) fun _ => ?_⟩
  refine ((emits_visitCellSet acx asn pl).bind_sublist ((emits_visitCellUse acx asn pl rv).bind_sublist
    ((hrv.enter_sublist _).bind_sublist ((emits_emitCastLtyLty acx asn _ _).bind_sublist
      ((emits_pure_sublist (S := [])).enter_sublist .dest))))).mono fun _ h => ?_
  simpa only [assignSlots, List.append_assoc, List.map_nil, List.append_nil] using h

theorem OffsetFiled.sublist {d : TypeDesc} {rs : List MirRewrite} (h : OffsetFiled d rs) :
    rs <+ callSlots (d.own == .mut) .ptrOffset := by
  obtain ⟨pre, hpre, rfl⟩ := h
  exact (sublist_singleton_of hpre).append ((ite_sublist _ _).cons₂ _)

/-- **The instruction-level order.** -/
theorem emits_visitInstrKind (ins : Instr) (loc : Location) :
    ∃ m, Emits (· <+ instrSlots acx asn m ins) (visitInstrKind acx asn ins loc) := by
  rcases ins with ⟨kind, _⟩ | ⟨kind, _⟩ <;> cases kind
  case stmt.mk.assign pl rv => exact emits_visitAssign acx asn pl rv loc
  case term.mk.call func args destination =>
    refine ⟨false, ?_⟩
    cases args with
    | nil =>
      unfold visitInstrKind visitTerminatorKind
      dsimp only
      cases acx.tyCallee func
      all_goals first | exact emits_error _ nofun | exact emits_pure_sublist
    | cons op args =>
      rw [visitInstrKind_call]
      cases hc : acx.tyCallee func
      · exact (emits_visitPtrOffset acx asn op _).mono fun _ h => by
          simpa only [instrSlots, hc] using h.sublist
      · exact (emits_visitSliceAsPtr acx asn op _).mono fun _ h => by
          simp only [instrSlots, hc, callSlots, h, ite_sublist]
      · exact emits_pure_sublist
  all_goals exact ⟨false, by first | exact emits_error _ nofun | exact emits_pure_sublist⟩

end Methods

/-! ### Over a whole body -/

section Run

variable (acx : AnalysisCtxt) (asn : Assignment)

theorem slots_of_entry {body : Body} {loc : Location} {rs : List MirRewrite}
    (h : (· loc) <$> genMirRewrites acx asn body = .ok (some rs)) :
    ∃ ins m, body.stmtAt loc = some ins ∧ rs <+ instrSlots acx asn m ins := by
  obtain ⟨ins, hins, he, -⟩ := genMirRewrites_entry acx asn h
  obtain ⟨m, hm⟩ := emits_visitInstrKind acx asn ins loc
  exact ⟨ins, m, hins, hm.emitted he⟩

/-- **The order of an entry.** For every body the pass gets through, each
entry of its map is a selection, in order, of the rewrites the instruction
at its location can be filed with: at an assignment `CellSet`, `CellNew`,
`CellGet`, the rvalue's rewrite and the cast of the whole value; at a call
of `ptr.offset` the argument's cast, `OffsetSlice` and `SliceFirst`; at a
call of `as_ptr`, `RemoveAsPtr`. -/
theorem genMirRewrites_slots (body : Body) (loc : Location) (rs : List MirRewrite)
    (h : (· loc) <$> genMirRewrites acx asn body = .ok (some rs)) :
    ∃ ins m, body.stmtAt loc = some ins ∧ rs <+ instrSlots acx asn m ins :=
  slots_of_entry acx asn h

/-- **No rewrite twice.** No entry of the map holds the same rewrite twice. -/
theorem genMirRewrites_nodup (body : Body) (loc : Location) (rs : List MirRewrite)
    (h : (· loc) <$> genMirRewrites acx asn body = .ok (some rs)) : rs.Nodup :=
  let ⟨ins, m, _, hs⟩ := slots_of_entry acx asn h
  (instrSlots_nodup acx asn m ins).sublist hs

end Run

/-- The field store of `cellFieldBody` files `CellSet` and `CellNew`, the
first two of the assignment's slots. -/
theorem cellField_slots :
    (· ⟨0, 0⟩) <$> genMirRewrites (uniformCtxt ⟨.cell, .single, .other 0⟩) noPerms cellFieldBody =
        .ok (some [⟨.cellSet, [.assignRvalue]⟩, ⟨.cellNew, [.assignRvalue, .rvalueOperand 0]⟩]) ∧
      ∃ ins m, cellFieldBody.stmtAt ⟨0, 0⟩ = some ins ∧
        [(⟨.cellSet, [.assignRvalue]⟩ : MirRewrite), ⟨.cellNew, [.assignRvalue, .rvalueOperand 0]⟩] <+
          instrSlots (uniformCtxt ⟨.cell, .single, .other 0⟩) noPerms m ins :=
  ⟨entry_of_perInstruction (by decide) (by decide),
    genMirRewrites_slots (uniformCtxt ⟨.cell, .single, .other 0⟩) noPerms cellFieldBody ⟨0, 0⟩ _
      (entry_of_perInstruction (by decide) (by decide))⟩

/-- The field store's entry has no repetition. -/
theorem cellField_nodup :
    (· ⟨0, 0⟩) <$> genMirRewrites (uniformCtxt ⟨.cell, .single, .other 0⟩) noPerms cellFieldBody =
        .ok (some [⟨.cellSet, [.assignRvalue]⟩, ⟨.cellNew, [.assignRvalue, .rvalueOperand 0]⟩]) ∧
      [(⟨.cellSet, [.assignRvalue]⟩ : MirRewrite), ⟨.cellNew, [.assignRvalue, .rvalueOperand 0]⟩].Nodup :=
  ⟨entry_of_perInstruction (by decide) (by decide),
    genMirRewrites_nodup (uniformCtxt ⟨.cell, .single, .other 0⟩) noPerms cellFieldBody ⟨0, 0⟩ _
      (entry_of_perInstruction (by decide) (by decide))⟩

end Mir

end C2RustRewrite
